import NominalGenerics.Description
import NominalGenerics.Proofs.Derived
import NominalGenerics.Proofs.Locating
import NominalGenerics.Proofs.Present
import NominalGenerics.Proofs.Reachability
import NominalGenerics.Proofs.Registered

/-!
# What is listed resolves

A description of a type lists its ancestors and the methods that are visible on it by their names,
while a method is resolved by looking for the declaration of its owner above the type. That the two
agree is one statement about seeing a type as a declaration above it (`Engine.SeenAs`): the subtype
tests pass, and the search for the use of the declaration ends without meeting a missing type.

Main statement: what is listed has a line and what is found resolves, but for the methods of a class
that bears the name of an array type (`Library.listed_members_resolve`).
-/

namespace NominalGenerics

/-! ## Registries without missing types -/

/-- What holds of the registry of the root type, goes on to hold while declarations are made and is
kept by loading holds of every registry. -/
theorem Hierarchy.Loaded.registry_induct {P : Hierarchy → Registry → Prop} (root : P .root .root)
    (grow : ∀ h h' r, P h r → h.Grows h' → P h' r)
    (load : ∀ (l l' : Library) (model : ClassModel), P l.hierarchy l.registry →
      l.load model = .ok l' → P l'.hierarchy l'.registry)
    {h : Hierarchy} {rs : List Registry} (loaded : h.Loaded rs) : ∀ r ∈ rs, P h r := by
  induction loaded with
  | root =>
    intro r member
    rw [List.mem_singleton.mp member]
    exact root
  | @load h rs r model l _ member ok ih =>
    intro q listed
    rcases List.mem_cons.mp listed with rfl | before
    · exact load ⟨h, r⟩ l model (ih r member) ok
    · exact grow _ _ _ (ih q before) (Library.load_grows ok)
  | read count _ ih =>
    intro r member
    exact grow _ _ _ (ih r member) ⟨Nat.le_refl _, fun _ _ => rfl⟩

def Registry.Named (r : Registry) (d : DeclId) : Prop := ∃ name, r.lookup? name = some d

/-- A consistent registry without missing types: it names none, and the signatures it lists have
all their parameter types. -/
structure Registry.Complete (h : Hierarchy) (r : Registry) : Prop extends r.Consistent h where
  size : DeclId.missing.index < h.decls.size
  present : ¬ r.Named .missing
  typed : ∀ name, ∀ m ∈ r.methodsOf name, ∃ params : List Ty, m.params = params.map some

theorem Library.parseSignature_parts {r : Reader} {d : DeclId} {m : MethodDecl}
    {signature : Signature} (ok : parseSignature r d m = .ok signature) :
    ∃ (scope : Scope) (params : List Ty),
      r.parseParams m.typeParams = .ok (signature.typeParams, scope) ∧
      signature.params = params.map some := by
  obtain ⟨⟨typeParams, scope⟩, readParams, ok⟩ := bind_eq_ok.mp ok
  obtain ⟨params, -, ok⟩ := bind_eq_ok.mp ok
  refine ⟨scope, params, ?_⟩
  dsimp only at ok
  split at ok
  · cases ok
    exact ⟨readParams, rfl⟩
  · obtain ⟨returns, -, ok⟩ := bind_eq_ok.mp ok
    cases ok
    exact ⟨readParams, rfl⟩

namespace Registry

variable {h h' : Hierarchy} {r : Registry} {d e : DeclId}

theorem Complete.root : Registry.root.Complete .root where
  toConsistent := .root
  size := by decide
  present := by
    rintro ⟨name, named⟩
    exact absurd (Library.lookup?_root named).2 (by decide)
  typed name m listed := nomatch listed

theorem Complete.grow (complete : r.Complete h) (grows : h.Grows h') : r.Complete h' where
  toConsistent := complete.toConsistent.grow grows
  size := Nat.lt_of_lt_of_le complete.size grows.size
  present := complete.present
  typed := complete.typed

theorem Complete.load {l l' : Library} {model : ClassModel}
    (complete : l.registry.Complete l.hierarchy) (ok : l.load model = .ok l') :
    l'.registry.Complete l'.hierarchy := by
  obtain ⟨entries, -, builds⟩ := Library.load_builds ok
  refine ⟨complete.toConsistent.load ok,
    Nat.lt_of_lt_of_le complete.size (Library.load_grows ok).size, ?_, ?_⟩
  · rintro ⟨name, named⟩
    rcases builds.names name _ named with old | ⟨e, member, same, -⟩
    · exact complete.present ⟨name, old⟩
    · -- new declarations come after those that were there
      have after := (builds.mem_range member).1
      rw [same] at after
      exact Nat.not_lt.mpr after complete.size
  · intro name m listed
    rcases builds.methods listed with old | ⟨e, member, rfl, scope, -, signatures, signs, added⟩
    · exact complete.typed name m old
    · obtain ⟨_, _, -, read⟩ := signs.parsed added
      obtain ⟨-, params, -, typed⟩ := Library.parseSignature_parts read
      exact ⟨params, typed⟩

end Registry

theorem Hierarchy.Loaded.complete {h : Hierarchy} {rs : List Registry} (loaded : h.Loaded rs)
    {r : Registry} (member : r ∈ rs) : r.Complete h :=
  loaded.registry_induct (P := fun h r => r.Complete h) .root
    (fun _ _ _ before grows => before.grow grows) (fun _ _ _ before ok => before.load ok) r member

namespace Registry

variable {h : Hierarchy} {r : Registry} {d e : DeclId} {t : Ty}

theorem Consistent.lookup?_of_named (consistent : r.Consistent h) (named : r.Named d) :
    r.lookup? d.name = some d := by
  obtain ⟨name, found⟩ := named
  rw [consistent.named name d found]
  exact found

/-- What fits the arities of a registry uses declarations that it names. -/
theorem within_of_fits {us : List Ty} (fits : ∀ u ∈ us, u.Fits (r.arity h)) :
    Within r.Named us := by
  intro u member d head
  obtain ⟨d', k, head', known, -⟩ := fits u member
  cases head.symm.trans head'
  exact ⟨_, (arity_eq_some.mp known).1⟩

/-- What is read with the names of a registry uses declarations that it names. -/
theorem Consistent.within_of_parseType (consistent : r.Consistent h) {source : Nat} {text : String}
    (read : (Reader.mk h r .empty source).parseType text = .ok t) : Within r.Named t.uses := by
  have whole : (Reader.mk h r .empty source).Whole (r.arity h) := by
    refine ⟨⟨?_, Library.proper_empty⟩, nofun⟩
    intro name d found
    apply arity_eq_some.mpr
    rw [consistent.named name d found]
    exact ⟨found, rfl⟩
  exact within_of_fits (whole.parseType read).uses

theorem Consistent.named_of_reaches (consistent : r.Consistent h) (named : r.Named d)
    (reaches : h.Reaches d e) : r.Named e := by
  induction reaches with
  | refl => exact named
  | tail _ edge ih =>
    obtain ⟨w, written, head⟩ := edge
    exact (consistent.closed.within_supertype (within_decl ih) written).head head

end Registry

/-! ## The search for an instantiation -/

namespace Hierarchy

variable {h : Hierarchy} {ids : List DeclId} {live : DeclId → Prop} {t : Ty} {d e : DeclId}

/-- A whole class type that uses live declarations. -/
structure Clear (h : Hierarchy) (ids : List DeclId) (live : DeclId → Prop) (t : Ty) : Prop where
  whole : t.Formed (h.arity ids) (.whole (h.arity ids))
  isClass : ∃ d, t.head? = some d
  within : Within live t.uses

theorem Clear.instantiateAll (clear : h.Clear ids live t) (sound : h.Sound ids)
    (closed : h.Closed live) (head : t.head? = some e) : ∃ supers, h.instantiateAll t = .ok supers ∧
      supers.length = (h.supertypes (.decl e)).length ∧ ∀ u ∈ supers, h.Clear ids live u := by
  obtain ⟨supers, ok, length, all, -⟩ := sound.instantiateAll_ok ParamSet.whole_stable
    clear.whole head
  refine ⟨supers, ok, length, ?_⟩
  intro u member
  obtain ⟨w, written, goes, whole, isClass⟩ := all u member
  exact ⟨whole, isClass, instantiate_within closed clear.within written goes⟩

/-- A search among clear types with steps enough ends, meets no missing type and finds a clear type
if any. -/
theorem locateFrom_clear (sound : h.Sound ids) (closed : h.Closed live) (present : ¬ live .missing)
    (d : DeclId) {fuel : Nat} {queue : List Ty} {visited : List DeclId}
    (enough : queue.length + pending (fun e => (h.supertypes (.decl e)).length) ids visited < fuel)
    (clear : ∀ t ∈ queue, h.Clear ids live t) :
    ∃ found, h.locateFrom d fuel queue visited = .ok found ∧
      h.searchLooks d fuel queue visited = false ∧ ∀ u, found = some u → h.Clear ids live u := by
  induction fuel generalizing queue visited with
  | zero => omega
  | succ fuel ih =>
    cases queue with
    | nil => exact ⟨none, rfl, rfl, nofun⟩
    | cons t queue =>
      obtain ⟨here, rest⟩ := List.forall_mem_cons.mp clear
      obtain ⟨e, head⟩ := here.isClass
      rw [List.length_cons] at enough
      unfold locateFrom searchLooks
      simp only [head]
      split
      · exact ih (by omega) rest
      · rename_i new
        split
        · -- the number of arguments is nought or the right one
          rename_i goal
          obtain ⟨rfl, -⟩ := goal
          rcases Sound.length_args head here.whole.loose with unapplied | length
          · exact ⟨none, by simp [unapplied], rfl, nofun⟩
          · rw [← length]
            split
            · exact ⟨none, rfl, rfl, nofun⟩
            · rw [if_pos rfl]
              refine ⟨t, rfl, rfl, ?_⟩
              rintro _ ⟨⟩
              exact here
        · -- what is above a live type is live, so the missing type is not met
          have listed : e ∈ ids := by
            obtain ⟨k, known⟩ := here.whole.head head
            exact (arity_eq_some.mp known).1
          have other : e ≠ .missing := by
            rintro rfl
            exact present (here.within.head head)
          have less :=
            pending_cons_add_le (f := fun e => (h.supertypes (.decl e)).length) listed new
          obtain ⟨supers, ok, length, clears⟩ := here.instantiateAll sound closed head
          rw [ok]
          simp only [decide_eq_false other, hidesSupertype_of_within present closed here.within,
            Bool.or_false, Bool.false_eq_true, if_false]
          refine ih (by rw [List.length_append]; omega) ?_
          intro u member
          rcases List.mem_append.mp member with before | above
          · exact rest u before
          · exact clears u above

theorem locate_clear (sound : h.Sound ids) (closed : h.Closed live) (present : ¬ live .missing)
    (clear : h.Clear ids live t) (d : DeclId) : ∃ found, h.locate d t = .ok found ∧
      h.searchLooks d (h.budget t.weight) [t] [] = false ∧
      ∀ u, found = some u → h.Clear ids live u := by
  rw [locate_eq]
  refine locateFrom_clear sound closed present d (search_lt_budget sound t) ?_
  intro u member
  rw [List.mem_singleton.mp member]
  exact clear

end Hierarchy

/-! ## Seeing a type as one above it -/

namespace Context

variable {Γ : Context} {ids : List DeclId} {t u : Ty} {d e : DeclId}

/-- What is above a class type passes the subtype test, whatever counts as implemented. -/
theorem isSubtype_of_reaches (sound : Γ.hierarchy.Sound ids) (head : t.head? = some d)
    (head' : u.head? = some e) (member : d ∈ ids) (reaches : Γ.hierarchy.Reaches d e) :
    Γ.isSubtype t u = true := by
  unfold isSubtype
  obtain ⟨fuel, enough⟩ := Nat.exists_eq_succ_of_ne_zero
    (Nat.ne_zero_of_lt (Γ.hierarchy.weight_lt_budget (t.weight + u.weight)))
  rw [enough, subtypeWithin, subtypeStep_class head head']
  by_cases same : d = e
  · simp [(Ty.is_iff head head').mpr same]
  · by_cases root : e = .object
    · simp [(Ty.isRoot_iff head').mpr root]
    · rcases derives_or_implements sound head head' member reaches same root with below | below
      · simp [below]
      · simp [below]

/-- One level of the test on class types that may be missing. -/
theorem subtypeChecked_class (fuel : Nat) (head : t.head? = some d) (head' : u.head? = some e) :
    Γ.subtypeChecked (fuel + 1) t u =
      if t.is u then .ok true
      else if u.isMissing then .error .missingType
      else if u.isRoot then .ok true
      else if t.isMissing then .error .missingType
      else if Γ.derives t u then .ok true
      else if Γ.hierarchy.isInterface u && (Γ.hierarchy.allInterfaces t).any Ty.isMissing then
        .error .missingType
      else if Γ.implements t u || Γ.willImplement t u then .ok true
      else if Γ.hierarchy.isUnion u then
        (Γ.hierarchy.supertypes u).allM (Γ.subtypeChecked fuel t)
      else .ok false := by
  unfold subtypeChecked
  cases t <;> cases head <;> cases u <;> cases head' <;> rfl

theorem isMissing_of_head (head : t.head? = some d) (present : d ≠ .missing) :
    t.isMissing = false := by
  cases t with
  | decl c =>
    cases head
    simpa [Ty.isMissing] using present
  | bare | app | param | array => rfl

/-- Where no type above is missing, the test that looks out for missing types passes too. -/
theorem subtype_of_reaches (sound : Γ.hierarchy.Sound ids) (head : t.head? = some d)
    (head' : u.head? = some e) (member : d ∈ ids) (reaches : Γ.hierarchy.Reaches d e)
    (present : ∀ c, Γ.hierarchy.Reaches d c → c ≠ .missing) : Γ.subtype t u = .ok true := by
  have interfaces : (Γ.hierarchy.allInterfaces t).any Ty.isMissing = false := by
    rw [List.any_eq_false]
    intro i listed
    obtain ⟨c, rfl, -, above⟩ := sound.allInterfaces_sound head listed
    simp [isMissing_of_head (t := .decl c) rfl (present c above.to_reflTransGen)]
  unfold subtype
  obtain ⟨fuel, enough⟩ := Nat.exists_eq_succ_of_ne_zero
    (Nat.ne_zero_of_lt (Γ.hierarchy.weight_lt_budget (t.weight + u.weight)))
  rw [enough, subtypeChecked_class fuel head head', isMissing_of_head head (present d .refl),
    isMissing_of_head head' (present e reaches), interfaces]
  by_cases same : d = e
  · simp [(Ty.is_iff head head').mpr same]
  · by_cases root : e = .object
    · simp [(Ty.isRoot_iff head').mpr root]
    · rcases derives_or_implements sound head head' member reaches same root with below | below
      · simp [below]
      · simp [below]

/-- Above an array is the root, and no other class. -/
theorem subtype_array {s : Site} {a : Ty} (present : d ≠ .missing) :
    Γ.subtype (.array s a) (.decl d) = .ok (d == .object) := by
  unfold subtype
  obtain ⟨fuel, enough⟩ := Nat.exists_eq_succ_of_ne_zero (Nat.ne_zero_of_lt
    (Γ.hierarchy.weight_lt_budget ((Ty.array s a).weight + (Ty.decl d).weight)))
  rw [enough]
  unfold subtypeChecked
  by_cases root : d = .object
  · subst root
    rfl
  · simp [Ty.is, Ty.head?, Ty.isMissing, Ty.isRoot, present, root]

end Context

/-- A type can be seen as a use of a declaration: it is below it, and the search for the use ends
without meeting a missing type, if the declaration is generic. -/
structure Engine.SeenAs (h : Hierarchy) (ids : List DeclId) (live : DeclId → Prop) (e : Engine)
    (t : Ty) (d : DeclId) : Prop where
  below : e.isSubtype h t (.decl d) = true
  checked : (e.context h).subtype t (.decl d) = .ok true
  located : h.params d ≠ [] → ∃ found, h.locate d t = .ok found ∧
    h.searchLooks d (h.budget t.weight) [t] [] = false ∧ ∀ u, found = some u → h.Clear ids live u

namespace Engine

variable {h : Hierarchy} {ids : List DeclId} {live : DeclId → Prop} {e plain : Engine} {t : Ty}
  {d c : DeclId}

theorem seenAs_of_reaches (sound : h.Sound ids) (closed : h.Closed live) (present : ¬ live .missing)
    (clear : h.Clear ids live t) (head : t.head? = some d) (reaches : h.Reaches d c)
    (above : ∀ c, h.Reaches d c → live c) : SeenAs h ids live e t c where
  below := by
    obtain ⟨k, known⟩ := clear.whole.head head
    exact Context.isSubtype_of_reaches (Γ := e.context h) sound head rfl
      (Hierarchy.arity_eq_some.mp known).1 reaches
  checked := by
    obtain ⟨k, known⟩ := clear.whole.head head
    refine Context.subtype_of_reaches (Γ := e.context h) sound head rfl
      (Hierarchy.arity_eq_some.mp known).1 reaches ?_
    rintro _ reaches rfl
    exact present (above _ reaches)
  located _ := Hierarchy.locate_clear sound closed present clear c

/-- An array can be seen as the root, which is not generic. -/
theorem seenAs_root (sound : h.Sound ids) {s : Site} {a : Ty} :
    SeenAs h ids live e (.array s a) .object where
  below := (Context.isSubtype_array_iff (Γ := e.context h) sound.isUnion_eq_false).mpr (.inl rfl)
  checked := Context.subtype_array (by decide)
  located generic := by
    refine absurd ?_ generic
    unfold Hierarchy.params
    rw [sound.root]

/-! ## Resolving a method -/

theorem mapM_map_some (ts : List Ty) : (ts.map some).mapM id = some ts := by
  induction ts with
  | nil => rfl
  | cons t ts ih => simp [List.mapM_cons, ih]

theorem resolveWith_ok (closed : h.Closed live) {spec : Spec} (values : spec.Within live)
    (receiver : Option Ty) {m : Signature} {params : List Ty} (typed : m.params = params.map some)
    (within : Within live m.uses) :
    ∃ resolved, (resolveWith h spec receiver m).result = .ok resolved ∧
      Within live (Ty.usesAll resolved.params) ∧
      ∀ u, resolved.returns = some u → Within live u.uses := by
  simp only [Signature.uses, within_append] at within
  obtain ⟨⟨⟨-, typeParams⟩, paramTypes⟩, returns⟩ := within
  have extended := Hierarchy.addMethodParams_within closed values typeParams
  unfold resolveWith
  simp only [typed, mapM_map_some]
  refine ⟨_, rfl, ?_, ?_⟩
  · refine Hierarchy.substTypes_within closed extended (within_usesAll.mpr ?_)
    intro t listed
    exact within_usesAll.mp paramTypes t (by simpa [typed] using listed)
  · intro u answer
    obtain ⟨v, substituted, same⟩ := Option.bind_eq_some_iff.mp answer
    obtain ⟨w, written, rfl⟩ := Option.map_eq_some_iff.mp substituted
    unfold Ty.toOption at same
    split at same
    · cases same
    · cases same
      exact Hierarchy.subst_within closed extended
        (within_usesAll.mp returns w (Option.mem_toList.mpr written))

/-- What nothing is missing from is not looked at in vain. -/
theorem looks_of_within (present : ¬ live .missing) {m : Signature}
    (within : Within live m.uses) :
    (h.addingLooks m.typeParams || (m.params.filterMap id).any h.isPartial
      || m.returns.any h.isPartial) = false := by
  simp only [Signature.uses, within_append] at within
  obtain ⟨⟨⟨-, typeParams⟩, paramTypes⟩, returns⟩ := within
  have adding : h.addingLooks m.typeParams = false := by
    rw [Hierarchy.addingLooks, List.any_eq_false]
    intro p listed
    have bounds := Slot.within_upper (within_slots.mp typeParams p listed)
    have whole : p.upper.any h.isPartial = false := by
      rw [List.any_eq_false]
      intro b bound
      simp [Hierarchy.isPartial_of_within present (within_usesAll.mp bounds b bound)]
    simp [whole]
  have params : (m.params.filterMap id).any h.isPartial = false := by
    rw [List.any_eq_false]
    intro t listed
    have member : t ∈ m.params.flatMap Option.toList := by
      obtain ⟨o, inside, same⟩ := List.mem_filterMap.mp listed
      exact List.mem_flatMap.mpr ⟨o, inside, Option.mem_toList.mpr same⟩
    simp [Hierarchy.isPartial_of_within present (within_usesAll.mp paramTypes t member)]
  have answer : m.returns.any h.isPartial = false := by
    cases written : m.returns with
    | none => rfl
    | some t =>
      have member : t ∈ m.returns.toList := Option.mem_toList.mpr written
      simp [Hierarchy.isPartial_of_within present (within_usesAll.mp returns t member)]
  rw [adding, params, answer]
  rfl

theorem SeenAs.locate (seen : SeenAs h ids live plain t d) (forgetful : plain.cache = none) :
    ∃ found, (plain.locate h (.decl d) t).1.result = .ok found ∧
      ∀ u, found = some u → h.Clear ids live u := by
  unfold Engine.locate
  rw [forgetful]
  dsimp only [Ty.head?]
  split
  · exact ⟨none, rfl, nofun⟩
  · rename_i generic
    obtain ⟨found, ok, -, clear⟩ := seen.located (by simpa using generic)
    exact ⟨found, ok, clear⟩

/-- A method of a declaration that a type can be seen as can be resolved on the type. -/
theorem SeenAs.resolve (seen : SeenAs h ids live plain t d) (sound : h.Sound ids)
    (closed : h.Closed live) (forgetful : plain.cache = none) {m : Signature} {params : List Ty}
    (typed : m.params = params.map some) (within : Within live m.uses) :
    ∃ resolved, (plain.resolve h t (.decl d) m).1.result = .ok resolved ∧
      Within live (Ty.usesAll resolved.params) ∧
      ∀ u, resolved.returns = some u → Within live u.uses := by
  obtain ⟨found, located, clear⟩ := seen.locate forgetful
  unfold Engine.resolve
  simp only [sound.direct.declaration (show (Ty.decl d).head? = some d from rfl), seen.below,
    Bool.not_true, Bool.false_eq_true, if_false]
  rw [Traced.result_reported, Traced.result_bind, located]
  cases found with
  | none => exact resolveWith_ok closed Spec.within_empty _ typed within
  | some use =>
    obtain ⟨spec, created⟩ := Hierarchy.createSpec_whole .empty (clear use rfl).whole
    have values :=
      Hierarchy.createSpec_within closed Spec.within_empty (clear use rfl).within created
    dsimp only [Except.bind]
    rw [created]
    exact resolveWith_ok closed values _ typed within

theorem SeenAs.resolveOption (seen : SeenAs h ids live plain t d) (sound : h.Sound ids)
    (closed : h.Closed live) (present : ¬ live .missing) (forgetful : plain.cache = none)
    {m : Signature} {params : List Ty} (owner : m.owner = some (.decl d))
    (typed : m.params = params.map some) (within : Within live m.uses) :
    ∃ resolved, (plain.resolveOption h (some t) m).1.result = .ok resolved := by
  obtain ⟨resolved, ok, paramTypes, returns⟩ := seen.resolve sound closed forgetful typed within
  have searched : h.locatingLooks (.decl d) t = false := by
    unfold Hierarchy.locatingLooks
    cases generic : h.isGeneric (.decl d) with
    | false => rfl
    | true =>
      obtain ⟨-, -, clean, -⟩ :=
        seen.located (by simpa [Hierarchy.isGeneric, Ty.head?] using generic)
      simpa [Ty.head?] using clean
  have found : h.locatesPartial (.decl d) t = false := by
    unfold Hierarchy.locatesPartial
    cases generic : h.isGeneric (.decl d) with
    | false => rfl
    | true =>
      obtain ⟨found, located, -, clear⟩ :=
        seen.located (by simpa [Hierarchy.isGeneric, Ty.head?] using generic)
      cases found with
      | none => simp [Ty.head?, located]
      | some use =>
        simp [Ty.head?, located, Hierarchy.isPartial_of_within present (clear use rfl).within]
  have answer : resolved.returns.any Hierarchy.hasHole = false := by
    cases written : resolved.returns with
    | none => rfl
    | some u => simp [Hierarchy.hasHole_of_within present (returns u written)]
  refine ⟨resolved, ?_⟩
  unfold Engine.resolveOption
  simp only [owner, sound.direct.declaration (show (Ty.decl d).head? = some d from rfl),
    seen.checked, searched, Bool.and_false, Bool.false_eq_true, if_false]
  rw [Traced.result_bind, ok, looks_of_within present within, found]
  simp only [Except.bind, Bool.false_or, answer,
    Hierarchy.typesHaveHole_of_within present paramTypes]
  rfl

/-- A method of a class that bears the name of an array does not belong to the array. -/
theorem resolveOption_array (sound : h.Sound ids) {s : Site} {a : Ty} {m : Signature}
    (owner : m.owner = some (.decl d)) (present : d ≠ .missing) (proper : d ≠ .object) :
    (e.resolveOption h (some (.array s a)) m).1.result = .error
      (.violation ⟨.notAMember (a.name ++ "[]") m.name, .array s a, .decl d⟩) := by
  have apart : (e.context h).subtype (.array s a) (.decl d) = .ok false := by
    rw [Context.subtype_array present]
    simpa using proper
  have below : e.isSubtype h (.array s a) (.decl d) = false := by
    unfold Engine.isSubtype Context.isSubtype
    cases (e.context h).hierarchy.budget ((Ty.array s a).weight + (Ty.decl d).weight) with
    | zero => rfl
    | succ fuel =>
      simp [Context.subtypeWithin, Context.subtypeStep, Ty.is, Ty.isRoot, Ty.head?, proper]
  unfold Engine.resolveOption Engine.resolve
  simp [owner, sound.direct.declaration (show (Ty.decl d).head? = some d from rfl), apart, below,
    Ty.name]
  rfl

end Engine

/-! ## Listings -/

namespace Listing

variable {h : Hierarchy} {plain : Engine} {first : Listing} {n k : Nat}

/-- A listing of `n` lines that did not fail and left an engine that can be trusted. -/
structure Shows (h : Hierarchy) (plain : Engine) (n : Nat) (l : Listing) : Prop where
  ok : l.error = none
  length : l.lines.length = n
  shadowed : Engine.Shadowed h l.engine plain

theorem Shows.followedBy {next : Engine → Listing} (shows : first.Shows h plain n)
    (later : ∀ e, Engine.Shadowed h e plain → (next e).Shows h plain k) :
    (first.followedBy next).Shows h plain (n + k) := by
  have second := later first.engine shows.shadowed
  unfold Listing.followedBy
  rw [shows.ok]
  refine ⟨second.ok, ?_, second.shadowed⟩
  rw [List.length_append, shows.length, second.length]

theorem shows_ofAnswer {α : Type} {answer : Traced α × Engine} {a : α} (line : α → String)
    (ok : answer.1.result = .ok a) (shadowed : Engine.Shadowed h answer.2 plain) :
    (ofAnswer answer line).Shows h plain 1 := by
  unfold ofAnswer
  rw [ok]
  exact ⟨rfl, rfl, shadowed⟩

end Listing

namespace Library

variable {h : Hierarchy} {ids : List DeclId} {r : Registry} {e plain : Engine} {t : Ty}

/-- Every ancestor gets a line when the type can be seen as it. -/
theorem ancestorLines_shows {names : List String}
    (each : ∀ name ∈ names, ∃ d, r.lookup? name = some d ∧
      Engine.SeenAs h ids r.Named plain t d) (shadowed : Engine.Shadowed h e plain) :
    ((Library.mk h r).ancestorLines t names e).Shows h plain names.length := by
  induction names generalizing e with
  | nil => exact ⟨rfl, rfl, shadowed⟩
  | cons name names ih =>
    obtain ⟨⟨d, found, seen⟩, rest⟩ := List.forall_mem_cons.mp each
    obtain ⟨agree, -, after⟩ := shadowed.find (.decl d) t
    obtain ⟨use, located, -⟩ := seen.locate shadowed.forgetful
    have line : ((Library.mk h r).ancestorLine t name e).Shows h plain 1 := by
      unfold ancestorLine mustLookup
      rw [found]
      have answered : (plain.find h (.decl d) t).1.result = .ok use :=
        (Traced.result_reported _).trans located
      exact Listing.shows_ofAnswer _ (agree.trans answered) after
    rw [List.length_cons, Nat.add_comm]
    exact line.followedBy fun e' shadowed' => ih rest shadowed'

theorem methodLines_shows {ms : List Signature}
    (each : ∀ m ∈ ms, ∃ resolved, (plain.resolveOption h (some t) m).1.result = .ok resolved)
    (shadowed : Engine.Shadowed h e plain) :
    ((Library.mk h r).methodLines t ms e).Shows h plain ms.length := by
  induction ms generalizing e with
  | nil => exact ⟨rfl, rfl, shadowed⟩
  | cons m ms ih =>
    obtain ⟨⟨resolved, ok⟩, rest⟩ := List.forall_mem_cons.mp each
    obtain ⟨agree, -, after⟩ := shadowed.resolveOption (some t) m
    rw [List.length_cons, Nat.add_comm]
    exact (Listing.shows_ofAnswer _ (agree.trans ok) after).followedBy
      fun e' shadowed' => ih rest shadowed'

/-- A method that cannot be resolved ends the listing. -/
theorem methodLines_error {m : Signature} {ms : List Signature} {f : Failure}
    (failed : (plain.resolveOption h (some t) m).1.result = .error f)
    (shadowed : Engine.Shadowed h e plain) :
    ((Library.mk h r).methodLines t (m :: ms) e).error = some (.failed f) := by
  have agree := (shadowed.resolveOption (some t) m).1
  unfold methodLines Listing.ofAnswer
  rw [agree, failed]
  rfl

/-! ## The owners of the methods of a type -/

/-- The methods of a class type are listed under the names of its declaration and those above. -/
theorem mem_owners (sound : h.Sound ids) {d : DeclId} (head : t.head? = some d) {name : String} :
    name ∈ Registry.owners h t ↔ ∃ c, h.Reaches d c ∧ c.name = name := by
  have own : (h.declaration t).name = d.name := by
    rw [sound.direct.declaration head]
    rfl
  rw [Registry.owners, List.mem_cons, own, Hierarchy.mem_ancestorNames]
  constructor
  · rintro (rfl | ⟨u, listed, rfl⟩)
    · exact ⟨d, .refl, rfl⟩
    · obtain ⟨c, rfl, path⟩ := (sound.mem_ancestors head).mp listed
      exact ⟨c, path.to_reflTransGen, rfl⟩
  · rintro ⟨c, reaches, rfl⟩
    rcases Relation.reflTransGen_iff_eq_or_transGen.mp reaches with rfl | path
    · exact .inl rfl
    · exact .inr ⟨.decl c, (sound.mem_ancestors head).mpr ⟨c, rfl, path⟩, rfl⟩

theorem seenAs_of_owner (sound : h.Sound ids) (complete : r.Complete h)
    (clear : h.Clear ids r.Named t) {name : String} (owner : name ∈ Registry.owners h t) :
    ∃ d, r.lookup? name = some d ∧ Engine.SeenAs h ids r.Named plain t d := by
  obtain ⟨d, head⟩ := clear.isClass
  have named := clear.within.head head
  have above : ∀ c, h.Reaches d c → r.Named c :=
    fun c reaches => complete.toConsistent.named_of_reaches named reaches
  obtain ⟨c, reaches, rfl⟩ := (mem_owners sound head).mp owner
  exact ⟨c, complete.toConsistent.lookup?_of_named (above c reaches),
    Engine.seenAs_of_reaches sound complete.toConsistent.closed complete.present clear head reaches
      above⟩

/-- A method of a declaration above a class type is found on it, or one of that name is. -/
theorem findMethod?_isSome (sound : h.Sound ids) (r : Registry) {d c : DeclId}
    (head : t.head? = some d) (reaches : h.Reaches d c) {name : String}
    (declared : name ∈ (r.methodsOf c.name).map Signature.name) :
    ∃ m, r.findMethod? h t name = some m := by
  obtain ⟨m, listed, rfl⟩ := List.mem_map.mp declared
  apply Option.isSome_iff_exists.mp
  refine List.find?_isSome.mpr ⟨m, List.mem_flatMap.mpr ⟨c.name, ?_, listed⟩, by simp⟩
  exact (mem_owners sound head).mpr ⟨c, reaches, rfl⟩

theorem array_name_ne_object (n : String) : n ++ "[]" ≠ DeclId.object.name := by
  intro same
  have last := congrArg (fun s : String => s.toList.getLast?) same
  have bracket : "[]".toList.getLast? = some ']' := by decide
  simp only [String.toList_append, List.getLast?_append, bracket, Option.some_or] at last
  exact absurd last (by decide)

/-- The only ancestor of an array is the root. -/
theorem seenAs_of_array_ancestor (sound : h.Sound ids) (complete : r.Complete h) {s : Site} {a : Ty}
    {name : String} (ancestor : name ∈ h.ancestorNames (.array s a)) :
    r.lookup? name = some .object ∧ Engine.SeenAs h ids r.Named plain (.array s a) .object := by
  obtain ⟨u, listed, rfl⟩ := Hierarchy.mem_ancestorNames.mp ancestor
  rw [sound.mem_ancestors_array.mp listed]
  exact ⟨complete.object, Engine.seenAs_root sound⟩

/-- What holds of a type that was read without type parameters in scope: it is a class type that the
registry knows or an array. -/
def Readable (h : Hierarchy) (ids : List DeclId) (r : Registry) (t : Ty) : Prop :=
  h.Clear ids r.Named t ∨ ∃ s a, t = .array s a

theorem readable_of_parseType (complete : r.Complete h)
    (known : ∀ name d, r.lookup? name = some d → d ∈ ids) {source : Nat} {text : String}
    (read : (Reader.mk h r .empty source).parseType text = .ok t) : Readable h ids r t := by
  have closed : t.Formed (h.arity ids) .none := by
    have reads : h.Reads [r] .empty t := ⟨r, List.mem_singleton_self r, source, text, read⟩
    refine reads.closed ?_
    intro q member
    rw [List.mem_singleton.mp member]
    exact known
  have within := complete.within_of_parseType read
  cases t with
  | param => exact closed.elim
  | array s a => exact .inr ⟨s, a, rfl⟩
  | decl d | bare s d | app s d as => exact .inl ⟨closed.whole, ⟨d, rfl⟩, within⟩

theorem seenAs_of_ancestor (sound : h.Sound ids) (complete : r.Complete h)
    (readable : Readable h ids r t) {name : String} (ancestor : name ∈ h.ancestorNames t) :
    ∃ d, r.lookup? name = some d ∧ Engine.SeenAs h ids r.Named plain t d := by
  rcases readable with clear | ⟨s, a, rfl⟩
  · exact seenAs_of_owner sound complete clear (List.mem_cons_of_mem _ ancestor)
  · exact ⟨.object, seenAs_of_array_ancestor sound complete ancestor⟩

/-- A visible method can be resolved, unless it belongs to a class that bears the name of an
array. -/
theorem resolveOption_visible (sound : h.Sound ids) (complete : r.Complete h)
    (readable : Readable h ids r t) (forgetful : plain.cache = none) {m : Signature}
    (visible : m ∈ (Registry.owners h t).flatMap r.methodsOf)
    (apart : ¬ (t.isArray = true ∧ m ∈ r.methodsOf t.name)) :
    ∃ resolved, (plain.resolveOption h (some t) m).1.result = .ok resolved := by
  obtain ⟨name, owner, listed⟩ := List.mem_flatMap.mp visible
  have seen : ∃ d, r.lookup? name = some d ∧ Engine.SeenAs h ids r.Named plain t d := by
    rcases readable with clear | ⟨s, a, rfl⟩
    · exact seenAs_of_owner sound complete clear owner
    · rcases List.mem_cons.mp owner with rfl | ancestor
      · exact absurd ⟨rfl, listed⟩ apart
      · exact ⟨.object, seenAs_of_array_ancestor sound complete ancestor⟩
  obtain ⟨d, found, seen⟩ := seen
  obtain ⟨d', found', owned⟩ := complete.owned name m listed
  rw [found] at found'
  cases found'
  obtain ⟨params, typed⟩ := complete.typed name m listed
  exact seen.resolveOption sound complete.toConsistent.closed complete.present forgetful owned typed
    (Registry.within_of_fits (complete.signatures name m listed))

/-- A method listed under the name of an array is not one of the array's. -/
theorem resolveOption_misnamed (sound : h.Sound ids) (complete : r.Complete h)
    (isArray : t.isArray = true) {m : Signature} (listed : m ∈ r.methodsOf t.name) :
    ∃ d, r.lookup? t.name = some d ∧ (e.resolveOption h (some t) m).1.result =
      .error (.violation ⟨.notAMember t.name m.name, t, .decl d⟩) := by
  cases t with
  | decl | bare | app | param => cases isArray
  | array s a =>
    obtain ⟨d, found, owned⟩ := complete.owned _ m listed
    refine ⟨d, found, Engine.resolveOption_array sound owned ?_ ?_⟩
    · rintro rfl
      exact complete.present ⟨_, found⟩
    · rintro rfl
      exact array_name_ne_object a.name (complete.named _ _ found).symm

/-! ## Descriptions -/

theorem describe_shows (sound : h.Sound ids) (complete : r.Complete h)
    (readable : Readable h ids r t) (shadowed : Engine.Shadowed h e plain) :
    ((Library.mk h r).describe e t false).Shows h plain (1 + (h.ancestorNames t).length) := by
  have first : (Listing.mk [h.describe t] none [] e).Shows h plain 1 := ⟨rfl, rfl, shadowed⟩
  exact first.followedBy fun e' shadowed' => ancestorLines_shows
    (fun name ancestor => seenAs_of_ancestor sound complete readable ancestor) shadowed'

/-- An array stands for its own declaration. -/
theorem owners_of_array (isArray : t.isArray = true) :
    Registry.owners h t = t.name :: h.ancestorNames t := by
  cases t with
  | decl | bare | app | param => cases isArray
  | array => rfl

theorem describe_methods (l : Library) (e : Engine) (t : Ty) :
    l.describe e t true = (l.describe e t false).followedBy
      (l.methodLines t ((Registry.owners l.hierarchy t).flatMap l.registry.methodsOf)) := rfl

/-- The first method listed under the name of an array ends a description of the array. -/
theorem describe_error (sound : h.Sound ids) (complete : r.Complete h)
    (readable : Readable h ids r t) (shadowed : Engine.Shadowed h e plain)
    (isArray : t.isArray = true) {m : Signature} {ms : List Signature}
    (listed : r.methodsOf t.name = m :: ms) : ∃ d, r.lookup? t.name = some d ∧
      ((Library.mk h r).describe e t true).error =
        some (.failed (.violation ⟨.notAMember t.name m.name, t, .decl d⟩)) := by
  have shows := describe_shows sound complete readable shadowed
  obtain ⟨d, found, failed⟩ := resolveOption_misnamed (e := plain) sound complete isArray
    (listed ▸ List.mem_cons_self)
  refine ⟨d, found, ?_⟩
  rw [describe_methods]
  unfold Listing.followedBy
  rw [shows.ok]
  simp only [owners_of_array isArray, List.flatMap_cons, listed, List.cons_append]
  exact methodLines_error failed shows.shadowed

/-- Every ancestor and every visible method of a type that was read with the names of a registry is
listed, and every method that is found can be resolved, whatever the engine was asked before. The
exception are methods of a class that bears the name of an array: they are found on the array, but
the array has no such members. -/
theorem listed_members_resolve {h : Hierarchy} {rs : List Registry} (loaded : h.Loaded rs)
    {r : Registry} (member : r ∈ rs) {source : Nat} {text : String} {t : Ty}
    (read : (Reader.mk h r .empty source).parseType text = .ok t) (settings : Settings)
    (requests : List Request) :
    let l : Library := ⟨h, r⟩
    let e := (Engine.ofSettings settings).after h requests
    let visible := (Registry.owners h t).flatMap r.methodsOf
    ((l.describe e t false).error = none ∧
      (l.describe e t false).lines.length = 1 + (h.ancestorNames t).length) ∧
    (¬ (t.isArray = true ∧ r.methodsOf t.name ≠ []) → (l.describe e t true).error = none ∧
      (l.describe e t true).lines.length = 1 + (h.ancestorNames t).length + visible.length) ∧
    (t.isArray = true → ∀ m ms, r.methodsOf t.name = m :: ms → ∃ d, r.lookup? t.name = some d ∧
      (l.describe e t true).error =
        some (.failed (.violation ⟨.notAMember t.name m.name, t, .decl d⟩))) ∧
    ∀ name m, r.findMethod? h t name = some m →
      ((∃ resolved, (e.resolveOption h (some t) m).1.result = .ok resolved) ↔
        ¬ (t.isArray = true ∧ m ∈ r.methodsOf t.name)) := by
  intro l e visible
  obtain ⟨ids, sound, known⟩ := loaded.sound
  have complete := loaded.complete member
  have readable := readable_of_parseType complete (known r member) read
  have shadowed := (Engine.Shadowed.ofSettings h settings).after requests
  have shows := describe_shows sound complete readable shadowed
  refine ⟨⟨shows.ok, shows.length⟩, ?_, ?_, ?_⟩
  · intro apart
    have each : ∀ m ∈ visible, ∃ resolved,
        ((Engine.ofSettings { settings with cacheSize := 0 }).resolveOption h (some t) m).1.result =
          .ok resolved := by
      intro m listed
      refine resolveOption_visible sound complete readable shadowed.forgetful listed ?_
      exact fun ⟨isArray, own⟩ => apart ⟨isArray, List.ne_nil_of_mem own⟩
    have listed : (l.describe e t true).Shows h _ _ :=
      shows.followedBy fun e' shadowed' => methodLines_shows each shadowed'
    exact ⟨listed.ok, listed.length⟩
  · intro isArray m ms listed
    exact describe_error sound complete readable shadowed isArray listed
  · intro name m found
    constructor
    · rintro ⟨resolved, ok⟩ ⟨isArray, own⟩
      obtain ⟨d, -, failed⟩ := resolveOption_misnamed (e := e) sound complete isArray own
      rw [ok] at failed
      cases failed
    · intro apart
      obtain ⟨resolved, ok⟩ := resolveOption_visible sound complete readable shadowed.forgetful
        (List.mem_of_find?_eq_some found) apart
      exact ⟨resolved, (shadowed.resolveOption (some t) m).1.trans ok⟩

/-- A shelf is a sequence of arrays; a class is called like an array of texts. -/
def shelfModel : ClassModel := { types := [
  { name := "Sequence", isInterface := true, params := ["E"],
    methods := [{ name := "first", returns := "E" }] },
  { name := "Text" },
  { name := "Text[]", methods := [{ name := "size", returns := "Text" }] },
  { name := "Shelf", params := ["T"], implemented := ["Sequence<T[]>"],
    methods := [
      { name := "swap", typeParams := ["U extends T"], params := ["U", "T"], returns := "U" }] }] }

def shelfLibrary : Library := .ofModel shelfModel

theorem loaded_shelfLibrary : shelfLibrary.hierarchy.Loaded [shelfLibrary.registry, .root] :=
  loaded_ofModel shelfModel (by decide +kernel)

/-- A shelf of texts: it is described to the end, and the method that it inherits resolves, by an
engine that remembers a look-up. -/
theorem shelf_members_resolve :
    let t := shelfLibrary.typeOf "Shelf<? extends Text>"
    let e := (Engine.ofSettings {}).after shelfLibrary.hierarchy
      [.find (some (.decl ⟨"Sequence", 2⟩)) (some t)]
    (shelfLibrary.describe e t true).error = none ∧
      ∃ m, shelfLibrary.registry.findMethod? shelfLibrary.hierarchy t "first" = some m ∧
        ∃ resolved,
          (e.resolveOption shelfLibrary.hierarchy (some t) m).1.result = .ok resolved := by
  have head : (shelfLibrary.typeOf "Shelf<? extends Text>").head? = some ⟨"Shelf", 5⟩ := by
    decide +kernel
  have edge : shelfLibrary.hierarchy.Edge ⟨"Shelf", 5⟩ ⟨"Sequence", 2⟩ := by
    have direct : (shelfLibrary.hierarchy.supertypes (.decl ⟨"Shelf", 5⟩)).any
        (fun w => w.head? == some ⟨"Sequence", 2⟩) = true := by decide +kernel
    obtain ⟨w, written, same⟩ := List.any_eq_true.mp direct
    exact ⟨w, written, eq_of_beq same⟩
  have declared : "first" ∈ (shelfLibrary.registry.methodsOf "Sequence").map Signature.name := by
    decide +kernel
  have read : (shelfLibrary.reader .empty).parseType "Shelf<? extends Text>" =
      .ok (shelfLibrary.typeOf "Shelf<? extends Text>") := parseType_typeIn (by decide +kernel)
  have isClass : (shelfLibrary.typeOf "Shelf<? extends Text>").isArray = false := by decide +kernel
  have loaded := loaded_shelfLibrary
  generalize shelfLibrary.typeOf "Shelf<? extends Text>" = t at head isClass read
  generalize shelfLibrary = l at declared edge read loaded
  obtain ⟨ids, sound, -⟩ := loaded.sound
  obtain ⟨m, found⟩ := findMethod?_isSome sound l.registry head
    (.single edge) declared
  intro t' e
  obtain ⟨-, described, -, resolves⟩ := listed_members_resolve loaded
    List.mem_cons_self read {} [.find (some (.decl ⟨"Sequence", 2⟩)) (some t)]
  have notArray : ¬ t.isArray = true := by simp [isClass]
  refine ⟨(described fun ⟨isArray, _⟩ => notArray isArray).1, m, found, ?_⟩
  exact (resolves "first" m found).mpr fun ⟨isArray, _⟩ => notArray isArray

/-- The method of the class called `Text[]` is found on an array of texts and does not resolve. -/
theorem text_array_unresolved :
    let t := shelfLibrary.typeOf "Text[]"
    let e := Engine.ofSettings {}
    (∃ m, shelfLibrary.registry.findMethod? shelfLibrary.hierarchy t "size" = some m ∧
      ∀ resolved, (e.resolveOption shelfLibrary.hierarchy (some t) m).1.result ≠ .ok resolved) ∧
    (shelfLibrary.describe e t true).error ≠ none := by
  have own : (shelfLibrary.registry.methodsOf (shelfLibrary.typeOf "Text[]").name).map
      Signature.name = ["size"] := by decide +kernel
  have isArray : (shelfLibrary.typeOf "Text[]").isArray = true := by decide +kernel
  have read : (shelfLibrary.reader .empty).parseType "Text[]" =
      .ok (shelfLibrary.typeOf "Text[]") := parseType_typeIn (by decide +kernel)
  have loaded := loaded_shelfLibrary
  generalize shelfLibrary.typeOf "Text[]" = t at own isArray read
  generalize shelfLibrary = l at own read loaded
  obtain ⟨ids, sound, known⟩ := loaded.sound
  have complete := loaded.complete List.mem_cons_self
  have readable := readable_of_parseType complete (known _ List.mem_cons_self) read
  obtain ⟨m, listed, called⟩ := List.map_eq_singleton_iff.mp own
  dsimp only
  obtain ⟨d, -, failed⟩ := resolveOption_misnamed (e := .ofSettings {}) sound complete isArray
    (listed ▸ List.mem_singleton_self m)
  obtain ⟨d', -, ended⟩ := describe_error sound complete readable
    (Engine.Shadowed.ofSettings l.hierarchy {}) isArray listed
  refine ⟨⟨m, ?_, ?_⟩, ?_⟩
  · simp only [Registry.findMethod?, owners_of_array isArray, List.flatMap_cons, listed,
      List.cons_append, List.find?_cons, called]
    rfl
  · intro resolved ok
    rw [ok] at failed
    cases failed
  · intro described
    rw [described] at ended
    cases ended

end Library

end NominalGenerics
