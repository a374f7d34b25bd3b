import NominalGenerics.Proofs.Staging

/-!
# What registries hold

Every registry of every session is consistent: what it names are classes and interfaces under their
own names, and whatever their parameters, supertypes and methods use is named by the same registry
and used with a fitting argument list (`Session.consistent_after`). Declarations made later do not
matter (`Registry.Consistent.grow`), and loading adds only what is read with the names of the end
(`Registry.Consistent.load`).
-/

namespace NominalGenerics

/-- How many parameters the declarations have that a registry knows under their own names. -/
def Registry.arity (r : Registry) (h : Hierarchy) : Arity := fun d =>
  if r.lookup? d.name = some d then some (h.params d).length else none

theorem Registry.arity_eq_some {r : Registry} {h : Hierarchy} {d : DeclId} {k : Nat} :
    r.arity h d = some k ↔ r.lookup? d.name = some d ∧ (h.params d).length = k := by
  unfold Registry.arity
  split
  · simp_all
  · simp_all

/-- What is right about a declaration, where `A` tells which declarations are known: it is a class
or an interface with type parameters, it extends a class and otherwise interfaces, and every class
type in its bounds and supertypes is of a known declaration and fits it. -/
structure Decl.Consistent (h : Hierarchy) (A : Arity) (c : Decl) : Prop where
  direct : c.standsFor = none
  noUnion : c.form ≠ .union
  params : ∀ p ∈ c.params, ∃ s n bs, p = .parameter s n bs
  super : ∀ t, c.super = some t → (∃ d, t.head? = some d) ∧ h.isInterface t = false
  interfaces : ∀ t ∈ c.interfaces, h.isInterface t = true
  uses : ∀ u ∈ c.uses, u.Fits A

/-- A registry that knows its declarations under their own names and knows everything they and
their methods use, with methods listed under the names of their owners. -/
structure Registry.Consistent (h : Hierarchy) (r : Registry) : Prop where
  object : r.lookup? DeclId.object.name = some .object
  named : ∀ name d, r.lookup? name = some d → d.name = name
  made : ∀ name d, r.lookup? name = some d → d.index < h.decls.size
  decls : ∀ name d, r.lookup? name = some d → (h.content d).Consistent h (r.arity h)
  owned : ∀ name, ∀ m ∈ r.methodsOf name,
    ∃ d, r.lookup? name = some d ∧ m.owner = some (.decl d)
  signatures : ∀ name, ∀ m ∈ r.methodsOf name, ∀ u ∈ m.uses, u.Fits (r.arity h)

theorem Ty.Fits.mono {A B : Arity} (more : ∀ d k, A d = some k → B d = some k) {u : Ty}
    (fits : u.Fits A) : u.Fits B := by
  obtain ⟨d, k, head, known, args⟩ := fits
  exact ⟨d, k, head, more d k known, args⟩

/-- Something consistent stays so when more declarations are known, as long as the known ones stay
classes or interfaces. -/
theorem Decl.Consistent.mono {h h' : Hierarchy} {A B : Arity} {c : Decl}
    (consistent : c.Consistent h A) (more : ∀ d k, A d = some k → B d = some k)
    (form : ∀ d k, A d = some k → (h'.content d).form = (h.content d).form) :
    c.Consistent h' B := by
  have same : ∀ t d, t.uses ⊆ c.uses → t.head? = some d → h'.isInterface t = h.isInterface t := by
    intro t d part head
    obtain ⟨e, k, head', known, -⟩ := consistent.uses t (part (Ty.mem_uses_of_head head))
    rw [Hierarchy.isInterface_of_head head', Hierarchy.isInterface_of_head head', form e k known]
  refine ⟨consistent.direct, consistent.noUnion, consistent.params, ?_, ?_, ?_⟩
  · intro t written
    obtain ⟨⟨d, head⟩, isClass⟩ := consistent.super t written
    refine ⟨⟨d, head⟩, (same t d ?_ head).trans isClass⟩
    intro u member
    simp only [Decl.uses, written, List.mem_append]
    exact .inl (.inl (.inr (Ty.mem_usesAll.mpr ⟨t, List.mem_singleton_self t, member⟩)))
  · intro t written
    have isInterface := consistent.interfaces t written
    obtain ⟨d, head⟩ := Hierarchy.head_of_isInterface isInterface
    refine (same t d ?_ head).trans isInterface
    intro u member
    simp only [Decl.uses, List.mem_append]
    exact .inl (.inr (Ty.mem_usesAll.mpr ⟨t, written, member⟩))
  · intro u member
    exact (consistent.uses u member).mono more

namespace Registry.Consistent

variable {h h' : Hierarchy} {r : Registry}

theorem arity_of_grows (consistent : r.Consistent h) (grows : h.Grows h') :
    r.arity h' = r.arity h := by
  funext d
  unfold Registry.arity Hierarchy.params
  split
  · rename_i named
    rw [grows.content d (consistent.made _ d named)]
  · rfl

/-- Later declarations do not matter to a consistent registry. -/
theorem grow (consistent : r.Consistent h) (grows : h.Grows h') : r.Consistent h' where
  object := consistent.object
  named := consistent.named
  made name d named := Nat.lt_of_lt_of_le (consistent.made name d named) grows.size
  decls name d named := by
    rw [grows.content d (consistent.made name d named)]
    refine (consistent.decls name d named).mono ?_ ?_
    · intro e k known
      rw [consistent.arity_of_grows grows]
      exact known
    · intro e k known
      rw [grows.content e (consistent.made _ e (Registry.arity_eq_some.mp known).1)]
  owned := consistent.owned
  signatures := by
    rw [consistent.arity_of_grows grows]
    exact consistent.signatures

theorem root : Registry.root.Consistent .root where
  object := rfl
  named name d named := by
    obtain ⟨rfl, rfl⟩ := Library.lookup?_root named
    rfl
  made name d named := by
    obtain ⟨rfl, rfl⟩ := Library.lookup?_root named
    decide
  decls name d _ := by
    rw [Hierarchy.content_root]
    exact ⟨rfl, nofun, nofun, nofun, nofun, nofun⟩
  owned name m listed := nomatch listed
  signatures name m listed := nomatch listed

end Registry.Consistent

/-! ## What reading uses -/

/-- A reader that knows its declarations and has whole type parameters in scope. -/
structure Reader.Whole (r : Reader) (A : Arity) : Prop extends r.Informed A where
  whole : ∀ s n bs, r.scope.params s n bs → ParamSet.whole A s n bs

namespace Reader.Whole

variable {A : Arity} {r : Reader}

theorem moved (whole : r.Whole A) (source : Nat) : ({ r with source := source } : Reader).Whole A :=
  ⟨whole.toInformed.moved source, whole.whole⟩

theorem parseType (whole : r.Whole A) {text : String} {t : Ty} (ok : r.parseType text = .ok t) :
    t.Formed A (.whole A) :=
  (parseType_formed whole.toInformed ok).mono (fun _ _ known => known) whole.whole

theorem parseParams (whole : r.Whole A) {texts : List String} {ps : List Slot} {scope : Scope}
    (ok : r.parseParams texts = .ok (ps, scope)) (source : Nat) :
    (∀ p ∈ ps, ∃ s n bs, p = .parameter s n bs ∧ ParamSet.whole A s n bs) ∧
      ({ r with scope := scope, source := source } : Reader).Whole A := by
  obtain ⟨declared, -, rfl⟩ := parseParams_declared whole.toInformed ok
  have each : ∀ p ∈ ps, ∃ s n bs, p = .parameter s n bs ∧ ParamSet.whole A s n bs := by
    intro p member
    obtain ⟨s, n, bs, rfl, formed⟩ := declared p member
    refine ⟨s, n, bs, rfl, ParamSet.whole_iff.mpr (formed.mono (fun _ _ known => known) ?_)⟩
    rintro s' n' bs' (rfl | outer)
    · exact ParamSet.whole_bare s' n'
    · exact whole.whole s' n' bs' outer
  refine ⟨each, ⟨whole.known, opened_proper whole.proper declared⟩, ?_⟩
  intro s n bs found
  rcases params_opened declared found with own | outer
  · obtain ⟨s', n', bs', same, inside⟩ := each _ own
    cases same
    exact inside
  · exact whole.whole s n bs outer

end Reader.Whole

theorem ParamSet.whole.uses {A : Arity} {s : Site} {n : String} {bs : List Ty}
    (whole : ParamSet.whole A s n bs) : ∀ u ∈ Ty.usesAll bs, u.Fits A :=
  Ty.FormedAll.uses (ParamSet.whole_iff.mp whole)

theorem Slot.uses_of_params {A : Arity} {ps : List Slot}
    (each : ∀ p ∈ ps, ∃ s n bs, p = .parameter s n bs ∧ ParamSet.whole A s n bs) :
    ∀ u ∈ Slot.usesAll ps, u.Fits A := by
  intro u member
  obtain ⟨p, inside, member⟩ := Slot.mem_usesAll.mp member
  obtain ⟨s, n, bs, rfl, whole⟩ := each p inside
  exact whole.uses u member

namespace Library

theorem parseTypes_whole {A : Arity} {r : Reader} (whole : r.Whole A) {texts : List String}
    {ts : List Ty} (ok : parseTypes r texts = .ok ts) : ∀ t ∈ ts, t.Formed A (.whole A) := by
  induction texts generalizing r ts with
  | nil =>
    cases ok
    exact List.forall_mem_nil _
  | cons text texts ih =>
    obtain ⟨t, parsed, ok⟩ := bind_eq_ok.mp ok
    obtain ⟨rest, later, ok⟩ := bind_eq_ok.mp ok
    cases ok
    exact List.forall_mem_cons.mpr ⟨whole.parseType parsed, ih (whole.moved _) later⟩

/-- A signature uses known declarations, its owner among them. -/
theorem parseSignature_uses {A : Arity} {r : Reader} (whole : r.Whole A) {d : DeclId} {k : Nat}
    (known : A d = some k) {m : MethodDecl} {signature : Signature}
    (ok : parseSignature r d m = .ok signature) :
    signature.owner = some (.decl d) ∧ ∀ u ∈ signature.uses, u.Fits A := by
  obtain ⟨⟨typeParams, scope⟩, opened, ok⟩ := bind_eq_ok.mp ok
  obtain ⟨params, read, ok⟩ := bind_eq_ok.mp ok
  obtain ⟨declared, inner⟩ :=
    whole.parseParams opened (r.source + Reader.paramSources m.typeParams)
  have written := parseTypes_whole inner read
  have fits : ∀ returns : Option Ty, (∀ t, returns = some t → t.Formed A (.whole A)) →
      ∀ u ∈ (Signature.mk m.name (some (.decl d)) typeParams (params.map some) returns).uses,
        u.Fits A := by
    intro returns answer u member
    simp only [Signature.uses, List.mem_append, Option.toList_some, Ty.usesAll, Ty.uses,
      List.append_nil, List.mem_singleton] at member
    rcases member with ((rfl | inside) | inside) | inside
    · refine ⟨d, k, rfl, known, ?_⟩
      intros
      contradiction
    · exact Slot.uses_of_params declared u inside
    · obtain ⟨t, listed, inside⟩ := Ty.mem_usesAll.mp inside
      simp only [List.flatMap_map, Option.toList_some, List.flatMap_singleton'] at listed
      exact (written t (by simpa using listed)).uses u inside
    · obtain ⟨t, listed, inside⟩ := Ty.mem_usesAll.mp inside
      exact (answer t (Option.mem_toList.mp listed)).uses u inside
  dsimp only at ok
  split at ok
  · cases ok
    refine ⟨rfl, fits none ?_⟩
    rintro _ ⟨⟩
  · obtain ⟨returns, answer, ok⟩ := bind_eq_ok.mp ok
    obtain ⟨t, parsed, answer⟩ := bind_eq_ok.mp answer
    cases answer
    cases ok
    refine ⟨rfl, fits (some t) ?_⟩
    rintro _ ⟨⟩
    exact (inner.moved _).parseType parsed

/-- Supertypes are known class types, a class where it is extended by a class and an interface
otherwise. -/
theorem supertypesOf_whole {A : Arity} {v : Library} {s : Scoped}
    (whole : (v.reader s.scope).Whole A) {super : Option Ty} {interfaces : List Ty}
    (ok : v.supertypesOf s = .ok (super, interfaces)) :
    (∀ t, super = some t → t.Formed A (.whole A) ∧ (∃ d, t.head? = some d) ∧
      v.hierarchy.isInterface t = false) ∧
      ∀ t ∈ interfaces, t.Formed A (.whole A) ∧ v.hierarchy.isInterface t = true := by
  obtain ⟨extended, first, ok⟩ := bind_eq_ok.mp ok
  obtain ⟨implemented, second, ok⟩ := bind_eq_ok.mp ok
  have formed₁ := parseSupertypes_formed whole.toInformed first
  have formed₂ := parseSupertypes_formed (whole.toInformed.moved _) second
  have wider : ∀ t : Ty, t.Formed A s.scope.params → t.Formed A (.whole A) :=
    fun t formed => formed.mono (fun _ _ known => known) whole.whole
  obtain ⟨supers, others, -⟩ := checkSupertypes_spec ok
  constructor
  · intro t written
    obtain ⟨member, isClass⟩ := supers t written
    exact ⟨wider t (formed₁ t member).1, (formed₁ t member).2, isClass⟩
  · intro t written
    obtain ⟨member | member, isInterface⟩ := others t written
    · exact ⟨wider t (formed₁ t member).1, isInterface⟩
    · exact ⟨wider t (formed₂ t member).1, isInterface⟩

/-! ## What loading adds -/

theorem SameView.isInterface {l v : Library} (view : SameView l v) (t : Ty) :
    v.hierarchy.isInterface t = l.hierarchy.isInterface t := by
  unfold Hierarchy.isInterface
  rcases t.head? with _ | d
  · rfl
  · show ((v.hierarchy.content d).form == .iface) = ((l.hierarchy.content d).form == .iface)
    rw [view.form]

section Builds

variable {l l' : Library} {entries : List Entry}

theorem Builds.own_name (builds : Builds l l' entries)
    (before : ∀ name d, l.registry.lookup? name = some d → d.name = name) {name : String}
    {d : DeclId} (named : l'.registry.lookup? name = some d) : d.name = name := by
  rcases builds.names name d named with old | ⟨e, member, rfl, rfl⟩
  · exact before name d old
  · exact (builds.toArranged.named e member).2

/-- Every text of a model is read by one who knows the names of the end. -/
theorem whole_of_view {A : Arity}
    (known : ∀ name d, l'.registry.lookup? name = some d →
      A d = some (l'.hierarchy.params d).length) {v : Library} (view : SameView l' v) :
    (v.reader .empty).Whole A := by
  refine ⟨⟨?_, proper_empty⟩, nofun⟩
  intro name d found
  show A d = some (v.hierarchy.params d).length
  rw [view.length d]
  apply known name d
  rw [← view.lookup?]
  exact found

/-- What is written about a declaration: whole parameters, whole class types as supertypes, and
methods read with whole type parameters in scope. -/
structure Written (A : Arity) (l : Library) (e : Entry) (scope : Scope) : Prop where
  params : ∀ p ∈ l.hierarchy.params e.2,
    ∃ s n bs, p = .parameter s n bs ∧ ParamSet.whole A s n bs
  super : ∀ t, (l.hierarchy.content e.2).super = some t → t.Formed A (.whole A) ∧
    (∃ d, t.head? = some d) ∧ l.hierarchy.isInterface t = false
  interfaces : ∀ t ∈ (l.hierarchy.content e.2).interfaces,
    t.Formed A (.whole A) ∧ l.hierarchy.isInterface t = true
  reader : ∀ v, SameView l v → (v.reader scope).Whole A

theorem Says.written {A : Arity}
    (known : ∀ name d, l'.registry.lookup? name = some d →
      A d = some (l'.hierarchy.params d).length) {e : Entry} {scope : Scope}
    (said : Says l' e scope) : Written A l' e scope := by
  obtain ⟨⟨v₁, view₁, params⟩, ⟨v₂, view₂, supertypes⟩⟩ := said
  obtain ⟨declared, inner⟩ := (whole_of_view known view₁).parseParams params 0
  have opened : ∀ v, SameView l' v → (v.reader scope).Whole A := fun v view =>
    ⟨⟨(whole_of_view known view).known, inner.proper⟩, inner.whole⟩
  obtain ⟨supers, interfaces⟩ := supertypesOf_whole (opened v₂ view₂) supertypes
  refine ⟨declared, ?_, ?_, opened⟩
  · intro t written
    obtain ⟨formed, head, isClass⟩ := supers t written
    exact ⟨formed, head, (view₂.isInterface t).symm.trans isClass⟩
  · intro t written
    obtain ⟨formed, isInterface⟩ := interfaces t written
    exact ⟨formed, (view₂.isInterface t).symm.trans isInterface⟩

theorem Written.consistent {A : Arity} {e : Entry} {scope : Scope} (written : Written A l' e scope)
    (direct : (l'.hierarchy.content e.2).standsFor = none)
    (noUnion : (l'.hierarchy.content e.2).form ≠ .union) :
    (l'.hierarchy.content e.2).Consistent l'.hierarchy A := by
  refine ⟨direct, noUnion, ?_, fun t here => (written.super t here).2,
    fun t here => (written.interfaces t here).2, ?_⟩
  · intro p member
    obtain ⟨s, n, bs, same, -⟩ := written.params p member
    exact ⟨s, n, bs, same⟩
  · intro u member
    simp only [Decl.uses, List.mem_append, direct] at member
    rcases member with ((inside | inside) | inside) | inside
    · exact Slot.uses_of_params written.params u inside
    · obtain ⟨t, here, inside⟩ := Ty.mem_usesAll.mp inside
      exact (written.super t (Option.mem_toList.mp here)).1.uses u inside
    · obtain ⟨t, here, inside⟩ := Ty.mem_usesAll.mp inside
      exact (written.interfaces t here).1.uses u inside
    · cases inside

theorem Written.signature {A : Arity} {e : Entry} {scope : Scope} (written : Written A l' e scope)
    {k : Nat} (known : A e.2 = some k) {signatures : List Signature}
    (signs : Signs l' scope e.2 e.1.methods signatures) {signature : Signature}
    (member : signature ∈ signatures) :
    signature.owner = some (.decl e.2) ∧ ∀ u ∈ signature.uses, u.Fits A := by
  obtain ⟨m, v, view, read⟩ := signs.parsed member
  exact parseSignature_uses (written.reader v view) known read

/-- A method was there before or belongs to a new declaration. -/
theorem Builds.methods (builds : Builds l l' entries) {name : String} {m : Signature}
    (listed : m ∈ l'.registry.methodsOf name) :
    m ∈ l.registry.methodsOf name ∨ ∃ e ∈ entries, e.1.name = name ∧ ∃ scope, Says l' e scope ∧
      ∃ signatures, Signs l' scope e.2 e.1.methods signatures ∧ m ∈ signatures := by
  by_cases new : name ∈ entries.map (·.1.name)
  · obtain ⟨e, member, rfl⟩ := List.mem_map.mp new
    obtain ⟨scope, said, signatures, signs, all⟩ := builds.content e member
    rw [all] at listed
    rcases List.mem_append.mp listed with before | added
    · exact .inl before
    · exact .inr ⟨e, member, rfl, scope, said, signatures, signs, added⟩
  · rw [builds.others name new] at listed
    exact .inl listed

end Builds

end Library

/-- Loading keeps a registry consistent. -/
theorem Registry.Consistent.load {l l' : Library} {model : ClassModel}
    (consistent : l.registry.Consistent l.hierarchy) (ok : l.load model = .ok l') :
    l'.registry.Consistent l'.hierarchy := by
  obtain ⟨entries, -, builds⟩ := Library.load_builds ok
  have grown := consistent.grow builds.toArranged.grows
  have more : ∀ d k, l.registry.arity l'.hierarchy d = some k →
      l'.registry.arity l'.hierarchy d = some k := by
    intro d k known
    obtain ⟨before, count⟩ := Registry.arity_eq_some.mp known
    exact Registry.arity_eq_some.mpr ⟨builds.kept _ d before, count⟩
  have named : ∀ name d, l'.registry.lookup? name = some d → d.name = name :=
    fun name d found => builds.own_name consistent.named found
  have known : ∀ name d, l'.registry.lookup? name = some d →
      l'.registry.arity l'.hierarchy d = some (l'.hierarchy.params d).length := by
    intro name d found
    apply Registry.arity_eq_some.mpr
    rw [named name d found]
    exact ⟨found, rfl⟩
  have own : ∀ e ∈ entries, l'.registry.arity l'.hierarchy e.2 =
      some (l'.hierarchy.params e.2).length :=
    fun e member => known e.1.name e.2 (builds.registered e member)
  refine ⟨builds.kept _ _ consistent.object, named, ?_, ?_, ?_, ?_⟩
  · intro name d found
    rcases builds.names name d found with old | ⟨e, member, rfl, -⟩
    · exact grown.made name d old
    · exact (builds.mem_range member).2
  · intro name d found
    rcases builds.names name d found with old | ⟨e, member, rfl, -⟩
    · exact (grown.decls name d old).mono more fun _ _ _ => rfl
    · obtain ⟨scope, said, -⟩ := builds.content e member
      refine (said.written known).consistent (builds.direct e member) ?_
      rw [builds.form e member]
      unfold TypeDecl.blank
      cases e.1.isInterface <;> simp
  · intro name m listed
    rcases builds.methods listed with
      old | ⟨e, member, rfl, scope, said, signatures, signs, added⟩
    · obtain ⟨d, found, owner⟩ := consistent.owned name m old
      exact ⟨d, builds.kept name d found, owner⟩
    · exact ⟨e.2, builds.registered e member,
        ((said.written known).signature (own e member) signs added).1⟩
  · intro name m listed
    rcases builds.methods listed with
      old | ⟨e, member, rfl, scope, said, signatures, signs, added⟩
    · intro u inside
      exact (grown.signatures name m old u inside).mono more
    · exact ((said.written known).signature (own e member) signs added).2

/-! ## Going up -/

/-- A consistent registry where going up comes to an end. -/
structure Registry.Upright (h : Hierarchy) (r : Registry) : Prop extends r.Consistent h where
  rooted : ∀ name d, r.lookup? name = some d → h.Rooted (.decl d)

namespace Registry

variable {h h' : Hierarchy} {r : Registry}

/-- The declarations that a consistent registry knows mention only each other. -/
theorem Consistent.closed (consistent : r.Consistent h) :
    h.Closed fun d => ∃ name, r.lookup? name = some d where
  made := by
    rintro d ⟨name, named⟩
    exact consistent.made name d named
  object := ⟨_, consistent.object⟩
  contents := by
    rintro d ⟨name, named⟩ u member e head
    obtain ⟨e', k, head', known, -⟩ := (consistent.decls name d named).uses u member
    cases head.symm.trans head'
    exact ⟨_, (arity_eq_some.mp known).1⟩

theorem Upright.root : Registry.root.Upright .root where
  toConsistent := .root
  rooted name d named := by
    obtain ⟨rfl, rfl⟩ := Library.lookup?_root named
    constructor
    rintro b ⟨s, above, -⟩
    cases above

theorem Upright.grow (upright : r.Upright h) (grows : h.Grows h') : r.Upright h' where
  toConsistent := upright.toConsistent.grow grows
  rooted name d named := by
    have within : Within (fun d => ∃ name, r.lookup? name = some d) (Ty.decl d).uses :=
      within_decl ⟨name, named⟩
    exact (Hierarchy.rooted_of_grows grows upright.closed within).mpr (upright.rooted name d named)

theorem Upright.load {l l' : Library} {model : ClassModel}
    (upright : l.registry.Upright l.hierarchy) (ok : l.load model = .ok l') :
    l'.registry.Upright l'.hierarchy where
  toConsistent := upright.toConsistent.load ok
  rooted name d named := by
    obtain ⟨entries, -, builds⟩ := Library.load_builds ok
    rcases builds.names name d named with old | ⟨e, member, rfl, -⟩
    · exact (upright.grow builds.toArranged.grows).rooted name d old
    · exact builds.rooted e member

end Registry

namespace Session

theorem upright (commands : List Command) {r : Registry}
    (member : r ∈ (after commands).registries) : r.Upright (after commands).hierarchy :=
  registry_induct (P := fun h r => r.Upright h) .root (fun _ _ _ before grows => before.grow grows)
    (fun _ _ _ before ok => before.load ok) commands r member

/-- Every registry of every session is consistent. -/
theorem consistent_after (commands : List Command) {r : Registry}
    (member : r ∈ (after commands).registries) : r.Consistent (after commands).hierarchy :=
  (upright commands member).toConsistent

/-- A core registry and its copy, where the core model loads. -/
theorem core_consistent_after : Library.root.load coreModel = .ok Library.core ∧
    start.core ∈ (after [.core, .clone 0]).registries ∧
    start.core.Consistent (after [.core, .clone 0]).hierarchy := by
  have member : start.core ∈ (after [.core, .clone 0]).registries := by
    show start.core ∈ [start.core, start.core]
    exact List.mem_cons_self
  exact ⟨load_coreModel, member, consistent_after _ member⟩

end Session

end NominalGenerics
