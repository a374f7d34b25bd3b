import NominalGenerics.Proofs.Loading

/-!
# What loading makes

After every type of a model is registered and its parameters are counted, readers can no longer tell
the stages of loading apart: names, forms and numbers of parameters are final (`SameView`). So each
text of the model is read as it would be at the end, and a library that loading makes holds for each
new declaration just what is written about it (`load_builds`). Each pass succeeds when every text it
reads can be read at that stage (`readParams_ok`, `readSupertypes_ok`, `readMethods_ok`).
-/

namespace NominalGenerics

def TypeDecl.blank (t : TypeDecl) : Decl :=
  { form := if t.isInterface then .iface else .cls, pending := t.inCompilation }

namespace Library

/-! ## Libraries that readers cannot tell apart -/

/-- The same names, for declarations of the same form with as many parameters. -/
structure SameView (l l' : Library) : Prop where
  names : l'.registry.names = l.registry.names
  length : ∀ d, (l'.hierarchy.params d).length = (l.hierarchy.params d).length
  form : ∀ d, (l'.hierarchy.content d).form = (l.hierarchy.content d).form

theorem SameView.refl (l : Library) : SameView l l := ⟨rfl, fun _ => rfl, fun _ => rfl⟩

theorem SameView.symm {l l' : Library} (same : SameView l l') : SameView l' l :=
  ⟨same.names.symm, fun d => (same.length d).symm, fun d => (same.form d).symm⟩

theorem SameView.trans {a b c : Library} (first : SameView a b) (second : SameView b c) :
    SameView a c :=
  ⟨second.names.trans first.names, fun d => (second.length d).trans (first.length d),
    fun d => (second.form d).trans (first.form d)⟩

theorem SameView.lookup? {l l' : Library} (same : SameView l l') (name : String) :
    l'.registry.lookup? name = l.registry.lookup? name := by
  unfold Registry.lookup?
  rw [same.names]

/-- Declarations from `base` on were filled in, with nothing that a reader sees. -/
structure Fills (base : Nat) (l l' : Library) : Prop extends SameView l l' where
  size : l'.hierarchy.decls.size = l.hierarchy.decls.size
  old : ∀ d, d.index < base → l'.hierarchy.content d = l.hierarchy.content d
  pending : ∀ d, (l'.hierarchy.content d).pending = (l.hierarchy.content d).pending
  standsFor : ∀ d, (l'.hierarchy.content d).standsFor = (l.hierarchy.content d).standsFor

section Fills

variable {base : Nat} {l : Library} {d : DeclId}

theorem Fills.refl (base : Nat) (l : Library) : Fills base l l :=
  ⟨.refl l, rfl, fun _ _ => rfl, fun _ => rfl, fun _ => rfl⟩

theorem Fills.trans {a b c : Library} (first : Fills base a b) (second : Fills base b c) :
    Fills base a c where
  toSameView := first.toSameView.trans second.toSameView
  size := second.size.trans first.size
  old d before := (second.old d before).trans (first.old d before)
  pending d := (second.pending d).trans (first.pending d)
  standsFor d := (second.standsFor d).trans (first.standsFor d)

/-- A new declaration may be filled in as long as its form and the number of its parameters stay. -/
theorem Fills.update {f : Decl → Decl} (count : Nat) (new : base ≤ d.index)
    (length : ∀ e, (((l.update d f).read count).hierarchy.params e).length =
      (l.hierarchy.params e).length)
    (form : ∀ c, (f c).form = c.form) (pending : ∀ c, (f c).pending = c.pending)
    (standsFor : ∀ c, (f c).standsFor = c.standsFor) :
    Fills base l ((l.update d f).read count) where
  names := rfl
  length := length
  form _ := Hierarchy.update_keeps _ _ _ Decl.form form
  size := Hierarchy.size_update _ _ _
  old e before := by
    show (l.hierarchy.update d f).content e = _
    rw [Hierarchy.content_update, if_neg (by omega)]
  pending _ := Hierarchy.update_keeps _ _ _ Decl.pending pending
  standsFor _ := Hierarchy.update_keeps _ _ _ Decl.standsFor standsFor

theorem Fills.params {ps : List Slot} (count : Nat) (new : base ≤ d.index)
    (same : ps.length = (l.hierarchy.params d).length) :
    Fills base l ((l.update d fun c => { c with params := ps }).read count) :=
  .update count new (length_params_update count same) (fun _ => rfl) (fun _ => rfl) fun _ => rfl

theorem Fills.supertypes (super : Option Ty) (interfaces : List Ty) (count : Nat)
    (new : base ≤ d.index) :
    Fills base l
      ((l.update d fun c => { c with super := super, interfaces := interfaces }).read count) := by
  refine .update count new ?_ (fun _ => rfl) (fun _ => rfl) fun _ => rfl
  intro e
  exact congrArg List.length (Hierarchy.update_keeps _ _ _ Decl.params fun _ => rfl)

theorem Fills.methods {l' : Library} {n : Nat} (hierarchy : l'.hierarchy = l.hierarchy.fresh n)
    (names : l'.registry.names = l.registry.names) : Fills base l l' where
  names := names
  length d := by rw [hierarchy]; rfl
  form d := by rw [hierarchy]; rfl
  size := by rw [hierarchy]; rfl
  old d _ := by rw [hierarchy]; rfl
  pending d := by rw [hierarchy]; rfl
  standsFor d := by rw [hierarchy]; rfl

end Fills

/-! ## Registering -/

/-- Each entry has its declaration under its own name, which was not taken. -/
structure Registers (l l' : Library) (entries : List Entry) : Prop where
  named : ∀ e ∈ entries, e.1.name ≠ "" ∧ e.2.name = e.1.name
  fresh : ∀ e ∈ entries, l.registry.lookup? e.1.name = none
  nodup : (entries.map (·.1.name)).Nodup
  names : ∀ name d, l'.registry.lookup? name = some d →
    l.registry.lookup? name = some d ∨ ∃ e ∈ entries, e.2 = d ∧ e.1.name = name
  pending : ∀ e ∈ entries, (l'.hierarchy.content e.2).pending = e.1.inCompilation
  methods : l'.registry.methods = l.registry.methods

def next (l : Library) (t : TypeDecl) : DeclId := ⟨t.name, l.hierarchy.decls.size⟩

def enter (l : Library) (t : TypeDecl) : Library where
  hierarchy := (l.hierarchy.declare t.name t.blank).2
  registry := { l.registry with names := l.registry.names.insert t.name (l.next t) }

theorem lookup?_enter (l : Library) (t : TypeDecl) (name : String) :
    (l.enter t).registry.lookup? name =
      if name = t.name then some (l.next t) else l.registry.lookup? name :=
  NameMap.get?_insert _ _ _ _

theorem content_next (l : Library) (t : TypeDecl) :
    (l.enter t).hierarchy.content (l.next t) = t.blank :=
  (Hierarchy.content_declare l.hierarchy t.name t.blank (l.next t)).trans (if_pos rfl)

theorem name_eq_ok {r r' : Registry} {d : DeclId} :
    r.name d = .ok r' ↔
      r.lookup? d.name = none ∧ r' = { r with names := r.names.insert d.name d } := by
  unfold Registry.name Registry.lookup? NameMap.contains
  constructor
  · intro ok
    split at ok
    · cases ok
    · rename_i new
      cases ok
      exact ⟨by simpa using new, rfl⟩
  · rintro ⟨new, rfl⟩
    simp [new]

theorem declareTypes_cons {l : Library} {position : Nat} {t : TypeDecl} {ts : List TypeDecl}
    {p : Library × List Entry} :
    l.declareTypes position (t :: ts) = .ok p ↔
      t.name ≠ "" ∧ l.registry.lookup? t.name = none ∧
        ∃ q, (l.enter t).declareTypes (position + 1) ts = .ok q ∧
          p = (q.1, (t, l.next t) :: q.2) := by
  constructor
  · intro ok
    unfold declareTypes at ok
    dsimp only at ok
    split at ok
    · cases ok
    · rename_i named
      obtain ⟨r, entered, ok⟩ := bind_eq_ok.mp ok
      obtain ⟨q, later, ok⟩ := bind_eq_ok.mp ok
      cases ok
      obtain ⟨new, rfl⟩ := name_eq_ok.mp (mapError_eq_ok.mp entered)
      exact ⟨named, new, q, later, rfl⟩
  · rintro ⟨named, new, q, later, rfl⟩
    have entered : l.registry.name (l.next t) = .ok (l.enter t).registry :=
      name_eq_ok.mpr ⟨new, rfl⟩
    unfold declareTypes
    rw [if_neg named]
    exact bind_eq_ok.mpr ⟨_, mapError_eq_ok.mpr entered, bind_eq_ok.mpr ⟨q, later, rfl⟩⟩

theorem declareTypes_registers {l l' : Library} {position : Nat} {types : List TypeDecl}
    {entries : List Entry} (ok : l.declareTypes position types = .ok (l', entries)) :
    entries.map Prod.fst = types ∧ Registers l l' entries := by
  induction types generalizing l l' position entries with
  | nil =>
    cases ok
    exact ⟨rfl, nofun, nofun, .nil, fun _ _ found => .inl found, nofun, rfl⟩
  | cons t ts ih =>
    obtain ⟨named, new, ⟨final, rest⟩, later, same⟩ := declareTypes_cons.mp ok
    cases same
    obtain ⟨listed, spec⟩ := ih later
    -- the rest of the types cannot take the name again
    have apart : ∀ e ∈ rest, e.1.name ≠ t.name ∧ l.registry.lookup? e.1.name = none := by
      intro e member
      have free := spec.fresh e member
      rw [lookup?_enter] at free
      split at free
      · cases free
      · exact ⟨‹_›, free⟩
    refine ⟨by simp [listed], ?_, ?_, ?_, ?_, ?_, spec.methods⟩
    · intro e member
      rcases List.mem_cons.mp member with rfl | member
      · exact ⟨named, rfl⟩
      · exact spec.named e member
    · intro e member
      rcases List.mem_cons.mp member with rfl | member
      · exact new
      · exact (apart e member).2
    · simp only [List.map_cons, List.nodup_cons]
      refine ⟨?_, spec.nodup⟩
      intro again
      obtain ⟨e, member, same⟩ := List.mem_map.mp again
      exact (apart e member).1 same
    · intro name d found
      rcases spec.names name d found with before | ⟨e, member, same⟩
      · rw [lookup?_enter] at before
        split at before
        · rename_i here
          cases before
          exact .inr ⟨_, List.mem_cons_self, rfl, here.symm⟩
        · exact .inl before
      · exact .inr ⟨e, List.mem_cons_of_mem _ member, same⟩
    · intro e member
      rcases List.mem_cons.mp member with rfl | member
      · have inside : (l.next t).index < (l.enter t).hierarchy.decls.size := by
          simp [next, enter, Hierarchy.declare, Hierarchy.ofDecls]
        rw [(declareTypes_spec later).old _ inside, content_next]
        rfl
      · exact spec.pending e member

/-- Types can be registered when they have names of their own. -/
theorem declareTypes_ok {types : List TypeDecl} {l : Library} (position : Nat)
    (named : ∀ t ∈ types, t.name ≠ "") (nodup : (types.map TypeDecl.name).Nodup)
    (fresh : ∀ t ∈ types, l.registry.lookup? t.name = none) :
    ∃ p, l.declareTypes position types = .ok p := by
  induction types generalizing l position with
  | nil => exact ⟨_, rfl⟩
  | cons t ts ih =>
    obtain ⟨once, nodup⟩ := List.nodup_cons.mp nodup
    have freshAfter : ∀ u ∈ ts, (l.enter t).registry.lookup? u.name = none := by
      intro u member
      have apart : u.name ≠ t.name := fun same => once (List.mem_map.mpr ⟨u, member, same⟩)
      rw [lookup?_enter, if_neg apart]
      exact fresh u (List.mem_cons_of_mem _ member)
    obtain ⟨q, later⟩ := ih (position + 1)
      (fun u member => named u (List.mem_cons_of_mem _ member)) nodup freshAfter
    exact ⟨_, declareTypes_cons.mpr
      ⟨named t List.mem_cons_self, fresh t List.mem_cons_self, q, later, rfl⟩⟩

/-! ## Parameters -/

theorem paramName_of_parseParams {r : Reader} {texts : List String} {p : List Slot × Scope}
    (ok : r.parseParams texts = .ok p) : ∀ text ∈ texts, ∃ n, Reader.paramName text = .ok n := by
  obtain ⟨bare, named, -⟩ := bind_eq_ok.mp ok
  clear ok
  generalize r.scope = scope at named
  generalize 0 = i at named
  induction texts generalizing i scope with
  | nil => nofun
  | cons text texts ih =>
    obtain ⟨n, here, later⟩ := bind_eq_ok.mp named
    intro other member
    rcases List.mem_cons.mp member with rfl | member
    · exact ⟨n, here⟩
    · exact ih _ _ later other member

theorem length_of_parseParams {h : Hierarchy} {r : Registry} {source : Nat} {texts : List String}
    {ps : List Slot} {scope : Scope}
    (ok : (Reader.mk h r .empty source).parseParams texts = .ok (ps, scope)) :
    ps.length = texts.length := by
  have informed : (Reader.mk h r .empty source).Informed (fun d => some (h.params d).length) :=
    ⟨fun _ _ _ => rfl, proper_empty⟩
  exact (Reader.parseParams_declared informed ok).2.1

theorem bareParams_ok (source : Nat) {texts : List String}
    (named : ∀ text ∈ texts, ∃ n, Reader.paramName text = .ok n) :
    ∃ ps, bareParams source texts = .ok ps := by
  have names : ∃ ns, List.Forall₂ (fun text n => Reader.paramName text = .ok n) texts ns := by
    induction texts with
    | nil => exact ⟨[], .nil⟩
    | cons text texts ih =>
      obtain ⟨n, here⟩ := named text List.mem_cons_self
      obtain ⟨ns, later⟩ := ih fun other member => named other (List.mem_cons_of_mem _ member)
      exact ⟨n :: ns, .cons here later⟩
  obtain ⟨ns, read⟩ := names
  exact ⟨_, bind_eq_ok.mpr ⟨ns, mapM_eq_ok.mpr read, rfl⟩⟩

theorem countParams_ok {l : Library} {entries : List Entry}
    (named : ∀ e ∈ entries, ∀ text ∈ e.1.params, ∃ n, Reader.paramName text = .ok n) :
    ∃ l', l.countParams entries = .ok l' := by
  induction entries generalizing l with
  | nil => exact ⟨l, rfl⟩
  | cons e rest ih =>
    obtain ⟨t, d⟩ := e
    obtain ⟨ps, counted⟩ := bareParams_ok l.hierarchy.sources (named _ List.mem_cons_self)
    obtain ⟨l', later⟩ := ih fun e member => named e (List.mem_cons_of_mem _ member)
    exact ⟨l', bind_eq_ok.mpr ⟨ps, mapError_eq_ok.mpr counted, later⟩⟩

/-- What reading parameters gives each entry. -/
theorem readParams_reads {base : Nat} {l l' : Library} {entries : List Entry} {types : List Scoped}
    (new : ∀ e ∈ entries, base ≤ e.2.index)
    (inside : ∀ e ∈ entries, e.2.index < l.hierarchy.decls.size)
    (nodup : (entries.map (·.2.index)).Nodup)
    (counted : ∀ e ∈ entries, (l.hierarchy.params e.2).length = e.1.params.length)
    (ok : l.readParams entries = .ok (l', types)) :
    Fills base l l' ∧ l'.registry = l.registry ∧
      types.map (fun s => (s.type, s.id)) = entries ∧
      (∀ d, d.index ∉ entries.map (·.2.index) → l'.hierarchy.content d = l.hierarchy.content d) ∧
      ∀ s ∈ types, ∃ v, SameView l v ∧
        (v.reader .empty).parseParams s.type.params = .ok (l'.hierarchy.params s.id, s.scope) := by
  induction entries generalizing l types with
  | nil =>
    cases ok
    exact ⟨.refl _ _, rfl, rfl, fun _ _ => rfl, nofun⟩
  | cons e rest ih =>
    obtain ⟨t, d⟩ := e
    obtain ⟨⟨ps, scope⟩, parsed, ok⟩ := bind_eq_ok.mp ok
    obtain ⟨⟨final, types⟩, later, ok⟩ := bind_eq_ok.mp ok
    cases ok
    have read := mapError_eq_ok.mp parsed
    obtain ⟨once, nodup⟩ := List.nodup_cons.mp nodup
    have within := inside _ List.mem_cons_self
    have same : ps.length = (l.hierarchy.params d).length :=
      (length_of_parseParams read).trans (counted _ List.mem_cons_self).symm
    have fills : Fills base l ((l.update d fun c => { c with params := ps }).read
        (Reader.paramSources t.params)) := .params _ (new _ List.mem_cons_self) same
    obtain ⟨fillsRest, registry, listed, others, reads⟩ := ih
      (fun e member => new e (List.mem_cons_of_mem _ member))
      (fun e member => lt_of_lt_of_eq (inside e (List.mem_cons_of_mem _ member)) fills.size.symm)
      nodup
      (fun e member => (fills.length e.2).trans (counted e (List.mem_cons_of_mem _ member))) later
    have updated : ∀ e : DeclId, ((l.update d fun c => { c with params := ps }).read
        (Reader.paramSources t.params)).hierarchy.content e =
          if d.index = e.index ∧ e.index < l.hierarchy.decls.size
          then { l.hierarchy.content e with params := ps } else l.hierarchy.content e :=
      fun e => Hierarchy.content_update l.hierarchy d e _
    refine ⟨fills.trans fillsRest, registry, by simp [listed], ?_, ?_⟩
    · intro e outside
      simp only [List.map_cons, List.mem_cons, not_or] at outside
      rw [others e outside.2, updated, if_neg fun here => outside.1 here.1.symm]
    · intro s member
      rcases List.mem_cons.mp member with rfl | member
      · -- later entries leave the parameters of `d` alone, so these are what was read here
        refine ⟨l, .refl l, ?_⟩
        have final : l'.hierarchy.params d = ps := by
          unfold Hierarchy.params
          rw [others d once, updated, if_pos ⟨rfl, within⟩]
        dsimp only
        rw [final]
        exact read
      · obtain ⟨v, view, read⟩ := reads s member
        exact ⟨v, fills.toSameView.trans view, read⟩

theorem readParams_ok {l : Library} {entries : List Entry}
    (counted : ∀ e ∈ entries, (l.hierarchy.params e.2).length = e.1.params.length)
    (each : ∀ e ∈ entries, ∀ v, SameView l v →
      ∃ p, (v.reader .empty).parseParams e.1.params = .ok p) :
    ∃ p, l.readParams entries = .ok p := by
  induction entries generalizing l with
  | nil => exact ⟨_, rfl⟩
  | cons e rest ih =>
    obtain ⟨t, d⟩ := e
    obtain ⟨⟨ps, scope⟩, read⟩ := each _ List.mem_cons_self l (.refl l)
    have same : ps.length = (l.hierarchy.params d).length :=
      (length_of_parseParams read).trans (counted _ List.mem_cons_self).symm
    have fills : Fills 0 l ((l.update d fun c => { c with params := ps }).read
        (Reader.paramSources t.params)) := .params _ (Nat.zero_le _) same
    obtain ⟨p, later⟩ := ih
      (fun e member => (fills.length e.2).trans (counted e (List.mem_cons_of_mem _ member)))
      (fun e member v view =>
        each e (List.mem_cons_of_mem _ member) v (fills.toSameView.trans view))
    exact ⟨_, bind_eq_ok.mpr ⟨_, mapError_eq_ok.mpr read, bind_eq_ok.mpr ⟨p, later, rfl⟩⟩⟩

/-! ## Supertypes -/

/-- What reading supertypes gives each type. -/
theorem readSupertypes_reads {base : Nat} {l l' : Library} {types : List Scoped}
    (new : ∀ s ∈ types, base ≤ s.id.index)
    (inside : ∀ s ∈ types, s.id.index < l.hierarchy.decls.size)
    (nodup : (types.map (·.id.index)).Nodup) (ok : l.readSupertypes types = .ok l') :
    Fills base l l' ∧ l'.registry = l.registry ∧
      (∀ d, l'.hierarchy.params d = l.hierarchy.params d) ∧
      (∀ d, d.index ∉ types.map (·.id.index) → l'.hierarchy.content d = l.hierarchy.content d) ∧
      ∀ s ∈ types, ∃ v, SameView l v ∧ v.supertypesOf s =
        .ok ((l'.hierarchy.content s.id).super, (l'.hierarchy.content s.id).interfaces) := by
  induction types generalizing l with
  | nil =>
    cases ok
    exact ⟨.refl _ _, rfl, fun _ => rfl, fun _ _ => rfl, nofun⟩
  | cons s rest ih =>
    obtain ⟨⟨super, interfaces⟩, parsed, ok⟩ := bind_eq_ok.mp ok
    obtain ⟨once, nodup⟩ := List.nodup_cons.mp nodup
    have within := inside _ List.mem_cons_self
    have fills : Fills base l ((l.update s.id fun c =>
        { c with super := super, interfaces := interfaces }).read
          (s.type.extended.length + s.type.implemented.length)) :=
      .supertypes _ _ _ (new _ List.mem_cons_self)
    obtain ⟨fillsRest, registry, params, others, reads⟩ := ih
      (fun s member => new s (List.mem_cons_of_mem _ member))
      (fun s member => lt_of_lt_of_eq (inside s (List.mem_cons_of_mem _ member)) fills.size.symm)
      nodup ok
    have updated : ∀ e : DeclId, ((l.update s.id fun c =>
        { c with super := super, interfaces := interfaces }).read
          (s.type.extended.length + s.type.implemented.length)).hierarchy.content e =
          if s.id.index = e.index ∧ e.index < l.hierarchy.decls.size
          then { l.hierarchy.content e with super := super, interfaces := interfaces }
          else l.hierarchy.content e :=
      fun e => Hierarchy.content_update l.hierarchy s.id e _
    refine ⟨fills.trans fillsRest, registry, ?_, ?_, ?_⟩
    · intro d
      rw [params]
      exact Hierarchy.update_keeps _ _ _ Decl.params fun _ => rfl
    · intro e outside
      simp only [List.map_cons, List.mem_cons, not_or] at outside
      rw [others e outside.2, updated, if_neg fun here => outside.1 here.1.symm]
    · intro u member
      rcases List.mem_cons.mp member with rfl | member
      · refine ⟨l, .refl l, ?_⟩
        rw [others _ once, updated, if_pos ⟨rfl, within⟩]
        exact mapError_eq_ok.mp parsed
      · obtain ⟨v, view, read⟩ := reads u member
        exact ⟨v, fills.toSameView.trans view, read⟩

theorem readSupertypes_ok {l : Library} {types : List Scoped}
    (each : ∀ s ∈ types, ∀ v, SameView l v → ∃ p, v.supertypesOf s = .ok p) :
    ∃ l', l.readSupertypes types = .ok l' := by
  induction types generalizing l with
  | nil => exact ⟨l, rfl⟩
  | cons s rest ih =>
    obtain ⟨⟨super, interfaces⟩, read⟩ := each s List.mem_cons_self l (.refl l)
    have fills : Fills 0 l ((l.update s.id fun c =>
        { c with super := super, interfaces := interfaces }).read
          (s.type.extended.length + s.type.implemented.length)) :=
      .supertypes _ _ _ (Nat.zero_le _)
    obtain ⟨l', later⟩ := ih fun s member v view =>
      each s (List.mem_cons_of_mem _ member) v (fills.toSameView.trans view)
    exact ⟨l', bind_eq_ok.mpr ⟨_, mapError_eq_ok.mpr read, later⟩⟩

/-! ## Methods -/

theorem mem_left_of_forall₂ {α β : Type} {R : α → β → Prop} {as : List α} {bs : List β} {b : β}
    (all : List.Forall₂ R as bs) (member : b ∈ bs) : ∃ a ∈ as, R a b := by
  induction all with
  | nil => cases member
  | cons first _ ih =>
    rcases List.mem_cons.mp member with rfl | member
    · exact ⟨_, List.mem_cons_self, first⟩
    · obtain ⟨a, inside, related⟩ := ih member
      exact ⟨a, List.mem_cons_of_mem _ inside, related⟩

/-- What methods of a declaration read as, in libraries that look like `l`. -/
def Signs (l : Library) (scope : Scope) (d : DeclId) : List MethodDecl → List Signature → Prop :=
  List.Forall₂ fun m signature => m.name ≠ "" ∧
    ∃ v, SameView l v ∧ parseSignature (v.reader scope) d m = .ok signature

theorem Signs.of_view {l l' : Library} (same : SameView l' l) {scope : Scope} {d : DeclId}
    {ms : List MethodDecl} {signatures : List Signature} (signs : Signs l scope d ms signatures) :
    Signs l' scope d ms signatures := by
  refine signs.imp ?_
  rintro m signature ⟨named, v, view, read⟩
  exact ⟨named, v, same.trans view, read⟩

theorem Signs.parsed {l : Library} {scope : Scope} {d : DeclId} {ms : List MethodDecl}
    {signatures : List Signature} (signs : Signs l scope d ms signatures) {signature : Signature}
    (member : signature ∈ signatures) :
    ∃ m v, SameView l v ∧ parseSignature (v.reader scope) d m = .ok signature := by
  obtain ⟨m, -, -, v, view, read⟩ := mem_left_of_forall₂ signs member
  exact ⟨m, v, view, read⟩

theorem methodsOf_addMethod (r : Registry) (owner name : String) (m : Signature) :
    (r.addMethod owner m).methodsOf name =
      r.methodsOf name ++ if name = owner then [m] else [] := by
  unfold Registry.addMethod Registry.methodsOf
  rw [NameMap.get?_insert]
  by_cases here : name = owner
  · simp [here]
  · simp [here]

theorem view_addMethod (l : Library) (owner : String) (m : Signature) (count : Nat) :
    SameView l (Library.read { l with registry := l.registry.addMethod owner m } count) where
  names := rfl
  length _ := rfl
  form _ := rfl

theorem readTypeMethods_cons {l l' : Library} {s : Scoped} {m : MethodDecl}
    {ms : List MethodDecl} :
    l.readTypeMethods s (m :: ms) = .ok l' ↔
      m.name ≠ "" ∧ (l.registry.lookup? s.id.name).isSome = true ∧
      ∃ signature, parseSignature (l.reader s.scope) s.id m = .ok signature ∧
        (Library.read { l with registry := l.registry.addMethod s.id.name signature }
          (methodSources m)).readTypeMethods s ms = .ok l' := by
  constructor
  · intro ok
    unfold readTypeMethods at ok
    dsimp only at ok
    split at ok
    · cases ok
    · rename_i named
      obtain ⟨signature, parsed, ok⟩ := bind_eq_ok.mp ok
      obtain ⟨r, defined, ok⟩ := bind_eq_ok.mp ok
      have defined := mapError_eq_ok.mp defined
      unfold Registry.defineMethod at defined
      split at defined
      · rename_i known
        cases defined
        exact ⟨named, known, signature, mapError_eq_ok.mp parsed, ok⟩
      · cases defined
  · rintro ⟨named, known, signature, parsed, later⟩
    have defined : l.registry.defineMethod s.id.name signature =
        .ok (l.registry.addMethod s.id.name signature) := if_pos known
    unfold readTypeMethods
    rw [if_neg named]
    exact bind_eq_ok.mpr ⟨signature, mapError_eq_ok.mpr parsed,
      bind_eq_ok.mpr ⟨_, mapError_eq_ok.mpr defined, later⟩⟩

/-- What reading the methods of a type lists under its name. -/
theorem readTypeMethods_reads {l l' : Library} {s : Scoped} {ms : List MethodDecl}
    (ok : l.readTypeMethods s ms = .ok l') :
    ∃ signatures, Signs l s.scope s.id ms signatures ∧
      ∀ name, l'.registry.methodsOf name =
        l.registry.methodsOf name ++ if name = s.id.name then signatures else [] := by
  induction ms generalizing l with
  | nil =>
    cases ok
    exact ⟨[], .nil, by simp⟩
  | cons m ms ih =>
    obtain ⟨named, -, signature, parsed, later⟩ := readTypeMethods_cons.mp ok
    have view := view_addMethod l s.id.name signature (methodSources m)
    obtain ⟨signatures, signs, methods⟩ := ih later
    refine ⟨signature :: signatures, .cons ⟨named, l, .refl l, parsed⟩ (signs.of_view view), ?_⟩
    intro name
    rw [methods]
    show (l.registry.addMethod s.id.name signature).methodsOf name ++ _ = _
    rw [methodsOf_addMethod]
    split <;> simp

theorem readTypeMethods_ok {l : Library} {s : Scoped} {ms : List MethodDecl}
    (known : (l.registry.lookup? s.id.name).isSome = true)
    (each : ∀ m ∈ ms, m.name ≠ "" ∧ ∀ v, SameView l v →
      ∃ signature, parseSignature (v.reader s.scope) s.id m = .ok signature) :
    ∃ l', l.readTypeMethods s ms = .ok l' := by
  induction ms generalizing l with
  | nil => exact ⟨l, rfl⟩
  | cons m ms ih =>
    obtain ⟨named, reads⟩ := each m List.mem_cons_self
    obtain ⟨signature, parsed⟩ := reads l (.refl l)
    have view := view_addMethod l s.id.name signature (methodSources m)
    obtain ⟨l', later⟩ := ih (l := Library.read
      { l with registry := l.registry.addMethod s.id.name signature } (methodSources m)) known
      fun m member => ⟨(each m (List.mem_cons_of_mem _ member)).1, fun v after =>
        (each m (List.mem_cons_of_mem _ member)).2 v (view.trans after)⟩
    exact ⟨l', readTypeMethods_cons.mpr ⟨named, known, signature, parsed, later⟩⟩

/-- What reading methods lists under the name of each type. -/
theorem readMethods_reads {l l' : Library} {types : List Scoped}
    (nodup : (types.map (·.id.name)).Nodup) (ok : l.readMethods types = .ok l') :
    (∀ s ∈ types, ∃ signatures, Signs l s.scope s.id s.type.methods signatures ∧
      l'.registry.methodsOf s.id.name = l.registry.methodsOf s.id.name ++ signatures) ∧
      ∀ name, name ∉ types.map (·.id.name) →
        l'.registry.methodsOf name = l.registry.methodsOf name := by
  induction types generalizing l with
  | nil =>
    cases ok
    exact ⟨nofun, fun _ _ => rfl⟩
  | cons s rest ih =>
    obtain ⟨between, first, ok⟩ := bind_eq_ok.mp ok
    obtain ⟨once, nodup⟩ := List.nodup_cons.mp nodup
    obtain ⟨⟨n, hierarchy⟩, names⟩ := readTypeMethods_spec first
    have fills : Fills 0 l between := .methods hierarchy names
    have view := fills.toSameView
    obtain ⟨signatures, signs, methods⟩ := readTypeMethods_reads first
    obtain ⟨each, others⟩ := ih nodup ok
    constructor
    · intro u member
      rcases List.mem_cons.mp member with rfl | member
      · refine ⟨signatures, signs, ?_⟩
        rw [others _ once, methods, if_pos rfl]
      · obtain ⟨signatures, signs, listed⟩ := each u member
        refine ⟨signatures, signs.of_view view, ?_⟩
        have apart : u.id.name ≠ s.id.name := fun same =>
          once (List.mem_map.mpr ⟨u, member, same⟩)
        rw [listed, methods, if_neg apart, List.append_nil]
    · intro name outside
      simp only [List.map_cons, List.mem_cons, not_or] at outside
      rw [others name outside.2, methods, if_neg outside.1, List.append_nil]

theorem readMethods_ok {l : Library} {types : List Scoped}
    (known : ∀ s ∈ types, (l.registry.lookup? s.id.name).isSome = true)
    (each : ∀ s ∈ types, ∀ m ∈ s.type.methods, m.name ≠ "" ∧ ∀ v, SameView l v →
      ∃ signature, parseSignature (v.reader s.scope) s.id m = .ok signature) :
    ∃ l', l.readMethods types = .ok l' := by
  induction types generalizing l with
  | nil => exact ⟨l, rfl⟩
  | cons s rest ih =>
    obtain ⟨between, first⟩ :=
      readTypeMethods_ok (known s List.mem_cons_self) (each s List.mem_cons_self)
    obtain ⟨⟨n, hierarchy⟩, names⟩ := readTypeMethods_spec first
    have fills : Fills 0 l between := .methods hierarchy names
    have view := fills.toSameView
    obtain ⟨l', later⟩ := ih (l := between)
      (fun s member => by rw [view.lookup?]; exact known s (List.mem_cons_of_mem _ member))
      fun s member m method => ⟨(each s (List.mem_cons_of_mem _ member) m method).1, fun v after =>
        (each s (List.mem_cons_of_mem _ member) m method).2 v (view.trans after)⟩
    exact ⟨l', bind_eq_ok.mpr ⟨between, first, later⟩⟩

/-! ## The whole of loading -/

/-- `m` has a declaration for each entry, under its own name, after those of `l`; names, forms and
numbers of parameters are those of the end. -/
structure Arranged (l m : Library) (entries : List Entry) : Prop where
  indices : entries.map (·.2.index) = List.range' l.hierarchy.decls.size entries.length
  size : m.hierarchy.decls.size = l.hierarchy.decls.size + entries.length
  old : ∀ d, d.index < l.hierarchy.decls.size → m.hierarchy.content d = l.hierarchy.content d
  named : ∀ e ∈ entries, e.1.name ≠ "" ∧ e.2.name = e.1.name
  fresh : ∀ e ∈ entries, l.registry.lookup? e.1.name = none
  nodup : (entries.map (·.1.name)).Nodup
  names : ∀ name d, m.registry.lookup? name = some d →
    l.registry.lookup? name = some d ∨ ∃ e ∈ entries, e.2 = d ∧ e.1.name = name
  kept : ∀ name d, l.registry.lookup? name = some d → m.registry.lookup? name = some d
  registered : ∀ e ∈ entries, m.registry.lookup? e.1.name = some e.2
  count : ∀ e ∈ entries, (m.hierarchy.params e.2).length = e.1.params.length
  form : ∀ e ∈ entries, (m.hierarchy.content e.2).form = e.1.blank.form
  pending : ∀ e ∈ entries, (m.hierarchy.content e.2).pending = e.1.inCompilation
  direct : ∀ e ∈ entries, (m.hierarchy.content e.2).standsFor = none

/-- The declaration of an entry says what is written about its type, as it reads in libraries that
look like `l`. -/
structure Says (l : Library) (e : Entry) (scope : Scope) : Prop where
  params : ∃ v, SameView l v ∧
    (v.reader .empty).parseParams e.1.params = .ok (l.hierarchy.params e.2, scope)
  supertypes : ∃ v, SameView l v ∧ v.supertypesOf ⟨e.1, e.2, scope⟩ =
    .ok ((l.hierarchy.content e.2).super, (l.hierarchy.content e.2).interfaces)

/-- `l'` is `l` with the declarations of entries, which say what is written about their types. -/
structure Builds (l l' : Library) (entries : List Entry) : Prop extends
    Arranged l l' entries where
  content : ∀ e ∈ entries, ∃ scope, Says l' e scope ∧
    ∃ signatures, Signs l' scope e.2 e.1.methods signatures ∧
      l'.registry.methodsOf e.1.name = l.registry.methodsOf e.1.name ++ signatures
  others : ∀ name, name ∉ entries.map (·.1.name) →
    l'.registry.methodsOf name = l.registry.methodsOf name
  rooted : ∀ e ∈ entries, l'.hierarchy.Rooted (.decl e.2)

section Load

variable {l m m' : Library} {entries : List Entry}

theorem Arranged.fills (arranged : Arranged l m entries)
    (fills : Fills l.hierarchy.decls.size m m') : Arranged l m' entries where
  indices := arranged.indices
  size := fills.size.trans arranged.size
  old d before := (fills.old d before).trans (arranged.old d before)
  named := arranged.named
  fresh := arranged.fresh
  nodup := arranged.nodup
  names name d found := arranged.names name d (by rw [← fills.lookup? name]; exact found)
  kept name d found := by rw [fills.lookup?]; exact arranged.kept name d found
  registered e member := by rw [fills.lookup?]; exact arranged.registered e member
  count e member := (fills.length e.2).trans (arranged.count e member)
  form e member := (fills.form e.2).trans (arranged.form e member)
  pending e member := (fills.pending e.2).trans (arranged.pending e member)
  direct e member := (fills.standsFor e.2).trans (arranged.direct e member)

theorem Arranged.mem_range (arranged : Arranged l m entries) {e : Entry} (member : e ∈ entries) :
    l.hierarchy.decls.size ≤ e.2.index ∧ e.2.index < m.hierarchy.decls.size := by
  have listed : e.2.index ∈ entries.map (·.2.index) := List.mem_map.mpr ⟨e, member, rfl⟩
  rw [arranged.indices, List.mem_range'_1] at listed
  rw [arranged.size]
  exact listed

theorem Arranged.nodup_index (arranged : Arranged l m entries) :
    (entries.map (·.2.index)).Nodup := by
  rw [arranged.indices]
  exact List.nodup_range'

/-- Registering and counting arrange a library. -/
theorem arranged_of_counted {position : Nat} {types : List TypeDecl} {l₁ l₂ : Library}
    (declared : l.declareTypes position types = .ok (l₁, entries))
    (counted : l₁.countParams entries = .ok l₂) :
    entries.map Prod.fst = types ∧ Arranged l l₂ entries ∧
      l₂.registry.methods = l.registry.methods := by
  obtain ⟨listed, registers⟩ := declareTypes_registers declared
  have declares := declareTypes_spec declared
  have counts : Reparams (fun _ => none) l₁ l₂ entries :=
    countParams_spec (fun e member => (declares.mem_range member).2) declares.nodup counted
  have content : ∀ e ∈ entries, (l₂.hierarchy.content e.2).form = e.1.blank.form ∧
      (l₂.hierarchy.content e.2).pending = e.1.inCompilation ∧
      (l₂.hierarchy.content e.2).standsFor = none := by
    intro e member
    obtain ⟨ps, given, -⟩ := counts.each e member
    obtain ⟨p, blank⟩ := declares.blank e member
    have pending := registers.pending e member
    rw [blank] at pending
    rw [given, blank]
    exact ⟨rfl, pending, rfl⟩
  refine ⟨listed, ?_, by rw [counts.registry, registers.methods]⟩
  refine ⟨declares.indices, counts.size.trans declares.size, ?_, registers.named, registers.fresh,
    registers.nodup, ?_, ?_, ?_, counts.counted, fun e member => (content e member).1,
    fun e member => (content e member).2.1, fun e member => (content e member).2.2⟩
  · intro d before
    rw [counts.others d (declares.notMem before), declares.old d before]
  · rw [counts.registry]
    exact registers.names
  · rw [counts.registry]
    exact declares.kept
  · intro e member
    rw [counts.registry, ← (registers.named e member).2]
    exact declares.registered e member

/-- Reading parameters and supertypes gives the declarations what is written about them. -/
theorem says_of_read {l₃ : Library} {types : List Scoped} (arranged : Arranged l m entries)
    (read : m.readParams entries = .ok (l₃, types)) (extended : l₃.readSupertypes types = .ok m') :
    Fills l.hierarchy.decls.size m m' ∧ m'.registry = m.registry ∧
      types.map (fun s => (s.type, s.id)) = entries ∧
      ∀ s ∈ types, Says m' (s.type, s.id) s.scope := by
  have nodup := arranged.nodup_index
  obtain ⟨fills₃, registry₃, listing, -, reads₃⟩ := readParams_reads
    (fun e member => (arranged.mem_range member).1) (fun e member => (arranged.mem_range member).2)
    nodup arranged.count read
  have entry : ∀ s ∈ types, (s.type, s.id) ∈ entries := fun s member =>
    listing ▸ List.mem_map.mpr ⟨s, member, rfl⟩
  have arranged₃ := arranged.fills fills₃
  obtain ⟨fills₄, registry₄, params₄, -, reads₄⟩ := readSupertypes_reads
    (fun s member => (arranged₃.mem_range (entry s member)).1)
    (fun s member => (arranged₃.mem_range (entry s member)).2)
    (by rw [← listing, List.map_map] at nodup; exact nodup) extended
  refine ⟨fills₃.trans fills₄, registry₄.trans registry₃, listing, ?_⟩
  intro s member
  obtain ⟨v₃, view₃, params⟩ := reads₃ s member
  obtain ⟨v₄, view₄, supertypes⟩ := reads₄ s member
  have final₃ := fills₄.toSameView.symm
  refine ⟨⟨v₃, (final₃.trans fills₃.toSameView.symm).trans view₃, ?_⟩,
    ⟨v₄, final₃.trans view₄, supertypes⟩⟩
  dsimp only
  rw [params₄]
  exact params

theorem Says.of_fresh {n : Nat} {e : Entry} {scope : Scope} (said : Says m e scope)
    (hierarchy : m'.hierarchy = m.hierarchy.fresh n) (view : SameView m m') : Says m' e scope := by
  obtain ⟨⟨v₁, view₁, params⟩, ⟨v₂, view₂, supertypes⟩⟩ := said
  refine ⟨⟨v₁, view.symm.trans view₁, ?_⟩, ⟨v₂, view.symm.trans view₂, ?_⟩⟩
  · rw [hierarchy]
    exact params
  · rw [hierarchy]
    exact supertypes

/-- What a successful load made. -/
theorem load_builds {l' : Library} {model : ClassModel} (ok : l.load model = .ok l') :
    ∃ entries, entries.map Prod.fst = model.types ∧ Builds l l' entries := by
  obtain ⟨⟨l₁, entries⟩, declared, ok⟩ := bind_eq_ok.mp ok
  obtain ⟨l₂, counted, ok⟩ := bind_eq_ok.mp ok
  obtain ⟨⟨l₃, types⟩, read, ok⟩ := bind_eq_ok.mp ok
  obtain ⟨l₄, extended, ok⟩ := bind_eq_ok.mp ok
  obtain ⟨⟨⟩, checked, ok⟩ := bind_eq_ok.mp ok
  obtain ⟨listed, arranged, methods⟩ := arranged_of_counted declared counted
  obtain ⟨fills₄, registry, listing, said⟩ := says_of_read arranged read extended
  obtain ⟨⟨n, hierarchy⟩, names⟩ := readMethods_spec ok
  have fills₅ : Fills l.hierarchy.decls.size l₄ l' := .methods hierarchy names
  have arranged₄ := arranged.fills fills₄
  have own : types.map (·.id.name) = entries.map (·.1.name) := by
    rw [← listing, List.map_map]
    refine List.map_congr_left fun s member => ?_
    exact (arranged.named _ (listing ▸ List.mem_map.mpr ⟨s, member, rfl⟩)).2
  obtain ⟨signs, others⟩ := readMethods_reads (own ▸ arranged.nodup) ok
  have listedMethods : ∀ name, l₄.registry.methodsOf name = l.registry.methodsOf name := by
    intro name
    unfold Registry.methodsOf
    rw [registry, methods]
  have short : (entries.map Prod.snd).length ≤ l₄.hierarchy.decls.size := by
    rw [List.length_map, arranged₄.size]
    omega
  have rooted := (checkAcyclic_iff short).mp checked
  refine ⟨entries, listed, arranged₄.fills fills₅, ?_, ?_, ?_⟩
  · intro e given
    have name : e.2.name = e.1.name := (arranged.named e given).2
    rw [← listing] at given
    obtain ⟨s, member, rfl⟩ := List.mem_map.mp given
    obtain ⟨signatures, signs, listed⟩ := signs s member
    refine ⟨s.scope, (said s member).of_fresh hierarchy fills₅.toSameView, signatures,
      signs.of_view fills₅.toSameView.symm, ?_⟩
    rw [← name, listed, listedMethods]
  · intro name outside
    rw [others name (own ▸ outside), listedMethods]
  · intro e member
    rw [hierarchy]
    exact rooted e.2 (List.mem_map_of_mem member)

end Load

end Library

end NominalGenerics
