import NominalGenerics.Proofs.Loading

/-!
# Whole types

A type is formed whatever the bounds of the parameters it mentions are. Here they count: a type is
whole when it is formed and its parameters have whole bounds. Whatever is read with a scope that
reading made is whole (`Reads.whole`, `ReadsSlot.whole`), and so is every declared parameter
(`Sound.params_whole`).
-/

namespace NominalGenerics

/-- Type parameters with formed bounds, whose own parameters are such again: the largest set that
holds no others. -/
def ParamSet.whole (A : Arity) : ParamSet := fun s n bs =>
  ∃ Q : ParamSet, (∀ s n bs, Q s n bs → Ty.FormedAll A Q bs) ∧ Q s n bs

theorem ParamSet.whole_iff {A : Arity} {s : Site} {n : String} {bs : List Ty} :
    ParamSet.whole A s n bs ↔ Ty.FormedAll A (.whole A) bs := by
  constructor
  · rintro ⟨Q, closed, inside⟩
    exact (closed s n bs inside).mono (fun _ _ known => known)
      fun _ _ _ inside => ⟨Q, closed, inside⟩
  · intro formed
    -- the set with this parameter added is no larger, since it is still closed
    refine ⟨fun s' n' bs' => ParamSet.whole A s' n' bs' ∨ bs' = bs, ?_, .inr rfl⟩
    have wider : Ty.FormedAll A (fun s' n' bs' => ParamSet.whole A s' n' bs' ∨ bs' = bs) bs :=
      formed.mono (fun _ _ known => known) fun _ _ _ => .inl
    rintro s' n' bs' (⟨Q, closed, inside⟩ | rfl)
    · exact (closed s' n' bs' inside).mono (fun _ _ known => known)
        fun _ _ _ inside => .inl ⟨Q, closed, inside⟩
    · exact wider

/-- The bounds of every parameter of a set are formed with parameters of the set. -/
def ParamSet.Bounded (A : Arity) (P : ParamSet) : Prop := ∀ s n bs, P s n bs → Ty.FormedAll A P bs

theorem ParamSet.whole_bounded {A : Arity} : (ParamSet.whole A).Bounded A :=
  fun _ _ _ => ParamSet.whole_iff.mp

theorem ParamSet.whole_bare {A : Arity} (s : Site) (n : String) : ParamSet.whole A s n [] :=
  ParamSet.whole_iff.mpr trivial

/-- A parameter bounded by itself without bounds. -/
theorem ParamSet.whole_selfBounded {A : Arity} (s : Site) (n : String)
    (_ : ParamSet.whole A s n []) : ParamSet.whole A s n [.param s n []] :=
  ParamSet.whole_iff.mpr ⟨ParamSet.whole_bare s n, trivial⟩

theorem Ty.formedAll_iff {A : Arity} {P : ParamSet} {ts : List Ty} :
    Ty.FormedAll A P ts ↔ ∀ t ∈ ts, t.Formed A P := by
  induction ts with
  | nil => simp [Ty.FormedAll]
  | cons t ts ih => simp [Ty.FormedAll, ih]

/-- A closed type mentions no parameters, so it is whole. -/
theorem Ty.Formed.whole {A : Arity} {t : Ty} (closed : t.Formed A .none) : t.Formed A (.whole A) :=
  closed.mono (fun _ _ known => known) fun _ _ _ none => none.elim

theorem Slot.Formed.whole {A : Arity} {s : Slot} (closed : s.Formed A .none) :
    s.Formed A (.whole A) :=
  closed.mono (fun _ _ known => known) fun _ _ _ none => none.elim

theorem Ty.formed_elem {A : Arity} {P : ParamSet} {s : Site} {e : Ty}
    (formed : (Ty.array s e).Formed A P) : e.Formed A P := formed

theorem ParamSet.Bounded.bound {A : Arity} {P : ParamSet} (bounded : P.Bounded A) {s : Site}
    {n : String} {bs : List Ty} (formed : (Ty.param s n bs).Formed A P) {b : Ty} (member : b ∈ bs) :
    b.Formed A P :=
  Ty.formedAll_iff.mp (bounded s n bs formed) b member

/-- The bounds of a whole type parameter are whole. -/
theorem Ty.Formed.bound {A : Arity} {s : Site} {n : String} {bs : List Ty}
    (whole : (Ty.param s n bs).Formed A (.whole A)) {b : Ty} (member : b ∈ bs) :
    b.Formed A (.whole A) :=
  ParamSet.whole_bounded.bound whole member

/-! ## Parts of slots -/

section Slot

variable {A : Arity} {P : ParamSet} {slot : Slot}

theorem Slot.Formed.lower {l : Ty} (formed : slot.Formed A P) (written : slot.lower = some l) :
    l.Formed A P := by
  cases slot with
  | exact => cases written
  | rebound => cases formed
  | param m l' s n bs =>
    obtain ⟨-, noLower, -⟩ := formed
    rw [Slot.lower, noLower] at written
    cases written
  | wildcard m l' us =>
    cases written
    exact formed.2.1

theorem ParamSet.Bounded.upper (bounded : P.Bounded A) {u : Ty} (formed : slot.Formed A P)
    (written : u ∈ slot.upper) : u.Formed A P := by
  cases slot with
  | exact => cases written
  | rebound => cases formed
  | param m l s n bs => exact bounded.bound (s := s) (n := n) formed.2.2 written
  | wildcard m l us =>
    cases l with
    | none => exact Ty.formedAll_iff.mp formed.2 u written
    | some l => exact Ty.formedAll_iff.mp formed.2.2 u written

theorem Slot.Formed.upper {u : Ty} (whole : slot.Formed A (.whole A)) (written : u ∈ slot.upper) :
    u.Formed A (.whole A) :=
  ParamSet.whole_bounded.upper whole written

end Slot

/-! ## What reading gives -/

namespace Hierarchy

variable {h : Hierarchy} {ids : List DeclId} {rs : List Registry} {scope : Scope}

theorem Sound.params_whole (sound : h.Sound ids) {d : DeclId} {p : Slot} (member : p ∈ h.params d) :
    p.Formed (h.arity ids) (.whole (h.arity ids)) := by
  obtain ⟨s, n, bs, rfl, formed⟩ := (sound.decls d).params p member
  refine ⟨rfl, rfl, ParamSet.whole_iff.mpr (formed.mono (fun _ _ known => known) ?_)⟩
  rintro s' n' _ rfl
  exact ParamSet.whole_bare s' n'

/-- Scopes that reading makes: none, that of a declaration, and what reading parameters in a scope
adds to it. -/
inductive Opens (h : Hierarchy) (rs : List Registry) : Scope → Prop
  | empty : Opens h rs .empty
  | of {r : Registry} {name : String} {d : DeclId} : r ∈ rs → r.lookup? name = some d →
      Opens h rs (h.scopeOf d)
  | params {r : Registry} {outer scope : Scope} {source : Nat} {texts : List String}
      {ps : List Slot} : r ∈ rs → Opens h rs outer →
      (Reader.mk h r outer source).parseParams texts = .ok (ps, scope) → Opens h rs scope

/-- A slot that reading a text gives, with the type parameters of `scope` and the names of one of
the registries. -/
def ReadsSlot (h : Hierarchy) (rs : List Registry) (scope : Scope) (slot : Slot) : Prop :=
  ∃ r ∈ rs, ∃ source text, (Reader.mk h r scope source).parseSlot text = .ok slot

theorem scopeOf_eq (h : Hierarchy) (d : DeclId) :
    h.scopeOf d = Reader.opened .empty (h.params d) := by
  unfold scopeOf NameMap.ofList Reader.opened
  rw [List.foldl_map]

/-- Scopes hold parameters under their own names, with whole bounds. -/
theorem Opens.whole (sound : h.Sound ids)
    (known : ∀ r ∈ rs, ∀ name d, r.lookup? name = some d → d ∈ ids) (opens : h.Opens rs scope) :
    scope.Proper ∧ ∀ s n bs, scope.params s n bs → ParamSet.whole (h.arity ids) s n bs := by
  induction opens with
  | empty => exact ⟨Library.proper_empty, fun _ _ _ found => nomatch found⟩
  | @of r name d _ _ =>
    rw [scopeOf_eq]
    have declared := (sound.decls d).params
    refine ⟨Reader.opened_proper Library.proper_empty declared, ?_⟩
    intro s n bs found
    rcases Reader.params_opened declared found with own | outer
    · exact (sound.params_whole (d := d) own).2.2
    · cases outer
  | @params r outer scope source texts ps member _ parsed ih =>
    obtain ⟨proper, whole⟩ := ih
    have informed : (Reader.mk h r outer source).Informed (h.arity ids) :=
      ⟨fun name d found => arity_eq_some.mpr ⟨known r member name d found, rfl⟩, proper⟩
    obtain ⟨declared, -, rfl⟩ := Reader.parseParams_declared informed parsed
    refine ⟨Reader.opened_proper proper declared, ?_⟩
    intro s n bs found
    rcases Reader.params_opened declared found with own | outer
    · obtain ⟨s', n', bs', same, formed⟩ := declared _ own
      cases same
      refine ParamSet.whole_iff.mpr (formed.mono (fun _ _ known => known) ?_)
      rintro s' n' bs' (rfl | outer)
      · exact ParamSet.whole_bare s' n'
      · exact whole s' n' bs' outer
    · exact whole s n bs outer

theorem Reads.whole {t : Ty} (sound : h.Sound ids)
    (known : ∀ r ∈ rs, ∀ name d, r.lookup? name = some d → d ∈ ids) (opens : h.Opens rs scope)
    (reads : h.Reads rs scope t) : t.Formed (h.arity ids) (.whole (h.arity ids)) := by
  obtain ⟨proper, whole⟩ := opens.whole sound known
  exact (reads.formed proper known).mono (fun _ _ known => known) whole

theorem ReadsSlot.formed {slot : Slot} (reads : h.ReadsSlot rs scope slot) (proper : scope.Proper)
    (known : ∀ r ∈ rs, ∀ name d, r.lookup? name = some d → d ∈ ids) :
    slot.Formed (h.arity ids) scope.params := by
  obtain ⟨r, member, source, text, parsed⟩ := reads
  refine Reader.parseSlot_formed ⟨?_, proper⟩ parsed
  intro name d found
  exact arity_eq_some.mpr ⟨known r member name d found, rfl⟩

theorem ReadsSlot.whole {slot : Slot} (sound : h.Sound ids)
    (known : ∀ r ∈ rs, ∀ name d, r.lookup? name = some d → d ∈ ids) (opens : h.Opens rs scope)
    (reads : h.ReadsSlot rs scope slot) : slot.Formed (h.arity ids) (.whole (h.arity ids)) := by
  obtain ⟨proper, whole⟩ := opens.whole sound known
  exact (reads.formed proper known).mono (fun _ _ known => known) whole

/-- Without type parameters in scope a slot is closed. -/
theorem ReadsSlot.closed {slot : Slot} (reads : h.ReadsSlot rs .empty slot)
    (known : ∀ r ∈ rs, ∀ name d, r.lookup? name = some d → d ∈ ids) :
    slot.Formed (h.arity ids) .none :=
  (reads.formed Library.proper_empty known).mono (fun _ _ known => known)
    fun _ _ _ inScope => nomatch inScope

end Hierarchy

def Library.slotIn (l : Library) (scope : Scope) (text : String) : Slot :=
  match (l.reader scope).parseSlot text with
  | .ok s => s
  | .error _ => .ofTy ⟨0, 0⟩ .object

theorem Library.reads_slotIn {l : Library} {rs : List Registry} (member : l.registry ∈ rs)
    {scope : Scope} {text : String} (ok : ((l.reader scope).parseSlot text).isOk = true) :
    l.hierarchy.ReadsSlot rs scope (l.slotIn scope text) := by
  refine ⟨l.registry, member, l.hierarchy.sources, text, ?_⟩
  unfold slotIn
  split
  · assumption
  · rename_i failed
    rw [failed] at ok
    cases ok

end NominalGenerics
