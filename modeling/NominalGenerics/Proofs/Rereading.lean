import NominalGenerics.Proofs.Outline
import NominalGenerics.Proofs.Reading

/-!
# Reading a text again

A reader that knows every declaration another one knows, if under another identity, and has the same
type parameters in scope reads whatever the other reads, and reads the same up to sites and
identities (`Reader.Follows.parseType`). So a registry that grows, or that is built in another
order, goes on reading the texts it could read.
-/

namespace NominalGenerics

/-! ## Outlines and structural equality -/

namespace Hierarchy

variable (h : Hierarchy)

mutual

/-- Types with one outline are structurally equal. -/
theorem equal_of_outline : ∀ {x y : Ty}, x.outline id = y.outline id → h.equal x y = true
  | .decl _, y, same => by
    cases y <;> simp_all [Ty.outline, equal]
  | .bare _ _, y, same => by
    cases y <;> simp_all [Ty.outline, equal]
  | .app _ _ args, y, same => by
    cases y <;> simp [Ty.outline] at same
    simp [equal, same.1, equalSlots_of_outlines same.2]
  | .param _ _ _, y, same => by
    cases y <;> simp_all [Ty.outline, equal]
  | .array _ e, y, same => by
    cases y <;> simp [Ty.outline] at same
    rw [equal]
    exact equal_of_outline same

theorem slotEqual_of_outline : ∀ {x y : Slot}, x.outline id = y.outline id → h.slotEqual x y = true
  | .exact _ t, y, same => by
    rcases y with _ | ⟨_, _, _ | _, _⟩ | ⟨_, _ | _, _, _, _⟩ | ⟨_, _ | _, _⟩ <;>
      simp [Slot.outline] at same
    simp [slotEqual, Slot.kind, Slot.ty, equal_of_outline same.2]
  | .rebound _ _ l us, y, same => by
    rcases y with _ | ⟨_, _, _ | _, vs⟩ | ⟨_, _ | _, _, _, _⟩ | ⟨_, _ | _, _⟩ <;>
      cases l <;> simp [Slot.outline] at same <;> cases us <;> cases vs <;>
      simp [Ty.outlines] at same <;>
      simp [slotEqual, Slot.kind, Slot.ty, Ty.object, Ty.isApplied, Ty.isDiamond, Ty.isRoot,
        Ty.head?]
    · exact equal_of_outline same.2.2.1
    · exact equal_of_outline same.2.2.2.1
  | .param _ l _ _ _, y, same => by
    rcases y with _ | ⟨_, _, _ | _, _⟩ | ⟨_, _ | _, _, _, _⟩ | ⟨_, _ | _, _⟩ <;>
      cases l <;> simp [Slot.outline] at same <;> simp [slotEqual, Slot.isParam, Slot.name, same]
  | .wildcard _ none us, y, same => by
    rcases y with _ | ⟨_, _, _ | _, _⟩ | ⟨_, _ | _, _, _, _⟩ | ⟨_, _ | _, _⟩ <;>
      simp [Slot.outline] at same
    simp [slotEqual, Slot.isWildcard, Slot.lower, Slot.upper, equalTypes_of_outlines same.2]
  | .wildcard _ (some l) us, y, same => by
    rcases y with _ | ⟨_, _, _ | _, _⟩ | ⟨_, _ | _, _, _, _⟩ | ⟨_, _ | _, _⟩ <;>
      simp [Slot.outline] at same
    simp [slotEqual, Slot.isWildcard, Slot.lower, Slot.upper, equal_of_outline same.2.1,
      equalTypes_of_outlines same.2.2]

theorem equalTypes_of_outlines : ∀ {xs ys : List Ty}, Ty.outlines id xs = Ty.outlines id ys →
    h.equalTypes xs ys = true
  | [], [], _ => by simp [equalTypes]
  | [], _ :: _, same | _ :: _, [], same => by cases same
  | x :: xs, y :: ys, same => by
    obtain ⟨first, rest⟩ := List.cons.inj same
    simp [equalTypes, equal_of_outline first, equalTypes_of_outlines rest]

theorem equalSlots_of_outlines : ∀ {xs ys : List Slot}, Slot.outlines id xs = Slot.outlines id ys →
    h.equalSlots xs ys = true
  | [], [], _ => by simp [equalSlots]
  | [], _ :: _, same | _ :: _, [], same => by cases same
  | x :: xs, y :: ys, same => by
    obtain ⟨first, rest⟩ := List.cons.inj same
    simp [equalSlots, slotEqual_of_outline first, equalSlots_of_outlines rest]

end

end Hierarchy

theorem Slot.outline_ofTy {ρ : DeclId → DeclId} {t t' : Ty} (site site' : Site)
    (same : t'.outline id = t.outline ρ) :
    (Slot.ofTy site' t').outline id = (Slot.ofTy site t).outline ρ := by
  cases t <;> cases t' <;> simp_all [Ty.outline, Slot.ofTy, Slot.outline]

theorem Slot.length_of_outlines {ρ σ : DeclId → DeclId} {ss ss' : List Slot}
    (alike : Slot.outlines ρ ss' = Slot.outlines σ ss) : ss'.length = ss.length := by
  have lengths := congrArg List.length alike
  simpa only [Slot.outlines_eq_map, List.length_map] using lengths

/-! ## Following a reader -/

/-- Two scopes hold the same type parameters under the same names, up to sites and identities. -/
def Scope.Alike (ρ : DeclId → DeclId) (scope scope' : Scope) : Prop :=
  ∀ n, (scope'.get? n).map (Ty.outline id) = (scope.get? n).map (Ty.outline ρ)

theorem Scope.alike_empty (ρ : DeclId → DeclId) : Scope.Alike ρ .empty .empty := fun _ => rfl

theorem Scope.Alike.insert {ρ : DeclId → DeclId} {scope scope' : Scope}
    (alike : scope.Alike ρ scope') (n : String) {t t' : Ty} (same : t'.outline id = t.outline ρ) :
    Scope.Alike ρ (NameMap.insert scope n t) (NameMap.insert scope' n t') := by
  intro k
  rw [NameMap.get?_insert, NameMap.get?_insert]
  by_cases here : k = n
  · simp [here, same]
  · simpa [here] using alike k

namespace Reader

/-- `r'` knows what `r` knows: what `r` calls `d` is called `ρ d` by `r'`, under the same name and
with as many parameters. -/
structure Follows (ρ : DeclId → DeclId) (r r' : Reader) : Prop where
  scope : r.scope.Alike ρ r'.scope
  lookup : ∀ n d, r.registry.lookup? n = some d → r'.registry.lookup? n = some (ρ d)
  arity : ∀ n d, r.registry.lookup? n = some d →
    (r'.hierarchy.params (ρ d)).length = (r.hierarchy.params d).length

variable {ρ : DeclId → DeclId} {r r' : Reader}

theorem Follows.moved (follows : r.Follows ρ r') (source source' : Nat) :
    ({ r with source := source } : Reader).Follows ρ { r' with source := source' } :=
  ⟨follows.scope, follows.lookup, follows.arity⟩

theorem Follows.scoped (follows : r.Follows ρ r') {scope scope' : Scope}
    (alike : scope.Alike ρ scope') (source source' : Nat) :
    ({ r with scope := scope, source := source } : Reader).Follows ρ
      { r' with scope := scope', source := source' } :=
  ⟨alike, follows.lookup, follows.arity⟩

theorem readArrays_follows {source : Nat} (source' : Nat) {t t' u : Ty} {tokens rest : List Token}
    (same : t'.outline id = t.outline ρ) (ok : readArrays source t tokens = .ok (u, rest)) :
    ∃ u', readArrays source' t' tokens = .ok (u', rest) ∧ u'.outline id = u.outline ρ := by
  fun_induction readArrays source t tokens generalizing t' with
  | case1 t offset column o c tail ih =>
    rw [readArrays]
    exact ih (by simp only [Ty.outline, same]) ok
  | case2 => exact absurd ok fail_ne_ok
  | case3 =>
    cases ok
    refine ⟨t', ?_, same⟩
    rw [readArrays] <;> assumption

/-- The five rules of the grammar, when at most `fuel` rules are nested. -/
structure RulesFollow (ρ : DeclId → DeclId) (r r' : Reader) (fuel : Nat) : Prop where
  type : ∀ tokens t rest, r.readType fuel tokens = .ok (t, rest) →
    ∃ t', r'.readType fuel tokens = .ok (t', rest) ∧ t'.outline id = t.outline ρ
  use : ∀ site site' d tokens t rest,
    (r'.hierarchy.params (ρ d)).length = (r.hierarchy.params d).length →
    r.readUse fuel site d tokens = .ok (t, rest) →
    ∃ t', r'.readUse fuel site' (ρ d) tokens = .ok (t', rest) ∧ t'.outline id = t.outline ρ
  args : ∀ tokens ss rest, r.readArgs fuel tokens = .ok (ss, rest) →
    ∃ ss', r'.readArgs fuel tokens = .ok (ss', rest) ∧
      Slot.outlines id ss' = Slot.outlines ρ ss
  arg : ∀ tokens s rest, r.readArg fuel tokens = .ok (s, rest) →
    ∃ s', r'.readArg fuel tokens = .ok (s', rest) ∧ s'.outline id = s.outline ρ
  bounds : ∀ tokens ts rest, r.readBounds fuel tokens = .ok (ts, rest) →
    ∃ ts', r'.readBounds fuel tokens = .ok (ts', rest) ∧
      Ty.outlines id ts' = Ty.outlines ρ ts

theorem bareUse_follows {d : DeclId} (site site' : Site)
    (arity : (r'.hierarchy.params (ρ d)).length = (r.hierarchy.params d).length) :
    (if (r'.hierarchy.params (ρ d)).isEmpty then Ty.decl (ρ d) else .bare site' (ρ d)).outline id =
      (if (r.hierarchy.params d).isEmpty then Ty.decl d else .bare site d).outline ρ := by
  have same : (r'.hierarchy.params (ρ d)).isEmpty = (r.hierarchy.params d).isEmpty := by
    rw [Bool.eq_iff_iff, List.isEmpty_iff_length_eq_zero, List.isEmpty_iff_length_eq_zero, arity]
  rw [same]
  split <;> rfl

section Level

variable {fuel : Nat} {tokens rest : List Token}

theorem RulesFollow.readType (below : RulesFollow ρ r r' fuel) (follows : r.Follows ρ r') {t : Ty}
    (ok : r.readType (fuel + 1) tokens = .ok (t, rest)) :
    ∃ t', r'.readType (fuel + 1) tokens = .ok (t', rest) ∧ t'.outline id = t.outline ρ := by
  obtain ⟨w, o, k, tail, name, after, rfl, named, here⟩ := readType_eq_ok.mp ok
  have scope := follows.scope name
  rcases here with ⟨param, inScope, unmarked, ok⟩ | ⟨outOfScope, d, u, after', registered, used, ok⟩
  · rw [inScope] at scope
    obtain ⟨param', inScope', same⟩ := Option.map_eq_some_iff.mp scope
    obtain ⟨t', arrays, same⟩ := readArrays_follows r'.source same ok
    refine ⟨t', readType_eq_ok.mpr ⟨w, o, k, tail, name, after, rfl, named, .inl ?_⟩, same⟩
    exact ⟨param', inScope', unmarked, arrays⟩
  · rw [outOfScope] at scope
    obtain ⟨u', used', same⟩ :=
      below.use _ ⟨r'.source, o⟩ d _ _ _ (follows.arity name d registered) used
    obtain ⟨t', arrays, same⟩ := readArrays_follows r'.source same ok
    refine ⟨t', readType_eq_ok.mpr ⟨w, o, k, tail, name, after, rfl, named, .inr ?_⟩, same⟩
    exact ⟨Option.map_eq_none_iff.mp scope, ρ d, u', after', follows.lookup name d registered,
      used', arrays⟩

theorem RulesFollow.readUse (below : RulesFollow ρ r r' fuel) {site site' : Site} {d : DeclId}
    {t : Ty} (arity : (r'.hierarchy.params (ρ d)).length = (r.hierarchy.params d).length)
    (ok : r.readUse (fuel + 1) site d tokens = .ok (t, rest)) :
    ∃ t', r'.readUse (fuel + 1) site' (ρ d) tokens = .ok (t', rest) ∧
      t'.outline id = t.outline ρ := by
  rcases readUse_eq_ok.mp ok with
    ⟨o, k, tail, args, after, rfl, read, closed, fits, rfl⟩ | ⟨unmarked, rfl, rfl⟩
  · obtain ⟨args', read', same⟩ := below.args _ _ _ read
    have count := Slot.length_of_outlines same
    have whole : (Ty.app site' (ρ d) args').outline id = (Ty.app site d args).outline ρ := by
      simp only [Ty.outline, same]
      rfl
    refine ⟨_, readUse_eq_ok.mpr (.inl ?_), whole⟩
    refine ⟨o, k, tail, args', after, rfl, read', closed, ?_, rfl⟩
    rcases fits with rfl | fits
    · exact .inl (List.length_eq_zero_iff.mp count)
    · exact .inr (count.trans (fits.trans arity.symm))
  · exact ⟨_, readUse_eq_ok.mpr (.inr ⟨unmarked, rfl, rfl⟩), bareUse_follows _ _ arity⟩

theorem RulesFollow.readArgs (below : RulesFollow ρ r r' fuel) {ss : List Slot}
    (ok : r.readArgs (fuel + 1) tokens = .ok (ss, rest)) :
    ∃ ss', r'.readArgs (fuel + 1) tokens = .ok (ss', rest) ∧
      Slot.outlines id ss' = Slot.outlines ρ ss := by
  rcases readArgs_eq_ok.mp ok with ⟨closing, rfl, rfl⟩ | ⟨goesOn, s, after, read, here⟩
  · exact ⟨[], readArgs_eq_ok.mpr (.inl ⟨closing, rfl, rfl⟩), rfl⟩
  · obtain ⟨s', read', same⟩ := below.arg _ _ _ read
    rcases here with ⟨o, k, tail, more, rfl, readMore, rfl⟩ | ⟨ends, rfl, rfl⟩
    · obtain ⟨more', readMore', sameMore⟩ := below.args _ _ _ readMore
      refine ⟨s' :: more', ?_, by simp only [Slot.outlines, same, sameMore]⟩
      exact readArgs_eq_ok.mpr
        (.inr ⟨goesOn, s', _, read', .inl ⟨o, k, tail, more', rfl, readMore', rfl⟩⟩)
    · refine ⟨[s'], ?_, by simp only [Slot.outlines, same]⟩
      exact readArgs_eq_ok.mpr (.inr ⟨goesOn, s', _, read', .inr ⟨ends, rfl, rfl⟩⟩)

theorem RulesFollow.readArg (below : RulesFollow ρ r r' fuel) {s : Slot}
    (ok : r.readArg (fuel + 1) tokens = .ok (s, rest)) :
    ∃ s', r'.readArg (fuel + 1) tokens = .ok (s', rest) ∧ s'.outline id = s.outline ρ := by
  rcases readArg_eq_ok.mp ok with ⟨o, k, o', k', tail, us, rfl, read, rfl⟩ |
    ⟨o, k, o', k', tail, l, rfl, read, rfl⟩ | ⟨o, k, rfl, bare, rfl⟩ | ⟨unmarked, t, read, rfl⟩
  · obtain ⟨us', read', same⟩ := below.bounds _ _ _ read
    refine ⟨_, readArg_eq_ok.mpr (.inl ⟨o, k, o', k', tail, us', rfl, read', rfl⟩), ?_⟩
    simp only [Slot.extending, Slot.outline, same]
  · obtain ⟨l', read', same⟩ := below.type _ _ _ read
    refine ⟨_, readArg_eq_ok.mpr (.inr (.inl ⟨o, k, o', k', tail, l', rfl, read', rfl⟩)), ?_⟩
    simp only [Slot.above, Slot.outline, Ty.outlines, same]
  · exact ⟨_, readArg_eq_ok.mpr (.inr (.inr (.inl ⟨o, k, rfl, bare, rfl⟩))), rfl⟩
  · obtain ⟨t', read', same⟩ := below.type _ _ _ read
    refine ⟨_, readArg_eq_ok.mpr (.inr (.inr (.inr ⟨unmarked, t', read', rfl⟩))), ?_⟩
    exact Slot.outline_ofTy _ _ same

theorem RulesFollow.readBounds (below : RulesFollow ρ r r' fuel) {ts : List Ty}
    (ok : r.readBounds (fuel + 1) tokens = .ok (ts, rest)) :
    ∃ ts', r'.readBounds (fuel + 1) tokens = .ok (ts', rest) ∧
      Ty.outlines id ts' = Ty.outlines ρ ts := by
  obtain ⟨t, after, read, here⟩ := readBounds_eq_ok.mp ok
  obtain ⟨t', read', same⟩ := below.type _ _ _ read
  rcases here with ⟨o, k, tail, more, rfl, readMore, rfl⟩ | ⟨ends, rfl, rfl⟩
  · obtain ⟨more', readMore', sameMore⟩ := below.bounds _ _ _ readMore
    refine ⟨t' :: more', ?_, by simp only [Ty.outlines, same, sameMore]⟩
    exact readBounds_eq_ok.mpr ⟨t', _, read', .inl ⟨o, k, tail, more', rfl, readMore', rfl⟩⟩
  · refine ⟨[t'], ?_, by simp only [Ty.outlines, same]⟩
    exact readBounds_eq_ok.mpr ⟨t', _, read', .inr ⟨ends, rfl, rfl⟩⟩

end Level

/-- All five rules at once, since each level of one uses the level below of others. -/
theorem Follows.rules (follows : r.Follows ρ r') (fuel : Nat) : RulesFollow ρ r r' fuel := by
  induction fuel with
  | zero =>
    refine ⟨?_, ?_, ?_, ?_, ?_⟩
    · intro tokens t rest ok
      exact absurd ok fail_ne_ok
    · intro site site' d tokens t rest arity ok
      unfold readUse at ok ⊢
      cases ok
      exact ⟨_, rfl, bareUse_follows site site' arity⟩
    · intro tokens ss rest ok
      exact absurd ok fail_ne_ok
    · intro tokens s rest ok
      exact absurd ok fail_ne_ok
    · intro tokens ts rest ok
      exact absurd ok fail_ne_ok
  | succ fuel below =>
    exact ⟨fun _ _ _ ok => below.readType follows ok,
      fun _ _ _ _ _ _ arity ok => below.readUse arity ok, fun _ _ _ ok => below.readArgs ok,
      fun _ _ _ ok => below.readArg ok, fun _ _ _ ok => below.readBounds ok⟩

/-- A whole text is read by `rule'` if it is by `rule`, when the two go together on tokens. -/
theorem readWhole_follows {α : Type} {like : α → α → Prop}
    {rule rule' : Nat → List Token → Except ReadError (α × List Token)} {text : String} {a : α}
    (each : ∀ fuel tokens a rest, rule fuel tokens = .ok (a, rest) →
      ∃ a', rule' fuel tokens = .ok (a', rest) ∧ like a a')
    (ok : readWhole rule text = .ok a) : ∃ a', readWhole rule' text = .ok a' ∧ like a a' := by
  unfold readWhole at ok ⊢
  obtain ⟨⟨b, rest⟩, read, ok⟩ := bind_eq_ok.mp ok
  obtain ⟨b', read', same⟩ := each _ _ _ _ read
  dsimp only at ok
  split at ok
  · cases ok
    exact ⟨b', bind_eq_ok.mpr ⟨_, read', rfl⟩, same⟩
  · exact absurd ok fail_ne_ok

theorem Follows.parseType (follows : r.Follows ρ r') {text : String} {t : Ty}
    (ok : r.parseType text = .ok t) :
    ∃ t', r'.parseType text = .ok t' ∧ t'.outline id = t.outline ρ := by
  obtain ⟨t', read, same⟩ :=
    readWhole_follows (fun fuel => (follows.rules fuel).type) (mapError_eq_ok.mp ok)
  exact ⟨t', mapError_eq_ok.mpr read, same⟩

theorem Follows.parseSlot (follows : r.Follows ρ r') {text : String} {s : Slot}
    (ok : r.parseSlot text = .ok s) :
    ∃ s', r'.parseSlot text = .ok s' ∧ s'.outline id = s.outline ρ := by
  obtain ⟨s', read, same⟩ :=
    readWhole_follows (fun fuel => (follows.rules fuel).arg) (mapError_eq_ok.mp ok)
  exact ⟨s', mapError_eq_ok.mpr read, same⟩

structure SameParam (ρ : DeclId → DeclId) (p p' : Slot) : Prop where
  slot : p'.outline id = p.outline ρ
  name : p'.name = p.name
  ty : p'.ty.outline id = p.ty.outline ρ

theorem SameParam.parameter {bs bs' : List Ty} (site site' : Site) (name : String)
    (same : Ty.outlines id bs' = Ty.outlines ρ bs) :
    SameParam ρ (.parameter site name bs) (.parameter site' name bs') where
  slot := by simp only [Slot.parameter, Slot.outline, same]
  name := rfl
  ty := by simp only [Slot.parameter, Slot.ty, Ty.outline, same]

theorem Follows.parseParam (follows : r.Follows ρ r') {text : String} {p : Slot}
    (ok : r.parseParam text = .ok p) : ∃ p', r'.parseParam text = .ok p' ∧ SameParam ρ p p' := by
  have each : ∀ fuel tokens p rest, r.readParam fuel tokens = .ok (p, rest) →
      ∃ p', r'.readParam fuel tokens = .ok (p', rest) ∧ SameParam ρ p p' := by
    intro fuel tokens p rest read
    unfold readParam at read ⊢
    split at read
    · obtain ⟨⟨bounds, after⟩, readBounds, read⟩ := bind_eq_ok.mp read
      cases read
      obtain ⟨bounds', read', same⟩ := (follows.rules fuel).bounds _ _ _ readBounds
      exact ⟨_, bind_eq_ok.mpr ⟨_, read', rfl⟩, .parameter _ _ _ same⟩
    · cases read
      exact ⟨_, rfl, .parameter _ _ _ rfl⟩
    · exact absurd read fail_ne_ok
  obtain ⟨p', read, same⟩ := readWhole_follows each (mapError_eq_ok.mp ok)
  exact ⟨p', mapError_eq_ok.mpr read, same⟩

/-! ## Declared parameters -/

theorem bareScope_follows {source : Nat} (source' : Nat) {texts : List String} {i : Nat}
    {scope scope' bare : Scope} (alike : scope.Alike ρ scope')
    (ok : bareScope source texts i scope = .ok bare) :
    ∃ bare', bareScope source' texts i scope' = .ok bare' ∧ bare.Alike ρ bare' := by
  induction texts generalizing i scope scope' with
  | nil =>
    cases ok
    exact ⟨scope', rfl, alike⟩
  | cons text texts ih =>
    obtain ⟨name, named, ok⟩ := bind_eq_ok.mp ok
    have added : Scope.Alike ρ (NameMap.insert scope name (.param ⟨source, i⟩ name []))
        (NameMap.insert scope' name (.param ⟨source', i⟩ name [])) := alike.insert name rfl
    obtain ⟨bare', read, same⟩ := ih added ok
    exact ⟨bare', bind_eq_ok.mpr ⟨name, named, read⟩, same⟩

theorem Follows.parseEach {texts : List String} {declared declared' scope : Scope}
    {params : List Slot} (follows : r.Follows ρ r') (alike : declared.Alike ρ declared')
    (ok : r.parseEach texts declared = .ok (params, scope)) :
    ∃ params' scope', r'.parseEach texts declared' = .ok (params', scope') ∧
      Slot.outlines id params' = Slot.outlines ρ params ∧ scope.Alike ρ scope' := by
  induction texts generalizing r r' declared declared' params with
  | nil =>
    cases ok
    exact ⟨[], declared', rfl, rfl, alike⟩
  | cons text texts ih =>
    obtain ⟨p, read, ok⟩ := bind_eq_ok.mp ok
    obtain ⟨⟨ps, after⟩, readRest, ok⟩ := bind_eq_ok.mp ok
    cases ok
    obtain ⟨p', read', same⟩ := follows.parseParam read
    have added : Scope.Alike ρ (declared.insert p.name p.ty) (declared'.insert p'.name p'.ty) := by
      rw [same.name]
      exact alike.insert p.name same.ty
    obtain ⟨ps', scope', readRest', sameRest, opened⟩ :=
      ih (follows.moved (r.source + 1) (r'.source + 1)) added readRest
    refine ⟨p' :: ps', scope', ?_, by simp only [Slot.outlines, same.slot, sameRest], opened⟩
    exact bind_eq_ok.mpr ⟨p', read', bind_eq_ok.mpr ⟨_, readRest', rfl⟩⟩

theorem Follows.parseParams (follows : r.Follows ρ r') {texts : List String} {params : List Slot}
    {scope : Scope} (ok : r.parseParams texts = .ok (params, scope)) :
    ∃ params' scope', r'.parseParams texts = .ok (params', scope') ∧
      Slot.outlines id params' = Slot.outlines ρ params ∧ scope.Alike ρ scope' := by
  obtain ⟨bare, isBare, ok⟩ := bind_eq_ok.mp ok
  obtain ⟨bare', isBare', alike⟩ :=
    bareScope_follows r'.source follows.scope isBare
  obtain ⟨params', scope', read, same, opened⟩ :=
    (follows.scoped alike (r.source + 1) (r'.source + 1)).parseEach follows.scope ok
  exact ⟨params', scope', bind_eq_ok.mpr ⟨bare', isBare', read⟩, same, opened⟩

end Reader

end NominalGenerics
