import NominalGenerics.Proofs.Composition

/-!
# What substitution leaves

Substitution leaves no type parameter behind but those that it was told to leave and those that the
spec brings in (`mentioned_after_subst`). Where it has nothing to replace it gives an equal type
with the same text, though it rebuilds every use, wildcard and array on the way
(`subst_equal_to_self`). So a spec that brings in no type parameter need only be applied once.
-/

namespace NominalGenerics

open Hierarchy in
/-- A type parameter that is left was excluded, or the spec mentions it. A spec that mentions none
leaves none, whether it maps them or not. -/
theorem mentioned_after_subst {h : Hierarchy} (parametric : h.Parametric) (spec : Spec)
    (excluded : List String) (t : Ty) :
    (∀ n ∈ h.mentions (h.subst spec excluded t),
      (n ∈ excluded ∧ n ∈ h.mentions t) ∨ ∃ s ∈ spec.values, n ∈ h.slotMentions s) ∧
    (h.Concrete spec → h.hasParams (h.subst spec [] t) = false) := by
  constructor
  · intro n left
    exact parametric.leaves_subst left
  · intro concrete
    rw [hasParams, concrete.mentions_subst parametric t]
    rfl

def aliasSpec : Spec := .ofList [("X", .parameter ⟨0, 0⟩ "Y" [.object]),
  ("Y", reelLibrary.slotIn (reelLibrary.scopeIn ["Z"]) "Reel<Z>")]

def aliasType : Ty :=
  reelLibrary.typeIn (reelLibrary.scopeIn ["V", "W", "X"]) "Crate<X[], Crate<? super W, V>>"

/-- Of the three type parameters one is led to another, one is left and one becomes the root. -/
theorem aliases_leave :
    reelLibrary.hierarchy.Parametric ∧
    reelLibrary.hierarchy.mentions aliasType = ["X", "W", "V"] ∧
    reelLibrary.hierarchy.mentions (reelLibrary.hierarchy.subst aliasSpec ["W"] aliasType) =
      ["Z", "W"] ∧
    (∀ n ∈ reelLibrary.hierarchy.mentions (reelLibrary.hierarchy.subst aliasSpec ["W"] aliasType),
      (n ∈ ["W"] ∧ n ∈ reelLibrary.hierarchy.mentions aliasType) ∨
        ∃ s ∈ aliasSpec.values, n ∈ reelLibrary.hierarchy.slotMentions s) ∧
    reelLibrary.hierarchy.hasParams (reelLibrary.hierarchy.subst crateOuter [] aliasType) =
      false := by
  obtain ⟨ids, sound, -⟩ := loaded_reelLibrary.sound
  obtain ⟨before, after, concrete⟩ :
      reelLibrary.hierarchy.mentions aliasType = ["X", "W", "V"] ∧
      reelLibrary.hierarchy.mentions (reelLibrary.hierarchy.subst aliasSpec ["W"] aliasType) =
        ["Z", "W"] ∧
      reelLibrary.hierarchy.Concrete crateOuter := by
    decide +kernel
  exact ⟨sound.parametric, before, after,
    (mentioned_after_subst sound.parametric aliasSpec ["W"] aliasType).1,
    (mentioned_after_subst sound.parametric crateOuter [] aliasType).2 concrete⟩

/-! ## What is read is built -/

section Legible

variable {r : Reader}

mutual

/-- What is read is built so. -/
theorem Ty.Legible.built : ∀ {t : Ty}, t.Legible r → t.Built
  | .decl d, _ => .decl d
  | .bare s d, _ => .bare s d
  | .app s d _, ⟨_, _, legible⟩ => .app s d (Slot.LegibleAll.built legible)
  | .param s n bs, _ => .param s n bs
  | .array s e, legible => .array s (Ty.Legible.built (t := e) legible)

theorem Slot.Legible.built : ∀ {s : Slot}, s.Legible r → s.Built
  | .exact ⟨site, false⟩ t, ⟨_, notParam, legible⟩ => by
    rw [← Slot.ofTy_of_not_isParam site notParam]
    exact .ofTy site legible.built
  | .param ⟨site, false⟩ none s n bs, _ => .ofTy site (.param s n bs)
  | .wildcard ⟨site, false⟩ none _, ⟨_, legible⟩ => .extending site (Ty.LegibleAll.built legible)
  | .wildcard ⟨site, false⟩ (some l) [], ⟨_, _, legible⟩ => .above site fun u same => by
    cases same
    exact Ty.Legible.built (t := l) legible

theorem Ty.LegibleAll.built : ∀ {ts : List Ty}, Ty.LegibleAll r ts → ∀ t ∈ ts, t.Built
  | [], _ => List.forall_mem_nil _
  | t :: _, ⟨first, rest⟩ => List.forall_mem_cons.mpr
    ⟨Ty.Legible.built (t := t) first, Ty.LegibleAll.built rest⟩

theorem Slot.LegibleAll.built : ∀ {ss : List Slot}, Slot.LegibleAll r ss → ∀ s ∈ ss, s.Built
  | [], _ => List.forall_mem_nil _
  | s :: _, ⟨first, rest⟩ => List.forall_mem_cons.mpr
    ⟨Slot.Legible.built (s := s) first, Slot.LegibleAll.built rest⟩

end

end Legible

namespace Hierarchy

variable {h : Hierarchy}

theorem Reads.built {rs : List Registry} {scope : Scope} {t : Ty} (loaded : h.Loaded rs)
    (opens : h.Opens rs scope) (reads : h.Reads rs scope t) : t.Built := by
  obtain ⟨r, source, legible⟩ := reads.legible loaded opens
  exact legible.built

/-! ## Equal types have one text -/

theorem map_name_of_restatesParams : ∀ {ps as : List Slot}, restatesParams ps as = true →
    h.renderSlots as = ps.map Slot.name
  | [], [], _ => rfl
  | p :: ps, .param _ _ _ n _ :: as, same => by
    rw [restatesParams, Bool.and_eq_true, beq_iff_eq] at same
    rw [renderSlots, List.map_cons, map_name_of_restatesParams same.2, renderSlot, same.1]

theorem restatesParams_self {ps : List Slot} (params : ∀ p ∈ ps, p.isParam = true) :
    restatesParams ps ps = true := by
  induction ps with
  | nil => rfl
  | cons p ps ih =>
    obtain ⟨first, rest⟩ := List.forall_mem_cons.mp params
    cases p with
    | param => simp [restatesParams, Slot.name, ih rest]
    | exact | rebound | wildcard => cases first

/-- A declaration seen as a type is written like each type that is equal to it. -/
theorem render_decl_of_equal {d : DeclId} {t : Ty} (same : h.equal (.decl d) t = true) :
    h.render (.decl d) = h.render t := by
  cases t with
  | decl e =>
    cases eq_of_beq same
    rfl
  | bare s e =>
    obtain ⟨here, none⟩ := Bool.and_eq_true_iff.mp same
    cases eq_of_beq here
    rw [render, List.isEmpty_iff.mp none, render]
  | app s e as =>
    simp only [equal, Bool.and_eq_true, Bool.not_eq_true', List.isEmpty_eq_false_iff] at same
    obtain ⟨⟨here, generic⟩, restates⟩ := same
    cases eq_of_beq here
    obtain ⟨p, ps, params⟩ := List.exists_cons_of_ne_nil generic
    rw [params] at restates
    rw [render, params, render, map_name_of_restatesParams restates]
  | param | array => cases same

theorem equal_decl_comm (h : Hierarchy) (d : DeclId) (t : Ty) :
    h.equal t (.decl d) = h.equal (.decl d) t := by
  cases t with
  | decl e | bare s e | app s e as =>
    simp only [equal]
    by_cases same : e = d
    · rw [same]
    · simp only [beq_eq_false_iff_ne.mpr same, beq_eq_false_iff_ne.mpr (Ne.symm same),
        Bool.false_and]
  | param | array => rfl

theorem Parametric.renderSlot_of_exact (parametric : h.Parametric) {s : Slot}
    (kind : s.kind = .exact) : h.renderSlot s = h.render s.ty := by
  cases s with
  | exact => rfl
  | rebound m n l us =>
    cases us with
    | nil => rw [renderSlot, Slot.ty, List.headD_nil, Ty.object, render, parametric.root]
    | cons u us => rfl
  | param | wildcard => cases kind

theorem renderSlot_extending (h : Hierarchy) (m : Mark) (us : List Ty) :
    h.renderSlot (.wildcard m none us) = if h.renderTypes us = [] then "?"
      else "? extends " ++ " & ".intercalate (h.renderTypes us) := by
  cases us <;> rfl

mutual

/-- Structurally equal types are written alike. -/
theorem Parametric.render_of_equal (parametric : h.Parametric) : ∀ {a b : Ty},
    h.equal a b = true → h.render a = h.render b
  | .decl _, _, same => render_decl_of_equal same
  | .bare _ _, .decl d, same | .app _ _ _, .decl d, same => by
    rw [equal_decl_comm] at same
    exact (render_decl_of_equal same).symm
  | .bare _ _, .bare _ _, same => by
    cases eq_of_beq same
    rfl
  | .app _ _ _, .app _ _ _, same => by
    obtain ⟨here, slots⟩ := Bool.and_eq_true_iff.mp same
    cases eq_of_beq here
    rw [render, render, parametric.renderSlots_of_equal slots]
  | .param _ _ _, .param _ _ _, same => eq_of_beq same
  | .array _ a, .array _ b, same => by
    rw [render, render, parametric.render_of_equal (a := a) (b := b) same]

theorem Parametric.renderSlot_of_equal (parametric : h.Parametric) : ∀ {a b : Slot},
    h.slotEqual a b = true → h.renderSlot a = h.renderSlot b
  | .exact _ t, b, same | .rebound _ _ _ (t :: _), b, same => by
    rw [slotEqual, Bool.and_eq_true, beq_iff_eq] at same
    rw [parametric.renderSlot_of_exact same.1]
    exact parametric.render_of_equal (a := t) same.2
  | .rebound _ _ _ [], b, same => by
    have root := parametric.equal_ty rfl same
    simp only [slotEqual, Bool.and_eq_true, beq_iff_eq] at same
    rw [parametric.renderSlot_of_exact rfl, parametric.renderSlot_of_exact same.1.1.1]
    exact render_decl_of_equal root
  | .param _ _ _ _ _, .param _ _ _ _ _, same => eq_of_beq same
  | .wildcard _ none us, .wildcard _ none vs, same => by
    rw [renderSlot_extending, renderSlot_extending,
      parametric.renderTypes_of_equal (a := us) (b := vs) same]
  | .wildcard _ (some l) _, .wildcard _ (some m) _, same => by
    obtain ⟨lowers, -⟩ := Bool.and_eq_true_iff.mp same
    rw [renderSlot, renderSlot, parametric.render_of_equal (a := l) (b := m) lowers]

theorem Parametric.renderTypes_of_equal (parametric : h.Parametric) : ∀ {a b : List Ty},
    h.equalTypes a b = true → h.renderTypes a = h.renderTypes b
  | [], [], _ => rfl
  | a :: _, b :: _, same => by
    obtain ⟨here, rest⟩ := Bool.and_eq_true_iff.mp same
    rw [renderTypes, renderTypes, parametric.render_of_equal (a := a) (b := b) here,
      parametric.renderTypes_of_equal rest]

theorem Parametric.renderSlots_of_equal (parametric : h.Parametric) : ∀ {a b : List Slot},
    h.equalSlots a b = true → h.renderSlots a = h.renderSlots b
  | [], [], _ => rfl
  | a :: _, b :: _, same => by
    obtain ⟨here, rest⟩ := Bool.and_eq_true_iff.mp same
    rw [renderSlots, renderSlots, parametric.renderSlot_of_equal (a := a) (b := b) here,
      parametric.renderSlots_of_equal rest]

end

/-! ## Nothing to replace -/

section Kept

variable {spec : Spec} {excluded : List String}

mutual

/-- A type whose type parameters are all excluded is rebuilt as an equal one, unless a slot for one
type holds a type parameter: that one becomes a slot of its own kind. -/
theorem Parametric.equal_subst (parametric : h.Parametric) : ∀ {t : Ty},
    (∀ n ∈ h.mentions t, n ∈ excluded) → t.held = [] →
      h.equal (h.subst spec excluded t) t = true
  | .decl d, kept, _ => by
    rw [subst]
    cases params : h.params d with
    | nil => exact equal_self h _
    | cons p ps =>
      have isParams : ∀ q ∈ p :: ps, q.isParam = true := params ▸ parametric.params d
      have same : (p :: ps).map (spec.resolveSlot excluded) = p :: ps := by
        rw [mentions, params] at kept
        refine (List.map_congr_left fun q member => ?_).trans (List.map_id _)
        exact Spec.resolveSlot_excluded (kept q.name (List.mem_map_of_mem member))
      simp [equal, params, same, restatesParams_self isParams]
  | .bare _ _, _, _ => equal_self h _
  | .app _ _ args, kept, plain => by
    rw [subst, equal, beq_self_eq_true, Bool.true_and]
    exact parametric.equalSlots_subst kept plain
  | .param s n bs, kept, _ => by
    rw [subst, Spec.resolve_excluded (kept n List.mem_cons_self)]
    exact equal_self h _
  | .array _ e, kept, plain => parametric.equal_subst (t := e) kept plain

theorem Parametric.slotEqual_subst (parametric : h.Parametric) : ∀ {s : Slot},
    (∀ n ∈ h.slotMentions s, n ∈ excluded) → s.held = [] →
      h.slotEqual (h.substSlot spec excluded s) s = true
  | .exact m t, kept, plain | .rebound m _ _ (t :: _), kept, plain => by
    obtain ⟨noParam, plain⟩ := List.append_eq_nil_iff.mp plain
    have noParam := Ty.param?_eq_none_iff.mp (Option.toList_eq_nil_iff.mp noParam)
    exact slotEqual_ofTy m.site (isParam_subst noParam) rfl
      (parametric.equal_subst (t := t) kept plain)
  | .rebound _ _ _ [], _, _ => equal_self h _
  | .param m l s n bs, kept, _ => by
    rw [substSlot, Spec.resolveSlot_excluded (kept n List.mem_cons_self)]
    exact slotEqual_self h _
  | .wildcard _ none us, kept, plain => by
    have uppers := parametric.equalTypes_subst kept plain
    simp [substSlot, slotEqual, Slot.isWildcard, Slot.lower, Slot.upper, uppers]
  | .wildcard _ (some l) us, kept, plain => by
    obtain ⟨below, above⟩ := List.forall_mem_append.mp kept
    obtain ⟨plain, plain'⟩ := List.append_eq_nil_iff.mp plain
    have lower := parametric.equal_subst (t := l) below plain
    have uppers := parametric.equalTypes_subst above plain'
    simp [substSlot, slotEqual, Slot.isWildcard, Slot.lower, Slot.upper, lower, uppers]

theorem Parametric.equalTypes_subst (parametric : h.Parametric) : ∀ {ts : List Ty},
    (∀ n ∈ h.typesMention ts, n ∈ excluded) → Ty.heldAll ts = [] →
      h.equalTypes (h.substTypes spec excluded ts) ts = true
  | [], _, _ => rfl
  | t :: ts, kept, plain => by
    obtain ⟨here, rest⟩ := List.forall_mem_append.mp kept
    obtain ⟨plain, plain'⟩ := List.append_eq_nil_iff.mp plain
    exact Bool.and_eq_true_iff.mpr ⟨parametric.equal_subst (t := t) here plain,
      parametric.equalTypes_subst rest plain'⟩

theorem Parametric.equalSlots_subst (parametric : h.Parametric) : ∀ {ss : List Slot},
    (∀ n ∈ h.slotsMention ss, n ∈ excluded) → Slot.heldAll ss = [] →
      h.equalSlots (h.substSlots spec excluded ss) ss = true
  | [], _, _ => rfl
  | s :: ss, kept, plain => by
    obtain ⟨here, rest⟩ := List.forall_mem_append.mp kept
    obtain ⟨plain, plain'⟩ := List.append_eq_nil_iff.mp plain
    exact Bool.and_eq_true_iff.mpr ⟨parametric.slotEqual_subst (s := s) here plain,
      parametric.equalSlots_subst rest plain'⟩

end

mutual

/-- In a closed type no slot holds a type parameter. -/
theorem held_of_closed : ∀ {t : Ty}, h.mentions t = [] → t.held = []
  | .decl _, _ | .bare _ _, _ => rfl
  | .app _ _ _, closed => heldAll_of_closedSlots closed
  | .array _ e, closed => held_of_closed (t := e) closed

theorem slotHeld_of_closed : ∀ {s : Slot}, h.slotMentions s = [] → s.held = []
  | .exact _ t, closed | .rebound _ _ _ (t :: _), closed => by
    have noParam := Ty.param?_eq_none_iff.mpr (isParam_of_mentions (t := t) closed)
    rw [Slot.held, noParam, held_of_closed (t := t) closed]
    rfl
  | .rebound _ _ _ [], _ => rfl
  | .wildcard _ none us, closed => heldAll_of_closedTypes closed
  | .wildcard _ (some l) us, closed => by
    obtain ⟨below, above⟩ := List.append_eq_nil_iff.mp closed
    rw [Slot.held, held_of_closed below, heldAll_of_closedTypes above]
    rfl

theorem heldAll_of_closedTypes : ∀ {ts : List Ty}, h.typesMention ts = [] → Ty.heldAll ts = []
  | [], _ => rfl
  | t :: ts, closed => by
    obtain ⟨first, rest⟩ := List.append_eq_nil_iff.mp closed
    rw [Ty.heldAll, held_of_closed first, heldAll_of_closedTypes rest]
    rfl

theorem heldAll_of_closedSlots : ∀ {ss : List Slot}, h.slotsMention ss = [] → Slot.heldAll ss = []
  | [], _ => rfl
  | s :: ss, closed => by
    obtain ⟨first, rest⟩ := List.append_eq_nil_iff.mp closed
    rw [Slot.heldAll, slotHeld_of_closed first, heldAll_of_closedSlots rest]
    rfl

end

end Kept

end Hierarchy

open Hierarchy in
/-- Where every type parameter of a type is excluded, the type comes back equal and with the same
text, whatever the spec: a type that was read, or that the constructors built. So applying a spec
that mentions no type parameter a second time changes nothing. -/
theorem subst_equal_to_self {h : Hierarchy} (parametric : h.Parametric) (spec : Spec) :
    (∀ (rs : List Registry) (scope : Scope) (t : Ty), h.Loaded rs → h.Opens rs scope →
      h.Reads rs scope t → t.Built) ∧
    (∀ (t : Ty) (excluded : List String), t.Built → (∀ n ∈ h.mentions t, n ∈ excluded) →
      h.equal (h.subst spec excluded t) t = true ∧
      h.render (h.subst spec excluded t) = h.render t) ∧
    (h.Concrete spec → ∀ t : Ty,
      h.equal (h.subst spec [] (h.subst spec [] t)) (h.subst spec [] t) = true) := by
  refine ⟨fun rs scope t loaded opens reads => reads.built loaded opens, ?_, ?_⟩
  · intro t excluded built kept
    have same : h.equal (h.subst spec excluded t) t = true := parametric.equal_subst kept built.held
    exact ⟨same, parametric.render_of_equal same⟩
  · intro concrete t
    have closed := concrete.mentions_subst parametric t
    exact parametric.equal_subst (by simp [closed]) (held_of_closed closed)

/-- The spec knows one of the three type parameters, and all three are excluded. -/
theorem aliases_excluded :
    aliasType.Built ∧ aliasSpec.contains "X" = true ∧
    (reelLibrary.hierarchy.equal
        (reelLibrary.hierarchy.subst aliasSpec ["V", "W", "X"] aliasType) aliasType = true ∧
      reelLibrary.hierarchy.render
        (reelLibrary.hierarchy.subst aliasSpec ["V", "W", "X"] aliasType) =
        reelLibrary.hierarchy.render aliasType) ∧
    reelLibrary.hierarchy.equal
      (reelLibrary.hierarchy.subst crateOuter []
        (reelLibrary.hierarchy.subst crateOuter [] aliasType))
      (reelLibrary.hierarchy.subst crateOuter [] aliasType) = true := by
  obtain ⟨ids, sound, -⟩ := loaded_reelLibrary.sound
  obtain ⟨readable, known, kept, concrete⟩ :
      ((reelLibrary.reader (reelLibrary.scopeIn ["V", "W", "X"])).parseType
        "Crate<X[], Crate<? super W, V>>").isOk = true ∧
      aliasSpec.contains "X" = true ∧
      (∀ n ∈ reelLibrary.hierarchy.mentions aliasType, n ∈ ["V", "W", "X"]) ∧
      reelLibrary.hierarchy.Concrete crateOuter := by
    decide +kernel
  obtain ⟨parsed, identity, -⟩ := subst_equal_to_self sound.parametric aliasSpec
  obtain ⟨-, -, idempotent⟩ := subst_equal_to_self sound.parametric crateOuter
  have built : aliasType.Built := parsed _ _ _ loaded_reelLibrary
    (Library.opens_scopeIn List.mem_cons_self _) (reads_in_reelLibrary readable)
  exact ⟨built, known, identity _ _ built kept, idempotent concrete aliasType⟩

end NominalGenerics
