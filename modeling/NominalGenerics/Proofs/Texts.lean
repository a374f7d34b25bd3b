import NominalGenerics.Proofs.Comparing
import NominalGenerics.Proofs.RoundTrip

/-!
# Types told apart by their texts

Structural equality sees no sites (`Hierarchy.equal_outline`), and of two types that one reader gave
it sees everything else (`Ty.Legible.outline_of_equal`): a name stands for one declaration or one
type parameter, and bounds come with the parameter. The text of a type shows no sites either, and
reading it gives the rest back. So types that are read are equal exactly when they are written alike
(`Session.equal_iff_written_alike`).
-/

namespace NominalGenerics

/-! ## Sites are not compared -/

namespace Slot

variable {s : Slot}

theorem kind_outline : (s.outline id).kind = s.kind := by
  rcases s with _ | ⟨_, _, _ | _, _⟩ | ⟨_, _ | _, _, _, _⟩ | ⟨_, _ | _, _⟩ <;> rfl

theorem isWildcard_outline : (s.outline id).isWildcard = s.isWildcard := by
  rcases s with _ | ⟨_, _, _ | _, _⟩ | ⟨_, _ | _, _, _, _⟩ | ⟨_, _ | _, _⟩ <;> rfl

theorem lower_outline : (s.outline id).lower = s.lower.map (Ty.outline id) := by
  rcases s with _ | ⟨_, _, _ | _, _⟩ | ⟨_, _ | _, _, _, _⟩ | ⟨_, _ | _, _⟩ <;> rfl

theorem upper_outline : (s.outline id).upper = Ty.outlines id s.upper := by
  rcases s with _ | ⟨_, _, _ | _, _⟩ | ⟨_, _ | _, _, _, _⟩ | ⟨_, _ | _, _⟩ <;> rfl

theorem ty_outline : (s.outline id).ty = s.ty.outline id := by
  rcases s with _ | ⟨_, _, _ | _, _ | _⟩ | ⟨_, _ | _, _, _, _⟩ | ⟨_, _ | _, _ | _⟩ <;> rfl

end Slot

theorem Ty.isApplied_outline (t : Ty) : (t.outline id).isApplied = t.isApplied := by
  rcases t with _ | _ | ⟨_, _, _ | _⟩ | _ | _ <;> rfl

theorem Ty.isDiamond_outline (t : Ty) : (t.outline id).isDiamond = t.isDiamond := by
  rcases t with _ | _ | ⟨_, _, _ | _⟩ | _ | _ <;> rfl

theorem Ty.isRoot_outline (t : Ty) : (t.outline id).isRoot = t.isRoot := by
  cases t <;> rfl

namespace Hierarchy

theorem restatesParams_outlines : ∀ ps as : List Slot,
    restatesParams ps (Slot.outlines id as) = restatesParams ps as
  | [], [] | [], _ :: _ | _ :: _, [] => rfl
  | p :: ps, a :: as => by
    have rest := restatesParams_outlines ps as
    rcases a with _ | ⟨_, _, _ | _, _⟩ | ⟨_, _ | _, _, _, _⟩ | ⟨_, _ | _, _⟩ <;>
      simp [Slot.outlines, Slot.outline, restatesParams, rest]

variable (h : Hierarchy)

mutual

/-- Where types and their parts are written makes no difference to structural equality. -/
theorem equal_outline : ∀ x y : Ty, h.equal (x.outline id) (y.outline id) = h.equal x y
  | .decl _, y => by
    cases y <;> simp [Ty.outline, equal, restatesParams_outlines]
  | .bare _ _, y => by
    cases y <;> simp [Ty.outline, equal]
  | .app _ _ as, y => by
    cases y <;> simp [Ty.outline, equal, restatesParams_outlines, equalSlots_outlines as]
  | .param _ _ _, y => by
    cases y <;> simp [Ty.outline, equal]
  | .array _ a, y => by
    cases y <;> simp [Ty.outline, equal, equal_outline a]

theorem slotEqual_outline : ∀ x y : Slot,
    h.slotEqual (x.outline id) (y.outline id) = h.slotEqual x y
  | .exact _ t, y => by
    simp only [Slot.outline, slotEqual, Slot.kind_outline, Slot.ty_outline, equal_outline t]
  | .rebound _ _ none [], y | .rebound _ _ (some _) [], y => by
    simp only [Slot.outline, Ty.outlines, slotEqual, Slot.kind_outline, Slot.ty_outline,
      Ty.isApplied_outline, Ty.isDiamond_outline, Ty.isRoot_outline]
  | .rebound _ _ none (u :: _), y | .rebound _ _ (some _) (u :: _), y => by
    simp only [Slot.outline, Ty.outlines, slotEqual, Slot.kind_outline, Slot.ty_outline,
      equal_outline u]
  | .param _ none _ _ _, y | .param _ (some _) _ _ _, y => by
    rcases y with _ | ⟨_, _, _ | _, _⟩ | ⟨_, _ | _, _, _, _⟩ | ⟨_, _ | _, _⟩ <;> rfl
  | .wildcard _ none us, y => by
    simp only [Slot.outline, slotEqual, Slot.isWildcard_outline, Slot.lower_outline,
      Slot.upper_outline, equalTypes_outlines us, Option.isNone_map]
  | .wildcard _ (some l) us, y => by
    simp only [Slot.outline, slotEqual, Slot.isWildcard_outline, Slot.lower_outline,
      Slot.upper_outline]
    cases y.lower with
    | none => rfl
    | some m => simp only [Option.map_some, equal_outline l, equalTypes_outlines us]

theorem equalTypes_outlines : ∀ xs ys : List Ty,
    h.equalTypes (Ty.outlines id xs) (Ty.outlines id ys) = h.equalTypes xs ys
  | [], [] | [], _ :: _ | _ :: _, [] => rfl
  | x :: xs, y :: ys => by
    simp only [Ty.outlines, equalTypes, equal_outline x, equalTypes_outlines xs]

theorem equalSlots_outlines : ∀ xs ys : List Slot,
    h.equalSlots (Slot.outlines id xs) (Slot.outlines id ys) = h.equalSlots xs ys
  | [], [] | [], _ :: _ | _ :: _, [] => rfl
  | x :: xs, y :: ys => by
    simp only [Slot.outlines, equalSlots, slotEqual_outline x, equalSlots_outlines xs]

end

end Hierarchy

/-! ## Everything else is compared -/

section Legible

variable {r : Reader}

mutual

/-- Of two types that one reader could have read, equal ones have one outline. -/
theorem Ty.Legible.outline_of_equal : ∀ {x y : Ty}, x.Legible r → y.Legible r →
    r.hierarchy.equal x y = true → x.outline id = y.outline id
  | .array _ a, .array _ b, legibleX, legibleY, same => by
    rw [Hierarchy.equal] at same
    rw [Ty.outline, Ty.outline,
      Ty.Legible.outline_of_equal (x := a) (y := b) legibleX legibleY same]
  | .param _ n _, .param _ m _, heldX, heldY, same => by
    -- a name is that of one type parameter, which has one list of bounds
    rw [Hierarchy.equal, beq_iff_eq] at same
    subst same
    cases heldX.found.symm.trans heldY.found
    rfl
  | .decl _, .decl _, _, _, same | .bare _ _, .bare _ _, _, _, same => by
    simp_all [Hierarchy.equal, Ty.outline]
  | .app _ _ as, .app _ _ bs, ⟨_, _, legibleX⟩, ⟨_, _, legibleY⟩, same => by
    rw [Hierarchy.equal, Bool.and_eq_true, beq_iff_eq] at same
    rw [Ty.outline, Ty.outline, same.1, Slot.LegibleAll.outlines_of_equal legibleX legibleY same.2]
  | .decl d, .bare _ e, ⟨_, plain⟩, ⟨_, generic⟩, same
  | .bare _ e, .decl d, ⟨_, generic⟩, ⟨_, plain⟩, same => by
    simp_all [Hierarchy.equal]
  | .decl d, .app _ e _, ⟨_, plain⟩, _, same => by
    simp_all [Hierarchy.equal]
  | .app _ e _, .decl d, _, ⟨_, plain⟩, same => by
    simp only [Hierarchy.equal, Bool.and_eq_true, beq_iff_eq] at same
    rw [same.1.1] at same
    simp_all

theorem Slot.Legible.outline_of_equal : ∀ {x y : Slot}, x.Legible r → y.Legible r →
    r.hierarchy.slotEqual x y = true → x.outline id = y.outline id
  | .exact _ t, .exact _ u, ⟨fresh, _, legibleX⟩, ⟨fresh', _, legibleY⟩, same => by
    simp only [Hierarchy.slotEqual, Bool.and_eq_true] at same
    rw [Slot.outline, Slot.outline, fresh, fresh', legibleX.outline_of_equal legibleY same.2]
  | .param _ none _ _ _, .param _ none _ _ _, ⟨fresh, _, heldX⟩, ⟨fresh', _, heldY⟩, same => by
    simp only [Hierarchy.slotEqual, Slot.isParam, Slot.name, Bool.true_and, beq_iff_eq] at same
    subst same
    cases heldX.found.symm.trans heldY.found
    rw [Slot.outline, Slot.outline, fresh, fresh']
  | .wildcard _ none us, .wildcard _ none vs, ⟨fresh, legibleX⟩, ⟨fresh', legibleY⟩, same => by
    simp only [Hierarchy.slotEqual, Bool.and_eq_true] at same
    rw [Slot.outline, Slot.outline, fresh, fresh',
      Ty.LegibleAll.outlines_of_equal legibleX legibleY same.2]
  | .wildcard _ (some l) _, .wildcard _ (some m) _, ⟨fresh, rfl, legibleX⟩, ⟨fresh', rfl, legibleY⟩,
      same => by
    simp only [Hierarchy.slotEqual, Slot.lower, Bool.and_eq_true] at same
    rw [Slot.outline, Slot.outline, fresh, fresh', legibleX.outline_of_equal legibleY same.1.2]

theorem Ty.LegibleAll.outlines_of_equal : ∀ {xs ys : List Ty}, Ty.LegibleAll r xs →
    Ty.LegibleAll r ys → r.hierarchy.equalTypes xs ys = true →
      Ty.outlines id xs = Ty.outlines id ys
  | [], [], _, _, _ => rfl
  | x :: xs, y :: ys, ⟨firstX, restX⟩, ⟨firstY, restY⟩, same => by
    rw [Hierarchy.equalTypes, Bool.and_eq_true] at same
    rw [Ty.outlines, Ty.outlines, firstX.outline_of_equal firstY same.1,
      Ty.LegibleAll.outlines_of_equal restX restY same.2]

theorem Slot.LegibleAll.outlines_of_equal : ∀ {xs ys : List Slot}, Slot.LegibleAll r xs →
    Slot.LegibleAll r ys → r.hierarchy.equalSlots xs ys = true →
      Slot.outlines id xs = Slot.outlines id ys
  | [], [], _, _, _ => rfl
  | x :: xs, y :: ys, ⟨firstX, restX⟩, ⟨firstY, restY⟩, same => by
    rw [Hierarchy.equalSlots, Bool.and_eq_true] at same
    rw [Slot.outlines, Slot.outlines, firstX.outline_of_equal firstY same.1,
      Slot.LegibleAll.outlines_of_equal restX restY same.2]

end

end Legible

/-- Of two types that were read in one scope, maybe at different places, those that are equal are
those that are written alike. -/
theorem Reader.equal_iff_render {r : Reader} (apt : r.Apt) {source : Nat} {text text' : String}
    {t u : Ty} (okT : r.parseType text = .ok t)
    (okU : ({ r with source := source } : Reader).parseType text' = .ok u) :
    r.hierarchy.equal t u = true ↔ r.hierarchy.render t = r.hierarchy.render u := by
  have apt' : ({ r with source := source } : Reader).Apt := ⟨apt.named, apt.proper⟩
  -- both texts are read once more, at one place
  obtain ⟨t', backT, alikeT⟩ := parseType_render apt okT r.source
  obtain ⟨u', backU, alikeU⟩ := parseType_render apt' okU r.source
  constructor
  · intro same
    have same' : r.hierarchy.equal t' u' = true := by
      rw [← r.hierarchy.equal_outline, alikeT, alikeU, r.hierarchy.equal_outline, same]
    have alike := (parseType_legible apt backT).outline_of_equal (parseType_legible apt backU) same'
    rw [← r.hierarchy.render_outline, ← alikeT, alike, alikeU, r.hierarchy.render_outline]
  · intro same
    have one : t' = u' := by
      rw [same] at backT
      exact Except.ok.inj (backT.symm.trans backU)
    exact r.hierarchy.equal_of_outline (by rw [← alikeT, one, alikeU])

namespace Session

/-- Types that a registry of a session reads in one scope, opened then or earlier, are equal exactly
when they are rendered alike. So equality is an equivalence of these types; equal ones denote the
same declaration, and equality stays as it is with the sites of both sides wiped. -/
theorem equal_iff_written_alike (earlier later : List Command) {r : Registry}
    (member : r ∈ (after (earlier ++ later)).registries) {scope : Scope}
    (opens : (after earlier).hierarchy.Opens (after earlier).registries scope) :
    let h := (after (earlier ++ later)).hierarchy
    let Read (t : Ty) := ∃ source text, (Reader.mk h r scope source).parseType text = .ok t
    (∀ t u, Read t → Read u →
      (h.equal t u = true ↔ h.render t = h.render u) ∧
      (h.equal t u = true → t.is u = true) ∧
      h.equal (t.outline id) (u.outline id) = h.equal t u) ∧
    Equivalence fun t u : { t : Ty // Read t } => h.equal t u = true := by
  intro h Read
  have proper : scope.Proper := opens.proper fun _ known => (upright earlier known).toConsistent
  have rendered : ∀ t u, Read t → Read u → (h.equal t u = true ↔ h.render t = h.render u) := by
    rintro t u ⟨source, text, okT⟩ ⟨source', text', okU⟩
    have apt : (Reader.mk h r scope source).Apt :=
      ⟨(upright (earlier ++ later) member).named, proper⟩
    exact Reader.equal_iff_render apt okT okU
  constructor
  · intro t u readT readU
    exact ⟨rendered t u readT readU, Hierarchy.is_of_equal, h.equal_outline t u⟩
  · have byText : (fun t u : { t : Ty // Read t } => h.equal t u = true) =
        fun t u : { t : Ty // Read t } => h.render t = h.render u := by
      ext t u
      exact rendered t u t.2 u.2
    rw [byText]
    exact ⟨fun _ => rfl, fun same => same.symm, fun same same' => same.trans same'⟩

def reelRead (source : Nat) (text : String) : Ty :=
  let h := (after (reelCommands ++ [.clone 0])).hierarchy
  ((Reader.mk h reelRegistry elementScope source).parseType text).toOption.getD .object

theorem parseType_reelRead {source : Nat} {text : String}
    (ok : ((Reader.mk (after (reelCommands ++ [.clone 0])).hierarchy reelRegistry elementScope
      source).parseType text).isOk = true) :
    (Reader.mk (after (reelCommands ++ [.clone 0])).hierarchy reelRegistry elementScope
      source).parseType text = .ok (reelRead source text) := by
  obtain ⟨t, read⟩ := exists_of_isOk ok
  rw [reelRead, read]
  rfl

/-- Two readings of one type, with arguments inside arguments, are equal though they differ in their
sites, and a type that differs in the innermost argument is told apart. -/
theorem element_arrays_equal :
    reelRegistry ∈ (after (reelCommands ++ [.clone 0])).registries ∧
    (after reelCommands).hierarchy.Opens (after reelCommands).registries elementScope ∧
    let h := (after (reelCommands ++ [.clone 0])).hierarchy
    ∃ t u v,
      (Reader.mk h reelRegistry elementScope 3).parseType "Crate<Reel<T[]>,?>[]" = .ok t ∧
      (Reader.mk h reelRegistry elementScope 4).parseType " Crate<Reel<T[ ]>, ?>[]" = .ok u ∧
      (Reader.mk h reelRegistry elementScope 5).parseType "Crate<Reel<Text[]>,?>[]" = .ok v ∧
      t ≠ u ∧ h.equal t u = true ∧ h.equal t v = false := by
  obtain ⟨there, okT, okU, okV, apart, alike, unlike⟩ :
      (after reelCommands).registries[0]?.isSome = true ∧
      ((Reader.mk (after (reelCommands ++ [.clone 0])).hierarchy reelRegistry elementScope
        3).parseType "Crate<Reel<T[]>,?>[]").isOk = true ∧
      ((Reader.mk (after (reelCommands ++ [.clone 0])).hierarchy reelRegistry elementScope
        4).parseType " Crate<Reel<T[ ]>, ?>[]").isOk = true ∧
      ((Reader.mk (after (reelCommands ++ [.clone 0])).hierarchy reelRegistry elementScope
        5).parseType "Crate<Reel<Text[]>,?>[]").isOk = true ∧
      reelRead 3 "Crate<Reel<T[]>,?>[]" ≠ reelRead 4 " Crate<Reel<T[ ]>, ?>[]" ∧
      (after (reelCommands ++ [.clone 0])).hierarchy.render (reelRead 3 "Crate<Reel<T[]>,?>[]") =
        (after (reelCommands ++ [.clone 0])).hierarchy.render
          (reelRead 4 " Crate<Reel<T[ ]>, ?>[]") ∧
      (after (reelCommands ++ [.clone 0])).hierarchy.render (reelRead 3 "Crate<Reel<T[]>,?>[]") ≠
        (after (reelCommands ++ [.clone 0])).hierarchy.render
          (reelRead 5 "Crate<Reel<Text[]>,?>[]") := by
    decide +kernel
  have member := reelRegistry_mem_cloned there
  have opens : (after reelCommands).hierarchy.Opens (after reelCommands).registries elementScope :=
    opens_elementScope (reelRegistry_mem there)
  obtain ⟨iff, -⟩ := equal_iff_written_alike reelCommands [.clone 0] member opens
  have readT := parseType_reelRead okT
  have readU := parseType_reelRead okU
  have readV := parseType_reelRead okV
  generalize reelRead 3 "Crate<Reel<T[]>,?>[]" = t at apart alike unlike readT
  generalize reelRead 4 " Crate<Reel<T[ ]>, ?>[]" = u at apart alike readU
  generalize reelRead 5 "Crate<Reel<Text[]>,?>[]" = v at unlike readV
  refine ⟨member, opens, t, u, v, readT, readU, readV, apart, ?_, ?_⟩
  · exact (iff t u ⟨3, _, readT⟩ ⟨4, _, readU⟩).1.2 alike
  · apply Bool.eq_false_iff.2
    exact mt (iff t v ⟨3, _, readT⟩ ⟨5, _, readV⟩).1.1 unlike

end Session

end NominalGenerics
