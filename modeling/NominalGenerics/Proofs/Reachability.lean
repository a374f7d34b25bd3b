import Mathlib.Data.String.Basic
import NominalGenerics.Engine.Basic
import NominalGenerics.Proofs.Ancestors
import NominalGenerics.Proofs.Whole

/-!
# Subtyping, ancestors and interfaces

Three walks over the written supertypes of a loaded model agree. The subtype test follows them from
one class type to another, the list of ancestors names what is reached in one or more steps, and the
list of interfaces holds the interfaces among that, each once (`nominal_subtyping`). Array types are
below arrays of what is above their elements, and otherwise only below the root.
-/

namespace NominalGenerics

namespace Hierarchy

/-! ## Ancestors -/

section Ancestors

variable {h : Hierarchy} {ids : List DeclId} {d : DeclId} {t u : Ty}

/-- How a walk over supertypes goes on from a declaration. -/
theorem Sound.mem_nextSupertypes (sound : h.Sound ids) {x : Ty} :
    x ∈ (h.supertypes (.decl d)).map h.declaration ↔ ∃ e, x = .decl e ∧ h.Edge d e := by
  constructor
  · intro member
    obtain ⟨w, written, rfl⟩ := List.mem_map.mp member
    obtain ⟨-, e, head, edge⟩ := sound.supertype (d := d) rfl written
    exact ⟨e, sound.direct.declaration head, edge⟩
  · rintro ⟨e, rfl, w, written, head⟩
    exact List.mem_map.mpr ⟨w, written, sound.direct.declaration head⟩

theorem length_supertypes_le (h : Hierarchy) (d : DeclId) :
    (h.supertypes (.decl d)).length ≤ (h.content d).weight := by
  have one : (h.superclass (.decl d)).toList.length ≤ 1 := by
    cases h.superclass (.decl d) <;> simp
  have := length_le_weights (h.content d).interfaces
  simp only [supertypes, interfaces, List.length_append, Decl.weight]
  omega

/-- The supertypes of declarations are walked along all edges. -/
theorem Sound.mem_reachSupertypes (sound : h.Sound ids) {queue : List Ty}
    (queued : ∀ w ∈ queue, ∃ f ∈ ids, h.declaration w = .decl f) :
    u ∈ h.reachDeclarations h.supertypes queue ↔
      ∃ w ∈ queue, ∃ f e, h.declaration w = .decl f ∧ u = .decl e ∧ h.Reaches f e :=
  sound.mem_reachDeclarations (fun _ _ => sound.mem_nextSupertypes)
    (fun _ _ => sound.edge_mem) h.length_supertypes_le queued

/-- The ancestors of a class type are what its declaration reaches in one or more steps. -/
theorem Sound.mem_ancestors (sound : h.Sound ids) (head : t.head? = some d) :
    u ∈ h.ancestors t ↔ ∃ e, u = .decl e ∧ Relation.TransGen h.Edge d e := by
  unfold ancestors
  rw [sound.direct.declaration head, sound.mem_reachSupertypes]
  · constructor
    · rintro ⟨w, written, f, e, isDecl, rfl, above⟩
      obtain ⟨f', same, edge⟩ := sound.mem_nextSupertypes.mp (List.mem_map.mpr ⟨w, written, rfl⟩)
      rw [isDecl] at same
      cases same
      exact ⟨e, rfl, .head' edge above⟩
    · rintro ⟨e, rfl, path⟩
      obtain ⟨f, ⟨w, written, next⟩, above⟩ := Relation.TransGen.head'_iff.mp path
      exact ⟨w, written, f, e, sound.direct.declaration next, rfl, above⟩
  · intro w written
    obtain ⟨-, f, next, edge⟩ := sound.supertype (d := d) rfl written
    exact ⟨f, sound.edge_mem edge, sound.direct.declaration next⟩

/-- The root is the only ancestor of an array. -/
theorem Sound.mem_ancestors_array (sound : h.Sound ids) {site : Site} {elem : Ty} :
    u ∈ h.ancestors (.array site elem) ↔ u = .object := by
  have object : h.declaration .object = .decl .object := sound.direct.declaration rfl
  show u ∈ h.reachDeclarations h.supertypes [.object] ↔ _
  rw [sound.mem_reachSupertypes]
  · constructor
    · rintro ⟨w, listed, f, e, isDecl, rfl, above⟩
      rw [List.mem_singleton.mp listed, object] at isDecl
      cases isDecl
      rw [sound.eq_object_of_reaches above]
      rfl
    · rintro rfl
      exact ⟨_, List.mem_singleton_self _, _, _, object, rfl, .refl⟩
  · intro w listed
    exact ⟨_, sound.object, List.mem_singleton.mp listed ▸ object⟩

end Ancestors

/-! ## Each node once -/

theorem reach_nodup {next : Ty → List Ty} {fuel : Nat} {queue found : List Ty}
    (nodup : found.Nodup) : (reach next fuel queue found).Nodup := by
  induction fuel generalizing queue found with
  | zero =>
    unfold reach
    exact List.nodup_reverse.mpr nodup
  | succ fuel ih =>
    cases queue with
    | nil =>
      unfold reach
      exact List.nodup_reverse.mpr nodup
    | cons t queue =>
      unfold reach
      split
      · exact ih nodup
      · rename_i new
        exact ih (List.nodup_cons.mpr ⟨new, nodup⟩)

theorem allInterfaces_nodup (h : Hierarchy) (t : Ty) : (h.allInterfaces t).Nodup := by
  rw [allInterfaces, reachDeclarations_eq]
  exact reach_nodup List.nodup_nil

/-! ## Names in order -/

theorem mem_dropRepeats {n : String} : ∀ {names : List String},
    n ∈ dropRepeats names ↔ n ∈ names
  | [] => Iff.rfl
  | [_] => Iff.rfl
  | a :: b :: rest => by
    unfold dropRepeats
    split
    · rename_i same
      rw [mem_dropRepeats, same, List.mem_cons (l := b :: rest), iff_or_self]
      rintro rfl
      exact List.mem_cons_self
    · rw [List.mem_cons, mem_dropRepeats, List.mem_cons (l := b :: rest)]

/-- Names in order are strictly in order once repetitions are dropped. -/
theorem pairwise_dropRepeats : ∀ {names : List String}, names.Pairwise (· ≤ ·) →
    (dropRepeats names).Pairwise (· < ·)
  | [], _ => .nil
  | [a], _ => List.pairwise_singleton _ a
  | a :: b :: rest, ordered => by
    obtain ⟨least, later⟩ := List.pairwise_cons.mp ordered
    have ih := pairwise_dropRepeats later
    unfold dropRepeats
    split
    · exact ih
    · rename_i apart
      refine List.pairwise_cons.mpr ⟨?_, ih⟩
      intro n member
      have first : a < b := lt_of_le_of_ne (least b List.mem_cons_self) apart
      rcases List.mem_cons.mp (mem_dropRepeats.mp member) with rfl | member
      · exact first
      · exact lt_of_lt_of_le first ((List.pairwise_cons.mp later).1 n member)

/-- Names are strictly in order once they are sorted and repetitions are dropped. -/
theorem pairwise_sorted (names : List String) :
    (dropRepeats (names.mergeSort fun a b => decide (a ≤ b))).Pairwise (· < ·) := by
  apply pairwise_dropRepeats
  have transitive : ∀ a b c : String, decide (a ≤ b) = true → decide (b ≤ c) = true →
      decide (a ≤ c) = true := by
    intro a b c first second
    rw [decide_eq_true_eq] at first second ⊢
    exact le_trans first second
  have total : ∀ a b : String, (decide (a ≤ b) || decide (b ≤ a)) = true := by
    intro a b
    simpa using le_total a b
  simpa using List.pairwise_mergeSort transitive total names

theorem ancestorNames_sorted (h : Hierarchy) (t : Ty) :
    (h.ancestorNames t).Pairwise (· < ·) :=
  pairwise_sorted _

theorem mem_ancestorNames {h : Hierarchy} {t : Ty} {n : String} :
    n ∈ h.ancestorNames t ↔ ∃ u ∈ h.ancestors t, u.name = n := by
  unfold ancestorNames
  rw [mem_dropRepeats, List.mem_mergeSort, List.mem_map]

end Hierarchy

namespace Context

/-! ## Arrays -/

section Arrays

variable {Γ : Context} {t u : Ty}

/-- One level of the test asks only smaller questions. -/
theorem subtypeStep_congr {below below' : Ty → Ty → Bool} (noUnion : Γ.hierarchy.isUnion u = false)
    (same : ∀ x y, x.weight + y.weight < t.weight + u.weight → below x y = below' x y) :
    Γ.subtypeStep below t u = Γ.subtypeStep below' t u := by
  have lighter : ∀ {b : Ty} {bs : List Ty}, b ∈ bs → b.weight < 1 + Ty.weights bs := by
    intro b bs member
    have := Ty.weight_le_weights member
    omega
  unfold subtypeStep
  split
  · rfl
  · cases t with
    | array s a =>
      cases u with
      | array s' b => exact same a b (by simp only [Ty.weight]; omega)
      | _ => rfl
    | param s n bs =>
      cases u with
      | array => rfl
      | _ =>
        rw [Bool.eq_iff_iff, List.any_eq_true, List.any_eq_true]
        refine exists_congr fun b => and_congr_right fun member => ?_
        rw [same b _ (by have := lighter member; simp only [Ty.weight] at this ⊢; omega)]
    | _ =>
      cases u with
      | array => rfl
      | param s n bs =>
        rw [Bool.eq_iff_iff, List.all_eq_true, List.all_eq_true]
        refine forall₂_congr fun b member => ?_
        rw [same _ b (by have := lighter member; simp only [Ty.weight] at this ⊢; omega)]
      | _ => simp only [noUnion, Bool.false_eq_true, if_false]

/-- More levels than the types weigh change nothing. -/
theorem subtypeWithin_of_le (noUnion : ∀ y, Γ.hierarchy.isUnion y = false) {fuel fuel' : Nat}
    (enough : t.weight + u.weight ≤ fuel) (more : fuel ≤ fuel') :
    Γ.subtypeWithin fuel' t u = Γ.subtypeWithin fuel t u := by
  induction fuel generalizing fuel' t u with
  | zero =>
    have := t.weight_pos
    omega
  | succ fuel ih =>
    obtain ⟨fuel', rfl⟩ := Nat.exists_eq_add_of_le' (Nat.le_trans (Nat.le_add_left 1 fuel) more)
    unfold subtypeWithin
    refine subtypeStep_congr (noUnion u) fun x y smaller => ?_
    exact ih (by omega) (by omega)

theorem isSubtype_of_is (same : t.is u = true) : Γ.isSubtype t u = true := by
  unfold isSubtype
  obtain ⟨fuel, levels⟩ := Nat.exists_eq_succ_of_ne_zero
    (Nat.ne_zero_of_lt (Γ.hierarchy.weight_lt_budget (t.weight + u.weight)))
  rw [levels]
  simp [subtypeWithin, subtypeStep, same]

/-- Arrays are covariant. -/
theorem isSubtype_arrays (noUnion : ∀ y, Γ.hierarchy.isUnion y = false) {s s' : Site} {a b : Ty} :
    Γ.isSubtype (.array s a) (.array s' b) = Γ.isSubtype a b := by
  by_cases same : a.is b = true
  · rw [isSubtype_of_is same, isSubtype_of_is (Γ := Γ) (show (Ty.array s a).is (.array s' b) = true
      from same)]
  · have step : ∀ fuel, Γ.subtypeWithin (fuel + 1) (.array s a) (.array s' b) =
        Γ.subtypeWithin fuel a b := by
      intro fuel
      simp [subtypeWithin, subtypeStep, Ty.is, same, Ty.isRoot, Ty.head?]
    unfold isSubtype
    -- both tests have more levels than the elements weigh
    have levels := Γ.hierarchy.weight_lt_budget ((Ty.array s a).weight + (Ty.array s' b).weight)
    have levels' := Γ.hierarchy.weight_lt_budget (a.weight + b.weight)
    simp only [Ty.weight] at levels ⊢
    generalize Γ.hierarchy.budget (1 + a.weight + (1 + b.weight)) = fuel at levels ⊢
    obtain ⟨fuel, rfl⟩ := Nat.exists_eq_succ_of_ne_zero (Nat.ne_zero_of_lt levels)
    have least : a.weight + b.weight ≤ a.weight + b.weight := Nat.le_refl _
    calc Γ.subtypeWithin (fuel + 1) (.array s a) (.array s' b)
      _ = Γ.subtypeWithin fuel a b := step fuel
      _ = Γ.subtypeWithin (a.weight + b.weight) a b := subtypeWithin_of_le noUnion least (by omega)
      _ = _ := (subtypeWithin_of_le noUnion least (by omega)).symm

/-- Above an array are the root and the arrays of what is above its elements. -/
theorem isSubtype_array_iff (noUnion : ∀ y, Γ.hierarchy.isUnion y = false) {s : Site} {a : Ty} :
    Γ.isSubtype (.array s a) u = true ↔
      u.isRoot = true ∨ ∃ s' b, u = .array s' b ∧ Γ.isSubtype a b = true := by
  have levels := Γ.hierarchy.weight_lt_budget ((Ty.array s a).weight + u.weight)
  cases u with
  | array s' b =>
    rw [isSubtype_arrays noUnion]
    simp [Ty.isRoot, Ty.head?]
  | _ =>
    unfold isSubtype
    obtain ⟨fuel, enough⟩ := Nat.exists_eq_succ_of_ne_zero (Nat.ne_zero_of_lt levels)
    rw [enough]
    simp [subtypeWithin, subtypeStep, Ty.is, Ty.head?]

/-- Only arrays are below an array. -/
theorem isSubtype_of_array_eq_false {s : Site} {b : Ty} (plain : t.isArray = false) :
    Γ.isSubtype t (.array s b) = false := by
  unfold isSubtype
  cases Γ.hierarchy.budget (t.weight + (Ty.array s b).weight) with
  | zero => rfl
  | succ fuel =>
    cases t with
    | array => cases plain
    | _ => simp [subtypeWithin, subtypeStep, Ty.is, Ty.isRoot, Ty.head?]

end Arrays

end Context

/-- In a loaded model, for an engine without a marker. One class type is below another when its
declaration reaches the other's along written supertypes, and the root is reached from everywhere.
The ancestors of a class type are listed by name, strictly in order, and are what is reached in one
or more steps; the interfaces among them are listed once each. An array is below the root and below
the arrays of what its elements are below, and nothing else is below an array. -/
theorem nominal_subtyping {h : Hierarchy} {rs : List Registry} (loaded : h.Loaded rs)
    {scope : Scope} (opens : h.Opens rs scope) {t : Ty} (reads : h.Reads rs scope t) (s : Ty)
    {e : Engine} (unmarked : e.settings.marker = "") :
    (∀ d, t.head? = some d →
      (∀ g, s.head? = some g → (e.isSubtype h t s = true ↔ h.Reaches d g)) ∧
      h.Reaches d .object ∧
      (h.ancestorNames t).Pairwise (· < ·) ∧
      (∀ n, n ∈ h.ancestorNames t ↔ ∃ c, Relation.TransGen h.Edge d c ∧ c.name = n) ∧
      (h.allInterfaces t).Nodup ∧
      ∀ u, u ∈ h.allInterfaces t ↔
        ∃ c, u = .decl c ∧ h.isInterface u = true ∧ Relation.TransGen h.Edge d c) ∧
    (∀ site elem, t = .array site elem → (e.isSubtype h t s = true ↔
      s.isRoot = true ∨ ∃ site' elem', s = .array site' elem' ∧
        e.isSubtype h elem elem' = true)) ∧
    (t.isArray = false → s.isArray = true → e.isSubtype h t s = false) := by
  obtain ⟨ids, sound, known⟩ := loaded.sound
  have noUnion := sound.isUnion_eq_false
  refine ⟨?_, ?_, ?_⟩
  · intro d head
    obtain ⟨k, here⟩ := (reads.whole sound known opens).head head
    have member := (Hierarchy.arity_eq_some.mp here).1
    refine ⟨?_, sound.reaches_object member, h.ancestorNames_sorted t, ?_,
      h.allInterfaces_nodup t, ?_⟩
    · intro g head'
      exact Context.isSubtype_class (Γ := e.context h) unmarked sound head head' member
    · intro n
      simp only [Hierarchy.mem_ancestorNames, sound.mem_ancestors head]
      constructor
      · rintro ⟨_, ⟨c, rfl, above⟩, named⟩
        exact ⟨c, above, named⟩
      · rintro ⟨c, above, named⟩
        exact ⟨.decl c, ⟨c, rfl, above⟩, named⟩
    · intro u
      constructor
      · intro listed
        obtain ⟨c, rfl, isInterface, above⟩ := sound.allInterfaces_sound head listed
        exact ⟨c, rfl, isInterface, above⟩
      · rintro ⟨c, rfl, isInterface, above⟩
        refine sound.allInterfaces_complete head member above.to_reflTransGen isInterface ?_
        rintro rfl
        exact sound.acyclic d above
  · rintro site elem rfl
    exact Context.isSubtype_array_iff (Γ := e.context h) noUnion
  · intro plain isArray
    cases s with
    | array => exact Context.isSubtype_of_array_eq_false plain
    | _ => cases isArray

/-- A reel of a type parameter: below sequences of anything, with its ancestors by name. -/
theorem reel_subtyping :
    ((Engine.ofSettings { marker := "" }).isSubtype reelLibrary.hierarchy
        (reelLibrary.typeIn (reelLibrary.hierarchy.scopeOf ⟨"Reel", 7⟩) "Reel<X>")
        (reelLibrary.typeOf "Sequence<? extends Text[]>") = true ↔
      reelLibrary.hierarchy.Reaches ⟨"Reel", 7⟩ ⟨"Sequence", 2⟩) ∧
    ∀ n, n ∈ reelLibrary.hierarchy.ancestorNames
        (reelLibrary.typeIn (reelLibrary.hierarchy.scopeOf ⟨"Reel", 7⟩) "Reel<X>") ↔
      ∃ c, Relation.TransGen reelLibrary.hierarchy.Edge ⟨"Reel", 7⟩ c ∧ c.name = n := by
  have found : reelLibrary.registry.lookup? "Reel" = some ⟨"Reel", 7⟩ := by decide +kernel
  have reads : reelLibrary.hierarchy.Reads [reelLibrary.registry, .root]
      (reelLibrary.hierarchy.scopeOf ⟨"Reel", 7⟩)
      (reelLibrary.typeIn (reelLibrary.hierarchy.scopeOf ⟨"Reel", 7⟩) "Reel<X>") :=
    reads_in_reelLibrary (by decide +kernel)
  obtain ⟨classes, -⟩ := nominal_subtyping (e := .ofSettings { marker := "" }) loaded_reelLibrary
    (.of List.mem_cons_self found) reads (reelLibrary.typeOf "Sequence<? extends Text[]>") rfl
  obtain ⟨test, -, -, names, -⟩ := classes ⟨"Reel", 7⟩ (by decide +kernel)
  exact ⟨test ⟨"Sequence", 2⟩ (by decide +kernel), names⟩

-- the loop is met first, then the sequence that the buffer implements, then the ring above the loop
example : (reelLibrary.hierarchy.allInterfaces (reelLibrary.typeOf "Reel<Text>")).map Ty.name =
    ["Loop", "Sequence", "Ring"] := by
  decide +kernel

end NominalGenerics
