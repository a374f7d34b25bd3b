import NominalGenerics.Compatibility
import NominalGenerics.Engine.Basic

/-!
# More levels keep an answer

A comparison of arguments may descend so many levels and fails when it needs more. An answer that
it gives stays when it may descend further (`argumentsMatch_of_le`). So each question has at most
one answer, whatever the number of levels, and `Concludes` says which: from some number of levels on
every engine with the same marker gives it.
-/

namespace NominalGenerics

/-! ## Kept answers -/

/-- `y` answers what `x` answers. -/
def Traced.KeptBy {α : Type} (x y : Traced α) : Prop := ∀ a, x.result = .ok a → y.result = .ok a

namespace Traced.KeptBy

variable {α β : Type} {x y x' y' : Traced α}

theorem refl (x : Traced α) : x.KeptBy x := fun _ answer => answer

theorem trans {z : Traced α} (first : x.KeptBy y) (second : y.KeptBy z) : x.KeptBy z :=
  fun a answer => second a (first a answer)

theorem ite {c : Prop} [Decidable c] (yes : x.KeptBy x') (no : y.KeptBy y') :
    (if c then x else y).KeptBy (if c then x' else y') := by
  split
  · exact yes
  · exact no

theorem bind {f f' : α → Traced β} (first : x.KeptBy x') (rest : ∀ a, (f a).KeptBy (f' a)) :
    (x >>= f).KeptBy (x' >>= f') := by
  intro b answer
  rw [Traced.result_bind] at answer ⊢
  cases ended : x.result with
  | error e =>
    rw [ended] at answer
    cases answer
  | ok a =>
    rw [ended] at answer
    rw [first a ended]
    exact rest a b answer

variable {xs : List α} {test test' : α → Traced Bool}

theorem allM (each : ∀ a, (test a).KeptBy (test' a)) : (xs.allM test).KeptBy (xs.allM test') := by
  induction xs with
  | nil => exact .refl _
  | cons a xs ih =>
    refine .bind (each a) fun passed => ?_
    cases passed with
    | true => exact ih
    | false => exact .refl _

theorem anyM (each : ∀ a, (test a).KeptBy (test' a)) : (xs.anyM test).KeptBy (xs.anyM test') := by
  induction xs with
  | nil => exact .refl _
  | cons a xs ih =>
    refine .bind (each a) fun passed => ?_
    cases passed with
    | true => exact .refl _
    | false => exact ih

end Traced.KeptBy

namespace Context

variable {Γ : Context}

section Step

variable {matching matching' : Ty → Ty → Traced Bool} {accept accept' : Slot → Ty → Traced Bool}

theorem accepts_keptBy (further : ∀ t u, (matching t u).KeptBy (matching' t u)) (slot : Slot)
    (t : Ty) : (Γ.accepts matching slot t).KeptBy (Γ.accepts matching' slot t) := by
  unfold accepts
  dsimp only
  refine .ite (.refl _) (.ite (.refl _) (.ite (.refl _) ?_))
  cases slot.kind with
  | wildcard | param =>
    cases slot.lower with
    | some l => exact .ite (further l t) (.refl _)
    | none => exact .ite (.allM (further t)) (.refl _)
  | exact => exact .ite (further t slot.ty) (.refl _)

theorem fitsWildcard_keptBy (further : ∀ s t, (accept s t).KeptBy (accept' s t))
    (supplied wildcard : Slot) (candidateArgs : Spec) :
    (fitsWildcard accept supplied wildcard candidateArgs).KeptBy
      (fitsWildcard accept' supplied wildcard candidateArgs) := by
  unfold fitsWildcard
  refine .ite (further _ _) ?_
  split
  · exact further _ _
  · exact .refl _
  · exact .refl _
  · exact .ite (.refl _) (.anyM (further _))

theorem fitsArgument_keptBy (further : ∀ s t, (accept s t).KeptBy (accept' s t))
    (supplied declared : Slot) (boundArgs candidateArgs : Spec) :
    (fitsArgument accept supplied declared boundArgs candidateArgs).KeptBy
      (fitsArgument accept' supplied declared boundArgs candidateArgs) := by
  unfold fitsArgument
  refine .ite (.ite (.refl _) ?_) ?_
  · cases boundArgs.get? declared.name with
    | none => exact .refl _
    | some expected =>
      dsimp only
      cases expected.kind with
      | param => exact .refl _
      | wildcard =>
        cases expected.lower with
        | some l => exact further declared l
        | none => exact .anyM (further declared)
      | exact => exact further _ _
  · dsimp only
    cases ((boundArgs.get? declared.name).getD declared).kind with
    | wildcard => exact fitsWildcard_keptBy further _ _ _
    | param =>
      dsimp only
      cases candidateArgs.get? ((boundArgs.get? declared.name).getD declared).name with
      | some actual => exact further _ _
      | none => exact further _ _
    | exact => exact further _ _

theorem matchesArguments_keptBy (further : ∀ s t, (accept s t).KeptBy (accept' s t))
    (t bound : Ty) :
    (Γ.matchesArguments accept t bound).KeptBy (Γ.matchesArguments accept' t bound) := by
  unfold matchesArguments
  refine .ite (.refl _) (.ite (.refl _) ?_)
  refine .bind (.refl _) fun boundArgs => .bind (.refl _) fun candidateArgs => .allM fun pair => ?_
  exact fitsArgument_keptBy further _ _ _ _

theorem matchesSuperclass_keptBy (further : ∀ t u, (matching t u).KeptBy (matching' t u))
    (seenFrom : Ty → Ty → Traced Ty) (t bound : Ty) :
    (Γ.matchesSuperclass seenFrom matching t bound).KeptBy
      (Γ.matchesSuperclass seenFrom matching' t bound) := by
  cases super : Γ.hierarchy.superclass t with
  | none =>
    rw [matchesSuperclass_of_none super, matchesSuperclass_of_none super]
    exact .refl _
  | some w =>
    rw [matchesSuperclass_of_some super, matchesSuperclass_of_some super]
    exact .ite (further w bound) (.bind (.refl _) fun seen => further seen bound)

theorem matchesAncestor_keptBy (further : ∀ t u, (matching t u).KeptBy (matching' t u))
    (seenFrom : Ty → Ty → Traced Ty) (t bound : Ty) :
    (Γ.matchesAncestor seenFrom matching t bound).KeptBy
      (Γ.matchesAncestor seenFrom matching' t bound) := by
  unfold matchesAncestor
  extract_lets h viaSuperclass viaSuperclass'
  have through : viaSuperclass.KeptBy viaSuperclass' := matchesSuperclass_keptBy further _ _ _
  refine .ite (.ite (.refl _) ?_) (.ite (.bind (.allM (further t)) fun passed => ?_) through)
  · cases (h.allInterfaces t).find? (·.is bound) with
    | some i => exact .bind (.refl _) fun seen => further seen bound
    | none => exact through
  · exact .ite (.refl _) through

theorem matchesClass_keptBy (further : ∀ t u, (matching t u).KeptBy (matching' t u))
    (t bound : Ty) : (Γ.matchesClass matching t bound).KeptBy (Γ.matchesClass matching' t bound) :=
  .ite (matchesArguments_keptBy (accepts_keptBy further) t bound)
    (matchesAncestor_keptBy further _ t bound)

theorem argumentsMatchStep_keptBy (further : ∀ t u, (matching t u).KeptBy (matching' t u))
    (t bound : Ty) : (Γ.argumentsMatchStep matching t bound).KeptBy
      (Γ.argumentsMatchStep matching' t bound) := by
  unfold argumentsMatchStep
  split
  · exact further _ _
  · exact .refl _
  · refine .ite (.refl _) ?_
    split
    · split
      · exact further _ _
      · exact matchesClass_keptBy further _ _
    · exact .refl _
    · exact matchesClass_keptBy further _ _

end Step

theorem argumentsMatch_keptBy_succ (fuel : Nat) (t bound : Ty) :
    (Γ.argumentsMatch fuel t bound).KeptBy (Γ.argumentsMatch (fuel + 1) t bound) := by
  induction fuel generalizing t bound with
  | zero => exact nofun
  | succ fuel ih => exact argumentsMatchStep_keptBy ih t bound

theorem argumentsMatch_of_le {fuel fuel' : Nat} (more : fuel ≤ fuel') (t bound : Ty) :
    (Γ.argumentsMatch fuel t bound).KeptBy (Γ.argumentsMatch fuel' t bound) := by
  induction more with
  | refl => exact .refl _
  | step _ ih => exact ih.trans (argumentsMatch_keptBy_succ _ t bound)

theorem isCompatible_of_le {fuel fuel' : Nat} (more : fuel ≤ fuel') (slot : Slot) (t : Ty) :
    (Γ.isCompatible fuel slot t).KeptBy (Γ.isCompatible fuel' slot t) :=
  accepts_keptBy (argumentsMatch_of_le more) slot t

end Context

/-! ## Questions in turn -/

section Lists

variable {α : Type} {x : α} {xs : List α} {test : Nat → α → Traced Bool}

theorem result_allM_singleton (x : α) (ask : α → Traced Bool) :
    ([x].allM ask).result = (ask x).result := by
  rw [List.allM, Traced.result_bind]
  cases (ask x).result with
  | error e => rfl
  | ok passed => cases passed <;> rfl

theorem anyM_cons_eq_ok {ask : α → Traced Bool} {answer : Bool} :
    ((x :: xs).anyM ask).result = .ok answer ↔ (ask x).result = .ok true ∧ answer = true ∨
      (ask x).result = .ok false ∧ (xs.anyM ask).result = .ok answer := by
  rw [List.anyM, Traced.result_bind]
  cases (ask x).result with
  | error e => simp [Except.bind]
  | ok passed => cases passed <;> simp [Except.bind, eq_comm]

theorem allM_cons_eq_ok_true {ask : α → Traced Bool} :
    ((x :: xs).allM ask).result = .ok true ↔
      (ask x).result = .ok true ∧ (xs.allM ask).result = .ok true := by
  rw [List.allM, Traced.result_bind]
  cases (ask x).result with
  | error e => simp [Except.bind]
  | ok passed => cases passed <;> simp [Except.bind]

/-- Questions asked in turn until one is answered with yes: it comes to that if one of them does
after all before it come to no. -/
theorem exists_anyM_eq_true
    (kept : ∀ {m n}, m ≤ n → ∀ a, (test m a).KeptBy (test n a)) :
    (∃ n, (xs.anyM (test n)).result = .ok true) ↔
      ∃ before x after, xs = before ++ x :: after ∧
        (∀ y ∈ before, ∃ n, (test n y).result = .ok false) ∧
        ∃ n, (test n x).result = .ok true := by
  induction xs with
  | nil => simp [List.anyM]
  | cons x xs ih =>
    constructor
    · rintro ⟨n, answer⟩
      rcases anyM_cons_eq_ok.mp answer with ⟨yes, -⟩ | ⟨no, rest⟩
      · exact ⟨[], x, xs, rfl, nofun, n, yes⟩
      · obtain ⟨before, y, after, rfl, nos, yes⟩ := ih.mp ⟨n, rest⟩
        refine ⟨x :: before, y, after, rfl, ?_, yes⟩
        exact List.forall_mem_cons.mpr ⟨⟨n, no⟩, nos⟩
    · rintro ⟨before, y, after, split, nos, yes⟩
      cases before with
      | nil =>
        cases split
        obtain ⟨n, yes⟩ := yes
        exact ⟨n, anyM_cons_eq_ok.mpr (.inl ⟨yes, rfl⟩)⟩
      | cons z before =>
        cases split
        obtain ⟨⟨m, no⟩, nos⟩ := List.forall_mem_cons.mp nos
        obtain ⟨n, rest⟩ := ih.mpr ⟨before, y, after, rfl, nos, yes⟩
        refine ⟨max m n, anyM_cons_eq_ok.mpr (.inr ⟨?_, ?_⟩)⟩
        · exact kept (Nat.le_max_left m n) x _ no
        · exact Traced.KeptBy.anyM (kept (Nat.le_max_right m n)) _ rest

theorem exists_anyM_eq_false
    (kept : ∀ {m n}, m ≤ n → ∀ a, (test m a).KeptBy (test n a)) :
    (∃ n, (xs.anyM (test n)).result = .ok false) ↔
      ∀ x ∈ xs, ∃ n, (test n x).result = .ok false := by
  induction xs with
  | nil => exact ⟨fun _ => nofun, fun _ => ⟨0, rfl⟩⟩
  | cons x xs ih =>
    rw [List.forall_mem_cons, ← ih]
    constructor
    · rintro ⟨n, answer⟩
      obtain ⟨-, wrong⟩ | ⟨no, rest⟩ := anyM_cons_eq_ok.mp answer
      · cases wrong
      · exact ⟨⟨n, no⟩, n, rest⟩
    · rintro ⟨⟨m, no⟩, n, rest⟩
      refine ⟨max m n, anyM_cons_eq_ok.mpr (.inr ⟨?_, ?_⟩)⟩
      · exact kept (Nat.le_max_left m n) x _ no
      · exact Traced.KeptBy.anyM (kept (Nat.le_max_right m n)) _ rest

theorem exists_allM_eq_true
    (kept : ∀ {m n}, m ≤ n → ∀ a, (test m a).KeptBy (test n a)) :
    (∃ n, (xs.allM (test n)).result = .ok true) ↔
      ∀ x ∈ xs, ∃ n, (test n x).result = .ok true := by
  induction xs with
  | nil => exact ⟨fun _ => nofun, fun _ => ⟨0, rfl⟩⟩
  | cons x xs ih =>
    rw [List.forall_mem_cons, ← ih]
    constructor
    · rintro ⟨n, answer⟩
      obtain ⟨yes, rest⟩ := allM_cons_eq_ok_true.mp answer
      exact ⟨⟨n, yes⟩, n, rest⟩
    · rintro ⟨⟨m, yes⟩, n, rest⟩
      refine ⟨max m n, allM_cons_eq_ok_true.mpr ⟨?_, ?_⟩⟩
      · exact kept (Nat.le_max_left m n) x _ yes
      · exact Traced.KeptBy.allM (kept (Nat.le_max_right m n)) _ rest

end Lists

/-! ## Answers of engines -/

namespace Engine

/-- A question comes to an answer: every engine with this marker and levels enough gives it. -/
def Concludes (marker : String) (ask : Engine → Traced Bool) (answer : Bool) : Prop :=
  ∃ n, ∀ e : Engine, e.settings.marker = marker → n ≤ e.settings.levels →
    (ask e).result = .ok answer

/-- Questions about types come to an answer when they are asked in turn until one says yes. -/
def ConcludesAny (marker : String) (ask : Ty → Engine → Traced Bool) (ts : List Ty) : Bool → Prop
  | true => ∃ before t after, ts = before ++ t :: after ∧
      (∀ x ∈ before, Concludes marker (ask x) false) ∧ Concludes marker (ask t) true
  | false => ∀ t ∈ ts, Concludes marker (ask t) false

variable {h : Hierarchy} {marker : String} {slot : Slot} {t bound : Ty} {answer : Bool}

theorem concludes_isCompatible : Concludes marker (·.isCompatible h slot t) answer ↔
    ∃ n, ((Context.mk h marker).isCompatible n slot t).result = .ok answer := by
  constructor
  · rintro ⟨n, gives⟩
    have given := gives (.ofSettings { marker := marker, levels := n }) rfl (Nat.le_refl n)
    simp only [Engine.isCompatible, Traced.result_reported] at given
    exact ⟨_, given⟩
  · rintro ⟨n, given⟩
    refine ⟨n, ?_⟩
    rintro e rfl enough
    simp only [Engine.isCompatible, Traced.result_reported]
    exact Context.isCompatible_of_le (by unfold levels; omega) slot t answer given

/-- Without a level no comparison answers, so there is at least one. -/
theorem concludes_argumentsMatch : Concludes marker (·.argumentsMatch h t bound) answer ↔
    ∃ n, ((Context.mk h marker).argumentsMatch (n + 1) t bound).result = .ok answer := by
  constructor
  · rintro ⟨n, gives⟩
    have given := gives (.ofSettings { marker := marker, levels := n }) rfl (Nat.le_refl n)
    simp only [Engine.argumentsMatch, Traced.result_reported] at given
    exact ⟨_, Context.argumentsMatch_keptBy_succ _ t bound answer given⟩
  · rintro ⟨n, given⟩
    refine ⟨n + 1, ?_⟩
    rintro e rfl enough
    simp only [Engine.argumentsMatch, Traced.result_reported]
    exact Context.argumentsMatch_of_le (by unfold levels; omega) t bound answer given

theorem concludesAny_isCompatible {us : List Ty} :
    ConcludesAny marker (fun u e => e.isCompatible h slot u) us answer ↔
      ∃ n, (us.anyM ((Context.mk h marker).isCompatible n slot)).result = .ok answer := by
  have kept : ∀ {m n}, m ≤ n → ∀ u, ((Context.mk h marker).isCompatible m slot u).KeptBy
      ((Context.mk h marker).isCompatible n slot u) :=
    fun more u => Context.isCompatible_of_le more slot u
  cases answer with
  | true => simp only [ConcludesAny, concludes_isCompatible, exists_anyM_eq_true kept]
  | false => simp only [ConcludesAny, concludes_isCompatible, exists_anyM_eq_false kept]

end Engine

end NominalGenerics
