import Mathlib.Data.List.Find
import NominalGenerics.Compatibility
import NominalGenerics.Proofs.Hygiene

/-!
# What is kept on the way up

A property of types is kept on the way up when every step to a direct supertype keeps it, and so
does forgetting the arguments. A parameterisation only takes such steps, so what it ends at has the
property too, and it fails only where no step leads on (`parameterizeWithin_kept`). The interface
that classes still being compiled count as implementing can mislead a parameterisation, but only
one to that interface.
-/

namespace NominalGenerics

/-- What a computation may end in: a failure of some kind, or a value with a property. -/
def Ends {α : Type} (F : Failure → Prop) (Q : α → Prop) : Except Failure α → Prop
  | .ok a => Q a
  | .error f => F f

namespace Ends

variable {α β : Type} {F G : Failure → Prop} {Q R : α → Prop} {S : β → Prop}

theorem mono {x : Except Failure α} (ends : Ends F Q x) (failures : ∀ f, F f → G f)
    (values : ∀ a, Q a → R a) : Ends G R x := by
  cases x with
  | ok a => exact values a ends
  | error f => exact failures f ends

theorem failure {x : Except Failure α} (ends : Ends F Q x) (f : Failure) (failed : x = .error f) :
    F f := by
  rw [failed] at ends
  exact ends

theorem answered {x : Except Failure α} (ends : Ends (· = .exhausted) Q x)
    (finished : x ≠ .error .exhausted) : ∃ a, x = .ok a := by
  cases x with
  | ok a => exact ⟨a, rfl⟩
  | error f => exact absurd (congrArg Except.error ends) finished

theorem reported {x : Traced α} (ends : Ends F Q x.result) : Ends F Q x.reported.result := by
  rw [Traced.result_reported]
  exact ends

theorem bind {x : Except Failure α} {f : α → Except Failure β} (first : Ends F Q x)
    (rest : ∀ a, Q a → Ends F S (f a)) : Ends F S (x.bind f) := by
  cases x with
  | ok a => exact rest a first
  | error e => exact first

theorem traced_bind {x : Traced α} {f : α → Traced β} (first : Ends F Q x.result)
    (rest : ∀ a, Q a → Ends F S (f a).result) : Ends F S (x >>= f).result := by
  rw [Traced.result_bind]
  exact first.bind rest

/-- A test of all elements in turn ends as the tests of its elements do. -/
theorem allM {xs : List α} {test : α → Traced Bool}
    (each : ∀ x ∈ xs, Ends F (fun _ => True) (test x).result) :
    Ends F (fun _ => True) (xs.allM test).result := by
  induction xs with
  | nil => exact trivial
  | cons x xs ih =>
    refine traced_bind (each x List.mem_cons_self) ?_
    intro passed _
    cases passed with
    | true => exact ih fun y member => each y (List.mem_cons_of_mem _ member)
    | false => exact trivial

theorem anyM {xs : List α} {test : α → Traced Bool}
    (each : ∀ x ∈ xs, Ends F (fun _ => True) (test x).result) :
    Ends F (fun _ => True) (xs.anyM test).result := by
  induction xs with
  | nil => exact trivial
  | cons x xs ih =>
    refine traced_bind (each x List.mem_cons_self) ?_
    intro passed _
    cases passed with
    | true => exact trivial
    | false => exact ih fun y member => each y (List.mem_cons_of_mem _ member)

end Ends

/-- Whether a failure says that a use has the wrong number of arguments. -/
def Failure.isArity : Failure → Bool
  | .violation v => v.cause.isArity
  | .missingType | .exhausted => false

namespace Hierarchy

/-- A property of types that steps up keep: a spec can be made, each direct supertype with the
arguments in place has the property, and so has every use without arguments. -/
structure KeptUp (h : Hierarchy) (ids : List DeclId) (I : Ty → Prop) : Prop where
  listed : ∀ {t d}, I t → t.head? = some d → d ∈ ids
  step : ∀ {t d}, I t → t.head? = some d → ∃ spec, h.createSpec .empty t = .ok spec ∧
    ∀ w ∈ h.supertypes t, I (h.subst spec [] w)
  erased : ∀ {t d}, I t → d ∈ ids → I (h.erasedUse t (.decl d))

end Hierarchy

theorem Hierarchy.Sound.height_le_of_reaches {h : Hierarchy} {ids : List DeclId} {d e : DeclId}
    (sound : h.Sound ids) (member : d ∈ ids) (reaches : h.Reaches d e) :
    h.height ids e ≤ h.height ids d := by
  induction reaches using Relation.ReflTransGen.head_induction_on with
  | refl => exact Nat.le_refl _
  | head edge _ ih =>
    exact Nat.le_trans (ih (sound.edge_mem edge)) (Nat.le_of_lt (sound.height_lt member edge))

namespace Context

variable {Γ : Context} {ids : List DeclId} {I : Ty → Prop} {t : Ty} {d g : DeclId}

/-- Nothing counts as implementing `g` but what is written to. -/
def Quiet (Γ : Context) (g : DeclId) : Prop := Γ.marker ≠ "" → g.name ≠ Γ.marker

def unmarked (Γ : Context) : Context := { Γ with marker := "" }

theorem Quiet.willImplement (quiet : Γ.Quiet g) {u : Ty} (head : u.head? = some g) (t : Ty) :
    Γ.willImplement t u = false := by
  have named : u.name = g.name := by cases u <;> cases head <;> rfl
  by_cases empty : Γ.marker = ""
  · simp [Context.willImplement, empty]
  · simp [Context.willImplement, named, quiet empty]

/-- The subtype test for class types: one declaration is above the other, or counts as
implemented. -/
theorem isSubtype_iff (sound : Γ.hierarchy.Sound ids) (head : t.head? = some d) {u : Ty}
    (head' : u.head? = some g) (member : d ∈ ids) :
    Γ.isSubtype t u = true ↔ Γ.hierarchy.Reaches d g ∨ Γ.willImplement t u = true := by
  have written : Γ.unmarked.isSubtype t u = true ↔ Γ.hierarchy.Reaches d g :=
    isSubtype_class (Γ := Γ.unmarked) rfl sound head head' member
  have noMarker : Γ.unmarked.willImplement t u = false := by
    simp [Context.willImplement, unmarked]
  have noUnion : Γ.hierarchy.isUnion u = false := sound.isUnion_eq_false u
  have noUnion' : Γ.unmarked.hierarchy.isUnion u = false := noUnion
  have derives : Γ.unmarked.derives t u = Γ.derives t u := rfl
  have implements : Γ.unmarked.implements t u = Γ.implements t u := rfl
  have apart : Γ.isSubtype t u = (Γ.unmarked.isSubtype t u || Γ.willImplement t u) := by
    unfold Context.isSubtype
    show Γ.subtypeWithin _ t u = (Γ.unmarked.subtypeWithin (Γ.hierarchy.budget _) t u || _)
    obtain ⟨fuel, enough⟩ := Nat.exists_eq_succ_of_ne_zero
      (Nat.ne_zero_of_lt (Γ.hierarchy.weight_lt_budget (t.weight + u.weight)))
    rw [enough]
    unfold subtypeWithin
    rw [subtypeStep_class head head', subtypeStep_class head head', noMarker, noUnion, noUnion',
      derives, implements]
    cases t.is u || u.isRoot <;> cases Γ.derives t u <;> cases Γ.implements t u <;>
      cases Γ.willImplement t u <;> rfl
  rw [apart, Bool.or_eq_true, written]

/-- Whatever is above `d` and counts as implementing `g` is below `g`. -/
def Honest (Γ : Context) (d g : DeclId) : Prop :=
  ∀ c, Relation.TransGen Γ.hierarchy.Edge d c → Γ.willImplement (.decl c) (.decl g) = true →
    Γ.hierarchy.Reaches c g

theorem Quiet.honest (quiet : Γ.Quiet g) : Γ.Honest d g := by
  intro c _ promised
  rw [quiet.willImplement rfl] at promised
  cases promised

theorem Honest.step {c : DeclId} (honest : Γ.Honest d g) (edge : Γ.hierarchy.Edge d c) :
    Γ.Honest c g :=
  fun e above => honest e (.head edge above)

/-- On the way to what nothing counts as implementing without being below it, the subtype test tells
which way leads there. -/
theorem Honest.tested (honest : Γ.Honest d g) (sound : Γ.hierarchy.Sound ids)
    (head : t.head? = some d) :
    ∀ w ∈ Γ.hierarchy.supertypes t, ∀ c, w.head? = some c →
      (Γ.isSubtype w (.decl g) = true ↔ Γ.hierarchy.Reaches c g) := by
  intro w written c above
  obtain ⟨-, c', above', edge⟩ := sound.supertype head written
  rw [above] at above'
  cases above'
  have promise : Γ.willImplement w (.decl g) = Γ.willImplement (.decl c) (.decl g) := by
    cases w <;> cases above <;> rfl
  rw [isSubtype_iff sound above rfl (sound.edge_mem edge), promise]
  exact or_iff_left_of_imp (honest c (.single edge))

/-- A parameterisation of a class type ends at an instance with all that is kept on the way up. It
fails if there are too few steps, and where the declaration is not above the type or something on
the way counts as implementing it. -/
theorem parameterizeWithin_kept (sound : Γ.hierarchy.Sound ids) (kept : Γ.hierarchy.KeptUp ids I)
    {fuel : Nat} {target : Ty} (holds : I t) (head : t.head? = some d)
    (head' : target.head? = some g) (listed : g ∈ ids) :
    (∃ u, (Γ.parameterizeWithin fuel t target).result = .ok u ∧ I u ∧ u.head? = some g) ∨
    ((Γ.parameterizeWithin fuel t target).result = .error .exhausted ∧
      fuel ≤ Γ.hierarchy.height ids d) ∨
    (∃ v, (Γ.parameterizeWithin fuel t target).result = .error (.violation v) ∧
      v.cause.isArity = false ∧ ¬ (Γ.Honest d g ∧ Γ.hierarchy.Reaches d g)) := by
  induction fuel generalizing t d with
  | zero => exact .inr (.inl ⟨rfl, Nat.zero_le _⟩)
  | succ fuel ih =>
    have member := kept.listed holds head
    unfold parameterizeWithin
    rw [parameterizeStep_class head head']
    unfold climb
    by_cases same : d = g
    · subst same
      refine .inl ⟨t, ?_, holds, head⟩
      simp only [(Ty.is_iff head head').mpr rfl, if_true]
      rfl
    simp only [Ty.is_eq_false head head' same, sound.direct.declaration head', Bool.false_eq_true,
      if_false]
    split
    · -- without arguments there is nothing to put in on the way
      refine .inl ⟨_, rfl, kept.erased holds listed, ?_⟩
      exact (Hierarchy.erasedUse_formed (P := .none) t listed).2
    · obtain ⟨spec, created, above⟩ := kept.step holds head
      cases next : Γ.nextSupertype t (.decl g) with
      | none =>
        refine .inr (.inr ⟨_, rfl, rfl, ?_⟩)
        rintro ⟨honest, reaches⟩
        obtain ⟨w, c, found, -⟩ :=
          nextSupertype_of_tested sound head (honest.tested sound head) reaches same
        rw [next] at found
        cases found
      | some w =>
        have written := nextSupertype_mem next
        obtain ⟨formed, c, here, edge⟩ := sound.supertype head written
        have lower := sound.height_lt member edge
        simp only [created]
        rcases ih (above w written) (Hierarchy.head_subst spec formed here) with
          ends | ⟨ends, few⟩ | ⟨v, ends, cause, apart⟩
        · exact .inl ends
        · exact .inr (.inl ⟨ends, by omega⟩)
        · refine .inr (.inr ⟨v, ends, cause, ?_⟩)
          -- had the target been reached from `d`, it would be from the supertype that was taken
          rintro ⟨honest, reaches⟩
          refine apart ⟨honest.step edge, ?_⟩
          obtain ⟨w', c', found, -, here', below⟩ :=
            nextSupertype_of_tested sound head (honest.tested sound head) reaches same
          rw [next] at found
          cases found
          rw [here] at here'
          cases here'
          exact below

/-- A parameterisation has steps enough. -/
theorem parameterize_kept (sound : Γ.hierarchy.Sound ids) (kept : Γ.hierarchy.KeptUp ids I)
    {target : Ty} (holds : I t) (head : t.head? = some d) (head' : target.head? = some g)
    (listed : g ∈ ids) :
    (∃ u, (Γ.parameterize t target).result = .ok u ∧ I u ∧ u.head? = some g) ∨
    ∃ v, (Γ.parameterize t target).result = .error (.violation v) ∧ v.cause.isArity = false ∧
      ¬ (Γ.Honest d g ∧ Γ.hierarchy.Reaches d g) := by
  have enough := sound.height_lt_budget (d := d) (t.weight + target.weight)
  rcases parameterizeWithin_kept sound kept holds head head' listed with ends | ⟨-, few⟩ | ends
  · exact .inl ends
  · exact absurd enough (Nat.not_lt.mpr few)
  · exact .inr ends

/-! ## Comparing through ancestors -/

/-- A supertype written without arguments is what it is, whatever is put in. -/
theorem subst_of_args_nil {h : Hierarchy} {P : ParamSet} {w : Ty} {c : DeclId} (spec : Spec)
    (formed : w.Formed (h.arity ids) P) (head : w.head? = some c) (none : h.args w = []) :
    h.subst spec [] w = w := by
  cases w with
  | decl e => rw [Hierarchy.subst, Hierarchy.Formed.params_eq_nil formed]
  | bare s e => rfl
  | app s e as =>
    rw [Hierarchy.args] at none
    rw [none]
    rfl
  | param | array => cases head

/-- A declaration used with arguments is generic. -/
theorem params_ne_nil_of_args {h : Hierarchy} {P : ParamSet} {w : Ty} {c : DeclId}
    (formed : w.Formed (h.arity ids) P) (head : w.head? = some c) (some : h.args w ≠ []) :
    h.params c ≠ [] := by
  intro none
  cases w with
  | decl e =>
    cases head
    exact some none
  | bare s e => exact some rfl
  | app s e as =>
    cases head
    obtain ⟨⟨k, known, fits⟩, -⟩ := formed
    have length := (Hierarchy.arity_eq_some.mp known).2
    rw [none] at length
    exact some (List.eq_nil_of_length_eq_zero ((fits.resolve_left some).trans length.symm))
  | param | array => cases head

def QuietGenerics (Γ : Context) (ids : List DeclId) : Prop :=
  ∀ d ∈ ids, Γ.hierarchy.params d ≠ [] → Γ.Quiet d

/-- How a comparison of a type below `d` with `bound` goes on, whatever comes after: it is over, or
another type that `I` holds of is compared in its place, further up. Only a generic declaration that
counts as implemented can make it fail. -/
inductive GoesOn (Γ : Context) (ids : List DeclId) (I : Ty → Prop) (d : DeclId) (bound : Ty)
    (compare : (Ty → Ty → Traced Bool) → Traced Bool) : Prop
  | stops : (∀ matching, (compare matching).result = .ok false) → GoesOn Γ ids I d bound compare
  | up {u : Ty} {c : DeclId} : I u → u.head? = some c →
      Γ.hierarchy.height ids c < Γ.hierarchy.height ids d →
      (∀ matching, (compare matching).result = (matching u bound).result) →
      GoesOn Γ ids I d bound compare
  | misled {v : Violation} : ¬ Γ.QuietGenerics ids →
      (∀ matching, (compare matching).result = .error (.violation v)) →
      GoesOn Γ ids I d bound compare

/-- Seen as a generic declaration above it. -/
theorem goesOn_seen (sound : Γ.hierarchy.Sound ids) (kept : Γ.hierarchy.KeptUp ids I)
    {bound target : Ty} (holds : I t) (head : t.head? = some d) (head' : target.head? = some g)
    (listed : g ∈ ids) (generic : Γ.hierarchy.params g ≠ [])
    (above : Relation.TransGen Γ.hierarchy.Edge d g) :
    GoesOn Γ ids I d bound fun matching =>
      Γ.parameterize t target >>= fun seen => matching seen bound := by
  obtain ⟨c, edge, rest⟩ := Relation.TransGen.head'_iff.mp above
  rcases parameterize_kept sound kept holds head head' listed with
    ⟨u, ends, holds, here⟩ | ⟨v, ends, -, misled⟩
  · have lower := sound.height_lt (kept.listed ‹I t› head) edge
    have lower' := sound.height_le_of_reaches (sound.edge_mem edge) rest
    refine .up holds here (Nat.lt_of_le_of_lt lower' lower) fun matching => ?_
    rw [Traced.result_bind, ends]
    rfl
  · have loud : ¬ Γ.QuietGenerics ids := fun quiet =>
      misled ⟨(quiet g listed generic).honest, above.to_reflTransGen⟩
    refine .misled (v := v) loud fun matching => ?_
    rw [Traced.result_bind, ends]
    rfl

/-- Through the superclass. -/
theorem goesOn_superclass (sound : Γ.hierarchy.Sound ids) (kept : Γ.hierarchy.KeptUp ids I)
    {bound w : Ty} (holds : I t) (head : t.head? = some d)
    (super : Γ.hierarchy.superclass t = some w) :
    GoesOn Γ ids I d bound fun matching =>
      if (Γ.hierarchy.args w).isEmpty then matching w bound
      else Γ.parameterize t w >>= fun super => matching super bound := by
  have written : w ∈ Γ.hierarchy.supertypes t :=
    List.mem_append_left _ (Option.mem_toList.mpr super)
  obtain ⟨formed, c, above, edge⟩ := sound.supertype head written
  cases none : (Γ.hierarchy.args w).isEmpty with
  | true =>
    obtain ⟨spec, -, up⟩ := kept.step holds head
    have holdsW := up w written
    rw [subst_of_args_nil spec formed above (List.isEmpty_iff.mp none)] at holdsW
    exact .up holdsW above (sound.height_lt (kept.listed holds head) edge) fun _ => rfl
  | false =>
    have generic := params_ne_nil_of_args formed above (List.isEmpty_eq_false_iff.mp none)
    exact goesOn_seen sound kept holds head above (sound.edge_mem edge) generic (.single edge)

/-- The root stops here. Everything else has a superclass, so the check for one does not fire. -/
theorem matchesSuperclass_goesOn (sound : Γ.hierarchy.Sound ids) (kept : Γ.hierarchy.KeptUp ids I)
    {bound : Ty} (holds : I t) (head : t.head? = some d) :
    GoesOn Γ ids I d bound fun matching =>
      Γ.matchesSuperclass Γ.parameterize matching t bound := by
  cases super : Γ.hierarchy.superclass t with
  | none =>
    refine .stops fun matching => ?_
    rw [matchesSuperclass_of_none super]
    rfl
  | some w =>
    simp only [matchesSuperclass_of_some super]
    exact goesOn_superclass sound kept holds head super

theorem matchesAncestor_goesOn (sound : Γ.hierarchy.Sound ids) (kept : Γ.hierarchy.KeptUp ids I)
    {bound : Ty} (holds : I t) (head : t.head? = some d) (head' : bound.head? = some g)
    (listed : g ∈ ids) (generic : Γ.hierarchy.params g ≠ []) (apart : d ≠ g) :
    GoesOn Γ ids I d bound fun matching =>
      Γ.matchesAncestor Γ.parameterize matching t bound := by
  unfold matchesAncestor
  simp only [sound.isUnion_eq_false, Bool.false_eq_true, if_false]
  split
  · split
    · exact .stops fun _ => rfl
    · split
      · -- an interface that is found among all is above the type
        rename_i i found
        obtain ⟨e, rfl, -, above⟩ :=
          sound.allInterfaces_sound head (List.mem_of_find?_eq_some found)
        have passed := List.find?_some found
        have same : e = g := (Ty.is_iff rfl head').mp passed
        subst same
        exact goesOn_seen sound kept holds head rfl listed generic above
      · exact matchesSuperclass_goesOn sound kept holds head
  · exact matchesSuperclass_goesOn sound kept holds head

end Context

end NominalGenerics
