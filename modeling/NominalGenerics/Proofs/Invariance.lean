import NominalGenerics.Proofs.Outline
import NominalGenerics.Proofs.Reachability
import NominalGenerics.Proofs.Wildcards

/-!
# Slots for one type

A slot for one type accepts that type (`isCompatible_self`): each argument is found again under the
name of the parameter it stands for, whatever the arguments inside it bind, and a wildcard with one
bound contains itself. Of types with all their arguments the slot accepts no other
(`isCompatible_eq_equal`): the comparison by parameter names is structural equality.
-/

namespace NominalGenerics

mutual

/-- Whether every wildcard in a type, at any depth, has at most one upper bound. -/
def Ty.singlyBounded : Ty → Bool
  | .decl _ | .bare _ _ | .param _ _ _ => true
  | .app _ _ args => Slot.areSinglyBounded args
  | .array _ e => e.singlyBounded

def Slot.singlyBounded : Slot → Bool
  | .exact _ t => t.singlyBounded
  | .rebound _ _ _ [] | .param _ _ _ _ _ => true
  | .rebound _ _ _ (u :: _) => u.singlyBounded
  | .wildcard _ none us => us.length ≤ 1 && Ty.areSinglyBounded us
  | .wildcard _ (some l) us => us.length ≤ 1 && l.singlyBounded && Ty.areSinglyBounded us

def Ty.areSinglyBounded : List Ty → Bool
  | [] => true
  | t :: ts => t.singlyBounded && Ty.areSinglyBounded ts

def Slot.areSinglyBounded : List Slot → Bool
  | [] => true
  | s :: ss => s.singlyBounded && Slot.areSinglyBounded ss

end

theorem Slot.areSinglyBounded_iff {ss : List Slot} :
    Slot.areSinglyBounded ss = true ↔ ∀ s ∈ ss, s.singlyBounded = true := by
  induction ss with
  | nil => simp [Slot.areSinglyBounded]
  | cons s ss ih => simp [Slot.areSinglyBounded, ih]

/-- A type denotes the declaration it denotes. -/
theorem Ty.is_self : ∀ t : Ty, t.is t = true
  | .array _ e => Ty.is_self e
  | .decl _ | .bare _ _ | .app _ _ _ | .param _ _ _ => by simp [Ty.is, Ty.head?]

theorem allM_eq_ok_true {α : Type} {xs : List α} {ask : α → Traced Bool}
    (each : ∀ x ∈ xs, (ask x).result = .ok true) : (xs.allM ask).result = .ok true := by
  induction xs with
  | nil => rfl
  | cons x xs ih =>
    obtain ⟨first, rest⟩ := List.forall_mem_cons.mp each
    exact allM_cons_eq_ok_true.mpr ⟨first, ih rest⟩

/-! ## Arguments by position -/

/-- The arguments of a whole type are found under the names of the parameters beside them. -/
theorem Hierarchy.Sound.arguments_beside {h : Hierarchy} {ids : List DeclId} (sound : h.Sound ids)
    (distinct : h.DistinctParams) {site : Site} {d : DeclId} {as : List Slot}
    (whole : (Ty.app site d as).Formed (h.arity ids) (.whole (h.arity ids))) (applied : as ≠ []) :
    (h.params d).length = as.length ∧ ∃ spec, h.arguments (.app site d as) = .ok spec ∧
      ∀ x ∈ (h.params d).zip as, spec.get? x.1.name = some x.2 := by
  obtain ⟨length, spec, ok, keeps⟩ := arguments_bound whole applied
  refine ⟨length, spec, ok, ?_⟩
  intro x member
  exact keeps _ _ (bindNew_binds sound.isParam_of_declared (distinct.nodup d) (fun _ _ => rfl) x
    member)

/-! ## A type matches itself -/

namespace Context

variable {Γ : Context} {ids : List DeclId} {A : Arity} {x : Ty}

/-- A slot accepts a type that matches itself where the type is all the slot asks for: its one type,
its lower bound, or its only bound above. -/
theorem accepts_own {matching : Ty → Ty → Traced Bool} {slot : Slot} (closed : x.Formed A .none)
    (own : slot.kind = .exact ∧ slot.ty = x ∨ slot.kind = .wildcard ∧
      (slot.lower = some x ∨ slot.lower = none ∧ slot.upper = [x]))
    (self : (matching x x).result = .ok true) : (Γ.accepts matching slot x).result = .ok true := by
  have below : Γ.isSubtype x x = true := isSubtype_of_is x.is_self
  unfold accepts
  simp only [closed.not_isParam, Bool.false_and, Bool.false_eq_true, if_false]
  split
  · rfl
  rcases own with ⟨kind, rfl⟩ | ⟨kind, lower | ⟨lower, upper⟩⟩
  · simpa only [kind, Ty.is_self, if_true] using self
  · simpa only [kind, lower, below, if_true] using self
  · simp only [kind, lower, upper, List.all_cons, List.all_nil, below, Bool.and_self, if_true]
    rw [result_allM_singleton, self]

/-- A wildcard beside itself is asked about its lower bound, or else its upper ones in turn. -/
theorem fitsArgument_same_wildcard {accept : Slot → Ty → Traced Bool} {w p : Slot}
    {boundArgs candidateArgs : Spec} (closed : w.Formed A .none) (isWildcard : w.kind = .wildcard)
    (found : boundArgs.get? p.name = some w) :
    fitsArgument accept w p boundArgs candidateArgs =
      match w.lower with
      | some l => accept w l
      | none => if w.upper.isEmpty then pure true else w.upper.anyM (accept w) := by
  have known := withBounds_known candidateArgs closed isWildcard
  cases w with
  | exact | rebound | param => cases isWildcard
  | wildcard m l us =>
    unfold fitsArgument
    simp only [Slot.isParam, Bool.false_eq_true, if_false, found, Option.getD_some, isWildcard]
    unfold fitsWildcard
    dsimp only at known ⊢
    rw [known]
    cases l with
    | some l => rfl
    | none =>
      cases us with
      | nil => rfl
      | cons u us => rfl

/-- An argument fits where the bound supplies the same argument, if its parts match themselves. -/
theorem fitsArgument_self {matching : Ty → Ty → Traced Bool} {a p : Slot} {boundArgs : Spec}
    (candidateArgs : Spec) (closed : a.Formed A .none) (found : boundArgs.get? p.name = some a)
    (single : a.singlyBounded = true)
    (self : ∀ t ∈ a.parts, t.Formed A .none → t.singlyBounded = true →
      (matching t t).result = .ok true) :
    (fitsArgument (Γ.accepts matching) a p boundArgs candidateArgs).result = .ok true := by
  rcases closed.cases_closed with ⟨m, t, rfl, closedT⟩ | ⟨m, l, us, rfl, lower, uppers⟩
  · rw [fitsArgument_exact found]
    exact accepts_own closedT (.inl ⟨rfl, rfl⟩) (self t (Slot.ty_mem_parts _) closedT single)
  rw [fitsArgument_same_wildcard closed rfl found]
  cases l with
  | some l =>
    rw [Slot.singlyBounded, Bool.and_eq_true, Bool.and_eq_true] at single
    have closedL := lower l rfl
    exact accepts_own closedL (.inr ⟨rfl, .inl rfl⟩)
      (self l (Slot.lower_mem_parts rfl) closedL single.1.2)
  | none =>
    rw [Slot.singlyBounded, Bool.and_eq_true, decide_eq_true_iff] at single
    obtain ⟨few, single⟩ := single
    cases us with
    | nil => rfl
    | cons u us =>
      cases us with
      | cons => simp at few
      | nil =>
        rw [Ty.areSinglyBounded, Bool.and_eq_true] at single
        have closedU := uppers u List.mem_cons_self
        refine anyM_cons_eq_ok.mpr (.inl ⟨?_, rfl⟩)
        exact accepts_own closedU (.inr ⟨rfl, .inr ⟨rfl, rfl⟩⟩)
          (self u (Slot.upper_mem_parts List.mem_cons_self) closedU single.1)

/-- The arguments of a closed type match themselves, on as many levels as it has nodes. -/
theorem argumentsMatch_self (sound : Γ.hierarchy.Sound ids) (distinct : Γ.hierarchy.DistinctParams)
    {fuel : Nat} (closed : x.Formed (Γ.hierarchy.arity ids) .none)
    (single : x.singlyBounded = true) (light : x.weight ≤ fuel) :
    (Γ.argumentsMatch fuel x x).result = .ok true := by
  induction fuel generalizing x with
  | zero =>
    have := x.weight_pos
    omega
  | succ fuel ih =>
    unfold argumentsMatch
    cases x with
    | param => exact closed.elim
    | bare => rfl
    | decl d =>
      have none := Hierarchy.Formed.params_eq_nil closed
      simp [argumentsMatchStep, Hierarchy.args, none]
    | array s e =>
      rw [Ty.weight] at light
      exact ih (x := e) closed single (by omega)
    | app s d as =>
      by_cases applied : as = []
      · subst applied
        rfl
      obtain ⟨length, spec, ok, beside⟩ := sound.arguments_beside distinct closed.whole applied
      rw [argumentsMatchStep_uses (sound.direct d) applied applied length ok ok]
      refine allM_eq_ok_true ?_
      rintro ⟨p, a⟩ paired
      have member := (List.of_mem_zip paired).2
      obtain ⟨closedA, -, lighter⟩ := Hierarchy.args_closed closed member
      refine fitsArgument_self spec closedA (beside _ paired)
        (Slot.areSinglyBounded_iff.mp single a member) ?_
      intro t part closedT singleT
      have := Slot.weight_part closedA part
      exact ih closedT singleT (by omega)

end Context

/-- A closed type may stand where exactly it is expected, however deep its raw uses, diamonds,
arrays and wildcards are, if no wildcard has several upper bounds. -/
theorem isCompatible_self {h : Hierarchy} {rs : List Registry} (loaded : h.Loaded rs)
    (distinct : h.DistinctParams) {t : Ty} (reads : h.Reads rs .empty t)
    (single : t.singlyBounded = true) (e : Engine) (site : Site) :
    (e.isCompatible h (.ofTy site t) t).result = .ok true := by
  obtain ⟨ids, sound, known⟩ := loaded.sound
  have closed := reads.closed known
  rw [Slot.ofTy_of_not_isParam site closed.not_isParam]
  unfold Engine.isCompatible Context.isCompatible
  rw [Traced.result_reported]
  refine Context.accepts_own closed (.inl ⟨rfl, rfl⟩)
    (Context.argumentsMatch_self (Γ := e.context h) sound distinct closed single ?_)
  rw [Engine.levels]
  omega

/-- A crate in a crate, with wildcards on both sides, a raw ring and a diamond. -/
theorem crate_compatible_self :
    reelLibrary.hierarchy.DistinctParams ∧
    (reelLibrary.typeOf
      "Crate<Crate<? super Reel<Text>[], ?>, Crate<Ring, ? extends Reel<>>[]>").singlyBounded =
        true ∧
    ((Engine.ofSettings {}).isCompatible reelLibrary.hierarchy
      (.ofTy ⟨0, 0⟩ (reelLibrary.typeOf
        "Crate<Crate<? super Reel<Text>[], ?>, Crate<Ring, ? extends Reel<>>[]>"))
      (reelLibrary.typeOf
        "Crate<Crate<? super Reel<Text>[], ?>, Crate<Ring, ? extends Reel<>>[]>")).result =
      .ok true := by
  have distinct : reelLibrary.hierarchy.DistinctParams := by decide +kernel
  obtain ⟨readable, single⟩ :
      ((reelLibrary.reader .empty).parseType
        "Crate<Crate<? super Reel<Text>[], ?>, Crate<Ring, ? extends Reel<>>[]>").isOk = true ∧
      (reelLibrary.typeOf
        "Crate<Crate<? super Reel<Text>[], ?>, Crate<Ring, ? extends Reel<>>[]>").singlyBounded =
          true := by
    decide +kernel
  exact ⟨distinct, single, isCompatible_self loaded_reelLibrary distinct
    (reads_reelLibrary readable) single _ _⟩

/-! ## No other type -/

/-- Structural equality of ground types is symmetric. -/
theorem Hierarchy.equal_comm {h : Hierarchy} {A : Arity} {x y : Ty} (groundX : x.Ground A)
    (groundY : y.Ground A) : h.equal x y = h.equal y x := by
  rw [Bool.eq_iff_iff, equal_iff_outline groundX groundY, equal_iff_outline groundY groundX]
  exact eq_comm

open Hierarchy in
/-- Of closed types without wildcards, raw uses and diamonds, a slot for one type accepts those that
are structurally equal to it. Nothing fails on the way. -/
theorem isCompatible_eq_equal {h : Hierarchy} {rs : List Registry} (loaded : h.Loaded rs)
    (distinct : h.DistinctParams) {a b : Ty} (readsA : h.Reads rs .empty a)
    (plainA : h.isPlain a = true) (readsB : h.Reads rs .empty b) (plainB : h.isPlain b = true)
    (e : Engine) (site : Site) :
    (e.isCompatible h (.ofTy site a) b).result = .ok (h.equal a b) := by
  obtain ⟨ids, sound, known⟩ := loaded.sound
  have groundA := ground_of_plain (readsA.closed known) plainA
  have groundB := ground_of_plain (readsB.closed known) plainB
  rw [Slot.ofTy_of_not_isParam site groundA.not_isParam, equal_comm groundA groundB]
  unfold Engine.isCompatible Context.isCompatible
  rw [Traced.result_reported, Context.accepts_exact groundB]
  split
  · rename_i same
    refine Context.argumentsMatch_same (Γ := e.context h) sound distinct groundB groundA same ?_
    rw [Engine.levels, Slot.weight]
    omega
  · rename_i apart
    rw [Bool.eq_false_iff.mpr (mt is_of_equal apart)]
    rfl

/-- Crates in crates are told apart by what the inner ones hold, though the parameters of both have
the same names. -/
theorem crates_told_apart :
    reelLibrary.hierarchy.DistinctParams ∧
    reelLibrary.hierarchy.equal (reelLibrary.typeOf "Crate<Text, Crate<Text, Reel<Text>[]>>")
      (reelLibrary.typeOf "Crate<Text, Crate<Reel<Text>[], Text>>") = false ∧
    ((Engine.ofSettings {}).isCompatible reelLibrary.hierarchy
      (.ofTy ⟨0, 0⟩ (reelLibrary.typeOf "Crate<Text, Crate<Text, Reel<Text>[]>>"))
      (reelLibrary.typeOf "Crate<Text, Crate<Reel<Text>[], Text>>")).result = .ok false := by
  have distinct : reelLibrary.hierarchy.DistinctParams := by decide +kernel
  obtain ⟨readable, readable', plain, plain', apart⟩ :
      ((reelLibrary.reader .empty).parseType "Crate<Text, Crate<Text, Reel<Text>[]>>").isOk = true ∧
      ((reelLibrary.reader .empty).parseType "Crate<Text, Crate<Reel<Text>[], Text>>").isOk = true ∧
      reelLibrary.hierarchy.isPlain
        (reelLibrary.typeOf "Crate<Text, Crate<Text, Reel<Text>[]>>") = true ∧
      reelLibrary.hierarchy.isPlain
        (reelLibrary.typeOf "Crate<Text, Crate<Reel<Text>[], Text>>") = true ∧
      reelLibrary.hierarchy.equal (reelLibrary.typeOf "Crate<Text, Crate<Text, Reel<Text>[]>>")
        (reelLibrary.typeOf "Crate<Text, Crate<Reel<Text>[], Text>>") = false := by
    decide +kernel
  refine ⟨distinct, apart, ?_⟩
  rw [isCompatible_eq_equal loaded_reelLibrary distinct (reads_reelLibrary readable) plain
    (reads_reelLibrary readable') plain', apart]

end NominalGenerics
