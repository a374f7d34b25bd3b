import NominalGenerics.Proofs.Invariance
import NominalGenerics.Proofs.Composition

/-!
# Matching undoes substitution

A spec is applied to a pattern, and the result is matched with the pattern again. If the spec holds
one closed type for each type parameter that the pattern mentions, these come back: the match knows
exactly the type parameters of the pattern, and for each of them it has a slot equal to the one in
the spec (`connections_undo_subst`).

A match only ever adds to what it has bound. So for every pattern it is said which names it adds and
that it goes on agreeing with the spec (`Hierarchy.Gains`), whatever was bound before.
-/

namespace NominalGenerics

theorem Traced.pure_bind {α β : Type} (a : α) (f : α → Traced β) :
    (Pure.pure a >>= f : Traced β) = f a :=
  rfl

theorem Spec.resolveSlot_of_some {spec : Spec} {p s : Slot} (known : spec.get? p.name = some s) :
    spec.resolveSlot [] p = s := by
  simp [Spec.resolveSlot, known]

namespace Hierarchy

def holdsClosed (h : Hierarchy) (s : Slot) : Bool :=
  s.kind == .exact && !h.slotHasParams s && !s.ty.isMissing

/-- The spec holds a closed type for each name. -/
def Fills (h : Hierarchy) (spec : Spec) (names : List String) : Prop :=
  ∀ n ∈ names, ∃ s ∈ spec.get? n, h.holdsClosed s = true

instance (h : Hierarchy) (spec : Spec) (names : List String) : Decidable (h.Fills spec names) :=
  inferInstanceAs (Decidable (∀ n ∈ names, _))

def Agrees (h : Hierarchy) (spec bound : Spec) : Prop :=
  ∀ n s, bound.get? n = some s → ∃ v, spec.get? n = some v ∧ h.slotEqual s v = true

/-- A computation that binds these names on top of what was bound, and agrees with the spec as
before. -/
def Gains (h : Hierarchy) (spec : Spec) (names : List String) (run : Traced Spec) (bound : Spec) :
    Prop :=
  ∃ bound', run = pure bound' ∧
    (∀ n, bound'.contains n = true ↔ bound.contains n = true ∨ n ∈ names) ∧
    (h.Agrees spec bound → h.Agrees spec bound')

section Gains

variable {h : Hierarchy} {spec bound : Spec} {names names' : List String}

theorem Fills.mono (fills : h.Fills spec names') (fewer : names ⊆ names') : h.Fills spec names :=
  fun n member => fills n (fewer member)

theorem Fills.of_append (fills : h.Fills spec (names ++ names')) :
    h.Fills spec names ∧ h.Fills spec names' :=
  ⟨fills.mono (List.subset_append_left _ _), fills.mono (List.subset_append_right _ _)⟩

theorem Gains.nothing : h.Gains spec [] (pure bound) bound :=
  ⟨bound, rfl, by simp, id⟩

theorem Gains.insertNew {n : String} {s v : Slot} (known : spec.get? n = some v)
    (same : h.slotEqual s v = true) : h.Gains spec [n] (pure (bound.insertNew n s)) bound := by
  refine ⟨_, rfl, fun m => ?_, fun agrees m t found => ?_⟩
  · rw [NameMap.contains, NameMap.get?_insertNew]
    split <;> simp_all [NameMap.contains]
  · rw [NameMap.get?_insertNew] at found
    split at found
    · rename_i here
      subst here
      cases old : bound.get? m with
      | some t' =>
        rw [old] at found
        cases found
        exact agrees m t' old
      | none =>
        rw [old] at found
        cases found
        exact ⟨v, known, same⟩
    · exact agrees m t found

theorem Gains.bind {run : Traced Spec} {next : Spec → Traced Spec}
    (first : h.Gains spec names run bound)
    (rest : ∀ bound, h.Gains spec names' (next bound) bound) :
    h.Gains spec (names ++ names') (run >>= next) bound := by
  obtain ⟨middle, rfl, gained, agrees⟩ := first
  obtain ⟨last, runs, gained', agrees'⟩ := rest middle
  refine ⟨last, runs, fun n => ?_, agrees' ∘ agrees⟩
  rw [gained', gained, List.mem_append, or_assoc]

/-! ## What the spec gives for a name -/

theorem holdsClosed_iff {s : Slot} : h.holdsClosed s = true ↔
    s.kind = .exact ∧ h.slotMentions s = [] ∧ s.ty.isMissing = false := by
  simp [holdsClosed, slotHasParams, and_assoc]

/-- A closed slot for one type holds no type parameter. -/
theorem isParam_of_holdsClosed {s : Slot} (closed : h.holdsClosed s = true) :
    s.ty.isParam = false := by
  obtain ⟨kind, none, -⟩ := holdsClosed_iff.mp closed
  cases s with
  | exact m t => exact isParam_of_mentions none
  | rebound m n l us =>
    cases us with
    | nil => rfl
    | cons u us => exact isParam_of_mentions none
  | param | wildcard => cases kind

theorem resolve_of_holdsClosed {n : String} {s : Slot} (known : spec.get? n = some s)
    (closed : h.holdsClosed s = true) (site : Site) (bounds : List Ty) :
    spec.resolve [] site n bounds = s.ty := by
  have plain := isParam_of_holdsClosed closed
  rw [resolve_of_some known List.not_mem_nil]
  split
  · rfl
  · cases other : s.ty with
    | param => rw [other] at plain; cases plain
    | decl | bare | app | array => rfl

theorem slotEqual_of_holdsClosed {s : Slot} (closed : h.holdsClosed s = true) (site : Site) :
    h.slotEqual (.ofTy site s.ty) s = true :=
  slotEqual_ofTy site (isParam_of_holdsClosed closed) (holdsClosed_iff.mp closed).1 (equal_self h _)

/-- A match with a type parameter, given the type that the spec has for it. -/
theorem Gains.param {n : String} (fills : h.Fills spec [n]) (site : Site) (bounds : List Ty)
    (Γ : Context) (bound : Spec) :
    h.Gains spec [n] (Γ.connect (spec.resolve [] site n bounds) (.param site n bounds) bound)
      bound := by
  obtain ⟨s, known, closed⟩ := fills n List.mem_cons_self
  rw [resolve_of_holdsClosed known closed, Context.connect, (holdsClosed_iff.mp closed).2.2]
  exact .insertNew known (slotEqual_of_holdsClosed closed _)

/-- The declared parameters are bound to what the spec has for them. -/
theorem Gains.declared {ps : List Slot} (fills : h.Fills spec (ps.map Slot.name)) (bound : Spec) :
    h.Gains spec (ps.map Slot.name)
      (pure ((ps.zip (ps.map (spec.resolveSlot []))).foldl
        (fun acc (p, a) => acc.insertNew p.name a) bound)) bound := by
  induction ps generalizing bound with
  | nil => exact .nothing
  | cons p ps ih =>
    obtain ⟨s, known, -⟩ := fills p.name List.mem_cons_self
    have rest := fills.mono (List.subset_cons_self _ _)
    simp only [List.map_cons, List.zip_cons_cons, List.foldl_cons, Spec.resolveSlot_of_some known]
    exact (Gains.insertNew known (slotEqual_self h s)).bind (ih rest)

end Gains

end Hierarchy

namespace Context

variable {Γ : Context} {spec : Spec}

/-- A use of a declaration is seen as it is. -/
theorem viewedArguments_use {s : Site} {d : DeclId} {args : List Slot} {pattern : Ty}
    {count : Nat} (length : args.length = count) (same : (Ty.app s d args).is pattern = true) :
    Γ.viewedArguments (.app s d args) pattern count = pure (some args) := by
  simp [viewedArguments, Ty.isParam, same, Traced.pure_bind, Hierarchy.args, length]

open Hierarchy

mutual

/-- A pattern that is matched with its own instance gains the type parameters that it mentions. -/
theorem gains_connect : ∀ {p : Ty}, p.singlyBounded = true →
    Γ.hierarchy.Fills spec (Γ.hierarchy.mentions p) → ∀ bound : Spec,
    Γ.hierarchy.Gains spec (Γ.hierarchy.mentions p)
      (Γ.connect (Γ.hierarchy.subst spec [] p) p bound) bound
  | .decl d, _, fills, bound => by
    rw [subst, connect]
    cases params : Γ.hierarchy.params d with
    | nil =>
      rw [mentions, params]
      exact .nothing
    | cons q qs =>
      rw [mentions, params] at fills
      have viewed : Γ.viewedArguments (.app ⟨0, 0⟩ d ((q :: qs).map (spec.resolveSlot [])))
          (.decl d) (q :: qs).length = pure (some ((q :: qs).map (spec.resolveSlot []))) :=
        viewedArguments_use (List.length_map _) (by simp [Ty.is, Ty.head?])
      rw [mentions, params]
      simp only [List.isEmpty_cons, Ty.isArray, Bool.or_self, Bool.false_eq_true, if_false, viewed,
        Traced.pure_bind]
      exact .declared fills bound
  | .bare _ _, _, _, _ => .nothing
  | .app s d [], _, _, _ => .nothing
  | .app s d (q :: qs), single, fills, bound => by
    have viewed : Γ.viewedArguments (.app s d (Γ.hierarchy.substSlots spec [] (q :: qs)))
        (.app s d (q :: qs)) (q :: qs).length =
        pure (some (Γ.hierarchy.substSlots spec [] (q :: qs))) :=
      viewedArguments_use (length_substSlots _ _ _ _) (by simp [Ty.is, Ty.head?])
    rw [subst, connect]
    simp only [List.isEmpty_cons, Ty.isArray, Bool.or_self, Bool.false_eq_true, if_false, viewed,
      Traced.pure_bind]
    exact gains_connectSlots single fills bound
  | .param s n bs, _, fills, bound => .param fills s bs Γ bound
  | .array _ p, single, fills, bound => gains_connect (p := p) single fills bound

theorem gains_connectSlot : ∀ {p : Slot}, p.singlyBounded = true →
    Γ.hierarchy.Fills spec (Γ.hierarchy.slotMentions p) → ∀ bound : Spec,
    Γ.hierarchy.Gains spec (Γ.hierarchy.slotMentions p)
      (Γ.connectSlot (Γ.hierarchy.substSlot spec [] p) p bound) bound
  | .param m l s n bs, _, fills, bound => by
    obtain ⟨v, known, -⟩ := fills n List.mem_cons_self
    rw [substSlot, connectSlot, Spec.resolveSlot_of_some (p := .param m l s n bs) known]
    exact .insertNew known (slotEqual_self _ v)
  | .exact _ p, single, fills, bound | .rebound _ _ _ (p :: _), single, fills, bound => by
    rw [substSlot, connectSlot, Slot.ty_ofTy]
    exact gains_connect (p := p) single fills bound
  | .rebound _ _ _ [], _, _, _ => .nothing
  | .wildcard m none us, single, fills, bound => by
    rw [Slot.singlyBounded, Bool.and_eq_true, decide_eq_true_iff] at single
    exact gains_connectUppers m none single.1 single.2 fills bound
  | .wildcard m (some l) us, single, fills, bound => by
    rw [Slot.singlyBounded, Bool.and_eq_true, Bool.and_eq_true, decide_eq_true_iff] at single
    obtain ⟨below, above⟩ := fills.of_append
    exact (gains_connect (p := l) single.1.2 below bound).bind
      (gains_connectUppers m (some _) single.1.1 single.2 above)

/-- The one upper bound of a wildcard meets the one upper bound of its instance. -/
theorem gains_connectUppers (m : Mark) (l : Option Ty) : ∀ {us : List Ty}, us.length ≤ 1 →
    Ty.areSinglyBounded us = true → Γ.hierarchy.Fills spec (Γ.hierarchy.typesMention us) →
    ∀ bound : Spec, Γ.hierarchy.Gains spec (Γ.hierarchy.typesMention us)
      (Γ.connectUppers (.wildcard m l (Γ.hierarchy.substTypes spec [] us)) us bound) bound
  | [], _, _, _, _ => .nothing
  | [u], _, single, fills, bound => by
    rw [Ty.areSinglyBounded, Bool.and_eq_true] at single
    exact (gains_connect (p := u) single.1 fills.of_append.1 bound).bind fun _ => .nothing

theorem gains_connectSlots : ∀ {ps : List Slot}, Slot.areSinglyBounded ps = true →
    Γ.hierarchy.Fills spec (Γ.hierarchy.slotsMention ps) → ∀ bound : Spec,
    Γ.hierarchy.Gains spec (Γ.hierarchy.slotsMention ps)
      (Γ.connectSlots (Γ.hierarchy.substSlots spec [] ps) ps bound) bound
  | [], _, _, _ => .nothing
  | p :: ps, single, fills, bound => by
    rw [Slot.areSinglyBounded, Bool.and_eq_true] at single
    obtain ⟨first, rest⟩ := fills.of_append
    exact (gains_connectSlot (p := p) single.1 first bound).bind (gains_connectSlots single.2 rest)

end

end Context

/-- Matching the instance of a pattern with the pattern gives back what the spec had for the type
parameters of the pattern, and nothing else. -/
theorem connections_undo_subst {h : Hierarchy} {spec : Spec} {pattern : Ty}
    (single : pattern.singlyBounded = true) (fills : h.Fills spec (h.mentions pattern))
    (e : Engine) :
    ∃ bound, e.connections h (h.subst spec [] pattern) pattern = pure bound ∧
      (∀ n, bound.contains n = true ↔ n ∈ h.mentions pattern) ∧
      ∀ n s, bound.get? n = some s → ∃ v, spec.get? n = some v ∧ h.slotEqual s v = true := by
  obtain ⟨bound, runs, gained, agrees⟩ :=
    Context.gains_connect (Γ := e.context h) single fills .empty
  have runs : (e.context h).connections (h.subst spec [] pattern) pattern = pure bound := runs
  refine ⟨bound, ?_, fun n => ?_, agrees nofun⟩
  · rw [Engine.connections, runs]
    rfl
  · exact (gained n).trans (or_iff_right (by simp [NameMap.contains]))

def nestedPattern : Ty :=
  reelLibrary.typeIn (reelLibrary.scopeIn ["T", "U"])
    "Crate<? super T[], Buffer<? extends Crate<U, T>>>"

def nestedSpec : Spec := .ofList [("T", reelLibrary.slotIn .empty "Reel<Text>"),
  ("U", reelLibrary.slotIn .empty "Text[]"), ("V", .anything ⟨0, 0⟩)]

/-- Both slots come back; the one that the pattern does not mention does not. -/
theorem nested_undone :
    reelLibrary.hierarchy.mentions nestedPattern = ["T", "U", "T"] ∧
    reelLibrary.hierarchy.render (reelLibrary.hierarchy.subst nestedSpec [] nestedPattern) =
      "Crate<? super Reel<Text>[], Buffer<? extends Crate<Text[], Reel<Text>>>>" ∧
    ∃ bound, (Engine.ofSettings {}).connections reelLibrary.hierarchy
        (reelLibrary.hierarchy.subst nestedSpec [] nestedPattern) nestedPattern = pure bound ∧
      (∀ n, bound.contains n = true ↔ n ∈ reelLibrary.hierarchy.mentions nestedPattern) ∧
      ∀ n s, bound.get? n = some s →
        ∃ v, nestedSpec.get? n = some v ∧ reelLibrary.hierarchy.slotEqual s v = true := by
  obtain ⟨mentioned, text, single, fills⟩ :
      reelLibrary.hierarchy.mentions nestedPattern = ["T", "U", "T"] ∧
      reelLibrary.hierarchy.render (reelLibrary.hierarchy.subst nestedSpec [] nestedPattern) =
        "Crate<? super Reel<Text>[], Buffer<? extends Crate<Text[], Reel<Text>>>>" ∧
      nestedPattern.singlyBounded = true ∧
      reelLibrary.hierarchy.Fills nestedSpec (reelLibrary.hierarchy.mentions nestedPattern) := by
    decide +kernel
  exact ⟨mentioned, text, connections_undo_subst single fills (.ofSettings {})⟩

end NominalGenerics
