import Mathlib.Data.List.Sort
import Mathlib.Tactic.Linarith
import NominalGenerics.Collections.Stack
import NominalGenerics.Proofs.Derived
import NominalGenerics.Proofs.Reachability

/-!
# Walks that come to an end

The walks over a hierarchy are given a number of steps, and where that is used up they stop with
what they have. Here the same walks are run with any number of steps, and a run that has used them
up says so instead of answering. A run returns when some number of steps is enough for an answer
(`Returns`).

In a sound hierarchy all of them return, with the answer that the walk with its fixed number of
steps gives. The superclass chain goes down in height (`Sound.runLineage_returns`); a breadth-first
walk meets only so many nodes (`GoesUp.runReach_returns`); the subtype test asks about lighter types
(`runSubtype_returns`). The ancestors are found as well by a stack that expands whatever it meets,
each time anew, since nothing is above itself (`Sound.runAncestorNames_returns`).
-/

namespace NominalGenerics

/-! ## Runs -/

/-- Some number of steps is enough for the answer `r`, and more steps do not change it. -/
def Returns {α : Type} (x : Nat → Except Failure α) (r : Except Failure α) : Prop :=
  r ≠ .error .exhausted ∧ ∃ n, ∀ fuel, n ≤ fuel → x fuel = r

namespace Returns

variable {α β : Type} {x : Nat → Except Failure α} {r : Except Failure α}

theorem ok (a : α) : Returns (fun _ => .ok a) (.ok a) := by
  refine ⟨?_, 0, fun _ _ => rfl⟩
  intro out
  cases out

theorem violation (v : Violation) :
    Returns (fun _ => (.error (.violation v) : Except Failure α)) (.error (.violation v)) := by
  refine ⟨?_, 0, fun _ _ => rfl⟩
  intro out
  cases out

theorem of_le {a : α} (n : Nat) (all : ∀ fuel, n ≤ fuel → x fuel = .ok a) :
    Returns x (.ok a) :=
  ⟨(ok a).1, n, all⟩

theorem succ (returns : Returns (fun fuel => x (fuel + 1)) r) : Returns x r := by
  obtain ⟨answers, n, stays⟩ := returns
  refine ⟨answers, n + 1, ?_⟩
  intro fuel enough
  obtain ⟨fuel, rfl⟩ := Nat.exists_eq_add_of_le' (Nat.le_trans (Nat.le_add_left 1 n) enough)
  exact stays fuel (by omega)

theorem bind {f : Nat → α → Except Failure β} {g : α → Except Failure β} (first : Returns x r)
    (rest : ∀ a, r = .ok a → Returns (fun fuel => f fuel a) (g a)) :
    Returns (fun fuel => x fuel >>= f fuel) (r >>= g) := by
  obtain ⟨answers, n, stays⟩ := first
  cases r with
  | error e =>
    refine ⟨fun out => answers (by cases out; rfl), n, ?_⟩
    intro fuel enough
    show x fuel >>= f fuel = _
    rw [stays fuel enough]
    rfl
  | ok a =>
    obtain ⟨answers', m, stays'⟩ := rest a rfl
    refine ⟨answers', max n m, ?_⟩
    intro fuel enough
    show x fuel >>= f fuel = _
    rw [stays fuel (by omega)]
    exact stays' fuel (by omega)

/-- What comes after an answer that is known. -/
theorem andThen {f : Nat → α → Except Failure β} {a : α} {r' : Except Failure β}
    (first : Returns x (.ok a)) (rest : Returns (fun fuel => f fuel a) r') :
    Returns (fun fuel => x fuel >>= f fuel) r' := by
  refine bind (g := fun _ => r') first ?_
  rintro _ ⟨⟩
  exact rest

section Lists

variable {xs : List α} {test : Nat → α → Except Failure Bool} {p : α → Bool}

theorem anyM (each : ∀ a ∈ xs, Returns (fun fuel => test fuel a) (.ok (p a))) :
    Returns (fun fuel => xs.anyM (test fuel)) (.ok (xs.any p)) := by
  induction xs with
  | nil => exact ok false
  | cons a xs ih =>
    refine andThen (each a List.mem_cons_self) ?_
    rw [List.any_cons]
    cases p a with
    | true => exact ok true
    | false => exact ih fun b member => each b (List.mem_cons_of_mem _ member)

theorem allM (each : ∀ a ∈ xs, Returns (fun fuel => test fuel a) (.ok (p a))) :
    Returns (fun fuel => xs.allM (test fuel)) (.ok (xs.all p)) := by
  induction xs with
  | nil => exact ok true
  | cons a xs ih =>
    refine andThen (each a List.mem_cons_self) ?_
    rw [List.all_cons]
    cases p a with
    | true => exact ih fun b member => each b (List.mem_cons_of_mem _ member)
    | false => exact ok false

theorem findM? (each : ∀ a ∈ xs, Returns (fun fuel => test fuel a) (.ok (p a))) :
    Returns (fun fuel => xs.findM? (test fuel)) (.ok (xs.find? p)) := by
  induction xs with
  | nil => exact ok none
  | cons a xs ih =>
    refine andThen (each a List.mem_cons_self) ?_
    rw [List.find?_cons]
    cases p a with
    | true => exact ok (some a)
    | false => exact ih fun b member => each b (List.mem_cons_of_mem _ member)

end Lists

end Returns

namespace Hierarchy

variable {h : Hierarchy} {ids : List DeclId} {d : DeclId} {t : Ty}

/-! ## The superclass chain -/

section Lineage

def runLineage (h : Hierarchy) : Nat → Ty → Except Failure (List Ty)
  | 0, _ => .error .exhausted
  | fuel + 1, t =>
    match h.superclass t with
    | none => .ok [t]
    | some s => do return t :: (← h.runLineage fuel s)

theorem Sound.runLineage_eq (sound : h.Sound ids) (head : t.head? = some d) (member : d ∈ ids)
    {fuel steps : Nat} (enough : h.height ids d < fuel) (enough' : h.height ids d < steps) :
    h.runLineage fuel t = .ok (h.lineageWithin steps t) := by
  induction fuel generalizing steps t d with
  | zero => omega
  | succ fuel ih =>
    obtain ⟨steps, rfl⟩ := Nat.exists_eq_succ_of_ne_zero (Nat.ne_zero_of_lt enough')
    unfold runLineage lineageWithin
    cases above : h.superclass t with
    | none => rfl
    | some s =>
      have written : s ∈ h.supertypes t := List.mem_append_left _ (Option.mem_toList.mpr above)
      obtain ⟨-, e, here, edge⟩ := sound.supertype head written
      have lower := sound.height_lt member edge
      have further : h.runLineage fuel s = .ok (h.lineageWithin steps s) :=
        ih here (sound.edge_mem edge) (by omega) (by omega)
      dsimp only
      rw [further]
      rfl

theorem Sound.runLineage_returns (sound : h.Sound ids) (head : t.head? = some d)
    (member : d ∈ ids) : Returns (fun fuel => h.runLineage fuel t) (.ok (h.lineage t)) :=
  .of_le (h.height ids d + 1) fun _ enough =>
    sound.runLineage_eq head member enough (sound.height_lt_budget t.weight)

end Lineage

/-! ## Breadth-first walks -/

section Reach

/-- The nodes reached from a queue, breadth first and each once, one step for each in the queue. -/
def runReach (next : Ty → List Ty) : Nat → Queue Ty → List Ty → Except Failure (List Ty)
  | 0, _, _ => .error .exhausted
  | fuel + 1, queue, found =>
    match queue.pop with
    | (none, _) => .ok found.reverse
    | (some t, queue) =>
      if t ∈ found then runReach next fuel queue found
      else runReach next fuel (queue.push (next t)) (t :: found)

theorem runReach_eq {next : Ty → List Ty} {all : List Ty}
    (closed : ∀ t ∈ all, ∀ u ∈ next t, u ∈ all) {fuel steps : Nat} {queue : Queue Ty}
    {found : List Ty} (within : queue.toList ⊆ all)
    (enough : queue.size + pending (fun t => (next t).length) all found < fuel)
    (enough' : queue.size + pending (fun t => (next t).length) all found ≤ steps) :
    runReach next fuel queue found = .ok (reachQueue next steps queue found) := by
  rw [← Queue.length_toList] at enough enough'
  induction fuel generalizing steps queue found with
  | zero => omega
  | succ fuel ih =>
    unfold runReach
    cases holds : queue.toList with
    | nil =>
      have popped := Queue.pop_of_toList_eq_nil holds
      cases steps with
      | zero =>
        rw [popped]
        rfl
      | succ steps =>
        unfold reachQueue
        rw [popped]
    | cons t rest =>
      obtain ⟨queue', popped, rfl⟩ := Queue.pop_of_toList_eq_cons holds
      rw [holds] at within enough enough'
      obtain ⟨here, within⟩ := List.cons_subset.mp within
      rw [List.length_cons] at enough enough'
      obtain ⟨steps, rfl⟩ := Nat.exists_eq_succ_of_ne_zero (n := steps) (by omega)
      unfold reachQueue
      rw [popped]
      dsimp only
      split
      · exact ih within (by omega) (by omega)
      · rename_i new
        -- a type that is new pays for what it puts into the queue
        have less := pending_cons_add_le (f := fun t => (next t).length) here new
        have wider : (queue'.push (next t)).toList ⊆ all := by
          rw [Queue.toList_push]
          exact List.append_subset.mpr ⟨within, fun u step => closed t here u step⟩
        apply ih wider
        · rw [Queue.toList_push, List.length_append]
          omega
        · rw [Queue.toList_push, List.length_append]
          omega

theorem pending_append {α : Type} [DecidableEq α] (f : α → Nat) (xs ys found : List α) :
    pending f (xs ++ ys) found = pending f xs found + pending f ys found := by
  induction xs with
  | nil => simp [pending]
  | cons x xs ih =>
    rw [List.cons_append, pending, pending, ih]
    omega

theorem pending_nil_eq_sum {α : Type} [DecidableEq α] (f : α → Nat) (xs : List α) :
    pending f xs [] = (xs.map f).sum := by
  induction xs with
  | nil => rfl
  | cons x xs ih => simp [pending, ih]

/-- A way up: from a declaration to some of its supertypes, from a type parameter to some of its
bounds, and to the root. -/
structure GoesUp (h : Hierarchy) (next : Ty → List Ty) : Prop where
  declared : ∀ d, ∀ u ∈ next (.decl d), u ∈ h.supertypes (.decl d)
  other : ∀ t, t.head? = none → ∀ u ∈ next t, u = .object ∨ u ∈ t.bounds
  light : ∀ d, (next (.decl d)).length ≤ (h.content d).weight
  few : ∀ t, t.head? = none → (next t).length ≤ t.bounds.length + 1

theorem goesUp_interfaces (h : Hierarchy) : h.GoesUp h.interfaces where
  declared d u written := List.mem_append_right _ written
  other t head u written := by
    cases t with
    | param s n bs => exact .inr (List.mem_filter.mp written).1
    | array => cases written
    | decl | bare | app => cases head
  light d := by
    have := length_le_weights (h.content d).interfaces
    simp only [interfaces, Decl.weight]
    omega
  few t head := by
    cases t with
    | param s n bs =>
      have := List.length_filter_le h.isInterface bs
      simp only [interfaces, Ty.bounds]
      omega
    | array => simp [interfaces]
    | decl | bare | app => cases head

theorem goesUp_supertypes (h : Hierarchy) : h.GoesUp h.supertypes where
  declared d u written := written
  other t head u written := by
    rcases List.mem_append.mp written with above | written
    · have above : h.superclass t = some u := Option.mem_toList.mp above
      cases t with
      | param s n bs =>
        cases bs with
        | nil =>
          cases above
          exact .inl rfl
        | cons b bs =>
          change (if h.isInterface b then some .object else some b) = some u at above
          split at above
          · cases above
            exact .inl rfl
          · cases above
            exact .inr List.mem_cons_self
      | array =>
        cases above
        exact .inl rfl
      | decl | bare | app => cases head
    · exact h.goesUp_interfaces.other t head u written
  light := h.length_supertypes_le
  few t head := by
    rw [supertypes, List.length_append]
    have one : (h.superclass t).toList.length ≤ 1 := Option.length_toList_le
    cases t with
    | param s n bs =>
      have := List.length_filter_le h.isInterface bs
      simp only [interfaces, Ty.bounds]
      omega
    | array => exact one
    | decl | bare | app => cases head

end Reach

end Hierarchy

/-! ## Types through bounds -/

theorem Ty.self_mem_throughBounds (t : Ty) : t ∈ t.throughBounds := by
  cases t <;> exact List.mem_cons_self

mutual

theorem Ty.bound_mem_throughBounds {x b : Ty} (bound : b ∈ x.bounds) : ∀ t : Ty,
    x ∈ t.throughBounds → b ∈ t.throughBounds
  | .param _ _ bs, member => by
    rcases List.mem_cons.mp member with rfl | member
    · refine List.mem_cons_of_mem _ ?_
      rw [Ty.throughAllBounds_eq_flatMap]
      exact List.mem_flatMap.mpr ⟨b, bound, b.self_mem_throughBounds⟩
    · exact List.mem_cons_of_mem _ (Ty.bound_mem_throughAllBounds bound bs member)
  | .decl _, member | .bare _ _, member | .app _ _ _, member | .array _ _, member => by
    cases List.mem_singleton.mp member
    cases bound

theorem Ty.bound_mem_throughAllBounds {x b : Ty} (bound : b ∈ x.bounds) : ∀ ts : List Ty,
    x ∈ Ty.throughAllBounds ts → b ∈ Ty.throughAllBounds ts
  | t :: ts, member => by
    rcases List.mem_append.mp member with here | later
    · exact List.mem_append_left _ (Ty.bound_mem_throughBounds bound t here)
    · exact List.mem_append_right _ (Ty.bound_mem_throughAllBounds bound ts later)

end

mutual

/-- Through the bounds of a whole type there are whole types. -/
theorem Ty.Formed.throughBounds {A : Arity} : ∀ {t : Ty}, t.Formed A (.whole A) →
    ∀ x ∈ t.throughBounds, x.Formed A (.whole A)
  | .param s n bs, whole, x, member => by
    rcases List.mem_cons.mp member with rfl | member
    · exact whole
    · exact Ty.FormedAll.throughBounds (ParamSet.whole_bounded s n bs whole) x member
  | .decl _, whole, x, member | .bare _ _, whole, x, member | .app _ _ _, whole, x, member
  | .array _ _, whole, x, member => by
    cases List.mem_singleton.mp member
    exact whole

theorem Ty.FormedAll.throughBounds {A : Arity} : ∀ {ts : List Ty}, Ty.FormedAll A (.whole A) ts →
    ∀ x ∈ Ty.throughAllBounds ts, x.Formed A (.whole A)
  | t :: ts, ⟨first, rest⟩, x, member => by
    rcases List.mem_append.mp member with here | later
    · exact Ty.Formed.throughBounds first x here
    · exact Ty.FormedAll.throughBounds rest x later

end

def Ty.undeclared (t : Ty) : Bool := t.head?.isNone

mutual

/-- Type parameters are written with their bounds, so these are no more than the nodes are. -/
theorem Ty.sum_bounds_throughBounds : ∀ t : Ty,
    ((t.throughBounds.filter Ty.undeclared).map fun x => x.bounds.length + 1).sum + 1 ≤
      2 * t.weight
  | .decl _ | .bare _ _ => Nat.le_succ 1
  | .app _ _ args => by
    show 0 + 1 ≤ 2 * (1 + Slot.weights args)
    omega
  | .array _ e => by
    show 1 + 1 ≤ 2 * (1 + e.weight)
    omega
  | .param _ _ bs => by
    have := Ty.sum_bounds_throughAllBounds bs
    show (bs.length + 1 + (((Ty.throughAllBounds bs).filter Ty.undeclared).map
      fun x => x.bounds.length + 1).sum) + 1 ≤ 2 * (1 + Ty.weights bs)
    omega

theorem Ty.sum_bounds_throughAllBounds : ∀ ts : List Ty,
    (((Ty.throughAllBounds ts).filter Ty.undeclared).map fun x => x.bounds.length + 1).sum +
      ts.length ≤ 2 * Ty.weights ts
  | [] => Nat.le_refl 0
  | t :: ts => by
    have first := Ty.sum_bounds_throughBounds t
    have rest := Ty.sum_bounds_throughAllBounds ts
    rw [Ty.throughAllBounds, List.filter_append, List.map_append, List.sum_append, Ty.weights,
      List.length_cons]
    omega

end

namespace Hierarchy

variable {h : Hierarchy} {ids : List DeclId} {next : Ty → List Ty} {queue : List Ty} {x : Ty}

/-- The nodes that a walk up from a queue may meet: the declarations, and what is met through
bounds. -/
def upperNodes (ids : List DeclId) (queue : List Ty) : List Ty :=
  ids.map .decl ++ (Ty.throughAllBounds queue).filter Ty.undeclared

theorem declaration_of_not_head (h : Hierarchy) (head : x.head? = none) : h.declaration x = x := by
  unfold declaration
  rw [head]

theorem Sound.declaration_mem_upperNodes (sound : h.Sound ids)
    (whole : Ty.FormedAll (h.arity ids) (.whole (h.arity ids)) queue)
    (member : x ∈ Ty.throughAllBounds queue) : h.declaration x ∈ upperNodes ids queue := by
  cases head : x.head? with
  | some e =>
    obtain ⟨k, known⟩ := (whole.throughBounds x member).head head
    rw [sound.direct.declaration head]
    exact List.mem_append_left _ (List.mem_map_of_mem (arity_eq_some.mp known).1)
  | none =>
    rw [h.declaration_of_not_head head]
    refine List.mem_append_right _ (List.mem_filter.mpr ⟨member, ?_⟩)
    rw [Ty.undeclared, head]
    rfl

theorem GoesUp.closed (goesUp : h.GoesUp next) (sound : h.Sound ids)
    (whole : Ty.FormedAll (h.arity ids) (.whole (h.arity ids)) queue) :
    ∀ x ∈ upperNodes ids queue, ∀ y ∈ (next x).map h.declaration, y ∈ upperNodes ids queue := by
  intro x member y step
  obtain ⟨u, written, rfl⟩ := List.mem_map.mp step
  rcases List.mem_append.mp member with declared | other
  · obtain ⟨d, -, rfl⟩ := List.mem_map.mp declared
    obtain ⟨-, e, head, edge⟩ := sound.supertype (d := d) rfl (goesUp.declared d u written)
    rw [sound.direct.declaration head]
    exact List.mem_append_left _ (List.mem_map_of_mem (sound.edge_mem edge))
  · obtain ⟨met, undeclared⟩ := List.mem_filter.mp other
    rcases goesUp.other x (Option.isNone_iff_eq_none.mp undeclared) u written with rfl | bound
    · rw [sound.direct.declaration (d := .object) rfl]
      exact List.mem_append_left _ (List.mem_map_of_mem sound.object)
    · exact sound.declaration_mem_upperNodes whole (Ty.bound_mem_throughAllBounds bound queue met)

theorem Sound.queue_subset_upperNodes (sound : h.Sound ids)
    (whole : Ty.FormedAll (h.arity ids) (.whole (h.arity ids)) queue) :
    queue.map h.declaration ⊆ upperNodes ids queue := by
  intro y member
  obtain ⟨x, queued, rfl⟩ := List.mem_map.mp member
  apply sound.declaration_mem_upperNodes whole
  rw [Ty.throughAllBounds_eq_flatMap]
  exact List.mem_flatMap.mpr ⟨x, queued, x.self_mem_throughBounds⟩

/-- A walk up has steps enough for all the nodes it may meet. -/
theorem GoesUp.enough (goesUp : h.GoesUp next) (sound : h.Sound ids) (queue : List Ty) :
    (queue.map h.declaration).length +
      pending (fun x => ((next x).map h.declaration).length) (upperNodes ids queue) [] ≤
        h.budget (Ty.weights queue) := by
  have declared := sound.pending_le (f := fun x => ((next x).map h.declaration).length) Ty.decl
    fun d => by
      rw [List.length_map]
      exact goesUp.light d
  have others : pending (fun x => ((next x).map h.declaration).length)
      ((Ty.throughAllBounds queue).filter Ty.undeclared) [] ≤
        (((Ty.throughAllBounds queue).filter Ty.undeclared).map
          fun x => x.bounds.length + 1).sum := by
    rw [pending_nil_eq_sum]
    refine List.sum_le_sum ?_
    intro x member
    rw [List.length_map]
    exact goesUp.few x (Option.isNone_iff_eq_none.mp (List.mem_filter.mp member).2)
  have written := Ty.sum_bounds_throughAllBounds queue
  rw [upperNodes, pending_append, List.length_map]
  have total : h.weight + 2 * Ty.weights queue ≤ h.budget (Ty.weights queue) := by
    unfold budget
    nlinarith
  omega

theorem GoesUp.runReach_returns (goesUp : h.GoesUp next) (sound : h.Sound ids)
    (whole : Ty.FormedAll (h.arity ids) (.whole (h.arity ids)) queue) :
    Returns (fun fuel => runReach (fun x => (next x).map h.declaration) fuel
      (.ofList (queue.map h.declaration)) []) (.ok (h.reachDeclarations next queue)) := by
  refine .of_le _ fun _ enough => runReach_eq (goesUp.closed sound whole) ?_ enough ?_
  · rw [Queue.toList_ofList]
    exact sound.queue_subset_upperNodes whole
  · rw [← Queue.length_toList, Queue.toList_ofList]
    exact goesUp.enough sound queue

/-- A walk up finds what is above its queue. -/
theorem GoesUp.mem_reachDeclarations (goesUp : h.GoesUp next) (sound : h.Sound ids)
    (whole : Ty.FormedAll (h.arity ids) (.whole (h.arity ids)) queue) :
    x ∈ h.reachDeclarations next queue ↔ ∃ q ∈ queue,
      Relation.ReflTransGen (fun a b => b ∈ (next a).map h.declaration) (h.declaration q) x :=
  mem_reachDeclarations_iff (goesUp.closed sound whole) (sound.queue_subset_upperNodes whole)
    (goesUp.enough sound queue)

/-- The interfaces of a type and its superclasses, and what these extend. -/
def runInterfaces (h : Hierarchy) (fuel : Nat) (t : Ty) : Except Failure (List Ty) := do
  let chain ← h.runLineage fuel t
  runReach (fun x => (h.interfaces x).map h.declaration) fuel
    (.ofList ((chain.flatMap h.interfaces).map h.declaration)) []

/-- Written supertypes are whole. -/
theorem Sound.supertype_whole (sound : h.Sound ids) {t : Ty} {d : DeclId} (head : t.head? = some d)
    {u : Ty} (written : u ∈ h.supertypes t) :
    u.Formed (h.arity ids) (.whole (h.arity ids)) := by
  refine (sound.supertype head written).1.mono (fun _ _ known => known) ?_
  intro s n bs declared
  exact (sound.params_whole declared).2.2

theorem Sound.runInterfaces_returns (sound : h.Sound ids) {t : Ty} {d : DeclId}
    (head : t.head? = some d) (member : d ∈ ids) :
    Returns (fun fuel => h.runInterfaces fuel t) (.ok (h.allInterfaces t)) := by
  refine (sound.runLineage_returns head member).andThen ?_
  apply h.goesUp_interfaces.runReach_returns sound
  apply Ty.formedAll_iff.mpr
  intro u written
  obtain ⟨v, chain, written⟩ := List.mem_flatMap.mp written
  obtain ⟨c, here, -⟩ := sound.lineage_sound head chain
  exact sound.supertype_whole here (List.mem_append_right _ written)

end Hierarchy

/-! ## The subtype test -/

namespace Context

variable {Γ : Context} {ids : List DeclId} {d : DeclId} {t u : Ty}

def runDerives (Γ : Context) (fuel : Nat) (t super : Ty) : Except Failure Bool := do
  return (← Γ.hierarchy.runLineage fuel t).tail.any (·.is super)

def runImplements (Γ : Context) (fuel : Nat) (t iface : Ty) : Except Failure Bool :=
  if Γ.hierarchy.isInterface iface then do
    return (← Γ.hierarchy.runInterfaces fuel t).any iface.is
  else .ok false

/-- Whether `t` is, extends or implements `super`, one step for each question that is asked on the
way and for each type that is met in a walk. -/
def runSubtype (Γ : Context) : Nat → Ty → Ty → Except Failure Bool
  | 0, _, _ => .error .exhausted
  | fuel + 1, t, super =>
    if t.is super || super.isRoot then .ok true
    else
      match t, super with
      | .array _ a, .array _ b => Γ.runSubtype fuel a b
      | .array _ _, _ | _, .array _ _ => .ok false
      | .param _ _ bounds, _ =>
        bounds.anyM fun b => if b.isParam then .ok false else Γ.runSubtype fuel b super
      | _, .param _ _ bounds => bounds.allM (Γ.runSubtype fuel t)
      | _, _ => do
        if ← Γ.runDerives fuel t super then return true
        if ← Γ.runImplements fuel t super then return true
        if Γ.willImplement t super then return true
        if Γ.hierarchy.isUnion super then
          (Γ.hierarchy.supertypes super).allM (Γ.runSubtype fuel t)
        else return false

theorem runDerives_returns (sound : Γ.hierarchy.Sound ids) (head : t.head? = some d)
    (member : d ∈ ids) (super : Ty) :
    Returns (fun fuel => Γ.runDerives fuel t super) (.ok (Γ.derives t super)) :=
  (sound.runLineage_returns head member).andThen (.ok _)

theorem runImplements_returns (sound : Γ.hierarchy.Sound ids) (head : t.head? = some d)
    (member : d ∈ ids) (iface : Ty) :
    Returns (fun fuel => Γ.runImplements fuel t iface) (.ok (Γ.implements t iface)) := by
  unfold runImplements implements
  split
  · rename_i isInterface
    rw [isInterface, Bool.true_and]
    exact (sound.runInterfaces_returns head member).andThen (.ok _)
  · rename_i isClass
    rw [Bool.eq_false_iff.mpr isClass, Bool.false_and]
    exact .ok false

/-- The subtype test of class types asks no further questions, since nothing is a union. -/
theorem runSubtype_class_returns (sound : Γ.hierarchy.Sound ids) (head : t.head? = some d)
    (member : d ∈ ids) {e : DeclId} (head' : u.head? = some e) (below : Ty → Ty → Bool) :
    Returns (fun fuel => Γ.runSubtype fuel t u) (.ok (Γ.subtypeStep below t u)) := by
  apply Returns.succ
  have run : ∀ fuel, Γ.runSubtype (fuel + 1) t u =
      if t.is u || u.isRoot then .ok true
      else do
        if ← Γ.runDerives fuel t u then return true
        if ← Γ.runImplements fuel t u then return true
        if Γ.willImplement t u then return true
        return false := by
    intro fuel
    cases t <;> cases head <;> cases u <;> cases head' <;>
      simp only [runSubtype, sound.isUnion_eq_false, Bool.false_eq_true, if_false]
  simp only [run]
  rw [subtypeStep_class head head', sound.isUnion_eq_false]
  split
  · exact .ok true
  · refine (runDerives_returns sound head member u).andThen ?_
    cases Γ.derives t u with
    | true => exact .ok true
    | false =>
      refine (runImplements_returns sound head member u).andThen ?_
      cases Γ.implements t u with
      | true => exact .ok true
      | false =>
        cases Γ.willImplement t u with
        | true => exact .ok true
        | false => exact .ok false

/-- The test of a type parameter through its bounds. -/
theorem runBounds_returns {bounds : List Ty} {below : Ty → Bool}
    (each : ∀ b ∈ bounds, Returns (fun fuel => Γ.runSubtype fuel b u) (.ok (below b))) :
    Returns (fun fuel => bounds.anyM fun b =>
        if b.isParam then .ok false else Γ.runSubtype fuel b u)
      (.ok (bounds.any fun b => !b.isParam && below b)) := by
  refine .anyM fun b member => ?_
  cases b.isParam with
  | true => exact .ok false
  | false => exact each b member

/-- Apart from class types, the test goes on to the elements of arrays and to the bounds of type
parameters, which weigh less. -/
theorem runSubtype_returns (sound : Γ.hierarchy.Sound ids) {steps : Nat}
    (enough : t.weight + u.weight ≤ steps) (loose : t.Loose (Γ.hierarchy.arity ids))
    (loose' : u.Loose (Γ.hierarchy.arity ids)) :
    Returns (fun fuel => Γ.runSubtype fuel t u) (.ok (Γ.subtypeWithin steps t u)) := by
  induction steps generalizing t u with
  | zero =>
    have := t.weight_pos
    omega
  | succ steps ih =>
    have lighter : ∀ {b : Ty} {bs : List Ty}, b ∈ bs → b.weight < 1 + Ty.weights bs := by
      intro b bs member
      have := Ty.weight_le_weights member
      omega
    have bounds : ∀ {s n bs}, (Ty.param s n bs).Loose (Γ.hierarchy.arity ids) → ∀ b ∈ bs,
        b.Loose (Γ.hierarchy.arity ids) := by
      intro s n bs loose b member
      exact (Ty.Formed.bound (s := s) (n := n) loose member).loose
    rw [subtypeWithin]
    by_cases same : (t.is u || u.isRoot) = true
    · apply Returns.succ
      simp only [runSubtype, subtypeStep, same, if_true]
      exact .ok true
    cases t with
    | array s a =>
      apply Returns.succ
      cases u with
      | array s' b =>
        simp only [runSubtype, subtypeStep, same, Bool.false_eq_true, if_false]
        exact ih (by simp only [Ty.weight] at enough; omega) loose loose'
      | decl | bare | app | param =>
        simp only [runSubtype, subtypeStep, same, Bool.false_eq_true, if_false]
        exact .ok false
    | param s n bs =>
      apply Returns.succ
      cases u with
      | array =>
        simp only [runSubtype, subtypeStep, same, Bool.false_eq_true, if_false]
        exact .ok false
      | decl | bare | app | param =>
        simp only [runSubtype, subtypeStep, same, Bool.false_eq_true, if_false]
        refine runBounds_returns fun b member => ih ?_ (bounds loose b member) loose'
        have := lighter member
        simp only [Ty.weight] at enough this ⊢
        omega
    | decl | bare | app =>
      have member := sound.keptUp_loose.listed loose rfl
      cases u with
      | array =>
        apply Returns.succ
        simp only [runSubtype, subtypeStep, same, Bool.false_eq_true, if_false]
        exact .ok false
      | param s' n' bs' =>
        apply Returns.succ
        simp only [runSubtype, subtypeStep, same, Bool.false_eq_true, if_false]
        refine .allM fun b member => ih ?_ loose (bounds loose' b member)
        have := lighter member
        simp only [Ty.weight] at enough this ⊢
        omega
      | decl | bare | app => exact runSubtype_class_returns sound rfl member rfl _

/-- The subtype test comes to an end with its answer. -/
theorem runSubtype_isSubtype (sound : Γ.hierarchy.Sound ids)
    (loose : t.Loose (Γ.hierarchy.arity ids)) (loose' : u.Loose (Γ.hierarchy.arity ids)) :
    Returns (fun fuel => Γ.runSubtype fuel t u) (.ok (Γ.isSubtype t u)) := by
  refine runSubtype_returns sound ?_ loose loose'
  have := Γ.hierarchy.weight_lt_budget (t.weight + u.weight)
  omega

end Context

/-! ## Ancestors -/

namespace Hierarchy

variable {h : Hierarchy} {ids : List DeclId} {x t : Ty}

def DeclaredAbove (h : Hierarchy) (x y : Ty) : Prop := y ∈ (h.supertypes x).map h.declaration

/-- What is above the types of a stack, with what was met before. Every type on the stack is
expanded, whether it was met before or not. -/
def runAncestors (h : Hierarchy) : Nat → Stack Ty → List Ty → Except Failure (List Ty)
  | 0, _, _ => .error .exhausted
  | fuel + 1, stack, met =>
    match stack.pop with
    | (none, _) => .ok met
    | (some t, stack) =>
      let supers := (h.supertypes t).map h.declaration
      h.runAncestors fuel (supers.foldl .push stack) (met ++ supers)

def runAncestorNames (h : Hierarchy) (fuel : Nat) (t : Ty) : Except Failure (List String) := do
  let met ← h.runAncestors fuel (Stack.empty.push (h.declaration t)) []
  return dropRepeats ((met.map Ty.name).mergeSort fun a b => decide (a ≤ b))

/-- The stack is rid of some types in some number of steps, in which it meets all that is above
them. -/
def Expands (h : Hierarchy) (xs : List Ty) : Prop :=
  ∃ n above, (∀ y, y ∈ above ↔ ∃ x ∈ xs, Relation.TransGen h.DeclaredAbove x y) ∧
    ∀ (fuel : Nat) (stack : Stack Ty) (rest met : List Ty), stack.toList = xs ++ rest →
      ∃ stack' : Stack Ty, stack'.toList = rest ∧
        h.runAncestors (n + fuel) stack met = h.runAncestors fuel stack' (met ++ above)

theorem expands_of_forall {xs : List Ty} (each : ∀ x ∈ xs, h.Expands [x]) : h.Expands xs := by
  induction xs with
  | nil =>
    refine ⟨0, [], by simp, fun fuel stack rest met holds => ⟨stack, holds, ?_⟩⟩
    rw [Nat.zero_add, List.append_nil]
  | cons x xs ih =>
    obtain ⟨n, above, all, run⟩ := each x List.mem_cons_self
    obtain ⟨m, above', all', run'⟩ := ih fun y member => each y (List.mem_cons_of_mem _ member)
    refine ⟨n + m, above ++ above', ?_, ?_⟩
    · intro y
      simp [all, all']
    · intro fuel stack rest met holds
      obtain ⟨between, holds', first⟩ := run (m + fuel) stack (xs ++ rest) met holds
      obtain ⟨stack', holds'', second⟩ := run' fuel between rest (met ++ above) holds'
      exact ⟨stack', holds'', by rw [Nat.add_assoc, first, second, List.append_assoc]⟩

/-- A type is expanded when nothing is above itself from there on: its supertypes are. -/
theorem expands_of_acc (ends : Acc (fun y x => h.DeclaredAbove x y) x) : h.Expands [x] := by
  induction ends with
  | intro x _ ih =>
    obtain ⟨n, above, all, run⟩ : h.Expands ((h.supertypes x).map h.declaration).reverse :=
      expands_of_forall fun y member => ih y (List.mem_reverse.mp member)
    refine ⟨n + 1, (h.supertypes x).map h.declaration ++ above, ?_, ?_⟩
    · intro y
      rw [List.mem_append, all]
      simp only [List.mem_reverse, List.mem_singleton, exists_eq_left]
      rw [Relation.TransGen.head'_iff]
      simp only [Relation.reflTransGen_iff_eq_or_transGen]
      constructor
      · rintro (direct | ⟨z, step, path⟩)
        · exact ⟨y, direct, .inl rfl⟩
        · exact ⟨z, step, .inr path⟩
      · rintro ⟨z, step, rfl | path⟩
        · exact .inl step
        · exact .inr ⟨z, step, path⟩
    · intro fuel stack rest met holds
      obtain ⟨taken, popped, rfl⟩ := Stack.pop_of_toList_eq_cons holds
      have pushed := taken.toList_foldl_push ((h.supertypes x).map h.declaration)
      obtain ⟨stack', holds', steps⟩ :=
        run fuel _ _ (met ++ (h.supertypes x).map h.declaration) pushed
      refine ⟨stack', holds', ?_⟩
      rw [show n + 1 + fuel = (n + fuel) + 1 by omega, runAncestors, popped, ← List.append_assoc]
      exact steps

/-- Going up from a declaration comes to an end at the root. -/
theorem Sound.acc_decl (sound : h.Sound ids) {d : DeclId} (member : d ∈ ids) :
    Acc (fun y x => h.DeclaredAbove x y) (.decl d) := by
  induction height : h.height ids d using Nat.strongRecOn generalizing d with
  | ind n ih =>
    subst height
    constructor
    intro y step
    obtain ⟨e, rfl, edge⟩ := sound.mem_nextSupertypes.mp step
    exact ih _ (sound.height_lt member edge) (sound.edge_mem edge) rfl

/-- Going up from a whole type comes to an end: bounds are lighter than their parameter. -/
theorem Sound.acc_declaration (sound : h.Sound ids)
    (whole : t.Formed (h.arity ids) (.whole (h.arity ids))) :
    Acc (fun y x => h.DeclaredAbove x y) (h.declaration t) := by
  induction weight : t.weight using Nat.strongRecOn generalizing t with
  | ind n ih =>
    subst weight
    cases head : t.head? with
    | some d =>
      obtain ⟨k, known⟩ := whole.head head
      rw [sound.direct.declaration head]
      exact sound.acc_decl (arity_eq_some.mp known).1
    | none =>
      rw [h.declaration_of_not_head head]
      constructor
      intro y step
      obtain ⟨u, written, rfl⟩ := List.mem_map.mp step
      rcases h.goesUp_supertypes.other t head u written with rfl | bound
      · rw [sound.direct.declaration (d := .object) rfl]
        exact sound.acc_decl sound.object
      · cases t with
        | param s n bs =>
          have lighter := Ty.weight_le_weights bound
          exact ih _ (by simp only [Ty.weight]; simp only [Ty.bounds] at lighter; omega)
            (Ty.Formed.bound (s := s) (n := n) whole bound) rfl
        | decl | bare | app | array => cases bound

/-- The written supertypes of a whole type are whole. -/
theorem Sound.supertypes_whole (sound : h.Sound ids)
    (whole : t.Formed (h.arity ids) (.whole (h.arity ids))) :
    Ty.FormedAll (h.arity ids) (.whole (h.arity ids)) (h.supertypes (h.declaration t)) := by
  apply Ty.formedAll_iff.mpr
  intro u written
  cases head : t.head? with
  | some d =>
    rw [sound.direct.declaration head] at written
    exact sound.supertype_whole (d := d) rfl written
  | none =>
    rw [h.declaration_of_not_head head] at written
    rcases h.goesUp_supertypes.other t head u written with rfl | bound
    · exact sound.arity_object
    · cases t with
      | param s n bs => exact Ty.Formed.bound (s := s) (n := n) whole bound
      | decl | bare | app | array => cases bound

theorem Sound.mem_ancestors_iff (sound : h.Sound ids)
    (whole : t.Formed (h.arity ids) (.whole (h.arity ids))) :
    x ∈ h.ancestors t ↔ Relation.TransGen h.DeclaredAbove (h.declaration t) x := by
  rw [ancestors, h.goesUp_supertypes.mem_reachDeclarations sound (sound.supertypes_whole whole),
    Relation.TransGen.head'_iff]
  constructor
  · rintro ⟨q, written, path⟩
    exact ⟨_, List.mem_map_of_mem written, path⟩
  · rintro ⟨_, step, path⟩
    obtain ⟨q, written, rfl⟩ := List.mem_map.mp step
    exact ⟨q, written, path⟩

/-- The stack is emptied, and then holds the names that the breadth-first walk finds. -/
theorem Sound.runAncestorNames_returns (sound : h.Sound ids)
    (whole : t.Formed (h.arity ids) (.whole (h.arity ids))) :
    Returns (fun fuel => h.runAncestorNames fuel t) (.ok (h.ancestorNames t)) := by
  obtain ⟨n, above, all, run⟩ := expands_of_acc (sound.acc_declaration whole)
  have emptied : Returns
      (fun fuel => h.runAncestors fuel (Stack.empty.push (h.declaration t)) []) (.ok above) := by
    refine .of_le (n + 1) fun fuel enough => ?_
    obtain ⟨fuel, rfl⟩ := Nat.exists_eq_add_of_le enough
    obtain ⟨stack, holds, steps⟩ :=
      run (fuel + 1) (Stack.empty.push (h.declaration t)) [] [] (Stack.toList_push _ _)
    rw [show n + 1 + fuel = n + (fuel + 1) by omega, steps, runAncestors,
      Stack.pop_of_toList_eq_nil holds, List.nil_append]
  have names : dropRepeats ((above.map Ty.name).mergeSort fun a b => decide (a ≤ b)) =
      h.ancestorNames t := by
    refine (pairwise_sorted _).eq_of_mem_iff (h.ancestorNames_sorted t) fun n => ?_
    rw [mem_dropRepeats, List.mem_mergeSort, mem_ancestorNames, List.mem_map]
    refine exists_congr fun y => and_congr_left fun _ => ?_
    rw [all, sound.mem_ancestors_iff whole]
    simp only [List.mem_singleton, exists_eq_left]
  rw [← names]
  exact emptied.andThen (.ok _)

end Hierarchy

end NominalGenerics
