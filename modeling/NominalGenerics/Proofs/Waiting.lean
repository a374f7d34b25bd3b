import NominalGenerics.Collections.Queue

/-!
# What waits in a queue

Values are put into a queue and taken from it in any order. What was taken is what was put in first,
and the rest waits: taking once more gives the oldest value that waits (`oldest_first`). The view is
`toList`, which each operation changes as it changes a plain list (`toList_push`, `toList_pop`). The
storage is reused only when nothing waits, and is empty then (`Drained`).
-/

namespace NominalGenerics.Queue

variable {α : Type}

inductive Op (α : Type) where
  | push (values : List α)
  | pop

def Op.values : Op α → List α
  | .push values => values
  | .pop => []

def step (q : Queue α) : Op α → Queue α
  | .push values => q.push values
  | .pop => q.pop.2

def after (q : Queue α) (ops : List (Op α)) : Queue α := ops.foldl step q

def taken (q : Queue α) : List (Op α) → List α
  | [] => []
  | .push values :: ops => (q.push values).taken ops
  | .pop :: ops => q.pop.1.toList ++ q.pop.2.taken ops

/-- Nothing is lost or made up, and nothing overtakes: what a queue held and was given is what was
taken from it, then what it holds. -/
theorem taken_append_toList (q : Queue α) (ops : List (Op α)) :
    q.taken ops ++ (q.after ops).toList = q.toList ++ ops.flatMap Op.values := by
  induction ops generalizing q with
  | nil => simp [taken, after]
  | cons op ops ih =>
    cases op with
    | push values =>
      calc (q.push values).taken ops ++ ((q.push values).after ops).toList
          = (q.push values).toList ++ ops.flatMap Op.values := ih _
        _ = q.toList ++ (values ++ ops.flatMap Op.values) := by
          rw [toList_push, List.append_assoc]
    | pop =>
      have first : q.toList.head?.toList ++ q.toList.tail = q.toList := by
        cases q.toList <;> rfl
      calc q.pop.1.toList ++ q.pop.2.taken ops ++ (q.pop.2.after ops).toList
          = q.pop.1.toList ++ (q.pop.2.toList ++ ops.flatMap Op.values) := by
            rw [List.append_assoc, ih]
        _ = q.toList ++ ops.flatMap Op.values := by
          rw [pop_fst, toList_pop, ← List.append_assoc, first]

/-! ## The storage -/

/-- A queue in which nothing waits has given its storage up. -/
def Drained (q : Queue α) : Prop := q.toList = [] → q.items = #[] ∧ q.head = 0

theorem drained_empty : (empty : Queue α).Drained := fun _ => ⟨rfl, rfl⟩

theorem Drained.push {q : Queue α} (drained : q.Drained) (values : List α) :
    (q.push values).Drained := by
  intro nothing
  rw [toList_push, List.append_eq_nil_iff] at nothing
  obtain ⟨items, head⟩ := drained nothing.1
  simp [Queue.push, items, head, nothing.2]

theorem Drained.pop {q : Queue α} (drained : q.Drained) : q.pop.2.Drained := by
  unfold Queue.pop
  split
  · split
    · exact drained_empty
    -- a value is left behind the new head, so the queue is not empty
    · rename_i more notLast
      intro nothing
      have size : q.items.size ≤ q.head + 1 := by simpa [toList] using nothing
      omega
  · exact drained

theorem Drained.step {q : Queue α} (drained : q.Drained) (op : Op α) : (q.step op).Drained := by
  cases op with
  | push values => exact drained.push values
  | pop => exact drained.pop

theorem Drained.after {q : Queue α} (drained : q.Drained) (ops : List (Op α)) :
    (q.after ops).Drained := by
  induction ops generalizing q with
  | nil => exact drained
  | cons op ops ih => exact ih (drained.step op)

/-- A queue is first in, first out. Whatever was done with it, what was taken out is what was put in
first. What waits is the rest, and is stored from the head on: taking once more gives the oldest of
it, and nothing exactly when there is none, and the size counts it. The head stays within the
storage, which starts again from nothing when the last value is taken. -/
theorem oldest_first (initial : List α) (ops : List (Op α)) :
    let q := (ofList initial).after ops
    let given := initial ++ ops.flatMap Op.values
    let out := (ofList initial).taken ops
    let waiting := given.drop out.length
    out = given.take out.length ∧
    q.items.toList.drop q.head = waiting ∧
    q.pop.1 = waiting.head? ∧
    (q.pop.1 = none ↔ waiting = []) ∧
    q.size = waiting.length ∧
    q.head ≤ q.items.size ∧
    (waiting = [] → q.items = #[] ∧ q.head = 0) := by
  intro q given out waiting
  have kept : out ++ q.toList = given := by
    simpa [toList_ofList] using taken_append_toList (ofList initial) ops
  have held : q.toList = waiting := by
    simp [waiting, ← kept]
  have drained : q.Drained := (drained_empty.push initial).after ops
  rw [pop_fst, held]
  refine ⟨by simp [← kept], held, rfl, List.head?_eq_none_iff, ?_, q.head_le, ?_⟩
  · rw [← length_toList, held]
  · rw [← held]
    exact drained

/-- A queue that was drained and asked in vain can be used again. -/
example : ((ofList [1, 2]).after [.push [3], .pop, .pop, .pop, .pop, .push [4]]).pop.1 =
    some 4 := by
  decide

end NominalGenerics.Queue
