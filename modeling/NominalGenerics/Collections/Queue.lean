/-!
# Queues

First in, first out, over an array: values are taken at a moving head, and the storage is given up
once the last value has been taken. `toList` lists a queue from its oldest value.
-/

namespace NominalGenerics

structure Queue (α : Type) where
  items : Array α
  head : Nat
  head_le : head ≤ items.size

namespace Queue

variable {α : Type}

def empty : Queue α := ⟨#[], 0, Nat.le_refl 0⟩

def size (q : Queue α) : Nat := q.items.size - q.head

/-- Add values at the end, in order. -/
def push (q : Queue α) (values : List α) : Queue α :=
  ⟨q.items ++ values.toArray, q.head, by simp; have := q.head_le; omega⟩

def ofList (values : List α) : Queue α := empty.push values

def pop (q : Queue α) : Option α × Queue α :=
  if h : q.head < q.items.size then
    (some q.items[q.head],
      if q.head + 1 = q.items.size then empty else ⟨q.items, q.head + 1, h⟩)
  else (none, q)

/-- The values of a queue, the oldest one first. -/
def toList (q : Queue α) : List α := q.items.toList.drop q.head

@[simp]
theorem length_toList (q : Queue α) : q.toList.length = q.size := by
  simp [toList, size]

@[simp]
theorem toList_push (q : Queue α) (values : List α) :
    (q.push values).toList = q.toList ++ values := by
  have := q.head_le
  simp [push, toList, List.drop_append_of_le_length, this]

@[simp]
theorem toList_ofList (values : List α) : (ofList values).toList = values := by
  rw [ofList, toList_push]
  rfl

/-- Taking from a queue answers its oldest value. -/
theorem pop_fst (q : Queue α) : q.pop.1 = q.toList.head? := by
  unfold pop toList
  split
  · rename_i more
    simp [List.head?_drop, more]
  · rename_i done
    have out : q.items.toList.length ≤ q.head := by simpa using done
    rw [List.drop_eq_nil_of_le out, List.head?_nil]

@[simp]
theorem toList_pop (q : Queue α) : q.pop.2.toList = q.toList.tail := by
  unfold pop
  split
  · split
    · rename_i last
      have out : q.items.toList.length ≤ q.head + 1 := by simp [last]
      rw [toList, toList, List.tail_drop, List.drop_eq_nil_of_le out]
      rfl
    · rw [toList, toList, List.tail_drop]
  · rename_i done
    have out : q.items.toList.length ≤ q.head := by simpa using done
    rw [toList, List.drop_eq_nil_of_le out, List.tail_nil]

theorem pop_of_toList_eq_nil {q : Queue α} (holds : q.toList = []) : q.pop = (none, q.pop.2) := by
  rw [← List.head?_nil, ← holds, ← pop_fst]

theorem pop_of_toList_eq_cons {q : Queue α} {a : α} {rest : List α} (holds : q.toList = a :: rest) :
    ∃ q' : Queue α, q.pop = (some a, q') ∧ q'.toList = rest := by
  refine ⟨q.pop.2, ?_, ?_⟩
  · rw [← List.head?_cons (a := a) (l := rest), ← holds, ← pop_fst]
  · rw [toList_pop, holds, List.tail_cons]

end Queue

end NominalGenerics
