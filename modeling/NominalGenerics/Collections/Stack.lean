/-!
# Stacks

Last in, first out. `toList` lists a stack from the top.
-/

namespace NominalGenerics

structure Stack (α : Type) where
  items : Array α

namespace Stack

variable {α : Type}

def empty : Stack α := ⟨#[]⟩

def size (s : Stack α) : Nat := s.items.size

def push (s : Stack α) (a : α) : Stack α := ⟨s.items.push a⟩

def pop (s : Stack α) : Option α × Stack α := (s.items.back?, ⟨s.items.pop⟩)

/-- The values of a stack, the top one first. -/
def toList (s : Stack α) : List α := s.items.toList.reverse

@[simp]
theorem toList_push (s : Stack α) (a : α) : (s.push a).toList = a :: s.toList := by
  simp [push, toList]

theorem toList_foldl_push (s : Stack α) (values : List α) :
    (values.foldl push s).toList = values.reverse ++ s.toList := by
  induction values generalizing s with
  | nil => rfl
  | cons a values ih => simp [ih]

/-- Taking from a stack answers its top value. -/
theorem pop_fst (s : Stack α) : s.pop.1 = s.toList.head? := by
  simp [pop, toList]

@[simp]
theorem toList_pop (s : Stack α) : s.pop.2.toList = s.toList.tail := by
  simp [pop, toList]

theorem pop_of_toList_eq_nil {s : Stack α} (holds : s.toList = []) : s.pop = (none, s.pop.2) := by
  rw [← List.head?_nil, ← holds, ← pop_fst]

theorem pop_of_toList_eq_cons {s : Stack α} {a : α} {rest : List α} (holds : s.toList = a :: rest) :
    ∃ s' : Stack α, s.pop = (some a, s') ∧ s'.toList = rest := by
  refine ⟨s.pop.2, ?_, ?_⟩
  · rw [← List.head?_cons (a := a) (l := rest), ← holds, ← pop_fst]
  · rw [toList_pop, holds, List.tail_cons]

end Stack

end NominalGenerics
