import NominalGenerics.Locator

/-!
# Walks over what a queue holds

The breadth-first walks take types from a queue and add others to it. All they see of the queue is
what it holds, oldest first, so they go the way that the same walks over a list go
(`reachDeclarations_eq`, `locate_eq`).
-/

namespace NominalGenerics.Hierarchy

/-- The nodes reached from the types of a list, breadth first and each once; `found` holds those met so far,
latest first. -/
def reach (next : Ty → List Ty) : Nat → List Ty → List Ty → List Ty
  | 0, _, found | _, [], found => found.reverse
  | fuel + 1, t :: queue, found =>
    if t ∈ found then reach next fuel queue found
    else reach next fuel (queue ++ next t) (t :: found)

theorem reachQueue_eq (next : Ty → List Ty) (fuel : Nat) (queue : Queue Ty) (found : List Ty) :
    reachQueue next fuel queue found = reach next fuel queue.toList found := by
  induction fuel generalizing queue found with
  | zero => simp [reachQueue, reach]
  | succ fuel ih =>
    unfold reachQueue
    cases holds : queue.toList with
    | nil =>
      rw [Queue.pop_of_toList_eq_nil holds]
      rfl
    | cons t rest =>
      obtain ⟨queue', popped, rfl⟩ := Queue.pop_of_toList_eq_cons holds
      rw [popped]
      simp only [reach, ih, Queue.toList_push]

theorem reachDeclarations_eq (h : Hierarchy) (next : Ty → List Ty) (start : List Ty) :
    h.reachDeclarations next start = reach (fun d => (next d).map h.declaration)
      (h.budget (Ty.weights start)) (start.map h.declaration) [] := by
  rw [reachDeclarations, reachQueue_eq, Queue.toList_ofList]

/-- Search a list of types for a use of `d`, in at most `fuel` steps. A use without arguments ends
the search empty-handed. -/
def locateFrom (h : Hierarchy) (d : DeclId) : Nat → List Ty → List DeclId →
    Except Failure (Option Ty)
  | 0, _, _ => .error .exhausted
  | _ + 1, [], _ => .ok none
  | fuel + 1, t :: queue, visited =>
    match t.head? with
    | none => h.locateFrom d fuel (queue ++ t.bounds) visited
    | some e =>
      if e ∈ visited then h.locateFrom d fuel queue visited
      else if e = d ∧ t.isUse then
        let supplied := (h.args t).length
        let declared := (h.params d).length
        if supplied = 0 then .ok none
        else if supplied = declared then .ok (some t)
        else .error (.violation ⟨.argumentCount d.name declared supplied, .decl d, t⟩)
      else do
        let supers ← h.instantiateAll t
        h.locateFrom d fuel (queue ++ supers) (e :: visited)

theorem locateQueue_eq (h : Hierarchy) (d : DeclId) (fuel : Nat) (queue : Queue Ty)
    (visited : List DeclId) :
    h.locateQueue d fuel queue visited = h.locateFrom d fuel queue.toList visited := by
  induction fuel generalizing queue visited with
  | zero => rfl
  | succ fuel ih =>
    unfold locateQueue
    cases holds : queue.toList with
    | nil =>
      rw [Queue.pop_of_toList_eq_nil holds]
      rfl
    | cons t rest =>
      obtain ⟨queue', popped, rfl⟩ := Queue.pop_of_toList_eq_cons holds
      rw [popped]
      cases head : t.head? <;> simp only [locateFrom, head, ih, Queue.toList_push]

theorem locate_eq (h : Hierarchy) (d : DeclId) (receiver : Ty) :
    h.locate d receiver = h.locateFrom d (h.budget receiver.weight) [receiver] [] := by
  rw [locate, locateQueue_eq, Queue.toList_ofList]

end NominalGenerics.Hierarchy
