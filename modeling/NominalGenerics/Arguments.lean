import NominalGenerics.Substitution

/-!
# Supplied arguments

`arguments t` maps the type parameters of the declaration of `t` to the arguments `t` supplies, then
does the same inside those arguments: `Map<String, List<Integer>>` gives `K`, `V` and the `E` of the
list. The first binding of a name wins, so the outermost type has precedence.
-/

namespace NominalGenerics.Hierarchy

/-- Bind the declared parameters that are not bound yet, and say which ones those were. -/
def bindNew : List Slot → List Slot → Spec → Spec × List Bool
  | p :: ps, s :: ss, bound =>
    if p.isParam && !bound.contains p.name then
      let (bound, news) := bindNew ps ss (bound.insert p.name s)
      (bound, true :: news)
    else
      let (bound, news) := bindNew ps ss bound
      (bound, false :: news)
  | _, _, bound => (bound, [])

mutual

def addArguments (h : Hierarchy) : Ty → Spec → Except Failure Spec
  | .array _ e, bound => h.addArguments e bound
  | .app s d args, bound =>
    if args.isEmpty then .ok bound
    else if (h.params d).length = args.length then
      let (bound, news) := bindNew (h.params d) args bound
      h.addNewArguments args news bound
    else
      .error (.violation ⟨.uncheckedArgumentCount d.name (h.params d).length args.length,
        h.declaration (.app s d args), .app s d args⟩)
  | .decl _, bound | .bare _ _, bound | .param _ _ _, bound => .ok bound
termination_by structural t => t

/-- Add the arguments supplied inside an argument. A lower bound hides the upper ones. -/
def addSlotArguments (h : Hierarchy) : Slot → Spec → Except Failure Spec
  | .exact _ t, bound => h.addArguments t bound
  | .rebound _ _ _ (u :: _), bound => h.addArguments u bound
  | .wildcard _ (some l) _, bound => h.addArguments l bound
  | .wildcard _ none us, bound => h.addTypesArguments us bound
  | .rebound _ _ _ [], bound | .param _ _ _ _ _, bound => .ok bound
termination_by structural s => s

def addTypesArguments (h : Hierarchy) : List Ty → Spec → Except Failure Spec
  | [], bound => .ok bound
  | t :: ts, bound => do
    let bound ← h.addArguments t bound
    h.addTypesArguments ts bound
termination_by structural ts => ts

/-- Add the arguments supplied inside the slots that were newly bound. -/
def addNewArguments (h : Hierarchy) : List Slot → List Bool → Spec → Except Failure Spec
  | s :: ss, new :: news, bound => do
    let bound ← if new then h.addSlotArguments s bound else .ok bound
    h.addNewArguments ss news bound
  | _, _, bound => .ok bound
termination_by structural ss => ss

end

/-- The arguments supplied anywhere in `t`, by the name of the parameter they are supplied for. -/
def arguments (h : Hierarchy) (t : Ty) : Except Failure Spec := h.addArguments t .empty

end NominalGenerics.Hierarchy
