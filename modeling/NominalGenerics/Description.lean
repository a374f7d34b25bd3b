import NominalGenerics.ClassModel.Load
import NominalGenerics.Engine.Operand

/-!
# Descriptions

The description of a type is its declaration, then every ancestor as the type instantiates it and,
if asked for, every method visible on it with its signature as seen from the type. What was written
before a failure is kept.
-/

namespace NominalGenerics

inductive DescriptionError where
  /-- An ancestor is not known. -/
  | panicked (panic : Panic)
  | failed (failure : Failure)

/-- Lines written so far, with the failure that ended them, the events on the way and the engine as
it was left. -/
structure Listing where
  lines : List String
  error : Option DescriptionError
  events : List Event
  engine : Engine

namespace Listing

/-- Go on after a listing unless it failed. -/
def followedBy (first : Listing) (next : Engine → Listing) : Listing :=
  match first.error with
  | some _ => first
  | none =>
    let second := next first.engine
    ⟨first.lines ++ second.lines, second.error, first.events ++ second.events, second.engine⟩

def ofAnswer {α : Type} (answer : Traced α × Engine) (line : α → String) : Listing :=
  match answer.1.result with
  | .ok a => ⟨[line a], none, answer.1.events, answer.2⟩
  | .error f => ⟨[], some (.failed f), answer.1.events, answer.2⟩

def text (l : Listing) : String := String.join (l.lines.map (· ++ "\n"))

end Listing

namespace Library

/-- The line of one ancestor: its instantiation where there is one, else its declaration. -/
def ancestorLine (l : Library) (t : Ty) (name : String) (e : Engine) : Listing :=
  match l.mustLookup name with
  | .error panic => ⟨[], some (.panicked panic), [], e⟩
  | .ok d =>
    .ofAnswer (e.find l.hierarchy (.decl d) t) fun found =>
      "  " ++ l.hierarchy.render (found.getD (.decl d))

def ancestorLines (l : Library) (t : Ty) : List String → Engine → Listing
  | [], e => ⟨[], none, [], e⟩
  | name :: names, e => (l.ancestorLine t name e).followedBy (l.ancestorLines t names)

def methodLines (l : Library) (t : Ty) : List Signature → Engine → Listing
  | [], e => ⟨[], none, [], e⟩
  | m :: ms, e =>
    Listing.followedBy
      (.ofAnswer (e.resolveOption l.hierarchy (some t) m) fun r => "  " ++ r.render l.hierarchy)
      (l.methodLines t ms)

/-- Describe `t`, with the methods visible on it if asked for. -/
def describe (l : Library) (e : Engine) (t : Ty) (methods : Bool) : Listing :=
  let h := l.hierarchy
  let head : Listing := ⟨[h.describe t], none, [], e⟩
  let listed := head.followedBy (l.ancestorLines t (h.ancestorNames t))
  if methods then
    listed.followedBy (l.methodLines t ((Registry.owners h t).flatMap l.registry.methodsOf))
  else listed

end Library

end NominalGenerics
