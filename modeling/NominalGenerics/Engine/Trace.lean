import NominalGenerics.Signature
import NominalGenerics.Spec

/-!
# Failures and traces

Incompatible types are an ordinary answer. A failure says that an operation was asked about types
that earlier checking should have ruled out, or that it was stopped. Operations also leave a trace
of events, which survives a failure.
-/

namespace NominalGenerics

inductive Cause where
  /-- A use supplies the wrong number of arguments. -/
  | argumentCount (name : String) (declared supplied : Nat)
  /-- A use with the wrong number of arguments reached argument extraction. -/
  | uncheckedArgumentCount (name : String) (declared supplied : Nat)
  | notAnArray (name : String)
  | unrelated (name target : String)
  /-- There is nothing above a type that is not the root. -/
  | noSuperclass (name : String)
  /-- The receiver has no such method. -/
  | notAMember (receiver method : String)
deriving DecidableEq, Repr

namespace Cause

def message : Cause → String
  | .argumentCount name declared supplied =>
    s!"{name} declares {declared} type parameters but {supplied} were supplied"
  | .uncheckedArgumentCount name declared supplied =>
    "expected earlier checking to detect generics arity mismatch: "
      ++ s!"{name} declares {declared} parameters, {supplied} supplied"
  | .notAnArray name => s!"{name} is not an array"
  | .unrelated name target => s!"{name} does not extend or implement {target}"
  | .noSuperclass name => s!"expected a superclass for {name}"
  | .notAMember receiver method => s!"{receiver} does not declare or inherit {method}"

def isArity : Cause → Bool
  | .argumentCount _ _ _ | .uncheckedArgumentCount _ _ _ => true
  | _ => false

/-- The class of a cause, in words. -/
def kind (c : Cause) : String := if c.isArity then "arity mismatch" else "no hierarchy path"

/-- The class of a cause, as a number. -/
def code (c : Cause) : Nat := if c.isArity then 1 else 2

end Cause

/-- A cause with the two types involved. -/
structure Violation where
  cause : Cause
  first : Ty
  second : Ty

namespace Violation

def message (h : Hierarchy) (v : Violation) : String :=
  "generics invariant violated: " ++ v.cause.message
    ++ "\n\tfirst: " ++ h.renderBounded v.first ++ "\n\tsecond: " ++ h.renderBounded v.second

/-- The message behind its numbered class. -/
def coded (h : Hierarchy) (v : Violation) : String :=
  "(G00" ++ toString v.cause.code ++ ") " ++ v.message h

end Violation

inductive Failure where
  | violation (v : Violation)
  /-- A missing type was asked about. -/
  | missingType
  /-- The operation used up its steps. -/
  | exhausted

inductive Event where
  | cacheHit (decl : DeclId) (receiver : Ty)
  | ascended (hint next : Ty) (target : String)
  | resolved (method : String) (receiver : Option Ty) (spec : Spec)
  | invalidated
  | violated (cause : Cause)

namespace Event

def render (h : Hierarchy) : Event → String
  | .cacheHit d receiver =>
    "locator: cache hit declaration=" ++ d.name ++ " receiver=" ++ h.render receiver
  | .ascended hint next target =>
    "parameterize: next supertype hint=" ++ h.render hint ++ " next=" ++ h.render next
      ++ " target=" ++ target
  | .resolved method receiver spec =>
    s!"resolved method method={method} receiver="
      ++ h.renderOption receiver
      ++ " spec=" ++ spec.render h
  | .invalidated => "locator cache invalidated"
  | .violated cause => "invariant violated code=" ++ cause.kind ++ " message=" ++ cause.message

end Event

/-- A computation that may fail and leaves events either way. -/
structure Traced (α : Type) where
  events : List Event
  result : Except Failure α

namespace Traced

variable {α β : Type}

def pure (a : α) : Traced α := ⟨[], .ok a⟩

def bind (x : Traced α) (f : α → Traced β) : Traced β :=
  match x.result with
  | .ok a =>
    let y := f a
    ⟨x.events ++ y.events, y.result⟩
  | .error e => ⟨x.events, .error e⟩

instance : Monad Traced where
  pure := pure
  bind := bind

/-- A computation without events. -/
def lift (x : Except Failure α) : Traced α := ⟨[], x⟩

instance : MonadLift (Except Failure) Traced := ⟨lift⟩

def fail (e : Failure) : Traced α := ⟨[], .error e⟩

def emit (e : Event) : Traced Unit := ⟨[e], .ok ()⟩

/-- A violation leaves an event behind. -/
def reported (x : Traced α) : Traced α :=
  match x.result with
  | .error (.violation v) => ⟨x.events ++ [.violated v.cause], x.result⟩
  | _ => x

@[simp]
theorem result_pure (a : α) : (Pure.pure a : Traced α).result = .ok a := rfl

@[simp]
theorem result_bind (x : Traced α) (f : α → Traced β) :
    (x >>= f).result = x.result.bind fun a => (f a).result := by
  show (bind x f).result = _
  unfold bind
  cases x.result <;> rfl

@[simp]
theorem result_lift (x : Except Failure α) : (lift x).result = x := rfl

@[simp]
theorem result_reported (x : Traced α) : x.reported.result = x.result := by
  unfold reported
  split <;> simp_all

end Traced

end NominalGenerics
