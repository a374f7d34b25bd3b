import NominalGenerics.Hierarchy.Basic

/-!
# Formed types

A formed type uses only declarations that exist, each with no argument list, an empty one, or as
many arguments as it has parameters. Which type parameters it may mention is left open: closed
types mention none, a written type mentions those in scope, and what substitution makes may mention
whatever the substituted slots mention. The bounds of a mentioned parameter do not count.

A built type may use its declarations with any number of arguments. Both are free of slots whose
bounds were replaced, so that a slot that holds a type parameter is one (`Slot.Straight`).
-/

namespace NominalGenerics

/-- How many type parameters a declaration has, for those that exist. -/
abbrev Arity := DeclId → Option Nat

/-- Which type parameters may be mentioned, as nodes. -/
abbrev ParamSet := Site → String → List Ty → Prop

mutual

/-- A type that respects the arity of every declaration it uses. -/
def Ty.Formed (A : Arity) (P : ParamSet) : Ty → Prop
  | .decl d => A d = some 0
  | .bare _ d => ∃ k, A d = some (k + 1)
  | .app _ d args => (∃ k, A d = some k ∧ (args = [] ∨ args.length = k)) ∧ Slot.FormedAll A P args
  | .param s n bs => P s n bs
  | .array _ e => e.Formed A P

/-- An argument as written: unresolved, and a parameter slot where it is a type parameter. -/
def Slot.Formed (A : Arity) (P : ParamSet) : Slot → Prop
  | .exact m t => m.resolved = false ∧ t.isParam = false ∧ t.Formed A P
  | .rebound _ _ _ _ => False
  | .param m l s n bs => m.resolved = false ∧ l = none ∧ P s n bs
  | .wildcard m none us => m.resolved = false ∧ Ty.FormedAll A P us
  | .wildcard m (some l) us => m.resolved = false ∧ l.Formed A P ∧ Ty.FormedAll A P us

def Ty.FormedAll (A : Arity) (P : ParamSet) : List Ty → Prop
  | [] => True
  | t :: ts => t.Formed A P ∧ Ty.FormedAll A P ts

def Slot.FormedAll (A : Arity) (P : ParamSet) : List Slot → Prop
  | [] => True
  | s :: ss => s.Formed A P ∧ Slot.FormedAll A P ss

end

def ParamSet.none : ParamSet := fun _ _ _ => False

def ParamSet.of (params : List Slot) : ParamSet := fun s n bs => Slot.parameter s n bs ∈ params

theorem Slot.formedAll_iff {A : Arity} {P : ParamSet} {ss : List Slot} :
    Slot.FormedAll A P ss ↔ ∀ s ∈ ss, s.Formed A P := by
  induction ss with
  | nil => simp [Slot.FormedAll]
  | cons s ss ih => simp [Slot.FormedAll, ih]

/-! ## More declarations, more parameters -/

section Mono

variable {A B : Arity} {P Q : ParamSet}

mutual

/-- A type stays formed when declarations are added and more parameters may be mentioned. -/
theorem Ty.Formed.mono (more : ∀ d k, A d = some k → B d = some k)
    (wider : ∀ s n bs, P s n bs → Q s n bs) : ∀ {t : Ty}, t.Formed A P → t.Formed B Q
  | .decl _, formed => more _ _ formed
  | .bare _ _, ⟨k, known⟩ => ⟨k, more _ _ known⟩
  | .app _ _ _, ⟨⟨k, known, fits⟩, formed⟩ =>
    ⟨⟨k, more _ _ known, fits⟩, Slot.FormedAll.mono more wider formed⟩
  | .param _ _ _, formed => wider _ _ _ formed
  | .array _ e, formed => Ty.Formed.mono (t := e) more wider formed

theorem Slot.Formed.mono (more : ∀ d k, A d = some k → B d = some k)
    (wider : ∀ s n bs, P s n bs → Q s n bs) : ∀ {s : Slot}, s.Formed A P → s.Formed B Q
  | .exact _ _, ⟨fresh, noParam, formed⟩ => ⟨fresh, noParam, formed.mono more wider⟩
  | .param _ _ _ _ _, ⟨fresh, noLower, formed⟩ => ⟨fresh, noLower, wider _ _ _ formed⟩
  | .wildcard _ none _, ⟨fresh, uppers⟩ => ⟨fresh, Ty.FormedAll.mono more wider uppers⟩
  | .wildcard _ (some _) _, ⟨fresh, lower, uppers⟩ =>
    ⟨fresh, lower.mono more wider, Ty.FormedAll.mono more wider uppers⟩

theorem Ty.FormedAll.mono (more : ∀ d k, A d = some k → B d = some k)
    (wider : ∀ s n bs, P s n bs → Q s n bs) : ∀ {ts : List Ty}, Ty.FormedAll A P ts →
      Ty.FormedAll B Q ts
  | [], _ => trivial
  | _ :: _, ⟨first, rest⟩ => ⟨first.mono more wider, Ty.FormedAll.mono more wider rest⟩

theorem Slot.FormedAll.mono (more : ∀ d k, A d = some k → B d = some k)
    (wider : ∀ s n bs, P s n bs → Q s n bs) : ∀ {ss : List Slot}, Slot.FormedAll A P ss →
      Slot.FormedAll B Q ss
  | [], _ => trivial
  | _ :: _, ⟨first, rest⟩ => ⟨first.mono more wider, Slot.FormedAll.mono more wider rest⟩

end

end Mono

theorem Ty.head_of_class {t : Ty} (isClass : t.kind = .cls) : ∃ d, t.head? = some d := by
  cases t with
  | decl d => exact ⟨d, rfl⟩
  | bare s d => exact ⟨d, rfl⟩
  | app s d args => exact ⟨d, rfl⟩
  | param => cases isClass
  | array => cases isClass

/-- A class type names its declaration, which exists. -/
theorem Ty.Formed.head {A : Arity} {P : ParamSet} {t : Ty} {d : DeclId} (formed : t.Formed A P)
    (head : t.head? = some d) : ∃ k, A d = some k := by
  cases t with
  | decl e =>
    cases head
    exact ⟨0, formed⟩
  | bare s e =>
    cases head
    obtain ⟨k, known⟩ := formed
    exact ⟨k + 1, known⟩
  | app s e args =>
    cases head
    obtain ⟨⟨k, known, _⟩, _⟩ := formed
    exact ⟨k, known⟩
  | param s n bs => cases head
  | array s e => cases head

theorem Ty.Formed.not_isParam {A : Arity} {t : Ty} (closed : t.Formed A .none) :
    t.isParam = false := by
  cases t with
  | param => exact closed.elim
  | decl | bare | app | array => rfl

theorem Slot.ofTy_of_not_isParam (site : Site) {t : Ty} (plain : t.isParam = false) :
    Slot.ofTy site t = .exact ⟨site, false⟩ t := by
  cases t with
  | param => cases plain
  | decl | bare | app | array => rfl

/-- A type parameter as an argument is a parameter slot, anything else a slot for one type. -/
theorem Slot.formed_ofTy {A : Arity} {P : ParamSet} {t : Ty} (site : Site)
    (formed : t.Formed A P) : (Slot.ofTy site t).Formed A P := by
  cases t with
  | param s n bs => exact ⟨rfl, rfl, formed⟩
  | decl d => exact ⟨rfl, rfl, formed⟩
  | bare s d => exact ⟨rfl, rfl, formed⟩
  | app s d args => exact ⟨rfl, rfl, formed⟩
  | array s e => exact ⟨rfl, rfl, formed⟩

/-! ## Types as constructors build them -/

mutual

/-- A type put together from uses, type parameters and arrays. -/
inductive Ty.Built : Ty → Prop
  | decl (d : DeclId) : Ty.Built (.decl d)
  | bare (s : Site) (d : DeclId) : Ty.Built (.bare s d)
  | app (s : Site) (d : DeclId) {args : List Slot} (each : ∀ a ∈ args, a.Built) :
      Ty.Built (.app s d args)
  | param (s : Site) (n : String) (bounds : List Ty) : Ty.Built (.param s n bounds)
  | array (s : Site) {e : Ty} (elem : e.Built) : Ty.Built (.array s e)

/-- A slot as the constructors of slots give it, before its bounds are replaced. -/
inductive Slot.Built : Slot → Prop
  | ofTy (site : Site) {t : Ty} (type : t.Built) : Slot.Built (.ofTy site t)
  | parameter (site : Site) (n : String) (bounds : List Ty) :
      Slot.Built (.parameter site n bounds)
  | anything (site : Site) : Slot.Built (.anything site)
  | extending (site : Site) {upper : List Ty} (each : ∀ u ∈ upper, u.Built) :
      Slot.Built (.extending site upper)
  | above (site : Site) {lower : Option Ty} (each : ∀ l ∈ lower, l.Built) :
      Slot.Built (.above site lower)

end

/-- A slot that is a type parameter where it holds one. -/
def Slot.Straight (s : Slot) : Prop := s.isWildcard = false → s.ty.isParam = s.isParam

theorem Slot.straight_ofTy (site : Site) (t : Ty) : (Slot.ofTy site t).Straight := by
  cases t <;> exact fun _ => rfl

theorem Slot.Built.straight {s : Slot} (built : s.Built) : s.Straight := by
  cases built with
  | ofTy site => exact Slot.straight_ofTy site _
  | parameter => exact fun _ => rfl
  | anything | extending | above =>
    intro single
    cases single

theorem Slot.Formed.straight {A : Arity} {P : ParamSet} {s : Slot} (formed : s.Formed A P) :
    s.Straight := by
  cases s with
  | exact m t => exact fun _ => formed.2.1
  | rebound => exact formed.elim
  | param => exact fun _ => rfl
  | wildcard =>
    intro single
    cases single

end NominalGenerics
