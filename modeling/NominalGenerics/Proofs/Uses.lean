import NominalGenerics.Proofs.Outline
import NominalGenerics.Proofs.Whole

/-!
# What a type uses

The class types that occur in a type at any depth, in arguments, bounds and array elements, and in
the bounds of the type parameters it mentions. A whole type uses only known declarations, each with
a fitting argument list (`Ty.Formed.uses`), and what a type uses is all its outline depends on
(`Ty.outline_congr`).
-/

namespace NominalGenerics

mutual

/-- The class types in a type. -/
def Ty.uses : Ty → List Ty
  | .decl d => [.decl d]
  | .bare s d => [.bare s d]
  | .app s d args => .app s d args :: Slot.usesAll args
  | .param _ _ bs => Ty.usesAll bs
  | .array _ e => e.uses

def Slot.uses : Slot → List Ty
  | .exact _ t => t.uses
  | .rebound _ _ none us | .param _ none _ _ us | .wildcard _ none us => Ty.usesAll us
  | .rebound _ _ (some l) us | .param _ (some l) _ _ us | .wildcard _ (some l) us =>
    l.uses ++ Ty.usesAll us

def Ty.usesAll : List Ty → List Ty
  | [] => []
  | t :: ts => t.uses ++ Ty.usesAll ts

def Slot.usesAll : List Slot → List Ty
  | [] => []
  | s :: ss => s.uses ++ Slot.usesAll ss

end

def Decl.uses (c : Decl) : List Ty :=
  Slot.usesAll c.params ++ Ty.usesAll c.super.toList ++ Ty.usesAll c.interfaces
    ++ Ty.usesAll c.standsFor.toList

def Signature.uses (m : Signature) : List Ty :=
  Ty.usesAll m.owner.toList ++ Slot.usesAll m.typeParams
    ++ Ty.usesAll (m.params.flatMap Option.toList) ++ Ty.usesAll m.returns.toList

theorem Ty.mem_usesAll {u : Ty} {ts : List Ty} : u ∈ Ty.usesAll ts ↔ ∃ t ∈ ts, u ∈ t.uses := by
  induction ts with
  | nil => simp [Ty.usesAll]
  | cons t ts ih => simp [Ty.usesAll, ih]

theorem Slot.mem_usesAll {u : Ty} {ss : List Slot} :
    u ∈ Slot.usesAll ss ↔ ∃ s ∈ ss, u ∈ s.uses := by
  induction ss with
  | nil => simp [Slot.usesAll]
  | cons s ss ih => simp [Slot.usesAll, ih]

theorem Ty.mem_uses_of_head {t : Ty} {d : DeclId} (head : t.head? = some d) : t ∈ t.uses := by
  cases t <;> simp_all [Ty.uses, Ty.head?]

/-! ## Whole types use what is known -/

/-- A class type whose declaration is known, with no argument list, an empty one, or as many
arguments as the declaration has parameters. -/
def Ty.Fits (A : Arity) (u : Ty) : Prop :=
  ∃ d k, u.head? = some d ∧ A d = some k ∧
    ∀ s args, u = .app s d args → args = [] ∨ args.length = k

mutual

theorem Ty.Formed.uses {A : Arity} : ∀ {t : Ty}, t.Formed A (.whole A) → ∀ u ∈ t.uses, u.Fits A
  | .decl d, known, u, member => by
    rw [List.mem_singleton.mp member]
    exact ⟨d, 0, rfl, known, nofun⟩
  | .bare s d, ⟨k, known⟩, u, member => by
    rw [List.mem_singleton.mp member]
    exact ⟨d, k + 1, rfl, known, nofun⟩
  | .app s d args, ⟨⟨k, known, fits⟩, formed⟩, u, member => by
    rcases List.mem_cons.mp member with rfl | inside
    · refine ⟨d, k, rfl, known, ?_⟩
      rintro s' args' ⟨⟩
      exact fits
    · exact Slot.FormedAll.uses formed u inside
  | .param _ _ bs, whole, u, member => Ty.FormedAll.uses (ParamSet.whole_iff.mp whole) u member
  | .array _ e, whole, u, member => Ty.Formed.uses (t := e) whole u member

theorem Slot.Formed.uses {A : Arity} : ∀ {s : Slot}, s.Formed A (.whole A) → ∀ u ∈ s.uses, u.Fits A
  | .exact _ t, ⟨_, _, formed⟩, u, member => formed.uses u member
  | .param _ none _ _ bs, ⟨_, _, whole⟩, u, member =>
    Ty.FormedAll.uses (ParamSet.whole_iff.mp whole) u member
  | .wildcard _ none _, ⟨_, uppers⟩, u, member => Ty.FormedAll.uses uppers u member
  | .wildcard _ (some _) _, ⟨_, lower, uppers⟩, u, member => by
    rcases List.mem_append.mp member with inside | inside
    · exact lower.uses u inside
    · exact Ty.FormedAll.uses uppers u inside

theorem Ty.FormedAll.uses {A : Arity} : ∀ {ts : List Ty}, Ty.FormedAll A (.whole A) ts →
    ∀ u ∈ Ty.usesAll ts, u.Fits A
  | _ :: _, ⟨first, rest⟩, u, member => by
    rcases List.mem_append.mp member with inside | inside
    · exact first.uses u inside
    · exact Ty.FormedAll.uses rest u inside

theorem Slot.FormedAll.uses {A : Arity} : ∀ {ss : List Slot}, Slot.FormedAll A (.whole A) ss →
    ∀ u ∈ Slot.usesAll ss, u.Fits A
  | _ :: _, ⟨first, rest⟩, u, member => by
    rcases List.mem_append.mp member with inside | inside
    · exact first.uses u inside
    · exact Slot.FormedAll.uses rest u inside

end

/-! ## Outlines -/

/-- Two maps of identities that agree on what is used. -/
def AgreeOn (ρ σ : DeclId → DeclId) (uses : List Ty) : Prop :=
  ∀ u ∈ uses, ∀ d, u.head? = some d → ρ d = σ d

section Outline

variable {ρ σ : DeclId → DeclId}

theorem AgreeOn.left {us vs : List Ty} (agree : AgreeOn ρ σ (us ++ vs)) : AgreeOn ρ σ us :=
  fun u member => agree u (List.mem_append_left _ member)

theorem AgreeOn.right {us vs : List Ty} (agree : AgreeOn ρ σ (us ++ vs)) : AgreeOn ρ σ vs :=
  fun u member => agree u (List.mem_append_right _ member)

mutual

theorem Ty.outline_congr : ∀ {t : Ty}, AgreeOn ρ σ t.uses → t.outline ρ = t.outline σ
  | .decl d, agree => by
    simp only [Ty.outline, agree (.decl d) List.mem_cons_self d rfl]
  | .bare s d, agree => by
    simp only [Ty.outline, agree (.bare s d) List.mem_cons_self d rfl]
  | .app s d args, agree => by
    have inside : AgreeOn ρ σ (Slot.usesAll args) := fun u member =>
      agree u (List.mem_cons_of_mem _ member)
    simp only [Ty.outline, agree (.app s d args) List.mem_cons_self d rfl,
      Slot.outlines_congr inside]
  | .param _ _ bs, agree => by
    have inside : AgreeOn ρ σ (Ty.usesAll bs) := agree
    simp only [Ty.outline, Ty.outlines_congr inside]
  | .array _ e, agree => by simp only [Ty.outline, Ty.outline_congr (t := e) agree]

theorem Slot.outline_congr : ∀ {s : Slot}, AgreeOn ρ σ s.uses → s.outline ρ = s.outline σ
  | .exact _ t, agree => by simp only [Slot.outline, Ty.outline_congr (t := t) agree]
  | .rebound _ _ none us, agree | .param _ none _ _ us, agree | .wildcard _ none us, agree => by
    have inside : AgreeOn ρ σ (Ty.usesAll us) := agree
    simp only [Slot.outline, Ty.outlines_congr inside]
  | .rebound _ _ (some l) us, agree | .param _ (some l) _ _ us, agree
  | .wildcard _ (some l) us, agree => by
    have uppers : AgreeOn ρ σ (Ty.usesAll us) := AgreeOn.right agree
    simp only [Slot.outline, Ty.outline_congr (t := l) (AgreeOn.left agree),
      Ty.outlines_congr uppers]

theorem Ty.outlines_congr : ∀ {ts : List Ty}, AgreeOn ρ σ (Ty.usesAll ts) →
    Ty.outlines ρ ts = Ty.outlines σ ts
  | [], _ => rfl
  | t :: ts, agree => by
    have rest : AgreeOn ρ σ (Ty.usesAll ts) := AgreeOn.right agree
    simp only [Ty.outlines, Ty.outline_congr (t := t) (AgreeOn.left agree),
      Ty.outlines_congr rest]

theorem Slot.outlines_congr : ∀ {ss : List Slot}, AgreeOn ρ σ (Slot.usesAll ss) →
    Slot.outlines ρ ss = Slot.outlines σ ss
  | [], _ => rfl
  | s :: ss, agree => by
    have rest : AgreeOn ρ σ (Slot.usesAll ss) := AgreeOn.right agree
    simp only [Slot.outlines, Slot.outline_congr (s := s) (AgreeOn.left agree),
      Slot.outlines_congr rest]

end

end Outline

end NominalGenerics
