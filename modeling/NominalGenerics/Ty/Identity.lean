import NominalGenerics.Ty.Basic

/-!
# Node identity

Two types are the same node when they agree in everything, sites included. The comparison is
executable and gives types and slots decidable equality (`Ty.same_iff`, `Slot.same_iff`).
-/

namespace NominalGenerics

mutual

/-- Whether two types are one node. -/
def Ty.same : Ty → Ty → Bool
  | .decl d, .decl e => d == e
  | .bare s d, .bare s' e => s == s' && d == e
  | .app s d args, .app s' e args' => s == s' && d == e && Slot.sameAll args args'
  | .param s n bs, .param s' m bs' => s == s' && n == m && Ty.sameAll bs bs'
  | .array s a, .array s' b => s == s' && a.same b
  | _, _ => false
termination_by structural a => a

def Slot.same : Slot → Slot → Bool
  | .exact k t, .exact k' t' => k == k' && t.same t'
  | .rebound k n l us, .rebound k' m l' us' =>
    k == k' && n == m && Ty.sameOption l l' && Ty.sameAll us us'
  | .param k l s n bs, .param k' l' s' m bs' =>
    k == k' && s == s' && n == m && Ty.sameOption l l' && Ty.sameAll bs bs'
  | .wildcard k l us, .wildcard k' l' us' =>
    k == k' && Ty.sameOption l l' && Ty.sameAll us us'
  | _, _ => false
termination_by structural a => a

def Ty.sameOption : Option Ty → Option Ty → Bool
  | none, none => true
  | some a, some b => a.same b
  | _, _ => false
termination_by structural a => a

def Ty.sameAll : List Ty → List Ty → Bool
  | [], [] => true
  | a :: as, b :: bs => a.same b && Ty.sameAll as bs
  | _, _ => false
termination_by structural a => a

def Slot.sameAll : List Slot → List Slot → Bool
  | [], [] => true
  | a :: as, b :: bs => a.same b && Slot.sameAll as bs
  | _, _ => false
termination_by structural a => a

end

mutual

theorem Ty.same_iff : ∀ a b : Ty, a.same b = true ↔ a = b
  | .decl _, b => by cases b <;> simp [Ty.same]
  | .bare _ _, b => by cases b <;> simp [Ty.same]
  | .app _ _ args, b => by cases b <;> simp [Ty.same, Slot.sameAll_iff args, and_assoc]
  | .param _ _ bounds, b => by cases b <;> simp [Ty.same, Ty.sameAll_iff bounds, and_assoc]
  | .array _ elem, b => by cases b <;> simp [Ty.same, Ty.same_iff elem]

theorem Slot.same_iff : ∀ a b : Slot, a.same b = true ↔ a = b
  | .exact _ t, b => by cases b <;> simp [Slot.same, Ty.same_iff t]
  | .rebound _ _ l us, b => by
    cases b <;> simp [Slot.same, Ty.sameOption_iff l, Ty.sameAll_iff us, and_assoc]
  | .param _ l _ _ bs, b => by
    cases b <;> simp [Slot.same, Ty.sameOption_iff l, Ty.sameAll_iff bs]
    grind
  | .wildcard _ l us, b => by
    cases b <;> simp [Slot.same, Ty.sameOption_iff l, Ty.sameAll_iff us, and_assoc]

theorem Ty.sameOption_iff : ∀ a b : Option Ty, Ty.sameOption a b = true ↔ a = b
  | none, b => by cases b <;> simp [Ty.sameOption]
  | some t, b => by cases b <;> simp [Ty.sameOption, Ty.same_iff t]

theorem Ty.sameAll_iff : ∀ as bs : List Ty, Ty.sameAll as bs = true ↔ as = bs
  | [], bs => by cases bs <;> simp [Ty.sameAll]
  | t :: ts, bs => by cases bs <;> simp [Ty.sameAll, Ty.same_iff t, Ty.sameAll_iff ts]

theorem Slot.sameAll_iff : ∀ as bs : List Slot, Slot.sameAll as bs = true ↔ as = bs
  | [], bs => by cases bs <;> simp [Slot.sameAll]
  | s :: ss, bs => by cases bs <;> simp [Slot.sameAll, Slot.same_iff s, Slot.sameAll_iff ss]

end

instance : DecidableEq Ty := fun a b => decidable_of_iff (a.same b = true) (Ty.same_iff a b)

instance : DecidableEq Slot := fun a b => decidable_of_iff (a.same b = true) (Slot.same_iff a b)

end NominalGenerics
