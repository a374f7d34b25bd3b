import NominalGenerics.Proofs.Instances

/-!
# Renaming type parameters

Renaming changes the name of every type parameter in a type, those in bounds included, and nothing
else: the declarations, the sites and the size stay. So a renamed class type has the same written
supertypes, and its spec maps the same names to renamed arguments (`createSpec_rename`).
-/

namespace NominalGenerics

mutual

def Ty.rename (ρ : String → String) : Ty → Ty
  | .decl d => .decl d
  | .bare s d => .bare s d
  | .app s d args => .app s d (Slot.renameAll ρ args)
  | .param s n bs => .param s (ρ n) (Ty.renameAll ρ bs)
  | .array s e => .array s (e.rename ρ)

def Slot.rename (ρ : String → String) : Slot → Slot
  | .exact m t => .exact m (t.rename ρ)
  | .rebound m n none us => .rebound m n none (Ty.renameAll ρ us)
  | .rebound m n (some l) us => .rebound m n (some (l.rename ρ)) (Ty.renameAll ρ us)
  | .param m none node n bs => .param m none node (ρ n) (Ty.renameAll ρ bs)
  | .param m (some l) node n bs => .param m (some (l.rename ρ)) node (ρ n) (Ty.renameAll ρ bs)
  | .wildcard m none us => .wildcard m none (Ty.renameAll ρ us)
  | .wildcard m (some l) us => .wildcard m (some (l.rename ρ)) (Ty.renameAll ρ us)

def Ty.renameAll (ρ : String → String) : List Ty → List Ty
  | [] => []
  | t :: ts => t.rename ρ :: Ty.renameAll ρ ts

def Slot.renameAll (ρ : String → String) : List Slot → List Slot
  | [] => []
  | s :: ss => s.rename ρ :: Slot.renameAll ρ ss

end

mutual

/-- The names of the type parameters in `t`, those in bounds included. -/
def Ty.names : Ty → List String
  | .decl _ | .bare _ _ => []
  | .app _ _ args => Slot.namesAll args
  | .param _ n bs => n :: Ty.namesAll bs
  | .array _ e => e.names

def Slot.names : Slot → List String
  | .exact _ t => t.names
  | .rebound _ _ none us | .wildcard _ none us => Ty.namesAll us
  | .rebound _ _ (some l) us | .wildcard _ (some l) us => l.names ++ Ty.namesAll us
  | .param _ none _ n bs => n :: Ty.namesAll bs
  | .param _ (some l) _ n bs => n :: (l.names ++ Ty.namesAll bs)

def Ty.namesAll : List Ty → List String
  | [] => []
  | t :: ts => t.names ++ Ty.namesAll ts

def Slot.namesAll : List Slot → List String
  | [] => []
  | s :: ss => s.names ++ Slot.namesAll ss

end

def Failure.rename (ρ : String → String) : Failure → Failure
  | .violation v => .violation ⟨v.cause, v.first.rename ρ, v.second.rename ρ⟩
  | .missingType => .missingType
  | .exhausted => .exhausted

/-- An outcome with its type parameters renamed, given how to rename a value. -/
def renameOutcome {α : Type} (ρ : String → String) (f : α → α) : Except Failure α → Except Failure α
  | .ok a => .ok (f a)
  | .error e => .error (e.rename ρ)

/-! ## Renaming twice -/

section Compose

variable {ρ σ : String → String}

mutual

theorem Ty.rename_id : ∀ t : Ty, t.rename id = t
  | .decl _ | .bare _ _ => rfl
  | .app s d args => by rw [Ty.rename, Slot.renameAll_id args]
  | .param s n bs => by rw [Ty.rename, Ty.renameAll_id bs, id]
  | .array s e => by rw [Ty.rename, Ty.rename_id e]

theorem Slot.rename_id : ∀ s : Slot, s.rename id = s
  | .exact m t => by rw [Slot.rename, Ty.rename_id t]
  | .rebound m n none us => by rw [Slot.rename, Ty.renameAll_id us]
  | .rebound m n (some l) us => by rw [Slot.rename, Ty.rename_id l, Ty.renameAll_id us]
  | .param m none node n bs => by rw [Slot.rename, Ty.renameAll_id bs, id]
  | .param m (some l) node n bs => by rw [Slot.rename, Ty.rename_id l, Ty.renameAll_id bs, id]
  | .wildcard m none us => by rw [Slot.rename, Ty.renameAll_id us]
  | .wildcard m (some l) us => by rw [Slot.rename, Ty.rename_id l, Ty.renameAll_id us]

theorem Ty.renameAll_id : ∀ ts : List Ty, Ty.renameAll id ts = ts
  | [] => rfl
  | t :: ts => by rw [Ty.renameAll, Ty.rename_id t, Ty.renameAll_id ts]

theorem Slot.renameAll_id : ∀ ss : List Slot, Slot.renameAll id ss = ss
  | [] => rfl
  | s :: ss => by rw [Slot.renameAll, Slot.rename_id s, Slot.renameAll_id ss]

end

mutual

theorem Ty.rename_rename : ∀ t : Ty, (t.rename ρ).rename σ = t.rename (σ ∘ ρ)
  | .decl _ | .bare _ _ => rfl
  | .app s d args => by simp only [Ty.rename, Slot.renameAll_renameAll args]
  | .param s n bs => by simp only [Ty.rename, Ty.renameAll_renameAll bs, Function.comp_apply]
  | .array s e => by simp only [Ty.rename, Ty.rename_rename e]

theorem Slot.rename_rename : ∀ s : Slot, (s.rename ρ).rename σ = s.rename (σ ∘ ρ)
  | .exact m t => by simp only [Slot.rename, Ty.rename_rename t]
  | .rebound m n none us => by simp only [Slot.rename, Ty.renameAll_renameAll us]
  | .rebound m n (some l) us => by
    simp only [Slot.rename, Ty.rename_rename l, Ty.renameAll_renameAll us]
  | .param m none node n bs => by
    simp only [Slot.rename, Ty.renameAll_renameAll bs, Function.comp_apply]
  | .param m (some l) node n bs => by
    simp only [Slot.rename, Ty.rename_rename l, Ty.renameAll_renameAll bs, Function.comp_apply]
  | .wildcard m none us => by simp only [Slot.rename, Ty.renameAll_renameAll us]
  | .wildcard m (some l) us => by
    simp only [Slot.rename, Ty.rename_rename l, Ty.renameAll_renameAll us]

theorem Ty.renameAll_renameAll : ∀ ts : List Ty,
    Ty.renameAll σ (Ty.renameAll ρ ts) = Ty.renameAll (σ ∘ ρ) ts
  | [] => rfl
  | t :: ts => by simp only [Ty.renameAll, Ty.rename_rename t, Ty.renameAll_renameAll ts]

theorem Slot.renameAll_renameAll : ∀ ss : List Slot,
    Slot.renameAll σ (Slot.renameAll ρ ss) = Slot.renameAll (σ ∘ ρ) ss
  | [] => rfl
  | s :: ss => by simp only [Slot.renameAll, Slot.rename_rename s, Slot.renameAll_renameAll ss]

end

mutual

/-- Renamings that agree on the names in a type rename it alike. -/
theorem Ty.rename_congr : ∀ {t : Ty}, (∀ n ∈ t.names, ρ n = σ n) → t.rename ρ = t.rename σ
  | .decl _, _ | .bare _ _, _ => rfl
  | .app s d args, same => by rw [Ty.rename, Ty.rename, Slot.renameAll_congr same]
  | .param s n bs, same => by
    obtain ⟨here, below⟩ := List.forall_mem_cons.mp same
    rw [Ty.rename, Ty.rename, here, Ty.renameAll_congr below]
  | .array s e, same => by rw [Ty.rename, Ty.rename, Ty.rename_congr (t := e) same]

theorem Slot.rename_congr : ∀ {s : Slot}, (∀ n ∈ s.names, ρ n = σ n) → s.rename ρ = s.rename σ
  | .exact m t, same => by rw [Slot.rename, Slot.rename, Ty.rename_congr (t := t) same]
  | .rebound m n none us, same | .wildcard m none us, same => by
    rw [Slot.rename, Slot.rename, Ty.renameAll_congr same]
  | .rebound m n (some l) us, same | .wildcard m (some l) us, same => by
    obtain ⟨lower, uppers⟩ := List.forall_mem_append.mp same
    rw [Slot.rename, Slot.rename, Ty.rename_congr lower, Ty.renameAll_congr uppers]
  | .param m none node n bs, same => by
    obtain ⟨here, below⟩ := List.forall_mem_cons.mp same
    rw [Slot.rename, Slot.rename, here, Ty.renameAll_congr below]
  | .param m (some l) node n bs, same => by
    obtain ⟨here, below⟩ := List.forall_mem_cons.mp same
    obtain ⟨lower, uppers⟩ := List.forall_mem_append.mp below
    rw [Slot.rename, Slot.rename, here, Ty.rename_congr lower, Ty.renameAll_congr uppers]

theorem Ty.renameAll_congr : ∀ {ts : List Ty}, (∀ n ∈ Ty.namesAll ts, ρ n = σ n) →
    Ty.renameAll ρ ts = Ty.renameAll σ ts
  | [], _ => rfl
  | t :: ts, same => by
    obtain ⟨first, rest⟩ := List.forall_mem_append.mp same
    rw [Ty.renameAll, Ty.renameAll, Ty.rename_congr first, Ty.renameAll_congr rest]

theorem Slot.renameAll_congr : ∀ {ss : List Slot}, (∀ n ∈ Slot.namesAll ss, ρ n = σ n) →
    Slot.renameAll ρ ss = Slot.renameAll σ ss
  | [], _ => rfl
  | s :: ss, same => by
    obtain ⟨first, rest⟩ := List.forall_mem_append.mp same
    rw [Slot.renameAll, Slot.renameAll, Slot.rename_congr first, Slot.renameAll_congr rest]

end

/-- A type is its own renaming when its names stay. -/
theorem Ty.rename_eq_self {t : Ty} (same : ∀ n ∈ t.names, ρ n = n) : t.rename ρ = t :=
  (Ty.rename_congr same).trans (Ty.rename_id t)

theorem Slot.rename_eq_self {s : Slot} (same : ∀ n ∈ s.names, ρ n = n) : s.rename ρ = s :=
  (Slot.rename_congr same).trans (Slot.rename_id s)

theorem Ty.rename_of_leftInverse (inverse : Function.LeftInverse σ ρ) (t : Ty) :
    (t.rename ρ).rename σ = t := by
  rw [Ty.rename_rename, inverse.comp_eq_id, Ty.rename_id]

theorem Failure.rename_id (e : Failure) : e.rename id = e := by
  cases e with
  | violation v => simp only [Failure.rename, Ty.rename_id]
  | missingType | exhausted => rfl

theorem Failure.rename_rename (e : Failure) : (e.rename ρ).rename σ = e.rename (σ ∘ ρ) := by
  cases e with
  | violation v => simp only [Failure.rename, Ty.rename_rename]
  | missingType | exhausted => rfl

theorem renameOutcome_rename {α : Type} {f g k : α → α} (twice : ∀ a, g (f a) = k a)
    (r : Except Failure α) :
    renameOutcome σ g (renameOutcome ρ f r) = renameOutcome (σ ∘ ρ) k r := by
  cases r with
  | ok a => exact congrArg Except.ok (twice a)
  | error e => exact congrArg Except.error (Failure.rename_rename e)

/-- Renaming back gives the outcome that was renamed. -/
theorem renameOutcome_of_leftInverse {α : Type} {f g : α → α} (inverse : Function.LeftInverse σ ρ)
    (undo : Function.LeftInverse g f) :
    Function.LeftInverse (renameOutcome σ g) (renameOutcome ρ f) := by
  intro r
  rw [renameOutcome_rename (k := id) undo, inverse.comp_eq_id]
  cases r with
  | ok a => rfl
  | error e => exact congrArg Except.error (Failure.rename_id e)

end Compose

/-! ## What renaming leaves alone -/

section Shape

variable {ρ : String → String}

mutual

theorem Ty.weight_rename : ∀ t : Ty, (t.rename ρ).weight = t.weight
  | .decl _ | .bare _ _ => rfl
  | .app s d args => by rw [Ty.rename, Ty.weight, Ty.weight, Slot.weights_renameAll args]
  | .param s n bs => by rw [Ty.rename, Ty.weight, Ty.weight, Ty.weights_renameAll bs]
  | .array s e => by rw [Ty.rename, Ty.weight, Ty.weight, Ty.weight_rename e]

theorem Slot.weight_rename : ∀ s : Slot, (s.rename ρ).weight = s.weight
  | .exact m t => by rw [Slot.rename, Slot.weight, Slot.weight, Ty.weight_rename t]
  | .rebound m n none us | .param m none _ n us | .wildcard m none us => by
    rw [Slot.rename, Slot.weight, Slot.weight, Ty.weights_renameAll us]
  | .rebound m n (some l) us | .param m (some l) _ n us | .wildcard m (some l) us => by
    rw [Slot.rename, Slot.weight, Slot.weight, Ty.weight_rename l, Ty.weights_renameAll us]

theorem Ty.weights_renameAll : ∀ ts : List Ty, Ty.weights (Ty.renameAll ρ ts) = Ty.weights ts
  | [] => rfl
  | t :: ts => by
    rw [Ty.renameAll, Ty.weights, Ty.weights, Ty.weight_rename t, Ty.weights_renameAll ts]

theorem Slot.weights_renameAll : ∀ ss : List Slot,
    Slot.weights (Slot.renameAll ρ ss) = Slot.weights ss
  | [] => rfl
  | s :: ss => by
    rw [Slot.renameAll, Slot.weights, Slot.weights, Slot.weight_rename s,
      Slot.weights_renameAll ss]

end

mutual

theorem Ty.names_rename : ∀ t : Ty, (t.rename ρ).names = t.names.map ρ
  | .decl _ | .bare _ _ => rfl
  | .app s d args => by rw [Ty.rename, Ty.names, Ty.names, Slot.namesAll_renameAll args]
  | .param s n bs => by
    rw [Ty.rename, Ty.names, Ty.names, Ty.namesAll_renameAll bs, List.map_cons]
  | .array s e => by rw [Ty.rename, Ty.names, Ty.names, Ty.names_rename e]

theorem Slot.names_rename : ∀ s : Slot, (s.rename ρ).names = s.names.map ρ
  | .exact m t => by rw [Slot.rename, Slot.names, Slot.names, Ty.names_rename t]
  | .rebound m n none us | .wildcard m none us => by
    rw [Slot.rename, Slot.names, Slot.names, Ty.namesAll_renameAll us]
  | .rebound m n (some l) us | .wildcard m (some l) us => by
    rw [Slot.rename, Slot.names, Slot.names, Ty.names_rename l, Ty.namesAll_renameAll us,
      List.map_append]
  | .param m none node n bs => by
    rw [Slot.rename, Slot.names, Slot.names, Ty.namesAll_renameAll bs, List.map_cons]
  | .param m (some l) node n bs => by
    rw [Slot.rename, Slot.names, Slot.names, Ty.names_rename l, Ty.namesAll_renameAll bs,
      List.map_cons, List.map_append]

theorem Ty.namesAll_renameAll : ∀ ts : List Ty,
    Ty.namesAll (Ty.renameAll ρ ts) = (Ty.namesAll ts).map ρ
  | [] => rfl
  | t :: ts => by
    rw [Ty.renameAll, Ty.namesAll, Ty.namesAll, Ty.names_rename t, Ty.namesAll_renameAll ts,
      List.map_append]

theorem Slot.namesAll_renameAll : ∀ ss : List Slot,
    Slot.namesAll (Slot.renameAll ρ ss) = (Slot.namesAll ss).map ρ
  | [] => rfl
  | s :: ss => by
    rw [Slot.renameAll, Slot.namesAll, Slot.namesAll, Slot.names_rename s,
      Slot.namesAll_renameAll ss, List.map_append]

end

theorem Slot.renameAll_eq_map (ss : List Slot) : Slot.renameAll ρ ss = ss.map (Slot.rename ρ) := by
  induction ss with
  | nil => rfl
  | cons s ss ih => rw [Slot.renameAll, ih, List.map_cons]

theorem Ty.renameAll_eq_map (ts : List Ty) : Ty.renameAll ρ ts = ts.map (Ty.rename ρ) := by
  induction ts with
  | nil => rfl
  | cons t ts ih => rw [Ty.renameAll, ih, List.map_cons]

@[simp]
theorem Ty.head?_rename (t : Ty) : (t.rename ρ).head? = t.head? := by cases t <;> rfl

@[simp]
theorem Ty.isRoot_rename (t : Ty) : (t.rename ρ).isRoot = t.isRoot := by
  rw [Ty.isRoot, Ty.head?_rename, Ty.isRoot]

@[simp]
theorem Ty.isParam_rename (t : Ty) : (t.rename ρ).isParam = t.isParam := by cases t <;> rfl

@[simp]
theorem Ty.isUse_rename (t : Ty) : (t.rename ρ).isUse = t.isUse := by cases t <;> rfl

@[simp]
theorem Ty.site_rename (t : Ty) : (t.rename ρ).site = t.site := by cases t <;> rfl

@[simp]
theorem Ty.isDiamond_rename (t : Ty) : (t.rename ρ).isDiamond = t.isDiamond := by
  cases t with
  | app s d args => cases args <;> rfl
  | decl | bare | param | array => rfl

@[simp]
theorem Hierarchy.isRaw_rename (h : Hierarchy) (t : Ty) : h.isRaw (t.rename ρ) = h.isRaw t := by
  cases t <;> rfl

theorem Ty.name_rename {t : Ty} {d : DeclId} (head : t.head? = some d) :
    (t.rename ρ).name = t.name := by
  cases t <;> cases head <;> rfl

@[simp]
theorem Slot.isWildcard_rename (s : Slot) : (s.rename ρ).isWildcard = s.isWildcard := by
  rcases s with _ | ⟨_, _, _ | _, _⟩ | ⟨_, _ | _, _, _, _⟩ | ⟨_, _ | _, _⟩ <;> rfl

@[simp]
theorem Slot.isParam_rename (s : Slot) : (s.rename ρ).isParam = s.isParam := by
  rcases s with _ | ⟨_, _, _ | _, _⟩ | ⟨_, _ | _, _, _, _⟩ | ⟨_, _ | _, _⟩ <;> rfl

@[simp]
theorem Slot.kind_rename (s : Slot) : (s.rename ρ).kind = s.kind := by
  rcases s with _ | ⟨_, _, _ | _, _⟩ | ⟨_, _ | _, _, _, _⟩ | ⟨_, _ | _, _⟩ <;> rfl

theorem Slot.lower_rename (s : Slot) : (s.rename ρ).lower = s.lower.map (Ty.rename ρ) := by
  rcases s with _ | ⟨_, _, _ | _, _⟩ | ⟨_, _ | _, _, _, _⟩ | ⟨_, _ | _, _⟩ <;> rfl

theorem Slot.upper_rename (s : Slot) : (s.rename ρ).upper = s.upper.map (Ty.rename ρ) := by
  rw [← Ty.renameAll_eq_map]
  rcases s with _ | ⟨_, _, _ | _, _⟩ | ⟨_, _ | _, _, _, _⟩ | ⟨_, _ | _, _⟩ <;> rfl

theorem Slot.ty_rename (s : Slot) : (s.rename ρ).ty = s.ty.rename ρ := by
  rcases s with _ | ⟨_, _, _ | _, _ | _⟩ | ⟨_, _ | _, _, _, _⟩ | ⟨_, _ | _, _ | _⟩ <;> rfl

theorem Slot.ofTy_rename (site : Site) (t : Ty) :
    Slot.ofTy site (t.rename ρ) = (Slot.ofTy site t).rename ρ := by
  cases t <;> rfl

end Shape

/-! ## Renamed types are formed -/

section Formed

variable {A : Arity} {P Q : ParamSet} {ρ : String → String} {good : String → Prop}

def ParamSet.rename (ρ : String → String) (P : ParamSet) : ParamSet := fun s n bs =>
  ∃ m cs, P s m cs ∧ n = ρ m ∧ bs = Ty.renameAll ρ cs

mutual

/-- A renamed type mentions renamed parameters. -/
theorem Ty.Formed.image : ∀ {t : Ty}, t.Formed A P → (t.rename ρ).Formed A (P.rename ρ)
  | .decl _, formed => formed
  | .bare _ _, formed => formed
  | .app _ _ _, ⟨⟨k, known, fits⟩, formed⟩ => by
    refine ⟨⟨k, known, ?_⟩, Slot.FormedAll.image formed⟩
    rw [Slot.renameAll_eq_map, List.map_eq_nil_iff, List.length_map]
    exact fits
  | .param _ n bs, inside => ⟨n, bs, inside, rfl, rfl⟩
  | .array _ e, formed => Ty.Formed.image (t := e) formed

theorem Slot.Formed.image : ∀ {s : Slot}, s.Formed A P → (s.rename ρ).Formed A (P.rename ρ)
  | .exact _ t, ⟨fresh, notParam, formed⟩ => by
    refine ⟨fresh, ?_, Ty.Formed.image formed⟩
    cases t with
    | param => cases notParam
    | decl | bare | app | array => rfl
  | .param _ none _ n bs, ⟨fresh, _, inside⟩ => ⟨fresh, rfl, n, bs, inside, rfl, rfl⟩
  | .wildcard _ none _, ⟨fresh, formed⟩ => ⟨fresh, Ty.FormedAll.image formed⟩
  | .wildcard _ (some _) _, ⟨fresh, lower, formed⟩ =>
    ⟨fresh, lower.image, Ty.FormedAll.image formed⟩

theorem Ty.FormedAll.image : ∀ {ts : List Ty}, Ty.FormedAll A P ts →
    Ty.FormedAll A (P.rename ρ) (Ty.renameAll ρ ts)
  | [], _ => trivial
  | _ :: _, ⟨first, rest⟩ => ⟨first.image, Ty.FormedAll.image rest⟩

theorem Slot.FormedAll.image : ∀ {ss : List Slot}, Slot.FormedAll A P ss →
    Slot.FormedAll A (P.rename ρ) (Slot.renameAll ρ ss)
  | [], _ => trivial
  | _ :: _, ⟨first, rest⟩ => ⟨first.image, Slot.FormedAll.image rest⟩

end

/-- The parameters of a set that bear good names, and whose bounds mention only such. -/
def ParamSet.restrict (P : ParamSet) (good : String → Prop) : ParamSet := fun s n bs =>
  P s n bs ∧ ∀ m ∈ n :: Ty.namesAll bs, good m

mutual

/-- A type with good names mentions only parameters that bear them. -/
theorem Ty.Formed.restrict : ∀ {t : Ty}, t.Formed A P → (∀ n ∈ t.names, good n) →
    t.Formed A (P.restrict good)
  | .decl _, formed, _ => formed
  | .bare _ _, formed, _ => formed
  | .app _ _ _, ⟨known, formed⟩, names => ⟨known, Slot.FormedAll.restrict formed names⟩
  | .param _ _ _, inside, names => ⟨inside, names⟩
  | .array _ e, formed, names => Ty.Formed.restrict (t := e) formed names

theorem Slot.Formed.restrict : ∀ {s : Slot}, s.Formed A P → (∀ n ∈ s.names, good n) →
    s.Formed A (P.restrict good)
  | .exact _ _, ⟨fresh, notParam, formed⟩, names => ⟨fresh, notParam, formed.restrict names⟩
  | .param _ none _ _ _, ⟨fresh, noLower, inside⟩, names => ⟨fresh, noLower, inside, names⟩
  | .wildcard _ none _, ⟨fresh, formed⟩, names => ⟨fresh, Ty.FormedAll.restrict formed names⟩
  | .wildcard _ (some _) _, ⟨fresh, lower, formed⟩, names =>
    ⟨fresh, lower.restrict fun n member => names n (List.mem_append_left _ member),
      Ty.FormedAll.restrict formed fun n member => names n (List.mem_append_right _ member)⟩

theorem Ty.FormedAll.restrict : ∀ {ts : List Ty}, Ty.FormedAll A P ts →
    (∀ n ∈ Ty.namesAll ts, good n) → Ty.FormedAll A (P.restrict good) ts
  | [], _, _ => trivial
  | _ :: _, ⟨first, rest⟩, names =>
    ⟨first.restrict fun n member => names n (List.mem_append_left _ member),
      Ty.FormedAll.restrict rest fun n member => names n (List.mem_append_right _ member)⟩

theorem Slot.FormedAll.restrict : ∀ {ss : List Slot}, Slot.FormedAll A P ss →
    (∀ n ∈ Slot.namesAll ss, good n) → Slot.FormedAll A (P.restrict good) ss
  | [], _, _ => trivial
  | _ :: _, ⟨first, rest⟩, names =>
    ⟨first.restrict fun n member => names n (List.mem_append_left _ member),
      Slot.FormedAll.restrict rest fun n member => names n (List.mem_append_right _ member)⟩

end

/-- A renamed type is formed when its new names may be mentioned. -/
theorem Ty.Formed.rename {t : Ty} (named : ∀ s n bs, n ∈ t.names → Q s (ρ n) bs)
    (formed : t.Formed A P) : (t.rename ρ).Formed A Q := by
  refine (formed.restrict fun n member => member).image.mono (fun _ _ known => known) ?_
  rintro s _ bs ⟨n, _, ⟨-, names⟩, rfl, -⟩
  exact named s n bs (names n List.mem_cons_self)

theorem Slot.Formed.rename {slot : Slot} (named : ∀ s n bs, n ∈ slot.names → Q s (ρ n) bs)
    (formed : slot.Formed A P) : (slot.rename ρ).Formed A Q := by
  refine (formed.restrict fun n member => member).image.mono (fun _ _ known => known) ?_
  rintro s _ bs ⟨n, _, ⟨-, names⟩, rfl, -⟩
  exact named s n bs (names n List.mem_cons_self)

end Formed

/-! ## Specs of renamed types -/

namespace Hierarchy

section Specs

variable {h : Hierarchy} {ids : List DeclId} {P : ParamSet} {ρ : String → String}

def anyParam : ParamSet := fun _ _ _ => True

theorem supertypes_rename {t : Ty} {d : DeclId} (head : t.head? = some d) :
    h.supertypes (t.rename ρ) = h.supertypes t := by
  rw [supertypes_of_head head, supertypes_of_head ((Ty.head?_rename t).trans head)]

theorem args_rename {t : Ty} (formed : t.Formed (h.arity ids) P) :
    h.args (t.rename ρ) = (h.args t).map (Slot.rename ρ) := by
  cases t with
  | decl d => simp [Ty.rename, args, Formed.params_eq_nil formed]
  | app s d as => exact Slot.renameAll_eq_map as
  | bare | param | array => rfl

/-- The same names, each mapped to the renamed slot. -/
def Renamed (ρ : String → String) (spec spec' : Spec) : Prop :=
  ∀ n, spec'.get? n = (spec.get? n).map (Slot.rename ρ)

theorem keyed_rename {ps ss : List Slot} {acc acc' : Spec} (renamed : Renamed ρ acc acc')
    (formed : ∀ s ∈ ss, s.Formed (h.arity ids) P) :
    Renamed ρ (h.keyed .empty ps ss acc) (h.keyed .empty ps (ss.map (Slot.rename ρ)) acc') := by
  induction ps generalizing ss acc acc' with
  | nil => exact renamed
  | cons p ps ih =>
    cases ss with
    | nil => exact renamed
    | cons s ss =>
      have first := formed s List.mem_cons_self
      have first' : (s.rename ρ).Formed (h.arity ids) anyParam :=
        first.rename fun _ _ _ _ => trivial
      refine ih ?_ fun s member => formed s (List.mem_cons_of_mem _ member)
      intro n
      rw [resolveArgument_empty first, resolveArgument_empty first', NameMap.get?_insert,
        NameMap.get?_insert, renamed n]
      split <;> rfl

/-- The spec of a renamed type maps the same names to the renamed arguments. -/
theorem createSpec_rename {t : Ty} {d : DeclId} {spec : Spec} (formed : t.Formed (h.arity ids) P)
    (head : t.head? = some d) (created : h.createSpec .empty t = .ok spec) :
    ∃ spec', h.createSpec .empty (t.rename ρ) = .ok spec' ∧ Renamed ρ spec spec' := by
  have formed' : (t.rename ρ).Formed (h.arity ids) anyParam := formed.rename fun _ _ _ _ => trivial
  have nothing : Renamed ρ .empty .empty := fun _ => rfl
  rw [createSpec_eq formed head] at created
  cases created
  refine ⟨_, createSpec_eq formed' ((Ty.head?_rename t).trans head), ?_⟩
  rw [args_rename formed]
  exact keyed_rename nothing fun _ member => args_formed formed member

end Specs

end Hierarchy

end NominalGenerics
