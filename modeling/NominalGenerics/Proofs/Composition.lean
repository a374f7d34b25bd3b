import NominalGenerics.Hierarchy.Equality
import NominalGenerics.Proofs.Clashes

/-!
# Composing substitutions

The spec of a use holds its arguments, resolved through an outer spec. Where the outer spec mentions
no type parameter, applying this is applying the use's own spec first and then the outer one, as
long as the use has arguments (`subst_createSpec`). A type parameter is replaced in three ways: as
an argument by the slot that it stands for, as a type by the one type of that slot, and inside a
slot for one type by that type too. The last is where the order can show, since a type parameter put
there is an argument from then on and may become a wildcard. In types as they are built, read and
derived no such slot holds a type parameter, and the order does not show
(`subst_createSpec_of_built`, `subst_createSpec_of_formed`).
-/

namespace NominalGenerics

def Ty.param? : Ty → Option String
  | .param _ n _ => some n
  | _ => none

theorem Ty.param?_eq_none_iff {t : Ty} : t.param? = none ↔ t.isParam = false := by
  cases t <;> simp [Ty.param?, Ty.isParam]

def Spec.isWild (spec : Spec) (n : String) : Bool := (spec.get? n).any Slot.isWildcard

mutual

/-- The type parameters that slots for one type hold, at any depth. A type parameter as an argument
is a slot of its own kind, so only slots whose bounds were replaced come to hold one. -/
def Ty.held : Ty → List String
  | .decl _ | .bare _ _ | .param _ _ _ => []
  | .app _ _ args => Slot.heldAll args
  | .array _ e => e.held

def Slot.held : Slot → List String
  | .exact _ t => t.param?.toList ++ t.held
  | .rebound _ _ _ [] | .param _ _ _ _ _ => []
  | .rebound _ _ _ (u :: _) => u.param?.toList ++ u.held
  | .wildcard _ none us => Ty.heldAll us
  | .wildcard _ (some l) us => l.held ++ Ty.heldAll us

def Ty.heldAll : List Ty → List String
  | [] => []
  | t :: ts => t.held ++ Ty.heldAll ts

def Slot.heldAll : List Slot → List String
  | [] => []
  | s :: ss => s.held ++ Slot.heldAll ss

end

theorem Ty.heldAll_eq_nil {ts : List Ty} (each : ∀ t ∈ ts, t.held = []) : Ty.heldAll ts = [] := by
  induction ts with
  | nil => rfl
  | cons t ts ih =>
    obtain ⟨first, rest⟩ := List.forall_mem_cons.mp each
    rw [Ty.heldAll, first, ih rest]
    rfl

theorem Slot.heldAll_eq_nil_iff {ss : List Slot} :
    Slot.heldAll ss = [] ↔ ∀ s ∈ ss, s.held = [] := by
  induction ss with
  | nil => simp [Slot.heldAll]
  | cons s ss ih => simp [Slot.heldAll, ih]

theorem Slot.held_ofTy (site : Site) (t : Ty) : (Slot.ofTy site t).held = t.held := by
  cases t <;> rfl

theorem Slot.held_above (site : Site) {lower : Option Ty} (each : ∀ l ∈ lower, l.held = []) :
    (Slot.above site lower).held = [] := by
  cases lower with
  | none => rfl
  | some l => exact List.append_eq_nil_iff.mpr ⟨each l rfl, rfl⟩

mutual

/-- No slot for one type holds a type parameter there. -/
theorem Ty.Built.held : ∀ {t : Ty}, t.Built → t.held = []
  | _, .decl _ | _, .bare _ _ | _, .param _ _ _ => rfl
  | _, .app _ _ each => Slot.heldAll_eq_nil_iff.mpr fun a member => (each a member).held
  | _, .array _ elem => elem.held

theorem Slot.Built.held : ∀ {s : Slot}, s.Built → s.held = []
  | _, .ofTy site type => (Slot.held_ofTy site _).trans type.held
  | _, .parameter _ _ _ | _, .anything _ => rfl
  | _, .extending _ each => Ty.heldAll_eq_nil fun u member => (each u member).held
  | _, .above site each => Slot.held_above site fun l member => (each l member).held

end

section Formed

variable {A : Arity} {P : ParamSet}

mutual

theorem Ty.Formed.held : ∀ {t : Ty}, t.Formed A P → t.held = []
  | .decl _, _ | .bare _ _, _ | .param _ _ _, _ => rfl
  | .app _ _ _, ⟨_, formed⟩ => Slot.FormedAll.held formed
  | .array _ e, formed => Ty.Formed.held (t := e) formed

theorem Slot.Formed.held : ∀ {s : Slot}, s.Formed A P → s.held = []
  | .exact _ t, ⟨_, notParam, formed⟩ => by
    rw [Slot.held, Ty.param?_eq_none_iff.mpr notParam, Ty.Formed.held formed]
    rfl
  | .param _ _ _ _ _, _ => rfl
  | .wildcard _ none _, ⟨_, formed⟩ => Ty.FormedAll.held formed
  | .wildcard _ (some l) _, ⟨_, lower, formed⟩ => by
    rw [Slot.held, Ty.Formed.held lower, Ty.FormedAll.held formed]
    rfl

theorem Ty.FormedAll.held : ∀ {ts : List Ty}, Ty.FormedAll A P ts → Ty.heldAll ts = []
  | [], _ => rfl
  | t :: _, ⟨first, rest⟩ => by
    rw [Ty.heldAll, Ty.Formed.held first, Ty.FormedAll.held rest]
    rfl

theorem Slot.FormedAll.held : ∀ {ss : List Slot}, Slot.FormedAll A P ss → Slot.heldAll ss = []
  | [], _ => rfl
  | s :: _, ⟨first, rest⟩ => by
    rw [Slot.heldAll, Slot.Formed.held first, Slot.FormedAll.held rest]
    rfl

end

end Formed

theorem Slot.ty_ofTy (site : Site) (t : Ty) : (Slot.ofTy site t).ty = t := by
  cases t <;> rfl

theorem Spec.resolve_excluded {spec : Spec} {excluded : List String} {n : String}
    (kept : n ∈ excluded) (s : Site) (bs : List Ty) :
    spec.resolve excluded s n bs = .param s n bs := by
  rw [Spec.resolve, dif_pos (by simpa using kept)]

theorem Spec.resolveSlot_excluded {spec : Spec} {excluded : List String} {p : Slot}
    (kept : p.name ∈ excluded) : spec.resolveSlot excluded p = p :=
  if_pos (by simpa using kept)

namespace Hierarchy

variable {h : Hierarchy}

/-! ## Structural equality is reflexive -/

mutual

theorem equal_self (h : Hierarchy) : ∀ t : Ty, h.equal t t = true
  | .decl _ | .bare _ _ | .param _ _ _ => by simp [equal]
  | .app _ _ args => by simp [equal, equalSlots_self h args]
  | .array _ e => equal_self h e

theorem slotEqual_self (h : Hierarchy) : ∀ s : Slot, h.slotEqual s s = true
  | .exact _ t => by simp [slotEqual, Slot.kind, Slot.ty, equal_self h t]
  | .rebound _ _ _ [] => by
    simp [slotEqual, Slot.kind, Slot.ty, Ty.object, Ty.isApplied, Ty.isDiamond, Ty.isRoot, Ty.head?]
  | .rebound _ _ _ (u :: _) => by simp [slotEqual, Slot.kind, Slot.ty, equal_self h u]
  | .param _ _ _ _ _ => by simp [slotEqual, Slot.isParam, Slot.name]
  | .wildcard _ none us => by
    simp [slotEqual, Slot.isWildcard, Slot.lower, Slot.upper, equalTypes_self h us]
  | .wildcard _ (some l) us => by
    simp [slotEqual, Slot.isWildcard, Slot.lower, Slot.upper, equal_self h l, equalTypes_self h us]

theorem equalTypes_self (h : Hierarchy) : ∀ ts : List Ty, h.equalTypes ts ts = true
  | [] => rfl
  | t :: ts => by simp [equalTypes, equal_self h t, equalTypes_self h ts]

theorem equalSlots_self (h : Hierarchy) : ∀ ss : List Slot, h.equalSlots ss ss = true
  | [] => rfl
  | s :: ss => by simp [equalSlots, slotEqual_self h s, equalSlots_self h ss]

end

/-! ## Specs that mention no type parameter -/

theorem mem_slotsMention {ss : List Slot} {n : String} :
    n ∈ h.slotsMention ss ↔ ∃ s ∈ ss, n ∈ h.slotMentions s := by
  induction ss with
  | nil => simp [slotsMention]
  | cons s ss ih => simp [slotsMention, ih]

/-- What declarations declare are type parameters, and the root declares none. -/
structure Parametric (h : Hierarchy) : Prop where
  params : ∀ d, ∀ p ∈ h.params d, p.isParam = true
  root : h.params .object = []

theorem Sound.parametric {ids : List DeclId} (sound : h.Sound ids) : h.Parametric where
  params _ := sound.isParam_of_declared
  root := by
    rw [params, sound.root]

theorem slotMentions_ofTy (h : Hierarchy) (site : Site) (t : Ty) :
    h.slotMentions (.ofTy site t) = h.mentions t := by
  cases t <;> rfl

def Concrete (h : Hierarchy) (spec : Spec) : Prop := ∀ s ∈ spec.values, h.slotMentions s = []

instance (h : Hierarchy) (spec : Spec) : Decidable (h.Concrete spec) :=
  inferInstanceAs (Decidable (∀ s ∈ spec.values, h.slotMentions s = []))

theorem Concrete.get? {spec : Spec} (concrete : h.Concrete spec) {n : String} {s : Slot}
    (found : spec.get? n = some s) : h.slotMentions s = [] :=
  concrete s (NameMap.mem_values_iff.mpr ⟨n, found⟩)

section Concrete

variable {spec : Spec}

theorem Parametric.mentions_object (parametric : h.Parametric) : h.mentions .object = [] := by
  rw [Ty.object, mentions, parametric.root]
  rfl

theorem Parametric.subst_object (parametric : h.Parametric) (excluded : List String) :
    h.subst spec excluded .object = .object := by
  rw [Ty.object, subst, parametric.root]

/-- A slot mentions what its type does. -/
theorem Parametric.mem_mentions_ty (parametric : h.Parametric) {s : Slot} {n : String}
    (mentioned : n ∈ h.mentions s.ty) : n ∈ h.slotMentions s := by
  have root : n ∉ h.mentions .object := by simp [parametric.mentions_object]
  cases s with
  | exact | param => exact mentioned
  | rebound m p l us =>
    cases us with
    | nil => exact absurd mentioned root
    | cons u us => exact mentioned
  | wildcard m l us =>
    cases us with
    | nil => exact absurd mentioned root
    | cons u us =>
      cases l with
      | none => exact List.mem_append_left _ mentioned
      | some l => exact List.mem_append_right _ (List.mem_append_left _ mentioned)

theorem Parametric.mentions_ty (parametric : h.Parametric) {s : Slot}
    (closed : h.slotMentions s = []) : h.mentions s.ty = [] := by
  rw [List.eq_nil_iff_forall_not_mem]
  intro n mentioned
  have inside := parametric.mem_mentions_ty mentioned
  rw [closed] at inside
  cases inside

/-- The type of a substituted slot is its type substituted, if that is so of type parameters. -/
theorem Parametric.ty_substSlot (parametric : h.Parametric) {excluded : List String} {s : Slot}
    (leaf : ∀ m l node n bs, s = .param m l node n bs →
      (spec.resolveSlot excluded s).ty = spec.resolve excluded node n bs) :
    (h.substSlot spec excluded s).ty = h.subst spec excluded s.ty := by
  cases s with
  | exact m t => exact Slot.ty_ofTy m.site _
  | param m l node n bs => exact leaf m l node n bs rfl
  | rebound m n l us =>
    cases us with
    | nil => exact (parametric.subst_object excluded).symm
    | cons u us => exact Slot.ty_ofTy m.site _
  | wildcard m l us =>
    cases us with
    | nil => cases l <;> exact (parametric.subst_object excluded).symm
    | cons u us => cases l <;> rfl

/-- A type parameter stands for the type of its slot, and for the root without one. -/
theorem Concrete.resolve (concrete : h.Concrete spec) (parametric : h.Parametric) (site : Site)
    (n : String) (bounds : List Ty) :
    spec.resolve [] site n bounds = ((spec.get? n).map Slot.ty).getD .object := by
  have noParam : ∀ s, spec.get? n = some s → ∀ node n' bs, s.ty ≠ .param node n' bs := by
    intro s found node n' bs same
    have none := parametric.mentions_ty (concrete.get? found)
    rw [same] at none
    cases none
  rw [resolve_eq_once fun s node n' b bs found _ same => absurd same (noParam s found _ _ _)]
  unfold Spec.once
  cases found : spec.get? n with
  | none => rfl
  | some s =>
    have noParam := noParam s found
    simp only [Option.map_some, Option.getD_some]
    split
    · rfl
    · cases same : s.ty with
      | param node n' bs => exact absurd same (noParam node n' bs)
      | decl | bare | app | array => rfl

/-- A type parameter that may be left where `mentioned` ones were replaced: an excluded one among
them, or one that the spec mentions. -/
def Leaves (h : Hierarchy) (spec : Spec) (excluded mentioned : List String) (n : String) : Prop :=
  (n ∈ excluded ∧ n ∈ mentioned) ∨ ∃ s ∈ spec.values, n ∈ h.slotMentions s

theorem Leaves.mono {excluded mentioned mentioned' : List String} {n : String}
    (leaves : h.Leaves spec excluded mentioned n) (more : mentioned ⊆ mentioned') :
    h.Leaves spec excluded mentioned' n :=
  leaves.imp_left fun kept => ⟨kept.1, more kept.2⟩

theorem Parametric.leaves_resolve (parametric : h.Parametric) {excluded : List String} {site : Site}
    {name n : String} {bounds : List Ty}
    (left : n ∈ h.mentions (spec.resolve excluded site name bounds)) :
    h.Leaves spec excluded [name] n := by
  have known : ∀ {m s}, spec.get? m = some s → n ∈ h.mentions s.ty →
      ∃ s ∈ spec.values, n ∈ h.slotMentions s := by
    intro m s found inside
    exact ⟨s, NameMap.mem_values_iff.mpr ⟨m, found⟩, parametric.mem_mentions_ty inside⟩
  fun_induction spec.resolve excluded site name bounds with
  | case1 excluded site name bounds kept =>
    rw [mentions, List.mem_singleton] at left
    exact .inl ⟨left ▸ List.contains_iff_mem.mp kept, left ▸ List.mem_singleton_self _⟩
  | case2 =>
    rw [parametric.mentions_object] at left
    cases left
  | case3 excluded site name bounds free s found => exact .inr (known found left)
  | case4 excluded site name bounds free s found single node m same =>
    exact .inr (known found (same ▸ left))
  -- a name that is followed and then left was mentioned by the slot that led to it
  | case5 excluded site name bounds free s found single node m b bs same further smaller ih =>
    rcases ih left with ⟨-, here⟩ | elsewhere
    · refine .inr (known found ?_)
      rw [same]
      exact here
    · exact .inr elsewhere
  | case6 excluded site name bounds free s found single node m b bs same =>
    exact .inr (known found (same ▸ left))
  | case7 excluded site name bounds free s found => exact .inr (known found left)

theorem Parametric.leaves_resolveSlot (parametric : h.Parametric) {excluded : List String}
    {p : Slot} {n : String} (isParam : p.isParam = true)
    (left : n ∈ h.slotMentions (spec.resolveSlot excluded p)) :
    h.Leaves spec excluded [p.name] n := by
  unfold Spec.resolveSlot at left
  split at left
  · rename_i kept
    cases p with
    | param m l node name bs =>
      rw [slotMentions, List.mem_singleton] at left
      exact .inl ⟨left ▸ List.contains_iff_mem.mp kept, left ▸ List.mem_singleton_self _⟩
    | exact | rebound | wildcard => cases isParam
  · cases found : spec.get? p.name with
    | none =>
      rw [found, Option.getD_none, slotMentions, parametric.mentions_object] at left
      cases left
    | some s =>
      rw [found] at left
      exact .inr ⟨s, NameMap.mem_values_iff.mpr ⟨_, found⟩, left⟩

mutual

/-- What a substituted type mentions was excluded, or the spec mentions it. -/
theorem Parametric.leaves_subst (parametric : h.Parametric) {excluded : List String} {n : String} :
    ∀ {t : Ty}, n ∈ h.mentions (h.subst spec excluded t) →
      h.Leaves spec excluded (h.mentions t) n
  | .decl d, left => by
    rw [mentions]
    rw [subst] at left
    split at left
    · rename_i none
      rw [mentions, none] at left
      cases left
    · obtain ⟨s, member, inside⟩ := mem_slotsMention.mp left
      obtain ⟨p, declared, rfl⟩ := List.mem_map.mp member
      refine (parametric.leaves_resolveSlot (parametric.params d p declared) inside).mono ?_
      exact List.cons_subset.mpr ⟨List.mem_map_of_mem declared, List.nil_subset _⟩
  | .bare _ _, left => nomatch left
  | .app _ _ _, left => parametric.leaves_substSlots left
  | .param _ _ _, left => parametric.leaves_resolve left
  | .array _ e, left => parametric.leaves_subst (t := e) left

theorem Parametric.leaves_substSlot (parametric : h.Parametric) {excluded : List String}
    {n : String} : ∀ {s : Slot}, n ∈ h.slotMentions (h.substSlot spec excluded s) →
      h.Leaves spec excluded (h.slotMentions s) n
  | .exact _ t, left | .rebound _ _ _ (t :: _), left => by
    rw [substSlot, slotMentions_ofTy] at left
    exact parametric.leaves_subst (t := t) left
  | .rebound _ _ _ [], left => by
    rw [substSlot, slotMentions, parametric.mentions_object] at left
    cases left
  | .param _ _ _ _ _, left => parametric.leaves_resolveSlot rfl left
  | .wildcard _ none _, left => parametric.leaves_substTypes left
  | .wildcard _ (some l) _, left => by
    rcases List.mem_append.mp left with below | above
    · exact (parametric.leaves_subst (t := l) below).mono (List.subset_append_left _ _)
    · exact (parametric.leaves_substTypes above).mono (List.subset_append_right _ _)

theorem Parametric.leaves_substTypes (parametric : h.Parametric) {excluded : List String}
    {n : String} : ∀ {ts : List Ty}, n ∈ h.typesMention (h.substTypes spec excluded ts) →
      h.Leaves spec excluded (h.typesMention ts) n
  | t :: _, left => by
    rcases List.mem_append.mp left with here | later
    · exact (parametric.leaves_subst (t := t) here).mono (List.subset_append_left _ _)
    · exact (parametric.leaves_substTypes later).mono (List.subset_append_right _ _)

theorem Parametric.leaves_substSlots (parametric : h.Parametric) {excluded : List String}
    {n : String} : ∀ {ss : List Slot}, n ∈ h.slotsMention (h.substSlots spec excluded ss) →
      h.Leaves spec excluded (h.slotsMention ss) n
  | s :: _, left => by
    rcases List.mem_append.mp left with here | later
    · exact (parametric.leaves_substSlot (s := s) here).mono (List.subset_append_left _ _)
    · exact (parametric.leaves_substSlots later).mono (List.subset_append_right _ _)

end

theorem Concrete.leaves_nothing (concrete : h.Concrete spec) {mentioned : List String}
    {n : String} : ¬ h.Leaves spec [] mentioned n := by
  rintro (⟨kept, -⟩ | ⟨s, listed, inside⟩)
  · cases kept
  · rw [concrete s listed] at inside
    cases inside

/-- What such a spec leaves mentions no type parameter either. -/
theorem Concrete.mentions_subst (concrete : h.Concrete spec) (parametric : h.Parametric) (t : Ty) :
    h.mentions (h.subst spec [] t) = [] :=
  List.eq_nil_iff_forall_not_mem.mpr fun _ left =>
    concrete.leaves_nothing (parametric.leaves_subst left)

theorem Concrete.slotMentions_subst (concrete : h.Concrete spec) (parametric : h.Parametric)
    (s : Slot) : h.slotMentions (h.substSlot spec [] s) = [] :=
  List.eq_nil_iff_forall_not_mem.mpr fun _ left =>
    concrete.leaves_nothing (parametric.leaves_substSlot left)

theorem Concrete.ty_substSlot (concrete : h.Concrete spec) (parametric : h.Parametric) (s : Slot) :
    (h.substSlot spec [] s).ty = h.subst spec [] s.ty := by
  refine parametric.ty_substSlot ?_
  rintro m l node n bs rfl
  rw [concrete.resolve parametric]
  cases found : spec.get? n <;> simp [Spec.resolveSlot, Slot.name, found, Slot.ty]

end Concrete

/-- Equal slots have equal types, type parameters apart. -/
theorem Parametric.equal_ty (parametric : h.Parametric) {s s' : Slot} (plain : s.isParam = false)
    (same : h.slotEqual s s' = true) : h.equal s.ty s'.ty = true := by
  have heads : ∀ {us vs : List Ty}, h.equalTypes us vs = true →
      h.equal (us.headD .object) (vs.headD .object) = true := by
    intro us vs same
    cases us <;> cases vs <;> simp_all [equalTypes, equal_self]
  cases s with
  | param => cases plain
  | exact m t =>
    rw [slotEqual, Bool.and_eq_true] at same
    exact same.2
  | rebound m n l us =>
    cases us with
    | cons u us =>
      rw [slotEqual, Bool.and_eq_true] at same
      exact same.2
    | nil =>
      -- a bare use of the root is the root, and it has no other uses without arguments
      simp only [slotEqual, Bool.and_eq_true, Bool.not_eq_true'] at same
      obtain ⟨⟨⟨-, unapplied⟩, noDiamond⟩, root⟩ := same
      generalize s'.ty = t at *
      cases t with
      | decl d | bare s d =>
        have isRoot : d = .object := by simpa [Ty.isRoot, Ty.head?] using root
        simp [Slot.ty, Ty.object, equal, isRoot, parametric.root]
      | app s d args =>
        cases args with
        | nil => cases noDiamond
        | cons => cases unapplied
      | param | array => cases root
  | wildcard m l us =>
    cases s' with
    | exact | rebound | param =>
      cases l <;> simp [slotEqual, Slot.isWildcard] at same
      split at same <;> simp at same
    | wildcard m' l' vs =>
      cases l <;> cases l' <;>
        simp [slotEqual, Slot.isWildcard, Slot.lower, Slot.upper] at same
      · exact heads same
      · exact heads same.2

/-! ## Two substitutions in turn -/

section Compose

variable {outer first whole : Spec} {excluded : List String}

/-- At the type parameter `n`, `whole` does what `first` and then `outer` do. -/
structure Composes (h : Hierarchy) (outer first whole : Spec) (excluded : List String)
    (n : String) : Prop where
  asType : ∀ s bs, h.equal (whole.resolve [] s n bs)
    (h.subst outer [] (first.resolve excluded s n bs)) = true
  asSlot : ∀ p : Slot, p.isParam = true → p.name = n → h.slotEqual (whole.resolveSlot [] p)
    (h.substSlot outer [] (first.resolveSlot excluded p)) = true

/-- Where `first` puts a type parameter in the place of `n` as a type, `outer` has one type for
it. -/
def KeepsSingle (outer first : Spec) (excluded : List String) (n : String) : Prop :=
  ∀ s bs node m cs, first.resolve excluded s n bs = .param node m cs →
    ∃ v, outer.get? m = some v ∧ v.isWildcard = false

theorem isParam_of_mentions {t : Ty} (none : h.mentions t = []) : t.isParam = false := by
  cases t with
  | param => cases none
  | decl | bare | app | array => rfl

theorem isParam_of_slotMentions {s : Slot} (none : h.slotMentions s = []) : s.isParam = false := by
  cases s with
  | param => cases none
  | exact | rebound | wildcard => rfl

theorem isParam_subst {spec : Spec} {t : Ty} (plain : t.isParam = false) :
    (h.subst spec excluded t).isParam = false := by
  cases t with
  | param => cases plain
  | bare | app | array => rfl
  | decl d =>
    rw [subst]
    split <;> rfl

/-- Where a substituted type is a type parameter, so was the type. -/
theorem substType_keepsSingle {t : Ty}
    (held : ∀ n ∈ t.param?.toList, KeepsSingle outer first excluded n) (node : Site) (m : String)
    (cs : List Ty) (same : h.subst first excluded t = .param node m cs) :
    ∃ v, outer.get? m = some v ∧ v.isWildcard = false := by
  cases t with
  | param s n bs => exact held n List.mem_cons_self s bs node m cs same
  | decl | bare | app | array =>
    have plain := congrArg Ty.isParam same
    rw [isParam_subst rfl] at plain
    cases plain

theorem slotEqual_ofTy {t : Ty} {s : Slot} (site : Site) (plain : t.isParam = false)
    (kind : s.kind = .exact) (same : h.equal t s.ty = true) :
    h.slotEqual (.ofTy site t) s = true := by
  rw [Slot.ofTy_of_not_isParam site plain, slotEqual, Bool.and_eq_true, beq_iff_eq]
  exact ⟨kind, same⟩

/-- A slot for one type, where the types compose. -/
theorem ofTy_composes (parametric : h.Parametric) (concrete : h.Concrete outer) {t t' : Ty}
    (site : Site) (plain : t.isParam = false) (same : h.equal t (h.subst outer [] t') = true)
    (single : ∀ node m cs, t' = .param node m cs →
      ∃ v, outer.get? m = some v ∧ v.isWildcard = false) :
    h.slotEqual (.ofTy site t) (h.substSlot outer [] (.ofTy site t')) = true := by
  rw [Slot.ofTy_of_not_isParam site plain, slotEqual, Bool.and_eq_true]
  cases t' with
  | param node m cs =>
    obtain ⟨v, found, notWildcard⟩ := single node m cs rfl
    have notParam := isParam_of_slotMentions (concrete.get? found)
    have slot : h.substSlot outer [] (.ofTy site (.param node m cs)) = v := by
      simp [Slot.ofTy, substSlot, Spec.resolveSlot, Slot.name, found]
    rw [subst, concrete.resolve parametric, found] at same
    rw [slot]
    refine ⟨?_, same⟩
    cases v with
    | exact | rebound => rfl
    | param => cases notParam
    | wildcard => cases notWildcard
  | decl | bare | app | array =>
    rw [Slot.ofTy_of_not_isParam site rfl, substSlot, Slot.ofTy_of_not_isParam]
    · exact ⟨rfl, same⟩
    · exact isParam_subst rfl

/-- A slot for a substituted type: only where the type is a type parameter can the order show. -/
theorem single_composes (parametric : h.Parametric) (concrete : h.Concrete outer)
    (concrete' : h.Concrete whole) {t : Ty} (site : Site)
    (same : h.equal (h.subst whole [] t) (h.subst outer [] (h.subst first excluded t)) = true)
    (held : ∀ n ∈ t.param?.toList, KeepsSingle outer first excluded n) :
    h.slotEqual (.ofTy site (h.subst whole [] t))
      (h.substSlot outer [] (.ofTy site (h.subst first excluded t))) = true := by
  have plain := isParam_of_mentions (concrete'.mentions_subst parametric t)
  exact ofTy_composes parametric concrete site plain same (substType_keepsSingle held)

theorem declared_composes {ps : List Slot} (params : ∀ p ∈ ps, p.isParam = true)
    (leaf : ∀ p ∈ ps, h.Composes outer first whole excluded p.name) :
    h.equalSlots (ps.map (whole.resolveSlot []))
      (h.substSlots outer [] (ps.map (first.resolveSlot excluded))) = true := by
  induction ps with
  | nil => rfl
  | cons p ps ih =>
    obtain ⟨here, params⟩ := List.forall_mem_cons.mp params
    obtain ⟨composes, leaf⟩ := List.forall_mem_cons.mp leaf
    rw [List.map_cons, List.map_cons, substSlots, equalSlots, Bool.and_eq_true]
    exact ⟨composes.asSlot p here rfl, ih params leaf⟩

mutual

/-- Where it does so at every type parameter that a type mentions, it does so at the type. -/
theorem subst_composes (parametric : h.Parametric) (concrete : h.Concrete outer)
    (concrete' : h.Concrete whole) : ∀ t : Ty,
    (∀ n ∈ h.mentions t, h.Composes outer first whole excluded n) →
    (∀ n ∈ t.held, KeepsSingle outer first excluded n) →
    h.equal (h.subst whole [] t) (h.subst outer [] (h.subst first excluded t)) = true
  | .decl d, leaf, _ => by
    have params := parametric.params d
    rw [mentions] at leaf
    rw [subst, subst]
    cases declared : h.params d with
    | nil => simp [subst, declared, equal]
    | cons p ps =>
      rw [declared] at params leaf
      have slots := declared_composes params fun q member =>
        leaf q.name (List.mem_map_of_mem member)
      simpa [subst, equal] using slots
  | .bare _ _, _, _ => by simp [subst, equal]
  | .app _ _ args, leaf, held => by
    have slots := substSlots_composes parametric concrete concrete' args leaf held
    simpa [subst, equal] using slots
  | .param s n bs, leaf, _ => (leaf n List.mem_cons_self).asType s bs
  | .array _ e, leaf, held => subst_composes parametric concrete concrete' e leaf held

theorem substSlot_composes (parametric : h.Parametric) (concrete : h.Concrete outer)
    (concrete' : h.Concrete whole) : ∀ s : Slot,
    (∀ n ∈ h.slotMentions s, h.Composes outer first whole excluded n) →
    (∀ n ∈ s.held, KeepsSingle outer first excluded n) →
    h.slotEqual (h.substSlot whole [] s)
      (h.substSlot outer [] (h.substSlot first excluded s)) = true
  | .exact m t, leaf, held => by
    have same := subst_composes parametric concrete concrete' t leaf fun n member =>
      held n (List.mem_append_right _ member)
    exact single_composes parametric concrete concrete' m.site same fun n named =>
      held n (List.mem_append_left _ named)
  | .rebound m _ _ [], _, _ => by
    simp only [substSlot, parametric.subst_object]
    exact slotEqual_self h _
  | .rebound m _ _ (u :: _), leaf, held => by
    have same := subst_composes parametric concrete concrete' u leaf fun n member =>
      held n (List.mem_append_right _ member)
    exact single_composes parametric concrete concrete' m.site same fun n named =>
      held n (List.mem_append_left _ named)
  | .param _ _ _ n _, leaf, _ => (leaf n List.mem_cons_self).asSlot _ rfl rfl
  | .wildcard _ none us, leaf, held => by
    have uppers := substTypes_composes parametric concrete concrete' us leaf held
    simpa [substSlot, slotEqual, Slot.isWildcard, Slot.lower, Slot.upper] using uppers
  | .wildcard _ (some l) us, leaf, held => by
    have lower := subst_composes parametric concrete concrete' l
      (fun n member => leaf n (List.mem_append_left _ member))
      fun n member => held n (List.mem_append_left _ member)
    have uppers := substTypes_composes parametric concrete concrete' us
      (fun n member => leaf n (List.mem_append_right _ member))
      fun n member => held n (List.mem_append_right _ member)
    simp [substSlot, slotEqual, Slot.isWildcard, Slot.lower, Slot.upper, lower, uppers]

theorem substTypes_composes (parametric : h.Parametric) (concrete : h.Concrete outer)
    (concrete' : h.Concrete whole) : ∀ ts : List Ty,
    (∀ n ∈ h.typesMention ts, h.Composes outer first whole excluded n) →
    (∀ n ∈ Ty.heldAll ts, KeepsSingle outer first excluded n) →
    h.equalTypes (h.substTypes whole [] ts)
      (h.substTypes outer [] (h.substTypes first excluded ts)) = true
  | [], _, _ => rfl
  | t :: ts, leaf, held => by
    have here := subst_composes parametric concrete concrete' t
      (fun n member => leaf n (List.mem_append_left _ member))
      fun n member => held n (List.mem_append_left _ member)
    have rest := substTypes_composes parametric concrete concrete' ts
      (fun n member => leaf n (List.mem_append_right _ member))
      fun n member => held n (List.mem_append_right _ member)
    simp [substTypes, equalTypes, here, rest]

theorem substSlots_composes (parametric : h.Parametric) (concrete : h.Concrete outer)
    (concrete' : h.Concrete whole) : ∀ ss : List Slot,
    (∀ n ∈ h.slotsMention ss, h.Composes outer first whole excluded n) →
    (∀ n ∈ Slot.heldAll ss, KeepsSingle outer first excluded n) →
    h.equalSlots (h.substSlots whole [] ss)
      (h.substSlots outer [] (h.substSlots first excluded ss)) = true
  | [], _, _ => rfl
  | s :: ss, leaf, held => by
    have here := substSlot_composes parametric concrete concrete' s
      (fun n member => leaf n (List.mem_append_left _ member))
      fun n member => held n (List.mem_append_left _ member)
    have rest := substSlots_composes parametric concrete concrete' ss
      (fun n member => leaf n (List.mem_append_right _ member))
      fun n member => held n (List.mem_append_right _ member)
    simp [substSlots, equalSlots, here, rest]

end

end Compose

/-! ## The spec of a use -/

section Rekey

variable {outer : Spec} {a : Slot}

/-- An argument all of whose type parameters are mapped. -/
theorem resolveArgument_of_mapped (maps : ∀ n ∈ h.slotMentions a, outer.contains n = true) :
    h.resolveArgument outer a = h.substSlot outer [] a := by
  unfold resolveArgument
  rw [List.filter_eq_nil_iff.mpr fun n mentioned => by simp [maps n mentioned]]

/-- An argument resolved through nothing keeps its type parameters. -/
theorem resolveArgument_of_empty (a : Slot) :
    h.resolveArgument .empty a = h.substSlot .empty (h.slotMentions a) a := by
  unfold resolveArgument
  rw [List.filter_eq_self.mpr fun n _ => by simp [NameMap.contains]]

theorem eq_param_of_subst {spec : Spec} {excluded : List String} {t : Ty} {node : Site} {n : String}
    {bs : List Ty} (all : ∀ m ∈ h.mentions t, m ∈ excluded)
    (same : h.subst spec excluded t = .param node n bs) : t = .param node n bs := by
  cases t with
  | param s m cs =>
    rwa [subst, Spec.resolve_excluded (all m List.mem_cons_self)] at same
  | decl | bare | app | array =>
    have plain := congrArg Ty.isParam same
    rw [isParam_subst rfl] at plain
    cases plain

/-- So where it is a type parameter, it was that type parameter. -/
theorem ty_eq_param_of_resolveArgument (parametric : h.Parametric) {node : Site} {n : String}
    {bs : List Ty} (same : (h.resolveArgument .empty a).ty = .param node n bs) :
    a.ty = .param node n bs := by
  rw [resolveArgument_of_empty, parametric.ty_substSlot] at same
  · exact eq_param_of_subst (fun _ mentioned => parametric.mem_mentions_ty mentioned) same
  · rintro m l node n bs rfl
    have kept : n ∈ h.slotMentions (.param m l node n bs) := List.mem_cons_self
    rw [Spec.resolveSlot_excluded kept, Spec.resolve_excluded kept]
    rfl

theorem isWildcard_of_resolveArgument (single : (h.resolveArgument .empty a).isWildcard = false) :
    a.isWildcard = false := by
  cases a with
  | exact | rebound | param => rfl
  | wildcard m l us =>
    rw [resolveArgument_of_empty] at single
    cases l <;> cases single

/-- An argument resolved through a spec is the argument itself with the spec applied. -/
theorem resolveArgument_composes (parametric : h.Parametric) (concrete : h.Concrete outer)
    (maps : ∀ n ∈ h.slotMentions a, outer.contains n = true)
    (single : ∀ n ∈ a.held, outer.isWild n = false) :
    h.slotEqual (h.resolveArgument outer a)
      (h.substSlot outer [] (h.resolveArgument .empty a)) = true := by
  rw [resolveArgument_of_mapped maps, resolveArgument_of_empty]
  refine substSlot_composes parametric concrete concrete a ?_ ?_
  · intro n mentioned
    constructor
    · intro s bs
      rw [Spec.resolve_excluded mentioned]
      exact equal_self h _
    · rintro p isParam rfl
      rw [Spec.resolveSlot_excluded mentioned]
      cases p with
      | param => exact slotEqual_self h _
      | exact | rebound | wildcard => cases isParam
  · intro n held s bs node m cs same
    unfold Spec.resolve at same
    split at same
    · rename_i kept
      cases same
      obtain ⟨v, found⟩ := Option.isSome_iff_exists.mp (maps n (by simpa using kept))
      refine ⟨v, found, ?_⟩
      simpa [Spec.isWild, found] using single n held
    · cases same

theorem createSpec_app {site : Site} {d : DeclId} {args : List Slot} (applied : args ≠ [])
    (fits : (h.params d).length = args.length) (outer : Spec) :
    h.createSpec outer (.app site d args) = .ok (h.keyed outer (h.params d) args .empty) := by
  cases args with
  | nil => exact absurd rfl applied
  | cons a args => simp [createSpec, Ty.head?, Hierarchy.args, fits]

/-- Each name is bound to the last argument supplied for it, through whichever spec the arguments
are resolved. -/
theorem keyed_cases (h : Hierarchy) (outer inner : Spec) (ps ss : List Slot) (acc acc' : Spec)
    (n : String) :
    (∃ x ∈ ps.zip ss, x.1.name = n ∧
      (h.keyed outer ps ss acc).get? n = some (h.resolveArgument outer x.2) ∧
      (h.keyed inner ps ss acc').get? n = some (h.resolveArgument inner x.2)) ∨
    (h.keyed outer ps ss acc).get? n = acc.get? n ∧
      (h.keyed inner ps ss acc').get? n = acc'.get? n := by
  induction ps generalizing ss acc acc' with
  | nil => exact .inr ⟨rfl, rfl⟩
  | cons p ps ih =>
    cases ss with
    | nil => exact .inr ⟨rfl, rfl⟩
    | cons s ss =>
      rw [keyed, keyed]
      obtain ⟨x, later, found⟩ | ⟨found, found'⟩ := ih ss
        (acc.insert p.name (h.resolveArgument outer s))
        (acc'.insert p.name (h.resolveArgument inner s))
      · exact .inl ⟨x, List.mem_cons_of_mem _ later, found⟩
      · rw [found, found', NameMap.get?_insert, NameMap.get?_insert]
        by_cases here : n = p.name
        · rw [if_pos here, if_pos here]
          exact .inl ⟨(p, s), List.mem_cons_self, here.symm, rfl, rfl⟩
        · rw [if_neg here, if_neg here]
          exact .inr ⟨rfl, rfl⟩

/-- The bounds that a type parameter is given when it is looked up do not matter. -/
theorem Concrete.subst_once (concrete : h.Concrete outer) (parametric : h.Parametric) {spec : Spec}
    {n : String} {r : Slot} (found : spec.get? n = some r) :
    h.subst outer [] (spec.once n) = h.subst outer [] r.ty := by
  unfold Spec.once
  simp only [found]
  split
  · rfl
  · cases r.ty with
    | param node m bs =>
      cases bs with
      | nil => rw [subst, subst, concrete.resolve parametric, concrete.resolve parametric]
      | cons => rfl
    | decl | bare | app | array => rfl

theorem ty_of_once {spec : Spec} {n : String} {r : Slot} (found : spec.get? n = some r)
    {node : Site} {m : String} {cs : List Ty} (same : spec.once n = .param node m cs) :
    ∃ bs, r.ty = .param node m bs := by
  unfold Spec.once at same
  simp only [found] at same
  split at same
  · exact ⟨cs, same⟩
  · split at same
    · rename_i unbounded
      cases same
      exact ⟨[], unbounded⟩
    · exact ⟨cs, same⟩

/-- The use's own spec is looked up once where no bounded type parameter among the arguments has the
name of another parameter. -/
theorem keyed_once (parametric : h.Parametric) {ps args : List Slot}
    (apart : ∀ x ∈ ps.zip args, ∀ n ∈ x.2.alias?, n ∈ ps.map Slot.name → n = x.1.name) (n : String)
    (s : Site) (bs : List Ty) :
    (h.keyed .empty ps args .empty).resolve [] s n bs =
      (h.keyed .empty ps args .empty).once n := by
  have keyed := h.keyed_cases .empty .empty ps args .empty .empty
  refine resolve_eq_once ?_ s bs
  intro r node m b bs found notWildcard same known
  obtain ⟨x, paired, rfl, found', -⟩ | ⟨none, -⟩ := keyed n
  · rw [found] at found'
    cases found'
    refine apart x paired m ?_ ?_
    · have single := isWildcard_of_resolveArgument notWildcard
      simp [Slot.alias?, single, ty_eq_param_of_resolveArgument parametric same]
    · obtain ⟨y, paired, rfl, -⟩ | ⟨none, -⟩ := keyed m
      · exact List.mem_map_of_mem (List.of_mem_zip paired).1
      · simp [NameMap.contains, none] at known
  · rw [found] at none
    cases none

end Rekey

section Keyed

variable {outer : Spec} {ps args : List Slot} (parametric : h.Parametric)
  (concrete : h.Concrete outer)
  (maps : ∀ a ∈ args, ∀ n ∈ h.slotMentions a, outer.contains n = true)

include parametric concrete maps

theorem keyed_concrete (ps : List Slot) : h.Concrete (h.keyed outer ps args .empty) := by
  intro s listed
  obtain ⟨n, found⟩ := NameMap.mem_values_iff.mp listed
  obtain ⟨x, paired, -, found', -⟩ | ⟨none, -⟩ := h.keyed_cases outer outer ps args .empty
    .empty n
  · rw [found] at found'
    cases found'
    rw [resolveArgument_of_mapped (maps x.2 (List.of_mem_zip paired).2)]
    exact concrete.slotMentions_subst parametric x.2
  · rw [found] at none
    cases none

omit concrete in
/-- Where the use's own spec puts a type parameter, `outer` has one type for it. -/
theorem keyed_keepsSingle {n : String}
    (single : ∀ x ∈ ps.zip args, x.1.name = n → ∀ m ∈ x.2.ty.param?, outer.isWild m = false)
    (once : ∀ s bs, (h.keyed .empty ps args .empty).resolve [] s n bs =
      (h.keyed .empty ps args .empty).once n) :
    KeepsSingle outer (h.keyed .empty ps args .empty) [] n := by
  intro s bs node m cs same
  rw [once] at same
  obtain ⟨x, paired, named, found, -⟩ | ⟨none, -⟩ := h.keyed_cases .empty .empty ps args
    .empty .empty n
  · obtain ⟨bs, resolved⟩ := ty_of_once found same
    have held := ty_eq_param_of_resolveArgument parametric resolved
    have mentioned : m ∈ h.mentions x.2.ty := by simp [held, mentions]
    obtain ⟨v, known⟩ := Option.isSome_iff_exists.mp
      (maps x.2 (List.of_mem_zip paired).2 m (parametric.mem_mentions_ty mentioned))
    refine ⟨v, known, ?_⟩
    have tame := single x paired named m (by simp [held, Ty.param?])
    simpa [Spec.isWild, known] using tame
  · unfold Spec.once at same
    rw [none] at same
    cases same

/-- The spec of a use resolved through `outer` does what its own spec and then `outer` do. -/
theorem keyed_composes (single : ∀ a ∈ args, ∀ n ∈ a.held, outer.isWild n = false) (n : String)
    (once : ∀ s bs, (h.keyed .empty ps args .empty).resolve [] s n bs =
      (h.keyed .empty ps args .empty).once n) :
    h.Composes outer (h.keyed .empty ps args .empty) (h.keyed outer ps args .empty) [] n := by
  have concrete' := keyed_concrete parametric concrete maps ps
  obtain ⟨⟨p, a⟩, paired, -, found, found'⟩ | ⟨found, found'⟩ := h.keyed_cases outer .empty ps
    args .empty .empty n
  · have member := (List.of_mem_zip paired).2
    have slots := resolveArgument_composes parametric concrete (maps a member) (single a member)
    constructor
    · intro s bs
      rw [once, concrete'.resolve parametric, found, concrete.subst_once parametric found',
        ← concrete.ty_substSlot parametric]
      exact parametric.equal_ty (isParam_of_slotMentions (concrete'.get? found)) slots
    · rintro q - rfl
      simpa [Spec.resolveSlot, found, found'] using slots
  · constructor
    · intro s bs
      have root : (h.keyed .empty ps args .empty).once n = .object := by
        unfold Spec.once
        rw [found']
        rfl
      rw [once, concrete'.resolve parametric, found, root, parametric.subst_object]
      exact equal_self h _
    · rintro q - rfl
      simp only [Spec.resolveSlot, List.contains_nil, Bool.false_eq_true, if_false, found, found',
        NameMap.get?_empty, Option.getD_none, substSlot, parametric.subst_object]
      exact slotEqual_self h _

/-- Applying the spec of a use resolved through `outer` is applying its own spec and then `outer`. -/
theorem keyed_subst_composes
    (apart : ∀ x ∈ ps.zip args, ∀ n ∈ x.2.alias?, n ∈ ps.map Slot.name → n = x.1.name)
    (single : ∀ a ∈ args, ∀ n ∈ a.held, outer.isWild n = false) (t : Ty)
    (single' : ∀ x ∈ ps.zip args, x.1.name ∈ t.held →
      ∀ n ∈ x.2.ty.param?, outer.isWild n = false) :
    h.equal (h.subst (h.keyed outer ps args .empty) [] t)
      (h.subst outer [] (h.subst (h.keyed .empty ps args .empty) [] t)) = true := by
  refine subst_composes parametric concrete (keyed_concrete parametric concrete maps _) t ?_ ?_
  · intro n _
    exact keyed_composes parametric concrete maps single n (keyed_once parametric apart n)
  · intro n held
    refine keyed_keepsSingle parametric maps ?_ (keyed_once parametric apart n)
    rintro x paired rfl
    exact single' x paired held

/-- Where no slot for one type holds a type parameter, wildcards need no care. -/
theorem keyed_subst_composes_of_held
    (apart : ∀ x ∈ ps.zip args, ∀ n ∈ x.2.alias?, n ∈ ps.map Slot.name → n = x.1.name)
    (free : Slot.heldAll args = []) {t : Ty} (free' : t.held = []) :
    h.equal (h.subst (h.keyed outer ps args .empty) [] t)
      (h.subst outer [] (h.subst (h.keyed .empty ps args .empty) [] t)) = true := by
  refine keyed_subst_composes parametric concrete maps apart ?_ t ?_
  · intro a member n held
    rw [Slot.heldAll_eq_nil_iff.mp free a member] at held
    cases held
  · intro x _ held
    rw [free'] at held
    cases held

end Keyed

theorem contains_of_app {site : Site} {d : DeclId} {args : List Slot} {outer : Spec}
    (maps : ∀ n ∈ h.mentions (.app site d args), outer.contains n = true) :
    ∀ a ∈ args, ∀ n ∈ h.slotMentions a, outer.contains n = true := by
  intro a member n mentioned
  exact maps n (mem_slotsMention.mpr ⟨a, member, mentioned⟩)

end Hierarchy

open Hierarchy in
/-- Applying the spec of a use, resolved through `outer`, is applying the use's own spec and then
`outer`. The use has arguments, and no bounded type parameter among them has the name of another
parameter. Where a slot for one type holds a type parameter, `outer` has one type for it. -/
theorem subst_createSpec {h : Hierarchy} (parametric : h.Parametric) {site : Site} {d : DeclId}
    {args : List Slot} (applied : args ≠ []) (fits : (h.params d).length = args.length)
    {outer : Spec} (concrete : h.Concrete outer)
    (maps : ∀ n ∈ h.mentions (.app site d args), outer.contains n = true)
    (apart : ∀ x ∈ (h.params d).zip args, ∀ n ∈ x.2.alias?,
      n ∈ (h.params d).map Slot.name → n = x.1.name)
    (single : ∀ a ∈ args, ∀ n ∈ a.held, outer.isWild n = false) (t : Ty)
    (single' : ∀ x ∈ (h.params d).zip args, x.1.name ∈ t.held →
      ∀ n ∈ x.2.ty.param?, outer.isWild n = false) :
    ∃ composed own, h.createSpec outer (.app site d args) = .ok composed ∧
      h.createSpec .empty (.app site d args) = .ok own ∧
      h.equal (h.subst composed [] t) (h.subst outer [] (h.subst own [] t)) = true := by
  refine ⟨_, _, createSpec_app applied fits outer, createSpec_app applied fits .empty, ?_⟩
  exact keyed_subst_composes parametric concrete (contains_of_app maps) apart single t single'

def crateId : DeclId := ⟨"Crate", 8⟩

def crateArgs : List Slot :=
  let scope := reelLibrary.scopeIn ["X", "Y extends Text"]
  [reelLibrary.slotIn scope "X", reelLibrary.slotIn scope "? extends Sequence<Y>"]

def crateOuter : Spec := .ofList [("X", reelLibrary.slotIn .empty "? super Reel<Text>"),
  ("Y", reelLibrary.slotIn .empty "Text[]")]

/-- A type that mentions the parameters of crates as types, as arguments and in a wildcard. -/
def crateBody : Ty :=
  reelLibrary.typeIn (reelLibrary.hierarchy.scopeOf crateId) "Crate<Crate<A[], B>, ? extends A>"

theorem crate_spec_composes :
    crateBody.isApplied = true ∧ reelLibrary.hierarchy.Parametric ∧
    reelLibrary.hierarchy.Concrete crateOuter ∧
    ∃ composed own,
      reelLibrary.hierarchy.createSpec crateOuter (.app ⟨0, 0⟩ crateId crateArgs) = .ok composed ∧
      reelLibrary.hierarchy.createSpec .empty (.app ⟨0, 0⟩ crateId crateArgs) = .ok own ∧
      reelLibrary.hierarchy.equal (reelLibrary.hierarchy.subst composed [] crateBody)
        (reelLibrary.hierarchy.subst crateOuter []
          (reelLibrary.hierarchy.subst own [] crateBody)) = true := by
  obtain ⟨ids, sound, -⟩ := loaded_reelLibrary.sound
  obtain ⟨applied, fits, concrete, maps, apart, single, single'⟩ :
      crateBody.isApplied = true ∧
      (reelLibrary.hierarchy.params crateId).length = crateArgs.length ∧
      reelLibrary.hierarchy.Concrete crateOuter ∧
      (∀ n ∈ reelLibrary.hierarchy.mentions (.app ⟨0, 0⟩ crateId crateArgs),
        crateOuter.contains n = true) ∧
      (∀ x ∈ (reelLibrary.hierarchy.params crateId).zip crateArgs, ∀ n ∈ x.2.alias?,
        n ∈ (reelLibrary.hierarchy.params crateId).map Slot.name → n = x.1.name) ∧
      (∀ a ∈ crateArgs, ∀ n ∈ a.held, crateOuter.isWild n = false) ∧
      ∀ x ∈ (reelLibrary.hierarchy.params crateId).zip crateArgs, x.1.name ∈ crateBody.held →
        ∀ n ∈ x.2.ty.param?, crateOuter.isWild n = false := by
    decide +kernel
  exact ⟨applied, sound.parametric, concrete, subst_createSpec sound.parametric
    (List.cons_ne_nil _ _) fits concrete maps apart single crateBody single'⟩

open Hierarchy in
/-- For types as the constructors build them it is enough that no bounded type parameter among the
arguments has the name of another parameter. -/
theorem subst_createSpec_of_built {h : Hierarchy} (parametric : h.Parametric) {site : Site}
    {d : DeclId} {args : List Slot} (applied : args ≠ []) (fits : (h.params d).length = args.length)
    (built : (Ty.app site d args).Built) {outer : Spec} (concrete : h.Concrete outer)
    (maps : ∀ n ∈ h.mentions (.app site d args), outer.contains n = true)
    (apart : ∀ x ∈ (h.params d).zip args, ∀ n ∈ x.2.alias?,
      n ∈ (h.params d).map Slot.name → n = x.1.name) {t : Ty} (built' : t.Built) :
    ∃ composed own, h.createSpec outer (.app site d args) = .ok composed ∧
      h.createSpec .empty (.app site d args) = .ok own ∧
      h.equal (h.subst composed [] t) (h.subst outer [] (h.subst own [] t)) = true := by
  refine ⟨_, _, createSpec_app applied fits outer, createSpec_app applied fits .empty, ?_⟩
  exact keyed_subst_composes_of_held parametric concrete (contains_of_app maps) apart built.held
    built'.held

open Hierarchy in
/-- Types that are read, and what is derived from them, are formed, and a use has the right number
of arguments then. -/
theorem subst_createSpec_of_formed {h : Hierarchy} {ids : List DeclId} (sound : h.Sound ids)
    {P Q : ParamSet} {site : Site} {d : DeclId} {args : List Slot} (applied : args ≠ [])
    (formed : (Ty.app site d args).Formed (h.arity ids) P) {outer : Spec}
    (concrete : h.Concrete outer)
    (maps : ∀ n ∈ h.mentions (.app site d args), outer.contains n = true)
    (apart : ∀ x ∈ (h.params d).zip args, ∀ n ∈ x.2.alias?,
      n ∈ (h.params d).map Slot.name → n = x.1.name) {t : Ty}
    (formed' : t.Formed (h.arity ids) Q) :
    ∃ composed own, h.createSpec outer (.app site d args) = .ok composed ∧
      h.createSpec .empty (.app site d args) = .ok own ∧
      h.equal (h.subst composed [] t) (h.subst outer [] (h.subst own [] t)) = true := by
  have fits : (h.params d).length = args.length := by
    obtain ⟨⟨k, known, none | length⟩, -⟩ := formed
    · exact absurd none applied
    · exact (arity_eq_some.mp known).2.trans length.symm
  refine ⟨_, _, createSpec_app applied fits outer, createSpec_app applied fits .empty, ?_⟩
  exact keyed_subst_composes_of_held sound.parametric concrete (contains_of_app maps) apart
    formed.held formed'.held

/-- That the spec of `u`, resolved through `outer`, does to `t` something else than the spec of `u`
and then `outer`. -/
def Hierarchy.Differs (h : Hierarchy) (outer : Spec) (u t : Ty) : Prop :=
  ∃ composed own, h.createSpec outer u = .ok composed ∧ h.createSpec .empty u = .ok own ∧
    h.equal (h.subst composed [] t) (h.subst outer [] (h.subst own [] t)) = false

def textSlot (n : String) (bounds : List Ty) : Slot :=
  (Slot.ofTy ⟨0, 0⟩ (reelLibrary.typeOf "Text")).withBounds ⟨0, 0⟩ none [.param ⟨0, 0⟩ n bounds]

/-- A use with an empty list of arguments leaves the outer spec as it is. A slot for one type that
holds a type parameter of the declaration becomes one type at once, but the wildcard when the
parameter is replaced first. A slot for one type that holds a bounded type parameter leads on to the
parameter of that name. -/
theorem compositions_differ :
    reelLibrary.hierarchy.Differs (.ofList [("A", reelLibrary.slotIn .empty "Text")])
      (reelLibrary.typeOf "Text<>") (.param ⟨0, 0⟩ "A" []) ∧
    reelLibrary.hierarchy.Differs (.ofList [("X", reelLibrary.slotIn .empty "? extends Text")])
      (.app ⟨0, 0⟩ crateId [.parameter ⟨0, 0⟩ "X" [], reelLibrary.slotIn .empty "Text"])
      (.app ⟨0, 0⟩ crateId [textSlot "A" [], reelLibrary.slotIn .empty "Text"]) ∧
    reelLibrary.hierarchy.Differs (.ofList [("B", reelLibrary.slotIn .empty "Text")])
      (.app ⟨0, 0⟩ crateId [textSlot "B" [.object], reelLibrary.slotIn .empty "Text[]"])
      (.param ⟨0, 0⟩ "A" []) := by
  have diamond : reelLibrary.typeOf "Text<>" = .app ⟨28, 0⟩ ⟨"Text", 3⟩ [] := by decide +kernel
  have fits : (reelLibrary.hierarchy.params crateId).length = 2 := by decide +kernel
  rw [diamond]
  refine ⟨⟨_, _, rfl, rfl, ?_⟩,
    ⟨_, _, Hierarchy.createSpec_app (List.cons_ne_nil _ _) fits _,
      Hierarchy.createSpec_app (List.cons_ne_nil _ _) fits _, ?_⟩,
    ⟨_, _, Hierarchy.createSpec_app (List.cons_ne_nil _ _) fits _,
      Hierarchy.createSpec_app (List.cons_ne_nil _ _) fits _, ?_⟩⟩ <;>
  decide +kernel

end NominalGenerics
