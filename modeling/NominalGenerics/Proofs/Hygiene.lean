import Mathlib.Algebra.Order.BigOperators.Group.List
import Mathlib.Algebra.Order.Group.Nat
import Mathlib.Data.Set.Function
import NominalGenerics.Proofs.Locating
import NominalGenerics.Proofs.Renaming

/-!
# Names that meet on the way up

A spec maps the parameter names of a declaration to arguments, and the arguments mention the type
parameters of the place the type was written at. Where a supertype uses a parameter as a type and
its argument is a bounded type parameter, the name of the argument is looked up in the spec as
well. It is captured when the declaration happens to have another parameter of that name
(`captures`).

Going up commutes with every renaming that leads from a type without capture to one without
capture, for the climb (`parameterizeWithin_rename`) and for the search (`locateFrom_rename`).
-/

namespace NominalGenerics

mutual

/-- The type parameters that `t` uses as types: as the element of an array or the bound of a
wildcard, and not as an argument. -/
def Ty.typeUses : Ty → List String
  | .decl _ | .bare _ _ => []
  | .app _ _ args => Slot.typeUsesAll args
  | .param _ n _ => [n]
  | .array _ e => e.typeUses

def Slot.typeUses : Slot → List String
  | .exact _ t => t.typeUses
  | .rebound _ _ _ us => Ty.typeUsesAll us
  | .param _ _ _ _ _ => []
  | .wildcard _ none us => Ty.typeUsesAll us
  | .wildcard _ (some l) us => l.typeUses ++ Ty.typeUsesAll us

def Ty.typeUsesAll : List Ty → List String
  | [] => []
  | t :: ts => t.typeUses ++ Ty.typeUsesAll ts

def Slot.typeUsesAll : List Slot → List String
  | [] => []
  | s :: ss => s.typeUses ++ Slot.typeUsesAll ss

end

/-- What a type parameter used as a type stands for when it is looked up once. -/
def Spec.once (spec : Spec) (name : String) : Ty :=
  match spec.get? name with
  | none => .object
  | some s =>
    if s.isWildcard then s.ty
    else
      match s.ty with
      | .param node n [] => .param node n [.param node n []]
      | t => t

namespace Hierarchy

variable {h : Hierarchy} {ids : List DeclId} {P : ParamSet} {ρ : String → String}

/-! ## Substitution -/

theorem once_rename {spec spec' : Spec} (renamed : Renamed ρ spec spec') (n : String) :
    spec'.once n = (spec.once n).rename ρ := by
  unfold Spec.once
  rw [renamed n]
  cases spec.get? n with
  | none => rfl
  | some s =>
    simp only [Option.map_some, Slot.isWildcard_rename, Slot.ty_rename]
    split
    · rfl
    · cases s.ty with
      | param node n bs => cases bs <;> rfl
      | decl | bare | app | array => rfl

/-- Following an argument's name changes nothing when no other parameter has that name. -/
theorem resolve_eq_once {spec : Spec} {n : String}
    (apart : ∀ s node n' b bs, spec.get? n = some s → s.isWildcard = false →
      s.ty = .param node n' (b :: bs) → spec.contains n' = true → n' = n) (site : Site)
    (bounds : List Ty) : spec.resolve [] site n bounds = spec.once n := by
  fun_cases Spec.resolve spec [] site n bounds with
  | case1 free => simp at free
  | case2 free unknown => simp only [Spec.once, unknown]
  | case3 free s known wildcard => simp only [Spec.once, known, if_pos wildcard]
  | case4 free s known bound node name same =>
    simp only [Spec.once, known, if_neg bound, same]
  | case5 free s known bound node name b bs same further =>
    rw [Bool.and_eq_true, bne_iff_ne] at further
    exact absurd (apart s node name b bs known (by simpa using bound) same further.1) further.2
  | case6 free s known bound node name b bs same => simp only [Spec.once, known, if_neg bound, same]
  | case7 free s known bound unbounded bounded =>
    simp only [Spec.once, known, if_neg bound]

section Rename

variable {spec spec' : Spec}

mutual

theorem subst_rename (renamed : Renamed ρ spec spec') : ∀ {t : Ty}, t.Formed (h.arity ids) P →
    (∀ s n bs, n ∈ t.typeUses →
      spec'.resolve [] s n bs = (spec.resolve [] s n bs).rename ρ) →
    h.subst spec' [] t = (h.subst spec [] t).rename ρ
  | .decl d, formed, _ => by
    rw [subst, subst, Formed.params_eq_nil formed]
    rfl
  | .bare _ _, _, _ => rfl
  | .app s d args, ⟨_, formed⟩, leaf => by
    rw [subst, subst, Ty.rename, substSlots_rename renamed formed leaf]
  | .param s n bs, _, leaf => leaf s n bs List.mem_cons_self
  | .array s e, formed, leaf => by
    rw [subst, subst, Ty.rename, subst_rename renamed (t := e) formed leaf]

theorem substSlot_rename (renamed : Renamed ρ spec spec') : ∀ {s : Slot},
    s.Formed (h.arity ids) P →
    (∀ s' n bs, n ∈ s.typeUses →
      spec'.resolve [] s' n bs = (spec.resolve [] s' n bs).rename ρ) →
    h.substSlot spec' [] s = (h.substSlot spec [] s).rename ρ
  | .exact m t, ⟨_, _, formed⟩, leaf => by
    rw [substSlot, substSlot, subst_rename renamed formed leaf, Slot.ofTy_rename]
  | .param m l node n bs, _, _ => by
    rw [substSlot, substSlot]
    unfold Spec.resolveSlot
    simp only [List.contains_nil, Bool.false_eq_true, if_false, Slot.name, renamed n]
    cases spec.get? n <;> rfl
  | .wildcard m none us, ⟨_, formed⟩, leaf => by
    rw [substSlot, substSlot, Slot.rename, substTypes_rename renamed formed leaf]
  | .wildcard m (some l) us, ⟨_, lower, formed⟩, leaf => by
    rw [substSlot, substSlot, Slot.rename,
      subst_rename renamed lower fun s n bs used => leaf s n bs (List.mem_append_left _ used),
      substTypes_rename renamed formed
        fun s n bs used => leaf s n bs (List.mem_append_right _ used)]

theorem substTypes_rename (renamed : Renamed ρ spec spec') : ∀ {ts : List Ty},
    Ty.FormedAll (h.arity ids) P ts →
    (∀ s n bs, n ∈ Ty.typeUsesAll ts →
      spec'.resolve [] s n bs = (spec.resolve [] s n bs).rename ρ) →
    h.substTypes spec' [] ts = Ty.renameAll ρ (h.substTypes spec [] ts)
  | [], _, _ => rfl
  | t :: ts, ⟨first, rest⟩, leaf => by
    rw [substTypes, substTypes, Ty.renameAll,
      subst_rename renamed first fun s n bs used => leaf s n bs (List.mem_append_left _ used),
      substTypes_rename renamed rest fun s n bs used => leaf s n bs (List.mem_append_right _ used)]

theorem substSlots_rename (renamed : Renamed ρ spec spec') : ∀ {ss : List Slot},
    Slot.FormedAll (h.arity ids) P ss →
    (∀ s n bs, n ∈ Slot.typeUsesAll ss →
      spec'.resolve [] s n bs = (spec.resolve [] s n bs).rename ρ) →
    h.substSlots spec' [] ss = Slot.renameAll ρ (h.substSlots spec [] ss)
  | [], _, _ => rfl
  | s :: ss, ⟨first, rest⟩, leaf => by
    rw [substSlots, substSlots, Slot.renameAll,
      substSlot_rename renamed first fun s n bs used => leaf s n bs (List.mem_append_left _ used),
      substSlots_rename renamed rest fun s n bs used => leaf s n bs (List.mem_append_right _ used)]

end

end Rename

/-! ## Capture -/

/-- Whether some supertype of `t` uses a parameter as a type whose argument is a bounded type
parameter with the name of another parameter of the declaration. -/
def captures (h : Hierarchy) (t : Ty) : Bool :=
  match t.head? with
  | none => false
  | some d =>
    (h.supertypes t).any fun w => ((h.params d).zip (h.args t)).any fun (p, a) =>
      w.typeUses.contains p.name && a.isParam && !a.upper.isEmpty && a.name != p.name &&
        (h.params d).any fun q => q.name == a.name

def Uncaptured (h : Hierarchy) (t : Ty) : Prop := ∀ u, h.Inherits t u → h.captures u = false

def Undeclared (h : Hierarchy) (n : String) : Prop :=
  ∀ c ∈ h.decls.toList, ∀ p ∈ c.params, p.name ≠ n

theorem Undeclared.params {n : String} (undeclared : h.Undeclared n) {d : DeclId} {p : Slot}
    (declared : p ∈ h.params d) : p.name ≠ n := by
  unfold Hierarchy.params at declared
  rcases h.content_cases d with listed | blank
  · exact undeclared _ listed p declared
  · rw [blank] at declared
    cases declared

section Captures

variable {t u w : Ty} {d : DeclId} {spec : Spec}

theorem not_captured (free : h.captures t = false) (head : t.head? = some d)
    (written : w ∈ h.supertypes t) {p a : Slot} (paired : (p, a) ∈ (h.params d).zip (h.args t))
    (used : p.name ∈ w.typeUses) (isParam : a.isParam = true) (bounded : a.upper ≠ []) {q : Slot}
    (declared : q ∈ h.params d) (named : q.name = a.name) : a.name = p.name := by
  by_contra other
  have captured : h.captures t = true := by
    simp only [captures, head]
    refine List.any_eq_true.mpr ⟨w, written, List.any_eq_true.mpr ⟨(p, a), paired, ?_⟩⟩
    have met : ((h.params d).any fun q => q.name == a.name) = true :=
      List.any_eq_true.mpr ⟨q, declared, by simpa using named⟩
    simp only [List.contains_iff_mem.mpr used, isParam, met, bne_iff_ne.mpr other, Bool.and_true,
      Bool.true_and, Bool.not_eq_true', List.isEmpty_eq_false_iff]
    exact bounded
  rw [free] at captured
  cases captured

/-- Where nothing is captured, a parameter used as a type is looked up once. -/
theorem resolve_of_uncaptured (formed : t.Formed (h.arity ids) P) (head : t.head? = some d)
    (created : h.createSpec .empty t = .ok spec) (free : h.captures t = false)
    (written : w ∈ h.supertypes t) {n : String} (used : n ∈ w.typeUses) (site : Site)
    (bounds : List Ty) : spec.resolve [] site n bounds = spec.once n := by
  obtain ⟨spec', created', values⟩ := createSpec_spec formed head
  rw [created] at created'
  cases created'
  refine resolve_eq_once ?_ site bounds
  intro s node n' b bs found bound same known
  obtain ⟨p, paired, rfl⟩ := values n s found
  obtain ⟨s', found'⟩ := Option.isSome_iff_exists.mp known
  obtain ⟨q, declared, named⟩ := values n' s' found'
  have formedSlot := args_formed formed (List.of_mem_zip paired).2
  cases s with
  | exact m t =>
    cases same
    cases formedSlot.2.1
  | rebound => cases formedSlot
  | wildcard => cases bound
  | param m l node n bounds =>
    cases same
    exact not_captured free head written paired used rfl nofun (List.of_mem_zip declared).1 named

/-- One step up commutes with renaming, where neither the type nor the renamed one captures. -/
theorem step_rename (formed : t.Formed (h.arity ids) P) (head : t.head? = some d)
    (created : h.createSpec .empty t = .ok spec) (free : h.captures t = false)
    (free' : h.captures (t.rename ρ) = false) :
    ∃ spec', h.createSpec .empty (t.rename ρ) = .ok spec' ∧
      ∀ Q w, w ∈ h.supertypes t → w.Formed (h.arity ids) Q →
        h.subst spec' [] w = (h.subst spec [] w).rename ρ := by
  obtain ⟨spec', created', renamed⟩ := createSpec_rename formed head created
  refine ⟨spec', created', ?_⟩
  intro Q w written formedW
  have formed' : (t.rename ρ).Formed (h.arity ids) anyParam := formed.rename fun _ _ _ _ => trivial
  have head' : (t.rename ρ).head? = some d := (Ty.head?_rename t).trans head
  have written' : w ∈ h.supertypes (t.rename ρ) := by rwa [supertypes_rename head]
  refine subst_rename renamed formedW ?_
  intro s n bs used
  rw [resolve_of_uncaptured formed head created free written used,
    resolve_of_uncaptured formed' head' created' free' written' used, once_rename renamed]

/-- A type whose type parameters bear no declared name captures nothing. -/
theorem captures_of_apart {Q : ParamSet} (apart : ∀ s n bs, Q s n bs → h.Undeclared n)
    (formed : t.Formed (h.arity ids) Q) : h.captures t = false := by
  unfold captures
  split
  · rfl
  · rename_i d head
    rw [List.any_eq_false]
    intro w _
    rw [Bool.not_eq_true, List.any_eq_false]
    rintro ⟨p, a⟩ paired
    have formedSlot := args_formed formed (List.of_mem_zip paired).2
    cases a with
    | param m l node n bs =>
      have none :
          ((h.params d).any fun q => q.name == (Slot.param m l node n bs).name) = false := by
        rw [List.any_eq_false]
        intro q declared
        rw [beq_iff_eq]
        exact (apart node n bs formedSlot.2.2).params declared
      simp only [none, Bool.and_false, Bool.false_eq_true, not_false_eq_true]
    | exact | rebound | wildcard => simp [Slot.isParam]

theorem uncaptured_of_apart {Q : ParamSet} (sound : h.Sound ids)
    (selfBounded : ∀ s n, Q s n [] → Q s n [.param s n []])
    (apart : ∀ s n bs, Q s n bs → h.Undeclared n)
    (formed : t.Formed (h.arity ids) Q) (isClass : ∃ d, t.head? = some d) : h.Uncaptured t := by
  intro u inherits
  exact captures_of_apart apart (inherits_formed sound selfBounded formed isClass inherits).1

/-- So nothing is captured once all type parameters have been given undeclared names. -/
theorem uncaptured_rename (sound : h.Sound ids) (formed : t.Formed (h.arity ids) P)
    (isClass : ∃ d, t.head? = some d) (undeclared : ∀ n ∈ t.names, h.Undeclared (ρ n)) :
    h.Uncaptured (t.rename ρ) := by
  have formed' : (t.rename ρ).Formed (h.arity ids) fun _ n _ => h.Undeclared n :=
    formed.rename fun _ n _ member => undeclared n member
  refine uncaptured_of_apart sound (fun _ _ same => same) (fun _ _ _ same => same) formed' ?_
  rwa [Ty.head?_rename]

/-- A property of types that steps up keep and under which they commute with renaming. -/
structure StepsRename (h : Hierarchy) (ids : List DeclId) (ρ : String → String) (I : Ty → Prop) :
    Prop where
  formed : ∀ {t}, I t → t.Formed (h.arity ids) anyParam
  step : ∀ {t d spec}, I t → t.head? = some d → h.createSpec .empty t = .ok spec →
    ∃ spec', h.createSpec .empty (t.rename ρ) = .ok spec' ∧ ∀ w ∈ h.supertypes t,
      h.subst spec' [] w = (h.subst spec [] w).rename ρ ∧ I (h.subst spec [] w)

/-- A class type from which going up commutes with renaming. -/
structure Renamable (h : Hierarchy) (ids : List DeclId) (ρ : String → String) (t : Ty) : Prop where
  formed : t.Formed (h.arity ids) anyParam
  isClass : ∃ d, t.head? = some d
  free : h.Uncaptured t
  free' : h.Uncaptured (t.rename ρ)

/-- A step up from such a type is one from the renamed type, renamed, and leads to such a type. -/
theorem Renamable.step (renamable : h.Renamable ids ρ t) (sound : h.Sound ids)
    (head : t.head? = some d) (created : h.createSpec .empty t = .ok spec) :
    ∃ spec', h.createSpec .empty (t.rename ρ) = .ok spec' ∧ ∀ w ∈ h.supertypes t,
      h.subst spec' [] w = (h.subst spec [] w).rename ρ ∧
        h.Renamable ids ρ (h.subst spec [] w) := by
  obtain ⟨spec', created', same⟩ := step_rename renamable.formed head created
    (renamable.free t .refl) (renamable.free' _ .refl)
  refine ⟨spec', created', ?_⟩
  intro w written
  have same := same _ w written (sound.supertype head written).1
  obtain ⟨formed, e, here, -⟩ :=
    step_formed sound (fun _ _ _ => trivial) renamable.formed head written created
  refine ⟨same, formed, ⟨e, here⟩, ?_, ?_⟩
  · intro u inherits
    exact renamable.free u (.head ⟨w, written, spec, created, rfl⟩ inherits)
  · intro u inherits
    rw [← same] at inherits
    refine renamable.free' u (.head ⟨w, ?_, spec', created', rfl⟩ inherits)
    rwa [supertypes_rename head]

theorem stepsRename_renamable (sound : h.Sound ids) :
    h.StepsRename ids ρ (h.Renamable ids ρ) where
  formed renamable := renamable.formed
  step renamable head created := renamable.step sound head created

end Captures

end Hierarchy

/-! ## Uses without arguments -/

namespace Hierarchy

variable {h : Hierarchy} {ids : List DeclId} {ρ : String → String} {t : Ty} {d : DeclId}

theorem erasedUse_rename (h : Hierarchy) (t : Ty) (d : DeclId) :
    h.erasedUse (t.rename ρ) (.decl d) = (h.erasedUse t (.decl d)).rename ρ := by
  unfold erasedUse
  simp only [Ty.head?, Ty.isDiamond_rename, Ty.site_rename]
  split
  · rfl
  · split <;> rfl

theorem erasedUse_formed {P : ParamSet} (t : Ty) (member : d ∈ ids) :
    (h.erasedUse t (.decl d)).Formed (h.arity ids) P ∧
      (h.erasedUse t (.decl d)).head? = some d := by
  have arity : h.arity ids d = some (h.params d).length := arity_eq_some.mpr ⟨member, rfl⟩
  unfold erasedUse
  simp only [Ty.head?]
  cases params : h.params d with
  | nil =>
    rw [params] at arity
    exact ⟨arity, rfl⟩
  | cons p ps =>
    rw [params] at arity
    simp only [List.isEmpty_cons, Bool.false_eq_true, if_false]
    split
    · exact ⟨⟨⟨_, arity, .inl rfl⟩, trivial⟩, rfl⟩
    · exact ⟨⟨_, arity⟩, rfl⟩

theorem Renamable.erasedUse (sound : h.Sound ids) (t : Ty) (member : d ∈ ids) :
    h.Renamable ids ρ (h.erasedUse t (.decl d)) := by
  have closed : ∀ t, h.Uncaptured (h.erasedUse t (.decl d)) := by
    intro t
    obtain ⟨formed, head⟩ := erasedUse_formed (h := h) (P := .none) t member
    exact uncaptured_of_apart sound (fun _ _ none => none) (fun _ _ _ none => none.elim) formed
      ⟨d, head⟩
  obtain ⟨formed, head⟩ := erasedUse_formed (h := h) (P := anyParam) t member
  refine ⟨formed, ⟨d, head⟩, closed t, ?_⟩
  rw [← erasedUse_rename]
  exact closed _

end Hierarchy

/-! ## Climbing -/

namespace Context

variable {Γ : Context} {ids : List DeclId} {ρ : String → String} {t w : Ty} {d g : DeclId}

theorem nextSupertype_rename (head : t.head? = some d) (goal : Ty) :
    Γ.nextSupertype (t.rename ρ) goal = Γ.nextSupertype t goal := by
  have head' : (t.rename ρ).head? = some d := (Ty.head?_rename t).trans head
  unfold nextSupertype Ty.isRoot
  simp only [Ty.head?_rename, Hierarchy.interfaces_of_head head, Hierarchy.interfaces_of_head head',
    Hierarchy.superclass_of_head head, Hierarchy.superclass_of_head head']

theorem nextSupertype_leads {goal : Ty} (next : Γ.nextSupertype t goal = some w) :
    w ∈ Γ.hierarchy.supertypes t ∧ Γ.isSubtype w goal = true := by
  unfold nextSupertype at next
  dsimp only at next
  split at next
  · cases next
  · split at next
    · rename_i i found
      cases next
      split at found
      · exact ⟨List.mem_append_right _ (List.mem_of_find?_eq_some found),
          List.find?_some (p := (Γ.isSubtype · goal)) found⟩
      · cases found
    · obtain ⟨super, passed⟩ := Option.filter_eq_some_iff.mp next
      exact ⟨List.mem_append_left _ (Option.mem_toList.mpr super), passed⟩

theorem nextSupertype_mem {goal : Ty} (next : Γ.nextSupertype t goal = some w) :
    w ∈ Γ.hierarchy.supertypes t :=
  (nextSupertype_leads next).1

/-- Climbing commutes with renaming where each step does. -/
theorem parameterizeWithin_rename {I : Ty → Prop} (sound : Γ.hierarchy.Sound ids)
    (steps : Γ.hierarchy.StepsRename ids ρ I) {fuel : Nat} {target : Ty} (holds : I t)
    (head : t.head? = some d) (goal : target.head? = some g) :
    (Γ.parameterizeWithin fuel (t.rename ρ) (target.rename ρ)).result =
      renameOutcome ρ (Ty.rename ρ) (Γ.parameterizeWithin fuel t target).result := by
  have goal' : (target.rename ρ).head? = some g := (Ty.head?_rename target).trans goal
  induction fuel generalizing t d with
  | zero => rfl
  | succ fuel ih =>
    have head' : (t.rename ρ).head? = some d := (Ty.head?_rename t).trans head
    unfold parameterizeWithin
    rw [parameterizeStep_class head goal, parameterizeStep_class head' goal']
    unfold climb
    -- apart from the step up, only the declarations and the site of the type are looked at
    simp only [sound.direct.declaration goal, sound.direct.declaration goal',
      Hierarchy.isRaw_rename, Ty.isDiamond_rename, nextSupertype_rename head, Ty.name_rename head,
      Ty.name_rename goal]
    by_cases same : d = g
    · simp only [(Ty.is_iff head goal).mpr same, (Ty.is_iff head' goal').mpr same, if_true]
      rfl
    · simp only [Ty.is_eq_false head goal same, Ty.is_eq_false head' goal' same,
        Bool.false_eq_true, if_false]
      split
      · exact congrArg Except.ok (Hierarchy.erasedUse_rename Γ.hierarchy t g)
      · split
        · rfl
        · rename_i w next
          have written := nextSupertype_mem next
          obtain ⟨formed, c, above, -⟩ := sound.supertype head written
          obtain ⟨spec, created, -⟩ := Hierarchy.createSpec_spec (steps.formed holds) head
          obtain ⟨spec', created', each⟩ := steps.step holds head created
          obtain ⟨step, holds⟩ := each w written
          simp only [created, created']
          have rest := ih holds (Hierarchy.head_subst spec formed above)
          rw [← step] at rest
          exact rest

end Context

/-! ## Searching -/

mutual

/-- What a search meets of a type before it goes up: the type itself and, through a type parameter,
its bounds. -/
def Ty.throughBounds : Ty → List Ty
  | .decl d => [.decl d]
  | .bare s d => [.bare s d]
  | .app s d args => [.app s d args]
  | .param s n bounds => .param s n bounds :: Ty.throughAllBounds bounds
  | .array s e => [.array s e]

def Ty.throughAllBounds : List Ty → List Ty
  | [] => []
  | t :: ts => t.throughBounds ++ Ty.throughAllBounds ts

end

theorem Ty.throughAllBounds_eq_flatMap (ts : List Ty) :
    Ty.throughAllBounds ts = ts.flatMap Ty.throughBounds := by
  induction ts with
  | nil => rfl
  | cons t ts ih => rw [Ty.throughAllBounds, ih, List.flatMap_cons]

theorem Ty.throughBounds_of_head {t : Ty} {d : DeclId} (head : t.head? = some d) :
    t.throughBounds = [t] := by
  cases t with
  | decl | bare | app => rfl
  | param | array => cases head

theorem Ty.throughBounds_of_not_head {t : Ty} (head : t.head? = none) :
    t.throughBounds = t :: t.bounds.flatMap Ty.throughBounds := by
  cases t with
  | decl | bare | app => cases head
  | param s n bs => rw [Ty.throughBounds, Ty.throughAllBounds_eq_flatMap, Ty.bounds]
  | array => rfl

theorem Ty.bounds_rename {ρ : String → String} (t : Ty) :
    (t.rename ρ).bounds = t.bounds.map (Ty.rename ρ) := by
  cases t with
  | param s n bs => exact Ty.renameAll_eq_map bs
  | decl | bare | app | array => rfl

theorem mapM_simulates {ε α β : Type} {f g : α → Except ε β} {k : β → β} {R : β → Prop}
    {xs : List α} (each : ∀ x ∈ xs, ∃ y, f x = .ok y ∧ g x = .ok (k y) ∧ R y) :
    ∃ ys, xs.mapM f = .ok ys ∧ xs.mapM g = .ok (ys.map k) ∧ ∀ y ∈ ys, R y := by
  induction xs with
  | nil => exact ⟨[], rfl, rfl, nofun⟩
  | cons x xs ih =>
    obtain ⟨y, first, first', good⟩ := each x List.mem_cons_self
    obtain ⟨ys, rest, rest', goods⟩ := ih fun x member => each x (List.mem_cons_of_mem _ member)
    refine ⟨y :: ys, ?_, ?_, ?_⟩
    · rw [List.mapM_cons, first, rest]
      rfl
    · rw [List.mapM_cons, first', rest']
      rfl
    · exact List.forall_mem_cons.mpr ⟨good, goods⟩

namespace Hierarchy

variable {h : Hierarchy} {ids : List DeclId} {ρ : String → String} {t w : Ty} {d e : DeclId}

/-- A type that mentions no type parameter is its own renaming. -/
theorem rename_of_closed {P : ParamSet} (formed : t.Formed (h.arity ids) P)
    (closed : h.mentions t = []) : t.rename ρ = t := by
  have nothing : Renamed ρ .empty .empty := fun _ => rfl
  have root : ∀ s n bs, (Spec.resolve .empty [] s n bs) = .object := by
    intro s n bs
    refine resolve_eq_once ?_ s bs
    intro _ _ _ _ _ found
    rw [NameMap.get?_empty] at found
    cases found
  -- substituting nothing leaves such a type alone, so this is the lemma on substitution
  have same := subst_rename nothing formed fun s n bs _ => by rw [root]; rfl
  rw [subst_eq_self formed (by simp [closed])] at same
  exact same.symm

/-- Instantiating a supertype commutes with renaming where nothing is captured on the way. -/
theorem instantiate_rename (sound : h.Sound ids) (renamable : h.Renamable ids ρ t)
    (written : w ∈ h.supertypes t) :
    ∃ u, h.instantiate t w = .ok u ∧ h.instantiate (t.rename ρ) w = .ok (u.rename ρ) ∧
      h.Renamable ids ρ u := by
  obtain ⟨d, head⟩ := renamable.isClass
  obtain ⟨spec, created, -⟩ := createSpec_spec renamable.formed head
  obtain ⟨spec', created', above⟩ := renamable.step sound head created
  obtain ⟨step, renamable⟩ := above w written
  obtain ⟨formed, e, here, edge⟩ := sound.supertype head written
  unfold instantiate
  simp only [isRaw_rename, Ty.isDiamond_rename]
  split
  · rename_i closed
    have none : h.mentions w = [] := by simpa [hasParams] using closed
    rw [subst_eq_self formed (by simp [none])] at renamable
    exact ⟨w, rfl, by rw [rename_of_closed formed none], renamable⟩
  · split
    · rw [sound.direct.declaration here, erasedUse_rename]
      exact ⟨_, rfl, rfl, .erasedUse sound t (sound.edge_mem edge)⟩
    · rw [created, created']
      exact ⟨_, rfl, congrArg Except.ok step, renamable⟩

theorem instantiateAll_rename (sound : h.Sound ids) (renamable : h.Renamable ids ρ t) :
    ∃ supers, h.instantiateAll t = .ok supers ∧
      h.instantiateAll (t.rename ρ) = .ok (supers.map (Ty.rename ρ)) ∧
      ∀ u ∈ supers, h.Renamable ids ρ u := by
  obtain ⟨d, head⟩ := renamable.isClass
  have head' : (t.rename ρ).head? = some d := (Ty.head?_rename t).trans head
  unfold instantiateAll
  rw [interfaces_of_head head', superclass_of_head head', ← interfaces_of_head head,
    ← superclass_of_head head]
  refine mapM_simulates ?_
  intro w written
  refine instantiate_rename sound renamable ?_
  rw [supertypes, List.mem_append]
  exact (List.mem_append.mp written).symm

/-- A type from which searching commutes with renaming: going up does so from each class type that a
search from it meets. -/
def RenamableThrough (h : Hierarchy) (ids : List DeclId) (ρ : String → String) (t : Ty) : Prop :=
  ∀ u ∈ t.throughBounds, ∀ e, u.head? = some e → h.Renamable ids ρ u

theorem Renamable.through (renamable : h.Renamable ids ρ t) : h.RenamableThrough ids ρ t := by
  obtain ⟨e, head⟩ := renamable.isClass
  intro u member _ _
  rw [Ty.throughBounds_of_head head, List.mem_singleton] at member
  rwa [member]

/-- The search commutes with renaming where nothing is captured on the way. -/
theorem locateFrom_rename (sound : h.Sound ids) {fuel : Nat} {queue : List Ty}
    {visited : List DeclId} (all : ∀ t ∈ queue, h.RenamableThrough ids ρ t) :
    h.locateFrom d fuel (queue.map (Ty.rename ρ)) visited =
      renameOutcome ρ (Option.map (Ty.rename ρ)) (h.locateFrom d fuel queue visited) := by
  induction fuel generalizing queue visited with
  | zero => rfl
  | succ fuel ih =>
    cases queue with
    | nil => rfl
    | cons t queue =>
      have through := all t List.mem_cons_self
      -- declarations are not renamed, so both searches visit the same ones
      have further : ∀ more visited, (∀ u ∈ more, h.RenamableThrough ids ρ u) →
          h.locateFrom d fuel (queue.map (Ty.rename ρ) ++ more.map (Ty.rename ρ)) visited =
            renameOutcome ρ (Option.map (Ty.rename ρ))
              (h.locateFrom d fuel (queue ++ more) visited) := by
        intro more visited new
        rw [← List.map_append]
        refine ih fun u member => ?_
        rcases List.mem_append.mp member with queued | new'
        · exact all u (List.mem_cons_of_mem _ queued)
        · exact new u new'
      rw [List.map_cons]
      unfold locateFrom
      rw [Ty.head?_rename]
      cases head : t.head? with
      | none =>
        dsimp only
        rw [Ty.bounds_rename]
        refine further t.bounds visited ?_
        intro b member u inside
        refine through u ?_
        rw [Ty.throughBounds_of_not_head head]
        exact List.mem_cons_of_mem _ (List.mem_flatMap.mpr ⟨b, member, inside⟩)
      | some e =>
        have renamable : h.Renamable ids ρ t := by
          refine through t ?_ e head
          rw [Ty.throughBounds_of_head head]
          exact List.mem_singleton_self t
        simp only [Ty.isUse_rename, args_rename renamable.formed, List.length_map]
        split
        · exact ih fun u queued => all u (List.mem_cons_of_mem _ queued)
        · split
          · split
            · rfl
            · split <;> rfl
          · obtain ⟨supers, instantiated, instantiated', renamables⟩ :=
              instantiateAll_rename sound renamable
            rw [instantiated, instantiated']
            exact further supers (e :: visited) fun u new => (renamables u new).through

/-- There are names enough that no declaration uses for a parameter. -/
theorem exists_undeclared (h : Hierarchy) :
    ∃ σ : String → String, Function.Injective σ ∧ ∀ n, h.Undeclared (σ n) := by
  -- a name longer than all the declared ones together is none of them
  let lengths := h.decls.toList.flatMap fun c => c.params.map fun p => p.name.length
  refine ⟨fun n => n ++ String.ofList (List.replicate (lengths.sum + 1) 'x'), ?_, ?_⟩
  · intro n m equal
    exact (String.append_left_inj _).mp equal
  · intro n c listed p declared same
    have member : p.name.length ∈ lengths :=
      List.mem_flatMap.mpr ⟨c, listed, List.mem_map_of_mem declared⟩
    have short := List.le_sum_of_mem member
    rw [same, String.length_append, String.length_ofList, List.length_replicate] at short
    omega

end Hierarchy

/-! ## The law of renaming -/

/-- From the renamed type, the parameterisation and the locator give the renamed outcomes. -/
def Settings.CommutesWith (settings : Settings) (h : Hierarchy) (d : DeclId) (ρ : String → String)
    (t : Ty) : Prop :=
  ((Engine.ofSettings settings).parameterize h (t.rename ρ) (.decl d)).result =
      renameOutcome ρ (Ty.rename ρ)
        ((Engine.ofSettings settings).parameterize h t (.decl d)).result ∧
    ((Engine.ofSettings settings).find h (.decl d) (t.rename ρ)).1.result =
      renameOutcome ρ (Option.map (Ty.rename ρ))
        ((Engine.ofSettings settings).find h (.decl d) t).1.result

section Law

variable {settings : Settings} {h : Hierarchy} {ids : List DeclId} {d : DeclId}
  {ρ σ : String → String} {t : Ty}

theorem Settings.CommutesWith.of_renamable (sound : h.Sound ids) (renamable : h.Renamable ids ρ t) :
    settings.CommutesWith h d ρ t := by
  constructor
  · unfold Engine.parameterize Context.parameterize
    simp only [Traced.result_reported, Ty.weight_rename]
    obtain ⟨e, head⟩ := renamable.isClass
    have goal : (Ty.decl d).head? = some d := rfl
    exact Context.parameterizeWithin_rename (Γ := ⟨h, settings.marker⟩) sound
      (Hierarchy.stepsRename_renamable sound) renamable head goal
  · by_cases generic : h.params d = []
    · have none : ∀ t, ((Engine.ofSettings settings).find h (.decl d) t).1.result = .ok none := by
        intro t
        unfold Engine.find Engine.locate
        simp only [Ty.head?, generic, List.isEmpty_nil, if_true]
        rfl
      rw [none, none]
      rfl
    · rw [Engine.find_result settings h _ generic, Engine.find_result settings h _ generic]
      rw [Hierarchy.locate_eq, Hierarchy.locate_eq, Ty.weight_rename]
      have all : ∀ u ∈ [t], h.RenamableThrough ids ρ u :=
        List.forall_mem_singleton.mpr renamable.through
      exact Hierarchy.locateFrom_rename sound all

theorem map_rename_rename (o : Option Ty) :
    (o.map (Ty.rename ρ)).map (Ty.rename σ) = o.map (Ty.rename (σ ∘ ρ)) := by
  cases o with
  | none => rfl
  | some t => exact congrArg some (Ty.rename_rename t)

/-- Renaming twice is one renaming. -/
theorem Settings.CommutesWith.comp_iff (first : settings.CommutesWith h d ρ t) :
    settings.CommutesWith h d σ (t.rename ρ) ↔ settings.CommutesWith h d (σ ∘ ρ) t := by
  unfold CommutesWith
  rw [Ty.rename_rename, first.1, first.2, renameOutcome_rename Ty.rename_rename,
    renameOutcome_rename map_rename_rename]

theorem Settings.CommutesWith.cancel {τ : String → String} (inverse : Function.LeftInverse τ σ)
    (outer : settings.CommutesWith h d σ (t.rename ρ))
    (both : settings.CommutesWith h d (σ ∘ ρ) t) :
    settings.CommutesWith h d ρ t := by
  have undo : Function.LeftInverse (Ty.rename τ) (Ty.rename σ) := Ty.rename_of_leftInverse inverse
  have undoAll : Function.LeftInverse (Option.map (Ty.rename τ)) (Option.map (Ty.rename σ)) := by
    intro o
    rw [map_rename_rename, inverse.comp_eq_id]
    cases o with
    | none => rfl
    | some t => exact congrArg some (Ty.rename_id t)
  obtain ⟨outerP, outerF⟩ := outer
  obtain ⟨bothP, bothF⟩ := both
  rw [Ty.rename_rename, bothP, ← renameOutcome_rename Ty.rename_rename] at outerP
  rw [Ty.rename_rename, bothF, ← renameOutcome_rename map_rename_rename] at outerF
  exact ⟨((renameOutcome_of_leftInverse inverse undo).injective outerP).symm,
    ((renameOutcome_of_leftInverse inverse undoAll).injective outerF).symm⟩

/-- A renaming commutes with going up if giving undeclared names does, before it and after it. -/
theorem Settings.CommutesWith.of_undeclared {P : ParamSet} (sound : h.Sound ids)
    (formed : t.Formed (h.arity ids) P) (isClass : ∃ e, t.head? = some e)
    (injective : Function.Injective σ) (undeclared : ∀ n, h.Undeclared (σ n))
    (before : settings.CommutesWith h d σ t) (after : settings.CommutesWith h d σ (t.rename ρ)) :
    settings.CommutesWith h d ρ t := by
  obtain ⟨τ, inverse⟩ := injective.hasLeftInverse
  -- between the two types with undeclared names nothing is captured
  have across : settings.CommutesWith h d (σ ∘ ρ ∘ τ) (t.rename σ) := by
    refine .of_renamable sound ⟨formed.rename fun _ _ _ _ => trivial, ?_, ?_, ?_⟩
    · rwa [Ty.head?_rename]
    · exact Hierarchy.uncaptured_rename sound formed isClass fun n _ => undeclared n
    · rw [Ty.rename_rename]
      exact Hierarchy.uncaptured_rename sound formed isClass fun n _ => undeclared _
  have both : settings.CommutesWith h d (σ ∘ ρ) t := by
    have composed := before.comp_iff.mp across
    rwa [Function.comp_assoc, Function.comp_assoc, inverse.comp_eq_id, Function.comp_id] at composed
  exact after.cancel inverse both

end Law

/-- Going up from a class type commutes with a renaming of its type parameters unless something is
captured on the way up, from the type or from the renamed one. Names that no declaration has for a
parameter are not captured. So going up commutes with all injective renamings exactly when every
renamed copy of the type gives what it gives under such names. -/
theorem going_up_rename {h : Hierarchy} {rs : List Registry} (loaded : h.Loaded rs) {scope : Scope}
    (proper : scope.Proper) {t : Ty} (reads : h.Reads rs scope t) (isClass : t.kind = .cls)
    (d : DeclId) (settings : Settings) :
    (∀ ρ, h.Uncaptured t → h.Uncaptured (t.rename ρ) → settings.CommutesWith h d ρ t) ∧
      (∀ ρ, (∀ n ∈ t.names, h.Undeclared (ρ n)) → h.Uncaptured (t.rename ρ)) ∧
      ((∀ ρ, Set.InjOn ρ {n | n ∈ t.names} → settings.CommutesWith h d ρ t) ↔
        ∀ ρ, Set.InjOn ρ {n | n ∈ t.names} → ∀ σ, Set.InjOn σ {n | n ∈ (t.rename ρ).names} →
          (∀ n ∈ (t.rename ρ).names, h.Undeclared (σ n)) →
          settings.CommutesWith h d σ (t.rename ρ)) := by
  obtain ⟨ids, sound, known⟩ := loaded.sound
  have formed := reads.formed proper known
  have hasHead := Ty.head_of_class isClass
  refine ⟨?_, ?_, ?_, ?_⟩
  · intro ρ free free'
    have formed := formed.mono (fun _ _ known => known) fun _ _ _ _ => trivial
    exact .of_renamable sound ⟨formed, hasHead, free, free'⟩
  · intro ρ undeclared
    exact Hierarchy.uncaptured_rename sound formed hasHead undeclared
  · intro all ρ injective σ injective' _
    refine (all ρ injective).comp_iff.mpr (all (σ ∘ ρ) (injective'.comp injective ?_))
    intro n member
    show ρ n ∈ (t.rename ρ).names
    rw [Ty.names_rename]
    exact List.mem_map_of_mem member
  · intro fresh ρ injective
    obtain ⟨σ, injective', undeclared⟩ := h.exists_undeclared
    have before : settings.CommutesWith h d σ (t.rename id) :=
      fresh id Function.injective_id.injOn σ injective'.injOn fun n _ => undeclared n
    have after : settings.CommutesWith h d σ (t.rename ρ) :=
      fresh ρ injective σ injective'.injOn fun n _ => undeclared n
    rw [Ty.rename_id] at before
    exact .of_undeclared sound formed hasHead injective' undeclared before after

def itemScope : Scope := NameMap.empty.insert "A" (.param ⟨0, 0⟩ "A" [.decl ⟨"Text", 3⟩])

theorem itemScope_proper : itemScope.Proper := by
  intro name t found
  unfold itemScope at found
  rw [NameMap.get?_insert] at found
  split at found
  · rename_i same
    cases found
    exact ⟨_, _, by rw [same]⟩
  · cases found

def itemCrate : Ty := reelLibrary.typeIn itemScope "Crate<A, Text>"

theorem uncaptured_of_reelInstances {t : Ty}
    (closed : ∀ u ∈ reelInstances t, ∀ v ∈ reelLibrary.hierarchy.directSupers u,
      v ∈ reelInstances t)
    (free : ∀ u ∈ reelInstances t, reelLibrary.hierarchy.captures u = false) :
    reelLibrary.hierarchy.Uncaptured t :=
  fun _ inherits => free _ (Hierarchy.mem_of_inherits closed List.mem_cons_self inherits)

/-- The item may be called `C`, which is no parameter of a crate. -/
theorem itemCrate_renamed : ({} : Settings).CommutesWith reelLibrary.hierarchy ⟨"Sequence", 2⟩
    (fun _ => "C") itemCrate := by
  have reads : reelLibrary.hierarchy.Reads [reelLibrary.registry, .root] itemScope itemCrate :=
    reads_in_reelLibrary (by decide +kernel)
  have isClass : itemCrate.kind = .cls := by decide +kernel
  refine (going_up_rename loaded_reelLibrary itemScope_proper reads isClass _ _).1 _ ?_ ?_
  · exact uncaptured_of_reelInstances (by decide +kernel) (by decide +kernel)
  · exact uncaptured_of_reelInstances (by decide +kernel) (by decide +kernel)

/-- The item may not be called `B`: that is the other parameter of a crate, so the crate of items is
taken for a sequence of arrays of `Text`, its second argument. -/
theorem itemCrate_captured :
    ((Engine.ofSettings {}).parameterize reelLibrary.hierarchy
        (itemCrate.rename (Equiv.swap "A" "B")) (.decl ⟨"Sequence", 2⟩)).result ≠
      renameOutcome (Equiv.swap "A" "B") (Ty.rename (Equiv.swap "A" "B"))
        ((Engine.ofSettings {}).parameterize reelLibrary.hierarchy itemCrate
          (.decl ⟨"Sequence", 2⟩)).result ∧
    ((Engine.ofSettings {}).find reelLibrary.hierarchy (.decl ⟨"Sequence", 2⟩)
        (itemCrate.rename (Equiv.swap "A" "B"))).1.result ≠
      renameOutcome (Equiv.swap "A" "B") (Option.map (Ty.rename (Equiv.swap "A" "B")))
        ((Engine.ofSettings {}).find reelLibrary.hierarchy (.decl ⟨"Sequence", 2⟩)
          itemCrate).1.result := by
  constructor
  · intro same
    have same := congrArg Except.toOption same
    revert same
    decide +kernel
  · intro same
    have same := congrArg Except.toOption same
    revert same
    decide +kernel

-- what the parameterisation gives for a crate of `A`, and for one of `B`
example :
    ((Engine.ofSettings {}).parameterize reelLibrary.hierarchy itemCrate
        (.decl ⟨"Sequence", 2⟩)).result.toOption.map reelLibrary.hierarchy.render =
      some "Sequence<A[]>" ∧
    ((Engine.ofSettings {}).parameterize reelLibrary.hierarchy
        (itemCrate.rename (Equiv.swap "A" "B")) (.decl ⟨"Sequence", 2⟩)).result.toOption.map
          reelLibrary.hierarchy.render =
      some "Sequence<Text[]>" := by
  decide +kernel

end NominalGenerics
