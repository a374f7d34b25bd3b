import NominalGenerics.Arguments
import NominalGenerics.Proofs.Instances

/-!
# Ground types

A ground type is closed and has all its arguments at every depth, none of them a wildcard. Where
every written supertype is plain in this sense, what a ground type inherits is ground again
(`Ground.inherits`), so nothing on the way up is raw or a diamond. The arguments that a ground type
supplies are found under the names of the parameters they are supplied for (`arguments_ground`).
-/

namespace NominalGenerics

namespace Hierarchy

mutual

/-- Whether a type has no wildcard, raw or diamond use at any depth. -/
def isPlain (h : Hierarchy) : Ty → Bool
  | .decl _ | .param _ _ _ => true
  | .bare s d => !h.isRaw (.bare s d)
  | .app _ _ args => !args.isEmpty && h.arePlain args
  | .array _ e => h.isPlain e

def isPlainSlot (h : Hierarchy) : Slot → Bool
  | .exact _ t => h.isPlain t
  | .rebound _ _ _ [] | .param _ _ _ _ _ => true
  | .rebound _ _ _ (u :: _) => h.isPlain u
  | .wildcard _ _ _ => false

def arePlain (h : Hierarchy) : List Slot → Bool
  | [] => true
  | s :: ss => h.isPlainSlot s && h.arePlain ss

end

def PlainSupertypes (h : Hierarchy) : Prop :=
  ∀ c ∈ h.decls.toList, ∀ w ∈ c.super.toList ++ c.interfaces, h.isPlain w = true

instance (h : Hierarchy) : Decidable h.PlainSupertypes :=
  inferInstanceAs (Decidable (∀ c ∈ h.decls.toList, ∀ w ∈ c.super.toList ++ c.interfaces, _))

def DistinctParams (h : Hierarchy) : Prop := ∀ c ∈ h.decls.toList, (c.params.map Slot.name).Nodup

instance (h : Hierarchy) : Decidable h.DistinctParams :=
  inferInstanceAs (Decidable (∀ c ∈ h.decls.toList, _))

/-- What holds of the root and of every supertype as written holds of the supertypes of each
declaration. -/
theorem supertypes_all {h : Hierarchy} {P : Ty → Prop} (root : P .object)
    (all : ∀ c ∈ h.decls.toList, ∀ w ∈ c.super.toList ++ c.interfaces, P w) {d : DeclId} {w : Ty}
    (written : w ∈ h.supertypes (.decl d)) : P w := by
  have own : ∀ w ∈ (h.content d).super.toList ++ (h.content d).interfaces, P w := by
    rcases h.content_cases d with listed | blank
    · exact all _ listed
    · rw [blank]
      exact fun _ member => nomatch member
  rcases List.mem_append.mp written with super | interface
  · simp only [superclass, Option.mem_toList] at super
    split at super
    · cases super
    · cases above : (h.content d).super with
      | none =>
        rw [above] at super
        cases super
        exact root
      | some u =>
        rw [above] at super
        cases super
        exact own _ (List.mem_append_left _ (Option.mem_toList.mpr above))
  · exact own w (List.mem_append_right _ interface)

theorem PlainSupertypes.supertype {h : Hierarchy} (plain : h.PlainSupertypes) {d : DeclId} {w : Ty}
    (written : w ∈ h.supertypes (.decl d)) : h.isPlain w = true :=
  supertypes_all (P := fun w => h.isPlain w = true) rfl plain written

theorem DistinctParams.nodup {h : Hierarchy} (distinct : h.DistinctParams) (d : DeclId) :
    ((h.params d).map Slot.name).Nodup := by
  unfold params
  rcases h.content_cases d with listed | blank
  · exact distinct _ listed
  · rw [blank]
    exact List.nodup_nil

end Hierarchy

mutual

/-- A closed type with all its arguments, each exactly one type, at every depth. -/
def Ty.Ground (A : Arity) : Ty → Prop
  | .decl d => A d = some 0
  | .app _ d args => A d = some args.length ∧ args ≠ [] ∧ Slot.GroundAll A args
  | .array _ e => e.Ground A
  | .bare _ _ | .param _ _ _ => False

def Slot.Ground (A : Arity) : Slot → Prop
  | .exact m t => m.resolved = false ∧ t.Ground A
  | .rebound _ _ _ _ | .param _ _ _ _ _ | .wildcard _ _ _ => False

def Slot.GroundAll (A : Arity) : List Slot → Prop
  | [] => True
  | s :: ss => s.Ground A ∧ Slot.GroundAll A ss

end

theorem Slot.groundAll_iff {A : Arity} {ss : List Slot} :
    Slot.GroundAll A ss ↔ ∀ s ∈ ss, s.Ground A := by
  induction ss with
  | nil => simp [Slot.GroundAll]
  | cons s ss ih => simp [Slot.GroundAll, ih]

theorem Ty.Ground.not_isParam {A : Arity} {t : Ty} (ground : t.Ground A) : t.isParam = false := by
  cases t with
  | param => cases ground
  | decl | bare | app | array => rfl

theorem Ty.Ground.not_isDiamond {A : Arity} {t : Ty}
    (ground : t.Ground A) : t.isDiamond = false := by
  cases t with
  | app s d args =>
    cases args with
    | nil => exact absurd rfl ground.2.1
    | cons => rfl
  | decl | bare | param | array => rfl

namespace Hierarchy

variable {h : Hierarchy} {ids : List DeclId}

mutual

/-- Ground types are formed, and mention no type parameter. -/
theorem Ground.formed {P : ParamSet} : ∀ {t : Ty}, t.Ground (h.arity ids) →
    t.Formed (h.arity ids) P
  | .decl _, ground => ground
  | .app _ _ _, ⟨known, _, ground⟩ => ⟨⟨_, known, .inr rfl⟩, GroundAll.formed ground⟩
  | .array _ e, ground => Ground.formed (t := e) ground

theorem GroundAll.formed {P : ParamSet} : ∀ {ss : List Slot}, Slot.GroundAll (h.arity ids) ss →
    Slot.FormedAll (h.arity ids) P ss
  | [], _ => trivial
  | .exact _ t :: _, ⟨⟨fresh, ground⟩, rest⟩ =>
    ⟨⟨fresh, ground.not_isParam, Ground.formed (t := t) ground⟩, GroundAll.formed rest⟩

end

theorem not_plain_bare {P : ParamSet} {s : Site} {d : DeclId}
    (formed : (Ty.bare s d).Formed (h.arity ids) P) : h.isPlain (.bare s d) = false := by
  obtain ⟨k, known⟩ := formed
  have length := (arity_eq_some.mp known).2
  have some : h.params d ≠ [] := List.ne_nil_of_length_eq_add_one length
  simp [isPlain, isRaw, isGeneric, Ty.head?, some]

mutual

/-- What a closed text without wildcards, raw uses and diamonds reads as is ground. -/
theorem ground_of_plain : ∀ {t : Ty}, t.Formed (h.arity ids) .none → h.isPlain t = true →
    t.Ground (h.arity ids)
  | .decl _, formed, _ => formed
  | .bare _ _, formed, plain => by
    rw [not_plain_bare formed] at plain
    cases plain
  | .app _ _ args, ⟨⟨k, known, fits⟩, formed⟩, plain => by
    rw [isPlain, Bool.and_eq_true, Bool.not_eq_true', List.isEmpty_eq_false_iff] at plain
    refine ⟨?_, plain.1, groundAll_of_plain formed plain.2⟩
    rw [known, fits.resolve_left plain.1]
  | .param _ _ _, formed, _ => nomatch formed
  | .array _ e, formed, plain => ground_of_plain (t := e) formed plain

theorem groundAll_of_plain : ∀ {ss : List Slot}, Slot.FormedAll (h.arity ids) .none ss →
    h.arePlain ss = true → Slot.GroundAll (h.arity ids) ss
  | [], _, _ => trivial
  | .exact _ t :: _, ⟨⟨fresh, _, formed⟩, rest⟩, plain => by
    rw [arePlain, Bool.and_eq_true] at plain
    exact ⟨⟨fresh, ground_of_plain (t := t) formed plain.1⟩, groundAll_of_plain rest plain.2⟩
  | .rebound _ _ _ _ :: _, formed, _ => nomatch formed.1
  | .param _ _ _ _ _ :: _, formed, _ => nomatch formed.1.2.2
  | .wildcard _ _ _ :: _, _, plain => nomatch plain

end

/-! ## Going up from ground types -/

section Up

variable {P : ParamSet} {spec : Spec}

structure Grounds (A : Arity) (spec : Spec) : Prop where
  values : ∀ n s, spec.get? n = some s → s.Ground A
  object : A .object = some 0

theorem Grounds.resolve {A : Arity} (grounds : Grounds A spec) (s : Site) (n : String)
    (bs : List Ty) : (spec.resolve [] s n bs).Ground A := by
  unfold Spec.resolve
  simp only [List.contains_nil, Bool.false_eq_true, dif_neg, not_false_eq_true]
  split
  · exact grounds.object
  · rename_i value known
    have ground := grounds.values n value known
    cases value with
    | exact m t =>
      cases t with
      | param => cases ground.2
      | decl | bare | app | array => exact ground.2
    | rebound | param | wildcard => cases ground

theorem Grounds.resolveSlot {A : Arity} (grounds : Grounds A spec) (s : Slot) :
    (spec.resolveSlot [] s).Ground A := by
  unfold Spec.resolveSlot
  cases known : spec.get? s.name with
  | none => exact ⟨rfl, grounds.object⟩
  | some value => exact grounds.values _ _ known

mutual

/-- Ground arguments in place of the parameters of a plain type make it ground. -/
theorem subst_ground (grounds : Grounds (h.arity ids) spec) : ∀ {t : Ty},
    t.Formed (h.arity ids) P → h.isPlain t = true → (h.subst spec [] t).Ground (h.arity ids)
  | .decl _, formed, _ => by
    rw [subst, Formed.params_eq_nil formed]
    exact formed
  | .bare _ _, formed, plain => by
    rw [not_plain_bare formed] at plain
    cases plain
  | .app _ _ args, ⟨⟨k, known, fits⟩, formed⟩, plain => by
    rw [isPlain, Bool.and_eq_true, Bool.not_eq_true', List.isEmpty_eq_false_iff] at plain
    have length := length_substSlots h spec [] args
    refine ⟨?_, ?_, substSlots_ground grounds formed plain.2⟩
    · rw [known, length, fits.resolve_left plain.1]
    · rw [← List.length_pos_iff, length, List.length_pos_iff]
      exact plain.1
  | .param s n bs, _, _ => grounds.resolve s n bs
  | .array _ e, formed, plain => subst_ground grounds (t := e) formed plain

theorem substSlots_ground (grounds : Grounds (h.arity ids) spec) : ∀ {ss : List Slot},
    Slot.FormedAll (h.arity ids) P ss → h.arePlain ss = true →
      Slot.GroundAll (h.arity ids) (h.substSlots spec [] ss)
  | [], _, _ => trivial
  | .exact m t :: _, ⟨⟨_, _, formed⟩, rest⟩, plain => by
    rw [arePlain, Bool.and_eq_true] at plain
    have ground := subst_ground grounds formed plain.1
    refine ⟨?_, substSlots_ground grounds rest plain.2⟩
    rw [substSlot]
    generalize h.subst spec [] t = u at ground
    cases u with
    | param => cases ground
    | decl | bare | app | array => exact ⟨rfl, ground⟩
  | .rebound _ _ _ _ :: _, formed, _ => nomatch formed.1
  | .param _ _ _ _ _ :: _, ⟨_, rest⟩, plain => by
    rw [arePlain, Bool.and_eq_true] at plain
    exact ⟨grounds.resolveSlot _, substSlots_ground grounds rest plain.2⟩
  | .wildcard _ _ _ :: _, _, plain => nomatch plain

end

theorem Ground.settled {t : Ty} (ground : t.Ground (h.arity ids)) : h.Settled t := by
  refine ⟨?_, ground.not_isDiamond⟩
  cases t with
  | bare => cases ground
  | decl | app | param | array => rfl

theorem Ground.args {t : Ty} (ground : t.Ground (h.arity ids)) {s : Slot} (member : s ∈ h.args t) :
    s.Ground (h.arity ids) := by
  cases t with
  | decl d =>
    rw [Hierarchy.args, Formed.params_eq_nil (P := .none) ground] at member
    cases member
  | app _ _ as => exact Slot.groundAll_iff.mp ground.2.2 s member
  | bare | param | array => cases member

/-- A ground use of a declaration without parameters is the declaration. -/
theorem Ground.eq_decl {t : Ty} {d : DeclId} (ground : t.Ground (h.arity ids))
    (head : t.head? = some d) (none : h.params d = []) : t = .decl d := by
  cases t with
  | decl e =>
    cases head
    rfl
  | app s e as =>
    cases head
    have length := (arity_eq_some.mp ground.1).2
    rw [none] at length
    exact absurd (List.eq_nil_of_length_eq_zero length.symm) ground.2.1
  | bare => cases ground
  | param | array => cases head

/-- Direct supertypes of ground types are ground where every supertype is written plainly. -/
theorem Ground.directSuper (sound : h.Sound ids) (plain : h.PlainSupertypes) {t u : Ty}
    (ground : t.Ground (h.arity ids)) {d : DeclId} (head : t.head? = some d)
    (direct : h.DirectSuper t u) : u.Ground (h.arity ids) ∧ ∃ e, u.head? = some e := by
  obtain ⟨w, written, spec, created, rfl⟩ := direct
  obtain ⟨spec', created', values⟩ := createSpec_spec (Ground.formed (P := .none) ground) head
  rw [created] at created'
  cases created'
  obtain ⟨formed, e, above, -⟩ := sound.supertype head written
  have grounds : Grounds (h.arity ids) spec := by
    refine ⟨?_, sound.arity_object⟩
    intro n s found
    obtain ⟨p, paired, -⟩ := values n s found
    exact Ground.args ground (List.of_mem_zip paired).2
  rw [supertypes_of_head head] at written
  exact ⟨subst_ground grounds formed (plain.supertype written), e, head_subst spec formed above⟩

theorem Ground.inherits (sound : h.Sound ids) (plain : h.PlainSupertypes) {t u : Ty}
    (ground : t.Ground (h.arity ids)) (isClass : ∃ d, t.head? = some d)
    (inherits : h.Inherits t u) : u.Ground (h.arity ids) ∧ ∃ e, u.head? = some e := by
  induction inherits with
  | refl => exact ⟨ground, isClass⟩
  | tail _ direct ih =>
    obtain ⟨ground, d, head⟩ := ih
    exact Ground.directSuper sound plain ground head direct

theorem Ground.ascending (sound : h.Sound ids) (plain : h.PlainSupertypes) {t : Ty} {d : DeclId}
    (ground : t.Ground (h.arity ids)) (head : t.head? = some d) : h.Ascending ids .none t where
  formed := Ground.formed ground
  isClass := ⟨d, head⟩
  settled _ inherits := Ground.settled (Ground.inherits sound plain ground ⟨d, head⟩ inherits).1

end Up

/-! ## Supplied arguments -/

section Arguments

def Keeps (a b : Spec) : Prop := ∀ n s, a.get? n = some s → b.get? n = some s

theorem bindNew_keeps {ps ss : List Slot} {bound : Spec} : Keeps bound (bindNew ps ss bound).1 := by
  induction ps generalizing ss bound with
  | nil => exact fun _ _ found => found
  | cons p ps ih =>
    cases ss with
    | nil => exact fun _ _ found => found
    | cons a ss =>
      unfold bindNew
      split
      · rename_i new
        intro n s found
        refine ih n s ?_
        rw [NameMap.get?_insert, if_neg ?_, found]
        rintro rfl
        simp [NameMap.contains, found] at new
      · exact ih

/-- Names that are new and different are bound to the slots beside them. -/
theorem bindNew_binds {ps ss : List Slot} {bound : Spec} (params : ∀ p ∈ ps, p.isParam = true)
    (nodup : (ps.map Slot.name).Nodup) (new : ∀ p ∈ ps, bound.get? p.name = none) :
    ∀ x ∈ ps.zip ss, (bindNew ps ss bound).1.get? x.1.name = some x.2 := by
  induction ps generalizing ss bound with
  | nil => exact fun _ member => nomatch member
  | cons p ps ih =>
    cases ss with
    | nil => exact fun _ member => nomatch member
    | cons a ss =>
      obtain ⟨once, nodup⟩ := List.nodup_cons.mp nodup
      have binds : (p.isParam && !bound.contains p.name) = true := by
        simp [params p List.mem_cons_self, NameMap.contains, new p List.mem_cons_self]
      intro x member
      unfold bindNew
      rw [if_pos binds]
      rcases List.mem_cons.mp member with rfl | member
      · refine bindNew_keeps _ _ ?_
        rw [NameMap.get?_insert, if_pos rfl]
      · refine ih (fun q later => params q (List.mem_cons_of_mem _ later)) nodup ?_ x member
        intro q later
        rw [NameMap.get?_insert, if_neg ?_]
        · exact new q (List.mem_cons_of_mem _ later)
        · intro same
          exact once (List.mem_map.mpr ⟨q, later, same⟩)

mutual

/-- Adding the arguments of a ground type succeeds and changes no binding. -/
theorem addArguments_ground : ∀ {t : Ty} (bound : Spec), t.Ground (h.arity ids) →
    ∃ bound', h.addArguments t bound = .ok bound' ∧ Keeps bound bound'
  | .decl _, bound, _ => ⟨bound, rfl, fun _ _ found => found⟩
  | .app _ d args, bound, ⟨known, nonempty, ground⟩ => by
    have length : (h.params d).length = args.length := (arity_eq_some.mp known).2
    obtain ⟨bound', ok, keeps⟩ := addNewArguments_ground (bindNew (h.params d) args bound).2
      (bindNew (h.params d) args bound).1 ground
    refine ⟨bound', ?_, fun n s found => keeps n s (bindNew_keeps n s found)⟩
    rw [addArguments, if_neg (by simpa using nonempty), if_pos length]
    exact ok
  | .array _ e, bound, ground => addArguments_ground (t := e) bound ground

theorem addNewArguments_ground : ∀ {ss : List Slot} (news : List Bool) (bound : Spec),
    Slot.GroundAll (h.arity ids) ss →
      ∃ bound', h.addNewArguments ss news bound = .ok bound' ∧ Keeps bound bound'
  | [], _, bound, _ => ⟨bound, rfl, fun _ _ found => found⟩
  | .exact _ t :: ss, [], bound, _ => ⟨bound, rfl, fun _ _ found => found⟩
  | .exact _ t :: ss, true :: news, bound, ⟨⟨_, ground⟩, rest⟩ => by
    obtain ⟨between, first, keeps⟩ := addArguments_ground (t := t) bound ground
    obtain ⟨bound', ok, keeps'⟩ := addNewArguments_ground news between rest
    refine ⟨bound', ?_, fun n s found => keeps' n s (keeps n s found)⟩
    rw [addNewArguments]
    exact bind_eq_ok.mpr ⟨between, first, ok⟩
  | .exact _ t :: ss, false :: news, bound, ⟨_, rest⟩ => by
    rw [addNewArguments]
    exact addNewArguments_ground news bound rest

end

/-- The arguments of a ground type are found under the names of the parameters beside them. -/
theorem arguments_ground (sound : h.Sound ids) (distinct : h.DistinctParams) {site : Site}
    {d : DeclId} {as : List Slot} (ground : (Ty.app site d as).Ground (h.arity ids)) :
    ∃ spec, h.arguments (.app site d as) = .ok spec ∧
      ∀ x ∈ (h.params d).zip as, spec.get? x.1.name = some x.2 := by
  obtain ⟨known, nonempty, ground⟩ := ground
  have length : (h.params d).length = as.length := (arity_eq_some.mp known).2
  obtain ⟨spec, ok, keeps⟩ := addNewArguments_ground (bindNew (h.params d) as .empty).2
    (bindNew (h.params d) as .empty).1 ground
  refine ⟨spec, ?_, fun x member => keeps _ _ ?_⟩
  · rw [arguments, addArguments, if_neg (by simpa using nonempty), if_pos length]
    exact ok
  · exact bindNew_binds sound.isParam_of_declared (distinct.nodup d) (fun _ _ => rfl) x member

end Arguments

end Hierarchy

end NominalGenerics
