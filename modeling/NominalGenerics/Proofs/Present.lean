import NominalGenerics.Engine.Missing
import NominalGenerics.Proofs.Intact

/-!
# Nothing derived is missing

Live declarations mention only live ones, and what is derived from types that use live declarations
uses live ones again: substitution (`subst_within`), specs (`createSpec_within`) and instances of
supertypes (`instantiate_within`). When the missing type is not live, no walk over such a type meets
it (`isPartial_of_within`), and substitution leaves no hole (`hasHole_of_within`).
-/

namespace NominalGenerics

variable {live : DeclId → Prop}

theorem within_append {us vs : List Ty} :
    Within live (us ++ vs) ↔ Within live us ∧ Within live vs := by
  simp only [Within, List.mem_append, or_imp, forall_and]

theorem within_cons {u : Ty} {us : List Ty} :
    Within live (u :: us) ↔ (∀ d, u.head? = some d → live d) ∧ Within live us := by
  simp only [Within, List.mem_cons, forall_eq_or_imp]

theorem within_usesAll {ts : List Ty} :
    Within live (Ty.usesAll ts) ↔ ∀ t ∈ ts, Within live t.uses := by
  induction ts with
  | nil => simp [Ty.usesAll, within_nil]
  | cons t ts ih => rw [Ty.usesAll, within_append, ih, List.forall_mem_cons]

theorem within_slots {ss : List Slot} :
    Within live (Slot.usesAll ss) ↔ ∀ s ∈ ss, Within live s.uses := by
  induction ss with
  | nil => simp [Slot.usesAll, within_nil]
  | cons s ss ih => rw [Slot.usesAll, within_append, ih, List.forall_mem_cons]

theorem Slot.within_upper {s : Slot} (within : Within live s.uses) :
    Within live (Ty.usesAll s.upper) := by
  cases s with
  | exact m t => exact within_nil
  | rebound m n l us | param m l node n us | wildcard m l us =>
    cases l with
    | none => exact within
    | some l => exact (within_append.mp within).2

/-- The type a slot stands for uses what the slot uses, or is the root. -/
theorem Slot.within_ty {s : Slot} (object : live .object) (within : Within live s.uses) :
    Within live s.ty.uses := by
  have first : ∀ us : List Ty, Within live (Ty.usesAll us) →
      Within live (us.headD .object).uses := by
    rintro (_ | ⟨u, us⟩) all
    · exact within_decl object
    · exact within_usesAll.mp all u List.mem_cons_self
  cases s with
  | exact m t => exact within
  | rebound m n l us => exact first us (Slot.within_upper within)
  | param m l node n bs => exact Slot.within_upper within
  | wildcard m l us => exact first us (Slot.within_upper within)

theorem Slot.within_ofTy {t : Ty} (site : Site) (within : Within live t.uses) :
    Within live (Slot.ofTy site t).uses := by
  cases t with
  | decl | bare | app | param | array => exact within

/-! ## Substitution -/

def Spec.Within (live : DeclId → Prop) (spec : Spec) : Prop :=
  ∀ n s, spec.get? n = some s → NominalGenerics.Within live s.uses

theorem Spec.within_empty : Spec.Within live .empty := fun _ _ found => nomatch found

theorem Spec.Within.insert {spec : Spec} (values : spec.Within live) (name : String) {s : Slot}
    (within : NominalGenerics.Within live s.uses) : Spec.Within live (spec.insert name s) := by
  intro n s' found
  rw [NameMap.get?_insert] at found
  split at found
  · cases found
    exact within
  · exact values n s' found

theorem Spec.resolve_within {spec : Spec} (values : spec.Within live) (object : live .object)
    {excluded : List String} {site : Site} {n : String} {bs : List Ty}
    (bounds : NominalGenerics.Within live (Ty.usesAll bs)) :
    NominalGenerics.Within live (spec.resolve excluded site n bs).uses := by
  fun_induction spec.resolve excluded site n bs with
  | case1 => exact bounds
  | case2 => exact within_decl object
  | case3 excluded s n bs free slot known | case7 excluded s n bs free slot known =>
    exact Slot.within_ty object (values n slot known)
  | case4 => exact within_nil
  -- the alias that is followed next is the type of a slot of the spec
  | case5 excluded s n bs free slot known wildcard site name b rest same further smaller ih =>
    have within := Slot.within_ty object (values n slot known)
    rw [same] at within
    exact ih within
  | case6 excluded s n bs free slot known wildcard site name b rest same =>
    have within := Slot.within_ty object (values n slot known)
    rw [same] at within
    exact within

theorem Spec.resolveSlot_within {spec : Spec} (values : spec.Within live) (object : live .object)
    (excluded : List String) {s : Slot} (within : NominalGenerics.Within live s.uses) :
    NominalGenerics.Within live (spec.resolveSlot excluded s).uses := by
  unfold Spec.resolveSlot
  split
  · exact within
  · cases known : spec.get? s.name with
    | none => exact within_decl object
    | some value => exact values _ value known

namespace Hierarchy

variable {h : Hierarchy} {spec : Spec} {t : Ty} {d : DeclId}

theorem Closed.within_params (closed : h.Closed live) (here : live d) :
    Within live (Slot.usesAll (h.params d)) :=
  (closed.contents d here).subset fun u member => by
    simp only [Decl.uses, List.mem_append]
    exact .inl (.inl (.inl member))

section Subst

variable {excluded : List String}

mutual

theorem subst_within (closed : h.Closed live) (values : spec.Within live) : ∀ {t : Ty},
    Within live t.uses → Within live (h.subst spec excluded t).uses
  | .decl d, within => by
    rw [subst]
    split
    · exact within
    · rename_i ps params
      refine within_cons.mpr ⟨fun e head => ?_, within_slots.mpr ?_⟩
      · cases head
        exact within.head rfl
      · intro s member
        obtain ⟨p, declared, rfl⟩ := List.mem_map.mp member
        exact Spec.resolveSlot_within values closed.object excluded
          (within_slots.mp (closed.within_params (within.head rfl)) p declared)
  | .bare _ _, within => within
  | .app s d args, within => by
    obtain ⟨head, inside⟩ := within_cons.mp within
    exact within_cons.mpr ⟨head, substSlots_within closed values inside⟩
  | .param _ _ _, within => Spec.resolve_within values closed.object within
  | .array _ e, within => subst_within closed values (t := e) within

theorem substSlot_within (closed : h.Closed live) (values : spec.Within live) : ∀ {s : Slot},
    Within live s.uses → Within live (h.substSlot spec excluded s).uses
  | .exact m _, within => Slot.within_ofTy m.site (subst_within closed values within)
  | .rebound _ _ _ [], _ => within_decl closed.object
  | .rebound m n l (u :: us), within => by
    have first := within_usesAll.mp (Slot.within_upper (s := .rebound m n l (u :: us)) within) u
      List.mem_cons_self
    exact Slot.within_ofTy m.site (subst_within closed values first)
  | .param _ _ _ _ _, within => Spec.resolveSlot_within values closed.object excluded within
  | .wildcard _ none _, within => substTypes_within closed values within
  | .wildcard _ (some _) _, within => by
    obtain ⟨lower, uppers⟩ := within_append.mp within
    exact within_append.mpr
      ⟨subst_within closed values lower, substTypes_within closed values uppers⟩

theorem substTypes_within (closed : h.Closed live) (values : spec.Within live) : ∀ {ts : List Ty},
    Within live (Ty.usesAll ts) → Within live (Ty.usesAll (h.substTypes spec excluded ts))
  | [], _ => within_nil
  | _ :: _, within => by
    obtain ⟨first, rest⟩ := within_append.mp within
    exact within_append.mpr
      ⟨subst_within closed values first, substTypes_within closed values rest⟩

theorem substSlots_within (closed : h.Closed live) (values : spec.Within live) :
    ∀ {ss : List Slot}, Within live (Slot.usesAll ss) →
      Within live (Slot.usesAll (h.substSlots spec excluded ss))
  | [], _ => within_nil
  | _ :: _, within => by
    obtain ⟨first, rest⟩ := within_append.mp within
    exact within_append.mpr
      ⟨substSlot_within closed values first, substSlots_within closed values rest⟩

end

end Subst

theorem Closed.within_args (closed : h.Closed live) (within : Within live t.uses) :
    Within live (Slot.usesAll (h.args t)) := by
  cases t with
  | decl d => exact closed.within_params (within.head rfl)
  | app s d as => exact (within_cons.mp within).2
  | bare | param | array => exact within_nil

theorem keyed_within {outer : Spec} (closed : h.Closed live) (values : outer.Within live)
    {ps ss : List Slot} {acc : Spec} (before : acc.Within live)
    (within : Within live (Slot.usesAll ss)) : (h.keyed outer ps ss acc).Within live := by
  induction ps generalizing ss acc with
  | nil => exact before
  | cons p ps ih =>
    cases ss with
    | nil => exact before
    | cons s ss =>
      obtain ⟨first, rest⟩ := within_append.mp within
      exact ih (before.insert p.name (substSlot_within closed values first)) rest

theorem createSpec_within {outer : Spec} (closed : h.Closed live) (values : outer.Within live) :
    ∀ {t : Ty}, Within live t.uses → h.createSpec outer t = .ok spec → spec.Within live
  | .array _ e, within, ok => createSpec_within closed values (t := e) within ok
  | .decl _, within, ok | .bare _ _, within, ok | .app _ _ _, within, ok
  | .param _ _ _, within, ok => by
    unfold createSpec at ok
    split at ok
    · cases ok
      exact values
    · cases ok
      exact values
    · split at ok
      · cases ok
        exact keyed_within closed values Spec.within_empty (closed.within_args within)
      · cases ok

/-- The type parameters of a method stand for themselves, with their bounds substituted. -/
theorem addMethodParams_within (closed : h.Closed live) (values : spec.Within live)
    {typeParams : List Slot} (within : Within live (Slot.usesAll typeParams)) :
    (h.addMethodParams spec typeParams).Within live := by
  unfold addMethodParams
  refine List.foldlRecOn typeParams _ values ?_
  intro acc before p member
  have own := within_slots.mp within p member
  refine before.insert p.name ?_
  split
  · refine within_usesAll.mpr fun t inside => ?_
    rw [List.mem_singleton.mp inside]
    exact within_decl closed.object
  · have bounds := Slot.within_upper own
    split
    · exact bounds
    · exact substTypes_within closed values bounds
  · exact own

/-! ## Instances of supertypes -/

theorem erasedUse_within {decl : Ty} (hint : Ty) (within : Within live decl.uses) :
    Within live (h.erasedUse hint decl).uses := by
  unfold erasedUse
  split
  · exact within
  · rename_i d head
    split
    · exact within
    · split
      · exact within_cons.mpr ⟨fun e same => Option.some.inj same ▸ within.head head, within_nil⟩
      · exact within_cons.mpr ⟨fun e same => Option.some.inj same ▸ within.head head, within_nil⟩

theorem instantiate_within (closed : h.Closed live) (within : Within live t.uses) {w u : Ty}
    (written : w ∈ h.supertypes t) (ok : h.instantiate t w = .ok u) : Within live u.uses := by
  have above := closed.within_supertype within written
  unfold instantiate at ok
  split at ok
  · cases ok
    exact above
  · split at ok
    · cases ok
      exact erasedUse_within t (closed.within_declaration above)
    · obtain ⟨spec, created, ok⟩ := bind_eq_ok.mp ok
      cases ok
      exact subst_within closed (createSpec_within closed Spec.within_empty within created) above

/-! ## Walks that meet no missing type -/

mutual

theorem look_within (present : ¬ live .missing) : ∀ {t : Ty}, Within live t.uses → none ∉ h.look t
  | .decl d, within => by
    have other : d ≠ .missing := by
      rintro rfl
      exact present (within.head rfl)
    simp [look, other]
  | .bare _ _, _ => List.not_mem_nil
  | .app _ _ _, within => lookSlots_within present (within_cons.mp within).2
  | .param _ _ _, _ => by simp [look]
  | .array _ e, within => look_within present (t := e) within

theorem lookSlot_within (present : ¬ live .missing) : ∀ {s : Slot}, Within live s.uses →
    none ∉ h.lookSlot s
  | .exact _ _, within => look_within present within
  | .rebound _ _ _ [], _ => List.not_mem_nil
  | .rebound m n l (u :: us), within =>
    look_within present (within_usesAll.mp
      (Slot.within_upper (s := .rebound m n l (u :: us)) within) u List.mem_cons_self)
  | .param _ _ _ _ _, _ => by simp [lookSlot]
  | .wildcard _ none _, within => lookTypes_within present within
  | .wildcard _ (some _) _, within => by
    obtain ⟨lower, uppers⟩ := within_append.mp within
    simp only [lookSlot, List.mem_append, not_or]
    exact ⟨look_within present lower, lookTypes_within present uppers⟩

theorem lookTypes_within (present : ¬ live .missing) : ∀ {ts : List Ty},
    Within live (Ty.usesAll ts) → none ∉ h.lookTypes ts
  | [], _ => List.not_mem_nil
  | _ :: _, within => by
    obtain ⟨first, rest⟩ := within_append.mp within
    simp only [lookTypes, List.mem_append, not_or]
    exact ⟨look_within present first, lookTypes_within present rest⟩

theorem lookSlots_within (present : ¬ live .missing) : ∀ {ss : List Slot},
    Within live (Slot.usesAll ss) → none ∉ h.lookSlots ss
  | [], _ => List.not_mem_nil
  | _ :: _, within => by
    obtain ⟨first, rest⟩ := within_append.mp within
    simp only [lookSlots, List.mem_append, not_or]
    exact ⟨lookSlot_within present first, lookSlots_within present rest⟩

end

theorem isPartial_of_within (present : ¬ live .missing) (within : Within live t.uses) :
    h.isPartial t = false := by
  simpa [isPartial] using look_within present within

theorem hidesParams_of_within (present : ¬ live .missing) (within : Within live t.uses) :
    h.hidesParams t = false := by
  have absent := look_within (h := h) present within
  unfold hidesParams
  cases met : h.look t with
  | nil => rfl
  | cons first rest =>
    rw [met] at absent
    cases first with
    | none => exact absurd List.mem_cons_self absent
    | some n => rfl

theorem isHollow_of_within (present : ¬ live .missing) : ∀ {t : Ty}, Within live t.uses →
    isHollow t = false
  | .decl d, within => by
    have other : d ≠ .missing := by
      rintro rfl
      exact present (within.head rfl)
    simpa [isHollow] using other
  | .array _ e, within => isHollow_of_within present (t := e) within
  | .bare _ _, _ | .app _ _ _, _ | .param _ _ _, _ => rfl

mutual

theorem hasHole_of_within (present : ¬ live .missing) : ∀ {t : Ty}, Within live t.uses →
    hasHole t = false
  | .decl _, _ | .bare _ _, _ | .param _ _ _, _ => rfl
  | .app _ _ _, within => slotsHaveHole_of_within present (within_cons.mp within).2
  | .array _ e, within => by
    rw [hasHole, isHollow_of_within present (t := e) within,
      hasHole_of_within present (t := e) within]
    rfl

theorem slotHasHole_of_within (present : ¬ live .missing) : ∀ {s : Slot}, Within live s.uses →
    slotHasHole s = false
  | .exact _ t, within => by
    rw [slotHasHole, isHollow_of_within present (t := t) within, hasHole_of_within present within]
    rfl
  | .wildcard _ (some _) _, within => by
    obtain ⟨lower, uppers⟩ := within_append.mp within
    rw [slotHasHole, hasHole_of_within present lower, typesHaveHole_of_within present uppers]
    rfl
  | .wildcard _ none _, within => typesHaveHole_of_within present within
  | .rebound _ _ _ _, _ | .param _ _ _ _ _, _ => rfl

theorem typesHaveHole_of_within (present : ¬ live .missing) : ∀ {ts : List Ty},
    Within live (Ty.usesAll ts) → typesHaveHole ts = false
  | [], _ => rfl
  | _ :: _, within => by
    obtain ⟨first, rest⟩ := within_append.mp within
    rw [typesHaveHole, hasHole_of_within present first, typesHaveHole_of_within present rest]
    rfl

theorem slotsHaveHole_of_within (present : ¬ live .missing) : ∀ {ss : List Slot},
    Within live (Slot.usesAll ss) → slotsHaveHole ss = false
  | [], _ => rfl
  | _ :: _, within => by
    obtain ⟨first, rest⟩ := within_append.mp within
    rw [slotsHaveHole, slotHasHole_of_within present first, slotsHaveHole_of_within present rest]
    rfl

end

theorem hidesSupertype_of_within (present : ¬ live .missing) (closed : h.Closed live)
    (within : Within live t.uses) : h.hidesSupertype t = false := by
  rw [hidesSupertype, List.any_eq_false]
  intro s written
  have above := closed.within_supertype within written
  simp [hidesParams_of_within present above, isPartial_of_within present above,
    isPartial_of_within present within]

end Hierarchy

end NominalGenerics
