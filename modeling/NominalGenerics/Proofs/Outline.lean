import NominalGenerics.Proofs.Ground
import NominalGenerics.Hierarchy.Equality

/-!
# Outlines of types

The outline of a type forgets where the type and its parts are written, and may call its
declarations by other ids. On ground types, types with one outline are those that are structurally
equal (`equal_iff_outline`), and going up from types with one outline gives types with one outline
(`Inherits.of_outline`).
-/

namespace NominalGenerics

def Site.blank : Site := ⟨0, 0⟩

mutual

/-- A type without its sites, its declarations called as `ρ` says. -/
def Ty.outline (ρ : DeclId → DeclId) : Ty → Ty
  | .decl d => .decl (ρ d)
  | .bare _ d => .bare .blank (ρ d)
  | .app _ d args => .app .blank (ρ d) (Slot.outlines ρ args)
  | .param _ n bs => .param .blank n (Ty.outlines ρ bs)
  | .array _ e => .array .blank (e.outline ρ)

def Slot.outline (ρ : DeclId → DeclId) : Slot → Slot
  | .exact m t => .exact ⟨.blank, m.resolved⟩ (t.outline ρ)
  | .rebound m n none us => .rebound ⟨.blank, m.resolved⟩ n none (Ty.outlines ρ us)
  | .rebound m n (some l) us =>
    .rebound ⟨.blank, m.resolved⟩ n (some (l.outline ρ)) (Ty.outlines ρ us)
  | .param m none _ n bs => .param ⟨.blank, m.resolved⟩ none .blank n (Ty.outlines ρ bs)
  | .param m (some l) _ n bs =>
    .param ⟨.blank, m.resolved⟩ (some (l.outline ρ)) .blank n (Ty.outlines ρ bs)
  | .wildcard m none us => .wildcard ⟨.blank, m.resolved⟩ none (Ty.outlines ρ us)
  | .wildcard m (some l) us =>
    .wildcard ⟨.blank, m.resolved⟩ (some (l.outline ρ)) (Ty.outlines ρ us)

def Ty.outlines (ρ : DeclId → DeclId) : List Ty → List Ty
  | [] => []
  | t :: ts => t.outline ρ :: Ty.outlines ρ ts

def Slot.outlines (ρ : DeclId → DeclId) : List Slot → List Slot
  | [] => []
  | s :: ss => s.outline ρ :: Slot.outlines ρ ss

end

theorem Ty.outlines_eq_map (ρ : DeclId → DeclId) (ts : List Ty) :
    Ty.outlines ρ ts = ts.map (Ty.outline ρ) := by
  induction ts with
  | nil => rfl
  | cons t ts ih => rw [Ty.outlines, List.map_cons, ih]

theorem Slot.outlines_eq_map (ρ : DeclId → DeclId) (ss : List Slot) :
    Slot.outlines ρ ss = ss.map (Slot.outline ρ) := by
  induction ss with
  | nil => rfl
  | cons s ss ih => rw [Slot.outlines, List.map_cons, ih]

theorem Ty.head?_outline (ρ : DeclId → DeclId) (t : Ty) :
    (t.outline ρ).head? = t.head?.map ρ := by
  cases t <;> rfl

/-- Types with one outline use one declaration. -/
theorem Ty.head?_of_outline {t u : Ty} (alike : t.outline id = u.outline id) :
    t.head? = u.head? := by
  have heads := congrArg Ty.head? alike
  rw [Ty.head?_outline, Ty.head?_outline, Option.map_id] at heads
  exact heads

namespace Hierarchy

variable {h : Hierarchy} {ids : List DeclId}

/-! ## Structural equality of ground types -/

section Equal

variable {A : Arity}

mutual

/-- Structural equality of ground types is having one outline. -/
theorem equal_iff_outline : ∀ {x y : Ty}, x.Ground A → y.Ground A →
    (h.equal x y = true ↔ x.outline id = y.outline id)
  | .array _ a, .array _ b, groundX, groundY => by
    rw [equal, equal_iff_outline (x := a) (y := b) groundX groundY]
    simp [Ty.outline]
  | .decl _, .decl _, _, _ => by simp [equal, Ty.outline]
  | .app _ d as, .app _ e bs, ⟨_, _, groundX⟩, ⟨_, _, groundY⟩ => by
    rw [equal, Bool.and_eq_true, beq_iff_eq, equalSlots_iff_outlines groundX groundY]
    simp [Ty.outline]
  | .decl d, .app _ e bs, groundX, ⟨known, nonempty, _⟩ => by
    -- a use with arguments is not a use of a declaration without parameters
    have apart : d ≠ e := by
      rintro rfl
      have none : some bs.length = some 0 := known.symm.trans groundX
      exact nonempty (List.eq_nil_of_length_eq_zero (Option.some.inj none))
    simp [equal, Ty.outline, apart]
  | .app _ d as, .decl e, ⟨known, nonempty, _⟩, groundY => by
    have apart : d ≠ e := by
      rintro rfl
      have none : some as.length = some 0 := known.symm.trans groundY
      exact nonempty (List.eq_nil_of_length_eq_zero (Option.some.inj none))
    simp [equal, Ty.outline, apart]
  | .array _ _, .decl _, _, _ | .array _ _, .app _ _ _, _, _
  | .decl _, .array _ _, _, _ | .app _ _ _, .array _ _, _, _ => by simp [equal, Ty.outline]

theorem equalSlots_iff_outlines : ∀ {xs ys : List Slot}, Slot.GroundAll A xs →
    Slot.GroundAll A ys →
      (h.equalSlots xs ys = true ↔ Slot.outlines id xs = Slot.outlines id ys)
  | [], [], _, _ => by simp [equalSlots, Slot.outlines]
  | [], _ :: _, _, _ | _ :: _, [], _, _ => by simp [equalSlots, Slot.outlines]
  | .exact m x :: xs, .exact m' y :: ys, ⟨⟨fresh, groundX⟩, groundXs⟩,
      ⟨⟨fresh', groundY⟩, groundYs⟩ => by
    have first := equal_iff_outline (x := x) (y := y) groundX groundY
    have rest := equalSlots_iff_outlines groundXs groundYs
    rw [equalSlots, Bool.and_eq_true, rest]
    simp [slotEqual, Slot.kind, Slot.ty, Slot.outlines, Slot.outline, fresh, fresh', first]

end

end Equal

/-! ## Going up from types with one outline -/

section Up

variable {P : ParamSet} {spec spec' : Spec} {x y : Ty} {d : DeclId}

/-- Specs that map the same names, to slots with one outline. -/
def SameOutline (spec spec' : Spec) : Prop :=
  ∀ n, (spec.get? n).map (Slot.outline id) = (spec'.get? n).map (Slot.outline id)

/-- Among ground arguments there are no aliases to follow. -/
theorem Grounds.resolve_eq {A : Arity} (grounds : Grounds A spec) (s : Site) (n : String)
    (bs : List Ty) : spec.resolve [] s n bs = ((spec.get? n).map Slot.ty).getD .object := by
  unfold Spec.resolve
  simp only [List.contains_nil, Bool.false_eq_true, dif_neg, not_false_eq_true]
  split
  · rename_i unknown
    rw [unknown]
    rfl
  · rename_i value known
    have ground := grounds.values n value known
    rw [known]
    cases value with
    | rebound | param | wildcard => cases ground
    | exact m t =>
      cases t with
      | bare | param => cases ground.2
      | decl | app | array => rfl

theorem Grounds.resolve_outline {A : Arity} (grounds : Grounds A spec) (grounds' : Grounds A spec')
    (same : SameOutline spec spec') (s : Site) (n : String) (bs : List Ty) :
    (spec.resolve [] s n bs).outline id = (spec'.resolve [] s n bs).outline id := by
  have typed : ∀ v : Slot, v.Ground A → v.ty.outline id = (v.outline id).ty := by
    intro v ground
    cases v with
    | exact => rfl
    | rebound | param | wildcard => cases ground
  have alike := same n
  rw [grounds.resolve_eq, grounds'.resolve_eq]
  cases known : spec.get? n with
  | none =>
    cases known' : spec'.get? n with
    | none => rfl
    | some _ => simp [known, known'] at alike
  | some v =>
    cases known' : spec'.get? n with
    | none => simp [known, known'] at alike
    | some v' =>
      rw [known, known'] at alike
      have alike : v.outline id = v'.outline id := Option.some.inj alike
      show v.ty.outline id = v'.ty.outline id
      rw [typed v (grounds.values n v known), typed v' (grounds'.values n v' known'), alike]

theorem SameOutline.resolveSlot (same : SameOutline spec spec') (s : Slot) :
    (spec.resolveSlot [] s).outline id = (spec'.resolveSlot [] s).outline id := by
  have alike := same s.name
  unfold Spec.resolveSlot
  simp only [List.contains_nil, Bool.false_eq_true, if_false]
  cases known : spec.get? s.name with
  | none =>
    cases known' : spec'.get? s.name with
    | none => rfl
    | some _ => simp [known, known'] at alike
  | some v =>
    cases known' : spec'.get? s.name with
    | none => simp [known, known'] at alike
    | some v' =>
      rw [known, known'] at alike
      exact Option.some.inj alike

mutual

/-- Ground arguments with one outline, put into a plain type, make types with one outline. -/
theorem subst_outline (grounds : Grounds (h.arity ids) spec)
    (grounds' : Grounds (h.arity ids) spec') (same : SameOutline spec spec') :
    ∀ {t : Ty}, t.Formed (h.arity ids) P → h.isPlain t = true →
      (h.subst spec [] t).outline id = (h.subst spec' [] t).outline id
  | .decl _, formed, _ => by
    rw [subst, subst, Formed.params_eq_nil formed]
  | .bare _ _, _, _ => rfl
  | .app _ _ args, ⟨_, formed⟩, plain => by
    rw [isPlain, Bool.and_eq_true] at plain
    rw [subst, subst, Ty.outline, Ty.outline,
      substSlots_outline grounds grounds' same formed plain.2]
  | .param s n bs, _, _ => grounds.resolve_outline grounds' same s n bs
  | .array _ e, formed, plain => by
    rw [subst, subst, Ty.outline, Ty.outline,
      subst_outline grounds grounds' same (t := e) formed plain]

theorem substSlots_outline (grounds : Grounds (h.arity ids) spec)
    (grounds' : Grounds (h.arity ids) spec') (same : SameOutline spec spec') :
    ∀ {ss : List Slot}, Slot.FormedAll (h.arity ids) P ss → h.arePlain ss = true →
      Slot.outlines id (h.substSlots spec [] ss) = Slot.outlines id (h.substSlots spec' [] ss)
  | [], _, _ => rfl
  | .exact m t :: _, ⟨⟨_, _, formed⟩, rest⟩, plain => by
    rw [arePlain, Bool.and_eq_true] at plain
    have ground := subst_ground grounds formed plain.1
    have ground' := subst_ground grounds' formed plain.1
    have first := subst_outline grounds grounds' same formed plain.1
    have others := substSlots_outline grounds grounds' same rest plain.2
    rw [substSlots, substSlots, Slot.outlines, Slot.outlines, others, substSlot, substSlot]
    generalize h.subst spec [] t = u at ground first
    generalize h.subst spec' [] t = u' at ground' first
    -- what a ground type fills is a slot for exactly that type
    cases u with
    | bare | param => cases ground
    | decl | app | array =>
      cases u' with
      | bare | param => cases ground'
      | decl | app | array => simp [Slot.ofTy, Slot.outline, first]
  | .rebound _ _ _ _ :: _, formed, _ => nomatch formed.1
  | .param m l s n bs :: _, ⟨_, rest⟩, plain => by
    rw [arePlain, Bool.and_eq_true] at plain
    rw [substSlots, substSlots, Slot.outlines, Slot.outlines, substSlot, substSlot,
      same.resolveSlot, substSlots_outline grounds grounds' same rest plain.2]
  | .wildcard _ _ _ :: _, _, plain => nomatch plain

end

/-- Slots with one outline, keyed by the same parameters. -/
theorem keyed_outline (ps : List Slot) {as bs : List Slot} {acc acc' : Spec}
    (formedAs : Slot.FormedAll (h.arity ids) P as) (formedBs : Slot.FormedAll (h.arity ids) P bs)
    (alike : Slot.outlines id as = Slot.outlines id bs) (same : SameOutline acc acc') :
    SameOutline (h.keyed .empty ps as acc) (h.keyed .empty ps bs acc') := by
  induction ps generalizing as bs acc acc' with
  | nil => exact same
  | cons p ps ih =>
    cases as with
    | nil =>
      cases bs with
      | nil => exact same
      | cons => cases alike
    | cons a as =>
      cases bs with
      | nil => cases alike
      | cons b bs =>
        obtain ⟨formedA, formedAs⟩ := formedAs
        obtain ⟨formedB, formedBs⟩ := formedBs
        rw [Slot.outlines, Slot.outlines, List.cons.injEq] at alike
        rw [keyed, keyed, resolveArgument_empty formedA, resolveArgument_empty formedB]
        refine ih formedAs formedBs alike.2 ?_
        intro n
        rw [NameMap.get?_insert, NameMap.get?_insert]
        split
        · simp [alike.1]
        · exact same n

theorem args_outline (groundX : x.Ground (h.arity ids)) (groundY : y.Ground (h.arity ids))
    (alike : x.outline id = y.outline id) :
    Slot.outlines id (h.args x) = Slot.outlines id (h.args y) := by
  cases x with
  | bare | param => cases groundX
  | decl d =>
    cases y <;> cases alike
    rfl
  | array s a =>
    cases y with
    | array => rfl
    | decl | bare | app | param => cases alike
  | app s d as =>
    cases y with
    | app s' e bs =>
      rw [Ty.outline, Ty.outline, Ty.app.injEq] at alike
      exact alike.2.2
    | decl | bare | param | array => cases alike

/-- Of two ground types with one outline, each direct supertype of one has the outline of a direct
supertype of the other. -/
theorem DirectSuper.of_outline (sound : h.Sound ids) (plain : h.PlainSupertypes)
    (groundX : x.Ground (h.arity ids)) (groundY : y.Ground (h.arity ids)) (head : y.head? = some d)
    (alike : x.outline id = y.outline id) {v : Ty} (direct : h.DirectSuper y v) :
    ∃ u, h.DirectSuper x u ∧ u.outline id = v.outline id := by
  obtain ⟨w, written, spec', created', rfl⟩ := direct
  have headX : x.head? = some d := (Ty.head?_of_outline alike).trans head
  have formedX : x.Formed (h.arity ids) .none := Ground.formed groundX
  have formedY : y.Formed (h.arity ids) .none := Ground.formed groundY
  have created := createSpec_eq formedX headX
  rw [createSpec_eq formedY head] at created'
  cases created'
  have all : ∀ {t : Ty}, t.Ground (h.arity ids) → Slot.FormedAll (h.arity ids) .none (h.args t) :=
    fun ground => Slot.formedAll_iff.mpr fun _ member => args_formed (Ground.formed ground) member
  have same := keyed_outline (h.params d) (all groundX) (all groundY)
    (args_outline groundX groundY alike) (fun _ => rfl : SameOutline .empty .empty)
  have grounds : ∀ {t : Ty}, t.Ground (h.arity ids) →
      Grounds (h.arity ids) (h.keyed .empty (h.params d) (h.args t) .empty) := by
    intro t ground
    refine ⟨?_, sound.arity_object⟩
    intro n s found
    obtain ⟨p, paired, -⟩ := (keyed_sound (all ground) found).resolve_right nofun
    exact Ground.args ground (List.of_mem_zip paired).2
  obtain ⟨formed, -⟩ := sound.supertype head written
  have isPlain : h.isPlain w = true := by
    rw [supertypes_of_head head] at written
    exact plain.supertype written
  refine ⟨_, ⟨w, ?_, _, created, rfl⟩,
    subst_outline (grounds groundX) (grounds groundY) same formed isPlain⟩
  rw [supertypes_of_head headX, ← supertypes_of_head head]
  exact written

/-- The same for all that the two inherit. -/
theorem Inherits.of_outline (sound : h.Sound ids) (plain : h.PlainSupertypes)
    (groundX : x.Ground (h.arity ids)) (groundY : y.Ground (h.arity ids)) (head : y.head? = some d)
    (alike : x.outline id = y.outline id) {v : Ty} (inherits : h.Inherits y v) :
    ∃ u, h.Inherits x u ∧ u.outline id = v.outline id := by
  have headX : ∃ d, x.head? = some d := ⟨d, (Ty.head?_of_outline alike).trans head⟩
  induction inherits with
  | refl => exact ⟨x, .refl, alike⟩
  | tail inherits direct ih =>
    obtain ⟨u, above, alike⟩ := ih
    obtain ⟨groundV, e, headV⟩ := Ground.inherits sound plain groundY ⟨d, head⟩ inherits
    obtain ⟨groundU, -⟩ := Ground.inherits sound plain groundX headX above
    obtain ⟨u', step, alike⟩ :=
      DirectSuper.of_outline sound plain groundU groundV headV alike direct
    exact ⟨u', above.tail step, alike⟩

end Up

end Hierarchy

end NominalGenerics
