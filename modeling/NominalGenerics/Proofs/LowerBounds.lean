import NominalGenerics.Proofs.Derived

/-!
# Lower bounds on the way up

How deep lower bounds nest in a type (`Ty.lowerDepth`), and what a step up does to it. Where no
supertype is written with a lower bound, a type gets no deeper on the way up, however large it gets
(`keptUp_closed`). That makes an order on comparisons: one is smaller when a lower bound is gone, or
else its bound is lighter, or else its candidate is further up (`smaller_wf`).
-/

namespace NominalGenerics

mutual

/-- How deep lower bounds nest in a type. The bounds of type parameters do not count. -/
def Ty.lowerDepth : Ty → Nat
  | .decl _ | .bare _ _ | .param _ _ _ => 0
  | .app _ _ args => Slot.lowerDepths args
  | .array _ e => e.lowerDepth

def Slot.lowerDepth : Slot → Nat
  | .exact _ t => t.lowerDepth
  | .param _ _ _ _ _ => 0
  | .rebound _ _ none us | .wildcard _ none us => Ty.lowerDepths us
  | .rebound _ _ (some l) us | .wildcard _ (some l) us =>
    max (l.lowerDepth + 1) (Ty.lowerDepths us)

def Ty.lowerDepths : List Ty → Nat
  | [] => 0
  | t :: ts => max t.lowerDepth (Ty.lowerDepths ts)

def Slot.lowerDepths : List Slot → Nat
  | [] => 0
  | s :: ss => max s.lowerDepth (Slot.lowerDepths ss)

end

theorem Ty.lowerDepth_le {t : Ty} {ts : List Ty} (member : t ∈ ts) :
    t.lowerDepth ≤ Ty.lowerDepths ts := by
  induction ts with
  | nil => cases member
  | cons u ts ih =>
    rw [Ty.lowerDepths]
    rcases List.mem_cons.mp member with rfl | member
    · exact Nat.le_max_left _ _
    · exact Nat.le_trans (ih member) (Nat.le_max_right _ _)

theorem Slot.lowerDepth_le {s : Slot} {ss : List Slot} (member : s ∈ ss) :
    s.lowerDepth ≤ Slot.lowerDepths ss := by
  induction ss with
  | nil => cases member
  | cons u ss ih =>
    rw [Slot.lowerDepths]
    rcases List.mem_cons.mp member with rfl | member
    · exact Nat.le_max_left _ _
    · exact Nat.le_trans (ih member) (Nat.le_max_right _ _)

/-- The types a slot may be compared by: its type and its bounds. -/
def Slot.parts (s : Slot) : List Ty := s.ty :: (s.lower.toList ++ s.upper)

section Parts

variable {A : Arity} {s : Slot} {t : Ty}

theorem Slot.ty_mem_parts (s : Slot) : s.ty ∈ s.parts := List.mem_cons_self

theorem Slot.lower_mem_parts (written : s.lower = some t) : t ∈ s.parts :=
  List.mem_cons_of_mem _ (List.mem_append_left _ (Option.mem_toList.mpr written))

theorem Slot.upper_mem_parts (written : t ∈ s.upper) : t ∈ s.parts :=
  List.mem_cons_of_mem _ (List.mem_append_right _ written)

/-- A closed slot is one type or a wildcard. -/
theorem Slot.Formed.cases_closed (closed : s.Formed A .none) :
    (∃ m t, s = .exact m t ∧ t.Formed A .none) ∨
      ∃ m l us, s = .wildcard m l us ∧ (∀ t, l = some t → t.Formed A .none) ∧
        ∀ u ∈ us, u.Formed A .none := by
  cases s with
  | exact m t => exact .inl ⟨m, t, rfl, closed.2.2⟩
  | rebound => cases closed
  | param => exact closed.2.2.elim
  | wildcard m l us =>
    cases l with
    | none => exact .inr ⟨m, none, us, rfl, nofun, Ty.formedAll_iff.mp closed.2⟩
    | some l =>
      refine .inr ⟨m, some l, us, rfl, ?_, Ty.formedAll_iff.mp closed.2.2⟩
      rintro _ ⟨⟩
      exact closed.2.1

theorem Slot.parts_closed (object : A .object = some 0) (closed : s.Formed A .none)
    (part : t ∈ s.parts) : t.Formed A .none := by
  rcases List.mem_cons.mp part with rfl | part
  · exact Hierarchy.Slot.Formed.ty closed object
  rcases closed.cases_closed with ⟨m, t, rfl, -⟩ | ⟨m, l, us, rfl, lower, uppers⟩
  · cases part
  · rcases List.mem_append.mp part with below | above
    · exact lower t (Option.mem_toList.mp below)
    · exact uppers t above

theorem Slot.lowerDepth_lower {m : Mark} {l : Ty} (us : List Ty) :
    l.lowerDepth < (Slot.wildcard m (some l) us).lowerDepth :=
  Nat.lt_of_succ_le (Nat.le_max_left _ _)

theorem Slot.lowerDepth_upper {m : Mark} (l : Option Ty) {us : List Ty} (written : t ∈ us) :
    t.lowerDepth ≤ (Slot.wildcard m l us).lowerDepth := by
  have here := Ty.lowerDepth_le written
  cases l with
  | none => exact here
  | some l => exact Nat.le_trans here (Nat.le_max_right _ _)

theorem Slot.lowerDepth_part (closed : s.Formed A .none) (part : t ∈ s.parts) :
    t.lowerDepth ≤ s.lowerDepth := by
  rcases closed.cases_closed with ⟨m, t, rfl, -⟩ | ⟨m, l, us, rfl, -⟩
  · rw [List.mem_singleton.mp part]
    exact Nat.le_refl _
  · rcases List.mem_cons.mp part with rfl | part
    · cases us with
      | nil => exact Nat.zero_le _
      | cons u us => exact lowerDepth_upper l List.mem_cons_self
    · rcases List.mem_append.mp part with below | above
      · cases Option.mem_toList.mp below
        exact Nat.le_of_lt (lowerDepth_lower us)
      · exact lowerDepth_upper l above

theorem Slot.weight_le_weights {ss : List Slot} (member : s ∈ ss) : s.weight ≤ Slot.weights ss := by
  induction ss with
  | nil => cases member
  | cons u ss ih =>
    rw [Slot.weights]
    rcases List.mem_cons.mp member with rfl | member
    · exact Nat.le_add_right _ _
    · exact Nat.le_trans (ih member) (Nat.le_add_left _ _)

theorem Slot.weight_part (closed : s.Formed A .none) (part : t ∈ s.parts) :
    t.weight ≤ s.weight := by
  rcases closed.cases_closed with ⟨m, t, rfl, -⟩ | ⟨m, l, us, rfl, -⟩
  · rw [List.mem_singleton.mp part]
    exact Nat.le_add_left _ _
  · have upper : ∀ {u : Ty}, u ∈ us → u.weight ≤ (Slot.wildcard m l us).weight := by
      intro u written
      have here := Ty.weight_le_weights written
      cases l <;> rw [Slot.weight] <;> omega
    rcases List.mem_cons.mp part with rfl | part
    · cases us with
      | nil => cases l <;> simp [Slot.ty, Ty.object, Slot.weight, Ty.weight, Ty.weights]
      | cons u us => exact upper List.mem_cons_self
    · rcases List.mem_append.mp part with below | above
      · cases Option.mem_toList.mp below
        rw [Slot.weight]
        omega
      · exact upper above

end Parts

namespace Hierarchy

variable {h : Hierarchy} {ids : List DeclId} {t : Ty}

/-- The arguments of a closed type are lighter than it, and their lower bounds nest no deeper. -/
theorem args_closed {s : Slot} (closed : t.Formed (h.arity ids) .none) (member : s ∈ h.args t) :
    s.Formed (h.arity ids) .none ∧ s.lowerDepth ≤ t.lowerDepth ∧ s.weight < t.weight := by
  refine ⟨args_formed closed member, ?_⟩
  cases t with
  | decl d =>
    rw [args, Formed.params_eq_nil closed] at member
    cases member
  | app site d as =>
    have member : s ∈ as := member
    have light := Slot.weight_le_weights member
    refine ⟨Slot.lowerDepth_le member, ?_⟩
    rw [Ty.weight]
    omega
  | bare | param | array => cases member

/-! ## Steps up -/

def CovariantSupertypes (h : Hierarchy) : Prop :=
  ∀ c ∈ h.decls.toList, ∀ w ∈ c.super.toList ++ c.interfaces, w.lowerDepth = 0

instance (h : Hierarchy) : Decidable h.CovariantSupertypes :=
  inferInstanceAs (Decidable (∀ c ∈ h.decls.toList, ∀ w ∈ c.super.toList ++ c.interfaces, _))

section Subst

variable {P : ParamSet} {spec : Spec} {k : Nat}

/-- A spec of closed slots with lower bounds nested at most `k` deep. -/
def Shallow (A : Arity) (k : Nat) (spec : Spec) : Prop :=
  ∀ n s, spec.get? n = some s → s.Formed A .none ∧ s.lowerDepth ≤ k

theorem lowerDepth_resolve {A : Arity} (shallow : Shallow A k spec) (object : A .object = some 0)
    (s : Site) (n : String) (bs : List Ty) : (spec.resolve [] s n bs).lowerDepth ≤ k := by
  unfold Spec.resolve
  simp only [List.contains_nil, Bool.false_eq_true, dite_false]
  split
  · exact Nat.zero_le _
  · rename_i slot found
    obtain ⟨closed, depth⟩ := shallow n slot found
    have part := Nat.le_trans (Slot.lowerDepth_part closed slot.ty_mem_parts) depth
    have formed := Slot.parts_closed object closed slot.ty_mem_parts
    split
    · exact part
    · split
      · rename_i same
        rw [same] at formed
        exact formed.elim
      · rename_i same
        rw [same] at formed
        exact formed.elim
      · exact part

theorem lowerDepth_resolveSlot {A : Arity} (shallow : Shallow A k spec) (s : Slot) :
    (spec.resolveSlot [] s).lowerDepth ≤ k := by
  unfold Spec.resolveSlot
  simp only [List.contains_nil, Bool.false_eq_true, if_false]
  cases found : spec.get? s.name with
  | none => exact Nat.zero_le _
  | some slot => exact (shallow _ slot found).2

theorem lowerDepth_ofTy (site : Site) (t : Ty) : (Slot.ofTy site t).lowerDepth ≤ t.lowerDepth := by
  cases t <;> exact Nat.le_refl _

mutual

/-- Substitution nests lower bounds at most as deep as the type and the slots put in together. -/
theorem lowerDepth_subst (shallow : Shallow (h.arity ids) k spec)
    (object : h.arity ids .object = some 0) : ∀ {t : Ty}, t.Formed (h.arity ids) P →
      (h.subst spec [] t).lowerDepth ≤ t.lowerDepth + k
  | .decl d, formed => by
    rw [subst, Formed.params_eq_nil formed]
    exact Nat.zero_le _
  | .bare _ _, _ => Nat.zero_le _
  | .app s d args, formed => lowerDepth_substSlots shallow object formed.2
  | .param s n bs, _ => by
    rw [subst, Ty.lowerDepth, Nat.zero_add]
    exact lowerDepth_resolve shallow object s n bs
  | .array s e, formed => lowerDepth_subst shallow object (t := e) formed

theorem lowerDepth_substSlot (shallow : Shallow (h.arity ids) k spec)
    (object : h.arity ids .object = some 0) : ∀ {s : Slot}, s.Formed (h.arity ids) P →
      (h.substSlot spec [] s).lowerDepth ≤ s.lowerDepth + k
  | .exact m t, ⟨_, _, formed⟩ =>
    Nat.le_trans (lowerDepth_ofTy m.site _) (lowerDepth_subst shallow object (t := t) formed)
  | .param m l s n bs, _ => by
    rw [substSlot, Slot.lowerDepth, Nat.zero_add]
    exact lowerDepth_resolveSlot shallow _
  | .wildcard m none us, ⟨_, formed⟩ => lowerDepth_substTypes shallow object formed
  | .wildcard m (some l) us, ⟨_, lower, formed⟩ => by
    have below := lowerDepth_subst shallow object (t := l) lower
    have above := lowerDepth_substTypes shallow object formed
    rw [substSlot, Slot.lowerDepth, Slot.lowerDepth]
    omega

theorem lowerDepth_substTypes (shallow : Shallow (h.arity ids) k spec)
    (object : h.arity ids .object = some 0) : ∀ {ts : List Ty},
      Ty.FormedAll (h.arity ids) P ts →
        Ty.lowerDepths (h.substTypes spec [] ts) ≤ Ty.lowerDepths ts + k
  | [], _ => Nat.zero_le _
  | t :: ts, ⟨first, rest⟩ => by
    have first := lowerDepth_subst shallow object (t := t) first
    have rest := lowerDepth_substTypes shallow object rest
    rw [substTypes, Ty.lowerDepths, Ty.lowerDepths]
    omega

theorem lowerDepth_substSlots (shallow : Shallow (h.arity ids) k spec)
    (object : h.arity ids .object = some 0) : ∀ {ss : List Slot},
      Slot.FormedAll (h.arity ids) P ss →
        Slot.lowerDepths (h.substSlots spec [] ss) ≤ Slot.lowerDepths ss + k
  | [], _ => Nat.zero_le _
  | s :: ss, ⟨first, rest⟩ => by
    have first := lowerDepth_substSlot shallow object (s := s) first
    have rest := lowerDepth_substSlots shallow object rest
    rw [substSlots, Slot.lowerDepths, Slot.lowerDepths]
    omega

end

end Subst

theorem lowerDepth_erasedUse (t : Ty) (d : DeclId) :
    (h.erasedUse t (.decl d)).lowerDepth = 0 := by
  unfold erasedUse
  dsimp only [Ty.head?]
  split
  · rfl
  · split <;> rfl

/-- Steps up keep closed types closed, and their lower bounds nested no deeper. -/
theorem Sound.keptUp_closed (sound : h.Sound ids) (covariant : h.CovariantSupertypes) (k : Nat) :
    h.KeptUp ids fun t => t.Formed (h.arity ids) .none ∧ t.lowerDepth ≤ k where
  listed := by
    rintro t d ⟨closed, -⟩ head
    obtain ⟨k, known⟩ := closed.head head
    exact (arity_eq_some.mp known).1
  step := by
    rintro t d ⟨closed, depth⟩ head
    obtain ⟨spec, created, values⟩ := createSpec_spec closed head
    have shallow : Shallow (h.arity ids) k spec := by
      intro n s found
      obtain ⟨p, paired, -⟩ := values n s found
      obtain ⟨formed, inner, -⟩ := args_closed closed (List.of_mem_zip paired).2
      exact ⟨formed, Nat.le_trans inner depth⟩
    have supplies : Supplies (h.arity ids) .none spec :=
      ⟨fun n s found => (shallow n s found).1, sound.arity_object, fun _ _ none => none.elim⟩
    refine ⟨spec, created, ?_⟩
    intro w written
    obtain ⟨formed, -⟩ := sound.supertype head written
    refine ⟨subst_formed supplies formed, ?_⟩
    have bounded := lowerDepth_subst shallow sound.arity_object formed
    rw [supertypes_of_head head] at written
    rwa [supertypes_all (P := fun w => w.lowerDepth = 0) rfl covariant written,
      Nat.zero_add] at bounded
  erased := by
    rintro t d - listed
    refine ⟨(erasedUse_formed t listed).1, ?_⟩
    rw [lowerDepth_erasedUse]
    exact Nat.zero_le _

noncomputable def headHeight (h : Hierarchy) (ids : List DeclId) (t : Ty) : Nat :=
  match t.head? with
  | some d => h.height ids d
  | none => 0

theorem headHeight_eq {d : DeclId} (head : t.head? = some d) :
    h.headHeight ids t = h.height ids d := by
  unfold headHeight
  rw [head]

/-- Comparing `x` with `y` is a smaller task than comparing `t` with `bound`: a lower bound is gone,
or else the bound is lighter, or else the candidate is further up. -/
def Smaller (h : Hierarchy) (ids : List DeclId) (task whole : Ty × Ty) : Prop :=
  Prod.Lex (· < ·) (Prod.Lex (· < ·) (· < ·))
    (task.1.lowerDepth + task.2.lowerDepth, task.2.weight, h.headHeight ids task.1)
    (whole.1.lowerDepth + whole.2.lowerDepth, whole.2.weight, h.headHeight ids whole.1)

theorem smaller_wf (h : Hierarchy) (ids : List DeclId) : WellFounded (h.Smaller ids) :=
  InvImage.wf (fun task : Ty × Ty =>
      (task.1.lowerDepth + task.2.lowerDepth, task.2.weight, h.headHeight ids task.1))
    (WellFounded.prod_lex Nat.lt_wfRel.wf (WellFounded.prod_lex Nat.lt_wfRel.wf Nat.lt_wfRel.wf))

section Smaller

variable {x y bound : Ty}

theorem Smaller.of_swapped
    (fewer : x.lowerDepth + y.lowerDepth < t.lowerDepth + bound.lowerDepth) :
    h.Smaller ids (x, y) (t, bound) := by
  simp only [Smaller, Prod.lex_def]
  omega

theorem Smaller.of_lighter (depth : x.lowerDepth ≤ t.lowerDepth)
    (depth' : y.lowerDepth ≤ bound.lowerDepth) (lighter : y.weight < bound.weight) :
    h.Smaller ids (x, y) (t, bound) := by
  simp only [Smaller, Prod.lex_def]
  omega

theorem Smaller.of_higher (depth : x.lowerDepth ≤ t.lowerDepth)
    (higher : h.headHeight ids x < h.headHeight ids t) : h.Smaller ids (x, bound) (t, bound) := by
  simp only [Smaller, Prod.lex_def, true_and]
  omega

end Smaller

end Hierarchy

end NominalGenerics
