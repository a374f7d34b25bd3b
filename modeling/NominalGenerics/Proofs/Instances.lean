import NominalGenerics.Locator
import NominalGenerics.Proofs.Ancestors

/-!
# Instances of supertypes

A direct supertype as seen from a type is the written one with the arguments of the type in place of
the parameters; composing such steps gives the instances a type inherits (`Inherits`). On formed
types every step succeeds and gives a formed type again, and a parameterisation that goes up step by
step ends at one of these instances (`parameterizeWithin_climbs`).
-/

namespace NominalGenerics.Hierarchy

variable {h : Hierarchy} {ids : List DeclId}

theorem Formed.params_eq_nil {P : ParamSet} {d : DeclId}
    (formed : (Ty.decl d).Formed (h.arity ids) P) : h.params d = [] :=
  List.eq_nil_of_length_eq_zero (arity_eq_some.mp formed).2

/-! ## Substitution that changes nothing -/

section Excluded

variable {P : ParamSet} {spec : Spec} {excluded : List String}

mutual

/-- Substitution leaves a type as it is when every parameter it mentions is excluded. -/
theorem subst_eq_self : ∀ {t : Ty}, t.Formed (h.arity ids) P →
    (∀ n ∈ h.mentions t, n ∈ excluded) → h.subst spec excluded t = t
  | .decl d, formed, _ => by simp [subst, Formed.params_eq_nil formed]
  | .bare _ _, _, _ => rfl
  | .app s d args, ⟨_, formed⟩, all => by
    rw [subst, substSlots_eq_self formed all]
  | .param s n bs, _, all => by
    have free : excluded.contains n = true := by simpa using all n List.mem_cons_self
    rw [subst, Spec.resolve, dif_pos free]
  | .array s e, formed, all => by
    rw [subst, subst_eq_self (t := e) formed all]

theorem substSlot_eq_self : ∀ {s : Slot}, s.Formed (h.arity ids) P →
    (∀ n ∈ h.slotMentions s, n ∈ excluded) → h.substSlot spec excluded s = s
  | .exact m t, ⟨fresh, notParam, formed⟩, all => by
    rw [substSlot, subst_eq_self formed all]
    obtain ⟨site, resolved⟩ := m
    cases fresh
    cases t with
    | param => cases notParam
    | decl | bare | app | array => rfl
  | .param m l node n bs, _, all => by
    have free : excluded.contains n = true := by simpa using all n List.mem_cons_self
    rw [substSlot]
    exact if_pos free
  | .wildcard m none us, ⟨_, formed⟩, all => by
    rw [substSlot, substTypes_eq_self formed all]
  | .wildcard m (some l) us, ⟨_, lower, formed⟩, all => by
    rw [substSlot, subst_eq_self lower fun n member => all n (List.mem_append_left _ member),
      substTypes_eq_self formed fun n member => all n (List.mem_append_right _ member)]

theorem substTypes_eq_self : ∀ {ts : List Ty}, Ty.FormedAll (h.arity ids) P ts →
    (∀ n ∈ h.typesMention ts, n ∈ excluded) → h.substTypes spec excluded ts = ts
  | [], _, _ => rfl
  | t :: ts, ⟨first, rest⟩, all => by
    rw [substTypes, subst_eq_self first fun n member => all n (List.mem_append_left _ member),
      substTypes_eq_self rest fun n member => all n (List.mem_append_right _ member)]

theorem substSlots_eq_self : ∀ {ss : List Slot}, Slot.FormedAll (h.arity ids) P ss →
    (∀ n ∈ h.slotsMention ss, n ∈ excluded) → h.substSlots spec excluded ss = ss
  | [], _, _ => rfl
  | s :: ss, ⟨first, rest⟩, all => by
    rw [substSlots, substSlot_eq_self first fun n member => all n (List.mem_append_left _ member),
      substSlots_eq_self rest fun n member => all n (List.mem_append_right _ member)]

end

/-- An argument resolved through nothing is what it was. -/
theorem resolveArgument_empty {s : Slot} (formed : s.Formed (h.arity ids) P) :
    h.resolveArgument .empty s = s := by
  refine substSlot_eq_self formed ?_
  intro n member
  exact List.mem_filter.mpr ⟨member, rfl⟩

end Excluded

/-! ## Substitution keeps types formed -/

section Formed

variable {P Q : ParamSet} {spec : Spec}

/-- What a spec may put in place of a parameter. A parameter without bounds comes back bounded by
itself. -/
structure Supplies (A : Arity) (Q : ParamSet) (spec : Spec) : Prop where
  values : ∀ n s, spec.get? n = some s → s.Formed A Q
  object : A .object = some 0
  selfBounded : ∀ s n, Q s n [] → Q s n [.param s n []]

theorem Slot.Formed.ty {A : Arity} {s : Slot} (formed : s.Formed A Q)
    (object : A .object = some 0) :
    s.ty.Formed A Q := by
  cases s with
  | exact m t => exact formed.2.2
  | rebound => cases formed
  | param m l node n bs => exact formed.2.2
  | wildcard m l us =>
    have uppers : Ty.FormedAll A Q us := by
      cases l with
      | none => exact formed.2
      | some l => exact formed.2.2
    cases us with
    | nil => exact object
    | cons u us => exact uppers.1

theorem resolve_formed {A : Arity} (supplies : Supplies A Q spec) {excluded : List String}
    {s : Site} {n : String} {bs : List Ty} (kept : n ∈ excluded → Q s n bs) :
    (spec.resolve excluded s n bs).Formed A Q := by
  fun_induction spec.resolve excluded s n bs with
  | case1 excluded s n bs free => exact kept (by simpa using free)
  | case2 => exact supplies.object
  | case3 excluded s n bs free slot known wildcard =>
    exact Slot.Formed.ty (supplies.values n slot known) supplies.object
  | case4 excluded s n bs free slot known wildcard site name same =>
    have formed := Slot.Formed.ty (supplies.values n slot known) supplies.object
    rw [same] at formed
    exact supplies.selfBounded _ _ formed
  -- the alias that is followed next is a formed parameter itself
  | case5 excluded s n bs free slot known wildcard site name b rest same further smaller ih =>
    have formed := Slot.Formed.ty (supplies.values n slot known) supplies.object
    rw [same] at formed
    exact ih fun _ => formed
  | case6 excluded s n bs free slot known wildcard site name b rest same =>
    have formed := Slot.Formed.ty (supplies.values n slot known) supplies.object
    rw [same] at formed
    exact formed
  | case7 excluded s n bs free slot known wildcard =>
    exact Slot.Formed.ty (supplies.values n slot known) supplies.object

theorem resolveSlot_formed {A : Arity} (supplies : Supplies A Q spec) {s : Slot} :
    (spec.resolveSlot [] s).Formed A Q := by
  unfold Spec.resolveSlot
  cases known : spec.get? s.name with
  | none => exact ⟨rfl, rfl, supplies.object⟩
  | some value => exact supplies.values _ _ known

theorem length_substSlots (h : Hierarchy) (spec : Spec) (excluded : List String) (ss : List Slot) :
    (h.substSlots spec excluded ss).length = ss.length := by
  induction ss with
  | nil => rfl
  | cons s ss ih => rw [substSlots, List.length_cons, List.length_cons, ih]

mutual

/-- What substitution makes of a formed type is formed. -/
theorem subst_formed (supplies : Supplies (h.arity ids) Q spec) : ∀ {t : Ty},
    t.Formed (h.arity ids) P → (h.subst spec [] t).Formed (h.arity ids) Q
  | .decl d, formed => by
    rw [subst, Formed.params_eq_nil formed]
    exact formed
  | .bare _ _, formed => formed
  | .app s d args, ⟨⟨k, known, fits⟩, formed⟩ => by
    refine ⟨⟨k, known, ?_⟩, substSlots_formed supplies formed⟩
    rcases fits with rfl | length
    · exact .inl rfl
    · exact .inr ((length_substSlots h spec [] args).trans length)
  | .param s n bs, _ => by
    have nothing : n ∈ ([] : List String) → Q s n bs := nofun
    exact resolve_formed supplies nothing
  | .array s e, formed => subst_formed supplies (t := e) formed

theorem substSlot_formed (supplies : Supplies (h.arity ids) Q spec) : ∀ {s : Slot},
    s.Formed (h.arity ids) P → (h.substSlot spec [] s).Formed (h.arity ids) Q
  | .exact m _, ⟨_, _, formed⟩ => Slot.formed_ofTy m.site (subst_formed supplies formed)
  | .param _ _ _ _ _, _ => resolveSlot_formed supplies
  | .wildcard _ none _, ⟨fresh, formed⟩ => ⟨fresh, substTypes_formed supplies formed⟩
  | .wildcard _ (some _) _, ⟨fresh, lower, formed⟩ =>
    ⟨fresh, subst_formed supplies lower, substTypes_formed supplies formed⟩

theorem substTypes_formed (supplies : Supplies (h.arity ids) Q spec) : ∀ {ts : List Ty},
    Ty.FormedAll (h.arity ids) P ts → Ty.FormedAll (h.arity ids) Q (h.substTypes spec [] ts)
  | [], _ => trivial
  | _ :: _, ⟨first, rest⟩ => ⟨subst_formed supplies first, substTypes_formed supplies rest⟩

theorem substSlots_formed (supplies : Supplies (h.arity ids) Q spec) : ∀ {ss : List Slot},
    Slot.FormedAll (h.arity ids) P ss → Slot.FormedAll (h.arity ids) Q (h.substSlots spec [] ss)
  | [], _ => trivial
  | _ :: _, ⟨first, rest⟩ => ⟨substSlot_formed supplies first, substSlots_formed supplies rest⟩

end

/-- A class type stays a use of the same declaration. -/
theorem head_subst (spec : Spec) {t : Ty} {d : DeclId} (formed : t.Formed (h.arity ids) P)
    (head : t.head? = some d) : (h.subst spec [] t).head? = some d := by
  cases t with
  | decl e =>
    rw [subst, Formed.params_eq_nil formed]
    exact head
  | bare s e => exact head
  | app s e args => exact head
  | param s n bs => cases head
  | array s e => cases head

end Formed

/-! ## Specs of formed types -/

section CreateSpec

variable {P : ParamSet}

/-- A key's slot is the argument of a parameter of that name, unless it was there before. -/
theorem keyed_sound {ps ss : List Slot} {acc : Spec} {n : String} {s : Slot}
    (formed : Slot.FormedAll (h.arity ids) P ss)
    (found : (h.keyed .empty ps ss acc).get? n = some s) :
    (∃ p, (p, s) ∈ ps.zip ss ∧ p.name = n) ∨ acc.get? n = some s := by
  induction ps generalizing ss acc with
  | nil => exact .inr found
  | cons p ps ih =>
    cases ss with
    | nil => exact .inr found
    | cons a ss =>
      obtain ⟨first, rest⟩ := formed
      rcases ih rest found with ⟨q, later, named⟩ | before
      · exact .inl ⟨q, List.mem_cons_of_mem _ later, named⟩
      · rw [resolveArgument_empty first, NameMap.get?_insert] at before
        split at before
        · rename_i named
          cases before
          exact .inl ⟨p, List.mem_cons_self, named.symm⟩
        · exact .inr before

/-- A class type with all its arguments, if its declaration has any. -/
structure Settled (h : Hierarchy) (t : Ty) : Prop where
  notRaw : h.isRaw t = false
  notDiamond : t.isDiamond = false

theorem args_formed {t : Ty} (formed : t.Formed (h.arity ids) P) {s : Slot}
    (member : s ∈ h.args t) :
    s.Formed (h.arity ids) P := by
  cases t with
  | decl d =>
    rw [args, Formed.params_eq_nil formed] at member
    cases member
  | app s d as => exact Slot.formedAll_iff.mp formed.2 _ member
  | bare | param | array => cases member

/-- The spec of a class type is made of its arguments; without arguments it is empty. -/
theorem createSpec_eq {t : Ty} {d : DeclId} (formed : t.Formed (h.arity ids) P)
    (head : t.head? = some d) :
    h.createSpec .empty t = .ok (h.keyed .empty (h.params d) (h.args t) .empty) := by
  have nothing : h.keyed .empty (h.params d) [] .empty = .empty := by cases h.params d <;> rfl
  cases t with
  | decl e =>
    cases head
    simp [createSpec, Ty.head?, args, Formed.params_eq_nil formed, keyed]
  | bare s e =>
    rw [args, nothing]
    rfl
  | app s e as =>
    cases head
    obtain ⟨⟨k, known, fits⟩, -⟩ := formed
    cases as with
    | nil =>
      rw [args, nothing]
      rfl
    | cons a as =>
      have length : (h.params d).length = (a :: as).length := by
        rw [(arity_eq_some.mp known).2, fits.resolve_left (List.cons_ne_nil a as)]
      simp only [createSpec, Ty.head?, args, if_pos length]
  | param s n bs => cases head
  | array s e => cases head

/-- The spec of a class type maps the parameters of its declaration to the arguments it has. -/
theorem createSpec_spec {t : Ty} {d : DeclId} (formed : t.Formed (h.arity ids) P)
    (head : t.head? = some d) : ∃ spec, h.createSpec .empty t = .ok spec ∧
      ∀ n s, spec.get? n = some s → ∃ p, (p, s) ∈ (h.params d).zip (h.args t) ∧ p.name = n := by
  refine ⟨_, createSpec_eq formed head, ?_⟩
  intro n s found
  have all : Slot.FormedAll (h.arity ids) P (h.args t) :=
    Slot.formedAll_iff.mpr fun _ member => args_formed formed member
  exact (keyed_sound all found).resolve_right nofun

/-- What the spec of a formed type supplies may stand where the type stands. -/
theorem supplies_of_createSpec (sound : h.Sound ids)
    (selfBounded : ∀ s n, P s n [] → P s n [.param s n []]) {t : Ty} {d : DeclId}
    (formed : t.Formed (h.arity ids) P) (head : t.head? = some d) :
    ∃ spec, h.createSpec .empty t = .ok spec ∧ Supplies (h.arity ids) P spec := by
  obtain ⟨spec, created, values⟩ := createSpec_spec formed head
  refine ⟨spec, created, ?_, sound.arity_object, selfBounded⟩
  intro n s found
  obtain ⟨p, paired, -⟩ := values n s found
  exact args_formed formed (List.of_mem_zip paired).2

end CreateSpec

/-! ## Inherited instances -/

/-- `u` is a direct supertype of `t` as written, with the arguments of `t`. -/
def DirectSuper (h : Hierarchy) (t u : Ty) : Prop :=
  ∃ w ∈ h.supertypes t, ∃ spec, h.createSpec .empty t = .ok spec ∧ h.subst spec [] w = u

/-- `u` is what `t` is, seen along a chain of direct supertypes, with the arguments composed. -/
def Inherits (h : Hierarchy) : Ty → Ty → Prop := Relation.ReflTransGen h.DirectSuper

def directSupers (h : Hierarchy) (t : Ty) : List Ty :=
  match h.createSpec .empty t with
  | .ok spec => (h.supertypes t).map (h.subst spec [])
  | .error _ => []

theorem mem_directSupers {t u : Ty} : u ∈ h.directSupers t ↔ h.DirectSuper t u := by
  unfold directSupers DirectSuper
  cases h.createSpec .empty t with
  | ok spec => simp [List.mem_map]
  | error e => simp

/-- A list that holds a type, and with each type its direct supertypes, holds all its instances. -/
theorem mem_of_inherits {ts : List Ty} (closed : ∀ t ∈ ts, ∀ u ∈ h.directSupers t, u ∈ ts)
    {t u : Ty} (member : t ∈ ts) (inherits : h.Inherits t u) : u ∈ ts := by
  induction inherits with
  | refl => exact member
  | tail _ direct ih => exact closed _ ih _ (mem_directSupers.mpr direct)

/-- A formed class type all of whose inherited instances have their arguments. -/
structure Ascending (h : Hierarchy) (ids : List DeclId) (Q : ParamSet) (t : Ty) : Prop where
  formed : t.Formed (h.arity ids) Q
  isClass : ∃ d, t.head? = some d
  settled : ∀ u, h.Inherits t u → h.Settled u

section Inherits

variable {Q : ParamSet} {t u w : Ty} {d : DeclId}

theorem Ascending.mem_ids (ascending : h.Ascending ids Q t)
    (head : t.head? = some d) : d ∈ ids := by
  obtain ⟨k, known⟩ := ascending.formed.head head
  exact (arity_eq_some.mp known).1

/-- A step up gives a formed type of the declaration that is written. -/
theorem step_formed (sound : h.Sound ids) (selfBounded : ∀ s n, Q s n [] → Q s n [.param s n []])
    (formed : t.Formed (h.arity ids) Q) (head : t.head? = some d) (written : w ∈ h.supertypes t)
    {spec : Spec} (created : h.createSpec .empty t = .ok spec) :
    (h.subst spec [] w).Formed (h.arity ids) Q ∧
      ∃ e, (h.subst spec [] w).head? = some e ∧ w.head? = some e ∧ h.Edge d e := by
  obtain ⟨spec', created', supplies⟩ := supplies_of_createSpec sound selfBounded formed head
  rw [created] at created'
  cases created'
  obtain ⟨formedW, e, above, edge⟩ := sound.supertype head written
  exact ⟨subst_formed supplies formedW, e, head_subst spec formedW above, above, edge⟩

/-- So do all the steps of a chain. -/
theorem inherits_formed (sound : h.Sound ids)
    (selfBounded : ∀ s n, Q s n [] → Q s n [.param s n []]) (formed : t.Formed (h.arity ids) Q)
    (isClass : ∃ d, t.head? = some d) (inherits : h.Inherits t u) :
    u.Formed (h.arity ids) Q ∧ ∃ e, u.head? = some e := by
  induction inherits with
  | refl => exact ⟨formed, isClass⟩
  | tail _ direct ih =>
    obtain ⟨formed, d, head⟩ := ih
    obtain ⟨w, written, spec, created, rfl⟩ := direct
    obtain ⟨formed, e, here, -⟩ := step_formed sound selfBounded formed head written created
    exact ⟨formed, e, here⟩

/-- A step up gives a type that can go on going up. -/
theorem Ascending.step (ascending : h.Ascending ids Q t) (sound : h.Sound ids)
    (selfBounded : ∀ s n, Q s n [] → Q s n [.param s n []]) (head : t.head? = some d)
    (written : w ∈ h.supertypes t) {spec : Spec} (created : h.createSpec .empty t = .ok spec) :
    h.Ascending ids Q (h.subst spec [] w) ∧
      ∃ e, (h.subst spec [] w).head? = some e ∧ w.head? = some e ∧ h.Edge d e := by
  obtain ⟨formed, e, here, above, edge⟩ :=
    step_formed sound selfBounded ascending.formed head written created
  refine ⟨⟨formed, ⟨e, here⟩, ?_⟩, e, here, above, edge⟩
  intro u inherited
  exact ascending.settled u (.head ⟨w, written, spec, created, rfl⟩ inherited)

/-- The declaration of an inherited instance is reached. -/
theorem Ascending.reaches (ascending : h.Ascending ids Q t) (sound : h.Sound ids)
    (selfBounded : ∀ s n, Q s n [] → Q s n [.param s n []]) {e : DeclId} (head : t.head? = some d)
    (inherits : h.Inherits t u) (head' : u.head? = some e) : h.Reaches d e := by
  induction inherits using Relation.ReflTransGen.head_induction_on generalizing d with
  | refl =>
    rw [head] at head'
    cases head'
    exact .refl
  | head direct _ ih =>
    obtain ⟨w, written, spec, created, rfl⟩ := direct
    obtain ⟨above, c, here, -, edge⟩ := ascending.step sound selfBounded head written created
    exact .head edge (ih above here)

/-- Instantiating a supertype is substituting in it, whether or not it mentions parameters. -/
theorem instantiate_eq (ascending : h.Ascending ids Q t) (sound : h.Sound ids)
    (head : t.head? = some d) (written : w ∈ h.supertypes t) {spec : Spec}
    (created : h.createSpec .empty t = .ok spec) : h.instantiate t w = .ok (h.subst spec [] w) := by
  obtain ⟨formed, -⟩ := sound.supertype head written
  have settled := ascending.settled t .refl
  unfold instantiate
  split
  · rename_i closed
    have none : h.mentions w = [] := by simpa [hasParams] using closed
    rw [subst_eq_self formed (by simp [none])]
  · rw [settled.notRaw, settled.notDiamond, created]
    rfl

end Inherits

end NominalGenerics.Hierarchy

/-! ## Climbing to a declaration -/

namespace NominalGenerics.Context

/-- The climb from a type to its instance of `g`: up one direct supertype on a path to `g` at a
time, until it is reached. -/
inductive Climbs (Γ : Context) (g : DeclId) : Ty → Ty → Prop
  | here {t : Ty} : t.head? = some g → Climbs Γ g t t
  | up {t w u : Ty} {spec : Spec} : t.head? ≠ some g → Γ.nextSupertype t (.decl g) = some w →
      w ∈ Γ.hierarchy.supertypes t → Γ.hierarchy.createSpec .empty t = .ok spec →
      Climbs Γ g (Γ.hierarchy.subst spec [] w) u → Climbs Γ g t u

section Climbs

variable {Γ : Context} {ids : List DeclId} {Q : ParamSet} {d g : DeclId} {t u v : Ty}

theorem Climbs.inherits (climbs : Γ.Climbs g t u) : Γ.hierarchy.Inherits t u := by
  induction climbs with
  | here _ => exact .refl
  | up _ _ written created _ ih => exact .head ⟨_, written, _, created, rfl⟩ ih

theorem Climbs.head (climbs : Γ.Climbs g t u) : u.head? = some g := by
  induction climbs with
  | here head => exact head
  | up _ _ _ _ _ ih => exact ih

theorem Climbs.unique (climbs : Γ.Climbs g t u) (other : Γ.Climbs g t v) : u = v := by
  induction climbs with
  | here head =>
    cases other with
    | here _ => rfl
    | up apart => exact absurd head apart
  | up apart next _ created _ ih =>
    cases other with
    | here head => exact absurd head apart
    | up _ next' _ created' climbs' =>
      rw [next] at next'
      cases next'
      rw [created] at created'
      cases created'
      exact ih climbs'

/-- One level of parameterisation between class types is a step of the climb. -/
theorem parameterizeStep_class {above : Ty → Ty → Traced Ty} {target : Ty} (head : t.head? = some d)
    (head' : target.head? = some g) :
    Γ.parameterizeStep above t target = Γ.climb above t target := by
  cases t <;> cases head <;> cases target <;> cases head' <;> rfl

/-- A type below a declaration climbs to it, and parameterisation gives what the climb gives. -/
theorem parameterizeWithin_climbs (unmarked : Γ.marker = "") (sound : Γ.hierarchy.Sound ids)
    (selfBounded : ∀ s n, Q s n [] → Q s n [.param s n []]) {fuel : Nat}
    (ascending : Γ.hierarchy.Ascending ids Q t) (head : t.head? = some d) (member : d ∈ ids)
    (reaches : Γ.hierarchy.Reaches d g) (enough : Γ.hierarchy.height ids d < fuel) {target : Ty}
    (head' : target.head? = some g) :
    ∃ u, Γ.Climbs g t u ∧ (Γ.parameterizeWithin fuel t target).result = .ok u := by
  induction fuel generalizing t d with
  | zero => omega
  | succ fuel ih =>
    unfold parameterizeWithin
    rw [parameterizeStep_class head head']
    unfold climb
    by_cases same : d = g
    · subst same
      refine ⟨t, .here head, ?_⟩
      simp only [(Ty.is_iff head head').mpr rfl, if_true]
      rfl
    · have settled := ascending.settled t .refl
      obtain ⟨w, c, next, written, above, below⟩ :=
        nextSupertype_spec unmarked sound head reaches same
      obtain ⟨spec, created, -⟩ :=
        Hierarchy.supplies_of_createSpec sound selfBounded ascending.formed head
      obtain ⟨ascends, e, here, above', edge⟩ :=
        ascending.step sound selfBounded head written created
      rw [above] at above'
      cases above'
      have lower := sound.height_lt member edge
      obtain ⟨u, climbs, result⟩ := ih ascends here (sound.edge_mem edge) below (by omega)
      refine ⟨u, .up ?_ next written created climbs, ?_⟩
      · rw [head]
        exact fun equal => same (Option.some.inj equal)
      · simp only [Ty.is_eq_false head head' same, settled.notRaw, settled.notDiamond,
          sound.direct.declaration head', next, created, Bool.or_false, Bool.false_eq_true,
          if_false]
        exact result

end Climbs

end NominalGenerics.Context
