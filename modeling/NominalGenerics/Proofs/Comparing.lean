import NominalGenerics.Compatibility
import NominalGenerics.Engine.Basic
import NominalGenerics.Hierarchy.Equality
import NominalGenerics.Proofs.Ground

/-!
# Comparing and parameterising agree

On ground types the comparison of arguments comes down to structural equality once both sides use
one declaration (`argumentsMatch_same`). To get there it climbs one superclass at a time, or takes
an interface as the parameterisation sees it, and either way it meets the instance that the
parameterisation gives (`argumentsMatch_class`). So a type is compatible with `? extends A` exactly
when it is a subtype and is `A` once parameterised (`isCompatible_iff_parameterize`).
-/

namespace NominalGenerics

/-! ## Uses of one declaration -/

/-- Equal types use one declaration. -/
theorem Hierarchy.is_of_equal {h : Hierarchy} : ∀ {x y : Ty}, h.equal x y = true → x.is y = true
  | .array _ a, .array _ b, equal => Hierarchy.is_of_equal (x := a) (y := b) equal
  | .decl _, y, equal => by cases y <;> simp_all [Hierarchy.equal, Ty.is, Ty.head?]
  | .bare _ _, y, equal => by cases y <;> simp_all [Hierarchy.equal, Ty.is, Ty.head?]
  | .app _ _ _, y, equal => by cases y <;> simp_all [Hierarchy.equal, Ty.is, Ty.head?]
  | .param _ _ _, y, equal => by cases y <;> simp_all [Hierarchy.equal, Ty.is]

namespace Context

variable {Γ : Context} {ids : List DeclId}

/-- An argument is compared with the one that the bound supplies for the same parameter. -/
theorem fitsArgument_exact {accept : Slot → Ty → Traced Bool} {p : Slot}
    {boundArgs candidateArgs : Spec}
    {m m' : Mark} {x y : Ty} (supplied : boundArgs.get? p.name = some (.exact m' y)) :
    fitsArgument accept (.exact m x) p boundArgs candidateArgs = accept (.exact m' y) x := by
  simp [fitsArgument, Slot.isParam, supplied, Slot.kind, Slot.ty]

/-- A slot for one type takes types of the same declaration with matching arguments. -/
theorem accepts_exact {matching : Ty → Ty → Traced Bool} {A : Arity} {m : Mark} {x y : Ty}
    (ground : x.Ground A) : Γ.accepts matching (.exact m y) x =
      if x.is y then matching x y else pure false := by
  simp only [accepts, ground.not_isDiamond, ground.not_isParam, Bool.false_and, Bool.false_eq_true,
    if_false]
  rfl

section Same

/-- Arguments compared one by one, given that comparing what they hold is structural equality. -/
theorem fits_all {fuel : Nat} {boundArgs candidateArgs : Spec} {ps as bs : List Slot}
    (same : ∀ x y, x.Ground (Γ.hierarchy.arity ids) → y.Ground (Γ.hierarchy.arity ids) →
      x.is y = true → y.weight ≤ fuel →
      (Γ.argumentsMatch fuel x y).result = .ok (Γ.hierarchy.equal x y))
    (groundAs : Slot.GroundAll (Γ.hierarchy.arity ids) as)
    (groundBs : Slot.GroundAll (Γ.hierarchy.arity ids) bs) (lengthAs : ps.length = as.length)
    (lengthBs : ps.length = bs.length) (light : Slot.weights bs ≤ fuel)
    (supplied : ∀ x ∈ ps.zip bs, boundArgs.get? x.1.name = some x.2) :
    ((ps.zip as).allM fun (d, s) => fitsArgument (Γ.accepts (Γ.argumentsMatch fuel)) s d boundArgs
      candidateArgs).result = .ok (Γ.hierarchy.equalSlots as bs) := by
  induction ps generalizing as bs with
  | nil =>
    cases as with
    | cons => cases lengthAs
    | nil =>
      cases bs with
      | cons => cases lengthBs
      | nil => rfl
  | cons p ps ih =>
    cases as with
    | nil => cases lengthAs
    | cons a as =>
      cases bs with
      | nil => cases lengthBs
      | cons b bs =>
        obtain ⟨groundA, groundAs⟩ := groundAs
        obtain ⟨groundB, groundBs⟩ := groundBs
        cases a with
        | rebound | param | wildcard => cases groundA
        | exact m x =>
          cases b with
          | rebound | param | wildcard => cases groundB
          | exact m' y =>
            rw [Slot.weights, Slot.weight] at light
            have first : (fitsArgument (Γ.accepts (Γ.argumentsMatch fuel)) (.exact m x) p boundArgs
                candidateArgs).result = .ok (Γ.hierarchy.equal x y) := by
              rw [fitsArgument_exact (supplied _ List.mem_cons_self), accepts_exact groundA.2]
              split
              · rename_i sameHead
                exact same x y groundA.2 groundB.2 sameHead (by omega)
              · rename_i apart
                have unequal : Γ.hierarchy.equal x y = false :=
                  Bool.eq_false_iff.mpr (mt Hierarchy.is_of_equal apart)
                rw [unequal]
                rfl
            have rest := ih groundAs groundBs (Nat.succ.inj lengthAs) (Nat.succ.inj lengthBs)
              (by omega) fun x member => supplied x (List.mem_cons_of_mem _ member)
            rw [List.zip_cons_cons, List.allM, Traced.result_bind, first]
            cases equal : Γ.hierarchy.equal x y with
            | true => simpa [Except.bind, Hierarchy.equalSlots, Hierarchy.slotEqual, Slot.kind,
                Slot.ty, equal] using rest
            | false => simp [Except.bind, Hierarchy.equalSlots, Hierarchy.slotEqual, Slot.kind,
                Slot.ty, equal]

/-- Ground types that use one declaration are compared by structural equality. -/
theorem argumentsMatch_same (sound : Γ.hierarchy.Sound ids) (distinct : Γ.hierarchy.DistinctParams)
    {fuel : Nat} {x y : Ty} (groundX : x.Ground (Γ.hierarchy.arity ids))
    (groundY : y.Ground (Γ.hierarchy.arity ids)) (same : x.is y = true) (light : y.weight ≤ fuel) :
    (Γ.argumentsMatch fuel x y).result = .ok (Γ.hierarchy.equal x y) := by
  induction fuel generalizing x y with
  | zero => cases y <;> simp [Ty.weight] at light
  | succ fuel ih =>
    unfold argumentsMatch
    cases y with
    | bare | param => cases groundY
    | array s b =>
      cases x with
      | decl | bare | app | param => cases same
      | array s' a =>
        rw [Ty.weight] at light
        exact ih groundX groundY same (by omega)
    | decl d =>
      have none := Hierarchy.Formed.params_eq_nil (P := .none) groundY
      cases x with
      | array => cases same
      | bare | param => cases groundX
      | decl e =>
        have same : e = d := (Ty.is_iff rfl rfl).mp same
        simp [argumentsMatchStep, Hierarchy.args, Hierarchy.equal, none, same]
      | app s e as =>
        -- a ground use has arguments, and the declaration has no parameter for them
        have same : e = d := (Ty.is_iff rfl rfl).mp same
        subst same
        have length := (Hierarchy.arity_eq_some.mp groundX.1).2
        rw [none] at length
        exact absurd (List.eq_nil_of_length_eq_zero length.symm) groundX.2.1
    | app s d bs =>
      cases x with
      | array => cases same
      | bare | param => cases groundX
      | decl e =>
        have same : e = d := (Ty.is_iff rfl rfl).mp same
        subst same
        have length := (Hierarchy.arity_eq_some.mp groundY.1).2
        rw [Hierarchy.Formed.params_eq_nil (P := .none) groundX] at length
        exact absurd (List.eq_nil_of_length_eq_zero length.symm) groundY.2.1
      | app s' e as =>
        have same : e = d := (Ty.is_iff rfl rfl).mp same
        subst same
        obtain ⟨boundArgs, bound, supplied⟩ := Hierarchy.arguments_ground sound distinct groundY
        obtain ⟨candidateArgs, candidate, -⟩ := Hierarchy.arguments_ground sound distinct groundX
        obtain ⟨knownX, someX, groundX⟩ := groundX
        obtain ⟨knownY, someY, groundY⟩ := groundY
        have lengthX := (Hierarchy.arity_eq_some.mp knownX).2
        have lengthY := (Hierarchy.arity_eq_some.mp knownY).2
        rw [Ty.weight] at light
        have whole : Γ.hierarchy.declaration (.app s e bs) = .decl e := sound.direct.declaration rfl
        have step : Γ.argumentsMatchStep (Γ.argumentsMatch fuel) (.app s' e as) (.app s e bs) =
            Γ.matchesArguments (Γ.accepts (Γ.argumentsMatch fuel)) (.app s' e as)
              (.app s e bs) := by
          simp [argumentsMatchStep, Hierarchy.args, Hierarchy.isRaw, matchesClass, Ty.is, Ty.head?,
            someY]
        rw [step, matchesArguments]
        simp only [whole, Hierarchy.args, bound, candidate, List.isEmpty_eq_false_iff.mpr someX,
          lengthX, Bool.false_eq_true, if_false, ne_eq, not_true_eq_false, Hierarchy.equal,
          beq_self_eq_true, Bool.true_and]
        exact fits_all (fun x y => ih) groundX groundY lengthX lengthY (by omega) supplied

end Same

/-! ## Climbing to the bound -/

section Climb

variable {x a w : Ty} {d g : DeclId}

/-- On the way to a class the next supertype is the superclass. -/
theorem nextSupertype_of_class (isClass : Γ.hierarchy.isInterface (.decl g) = false)
    (next : Γ.nextSupertype x (.decl g) = some w) : Γ.hierarchy.superclass x = some w := by
  unfold nextSupertype at next
  simp only [isClass, Bool.false_eq_true, if_false] at next
  split at next
  · cases next
  · exact (Option.filter_eq_some_iff.mp next).1

/-- The superclass as a ground type sees it: as written with the arguments in place. -/
theorem superclass_seen (unmarked : Γ.marker = "") (sound : Γ.hierarchy.Sound ids)
    (plain : Γ.hierarchy.PlainSupertypes) (ground : x.Ground (Γ.hierarchy.arity ids))
    (head : x.head? = some d) (notRoot : d ≠ .object) :
    ∃ w c spec, Γ.hierarchy.superclass x = some w ∧ w.head? = some c ∧
      Γ.hierarchy.createSpec .empty x = .ok spec ∧
      (if (Γ.hierarchy.args w).isEmpty then pure w else Γ.parameterize x w).result =
        .ok (Γ.hierarchy.subst spec [] w) := by
  have ascending := Hierarchy.Ground.ascending sound plain ground head
  have member := ascending.mem_ids head
  obtain ⟨w, c, super, above, isClass⟩ := sound.superclass notRoot
  rw [← Hierarchy.superclass_of_head head] at super
  have written : w ∈ Γ.hierarchy.supertypes x :=
    List.mem_append_left _ (Option.mem_toList.mpr super)
  obtain ⟨spec, created, -⟩ :=
    Hierarchy.supplies_of_createSpec sound (fun _ _ none => none) ascending.formed head
  obtain ⟨formed, c', above', edge⟩ := sound.supertype head written
  rw [above] at above'
  cases above'
  refine ⟨w, c, spec, super, above, created, ?_⟩
  split
  · -- a plain class type without arguments is a declaration without parameters
    rename_i none
    have isPlain : Γ.hierarchy.isPlain w = true := by
      rw [Hierarchy.supertypes_of_head head] at written
      exact plain.supertype written
    cases w with
    | decl e =>
      rw [Hierarchy.subst, Hierarchy.Formed.params_eq_nil formed]
      rfl
    | bare s e =>
      rw [Hierarchy.not_plain_bare formed] at isPlain
      cases isPlain
    | app s e as =>
      rw [Hierarchy.isPlain, Bool.and_eq_true, Bool.not_eq_true'] at isPlain
      rw [Hierarchy.args, isPlain.1] at none
      cases none
    | param | array => cases above
  · have apart : d ≠ c := by
      rintro rfl
      exact sound.acyclic d (.single edge)
    obtain ⟨u, climbs, result⟩ := parameterizeWithin_climbs unmarked sound (fun _ _ none => none)
      ascending head member (.single edge)
      (sound.height_lt_budget (x.weight + w.weight)) above
    have isClass' : Γ.hierarchy.isInterface (.decl c) = false := by
      rw [Hierarchy.isInterface_of_head above] at isClass
      exact isClass
    obtain ⟨w', -, next, -⟩ := nextSupertype_spec unmarked sound head (.single edge) apart
    have same := nextSupertype_of_class isClass' next
    rw [super] at same
    cases same
    have direct : Γ.Climbs c x (Γ.hierarchy.subst spec [] w) := by
      refine .up ?_ next written created (.here (Hierarchy.head_subst spec formed above))
      rw [head]
      exact fun equal => apart (Option.some.inj equal)
    rw [parameterize, result, climbs.unique direct]

/-- On the way to a class, the superclass as seen is the next type of the climb. -/
theorem superclass_step (unmarked : Γ.marker = "") (sound : Γ.hierarchy.Sound ids)
    (plain : Γ.hierarchy.PlainSupertypes) (ground : x.Ground (Γ.hierarchy.arity ids))
    (head : x.head? = some d) (reaches : Γ.hierarchy.Reaches d g) (apart : d ≠ g)
    (isClass : Γ.hierarchy.isInterface (.decl g) = false) :
    ∃ w c u, Γ.hierarchy.superclass x = some w ∧
      (if (Γ.hierarchy.args w).isEmpty then pure w else Γ.parameterize x w).result = .ok u ∧
      u.Ground (Γ.hierarchy.arity ids) ∧ u.head? = some c ∧ Γ.hierarchy.Edge d c ∧
      Γ.hierarchy.Reaches c g ∧ ∀ v, Γ.Climbs g u v → Γ.Climbs g x v := by
  have ascending := Hierarchy.Ground.ascending sound plain ground head
  have notRoot : d ≠ .object := by
    rintro rfl
    exact apart (sound.eq_object_of_reaches reaches).symm
  obtain ⟨w, c, spec, super, above, created, seen⟩ :=
    superclass_seen unmarked sound plain ground head notRoot
  have written : w ∈ Γ.hierarchy.supertypes x :=
    List.mem_append_left _ (Option.mem_toList.mpr super)
  obtain ⟨-, e, here, above', edge⟩ :=
    ascending.step sound (fun _ _ none => none) head written created
  rw [above] at above'
  cases above'
  obtain ⟨w', c', next, -, headW, further⟩ :=
    nextSupertype_spec unmarked sound head reaches apart
  have same := nextSupertype_of_class isClass next
  rw [super] at same
  cases same
  rw [above] at headW
  cases headW
  obtain ⟨groundUp, -⟩ := Hierarchy.Ground.directSuper sound plain ground head
    ⟨w, written, spec, created, rfl⟩
  refine ⟨w, c, _, super, seen, groundUp, here, edge, further, ?_⟩
  intro v climbs
  refine .up ?_ next written created climbs
  rw [head]
  exact fun equal => apart (Option.some.inj equal)

/-- A class type of another declaration than the bound is compared through its ancestors. -/
theorem argumentsMatchStep_ancestor {matching : Ty → Ty → Traced Bool} {A : Arity} {s : Site}
    {as : List Slot} (ground : x.Ground A) (head : x.head? = some d) (some : as ≠ [])
    (apart : d ≠ g) :
    Γ.argumentsMatchStep matching x (.app s g as) =
      Γ.matchesAncestor Γ.parameterize matching x (.app s g as) := by
  have other : x.is (.app s g as) = false := Ty.is_eq_false head rfl apart
  cases x with
  | bare | param => cases ground
  | array => cases head
  | decl | app =>
    simp [argumentsMatchStep, Hierarchy.args, Hierarchy.isRaw, some, matchesClass, other]

/-- Through an interface: what the comparison goes on with is what the parameterisation gives. -/
theorem matchesAncestor_interface {matching : Ty → Ty → Traced Bool} (sound : Γ.hierarchy.Sound ids)
    (head : x.head? = some d) (headA : a.head? = some g) (member : d ∈ ids)
    (reaches : Γ.hierarchy.Reaches d g) (apart : d ≠ g)
    (isInterface : Γ.hierarchy.isInterface a = true) {u : Ty}
    (seen : (Γ.parameterize x (.decl g)).result = .ok u) :
    (Γ.matchesAncestor Γ.parameterize matching x a).result = (matching u a).result := by
  have notRoot : x.isRoot = false := by
    refine Ty.isRoot_eq_false head ?_
    rintro rfl
    exact apart (sound.eq_object_of_reaches reaches).symm
  have found : (Γ.hierarchy.allInterfaces x).find? (·.is a) = some (.decl g) := by
    have goal := isInterface
    rw [Hierarchy.isInterface_of_head headA] at goal
    have listed := sound.allInterfaces_complete head member reaches goal apart
    cases first : (Γ.hierarchy.allInterfaces x).find? (·.is a) with
    | none => exact absurd ((Ty.is_iff rfl headA).mpr rfl) (List.find?_eq_none.mp first _ listed)
    | some i =>
      obtain ⟨e, rfl, -⟩ := sound.allInterfaces_sound head (List.mem_of_find?_eq_some first)
      have same := List.find?_some first
      rw [(Ty.is_iff rfl headA).mp same]
  unfold matchesAncestor
  simp only [isInterface, notRoot, found, if_true, Bool.false_eq_true, if_false,
    Traced.result_bind, seen]
  rfl

/-- Otherwise the comparison goes on with the superclass. -/
theorem matchesAncestor_class {matching : Ty → Ty → Traced Bool} (sound : Γ.hierarchy.Sound ids)
    (isClass : Γ.hierarchy.isInterface a = false)
    (super : Γ.hierarchy.superclass x = some w) {u : Ty}
    (seen : (if (Γ.hierarchy.args w).isEmpty then pure w else Γ.parameterize x w).result = .ok u) :
    (Γ.matchesAncestor Γ.parameterize matching x a).result = (matching u a).result := by
  unfold matchesAncestor
  simp only [isClass, sound.isUnion_eq_false, matchesSuperclass_of_some super, Bool.false_eq_true,
    if_false]
  split at seen
  · rename_i none
    cases seen
    rw [if_pos none]
  · rename_i some
    rw [if_neg some, Traced.result_bind, seen]
    rfl

/-- A ground type is compared with a bound above it as the instance that it climbs to. -/
theorem argumentsMatch_class (unmarked : Γ.marker = "") (sound : Γ.hierarchy.Sound ids)
    (plain : Γ.hierarchy.PlainSupertypes) (distinct : Γ.hierarchy.DistinctParams) {fuel : Nat}
    (groundX : x.Ground (Γ.hierarchy.arity ids)) (groundA : a.Ground (Γ.hierarchy.arity ids))
    (head : x.head? = some d) (headA : a.head? = some g) (reaches : Γ.hierarchy.Reaches d g)
    (enough : Γ.hierarchy.height ids d + a.weight ≤ fuel) :
    ∃ u, Γ.Climbs g x u ∧ (Γ.argumentsMatch fuel x a).result = .ok (Γ.hierarchy.equal u a) := by
  -- on the levels left: the height pays for a superclass, the weight for the arguments at the end
  induction fuel generalizing x d with
  | zero => cases a <;> simp [Ty.weight] at enough
  | succ fuel ih =>
    have ascending := Hierarchy.Ground.ascending sound plain groundX head
    have member := ascending.mem_ids head
    by_cases same : d = g
    · subst same
      refine ⟨x, .here head, argumentsMatch_same sound distinct groundX groundA ?_ (by omega)⟩
      exact (Ty.is_iff head headA).mpr rfl
    have target : (Ty.decl g).head? = some g := rfl
    obtain ⟨u, climbs, seen⟩ := parameterizeWithin_climbs unmarked sound (fun _ _ none => none)
      ascending head member reaches (sound.height_lt_budget (x.weight + (Ty.decl g).weight)) target
    obtain ⟨c, edge, -⟩ := reaches.cases_head.resolve_left same
    have lower := sound.height_lt member edge
    have groundU := (Hierarchy.Ground.inherits sound plain groundX ⟨d, head⟩ climbs.inherits).1
    unfold argumentsMatch
    cases a with
    | bare | param => cases groundA
    | array => cases headA
    | decl e =>
      cases headA
      refine ⟨u, climbs, ?_⟩
      have none := Hierarchy.Formed.params_eq_nil (P := .none) groundA
      rw [Hierarchy.Ground.eq_decl groundU climbs.head none]
      cases x with
      | bare | param => cases groundX
      | array => cases head
      | decl | app => simp [argumentsMatchStep, Hierarchy.args, Hierarchy.equal, none]
    | app s e as =>
      cases headA
      rw [argumentsMatchStep_ancestor groundX head groundA.2.1 same]
      cases isInterface : Γ.hierarchy.isInterface (.app s g as) with
      | true =>
        -- the way up to an interface is gone at once, and the arguments are compared at its end
        refine ⟨u, climbs, ?_⟩
        rw [matchesAncestor_interface sound head rfl member reaches same isInterface seen]
        refine argumentsMatch_same sound distinct groundU groundA ?_ (by omega)
        exact (Ty.is_iff climbs.head rfl).mpr rfl
      | false =>
        obtain ⟨w, c, up, super, seen, groundUp, here, edge, further, climbs⟩ :=
          superclass_step unmarked sound plain groundX head reaches same isInterface
        have lower := sound.height_lt member edge
        obtain ⟨v, climbs', result⟩ := ih groundUp here further (by omega)
        refine ⟨v, climbs v climbs', ?_⟩
        rw [matchesAncestor_class sound isInterface super seen]
        exact result

/-- Class types, where one is below the other. -/
theorem argumentsMatch_ground_class (unmarked : Γ.marker = "") (sound : Γ.hierarchy.Sound ids)
    (plain : Γ.hierarchy.PlainSupertypes) (distinct : Γ.hierarchy.DistinctParams)
    {tests steps levels : Nat} (groundX : x.Ground (Γ.hierarchy.arity ids))
    (groundA : a.Ground (Γ.hierarchy.arity ids)) (head : x.head? = some d)
    (headA : a.head? = some g)
    (subtype : Γ.subtypeWithin tests x a = true) (enough : Γ.hierarchy.decls.size < steps)
    (enough' : Γ.hierarchy.decls.size + a.weight ≤ levels) :
    ∃ u, (Γ.parameterizeWithin steps x a).result = .ok u ∧
      (Γ.argumentsMatch levels x a).result = .ok (Γ.hierarchy.equal u a) := by
  have ascending := Hierarchy.Ground.ascending sound plain groundX head
  have member := ascending.mem_ids head
  have height := sound.height_le (d := d)
  have reaches : Γ.hierarchy.Reaches d g := by
    cases tests with
    | zero => cases subtype
    | succ tests => exact (subtypeWithin_class unmarked sound tests head headA member).mp subtype
  obtain ⟨u, climbs, seen⟩ := parameterizeWithin_climbs unmarked sound (fun _ _ none => none)
    ascending head member reaches (Nat.lt_of_le_of_lt height enough) headA
  obtain ⟨v, climbs', compared⟩ := argumentsMatch_class unmarked sound plain distinct groundX
    groundA head headA reaches (Nat.le_trans (Nat.add_le_add_right height _) enough')
  rw [climbs'.unique climbs] at compared
  exact ⟨u, seen, compared⟩

/-- Among class types an array is below the root alone. -/
theorem root_of_array_subtype {s : Site} {tests : Nat} (headA : a.head? = some g)
    (subtype : Γ.subtypeWithin tests (.array s x) a = true) : g = .object := by
  cases tests with
  | zero => cases subtype
  | succ tests =>
    by_contra notRoot
    have rootless := Ty.isRoot_eq_false headA notRoot
    cases a with
    | param | array => cases headA
    | decl | bare | app => simp [subtypeWithin, subtypeStep, Ty.is, Ty.head?, rootless] at subtype

/-- A class type is not below an array. -/
theorem not_subtype_array {s : Site} {tests : Nat} (head : x.head? = some d) :
    Γ.subtypeWithin tests x (.array s a) = false := by
  cases tests with
  | zero => rfl
  | succ tests =>
    cases x with
    | param | array => cases head
    | decl | bare | app => simp [subtypeWithin, subtypeStep, Ty.is, Ty.isRoot, Ty.head?]

/-- Arrays of one declaration pass the subtype test at once, others by their elements. -/
theorem subtypeWithin_elements {s s' : Site} {tests : Nat}
    (subtype : Γ.subtypeWithin tests (.array s x) (.array s' a) = true) :
    ∃ n, Γ.subtypeWithin n x a = true := by
  cases tests with
  | zero => cases subtype
  | succ tests =>
    by_cases same : x.is a = true
    · exact ⟨1, by simp [subtypeWithin, subtypeStep, same]⟩
    · refine ⟨tests, ?_⟩
      simpa [subtypeWithin, subtypeStep, Ty.is, Ty.isRoot, Ty.head?, same] using subtype

/-- The comparison and the parameterisation of ground types, arrays included, where one type is a
subtype of the other. -/
theorem argumentsMatch_ground (unmarked : Γ.marker = "") (sound : Γ.hierarchy.Sound ids)
    (plain : Γ.hierarchy.PlainSupertypes) (distinct : Γ.hierarchy.DistinctParams)
    {x a : Ty} {tests steps levels : Nat} (groundX : x.Ground (Γ.hierarchy.arity ids))
    (groundA : a.Ground (Γ.hierarchy.arity ids)) (subtype : Γ.subtypeWithin tests x a = true)
    (enough : Γ.hierarchy.decls.size + x.weight ≤ steps)
    (enough' : Γ.hierarchy.decls.size + a.weight ≤ levels) :
    ∃ u, (Γ.parameterizeWithin steps x a).result = .ok u ∧
      (Γ.argumentsMatch levels x a).result = .ok (Γ.hierarchy.equal u a) := by
  have weightA : 1 ≤ a.weight := Ty.weight_pos a
  have weightX : 1 ≤ x.weight := Ty.weight_pos x
  cases headX : x.head? with
  | some d =>
    cases headA : a.head? with
    | some g =>
      exact argumentsMatch_ground_class unmarked sound plain distinct groundX groundA headX headA
        subtype (by omega) enough'
    | none =>
      cases a with
      | decl | bare | app => cases headA
      | param => cases groundA
      | array s a =>
        rw [not_subtype_array headX] at subtype
        cases subtype
  | none =>
    cases x with
    | decl | bare | app => cases headX
    | param => cases groundX
    | array s x =>
      obtain ⟨steps, rfl⟩ : ∃ n, steps = n + 1 := ⟨steps - 1, by omega⟩
      obtain ⟨levels, rfl⟩ : ∃ n, levels = n + 1 := ⟨levels - 1, by omega⟩
      cases headA : a.head? with
      | some g =>
        have root := root_of_array_subtype headA subtype
        subst root
        have none : Γ.hierarchy.params .object = [] := by
          rw [Hierarchy.params, sound.root]
        rw [Hierarchy.Ground.eq_decl groundA headA none]
        refine ⟨.decl .object, rfl, ?_⟩
        simp [argumentsMatch, argumentsMatchStep, Hierarchy.args, Hierarchy.equal, none]
      | none =>
        cases a with
        | decl | bare | app => cases headA
        | param => cases groundA
        | array s' a =>
          -- arrays are seen as arrays of what their elements are seen as
          rw [Ty.weight] at enough enough'
          obtain ⟨tests', elements⟩ := subtypeWithin_elements subtype
          have fewer : Γ.hierarchy.decls.size + x.weight ≤ steps := by omega
          have fewer' : Γ.hierarchy.decls.size + a.weight ≤ levels := by omega
          obtain ⟨u, seen, compared⟩ := argumentsMatch_ground unmarked sound plain distinct
            (x := x) (a := a) groundX groundA elements fewer fewer'
          refine ⟨.array s u, ?_, compared⟩
          rw [parameterizeWithin, parameterizeStep, Traced.result_bind, seen]
          rfl

end Climb

/-- A wildcard with one upper bound, asked about a ground type. -/
theorem accepts_extending {matching : Ty → Ty → Traced Bool} {A : Arity} {site : Site} {x a : Ty}
    (ground : x.Ground A) : (Γ.accepts matching (.extending site [a]) x).result =
      if Γ.isSubtype x a then (matching x a).result else .ok false := by
  simp only [accepts, ground.not_isDiamond, ground.not_isParam, Bool.false_and, Bool.false_eq_true,
    if_false, Slot.extending, Slot.kind, Slot.lower, Slot.upper, List.all_cons, List.all_nil,
    Bool.and_true]
  split
  · rw [List.allM, Traced.result_bind]
    cases (matching x a).result with
    | error e => rfl
    | ok b => cases b <;> rfl
  · rfl

end Context

open Hierarchy in
/-- A type may stand for `? extends A` exactly when it is a subtype of `A` and, seen as the
declaration of `A`, is `A`. Nothing fails on the way. -/
theorem isCompatible_iff_parameterize {h : Hierarchy} {rs : List Registry} (loaded : h.Loaded rs)
    (plain : h.PlainSupertypes) (distinct : h.DistinctParams) {a b : Ty}
    (readsA : h.Reads rs .empty a) (plainA : h.isPlain a = true) (readsB : h.Reads rs .empty b)
    (plainB : h.isPlain b = true) {e : Engine} (unmarked : e.settings.marker = "") (site : Site) :
    ∃ answer, (e.isCompatible h (.extending site [a]) b).result = .ok answer ∧
      (answer = true ↔ e.isSubtype h b a = true ∧
        ∃ t, (e.parameterize h b a).result = .ok t ∧ h.equal t a = true) := by
  obtain ⟨ids, sound, known⟩ := loaded.sound
  have groundA := ground_of_plain (readsA.closed known) plainA
  have groundB := ground_of_plain (readsB.closed known) plainB
  have test : e.isSubtype h b a = (e.context h).isSubtype b a := rfl
  unfold Engine.isCompatible Engine.parameterize Context.isCompatible
  rw [Traced.result_reported, Traced.result_reported, Context.accepts_extending groundB, test]
  cases subtype : (e.context h).isSubtype b a with
  | false => exact ⟨false, rfl, by simp⟩
  | true =>
    have budget := h.weight_lt_budget (b.weight + a.weight)
    have size := h.size_le_weight
    have steps : h.decls.size + b.weight ≤ h.budget (b.weight + a.weight) := by omega
    have descents : h.decls.size + a.weight ≤
        e.levels h ((Slot.extending site [a]).weight + b.weight) := by
      simp only [Engine.levels, Slot.extending, Slot.weight, Ty.weights]
      omega
    obtain ⟨u, seen, compared⟩ := Context.argumentsMatch_ground (Γ := e.context h) unmarked sound
      plain distinct groundB groundA subtype steps descents
    refine ⟨h.equal u a, compared, ?_⟩
    constructor
    · intro equal
      exact ⟨rfl, u, seen, equal⟩
    · rintro ⟨-, t, result, equal⟩
      have same : (Except.ok t : Except Failure Ty) = .ok u := result.symm.trans seen
      cases same
      exact equal

/-- Arrays of reels of texts may stand for arrays of sequences of texts. -/
theorem textReels_compatible :
    reelLibrary.hierarchy.PlainSupertypes ∧ reelLibrary.hierarchy.DistinctParams ∧
    ∃ answer, ((Engine.ofSettings { marker := "" }).isCompatible reelLibrary.hierarchy
        (.extending ⟨0, 0⟩ [reelLibrary.typeOf "Sequence<Text>[]"])
        (reelLibrary.typeOf "Reel<Text>[]")).result = .ok answer ∧
      (answer = true ↔ (Engine.ofSettings { marker := "" }).isSubtype reelLibrary.hierarchy
          (reelLibrary.typeOf "Reel<Text>[]") (reelLibrary.typeOf "Sequence<Text>[]") = true ∧
        ∃ t, ((Engine.ofSettings { marker := "" }).parameterize reelLibrary.hierarchy
            (reelLibrary.typeOf "Reel<Text>[]")
            (reelLibrary.typeOf "Sequence<Text>[]")).result = .ok t ∧
          reelLibrary.hierarchy.equal t (reelLibrary.typeOf "Sequence<Text>[]") = true) := by
  have plain : reelLibrary.hierarchy.PlainSupertypes := by decide +kernel
  have distinct : reelLibrary.hierarchy.DistinctParams := by decide +kernel
  refine ⟨plain, distinct, ?_⟩
  exact isCompatible_iff_parameterize loaded_reelLibrary plain distinct
    (reads_reelLibrary (by decide +kernel)) (by decide +kernel)
    (reads_reelLibrary (by decide +kernel)) (by decide +kernel) rfl ⟨0, 0⟩

end NominalGenerics
