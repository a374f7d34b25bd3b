import NominalGenerics.Engine.Operand
import NominalGenerics.Proofs.Instances
import Mathlib.Data.Finset.Card
import Mathlib.Data.Nat.Find

/-!
# Chains of aliases

A type parameter that stands for a bounded one is an alias of it, if the spec maps that one too. The
chain of aliases from a name, `follow`, ends at a name that is no alias or comes back to a name it
passed, at the latest after as many steps as the spec has entries (`exists_end`). Substitution goes
along the chain and excludes the names it passes. So it stops where the chain ends or would come to
a name again, and the slot of the last name says what it finds (`resolve_eq_settled`,
`lastSlot_of_end`). `Engine.applied_follows_aliases` tells this for every spec and type parameter.

Only a slot whose bounds were replaced may hold a type parameter without being one. Slots as they
are built, and those that the engine takes from a use, are straight, and a chain that comes to one
that is no type parameter answers its type (`Engine.applied_of_built`, `Engine.applied_createSpec`).
-/

namespace NominalGenerics

namespace Slot

/-- What a type parameter becomes that comes to this slot. An unbounded type parameter is bounded by
itself from then on. -/
def settled (s : Slot) : Ty :=
  if s.isWildcard then s.ty
  else
    match s.ty with
    | .param node n [] => .param node n [.param node n []]
    | t => t

variable {s : Slot} {node : Site} {n : String} {b : Ty} {bs : List Ty}

theorem alias?_eq_some :
    s.alias? = some n ↔ s.isWildcard = false ∧ ∃ node b bs, s.ty = .param node n (b :: bs) := by
  unfold alias?
  split
  · rename_i wildcard
    simp [wildcard]
  · rename_i single
    cases held : s.ty with
    | decl | bare | app | array => simp
    | param node m bounds =>
      cases bounds with
      | nil => simp
      | cons b bs => simp [Bool.eq_false_iff.mpr single]

theorem alias?_eq_none_of_isParam_eq_false (other : s.ty.isParam = false) : s.alias? = none := by
  rw [Option.eq_none_iff_forall_ne_some]
  intro n stands
  obtain ⟨-, node, b, bs, held⟩ := alias?_eq_some.mp stands
  rw [held] at other
  cases other

theorem settled_of_isWildcard (wildcard : s.isWildcard = true) : s.settled = s.ty :=
  if_pos wildcard

theorem settled_of_isParam_eq_false (other : s.ty.isParam = false) : s.settled = s.ty := by
  unfold settled
  cases held : s.ty with
  | decl | bare | app | array => simp
  | param node m bounds => simp [held, Ty.isParam] at other

theorem settled_of_bounded (held : s.ty = .param node n (b :: bs)) :
    s.settled = .param node n (b :: bs) := by
  unfold settled
  simp [held]

theorem settled_of_unbounded (single : s.isWildcard = false) (held : s.ty = .param node n []) :
    s.settled = .param node n [.param node n []] := by
  unfold settled
  simp [single, held]

theorem isMissing_settled (s : Slot) : s.settled.isMissing = s.ty.isMissing := by
  unfold settled
  split
  · rfl
  · split
    · rename_i held
      rw [held]
      rfl
    · rfl

end Slot

namespace Spec

variable {spec : Spec} {excluded : List String} {n m name : String} {s : Slot}

theorem next?_eq_some : spec.next? n = some m ↔
    ∃ s, spec.get? n = some s ∧ s.alias? = some m ∧ spec.contains m = true := by
  simp only [next?, Option.filter_eq_some_iff, Option.bind_eq_some_iff]
  constructor
  · rintro ⟨⟨s, known, leads⟩, mapped⟩
    exact ⟨s, known, leads, mapped⟩
  · rintro ⟨s, known, leads, mapped⟩
    exact ⟨⟨s, known, leads⟩, mapped⟩

/-! ## The last slot of a chain -/

theorem lastSlot_of_unknown (unknown : spec.get? n = none) : spec.lastSlot excluded n = none := by
  rw [lastSlot]
  split
  · rfl
  · split
    · rfl
    · rename_i known
      rw [unknown] at known
      cases known

theorem lastSlot_of_known (free : n ∉ excluded) (known : spec.get? n = some s) :
    spec.lastSlot excluded n =
      match spec.next? n with
      | none => some s
      | some next =>
        if (n :: excluded).contains next then some s else spec.lastSlot (n :: excluded) next := by
  rw [lastSlot, dif_neg (mt List.contains_iff_mem.mp free)]
  split
  · rename_i unknown
    rw [unknown] at known
    cases known
  · rename_i s' known'
    obtain rfl : s' = s := Option.some.inj (known'.symm.trans known)
    rfl

/-- A slot is the last one if it leads nowhere, or back. -/
theorem lastSlot_of_stop (free : n ∉ excluded) (known : spec.get? n = some s)
    (stops : ∀ m, spec.next? n = some m → m ∈ n :: excluded) :
    spec.lastSlot excluded n = some s := by
  rw [lastSlot_of_known free known]
  split
  · rfl
  · rename_i m next
    exact if_pos (List.contains_iff_mem.mpr (stops m next))

/-- A name that leads to one that was not passed yet has the last slot of that one. -/
theorem lastSlot_of_next (free : n ∉ excluded) (next : spec.next? n = some m)
    (fresh : m ∉ n :: excluded) :
    spec.lastSlot excluded n = spec.lastSlot (n :: excluded) m := by
  obtain ⟨s, known, -⟩ := next?_eq_some.mp next
  rw [lastSlot_of_known free known, next]
  exact if_neg (mt List.contains_iff_mem.mp fresh)

/-- The last slot of the chain settles what a type parameter becomes. -/
theorem resolve_eq_settled (spec : Spec) (excluded : List String) (site : Site) (name : String)
    (bounds : List Ty) : spec.resolve excluded site name bounds =
      if name ∈ excluded then .param site name bounds
      else ((spec.lastSlot excluded name).map Slot.settled).getD .object := by
  have leads : ∀ {n m s}, spec.get? n = some s → spec.next? n = some m →
      s.isWildcard = false ∧ ∃ node b bs, s.ty = .param node m (b :: bs) := by
    intro n m s known next
    obtain ⟨s', known', stands, -⟩ := next?_eq_some.mp next
    obtain rfl : s' = s := Option.some.inj (known'.symm.trans known)
    exact Slot.alias?_eq_some.mp stands
  fun_induction spec.resolve excluded site name bounds with
  | case1 excluded site name bounds passed =>
    rw [if_pos (List.contains_iff_mem.mp passed)]
  | case2 excluded site name bounds free unknown =>
    rw [if_neg (mt List.contains_iff_mem.mpr free), lastSlot_of_unknown unknown]
    rfl
  | case3 excluded site name bounds free s known wildcard =>
    rw [List.contains_iff_mem] at free
    have last : spec.lastSlot excluded name = some s := by
      refine lastSlot_of_stop free known fun m next => ?_
      cases wildcard.symm.trans (leads known next).1
    rw [if_neg free, last]
    exact (Slot.settled_of_isWildcard wildcard).symm
  | case4 excluded site name bounds free s known single node m held =>
    rw [List.contains_iff_mem] at free
    have last : spec.lastSlot excluded name = some s := by
      refine lastSlot_of_stop free known fun m next => ?_
      obtain ⟨-, node', b, bs, held'⟩ := leads known next
      cases held.symm.trans held'
    rw [if_neg free, last]
    exact (Slot.settled_of_unbounded (Bool.eq_false_iff.mpr single) held).symm
  -- an alias is followed, or leads back to a name that was passed
  | case5 excluded site name bounds free s known single node m b bs held further smaller ih =>
    rw [List.contains_iff_mem] at free
    rw [Bool.and_eq_true] at further
    have next : spec.next? name = some m := next?_eq_some.mpr
      ⟨s, known, Slot.alias?_eq_some.mpr ⟨Bool.eq_false_iff.mpr single, node, b, bs, held⟩,
        further.1⟩
    rw [ih, if_neg free]
    by_cases back : m ∈ name :: excluded
    · have last : spec.lastSlot excluded name = some s := by
        refine lastSlot_of_stop free known fun m' next' => ?_
        cases next.symm.trans next'
        exact back
      rw [if_pos back, last]
      exact (Slot.settled_of_bounded held).symm
    · rw [if_neg back, lastSlot_of_next free next back]
  | case6 excluded site name bounds free s known single node m b bs held further =>
    rw [List.contains_iff_mem] at free
    have last : spec.lastSlot excluded name = some s := by
      refine lastSlot_of_stop free known fun m' next => ?_
      obtain ⟨-, node', b', bs', held'⟩ := leads known next
      obtain ⟨s', -, -, mapped⟩ := next?_eq_some.mp next
      cases held.symm.trans held'
      simp only [mapped, Bool.true_and, bne_iff_ne, ne_eq, Decidable.not_not] at further
      exact further ▸ List.mem_cons_self
    rw [if_neg free, last]
    exact (Slot.settled_of_bounded held).symm
  | case7 excluded site name bounds free s known single unbounded bounded =>
    rw [List.contains_iff_mem] at free
    have last : spec.lastSlot excluded name = some s := by
      refine lastSlot_of_stop free known fun m next => ?_
      obtain ⟨-, node, b, bs, held⟩ := leads known next
      exact absurd held (bounded node m b bs)
    have other : s.ty.isParam = false := by
      cases held : s.ty with
      | decl | bare | app | array => rfl
      | param node m bs =>
        cases bs with
        | nil => exact absurd held (unbounded node m)
        | cons b bs => exact absurd held (bounded node m b bs)
    rw [if_neg free, last]
    exact (Slot.settled_of_isParam_eq_false other).symm

/-! ## Following a chain -/

def follow (spec : Spec) (name : String) : Nat → Option String
  | 0 => some name
  | k + 1 => (spec.follow name k).bind spec.next?

variable {i j k : Nat}

theorem follow_add (spec : Spec) (name : String) (i k : Nat) :
    spec.follow name (i + k) = (spec.follow name i).bind (spec.follow · k) := by
  induction k with
  | zero => simp [follow]
  | succ k ih =>
    calc spec.follow name (i + k + 1)
        = ((spec.follow name i).bind (spec.follow · k)).bind spec.next? := by rw [follow, ih]
      _ = (spec.follow name i).bind fun m => (spec.follow m k).bind spec.next? :=
        Option.bind_assoc _ _ _

theorem follow_isSome_of_le (reached : (spec.follow name k).isSome = true) (before : i ≤ k) :
    (spec.follow name i).isSome = true := by
  obtain ⟨t, rfl⟩ := Nat.exists_eq_add_of_le before
  rw [follow_add] at reached
  exact Option.isSome_of_isSome_bind reached

/-- No name occurs twice among the first ones of a chain, up to the one that `k` aliases lead to. -/
def Simple (spec : Spec) (name : String) (k : Nat) : Prop :=
  ∀ i j, i < j → j ≤ k → spec.follow name i ≠ spec.follow name j

/-- The names a chain passes before the one that `k` aliases lead to, the last one first. -/
def passed (spec : Spec) (name : String) : Nat → List String
  | 0 => []
  | k + 1 => (spec.follow name k).toList ++ spec.passed name k

theorem mem_passed : m ∈ spec.passed name k ↔ ∃ i < k, spec.follow name i = some m := by
  induction k with
  | zero => simp [passed]
  | succ k ih =>
    rw [passed, List.mem_append, Option.mem_toList, ih]
    constructor
    · rintro (here | ⟨i, before, there⟩)
      · exact ⟨k, Nat.lt_succ_self k, here⟩
      · exact ⟨i, Nat.lt_succ_of_lt before, there⟩
    · rintro ⟨i, before, there⟩
      rcases Nat.lt_succ_iff_lt_or_eq.mp before with earlier | rfl
      · exact .inr ⟨i, earlier, there⟩
      · exact .inl there

theorem Simple.not_mem_passed (simple : spec.Simple name k)
    (reached : spec.follow name k = some m) : m ∉ spec.passed name k := by
  intro member
  obtain ⟨i, before, there⟩ := mem_passed.mp member
  exact simple i k before (Nat.le_refl k) (there.trans reached.symm)

/-- Along a chain without repetition the last slot stays the same, and the names that were passed
are excluded. -/
theorem Simple.lastSlot_follow (simple : spec.Simple name k)
    (reached : spec.follow name k = some m) :
    spec.lastSlot [] name = spec.lastSlot (spec.passed name k) m := by
  induction k generalizing m with
  | zero =>
    cases reached
    rfl
  | succ k ih =>
    obtain ⟨n, before, next⟩ := Option.bind_eq_some_iff.mp reached
    have simple' : spec.Simple name k :=
      fun i j less most => simple i j less (Nat.le_succ_of_le most)
    have here : spec.passed name (k + 1) = n :: spec.passed name k := by
      rw [passed, before]
      rfl
    have fresh : m ∉ n :: spec.passed name k := here ▸ simple.not_mem_passed reached
    rw [ih simple' before, here, lastSlot_of_next (simple'.not_mem_passed before) next fresh]

/-- A chain without repetition that stops, or comes back, has come to the last slot. -/
theorem lastSlot_of_end (simple : spec.Simple name k) (reached : spec.follow name k = some m)
    (known : spec.get? m = some s)
    (ends : ∀ n, spec.next? m = some n → ∃ i ≤ k, spec.follow name i = some n) :
    spec.lastSlot [] name = some s := by
  rw [simple.lastSlot_follow reached]
  refine lastSlot_of_stop (simple.not_mem_passed reached) known fun n next => ?_
  obtain ⟨i, most, there⟩ := ends n next
  rcases Nat.lt_or_eq_of_le most with earlier | rfl
  · exact List.mem_cons_of_mem _ (mem_passed.mpr ⟨i, earlier, there⟩)
  · rw [reached] at there
    cases there
    exact List.mem_cons_self

/-- A chain that stops has passed no name twice: from the second time on it would go the same way
again. -/
theorem simple_of_stop (reached : spec.follow name k = some m) (stop : spec.next? m = none) :
    spec.Simple name k := by
  intro i j less most same
  obtain ⟨t, rfl⟩ := Nat.exists_eq_add_of_le most
  have again : spec.follow name (i + t) = some m := by
    rw [follow_add, same, ← follow_add, reached]
  have onward : (spec.follow name (i + t + 1)).isSome = true :=
    follow_isSome_of_le (by rw [reached]; rfl) (by omega)
  rw [follow, again, Option.bind_some, stop] at onward
  cases onward

/-- A chain that comes back to its start does so for a first time, and passes no name twice until
then. -/
theorem exists_first_return (later : 0 < k) (back : spec.follow name k = some name) :
    ∃ r, spec.Simple name r ∧ spec.follow name (r + 1) = some name := by
  obtain ⟨k, rfl⟩ := Nat.exists_eq_add_one_of_ne_zero (Nat.ne_of_gt later)
  have returns : ∃ r, spec.follow name (r + 1) = some name := ⟨k, back⟩
  refine ⟨Nat.find returns, fun i j less most same => ?_, Nat.find_spec returns⟩
  obtain ⟨t, sum⟩ := Nat.exists_eq_add_of_le most
  have earlier : spec.follow name (i + t + 1) = some name := by
    rw [Nat.add_assoc, follow_add, same, ← follow_add, ← Nat.add_assoc, ← sum]
    exact Nat.find_spec returns
  exact Nat.find_min returns (show i + t < Nat.find returns by omega) earlier

/-- A chain that has no name after `k` aliases has stopped before. -/
theorem exists_stop (beyond : spec.follow name k = none) :
    ∃ j < k, ∃ m, spec.follow name j = some m ∧ spec.next? m = none := by
  induction k with
  | zero => cases beyond
  | succ k ih =>
    cases reached : spec.follow name k with
    | none =>
      obtain ⟨j, before, stopped⟩ := ih reached
      exact ⟨j, Nat.lt_succ_of_lt before, stopped⟩
    | some m =>
      rw [follow, reached, Option.bind_some] at beyond
      exact ⟨k, Nat.lt_succ_self k, m, reached, beyond⟩

/-- A name from which a chain goes on is mapped. -/
theorem mem_keys_of_follow (onward : (spec.follow name (i + 1)).isSome = true) :
    ∃ m ∈ spec.keys, spec.follow name i = some m := by
  obtain ⟨n, reached⟩ := Option.isSome_iff_exists.mp onward
  obtain ⟨m, here, next⟩ := Option.bind_eq_some_iff.mp reached
  obtain ⟨s, known, -⟩ := next?_eq_some.mp next
  exact ⟨m, NameMap.mem_keys_of_get?_eq_some known, here⟩

/-- A chain stops or comes back to a name it passed, at the latest after as many aliases as the spec
has entries: there are no more names to pass. -/
theorem exists_end (spec : Spec) (name : String) : ∃ k ≤ spec.size,
    (∃ m, spec.follow name k = some m ∧ spec.next? m = none) ∨
    ∃ i < k, ∃ m, spec.follow name i = some m ∧ spec.follow name k = some m := by
  cases beyond : spec.follow name (spec.size + 1) with
  | none =>
    obtain ⟨k, before, stopped⟩ := exists_stop beyond
    exact ⟨k, Nat.le_of_lt_succ before, .inl stopped⟩
  | some last =>
    have mapped : ∀ i ∈ Finset.range (spec.size + 1),
        ∃ m ∈ spec.keys, spec.follow name i = some m := by
      intro i within
      refine mem_keys_of_follow (follow_isSome_of_le ?_ (Finset.mem_range.mp within))
      rw [beyond]
      rfl
    have fewer : spec.keys.toFinset.card < (Finset.range (spec.size + 1)).card := by
      have size : spec.keys.length = spec.size := List.length_map _
      rw [Finset.card_range, ← size]
      exact Nat.lt_succ_of_le spec.keys.toFinset_card_le
    have inside : ∀ i ∈ Finset.range (spec.size + 1),
        (spec.follow name i).getD name ∈ spec.keys.toFinset := by
      intro i within
      obtain ⟨m, key, here⟩ := mapped i within
      rw [here]
      exact List.mem_toFinset.mpr key
    obtain ⟨i, first, j, second, apart, same⟩ :=
      Finset.exists_ne_map_eq_of_card_lt_of_maps_to fewer inside
    obtain ⟨m, -, here⟩ := mapped i first
    obtain ⟨n, -, there⟩ := mapped j second
    rw [here, there] at same
    obtain rfl : m = n := same
    rw [Finset.mem_range, Nat.lt_succ_iff] at first second
    rcases Nat.lt_or_gt_of_ne apart with less | less
    · exact ⟨j, second, .inr ⟨i, less, m, here, there⟩⟩
    · exact ⟨i, first, .inr ⟨j, less, m, there, here⟩⟩

/-! ## What a type parameter becomes -/

/-- What `name` becomes, told along the chain of its aliases. -/
structure FollowsAliases (spec : Spec) (name : String) (answer : Except Failure (Option Ty)) :
    Prop where
  /-- The chain stops, or comes back to a name it passed, and not after more aliases than the spec
  has entries. -/
  ends : ∃ k ≤ spec.size, (∃ m, spec.follow name k = some m ∧ spec.next? m = none) ∨
    ∃ i < k, ∃ m, spec.follow name i = some m ∧ spec.follow name k = some m
  /-- A type parameter that the spec does not map becomes the root. -/
  unknown : spec.get? name = none → answer = .ok (some .object)
  /-- At a wildcard it becomes the first upper bound, or the root, whatever that is. -/
  wildcard : ∀ {k m s}, spec.follow name k = some m → spec.get? m = some s →
    s.isWildcard = true → answer = .ok s.ty.toOption
  /-- At another slot that stands for no type parameter it becomes the type of the slot, which has
  to be there. -/
  other : ∀ {k m s}, spec.follow name k = some m → spec.get? m = some s →
    s.isWildcard = false → s.ty.isParam = false →
    answer = if s.ty.isMissing then .error .missingType else .ok (some s.ty)
  /-- At an unbounded type parameter it becomes this one, bounded by itself. -/
  unbounded : ∀ {k m s node n}, spec.follow name k = some m → spec.get? m = some s →
    s.isWildcard = false → s.ty = .param node n [] →
    answer = .ok (some (.param node n [.param node n []]))
  /-- At a bounded type parameter that the spec does not map it becomes this one. -/
  unmapped : ∀ {k m s node n b bs}, spec.follow name k = some m → spec.get? m = some s →
    s.isWildcard = false → s.ty = .param node n (b :: bs) → spec.get? n = none →
    answer = .ok (some (.param node n (b :: bs)))
  /-- If names repeat it becomes a bounded type parameter of the first name to repeat. -/
  repeated : ∀ {i k n}, i < k → spec.follow name i = some n → spec.follow name k = some n →
    (∀ a b, a < b → b < k → spec.follow name a ≠ spec.follow name b) →
    ∃ node b bs, answer = .ok (some (.param node n (b :: bs)))
  /-- On a cycle of aliases it becomes a bounded type parameter of its own name. -/
  cycle : ∀ {k}, 0 < k → spec.follow name k = some name →
    ∃ node b bs, answer = .ok (some (.param node name (b :: bs)))

theorem next?_of_known (known : spec.get? n = some s) :
    spec.next? n = s.alias?.filter spec.contains := by
  rw [next?, known, Option.bind_some]

/-- Where a chain stops is its last slot. -/
theorem lastSlot_of_reached (reached : spec.follow name k = some m) (known : spec.get? m = some s)
    (stop : spec.next? m = none) : spec.lastSlot [] name = some s := by
  refine lastSlot_of_end (simple_of_stop reached stop) reached known fun n next => ?_
  cases stop.symm.trans next

/-- Where a chain would come to a name again is its last slot, which stands for that name. -/
theorem lastSlot_of_repeated (simple : spec.Simple name k) (before : i ≤ k)
    (there : spec.follow name i = some n) (again : spec.follow name (k + 1) = some n) :
    ∃ s node b bs, spec.lastSlot [] name = some s ∧ s.ty = .param node n (b :: bs) := by
  obtain ⟨m, reached, next⟩ := Option.bind_eq_some_iff.mp again
  obtain ⟨s, known, stands, -⟩ := next?_eq_some.mp next
  obtain ⟨-, node, b, bs, held⟩ := Slot.alias?_eq_some.mp stands
  refine ⟨s, node, b, bs, lastSlot_of_end simple reached known fun n' next' => ?_, held⟩
  cases next.symm.trans next'
  exact ⟨i, before, there⟩

end Spec

namespace Engine

/-- What replacing a type parameter answers. A slot for one type is looked at, a wildcard is not. -/
theorem applyOption_param (h : Hierarchy) (spec : Spec) (site : Site) (name : String)
    (bounds : List Ty) : (applyOption h spec [] (some (.param site name bounds))).result =
      match spec.lastSlot [] name with
      | none => .ok (some .object)
      | some s =>
        if !s.isWildcard && s.ty.isMissing then .error .missingType
        else .ok s.settled.toOption := by
  simp only [applyOption, present, guarded, Hierarchy.substLooks, Hierarchy.subst,
    Spec.resolve_eq_settled, List.not_mem_nil, if_false]
  cases spec.lastSlot [] name with
  | none => rfl
  | some s =>
    simp only [Option.any_some, Option.map_some, Option.getD_some]
    split <;> rfl

/-- A slot whose type is there answers what it settles. -/
theorem applyOption_of_present {spec : Spec} {name : String} {s : Slot}
    (last : spec.lastSlot [] name = some s) (there : s.ty.isMissing = false) (h : Hierarchy)
    (site : Site) (bounds : List Ty) :
    (applyOption h spec [] (some (.param site name bounds))).result = .ok (some s.settled) := by
  rw [applyOption_param, last]
  simp [there, Ty.toOption, Slot.isMissing_settled]

/-- What a type parameter becomes is settled by the chain of its aliases: by the slot where the
chain stops or, where names repeat, by the first name to repeat. -/
theorem applied_follows_aliases (h : Hierarchy) (spec : Spec) (site : Site) (name : String)
    (bounds : List Ty) :
    spec.FollowsAliases name (applyOption h spec [] (some (.param site name bounds))).result where
  ends := spec.exists_end name
  unknown := by
    intro unknown
    rw [applyOption_param, Spec.lastSlot_of_unknown unknown]
  wildcard := by
    intro k m s reached known wildcard
    have stop : spec.next? m = none := by
      rw [Spec.next?_of_known known, Slot.alias?, if_pos wildcard]
      rfl
    rw [applyOption_param, Spec.lastSlot_of_reached reached known stop]
    simp only [wildcard, Slot.settled_of_isWildcard wildcard]
    rfl
  other := by
    intro k m s reached known single other
    have stop : spec.next? m = none := by
      rw [Spec.next?_of_known known, Slot.alias?_eq_none_of_isParam_eq_false other]
      rfl
    have last := Spec.lastSlot_of_reached reached known stop
    cases there : s.ty.isMissing with
    | true =>
      rw [applyOption_param, last]
      simp [single, there]
    | false =>
      rw [applyOption_of_present last there, Slot.settled_of_isParam_eq_false other]
      rfl
  unbounded := by
    intro k m s node n reached known single held
    have stop : spec.next? m = none := by
      rw [Spec.next?_of_known known, Slot.alias?, held, if_neg (Bool.eq_false_iff.mp single)]
      rfl
    have last := Spec.lastSlot_of_reached reached known stop
    rw [applyOption_of_present last (held ▸ rfl), Slot.settled_of_unbounded single held]
  unmapped := by
    intro k m s node n b bs reached known single held unmapped
    have stop : spec.next? m = none := by
      rw [Spec.next?_of_known known, Slot.alias?_eq_some.mpr ⟨single, node, b, bs, held⟩]
      simp [NameMap.contains, unmapped]
    have last := Spec.lastSlot_of_reached reached known stop
    rw [applyOption_of_present last (held ▸ rfl), Slot.settled_of_bounded held]
  repeated := by
    intro i k n before there again first
    obtain ⟨k, rfl⟩ := Nat.exists_eq_add_one_of_ne_zero (Nat.ne_of_gt (Nat.zero_lt_of_lt before))
    have simple : spec.Simple name k :=
      fun a b less most => first a b less (Nat.lt_succ_of_le most)
    obtain ⟨s, node, b, bs, last, held⟩ :=
      Spec.lastSlot_of_repeated simple (Nat.le_of_lt_succ before) there again
    refine ⟨node, b, bs, ?_⟩
    rw [applyOption_of_present last (held ▸ rfl), Slot.settled_of_bounded held]
  cycle := by
    intro k later back
    obtain ⟨r, simple, again⟩ := Spec.exists_first_return later back
    obtain ⟨s, node, b, bs, last, held⟩ :=
      Spec.lastSlot_of_repeated simple (Nat.zero_le r) rfl again
    refine ⟨node, b, bs, ?_⟩
    rw [applyOption_of_present last (held ▸ rfl), Slot.settled_of_bounded held]

/-- A chain that comes to a straight slot that is no type parameter, and whose type is there, answers
this type. -/
theorem applyOption_of_straight {spec : Spec} {name m : String} {k : Nat} {s : Slot}
    (reached : spec.follow name k = some m) (known : spec.get? m = some s) (straight : s.Straight)
    (other : s.isParam = false) (there : s.ty.isMissing = false) (h : Hierarchy) (site : Site)
    (bounds : List Ty) :
    (applyOption h spec [] (some (.param site name bounds))).result = .ok (some s.ty) := by
  have leadsNowhere : s.alias? = none := by
    cases wildcard : s.isWildcard with
    | true => exact if_pos wildcard
    | false => exact Slot.alias?_eq_none_of_isParam_eq_false ((straight wildcard).trans other)
  have stop : spec.next? m = none := by
    rw [Spec.next?_of_known known, leadsNowhere]
    rfl
  have settled : s.settled = s.ty := by
    cases wildcard : s.isWildcard with
    | true => exact Slot.settled_of_isWildcard wildcard
    | false => exact Slot.settled_of_isParam_eq_false ((straight wildcard).trans other)
  rw [applyOption_of_present (Spec.lastSlot_of_reached reached known stop) there, settled]

theorem applied_of_built {spec : Spec} (built : ∀ n s, spec.get? n = some s → s.Built)
    {name m : String} {k : Nat} {s : Slot} (reached : spec.follow name k = some m)
    (known : spec.get? m = some s) (other : s.isParam = false) (there : s.ty.isMissing = false)
    (h : Hierarchy) (site : Site) (bounds : List Ty) :
    (applyOption h spec [] (some (.param site name bounds))).result = .ok (some s.ty) :=
  applyOption_of_straight reached known (built m s known).straight other there h site bounds

/-- The spec of a formed use holds the arguments of the use, which are straight. -/
theorem applied_createSpec {h : Hierarchy} {ids : List DeclId} {P : ParamSet} {t : Ty} {d : DeclId}
    (formed : t.Formed (h.arity ids) P) (head : t.head? = some d) :
    ∃ spec, h.createSpec .empty t = .ok spec ∧
      ∀ {name m k s}, spec.follow name k = some m → spec.get? m = some s →
        s.isParam = false → s.ty.isMissing = false → ∀ site bounds,
        (applyOption h spec [] (some (.param site name bounds))).result = .ok (some s.ty) := by
  obtain ⟨spec, created, values⟩ := Hierarchy.createSpec_spec formed head
  refine ⟨spec, created, fun reached known other there => ?_⟩
  obtain ⟨p, paired, -⟩ := values _ _ known
  have straight := (Hierarchy.args_formed formed (List.of_mem_zip paired).2).straight
  exact applyOption_of_straight reached known straight other there h

/-- Three names that stand for each other in turn, and one that leads to them. -/
def ringSpec : Spec := .ofList [("T", .parameter ⟨0, 0⟩ "A" [.object]),
  ("A", .parameter ⟨0, 1⟩ "B" [.object]), ("B", .parameter ⟨0, 2⟩ "C" [.object]),
  ("C", .parameter ⟨0, 3⟩ "A" [.object])]

/-- From outside the ring the first name to repeat is the one where it is entered. From inside it is
the name one starts with. -/
theorem ring_entered :
    (∃ node b bs, (applyOption .root ringSpec [] (some (.param ⟨0, 4⟩ "T" []))).result =
      .ok (some (.param node "A" (b :: bs)))) ∧
    ∃ node b bs, (applyOption .root ringSpec [] (some (.param ⟨0, 4⟩ "B" []))).result =
      .ok (some (.param node "B" (b :: bs))) := by
  obtain ⟨entered, again, back⟩ : ringSpec.follow "T" 1 = some "A" ∧
      ringSpec.follow "T" 4 = some "A" ∧ ringSpec.follow "B" 3 = some "B" := by
    decide +kernel
  have apart : ∀ j < 4, ∀ i < j, ringSpec.follow "T" i ≠ ringSpec.follow "T" j := by
    decide +kernel
  exact ⟨(applied_follows_aliases .root ringSpec ⟨0, 4⟩ "T" []).repeated (by decide) entered again
      fun i j less most => apart j most i less,
    (applied_follows_aliases .root ringSpec ⟨0, 4⟩ "B" []).cycle (by decide) back⟩

def reboundTo (u : Ty) : Slot := (Slot.ofTy ⟨0, 0⟩ (.decl ⟨"Text", 2⟩)).withBounds ⟨0, 1⟩ none [u]

/-- `T` stands for a slot of one type, which holds the bounded type parameter `U`. -/
def heldSpec : Spec := .ofList [
  ("T", reboundTo (.param ⟨0, 2⟩ "U" [.decl ⟨"Text", 2⟩])),
  ("U", .ofTy ⟨0, 3⟩ (.decl ⟨"Num", 3⟩))]

def hollowSpec : Spec := .ofList [("T", reboundTo .missing)]

/-- A slot for one type is no type parameter, yet a chain goes on from it when it holds one, and
then the type that the slot stands for is not the answer. Where it holds no type there is no
answer. -/
theorem held_alias_followed :
    (∃ s, heldSpec.get? "T" = some s ∧ s.isParam = false ∧ s.ty.name = "U" ∧
      (applyOption .root heldSpec [] (some (.param ⟨0, 4⟩ "T" []))).result =
        .ok (some (.decl ⟨"Num", 3⟩)) ∧
      (applyOption .root heldSpec [] (some (.param ⟨0, 4⟩ "T" []))).result ≠ .ok s.ty.toOption) ∧
    ∃ s, hollowSpec.get? "T" = some s ∧ s.isParam = false ∧
      (applyOption .root hollowSpec [] (some (.param ⟨0, 4⟩ "T" []))).result ≠
        .ok s.ty.toOption := by
  have followed : heldSpec.lastSlot [] "T" = some (.ofTy ⟨0, 3⟩ (.decl ⟨"Num", 3⟩)) := by
    have stop : heldSpec.next? "U" = none := by decide +kernel
    exact Spec.lastSlot_of_reached (k := 1) (by decide +kernel) (by decide +kernel) stop
  have hollow : hollowSpec.lastSlot [] "T" = some (reboundTo .missing) := by
    have stop : hollowSpec.next? "T" = none := by decide +kernel
    exact Spec.lastSlot_of_reached (k := 0) rfl (by decide +kernel) stop
  have answer : (applyOption .root heldSpec [] (some (.param ⟨0, 4⟩ "T" []))).result =
      .ok (some (.decl ⟨"Num", 3⟩)) := by
    rw [applyOption_param, followed]
    rfl
  have failure : (applyOption .root hollowSpec [] (some (.param ⟨0, 4⟩ "T" []))).result =
      .error .missingType := by
    rw [applyOption_param, hollow]
    rfl
  refine ⟨⟨_, (by decide +kernel : heldSpec.get? "T" =
      some (reboundTo (.param ⟨0, 2⟩ "U" [.decl ⟨"Text", 2⟩]))), rfl, rfl, answer, ?_⟩,
    ⟨reboundTo .missing, by decide +kernel, rfl, ?_⟩⟩
  · rw [answer]
    intro same
    cases same
  · rw [failure]
    intro same
    cases same

end Engine

end NominalGenerics
