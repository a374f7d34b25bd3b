import NominalGenerics.Proofs.Comparing
import NominalGenerics.Proofs.Outline

/-!
# Transitivity

The way up from a type to a third one need not pass through the second, so what is composed on the
two ways must be the same instance in the end. Where a type inherits one instance of each
declaration only, standing for `? extends A` is a relation between the types alone, whichever way
the comparison goes up (`Below`, `accepts_extending_iff`), and this relation is transitive.
-/

namespace NominalGenerics

/-- What an array is an array of, at the end; any other type is its own core. -/
def Ty.core : Ty → Ty
  | .array _ e => e.core
  | t => t

theorem Ty.core_of_head {t : Ty} {d : DeclId} (head : t.head? = some d) : t.core = t := by
  cases t with
  | decl | bare | app => rfl
  | param | array => cases head

namespace Hierarchy

/-- Whatever instances of one generic declaration `t` inherits, they are equal. -/
def Coherent (h : Hierarchy) (t : Ty) : Prop :=
  ∀ u v g, h.params g ≠ [] → h.Inherits t u → h.Inherits t v → u.head? = some g →
    v.head? = some g → h.equal u v = true

def instances (h : Hierarchy) : Nat → Ty → List Ty
  | 0, t => [t]
  | n + 1, t => t :: (h.directSupers t).flatMap (h.instances n)

/-- Coherence is seen on the instances that a few steps up give, if there are no others. -/
theorem coherent_of_instances {h : Hierarchy} {t : Ty} {n : Nat}
    (closed : ∀ u ∈ h.instances n t, ∀ v ∈ h.directSupers u, v ∈ h.instances n t)
    (equal : ∀ u ∈ h.instances n t, ∀ v ∈ h.instances n t, u.head? = v.head? →
      h.equal u v = true) : h.Coherent t := by
  have member : t ∈ h.instances n t := by cases n <;> exact List.mem_cons_self
  intro u v g _ inherits inherits' head head'
  exact equal u (mem_of_inherits closed member inherits) v
    (mem_of_inherits closed member inherits') (head.trans head'.symm)

/-- Some instance that `t` inherits is equal to `a`; arrays are covariant, and below the root. -/
inductive Below (h : Hierarchy) : Ty → Ty → Prop
  | inherits {t u a : Ty} {d : DeclId} : t.head? = some d → h.Inherits t u →
      u.outline id = a.outline id → Below h t a
  | array {s s' : Site} {t a : Ty} : Below h t a → Below h (.array s t) (.array s' a)
  | root {s : Site} {t : Ty} : Below h (.array s t) (.decl .object)

section Below

variable {h : Hierarchy} {ids : List DeclId} {a b c : Ty}

/-- The root inherits nothing but itself. -/
theorem Sound.eq_of_inherits_root (sound : h.Sound ids) (inherits : h.Inherits (.decl .object) b) :
    b = .decl .object := by
  rcases inherits.cases_head with rfl | ⟨v, ⟨w, written, -⟩, -⟩
  · rfl
  · have none : h.supertypes (.decl .object) = [] := sound.supertypes_object
    rw [none] at written
    cases written

theorem Below.of_root (sound : h.Sound ids) (below : h.Below (.decl .object) b) :
    b = .decl .object := by
  cases below with
  | inherits _ inherits alike =>
    rw [sound.eq_of_inherits_root inherits] at alike
    cases b <;> cases alike
    rfl

theorem Below.trans (sound : h.Sound ids) (plain : h.PlainSupertypes)
    (groundA : a.Ground (h.arity ids)) (groundB : b.Ground (h.arity ids))
    (first : h.Below a b) (second : h.Below b c) : h.Below a c := by
  induction first generalizing c with
  | @inherits t u b d head up alike =>
    obtain ⟨groundU, e, headU⟩ := Ground.inherits sound plain groundA ⟨d, head⟩ up
    cases second with
    | @inherits _ v _ d' headB up' alike' =>
      obtain ⟨w, further, same⟩ :=
        Inherits.of_outline sound plain groundU groundB headB alike up'
      exact .inherits head (up.trans further) (same.trans alike')
    | array | root =>
      have heads := (Ty.head?_of_outline alike).symm.trans headU
      cases heads
  | array _ ih =>
    cases second with
    | inherits headB => cases headB
    | array above => exact .array (ih groundA groundB above)
    | root => exact .root
  | root =>
    rw [second.of_root sound]
    exact .root

/-- A coherent type inherits one instance of each declaration, up to where it is written. -/
theorem Coherent.outline (sound : h.Sound ids) (plain : h.PlainSupertypes)
    (ground : a.Ground (h.arity ids)) {d g : DeclId} (head : a.head? = some d)
    (coherent : h.Coherent a) {u v : Ty} (inherits : h.Inherits a u) (inherits' : h.Inherits a v)
    (here : u.head? = some g) (here' : v.head? = some g) : u.outline id = v.outline id := by
  obtain ⟨groundU, -⟩ := Ground.inherits sound plain ground ⟨d, head⟩ inherits
  obtain ⟨groundV, -⟩ := Ground.inherits sound plain ground ⟨d, head⟩ inherits'
  by_cases generic : h.params g = []
  · rw [Ground.eq_decl groundU here generic, Ground.eq_decl groundV here' generic]
  · have equal := coherent u v g generic inherits inherits' here here'
    exact (equal_iff_outline groundU groundV).mp equal

/-- What is above a coherent type is coherent. -/
theorem Coherent.of_below (sound : h.Sound ids) (plain : h.PlainSupertypes)
    (groundA : a.Ground (h.arity ids)) (groundB : b.Ground (h.arity ids)) (below : h.Below a b)
    (coherent : h.Coherent a.core) : h.Coherent b.core := by
  induction below with
  | @inherits a u b d head up alike =>
    obtain ⟨groundU, e, headU⟩ := Ground.inherits sound plain groundA ⟨d, head⟩ up
    have headB : b.head? = some e := (Ty.head?_of_outline alike).symm.trans headU
    rw [Ty.core_of_head head] at coherent
    rw [Ty.core_of_head headB]
    intro v v' g _ inherits inherits' here here'
    obtain ⟨groundV, -⟩ := Ground.inherits sound plain groundB ⟨e, headB⟩ inherits
    obtain ⟨groundV', -⟩ := Ground.inherits sound plain groundB ⟨e, headB⟩ inherits'
    -- both instances have copies among those of the type below
    obtain ⟨w, further, same⟩ :=
      Inherits.of_outline sound plain groundU groundB headB alike inherits
    obtain ⟨w', further', same'⟩ :=
      Inherits.of_outline sound plain groundU groundB headB alike inherits'
    have copies := coherent.outline sound plain groundA head (up.trans further)
      (up.trans further') ((Ty.head?_of_outline same).trans here)
      ((Ty.head?_of_outline same').trans here')
    rw [same, same'] at copies
    exact (equal_iff_outline groundV groundV').mpr copies
  | array _ ih => exact ih groundA groundB coherent
  | root =>
    intro u v g _ inherits inherits' _ _
    rw [sound.eq_of_inherits_root inherits, sound.eq_of_inherits_root inherits']
    simp [equal]

end Below

end Hierarchy

namespace Context

variable {Γ : Context} {ids : List DeclId}

/-- Between class types, the comparison tells whether an inherited instance is the bound. -/
theorem argumentsMatch_class_iff (unmarked : Γ.marker = "") (sound : Γ.hierarchy.Sound ids)
    (plain : Γ.hierarchy.PlainSupertypes) (distinct : Γ.hierarchy.DistinctParams) {x a : Ty}
    {d g : DeclId} (groundX : x.Ground (Γ.hierarchy.arity ids))
    (groundA : a.Ground (Γ.hierarchy.arity ids)) (coherent : Γ.hierarchy.Coherent x)
    (head : x.head? = some d) (headA : a.head? = some g) (reaches : Γ.hierarchy.Reaches d g)
    {levels : Nat} (enough : Γ.hierarchy.decls.size + a.weight ≤ levels) :
    (Γ.argumentsMatch levels x a).result = .ok true ↔
      ∃ u, Γ.hierarchy.Inherits x u ∧ u.outline id = a.outline id := by
  have height := sound.height_le (d := d)
  obtain ⟨u, climbs, compared⟩ := argumentsMatch_class unmarked sound plain distinct groundX
    groundA head headA reaches (Nat.le_trans (Nat.add_le_add_right height _) enough)
  obtain ⟨groundU, -⟩ := Hierarchy.Ground.inherits sound plain groundX ⟨d, head⟩ climbs.inherits
  rw [compared, Except.ok.injEq, Hierarchy.equal_iff_outline groundU groundA]
  constructor
  · intro alike
    exact ⟨u, climbs.inherits, alike⟩
  · rintro ⟨v, inherits, alike⟩
    have headV : v.head? = some g := (Ty.head?_of_outline alike).trans headA
    have same :=
      coherent.outline sound plain groundX head climbs.inherits inherits climbs.head headV
    exact same.trans alike

/-- A type is nominally a subtype of what it is below. -/
theorem subtypeWithin_of_below (unmarked : Γ.marker = "") (sound : Γ.hierarchy.Sound ids)
    (plain : Γ.hierarchy.PlainSupertypes) {x a : Ty} (groundX : x.Ground (Γ.hierarchy.arity ids))
    (groundA : a.Ground (Γ.hierarchy.arity ids)) (below : Γ.hierarchy.Below x a) {tests : Nat}
    (enough : x.weight ≤ tests) : Γ.subtypeWithin tests x a = true := by
  induction below generalizing tests with
  | @inherits x u a d head inherits alike =>
    have ascending := Hierarchy.Ground.ascending sound plain groundX head
    obtain ⟨-, g, headU⟩ := Hierarchy.Ground.inherits sound plain groundX ⟨d, head⟩ inherits
    have headA : a.head? = some g := (Ty.head?_of_outline alike).symm.trans headU
    have reaches := ascending.reaches sound (fun _ _ none => none) head inherits headU
    obtain ⟨tests, rfl⟩ : ∃ n, tests = n + 1 := ⟨tests - 1, by have := x.weight_pos; omega⟩
    exact (subtypeWithin_class unmarked sound tests head headA (ascending.mem_ids head)).mpr reaches
  | @array s s' x a _ ih =>
    rw [Ty.weight] at enough
    obtain ⟨tests, rfl⟩ : ∃ n, tests = n + 1 := ⟨tests - 1, by omega⟩
    have fewer : x.weight ≤ tests := by omega
    simp [subtypeWithin, subtypeStep, ih groundX groundA fewer]
  | @root s x =>
    rw [Ty.weight] at enough
    obtain ⟨tests, rfl⟩ : ∃ n, tests = n + 1 := ⟨tests - 1, by omega⟩
    rfl

/-- On ground types, arrays included, the comparison tells which types are below which. -/
theorem argumentsMatch_iff_below (unmarked : Γ.marker = "") (sound : Γ.hierarchy.Sound ids)
    (plain : Γ.hierarchy.PlainSupertypes) (distinct : Γ.hierarchy.DistinctParams)
    {x a : Ty} {tests levels : Nat} (groundX : x.Ground (Γ.hierarchy.arity ids))
    (groundA : a.Ground (Γ.hierarchy.arity ids)) (coherent : Γ.hierarchy.Coherent x.core)
    (subtype : Γ.subtypeWithin tests x a = true)
    (enough : Γ.hierarchy.decls.size + a.weight ≤ levels) :
    (Γ.argumentsMatch levels x a).result = .ok true ↔ Γ.hierarchy.Below x a := by
  have weightA : 1 ≤ a.weight := Ty.weight_pos a
  obtain ⟨levels, rfl⟩ : ∃ n, levels = n + 1 := ⟨levels - 1, by omega⟩
  cases headX : x.head? with
  | some d =>
    have ascending := Hierarchy.Ground.ascending sound plain groundX headX
    rw [Ty.core_of_head headX] at coherent
    cases headA : a.head? with
    | some g =>
      obtain ⟨tests, rfl⟩ : ∃ n, tests = n + 1 := by
        cases tests with
        | zero => cases subtype
        | succ n => exact ⟨n, rfl⟩
      have reaches := (subtypeWithin_class unmarked sound tests headX headA
        (ascending.mem_ids headX)).mp subtype
      rw [argumentsMatch_class_iff unmarked sound plain distinct groundX groundA coherent headX
        headA reaches enough]
      constructor
      · rintro ⟨u, inherits, alike⟩
        exact .inherits headX inherits alike
      · intro below
        cases below with
        | inherits _ inherits alike => exact ⟨_, inherits, alike⟩
        | array | root => cases headX
    | none =>
      cases a with
      | decl | bare | app => cases headA
      | param => cases groundA
      | array s a =>
        rw [not_subtype_array headX] at subtype
        cases subtype
  | none =>
    cases x with
    | decl | bare | app => cases headX
    | param => cases groundX
    | array s x =>
      cases headA : a.head? with
      | some g =>
        -- no class is above an array but the root, which asks for no arguments
        have root := root_of_array_subtype headA subtype
        subst root
        have none : Γ.hierarchy.params .object = [] := by rw [Hierarchy.params, sound.root]
        rw [Hierarchy.Ground.eq_decl groundA headA none]
        have answer : (Γ.argumentsMatch (levels + 1) (.array s x) (.decl .object)).result =
            .ok true := by
          simp [argumentsMatch, argumentsMatchStep, Hierarchy.args, none]
        exact ⟨fun _ => .root, fun _ => answer⟩
      | none =>
        cases a with
        | decl | bare | app => cases headA
        | param => cases groundA
        | array s' a =>
          rw [Ty.weight] at enough
          obtain ⟨tests', elements⟩ := subtypeWithin_elements subtype
          have fewer : Γ.hierarchy.decls.size + a.weight ≤ levels := by omega
          have step := argumentsMatch_iff_below unmarked sound plain distinct (x := x) (a := a)
            groundX groundA coherent elements fewer
          refine Iff.trans step ⟨.array, ?_⟩
          intro below
          cases below with
          | inherits head => cases head
          | array below => exact below

/-- Which ground types may stand for `? extends A`. -/
theorem isCompatible_extending_iff (unmarked : Γ.marker = "") (sound : Γ.hierarchy.Sound ids)
    (plain : Γ.hierarchy.PlainSupertypes) (distinct : Γ.hierarchy.DistinctParams) {x a : Ty}
    (groundX : x.Ground (Γ.hierarchy.arity ids)) (groundA : a.Ground (Γ.hierarchy.arity ids))
    (coherent : Γ.hierarchy.Coherent x.core) {levels : Nat}
    (enough : Γ.hierarchy.decls.size + a.weight ≤ levels) (site : Site) :
    (Γ.isCompatible levels (.extending site [a]) x).result = .ok true ↔ Γ.hierarchy.Below x a := by
  unfold isCompatible
  rw [accepts_extending groundX]
  cases subtype : Γ.isSubtype x a with
  | true =>
    exact argumentsMatch_iff_below unmarked sound plain distinct groundX groundA coherent subtype
      enough
  | false =>
    refine ⟨nofun, ?_⟩
    intro below
    have budget := Γ.hierarchy.weight_lt_budget (x.weight + a.weight)
    have passes : Γ.isSubtype x a = true :=
      subtypeWithin_of_below unmarked sound plain groundX groundA below (by omega)
    rw [subtype] at passes
    cases passes

end Context

open Hierarchy in
/-- Standing for `? extends` is transitive: what may stand for `? extends B`, where `B` may stand
for `? extends C`, may stand for `? extends C`. Only the instances that the first type inherits have
to be unambiguous. -/
theorem isCompatible_extending_trans {h : Hierarchy} {rs : List Registry} (loaded : h.Loaded rs)
    (plain : h.PlainSupertypes) (distinct : h.DistinctParams) {a b c : Ty}
    (readsA : h.Reads rs .empty a) (plainA : h.isPlain a = true) (readsB : h.Reads rs .empty b)
    (plainB : h.isPlain b = true) (readsC : h.Reads rs .empty c) (plainC : h.isPlain c = true)
    (coherent : h.Coherent a.core) {e : Engine} (unmarked : e.settings.marker = "")
    (s₁ s₂ s₃ : Site)
    (first : (e.isCompatible h (.extending s₁ [b]) a).result = .ok true)
    (second : (e.isCompatible h (.extending s₂ [c]) b).result = .ok true) :
    (e.isCompatible h (.extending s₃ [c]) a).result = .ok true := by
  obtain ⟨ids, sound, known⟩ := loaded.sound
  have groundA := ground_of_plain (readsA.closed known) plainA
  have groundB := ground_of_plain (readsB.closed known) plainB
  have groundC := ground_of_plain (readsC.closed known) plainC
  have levels : ∀ (s : Site) (x y : Ty),
      h.decls.size + x.weight ≤ e.levels h ((Slot.extending s [x]).weight + y.weight) := by
    intro s x y
    simp only [Engine.levels, Slot.extending, Slot.weight, Ty.weights]
    omega
  unfold Engine.isCompatible at first second ⊢
  rw [Traced.result_reported] at first second ⊢
  have below := (Context.isCompatible_extending_iff (Γ := e.context h) unmarked sound plain distinct
    groundA groundB coherent (levels s₁ b a) s₁).mp first
  have below' := (Context.isCompatible_extending_iff (Γ := e.context h) unmarked sound plain
    distinct groundB groundC (coherent.of_below sound plain groundA groundB below) (levels s₂ c b)
    s₂).mp second
  exact (Context.isCompatible_extending_iff (Γ := e.context h) unmarked sound plain distinct groundA
    groundC coherent (levels s₃ c a) s₃).mpr (below.trans sound plain groundA groundB below')

/-- A line is a store, which is a sequence, and a queue, which is one too. -/
def lineModel : ClassModel := { types := [
  { name := "Sequence", isInterface := true, params := ["E"] },
  { name := "Queue", isInterface := true, params := ["Q"], extended := ["Sequence<Q>"] },
  { name := "Store", params := ["S"], implemented := ["Sequence<S>"] },
  { name := "Line", params := ["L"], extended := ["Store<L>"], implemented := ["Queue<L>"] },
  { name := "Text" }] }

def lineLibrary : Library := .ofModel lineModel

/-- Lines go up to sequences through queues, and still what is said of stores carries over. -/
theorem textLines_compatible :
    lineLibrary.hierarchy.Coherent (lineLibrary.typeOf "Line<Text[]>[]").core ∧
    ((Engine.ofSettings { marker := "" }).isCompatible lineLibrary.hierarchy
      (.extending ⟨0, 0⟩ [lineLibrary.typeOf "Store<Text[]>[]"])
      (lineLibrary.typeOf "Line<Text[]>[]")).result = .ok true ∧
    ((Engine.ofSettings { marker := "" }).isCompatible lineLibrary.hierarchy
      (.extending ⟨0, 0⟩ [lineLibrary.typeOf "Sequence<Text[]>[]"])
      (lineLibrary.typeOf "Store<Text[]>[]")).result = .ok true ∧
    ((Engine.ofSettings { marker := "" }).isCompatible lineLibrary.hierarchy
      (.extending ⟨0, 0⟩ [lineLibrary.typeOf "Sequence<Text[]>[]"])
      (lineLibrary.typeOf "Line<Text[]>[]")).result = .ok true := by
  have loaded : lineLibrary.hierarchy.Loaded [lineLibrary.registry, .root] :=
    Library.loaded_ofModel lineModel (by decide +kernel)
  have reads : ∀ text, ((lineLibrary.reader .empty).parseType text).isOk = true →
      lineLibrary.hierarchy.Reads [lineLibrary.registry, .root] .empty (lineLibrary.typeOf text) :=
    fun _ ok => Library.reads_typeIn List.mem_cons_self ok
  have coherent : lineLibrary.hierarchy.Coherent (lineLibrary.typeOf "Line<Text[]>[]").core := by
    refine Hierarchy.coherent_of_instances (n := 3) ?_ ?_ <;> decide +kernel
  have first : ((Engine.ofSettings { marker := "" }).isCompatible lineLibrary.hierarchy
      (.extending ⟨0, 0⟩ [lineLibrary.typeOf "Store<Text[]>[]"])
      (lineLibrary.typeOf "Line<Text[]>[]")).result = .ok true :=
    toOption_eq_some.mp (by decide +kernel)
  have second : ((Engine.ofSettings { marker := "" }).isCompatible lineLibrary.hierarchy
      (.extending ⟨0, 0⟩ [lineLibrary.typeOf "Sequence<Text[]>[]"])
      (lineLibrary.typeOf "Store<Text[]>[]")).result = .ok true :=
    toOption_eq_some.mp (by decide +kernel)
  refine ⟨coherent, first, second, ?_⟩
  exact isCompatible_extending_trans loaded (by decide +kernel) (by decide +kernel)
    (reads _ (by decide +kernel)) (by decide +kernel) (reads _ (by decide +kernel))
    (by decide +kernel) (reads _ (by decide +kernel)) (by decide +kernel) coherent rfl _ _ _ first
    second

end NominalGenerics
