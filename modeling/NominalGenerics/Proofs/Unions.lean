import NominalGenerics.Hierarchy.Builder
import NominalGenerics.Proofs.Wildcards

/-!
# Unions

A union is declared from a superclass and interfaces, and stands for all of them at once. As an
upper bound it asks for each of them by declaration only: a union has no parameters of its own, so
no arguments are compared and those of the superclass and the interfaces are not looked at. Their
own wildcards look at them, so a union accepts what each of these accepts, but not the other way
round (`union_asks_by_declaration`).
-/

namespace NominalGenerics

namespace Hierarchy

/-! ## One more declaration -/

section Declared

variable {h h' : Hierarchy} {ids : List DeclId} {name : String} {c : Decl} {u d : DeclId} {t : Ty}

theorem content_own (made : h.declare name c = (u, h')) : h'.content u = c := by
  cases made
  exact (content_declare h name c _).trans (if_pos rfl)

/-- Nothing that was declared before is the new declaration. -/
theorem Sound.ne_declared (sound : h.Sound ids) (made : h.declare name c = (u, h'))
    (old : d ∈ ids) : d ≠ u := by
  cases made
  rintro rfl
  exact Nat.lt_irrefl _ (sound.index_lt old)

theorem Sound.content_declared (sound : h.Sound ids) (made : h.declare name c = (u, h'))
    (old : d ∈ ids) : h'.content d = h.content d := by
  cases made
  exact (content_declare h name c d).trans (if_neg (Nat.ne_of_lt (sound.index_lt old)))

/-- What was declared before is no union. -/
theorem Sound.isUnion_declared (sound : h.Sound ids) (made : h.declare name c = (u, h'))
    {P : ParamSet} (formed : t.Formed (h.arity ids) P) : h'.isUnion t = false := by
  cases head : t.head? with
  | none => simp [isUnion, head]
  | some e =>
    obtain ⟨k, known⟩ := formed.head head
    have same := sound.content_declared made (arity_eq_some.mp known).1
    simpa [isUnion, head, same] using (sound.decls e).noUnion

/-- The superclasses of what was declared before were declared before. -/
theorem Sound.lineage_declared (sound : h.Sound ids) (made : h.declare name c = (u, h'))
    {fuel : Nat} (head : t.head? = some d) (old : d ∈ ids) :
    ∀ s ∈ h'.lineageWithin fuel t, ∃ e ∈ ids, s.head? = some e := by
  induction fuel generalizing t d with
  | zero => exact nofun
  | succ fuel ih =>
    have same : h'.superclass t = h.superclass (.decl d) := by
      rw [superclass_of_head head, Hierarchy.superclass, Hierarchy.superclass,
        sound.content_declared made old]
    intro s listed
    unfold lineageWithin at listed
    rw [same] at listed
    by_cases root : d = .object
    · rw [Hierarchy.superclass, if_pos root] at listed
      cases List.mem_singleton.mp listed
      exact ⟨d, old, head⟩
    · obtain ⟨w, e, super, above, -⟩ := sound.superclass root
      rw [super] at listed
      rcases List.mem_cons.mp listed with rfl | listed
      · exact ⟨d, old, head⟩
      · have edge : h.Edge d e :=
          ⟨w, List.mem_append_left _ (Option.mem_toList.mpr super), above⟩
        exact ih above (sound.edge_mem edge) s listed

end Declared

end Hierarchy

/-! ## A union as an upper bound -/

namespace Context

/-- Whether a class type is below a closed type is settled on the first level, unless the closed
type is a union. -/
theorem subtypeWithin_settled {Γ : Context} {A : Arity} {t k : Ty} {d : DeclId}
    (head : t.head? = some d) (closed : k.Formed A .none) (noUnion : Γ.hierarchy.isUnion k = false)
    (m n : Nat) : Γ.subtypeWithin (m + 1) t k = Γ.subtypeWithin (n + 1) t k := by
  cases headK : k.head? with
  | some e =>
    rw [subtypeWithin, subtypeWithin, subtypeStep_class head headK, subtypeStep_class head headK,
      noUnion]
    rfl
  | none =>
    cases k with
    | decl | bare | app => cases headK
    | param => exact closed.elim
    | array => rw [not_subtype_array head, not_subtype_array head]

section Union

variable {h h' : Hierarchy} {ids : List DeclId} {name marker : String} {super : Ty}
  {interfaces : List Ty} {u d : DeclId} {t : Ty}

/-- One level of the test for a union, asked of a class that was declared before it. -/
theorem subtypeStep_union (sound : h.Sound ids)
    (made : h.declare name (.union super interfaces) = (u, h')) (head : t.head? = some d)
    (old : d ∈ ids) (below : Ty → Ty → Bool) :
    Context.subtypeStep ⟨h', marker⟩ below t (.decl u) =
      (Context.willImplement ⟨h', marker⟩ t (.decl u) || (super :: interfaces).all (below t)) := by
  have own := Hierarchy.content_own made
  have notRoot : u ≠ .object := (sound.ne_declared made sound.object).symm
  have underived : Context.derives ⟨h', marker⟩ t (.decl u) = false := by
    unfold derives
    rw [List.any_eq_false]
    intro s listed same
    obtain ⟨e, old, here⟩ := sound.lineage_declared made head old s (List.mem_of_mem_tail listed)
    exact sound.ne_declared made old ((Ty.is_iff here rfl).mp same)
  have noInterface : Context.implements ⟨h', marker⟩ t (.decl u) = false := by
    simp [implements, Hierarchy.isInterface, Ty.head?, own, Decl.union]
  have isUnion : h'.isUnion (.decl u) = true := by
    simp [Hierarchy.isUnion, Ty.head?, own, Decl.union]
  have supertypes : h'.supertypes (.decl u) = super :: interfaces := by
    simp [Hierarchy.supertypes, Hierarchy.superclass, Hierarchy.interfaces, own, Decl.union,
      notRoot]
  rw [subtypeStep_class head rfl, Ty.is_eq_false head rfl (sound.ne_declared made old),
    Ty.isRoot_eq_false rfl notRoot, underived, noInterface, isUnion, supertypes]
  cases Context.willImplement ⟨h', marker⟩ t (.decl u) <;> rfl

/-- A class is below a union when it counts as implementing it, or when it is below the superclass
and all the interfaces. -/
theorem isSubtype_union (sound : h.Sound ids)
    (made : h.declare name (.union super interfaces) = (u, h')) (head : t.head? = some d)
    (old : d ∈ ids) (closed : ∀ k ∈ super :: interfaces, k.Formed (h.arity ids) .none) :
    Context.isSubtype ⟨h', marker⟩ t (.decl u) =
      (Context.willImplement ⟨h', marker⟩ t (.decl u) ||
        (super :: interfaces).all (Context.isSubtype ⟨h', marker⟩ t)) := by
  obtain ⟨m, levels⟩ : ∃ m, h'.budget (t.weight + (Ty.decl u).weight) = m + 1 + 1 := by
    have enough := h'.weight_lt_budget (t.weight + (Ty.decl u).weight)
    have := t.weight_pos
    have := (Ty.decl u).weight_pos
    exact ⟨h'.budget (t.weight + (Ty.decl u).weight) - 2, by omega⟩
  -- one level is left for what the union was made of, and it settles that
  have settled : ∀ k ∈ super :: interfaces, Context.subtypeWithin ⟨h', marker⟩ (m + 1) t k =
      Context.isSubtype ⟨h', marker⟩ t k := by
    intro k listed
    obtain ⟨n, levels⟩ := Nat.exists_eq_succ_of_ne_zero
      (Nat.ne_zero_of_lt (h'.weight_lt_budget (t.weight + k.weight)))
    rw [isSubtype, levels]
    exact subtypeWithin_settled head (closed k listed)
      (sound.isUnion_declared made (closed k listed)) m n
  rw [isSubtype, levels, subtypeWithin, subtypeStep_union sound made head old]
  congr 1
  rw [Bool.eq_iff_iff, List.all_eq_true, List.all_eq_true]
  exact forall₂_congr fun k listed => by rw [settled k listed]

/-- A union has no parameters, so no arguments are compared with it. -/
theorem argumentsMatch_union (made : h.declare name (.union super interfaces) = (u, h'))
    (isClass : t.head? = some d) (n : Nat) :
    Context.argumentsMatch ⟨h', marker⟩ (n + 1) t (.decl u) = pure true := by
  have own := Hierarchy.content_own made
  cases t with
  | param | array => cases isClass
  | decl | bare | app =>
    simp [argumentsMatch, argumentsMatchStep, Hierarchy.args, Hierarchy.params, own, Decl.union]

end Union

end Context

/-- The wildcard below a union accepts diamonds and whatever is below the union. -/
theorem Engine.isCompatible_union {h h' : Hierarchy} {name : String} {super : Ty}
    {interfaces : List Ty} {u d : DeclId} {t : Ty}
    (made : h.declare name (.union super interfaces) = (u, h')) (head : t.head? = some d)
    (e : Engine) (site : Site) : (e.isCompatible h' (.extending site [.decl u]) t).result =
      .ok (t.isDiamond || e.isSubtype h' t (.decl u)) := by
  have plain : t.isParam = false := by
    cases t with
    | param => cases head
    | decl | bare | app | array => rfl
  obtain ⟨n, levels⟩ : ∃ n, e.levels h' ((Slot.extending site [.decl u]).weight + t.weight) =
      n + 1 := by
    have := t.weight_pos
    exact ⟨e.levels h' ((Slot.extending site [.decl u]).weight + t.weight) - 1, by
      rw [Engine.levels]; omega⟩
  unfold Engine.isCompatible Engine.isSubtype
  rw [Traced.result_reported, levels, Context.isCompatible_extending plain]
  cases t.isDiamond with
  | true => rfl
  | false =>
    simp only [Bool.false_eq_true, if_false, List.all_cons, List.all_nil, Bool.and_true,
      Bool.false_or]
    cases (e.context h').isSubtype t (.decl u) with
    | false => rfl
    | true =>
      rw [if_pos rfl, result_allM_singleton]
      exact congrArg Traced.result (Context.argumentsMatch_union made head n)

/-- Without a level there is no answer. -/
theorem Context.exists_argumentsMatch {Γ : Context} {t bound : Ty} {answer : Bool} :
    (∃ n, (Γ.argumentsMatch n t bound).result = .ok answer) ↔
      ∃ n, (Γ.argumentsMatch (n + 1) t bound).result = .ok answer := by
  constructor
  · rintro ⟨n, compared⟩
    cases n with
    | zero => cases compared
    | succ n => exact ⟨n, compared⟩
  · rintro ⟨n, compared⟩
    exact ⟨n + 1, compared⟩

open Engine in
/-- The wildcard below a union accepts diamonds, classes that count as implementing the union, and
classes that are below the superclass and every interface by declaration. So it accepts what is
accepted below each of them. What it accepts is accepted below one of them when the arguments
match as well. -/
theorem union_asks_by_declaration {h h' : Hierarchy} {rs : List Registry} (loaded : h.Loaded rs)
    {super : Ty} {interfaces : List Ty} (reads : ∀ k ∈ super :: interfaces, h.Reads rs .empty k)
    {name : String} {u : DeclId} (made : h.declare name (.union super interfaces) = (u, h'))
    {t : Ty} (readsT : h.Reads rs .empty t) (isClass : t.kind = .cls) (e : Engine) (site : Site) :
    (e.isCompatible h' (.extending site [.decl u]) t).result =
        .ok (t.isDiamond || (e.context h').willImplement t (.decl u) ||
          (super :: interfaces).all (e.isSubtype h' t)) ∧
    ((∀ k ∈ super :: interfaces,
        Concludes e.settings.marker (·.isCompatible h' (.extending site [k]) t) true) →
      (e.isCompatible h' (.extending site [.decl u]) t).result = .ok true) ∧
    ((e.context h').willImplement t (.decl u) = false →
      (e.isCompatible h' (.extending site [.decl u]) t).result = .ok true →
      ∀ k ∈ super :: interfaces,
        (Concludes e.settings.marker (·.isCompatible h' (.extending site [k]) t) true ↔
          t.isDiamond = true ∨ Concludes e.settings.marker (·.argumentsMatch h' t k) true)) := by
  obtain ⟨ids, sound, known⟩ := loaded.sound
  obtain ⟨d, head⟩ := Ty.head_of_class isClass
  have closedT := readsT.closed known
  obtain ⟨k, declared⟩ := closedT.head head
  have old := (Hierarchy.arity_eq_some.mp declared).1
  have below : e.isSubtype h' t (.decl u) = ((e.context h').willImplement t (.decl u) ||
      (super :: interfaces).all (e.isSubtype h' t)) :=
    Context.isSubtype_union sound made head old fun k listed => (reads k listed).closed known
  have accepts : ∀ k, Concludes e.settings.marker (·.isCompatible h' (.extending site [k]) t) true ↔
      t.isDiamond = true ∨ e.isSubtype h' t k = true ∧
        Concludes e.settings.marker (·.argumentsMatch h' t k) true := by
    intro k
    rw [concludes_isCompatible, concludes_argumentsMatch, ← Context.exists_argumentsMatch,
      Context.exists_isCompatible_extending closedT.not_isParam, List.forall_mem_singleton]
    rfl
  rw [Engine.isCompatible_union made head, below, ← Bool.or_assoc]
  refine ⟨rfl, ?_, ?_⟩
  · intro each
    cases diamond : t.isDiamond with
    | true => rfl
    | false =>
      have all : (super :: interfaces).all (e.isSubtype h' t) = true := by
        rw [List.all_eq_true]
        intro k listed
        exact (((accepts k).mp (each k listed)).resolve_left (by simp [diamond])).1
      rw [all, Bool.or_true]
  · intro unmarked accepted k listed
    rw [accepts]
    cases diamond : t.isDiamond with
    | true => simp
    | false =>
      rw [diamond, unmarked, Bool.or_self, Bool.false_or] at accepted
      have all := List.all_eq_true.mp (Except.ok.inj accepted) k listed
      simp [all]

def rowModel : ClassModel := { types := [
  { name := "Sequence", isInterface := true, params := ["E"] },
  { name := "Text" },
  { name := "Num" },
  { name := "Row", implemented := ["Sequence<Text>"] },
  { name := "Draft", inCompilation := true }] }

def rowLibrary : Library := .ofModel rowModel

/-- A union of the root and an interface, and the hierarchy with it. -/
def rowUnion (name interface : String) : DeclId × Hierarchy :=
  rowLibrary.hierarchy.declare name (.union .object [rowLibrary.typeOf interface])

open Engine in
/-- A row is accepted below the union of the root and sequences of texts, since it is accepted below
both of them. -/
theorem row_in_union :
    ((ofSettings {}).isCompatible (rowUnion "Texts" "Sequence<Text>").2
      (.extending ⟨0, 0⟩ [.decl (rowUnion "Texts" "Sequence<Text>").1])
      (rowLibrary.typeOf "Row")).result = .ok true := by
  have loaded : rowLibrary.hierarchy.Loaded [rowLibrary.registry, .root] :=
    Library.loaded_ofModel rowModel (by decide +kernel)
  obtain ⟨readable, object, row⟩ :
      (∀ text ∈ ["Object", "Sequence<Text>", "Row"],
        ((rowLibrary.reader .empty).parseType text).isOk = true) ∧
      rowLibrary.typeOf "Object" = .object ∧ (rowLibrary.typeOf "Row").kind = .cls := by
    decide +kernel
  have reads : ∀ text ∈ ["Object", "Sequence<Text>", "Row"],
      rowLibrary.hierarchy.Reads [rowLibrary.registry, .root] .empty (rowLibrary.typeOf text) :=
    fun text listed => Library.reads_typeIn List.mem_cons_self (readable text listed)
  have parts : ∀ k ∈ [.object, rowLibrary.typeOf "Sequence<Text>"],
      rowLibrary.hierarchy.Reads [rowLibrary.registry, .root] .empty k := by
    rw [← object]
    simp [reads]
  have made : rowLibrary.hierarchy.declare "Texts"
      (.union .object [rowLibrary.typeOf "Sequence<Text>"]) =
        ((rowUnion "Texts" "Sequence<Text>").1, (rowUnion "Texts" "Sequence<Text>").2) := by
    rw [← rowUnion]
  refine (union_asks_by_declaration loaded parts made (reads "Row" (by decide)) row (ofSettings {})
    ⟨0, 0⟩).2.1 ?_
  simp only [List.forall_mem_cons, concludes_isCompatible]
  refine ⟨⟨3, toOption_eq_some.mp ?_⟩, ⟨3, toOption_eq_some.mp ?_⟩, nofun⟩ <;> decide +kernel

open Engine in
/-- A row is accepted below the union of the root and sequences of numbers, but not below sequences
of numbers. A draft is accepted below such a union named like the marker, being no sequence at
all. -/
theorem unions_accept_more :
    (((ofSettings {}).isCompatible (rowUnion "Nums" "Sequence<Num>").2
        (.extending ⟨0, 0⟩ [.decl (rowUnion "Nums" "Sequence<Num>").1])
        (rowLibrary.typeOf "Row")).result = .ok true ∧
      Concludes "GroovyObject" (·.isCompatible (rowUnion "Nums" "Sequence<Num>").2
        (.extending ⟨0, 0⟩ [rowLibrary.typeOf "Sequence<Num>"]) (rowLibrary.typeOf "Row")) false) ∧
    ((ofSettings {}).isCompatible (rowUnion "GroovyObject" "Sequence<Num>").2
        (.extending ⟨0, 0⟩ [.decl (rowUnion "GroovyObject" "Sequence<Num>").1])
        (rowLibrary.typeOf "Draft")).result = .ok true ∧
      Concludes "GroovyObject" (·.isCompatible (rowUnion "GroovyObject" "Sequence<Num>").2
        (.extending ⟨0, 0⟩ [rowLibrary.typeOf "Sequence<Num>"]) (rowLibrary.typeOf "Draft"))
        false := by
  simp only [concludes_isCompatible]
  refine ⟨⟨toOption_eq_some.mp ?_, ⟨2, toOption_eq_some.mp ?_⟩⟩, toOption_eq_some.mp ?_,
    ⟨2, toOption_eq_some.mp ?_⟩⟩ <;> decide +kernel

end NominalGenerics
