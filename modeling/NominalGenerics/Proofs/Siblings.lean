import Mathlib.Logic.Relation
import NominalGenerics.Hierarchy.Equality
import NominalGenerics.Proofs.Loading
import NominalGenerics.Proofs.Reading

/-!
# Parameters bounded by parameters

The bounds of parameters that are declared together are read in a scope that knows their names and
not yet their bounds. So a bound that is one of them has no bounds of its own: a parameter whose
first bound is such a sibling erases to the root, whatever the sibling erases to
(`Reader.erasure_of_sibling_bound`). Along a chain of siblings only the last link tells the erasures
apart. A bound from the scope around keeps its bounds, and is erased with them.
-/

namespace NominalGenerics

/-- The first bound of the parameter called `n` is a parameter called `m`. -/
def Scope.FirstBound (scope : Scope) (n m : String) : Prop :=
  ∃ s t bs cs, scope.get? n = some (.param s n (.param t m bs :: cs))

namespace Reader

def Introduced (texts : List String) (n : String) : Prop := ∃ text ∈ texts, paramName text = .ok n

/-- Names that are introduced stand for bare parameters, and others for what they stood for. -/
theorem get?_bareScope {source i : Nat} {texts : List String} {scope bare : Scope}
    (ok : bareScope source texts i scope = .ok bare) (n : String) :
    (Introduced texts n → ∃ s, bare.get? n = some (.param s n [])) ∧
      (¬ Introduced texts n → bare.get? n = scope.get? n) := by
  induction texts generalizing i scope with
  | nil =>
    cases ok
    refine ⟨?_, fun _ => rfl⟩
    rintro ⟨text, member, -⟩
    cases member
  | cons text texts ih =>
    obtain ⟨name, named, ok⟩ := bind_eq_ok.mp ok
    obtain ⟨introduced, other⟩ := ih ok
    by_cases later : Introduced texts n
    · refine ⟨fun _ => introduced later, fun absent => ?_⟩
      obtain ⟨text', member, here⟩ := later
      exact absurd ⟨text', List.mem_cons_of_mem _ member, here⟩ absent
    · rw [other later, NameMap.get?_insert]
      constructor
      · rintro ⟨text', member, here⟩
        rcases List.mem_cons.mp member with rfl | member
        · cases named.symm.trans here
          exact ⟨_, if_pos rfl⟩
        · exact absurd ⟨text', member, here⟩ later
      · intro absent
        apply if_neg
        rintro rfl
        exact absent ⟨text, List.mem_cons_self, named⟩

/-- Under the name of a declared parameter stands a declared parameter. -/
theorem get?_opened_of_mem {scope : Scope} {params : List Slot} {p : Slot} (member : p ∈ params)
    {t : Ty} (found : (opened scope params).get? p.name = some t) :
    ∃ q ∈ params, q.name = p.name ∧ q.ty = t := by
  induction params generalizing scope with
  | nil => cases member
  | cons q qs ih =>
    by_cases later : p ∈ qs
    · obtain ⟨q', member', here⟩ := ih later found
      exact ⟨q', List.mem_cons_of_mem _ member', here⟩
    · obtain rfl : p = q := (List.mem_cons.mp member).resolve_right later
      have found' : (opened (scope.insert p.name p.ty) qs).get? p.name = some t := found
      rcases get?_opened found' with ⟨q', member', here⟩ | before
      · exact ⟨q', List.mem_cons_of_mem _ member', here⟩
      · rw [NameMap.get?_insert, if_pos rfl] at before
        exact ⟨p, List.mem_cons_self, rfl, Option.some.inj before⟩

/-- A parameter that is a bound of a declared one is bare if it is declared together with it, and
is otherwise as it stands in the scope around. -/
theorem first_bound_of_held {r : Reader} (proper : r.scope.Proper) {texts : List String}
    {params : List Slot} {scope : Scope} (ok : r.parseParams texts = .ok (params, scope))
    {p : Slot} (declared : p ∈ params) {s t : Site} {m : String} {cs bs : List Ty}
    (held : scope.get? p.name = some (.param s p.name (.param t m cs :: bs))) :
    (Introduced texts m → cs = []) ∧
      (¬ Introduced texts m → r.scope.get? m = some (.param t m cs)) := by
  obtain ⟨bare, isBare, ok⟩ := bind_eq_ok.mp ok
  have inner : ({ r with scope := bare, source := r.source + 1 } : Reader).Informed
      fun d => some (r.hierarchy.params d).length :=
    ⟨fun _ _ _ => rfl, (bareScope_bare proper isBare).1⟩
  obtain ⟨formed, -, rfl⟩ := parseEach_declared inner ok
  obtain ⟨q, member, -, same⟩ := get?_opened_of_mem declared held
  obtain ⟨s', n', bs', rfl, formed⟩ := formed q member
  cases same
  have found : bare.get? m = some (.param t m cs) := formed.1
  obtain ⟨introduced, other⟩ := get?_bareScope isBare m
  constructor
  · intro here
    obtain ⟨t', bareHere⟩ := introduced here
    rw [bareHere] at found
    cases found
    rfl
  · intro absent
    rw [← other absent, found]

end Reader

/-- A declared parameter whose first bound is declared with it erases to the root. Then the two
erase alike exactly when the sibling has no bound, or its first bound is a sibling again, or that
bound erases to the root. A first bound from the scope around stands there with the bounds it is
erased by. -/
theorem Reader.erasure_of_sibling_bound {r : Reader} (proper : r.scope.Proper)
    {texts : List String} {params : List Slot} {scope : Scope}
    (ok : r.parseParams texts = .ok (params, scope))
    {p : Slot} (declared : p ∈ params) {s t : Site} {m : String} {cs bs : List Ty}
    (held : scope.get? p.name = some (.param s p.name (.param t m cs :: bs))) :
    let h := r.hierarchy
    let erased := h.erasure (.param s p.name (.param t m cs :: bs))
    (Introduced texts m → erased = .object ∧
      ∀ q ∈ params, q.name = m → ∀ t' ds, scope.get? m = some (.param t' m ds) →
        (h.equal erased (h.erasure (.param t' m ds)) = true ↔
          ∀ d ∈ ds.head?, (∃ t'' k es, d = .param t'' k es ∧ Introduced texts k) ∨
            h.equal .object (h.erasure d) = true)) ∧
    (¬ Introduced texts m →
      r.scope.get? m = some (.param t m cs) ∧ erased = h.erasure (.param t m cs)) := by
  intro h erased
  obtain ⟨sibling, around⟩ := first_bound_of_held proper ok declared held
  refine ⟨fun here => ?_, fun absent => ⟨around absent, rfl⟩⟩
  obtain rfl := sibling here
  refine ⟨rfl, ?_⟩
  rintro q member rfl t' ds heldQ
  show h.equal .object _ = true ↔ _
  cases ds with
  | nil => simp [Hierarchy.erasure, Hierarchy.equal, Ty.object]
  | cons d ds =>
    simp only [Hierarchy.erasure, List.head?_cons, Option.mem_some_iff, forall_eq']
    constructor
    · exact .inr
    · rintro (⟨t'', k, es, rfl, again⟩ | same)
      · obtain rfl := (first_bound_of_held proper ok member heldQ).1 again
        simp [Hierarchy.erasure, Hierarchy.equal, Ty.object]
      · exact same

/-- The scope of accepted declarations is known from the parameters. -/
theorem Reader.parseParams_eq_ok {r : Reader} (proper : r.scope.Proper) {texts : List String}
    {params : List Slot} (read : (r.parseParams texts).map Prod.fst = .ok params) :
    r.parseParams texts = .ok (params, opened r.scope params) := by
  have informed : r.Informed fun d => some (r.hierarchy.params d).length :=
    ⟨fun _ _ _ => rfl, proper⟩
  cases parsed : r.parseParams texts with
  | error e =>
    rw [parsed] at read
    cases read
  | ok result =>
    rw [parsed] at read
    cases read
    rw [← (parseParams_declared informed parsed).2.2]

/-- The parameter `T extends Text` of the library of reels, read as text 29. -/
def textParam : Slot := .parameter ⟨29, 0⟩ "T" [.decl ⟨"Text", 3⟩]

/-- A parameter declared with others, whose bare forms stand in text 28. -/
def siblingParam (source : Nat) (name : String) (offset : Nat) (bound : String) : Slot :=
  .parameter ⟨source, 0⟩ name [.param ⟨28, offset⟩ bound []]

/-- Of three parameters, each bounded by the one before, the last two erase alike. -/
theorem Reader.chained_siblings_erased :
    let r := reelLibrary.reader .empty
    let u := siblingParam 30 "U" 0 "T"
    let v := siblingParam 31 "V" 1 "U"
    r.scope.Proper ∧
    ∃ scope, r.parseParams ["T extends Text", "U extends T", "V extends U"] =
        .ok ([textParam, u, v], scope) ∧
      v ∈ [textParam, u, v] ∧ scope.get? "V" = some v.ty ∧ scope.get? "U" = some u.ty ∧
      r.hierarchy.equal (r.hierarchy.erasure v.ty) (r.hierarchy.erasure u.ty) = true := by
  intro r u v
  have proper : r.scope.Proper := Library.proper_empty
  have ok : r.parseParams ["T extends Text", "U extends T", "V extends U"] =
      .ok ([textParam, u, v], opened r.scope [textParam, u, v]) :=
    parseParams_eq_ok proper (by decide +kernel)
  have member : v ∈ [textParam, u, v] := by simp
  have heldV : (opened r.scope [textParam, u, v]).get? "V" = some v.ty := by decide +kernel
  have heldU : (opened r.scope [textParam, u, v]).get? "U" = some u.ty := by decide +kernel
  have introduced : ∀ n ∈ ["T", "U"],
      Introduced ["T extends Text", "U extends T", "V extends U"] n := by
    intro n listed
    rcases List.mem_pair.mp listed with rfl | rfl
    · exact ⟨"T extends Text", by simp, by decide +kernel⟩
    · exact ⟨"U extends T", by simp, by decide +kernel⟩
  obtain ⟨-, alike⟩ :=
    (erasure_of_sibling_bound proper ok member heldV).1 (introduced "U" (by simp))
  refine ⟨proper, _, ok, member, heldV, heldU, (alike u (by simp) rfl _ _ heldU).mpr ?_⟩
  rintro d ⟨⟩
  exact .inl ⟨_, _, _, rfl, introduced "T" (by simp)⟩

/-- Two parameters, the second bounded by the first, erase to different classes. -/
theorem Reader.bounded_siblings_erase_apart :
    let r := reelLibrary.reader .empty
    let u := siblingParam 30 "U" 0 "T"
    r.scope.Proper ∧
    ∃ scope, r.parseParams ["T extends Text", "U extends T"] = .ok ([textParam, u], scope) ∧
      (∀ n, ¬ Relation.TransGen scope.FirstBound n n) ∧
      scope.FirstBound "U" "T" ∧ scope.get? "U" = some u.ty ∧ scope.get? "T" = some textParam.ty ∧
      r.hierarchy.equal (r.hierarchy.erasure u.ty) (r.hierarchy.erasure textParam.ty) = false := by
  intro r u
  have proper : r.scope.Proper := Library.proper_empty
  have ok : r.parseParams ["T extends Text", "U extends T"] =
      .ok ([textParam, u], opened r.scope [textParam, u]) :=
    parseParams_eq_ok proper (by decide +kernel)
  have heldU : (opened r.scope [textParam, u]).get? "U" = some u.ty := by decide +kernel
  have heldT : (opened r.scope [textParam, u]).get? "T" = some textParam.ty := by decide +kernel
  have only : ∀ n m, (opened r.scope [textParam, u]).FirstBound n m → n = "U" ∧ m = "T" := by
    rintro n m ⟨s, t, bs, cs, held⟩
    rcases get?_opened held with ⟨p, member, rfl, same⟩ | around
    · rcases List.mem_pair.mp member with rfl | rfl
      · cases same
      · cases same
        exact ⟨rfl, rfl⟩
    · cases around
  have chain : ∀ n m, Relation.TransGen (opened r.scope [textParam, u]).FirstBound n m →
      n = "U" ∧ m = "T" := by
    intro n m path
    induction path with
    | single step => exact only _ _ step
    | tail _ step ih => exact absurd (ih.2.symm.trans (only _ _ step).1) (by decide)
  refine ⟨proper, _, ok, ?_, ⟨_, _, _, _, heldU⟩, heldU, heldT, by decide +kernel⟩
  intro n loop
  obtain ⟨isU, isT⟩ := chain n n loop
  exact absurd (isU.symm.trans isT) (by decide)

end NominalGenerics
