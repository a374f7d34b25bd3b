import Mathlib.Data.Finset.Card
import Mathlib.Data.Finset.Dedup
import Mathlib.Logic.Relation
import NominalGenerics.Proofs.Clashes
import NominalGenerics.Proofs.Untripped

/-!
# Connecting arguments

An argument that is a type parameter is connected by a loop: its name is looked up among the other
bindings and then among what the receiver supplies, and so on from there, until a name was met
before or leads nowhere. Every turn meets a new name, and there are only so many of them, so the
loop stops however the bindings are arranged (`follows_wellFounded`), and the bounded version of it
stops where it does (`follow_stops`). What it stops at is settled: a type parameter is replaced by
its erasure.

Main statement: the exact bindings of what was read are the loose ones, settled position by position
(`Engine.exactBindings_settled`).
-/

namespace NominalGenerics

/-! ## The loop -/

namespace Bindings

variable {b : Bindings} {args : Spec}

/-- Where type parameters can lead. -/
def goals (b : Bindings) (args : Spec) : List Slot := b.map Binding.actual ++ args.values

theorem length_goals (b : Bindings) (args : Spec) :
    (b.goals args).length = b.length + args.size := by
  simp [goals, NameMap.values, NameMap.size]

theorem next?_mem {actual other : Slot} (next : b.next? args actual = some other) :
    other ∈ b.goals args := by
  have supplied : args.get? actual.name = some other → other ∈ b.goals args := fun found =>
    List.mem_append_right _ (NameMap.mem_values_iff.mpr ⟨_, found⟩)
  unfold next? at next
  split at next
  · rename_i bound found
    split at next
    · exact supplied next
    · cases next
      obtain ⟨e, first, rfl⟩ := Option.map_eq_some_iff.mp found
      exact List.mem_append_left _ (List.mem_map_of_mem (List.mem_of_find?_eq_some first))
  · exact supplied next

/-- One turn of the loop, from the names met before and the argument at hand. -/
inductive Follows (b : Bindings) (args : Spec) : List String × Slot → List String × Slot → Prop
  | on {met : List String} {actual other : Slot} (isParam : actual.isParam = true)
      (new : actual.name ∉ met) (next : b.next? args actual = some other) :
      Follows b args (met, actual) (actual.name :: met, other)

/-- What the loop may still meet: that of the argument at hand and those it may lead to. -/
def unmet (b : Bindings) (args : Spec) (state : List String × Slot) : Finset String :=
  insert state.2.name ((b.goals args).map Slot.name).toFinset \ state.1.toFinset

/-- Every turn meets a new name. -/
theorem Follows.unmet_ssubset {x y : List String × Slot} (follows : b.Follows args x y) :
    b.unmet args y ⊂ b.unmet args x := by
  cases follows with
  | @on met actual other isParam new next =>
    have known : other.name ∈ (b.goals args).map Slot.name := List.mem_map_of_mem (next?_mem next)
    refine (Finset.ssubset_iff_of_subset ?_).mpr ⟨actual.name, ?_, ?_⟩
    · intro n
      simp only [unmet, Finset.mem_sdiff, Finset.mem_insert, List.mem_toFinset, List.mem_cons]
      rintro ⟨rfl | inside, unseen⟩
      · exact ⟨.inr known, fun seen => unseen (.inr seen)⟩
      · exact ⟨.inr inside, fun seen => unseen (.inr seen)⟩
    · simp [unmet, new]
    · simp [unmet]

/-- The loop stops from wherever it is started, whatever the bindings are. -/
theorem follows_wellFounded (b : Bindings) (args : Spec) :
    WellFounded fun y x => b.Follows args x y :=
  Subrelation.wf (fun follows => Finset.card_lt_card follows.unmet_ssubset)
    (measure fun state => (b.unmet args state).card).wf

theorem card_unmet_le (b : Bindings) (args : Spec) (state : List String × Slot) :
    (b.unmet args state).card ≤ b.length + args.size + 1 := by
  calc (b.unmet args state).card
      ≤ (insert state.2.name ((b.goals args).map Slot.name).toFinset).card :=
        Finset.card_le_card Finset.sdiff_subset
    _ ≤ ((b.goals args).map Slot.name).toFinset.card + 1 := Finset.card_insert_le _ _
    _ ≤ b.length + args.size + 1 := by
        refine Nat.add_le_add_right ?_ 1
        have := List.toFinset_card_le ((b.goals args).map Slot.name)
        rwa [List.length_map, length_goals] at this

/-- The bounded loop takes the turns of the loop and stops where it does. -/
theorem follow_stops {fuel : Nat} {met : List String} {actual : Slot}
    (enough : (b.unmet args (met, actual)).card < fuel) :
    ∃ met', Relation.ReflTransGen (b.Follows args) (met, actual)
        (met', b.follow args fuel met actual) ∧
      ∀ next, ¬ b.Follows args (met', b.follow args fuel met actual) next := by
  induction fuel generalizing met actual with
  | zero => omega
  | succ fuel ih =>
    unfold follow
    split
    · rename_i stops
      refine ⟨met, .refl, ?_⟩
      rintro _ ⟨isParam, new, -⟩
      simp [isParam, new] at stops
    · rename_i goesOn
      simp only [Bool.or_eq_true, Bool.not_eq_true', List.contains_eq_mem, decide_eq_true_eq,
        not_or, Bool.not_eq_false] at goesOn
      cases next : b.next? args actual with
      | none =>
        refine ⟨met, .refl, ?_⟩
        rintro _ ⟨-, -, leads⟩
        rw [next] at leads
        cases leads
      | some other =>
        have turn : b.Follows args (met, actual) (actual.name :: met, other) :=
          .on goesOn.1 goesOn.2 next
        have fewer : (b.unmet args (actual.name :: met, other)).card < fuel := by
          have := Finset.card_lt_card turn.unmet_ssubset
          omega
        obtain ⟨met', run, stops⟩ := ih fewer
        exact ⟨met', .head turn run, stops⟩

/-- The loop that starts at an argument stops at `last`. -/
def Connects (b : Bindings) (args : Spec) (start last : Slot) : Prop :=
  ∃ met, Relation.ReflTransGen (b.Follows args) ([], start) (met, last) ∧
    ∀ next, ¬ b.Follows args (met, last) next

theorem Connects.eq_start {start last : Slot} (connects : b.Connects args start last)
    (notParam : start.isParam = false) : last = start := by
  obtain ⟨met, run, -⟩ := connects
  rcases Relation.ReflTransGen.cases_head run with same | ⟨_, ⟨isParam, -, -⟩, -⟩
  · cases same
    rfl
  · rw [notParam] at isParam
    cases isParam

end Bindings

/-- What an argument is when nothing leads on from it. -/
def Hierarchy.settle (h : Hierarchy) (s : Slot) : Slot :=
  if s.isParam then (Slot.ofTy s.site (h.erasure s.ty)).asResolved s.site else s

theorem Bindings.connect_settles (h : Hierarchy) (b : Bindings) (args : Spec) (start : Slot) :
    ∃ last, b.Connects args start last ∧ b.connect h args start = h.settle last := by
  obtain ⟨met, run, stops⟩ :=
    b.follow_stops (Nat.lt_succ_of_le (b.card_unmet_le args ([], start)))
  exact ⟨_, ⟨met, run, stops⟩, rfl⟩

def Bindings.settled (h : Hierarchy) (args : Spec) (b : Bindings) : Bindings :=
  b.map fun x => ⟨x.declared, b.connect h args x.actual⟩

theorem Bindings.exact_of_arguments {h : Hierarchy} {b : Bindings} {receiver : Ty} {args : Spec}
    (ok : h.arguments receiver = .ok args) : b.exact h receiver = .ok (b.settled h args) := by
  unfold Bindings.exact
  rw [ok]
  rfl

namespace Hierarchy

variable {h : Hierarchy} {ids : List DeclId}

theorem Sound.erasure_of_head (sound : h.Sound ids) {t : Ty} {d : DeclId}
    (head : t.head? = some d) : h.erasure t = .decl d := by
  cases t with
  | decl | bare | app => exact sound.direct.declaration head
  | param | array => cases head

/-- Nothing erases to a type parameter. -/
theorem Sound.erasure_not_isParam (sound : h.Sound ids) : ∀ t : Ty, (h.erasure t).isParam = false
  | .param _ _ [] => rfl
  | .param _ _ (b :: _) => erasure_not_isParam sound b
  | .array _ _ => rfl
  | .decl d | .bare _ d | .app _ d _ => by
    rw [sound.erasure_of_head (d := d) rfl]
    rfl

theorem Sound.settle_not_isParam (sound : h.Sound ids) (s : Slot) :
    (h.settle s).isParam = false := by
  unfold settle
  split
  · have erased := sound.erasure_not_isParam s.ty
    cases shape : h.erasure s.ty with
    | param =>
      rw [shape] at erased
      cases erased
    | decl | bare | app | array => rfl
  · rename_i notParam
    exact Bool.eq_false_iff.mpr notParam

/-! ## Bindings as located -/

def pairing (h : Hierarchy) (decl : Ty) : Option Ty → Bindings
  | none => []
  | some use => ((h.args (h.declaration decl)).zip (h.args use)).map fun (p, a) => ⟨p, a⟩

end Hierarchy

namespace Engine

variable {h : Hierarchy} {e plain : Engine}

theorem Shadowed.pairs_result (shadowed : Shadowed h e plain) (direct : h.Direct)
    (decl receiver : Ty) :
    (e.pairs h decl receiver).1.result = (h.locateUse decl receiver).map (h.pairing decl) := by
  unfold Engine.pairs
  rw [Traced.result_bind, shadowed.locate_result]
  cases located : h.locateUse decl receiver with
  | error f => rfl
  | ok found =>
    cases found with
    | none => rfl
    | some use =>
      have same := direct.length_args_of_locateUse located
      simp only [Except.bind, same, ne_eq, not_true_eq_false, if_false]
      rfl

theorem Shadowed.bindings_result (shadowed : Shadowed h e plain) (direct : h.Direct)
    (decl receiver : Ty) :
    (e.bindings h decl receiver).1.result = (h.locateUse decl receiver).map (h.pairing decl) := by
  unfold Engine.bindings
  rw [Traced.result_reported, shadowed.pairs_result direct]

theorem Shadowed.exactBindings_result (shadowed : Shadowed h e plain) (direct : h.Direct)
    (decl : Ty) {receiver : Ty} {args : Spec} (ok : h.arguments receiver = .ok args) :
    (e.exactBindings h decl receiver).1.result =
      (h.locateUse decl receiver).map fun found => (h.pairing decl found).settled h args := by
  unfold Engine.exactBindings
  rw [Traced.result_reported, Traced.result_bind, shadowed.pairs_result direct]
  cases h.locateUse decl receiver with
  | error f => rfl
  | ok found =>
    show (if (h.pairing decl found).isEmpty then pure []
      else ((h.pairing decl found).exact h receiver : Traced Bindings)).result =
        .ok ((h.pairing decl found).settled h args)
    generalize h.pairing decl found = b
    cases b with
    | nil => rfl
    | cons x b => exact Bindings.exact_of_arguments ok

/-- The exact bindings of a declaration for what was read are there, whatever an engine was asked
before. They are for the same parameters in the same order as the loose ones, none of them is a type
parameter, and an argument that is none is kept. An argument that is one is connected by a loop to
where that stops, and is settled there. The loop stops for all bindings whatsoever. -/
theorem exactBindings_settled {rs : List Registry} (loaded : h.Loaded rs) {scope : Scope}
    (opens : h.Opens rs scope) {receiver : Ty} (reads : h.Reads rs scope receiver) (decl : Ty)
    (settings : Settings) (requests : List Request) :
    (∃ loose exact args,
      (((ofSettings settings).after h requests).bindings h decl receiver).1.result = .ok loose ∧
      (((ofSettings settings).after h requests).exactBindings h decl receiver).1.result =
        .ok exact ∧
      h.arguments receiver = .ok args ∧
      exact.map Binding.declared = loose.map Binding.declared ∧
      (∀ x ∈ exact, x.actual.isParam = false) ∧
      ∀ (i : Nat) (p a : Slot), loose[i]? = some ⟨p, a⟩ →
        (a.isParam = false → exact[i]? = some ⟨p, a⟩) ∧
        ∃ last, loose.Connects args a last ∧ exact[i]? = some ⟨p, h.settle last⟩) ∧
    ∀ (b : Bindings) (args : Spec), WellFounded fun y x => b.Follows args x y := by
  obtain ⟨ids, sound, known⟩ := loaded.sound
  have whole := reads.whole sound known opens
  obtain ⟨args, ok, -⟩ := Hierarchy.arguments_whole whole
  obtain ⟨found, located, -⟩ := sound.locateUse_formed ParamSet.whole_stable whole decl
  have shadowed := (Shadowed.ofSettings h settings).after requests
  refine ⟨⟨h.pairing decl found, (h.pairing decl found).settled h args, args, ?_, ?_, ok, ?_⟩,
    Bindings.follows_wellFounded⟩
  · rw [shadowed.bindings_result sound.direct, located]
    rfl
  · rw [shadowed.exactBindings_result sound.direct decl ok, located]
    rfl
  generalize h.pairing decl found = loose
  refine ⟨?_, ?_, ?_⟩
  · simp [Bindings.settled]
  · intro x member
    obtain ⟨y, -, rfl⟩ := List.mem_map.mp member
    obtain ⟨last, -, same⟩ := loose.connect_settles h args y.actual
    rw [same]
    exact sound.settle_not_isParam last
  · intro i p a at_i
    obtain ⟨last, connects, same⟩ := loose.connect_settles h args a
    have settled : (loose.settled h args)[i]? = some ⟨p, h.settle last⟩ := by
      rw [Bindings.settled, List.getElem?_map, at_i, Option.map_some, same]
    refine ⟨?_, last, connects, settled⟩
    intro notParam
    rw [settled, connects.eq_start notParam, Hierarchy.settle, if_neg (by simp [notParam])]

/-- Two type parameters with the names of those that a crate is declared with. -/
def swappedScope : Scope := reelLibrary.scopeIn ["A extends Text", "B"]

def swappedCrate : Ty := reelLibrary.typeIn swappedScope "Crate<B, A>"

/-- Arguments that lead to each other are settled, also when the look-up is answered from memory. -/
theorem swappedCrate_settled : ∃ exact,
    (((ofSettings {}).after reelLibrary.hierarchy
        [.find (some (.decl ⟨"Crate", 8⟩)) (some swappedCrate)]).exactBindings reelLibrary.hierarchy
      (.decl ⟨"Crate", 8⟩) swappedCrate).1.result = .ok exact ∧
    ∀ x ∈ exact, x.actual.isParam = false := by
  have reads : reelLibrary.hierarchy.Reads [reelLibrary.registry, .root] swappedScope
      swappedCrate := reads_in_reelLibrary (by decide +kernel)
  obtain ⟨⟨_, exact, _, -, ok, -, -, none, -⟩, -⟩ := exactBindings_settled loaded_reelLibrary
    (Library.opens_scopeIn List.mem_cons_self _) reads (.decl ⟨"Crate", 8⟩) {}
    [.find (some (.decl ⟨"Crate", 8⟩)) (some swappedCrate)]
  exact ⟨exact, ok, none⟩

-- from `B` the loop comes back to `B`, and from `A` to `A`
example : ((ofSettings {}).exactBindings reelLibrary.hierarchy (.decl ⟨"Crate", 8⟩)
    swappedCrate).1.result.toOption.map (fun b => b.map fun x => (x.declared.name, x.actual.name)) =
      some [("A", "Object"), ("B", "Text")] := by decide +kernel

end Engine

end NominalGenerics
