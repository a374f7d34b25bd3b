import Mathlib.Order.RelSeries
import NominalGenerics.Proofs.Derived
import NominalGenerics.Proofs.Locating

/-!
# The locator takes a shortest way up

The locator looks at types level by level: first the receiver, then its direct supertypes, then
theirs. The levels are not in the program; here each queued type and each visited declaration
carries the one at which it was met. A declaration that some path of length `n` leads to is visited
by level `n`, or the queue still holds a type of such a level (`Leveled.near`). So the first use of
the declaration that leaves the queue ends a chain than which no path is shorter
(`find_shortest`).
-/

namespace NominalGenerics

namespace Hierarchy

/-! ## Chains and paths -/

def StepsUp (h : Hierarchy) (t u : Ty) : Prop :=
  ∃ w ∈ h.supertypes t, h.instantiate t w = .ok u

abbrev Chain (h : Hierarchy) := RelSeries {step : Ty × Ty | h.StepsUp step.1 step.2}

abbrev Path (h : Hierarchy) := RelSeries {edge : DeclId × DeclId | h.Edge edge.1 edge.2}

/-- A chain from `receiver` to a use of `d` than which no path between the declarations is
shorter. -/
structure Shortest (h : Hierarchy) (receiver : Ty) (d : DeclId) (chain : h.Chain) : Prop where
  starts : chain.head = receiver
  arrives : chain.last.head? = some d
  least : ∀ path : h.Path, receiver.head? = some path.head → path.last = d →
    chain.length ≤ path.length

section Steps

variable {h : Hierarchy} {ids : List DeclId} {d e : DeclId} {t u w : Ty}

theorem exists_path (reaches : h.Reaches e d) : ∃ path : h.Path, path.head = e ∧ path.last = d := by
  induction reaches with
  | refl => exact ⟨.singleton _ e, rfl, rfl⟩
  | tail _ edge ih =>
    obtain ⟨path, starts, rfl⟩ := ih
    exact ⟨path.snoc _ edge, by rw [RelSeries.head_snoc, starts], RelSeries.last_snoc _ _ _⟩

/-- A step up goes to the declaration that is written there. -/
theorem Sound.head_instantiate (sound : h.Sound ids) (head : t.head? = some e)
    (written : w ∈ h.supertypes t) (ok : h.instantiate t w = .ok u) : u.head? = w.head? := by
  obtain ⟨formed, c, above, edge⟩ := sound.supertype head written
  unfold instantiate at ok
  split at ok
  · cases ok
    rfl
  · split at ok
    · cases ok
      rw [sound.direct.declaration above, above]
      exact (erasedUse_formed (P := .none) t (sound.edge_mem edge)).2
    · obtain ⟨spec, -, done⟩ := bind_eq_ok.mp ok
      cases done
      rw [head_subst spec formed above, above]

/-- All steps up from a whole type: one for each written supertype. -/
theorem Sound.instantiateAll_whole (sound : h.Sound ids)
    (whole : t.Formed (h.arity ids) (.whole (h.arity ids))) (head : t.head? = some e) :
    ∃ supers, h.instantiateAll t = .ok supers ∧
      supers.length = (h.supertypes (.decl e)).length ∧
      (∀ u ∈ supers, h.StepsUp t u ∧ u.Formed (h.arity ids) (.whole (h.arity ids)) ∧
        ∃ c, u.head? = some c) ∧
      ∀ f, h.Edge e f → ∃ u ∈ supers, u.head? = some f := by
  obtain ⟨supers, ok, length, below, above⟩ :=
    sound.instantiateAll_ok ParamSet.whole_stable whole head
  refine ⟨supers, ok, length, ?_, ?_⟩
  · intro u member
    obtain ⟨w, written, goes, kept⟩ := below u member
    exact ⟨⟨w, written, goes⟩, kept⟩
  · rintro f ⟨w, written, here⟩
    rw [← supertypes_of_head head] at written
    obtain ⟨u, member, goes⟩ := above w written
    exact ⟨u, member, (sound.head_instantiate head written goes).trans here⟩

/-- A class type of a generic declaration is a use of it, since it is not the bare declaration. -/
theorem isUse_of_generic {P : ParamSet} (formed : t.Formed (h.arity ids) P)
    (head : t.head? = some d) (generic : h.params d ≠ []) : t.isUse = true := by
  cases t with
  | decl e =>
    cases head
    exact absurd (Formed.params_eq_nil formed) generic
  | bare | app => rfl
  | param | array => cases head

theorem raw_or_diamond (isUse : t.isUse = true) (head : t.head? = some d)
    (generic : h.params d ≠ []) (unapplied : h.args t = []) :
    h.isRaw t = true ∨ t.isDiamond = true := by
  cases t with
  | bare s e =>
    cases head
    left
    simpa only [isRaw, isGeneric, Ty.head?, Bool.not_eq_true', List.isEmpty_eq_false_iff] using
      generic
  | app s e as =>
    right
    cases unapplied
    rfl
  | decl | param | array => cases isUse

end Steps

/-! ## Levels -/

section Levels

variable {h : Hierarchy} {ids : List DeclId} {d e f : DeclId} {t receiver : Ty}
variable {queue : List (Ty × Nat)} {visited : List (DeclId × Nat)} {k n : Nat}

/-- A declaration was met by level `n`: visited at such a level, or queued for one. -/
def MetBy (queue : List (Ty × Nat)) (visited : List (DeclId × Nat)) (n : Nat) (e : DeclId) : Prop :=
  (∃ v ∈ visited, v.1 = e ∧ v.2 ≤ n) ∨ ∃ q ∈ queue, q.1.head? = some e ∧ q.2 ≤ n

/-- What leaves the queue because its declaration was visited before was met no later there. -/
theorem MetBy.skip (met : MetBy ((t, k) :: queue) visited n f) (head : t.head? = some e)
    (before : ∃ v ∈ visited, v.1 = e ∧ v.2 ≤ k) : MetBy queue visited n f := by
  rcases met with known | ⟨q, queued, here, level⟩
  · exact .inl known
  · rcases List.mem_cons.mp queued with rfl | queued
    · obtain ⟨v, member, rfl, earlier⟩ := before
      rw [head] at here
      cases here
      exact .inl ⟨v, member, rfl, earlier.trans level⟩
    · exact .inr ⟨q, queued, here, level⟩

/-- What leaves the queue and is expanded is visited at its level. -/
theorem MetBy.expand (met : MetBy ((t, k) :: queue) visited n f) (head : t.head? = some e)
    (more : List (Ty × Nat)) : MetBy (queue ++ more) ((e, k) :: visited) n f := by
  rcases met with ⟨v, member, known⟩ | ⟨q, queued, here, level⟩
  · exact .inl ⟨v, List.mem_cons_of_mem _ member, known⟩
  · rcases List.mem_cons.mp queued with rfl | queued
    · rw [head] at here
      cases here
      exact .inl ⟨(e, k), List.mem_cons_self, rfl, level⟩
    · exact .inr ⟨q, List.mem_append_left _ queued, here, level⟩

/-- A type at some level of a search: a class type that ends a chain as long as the level. -/
structure AtLevel (h : Hierarchy) (ids : List DeclId) (receiver : Ty) (q : Ty × Nat) : Prop where
  chained : ∃ chain : h.Chain, chain.head = receiver ∧ chain.last = q.1 ∧ chain.length = q.2
  whole : q.1.Formed (h.arity ids) (.whole (h.arity ids))
  isClass : ∃ e, q.1.head? = some e

theorem AtLevel.up {u : Ty} (here : h.AtLevel ids receiver (t, k)) (step : h.StepsUp t u)
    (whole : u.Formed (h.arity ids) (.whole (h.arity ids))) (isClass : ∃ e, u.head? = some e) :
    h.AtLevel ids receiver (u, k + 1) := by
  obtain ⟨chain, starts, rfl, rfl⟩ := here.chained
  refine ⟨⟨chain.snoc u step, ?_, RelSeries.last_snoc _ _ _, rfl⟩, whole, isClass⟩
  rw [RelSeries.head_snoc, starts]

/-- What holds whenever the search for `d` goes on: the queue is ordered by level and spans two
levels, and what is above a visited declaration was met by the level after it. -/
structure Leveled (h : Hierarchy) (ids : List DeclId) (d : DeclId) (receiver : Ty)
    (queue : List (Ty × Nat)) (visited : List (DeclId × Nat)) : Prop where
  atLevel : ∀ q ∈ queue, h.AtLevel ids receiver q
  ordered : queue.Pairwise fun q q' => q.2 ≤ q'.2
  spans : ∀ q ∈ queue, ∀ q' ∈ queue, q'.2 ≤ q.2 + 1
  earlier : ∀ v ∈ visited, ∀ q ∈ queue, v.2 ≤ q.2
  unvisited : ∀ v ∈ visited, v.1 ≠ d
  started : ∀ e, receiver.head? = some e → MetBy queue visited 0 e
  expanded : ∀ v ∈ visited, ∀ f, h.Edge v.1 f → MetBy queue visited (v.2 + 1) f

theorem Leveled.start (d : DeclId) (whole : receiver.Formed (h.arity ids) (.whole (h.arity ids)))
    (head : receiver.head? = some e) : h.Leveled ids d receiver [(receiver, 0)] [] where
  atLevel q member := by
    rw [List.mem_singleton.mp member]
    exact ⟨⟨.singleton _ receiver, rfl, rfl, rfl⟩, whole, e, head⟩
  ordered := List.pairwise_singleton _ _
  spans q member q' member' := by
    rw [List.mem_singleton.mp member, List.mem_singleton.mp member']
    exact Nat.zero_le _
  earlier _ member := nomatch member
  unvisited _ member := nomatch member
  started f here := .inr ⟨(receiver, 0), List.mem_singleton_self _, here, le_rfl⟩
  expanded _ member := nomatch member

theorem Leveled.skip (leveled : h.Leveled ids d receiver ((t, k) :: queue) visited)
    (head : t.head? = some e) (before : e ∈ visited.map Prod.fst) :
    h.Leveled ids d receiver queue visited := by
  obtain ⟨v, member, rfl⟩ := List.mem_map.mp before
  have met : ∃ v' ∈ visited, v'.1 = v.1 ∧ v'.2 ≤ k :=
    ⟨v, member, rfl, leveled.earlier v member _ List.mem_cons_self⟩
  exact {
    atLevel := fun q queued => leveled.atLevel q (List.mem_cons_of_mem _ queued)
    ordered := leveled.ordered.of_cons
    spans := fun q queued q' queued' =>
      leveled.spans q (List.mem_cons_of_mem _ queued) q' (List.mem_cons_of_mem _ queued')
    earlier := fun v' member' q queued =>
      leveled.earlier v' member' q (List.mem_cons_of_mem _ queued)
    unvisited := leveled.unvisited
    started := fun f here => (leveled.started f here).skip head met
    expanded := fun v' member' f edge => (leveled.expanded v' member' f edge).skip head met }

/-- The types that come into the queue are one level above the one that leaves it. -/
theorem Leveled.expand (leveled : h.Leveled ids d receiver ((t, k) :: queue) visited)
    (head : t.head? = some e) (apart : e ≠ d) {supers : List Ty}
    (direct : ∀ u ∈ supers, h.StepsUp t u ∧ u.Formed (h.arity ids) (.whole (h.arity ids)) ∧
      ∃ c, u.head? = some c)
    (edges : ∀ f, h.Edge e f → ∃ u ∈ supers, u.head? = some f) :
    h.Leveled ids d receiver (queue ++ supers.map (·, k + 1)) ((e, k) :: visited) := by
  have first : ∀ q ∈ queue, k ≤ q.2 := (List.pairwise_cons.mp leveled.ordered).1
  have last : ∀ q ∈ queue, q.2 ≤ k + 1 := fun q queued =>
    leveled.spans _ List.mem_cons_self q (List.mem_cons_of_mem _ queued)
  -- breadth first: the queue holds the rest of one level and the beginning of the next
  have within : ∀ q ∈ queue ++ supers.map (·, k + 1), k ≤ q.2 ∧ q.2 ≤ k + 1 := by
    intro q member
    rcases List.mem_append.mp member with queued | new
    · exact ⟨first q queued, last q queued⟩
    · obtain ⟨u, -, rfl⟩ := List.mem_map.mp new
      exact ⟨Nat.le_succ k, le_rfl⟩
  constructor
  case atLevel =>
    intro q member
    rcases List.mem_append.mp member with queued | new
    · exact leveled.atLevel q (List.mem_cons_of_mem _ queued)
    · obtain ⟨u, listed, rfl⟩ := List.mem_map.mp new
      obtain ⟨step, whole, isClass⟩ := direct u listed
      exact (leveled.atLevel _ List.mem_cons_self).up step whole isClass
  case ordered =>
    refine List.pairwise_append.mpr ⟨leveled.ordered.of_cons, ?_, ?_⟩
    · exact List.pairwise_map.mpr (List.pairwise_of_forall fun _ _ => le_rfl)
    · intro q queued q' new
      obtain ⟨u, -, rfl⟩ := List.mem_map.mp new
      exact last q queued
  case spans =>
    intro q member q' member'
    have := within q member
    have := within q' member'
    omega
  case earlier =>
    intro v member q member'
    have level := (within q member').1
    rcases List.mem_cons.mp member with rfl | before
    · exact level
    · exact (leveled.earlier v before _ List.mem_cons_self).trans level
  case unvisited =>
    intro v member
    rcases List.mem_cons.mp member with rfl | before
    · exact apart
    · exact leveled.unvisited v before
  case started => exact fun f here => (leveled.started f here).expand head _
  case expanded =>
    intro v member f edge
    rcases List.mem_cons.mp member with rfl | before
    · obtain ⟨u, new, here⟩ := edges f edge
      refine .inr ⟨(u, k + 1), ?_, here, le_rfl⟩
      exact List.mem_append_right _ (List.mem_map.mpr ⟨u, new, rfl⟩)
    · exact (leveled.expanded v before f edge).expand head _

/-- Where a path of some length leads was visited by that level, unless the queue is not yet past
that level. -/
theorem Leveled.near (leveled : h.Leveled ids d receiver queue visited) (path : h.Path)
    (starts : receiver.head? = some path.head) :
    (∃ v ∈ visited, v.1 = path.last ∧ v.2 ≤ path.length) ∨ ∃ q ∈ queue, q.2 ≤ path.length := by
  -- along the path: once the queue is behind a level, so are the levels before it
  induction path using RelSeries.inductionOn' with
  | singleton e =>
    rcases leveled.started e starts with known | ⟨q, queued, -, level⟩
    · exact .inl known
    · exact .inr ⟨q, queued, level⟩
  | snoc path f edge ih =>
    have longer : (path.snoc f edge).length = path.length + 1 := rfl
    rw [RelSeries.last_snoc, longer]
    rw [RelSeries.head_snoc] at starts
    rcases ih starts with ⟨v, member, here, level⟩ | ⟨q, queued, level⟩
    · have edge : h.Edge v.1 f := here ▸ edge
      rcases leveled.expanded v member f edge with ⟨v', met, there, next⟩ | ⟨q, queued, -, next⟩
      · exact .inl ⟨v', met, there, by omega⟩
      · exact .inr ⟨q, queued, by omega⟩
    · exact .inr ⟨q, queued, by omega⟩

/-- A search that is over has no path to where it looked for. -/
theorem Leveled.unreached (leveled : h.Leveled ids d receiver [] visited)
    (head : receiver.head? = some e) : ¬ h.Reaches e d := by
  intro reaches
  obtain ⟨path, rfl, arrives⟩ := exists_path reaches
  rcases leveled.near path head with ⟨v, member, here, -⟩ | ⟨q, queued, -⟩
  · exact leveled.unvisited v member (here.trans arrives)
  · cases queued

/-- The first use of `d` that leaves the queue ends a shortest chain. -/
theorem Leveled.shortest (leveled : h.Leveled ids d receiver ((t, k) :: queue) visited)
    (head : t.head? = some d) :
    ∃ chain : h.Chain, h.Shortest receiver d chain ∧ chain.last = t := by
  obtain ⟨chain, starts, rfl, rfl⟩ := (leveled.atLevel _ List.mem_cons_self).chained
  refine ⟨chain, ⟨starts, head, ?_⟩, rfl⟩
  intro path pathStarts arrives
  rcases leveled.near path pathStarts with ⟨v, member, here, -⟩ | ⟨q, queued, level⟩
  · exact absurd (here.trans arrives) (leveled.unvisited v member)
  · rcases List.mem_cons.mp queued with rfl | queued
    · exact level
    · exact ((List.pairwise_cons.mp leveled.ordered).1 q queued).trans level

/-! ## The search -/

/-- What a search for `d` from `receiver` may come to. -/
inductive Finds (h : Hierarchy) (receiver : Ty) (d : DeclId) : Option Ty → Prop
  /-- The end of a shortest chain, with an argument for each parameter. -/
  | hit {chain : h.Chain} : h.Shortest receiver d chain →
      (h.args chain.last).length = (h.params d).length → Finds h receiver d (some chain.last)
  /-- Nothing, since there is no path. -/
  | unreached : (∀ e, receiver.head? = some e → ¬ h.Reaches e d) → Finds h receiver d none
  /-- Nothing, since a shortest chain ends without arguments. -/
  | erased {chain : h.Chain} : h.Shortest receiver d chain →
      h.isRaw chain.last = true ∨ chain.last.isDiamond = true → Finds h receiver d none

/-- A search with steps enough ends at the first use of `d` in the order of the levels. -/
theorem locateFrom_finds (sound : h.Sound ids) (generic : h.params d ≠ []) {fuel : Nat}
    (enough : queue.length + pending (fun e => (h.supertypes (.decl e)).length) ids
      (visited.map Prod.fst) < fuel)
    (leveled : h.Leveled ids d receiver queue visited) :
    ∃ found, h.locateFrom d fuel (queue.map Prod.fst) (visited.map Prod.fst) = .ok found ∧
      h.Finds receiver d found := by
  induction fuel generalizing queue visited with
  | zero => omega
  | succ fuel ih =>
    cases queue with
    | nil => exact ⟨none, rfl, .unreached fun e head => leveled.unreached head⟩
    | cons q queue =>
      obtain ⟨t, k⟩ := q
      obtain ⟨-, whole, e, head⟩ := leveled.atLevel _ List.mem_cons_self
      rw [List.length_cons] at enough
      unfold locateFrom
      simp only [List.map_cons, head]
      split
      · rename_i before
        exact ih (by omega) (leveled.skip head before)
      · rename_i new
        split
        · -- `d` leaves the queue, with its arguments or without
          rename_i goal
          obtain ⟨rfl, isUse⟩ := goal
          obtain ⟨chain, shortest, rfl⟩ := leveled.shortest head
          rcases Sound.length_args head whole.loose with unapplied | length
          · refine ⟨none, by rw [if_pos (by rw [unapplied]; rfl)], .erased shortest ?_⟩
            exact raw_or_diamond isUse head generic unapplied
          · have applied : (h.args chain.last).length ≠ 0 := by
              rw [← length]
              exact mt List.eq_nil_of_length_eq_zero generic
            refine ⟨some chain.last, ?_, .hit shortest length.symm⟩
            rw [if_neg applied, if_pos length.symm]
        · -- another declaration makes way for its supertypes, one level up
          rename_i elsewhere
          have apart : e ≠ d := by
            rintro rfl
            exact elsewhere ⟨rfl, isUse_of_generic whole head generic⟩
          obtain ⟨supers, instantiated, length, direct, edges⟩ :=
            sound.instantiateAll_whole whole head
          have less := pending_cons_add_le (f := fun e => (h.supertypes (.decl e)).length)
            (sound.keptUp_whole.listed whole head) new
          have unleveled :
              (queue ++ supers.map (·, k + 1)).map Prod.fst = queue.map Prod.fst ++ supers := by
            simp [Function.comp_def]
          have enough : (queue ++ supers.map (·, k + 1)).length +
              pending (fun e => (h.supertypes (.decl e)).length) ids
                (((e, k) :: visited).map Prod.fst) < fuel := by
            simp only [List.length_append, List.length_map, List.map_cons]
            omega
          have found := ih enough (leveled.expand head apart direct edges)
          rw [unleveled] at found
          rw [instantiated]
          exact found

/-- The locator finds the end of a shortest chain, or a chain that is as short arrives without
arguments, or there is none. -/
theorem locate_finds (sound : h.Sound ids) (generic : h.params d ≠ [])
    (whole : receiver.Formed (h.arity ids) (.whole (h.arity ids)))
    (head : receiver.head? = some e) :
    ∃ found, h.locate d receiver = .ok found ∧ h.Finds receiver d found := by
  have start : h.Leveled ids d receiver [(receiver, 0)] [] := .start d whole head
  rw [locate_eq]
  refine locateFrom_finds sound generic ?_ start
  exact search_lt_budget sound receiver

end Levels

end Hierarchy

/-- What the locator finds ends a chain of direct supertypes than which no path between the
declarations is shorter; when it finds nothing there is no path, or such a chain arrives at a raw or
diamond use. -/
theorem find_shortest {h : Hierarchy} {rs : List Registry} (loaded : h.Loaded rs) {scope : Scope}
    (opens : h.Opens rs scope) {receiver : Ty} (reads : h.Reads rs scope receiver)
    (isClass : receiver.kind = .cls) {decl : Ty} {d : DeclId} (goal : decl.head? = some d)
    (generic : h.params d ≠ []) (settings : Settings) (requests : List Request) :
    ∃ found, (((Engine.ofSettings settings).after h requests).find h decl receiver).1.result =
        .ok found ∧ h.Finds receiver d found := by
  obtain ⟨ids, sound, known⟩ := loaded.sound
  obtain ⟨e, head⟩ := Ty.head_of_class isClass
  rw [Engine.find_after settings h requests goal receiver generic]
  exact Hierarchy.locate_finds sound generic (reads.whole sound known opens) head

/-- The sequence above a reel is the one its buffer is, two steps up, and not the one its loop is,
three steps up. -/
theorem reel_shortest :
    (∃ chain, reelLibrary.hierarchy.Shortest (reelLibrary.typeOf "Reel<Text>") ⟨"Sequence", 2⟩
        chain ∧ reelLibrary.hierarchy.render chain.last = "Sequence<Text[]>") ∧
      ∃ chain, reelLibrary.hierarchy.Shortest (reelLibrary.typeOf "Reel") ⟨"Sequence", 2⟩ chain ∧
        (reelLibrary.hierarchy.isRaw chain.last = true ∨ chain.last.isDiamond = true) := by
  have readable : ∀ text ∈ ["Reel<Text>", "Reel"],
      ((reelLibrary.reader .empty).parseType text).isOk = true ∧
        (reelLibrary.typeOf text).kind = .cls := by decide +kernel
  have raw : (reelLibrary.typeOf "Reel").head? = some ⟨"Reel", 7⟩ := by decide +kernel
  have generic : reelLibrary.hierarchy.params ⟨"Sequence", 2⟩ ≠ [] := by decide +kernel
  have find : ∀ text ∈ ["Reel<Text>", "Reel"], ∃ found,
      (((Engine.ofSettings {}).after reelLibrary.hierarchy []).find reelLibrary.hierarchy
        (.decl ⟨"Sequence", 2⟩) (reelLibrary.typeOf text)).1.result = .ok found ∧
      reelLibrary.hierarchy.Finds (reelLibrary.typeOf text) ⟨"Sequence", 2⟩ found := by
    intro text member
    obtain ⟨ok, isClass⟩ := readable text member
    exact find_shortest loaded_reelLibrary .empty (reads_reelLibrary ok) isClass rfl generic {} []
  have answers :
      (((Engine.ofSettings {}).after reelLibrary.hierarchy []).find reelLibrary.hierarchy
        (.decl ⟨"Sequence", 2⟩) (reelLibrary.typeOf "Reel<Text>")).1.result.toOption.map
          (Option.map reelLibrary.hierarchy.render) = some (some "Sequence<Text[]>") ∧
      (((Engine.ofSettings {}).after reelLibrary.hierarchy []).find reelLibrary.hierarchy
        (.decl ⟨"Sequence", 2⟩) (reelLibrary.typeOf "Reel")).1.result.toOption = some none := by
    decide +kernel
  have edges : reelLibrary.hierarchy.Edge ⟨"Reel", 7⟩ ⟨"Buffer", 4⟩ ∧
      reelLibrary.hierarchy.Edge ⟨"Buffer", 4⟩ ⟨"Sequence", 2⟩ := by
    unfold Hierarchy.Edge
    decide +kernel
  constructor
  · obtain ⟨found, ok, finds⟩ := find "Reel<Text>" (by decide)
    rw [ok] at answers
    have render := Option.some.inj answers.1
    cases finds with
    | hit shortest _ => exact ⟨_, shortest, Option.some.inj render⟩
    | unreached | erased => cases render
  · obtain ⟨found, ok, finds⟩ := find "Reel" (by decide)
    rw [ok] at answers
    have missed := Option.some.inj answers.2
    cases finds with
    | hit => cases missed
    | unreached unreached => exact absurd (.tail (.single edges.1) edges.2) (unreached _ raw)
    | erased shortest unapplied => exact ⟨_, shortest, unapplied⟩

end NominalGenerics
