import NominalGenerics.Proofs.Instances
import NominalGenerics.Proofs.Memory

/-!
# Two ways up

The locator walks all supertypes breadth first and visits each declaration once, the
parameterisation climbs along one path. Both give instances that the receiver really inherits, and
one of them is there exactly when the receiver is below the declaration. So they can only differ
where the receiver inherits two different instances of the same declaration
(`find_agrees_with_parameterize`).
-/

namespace NominalGenerics

theorem mapM_eq_ok_map {ε α β : Type} {f : α → Except ε β} {g : α → β} {xs : List α}
    (each : ∀ x ∈ xs, f x = .ok (g x)) : xs.mapM f = .ok (xs.map g) := by
  rw [mapM_eq_ok, List.forall₂_map_right_iff, List.forall₂_same]
  exact each

namespace Hierarchy

section Locate

variable {h : Hierarchy} {ids : List DeclId} {d e : DeclId} {t receiver : Ty}

/-- The search takes interfaces before the superclass. -/
theorem mem_interfaces_append_superclass {w : Ty} :
    w ∈ h.interfaces t ++ (h.superclass t).toList ↔ w ∈ h.supertypes t := by
  simp only [supertypes, List.mem_append]
  exact or_comm

/-- Going up from a type gives one direct instance for each written supertype. -/
theorem instantiateAll_spec (sound : h.Sound ids) (ascending : h.Ascending ids .none t)
    (head : t.head? = some e) : ∃ supers, h.instantiateAll t = .ok supers ∧
      supers.length = (h.supertypes (.decl e)).length ∧
      (∀ u ∈ supers, h.DirectSuper t u ∧ h.Ascending ids .none u) ∧
      ∀ f, h.Edge e f → ∃ u ∈ supers, u.head? = some f := by
  obtain ⟨spec, created, -⟩ :=
    supplies_of_createSpec sound (fun _ _ none => none) ascending.formed head
  refine ⟨(h.interfaces t ++ (h.superclass t).toList).map (h.subst spec []), ?_, ?_, ?_, ?_⟩
  · refine mapM_eq_ok_map ?_
    intro w written
    exact instantiate_eq ascending sound head (mem_interfaces_append_superclass.mp written) created
  · rw [← supertypes_of_head head]
    simp only [supertypes, List.length_map, List.length_append]
    omega
  · intro u member
    obtain ⟨w, written, rfl⟩ := List.mem_map.mp member
    have written := mem_interfaces_append_superclass.mp written
    exact ⟨⟨w, written, spec, created, rfl⟩,
      (ascending.step sound (fun _ _ none => none) head written created).1⟩
  · rintro f ⟨w, written, above⟩
    rw [← supertypes_of_head head] at written
    obtain ⟨-, g, here, above', -⟩ :=
      ascending.step sound (fun _ _ none => none) head written created
    rw [above] at above'
    cases above'
    exact ⟨_, List.mem_map.mpr ⟨w, mem_interfaces_append_superclass.mpr written, rfl⟩, here⟩

/-- A settled use of a generic declaration has an argument for each parameter. -/
theorem use_of_generic {P : ParamSet} (formed : t.Formed (h.arity ids) P) (settled : h.Settled t)
    (head : t.head? = some d) (generic : h.params d ≠ []) :
    t.isUse = true ∧ (h.args t).length = (h.params d).length := by
  cases t with
  | decl e =>
    cases head
    exact absurd (Formed.params_eq_nil formed) generic
  | bare s e =>
    cases head
    have notRaw := settled.notRaw
    simp only [isRaw, isGeneric, Ty.head?, Bool.not_eq_false', List.isEmpty_iff] at notRaw
    exact absurd notRaw generic
  | app s e as =>
    cases head
    obtain ⟨⟨k, known, fits⟩, -⟩ := formed
    refine ⟨rfl, ?_⟩
    rcases fits with rfl | length
    · cases settled.notDiamond
    · exact length.trans (arity_eq_some.mp known).2.symm
  | param s n bs => cases head
  | array s e => cases head

variable {queue : List Ty} {visited : List DeclId}

def Met (queue : List Ty) (visited : List DeclId) (e : DeclId) : Prop :=
  e ∈ visited ∨ ∃ t ∈ queue, t.head? = some e

theorem met_nil {f : DeclId} : Met [] visited f ↔ f ∈ visited := by
  simp [Met]

/-- A declaration in the queue that was visited before can be skipped. -/
theorem Met.skip {f : DeclId} (met : Met (t :: queue) visited f) (head : t.head? = some e)
    (before : e ∈ visited) : Met queue visited f := by
  rcases met with known | ⟨u, queued, here⟩
  · exact .inl known
  · rcases List.mem_cons.mp queued with rfl | queued
    · rw [head] at here
      cases here
      exact .inl before
    · exact .inr ⟨u, queued, here⟩

/-- A declaration in the queue can be visited, whatever comes into the queue for it. -/
theorem Met.expand {f : DeclId} (met : Met (t :: queue) visited f) (head : t.head? = some e)
    (supers : List Ty) : Met (queue ++ supers) (e :: visited) f := by
  rcases met with known | ⟨u, queued, here⟩
  · exact .inl (List.mem_cons_of_mem _ known)
  · rcases List.mem_cons.mp queued with rfl | queued
    · rw [head] at here
      cases here
      exact .inl List.mem_cons_self
    · exact .inr ⟨u, List.mem_append_left _ queued, here⟩

/-- What holds whenever the search for `d` goes on: the queue holds inherited instances, and
whatever is above a visited declaration was visited or is in the queue. -/
structure Searching (h : Hierarchy) (ids : List DeclId) (d : DeclId) (receiver : Ty)
    (queue : List Ty) (visited : List DeclId) : Prop where
  inherited : ∀ t ∈ queue, h.Inherits receiver t
  ascending : ∀ t ∈ queue, h.Ascending ids .none t
  unvisited : d ∉ visited
  expanded : ∀ e ∈ visited, ∀ f, h.Edge e f → Met queue visited f

theorem Searching.skip (searching : h.Searching ids d receiver (t :: queue) visited)
    (head : t.head? = some e) (met : e ∈ visited) : h.Searching ids d receiver queue visited where
  inherited u member := searching.inherited u (List.mem_cons_of_mem _ member)
  ascending u member := searching.ascending u (List.mem_cons_of_mem _ member)
  unvisited := searching.unvisited
  expanded c member f edge := (searching.expanded c member f edge).skip head met

theorem Searching.expand (searching : h.Searching ids d receiver (t :: queue) visited)
    (head : t.head? = some e) (apart : e ≠ d) {supers : List Ty}
    (direct : ∀ u ∈ supers, h.DirectSuper t u ∧ h.Ascending ids .none u)
    (edges : ∀ f, h.Edge e f → ∃ u ∈ supers, u.head? = some f) :
    h.Searching ids d receiver (queue ++ supers) (e :: visited) where
  inherited u member := by
    rcases List.mem_append.mp member with queued | new
    · exact searching.inherited u (List.mem_cons_of_mem _ queued)
    · exact (searching.inherited t List.mem_cons_self).tail (direct u new).1
  ascending u member := by
    rcases List.mem_append.mp member with queued | new
    · exact searching.ascending u (List.mem_cons_of_mem _ queued)
    · exact (direct u new).2
  unvisited member := by
    rcases List.mem_cons.mp member with same | before
    · exact apart same.symm
    · exact searching.unvisited before
  expanded c member f edge := by
    rcases List.mem_cons.mp member with rfl | before
    · obtain ⟨u, new, here⟩ := edges f edge
      exact .inr ⟨u, List.mem_append_right _ new, here⟩
    · exact (searching.expanded c before f edge).expand head supers

theorem mem_of_reaches (closed : ∀ c ∈ visited, ∀ f, h.Edge c f → f ∈ visited)
    (member : e ∈ visited) (reaches : h.Reaches e d) : d ∈ visited := by
  induction reaches with
  | refl => exact member
  | tail _ edge ih => exact closed _ ih _ edge

/-- A search with steps enough ends. What it finds is inherited, and it finds something if anything
it meets is below `d`. -/
theorem locateFrom_spec (sound : h.Sound ids) (generic : h.params d ≠ []) {fuel : Nat}
    (enough : queue.length + pending (fun e => (h.supertypes (.decl e)).length) ids visited < fuel)
    (searching : h.Searching ids d receiver queue visited) :
    ∃ found, h.locateFrom d fuel queue visited = .ok found ∧
      (∀ t, found = some t → h.Inherits receiver t ∧ t.head? = some d) ∧
      (found = none → ∀ e, Met queue visited e → ¬ h.Reaches e d) := by
  induction fuel generalizing queue visited with
  | zero => omega
  | succ fuel ih =>
    cases queue with
    | nil =>
      refine ⟨none, rfl, ?_, ?_⟩
      · intro t found
        cases found
      · intro _ e met reaches
        -- what was visited is closed under going up, so `d` would have been visited
        refine searching.unvisited (mem_of_reaches ?_ (met_nil.mp met) reaches)
        intro c member f edge
        exact met_nil.mp (searching.expanded c member f edge)
    | cons t queue =>
      have ascending := searching.ascending t List.mem_cons_self
      obtain ⟨e, head⟩ := ascending.isClass
      rw [List.length_cons] at enough
      unfold locateFrom
      simp only [head]
      split
      · rename_i met
        obtain ⟨found, ok, finds, misses⟩ := ih (by omega) (searching.skip head met)
        refine ⟨found, ok, finds, ?_⟩
        intro none f metF
        exact misses none f (metF.skip head met)
      · rename_i new
        have settled := ascending.settled t .refl
        split
        · rename_i goal
          obtain ⟨rfl, -⟩ := goal
          obtain ⟨-, length⟩ := use_of_generic ascending.formed settled head generic
          have some : (h.args t).length ≠ 0 := by
            rw [length]
            exact mt List.eq_nil_of_length_eq_zero generic
          refine ⟨t, ?_, ?_, ?_⟩
          · simp only [if_neg some, if_pos length]
          · rintro u ⟨⟩
            exact ⟨searching.inherited t List.mem_cons_self, head⟩
          · intro nothing
            cases nothing
        · -- supertypes join the queue at the expense of `e`, which is not expanded again
          rename_i elsewhere
          have apart : e ≠ d := by
            rintro rfl
            exact elsewhere ⟨rfl, (use_of_generic ascending.formed settled head generic).1⟩
          obtain ⟨supers, instantiated, length, direct, edges⟩ :=
            instantiateAll_spec sound ascending head
          have less := pending_cons_add_le (f := fun e => (h.supertypes (.decl e)).length)
            (ascending.mem_ids head) new
          obtain ⟨found, ok, finds, misses⟩ := ih (by rw [List.length_append]; omega)
            (searching.expand head apart direct edges)
          refine ⟨found, ?_, finds, ?_⟩
          · rw [instantiated]
            exact ok
          · intro none f metF
            exact misses none f (metF.expand head supers)

/-- A search has steps enough: every declaration puts its supertypes into the queue once. -/
theorem search_lt_budget (sound : h.Sound ids) (receiver : Ty) :
    [receiver].length + pending (fun e => (h.supertypes (.decl e)).length) ids [] <
      h.budget receiver.weight := by
  have total := sound.pending_supertypes_le
  have := receiver.weight_pos
  have := h.weight_lt_budget receiver.weight
  rw [List.length_singleton]
  omega

/-- The locator finds an inherited instance exactly when the receiver is below the declaration. -/
theorem locate_spec (sound : h.Sound ids) (generic : h.params d ≠ [])
    (ascending : h.Ascending ids .none receiver) (head : receiver.head? = some e) :
    ∃ found, h.locate d receiver = .ok found ∧
      (∀ t, found = some t → h.Inherits receiver t ∧ t.head? = some d) ∧
      (found = none → ¬ h.Reaches e d) := by
  have start : h.Searching ids d receiver [receiver] [] := by
    refine ⟨?_, ?_, List.not_mem_nil, ?_⟩
    · intro t member
      rw [List.mem_singleton.mp member]
      exact .refl
    · intro t member
      rw [List.mem_singleton.mp member]
      exact ascending
    · intro e member
      cases member
  obtain ⟨found, ok, finds, misses⟩ :=
    locateFrom_spec sound generic (search_lt_budget sound receiver) start
  refine ⟨found, (h.locate_eq d receiver).trans ok, finds, ?_⟩
  intro none
  exact misses none e (.inr ⟨receiver, List.mem_cons_self, head⟩)

end Locate

end Hierarchy

/-! ## The two agree -/

/-- An engine finds what the locator finds, whatever it was asked before. -/
theorem Engine.find_after (settings : Settings) (h : Hierarchy) (requests : List Request)
    {decl : Ty} {d : DeclId} (goal : decl.head? = some d) (receiver : Ty)
    (generic : h.params d ≠ []) :
    (((Engine.ofSettings settings).after h requests).find h decl receiver).1.result =
      h.locate d receiver := by
  have shadowed := (Shadowed.ofSettings h settings).after requests
  rw [(shadowed.find decl receiver).1]
  unfold Engine.find Engine.locate
  simp only [goal, List.isEmpty_iff, if_neg generic, shadowed.forgetful]
  simp

theorem Engine.find_result (settings : Settings) (h : Hierarchy) {d : DeclId} (receiver : Ty)
    (generic : h.params d ≠ []) :
    ((Engine.ofSettings settings).find h (.decl d) receiver).1.result = h.locate d receiver :=
  find_after settings h [] rfl receiver generic

open Hierarchy in
/-- The locator finds something exactly when the receiver is below the declaration, and then either
it finds what the parameterisation gives, or the receiver inherits two different instances of the
declaration along two chains of direct supertypes. -/
theorem find_agrees_with_parameterize {h : Hierarchy} {rs : List Registry} (loaded : h.Loaded rs)
    {receiver : Ty} (reads : h.Reads rs .empty receiver) (isClass : receiver.kind = .cls)
    (settled : ∀ u, h.Inherits receiver u → h.isRaw u = false ∧ u.isDiamond = false)
    {d : DeclId} (generic : h.params d ≠ []) {settings : Settings}
    (unmarked : settings.marker = "") :
    ∃ found, ((Engine.ofSettings settings).find h (.decl d) receiver).1.result = .ok found ∧
      (found.isSome ↔ (Engine.ofSettings settings).isSubtype h receiver (.decl d) = true) ∧
      ∀ f, found = some f → ∃ p,
        ((Engine.ofSettings settings).parameterize h receiver (.decl d)).result = .ok p ∧
        (h.equal f p = true ∨
          ∃ u v, h.Inherits receiver u ∧ u.head? = some d ∧ h.Inherits receiver v ∧
            v.head? = some d ∧ h.equal u v = false) := by
  obtain ⟨ids, sound, known⟩ := loaded.sound
  have formed := reads.closed known
  obtain ⟨e, head⟩ := Ty.head_of_class isClass
  have ascending : h.Ascending ids .none receiver :=
    ⟨formed, ⟨e, head⟩, fun u inherited => ⟨(settled u inherited).1, (settled u inherited).2⟩⟩
  have member := ascending.mem_ids head
  have below : (Engine.ofSettings settings).isSubtype h receiver (.decl d) = true ↔ h.Reaches e d :=
    Context.isSubtype_class (Γ := ⟨h, settings.marker⟩) unmarked sound head rfl member
  obtain ⟨found, ok, finds, misses⟩ := locate_spec sound generic ascending head
  rw [Engine.find_result settings h receiver generic]
  refine ⟨found, ok, ?_, ?_⟩
  · rw [below]
    constructor
    · intro some
      obtain ⟨t, some⟩ := Option.isSome_iff_exists.mp some
      obtain ⟨inherits, here⟩ := finds t some
      exact ascending.reaches sound (fun _ _ none => none) head inherits here
    · intro reaches
      cases found with
      | none => exact absurd reaches (misses rfl)
      | some t => rfl
  · intro f isFound
    obtain ⟨inherits, here⟩ := finds f isFound
    have reaches := ascending.reaches sound (fun _ _ none => none) head inherits here
    have target : (Ty.decl d).head? = some d := rfl
    obtain ⟨p, climbs, result⟩ := Context.parameterizeWithin_climbs (Γ := ⟨h, settings.marker⟩)
      unmarked sound (fun _ _ none => none) ascending head member reaches
      (sound.height_lt_budget (receiver.weight + (Ty.decl d).weight)) target
    refine ⟨p, (Traced.result_reported _).trans result, ?_⟩
    cases same : h.equal f p with
    | true => exact .inl rfl
    | false => exact .inr ⟨f, p, inherits, here, climbs.inherits, climbs.head, same⟩

/-- The instances that a type of this library inherits, going up at most three steps. -/
def reelInstances (t : Ty) : List Ty :=
  let one := reelLibrary.hierarchy.directSupers t
  let two := one.flatMap reelLibrary.hierarchy.directSupers
  t :: one ++ two ++ two.flatMap reelLibrary.hierarchy.directSupers

/-- Here the two ways up differ: one gives a sequence of arrays, the other one of elements. -/
theorem textReel_found :
    ∃ found, ((Engine.ofSettings { marker := "" }).find reelLibrary.hierarchy
        (.decl ⟨"Sequence", 2⟩) (reelLibrary.typeOf "Reel<Text>")).1.result = .ok found ∧
      (found.isSome ↔ (Engine.ofSettings { marker := "" }).isSubtype reelLibrary.hierarchy
        (reelLibrary.typeOf "Reel<Text>") (.decl ⟨"Sequence", 2⟩) = true) ∧
      ∀ f, found = some f → ∃ p, ((Engine.ofSettings { marker := "" }).parameterize
          reelLibrary.hierarchy (reelLibrary.typeOf "Reel<Text>")
          (.decl ⟨"Sequence", 2⟩)).result = .ok p ∧
        (reelLibrary.hierarchy.equal f p = true ∨
          ∃ u v, reelLibrary.hierarchy.Inherits (reelLibrary.typeOf "Reel<Text>") u ∧
            u.head? = some ⟨"Sequence", 2⟩ ∧
            reelLibrary.hierarchy.Inherits (reelLibrary.typeOf "Reel<Text>") v ∧
            v.head? = some ⟨"Sequence", 2⟩ ∧ reelLibrary.hierarchy.equal u v = false) := by
  refine find_agrees_with_parameterize loaded_reelLibrary (reads_reelLibrary (by decide +kernel))
    (by decide +kernel) ?_ (by decide +kernel) rfl
  have settled : ∀ u ∈ reelInstances (reelLibrary.typeOf "Reel<Text>"),
      reelLibrary.hierarchy.isRaw u = false ∧ u.isDiamond = false := by
    decide +kernel
  have closed : ∀ t ∈ reelInstances (reelLibrary.typeOf "Reel<Text>"),
      ∀ u ∈ reelLibrary.hierarchy.directSupers t,
        u ∈ reelInstances (reelLibrary.typeOf "Reel<Text>") := by
    decide +kernel
  intro u inherits
  exact settled u (Hierarchy.mem_of_inherits closed List.mem_cons_self inherits)

-- the sequence of arrays is found first, the climb goes through the loop
example :
    ((Engine.ofSettings { marker := "" }).find reelLibrary.hierarchy (.decl ⟨"Sequence", 2⟩)
        (reelLibrary.typeOf "Reel<Text>")).1.result.toOption.map
          (Option.map reelLibrary.hierarchy.render) =
      some (some "Sequence<Text[]>") ∧
    ((Engine.ofSettings { marker := "" }).parameterize reelLibrary.hierarchy
        (reelLibrary.typeOf "Reel<Text>") (.decl ⟨"Sequence", 2⟩)).result.toOption.map
          reelLibrary.hierarchy.render =
      some "Sequence<Text>" := by
  decide +kernel

end NominalGenerics
