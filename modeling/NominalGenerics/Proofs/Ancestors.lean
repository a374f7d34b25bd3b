import NominalGenerics.Proofs.Loading
import NominalGenerics.Proofs.Queued

/-!
# Ancestors in a sound hierarchy

The walks over a sound hierarchy have steps enough and find what there is to find. The subtype test
on class types is reachability along written supertypes (`subtypeWithin_class`): a class is reached
along superclasses alone, an interface along superclasses and then superinterfaces. So a type that
is below another has a direct supertype that still is (`nextSupertype_spec`).
-/

namespace NominalGenerics

/-! ## Breadth-first walks -/

section Walk

variable {α : Type} [DecidableEq α]

/-- What is still to come, where `f` says how much a node of `all` brings when it is met. -/
def pending (f : α → Nat) : List α → List α → Nat
  | [], _ => 0
  | a :: all, found => (if a ∈ found then 0 else f a) + pending f all found

theorem pending_cons_le (f : α → Nat) (all found : List α) (t : α) :
    pending f all (t :: found) ≤ pending f all found := by
  induction all with
  | nil => exact Nat.le_refl 0
  | cons a all ih =>
    unfold pending
    refine Nat.add_le_add ?_ ih
    by_cases met : a ∈ found
    · simp [met]
    · by_cases same : a = t <;> simp [met, same]

/-- Meeting a node takes what it brings out of what is still to come. -/
theorem pending_cons_add_le {f : α → Nat} {all found : List α} {t : α} (member : t ∈ all)
    (new : t ∉ found) : pending f all (t :: found) + f t ≤ pending f all found := by
  induction all with
  | nil => cases member
  | cons a all ih =>
    have smaller := pending_cons_le f all found t
    unfold pending
    by_cases same : a = t
    · subst same
      simp only [List.mem_cons_self, if_true, if_neg new]
      omega
    · have later := ih ((List.mem_cons.mp member).resolve_left (Ne.symm same))
      simp only [List.mem_cons, same, false_or]
      omega

end Walk

theorem Ty.weight_pos (t : Ty) : 1 ≤ t.weight := by
  cases t <;> simp [Ty.weight]

theorem Ty.weight_le_weights {t : Ty} {ts : List Ty} (member : t ∈ ts) :
    t.weight ≤ Ty.weights ts := by
  induction ts with
  | nil => cases member
  | cons u ts ih =>
    rw [Ty.weights]
    rcases List.mem_cons.mp member with rfl | member
    · exact Nat.le_add_right _ _
    · exact Nat.le_trans (ih member) (Nat.le_add_left _ _)

namespace Hierarchy

section Reach

variable {next : Ty → List Ty}

/-- A walk finds only what is reached from its queue. -/
theorem reach_sound {fuel : Nat} {queue found : List Ty} {x : Ty}
    (member : x ∈ reach next fuel queue found) :
    x ∈ found ∨ ∃ q ∈ queue, Relation.ReflTransGen (fun a b => b ∈ next a) q x := by
  induction fuel generalizing queue found with
  | zero => exact .inl (List.mem_reverse.mp member)
  | succ fuel ih =>
    cases queue with
    | nil => exact .inl (List.mem_reverse.mp member)
    | cons t queue =>
      unfold reach at member
      split at member
      · rcases ih member with before | ⟨q, queued, path⟩
        · exact .inl before
        · exact .inr ⟨q, List.mem_cons_of_mem _ queued, path⟩
      · rcases ih member with before | ⟨q, queued, path⟩
        · rcases List.mem_cons.mp before with rfl | before
          · exact .inr ⟨x, List.mem_cons_self, .refl⟩
          · exact .inl before
        · rcases List.mem_append.mp queued with queued | added
          · exact .inr ⟨q, List.mem_cons_of_mem _ queued, path⟩
          · exact .inr ⟨t, List.mem_cons_self, .head added path⟩

/-- A walk with steps enough finds its queue and whatever comes next from what it finds. -/
theorem reach_complete {all : List Ty} (closed : ∀ t ∈ all, ∀ u ∈ next t, u ∈ all) {fuel : Nat}
    {queue found : List Ty} (within : queue ⊆ all)
    (enough : queue.length + pending (fun t => (next t).length) all found ≤ fuel)
    (expanded : ∀ t ∈ found, ∀ u ∈ next t, u ∈ found ∨ u ∈ queue) :
    found ⊆ reach next fuel queue found ∧ queue ⊆ reach next fuel queue found ∧
      ∀ t ∈ reach next fuel queue found, ∀ u ∈ next t, u ∈ reach next fuel queue found := by
  have finished : ∀ found : List Ty, (∀ t ∈ found, ∀ u ∈ next t, u ∈ found ∨ u ∈ []) →
      found ⊆ found.reverse ∧ [] ⊆ found.reverse ∧
        ∀ t ∈ found.reverse, ∀ u ∈ next t, u ∈ found.reverse := by
    intro found expanded
    refine ⟨by simp, by simp, ?_⟩
    intro t member u step
    simpa using expanded t (List.mem_reverse.mp member) u step
  induction fuel generalizing queue found with
  | zero =>
    cases queue with
    | nil => exact finished found expanded
    | cons t queue => simp at enough
  | succ fuel ih =>
    cases queue with
    | nil => exact finished found expanded
    | cons t queue =>
      obtain ⟨here, within⟩ := List.cons_subset.mp within
      rw [List.length_cons] at enough
      unfold reach
      split
      · rename_i met
        have still : ∀ a ∈ found, ∀ u ∈ next a, u ∈ found ∨ u ∈ queue := by
          intro a member u step
          rcases expanded a member u step with before | queued
          · exact .inl before
          · rcases List.mem_cons.mp queued with rfl | queued
            · exact .inl met
            · exact .inr queued
        obtain ⟨keeps, finds, closes⟩ := ih within (by omega) still
        exact ⟨keeps, List.cons_subset.mpr ⟨keeps met, finds⟩, closes⟩
      · rename_i new
        -- a type that is new pays for what it puts into the queue
        have less := pending_cons_add_le (f := fun t => (next t).length) here new
        have wider : queue ++ next t ⊆ all :=
          List.append_subset.mpr ⟨within, fun u step => closed t here u step⟩
        have still : ∀ a ∈ t :: found, ∀ u ∈ next a, u ∈ t :: found ∨ u ∈ queue ++ next t := by
          intro a member u step
          rcases List.mem_cons.mp member with rfl | member
          · exact .inr (List.mem_append_right _ step)
          · rcases expanded a member u step with before | queued
            · exact .inl (List.mem_cons_of_mem _ before)
            · rcases List.mem_cons.mp queued with rfl | queued
              · exact .inl List.mem_cons_self
              · exact .inr (List.mem_append_left _ queued)
        obtain ⟨keeps, finds, closes⟩ := ih wider (by rw [List.length_append]; omega) still
        refine ⟨fun a member => keeps (List.mem_cons_of_mem _ member), ?_, closes⟩
        exact List.cons_subset.mpr ⟨keeps List.mem_cons_self,
          fun a member => finds (List.mem_append_left _ member)⟩

end Reach

/-! ## Edges of a sound hierarchy -/

section Edges

variable {h : Hierarchy} {ids : List DeclId} {d e : DeclId} {t u : Ty}

theorem superclass_of_head (head : t.head? = some d) : h.superclass t = h.superclass (.decl d) := by
  cases t <;> cases head <;> rfl

theorem interfaces_of_head (head : t.head? = some d) : h.interfaces t = h.interfaces (.decl d) := by
  cases t <;> cases head <;> rfl

theorem supertypes_of_head (head : t.head? = some d) : h.supertypes t = h.supertypes (.decl d) := by
  cases t <;> cases head <;> rfl

def SuperEdge (h : Hierarchy) (d e : DeclId) : Prop :=
  ∃ t, h.superclass (.decl d) = some t ∧ t.head? = some e

def InterfaceEdge (h : Hierarchy) (d e : DeclId) : Prop :=
  ∃ t ∈ h.interfaces (.decl d), t.head? = some e

theorem edge_iff : h.Edge d e ↔ h.SuperEdge d e ∨ h.InterfaceEdge d e := by
  unfold Edge SuperEdge InterfaceEdge supertypes
  simp only [List.mem_append, Option.mem_toList]
  grind

theorem reaches_of_superPath (path : Relation.ReflTransGen h.SuperEdge d e) : h.Reaches d e :=
  path.lift id fun _ _ edge => edge_iff.mpr (.inl edge)

theorem Sound.edge_mem (sound : h.Sound ids) (edge : h.Edge d e) : e ∈ ids := by
  obtain ⟨t, written, head⟩ := edge
  obtain ⟨formed, -⟩ := (sound.decls d).supertype sound.arity_object written
  obtain ⟨k, known⟩ := formed.head head
  exact (arity_eq_some.mp known).1

/-- A direct supertype is formed over the parameters of the declaration and is one edge away. -/
theorem Sound.supertype (sound : h.Sound ids) (head : t.head? = some d)
    (written : u ∈ h.supertypes t) :
    u.Formed (h.arity ids) (.of (h.params d)) ∧ ∃ e, u.head? = some e ∧ h.Edge d e := by
  rw [supertypes_of_head head] at written
  obtain ⟨formed, e, above⟩ := (sound.decls d).supertype sound.arity_object written
  exact ⟨formed, e, above, u, written, above⟩

theorem Sound.isInterface_object (sound : h.Sound ids) : h.isInterface .object = false := by
  rw [isInterface_of_head (d := .object) rfl, sound.root]
  rfl

/-- Everything but the root has a superclass, which is a class. -/
theorem Sound.superclass (sound : h.Sound ids) (notRoot : d ≠ .object) :
    ∃ u e, h.superclass (.decl d) = some u ∧ u.head? = some e ∧ h.isInterface u = false := by
  unfold Hierarchy.superclass
  simp only [if_neg notRoot]
  cases above : (h.content d).super with
  | none => exact ⟨.object, .object, rfl, rfl, sound.isInterface_object⟩
  | some u =>
    obtain ⟨-, ⟨e, head⟩, isClass⟩ := (sound.decls d).super u above
    exact ⟨u, e, rfl, head, isClass⟩

theorem Sound.not_edge_object (sound : h.Sound ids) : ¬ h.Edge .object e := by
  rintro ⟨t, written, -⟩
  have none := sound.supertypes_object
  unfold Ty.object at none
  rw [none] at written
  cases written

theorem Sound.eq_object_of_reaches (sound : h.Sound ids) (reaches : h.Reaches .object e) :
    e = .object := by
  rcases reaches.cases_head with rfl | ⟨c, edge, -⟩
  · rfl
  · exact absurd edge sound.not_edge_object

theorem Sound.isClass_of_superEdge (sound : h.Sound ids) (edge : h.SuperEdge d e) :
    h.isInterface (.decl e) = false := by
  obtain ⟨t, above, head⟩ := edge
  have notRoot : d ≠ .object := by
    rintro rfl
    exact sound.not_edge_object (edge_iff.mpr (.inl ⟨t, above, head⟩))
  obtain ⟨u, f, here, -, isClass⟩ := sound.superclass notRoot
  rw [here] at above
  cases above
  rw [isInterface_of_head head] at isClass
  exact isClass

theorem Sound.isInterface_of_interfaceEdge (sound : h.Sound ids) (edge : h.InterfaceEdge d e) :
    h.isInterface (.decl e) = true := by
  obtain ⟨t, written, head⟩ := edge
  obtain ⟨-, isInterface⟩ := (sound.decls d).interfaces t written
  rw [isInterface_of_head head] at isInterface
  exact isInterface

/-- An interface has no superclass but the root. -/
theorem Sound.superEdge_of_interface (sound : h.Sound ids)
    (isInterface : h.isInterface (.decl d) = true) (edge : h.SuperEdge d e) : e = .object := by
  obtain ⟨t, above, head⟩ := edge
  have none := (sound.decls d).rooted (by simpa [Hierarchy.isInterface, Ty.head?] using isInterface)
  simp only [Hierarchy.superclass, none] at above
  split at above
  · cases above
  · cases above
    cases head
    rfl

end Edges

/-! ## Heights -/

section Height

variable {h : Hierarchy} {ids : List DeclId} {d e : DeclId}

open Classical in
/-- How many declarations are reached. It bounds every climb, since it falls at each step. -/
noncomputable def height (h : Hierarchy) (ids : List DeclId) (d : DeclId) : Nat :=
  (ids.filter fun e => h.Reaches d e).length

theorem Sound.length_ids (sound : h.Sound ids) : ids.length = h.decls.size := by
  rw [← List.length_map (f := DeclId.index), sound.indices, List.length_range]

theorem Sound.height_le (sound : h.Sound ids) : h.height ids d ≤ h.decls.size := by
  rw [← sound.length_ids]
  exact List.length_filter_le _ _

theorem Sound.height_lt (sound : h.Sound ids) (member : d ∈ ids) (edge : h.Edge d e) :
    h.height ids e < h.height ids d := by
  classical
  unfold height
  have narrower : ids.filter (fun f => decide (h.Reaches e f)) =
      (ids.filter fun f => decide (h.Reaches d f)).filter fun f => decide (h.Reaches e f) := by
    rw [List.filter_filter]
    refine List.filter_congr ?_
    intro f _
    have further : h.Reaches e f → h.Reaches d f := fun above => .head edge above
    by_cases above : h.Reaches e f
    · simp [above, further above]
    · simp [above]
  rw [narrower]
  refine List.length_filter_lt_length_iff_exists.mpr ⟨d, ?_, ?_⟩
  · exact List.mem_filter.mpr ⟨member, decide_eq_true .refl⟩
  · intro back
    exact sound.acyclic d (.head' edge (of_decide_eq_true back))

/-- Everything is below the root. -/
theorem Sound.reaches_object (sound : h.Sound ids) (member : d ∈ ids) : h.Reaches d .object := by
  induction height : h.height ids d using Nat.strongRecOn generalizing d with
  | ind n ih =>
    by_cases isRoot : d = .object
    · rw [isRoot]
      exact .refl
    · obtain ⟨u, e, above, head, -⟩ := sound.superclass isRoot
      have edge : h.Edge d e := edge_iff.mpr (.inl ⟨u, above, head⟩)
      exact .head edge (ih _ (height ▸ sound.height_lt member edge) (sound.edge_mem edge) rfl)

/-- From an interface only interfaces are reached, and the root. -/
theorem Sound.reaches_of_interface (sound : h.Sound ids)
    (isInterface : h.isInterface (.decl d) = true) (reaches : h.Reaches d e) :
    e = .object ∨ (Relation.ReflTransGen h.InterfaceEdge d e ∧ h.isInterface (.decl e) = true) := by
  induction reaches with
  | refl => exact .inr ⟨.refl, isInterface⟩
  | tail _ edge ih =>
    rcases ih with rfl | ⟨path, isInterface⟩
    · exact absurd edge sound.not_edge_object
    · rcases edge_iff.mp edge with super | interface
      · exact .inl (sound.superEdge_of_interface isInterface super)
      · exact .inr ⟨path.tail interface, sound.isInterface_of_interfaceEdge interface⟩

/-- A class other than the root is reached along superclasses alone. -/
theorem Sound.superPath_of_class (sound : h.Sound ids) (reaches : h.Reaches d e)
    (isClass : h.isInterface (.decl e) = false) (notRoot : e ≠ .object) :
    Relation.ReflTransGen h.SuperEdge d e := by
  induction reaches using Relation.ReflTransGen.head_induction_on with
  | refl => exact .refl
  | head edge above ih =>
    rcases edge_iff.mp edge with super | interface
    · exact .head super ih
    · rcases sound.reaches_of_interface (sound.isInterface_of_interfaceEdge interface) above with
        root | ⟨-, isInterface⟩
      · exact absurd root notRoot
      · rw [isClass] at isInterface
        cases isInterface

/-- A proper superinterface is reached along superclasses and then along interfaces alone. -/
theorem Sound.path_of_interface (sound : h.Sound ids) (reaches : h.Reaches d e)
    (isInterface : h.isInterface (.decl e) = true) (proper : d ≠ e) :
    ∃ c f, Relation.ReflTransGen h.SuperEdge d c ∧ h.InterfaceEdge c f ∧
      Relation.ReflTransGen h.InterfaceEdge f e := by
  induction reaches using Relation.ReflTransGen.head_induction_on with
  | refl => exact absurd rfl proper
  | @head d x edge above ih =>
    rcases edge_iff.mp edge with super | interface
    · have apart : x ≠ e := by
        rintro rfl
        rw [sound.isClass_of_superEdge super] at isInterface
        cases isInterface
      obtain ⟨c, f, supers, interface, interfaces⟩ := ih apart
      exact ⟨c, f, .head super supers, interface, interfaces⟩
    · rcases sound.reaches_of_interface (sound.isInterface_of_interfaceEdge interface) above with
        rfl | ⟨path, -⟩
      · have root := sound.isInterface_object
        unfold Ty.object at root
        rw [root] at isInterface
        cases isInterface
      · exact ⟨d, x, .refl, interface, path⟩

end Height

/-! ## The superclass chain and all interfaces -/

section Lineage

variable {h : Hierarchy} {ids : List DeclId} {d e : DeclId} {t u : Ty}

theorem Sound.lineage_sound (sound : h.Sound ids) {fuel : Nat} (head : t.head? = some d)
    (member : u ∈ h.lineageWithin fuel t) :
    ∃ e, u.head? = some e ∧ Relation.ReflTransGen h.SuperEdge d e := by
  induction fuel generalizing t d with
  | zero => cases member
  | succ fuel ih =>
    unfold lineageWithin at member
    cases above : h.superclass t with
    | none =>
      rw [above] at member
      rw [List.mem_singleton.mp member]
      exact ⟨d, head, .refl⟩
    | some s =>
      rw [above] at member
      rcases List.mem_cons.mp member with rfl | member
      · exact ⟨d, head, .refl⟩
      · have written : s ∈ h.supertypes t :=
          List.mem_append_left _ (Option.mem_toList.mpr above)
        obtain ⟨-, c, next, -⟩ := sound.supertype head written
        obtain ⟨e, here, path⟩ := ih next member
        rw [superclass_of_head head] at above
        exact ⟨e, here, .head ⟨s, above, next⟩ path⟩

theorem Sound.lineage_complete (sound : h.Sound ids) {fuel : Nat} (head : t.head? = some d)
    (member : d ∈ ids) (enough : h.height ids d < fuel)
    (path : Relation.ReflTransGen h.SuperEdge d e) :
    ∃ u ∈ h.lineageWithin fuel t, u.head? = some e := by
  induction path using Relation.ReflTransGen.head_induction_on generalizing fuel t with
  | refl =>
    obtain ⟨fuel, rfl⟩ := Nat.exists_eq_succ_of_ne_zero (Nat.ne_zero_of_lt enough)
    refine ⟨t, ?_, head⟩
    unfold lineageWithin
    split <;> simp
  | @head d x edge _ ih =>
    obtain ⟨fuel, rfl⟩ := Nat.exists_eq_succ_of_ne_zero (Nat.ne_zero_of_lt enough)
    have step : h.Edge d x := edge_iff.mpr (.inl edge)
    obtain ⟨s, above, next⟩ := edge
    have lower : h.height ids x < fuel :=
      Nat.lt_of_lt_of_le (sound.height_lt member step) (Nat.le_of_lt_succ enough)
    obtain ⟨u, found, here⟩ := ih next (sound.edge_mem step) lower
    refine ⟨u, ?_, here⟩
    unfold lineageWithin
    rw [superclass_of_head head, above]
    exact List.mem_cons_of_mem _ found

theorem Sound.height_lt_budget (sound : h.Sound ids) (w : Nat) : h.height ids d < h.budget w := by
  have := sound.height_le (d := d)
  have := h.size_le_weight
  have := h.weight_lt_budget w
  omega

theorem length_le_weights (ts : List Ty) : ts.length ≤ Ty.weights ts := by
  induction ts with
  | nil => simp [Ty.weights]
  | cons t ts ih =>
    have := t.weight_pos
    simp only [List.length_cons, Ty.weights]
    omega

/-- Whatever every declaration brings, all together bring no more than the hierarchy weighs. -/
theorem Sound.pending_le {α : Type} [DecidableEq α] (sound : h.Sound ids) (node : DeclId → α)
    {f : α → Nat} (light : ∀ d, f (node d) ≤ (h.content d).weight) :
    pending f (ids.map node) [] ≤ h.weight := by
  have contents : ids.map h.content = h.decls.toList := by
    have indexed : ids.map h.content = (ids.map DeclId.index).map fun i => h.decls.getD i {} := by
      rw [List.map_map]
      rfl
    rw [indexed, sound.indices]
    refine List.ext_getElem (by simp) ?_
    intro i _ inside
    have inside : i < h.decls.size := by simpa using inside
    simp [Array.getD_eq_getD_getElem?, inside]
  rw [h.weight_eq, ← contents]
  clear contents sound
  induction ids with
  | nil => exact Nat.le_refl 0
  | cons d ids ih =>
    simp only [List.map_cons, pending, List.not_mem_nil, if_false, Decl.weights]
    exact Nat.add_le_add (light d) ih

/-- All written supertypes together are no more than the hierarchy weighs. -/
theorem Sound.pending_supertypes_le (sound : h.Sound ids) :
    pending (fun e => (h.supertypes (.decl e)).length) ids [] ≤ h.weight := by
  have light : ∀ e, (h.supertypes (.decl e)).length ≤ (h.content e).weight := by
    intro e
    have interfaces := length_le_weights (h.content e).interfaces
    have super : (h.superclass (.decl e)).toList.length ≤ 1 := Option.length_toList_le
    simp only [supertypes, List.length_append, Hierarchy.interfaces, Decl.weight]
    omega
  have total := sound.pending_le (f := fun e => (h.supertypes (.decl e)).length) id light
  rwa [List.map_id] at total

/-- How a walk over interfaces goes on from a declaration. -/
theorem Sound.mem_nextInterfaces (sound : h.Sound ids) {x : Ty} :
    x ∈ (h.interfaces (.decl d)).map h.declaration ↔ ∃ e, x = .decl e ∧ h.InterfaceEdge d e := by
  constructor
  · intro member
    obtain ⟨t, written, rfl⟩ := List.mem_map.mp member
    obtain ⟨-, isInterface⟩ := (sound.decls d).interfaces t written
    obtain ⟨e, head⟩ := head_of_isInterface isInterface
    exact ⟨e, sound.direct.declaration head, t, written, head⟩
  · rintro ⟨e, rfl, t, written, head⟩
    exact List.mem_map.mpr ⟨t, written, sound.direct.declaration head⟩

/-- A walk that has steps enough for all the nodes it may meet finds what is reached from its
queue. -/
theorem mem_reachDeclarations_iff {next : Ty → List Ty} {nodes queue : List Ty}
    (closed : ∀ x ∈ nodes, ∀ y ∈ (next x).map h.declaration, y ∈ nodes)
    (within : queue.map h.declaration ⊆ nodes)
    (enough : (queue.map h.declaration).length +
      pending (fun x => ((next x).map h.declaration).length) nodes [] ≤
        h.budget (Ty.weights queue)) :
    u ∈ h.reachDeclarations next queue ↔ ∃ q ∈ queue,
      Relation.ReflTransGen (fun a b => b ∈ (next a).map h.declaration) (h.declaration q) u := by
  rw [reachDeclarations_eq]
  constructor
  · intro member
    rcases reach_sound member with before | ⟨q, first, path⟩
    · cases before
    · obtain ⟨w, queued, rfl⟩ := List.mem_map.mp first
      exact ⟨w, queued, path⟩
  · rintro ⟨q, queued, path⟩
    obtain ⟨-, finds, closes⟩ :=
      reach_complete closed within enough fun _ none => (List.not_mem_nil none).elim
    induction path with
    | refl => exact finds (List.mem_map_of_mem queued)
    | tail _ step ih => exact closes _ ih _ step

/-- A walk over declarations along `E` has steps enough when each of them goes on to no more than it
weighs, and so finds all that is reached from its queue. -/
theorem Sound.mem_reachDeclarations (sound : h.Sound ids) {next : Ty → List Ty}
    {E : DeclId → DeclId → Prop}
    (steps : ∀ d x, x ∈ (next (.decl d)).map h.declaration ↔ ∃ e, x = .decl e ∧ E d e)
    (listed : ∀ d e, E d e → e ∈ ids)
    (light : ∀ d, (next (.decl d)).length ≤ (h.content d).weight) {queue : List Ty}
    (queued : ∀ w ∈ queue, ∃ f ∈ ids, h.declaration w = .decl f) :
    u ∈ h.reachDeclarations next queue ↔
      ∃ w ∈ queue, ∃ f e, h.declaration w = .decl f ∧ u = .decl e ∧
        Relation.ReflTransGen E f e := by
  have closed : ∀ x ∈ ids.map Ty.decl, ∀ y ∈ (next x).map h.declaration, y ∈ ids.map Ty.decl := by
    intro x known y step
    obtain ⟨g, -, rfl⟩ := List.mem_map.mp known
    obtain ⟨e, rfl, edge⟩ := (steps g y).mp step
    exact List.mem_map.mpr ⟨e, listed g e edge, rfl⟩
  have within : queue.map h.declaration ⊆ ids.map Ty.decl := by
    intro x known
    obtain ⟨w, inQueue, rfl⟩ := List.mem_map.mp known
    obtain ⟨f, member, isDecl⟩ := queued w inQueue
    exact isDecl ▸ List.mem_map.mpr ⟨f, member, rfl⟩
  have enough : (queue.map h.declaration).length +
      pending (fun x => ((next x).map h.declaration).length) (ids.map .decl) [] ≤
        h.budget (Ty.weights queue) := by
    have := sound.pending_le (f := fun x => ((next x).map h.declaration).length) Ty.decl
      fun d => by
        rw [List.length_map]
        exact light d
    have := length_le_weights queue
    have := h.weight_lt_budget (Ty.weights queue)
    rw [List.length_map]
    omega
  rw [mem_reachDeclarations_iff closed within enough]
  constructor
  · rintro ⟨w, inQueue, path⟩
    obtain ⟨f, -, isDecl⟩ := queued w inQueue
    refine ⟨w, inQueue, f, ?_⟩
    rw [isDecl] at path
    -- a path that starts at a declaration meets declarations only
    induction path with
    | refl => exact ⟨f, isDecl, rfl, .refl⟩
    | tail _ step ih =>
      obtain ⟨g, -, rfl, above⟩ := ih
      obtain ⟨e, rfl, edge⟩ := (steps g _).mp step
      exact ⟨e, isDecl, rfl, above.tail edge⟩
  · rintro ⟨w, inQueue, f, e, isDecl, rfl, path⟩
    refine ⟨w, inQueue, ?_⟩
    rw [isDecl]
    exact path.lift Ty.decl fun d e edge => (steps d _).mpr ⟨e, rfl, edge⟩

/-- The interfaces of a declaration are walked along interface edges. -/
theorem Sound.mem_reachInterfaces (sound : h.Sound ids) {queue : List Ty}
    (queued : ∀ w ∈ queue, ∃ f ∈ ids, h.declaration w = .decl f) :
    u ∈ h.reachDeclarations h.interfaces queue ↔
      ∃ w ∈ queue, ∃ f e, h.declaration w = .decl f ∧ u = .decl e ∧
        Relation.ReflTransGen h.InterfaceEdge f e := by
  refine sound.mem_reachDeclarations (fun _ _ => sound.mem_nextInterfaces)
    (fun _ _ edge => sound.edge_mem (edge_iff.mpr (.inr edge))) ?_ queued
  intro d
  have := length_le_weights (h.content d).interfaces
  simp only [interfaces, Decl.weight]
  omega

/-- What a superclass implements is one step above it. -/
theorem Sound.mem_lineage_interfaces (sound : h.Sound ids) (head : t.head? = some d) {w : Ty}
    (written : w ∈ (h.lineage t).flatMap h.interfaces) :
    ∃ c f, Relation.ReflTransGen h.SuperEdge d c ∧ h.InterfaceEdge c f ∧
      h.declaration w = .decl f := by
  obtain ⟨v, chain, written⟩ := List.mem_flatMap.mp written
  obtain ⟨c, here, supers⟩ := sound.lineage_sound head chain
  rw [interfaces_of_head here] at written
  obtain ⟨f, isDecl, edge⟩ := sound.mem_nextInterfaces.mp (List.mem_map.mpr ⟨w, written, rfl⟩)
  exact ⟨c, f, supers, edge, isDecl⟩

theorem Sound.queued_interfaces (sound : h.Sound ids) (head : t.head? = some d) :
    ∀ w ∈ (h.lineage t).flatMap h.interfaces, ∃ f ∈ ids, h.declaration w = .decl f := by
  intro w written
  obtain ⟨c, f, -, edge, isDecl⟩ := sound.mem_lineage_interfaces head written
  exact ⟨f, sound.edge_mem (edge_iff.mpr (.inr edge)), isDecl⟩

theorem Sound.allInterfaces_sound (sound : h.Sound ids) (head : t.head? = some d)
    (member : u ∈ h.allInterfaces t) :
    ∃ e, u = .decl e ∧ h.isInterface (.decl e) = true ∧ Relation.TransGen h.Edge d e := by
  obtain ⟨w, written, f, e, isDecl, rfl, path⟩ :=
    (sound.mem_reachInterfaces (sound.queued_interfaces head)).mp member
  obtain ⟨c, f', supers, edge, isDecl'⟩ := sound.mem_lineage_interfaces head written
  rw [isDecl] at isDecl'
  cases isDecl'
  have first : Relation.TransGen h.Edge d f :=
    .tail' (reaches_of_superPath supers) (edge_iff.mpr (.inr edge))
  clear member
  induction path with
  | refl => exact ⟨f, rfl, sound.isInterface_of_interfaceEdge edge, first⟩
  | tail _ step ih =>
    obtain ⟨g, same, -, above⟩ := ih
    cases same
    exact ⟨_, rfl, sound.isInterface_of_interfaceEdge step, above.tail (edge_iff.mpr (.inr step))⟩

theorem Sound.allInterfaces_complete (sound : h.Sound ids) (head : t.head? = some d)
    (member : d ∈ ids) (reaches : h.Reaches d e) (isInterface : h.isInterface (.decl e) = true)
    (proper : d ≠ e) : .decl e ∈ h.allInterfaces t := by
  obtain ⟨c, f, supers, ⟨w, written, next⟩, path⟩ :=
    sound.path_of_interface reaches isInterface proper
  obtain ⟨u, chain, here⟩ :=
    sound.lineage_complete head member (sound.height_lt_budget t.weight) supers
  refine (sound.mem_reachInterfaces (sound.queued_interfaces head)).mpr
    ⟨w, List.mem_flatMap.mpr ⟨u, chain, ?_⟩, f, e, sound.direct.declaration next, rfl, path⟩
  rw [interfaces_of_head here]
  exact written

end Lineage

end Hierarchy

theorem Ty.is_iff {t u : Ty} {d e : DeclId} (head : t.head? = some d) (head' : u.head? = some e) :
    t.is u = true ↔ d = e := by
  cases t <;> cases head <;> cases u <;> cases head' <;> simp [Ty.is, Ty.head?]

theorem Ty.isRoot_iff {t : Ty} {d : DeclId} (head : t.head? = some d) :
    t.isRoot = true ↔ d = .object := by
  unfold Ty.isRoot
  rw [head]
  simp

theorem Ty.is_eq_false {t u : Ty} {d e : DeclId} (head : t.head? = some d)
    (head' : u.head? = some e) (apart : d ≠ e) : t.is u = false :=
  Bool.eq_false_iff.mpr (mt (Ty.is_iff head head').mp apart)

theorem Ty.isRoot_eq_false {t : Ty} {d : DeclId} (head : t.head? = some d) (apart : d ≠ .object) :
    t.isRoot = false :=
  Bool.eq_false_iff.mpr (mt (Ty.isRoot_iff head).mp apart)

/-- Nothing is declared as a union. -/
theorem Hierarchy.Sound.isUnion_eq_false {h : Hierarchy} {ids : List DeclId} (sound : h.Sound ids)
    (t : Ty) : h.isUnion t = false := by
  unfold Hierarchy.isUnion
  cases t.head? with
  | none => rfl
  | some d => simpa using (sound.decls d).noUnion

namespace Context

/-! ## The subtype test -/

section Subtype

variable {Γ : Context} {ids : List DeclId} {d e : DeclId} {t u : Ty}

theorem derives_iff (sound : Γ.hierarchy.Sound ids) (head : t.head? = some d)
    (head' : u.head? = some e) (member : d ∈ ids) (proper : d ≠ e) :
    Γ.derives t u = true ↔ Relation.ReflTransGen Γ.hierarchy.SuperEdge d e := by
  unfold derives
  rw [List.any_eq_true]
  constructor
  · rintro ⟨s, chain, same⟩
    obtain ⟨c, here, path⟩ := sound.lineage_sound head (List.mem_of_mem_tail chain)
    rw [Ty.is_iff here head'] at same
    exact same ▸ path
  · intro path
    obtain ⟨s, chain, here⟩ :=
      sound.lineage_complete head member (sound.height_lt_budget t.weight) path
    refine ⟨s, ?_, (Ty.is_iff here head').mpr rfl⟩
    -- only the first of the chain is `t`
    have first : ∃ rest, Γ.hierarchy.lineage t = t :: rest := by
      unfold Hierarchy.lineage
      obtain ⟨fuel, enough⟩ := Nat.exists_eq_succ_of_ne_zero
        (Nat.ne_zero_of_lt (Γ.hierarchy.weight_lt_budget t.weight))
      rw [enough]
      unfold Hierarchy.lineageWithin
      split <;> exact ⟨_, rfl⟩
    obtain ⟨rest, first⟩ := first
    change s ∈ Γ.hierarchy.lineage t at chain
    rw [first] at chain ⊢
    rcases List.mem_cons.mp chain with rfl | chain
    · rw [head] at here
      cases here
      exact absurd rfl proper
    · exact chain

theorem implements_iff (sound : Γ.hierarchy.Sound ids) (head : t.head? = some d)
    (head' : u.head? = some e) (member : d ∈ ids) (proper : d ≠ e) :
    Γ.implements t u = true ↔ Γ.hierarchy.isInterface u = true ∧ Γ.hierarchy.Reaches d e := by
  unfold implements
  rw [Bool.and_eq_true, List.any_eq_true]
  refine and_congr_right fun isInterface => ?_
  constructor
  · rintro ⟨s, listed, same⟩
    obtain ⟨c, rfl, -, above⟩ := sound.allInterfaces_sound head listed
    rw [Ty.is_iff head' rfl] at same
    exact same ▸ above.to_reflTransGen
  · intro reaches
    rw [Hierarchy.isInterface_of_head head'] at isInterface
    exact ⟨.decl e, sound.allInterfaces_complete head member reaches isInterface proper,
      (Ty.is_iff head' rfl).mpr rfl⟩

/-- A declaration above is found on the superclass chain or among the interfaces. -/
theorem derives_or_implements (sound : Γ.hierarchy.Sound ids) (head : t.head? = some d)
    (head' : u.head? = some e) (member : d ∈ ids) (reaches : Γ.hierarchy.Reaches d e)
    (proper : d ≠ e) (notRoot : e ≠ .object) : Γ.derives t u = true ∨ Γ.implements t u = true := by
  rw [derives_iff sound head head' member proper, implements_iff sound head head' member proper]
  cases isInterface : Γ.hierarchy.isInterface u with
  | true => exact .inr ⟨rfl, reaches⟩
  | false =>
    rw [Hierarchy.isInterface_of_head head'] at isInterface
    exact .inl (sound.superPath_of_class reaches isInterface notRoot)

/-- One level of the test, on class types. -/
theorem subtypeStep_class {below : Ty → Ty → Bool} (head : t.head? = some d)
    (head' : u.head? = some e) : Γ.subtypeStep below t u =
      if t.is u || u.isRoot then true
      else if Γ.derives t u || Γ.implements t u || Γ.willImplement t u then true
      else if Γ.hierarchy.isUnion u then (Γ.hierarchy.supertypes u).all (below t)
      else false := by
  unfold subtypeStep
  cases t <;> cases head <;> cases u <;> cases head' <;> rfl

/-- On class types the subtype test is reachability along written supertypes. -/
theorem subtypeWithin_class (unmarked : Γ.marker = "") (sound : Γ.hierarchy.Sound ids) (fuel : Nat)
    (head : t.head? = some d) (head' : u.head? = some e) (member : d ∈ ids) :
    Γ.subtypeWithin (fuel + 1) t u = true ↔ Γ.hierarchy.Reaches d e := by
  have noMarker : Γ.willImplement t u = false := by simp [willImplement, unmarked]
  unfold subtypeWithin
  rw [subtypeStep_class head head', noMarker, sound.isUnion_eq_false]
  by_cases same : d = e
  · subst same
    simp [(Ty.is_iff head head').mpr rfl, show Γ.hierarchy.Reaches d d from .refl]
  · by_cases root : e = .object
    · subst root
      simp [(Ty.isRoot_iff head').mpr rfl, sound.reaches_object member]
    · simp only [Ty.is_eq_false head head' same, Ty.isRoot_eq_false head' root, Bool.or_false,
        Bool.false_eq_true, if_false]
      rw [ite_eq_left_iff, Bool.or_eq_true]
      constructor
      · intro test
        by_contra unreached
        refine absurd (test ?_) Bool.false_ne_true
        rw [derives_iff sound head head' member same, implements_iff sound head head' member same]
        rintro (path | ⟨-, reaches⟩)
        · exact unreached (Hierarchy.reaches_of_superPath path)
        · exact unreached reaches
      · intro reaches test
        exact absurd (derives_or_implements sound head head' member reaches same root) test

theorem isSubtype_class (unmarked : Γ.marker = "") (sound : Γ.hierarchy.Sound ids)
    (head : t.head? = some d) (head' : u.head? = some e) (member : d ∈ ids) :
    Γ.isSubtype t u = true ↔ Γ.hierarchy.Reaches d e := by
  unfold isSubtype
  obtain ⟨fuel, enough⟩ := Nat.exists_eq_succ_of_ne_zero
    (Nat.ne_zero_of_lt (Γ.hierarchy.weight_lt_budget (t.weight + u.weight)))
  rw [enough]
  exact subtypeWithin_class unmarked sound fuel head head' member

/-! ## The next supertype on the way up -/

/-- A type properly below a declaration has a direct supertype that is still below it, as long as
the subtype test tells which of them are. -/
theorem nextSupertype_of_tested (sound : Γ.hierarchy.Sound ids) (head : t.head? = some d)
    (tested : ∀ w ∈ Γ.hierarchy.supertypes t, ∀ c, w.head? = some c →
      (Γ.isSubtype w (.decl e) = true ↔ Γ.hierarchy.Reaches c e))
    (reaches : Γ.hierarchy.Reaches d e) (proper : d ≠ e) :
    ∃ w c, Γ.nextSupertype t (.decl e) = some w ∧
      w ∈ Γ.hierarchy.supertypes t ∧ w.head? = some c ∧ Γ.hierarchy.Reaches c e := by
  have notRoot : d ≠ .object := by
    rintro rfl
    exact proper (sound.eq_object_of_reaches reaches).symm
  have test : ∀ w ∈ Γ.hierarchy.supertypes t, ∃ c, w.head? = some c ∧
      (Γ.isSubtype w (.decl e) = true ↔ Γ.hierarchy.Reaches c e) := by
    intro w written
    obtain ⟨-, c, above, -⟩ := sound.supertype head written
    exact ⟨c, above, tested w written c above⟩
  obtain ⟨s, c, super, above, -⟩ := sound.superclass notRoot
  have superMember : s ∈ Γ.hierarchy.supertypes t :=
    List.mem_append_left _
      (Option.mem_toList.mpr (by rw [Hierarchy.superclass_of_head head, super]))
  unfold nextSupertype
  simp only [Ty.isRoot_eq_false head notRoot, Bool.false_eq_true, if_false]
  split
  · -- an interface was found below the goal
    rename_i i found
    split at found
    · have written : i ∈ Γ.hierarchy.supertypes t :=
        List.mem_append_right _ (List.mem_of_find?_eq_some found)
      obtain ⟨c, above, iff⟩ := test i written
      have passed := List.find?_some found
      exact ⟨i, c, rfl, written, above, iff.mp passed⟩
    · cases found
  · -- otherwise the superclass is below it
    rename_i notFound
    obtain ⟨c', above', iff⟩ := test s superMember
    rw [above] at above'
    cases above'
    have below : Γ.hierarchy.Reaches c e := by
      obtain ⟨x, edge, rest⟩ := (reaches.cases_head).resolve_left proper
      rcases Hierarchy.edge_iff.mp edge with ⟨s', super', here⟩ | interface
      · rw [super] at super'
        cases super'
        rw [above] at here
        cases here
        exact rest
      · -- from an interface the way leads to the root or to interfaces, and none was found
        have isInterface := sound.isInterface_of_interfaceEdge interface
        obtain ⟨i, written, here⟩ := interface
        rcases sound.reaches_of_interface isInterface rest with rfl | ⟨-, goal⟩
        · exact sound.reaches_object (sound.edge_mem ⟨s, by
            rw [← Hierarchy.supertypes_of_head head]; exact superMember, above⟩)
        · rw [if_pos goal, List.find?_eq_none] at notFound
          rw [← Hierarchy.interfaces_of_head head] at written
          obtain ⟨c', here', iff⟩ := test i (List.mem_append_right _ written)
          rw [here] at here'
          cases here'
          exact absurd (iff.mpr rest) (notFound i written)
    refine ⟨s, c, ?_, superMember, above, below⟩
    rw [Hierarchy.superclass_of_head head, super, Option.filter_some, if_pos (iff.mpr below)]

theorem nextSupertype_spec (unmarked : Γ.marker = "") (sound : Γ.hierarchy.Sound ids)
    (head : t.head? = some d) (reaches : Γ.hierarchy.Reaches d e) (proper : d ≠ e) :
    ∃ w c, Γ.nextSupertype t (.decl e) = some w ∧
      w ∈ Γ.hierarchy.supertypes t ∧ w.head? = some c ∧ Γ.hierarchy.Reaches c e := by
  refine nextSupertype_of_tested sound head ?_ reaches proper
  intro w written c above
  obtain ⟨-, c', above', edge⟩ := sound.supertype head written
  rw [above] at above'
  cases above'
  exact isSubtype_class unmarked sound above rfl (sound.edge_mem edge)

end Subtype

end Context

end NominalGenerics
