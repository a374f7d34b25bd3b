import Mathlib.Data.List.Perm.Subperm
import Mathlib.Logic.Relation
import NominalGenerics.ClassModel.Load
import NominalGenerics.Proofs.Reading

/-!
# The supertype graph has no cycles

Loading visits every new declaration and its supertypes depth first. A visit that succeeds leaves
the visited declarations in an order where supertypes come first (`Finished`), so going up from each
of them comes to an end; one that fails has met a declaration above itself (`visit_error`). A visit
has steps enough: the path it came through repeats nothing, so it is no longer than there are nodes
to go through. Hence the check passes exactly when going up comes to an end (`checkAcyclic_iff`).
-/

namespace NominalGenerics

namespace Hierarchy

/-- The declaration of one of the supertypes of `d`. -/
def Edge (h : Hierarchy) (d e : DeclId) : Prop := ∃ t ∈ h.supertypes (.decl d), t.head? = some e

def Reaches (h : Hierarchy) : DeclId → DeclId → Prop := Relation.ReflTransGen h.Edge

def Acyclic (h : Hierarchy) : Prop := ∀ d, ¬ Relation.TransGen h.Edge d d

/-- Every declaration is its own: none stands for another type. -/
def Direct (h : Hierarchy) : Prop := ∀ d, (h.content d).standsFor = none

theorem Direct.declaration {h : Hierarchy} (direct : h.Direct) {t : Ty} {d : DeclId}
    (head : t.head? = some d) : h.declaration t = .decl d := by
  unfold Hierarchy.declaration
  rw [head]
  simp [direct d]

/-- The same edges between declarations as types, which is how a visit sees them. -/
def Above (h : Hierarchy) (a b : Ty) : Prop := ∃ s ∈ h.supertypes a, h.declaration s = b

/-- Going up from `t` comes to an end. -/
def Rooted (h : Hierarchy) (t : Ty) : Prop := Acc (fun b a => h.Above a b) t

theorem Rooted.not_above {h : Hierarchy} {t : Ty} (rooted : h.Rooted t) :
    ¬ Relation.TransGen h.Above t t := by
  induction rooted with
  | intro t _ ih =>
    intro cycle
    obtain ⟨b, step, back⟩ := Relation.TransGen.head'_iff.mp cycle
    exact ih b step (.tail' back step)

theorem Rooted.of_above {h : Hierarchy} {t u : Ty} (rooted : h.Rooted t)
    (above : Relation.ReflTransGen h.Above t u) : h.Rooted u := by
  induction above with
  | refl => exact rooted
  | tail _ step ih => exact ih.inv step

theorem Direct.above_of_edges {h : Hierarchy} (direct : h.Direct) {d e : DeclId}
    (edges : Relation.TransGen h.Edge d e) : Relation.TransGen h.Above (.decl d) (.decl e) := by
  refine edges.lift Ty.decl ?_
  rintro d e ⟨t, member, head⟩
  exact ⟨t, member, direct.declaration head⟩

end Hierarchy

namespace Library

/-! ## Finishing orders -/

/-- Each type once, and its supertypes after it. -/
def Finished (h : Hierarchy) : List Ty → Prop
  | [] => True
  | d :: rest => d ∉ rest ∧ (∀ s ∈ h.supertypes d, h.declaration s ∈ rest) ∧ Finished h rest

variable {h : Hierarchy}

theorem Finished.rooted {done : List Ty} (finished : Finished h done) {t : Ty}
    (member : t ∈ done) : h.Rooted t := by
  induction done generalizing t with
  | nil => cases member
  | cons d rest ih =>
    obtain ⟨-, first, later⟩ := finished
    rcases List.mem_cons.mp member with rfl | member
    · constructor
      rintro b ⟨s, above, rfl⟩
      exact ih later (first s above)
    · exact ih later member

/-! ## What a visit leaves behind -/

/-- A visit that came through `path` finished more declarations, none of them on the path. -/
structure Visits (h : Hierarchy) (path done done' : List Ty) : Prop where
  finished : Finished h done'
  grows : done ⊆ done'
  avoids : ∀ d ∈ path, d ∈ done' → d ∈ done

theorem Visits.refl {path done : List Ty} (finished : Finished h done) :
    Visits h path done done :=
  ⟨finished, fun _ member => member, fun _ _ member => member⟩

theorem Visits.trans {path a b c : List Ty} (first : Visits h path a b)
    (second : Visits h path b c) : Visits h path a c :=
  ⟨second.finished, fun _ member => second.grows (first.grows member),
    fun d onPath member => first.avoids d onPath (second.avoids d onPath member)⟩

/-- Visits made one after the other add up. -/
theorem visits_foldlM {α : Type} {path : List Ty} {f : List Ty → α → Except LoadError (List Ty)}
    {node : α → Ty} {items : List α} {done done' : List Ty}
    (each : ∀ a ∈ items, ∀ b b', Finished h b → f b a = .ok b' →
      Visits h path b b' ∧ node a ∈ b')
    (finished : Finished h done) (ok : items.foldlM f done = .ok done') :
    Visits h path done done' ∧ ∀ a ∈ items, node a ∈ done' := by
  induction items generalizing done with
  | nil =>
    cases ok
    refine ⟨.refl finished, ?_⟩
    intro a member
    cases member
  | cons a rest ih =>
    rw [List.foldlM_cons] at ok
    obtain ⟨between, first, ok⟩ := bind_eq_ok.mp ok
    obtain ⟨visited, here⟩ := each a List.mem_cons_self _ _ finished first
    obtain ⟨later, there⟩ :=
      ih (fun b member => each b (List.mem_cons_of_mem _ member)) visited.finished ok
    refine ⟨visited.trans later, ?_⟩
    intro b member
    rcases List.mem_cons.mp member with rfl | member
    · exact later.grows here
    · exact there b member

/-- A visit with steps for every declaration not on its path finishes what it visits. -/
theorem visit_sound {all : List Ty}
    (closed : ∀ d ∈ all, ∀ s ∈ h.supertypes d, h.declaration s ∈ all) {fuel : Nat}
    {path done done' : List Ty} {d : Ty} (nodup : path.Nodup) (within : path ⊆ all)
    (known : d ∈ all) (enough : all.length < fuel + path.length) (finished : Finished h done)
    (ok : visit h fuel path done d = .ok done') : Visits h path done done' ∧ d ∈ done' := by
  induction fuel generalizing path done done' d with
  | zero =>
    -- a path without repetitions is no longer than what it runs through
    have short : path.length ≤ all.length := (nodup.subperm within).length_le
    omega
  | succ fuel ih =>
    unfold visit at ok
    split at ok
    · rename_i member
      cases ok
      exact ⟨.refl finished, member⟩
    · rename_i notDone
      split at ok
      · cases ok
      · rename_i offPath
        obtain ⟨inner, folded, ok⟩ := bind_eq_ok.mp ok
        cases ok
        have step : ∀ s ∈ h.supertypes d, ∀ b b', Finished h b →
            visit h fuel (d :: path) b (h.declaration s) = .ok b' →
            Visits h (d :: path) b b' ∧ h.declaration s ∈ b' := by
          intro s written b b' finished visited
          have nodup := List.nodup_cons.mpr ⟨offPath, nodup⟩
          refine ih nodup ?_ (closed d known s written) ?_ finished visited
          · exact List.cons_subset.mpr ⟨known, within⟩
          · simp only [List.length_cons]
            omega
        obtain ⟨visited, supers⟩ := visits_foldlM step finished folded
        -- no visit from here comes back, since `d` is on the path of all of them
        have fresh : d ∉ inner := fun member =>
          notDone (visited.avoids d List.mem_cons_self member)
        refine ⟨⟨⟨fresh, supers, visited.finished⟩, ?_, ?_⟩, List.mem_cons_self⟩
        · exact fun _ member => List.mem_cons_of_mem _ (visited.grows member)
        · intro e onPath member
          rcases List.mem_cons.mp member with rfl | member
          · exact absurd onPath offPath
          · exact visited.avoids e (List.mem_cons_of_mem _ onPath) member

/-! ## Steps enough -/

end Library

mutual

/-- A type with all that can be met by going from a type parameter to its bounds. -/
def Ty.spine : Ty → List Ty
  | .param s n bs => .param s n bs :: Ty.spines bs
  | .decl d => [.decl d]
  | .bare s d => [.bare s d]
  | .app s d args => [.app s d args]
  | .array s e => [.array s e]

def Ty.spines : List Ty → List Ty
  | [] => []
  | t :: ts => t.spine ++ Ty.spines ts

end

theorem Ty.mem_spine (t : Ty) : t ∈ t.spine := by
  cases t <;> simp [Ty.spine]

theorem Ty.mem_spines {t : Ty} {ts : List Ty} (member : t ∈ ts) : t ∈ Ty.spines ts := by
  induction ts with
  | nil => cases member
  | cons u ts ih =>
    rw [Ty.spines, List.mem_append]
    rcases List.mem_cons.mp member with rfl | member
    · exact .inl t.mem_spine
    · exact .inr (ih member)

mutual

theorem Ty.bounds_spine {t b : Ty} : ∀ {u : Ty}, t ∈ u.spine → b ∈ t.bounds → b ∈ u.spine
  | .param s n bs, member, bound => by
    rw [Ty.spine, List.mem_cons] at member ⊢
    rcases member with rfl | member
    · exact .inr (Ty.mem_spines bound)
    · exact .inr (Ty.bounds_spines member bound)
  | .decl _, member, bound | .bare _ _, member, bound | .app _ _ _, member, bound
  | .array _ _, member, bound => by
    rw [List.mem_singleton.mp member] at bound
    cases bound

theorem Ty.bounds_spines {t b : Ty} : ∀ {us : List Ty}, t ∈ Ty.spines us → b ∈ t.bounds →
    b ∈ Ty.spines us
  | u :: us, member, bound => by
    rw [Ty.spines, List.mem_append] at member ⊢
    rcases member with member | member
    · exact .inl (Ty.bounds_spine member bound)
    · exact .inr (Ty.bounds_spines member bound)

end

mutual

theorem Ty.length_spine_le : ∀ t : Ty, t.spine.length ≤ t.weight
  | .param s n bs => by
    have := Ty.length_spines_le bs
    simp only [Ty.spine, Ty.weight, List.length_cons]
    omega
  | .decl _ | .bare _ _ => Nat.le_refl 1
  | .app _ _ _ | .array _ _ => Nat.le_add_right 1 _

theorem Ty.length_spines_le : ∀ ts : List Ty, (Ty.spines ts).length ≤ Ty.weights ts
  | [] => Nat.le_refl 0
  | t :: ts => by
    have := Ty.length_spine_le t
    have := Ty.length_spines_le ts
    simp only [Ty.spines, Ty.weights, List.length_append]
    omega

end

/-- All that can be met by going up from a declaration, before the next declaration. -/
def Decl.spine (c : Decl) : List Ty :=
  Ty.spines c.super.toList ++ Ty.spines c.interfaces ++ Ty.spines c.standsFor.toList

theorem Decl.length_spine_lt (c : Decl) : c.spine.length < c.weight := by
  have := Ty.length_spines_le c.super.toList
  have := Ty.length_spines_le c.interfaces
  have := Ty.length_spines_le c.standsFor.toList
  simp only [Decl.spine, Decl.weight, List.length_append]
  omega

theorem Decl.bounds_spine {c : Decl} {t b : Ty} (member : t ∈ c.spine) (bound : b ∈ t.bounds) :
    b ∈ c.spine := by
  simp only [Decl.spine, List.mem_append] at member ⊢
  rcases member with (member | member) | member
  · exact .inl (.inl (Ty.bounds_spines member bound))
  · exact .inl (.inr (Ty.bounds_spines member bound))
  · exact .inr (Ty.bounds_spines member bound)

theorem Decl.length_flatMap_spine (cs : List Decl) :
    (cs.flatMap Decl.spine).length + cs.length ≤ Decl.weights cs := by
  induction cs with
  | nil => exact Nat.le_refl 0
  | cons c cs ih =>
    have := c.length_spine_lt
    simp only [List.flatMap_cons, List.length_append, List.length_cons, Decl.weights]
    omega

namespace Hierarchy

variable {h : Hierarchy} {ids : List DeclId}

theorem content_cases (h : Hierarchy) (d : DeclId) :
    h.content d ∈ h.decls.toList ∨ h.content d = {} := by
  unfold content
  rw [Array.getD_eq_getD_getElem?]
  cases listed : h.decls[d.index]? with
  | none => exact .inr rfl
  | some c => exact .inl (Array.mem_toList_iff.mpr (Array.mem_of_getElem? listed))

def written (h : Hierarchy) : List Ty := .object :: h.decls.toList.flatMap Decl.spine

theorem mem_written {d : DeclId} {t : Ty} (member : t ∈ (h.content d).spine) : t ∈ h.written := by
  refine List.mem_cons_of_mem _ (List.mem_flatMap.mpr ⟨h.content d, ?_, member⟩)
  rcases h.content_cases d with listed | blank
  · exact listed
  · rw [blank] at member
    cases member

theorem bounds_written {t b : Ty} (member : t ∈ h.written) (bound : b ∈ t.bounds) :
    b ∈ h.written := by
  rcases List.mem_cons.mp member with rfl | member
  · cases bound
  · obtain ⟨c, listed, member⟩ := List.mem_flatMap.mp member
    exact List.mem_cons_of_mem _ (List.mem_flatMap.mpr ⟨c, listed, Decl.bounds_spine member bound⟩)

theorem mem_written_of_supertype {t s : Ty} (bounds : ∀ b ∈ t.bounds, b ∈ h.written)
    (above : s ∈ h.supertypes t) : s ∈ h.written := by
  have object : Ty.object ∈ h.written := List.mem_cons_self
  have ofDecl : ∀ d : DeclId, s ∈ h.supertypes (.decl d) → s ∈ h.written := by
    intro d above
    rcases List.mem_append.mp above with super | interface
    · simp only [superclass, Option.mem_toList] at super
      split at super
      · cases super
      · cases given : (h.content d).super with
        | none =>
          rw [given] at super
          cases super
          exact object
        | some u =>
          rw [given] at super
          cases super
          refine mem_written (d := d) ?_
          simp [Decl.spine, given, Ty.mem_spines]
    · refine mem_written (d := d) ?_
      have listed : s ∈ Ty.spines (h.content d).interfaces := Ty.mem_spines interface
      simp [Decl.spine, listed]
  cases t with
  | decl d => exact ofDecl d above
  | bare _ d => exact ofDecl d above
  | app _ d _ => exact ofDecl d above
  | array =>
    rw [List.mem_singleton.mp above]
    exact object
  | param _ _ bs =>
    rcases List.mem_append.mp above with super | interface
    · cases bs with
      | nil =>
        cases Option.mem_toList.mp super
        exact object
      | cons b bs =>
        simp only [superclass, Option.mem_toList] at super
        split at super
        · cases super
          exact object
        · cases super
          exact bounds s List.mem_cons_self
    · exact bounds s (List.mem_filter.mp interface).1

/-- Whatever a visit of declarations can come to. -/
def nodes (h : Hierarchy) (ids : List DeclId) : List Ty :=
  ids.map Ty.decl ++ h.written.map h.declaration

theorem bounds_nodes {t b : Ty} (member : t ∈ h.nodes ids) (bound : b ∈ t.bounds) :
    b ∈ h.written := by
  rcases List.mem_append.mp member with given | met
  · obtain ⟨d, -, rfl⟩ := List.mem_map.mp given
    cases bound
  · obtain ⟨u, listed, rfl⟩ := List.mem_map.mp met
    unfold declaration at bound
    split at bound
    · rename_i d head
      cases standIn : (h.content d).standsFor with
      | none =>
        rw [standIn] at bound
        cases bound
      | some v =>
        rw [standIn] at bound
        have own : v ∈ (h.content d).spine := by
          simp [Decl.spine, standIn, Ty.mem_spines]
        exact mem_written (Decl.bounds_spine own bound)
    · exact bounds_written listed bound

theorem nodes_closed : ∀ t ∈ h.nodes ids, ∀ s ∈ h.supertypes t, h.declaration s ∈ h.nodes ids := by
  intro t member s above
  have met := mem_written_of_supertype (fun b => bounds_nodes member) above
  exact List.mem_append_right _ (List.mem_map_of_mem met)

theorem length_spines (h : Hierarchy) :
    (h.decls.toList.flatMap Decl.spine).length + h.decls.size ≤ h.weight := by
  have weighty := Decl.length_flatMap_spine h.decls.toList
  rw [← h.weight_eq] at weighty
  simpa only [Array.length_toList] using weighty

theorem length_nodes (short : ids.length ≤ h.decls.size) :
    (h.nodes ids).length ≤ h.weight + 1 := by
  have weighty := h.length_spines
  simp only [nodes, written, List.length_append, List.length_map, List.length_cons]
  omega

end Hierarchy

/-! ## What the check says -/

namespace Library

variable {h : Hierarchy} {ids : List DeclId}

theorem foldlM_error {α β ε : Type} {f : β → α → Except ε β} {items : List α} {b : β} {e : ε}
    (failed : items.foldlM f b = .error e) : ∃ a ∈ items, ∃ b', f b' a = .error e := by
  induction items generalizing b with
  | nil => cases failed
  | cons a rest ih =>
    rw [List.foldlM_cons] at failed
    cases first : f b a with
    | error e' =>
      rw [first] at failed
      cases failed
      exact ⟨a, List.mem_cons_self, b, first⟩
    | ok between =>
      rw [first] at failed
      obtain ⟨c, member, b', here⟩ := ih failed
      exact ⟨c, List.mem_cons_of_mem _ member, b', here⟩

/-- A visit that fails has met its path again, so what it names is above itself. -/
theorem visit_error {fuel : Nat} {path done : List Ty} {d : Ty} {e : LoadError}
    (through : ∀ p ∈ path, Relation.TransGen h.Above p d)
    (failed : visit h fuel path done d = .error e) :
    ∃ u, e = .circular u.name ∧ Relation.TransGen h.Above u u ∧
      Relation.ReflTransGen h.Above d u := by
  induction fuel generalizing path done d with
  | zero => cases failed
  | succ fuel ih =>
    unfold visit at failed
    split at failed
    · cases failed
    split at failed
    · rename_i onPath
      cases failed
      exact ⟨d, rfl, through d onPath, .refl⟩
    · cases folded : (h.supertypes d).foldlM
          (fun done s => visit h fuel (d :: path) done (h.declaration s)) done with
      | ok inner =>
        rw [folded] at failed
        cases failed
      | error e' =>
        rw [folded] at failed
        cases failed
        obtain ⟨s, above, between, inner⟩ := foldlM_error folded
        have step : h.Above d (h.declaration s) := ⟨s, above, rfl⟩
        have longer : ∀ p ∈ d :: path, Relation.TransGen h.Above p (h.declaration s) := by
          intro p member
          rcases List.mem_cons.mp member with rfl | member
          · exact .single step
          · exact (through p member).tail step
        obtain ⟨u, named, cycle, reached⟩ := ih longer inner
        exact ⟨u, named, cycle, .head step reached⟩

/-- What the check refuses is above itself, and above one of the declarations. -/
theorem checkAcyclic_error {e : LoadError} (failed : checkAcyclic h ids = .error e) :
    ∃ u, e = .circular u.name ∧ Relation.TransGen h.Above u u ∧
      ∃ d ∈ ids, Relation.ReflTransGen h.Above (.decl d) u := by
  cases folded : ids.foldlM (fun done d => visit h (h.budget 0) [] done (.decl d)) [] with
  | ok done =>
    unfold checkAcyclic at failed
    rw [folded] at failed
    cases failed
  | error e' =>
    unfold checkAcyclic at failed
    rw [folded] at failed
    cases failed
    obtain ⟨d, member, done, visited⟩ := foldlM_error folded
    obtain ⟨u, named, cycle, reached⟩ := visit_error (List.forall_mem_nil _) visited
    exact ⟨u, named, cycle, d, member, reached⟩

/-- A visit of a declaration has steps for all that it can come to. -/
theorem nodes_lt_budget (some : ids ≠ []) (short : ids.length ≤ h.decls.size) :
    (h.nodes ids).length < h.budget 0 := by
  have few := Hierarchy.length_nodes short
  have weighty := h.length_spines
  have positive := List.length_pos_iff.mpr some
  have square : h.weight + 1 < (h.weight + 1) * (h.weight + 1) :=
    Nat.lt_mul_self_iff.mpr (by omega)
  unfold Hierarchy.budget
  simp only [Nat.add_zero]
  omega

/-- The check passes exactly when going up from each of the declarations comes to an end. -/
theorem checkAcyclic_iff (short : ids.length ≤ h.decls.size) :
    checkAcyclic h ids = .ok () ↔ ∀ d ∈ ids, h.Rooted (.decl d) := by
  constructor
  · intro ok d member
    obtain ⟨done, folded, -⟩ := bind_eq_ok.mp ok
    have enough := nodes_lt_budget (List.ne_nil_of_mem member) short
    have step : ∀ d ∈ ids, ∀ b b', Finished h b → visit h (h.budget 0) [] b (.decl d) = .ok b' →
        Visits h [] b b' ∧ .decl d ∈ b' := by
      intro d member b b' finished visited
      have known : Ty.decl d ∈ h.nodes ids := List.mem_append_left _ (List.mem_map_of_mem member)
      exact visit_sound Hierarchy.nodes_closed .nil (List.nil_subset _) known
        (by simpa using enough) finished visited
    have start : Finished h [] := trivial
    obtain ⟨visited, members⟩ := visits_foldlM step start folded
    exact visited.finished.rooted (members d member)
  · intro rooted
    cases outcome : checkAcyclic h ids with
    | ok => rfl
    | error e =>
      obtain ⟨u, -, cycle, d, member, reached⟩ := checkAcyclic_error outcome
      exact absurd cycle ((rooted d member).of_above reached).not_above

end Library

end NominalGenerics
