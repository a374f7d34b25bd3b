import NominalGenerics.Proofs.Building
import NominalGenerics.Proofs.Uses

/-!
# Libraries without dangling identities

A declaration is live in a library when it can be come by: by name, in a live declaration or in a
signature. A library is intact when every live declaration has been made. What lies above a live
declaration is settled: declarations made later do not change it (`Hierarchy.rooted_of_grows`).
-/

namespace NominalGenerics

def Within (live : DeclId → Prop) (uses : List Ty) : Prop :=
  ∀ u ∈ uses, ∀ d, u.head? = some d → live d

section Within

variable {live : DeclId → Prop} {t : Ty}

theorem Within.subset {us vs : List Ty} (within : Within live vs) (part : us ⊆ vs) :
    Within live us :=
  fun u member => within u (part member)

theorem Within.head {d : DeclId} (within : Within live t.uses) (head : t.head? = some d) : live d :=
  within t (Ty.mem_uses_of_head head) d head

theorem within_nil : Within live [] := nofun

theorem within_decl {d : DeclId} (here : live d) : Within live (Ty.decl d).uses := by
  intro u member e head
  rw [List.mem_singleton.mp member] at head
  cases head
  exact here

end Within

namespace Hierarchy

/-- Live declarations have been made and mention only live ones. -/
structure Closed (h : Hierarchy) (live : DeclId → Prop) : Prop where
  made : ∀ d, live d → d.index < h.decls.size
  object : live .object
  contents : ∀ d, live d → Within live (h.content d).uses

/-- What was declared in `h` says the same in `h'`. -/
structure Grows (h h' : Hierarchy) : Prop where
  size : h.decls.size ≤ h'.decls.size
  content : ∀ d, d.index < h.decls.size → h'.content d = h.content d

variable {h h' : Hierarchy} {live : DeclId → Prop} {t s b : Ty}

theorem Grows.refl (h : Hierarchy) : h.Grows h := ⟨Nat.le_refl _, fun _ _ => rfl⟩

theorem declaration_of_head {d : DeclId} (head : t.head? = some d) :
    h.declaration t = (h.content d).standsFor.getD (.decl d) := by
  unfold declaration
  rw [head]

/-! ## What lies above a type -/

theorem Closed.within_super (closed : h.Closed live) {d : DeclId} (here : live d) :
    Within live ((h.content d).super.getD .object).uses := by
  rcases written : (h.content d).super with _ | u
  · exact within_decl closed.object
  · apply (closed.contents d here).subset
    intro v member
    simp only [Decl.uses, written, List.mem_append]
    exact .inl (.inl (.inr (Ty.mem_usesAll.mpr ⟨u, List.mem_singleton_self u, member⟩)))

theorem Closed.within_interface (closed : h.Closed live) {d : DeclId} (here : live d)
    (member : s ∈ (h.content d).interfaces) : Within live s.uses := by
  apply (closed.contents d here).subset
  intro v inside
  simp only [Decl.uses, List.mem_append]
  exact .inl (.inr (Ty.mem_usesAll.mpr ⟨s, member, inside⟩))

theorem Closed.within_standsFor (closed : h.Closed live) {d : DeclId} (here : live d)
    (written : (h.content d).standsFor = some s) : Within live s.uses := by
  apply (closed.contents d here).subset
  intro v member
  simp only [Decl.uses, written, List.mem_append]
  exact .inr (Ty.mem_usesAll.mpr ⟨s, List.mem_singleton_self s, member⟩)

theorem within_bound {site : Site} {n : String} {bs : List Ty}
    (within : Within live (Ty.param site n bs).uses) (member : b ∈ bs) : Within live b.uses :=
  within.subset fun _ inside => Ty.mem_usesAll.mpr ⟨b, member, inside⟩

theorem Closed.within_superclass (closed : h.Closed live) (within : Within live t.uses)
    (above : h.superclass t = some s) : Within live s.uses := by
  unfold superclass at above
  split at above
  · cases above
    exact within_decl closed.object
  · cases above
    exact within_decl closed.object
  · split at above
    · cases above
      exact within_decl closed.object
    · cases above
      exact within_bound within List.mem_cons_self
  all_goals
    split at above
    · cases above
    · cases above
      exact closed.within_super (within.head rfl)

theorem Closed.within_supertype (closed : h.Closed live) (within : Within live t.uses)
    (above : s ∈ h.supertypes t) : Within live s.uses := by
  rcases List.mem_append.mp above with super | interface
  · exact closed.within_superclass within (Option.mem_toList.mp super)
  · cases t with
    | decl d => exact closed.within_interface (within.head rfl) interface
    | bare _ d => exact closed.within_interface (within.head rfl) interface
    | app _ d _ => exact closed.within_interface (within.head rfl) interface
    | param _ _ bs => exact within_bound within (List.mem_of_mem_filter interface)
    | array => cases interface

theorem Closed.within_declaration (closed : h.Closed live) (within : Within live t.uses) :
    Within live (h.declaration t).uses := by
  rcases head : t.head? with _ | d
  · unfold declaration
    rw [head]
    exact within
  · rw [declaration_of_head head]
    rcases written : (h.content d).standsFor with _ | u
    · exact within_decl (within.head head)
    · exact closed.within_standsFor (within.head head) written

section Grows

variable (grows : h.Grows h') (closed : h.Closed live)

include grows closed

theorem isInterface_of_grows (within : Within live t.uses) :
    h'.isInterface t = h.isInterface t := by
  unfold isInterface
  rcases head : t.head? with _ | d
  · rfl
  · show ((h'.content d).form == .iface) = ((h.content d).form == .iface)
    rw [grows.content d (closed.made d (within.head head))]

theorem declaration_of_grows (within : Within live t.uses) :
    h'.declaration t = h.declaration t := by
  rcases head : t.head? with _ | d
  · unfold declaration
    rw [head]
  · rw [declaration_of_head head, declaration_of_head head,
      grows.content d (closed.made d (within.head head))]

theorem superclass_of_grows (within : Within live t.uses) : h'.superclass t = h.superclass t := by
  cases t with
  | array => rfl
  | param _ _ bs =>
    cases bs with
    | nil => rfl
    | cons b bs =>
      simp only [superclass]
      rw [isInterface_of_grows grows closed (within_bound within List.mem_cons_self)]
  | decl d | bare _ d | app _ d _ =>
    simp only [superclass]
    rw [grows.content d (closed.made d (within.head rfl))]

theorem interfaces_of_grows (within : Within live t.uses) : h'.interfaces t = h.interfaces t := by
  cases t with
  | array => rfl
  | param _ _ bs =>
    apply List.filter_congr
    intro b member
    exact isInterface_of_grows grows closed (within_bound within member)
  | decl d | bare _ d | app _ d _ =>
    simp only [interfaces]
    rw [grows.content d (closed.made d (within.head rfl))]

theorem supertypes_of_grows (within : Within live t.uses) : h'.supertypes t = h.supertypes t := by
  unfold supertypes
  rw [superclass_of_grows grows closed within, interfaces_of_grows grows closed within]

theorem above_of_grows (within : Within live t.uses) : h'.Above t b ↔ h.Above t b := by
  unfold Above
  rw [supertypes_of_grows grows closed within]
  constructor
  · rintro ⟨s, above, rfl⟩
    have inside := closed.within_supertype within above
    exact ⟨s, above, (declaration_of_grows grows closed inside).symm⟩
  · rintro ⟨s, above, rfl⟩
    exact ⟨s, above, declaration_of_grows grows closed (closed.within_supertype within above)⟩

omit grows in
theorem Above.within (within : Within live t.uses) (above : h.Above t b) : Within live b.uses := by
  obtain ⟨s, above, rfl⟩ := above
  exact closed.within_declaration (closed.within_supertype within above)

/-- What is above a type stays above it, and nothing else comes there. -/
theorem paths_of_grows (within : Within live t.uses) (path : Relation.ReflTransGen h'.Above t b) :
    Relation.ReflTransGen h.Above t b ∧ Within live b.uses := by
  induction path with
  | refl => exact ⟨.refl, within⟩
  | tail _ step ih =>
    have before := (above_of_grows grows closed ih.2).mp step
    exact ⟨ih.1.tail before, before.within closed ih.2⟩

/-- Whether going up from a type comes to an end does not depend on later declarations. -/
theorem rooted_of_grows (within : Within live t.uses) : h'.Rooted t ↔ h.Rooted t := by
  constructor
  · intro rooted
    induction rooted with
    | intro t _ ih =>
      constructor
      intro b above
      exact ih b ((above_of_grows grows closed within).mpr above) (above.within closed within)
  · intro rooted
    induction rooted with
    | intro t _ ih =>
      constructor
      intro b above
      have before := (above_of_grows grows closed within).mp above
      exact ih b before (before.within closed within)

end Grows

end Hierarchy

namespace Library

/-- A declaration that can be come by in a library. -/
inductive Live (l : Library) : DeclId → Prop
  | object : Live l .object
  | named {name : String} {d : DeclId} : l.registry.lookup? name = some d → Live l d
  | content {c d : DeclId} {u : Ty} : Live l c → u ∈ (l.hierarchy.content c).uses →
      u.head? = some d → Live l d
  | method {name : String} {m : Signature} {u : Ty} {d : DeclId} :
      m ∈ l.registry.methodsOf name → u ∈ m.uses → u.head? = some d → Live l d

/-- Every declaration that can be come by has been made. -/
def Intact (l : Library) : Prop := ∀ d, l.Live d → d.index < l.hierarchy.decls.size

theorem Intact.closed {l : Library} (intact : l.Intact) : l.hierarchy.Closed l.Live where
  made := intact
  object := .object
  contents _ here _ member _ head := .content here member head

/-- A library is intact when some set of declarations holds all that it names and is closed. -/
theorem intact_of_closed {l : Library} {live : DeclId → Prop} (closed : l.hierarchy.Closed live)
    (names : ∀ name d, l.registry.lookup? name = some d → live d)
    (methods : ∀ name, ∀ m ∈ l.registry.methodsOf name, Within live m.uses) : l.Intact := by
  intro d here
  apply closed.made d
  induction here with
  | object => exact closed.object
  | named found => exact names _ _ found
  | content _ member head ih => exact closed.contents _ ih _ member _ head
  | method listed member head => exact methods _ _ listed _ member _ head

theorem lookup?_root {name : String} {d : DeclId} (named : Registry.root.lookup? name = some d) :
    name = "Object" ∧ d = .object := by
  have found : (if name = "Object" then some DeclId.object else none) = some d :=
    (NameMap.get?_insert .empty "Object" name DeclId.object).symm.trans named
  split at found
  · exact ⟨‹_›, (Option.some.inj found).symm⟩
  · cases found

theorem intact_root : Library.root.Intact := by
  have closed : Library.root.hierarchy.Closed (· = .object) := by
    refine ⟨?_, rfl, ?_⟩
    · rintro d rfl
      decide
    · intro d _
      show Within _ (Hierarchy.root.content d).uses
      rw [Hierarchy.content_root]
      exact within_nil
  apply intact_of_closed closed
  · intro name d named
    exact (lookup?_root named).2
  · intro name m listed
    cases listed

theorem Arranged.grows {l m : Library} {entries : List Entry} (arranged : Arranged l m entries) :
    l.hierarchy.Grows m.hierarchy where
  size := by
    rw [arranged.size]
    exact Nat.le_add_right _ _
  content := arranged.old

end Library

end NominalGenerics
