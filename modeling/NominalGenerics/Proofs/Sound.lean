import Mathlib.Data.List.Nodup
import NominalGenerics.Proofs.Acyclic

/-!
# Sound hierarchies

What is right about every declaration of a sound hierarchy: its supertypes are class types with the
right number of arguments over its own parameters, a class extends a class and everything else is an
interface, and nothing is its own ancestor. The hierarchy of the root type alone is sound
(`sound_root`).
-/

namespace NominalGenerics

/-- Type parameters without bounds, which is how they appear in each other's bounds. -/
def ParamSet.bare : ParamSet := fun _ _ bs => bs = []

/-- What a declaration says, where `A` gives the number of parameters of every declaration. -/
structure Decl.Sound (h : Hierarchy) (A : Arity) (c : Decl) : Prop where
  direct : c.standsFor = none
  noUnion : c.form ≠ .union
  params : Reader.Declared A .bare c.params
  super : ∀ t, c.super = some t →
    t.Formed A (.of c.params) ∧ (∃ d, t.head? = some d) ∧ h.isInterface t = false
  interfaces : ∀ t ∈ c.interfaces, t.Formed A (.of c.params) ∧ h.isInterface t = true
  rooted : c.form = .iface → c.super = none

namespace Hierarchy

def arity (h : Hierarchy) (ids : List DeclId) : Arity := fun d =>
  if d ∈ ids then some (h.params d).length else none

theorem isInterface_of_head {h : Hierarchy} {t : Ty} {d : DeclId} (head : t.head? = some d) :
    h.isInterface t = ((h.content d).form == .iface) := by
  unfold isInterface
  rw [head]

theorem head_of_isInterface {h : Hierarchy} {t : Ty} (isInterface : h.isInterface t = true) :
    ∃ d, t.head? = some d := by
  cases head : t.head? with
  | some d => exact ⟨d, rfl⟩
  | none =>
    unfold Hierarchy.isInterface at isInterface
    rw [head] at isInterface
    cases isInterface

theorem content_congr {h : Hierarchy} {d e : DeclId} (same : d.index = e.index) :
    h.content d = h.content e := by
  unfold content
  rw [same]

/-! ## Content after a change -/

theorem content_declare (h : Hierarchy) (name : String) (c : Decl) (d : DeclId) :
    (h.declare name c).2.content d = if d.index = h.decls.size then c else h.content d := by
  unfold declare content ofDecls
  simp only [Array.getD_eq_getD_getElem?, Array.getElem?_push]
  split <;> rfl

theorem content_update (h : Hierarchy) (d e : DeclId) (f : Decl → Decl) :
    (h.update d f).content e =
      if d.index = e.index ∧ e.index < h.decls.size then f (h.content e) else h.content e := by
  unfold update content ofDecls
  simp only [Array.getD_eq_getD_getElem?, Array.getElem?_modify]
  by_cases same : d.index = e.index
  · by_cases inside : e.index < h.decls.size
    · simp [same, inside]
    · simp [same, inside]
  · simp [same]

@[simp]
theorem size_update (h : Hierarchy) (d : DeclId) (f : Decl → Decl) :
    (h.update d f).decls.size = h.decls.size := Array.size_modify

/-- A change that keeps something of every declaration keeps it everywhere. -/
theorem update_keeps {α : Type} (h : Hierarchy) (d e : DeclId) {f : Decl → Decl} (view : Decl → α)
    (keeps : ∀ c, view (f c) = view c) : view ((h.update d f).content e) = view (h.content e) := by
  rw [content_update]
  split
  · exact keeps _
  · rfl

end Hierarchy

/-- A sound declaration stays so when more declarations exist, as long as those it could mention
stay classes or interfaces. -/
theorem Decl.Sound.mono {h h' : Hierarchy} {A B : Arity} {c : Decl} (sound : c.Sound h A)
    (more : ∀ d k, A d = some k → B d = some k)
    (form : ∀ d k, A d = some k → (h'.content d).form = (h.content d).form) : c.Sound h' B := by
  have same : ∀ t d, t.Formed A (.of c.params) → t.head? = some d →
      h'.isInterface t = h.isInterface t := by
    intro t d formed head
    obtain ⟨k, known⟩ := formed.head head
    rw [Hierarchy.isInterface_of_head head, Hierarchy.isInterface_of_head head, form d k known]
  refine ⟨sound.direct, sound.noUnion, ?_, ?_, ?_, sound.rooted⟩
  · intro p member
    obtain ⟨s, n, bs, rfl, formed⟩ := sound.params p member
    exact ⟨s, n, bs, rfl, formed.mono more fun _ _ _ bare => bare⟩
  · intro t written
    obtain ⟨formed, ⟨d, head⟩, isClass⟩ := sound.super t written
    exact ⟨formed.mono more fun _ _ _ known => known, ⟨d, head⟩,
      (same t d formed head).trans isClass⟩
  · intro t written
    obtain ⟨formed, isInterface⟩ := sound.interfaces t written
    obtain ⟨d, head⟩ := Hierarchy.head_of_isInterface isInterface
    exact ⟨formed.mono more fun _ _ _ known => known, (same t d formed head).trans isInterface⟩

theorem Decl.Sound.blank {h : Hierarchy} {A : Arity} {form : DeclForm} {pending : Bool}
    (noUnion : form ≠ .union) : ({ form := form, pending := pending } : Decl).Sound h A where
  direct := rfl
  noUnion := noUnion
  params := by simp [Reader.Declared]
  super := by simp
  interfaces := by simp
  rooted := fun _ => rfl

/-- Supertypes are class types over the parameters of the declaration. -/
theorem Decl.Sound.supertype {h : Hierarchy} {A : Arity} {d : DeclId} {t : Ty}
    (sound : (h.content d).Sound h A) (object : A .object = some 0)
    (written : t ∈ h.supertypes (.decl d)) :
    t.Formed A (.of (h.params d)) ∧ ∃ e, t.head? = some e := by
  rcases List.mem_append.mp written with super | interface
  · simp only [Hierarchy.superclass, Option.mem_toList] at super
    split at super
    · cases super
    · cases above : (h.content d).super with
      | none =>
        rw [above] at super
        cases super
        exact ⟨object, .object, rfl⟩
      | some u =>
        rw [above] at super
        cases super
        obtain ⟨formed, head, -⟩ := sound.super u above
        exact ⟨formed, head⟩
  · obtain ⟨formed, isInterface⟩ := sound.interfaces t interface
    exact ⟨formed, Hierarchy.head_of_isInterface isInterface⟩

namespace Hierarchy

theorem size_le_weight (h : Hierarchy) : h.decls.size ≤ h.weight := by
  have positive : ∀ cs : List Decl, cs.length ≤ Decl.weights cs := by
    intro cs
    induction cs with
    | nil => simp
    | cons c cs ih =>
      have : 1 ≤ c.weight := by
        unfold Decl.weight
        omega
      simp only [List.length_cons, Decl.weights]
      omega
  rw [h.weight_eq]
  exact positive h.decls.toList

theorem weight_lt_budget (h : Hierarchy) (w : Nat) : h.weight + w < h.budget w :=
  Nat.lt_of_succ_le (Nat.le_mul_self (h.weight + w + 1))

theorem arity_eq_some {h : Hierarchy} {ids : List DeclId} {d : DeclId} {k : Nat} :
    h.arity ids d = some k ↔ d ∈ ids ∧ (h.params d).length = k := by
  unfold arity
  split <;> simp_all

/-- Every declaration is sound and none is its own ancestor. `ids` lists their identities in order,
so that no two of them share an index. -/
structure Sound (h : Hierarchy) (ids : List DeclId) : Prop where
  indices : ids.map DeclId.index = List.range h.decls.size
  object : DeclId.object ∈ ids
  root : h.content .object = {}
  decls : ∀ d, (h.content d).Sound h (h.arity ids)
  acyclic : h.Acyclic

variable {h : Hierarchy} {ids : List DeclId}

theorem Sound.arity_object (sound : h.Sound ids) : h.arity ids .object = some 0 := by
  refine arity_eq_some.mpr ⟨sound.object, ?_⟩
  unfold params
  rw [sound.root]
  rfl

theorem Sound.index_lt (sound : h.Sound ids) {d : DeclId} (member : d ∈ ids) :
    d.index < h.decls.size := by
  have : d.index ∈ ids.map DeclId.index := List.mem_map.mpr ⟨d, member, rfl⟩
  rw [sound.indices] at this
  exact List.mem_range.mp this

theorem Sound.direct (sound : h.Sound ids) : h.Direct := fun d => (sound.decls d).direct

/-- What declarations declare are type parameters. -/
theorem Sound.isParam_of_declared (sound : h.Sound ids) {d : DeclId} :
    ∀ p ∈ h.params d, p.isParam = true := by
  intro p member
  obtain ⟨s, n, bs, rfl, -⟩ := (sound.decls d).params p member
  rfl

/-- Counting texts changes nothing. -/
theorem Sound.fresh (sound : h.Sound ids) (count : Nat) : (h.fresh count).Sound ids where
  indices := sound.indices
  object := sound.object
  root := sound.root
  decls d := (sound.decls d).mono (fun _ _ known => known) fun _ _ _ => rfl
  acyclic := sound.acyclic

theorem Sound.supertypes_object (sound : h.Sound ids) : h.supertypes .object = [] := by
  simp [supertypes, superclass, interfaces, Ty.object, sound.root]

theorem content_root (d : DeclId) : root.content d = {} := by
  unfold root content ofDecls
  rcases d with ⟨name, _ | _ | i⟩ <;> rfl

/-- The root type and what stands for a missing type, alone. -/
theorem sound_root : root.Sound [.object, .missing] where
  indices := rfl
  object := List.mem_cons_self
  root := rfl
  decls d := by
    rw [content_root]
    exact .blank nofun
  acyclic d := by
    intro cycle
    -- the last step of a cycle ends at the root type, where no first step starts
    obtain ⟨b, ⟨t, written, -⟩, -⟩ := Relation.TransGen.head'_iff.mp cycle
    obtain ⟨c, -, ⟨u, last, head⟩⟩ := Relation.TransGen.tail'_iff.mp cycle
    simp only [supertypes, superclass, interfaces, content_root, List.append_nil] at written last
    split at last
    · cases last
    · simp only [Option.getD_none, Option.toList_some, List.mem_singleton] at last
      subst last
      cases head
      cases written

end Hierarchy

end NominalGenerics
