import NominalGenerics.Proofs.Registered

/-!
# Cycles are refused, and nothing else

A model is linked when its names, parameters and supertypes have been accepted (`Library.link`). The
check for cycles then fails exactly when some declaration, old or new, has come to be above itself,
and names a new one that has. What old declarations have above them stays as it was, so a cycle runs
through new declarations only. A registry that has only seen loads that succeeded has no cycles, and
the way up from its declarations is well-founded.
-/

namespace NominalGenerics

namespace Library

/-- Loading up to the check for cycles: names, parameters and supertypes. -/
def link (l : Library) (model : ClassModel) :
    Except LoadError (Library × List Entry × List Scoped) := do
  let (l, entries) ← l.declareTypes 1 model.types
  let l ← l.countParams entries
  let (l, types) ← l.readParams entries
  let l ← l.readSupertypes types
  return (l, entries, types)

/-- A declaration that the library names, or the root of all classes. -/
def Has (l : Library) (d : DeclId) : Prop := d = .object ∨ ∃ name, l.registry.lookup? name = some d

/-- What the library has and everything above it. -/
def Reached (l : Library) (u : Ty) : Prop :=
  ∃ d, l.Has d ∧ Relation.ReflTransGen l.hierarchy.Above (l.hierarchy.declaration (.decl d)) u

def Circular (l : Library) (u : Ty) : Prop := l.Reached u ∧ Relation.TransGen l.hierarchy.Above u u

variable {l l' : Library} {entries : List Entry} {types : List Scoped} {model : ClassModel}

/-! ## Linking -/

/-- Once a model is linked, it remains to check for cycles and to read the methods. -/
theorem load_of_linked (linked : l.link model = .ok (l', entries, types)) :
    l.load model = (do
      checkAcyclic l'.hierarchy (entries.map Prod.snd)
      l'.readMethods types) := by
  obtain ⟨⟨l₁, entries₁⟩, declared, linked⟩ := bind_eq_ok.mp linked
  obtain ⟨l₂, counted, linked⟩ := bind_eq_ok.mp linked
  obtain ⟨⟨l₃, types₃⟩, read, linked⟩ := bind_eq_ok.mp linked
  obtain ⟨l₄, extended, linked⟩ := bind_eq_ok.mp linked
  cases linked
  unfold load
  rw [declared]
  show (do let l ← l₁.countParams entries; _) = _
  rw [counted]
  show (do let (l, types) ← l₂.readParams entries; _) = _
  rw [read]
  show (do let l ← l₃.readSupertypes types; _) = _
  rw [extended]
  rfl

theorem says_of_linked (linked : l.link model = .ok (l', entries, types)) :
    Arranged l l' entries ∧ ∀ e ∈ entries, ∃ scope, Says l' e scope := by
  obtain ⟨⟨l₁, entries₁⟩, declared, linked⟩ := bind_eq_ok.mp linked
  obtain ⟨l₂, counted, linked⟩ := bind_eq_ok.mp linked
  obtain ⟨⟨l₃, types₃⟩, read, linked⟩ := bind_eq_ok.mp linked
  obtain ⟨l₄, extended, linked⟩ := bind_eq_ok.mp linked
  cases linked
  obtain ⟨-, arranged, -⟩ := arranged_of_counted declared counted
  obtain ⟨fills, -, listing, said⟩ := says_of_read arranged read extended
  refine ⟨arranged.fills fills, ?_⟩
  intro e given
  rw [← listing] at given
  obtain ⟨s, member, rfl⟩ := List.mem_map.mp given
  exact ⟨s.scope, said s member⟩

/-! ## What lies above declarations, old and new -/

theorem Has.live {d : DeclId} (has : l.Has d) : l.Live d := by
  rcases has with rfl | ⟨name, found⟩
  · exact .object
  · exact .named found

/-- The supertypes of a new declaration are of declarations that the library has. -/
theorem Says.has_supertype {e : Entry} {scope : Scope} (said : Says l' e scope) {s : Ty}
    (above : s ∈ l'.hierarchy.supertypes (.decl e.2)) : ∃ d, s.head? = some d ∧ l'.Has d := by
  let A : Arity := l'.hierarchy.arity l'.registry.names.values
  have known : ∀ name d, l'.registry.lookup? name = some d →
      A d = some (l'.hierarchy.params d).length := by
    intro name d found
    apply if_pos
    exact NameMap.mem_values_iff.mpr ⟨name, found⟩
  have head : ∀ t : Ty, t.Formed A (.whole A) → (∃ d, t.head? = some d) →
      ∃ d, t.head? = some d ∧ l'.Has d := by
    rintro t formed ⟨d, head⟩
    obtain ⟨d', k, head', listed, -⟩ := formed.uses t (Ty.mem_uses_of_head head)
    have listed : d' ∈ l'.registry.names.values := by
      by_contra outside
      exact nomatch (if_neg outside).symm.trans listed
    exact ⟨d', head', .inr (NameMap.mem_values_iff.mp listed)⟩
  have written := said.written known
  rcases List.mem_append.mp above with super | interface
  · simp only [Hierarchy.superclass, Option.mem_toList] at super
    split at super
    · cases super
    · rcases given : (l'.hierarchy.content e.2).super with _ | u
      · rw [given] at super
        cases super
        exact ⟨.object, rfl, .inl rfl⟩
      · rw [given] at super
        cases super
        obtain ⟨formed, headed, -⟩ := written.super u given
        exact head u formed headed
  · obtain ⟨formed, isInterface⟩ := written.interfaces s interface
    exact head s formed (Hierarchy.head_of_isInterface isInterface)

/-- Above a new declaration is a new one or the declaration of something the library had. -/
theorem Arranged.above_new (arranged : Arranged l l' entries)
    (said : ∀ e ∈ entries, ∃ scope, Says l' e scope) (intact : l.Intact) {e : Entry} {b : Ty}
    (member : e ∈ entries) (above : l'.hierarchy.Above (.decl e.2) b) :
    (∃ f ∈ entries, b = .decl f.2) ∨ ∃ d, l.Has d ∧ b = l.hierarchy.declaration (.decl d) := by
  obtain ⟨s, above, rfl⟩ := above
  obtain ⟨scope, said⟩ := said e member
  obtain ⟨d, head, has⟩ := said.has_supertype above
  have old : l.Has d → l'.hierarchy.declaration s = l.hierarchy.declaration (.decl d) := by
    intro has
    rw [← Hierarchy.declaration_of_grows arranged.grows intact.closed (within_decl has.live),
      Hierarchy.declaration_of_head head, Hierarchy.declaration_of_head rfl]
  rcases has with rfl | ⟨name, found⟩
  · exact .inr ⟨.object, .inl rfl, old (.inl rfl)⟩
  · rcases arranged.names name d found with before | ⟨f, new, rfl, -⟩
    · exact .inr ⟨d, .inr ⟨name, before⟩, old (.inr ⟨name, before⟩)⟩
    · refine .inl ⟨f, new, ?_⟩
      rw [Hierarchy.declaration_of_head head, arranged.direct f new]
      rfl

theorem Reached.within (intact : l.Intact) {u : Ty} (reached : l.Reached u) :
    Within l.Live u.uses := by
  obtain ⟨d, has, path⟩ := reached
  have start := intact.closed.within_declaration (within_decl has.live)
  exact (Hierarchy.paths_of_grows (.refl _) intact.closed start path).2

/-- The way up from a new declaration runs through new ones until it comes to what the library
reached before. -/
theorem Arranged.path_new (arranged : Arranged l l' entries)
    (said : ∀ e ∈ entries, ∃ scope, Says l' e scope) (intact : l.Intact) {e : Entry} {u : Ty}
    (member : e ∈ entries) (path : Relation.ReflTransGen l'.hierarchy.Above (.decl e.2) u) :
    (∃ f ∈ entries, u = .decl f.2) ∨ l.Reached u := by
  induction path with
  | refl => exact .inl ⟨e, member, rfl⟩
  | tail _ step ih =>
    rcases ih with ⟨f, new, rfl⟩ | reached
    · rcases arranged.above_new said intact new step with new | ⟨d, has, rfl⟩
      · exact .inl new
      · exact .inr ⟨d, has, .refl⟩
    · have before := (Hierarchy.above_of_grows arranged.grows intact.closed
        (reached.within intact)).mp step
      obtain ⟨d, has, path⟩ := reached
      exact .inr ⟨d, has, path.tail before⟩

/-- Nothing that was reached before has come to be above itself. -/
theorem Arranged.circular_of_reached (arranged : Arranged l l' entries) (intact : l.Intact) {u : Ty}
    (reached : l.Reached u) (cycle : Relation.TransGen l'.hierarchy.Above u u) : l.Circular u := by
  obtain ⟨b, step, back⟩ := Relation.TransGen.head'_iff.mp cycle
  have within := reached.within intact
  have before := (Hierarchy.above_of_grows arranged.grows intact.closed within).mp step
  obtain ⟨path, -⟩ := Hierarchy.paths_of_grows arranged.grows intact.closed
    (before.within intact.closed within) back
  exact ⟨reached, .head' before path⟩

/-- Every cycle passes through new declarations only. -/
theorem Arranged.circular_new (arranged : Arranged l l' entries)
    (said : ∀ e ∈ entries, ∃ scope, Says l' e scope) (intact : l.Intact)
    (acyclic : ∀ u, ¬ l.Circular u) {e : Entry} {u : Ty} (member : e ∈ entries)
    (path : Relation.ReflTransGen l'.hierarchy.Above (.decl e.2) u)
    (cycle : Relation.TransGen l'.hierarchy.Above u u) :
    ∃ f ∈ entries, u = .decl f.2 ∧ l'.Circular u := by
  rcases arranged.path_new said intact member path with ⟨f, new, rfl⟩ | reached
  · refine ⟨f, new, rfl, ⟨f.2, .inr ⟨_, arranged.registered f new⟩, ?_⟩, cycle⟩
    rw [Hierarchy.declaration_of_head rfl, arranged.direct f new]
    exact .refl
  · exact absurd (arranged.circular_of_reached intact reached cycle) (acyclic u)

/-- What is circular afterwards and was not before is above a new declaration. -/
theorem Arranged.new_of_circular (arranged : Arranged l l' entries) (intact : l.Intact)
    (acyclic : ∀ u, ¬ l.Circular u) {u : Ty} (circular : l'.Circular u) :
    ∃ e ∈ entries, Relation.ReflTransGen l'.hierarchy.Above (.decl e.2) u := by
  obtain ⟨⟨d, has, path⟩, cycle⟩ := circular
  by_cases before : l.Has d
  · have within := within_decl before.live
    rw [Hierarchy.declaration_of_grows arranged.grows intact.closed within] at path
    obtain ⟨path, -⟩ := Hierarchy.paths_of_grows arranged.grows intact.closed
      (intact.closed.within_declaration within) path
    exact absurd (arranged.circular_of_reached intact ⟨d, before, path⟩ cycle) (acyclic u)
  · rcases has with rfl | ⟨name, found⟩
    · exact absurd (.inl rfl) before
    · rcases arranged.names name d found with old | ⟨e, new, rfl, -⟩
      · exact absurd (.inr ⟨name, old⟩) before
      · rw [Hierarchy.declaration_of_head rfl, arranged.direct e new] at path
        exact ⟨e, new, path⟩

/-- The check fails exactly when something has come to be above itself. -/
theorem checkAcyclic_error_iff (linked : l.link model = .ok (l', entries, types))
    (intact : l.Intact) (acyclic : ∀ u, ¬ l.Circular u) :
    (∃ e, checkAcyclic l'.hierarchy (entries.map Prod.snd) = .error e) ↔ ∃ u, l'.Circular u := by
  obtain ⟨arranged, said⟩ := says_of_linked linked
  constructor
  · rintro ⟨e, failed⟩
    obtain ⟨u, -, cycle, d, listed, path⟩ := checkAcyclic_error failed
    obtain ⟨f, member, rfl⟩ := List.mem_map.mp listed
    obtain ⟨-, -, -, circular⟩ := arranged.circular_new said intact acyclic member path cycle
    exact ⟨u, circular⟩
  · rintro ⟨u, circular⟩
    obtain ⟨e, member, path⟩ := arranged.new_of_circular intact acyclic circular
    rcases outcome : checkAcyclic l'.hierarchy (entries.map Prod.snd) with error | ⟨⟩
    · exact ⟨error, rfl⟩
    · have short : (entries.map Prod.snd).length ≤ l'.hierarchy.decls.size := by
        rw [List.length_map, arranged.size]
        exact Nat.le_add_left _ _
      have rooted := (checkAcyclic_iff short).mp outcome e.2 (List.mem_map_of_mem member)
      exact absurd circular.2 (rooted.of_above path).not_above

/-- The error names a new declaration that is above itself, and is what loading reports. -/
theorem circular_of_checkAcyclic (linked : l.link model = .ok (l', entries, types))
    (intact : l.Intact) (acyclic : ∀ u, ¬ l.Circular u) {e : LoadError}
    (failed : checkAcyclic l'.hierarchy (entries.map Prod.snd) = .error e) :
    l.load model = .error e ∧
      ∃ d ∈ entries.map Prod.snd, e = .circular d.name ∧ l'.Circular (.decl d) := by
  obtain ⟨arranged, said⟩ := says_of_linked linked
  constructor
  · rw [load_of_linked linked, failed]
    rfl
  · obtain ⟨u, rfl, cycle, d, listed, path⟩ := checkAcyclic_error failed
    obtain ⟨f, member, rfl⟩ := List.mem_map.mp listed
    obtain ⟨g, new, rfl, circular⟩ := arranged.circular_new said intact acyclic member path cycle
    exact ⟨g.2, List.mem_map_of_mem new, rfl, circular⟩

end Library

/-! ## Registries without cycles -/

namespace Registry

variable {h : Hierarchy} {r : Registry}

theorem Consistent.intact (consistent : r.Consistent h) : (Library.mk h r).Intact := by
  apply Library.intact_of_closed consistent.closed
  · intro name d named
    exact ⟨name, named⟩
  · intro name m listed u member d head
    obtain ⟨d', k, head', known, -⟩ := consistent.signatures name m listed u member
    cases head.symm.trans head'
    exact ⟨_, (arity_eq_some.mp known).1⟩

theorem Consistent.declaration (consistent : r.Consistent h) {name : String} {d : DeclId} {t : Ty}
    (named : r.lookup? name = some d) (head : t.head? = some d) : h.declaration t = .decl d := by
  rw [Hierarchy.declaration_of_head head, (consistent.decls name d named).direct]
  rfl

theorem Upright.not_circular (upright : r.Upright h) (u : Ty) : ¬ (Library.mk h r).Circular u := by
  rintro ⟨⟨d, has, path⟩, cycle⟩
  obtain ⟨name, named⟩ : ∃ name, r.lookup? name = some d := by
    rcases has with rfl | known
    · exact ⟨_, upright.object⟩
    · exact known
  rw [upright.declaration named rfl] at path
  exact ((upright.rooted name d named).of_above path).not_above cycle

/-- `e` is the declaration of one of the supertypes of `d`, which the registry names. -/
def Parent (r : Registry) (h : Hierarchy) (e d : DeclId) : Prop :=
  (∃ name, r.lookup? name = some d) ∧ h.Edge d e

theorem Upright.acc_parent (upright : r.Upright h) {t : Ty} (rooted : h.Rooted t) {name : String}
    {d : DeclId} (named : r.lookup? name = some d) (same : t = .decl d) : Acc (r.Parent h) d := by
  induction rooted generalizing name d with
  | intro t _ ih =>
    subst same
    constructor
    rintro e ⟨-, s, above, head⟩
    obtain ⟨name', named'⟩ :=
      (upright.closed.within_supertype (within_decl ⟨name, named⟩) above).head head
    exact ih (.decl e) ⟨s, above, upright.declaration named' head⟩ named' rfl

theorem Upright.wellFounded (upright : r.Upright h) : WellFounded (r.Parent h) := by
  constructor
  intro d
  by_cases known : ∃ name, r.lookup? name = some d
  · obtain ⟨name, named⟩ := known
    exact upright.acc_parent (upright.rooted name d named) named rfl
  · constructor
    rintro e ⟨named, -⟩
    exact absurd named known

end Registry

namespace Session

/-- Where nothing was above itself, the check for cycles fails on a linked model exactly when
something has come to be, it names a new declaration that is above itself, and loading reports it.
So no registry of a session has a cycle, and the way up in it is well-founded. -/
theorem cycles_refused :
    (∀ l l' : Library, ∀ model entries types, l.Intact → (∀ u, ¬ l.Circular u) →
      l.link model = .ok (l', entries, types) →
      ((∃ e, Library.checkAcyclic l'.hierarchy (entries.map Prod.snd) = .error e) ↔
        ∃ u, l'.Circular u) ∧
      ∀ e, Library.checkAcyclic l'.hierarchy (entries.map Prod.snd) = .error e →
        l.load model = .error e ∧ ∃ d ∈ entries.map Prod.snd,
          e.message = d.name ++ " is its own supertype" ∧ l'.Circular (.decl d)) ∧
    ∀ commands, ∀ r ∈ (after commands).registries,
      (Library.mk (after commands).hierarchy r).Intact ∧
      (∀ u, ¬ (Library.mk (after commands).hierarchy r).Circular u) ∧
      WellFounded (r.Parent (after commands).hierarchy) := by
  constructor
  · intro l l' model entries types intact acyclic linked
    refine ⟨Library.checkAcyclic_error_iff linked intact acyclic, ?_⟩
    intro e failed
    obtain ⟨reported, d, new, rfl, circular⟩ :=
      Library.circular_of_checkAcyclic linked intact acyclic failed
    exact ⟨reported, d, new, rfl, circular⟩
  · intro commands r member
    have upright := Session.upright commands member
    exact ⟨upright.intact, upright.not_circular, upright.wellFounded⟩

/-- An interface whose way up forks and comes together again on one side, and comes back on the
other. -/
def ringTypes : List TypeDecl := [
  { name := "Ring", isInterface := true, extended := ["Left", "Right"] },
  { name := "Left", isInterface := true, extended := ["Top"] },
  { name := "Right", isInterface := true, extended := ["Top", "Ring"] },
  { name := "Top", isInterface := true }]

theorem ringTypes_refused : Library.root.Intact ∧ (∀ u, ¬ Library.root.Circular u) ∧
    (∃ l' entries types, Library.root.link ⟨ringTypes⟩ = .ok (l', entries, types) ∧
      Library.checkAcyclic l'.hierarchy (entries.map Prod.snd) = .error (.circular "Ring") ∧
      Library.root.load ⟨ringTypes⟩ = .error (.circular "Ring") ∧ ∃ u, l'.Circular u) ∧
    .root ∈ (after [.fresh]).registries ∧
    WellFounded (Registry.root.Parent (after [.fresh]).hierarchy) := by
  have acyclic : ∀ u, ¬ Library.root.Circular u := Registry.Upright.root.not_circular
  have fresh : .root ∈ (after [.fresh]).registries := List.mem_singleton_self _
  obtain ⟨exact, rooted⟩ := cycles_refused
  refine ⟨Library.intact_root, acyclic, ?_, fresh, (rooted _ _ fresh).2.2⟩
  have accepted : (Library.root.link ⟨ringTypes⟩).isOk = true := by decide +kernel
  have refused : (do
      let (l', entries, _) ← Library.root.link ⟨ringTypes⟩
      Library.checkAcyclic l'.hierarchy (entries.map Prod.snd)) = .error (.circular "Ring") := by
    decide +kernel
  obtain ⟨⟨l', entries, types⟩, linked⟩ := exists_of_isOk accepted
  rw [linked] at refused
  obtain ⟨iff, reports⟩ := exact _ _ _ _ _ Library.intact_root acyclic linked
  exact ⟨l', entries, types, linked, refused, (reports _ refused).1, iff.mp ⟨_, refused⟩⟩

end Session

end NominalGenerics
