import NominalGenerics.Proofs.Members

/-!
# Looking methods up by name

A method is looked for under the name of a type's declaration and then under the names of its
ancestors, in the order of these names. So a method of the type itself comes first, and among
inherited ones the first name decides (`Library.foundMethod_first`). Which declaration is below
which does not matter: a method may be found though an ancestor in between declares it again
(`Library.overridden_method_found`).
-/

namespace NominalGenerics

def Registry.Declares (r : Registry) (d : DeclId) (name : String) : Prop :=
  name ∈ (r.methodsOf d.name).map Signature.name

instance (r : Registry) (d : DeclId) (name : String) : Decidable (r.Declares d name) :=
  inferInstanceAs (Decidable (_ ∈ _))

instance (h : Hierarchy) (d e : DeclId) : Decidable (h.Edge d e) :=
  inferInstanceAs (Decidable (∃ t ∈ h.supertypes (.decl d), _))

namespace Registry

variable {h : Hierarchy} {r : Registry} {d c o : DeclId} {t : Ty} {name : String} {m : Signature}

theorem find?_methodsOf_eq_none :
    (r.methodsOf d.name).find? (·.name == name) = none ↔ ¬ r.Declares d name := by
  simp [Declares]

theorem declares_of_find? (found : (r.methodsOf d.name).find? (·.name == name) = some m) :
    r.Declares d name := by
  by_contra undeclared
  rw [find?_methodsOf_eq_none.mpr undeclared] at found
  cases found

/-- A look-up tries one name after the other. -/
theorem findMethod?_eq_findSome? : r.findMethod? h t name =
    (owners h t).findSome? fun owner => (r.methodsOf owner).find? (·.name == name) :=
  List.find?_flatMap

/-- Two names of a registry stand for one declaration only if they are the same. -/
theorem Consistent.eq_of_name (consistent : r.Consistent h) (named : r.Named d) (named' : r.Named c)
    (same : d.name = c.name) : d = c := by
  have found := consistent.lookup?_of_named named
  rw [same, consistent.lookup?_of_named named'] at found
  exact (Option.some.inj found).symm

end Registry

/-- What is found under a first name and then under others in their order is found under the first
name that has something. -/
theorem findSome?_sorted {α : Type} {f : String → Option α} {first : String} {names : List String}
    {a : α} (sorted : names.Pairwise (· < ·)) (found : (first :: names).findSome? f = some a) :
    ∃ n ∈ first :: names, f n = some a ∧
      (n ≠ first → f first = none ∧ ∀ k ∈ names, k ≠ n → f k ≠ none → n < k) := by
  cases here : f first with
  | some b =>
    simp only [List.findSome?_cons, here] at found
    exact ⟨first, List.mem_cons_self, here.trans found, fun other => absurd rfl other⟩
  | none =>
    simp only [List.findSome?_cons, here] at found
    obtain ⟨before, n, after, rfl, found, nothing⟩ := List.findSome?_eq_some_iff.mp found
    refine ⟨n, by simp, found, fun _ => ⟨rfl, ?_⟩⟩
    intro k listed other known
    rcases List.mem_append.mp listed with passed | listed
    · exact absurd (nothing k passed) known
    · have later := (List.mem_cons.mp listed).resolve_left other
      exact (List.pairwise_cons.mp (List.pairwise_append.mp sorted).2.1).1 k later

namespace Library

/-- A method is found on a class type if its declaration or one above declares a method of that
name. What is found is the first such method of its owner, and where that is not the declaration
itself, the declaration has no such method and every other ancestor that has one has a later
name. -/
theorem foundMethod_first {h : Hierarchy} {rs : List Registry} (loaded : h.Loaded rs) {r : Registry}
    (member : r ∈ rs) {source : Nat} {text : String} {t : Ty}
    (read : (Reader.mk h r .empty source).parseType text = .ok t) (isClass : t.kind = .cls)
    (name : String) : ∃ d, t.head? = some d ∧
      ((∃ c, h.Reaches d c ∧ r.Declares c name) → ∃ m, r.findMethod? h t name = some m) ∧
      ∀ m, r.findMethod? h t name = some m → ∃ o, h.Reaches d o ∧ m.owner = some (.decl o) ∧
        (r.methodsOf o.name).find? (·.name == name) = some m ∧
        (o ≠ d → ¬ r.Declares d name ∧
          ∀ c, Relation.TransGen h.Edge d c → c ≠ o → r.Declares c name → o.name < c.name) := by
  obtain ⟨ids, sound, known⟩ := loaded.sound
  have complete := loaded.complete member
  obtain ⟨d, head⟩ := Ty.head_of_class isClass
  have named : r.Named d := (complete.within_of_parseType read).head head
  have above : ∀ {c}, h.Reaches d c → r.Named c := complete.toConsistent.named_of_reaches named
  refine ⟨d, head, ?_, ?_⟩
  · rintro ⟨c, reaches, declared⟩
    exact findMethod?_isSome sound r head reaches declared
  · intro m found
    have owners : Registry.owners h t = d.name :: h.ancestorNames t := by
      rw [Registry.owners, sound.direct.declaration head]
      rfl
    rw [Registry.findMethod?_eq_findSome?, owners] at found
    obtain ⟨owner, listed, found, first⟩ := findSome?_sorted (h.ancestorNames_sorted t) found
    rw [← owners] at listed
    obtain ⟨o, reaches, rfl⟩ := (mem_owners sound head).mp listed
    obtain ⟨o', same, owned⟩ := complete.owned o.name m (List.mem_of_find?_eq_some found)
    rw [complete.toConsistent.lookup?_of_named (above reaches)] at same
    cases same
    have apart : ∀ {c}, h.Reaches d c → c ≠ o → c.name ≠ o.name := fun reaches' other same =>
      other (complete.toConsistent.eq_of_name (above reaches') (above reaches) same)
    refine ⟨o, reaches, owned, found, ?_⟩
    intro proper
    obtain ⟨passed, later⟩ := first (apart .refl proper.symm).symm
    refine ⟨Registry.find?_methodsOf_eq_none.mp passed, ?_⟩
    intro c path other declared
    have listed : c.name ∈ h.ancestorNames t := by
      have ancestor := (sound.mem_ancestors head).mpr ⟨c, rfl, path⟩
      exact Hierarchy.mem_ancestorNames.mpr ⟨.decl c, ancestor, rfl⟩
    refine later c.name listed (apart path.to_reflTransGen other) ?_
    exact fun none => Registry.find?_methodsOf_eq_none.mp none declared

def petModel : ClassModel := { types := [
  { name := "Text" },
  { name := "Bark", extended := ["Text"] },
  { name := "Animal", methods := [{ name := "cry", returns := "Text" }] },
  { name := "Dog", extended := ["Animal"], methods := [{ name := "cry", returns := "Bark" }] },
  { name := "Puppy", extended := ["Dog"], methods := [{ name := "play" }] }] }

def petLibrary : Library := .ofModel petModel

theorem loaded_petLibrary : petLibrary.hierarchy.Loaded [petLibrary.registry, .root] :=
  loaded_ofModel petModel (by decide +kernel)

/-- The cry of a puppy is inherited from the ancestor that has one and whose name comes first. -/
theorem puppy_cries : ∃ m o,
    petLibrary.registry.findMethod? petLibrary.hierarchy (petLibrary.typeOf "Puppy") "cry" =
      some m ∧ m.owner = some (.decl o) ∧
    ∀ c, Relation.TransGen petLibrary.hierarchy.Edge ⟨"Puppy", 6⟩ c → c ≠ o →
      petLibrary.registry.Declares c "cry" → o.name < c.name := by
  have facts : (petLibrary.typeOf "Puppy").kind = .cls ∧
      (petLibrary.typeOf "Puppy").head? = some ⟨"Puppy", 6⟩ ∧
      ((petLibrary.reader .empty).parseType "Puppy").isOk = true ∧
      petLibrary.hierarchy.Edge ⟨"Puppy", 6⟩ ⟨"Dog", 5⟩ ∧
      petLibrary.registry.Declares ⟨"Dog", 5⟩ "cry" ∧
      ¬ petLibrary.registry.Declares ⟨"Puppy", 6⟩ "cry" := by decide +kernel
  obtain ⟨isClass, head, readable, edge, declared, undeclared⟩ := facts
  have read := parseType_typeIn readable
  have loaded := loaded_petLibrary
  obtain ⟨d, head', finds, first⟩ :=
    foundMethod_first loaded List.mem_cons_self read isClass "cry"
  cases head.symm.trans head'
  obtain ⟨m, found⟩ := finds ⟨_, .single edge, declared⟩
  obtain ⟨o, -, owned, own, later⟩ := first m found
  refine ⟨m, o, found, owned, (later ?_).2⟩
  rintro rfl
  exact undeclared (Registry.declares_of_find? own)

/-- The cry found on a puppy is that of an animal, though a dog, which stands between the two,
declares it again: `Animal` comes before `Dog`. -/
theorem overridden_method_found :
    petLibrary.hierarchy.Loaded [petLibrary.registry, .root] ∧
    (petLibrary.reader .empty).parseType "Puppy" = .ok (petLibrary.typeOf "Puppy") ∧
    (petLibrary.registry.findMethod? petLibrary.hierarchy (petLibrary.typeOf "Puppy") "cry").map
      Signature.owner = some (some (.decl ⟨"Animal", 4⟩)) ∧
    petLibrary.hierarchy.Edge ⟨"Puppy", 6⟩ ⟨"Dog", 5⟩ ∧
    petLibrary.hierarchy.Edge ⟨"Dog", 5⟩ ⟨"Animal", 4⟩ ∧
    petLibrary.registry.Declares ⟨"Dog", 5⟩ "cry" := by
  have facts : ((petLibrary.reader .empty).parseType "Puppy").isOk = true ∧
      (petLibrary.hierarchy.ancestors (petLibrary.typeOf "Puppy")).map Ty.name =
        ["Dog", "Animal", "Object"] ∧
      petLibrary.hierarchy.Edge ⟨"Puppy", 6⟩ ⟨"Dog", 5⟩ ∧
      petLibrary.hierarchy.Edge ⟨"Dog", 5⟩ ⟨"Animal", 4⟩ ∧
      petLibrary.registry.Declares ⟨"Dog", 5⟩ "cry" := by decide +kernel
  obtain ⟨readable, ancestors, below, above, declared⟩ := facts
  have names : petLibrary.hierarchy.ancestorNames (petLibrary.typeOf "Puppy") =
      ["Animal", "Dog", "Object"] := by
    unfold Hierarchy.ancestorNames
    rw [ancestors]
    simp [List.mergeSort, List.MergeSort.Internal.splitInTwo, Hierarchy.dropRepeats]
  refine ⟨loaded_petLibrary, parseType_typeIn readable, ?_, below, above, declared⟩
  unfold Registry.findMethod? Registry.owners
  rw [names]
  decide +kernel

end Library

end NominalGenerics
