import NominalGenerics.Proofs.Derived
import NominalGenerics.Proofs.Loading

/-!
# Where a parameterisation arrives

A parameterisation of class types arrives at a use of the target's declaration or says that there is
no path to it. From a type with its arguments it arrives exactly when the target is above the type,
unless a class on the way counts as implementing the target without being below it. A raw or diamond
type has no arguments to carry up, so it is not asked whether the target is above it: it is seen as
any declaration, related or not (`parameterize_arrives`).
-/

namespace NominalGenerics

namespace Context

variable {Γ : Context} {ids : List DeclId} {t target : Ty} {d g : DeclId}

theorem parameterize_class (head : t.head? = some d) (head' : target.head? = some g) :
    ∃ fuel, Γ.parameterize t target = Γ.climb (Γ.parameterizeWithin fuel) t target := by
  obtain ⟨fuel, enough⟩ := Nat.exists_eq_succ_of_ne_zero
    (Nat.ne_zero_of_lt (Γ.hierarchy.weight_lt_budget (t.weight + target.weight)))
  refine ⟨fuel, ?_⟩
  rw [parameterize, enough, parameterizeWithin, parameterizeStep_class head head']

/-- A use without arguments sees itself, or another declaration without arguments. -/
theorem parameterize_of_erased (sound : Γ.hierarchy.Sound ids) (head : t.head? = some d)
    (head' : target.head? = some g)
    (erased : Γ.hierarchy.isRaw t = true ∨ t.isDiamond = true) :
    (Γ.parameterize t target).result =
      .ok (if d = g then t else Γ.hierarchy.erasedUse t (.decl g)) := by
  obtain ⟨fuel, climbs⟩ := parameterize_class (Γ := Γ) head head'
  rw [climbs, climb, sound.direct.declaration head']
  by_cases same : d = g
  · rw [if_pos ((Ty.is_iff head head').mpr same), if_pos same]
    rfl
  · have skips : (Γ.hierarchy.isRaw t || t.isDiamond) = true := by simpa using erased
    simp only [Ty.is_eq_false head head' same, skips, if_neg same, if_true, Bool.false_eq_true,
      if_false]
    rfl

/-- No direct supertype leads to what is not above the type. -/
theorem Honest.nextSupertype_eq_none (honest : Γ.Honest d g) (sound : Γ.hierarchy.Sound ids)
    (head : t.head? = some d) (apart : ¬ Γ.hierarchy.Reaches d g) :
    Γ.nextSupertype t (.decl g) = none := by
  by_contra found
  obtain ⟨w, found⟩ := Option.ne_none_iff_exists'.mp found
  obtain ⟨written, leads⟩ := nextSupertype_leads found
  obtain ⟨-, c, above, edge⟩ := sound.supertype head written
  exact apart (.head edge ((honest.tested sound head w written c above).mp leads))

/-- From a type with its arguments there is no way to what is not above it. -/
theorem Honest.parameterize_unrelated (honest : Γ.Honest d g) (sound : Γ.hierarchy.Sound ids)
    (head : t.head? = some d) (head' : target.head? = some g)
    (notRaw : Γ.hierarchy.isRaw t = false) (notDiamond : t.isDiamond = false)
    (apart : ¬ Γ.hierarchy.Reaches d g) :
    (Γ.parameterize t target).result =
      .error (.violation ⟨.unrelated t.name target.name, t, target⟩) := by
  obtain ⟨fuel, climbs⟩ := parameterize_class (Γ := Γ) head head'
  have other : d ≠ g := by
    rintro rfl
    exact apart .refl
  rw [climbs, climb, sound.direct.declaration head']
  simp only [Ty.is_eq_false head head' other, notRaw, notDiamond, Bool.or_false, Bool.false_eq_true,
    if_false, honest.nextSupertype_eq_none sound head apart]
  rfl

end Context

/-- A parameterisation of class types arrives at the target's declaration or finds no path. From a
raw or diamond type it always arrives. From any other it arrives exactly when the target's
declaration is above, provided that what counts as implementing the target on the way is below
it. -/
theorem parameterize_arrives {h : Hierarchy} {rs : List Registry} (loaded : h.Loaded rs)
    {scope scope' : Scope} (opens : h.Opens rs scope) (opens' : h.Opens rs scope')
    {hint target : Ty} (reads : h.Reads rs scope hint) (reads' : h.Reads rs scope' target)
    {d g : DeclId} (head : hint.head? = some d) (head' : target.head? = some g) (e : Engine) :
    ((∃ u, (e.parameterize h hint target).result = .ok u ∧ u.head? = some g) ∨
      ∃ v, (e.parameterize h hint target).result = .error (.violation v) ∧
        v.cause.kind = "no hierarchy path") ∧
    (h.isRaw hint = true ∨ hint.isDiamond = true → (e.parameterize h hint target).result =
      .ok (if d = g then hint else h.erasedUse hint (.decl g))) ∧
    (h.isRaw hint = false → hint.isDiamond = false → (e.context h).Honest d g →
      (h.Reaches d g → ∃ u, (e.parameterize h hint target).result = .ok u ∧ u.head? = some g) ∧
      (¬ h.Reaches d g → (e.parameterize h hint target).result =
        .error (.violation ⟨.unrelated hint.name target.name, hint, target⟩))) := by
  obtain ⟨ids, sound, known⟩ := loaded.sound
  have whole := reads.whole sound known opens
  have listed := sound.keptUp_whole.listed (reads'.whole sound known opens') head'
  have result : (e.parameterize h hint target).result =
      ((e.context h).parameterize hint target).result := Traced.result_reported _
  have sound : (e.context h).hierarchy.Sound ids := sound
  have ends := Context.parameterize_kept sound sound.keptUp_whole whole head head' listed
  rw [result]
  refine ⟨?_, ?_, ?_⟩
  · rcases ends with ⟨u, ok, -, here⟩ | ⟨v, failed, cause, -⟩
    · exact .inl ⟨u, ok, here⟩
    · exact .inr ⟨v, failed, by rw [Cause.kind, cause]; rfl⟩
  · exact Context.parameterize_of_erased sound head head'
  · intro notRaw notDiamond honest
    refine ⟨?_, honest.parameterize_unrelated sound head head' notRaw notDiamond⟩
    intro reaches
    rcases ends with ⟨u, ok, -, here⟩ | ⟨v, -, -, misled⟩
    · exact ⟨u, ok, here⟩
    · exact absurd ⟨honest, reaches⟩ misled

/-- Whether one declaration is above another can be computed. -/
theorem Hierarchy.Loaded.reaches_iff {h : Hierarchy} {rs : List Registry} (loaded : h.Loaded rs)
    {t : Ty} (reads : h.Reads rs .empty t) {d g : DeclId} (head : t.head? = some d) :
    h.Reaches d g ↔ (Context.mk h "").isSubtype t (.decl g) = true := by
  obtain ⟨ids, sound, known⟩ := loaded.sound
  have whole := reads.whole sound known .empty
  exact (Context.isSubtype_class (Γ := ⟨h, ""⟩) rfl sound head rfl
    (sound.keptUp_whole.listed whole head)).symm

/-- A bag is a box and a pile is not. A script is below the marker through its base, and extends a
draft that only counts as implementing it. -/
def draftModel : ClassModel := { types := [
  { name := "GroovyObject", isInterface := true },
  { name := "Draft", isInterface := true, inCompilation := true },
  { name := "Base", implemented := ["GroovyObject"] },
  { name := "Script", extended := ["Base"], implemented := ["Draft"] },
  { name := "Box", params := ["T"] },
  { name := "Bag", params := ["X"], extended := ["Box<X>"] },
  { name := "Pile", params := ["P"] }] }

def draftLibrary : Library := .ofModel draftModel

theorem loaded_draftLibrary : draftLibrary.hierarchy.Loaded [draftLibrary.registry, .root] :=
  Library.loaded_ofModel draftModel (by decide +kernel)

theorem reads_draftLibrary {text : String}
    (ok : ((draftLibrary.reader .empty).parseType text).isOk = true) :
    draftLibrary.hierarchy.Reads [draftLibrary.registry, .root] .empty (draftLibrary.typeOf text) :=
  Library.reads_typeIn List.mem_cons_self ok

/-- A bag of scripts is seen as a box and not as a pile, but a raw bag is seen as a pile. -/
theorem bag_arrives :
    (∃ u, ((Engine.ofSettings {}).parameterize draftLibrary.hierarchy
        (draftLibrary.typeOf "Bag<Script>") (draftLibrary.typeOf "Box")).result = .ok u ∧
      u.head? = some ⟨"Box", 6⟩) ∧
    ((Engine.ofSettings {}).parameterize draftLibrary.hierarchy
        (draftLibrary.typeOf "Bag<Script>") (draftLibrary.typeOf "Pile")).result =
      .error (.violation ⟨.unrelated (draftLibrary.typeOf "Bag<Script>").name
          (draftLibrary.typeOf "Pile").name, draftLibrary.typeOf "Bag<Script>",
        draftLibrary.typeOf "Pile"⟩) ∧
    ((Engine.ofSettings {}).parameterize draftLibrary.hierarchy
        (draftLibrary.typeOf "Bag") (draftLibrary.typeOf "Pile")).result =
      .ok (draftLibrary.hierarchy.erasedUse (draftLibrary.typeOf "Bag") (.decl ⟨"Pile", 8⟩)) := by
  have quiet : ∀ {g : DeclId}, g.name ≠ "GroovyObject" →
      ((Engine.ofSettings {}).context draftLibrary.hierarchy).Quiet g := fun other _ => other
  have readable : ∀ text ∈ ["Bag<Script>", "Bag", "Box", "Pile"],
      ((draftLibrary.reader .empty).parseType text).isOk = true := by decide +kernel
  have bags : ((draftLibrary.typeOf "Bag<Script>").head? = some ⟨"Bag", 7⟩ ∧
      (draftLibrary.typeOf "Bag").head? = some ⟨"Bag", 7⟩) ∧
      draftLibrary.hierarchy.isRaw (draftLibrary.typeOf "Bag<Script>") = false ∧
      (draftLibrary.typeOf "Bag<Script>").isDiamond = false ∧
      draftLibrary.hierarchy.isRaw (draftLibrary.typeOf "Bag") = true := by decide +kernel
  have goals : (draftLibrary.typeOf "Box").head? = some ⟨"Box", 6⟩ ∧
      (draftLibrary.typeOf "Pile").head? = some ⟨"Pile", 8⟩ := by decide +kernel
  have below : (Context.mk draftLibrary.hierarchy "").isSubtype (draftLibrary.typeOf "Bag<Script>")
        (.decl ⟨"Box", 6⟩) = true ∧
      (Context.mk draftLibrary.hierarchy "").isSubtype (draftLibrary.typeOf "Bag<Script>")
        (.decl ⟨"Pile", 8⟩) = false := by decide +kernel
  obtain ⟨⟨bag, raw⟩, notRaw, notDiamond, isRaw⟩ := bags
  have reads : ∀ text ∈ ["Bag<Script>", "Bag", "Box", "Pile"], draftLibrary.hierarchy.Reads
      [draftLibrary.registry, .root] .empty (draftLibrary.typeOf text) :=
    fun text member => reads_draftLibrary (readable text member)
  have readsBag := reads "Bag<Script>" (by decide)
  refine ⟨?_, ?_, ?_⟩
  · have arrives := (parameterize_arrives loaded_draftLibrary .empty .empty readsBag
      (reads "Box" (by decide)) bag goals.1 (Engine.ofSettings {})).2.2 notRaw notDiamond
    refine (arrives (quiet (by decide)).honest).1 ?_
    exact (loaded_draftLibrary.reaches_iff readsBag bag).mpr below.1
  · have arrives := (parameterize_arrives loaded_draftLibrary .empty .empty readsBag
      (reads "Pile" (by decide)) bag goals.2 (Engine.ofSettings {})).2.2 notRaw notDiamond
    refine (arrives (quiet (by decide)).honest).2 ?_
    rw [loaded_draftLibrary.reaches_iff readsBag bag, below.2]
    exact Bool.false_ne_true
  · have arrives := (parameterize_arrives loaded_draftLibrary .empty .empty
      (reads "Bag" (by decide)) (reads "Pile" (by decide)) raw goals.2
      (Engine.ofSettings {})).2.1 (.inl isRaw)
    rwa [if_neg (by decide)] at arrives

/-- A raw bag is seen as a pile, which it is not below, and a script is not seen as the marker,
which it is below: the climb follows the draft. -/
theorem raw_and_draft_mistaken :
    (¬ draftLibrary.hierarchy.Reaches ⟨"Bag", 7⟩ ⟨"Pile", 8⟩ ∧
      ((Engine.ofSettings {}).parameterize draftLibrary.hierarchy (draftLibrary.typeOf "Bag")
        (draftLibrary.typeOf "Pile")).result.isOk = true) ∧
    draftLibrary.hierarchy.Reaches ⟨"Script", 5⟩ ⟨"GroovyObject", 2⟩ ∧
      ((Engine.ofSettings {}).parameterize draftLibrary.hierarchy (draftLibrary.typeOf "Script")
        (draftLibrary.typeOf "GroovyObject")).result.isOk = false := by
  have readable : ∀ text ∈ ["Bag", "Script"],
      ((draftLibrary.reader .empty).parseType text).isOk = true := by decide +kernel
  have heads : (draftLibrary.typeOf "Bag").head? = some ⟨"Bag", 7⟩ ∧
      (draftLibrary.typeOf "Script").head? = some ⟨"Script", 5⟩ := by decide +kernel
  have bag := reads_draftLibrary (readable "Bag" (by decide))
  have script := reads_draftLibrary (readable "Script" (by decide))
  refine ⟨⟨?_, by decide +kernel⟩, ?_, by decide +kernel⟩
  · rw [loaded_draftLibrary.reaches_iff bag heads.1]
    decide +kernel
  · rw [loaded_draftLibrary.reaches_iff script heads.2]
    decide +kernel

end NominalGenerics
