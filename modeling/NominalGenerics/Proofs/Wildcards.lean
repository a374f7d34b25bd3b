import NominalGenerics.Proofs.Clashes
import NominalGenerics.Proofs.Levels
import NominalGenerics.Proofs.Termination

/-!
# Wildcards as arguments

Two uses of a declaration with one parameter are compared by their arguments. Where the bound has a
wildcard, an argument that is a type is asked for as the wildcard asks for that type, but of a type
parameter only the declaration's parameter is looked at (`argument_in_wildcard`). A wildcard with
several upper bounds is let in when one of them alone is all that is asked for, though together they
may be more than that (`wildcard_in_wildcard`).
-/

namespace NominalGenerics

/-! ## One argument -/

/-- A type with an argument is an application. -/
theorem Hierarchy.eq_app_of_args {h : Hierarchy} {ids : List DeclId} {P : ParamSet} {t : Ty}
    {d : DeclId} {a : Slot} (formed : t.Formed (h.arity ids) P) (head : t.head? = some d)
    (args : h.args t = [a]) : ∃ site, t = .app site d [a] := by
  cases t with
  | decl e =>
    rw [Hierarchy.args, Formed.params_eq_nil formed] at args
    cases args
  | app site e as =>
    cases head
    cases args
    exact ⟨site, rfl⟩
  | bare | param | array => cases args

namespace Context

variable {Γ : Context} {ids : List DeclId} {t bound u : Ty} {d : DeclId} {p s w : Slot}

/-- Uses of a declaration with one parameter are compared by their one argument. -/
theorem argumentsMatch_single (sound : Γ.hierarchy.Sound ids)
    (whole : t.Formed (Γ.hierarchy.arity ids) (.whole (Γ.hierarchy.arity ids)))
    (whole' : bound.Formed (Γ.hierarchy.arity ids) (.whole (Γ.hierarchy.arity ids)))
    (head : t.head? = some d) (head' : bound.head? = some d) (single : Γ.hierarchy.params d = [p])
    (args : Γ.hierarchy.args t = [s]) (args' : Γ.hierarchy.args bound = [w]) :
    ∃ boundArgs candidateArgs, boundArgs.get? p.name = some w ∧
      ∀ n, (Γ.argumentsMatch (n + 1) t bound).result =
        (fitsArgument (Γ.isCompatible n) s p boundArgs candidateArgs).result := by
  obtain ⟨site, rfl⟩ := Hierarchy.eq_app_of_args whole head args
  obtain ⟨site', rfl⟩ := Hierarchy.eq_app_of_args whole' head' args'
  obtain ⟨candidateArgs, ok, -⟩ := Hierarchy.arguments_whole whole
  obtain ⟨boundArgs, ok', direct⟩ := sound.arguments_direct whole' head' (List.cons_ne_nil w [])
  obtain ⟨a, listed, found⟩ := direct p (by rw [single]; exact List.mem_singleton_self p)
  cases List.mem_singleton.mp listed
  refine ⟨boundArgs, candidateArgs, found, ?_⟩
  intro n
  rw [argumentsMatch, argumentsMatchStep_uses (sound.direct d) (List.cons_ne_nil _ _)
    (List.cons_ne_nil _ _) (by rw [single]; rfl) ok' ok, single]
  exact result_allM_singleton _ _

section Fits

variable {A : Arity} {accept : Slot → Ty → Traced Bool} {boundArgs candidateArgs : Spec}

/-- A type is asked for as the wildcard asks for it. -/
theorem fitsArgument_of_type (plain : s.isWildcard = false) (notParam : s.isParam = false)
    (found : boundArgs.get? p.name = some w) (closed : w.Formed A .none)
    (isWildcard : w.kind = .wildcard) :
    fitsArgument accept s p boundArgs candidateArgs = accept w s.ty := by
  have known := withBounds_known candidateArgs closed isWildcard
  unfold fitsArgument
  simp only [notParam, Bool.false_eq_true, if_false, found, Option.getD_some, isWildcard]
  unfold fitsWildcard
  dsimp only at known ⊢
  rw [known, plain]
  rfl

/-- A type parameter is not asked for: the declared parameter is asked about the wildcard's
bounds. -/
theorem fitsArgument_of_param (isParam : s.isParam = true) (apart : s.name ≠ p.name)
    (found : boundArgs.get? p.name = some w) (isWildcard : w.kind = .wildcard) :
    fitsArgument accept s p boundArgs candidateArgs =
      match w.lower with
      | some l => accept p l
      | none => w.upper.anyM (accept p) := by
  unfold fitsArgument
  cases lower : w.lower <;>
    simp only [isParam, if_true, beq_eq_false_iff_ne.mpr apart, Bool.false_eq_true, if_false, found,
      isWildcard, lower]

/-- Of a wildcard bounded above, the bounds are asked for in turn. -/
theorem fitsArgument_of_extending {site site' : Site} {us ws : List Ty} (bounded : us ≠ [])
    (found : boundArgs.get? p.name = some (.extending site' ws))
    (closed : (Slot.extending site' ws).Formed A .none) :
    fitsArgument accept (.extending site us) p boundArgs candidateArgs =
      us.anyM (accept (.extending site' ws)) := by
  have known := withBounds_known candidateArgs closed rfl
  unfold fitsArgument
  simp only [found, Option.getD_some]
  unfold fitsWildcard
  dsimp only at known ⊢
  rw [known]
  exact if_neg (c := us.isEmpty = true) (by rwa [List.isEmpty_iff])

/-- What a wildcard bounded above asks of a type. -/
theorem isCompatible_extending {site : Site} {ws : List Ty} (plain : u.isParam = false) (n : Nat) :
    Γ.isCompatible n (.extending site ws) u =
      if u.isDiamond then pure true
      else if ws.all (Γ.isSubtype u) then ws.allM (Γ.argumentsMatch n u) else pure false := by
  unfold isCompatible accepts
  simp only [plain, Bool.false_and, Bool.false_eq_true, if_false]
  rfl

/-- A wildcard bounded above accepts diamonds, and types that are below each bound and whose
arguments match those of the bound. -/
theorem exists_isCompatible_extending {site : Site} {ws : List Ty} (plain : u.isParam = false) :
    (∃ n, (Γ.isCompatible n (.extending site ws) u).result = .ok true) ↔ u.isDiamond = true ∨
      ∀ v ∈ ws, Γ.isSubtype u v = true ∧ ∃ n, (Γ.argumentsMatch n u v).result = .ok true := by
  have kept : ∀ {m n}, m ≤ n → ∀ v, (Γ.argumentsMatch m u v).KeptBy (Γ.argumentsMatch n u v) :=
    fun more v => argumentsMatch_of_le more u v
  simp only [isCompatible_extending plain]
  cases u.isDiamond with
  | true => simp
  | false =>
    cases all : ws.all (Γ.isSubtype u) with
    | true =>
      simp only [Bool.false_eq_true, if_false, if_true, false_or, exists_allM_eq_true kept]
      rw [List.all_eq_true] at all
      exact forall₂_congr fun v listed => (and_iff_right (all v listed)).symm
    | false =>
      simp only [Bool.false_eq_true, if_false, false_or]
      constructor
      · rintro ⟨n, ⟨⟩⟩
      · intro each
        rw [List.all_eq_true.mpr fun v listed => (each v listed).1] at all
        cases all

/-- A wildcard with several upper bounds accepts what each of them alone would. -/
theorem exists_isCompatible_each {site : Site} {ws : List Ty} (plain : u.isParam = false) :
    (∃ n, (Γ.isCompatible n (.extending site ws) u).result = .ok true) ↔
      ∀ v ∈ ws, ∃ n, (Γ.isCompatible n (.extending site [v]) u).result = .ok true := by
  simp only [exists_isCompatible_extending plain, List.forall_mem_singleton]
  cases u.isDiamond <;> simp

end Fits

end Context

open Engine

/-! ## Types and type parameters -/

/-- An argument that is a type matches a closed wildcard exactly when the wildcard accepts the type.
A type parameter by another name than the declared one matches when the declared parameter accepts
the wildcard's lower bound or, if it has none, one of its upper bounds. -/
theorem argument_in_wildcard {h : Hierarchy} {rs : List Registry} (loaded : h.Loaded rs)
    {scope : Scope} (opens : h.Opens rs scope) {t bound : Ty} (reads : h.Reads rs scope t)
    (reads' : h.Reads rs .empty bound) {d : DeclId} {p s w : Slot} (head : t.head? = some d)
    (head' : bound.head? = some d) (single : h.params d = [p]) (args : h.args t = [s])
    (args' : h.args bound = [w]) (plain : s.isWildcard = false) (isWildcard : w.kind = .wildcard)
    (marker : String) (answer : Bool) :
    (s.isParam = false → (Concludes marker (·.argumentsMatch h t bound) answer ↔
      Concludes marker (·.isCompatible h w s.ty) answer)) ∧
    (s.isParam = true → s.name ≠ p.name →
      (∀ l, w.lower = some l → (Concludes marker (·.argumentsMatch h t bound) answer ↔
        Concludes marker (·.isCompatible h p l) answer)) ∧
      (w.lower = none → (Concludes marker (·.argumentsMatch h t bound) answer ↔
        ConcludesAny marker (fun u e => e.isCompatible h p u) w.upper answer))) := by
  obtain ⟨ids, sound, known⟩ := loaded.sound
  have whole := reads.whole sound known opens
  have closed := reads'.closed known
  have closedW : w.Formed (h.arity ids) .none :=
    Hierarchy.args_formed closed (by rw [args']; exact List.mem_singleton_self w)
  obtain ⟨boundArgs, candidateArgs, found, compared⟩ :=
    Context.argumentsMatch_single (Γ := ⟨h, marker⟩) sound whole closed.whole head head' single args
      args'
  rw [concludes_argumentsMatch]
  simp only [compared]
  refine ⟨?_, ?_⟩
  · intro notParam
    simp only [Context.fitsArgument_of_type plain notParam found closedW isWildcard,
      concludes_isCompatible]
  · intro isParam apart
    simp only [Context.fitsArgument_of_param isParam apart found isWildcard]
    refine ⟨?_, ?_⟩
    · intro l lower
      simp only [lower, concludes_isCompatible]
    · intro lower
      simp only [lower, concludesAny_isCompatible]

def weatherModel : ClassModel := { types := [
  { name := "Wet", isInterface := true },
  { name := "Cold", isInterface := true },
  { name := "Sea", implemented := ["Wet", "Cold"] },
  { name := "Box", params := ["E"] }] }

def weatherLibrary : Library := .ofModel weatherModel

theorem loaded_weatherLibrary :
    weatherLibrary.hierarchy.Loaded [weatherLibrary.registry, .root] :=
  Library.loaded_ofModel weatherModel (by decide +kernel)

theorem reads_weatherLibrary {scope : Scope} {text : String}
    (ok : ((weatherLibrary.reader scope).parseType text).isOk = true) :
    weatherLibrary.hierarchy.Reads [weatherLibrary.registry, .root] scope
      (weatherLibrary.typeIn scope text) :=
  Library.reads_typeIn List.mem_cons_self ok

def coldScope : Scope := weatherLibrary.scopeIn ["T extends Cold"]

def coldBox : Ty := weatherLibrary.typeIn coldScope "Box<T>"

def wetBox : Ty := weatherLibrary.typeOf "Box<? extends Wet>"

/-- The sea goes for something wet because it is wet. A type parameter goes for it though it is only
cold, because the box's own parameter asks for nothing. -/
theorem boxes_of_wet :
    Concludes "GroovyObject" (·.argumentsMatch weatherLibrary.hierarchy
      (weatherLibrary.typeOf "Box<Sea>") wetBox) true ∧
    Concludes "GroovyObject" (·.argumentsMatch weatherLibrary.hierarchy coldBox wetBox) true := by
  have readable : ((weatherLibrary.reader .empty).parseType "Box<Sea>").isOk = true ∧
      ((weatherLibrary.reader .empty).parseType "Box<? extends Wet>").isOk = true ∧
      ((weatherLibrary.reader coldScope).parseType "Box<T>").isOk = true := by decide +kernel
  have heads : (weatherLibrary.typeOf "Box<Sea>").head? = some ⟨"Box", 5⟩ ∧
      wetBox.head? = some ⟨"Box", 5⟩ ∧ coldBox.head? = some ⟨"Box", 5⟩ := by decide +kernel
  have single : weatherLibrary.hierarchy.params ⟨"Box", 5⟩ = [.parameter ⟨9, 0⟩ "E" []] := by
    decide +kernel
  have args : weatherLibrary.hierarchy.args (weatherLibrary.typeOf "Box<Sea>") =
        [.exact ⟨⟨12, 4⟩, false⟩ (.decl ⟨"Sea", 4⟩)] ∧
      weatherLibrary.hierarchy.args wetBox = [.extending ⟨12, 4⟩ [.decl ⟨"Wet", 2⟩]] ∧
      weatherLibrary.hierarchy.args coldBox =
        [.param ⟨⟨12, 4⟩, false⟩ none ⟨13, 0⟩ "T" [.decl ⟨"Cold", 3⟩]] := by decide +kernel
  have wet := reads_weatherLibrary readable.2.1
  constructor
  · refine ((argument_in_wildcard loaded_weatherLibrary .empty (reads_weatherLibrary readable.1) wet
      heads.1 heads.2.1 single args.1 args.2.1 rfl rfl _ true).1 rfl).mpr ?_
    rw [concludes_isCompatible]
    refine ⟨1, toOption_eq_some.mp ?_⟩
    decide +kernel
  · refine (((argument_in_wildcard loaded_weatherLibrary
      (Library.opens_scopeIn List.mem_cons_self _) (reads_weatherLibrary readable.2.2) wet
      heads.2.2 heads.2.1 single args.2.2 args.2.1 rfl rfl _ true).2 rfl (by decide)).2 rfl).mpr ?_
    rw [concludesAny_isCompatible]
    refine ⟨1, toOption_eq_some.mp ?_⟩
    decide +kernel

/-- Any type parameter is accepted by the wildcard without bounds, but a box of it is not a box of
that wildcard. One that is cold is not accepted for something wet, but a box of it is. -/
theorem typeParameter_unasked :
    (Concludes "GroovyObject" (·.argumentsMatch weatherLibrary.hierarchy coldBox
        (weatherLibrary.typeOf "Box<?>")) false ∧
      Concludes "GroovyObject" (·.isCompatible weatherLibrary.hierarchy
        (weatherLibrary.slotIn .empty "?") (weatherLibrary.typeIn coldScope "T")) true) ∧
    Concludes "GroovyObject" (·.argumentsMatch weatherLibrary.hierarchy coldBox wetBox) true ∧
      Concludes "GroovyObject" (·.isCompatible weatherLibrary.hierarchy
        (weatherLibrary.slotIn .empty "? extends Wet") (weatherLibrary.typeIn coldScope "T"))
        false := by
  simp only [concludes_argumentsMatch, concludes_isCompatible]
  refine ⟨⟨⟨1, toOption_eq_some.mp ?_⟩, ⟨1, toOption_eq_some.mp ?_⟩⟩,
    ⟨1, toOption_eq_some.mp ?_⟩, ⟨1, toOption_eq_some.mp ?_⟩⟩ <;> decide +kernel

/-! ## Wildcards with several bounds -/

/-- A closed wildcard bounded above matches another exactly when one of its bounds is accepted for
each bound of the other, and no bound before it keeps the comparison from an answer. -/
theorem wildcard_in_wildcard {h : Hierarchy} {rs : List Registry} (loaded : h.Loaded rs)
    {t bound : Ty} (reads : h.Reads rs .empty t) (reads' : h.Reads rs .empty bound) {d : DeclId}
    {p : Slot} {site site' : Site} {us ws : List Ty} (head : t.head? = some d)
    (head' : bound.head? = some d) (single : h.params d = [p])
    (args : h.args t = [.extending site us]) (args' : h.args bound = [.extending site' ws])
    (bounded : us ≠ []) (marker : String) :
    Concludes marker (·.argumentsMatch h t bound) true ↔
      ∃ before u after, us = before ++ u :: after ∧
        (∀ v ∈ before, Concludes marker (·.isCompatible h (.extending site' ws) v) false) ∧
        ∀ w ∈ ws, Concludes marker (·.isCompatible h (.extending site' [w]) u) true := by
  obtain ⟨ids, sound, known⟩ := loaded.sound
  have closed := reads.closed known
  have closed' := reads'.closed known
  have closedU : (Slot.extending site us).Formed (h.arity ids) .none :=
    Hierarchy.args_formed closed (by rw [args]; exact List.mem_singleton_self _)
  have closedW : (Slot.extending site' ws).Formed (h.arity ids) .none :=
    Hierarchy.args_formed closed' (by rw [args']; exact List.mem_singleton_self _)
  obtain ⟨boundArgs, candidateArgs, found, compared⟩ :=
    Context.argumentsMatch_single (Γ := ⟨h, marker⟩) sound closed.whole closed'.whole head head'
      single args args'
  have plain : ∀ u ∈ us, u.isParam = false := by
    intro u listed
    exact (Slot.parts_closed sound.arity_object closedU (Slot.upper_mem_parts listed)).not_isParam
  have inTurn : Concludes marker (·.argumentsMatch h t bound) true ↔
      ConcludesAny marker (fun u e => e.isCompatible h (.extending site' ws) u) us true := by
    rw [concludes_argumentsMatch, concludesAny_isCompatible]
    simp only [compared, Context.fitsArgument_of_extending bounded found closedW]
  rw [inTurn]
  refine exists_congr fun before => exists_congr fun u => exists_congr fun after => ?_
  refine and_congr_right fun split => and_congr_right fun _ => ?_
  simp only [concludes_isCompatible]
  exact Context.exists_isCompatible_each (plain u (by simp [split]))

/-- What is wet and the sea is wet and cold, since the sea alone is. -/
theorem wetSea_in_wetCold :
    Concludes "GroovyObject" (·.argumentsMatch weatherLibrary.hierarchy
      (weatherLibrary.typeOf "Box<? extends Wet & Sea>")
      (weatherLibrary.typeOf "Box<? extends Wet & Cold>")) true := by
  have readable : ∀ text ∈ ["Box<? extends Wet & Sea>", "Box<? extends Wet & Cold>"],
      ((weatherLibrary.reader .empty).parseType text).isOk = true := by decide +kernel
  have heads :
      (weatherLibrary.typeOf "Box<? extends Wet & Sea>").head? = some ⟨"Box", 5⟩ ∧
      (weatherLibrary.typeOf "Box<? extends Wet & Cold>").head? = some ⟨"Box", 5⟩ := by
    decide +kernel
  have single : weatherLibrary.hierarchy.params ⟨"Box", 5⟩ = [.parameter ⟨9, 0⟩ "E" []] := by
    decide +kernel
  have args :
      weatherLibrary.hierarchy.args (weatherLibrary.typeOf "Box<? extends Wet & Sea>") =
        [.extending ⟨12, 4⟩ [.decl ⟨"Wet", 2⟩, .decl ⟨"Sea", 4⟩]] ∧
      weatherLibrary.hierarchy.args (weatherLibrary.typeOf "Box<? extends Wet & Cold>") =
        [.extending ⟨12, 4⟩ [.decl ⟨"Wet", 2⟩, .decl ⟨"Cold", 3⟩]] := by
    decide +kernel
  refine (wildcard_in_wildcard loaded_weatherLibrary
    (reads_weatherLibrary (readable _ List.mem_cons_self))
    (reads_weatherLibrary (readable _ (List.mem_cons_of_mem _ List.mem_cons_self))) heads.1 heads.2
    single args.1 args.2 (List.cons_ne_nil _ _) _).mpr
    ⟨[.decl ⟨"Wet", 2⟩], .decl ⟨"Sea", 4⟩, [], rfl, ?_, ?_⟩
  · simp only [List.forall_mem_singleton, concludes_isCompatible]
    refine ⟨1, toOption_eq_some.mp ?_⟩
    decide +kernel
  · simp only [List.forall_mem_cons, concludes_isCompatible]
    refine ⟨⟨1, toOption_eq_some.mp ?_⟩, ⟨1, toOption_eq_some.mp ?_⟩, nofun⟩ <;> decide +kernel

/-- What is wet and cold does not match itself, though each of its bounds accepts itself. -/
theorem wetCold_unlike_itself :
    Concludes "GroovyObject" (·.argumentsMatch weatherLibrary.hierarchy
      (weatherLibrary.typeOf "Box<? extends Wet & Cold>")
      (weatherLibrary.typeOf "Box<? extends Wet & Cold>")) false ∧
    Concludes "GroovyObject" (·.isCompatible weatherLibrary.hierarchy
      (weatherLibrary.slotIn .empty "? extends Wet") (weatherLibrary.typeOf "Wet")) true ∧
    Concludes "GroovyObject" (·.isCompatible weatherLibrary.hierarchy
      (weatherLibrary.slotIn .empty "? extends Cold") (weatherLibrary.typeOf "Cold")) true := by
  simp only [concludes_argumentsMatch, concludes_isCompatible]
  refine ⟨⟨1, toOption_eq_some.mp ?_⟩, ⟨1, toOption_eq_some.mp ?_⟩,
    ⟨1, toOption_eq_some.mp ?_⟩⟩ <;> decide +kernel

end NominalGenerics
