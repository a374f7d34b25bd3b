import NominalGenerics.Proofs.Comparing
import NominalGenerics.Proofs.LowerBounds
import NominalGenerics.Proofs.Untripped

/-!
# When comparisons come to an end

A comparison of arguments climbs to supertypes that may be larger than the type they belong to, and
a lower bound swaps its two sides. Where no supertype is written with a lower bound, comparisons of
closed types come to an end all the same (`closed_comparisons_settle`): each swap strips one lower
bound off one of the sides and no step up adds any; between two swaps the bound gets lighter, or
stays while the candidate goes up.

Neither condition can be dropped (`comparisons_endless`). A class that implements a sink of sinks of
what is above it leads, through the lower bound, back to itself. And a declared parameter bounded by
a use of its own declaration is compared by that bound, which holds the same question again; that
takes type parameters in scope, but no lower bound.
-/

namespace NominalGenerics

/-! ## Computations that settle -/

/-- Some number of levels is enough for an answer, and more levels do not change it. -/
def Settles {α : Type} (x : Nat → Traced α) : Prop :=
  ∃ n r, r ≠ .error .exhausted ∧ ∀ fuel, n ≤ fuel → (x fuel).result = r

namespace Settles

variable {α β : Type} {x y : Nat → Traced α}

theorem of_ok (a : α) (all : ∀ fuel, (x fuel).result = .ok a) : Settles x :=
  ⟨0, .ok a, nofun, fun fuel _ => all fuel⟩

theorem of_violation (v : Violation) (all : ∀ fuel, (x fuel).result = .error (.violation v)) :
    Settles x :=
  ⟨0, .error (.violation v), nofun, fun fuel _ => all fuel⟩

theorem congr (settles : Settles x) (same : ∀ fuel, (y fuel).result = (x fuel).result) :
    Settles y := by
  obtain ⟨n, r, answered, stays⟩ := settles
  exact ⟨n, r, answered, fun fuel enough => (same fuel).trans (stays fuel enough)⟩

theorem succ (settles : Settles fun fuel => x (fuel + 1)) : Settles x := by
  obtain ⟨n, r, answered, stays⟩ := settles
  refine ⟨n + 1, r, answered, ?_⟩
  intro fuel enough
  obtain ⟨fuel, rfl⟩ : ∃ k, fuel = k + 1 := ⟨fuel - 1, by omega⟩
  exact stays fuel (by omega)

theorem bind {f : Nat → α → Traced β} (first : Settles x)
    (rest : ∀ a, Settles fun fuel => f fuel a) : Settles fun fuel => x fuel >>= f fuel := by
  obtain ⟨n, r, answered, stays⟩ := first
  cases r with
  | error e =>
    refine ⟨n, .error e, fun out => answered (by cases out; rfl), ?_⟩
    intro fuel enough
    rw [Traced.result_bind, stays fuel enough]
    rfl
  | ok a =>
    obtain ⟨m, r, answered, stays'⟩ := rest a
    refine ⟨max n m, r, answered, ?_⟩
    intro fuel enough
    rw [Traced.result_bind, stays fuel (by omega)]
    exact stays' fuel (by omega)

theorem allM {xs : List α} {test : Nat → α → Traced Bool}
    (each : ∀ a ∈ xs, Settles fun fuel => test fuel a) :
    Settles fun fuel => xs.allM (test fuel) := by
  induction xs with
  | nil => exact of_ok true fun _ => rfl
  | cons a xs ih =>
    refine bind (each a List.mem_cons_self) ?_
    intro passed
    cases passed with
    | true => exact ih fun b member => each b (List.mem_cons_of_mem _ member)
    | false => exact of_ok false fun _ => rfl

theorem anyM {xs : List α} {test : Nat → α → Traced Bool}
    (each : ∀ a ∈ xs, Settles fun fuel => test fuel a) :
    Settles fun fuel => xs.anyM (test fuel) := by
  induction xs with
  | nil => exact of_ok false fun _ => rfl
  | cons a xs ih =>
    refine bind (each a List.mem_cons_self) ?_
    intro passed
    cases passed with
    | true => exact of_ok true fun _ => rfl
    | false => exact ih fun b member => each b (List.mem_cons_of_mem _ member)

end Settles

/-! ## Comparisons -/

namespace Context

variable {Γ : Context} {ids : List DeclId} {A : Arity} {matching : Nat → Ty → Ty → Traced Bool}

theorem accepts_settles {slot : Slot} {t : Ty}
    (below : ∀ l, slot.lower = some l → Settles fun fuel => matching fuel l t)
    (above : ∀ u ∈ slot.parts, Settles fun fuel => matching fuel t u) :
    Settles fun fuel => Γ.accepts (matching fuel) slot t := by
  unfold accepts
  dsimp only
  split
  · exact .of_ok true fun _ => rfl
  split
  · exact .of_ok _ fun _ => rfl
  split
  · exact .of_ok true fun _ => rfl
  cases slot.kind with
  | wildcard | param =>
    dsimp only
    cases lower : slot.lower with
    | some l =>
      dsimp only
      split
      · exact below l lower
      · exact .of_ok false fun _ => rfl
    | none =>
      dsimp only
      split
      · exact .allM fun u written => above u (Slot.upper_mem_parts written)
      · exact .of_ok false fun _ => rfl
  | exact =>
    dsimp only
    split
    · exact above slot.ty slot.ty_mem_parts
    · exact .of_ok false fun _ => rfl

/-- The bounds of a closed wildcard are no type parameters, so nothing is read for them. -/
theorem withBounds_known {wildcard : Slot} (candidateArgs : Spec)
    (closed : wildcard.Formed A .none) (isWildcard : wildcard.kind = .wildcard) :
    let known (t : Ty) : Ty :=
      if t.isParam then ((candidateArgs.get? t.name).map Slot.ty).getD t else t
    wildcard.withBounds wildcard.site (wildcard.lower.map known) (wildcard.upper.map known) =
      wildcard := by
  intro known
  have same : ∀ t : Ty, t.Formed A .none → known t = t := by
    intro t closed
    cases t with
    | param => exact closed.elim
    | decl | bare | app | array => rfl
  rcases closed.cases_closed with ⟨m, t, rfl, -⟩ | ⟨m, l, us, rfl, lower, uppers⟩
  · cases isWildcard
  · have sameLower : l.map known = l := by
      cases l with
      | none => rfl
      | some t => exact congrArg some (same t (lower t rfl))
    have sameUppers : us.map known = us :=
      (List.map_congr_left fun u written => same u (uppers u written)).trans (List.map_id us)
    exact congr (congrArg (Slot.wildcard m) sameLower) sameUppers

theorem fitsWildcard_settles {supplied wildcard : Slot} (candidateArgs : Spec)
    (closed : wildcard.Formed A .none) (isWildcard : wildcard.kind = .wildcard)
    (accept : ∀ x ∈ supplied.parts, Settles fun fuel => Γ.accepts (matching fuel) wildcard x) :
    Settles fun fuel =>
      fitsWildcard (Γ.accepts (matching fuel)) supplied wildcard candidateArgs := by
  have known := withBounds_known candidateArgs closed isWildcard
  unfold fitsWildcard
  dsimp only at known ⊢
  rw [known]
  split
  · exact accept _ supplied.ty_mem_parts
  · split
    · rename_i x _ written _
      exact accept x (Slot.lower_mem_parts written)
    · exact .of_ok _ fun _ => rfl
    · exact .of_ok _ fun _ => rfl
    · split
      · exact .of_ok _ fun _ => rfl
      · exact .anyM fun x written => accept x (Slot.upper_mem_parts written)

theorem fitsArgument_settles {supplied declared expected : Slot} {boundArgs : Spec}
    (candidateArgs : Spec) (closed : supplied.Formed A .none) (closed' : expected.Formed A .none)
    (found : boundArgs.get? declared.name = some expected)
    (below : ∀ x ∈ supplied.parts, ∀ l, expected.lower = some l →
      Settles fun fuel => matching fuel l x)
    (above : ∀ x ∈ supplied.parts, ∀ u ∈ expected.parts, Settles fun fuel => matching fuel x u) :
    Settles fun fuel =>
      fitsArgument (Γ.accepts (matching fuel)) supplied declared boundArgs candidateArgs := by
  have accept : ∀ x ∈ supplied.parts, Settles fun fuel => Γ.accepts (matching fuel) expected x :=
    fun x part => accepts_settles (below x part) (above x part)
  have notParam : supplied.isParam = false := by
    rcases closed.cases_closed with ⟨m, t, rfl, -⟩ | ⟨m, l, us, rfl, -⟩ <;> rfl
  unfold fitsArgument
  simp only [notParam, Bool.false_eq_true, if_false, found, Option.getD_some]
  cases kind : expected.kind with
  | exact => exact accept _ supplied.ty_mem_parts
  | wildcard => exact fitsWildcard_settles candidateArgs closed' kind accept
  | param =>
    rcases closed'.cases_closed with ⟨m, t, rfl, -⟩ | ⟨m, l, us, rfl, -⟩ <;> cases kind

section Match

variable {t bound : Ty}

/-- Two uses of one declaration: the arguments of the bound are lighter than it, and a lower bound
among them is compared the other way round. -/
theorem matchesArguments_settles (sound : Γ.hierarchy.Sound ids)
    (closed : t.Formed (Γ.hierarchy.arity ids) .none)
    (closed' : bound.Formed (Γ.hierarchy.arity ids) .none) {d : DeclId} (head : t.head? = some d)
    (head' : bound.head? = some d) (applied : Γ.hierarchy.args bound ≠ [])
    (further : ∀ x y : Ty, x.Formed (Γ.hierarchy.arity ids) .none →
      y.Formed (Γ.hierarchy.arity ids) .none → Γ.hierarchy.Smaller ids (x, y) (t, bound) →
        Settles fun fuel => matching fuel x y) :
    Settles fun fuel => Γ.matchesArguments (Γ.accepts (matching fuel)) t bound := by
  by_cases none : Γ.hierarchy.args t = []
  · refine .of_ok true fun fuel => ?_
    unfold matchesArguments
    simp only [none, List.isEmpty_nil, if_true]
    rfl
  obtain ⟨boundArgs, candidateArgs, ok, -, compare⟩ :=
    matchesArguments_eq sound closed.whole closed'.whole head head' none
  obtain ⟨_, same, direct⟩ := sound.arguments_direct closed'.whole head' applied
  cases ok.symm.trans same
  simp only [compare]
  refine .allM ?_
  rintro ⟨p, s⟩ member
  obtain ⟨declared, supplied⟩ := List.of_mem_zip member
  obtain ⟨expected, listed, found⟩ := direct p declared
  obtain ⟨closedS, depthS, -⟩ := Hierarchy.args_closed closed supplied
  obtain ⟨closedE, depthE, lightE⟩ := Hierarchy.args_closed closed' listed
  have part : ∀ {s : Slot} {x : Ty}, s.Formed (Γ.hierarchy.arity ids) .none → x ∈ s.parts →
      x.Formed (Γ.hierarchy.arity ids) .none := Slot.parts_closed sound.arity_object
  refine fitsArgument_settles candidateArgs closedS closedE found ?_ ?_
  · intro x inside l lower
    have shallow := Slot.lowerDepth_part closedS inside
    have deeper : l.lowerDepth < expected.lowerDepth := by
      rcases closedE.cases_closed with ⟨m, t, rfl, -⟩ | ⟨m, l', us, rfl, -⟩
      · cases lower
      · cases lower
        exact Slot.lowerDepth_lower us
    exact further l x (part closedE (Slot.lower_mem_parts lower)) (part closedS inside)
      (.of_swapped (by omega))
  · intro x inside u inside'
    have depthX := Slot.lowerDepth_part closedS inside
    have depthU := Slot.lowerDepth_part closedE inside'
    have light := Slot.weight_part closedE inside'
    exact further x u (part closedS inside) (part closedE inside')
      (.of_lighter (by omega) (by omega) (by omega))

theorem matchesClass_settles (sound : Γ.hierarchy.Sound ids)
    (covariant : Γ.hierarchy.CovariantSupertypes)
    (closed : t.Formed (Γ.hierarchy.arity ids) .none)
    (closed' : bound.Formed (Γ.hierarchy.arity ids) .none) {d : DeclId} (head : t.head? = some d)
    (applied : Γ.hierarchy.args bound ≠ [])
    (further : ∀ x y : Ty, x.Formed (Γ.hierarchy.arity ids) .none →
      y.Formed (Γ.hierarchy.arity ids) .none → Γ.hierarchy.Smaller ids (x, y) (t, bound) →
        Settles fun fuel => matching fuel x y) :
    Settles fun fuel => Γ.matchesClass (matching fuel) t bound := by
  obtain ⟨g, head'⟩ := head_of_args applied
  unfold matchesClass
  split
  · rename_i same
    have same : d = g := (Ty.is_iff head head').mp same
    subst same
    exact matchesArguments_settles sound closed closed' head head' applied further
  · rename_i apart
    have apart : d ≠ g := fun same => apart ((Ty.is_iff head head').mpr same)
    have kept := sound.keptUp_closed covariant t.lowerDepth
    obtain ⟨k, known⟩ := closed'.head head'
    have listed := (Hierarchy.arity_eq_some.mp known).1
    have generic := params_ne_nil_of_args closed' head' applied
    cases matchesAncestor_goesOn sound kept ⟨closed, Nat.le_refl _⟩ head head' listed generic
      apart with
    | stops ended => exact .of_ok false fun fuel => ended (matching fuel)
    | misled _ failed => exact .of_violation _ fun fuel => failed (matching fuel)
    | up holds here higher same =>
      refine Settles.congr (further _ bound holds.1 closed' (.of_higher holds.2 ?_)) fun _ => same _
      rw [Hierarchy.headHeight_eq here, Hierarchy.headHeight_eq head]
      exact higher

/-- Closed types can be compared where no supertype is written with a lower bound. -/
theorem argumentsMatch_settles (sound : Γ.hierarchy.Sound ids)
    (covariant : Γ.hierarchy.CovariantSupertypes)
    (closed : t.Formed (Γ.hierarchy.arity ids) .none)
    (closed' : bound.Formed (Γ.hierarchy.arity ids) .none) :
    Settles fun fuel => Γ.argumentsMatch fuel t bound := by
  generalize same : (t, bound) = task
  induction task using (Γ.hierarchy.smaller_wf ids).induction generalizing t bound with
  | _ task ih =>
    subst same
    have further : ∀ x y : Ty, x.Formed (Γ.hierarchy.arity ids) .none →
        y.Formed (Γ.hierarchy.arity ids) .none → Γ.hierarchy.Smaller ids (x, y) (t, bound) →
          Settles fun fuel => Γ.argumentsMatch fuel x y :=
      fun x y closed closed' smaller => ih (x, y) smaller closed closed' rfl
    refine Settles.succ ?_
    unfold argumentsMatch argumentsMatchStep
    split
    · refine further _ _ (Ty.formed_elem closed) (Ty.formed_elem closed') ?_
      refine .of_lighter (Nat.le_refl _) (Nat.le_refl _) ?_
      rw [Ty.weight]
      omega
    · exact .of_ok true fun _ => rfl
    · split
      · exact .of_ok true fun _ => rfl
      · rename_i applied
        rw [Bool.or_eq_true, not_or, List.isEmpty_iff] at applied
        cases t with
        | param => exact closed.elim
        | array => exact .of_ok false fun _ => rfl
        | decl | bare | app =>
          exact matchesClass_settles sound covariant closed closed' rfl applied.1 further

end Match

end Context

/-- Where no supertype is written with a lower bound, comparisons of what is read without type
parameters in scope come to an end: from some number of levels on the answer is there and stays. It
is a truth value unless the marker names a generic declaration. -/
theorem closed_comparisons_settle {h : Hierarchy} {rs : List Registry} (loaded : h.Loaded rs)
    (covariant : h.CovariantSupertypes) {slot : Slot} {a b : Ty}
    (readsSlot : h.ReadsSlot rs .empty slot) (reads : h.Reads rs .empty a)
    (reads' : h.Reads rs .empty b) (marker : String) :
    ∃ n, ∃ compatible matched : Except Failure Bool,
      compatible ≠ .error .exhausted ∧ matched ≠ .error .exhausted ∧
      ((marker = "" ∨ ∀ r ∈ rs, ∀ d, r.lookup? marker = some d → h.params d = []) →
        (∃ answer, compatible = .ok answer) ∧ ∃ answer, matched = .ok answer) ∧
      ∀ e : Engine, e.settings.marker = marker → n ≤ e.settings.levels →
        (e.isCompatible h slot a).result = compatible ∧
          (e.argumentsMatch h a b).result = matched := by
  obtain ⟨ids, sound, known, named⟩ := loaded.named
  have closedSlot := readsSlot.closed known
  have closed := reads.closed known
  have closed' := reads'.closed known
  have settles : ∀ x y : Ty, x.Formed (h.arity ids) .none → y.Formed (h.arity ids) .none →
      Settles fun fuel => (Context.mk h marker).argumentsMatch fuel x y :=
    fun x y closed closed' => Context.argumentsMatch_settles sound covariant closed closed'
  have part : ∀ {u : Ty}, u ∈ slot.parts → u.Formed (h.arity ids) .none :=
    Slot.parts_closed sound.arity_object closedSlot
  obtain ⟨m, matched, answered', stays'⟩ := settles a b closed closed'
  obtain ⟨n, compatible, answered, stays⟩ : Settles fun fuel =>
      (Context.mk h marker).isCompatible fuel slot a :=
    Context.accepts_settles (fun l lower => settles l a (part (Slot.lower_mem_parts lower)) closed)
      fun u above => settles a u closed (part above)
  refine ⟨max n m, compatible, matched, answered, answered', ?_, ?_⟩
  · intro harmless
    have quiet := Context.quietGenerics named harmless
    have ends : ∀ fuel (x y : Ty), x.Formed (h.arity ids) (.whole (h.arity ids)) →
        y.Formed (h.arity ids) (.whole (h.arity ids)) → Ends (· = .exhausted) (fun _ => True)
          ((Context.mk h marker).argumentsMatch fuel x y).result :=
      fun fuel x y whole whole' => Context.argumentsMatch_ends sound quiet whole whole'
    have endsSlot := Context.accepts_ends (Γ := ⟨h, marker⟩) sound.arity_object (ends n)
      closedSlot.whole closed.whole
    rw [← stays n (Nat.le_refl n)] at answered ⊢
    rw [← stays' m (Nat.le_refl m)] at answered' ⊢
    exact ⟨endsSlot.answered answered, (ends m a b closed.whole closed'.whole).answered answered'⟩
  · rintro e rfl enough
    constructor
    · unfold Engine.isCompatible
      rw [Traced.result_reported]
      exact stays _ (by unfold Engine.levels; omega)
    · unfold Engine.argumentsMatch
      rw [Traced.result_reported]
      exact stays' _ (by unfold Engine.levels; omega)

/-- A nest is a sequence of nests of nests: seen as a sequence it has grown. -/
def nestModel : ClassModel := { types := [
  { name := "Sequence", isInterface := true, params := ["E"] },
  { name := "Nest", params := ["X"], implemented := ["Sequence<Nest<Nest<X>>>"] },
  { name := "Text" }] }

def nestLibrary : Library := .ofModel nestModel

/-- Nests grow on the way up, and the lower bounds swap them with what they are compared with. -/
theorem nests_settle :
    ∃ n, ∃ compatible matched : Except Failure Bool,
      compatible ≠ .error .exhausted ∧ matched ≠ .error .exhausted ∧
      (("GroovyObject" = "" ∨ ∀ r ∈ [nestLibrary.registry, .root], ∀ d,
          r.lookup? "GroovyObject" = some d → nestLibrary.hierarchy.params d = []) →
        (∃ answer, compatible = .ok answer) ∧ ∃ answer, matched = .ok answer) ∧
      ∀ e : Engine, e.settings.marker = "GroovyObject" → n ≤ e.settings.levels →
        (e.isCompatible nestLibrary.hierarchy
          (nestLibrary.slotIn .empty "? extends Sequence<? super Nest<Text>>")
          (nestLibrary.typeOf "Nest<Text>")).result = compatible ∧
        (e.argumentsMatch nestLibrary.hierarchy (nestLibrary.typeOf "Nest<Text>")
          (nestLibrary.typeOf "Sequence<? super Sequence<? super Nest<?>>>")).result = matched := by
  obtain ⟨loads, covariant, readsSlot, reads, reads'⟩ :
      (Library.root.load nestModel).isOk = true ∧ nestLibrary.hierarchy.CovariantSupertypes ∧
      ((nestLibrary.reader .empty).parseSlot
        "? extends Sequence<? super Nest<Text>>").isOk = true ∧
      ((nestLibrary.reader .empty).parseType "Nest<Text>").isOk = true ∧
      ((nestLibrary.reader .empty).parseType
        "Sequence<? super Sequence<? super Nest<?>>>").isOk = true := by
    decide +kernel
  exact closed_comparisons_settle (Library.loaded_ofModel nestModel loads) covariant
    (Library.reads_slotIn List.mem_cons_self readsSlot)
    (Library.reads_typeIn List.mem_cons_self reads)
    (Library.reads_typeIn List.mem_cons_self reads') "GroovyObject"

/-! ## Comparisons without end -/

namespace Context

variable {Γ : Context} {matching : Ty → Ty → Traced Bool} {accept : Slot → Ty → Traced Bool}
  {boundArgs candidateArgs : Spec}

theorem allM_exhausted {α : Type} {a : α} {xs : List α} {test : α → Traced Bool}
    (out : (test a).result = .error .exhausted) :
    ((a :: xs).allM test).result = .error .exhausted := by
  simp only [List.allM, Traced.result_bind, out]
  rfl

theorem allM_passed {α : Type} {a : α} {xs : List α} {test : α → Traced Bool}
    (passed : (test a).result = .ok true) :
    ((a :: xs).allM test).result = (xs.allM test).result := by
  simp only [List.allM, Traced.result_bind, passed]
  rfl

theorem anyM_exhausted {α : Type} {a : α} {xs : List α} {test : α → Traced Bool}
    (out : (test a).result = .error .exhausted) :
    ((a :: xs).anyM test).result = .error .exhausted := by
  simp only [List.anyM, Traced.result_bind, out]
  rfl

/-- What a lower bound asks about. -/
theorem accepts_above {m : Mark} {l u : Ty} (settled : u.isDiamond = false)
    (plain : u.isParam = false) (below : Γ.isSubtype l u = true) :
    Γ.accepts matching (.wildcard m (some l) []) u = matching l u := by
  simp [accepts, settled, plain, Slot.kind, Slot.lower, below]

/-- What a declared parameter with one bound asks about. -/
theorem accepts_parameter {s : Site} {n : String} {b u : Ty} (settled : u.isDiamond = false)
    (plain : u.isParam = false) (below : Γ.isSubtype u b = true) :
    Γ.accepts matching (.parameter s n [b]) u = [b].allM (matching u) := by
  have all : [b].all (Γ.isSubtype u) = true := by simp [below]
  unfold accepts
  simp only [settled, plain, Bool.false_eq_true, if_false, Bool.false_and]
  exact if_pos all

theorem fitsArgument_above {declared : Slot} {m m' : Mark} {l u : Ty} (plain : l.isParam = false)
    (found : boundArgs.get? declared.name = some (.wildcard m' (some l) [])) :
    fitsArgument accept (.exact m u) declared boundArgs candidateArgs =
      accept (.wildcard m' (some l) []) u := by
  simp [fitsArgument, found, Slot.isParam, Slot.kind, fitsWildcard, Slot.isWildcard,
    Slot.withBounds, Slot.lower, Slot.upper, Slot.site, Slot.mark, plain, Slot.ty]

/-- A type parameter of another name sends the bound's argument to the declared parameter. -/
theorem fitsArgument_declared {supplied declared : Slot} {m : Mark} {u : Ty}
    (isParam : supplied.isParam = true) (other : supplied.name ≠ declared.name)
    (found : boundArgs.get? declared.name = some (.wildcard m none [u])) :
    fitsArgument accept supplied declared boundArgs candidateArgs =
      [u].anyM (accept declared) := by
  unfold fitsArgument
  rw [if_pos isParam, if_neg (by simpa using other), found]
  rfl

theorem fitsArgument_same {supplied declared : Slot} (isParam : supplied.isParam = true)
    (same : supplied.name = declared.name) :
    fitsArgument accept supplied declared boundArgs candidateArgs = pure true := by
  unfold fitsArgument
  rw [if_pos isParam, if_pos (by simpa using same)]

/-! ### One level -/

section Level

variable {d : DeclId} {s s' : Site}

/-- Two uses of one declaration are compared argument by argument. -/
theorem argumentsMatchStep_uses {as bs : List Slot}
    (direct : (Γ.hierarchy.content d).standsFor = none) (applied : as ≠ []) (applied' : bs ≠ [])
    (length : (Γ.hierarchy.params d).length = as.length)
    (ok : Γ.hierarchy.arguments (.app s' d bs) = .ok boundArgs)
    (ok' : Γ.hierarchy.arguments (.app s d as) = .ok candidateArgs) :
    Γ.argumentsMatchStep matching (.app s d as) (.app s' d bs) =
      ((Γ.hierarchy.params d).zip as).allM fun (p, a) =>
        fitsArgument (Γ.accepts matching) a p boundArgs candidateArgs := by
  have decl : Γ.hierarchy.declaration (.app s' d bs) = .decl d := by
    simp [Hierarchy.declaration, Ty.head?, direct]
  have same : (Ty.app s d as).is (.app s' d bs) = true := by simp [Ty.is, Ty.head?]
  have rest := matchesArguments_of_arguments (t := .app s d as) decl applied length ok ok'
    (Γ.accepts matching)
  unfold argumentsMatchStep matchesClass
  simp only [same, if_true, rest]
  exact if_neg (by simpa [Hierarchy.args, Hierarchy.isRaw] using applied')

/-- One argument against a lower bound that is below it. -/
theorem argumentsMatchStep_above {p : Slot} {m m' : Mark} {l u : Ty}
    (direct : (Γ.hierarchy.content d).standsFor = none) (params : Γ.hierarchy.params d = [p])
    (plain : l.isParam = false) (settled : u.isDiamond = false) (plain' : u.isParam = false)
    (ok : Γ.hierarchy.arguments (.app s' d [.wildcard m' (some l) []]) = .ok boundArgs)
    (found : boundArgs.get? p.name = some (.wildcard m' (some l) []))
    (ok' : Γ.hierarchy.arguments (.app s d [.exact m u]) = .ok candidateArgs)
    (below : Γ.isSubtype l u = true) (out : (matching l u).result = .error .exhausted) :
    (Γ.argumentsMatchStep matching (.app s d [.exact m u])
      (.app s' d [.wildcard m' (some l) []])).result = .error .exhausted := by
  rw [argumentsMatchStep_uses direct (List.cons_ne_nil _ _) (List.cons_ne_nil _ _)
    (by rw [params]; rfl) ok ok', params]
  refine allM_exhausted ?_
  show (fitsArgument _ _ p boundArgs candidateArgs).result = _
  rw [fitsArgument_above plain found, accepts_above settled plain' below]
  exact out

/-- Two type parameters of one name, of which the second stands for a declared parameter with a
bound. -/
theorem argumentsMatchStep_declared {x y w : Slot} {m : Mark} {n n' : String} {σ τ : Site}
    {u b : Ty} (direct : (Γ.hierarchy.content d).standsFor = none)
    (params : Γ.hierarchy.params d = [.parameter σ n [], .parameter τ n' [b]])
    (first : x.isParam = true) (same : x.name = n) (second : y.isParam = true)
    (other : y.name ≠ n') (settled : u.isDiamond = false) (plain : u.isParam = false)
    (ok : Γ.hierarchy.arguments (.app s' d [w, .wildcard m none [u]]) = .ok boundArgs)
    (found : boundArgs.get? n' = some (.wildcard m none [u]))
    (ok' : Γ.hierarchy.arguments (.app s d [x, y]) = .ok candidateArgs)
    (below : Γ.isSubtype u b = true) (out : (matching u b).result = .error .exhausted) :
    (Γ.argumentsMatchStep matching (.app s d [x, y])
      (.app s' d [w, .wildcard m none [u]])).result = .error .exhausted := by
  rw [argumentsMatchStep_uses direct (List.cons_ne_nil _ _) (List.cons_ne_nil _ _)
    (by rw [params]; rfl) ok ok', params]
  have same : x.name = (Slot.parameter σ n []).name := same
  have other : y.name ≠ (Slot.parameter τ n' [b]).name := other
  refine (allM_passed ?_).trans (allM_exhausted ?_)
  · show (fitsArgument _ x _ boundArgs candidateArgs).result = _
    rw [fitsArgument_same first same]
    rfl
  show (fitsArgument _ y (.parameter τ n' [b]) boundArgs candidateArgs).result = _
  rw [fitsArgument_declared second other found]
  refine anyM_exhausted ?_
  rw [accepts_parameter settled plain below]
  exact allM_exhausted out

/-- A declaration is seen as the interface it is compared with. -/
theorem argumentsMatchStep_interface {bound i u : Ty} (apart : (Ty.decl d).is bound = false)
    (notArray : bound.isArray = false) (applied : (Γ.hierarchy.args bound).isEmpty = false)
    (interface : Γ.hierarchy.isInterface bound = true) (notRoot : (Ty.decl d).isRoot = false)
    (found : (Γ.hierarchy.allInterfaces (.decl d)).find? (·.is bound) = some i)
    (seen : (Γ.parameterize (.decl d) i).result = .ok u) :
    (Γ.argumentsMatchStep matching (.decl d) bound).result = (matching u bound).result := by
  cases bound with
  | array => cases notArray
  | decl | bare | app | param =>
    unfold argumentsMatchStep
    simp only [applied, Hierarchy.isRaw, Bool.or_false, Bool.false_eq_true, if_false, matchesClass,
      apart, matchesAncestor, interface, notRoot, if_true, found, Traced.result_bind, seen]
    rfl

end Level

end Context

/-! ### A library with both loops -/

/-- A drain is a sink of sinks of what is above it, and the second of a pair is bounded by a pair
whose second is. -/
def endlessModel : ClassModel := { types := [
  { name := "Sink", isInterface := true, params := ["Z"] },
  { name := "Drain", implemented := ["Sink<Sink<? super Drain>>"] },
  { name := "Pair", params := ["P", "Q extends Pair<?, ? extends Pair<P, P>>"] }] }

def endlessLibrary : Library := .ofModel endlessModel

@[irreducible]
def endlessContext : Context := ⟨endlessLibrary.hierarchy, ({} : Settings).marker⟩

namespace Endless

def sink : DeclId := ⟨"Sink", 2⟩

def drain : DeclId := ⟨"Drain", 3⟩

def pair : DeclId := ⟨"Pair", 4⟩

theorem arguments_of_get? {h : Hierarchy} {t : Ty} {n : String} {a : Slot}
    (found : (h.arguments t).toOption.bind (·.get? n) = some a) :
    ∃ spec, h.arguments t = .ok spec ∧ spec.get? n = some a := by
  obtain ⟨spec, ok, found⟩ := Option.bind_eq_some_iff.mp found
  exact ⟨spec, toOption_eq_some.mp ok, found⟩

/-- The argument of `Sink<? super Drain>`, the sink written at `s`. -/
def aboveDrain (s : Site) : Slot :=
  .wildcard ⟨⟨s.source, s.offset + 5⟩, false⟩ (some (.decl drain)) []

/-- Where `Sink<? super Drain>` is written: in the question, and in the declaration of drains. -/
def sites : List Site := [⟨11, 10⟩, ⟨10, 5⟩]

/-- A drain seen as a sink. -/
def drainSink : Ty :=
  .app ⟨10, 0⟩ sink [.exact ⟨⟨10, 5⟩, false⟩ (.app ⟨10, 5⟩ sink [aboveDrain ⟨10, 5⟩])]

theorem drain_step (matching : Ty → Ty → Traced Bool) {s : Site} (member : s ∈ sites) :
    (endlessContext.argumentsMatchStep matching (.decl drain) (.app s sink [aboveDrain s])).result =
      (matching drainSink (.app s sink [aboveDrain s])).result := by
  obtain ⟨interface, found, seen⟩ :
      (∀ s ∈ sites, endlessContext.hierarchy.isInterface (.app s sink [aboveDrain s]) = true) ∧
      (∀ s ∈ sites, (endlessContext.hierarchy.allInterfaces (.decl drain)).find?
        (·.is (.app s sink [aboveDrain s])) = some (.decl sink)) ∧
      (endlessContext.parameterize (.decl drain) (.decl sink)).result.toOption =
        some drainSink := by decide +kernel
  exact Context.argumentsMatchStep_interface rfl rfl rfl (interface s member) rfl (found s member)
    (toOption_eq_some.mp seen)

theorem drainSink_step {matching : Ty → Ty → Traced Bool}
    (out : (matching (.decl drain) (.app ⟨10, 5⟩ sink [aboveDrain ⟨10, 5⟩])).result =
      .error .exhausted) {s : Site} (member : s ∈ sites) :
    (endlessContext.argumentsMatchStep matching drainSink (.app s sink [aboveDrain s])).result =
      .error .exhausted := by
  obtain ⟨direct, params, supplied, found, below⟩ :
      (endlessContext.hierarchy.content sink).standsFor = none ∧
      endlessContext.hierarchy.params sink = [.parameter ⟨5, 0⟩ "Z" []] ∧
      (endlessContext.hierarchy.arguments drainSink).toOption.isSome = true ∧
      (∀ s ∈ sites, (endlessContext.hierarchy.arguments
        (.app s sink [aboveDrain s])).toOption.bind (·.get? "Z") = some (aboveDrain s)) ∧
      endlessContext.isSubtype (.decl drain) (.app ⟨10, 5⟩ sink [aboveDrain ⟨10, 5⟩]) = true := by
    decide +kernel
  obtain ⟨boundArgs, ok, found⟩ := arguments_of_get? (found s member)
  obtain ⟨candidateArgs, ok'⟩ := Option.isSome_iff_exists.mp supplied
  exact Context.argumentsMatchStep_above direct params rfl rfl rfl ok found
    (toOption_eq_some.mp ok') below out

theorem drain_endless (fuel : Nat) : ∀ s ∈ sites,
    (endlessContext.argumentsMatch fuel (.decl drain) (.app s sink [aboveDrain s])).result =
        .error .exhausted ∧
      (endlessContext.argumentsMatch fuel drainSink (.app s sink [aboveDrain s])).result =
        .error .exhausted := by
  induction fuel with
  | zero => exact fun _ _ => ⟨rfl, rfl⟩
  | succ fuel ih =>
    intro s member
    have inner := ih ⟨10, 5⟩ (by decide)
    rw [Context.argumentsMatch, Context.argumentsMatch]
    exact ⟨(drain_step _ member).trans (ih s member).2, drainSink_step inner.1 member⟩

/-- `Pair<P, P>` written at `s`, with the type parameter at `node`. -/
def twice (node s : Site) : Ty :=
  .app s pair [.param ⟨⟨s.source, s.offset + 5⟩, false⟩ none node "P" [],
    .param ⟨⟨s.source, s.offset + 8⟩, false⟩ none node "P" []]

/-- `Pair<?, ? extends Pair<P, P>>` written at `s`. -/
def pairOfTwice (node s : Site) : Ty :=
  .app s pair [.anything ⟨s.source, s.offset + 5⟩,
    .extending ⟨s.source, s.offset + 8⟩ [twice node ⟨s.source, s.offset + 18⟩]]

/-- The type parameters and the places where the former is written. -/
def twices : List (Site × Site) := [(⟨8, 0⟩, ⟨11, 0⟩), (⟨8, 0⟩, ⟨11, 18⟩), (⟨7, 0⟩, ⟨9, 28⟩)]

/-- The same for the latter: in the question, and in the declaration of pairs. -/
def pairs : List (Site × Site) := [(⟨8, 0⟩, ⟨11, 0⟩), (⟨7, 0⟩, ⟨9, 10⟩)]

theorem pair_step {matching : Ty → Ty → Traced Bool} {n s n' s' : Site} (member : (n, s) ∈ twices)
    (member' : (n', s') ∈ pairs)
    (out : (matching (twice n' ⟨s'.source, s'.offset + 18⟩) (pairOfTwice ⟨7, 0⟩ ⟨9, 10⟩)).result =
      .error .exhausted) :
    (endlessContext.argumentsMatchStep matching (twice n s) (pairOfTwice n' s')).result =
      .error .exhausted := by
  obtain ⟨direct, params, supplied, found, below⟩ :
      (endlessContext.hierarchy.content pair).standsFor = none ∧
      endlessContext.hierarchy.params pair =
        [.parameter ⟨8, 0⟩ "P" [], .parameter ⟨9, 0⟩ "Q" [pairOfTwice ⟨7, 0⟩ ⟨9, 10⟩]] ∧
      (∀ x ∈ twices,
        (endlessContext.hierarchy.arguments (twice x.1 x.2)).toOption.isSome = true) ∧
      (∀ x ∈ pairs,
        (endlessContext.hierarchy.arguments (pairOfTwice x.1 x.2)).toOption.bind (·.get? "Q") =
          some (.extending ⟨x.2.source, x.2.offset + 8⟩
            [twice x.1 ⟨x.2.source, x.2.offset + 18⟩])) ∧
      ∀ x ∈ pairs, endlessContext.isSubtype (twice x.1 ⟨x.2.source, x.2.offset + 18⟩)
        (pairOfTwice ⟨7, 0⟩ ⟨9, 10⟩) = true := by
    decide +kernel
  obtain ⟨boundArgs, ok, found⟩ := arguments_of_get? (found _ member')
  obtain ⟨candidateArgs, ok'⟩ := Option.isSome_iff_exists.mp (supplied _ member)
  have other : "P" ≠ "Q" := by decide
  exact Context.argumentsMatchStep_declared direct params rfl rfl rfl other rfl rfl ok found
    (toOption_eq_some.mp ok') (below _ member') out

theorem pair_endless (fuel : Nat) : ∀ x ∈ twices, ∀ y ∈ pairs,
    (endlessContext.argumentsMatch fuel (twice x.1 x.2) (pairOfTwice y.1 y.2)).result =
      .error .exhausted := by
  induction fuel with
  | zero => exact fun _ _ _ _ => rfl
  | succ fuel ih =>
    intro x member y member'
    have inside : ∀ y ∈ pairs, (y.1, Site.mk y.2.source (y.2.offset + 18)) ∈ twices := by decide
    rw [Context.argumentsMatch]
    exact pair_step member member' (ih _ (inside y member') (⟨7, 0⟩, ⟨9, 10⟩) (by decide))

end Endless

/-- Over a loaded model, a slot and a type without type parameters, and two types with, whose
comparisons run out of levels however many there are. -/
theorem comparisons_endless :
    endlessLibrary.hierarchy.Loaded [endlessLibrary.registry, .root] ∧
    endlessLibrary.hierarchy.ReadsSlot [endlessLibrary.registry, .root] .empty
      (endlessLibrary.slotIn .empty "? extends Sink<? super Drain>") ∧
    endlessLibrary.hierarchy.Reads [endlessLibrary.registry, .root] .empty
      (endlessLibrary.typeOf "Drain") ∧
    endlessLibrary.hierarchy.Reads [endlessLibrary.registry, .root]
      (endlessLibrary.hierarchy.scopeOf ⟨"Pair", 4⟩)
      (endlessLibrary.typeIn (endlessLibrary.hierarchy.scopeOf ⟨"Pair", 4⟩) "Pair<P, P>") ∧
    endlessLibrary.hierarchy.Reads [endlessLibrary.registry, .root]
      (endlessLibrary.hierarchy.scopeOf ⟨"Pair", 4⟩)
      (endlessLibrary.typeIn (endlessLibrary.hierarchy.scopeOf ⟨"Pair", 4⟩)
        "Pair<?, ? extends Pair<P, P>>") ∧
    ∀ levels : Nat,
      ((Engine.ofSettings { levels := levels }).isCompatible endlessLibrary.hierarchy
        (endlessLibrary.slotIn .empty "? extends Sink<? super Drain>")
        (endlessLibrary.typeOf "Drain")).result = .error .exhausted ∧
      ((Engine.ofSettings { levels := levels }).argumentsMatch endlessLibrary.hierarchy
        (endlessLibrary.typeIn (endlessLibrary.hierarchy.scopeOf ⟨"Pair", 4⟩) "Pair<P, P>")
        (endlessLibrary.typeIn (endlessLibrary.hierarchy.scopeOf ⟨"Pair", 4⟩)
          "Pair<?, ? extends Pair<P, P>>")).result = .error .exhausted := by
  obtain ⟨loads, readsSlot, reads, readsUse, readsBound⟩ :
      (Library.root.load endlessModel).isOk = true ∧
      ((endlessLibrary.reader .empty).parseSlot "? extends Sink<? super Drain>").isOk = true ∧
      ((endlessLibrary.reader .empty).parseType "Drain").isOk = true ∧
      ((endlessLibrary.reader (endlessLibrary.hierarchy.scopeOf ⟨"Pair", 4⟩)).parseType
        "Pair<P, P>").isOk = true ∧
      ((endlessLibrary.reader (endlessLibrary.hierarchy.scopeOf ⟨"Pair", 4⟩)).parseType
        "Pair<?, ? extends Pair<P, P>>").isOk = true := by
    decide +kernel
  refine ⟨Library.loaded_ofModel endlessModel loads,
    Library.reads_slotIn List.mem_cons_self readsSlot,
    Library.reads_typeIn List.mem_cons_self reads,
    Library.reads_typeIn List.mem_cons_self readsUse,
    Library.reads_typeIn List.mem_cons_self readsBound, ?_⟩
  obtain ⟨slot, candidate, use, bound, below⟩ :
      endlessLibrary.slotIn .empty "? extends Sink<? super Drain>" =
        .extending ⟨11, 0⟩ [.app ⟨11, 10⟩ Endless.sink [Endless.aboveDrain ⟨11, 10⟩]] ∧
      endlessLibrary.typeOf "Drain" = .decl Endless.drain ∧
      endlessLibrary.typeIn (endlessLibrary.hierarchy.scopeOf ⟨"Pair", 4⟩) "Pair<P, P>" =
        Endless.twice ⟨8, 0⟩ ⟨11, 0⟩ ∧
      endlessLibrary.typeIn (endlessLibrary.hierarchy.scopeOf ⟨"Pair", 4⟩)
        "Pair<?, ? extends Pair<P, P>>" = Endless.pairOfTwice ⟨8, 0⟩ ⟨11, 0⟩ ∧
      endlessContext.isSubtype (.decl Endless.drain)
        (.app ⟨11, 10⟩ Endless.sink [Endless.aboveDrain ⟨11, 10⟩]) = true := by
    decide +kernel
  intro levels
  have context : (Engine.ofSettings { levels := levels }).context endlessLibrary.hierarchy =
      endlessContext := by
    unfold endlessContext
    rfl
  rw [slot, candidate, use, bound]
  constructor
  · unfold Engine.isCompatible Context.isCompatible
    have ground : (Ty.decl Endless.drain).Ground fun _ => some 0 := rfl
    rw [Traced.result_reported, context, Context.accepts_extending ground, if_pos below]
    exact (Endless.drain_endless _ ⟨11, 10⟩ (by decide)).1
  · unfold Engine.argumentsMatch
    rw [Traced.result_reported, context]
    exact Endless.pair_endless _ (⟨8, 0⟩, ⟨11, 0⟩) (by decide) (⟨8, 0⟩, ⟨11, 0⟩) (by decide)

end NominalGenerics
