import NominalGenerics.Proofs.Equivariance

/-!
# Comparisons of renamed types

Comparing types that differ from others only in the names of their type parameters gives the same
answer, as long as the renaming spares the declarations: level by level for the arguments
(`argumentsMatch_echoes`), and so for a slot and a candidate (`isCompatible_echoes`). Where a
comparison fails, it fails in the same way about the renamed types.
-/

namespace NominalGenerics

/-! ## Outcomes -/

/-- The outcome for renamed types: the same answer, or the same failure about renamed types. -/
def Traced.Echoes (ρ : String → String) (x x' : Traced Bool) : Prop :=
  x'.result = renameOutcome ρ id x.result

namespace Traced.Echoes

variable {α : Type} {ρ : String → String} {x x' y y' : Traced Bool}

theorem answer (b : Bool) : Echoes ρ (Pure.pure b) (Pure.pure b) := rfl

theorem ite {c : Bool} (yes : c = true → Echoes ρ x x') (no : c = false → Echoes ρ y y') :
    Echoes ρ (if c then x else y) (if c then x' else y') := by
  cases c with
  | true => exact yes rfl
  | false => exact no rfl

theorem bind {x x' : Traced α} {f : α → α} {rest rest' : α → Traced Bool}
    (first : x'.result = renameOutcome ρ f x.result)
    (further : ∀ a, x.result = .ok a → Echoes ρ (rest a) (rest' (f a))) :
    Echoes ρ (x >>= rest) (x' >>= rest') := by
  unfold Echoes
  rw [Traced.result_bind, Traced.result_bind, first]
  cases ended : x.result with
  | ok a => exact further a ended
  | error e => rfl

variable {β : Type} {as : List α} {f : α → β} {test : α → Traced Bool} {test' : β → Traced Bool}

theorem allM (each : ∀ a ∈ as, Echoes ρ (test a) (test' (f a))) :
    Echoes ρ (as.allM test) ((as.map f).allM test') := by
  induction as with
  | nil => rfl
  | cons a as ih =>
    refine bind (f := id) (each a List.mem_cons_self) ?_
    intro passed _
    cases passed with
    | true => exact ih fun b member => each b (List.mem_cons_of_mem _ member)
    | false => rfl

theorem anyM (each : ∀ a ∈ as, Echoes ρ (test a) (test' (f a))) :
    Echoes ρ (as.anyM test) ((as.map f).anyM test') := by
  induction as with
  | nil => rfl
  | cons a as ih =>
    refine bind (f := id) (each a List.mem_cons_self) ?_
    intro passed _
    cases passed with
    | true => rfl
    | false => exact ih fun b member => each b (List.mem_cons_of_mem _ member)

end Traced.Echoes

namespace Context

variable {Γ : Context} {ids : List DeclId} {good : String → Prop} {ρ : String → String}

/-! ## Slots -/

/-- A comparison of types that does not depend on the names of their type parameters. -/
def Indifferent (Γ : Context) (ids : List DeclId) (good : String → Prop) (ρ : String → String)
    (matching : Ty → Ty → Traced Bool) : Prop :=
  ∀ x y : Ty, x.Lettered (Γ.hierarchy.arity ids) good → y.Lettered (Γ.hierarchy.arity ids) good →
    (matching x y).Echoes ρ (matching (x.rename ρ) (y.rename ρ))

def SlotIndifferent (Γ : Context) (ids : List DeclId) (good : String → Prop)
    (ρ : String → String) (accept : Slot → Ty → Traced Bool) : Prop :=
  ∀ (s : Slot) (t : Ty), s.Lettered (Γ.hierarchy.arity ids) good →
    t.Lettered (Γ.hierarchy.arity ids) good →
    (accept s t).Echoes ρ (accept (s.rename ρ) (t.rename ρ))

section Slots

variable {slot : Slot} {t : Ty} {n : String}

theorem slot_name_rename (spares : Γ.hierarchy.Spares ids good ρ)
    (lettered : slot.Lettered (Γ.hierarchy.arity ids) good) (bound : slot.isWildcard = false)
    (name : good n) : (slot.rename ρ).name = ρ n ↔ slot.name = n := by
  cases slot with
  | exact m t => exact spares.name_rename lettered.2.2 name
  | rebound => cases lettered
  | param m l s k bs =>
    have name' : good k := (ParamSet.named_iff.mp lettered.2.2).1
    have same : ρ k = ρ n ↔ k = n := ⟨spares.injective k n name' name, congrArg ρ⟩
    cases l <;> exact same
  | wildcard => cases bound

/-- A type parameter meets a bound of its own name, whatever the name. -/
theorem pivot_rename (spares : Γ.hierarchy.Spares ids good ρ)
    (slotLettered : slot.Lettered (Γ.hierarchy.arity ids) good)
    (lettered : t.Lettered (Γ.hierarchy.arity ids) good) :
    (t.isParam && (slot.lower.map (Ty.rename ρ) <|> (slot.upper.map (Ty.rename ρ)).head?).any
      (·.name == (t.rename ρ).name)) =
    (t.isParam && (slot.lower <|> slot.upper.head?).any (·.name == t.name)) := by
  cases t with
  | param s n bs =>
    have renamed : (slot.lower.map (Ty.rename ρ) <|> (slot.upper.map (Ty.rename ρ)).head?) =
        (slot.lower <|> slot.upper.head?).map (Ty.rename ρ) := by
      cases slot.lower with
      | none => exact List.head?_map
      | some l => rfl
    have bounds : ∀ b, (slot.lower <|> slot.upper.head?) = some b →
        b.Lettered (Γ.hierarchy.arity ids) good := by
      intro b found
      cases lower : slot.lower with
      | none =>
        rw [lower] at found
        exact ParamSet.named_bounded.upper slotLettered (List.mem_of_mem_head? found)
      | some l =>
        rw [lower] at found
        cases found
        exact slotLettered.lower lower
    rw [renamed]
    cases found : (slot.lower <|> slot.upper.head?) with
    | none => rfl
    | some b =>
      have same : (b.rename ρ).name = ρ n ↔ b.name = n :=
        spares.name_rename (bounds b found) lettered.name_good
      rw [Bool.eq_iff_iff]
      simpa [Ty.isParam, Ty.rename, Ty.name] using same
  | decl | bare | app | array => rfl

theorem byBounds_echoes (spares : Γ.hierarchy.Spares ids good ρ) (sound : Γ.hierarchy.Sound ids)
    {matching : Ty → Ty → Traced Bool} (further : Γ.Indifferent ids good ρ matching)
    (slotLettered : slot.Lettered (Γ.hierarchy.arity ids) good)
    (lettered : t.Lettered (Γ.hierarchy.arity ids) good) :
    Traced.Echoes ρ
      (match slot.lower with
      | some l => if Γ.isSubtype l t then matching l t else pure false
      | none =>
        if slot.upper.all (Γ.isSubtype t) then slot.upper.allM (matching t) else pure false)
      (match slot.lower.map (Ty.rename ρ) with
      | some l => if Γ.isSubtype l (t.rename ρ) then matching l (t.rename ρ) else pure false
      | none =>
        if (slot.upper.map (Ty.rename ρ)).all (Γ.isSubtype (t.rename ρ)) then
          (slot.upper.map (Ty.rename ρ)).allM (matching (t.rename ρ))
        else pure false) := by
  have uppers : ∀ u ∈ slot.upper, u.Lettered (Γ.hierarchy.arity ids) good :=
    fun u written => ParamSet.named_bounded.upper slotLettered written
  cases lower : slot.lower with
  | some l =>
    have lettered' := slotLettered.lower lower
    simp only [Option.map_some, isSubtype_rename spares sound lettered' lettered]
    exact .ite (fun _ => further l t lettered' lettered) fun _ => .answer false
  | none =>
    have all : (slot.upper.map (Ty.rename ρ)).all (Γ.isSubtype (t.rename ρ)) =
        slot.upper.all (Γ.isSubtype t) :=
      all_rename fun u written => isSubtype_rename spares sound lettered (uppers u written)
    simp only [Option.map_none, all]
    refine .ite (fun _ => .allM ?_) fun _ => .answer false
    exact fun u written => further t u lettered (uppers u written)

/-- Whether a slot accepts a type does not depend on names, if the comparisons of types do not. -/
theorem accepts_echoes (spares : Γ.hierarchy.Spares ids good ρ) (sound : Γ.hierarchy.Sound ids)
    {matching : Ty → Ty → Traced Bool} (further : Γ.Indifferent ids good ρ matching) :
    Γ.SlotIndifferent ids good ρ (Γ.accepts matching) := by
  intro slot t slotLettered lettered
  have typed := Hierarchy.Slot.Formed.ty slotLettered sound.arity_object
  have byBounds := byBounds_echoes spares sound further slotLettered lettered
  unfold accepts
  dsimp only
  simp only [Ty.isDiamond_rename, Ty.isParam_rename, Slot.isWildcard_rename, Slot.kind_rename,
    Slot.lower_rename, Slot.upper_rename, Slot.ty_rename, pivot_rename spares slotLettered lettered]
  refine .ite (fun _ => .answer true) fun _ => .ite ?_ fun _ => .ite (fun _ => .answer true) ?_
  · intro named
    rw [Bool.and_eq_true, Bool.not_eq_true'] at named
    obtain ⟨isParam, bound⟩ := named
    cases t with
    | param s n bs =>
      have same : (ρ n == (slot.rename ρ).name) = (n == slot.name) := by
        rw [Bool.eq_iff_iff, beq_iff_eq, beq_iff_eq, eq_comm, eq_comm (a := n)]
        exact slot_name_rename spares slotLettered bound lettered.name_good
      show Traced.Echoes ρ (pure (n == slot.name)) (pure (ρ n == (slot.rename ρ).name))
      rw [same]
      exact .answer _
    | decl | bare | app | array => cases isParam
  · intro _
    cases slot.kind with
    | wildcard | param => exact byBounds
    | exact =>
      dsimp only
      rw [spares.is_rename lettered typed]
      exact .ite (fun _ => further t slot.ty lettered typed) fun _ => .answer false

/-! ## Arguments -/

theorem withBounds_rename {f f' : Ty → Ty} (isWildcard : slot.kind = .wildcard)
    (lower : ∀ l, slot.lower = some l → f' (l.rename ρ) = (f l).rename ρ)
    (upper : ∀ u ∈ slot.upper, f' (u.rename ρ) = (f u).rename ρ) :
    (slot.rename ρ).withBounds (slot.rename ρ).site ((slot.rename ρ).lower.map f')
      ((slot.rename ρ).upper.map f') =
    (slot.withBounds slot.site (slot.lower.map f) (slot.upper.map f)).rename ρ := by
  have uppers : (slot.rename ρ).upper.map f' = Ty.renameAll ρ (slot.upper.map f) := by
    rw [Slot.upper_rename, Ty.renameAll_eq_map, List.map_map, List.map_map]
    exact List.map_congr_left upper
  rw [uppers]
  cases slot with
  | exact | rebound | param => cases isWildcard
  | wildcard m l us =>
    cases l with
    | none => rfl
    | some l =>
      rw [Slot.lower_rename, Slot.lower, Option.map_some, Option.map_some, lower l rfl]
      rfl

variable {accept : Slot → Ty → Traced Bool}
  {boundArgs boundArgs' candidateArgs candidateArgs' : Spec}

theorem isUnbounded_rename (slot : Slot) : (slot.rename ρ).isUnbounded = slot.isUnbounded := by
  unfold Slot.isUnbounded
  rw [Slot.lower_rename, Slot.upper_rename, Option.isNone_map, List.all_map]
  exact congrArg _ (congrArg _ (funext Ty.isRoot_rename))

/-- What a bound is read as, given the arguments of a candidate. -/
abbrev readFrom (candidateArgs : Spec) (t : Ty) : Ty :=
  if t.isParam then ((candidateArgs.get? t.name).map Slot.ty).getD t else t

theorem readFrom_rename (spares : Γ.hierarchy.Spares ids good ρ) (sound : Γ.hierarchy.Sound ids)
    (mirrors : Γ.hierarchy.Mirrors ids good ρ candidateArgs candidateArgs')
    (lettered : t.Lettered (Γ.hierarchy.arity ids) good) :
    readFrom candidateArgs' (t.rename ρ) = (readFrom candidateArgs t).rename ρ := by
  cases t with
  | param s n bs =>
    have found := spares.get?_rename sound mirrors.renamed mirrors.tallies lettered.name_good
    simp only [readFrom, Ty.rename, Ty.isParam, if_true, Ty.name, found]
    cases candidateArgs.get? n with
    | none => rfl
    | some s => exact Slot.ty_rename s
  | decl | bare | app | array => rfl

theorem fitsWildcard_echoes (spares : Γ.hierarchy.Spares ids good ρ) (sound : Γ.hierarchy.Sound ids)
    (further : Γ.SlotIndifferent ids good ρ accept) {supplied wildcard : Slot}
    (lettered : supplied.Lettered (Γ.hierarchy.arity ids) good)
    (lettered' : wildcard.Lettered (Γ.hierarchy.arity ids) good)
    (isWildcard : wildcard.kind = .wildcard)
    (mirrors : Γ.hierarchy.Mirrors ids good ρ candidateArgs candidateArgs') :
    Traced.Echoes ρ (fitsWildcard accept supplied wildcard candidateArgs)
      (fitsWildcard accept (supplied.rename ρ) (wildcard.rename ρ) candidateArgs') := by
  have narrowed := withBounds_formed ParamSet.named_bounded lettered' isWildcard
    fun t formed => known_formed sound.arity_object mirrors.tallies.values formed
  have renamed := withBounds_rename (ρ := ρ) isWildcard
    (fun l written => readFrom_rename spares sound mirrors (lettered'.lower written))
    fun u written =>
      readFrom_rename spares sound mirrors (ParamSet.named_bounded.upper lettered' written)
  unfold fitsWildcard
  dsimp only
  rw [renamed]
  generalize Slot.withBounds _ _ _ wildcard = wildcard at narrowed
  simp only [Slot.isWildcard_rename, Slot.ty_rename, Slot.lower_rename, Slot.upper_rename,
    isUnbounded_rename, List.isEmpty_map]
  refine .ite (fun _ => ?_) fun _ => ?_
  · exact further _ _ narrowed (Hierarchy.Slot.Formed.ty lettered sound.arity_object)
  cases lower : supplied.lower with
  | some l =>
    cases wildcard.lower with
    | some l' => exact further _ l narrowed (lettered.lower lower)
    | none => exact .answer _
  | none =>
    cases wildcard.lower with
    | some l' => exact .answer _
    | none =>
      refine .ite (fun _ => .answer _) fun _ => .anyM ?_
      exact fun u written => further _ u narrowed (ParamSet.named_bounded.upper lettered written)

theorem getD_rename {found found' : Option Slot} {s : Slot}
    (renamed : found' = found.map (Slot.rename ρ)) :
    found'.getD (s.rename ρ) = (found.getD s).rename ρ := by
  rw [renamed]
  cases found <;> rfl

theorem get?_name_rename (spares : Γ.hierarchy.Spares ids good ρ) (sound : Γ.hierarchy.Sound ids)
    (mirrors : Γ.hierarchy.Mirrors ids good ρ candidateArgs candidateArgs')
    (lettered : slot.Lettered (Γ.hierarchy.arity ids) good) (isParam : slot.isParam = true) :
    candidateArgs'.get? (slot.rename ρ).name =
      (candidateArgs.get? slot.name).map (Slot.rename ρ) := by
  cases slot with
  | param m l s n bs =>
    have name : good n := (ParamSet.named_iff.mp lettered.2.2).1
    have found := spares.get?_rename sound mirrors.renamed mirrors.tallies name
    cases l <;> exact found
  | exact | rebound | wildcard => cases isParam

theorem getD_lettered {spec : Spec} {n : String} {s : Slot}
    (tallies : Γ.hierarchy.Tallies ids good spec)
    (lettered : s.Lettered (Γ.hierarchy.arity ids) good) :
    ((spec.get? n).getD s).Lettered (Γ.hierarchy.arity ids) good := by
  cases found : spec.get? n with
  | none => exact lettered
  | some known => exact tallies.values n known found

/-- Comparing an argument with a parameter of the declaration, which keeps its name. -/
theorem fitsArgument_echoes (spares : Γ.hierarchy.Spares ids good ρ) (sound : Γ.hierarchy.Sound ids)
    (further : Γ.SlotIndifferent ids good ρ accept) {d : DeclId} {supplied declared : Slot}
    (lettered : supplied.Lettered (Γ.hierarchy.arity ids) good)
    (member : declared ∈ Γ.hierarchy.params d)
    (bounds : Γ.hierarchy.Mirrors ids good ρ boundArgs boundArgs')
    (candidates : Γ.hierarchy.Mirrors ids good ρ candidateArgs candidateArgs') :
    Traced.Echoes ρ (fitsArgument accept supplied declared boundArgs candidateArgs)
      (fitsArgument accept (supplied.rename ρ) declared boundArgs' candidateArgs') := by
  obtain ⟨name, nameStays⟩ := spares.param_name sound member
  have stays : declared.rename ρ = declared := spares.param_rename member
  have letteredD : declared.Lettered (Γ.hierarchy.arity ids) good :=
    spares.param_lettered sound member
  have typed : ∀ {s : Slot}, s.Lettered (Γ.hierarchy.arity ids) good →
      s.ty.Lettered (Γ.hierarchy.arity ids) good :=
    fun lettered => Hierarchy.Slot.Formed.ty lettered sound.arity_object
  unfold fitsArgument
  rw [Slot.isParam_rename]
  refine .ite (fun isParam => ?_) fun _ => ?_
  · have bound : supplied.isWildcard = false := by
      cases supplied with
      | wildcard => cases isParam
      | exact | rebound | param => rfl
    -- names of two scopes meet here: that of the declaration must be one that stays
    have same := slot_name_rename spares lettered bound name
    rw [nameStays, ← beq_iff_eq, ← beq_iff_eq (a := supplied.name), ← Bool.eq_iff_iff] at same
    rw [same, bounds.renamed declared.name]
    refine .ite (fun _ => .answer true) fun _ => ?_
    cases found : boundArgs.get? declared.name with
    | none => exact .answer false
    | some expected =>
      have formed := bounds.tallies.values _ _ found
      simp only [Option.map_some, Slot.kind_rename, Slot.lower_rename, Slot.upper_rename,
        Slot.ty_rename]
      cases expected.kind with
      | param => exact .answer true
      | wildcard =>
        cases lower : expected.lower with
        | some l =>
          have first := further declared l letteredD (formed.lower lower)
          rwa [stays] at first
        | none =>
          refine .anyM fun u written => ?_
          have first := further declared u letteredD (ParamSet.named_bounded.upper formed written)
          rwa [stays] at first
      | exact =>
        -- the key is renamed along with the argument, and finds what it found before
        dsimp only
        rw [getD_rename (get?_name_rename spares sound candidates lettered isParam)]
        exact further _ _ (getD_lettered candidates.tallies lettered) (typed formed)
  · -- where the bound has nothing for it the declared parameter is expected, which is not renamed
    have renamed : (boundArgs'.get? declared.name).getD declared =
        ((boundArgs.get? declared.name).getD declared).rename ρ := by
      have getD := getD_rename (s := declared) (bounds.renamed declared.name)
      rwa [stays] at getD
    have formed : ((boundArgs.get? declared.name).getD declared).Lettered
        (Γ.hierarchy.arity ids) good := getD_lettered bounds.tallies letteredD
    dsimp only
    rw [renamed]
    generalize (boundArgs.get? declared.name).getD declared = expected at formed
    simp only [Slot.kind_rename, Slot.ty_rename]
    have plain := further expected supplied.ty formed (typed lettered)
    cases kind : expected.kind with
    | wildcard => exact fitsWildcard_echoes spares sound further lettered formed kind candidates
    | exact => exact plain
    | param =>
      have isParam : expected.isParam = true := by
        cases expected with
        | param => rfl
        | exact | rebound | wildcard => cases kind
      dsimp only
      rw [get?_name_rename spares sound candidates formed isParam]
      cases own : candidateArgs.get? expected.name with
      | none => exact plain
      | some actual =>
        simp only [Option.map_some, Slot.isParam_rename]
        cases actual.isParam with
        | true => exact plain
        | false => exact further _ _ (candidates.tallies.values _ _ own) (typed lettered)

end Slots

/-! ## Class types -/

section Classes

variable {t bound : Ty} {d g : DeclId}

theorem matchesArguments_echoes (spares : Γ.hierarchy.Spares ids good ρ)
    (sound : Γ.hierarchy.Sound ids) {accept : Slot → Ty → Traced Bool}
    (further : Γ.SlotIndifferent ids good ρ accept)
    (lettered : t.Lettered (Γ.hierarchy.arity ids) good)
    (lettered' : bound.Lettered (Γ.hierarchy.arity ids) good) (head : t.head? = some d)
    (head' : bound.head? = some d) :
    Traced.Echoes ρ (Γ.matchesArguments accept t bound)
      (Γ.matchesArguments accept (t.rename ρ) (bound.rename ρ)) := by
  have renamed : Γ.hierarchy.args (t.rename ρ) = (Γ.hierarchy.args t).map (Slot.rename ρ) :=
    Hierarchy.args_rename lettered
  by_cases unapplied : Γ.hierarchy.args t = []
  · have unapplied' : Γ.hierarchy.args (t.rename ρ) = [] := by rw [renamed, unapplied, List.map_nil]
    rw [matchesArguments_of_nil unapplied, matchesArguments_of_nil unapplied']
    exact .answer true
  · have applied' : Γ.hierarchy.args (t.rename ρ) ≠ [] := by
      rwa [renamed, ne_eq, List.map_eq_nil_iff]
    have length : (Γ.hierarchy.params d).length = (Γ.hierarchy.args t).length :=
      (Hierarchy.Sound.length_args head lettered.unlettered.loose).resolve_left unapplied
    have length' : (Γ.hierarchy.params d).length = (Γ.hierarchy.args (t.rename ρ)).length := by
      rw [renamed, List.length_map, length]
    obtain ⟨boundArgs, boundArgs', ok, ok', bounds⟩ :=
      Hierarchy.arguments_rename (ρ := ρ) lettered'
    obtain ⟨args, args', done, done', candidates⟩ := Hierarchy.arguments_rename (ρ := ρ) lettered
    have decl' := sound.direct.declaration ((Ty.head?_rename (ρ := ρ) bound).trans head')
    rw [matchesArguments_of_arguments (sound.direct.declaration head') unapplied length ok done,
      matchesArguments_of_arguments decl' applied' length' ok' done', renamed, List.zip_map_right]
    refine .allM ?_
    rintro ⟨p, a⟩ paired
    obtain ⟨declared, supplied⟩ := List.of_mem_zip paired
    exact fitsArgument_echoes spares sound further (Hierarchy.args_formed lettered supplied)
      declared bounds candidates

/-- Going on with the type seen as one of its supertypes, which is written with names that stay. -/
theorem seen_echoes (spares : Γ.hierarchy.Spares ids good ρ) (sound : Γ.hierarchy.Sound ids)
    {matching : Ty → Ty → Traced Bool} (further : Γ.Indifferent ids good ρ matching) {w : Ty}
    (lettered : t.Lettered (Γ.hierarchy.arity ids) good)
    (lettered' : bound.Lettered (Γ.hierarchy.arity ids) good) (head : t.head? = some d)
    (above : w.head? = some g) (listed : g ∈ ids) (stays : w.rename ρ = w) :
    Traced.Echoes ρ (Γ.parameterize t w >>= fun seen => matching seen bound)
      (Γ.parameterize (t.rename ρ) w >>= fun seen => matching seen (bound.rename ρ)) := by
  refine .bind (f := Ty.rename ρ) ?_ ?_
  · unfold parameterize
    rw [Ty.weight_rename]
    generalize Γ.hierarchy.budget (t.weight + w.weight) = fuel
    have climbed : (Γ.parameterizeWithin fuel (t.rename ρ) (w.rename ρ)).result = _ :=
      parameterizeWithin_rename sound (spares.stepsRename sound) lettered head above
    rwa [stays] at climbed
  · -- only a climb that arrives goes on, and then with names that are good again
    intro u ended
    refine further u bound ?_ lettered'
    rcases parameterize_kept sound (sound.keptUp_formed ParamSet.named_selfBounded) lettered head
      above listed with ⟨v, ended', kept, -⟩ | ⟨v, ended', -⟩
    · rw [ended'] at ended
      cases ended
      exact kept
    · rw [ended'] at ended
      cases ended

/-- Going on with the superclass. -/
theorem matchesSuperclass_echoes (spares : Γ.hierarchy.Spares ids good ρ) (sound : Γ.hierarchy.Sound ids)
    {matching : Ty → Ty → Traced Bool} (further : Γ.Indifferent ids good ρ matching)
    (lettered : t.Lettered (Γ.hierarchy.arity ids) good)
    (lettered' : bound.Lettered (Γ.hierarchy.arity ids) good) (head : t.head? = some d) :
    Traced.Echoes ρ (Γ.matchesSuperclass Γ.parameterize matching t bound)
      (Γ.matchesSuperclass Γ.parameterize matching (t.rename ρ) (bound.rename ρ)) := by
  have here : (t.rename ρ).head? = some d := (Ty.head?_rename t).trans head
  have same : Γ.hierarchy.superclass (t.rename ρ) = Γ.hierarchy.superclass t := by
    rw [Hierarchy.superclass_of_head head, Hierarchy.superclass_of_head here]
  cases super : Γ.hierarchy.superclass t with
  | none =>
    rw [matchesSuperclass_of_none super, matchesSuperclass_of_none (same.trans super)]
    exact .answer false
  | some w =>
    rw [matchesSuperclass_of_some super, matchesSuperclass_of_some (same.trans super)]
    have written : w ∈ Γ.hierarchy.supertypes t :=
      List.mem_append_left _ (Option.mem_toList.mpr super)
    obtain ⟨-, c, above, edge⟩ := sound.supertype head written
    have stays : w.rename ρ = w := spares.supertype_rename head written
    refine .ite (fun _ => ?_) fun _ => ?_
    · have here := further w bound (spares.supertype_lettered sound head written) lettered'
      rwa [stays] at here
    · exact seen_echoes spares sound further lettered lettered' head above (sound.edge_mem edge)
        stays

/-- Comparing a type with a bound further up. -/
theorem matchesAncestor_echoes (spares : Γ.hierarchy.Spares ids good ρ)
    (sound : Γ.hierarchy.Sound ids) {matching : Ty → Ty → Traced Bool}
    (further : Γ.Indifferent ids good ρ matching)
    (lettered : t.Lettered (Γ.hierarchy.arity ids) good)
    (lettered' : bound.Lettered (Γ.hierarchy.arity ids) good) (head : t.head? = some d)
    (head' : bound.head? = some g) :
    Traced.Echoes ρ (Γ.matchesAncestor Γ.parameterize matching t bound)
      (Γ.matchesAncestor Γ.parameterize matching (t.rename ρ) (bound.rename ρ)) := by
  have isInterface : Γ.hierarchy.isInterface (bound.rename ρ) = Γ.hierarchy.isInterface bound := by
    unfold Hierarchy.isInterface
    rw [Ty.head?_rename]
  unfold matchesAncestor
  simp only [sound.isUnion_eq_false, Bool.false_eq_true, if_false, isInterface, Ty.isRoot_rename, Hierarchy.allInterfaces_rename head, is_rename_right head']
  have viaSuperclass := matchesSuperclass_echoes spares sound further lettered lettered' head
  refine .ite (fun _ => .ite (fun _ => .answer false) fun _ => ?_) fun _ => viaSuperclass
  cases found : (Γ.hierarchy.allInterfaces t).find? (·.is bound) with
  | none => exact viaSuperclass
  | some i =>
    obtain ⟨e, rfl, -⟩ := sound.allInterfaces_sound head (List.mem_of_find?_eq_some found)
    have passed := List.find?_some found
    have same : e = g := (Ty.is_iff rfl head').mp passed
    obtain ⟨k, known⟩ := lettered'.head head'
    have listed : e ∈ ids := same ▸ (Hierarchy.arity_eq_some.mp known).1
    exact seen_echoes spares sound further lettered lettered' head rfl listed rfl

theorem matchesClass_echoes (spares : Γ.hierarchy.Spares ids good ρ) (sound : Γ.hierarchy.Sound ids)
    {matching : Ty → Ty → Traced Bool} (further : Γ.Indifferent ids good ρ matching)
    (lettered : t.Lettered (Γ.hierarchy.arity ids) good)
    (lettered' : bound.Lettered (Γ.hierarchy.arity ids) good) (head : t.head? = some d)
    (head' : bound.head? = some g) :
    Traced.Echoes ρ (Γ.matchesClass matching t bound)
      (Γ.matchesClass matching (t.rename ρ) (bound.rename ρ)) := by
  unfold matchesClass
  rw [spares.is_rename lettered lettered']
  refine .ite (fun same => ?_) fun _ => ?_
  · have same : d = g := (Ty.is_iff head head').mp same
    exact matchesArguments_echoes spares sound (accepts_echoes spares sound further) lettered
      lettered' head (same ▸ head')
  · exact matchesAncestor_echoes spares sound further lettered lettered' head head'

end Classes

/-! ## Whole comparisons -/

/-- One level of a comparison with a bound that is no array. -/
theorem argumentsMatchStep_of_plain {matching : Ty → Ty → Traced Bool} {t bound : Ty}
    (plain : bound.isArray = false) : Γ.argumentsMatchStep matching t bound =
      if (Γ.hierarchy.args bound).isEmpty || Γ.hierarchy.isRaw t then pure true
      else
        match t with
        | .param _ _ bounds =>
          match bounds.find? fun b => !b.isParam && Γ.isSubtype b bound with
          | some b => matching b bound
          | none => Γ.matchesClass matching .object bound
        | .array _ _ => pure false
        | t => Γ.matchesClass matching t bound := by
  cases bound with
  | array => cases plain
  | decl | bare | app | param => cases t <;> rfl

/-- One level of a comparison does not depend on names, if what comes after does not. -/
theorem argumentsMatchStep_echoes (spares : Γ.hierarchy.Spares ids good ρ)
    (sound : Γ.hierarchy.Sound ids) {matching : Ty → Ty → Traced Bool}
    (further : Γ.Indifferent ids good ρ matching) :
    Γ.Indifferent ids good ρ (Γ.argumentsMatchStep matching) := by
  intro t bound lettered lettered'
  cases array : bound.isArray with
  | true =>
    cases bound with
    | array s b =>
      cases t with
      | array s' a => exact further a b lettered lettered'
      | decl | bare | app | param => exact .answer true
    | decl | bare | app | param => cases array
  | false =>
    have array' : (bound.rename ρ).isArray = false := by
      cases bound with
      | array => cases array
      | decl | bare | app | param => rfl
    have class' : ∀ {x : Ty} {d : DeclId}, x.Lettered (Γ.hierarchy.arity ids) good →
        x.head? = some d → Γ.hierarchy.args bound ≠ [] →
        Traced.Echoes ρ (Γ.matchesClass matching x bound)
          (Γ.matchesClass matching (x.rename ρ) (bound.rename ρ)) := by
      intro x d lettered head applied
      obtain ⟨g, head'⟩ := head_of_args applied
      exact matchesClass_echoes spares sound further lettered lettered' head head'
    rw [argumentsMatchStep_of_plain array, argumentsMatchStep_of_plain array',
      Hierarchy.args_rename lettered', List.isEmpty_map, Hierarchy.isRaw_rename]
    refine .ite (fun _ => .answer true) fun applied => ?_
    rw [Bool.or_eq_false_iff, List.isEmpty_eq_false_iff] at applied
    cases t with
    | array s a => exact .answer false
    | param s n bs =>
      have bounds : ∀ b ∈ bs, b.Lettered (Γ.hierarchy.arity ids) good :=
        fun b member => ParamSet.named_bounded.bound lettered member
      have found' : (bs.map (Ty.rename ρ)).find?
            (fun b => !b.isParam && Γ.isSubtype b (bound.rename ρ)) =
          (bs.find? fun b => !b.isParam && Γ.isSubtype b bound).map (Ty.rename ρ) := by
        refine find?_rename fun b member => ?_
        rw [Ty.isParam_rename, isSubtype_rename spares sound (bounds b member) lettered']
      simp only [Ty.rename, Ty.renameAll_eq_map, found']
      cases found : bs.find? fun b => !b.isParam && Γ.isSubtype b bound with
      | some b => exact further b bound (bounds b (List.mem_of_find?_eq_some found)) lettered'
      | none => exact class' (x := .object) sound.arity_object rfl applied.1
    | decl | bare | app => exact class' lettered rfl applied.1

/-- Comparing the arguments of types does not depend on the names of type parameters. -/
theorem argumentsMatch_echoes (spares : Γ.hierarchy.Spares ids good ρ)
    (sound : Γ.hierarchy.Sound ids) (fuel : Nat) :
    Γ.Indifferent ids good ρ (Γ.argumentsMatch fuel) := by
  induction fuel with
  | zero => exact fun _ _ _ _ => rfl
  | succ fuel ih => exact argumentsMatchStep_echoes spares sound ih

end Context

/-- Whether a candidate may stand for a slot does not depend on the names of type parameters. -/
theorem Engine.isCompatible_echoes {h : Hierarchy} {ids : List DeclId} {good : String → Prop}
    {ρ : String → String} (spares : h.Spares ids good ρ) (sound : h.Sound ids) (e : Engine)
    {slot : Slot} {candidate : Ty} (lettered : slot.Lettered (h.arity ids) good)
    (lettered' : candidate.Lettered (h.arity ids) good) :
    (e.isCompatible h slot candidate).Echoes ρ
      (e.isCompatible h (slot.rename ρ) (candidate.rename ρ)) := by
  unfold Engine.isCompatible Traced.Echoes
  rw [Traced.result_reported, Traced.result_reported, Slot.weight_rename, Ty.weight_rename]
  refine Context.accepts_echoes (Γ := e.context h) spares sound ?_ slot candidate lettered lettered'
  exact Context.argumentsMatch_echoes (Γ := e.context h) spares sound _

end NominalGenerics
