import NominalGenerics.Connections
import NominalGenerics.Engine.Basic
import NominalGenerics.Proofs.Derived
import NominalGenerics.Proofs.Memory

/-!
# Whole types trip no invariant

Everything an engine derives from whole types is whole. So the number of arguments is right wherever
it is checked, and a comparison, which only ever looks up to declarations that are above, cannot
fail at all (`argumentsMatch_ends`). What is read from texts is whole, so no question about it trips
an engine, whatever it was asked before (`untripped_of_reads`).
-/

namespace NominalGenerics

namespace Context

variable {Γ : Context} {ids : List DeclId}

/-! ## Connections -/

section Connect

variable {t : Ty}

theorem erasure_loose (sound : Γ.hierarchy.Sound ids) : ∀ {t : Ty},
    t.Formed (Γ.hierarchy.arity ids) (.whole (Γ.hierarchy.arity ids)) →
      (Γ.hierarchy.erasure t).Loose (Γ.hierarchy.arity ids)
  | .param _ _ [], _ => ⟨0, sound.arity_object⟩
  | .param s n (b :: bs), whole =>
    erasure_loose sound (t := b) (Ty.Formed.bound (s := s) (n := n) whole List.mem_cons_self)
  | .array _ e, whole => erasure_loose sound (t := e) whole
  | .decl d, whole | .bare _ d, whole | .app _ d _, whole => by
    rw [Hierarchy.erasure, sound.direct.declaration (d := d) rfl]
    exact whole.head rfl

theorem viewed_loose (sound : Γ.hierarchy.Sound ids)
    (whole : t.Formed (Γ.hierarchy.arity ids) (.whole (Γ.hierarchy.arity ids))) :
    (if t.isParam then Γ.hierarchy.erasure t else t).Loose (Γ.hierarchy.arity ids) := by
  split
  · exact erasure_loose sound whole
  · exact whole.loose

theorem declaration_loose_of_listed (sound : Γ.hierarchy.Sound ids) {d : DeclId}
    (head : t.head? = some d) (listed : d ∈ ids) :
    (Γ.hierarchy.declaration t).Loose (Γ.hierarchy.arity ids) := by
  rw [sound.direct.declaration head]
  exact ⟨_, Hierarchy.arity_eq_some.mpr ⟨listed, rfl⟩⟩

/-- The arguments of a whole type as a use of another declaration are whole. -/
theorem viewedArguments_ends (sound : Γ.hierarchy.Sound ids) {pattern : Ty} {d : DeclId}
    (whole : t.Formed (Γ.hierarchy.arity ids) (.whole (Γ.hierarchy.arity ids)))
    (head : pattern.head? = some d) (listed : d ∈ ids) (count : Nat) :
    Ends (·.isArity = false) (fun args => ∀ ss, args = some ss → Slot.FormedAll
        (Γ.hierarchy.arity ids) (.whole (Γ.hierarchy.arity ids)) ss)
      (Γ.viewedArguments t pattern count).result := by
  have loose := viewed_loose sound whole
  have target := declaration_loose_of_listed sound head listed
  unfold viewedArguments
  dsimp only
  generalize (if t.isParam then Γ.hierarchy.erasure t else t) = actual at loose
  split
  · exact nofun
  · have seen : ∀ u : Ty, u.Loose (Γ.hierarchy.arity ids) → ∀ ss,
        (if (Γ.hierarchy.args u).length = count then some (Γ.hierarchy.args u) else none) =
          some ss →
        Slot.FormedAll (Γ.hierarchy.arity ids) (.whole (Γ.hierarchy.arity ids)) ss := by
      intro u loose ss same
      split at same
      · cases same
        exact Slot.formedAll_iff.mpr fun _ member => sound.args_loose loose member
      · cases same
    split
    · exact seen actual loose
    · exact Ends.traced_bind (parameterizeWithin_loose sound loose target) seen

theorem Slot.belowPart_whole {A : Arity} {s : Slot} (object : A .object = some 0)
    (whole : s.Formed A (.whole A)) {t : Ty} (part : s.belowPart? = some t) :
    t.Formed A (.whole A) := by
  unfold Slot.belowPart? at part
  split at part
  · cases lower : s.lower with
    | some l =>
      rw [lower] at part
      cases part
      exact Slot.Formed.lower whole lower
    | none =>
      rw [lower] at part
      exact Slot.Formed.upper whole (List.mem_of_head? part)
  · cases part
    exact Hierarchy.Slot.Formed.ty whole object

theorem Slot.abovePart_whole {A : Arity} {s : Slot} (object : A .object = some 0)
    (whole : s.Formed A (.whole A)) {t : Ty} (part : s.abovePart? = some t) :
    t.Formed A (.whole A) := by
  unfold Slot.abovePart? at part
  split at part
  · exact Slot.Formed.upper whole (List.mem_of_head? part)
  · cases part
    exact Hierarchy.Slot.Formed.ty whole object

mutual

theorem connect_ends (sound : Γ.hierarchy.Sound ids) : ∀ {p : Ty} {actual : Ty} (bound : Spec),
    actual.Formed (Γ.hierarchy.arity ids) (.whole (Γ.hierarchy.arity ids)) →
    p.Formed (Γ.hierarchy.arity ids) (.whole (Γ.hierarchy.arity ids)) →
      Ends (·.isArity = false) (fun _ => True) (Γ.connect actual p bound).result
  | .param _ _ _, _, _, _, _ => trivial
  | .bare _ _, _, _, _, _ => trivial
  | .array _ p, .array _ _, bound, whole, formed =>
    connect_ends sound (p := p) bound (Ty.formed_elem whole) formed
  | .array _ _, .decl _, _, _, _ | .array _ _, .bare _ _, _, _, _
  | .array _ _, .app _ _ _, _, _, _ | .array _ _, .param _ _ _, _, _, _ => trivial
  | .decl d, actual, bound, _, formed => by
    rw [connect, Hierarchy.Formed.params_eq_nil formed]
    exact trivial
  | .app s d patterns, actual, bound, whole, formed => by
    obtain ⟨k, known⟩ := formed.head rfl
    rw [connect]
    split
    · exact trivial
    · refine Ends.traced_bind (viewedArguments_ends sound whole rfl
        (Hierarchy.arity_eq_some.mp known).1 patterns.length) ?_
      intro args all
      cases args with
      | none => exact trivial
      | some ss => exact connectSlots_ends sound bound (all ss rfl) formed.2

theorem connectSlot_ends (sound : Γ.hierarchy.Sound ids) : ∀ {p : Slot} {actual : Slot}
    (bound : Spec), actual.Formed (Γ.hierarchy.arity ids) (.whole (Γ.hierarchy.arity ids)) →
    p.Formed (Γ.hierarchy.arity ids) (.whole (Γ.hierarchy.arity ids)) →
      Ends (·.isArity = false) (fun _ => True) (Γ.connectSlot actual p bound).result
  | .param _ _ _ _ _, _, _, _, _ => trivial
  | .exact _ p, _, bound, whole, ⟨_, _, formed⟩ =>
    connect_ends sound (p := p) bound (Hierarchy.Slot.Formed.ty whole sound.arity_object) formed
  | .wildcard _ none us, _, bound, whole, ⟨_, formed⟩ => connectUppers_ends sound bound whole formed
  | .wildcard _ (some l) us, actual, bound, whole, ⟨_, lower, formed⟩ => by
    rw [connectSlot]
    split
    · rename_i t part
      refine Ends.traced_bind (connect_ends sound (p := l) bound
        (Slot.belowPart_whole sound.arity_object whole part) lower) ?_
      exact fun bound _ => connectUppers_ends sound bound whole formed
    · exact connectUppers_ends sound bound whole formed

theorem connectUppers_ends (sound : Γ.hierarchy.Sound ids) : ∀ {ps : List Ty} {actual : Slot}
    (bound : Spec), actual.Formed (Γ.hierarchy.arity ids) (.whole (Γ.hierarchy.arity ids)) →
    Ty.FormedAll (Γ.hierarchy.arity ids) (.whole (Γ.hierarchy.arity ids)) ps →
      Ends (·.isArity = false) (fun _ => True) (Γ.connectUppers actual ps bound).result
  | [], _, _, _, _ => trivial
  | p :: ps, actual, bound, whole, ⟨formed, rest⟩ => by
    rw [connectUppers]
    split
    · rename_i t part
      refine Ends.traced_bind (connect_ends sound (p := p) bound
        (Slot.abovePart_whole sound.arity_object whole part) formed) ?_
      exact fun bound _ => connectUppers_ends sound bound whole rest
    · exact connectUppers_ends sound bound whole rest

theorem connectSlots_ends (sound : Γ.hierarchy.Sound ids) : ∀ {ps actuals : List Slot}
    (bound : Spec),
    Slot.FormedAll (Γ.hierarchy.arity ids) (.whole (Γ.hierarchy.arity ids)) actuals →
    Slot.FormedAll (Γ.hierarchy.arity ids) (.whole (Γ.hierarchy.arity ids)) ps →
      Ends (·.isArity = false) (fun _ => True) (Γ.connectSlots actuals ps bound).result
  | [], _, _, _, _ => trivial
  | _ :: _, [], _, _, _ => trivial
  | p :: _, _ :: _, bound, ⟨whole, others⟩, ⟨formed, rest⟩ => by
    rw [connectSlots]
    exact Ends.traced_bind (connectSlot_ends sound (p := p) bound whole formed)
      fun bound _ => connectSlots_ends sound bound others rest

end

end Connect

/-! ## Comparisons -/

section Compare

variable {slot : Slot} {t : Ty} {A : Arity}

/-- Slots and types that are whole are compared by comparing whole types. -/
theorem accepts_ends {matching : Ty → Ty → Traced Bool} (object : A .object = some 0)
    (further : ∀ x y : Ty, x.Formed A (.whole A) → y.Formed A (.whole A) →
      Ends (· = .exhausted) (fun _ => True) (matching x y).result)
    (whole : slot.Formed A (.whole A)) (formed : t.Formed A (.whole A)) :
    Ends (· = .exhausted) (fun _ => True) (Γ.accepts matching slot t).result := by
  unfold accepts
  dsimp only
  split
  · exact trivial
  split
  · exact trivial
  split
  · exact trivial
  cases slot.kind with
  | wildcard | param =>
    dsimp only
    cases lower : slot.lower with
    | some l =>
      dsimp only
      split
      · exact further l t (Slot.Formed.lower whole lower) formed
      · exact trivial
    | none =>
      dsimp only
      split
      · exact Ends.allM fun u written => further t u formed (Slot.Formed.upper whole written)
      · exact trivial
  | exact =>
    dsimp only
    split
    · exact further t slot.ty formed (Hierarchy.Slot.Formed.ty whole object)
    · exact trivial

/-- A wildcard stays formed when its bounds are read from formed arguments. -/
theorem known_formed {P : ParamSet} (object : A .object = some 0) {candidateArgs : Spec}
    (args : ∀ n s, candidateArgs.get? n = some s → s.Formed A P) (formed : t.Formed A P) :
    (if t.isParam then ((candidateArgs.get? t.name).map Slot.ty).getD t else t).Formed A P := by
  split
  · cases found : candidateArgs.get? t.name with
    | none => exact formed
    | some s => exact Hierarchy.Slot.Formed.ty (args _ s found) object
  · exact formed

theorem withBounds_formed {P : ParamSet} {f : Ty → Ty} (bounded : P.Bounded A)
    (formed : slot.Formed A P) (isWildcard : slot.kind = .wildcard)
    (keeps : ∀ t : Ty, t.Formed A P → (f t).Formed A P) :
    (slot.withBounds slot.site (slot.lower.map f) (slot.upper.map f)).Formed A P := by
  have uppers : Ty.FormedAll A P (slot.upper.map f) := by
    refine Ty.formedAll_iff.mpr ?_
    intro t member
    obtain ⟨u, written, rfl⟩ := List.mem_map.mp member
    exact keeps u (bounded.upper formed written)
  cases slot with
  | exact | rebound | param => cases isWildcard
  | wildcard m l us =>
    cases l with
    | none => exact ⟨formed.1, uppers⟩
    | some l => exact ⟨formed.1, keeps l formed.2.1, uppers⟩

variable {accept : Slot → Ty → Traced Bool}

theorem fitsWildcard_ends {supplied wildcard : Slot} {candidateArgs : Spec}
    (object : A .object = some 0)
    (further : ∀ (s : Slot) (t : Ty), s.Formed A (.whole A) → t.Formed A (.whole A) →
      Ends (· = .exhausted) (fun _ => True) (accept s t).result)
    (whole : supplied.Formed A (.whole A)) (formed : wildcard.Formed A (.whole A))
    (isWildcard : wildcard.kind = .wildcard) (args : Hierarchy.WholeSpec A candidateArgs) :
    Ends (· = .exhausted) (fun _ => True)
      (fitsWildcard accept supplied wildcard candidateArgs).result := by
  have known := withBounds_formed ParamSet.whole_bounded formed isWildcard
    fun t formed => known_formed object args formed
  unfold fitsWildcard
  dsimp only
  generalize Slot.withBounds _ _ _ wildcard = wildcard at known
  split
  · exact further _ _ known (Hierarchy.Slot.Formed.ty whole object)
  · split
    · rename_i l _ lower _
      exact further _ l known (Slot.Formed.lower whole lower)
    · exact trivial
    · exact trivial
    · split
      · exact trivial
      · exact Ends.anyM fun u written => further _ u known (Slot.Formed.upper whole written)

theorem fitsArgument_ends {supplied declared : Slot} {boundArgs candidateArgs : Spec}
    (object : A .object = some 0)
    (further : ∀ (s : Slot) (t : Ty), s.Formed A (.whole A) → t.Formed A (.whole A) →
      Ends (· = .exhausted) (fun _ => True) (accept s t).result)
    (whole : supplied.Formed A (.whole A)) (whole' : declared.Formed A (.whole A))
    (args : Hierarchy.WholeSpec A boundArgs) (args' : Hierarchy.WholeSpec A candidateArgs) :
    Ends (· = .exhausted) (fun _ => True)
      (fitsArgument accept supplied declared boundArgs candidateArgs).result := by
  have typed : ∀ {s : Slot}, s.Formed A (.whole A) → s.ty.Formed A (.whole A) :=
    fun whole => Hierarchy.Slot.Formed.ty whole object
  unfold fitsArgument
  split
  · split
    · exact trivial
    · split
      · exact trivial
      · rename_i expected found
        have formed := args _ expected found
        split
        · exact trivial
        · split
          · rename_i l lower
            exact further _ l whole' (Slot.Formed.lower formed lower)
          · exact Ends.anyM fun u written => further _ u whole' (Slot.Formed.upper formed written)
        · -- the argument stands for itself unless the candidate has one under its name
          refine further _ _ ?_ (typed formed)
          cases own : candidateArgs.get? supplied.name with
          | none => exact whole
          | some actual => exact args' _ actual own
  · have formed : ((boundArgs.get? declared.name).getD declared).Formed A (.whole A) := by
      cases found : boundArgs.get? declared.name with
      | none => exact whole'
      | some expected => exact args _ expected found
    generalize (boundArgs.get? declared.name).getD declared = expected at formed
    dsimp only
    cases kind : expected.kind with
    | wildcard => exact fitsWildcard_ends object further whole formed kind args'
    | exact => exact further _ _ formed (typed whole)
    | param =>
      dsimp only
      split
      · rename_i actual own
        refine further _ _ ?_ (typed whole)
        split
        · exact formed
        · exact args' _ actual own
      · exact further _ _ formed (typed whole)

end Compare

section Match

variable {t bound : Ty} {d : DeclId}

theorem matchesArguments_of_nil (unapplied : Γ.hierarchy.args t = [])
    (accept : Slot → Ty → Traced Bool) : Γ.matchesArguments accept t bound = pure true := by
  simp only [matchesArguments, unapplied, List.isEmpty_nil, if_true]

/-- Two uses of one declaration are compared argument by argument. -/
theorem matchesArguments_of_arguments {boundArgs candidateArgs : Spec}
    (decl : Γ.hierarchy.declaration bound = .decl d) (applied : Γ.hierarchy.args t ≠ [])
    (length : (Γ.hierarchy.params d).length = (Γ.hierarchy.args t).length)
    (ok : Γ.hierarchy.arguments bound = .ok boundArgs)
    (ok' : Γ.hierarchy.arguments t = .ok candidateArgs) (accept : Slot → Ty → Traced Bool) :
    Γ.matchesArguments accept t bound =
      ((Γ.hierarchy.params d).zip (Γ.hierarchy.args t)).allM fun (p, s) =>
        fitsArgument accept s p boundArgs candidateArgs := by
  unfold matchesArguments
  dsimp only
  rw [decl, Hierarchy.args, ok, ok', length]
  simp only [List.isEmpty_eq_false_iff.mpr applied, Bool.false_eq_true, if_false, ne_eq,
    not_true_eq_false]
  rfl

theorem matchesArguments_eq (sound : Γ.hierarchy.Sound ids)
    (whole : t.Formed (Γ.hierarchy.arity ids) (.whole (Γ.hierarchy.arity ids)))
    (whole' : bound.Formed (Γ.hierarchy.arity ids) (.whole (Γ.hierarchy.arity ids)))
    (head : t.head? = some d) (head' : bound.head? = some d) (applied : Γ.hierarchy.args t ≠ []) :
    ∃ boundArgs candidateArgs, Γ.hierarchy.arguments bound = .ok boundArgs ∧
      Γ.hierarchy.arguments t = .ok candidateArgs ∧
      ∀ accept, Γ.matchesArguments accept t bound =
        ((Γ.hierarchy.params d).zip (Γ.hierarchy.args t)).allM fun (p, s) =>
          fitsArgument accept s p boundArgs candidateArgs := by
  obtain ⟨boundArgs, ok, -⟩ := Hierarchy.arguments_whole whole'
  obtain ⟨candidateArgs, ok', -⟩ := Hierarchy.arguments_whole whole
  have length := (Hierarchy.Sound.length_args head whole.loose).resolve_left applied
  exact ⟨boundArgs, candidateArgs, ok, ok',
    matchesArguments_of_arguments (sound.direct.declaration head') applied length ok ok'⟩

/-- Only class types have arguments. -/
theorem head_of_args {h : Hierarchy} (applied : h.args t ≠ []) : ∃ d, t.head? = some d := by
  cases t with
  | decl d | bare s d | app s d as => exact ⟨d, rfl⟩
  | param | array => exact absurd rfl applied

theorem matchesClass_ends (sound : Γ.hierarchy.Sound ids) (quiet : Γ.QuietGenerics ids)
    {matching : Ty → Ty → Traced Bool}
    (further : ∀ x y : Ty, x.Formed (Γ.hierarchy.arity ids) (.whole (Γ.hierarchy.arity ids)) →
      y.Formed (Γ.hierarchy.arity ids) (.whole (Γ.hierarchy.arity ids)) →
        Ends (· = .exhausted) (fun _ => True) (matching x y).result)
    (whole : t.Formed (Γ.hierarchy.arity ids) (.whole (Γ.hierarchy.arity ids)))
    (whole' : bound.Formed (Γ.hierarchy.arity ids) (.whole (Γ.hierarchy.arity ids)))
    (head : t.head? = some d) (applied : Γ.hierarchy.args bound ≠ []) :
    Ends (· = .exhausted) (fun _ => True) (Γ.matchesClass matching t bound).result := by
  obtain ⟨g, head'⟩ := head_of_args applied
  unfold matchesClass
  split
  · rename_i same
    have same : d = g := (Ty.is_iff head head').mp same
    subst same
    by_cases none : Γ.hierarchy.args t = []
    · rw [matchesArguments_of_nil none]
      exact trivial
    · obtain ⟨boundArgs, candidateArgs, ok, ok', compare⟩ :=
        matchesArguments_eq sound whole whole' head head' none
      obtain ⟨_, same, args⟩ := Hierarchy.arguments_whole whole'
      cases ok.symm.trans same
      obtain ⟨_, same, args'⟩ := Hierarchy.arguments_whole whole
      cases ok'.symm.trans same
      rw [compare]
      refine Ends.allM ?_
      rintro ⟨p, s⟩ member
      obtain ⟨declared, supplied⟩ := List.of_mem_zip member
      exact fitsArgument_ends sound.arity_object
        (fun _ _ => accepts_ends sound.arity_object further) (Hierarchy.args_formed whole supplied)
        (sound.params_whole declared) args args'
  · rename_i apart
    have apart : d ≠ g := fun same => apart ((Ty.is_iff head head').mpr same)
    have listed := sound.keptUp_whole.listed whole' head'
    have generic := params_ne_nil_of_args whole' head' applied
    cases matchesAncestor_goesOn sound sound.keptUp_whole whole head head' listed generic apart with
    | stops false =>
      rw [false]
      exact trivial
    | up wholeU _ _ same =>
      rw [same]
      exact further _ _ wholeU whole'
    | misled loud _ => exact absurd quiet loud

/-- Whole types can be compared: the comparison runs out of levels or has an answer. -/
theorem argumentsMatch_ends (sound : Γ.hierarchy.Sound ids) (quiet : Γ.QuietGenerics ids)
    {fuel : Nat} {t bound : Ty}
    (whole : t.Formed (Γ.hierarchy.arity ids) (.whole (Γ.hierarchy.arity ids)))
    (whole' : bound.Formed (Γ.hierarchy.arity ids) (.whole (Γ.hierarchy.arity ids))) :
    Ends (· = .exhausted) (fun _ => True) (Γ.argumentsMatch fuel t bound).result := by
  induction fuel generalizing t bound with
  | zero => exact rfl
  | succ fuel ih =>
    have class' : ∀ {x : Ty} {d : DeclId},
        x.Formed (Γ.hierarchy.arity ids) (.whole (Γ.hierarchy.arity ids)) → x.head? = some d →
        Γ.hierarchy.args bound ≠ [] →
        Ends (· = .exhausted) (fun _ => True)
          (Γ.matchesClass (Γ.argumentsMatch fuel) x bound).result :=
      fun whole head applied =>
        matchesClass_ends sound quiet (fun _ _ => ih) whole whole' head applied
    unfold argumentsMatch argumentsMatchStep
    split
    · exact ih (Ty.formed_elem whole) (Ty.formed_elem whole')
    · exact trivial
    · split
      · exact trivial
      · rename_i applied
        rw [Bool.or_eq_true, not_or, List.isEmpty_iff] at applied
        split
        · split
          · rename_i found
            exact ih (Ty.Formed.bound whole (List.mem_of_find?_eq_some found)) whole'
          · exact class' (x := .object) sound.arity_object rfl applied.1
        · exact trivial
        · rename_i notParam notArray
          cases t with
          | param s n bs => exact absurd rfl (notParam s n bs)
          | array s e => exact absurd rfl (notArray s e)
          | decl | bare | app => exact class' whole rfl applied.1

end Match

end Context

/-! ## Engines -/

/-- A harmless marker names no generic declaration. -/
theorem Context.quietGenerics {h : Hierarchy} {rs : List Registry} {ids : List DeclId}
    {marker : String}
    (named : ∀ d ∈ ids, h.params d ≠ [] → ∃ r ∈ rs, r.lookup? d.name = some d)
    (harmless : marker = "" ∨ ∀ r ∈ rs, ∀ d, r.lookup? marker = some d → h.params d = []) :
    (Context.mk h marker).QuietGenerics ids := by
  intro d listed generic marked same
  obtain ⟨r, member, found⟩ := named d listed generic
  rcases harmless with none | harmless
  · exact marked none
  · rw [same] at found
    exact generic (harmless r member d found)

namespace Engine

/-- No question about these operands fails for a wrong number of arguments, and a comparison of them
fails only by running out of levels. -/
structure Untripped (h : Hierarchy) (e : Engine) (slot : Slot) (a b : Ty) : Prop where
  isCompatible : ∀ f, (e.isCompatible h slot a).result = .error f → f = .exhausted
  argumentsMatch : ∀ f, (e.argumentsMatch h a b).result = .error f → f = .exhausted
  arguments : ∀ f, (arguments h a).result = .error f → f.isArity = false
  connections : ∀ f, (e.connections h a b).result = .error f → f.isArity = false
  parameterize : ∀ f, (e.parameterize h a b).result = .error f → f.isArity = false
  createSpec : ∀ outer f, (createSpec h outer a).result = .error f → f.isArity = false
  find : ∀ decl f, (e.find h decl a).1.result = .error f → f.isArity = false
  bindings : ∀ decl f, (e.bindings h decl a).1.result = .error f → f.isArity = false
  exactBindings : ∀ decl f, (e.exactBindings h decl a).1.result = .error f → f.isArity = false
  resolve : ∀ owner m f, (e.resolve h a owner m).1.result = .error f → f.isArity = false
  invalidate : ∀ f, e.invalidate.1.result = .error f → f.isArity = false

section Ask

variable {h : Hierarchy} {ids : List DeclId} {e plain : Engine} {a : Ty}

theorem Shadowed.locate_result (shadowed : Shadowed h e plain) (decl receiver : Ty) :
    (e.locate h decl receiver).1.result = h.locateUse decl receiver := by
  rw [(shadowed.locate decl receiver).1]
  unfold Engine.locate Hierarchy.locateUse
  rw [shadowed.forgetful]
  cases decl.head? with
  | none => rfl
  | some d =>
    dsimp only
    split <;> rfl

/-- A look-up tells what it found, from memory or not: that is whole, and has an argument for each
parameter of the declaration. -/
theorem locate_ends (sound : h.Sound ids) (shadowed : Shadowed h e plain)
    (whole : a.Formed (h.arity ids) (.whole (h.arity ids))) (decl : Ty) :
    Ends (·.isArity = false) (fun found => ∀ use, found = some use →
        use.Formed (h.arity ids) (.whole (h.arity ids)) ∧
          (h.args (h.declaration decl)).length = (h.args use).length)
      (e.locate h decl a).1.result := by
  rw [shadowed.locate_result]
  obtain ⟨found, located, all⟩ := sound.locateUse_formed ParamSet.whole_stable whole decl
  rw [located]
  rintro use rfl
  exact ⟨all use rfl, sound.direct.length_args_of_locateUse located⟩

/-- The number of arguments is looked at once more when they are paired with the parameters, and is
right by then. -/
theorem pairs_ends (sound : h.Sound ids) (shadowed : Shadowed h e plain)
    (whole : a.Formed (h.arity ids) (.whole (h.arity ids))) (decl : Ty) :
    Ends (·.isArity = false) (fun _ => True) (e.pairs h decl a).1.result := by
  refine Ends.traced_bind (locate_ends sound shadowed whole decl) ?_
  intro found all
  cases found with
  | none => exact trivial
  | some use =>
    obtain ⟨-, same⟩ := all use rfl
    simp only [same, ne_eq, not_true_eq_false, if_false]
    exact trivial

theorem exactBindings_ends (sound : h.Sound ids) (shadowed : Shadowed h e plain)
    (whole : a.Formed (h.arity ids) (.whole (h.arity ids))) (decl : Ty) :
    Ends (·.isArity = false) (fun _ => True) (e.exactBindings h decl a).1.result := by
  unfold exactBindings
  rw [Traced.result_reported]
  refine Ends.traced_bind (pairs_ends sound shadowed whole decl) ?_
  intro b _
  obtain ⟨spec, ok, -⟩ := Hierarchy.arguments_whole whole
  split
  · exact trivial
  · show Ends _ _ (b.exact h a)
    unfold Bindings.exact
    rw [ok]
    exact trivial

theorem resolveWith_ends (spec : Spec) (receiver : Option Ty) (m : Signature) :
    Ends (·.isArity = false) (fun _ => True) (resolveWith h spec receiver m).result := by
  unfold resolveWith
  dsimp only
  split
  · exact rfl
  · exact trivial

theorem resolve_ends (sound : h.Sound ids) (shadowed : Shadowed h e plain)
    (whole : a.Formed (h.arity ids) (.whole (h.arity ids))) (owner : Ty) (m : Signature) :
    Ends (·.isArity = false) (fun _ => True) (e.resolve h a owner m).1.result := by
  unfold resolve
  dsimp only
  split
  · rw [Traced.result_reported]
    exact rfl
  · rw [Traced.result_reported]
    refine Ends.traced_bind (locate_ends sound shadowed whole _) ?_
    intro found all
    cases found with
    | none => exact resolveWith_ends _ _ _
    | some use =>
      obtain ⟨spec, ok⟩ := Hierarchy.createSpec_whole .empty (all use rfl).1
      dsimp only
      rw [ok]
      exact resolveWith_ends _ _ _

end Ask

/-- What is read from texts over a loaded model, with or without type parameters in scope, never
trips an engine whose marker names no generic declaration, whatever it was asked before. -/
theorem untripped_of_reads {h : Hierarchy} {rs : List Registry} (loaded : h.Loaded rs)
    {scope scope' scope'' : Scope} {slot : Slot} {a b : Ty}
    (opens : h.Opens rs scope) (opens' : h.Opens rs scope') (opens'' : h.Opens rs scope'')
    (readsSlot : h.ReadsSlot rs scope slot) (reads : h.Reads rs scope' a)
    (reads' : h.Reads rs scope'' b) {settings : Settings}
    (harmless : settings.marker = "" ∨
      ∀ r ∈ rs, ∀ d, r.lookup? settings.marker = some d → h.params d = [])
    (requests : List Request) :
    Untripped h ((ofSettings settings).after h requests) slot a b := by
  obtain ⟨ids, sound, known, named⟩ := loaded.named
  have wholeSlot := readsSlot.whole sound known opens
  have whole := reads.whole sound known opens'
  have whole' := reads'.whole sound known opens''
  have shadowed := (Shadowed.ofSettings h settings).after requests
  have quiet : (((ofSettings settings).after h requests).context h).QuietGenerics ids := by
    rw [shadowed.context_eq]
    exact Context.quietGenerics named harmless
  generalize (ofSettings settings).after h requests = e at shadowed quiet
  have further : ∀ fuel (x y : Ty), x.Formed (h.arity ids) (.whole (h.arity ids)) →
      y.Formed (h.arity ids) (.whole (h.arity ids)) →
      Ends (· = .exhausted) (fun _ => True) ((e.context h).argumentsMatch fuel x y).result :=
    fun fuel x y whole whole' => Context.argumentsMatch_ends sound quiet whole whole'
  constructor
  · refine Ends.failure (Q := fun _ => True) (Ends.reported ?_)
    exact Context.accepts_ends sound.arity_object (further _) wholeSlot whole
  · exact Ends.failure (further _ a b whole whole').reported
  · obtain ⟨spec, ok, -⟩ := Hierarchy.arguments_whole whole
    unfold Engine.arguments
    rw [Traced.result_reported, Traced.result_lift, ok]
    exact nofun
  · exact Ends.failure (Context.connect_ends sound .empty whole whole').reported
  · exact Ends.failure (Context.parameterizeWithin_loose sound whole.loose whole'.loose).reported
  · intro outer
    obtain ⟨spec, ok⟩ := Hierarchy.createSpec_whole outer whole
    unfold Engine.createSpec
    rw [Traced.result_reported, Traced.result_lift, ok]
    exact nofun
  · exact fun decl => Ends.failure (locate_ends sound shadowed whole decl).reported
  · exact fun decl => Ends.failure (pairs_ends sound shadowed whole decl).reported
  · exact fun decl => Ends.failure (exactBindings_ends sound shadowed whole decl)
  · exact fun owner m => Ends.failure (resolve_ends sound shadowed whole owner m)
  · rw [shadowed.invalidate.1, Engine.invalidate, shadowed.forgetful]
    exact nofun

/-- A reel of a type parameter beside a sequence of arrays, for an engine that remembers a look-up
and counts classes as implementing `Text`. -/
theorem reels_untripped :
    Untripped reelLibrary.hierarchy
      ((ofSettings { marker := "Text" }).after reelLibrary.hierarchy
        [.find (some (.decl ⟨"Sequence", 2⟩)) (some (reelLibrary.typeOf "Reel<Text>"))])
      (reelLibrary.slotIn (reelLibrary.hierarchy.scopeOf ⟨"Reel", 7⟩) "? super Reel<X[]>")
      (reelLibrary.typeIn (reelLibrary.hierarchy.scopeOf ⟨"Reel", 7⟩) "Reel<X>")
      (reelLibrary.typeIn .empty "Sequence<? extends Text[]>") := by
  have found : reelLibrary.registry.lookup? "Reel" = some ⟨"Reel", 7⟩ := by decide +kernel
  have opens : reelLibrary.hierarchy.Opens [reelLibrary.registry, .root]
      (reelLibrary.hierarchy.scopeOf ⟨"Reel", 7⟩) := .of List.mem_cons_self found
  have readsSlot : reelLibrary.hierarchy.ReadsSlot [reelLibrary.registry, .root]
      (reelLibrary.hierarchy.scopeOf ⟨"Reel", 7⟩)
      (reelLibrary.slotIn (reelLibrary.hierarchy.scopeOf ⟨"Reel", 7⟩) "? super Reel<X[]>") :=
    Library.reads_slotIn List.mem_cons_self (by decide +kernel)
  exact untripped_of_reads loaded_reelLibrary opens opens .empty readsSlot
    (reads_in_reelLibrary (by decide +kernel)) (reads_in_reelLibrary (by decide +kernel))
    (.inr (by decide +kernel)) _

end Engine

end NominalGenerics
