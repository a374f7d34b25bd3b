import NominalGenerics.Proofs.Clashes
import NominalGenerics.Proofs.Connecting
import NominalGenerics.Proofs.Termination
import NominalGenerics.Proofs.Walks

/-!
# Every question about the hierarchy is answered

A parameterisation goes up by putting arguments into a supertype, which may be larger than the type
it started from. It comes to an end all the same, since each step goes to a declaration that is less
high (`runParameterize_class_returns`), and before the first one it only goes to the elements of
arrays and to bounds (`runParameterize_returns`). A search comes to an end since it visits each
declaration once, and connecting a type with a pattern goes down the pattern (`runConnect_returns`).

Main statement: over a loaded hierarchy, whatever was read, the runs of all these questions return
what an engine answers (`walks_return`).
-/

namespace NominalGenerics

/-! ## Parameterisations -/

namespace Context

variable {Γ : Context} {ids : List DeclId} {d : DeclId} {hint target : Ty}

def runInterface (Γ : Context) (fuel : Nat) (t goal : Ty) : Except Failure (Option Ty) :=
  if Γ.hierarchy.isInterface goal then
    (Γ.hierarchy.interfaces t).findM? (Γ.runSubtype fuel · goal)
  else .ok none

def runNext (Γ : Context) (fuel : Nat) (t goal : Ty) : Except Failure (Option Ty) :=
  if t.isRoot then .ok none
  else do
    match ← Γ.runInterface fuel t goal, Γ.hierarchy.superclass t with
    | some i, _ => return some i
    | none, some s => return if ← Γ.runSubtype fuel s goal then some s else none
    | none, none => return none

def runClimb (Γ : Context) (above : Ty → Ty → Except Failure Ty) (fuel : Nat) (hint target : Ty) :
    Except Failure Ty :=
  let h := Γ.hierarchy
  let decl := h.declaration target
  if hint.is target then .ok hint
  else if h.isRaw hint || hint.isDiamond then .ok (h.erasedUse hint decl)
  else do
    match ← Γ.runNext fuel hint decl with
    | none => .error (.violation ⟨.unrelated hint.name target.name, hint, target⟩)
    | some next => do
      let spec ← h.createSpec .empty hint
      above (h.subst spec [] next) target

/-- `target` with the arguments implied by `hint`, one step for each type on the way. -/
def runParameterize (Γ : Context) : Nat → Ty → Ty → Except Failure Ty
  | 0, _, _ => .error .exhausted
  | fuel + 1, hint, target =>
    match hint, target with
    | .array s a, .array _ b => do return .array s (← Γ.runParameterize fuel a b)
    | .array _ _, target => .ok target
    | hint, .array s b => .error (.violation ⟨.notAnArray hint.name, hint, .array s b⟩)
    | .param _ _ bounds, target => do
      match ← bounds.findM? fun b =>
        if b.isParam then .ok false else Γ.runSubtype fuel b target with
      | some b => Γ.runParameterize fuel b target
      | none => Γ.runClimb (Γ.runParameterize fuel) fuel .object target
    | hint, target => Γ.runClimb (Γ.runParameterize fuel) fuel hint target

theorem runNext_returns (sound : Γ.hierarchy.Sound ids) {t goal : Ty} (head : t.head? = some d)
    (loose : goal.Loose (Γ.hierarchy.arity ids)) :
    Returns (fun fuel => Γ.runNext fuel t goal) (.ok (Γ.nextSupertype t goal)) := by
  have tested : ∀ w ∈ Γ.hierarchy.supertypes t,
      Returns (fun fuel => Γ.runSubtype fuel w goal) (.ok (Γ.isSubtype w goal)) :=
    fun w written => runSubtype_isSubtype sound (sound.supertype_whole head written).loose loose
  have viaInterface : Returns (fun fuel => Γ.runInterface fuel t goal)
      (.ok (if Γ.hierarchy.isInterface goal then
        (Γ.hierarchy.interfaces t).find? (Γ.isSubtype · goal) else none)) := by
    unfold runInterface
    split
    · exact .findM? fun w written => tested w (List.mem_append_right _ written)
    · exact .ok none
  unfold runNext nextSupertype
  split
  · exact .ok none
  · refine viaInterface.andThen ?_
    dsimp only
    cases (if Γ.hierarchy.isInterface goal then
        (Γ.hierarchy.interfaces t).find? (Γ.isSubtype · goal) else none) with
    | some i => exact .ok (some i)
    | none =>
      cases above : Γ.hierarchy.superclass t with
      | none => exact .ok none
      | some s =>
        refine (tested s (List.mem_append_left _ (Option.mem_toList.mpr above))).andThen ?_
        dsimp only
        rw [Option.filter_some]
        cases Γ.isSubtype s goal with
        | true => exact .ok (some s)
        | false => exact .ok none

theorem declaration_loose (sound : Γ.hierarchy.Sound ids)
    (loose : target.Loose (Γ.hierarchy.arity ids)) :
    (Γ.hierarchy.declaration target).Loose (Γ.hierarchy.arity ids) := by
  cases head : target.head? with
  | some g => exact declaration_loose_of_listed sound head (sound.keptUp_loose.listed loose head)
  | none =>
    rw [Γ.hierarchy.declaration_of_not_head head]
    exact loose

/-- One step of a climb, given that the run returns from each supertype. -/
theorem runClimb_returns (sound : Γ.hierarchy.Sound ids)
    (loose : hint.Loose (Γ.hierarchy.arity ids)) (head : hint.head? = some d)
    (loose' : target.Loose (Γ.hierarchy.arity ids)) {run : Nat → Ty → Ty → Except Failure Ty}
    {above : Ty → Ty → Traced Ty}
    (further : ∀ spec, Γ.hierarchy.createSpec .empty hint = .ok spec →
      ∀ w ∈ Γ.hierarchy.supertypes hint,
        Returns (fun fuel => run fuel (Γ.hierarchy.subst spec [] w) target)
          (above (Γ.hierarchy.subst spec [] w) target).result) :
    Returns (fun fuel => Γ.runClimb (run fuel) fuel hint target)
      (Γ.climb above hint target).result := by
  unfold runClimb climb
  dsimp only
  split
  · exact .ok hint
  split
  · exact .ok _
  · refine (runNext_returns sound head (declaration_loose sound loose')).andThen ?_
    cases next : Γ.nextSupertype hint (Γ.hierarchy.declaration target) with
    | none => exact .violation _
    | some w =>
      obtain ⟨spec, created, -⟩ := sound.createSpec_loose loose head
      dsimp only
      rw [created]
      exact further spec created w (nextSupertype_mem next)

theorem runParameterize_of_head (head : hint.head? = some d) (plain : target.isArray = false)
    (fuel : Nat) : Γ.runParameterize (fuel + 1) hint target =
      Γ.runClimb (Γ.runParameterize fuel) fuel hint target := by
  cases hint <;> cases head <;> cases target <;> cases plain <;> rfl

theorem parameterizeStep_of_head {above : Ty → Ty → Traced Ty} (head : hint.head? = some d)
    (plain : target.isArray = false) :
    Γ.parameterizeStep above hint target = Γ.climb above hint target := by
  cases hint <;> cases head <;> cases target <;> cases plain <;> rfl

/-- A climb gets less high with each step. The types on the way may grow. -/
theorem runParameterize_class_returns (sound : Γ.hierarchy.Sound ids) {steps : Nat}
    (loose : hint.Loose (Γ.hierarchy.arity ids)) (head : hint.head? = some d)
    (enough : Γ.hierarchy.height ids d < steps)
    (loose' : target.Loose (Γ.hierarchy.arity ids)) :
    Returns (fun fuel => Γ.runParameterize fuel hint target)
      (Γ.parameterizeWithin steps hint target).result := by
  induction steps generalizing hint d with
  | zero => omega
  | succ steps ih =>
    apply Returns.succ
    rw [parameterizeWithin]
    cases plain : target.isArray with
    | true =>
      cases target with
      | array s b => cases hint <;> cases head <;> exact .violation _
      | decl | bare | app | param => cases plain
    | false =>
      simp only [runParameterize_of_head head plain, parameterizeStep_of_head head plain]
      refine runClimb_returns sound loose head loose' fun spec created w written => ?_
      obtain ⟨spec', created', kept⟩ := sound.keptUp_loose.step loose head
      cases created.symm.trans created'
      -- the supertype with its arguments may be larger, but it is still one of `c`
      obtain ⟨formed, c, here, edge⟩ := sound.supertype head written
      have lower := sound.height_lt (sound.keptUp_loose.listed loose head) edge
      exact ih (kept w written) (Hierarchy.head_subst spec formed here) (by omega)

/-- Nothing is above the root, so a climb from there stays there. -/
theorem runClimb_object_returns (sound : Γ.hierarchy.Sound ids)
    (loose' : target.Loose (Γ.hierarchy.arity ids)) (run : Nat → Ty → Ty → Except Failure Ty)
    (above : Ty → Ty → Traced Ty) :
    Returns (fun fuel => Γ.runClimb (run fuel) fuel .object target)
      (Γ.climb above .object target).result := by
  have object : Ty.object.Loose (Γ.hierarchy.arity ids) := ⟨0, sound.arity_object⟩
  refine runClimb_returns sound object rfl loose' fun spec _ w written => ?_
  rw [sound.supertypes_object] at written
  cases written

theorem runParameterize_of_param {s : Site} {n : String} {bs : List Ty}
    (plain : target.isArray = false) (fuel : Nat) :
    Γ.runParameterize (fuel + 1) (.param s n bs) target = (do
      match ← bs.findM? fun b =>
        if b.isParam then .ok false else Γ.runSubtype fuel b target with
      | some b => Γ.runParameterize fuel b target
      | none => Γ.runClimb (Γ.runParameterize fuel) fuel .object target) := by
  cases target <;> cases plain <;> rfl

theorem parameterizeStep_of_param {s : Site} {n : String} {bs : List Ty}
    {above : Ty → Ty → Traced Ty} (plain : target.isArray = false) :
    Γ.parameterizeStep above (.param s n bs) target =
      match bs.find? fun b => !b.isParam && Γ.isSubtype b target with
      | some b => above b target
      | none => Γ.climb above .object target := by
  cases target <;> cases plain <;> rfl

/-- Before it climbs, a parameterisation goes to the elements of arrays and to bounds, which weigh
less. -/
theorem runParameterize_returns (sound : Γ.hierarchy.Sound ids) {steps : Nat}
    (enough : hint.weight + Γ.hierarchy.decls.size < steps)
    (loose : hint.Loose (Γ.hierarchy.arity ids)) (loose' : target.Loose (Γ.hierarchy.arity ids)) :
    Returns (fun fuel => Γ.runParameterize fuel hint target)
      (Γ.parameterizeWithin steps hint target).result := by
  induction steps generalizing hint target with
  | zero => omega
  | succ steps ih =>
    cases hint with
    | array s a =>
      apply Returns.succ
      cases target with
      | array s' b =>
        have lighter : a.weight + Γ.hierarchy.decls.size < steps := by
          simp only [Ty.weight] at enough
          omega
        have elements : b.Loose (Γ.hierarchy.arity ids) := loose'
        simp only [runParameterize, parameterizeWithin, parameterizeStep, Traced.result_bind]
        exact (ih lighter loose elements).bind fun t _ => .ok (Ty.array s t)
      | decl | bare | app | param => exact .ok _
    | param s n bs =>
      apply Returns.succ
      rw [parameterizeWithin]
      cases plain : target.isArray with
      | true =>
        cases target with
        | array => exact .violation _
        | decl | bare | app | param => cases plain
      | false =>
        have whole : ∀ b ∈ bs, b.Formed (Γ.hierarchy.arity ids) (.whole (Γ.hierarchy.arity ids)) :=
          fun b member => Ty.Formed.bound (s := s) (n := n) loose member
        simp only [runParameterize_of_param plain, parameterizeStep_of_param plain]
        -- the bounds are asked in turn, and the way goes on from the first that is below the target
        refine (Returns.findM? (p := fun b => !b.isParam && Γ.isSubtype b target) ?_).andThen ?_
        · intro b member
          cases b.isParam with
          | true => exact .ok false
          | false => exact runSubtype_isSubtype sound (whole b member).loose loose'
        · cases found : bs.find? fun b => !b.isParam && Γ.isSubtype b target with
          | none => exact runClimb_object_returns sound loose' _ _
          | some b =>
            have member := List.mem_of_find?_eq_some found
            refine ih ?_ (whole b member).loose loose'
            have lighter := Ty.weight_le_weights member
            simp only [Ty.weight] at enough
            omega
    | decl | bare | app =>
      refine runParameterize_class_returns sound loose rfl ?_ loose'
      exact Nat.lt_of_le_of_lt sound.height_le (by omega)

/-- A parameterisation comes to an end with its answer. -/
theorem runParameterize_parameterize (sound : Γ.hierarchy.Sound ids)
    (loose : hint.Loose (Γ.hierarchy.arity ids)) (loose' : target.Loose (Γ.hierarchy.arity ids)) :
    Returns (fun fuel => Γ.runParameterize fuel hint target)
      (Γ.parameterize hint target).result := by
  refine runParameterize_returns sound ?_ loose loose'
  have := Γ.hierarchy.weight_lt_budget (hint.weight + target.weight)
  have := Γ.hierarchy.size_le_weight
  omega

end Context

/-! ## Searches -/

namespace Hierarchy

variable {h : Hierarchy} {ids : List DeclId}

/-- An answer of a search stays when it may take more steps. -/
theorem locateFrom_of_le {d : DeclId} {fuel fuel' : Nat} {queue : List Ty} {visited : List DeclId}
    (more : fuel ≤ fuel') (answers : h.locateFrom d fuel queue visited ≠ .error .exhausted) :
    h.locateFrom d fuel' queue visited = h.locateFrom d fuel queue visited := by
  induction fuel generalizing fuel' queue visited with
  | zero => exact absurd rfl answers
  | succ fuel ih =>
    obtain ⟨fuel', rfl⟩ := Nat.exists_eq_add_of_le' (Nat.le_trans (Nat.le_add_left 1 fuel) more)
    have more : fuel ≤ fuel' := Nat.le_of_succ_le_succ more
    cases queue with
    | nil => rfl
    | cons t queue =>
      unfold locateFrom at answers ⊢
      cases head : t.head? with
      | none =>
        rw [head] at answers
        exact ih more answers
      | some e =>
        rw [head] at answers
        dsimp only at answers ⊢
        by_cases met : e ∈ visited
        · simp only [if_pos met] at answers ⊢
          exact ih more answers
        · by_cases use : e = d ∧ t.isUse = true
          · simp only [if_neg met, if_pos use]
          · simp only [if_neg met, if_neg use] at answers ⊢
            cases above : h.instantiateAll t with
            | error f => rfl
            | ok supers =>
              rw [above] at answers
              exact ih more answers

/-- The use of a generic declaration that a receiver inherits, one step for each type met. -/
def runLocate (h : Hierarchy) (fuel : Nat) (decl receiver : Ty) : Except Failure (Option Ty) :=
  match decl.head? with
  | none => .ok none
  | some d =>
    if (h.params d).isEmpty then .ok none else h.locateQueue d fuel (.ofList [receiver]) []

theorem Sound.runLocate_returns (sound : h.Sound ids) {receiver : Ty}
    (whole : receiver.Formed (h.arity ids) (.whole (h.arity ids))) (decl : Ty) :
    Returns (fun fuel => h.runLocate fuel decl receiver) (h.locateUse decl receiver) := by
  unfold runLocate locateUse
  cases decl.head? with
  | none => exact .ok none
  | some d =>
    dsimp only
    split
    · exact .ok none
    · obtain ⟨found, located, -⟩ := sound.locate_formed ParamSet.whole_stable whole d
      rw [located]
      refine .of_le (h.budget receiver.weight) fun fuel enough => ?_
      rw [locate_eq] at located
      rw [locateQueue_eq, Queue.toList_ofList, locateFrom_of_le enough, located]
      rw [located]
      exact (Returns.ok found).1

end Hierarchy

/-! ## Connections -/

namespace Context

variable {Γ : Context} {ids : List DeclId}

/-- The arguments of `actual` as a use of the declaration of `pattern`, when there are `count`. The
walks up to that declaration are what takes steps. -/
def runView (Γ : Context) (fuel : Nat) (actual pattern : Ty) (count : Nat) :
    Except Failure (Option (List Slot)) :=
  let h := Γ.hierarchy
  let decl := h.declaration pattern
  let actual := if actual.isParam then h.erasure actual else actual
  let seen (t : Ty) := if (h.args t).length = count then some (h.args t) else none
  if actual.is pattern then .ok (seen actual)
  else do
    if ← Γ.runSubtype fuel actual decl then return seen (← Γ.runParameterize fuel actual decl)
    else return none

mutual

def runConnect (Γ : Context) (fuel : Nat) (actual : Ty) : Ty → Spec → Except Failure Spec
  | .param _ n _, bound =>
    .ok (if actual.isMissing then bound else bound.insertNew n (.ofTy actual.site actual))
  | .array _ p, bound =>
    match actual with
    | .array _ a => Γ.runConnect fuel a p bound
    | _ => .ok bound
  | .bare _ _, bound => .ok bound
  | .decl d, bound =>
    let params := Γ.hierarchy.params d
    if params.isEmpty || actual.isArray then .ok bound
    else do
      match ← Γ.runView fuel actual (.decl d) params.length with
      | none => return bound
      | some args =>
        return (params.zip args).foldl (fun acc (p, a) => acc.insertNew p.name a) bound
  | .app s d patterns, bound =>
    if patterns.isEmpty || actual.isArray then .ok bound
    else do
      match ← Γ.runView fuel actual (.app s d patterns) patterns.length with
      | none => return bound
      | some args => Γ.runConnectSlots fuel args patterns bound
termination_by structural p => p

def runConnectSlot (Γ : Context) (fuel : Nat) (actual : Slot) : Slot → Spec → Except Failure Spec
  | .param _ _ _ n _, bound => .ok (bound.insertNew n actual)
  | .exact _ p, bound => Γ.runConnect fuel actual.ty p bound
  | .rebound _ _ _ [], bound => .ok bound
  | .rebound _ _ _ (p :: _), bound => Γ.runConnect fuel actual.ty p bound
  | .wildcard _ none us, bound => Γ.runConnectUppers fuel actual us bound
  | .wildcard _ (some l) us, bound =>
    match actual.belowPart? with
    | some t => do Γ.runConnectUppers fuel actual us (← Γ.runConnect fuel t l bound)
    | none => Γ.runConnectUppers fuel actual us bound
termination_by structural p => p

def runConnectUppers (Γ : Context) (fuel : Nat) (actual : Slot) :
    List Ty → Spec → Except Failure Spec
  | [], bound => .ok bound
  | p :: ps, bound =>
    match actual.abovePart? with
    | some t => do Γ.runConnectUppers fuel actual ps (← Γ.runConnect fuel t p bound)
    | none => Γ.runConnectUppers fuel actual ps bound
termination_by structural ps => ps

def runConnectSlots (Γ : Context) (fuel : Nat) (actuals : List Slot) :
    List Slot → Spec → Except Failure Spec
  | [], bound => .ok bound
  | p :: ps, bound =>
    match actuals with
    | [] => .ok bound
    | a :: as => do Γ.runConnectSlots fuel as ps (← Γ.runConnectSlot fuel a p bound)
termination_by structural ps => ps

end

theorem runView_returns (sound : Γ.hierarchy.Sound ids) {t pattern : Ty} {d : DeclId}
    (whole : t.Formed (Γ.hierarchy.arity ids) (.whole (Γ.hierarchy.arity ids)))
    (head : pattern.head? = some d) (listed : d ∈ ids) (count : Nat) :
    Returns (fun fuel => Γ.runView fuel t pattern count)
      (Γ.viewedArguments t pattern count).result := by
  have loose := viewed_loose sound whole
  have target := declaration_loose_of_listed sound head listed
  unfold runView viewedArguments
  dsimp only
  generalize (if t.isParam then Γ.hierarchy.erasure t else t) = actual at loose
  cases actual.is pattern with
  | true => exact .ok _
  | false =>
    refine (runSubtype_isSubtype sound loose target).andThen ?_
    cases Γ.isSubtype actual (Γ.hierarchy.declaration pattern) with
    | true =>
      simp only [Bool.not_false, Bool.not_true, Bool.and_false, Bool.false_eq_true, if_false,
        if_true, Traced.result_bind]
      exact (runParameterize_parameterize sound loose target).bind fun _ _ => .ok _
    | false => exact .ok none

/-- The arguments that a type is viewed with are whole. -/
theorem whole_of_viewed (sound : Γ.hierarchy.Sound ids) {t pattern : Ty} {d : DeclId}
    (whole : t.Formed (Γ.hierarchy.arity ids) (.whole (Γ.hierarchy.arity ids)))
    (head : pattern.head? = some d) (listed : d ∈ ids) {count : Nat} {args : List Slot}
    (viewed : (Γ.viewedArguments t pattern count).result = .ok (some args)) :
    Slot.FormedAll (Γ.hierarchy.arity ids) (.whole (Γ.hierarchy.arity ids)) args := by
  have ends := viewedArguments_ends sound whole head listed count
  rw [viewed] at ends
  exact ends args rfl

mutual

theorem runConnect_returns (sound : Γ.hierarchy.Sound ids) : ∀ {p actual : Ty} (bound : Spec),
    actual.Formed (Γ.hierarchy.arity ids) (.whole (Γ.hierarchy.arity ids)) →
    p.Formed (Γ.hierarchy.arity ids) (.whole (Γ.hierarchy.arity ids)) →
      Returns (fun fuel => Γ.runConnect fuel actual p bound) (Γ.connect actual p bound).result
  | .param _ _ _, _, _, _, _ => .ok _
  | .bare _ _, _, _, _, _ => .ok _
  | .array _ p, .array _ _, bound, whole, formed =>
    runConnect_returns sound (p := p) bound (Ty.formed_elem whole) formed
  | .array _ _, .decl _, _, _, _ | .array _ _, .bare _ _, _, _, _
  | .array _ _, .app _ _ _, _, _, _ | .array _ _, .param _ _ _, _, _, _ => .ok _
  | .decl d, actual, bound, _, formed => by
    simp only [runConnect, connect, Hierarchy.Formed.params_eq_nil formed]
    exact .ok bound
  | .app s d patterns, actual, bound, whole, formed => by
    obtain ⟨k, known⟩ := formed.head rfl
    have listed := (Hierarchy.arity_eq_some.mp known).1
    simp only [runConnect, connect]
    split
    · exact .ok bound
    · rw [Traced.result_bind]
      refine (runView_returns sound whole rfl listed patterns.length).bind ?_
      intro args viewed
      cases args with
      | none => exact .ok bound
      | some ss =>
        exact runConnectSlots_returns sound bound (whole_of_viewed sound whole rfl listed viewed)
          formed.2

theorem runConnectSlot_returns (sound : Γ.hierarchy.Sound ids) : ∀ {p : Slot} {actual : Slot}
    (bound : Spec), actual.Formed (Γ.hierarchy.arity ids) (.whole (Γ.hierarchy.arity ids)) →
    p.Formed (Γ.hierarchy.arity ids) (.whole (Γ.hierarchy.arity ids)) →
      Returns (fun fuel => Γ.runConnectSlot fuel actual p bound)
        (Γ.connectSlot actual p bound).result
  | .param _ _ _ _ _, _, _, _, _ => .ok _
  | .exact _ p, _, bound, whole, ⟨_, _, formed⟩ =>
    runConnect_returns sound (p := p) bound (Hierarchy.Slot.Formed.ty whole sound.arity_object)
      formed
  | .wildcard _ none us, _, bound, whole, ⟨_, formed⟩ =>
    runConnectUppers_returns sound bound whole formed
  | .wildcard _ (some l) us, actual, bound, whole, ⟨_, lower, formed⟩ => by
    simp only [runConnectSlot, connectSlot]
    cases part : actual.belowPart? with
    | none => exact runConnectUppers_returns sound bound whole formed
    | some t =>
      dsimp only
      rw [Traced.result_bind]
      refine (runConnect_returns sound (p := l) bound
        (Slot.belowPart_whole sound.arity_object whole part) lower).bind ?_
      exact fun bound _ => runConnectUppers_returns sound bound whole formed

theorem runConnectUppers_returns (sound : Γ.hierarchy.Sound ids) : ∀ {ps : List Ty} {actual : Slot}
    (bound : Spec), actual.Formed (Γ.hierarchy.arity ids) (.whole (Γ.hierarchy.arity ids)) →
    Ty.FormedAll (Γ.hierarchy.arity ids) (.whole (Γ.hierarchy.arity ids)) ps →
      Returns (fun fuel => Γ.runConnectUppers fuel actual ps bound)
        (Γ.connectUppers actual ps bound).result
  | [], _, _, _, _ => .ok _
  | p :: ps, actual, bound, whole, ⟨formed, rest⟩ => by
    simp only [runConnectUppers, connectUppers]
    cases part : actual.abovePart? with
    | none => exact runConnectUppers_returns sound bound whole rest
    | some t =>
      dsimp only
      rw [Traced.result_bind]
      refine (runConnect_returns sound (p := p) bound
        (Slot.abovePart_whole sound.arity_object whole part) formed).bind ?_
      exact fun bound _ => runConnectUppers_returns sound bound whole rest

theorem runConnectSlots_returns (sound : Γ.hierarchy.Sound ids) : ∀ {ps actuals : List Slot}
    (bound : Spec),
    Slot.FormedAll (Γ.hierarchy.arity ids) (.whole (Γ.hierarchy.arity ids)) actuals →
    Slot.FormedAll (Γ.hierarchy.arity ids) (.whole (Γ.hierarchy.arity ids)) ps →
      Returns (fun fuel => Γ.runConnectSlots fuel actuals ps bound)
        (Γ.connectSlots actuals ps bound).result
  | [], _, _, _, _ => .ok _
  | _ :: _, [], _, _, _ => .ok _
  | p :: _, _ :: _, bound, ⟨whole, others⟩, ⟨formed, rest⟩ => by
    simp only [runConnectSlots, connectSlots]
    rw [Traced.result_bind]
    exact (runConnectSlot_returns sound (p := p) bound whole formed).bind
      fun bound _ => runConnectSlots_returns sound bound others rest

end

/-- The declaration of a generic type connects as well, though it is no use of it. -/
theorem runConnect_declaration_returns (sound : Γ.hierarchy.Sound ids) {t p : Ty}
    (whole : t.Formed (Γ.hierarchy.arity ids) (.whole (Γ.hierarchy.arity ids)))
    (formed : p.Formed (Γ.hierarchy.arity ids) (.whole (Γ.hierarchy.arity ids))) (bound : Spec) :
    Returns (fun fuel => Γ.runConnect fuel t (Γ.hierarchy.declaration p) bound)
      (Γ.connect t (Γ.hierarchy.declaration p) bound).result := by
  cases head : p.head? with
  | none =>
    rw [Γ.hierarchy.declaration_of_not_head head]
    exact runConnect_returns sound bound whole formed
  | some d =>
    have listed := sound.keptUp_loose.listed formed.loose head
    rw [sound.direct.declaration head]
    simp only [runConnect, connect]
    split
    · exact .ok bound
    · rw [Traced.result_bind]
      refine (runView_returns sound whole rfl listed (Γ.hierarchy.params d).length).bind ?_
      intro args _
      cases args with
      | none => exact .ok bound
      | some ss => exact .ok _

end Context

namespace Engine

/-- Every question that walks over a loaded model returns, for whatever was read from texts, with
type parameters in scope or without: some number of steps is enough for its answer, and the answer
is the one the engine gives, whatever it was asked before. The type that is looked for may be
replaced by its declaration. -/
theorem walks_return {h : Hierarchy} {rs : List Registry} (loaded : h.Loaded rs)
    {scope scope' : Scope} {t u : Ty} (opens : h.Opens rs scope) (opens' : h.Opens rs scope')
    (reads : h.Reads rs scope t) (reads' : h.Reads rs scope' u) (settings : Settings)
    (requests : List Request) :
    let e := (ofSettings settings).after h requests
    let Γ := e.context h
    (∀ target ∈ [u, h.declaration u],
      Returns (fun fuel => Γ.runSubtype fuel t target) (.ok (e.isSubtype h t target)) ∧
      Returns (fun fuel => Γ.runParameterize fuel t target) (e.parameterize h t target).result ∧
      Returns (fun fuel => Γ.runConnect fuel t target .empty)
        (e.connections h t target).result) ∧
    (∀ decl, Returns (fun fuel => h.runLocate fuel decl t) (e.find h decl t).1.result) ∧
    Returns (fun fuel => h.runAncestorNames fuel t) (.ok (h.ancestorNames t)) := by
  intro e Γ
  obtain ⟨ids, sound, known⟩ := loaded.sound
  have whole := reads.whole sound known opens
  have whole' := reads'.whole sound known opens'
  have shadowed := (Shadowed.ofSettings h settings).after requests
  have sound' : Γ.hierarchy.Sound ids := sound
  have connected : ∀ target ∈ [u, h.declaration u],
      target.Loose (h.arity ids) ∧
      Returns (fun fuel => Γ.runConnect fuel t target .empty)
        (Γ.connect t target .empty).result := by
    intro target either
    rcases List.mem_pair.mp either with rfl | rfl
    · exact ⟨whole'.loose, Context.runConnect_returns sound' .empty whole whole'⟩
    · exact ⟨Context.declaration_loose sound' whole'.loose,
        Context.runConnect_declaration_returns sound' whole whole' .empty⟩
  refine ⟨?_, ?_, sound.runAncestorNames_returns whole⟩
  · intro target either
    obtain ⟨loose, connects⟩ := connected target either
    refine ⟨Context.runSubtype_isSubtype sound' whole.loose loose, ?_, ?_⟩
    · rw [Engine.parameterize, Traced.result_reported]
      exact Context.runParameterize_parameterize sound' whole.loose loose
    · rw [Engine.connections, Traced.result_reported]
      exact connects
  · intro decl
    have answer : (e.find h decl t).1.result = h.locateUse decl t := by
      rw [Engine.find, Traced.result_reported, shadowed.locate_result]
    rw [answer]
    exact sound.runLocate_returns whole decl

/-- Nests grow on the way up, and still a type parameter bounded by one is found to be a sequence,
and which one. -/
theorem bounded_nest_returns :
    let scope := nestLibrary.scopeIn ["T extends Nest<Text>"]
    let t := nestLibrary.typeIn scope "T"
    let u := nestLibrary.typeIn scope "Sequence<T[]>"
    let h := nestLibrary.hierarchy
    let e := ofSettings {}
    Returns (fun fuel => (e.context h).runSubtype fuel t u) (.ok true) ∧
    Returns (fun fuel => (e.context h).runParameterize fuel t (h.declaration u))
      (e.parameterize h t (h.declaration u)).result ∧
    Returns (fun fuel => (e.context h).runConnect fuel t u .empty) (e.connections h t u).result ∧
    Returns (fun fuel => h.runLocate fuel u t) (e.find h u t).1.result ∧
    Returns (fun fuel => h.runAncestorNames fuel t) (.ok (h.ancestorNames t)) := by
  intro scope t u h e
  obtain ⟨loads, readable, readable', below⟩ :
      (Library.root.load nestModel).isOk = true ∧
      ((nestLibrary.reader scope).parseType "T").isOk = true ∧
      ((nestLibrary.reader scope).parseType "Sequence<T[]>").isOk = true ∧
      e.isSubtype h t u = true := by
    decide +kernel
  have loaded : h.Loaded [nestLibrary.registry, .root] := Library.loaded_ofModel nestModel loads
  have opens : h.Opens [nestLibrary.registry, .root] scope :=
    Library.opens_scopeIn List.mem_cons_self _
  have reads : h.Reads [nestLibrary.registry, .root] scope t :=
    Library.reads_typeIn List.mem_cons_self readable
  have reads' : h.Reads [nestLibrary.registry, .root] scope u :=
    Library.reads_typeIn List.mem_cons_self readable'
  -- Only the readings matter from here on; the types themselves are large.
  clear readable readable'
  clear_value t u scope h
  obtain ⟨targets, located, named⟩ := walks_return loaded opens opens reads reads' {} []
  obtain ⟨subtype, -, connected⟩ := targets u List.mem_cons_self
  obtain ⟨-, parameterized, -⟩ := targets (h.declaration u) (by simp)
  rw [← below]
  exact ⟨subtype, parameterized, connected, located u, named⟩

end Engine

end NominalGenerics
