import NominalGenerics.Engine.Operand

/-!
# What the memory cannot change

A session puts requests to one engine, one after the other, over a fixed hierarchy. The invariant is
that every remembered look-up is what a fresh search gives (`Cache.Faithful`). Of the memory this
needs only that a key that is present gives what was last put in for it (`Cache.find?_of_use`). The
invariant survives hits, evictions, failed searches and forgetting, so an engine answers as one that
remembers nothing does (`replies_eq_without_memory`).
-/

namespace NominalGenerics

/-! ## Sessions -/

inductive Request where
  | isCompatible (slot : Slot) (candidate : Option Ty)
  | argumentsMatch (candidate bound : Option Ty)
  | isSubtype (t super : Option Ty)
  | arguments (t : Option Ty)
  | connections (actual pattern : Option Ty)
  | parameterize (hint target : Option Ty)
  | createSpec (outer : Spec) (t : Option Ty)
  | find (decl receiver : Option Ty)
  | bindings (decl receiver : Option Ty)
  | exactBindings (decl receiver : Option Ty)
  | resolve (receiver : Option Ty) (method : Signature)
  | invalidate
  | stats

inductive Reply where
  | truth (b : Bool)
  | spec (s : Spec)
  | ty (t : Ty)
  | found (t : Option Ty)
  | bindings (b : Bindings)
  | resolved (r : Resolved)
  | done
  | stats (s : CacheStats)

namespace Engine

def reply (e : Engine) (h : Hierarchy) : Request → Except Failure Reply × Engine
  | .isCompatible slot candidate =>
    ((e.isCompatibleOption h slot candidate).result.map .truth, e)
  | .argumentsMatch candidate bound =>
    ((e.argumentsMatchOptions h candidate bound).result.map .truth, e)
  | .isSubtype t super => ((e.isSubtypeOptions h t super).result.map .truth, e)
  | .arguments t => ((argumentsOption h t).result.map .spec, e)
  | .connections actual pattern =>
    ((e.connectionsOptions h actual pattern).result.map .spec, e)
  | .parameterize hint target => ((e.parameterizeOptions h hint target).result.map .ty, e)
  | .createSpec outer t => ((createSpecOption h outer t).result.map .spec, e)
  | .find decl receiver =>
    let (found, e) := e.viaReceiver h decl receiver none (e.find h)
    (found.result.map .found, e)
  | .bindings decl receiver =>
    let (found, e) := e.viaReceiver h decl receiver [] (e.bindings h)
    (found.result.map .bindings, e)
  | .exactBindings decl receiver =>
    let (found, e) := e.viaReceiver h decl receiver [] (e.exactBindingsOption h)
    (found.result.map .bindings, e)
  | .resolve receiver method =>
    let (resolved, e) := e.resolveOption h receiver method
    (resolved.result.map .resolved, e)
  | .invalidate =>
    let (done, e) := e.invalidate
    (done.result.map fun _ => .done, e)
  | .stats => (.ok (.stats e.stats), e)

def after (e : Engine) (h : Hierarchy) (requests : List Request) : Engine :=
  requests.foldl (fun e r => (e.reply h r).2) e

def replies (e : Engine) (h : Hierarchy) : List Request → List (Except Failure Reply)
  | [] => []
  | r :: rest => (e.reply h r).1 :: (e.reply h r).2.replies h rest

end Engine

/-! ## What a memory gives back -/

namespace Cache

variable {h : Hierarchy} {c : Cache} {key other : LocatorKey} {answer found : Option Ty}

/-- A key that is present gives what was last put in for it. -/
theorem find?_of_use (hit : (c.use key answer).find? other = some found) :
    (other = key ∧ found = answer) ∨ (other ≠ key ∧ c.find? other = some found) := by
  obtain ⟨entry, first, rfl⟩ := Option.map_eq_some_iff.mp hit
  -- eviction drops entries at the end, so the entry found is the first one of its key
  have first : ((key, answer) :: c.entries.filter fun e => e.1 ≠ key).find?
      (fun e => e.1 = other) = some entry :=
    (List.take_prefix _ _).find?_eq_some first
  by_cases same : key = other
  · rw [List.find?_cons_of_pos (by simpa using same)] at first
    cases first
    exact .inl ⟨same.symm, rfl⟩
  · rw [List.find?_cons_of_neg (by simpa using same), List.find?_filter] at first
    have kept : (fun e : LocatorKey × Option Ty => decide (decide (e.1 ≠ key) = true ∧
        decide (e.1 = other) = true)) = fun e => decide (e.1 = other) := by
      funext e
      by_cases here : e.1 = other
      · simp [here, Ne.symm same]
      · simp [here]
    rw [kept] at first
    exact .inr ⟨Ne.symm same, by rw [find?, first]; rfl⟩

theorem get_fst (c : Cache) (key : LocatorKey) : (c.get key).1 = c.find? key := by
  unfold get
  split
  · rename_i found hit
    exact hit.symm
  · rename_i miss
    exact miss.symm

/-- An answer from memory puts in nothing new. -/
theorem find?_of_get (hit : (c.get key).2.find? other = some found) :
    c.find? other = some found := by
  unfold get at hit
  split at hit
  · rename_i answer known
    obtain ⟨rfl, rfl⟩ | ⟨-, before⟩ := find?_of_use hit
    · exact known
    · exact before
  · exact hit

/-! ## The invariant of the memory -/

/-- Every remembered look-up is what a fresh search gives. -/
def Faithful (h : Hierarchy) (c : Cache) : Prop :=
  ∀ key found, c.find? key = some found → h.locate key.1 key.2 = .ok found

theorem faithful_empty (capacity : Nat) : (empty capacity).Faithful h := by
  intro key found hit
  cases hit

theorem Faithful.use (faithful : c.Faithful h) (fresh : h.locate key.1 key.2 = .ok answer) :
    (c.use key answer).Faithful h := by
  intro other found hit
  obtain ⟨rfl, rfl⟩ | ⟨-, before⟩ := find?_of_use hit
  · exact fresh
  · exact faithful other found before

theorem Faithful.get (faithful : c.Faithful h) (key : LocatorKey) : (c.get key).2.Faithful h :=
  fun other found hit => faithful other found (find?_of_get hit)

end Cache

namespace Engine

/-- An engine beside one that remembers nothing: settings that matter to answers agree, and what the
first one remembers can be trusted. -/
structure Shadowed (h : Hierarchy) (e plain : Engine) : Prop where
  marker : e.settings.marker = plain.settings.marker
  levels : e.settings.levels = plain.settings.levels
  forgetful : plain.cache = none
  faithful : ∀ c, e.cache = some c → c.Faithful h

namespace Shadowed

variable {h : Hierarchy} {e plain : Engine}

theorem ofSettings (h : Hierarchy) (settings : Settings) :
    Shadowed h (.ofSettings settings) (.ofSettings { settings with cacheSize := 0 }) := by
  refine ⟨rfl, rfl, rfl, ?_⟩
  intro c present
  unfold Engine.ofSettings at present
  split at present
  · cases present
    exact Cache.faithful_empty _
  · cases present

theorem context_eq (shadowed : Shadowed h e plain) : e.context h = plain.context h := by
  unfold context
  rw [shadowed.marker]

theorem withCache (shadowed : Shadowed h e plain) {c : Cache} (faithful : c.Faithful h) :
    Shadowed h { e with cache := some c } plain := by
  refine ⟨shadowed.marker, shadowed.levels, shadowed.forgetful, ?_⟩
  rintro _ ⟨⟩
  exact faithful

/-- Two ways to take one step: the outcomes agree, and the engines are as before. -/
def Agree {α : Type} (h : Hierarchy) (plain : Engine) (step plainStep : Traced α × Engine) : Prop :=
  step.1.result = plainStep.1.result ∧ plainStep.2 = plain ∧ Shadowed h step.2 plain

/-! ## One look-up -/

/-- A look-up finds the same and leaves the memory trustworthy, be it a hit, a miss or a failure. -/
theorem locate (shadowed : Shadowed h e plain) (decl receiver : Ty) :
    Agree h plain (e.locate h decl receiver) (plain.locate h decl receiver) := by
  unfold Agree Engine.locate
  rw [shadowed.forgetful]
  cases decl.head? with
  | none => exact ⟨rfl, rfl, shadowed⟩
  | some d =>
    dsimp only
    split
    · exact ⟨rfl, rfl, shadowed⟩
    · cases present : e.cache with
      | none => exact ⟨rfl, rfl, shadowed⟩
      | some c =>
        have faithful := shadowed.faithful c present
        have kept := faithful.get (d, receiver)
        have known : ∀ found, (c.get (d, receiver)).1 = some found →
            h.locate d receiver = .ok found := by
          intro found hit
          exact faithful (d, receiver) found ((c.get_fst _).symm.trans hit)
        dsimp only
        generalize c.get (d, receiver) = answer at kept known ⊢
        rcases answer with ⟨_ | found, c'⟩
        · dsimp only
          cases located : h.locate d receiver with
          | ok found => exact ⟨rfl, rfl, shadowed.withCache (kept.use located)⟩
          | error x => exact ⟨rfl, rfl, shadowed.withCache kept⟩
        · rw [known found rfl]
          exact ⟨rfl, rfl, shadowed.withCache kept⟩

theorem missed {α : Type} (shadowed : Shadowed h e plain) :
    Agree h plain (e.missed : Traced α × Engine) plain.missed := by
  refine ⟨rfl, ?_, ?_⟩
  · have forgetful := shadowed.forgetful
    cases plain
    cases forgetful
    rfl
  · refine ⟨shadowed.marker, shadowed.levels, shadowed.forgetful, ?_⟩
    intro c counted
    obtain ⟨old, present, rfl⟩ := Option.map_eq_some_iff.mp counted
    exact shadowed.faithful old present

/-- What is asked next sees only the outcome. -/
theorem Agree.bind {α β : Type} {step plainStep : Traced α × Engine}
    (agree : Agree h plain step plainStep) (next : α → Traced β) :
    Agree h plain (step.1 >>= next, step.2) (plainStep.1 >>= next, plainStep.2) := by
  refine ⟨?_, agree.2.1, agree.2.2⟩
  rw [Traced.result_bind, Traced.result_bind, agree.1]

theorem Agree.reported {α : Type} {step plainStep : Traced α × Engine}
    (agree : Agree h plain step plainStep) :
    Agree h plain (step.1.reported, step.2) (plainStep.1.reported, plainStep.2) := by
  refine ⟨?_, agree.2.1, agree.2.2⟩
  rw [Traced.result_reported, Traced.result_reported, agree.1]

theorem viaReceiver {α : Type} (shadowed : Shadowed h e plain) (decl receiver : Option Ty)
    (nothing : α) {ask plainAsk : Ty → Ty → Traced α × Engine}
    (agree : ∀ d r, Agree h plain (ask d r) (plainAsk d r)) :
    Agree h plain (e.viaReceiver h decl receiver nothing ask)
      (plain.viaReceiver h decl receiver nothing plainAsk) := by
  unfold Engine.viaReceiver
  cases decl with
  | none => exact ⟨rfl, rfl, shadowed⟩
  | some d =>
    cases receiver with
    | none =>
      dsimp only
      split
      · exact shadowed.missed
      · exact ⟨rfl, rfl, shadowed⟩
    | some r =>
      dsimp only
      split
      · exact shadowed.missed
      · exact agree d r

theorem find (shadowed : Shadowed h e plain) (decl receiver : Ty) :
    Agree h plain (e.find h decl receiver) (plain.find h decl receiver) :=
  (shadowed.locate decl receiver).reported

theorem pairs (shadowed : Shadowed h e plain) (decl receiver : Ty) :
    Agree h plain (e.pairs h decl receiver) (plain.pairs h decl receiver) :=
  (shadowed.locate decl receiver).bind _

theorem bindings (shadowed : Shadowed h e plain) (decl receiver : Ty) :
    Agree h plain (e.bindings h decl receiver) (plain.bindings h decl receiver) :=
  (shadowed.pairs decl receiver).reported

theorem exactBindings (shadowed : Shadowed h e plain) (decl receiver : Ty) :
    Agree h plain (e.exactBindings h decl receiver) (plain.exactBindings h decl receiver) :=
  ((shadowed.pairs decl receiver).bind _).reported

theorem exactBindingsOption (shadowed : Shadowed h e plain) (decl receiver : Ty) :
    Agree h plain (e.exactBindingsOption h decl receiver)
      (plain.exactBindingsOption h decl receiver) :=
  (shadowed.exactBindings decl receiver).bind _

theorem resolve (shadowed : Shadowed h e plain) (receiver owner : Ty) (m : Signature) :
    Agree h plain (e.resolve h receiver owner m) (plain.resolve h receiver owner m) := by
  unfold Engine.resolve Engine.isSubtype
  rw [shadowed.context_eq]
  dsimp only
  split
  · exact ⟨rfl, rfl, shadowed⟩
  · exact ((shadowed.locate (h.declaration owner) receiver).bind _).reported

theorem resolveOption (shadowed : Shadowed h e plain) (receiver : Option Ty) (m : Signature) :
    Agree h plain (e.resolveOption h receiver m) (plain.resolveOption h receiver m) := by
  unfold Engine.resolveOption
  rw [shadowed.context_eq]
  cases m.owner with
  | none => exact ⟨rfl, rfl, shadowed⟩
  | some owner =>
    cases receiver with
    | none =>
      dsimp only
      split
      · exact ⟨rfl, rfl, shadowed⟩
      · exact ⟨rfl, rfl, shadowed⟩
    | some r =>
      dsimp only
      cases (plain.context h).subtype r (h.declaration owner) with
      | error x => exact ⟨rfl, rfl, shadowed⟩
      | ok isMember =>
        dsimp only
        split
        · exact shadowed.missed
        · exact (shadowed.resolve r owner m).bind _

theorem invalidate (shadowed : Shadowed h e plain) :
    Agree h plain e.invalidate plain.invalidate := by
  unfold Agree Engine.invalidate
  rw [shadowed.forgetful]
  cases present : e.cache with
  | none => exact ⟨rfl, rfl, shadowed⟩
  | some c => exact ⟨rfl, rfl, shadowed.withCache (Cache.faithful_empty _)⟩

/-! ## One request, and a whole session -/

/-- Only a request for the counters can tell the two engines apart, and no request changes that. -/
theorem reply (shadowed : Shadowed h e plain) (r : Request) :
    (r = .stats ∨ (e.reply h r).1 = (plain.reply h r).1) ∧
      Shadowed h (e.reply h r).2 (plain.reply h r).2 := by
  have looked : ∀ {α : Type} {step plainStep : Traced α × Engine} (f : α → Reply),
      Agree h plain step plainStep →
        (r = .stats ∨ step.1.result.map f = plainStep.1.result.map f) ∧
          Shadowed h step.2 plainStep.2 := by
    intro α step plainStep f agree
    rw [agree.1, agree.2.1]
    exact ⟨.inr rfl, agree.2.2⟩
  -- the questions below that look nothing up depend on the settings alone
  have context := shadowed.context_eq
  have levels : e.levels h = plain.levels h := by
    unfold Engine.levels
    rw [shadowed.levels]
  cases r with
  | isCompatible slot candidate =>
    refine ⟨.inr ?_, shadowed⟩
    unfold Engine.reply isCompatibleOption
    rw [context, levels]
  | argumentsMatch candidate bound =>
    refine ⟨.inr ?_, shadowed⟩
    unfold Engine.reply argumentsMatchOptions
    rw [context, levels]
  | isSubtype t super =>
    refine ⟨.inr ?_, shadowed⟩
    unfold Engine.reply isSubtypeOptions
    rw [context]
  | arguments t => exact ⟨.inr rfl, shadowed⟩
  | connections actual pattern =>
    refine ⟨.inr ?_, shadowed⟩
    unfold Engine.reply connectionsOptions Engine.connections
    rw [context]
  | parameterize hint target =>
    refine ⟨.inr ?_, shadowed⟩
    unfold Engine.reply parameterizeOptions
    rw [context]
  | createSpec outer t => exact ⟨.inr rfl, shadowed⟩
  | find decl receiver => exact looked _ (shadowed.viaReceiver decl receiver none shadowed.find)
  | bindings decl receiver =>
    exact looked _ (shadowed.viaReceiver decl receiver [] shadowed.bindings)
  | exactBindings decl receiver =>
    exact looked _ (shadowed.viaReceiver decl receiver [] shadowed.exactBindingsOption)
  | resolve receiver m => exact looked _ (shadowed.resolveOption receiver m)
  | invalidate => exact looked _ shadowed.invalidate
  | stats => exact ⟨.inl rfl, shadowed⟩

/-- Nothing changes an engine that remembers nothing. -/
theorem reply_plain (shadowed : Shadowed h e plain) (r : Request) :
    (plain.reply h r).2 = plain := by
  cases r with
  | find decl receiver => exact (shadowed.viaReceiver decl receiver none shadowed.find).2.1
  | bindings decl receiver => exact (shadowed.viaReceiver decl receiver [] shadowed.bindings).2.1
  | exactBindings decl receiver =>
    exact (shadowed.viaReceiver decl receiver [] shadowed.exactBindingsOption).2.1
  | resolve receiver m => exact (shadowed.resolveOption receiver m).2.1
  | invalidate => exact shadowed.invalidate.2.1
  | isCompatible | argumentsMatch | isSubtype | arguments | connections | parameterize
  | createSpec | stats => rfl

theorem after (shadowed : Shadowed h e plain) (requests : List Request) :
    Shadowed h (e.after h requests) plain := by
  induction requests generalizing e with
  | nil => exact shadowed
  | cons r rest ih =>
    have step := (shadowed.reply r).2
    rw [shadowed.reply_plain r] at step
    exact ih step

theorem replies (shadowed : Shadowed h e plain) (requests : List Request) (i : Nat) :
    requests[i]? = some .stats ∨
      (e.replies h requests)[i]? = (plain.replies h requests)[i]? := by
  induction requests generalizing e plain i with
  | nil => exact .inr rfl
  | cons r rest ih =>
    obtain ⟨same, after⟩ := shadowed.reply r
    cases i with
    | zero =>
      rcases same with rfl | same
      · exact .inl rfl
      · refine .inr ?_
        simp only [Engine.replies, List.getElem?_cons_zero, same]
    | succ i => exact ih after i

end Shadowed

/-- Whatever the size of the memory and whatever was asked before, every request but one for the
counters of the memory gets the reply, or the failure, that an engine without memory gives. -/
theorem replies_eq_without_memory (h : Hierarchy) (settings : Settings) (requests : List Request)
    (i : Nat) :
    requests[i]? = some .stats ∨
      ((ofSettings settings).replies h requests)[i]? =
        ((ofSettings { settings with cacheSize := 0 }).replies h requests)[i]? :=
  (Shadowed.ofSettings h settings).replies requests i

end Engine

end NominalGenerics
