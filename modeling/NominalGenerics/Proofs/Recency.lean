import Mathlib.Data.List.Induction
import Mathlib.Data.List.Nodup
import NominalGenerics.Proofs.Loading
import NominalGenerics.Proofs.Memory

/-!
# The memory keeps what was used last

A session of look-ups for generic declarations, with the memory cleared now and then. What counts is
the list of keys that were looked up with success since the memory was last cleared: the memory
holds the latest distinct ones of them, as many as fit (`Cache.Recalls`). One look-up puts its key
in front, or leaves the memory alone when the search fails, so by induction over the session a
look-up is a hit exactly when its key is among the latest ones
(`Engine.memory_is_least_recently_used`).
-/

namespace NominalGenerics

/-! ## The order of last use -/

section Recency

variable {α : Type} [DecidableEq α]

/-- Each item once, where it stands first. Of uses with the latest one in front this is the order in
which the items were last used. -/
def byRecency : List α → List α
  | [] => []
  | a :: uses => a :: (byRecency uses).filter (· ≠ a)

theorem mem_byRecency {a : α} {uses : List α} : a ∈ byRecency uses ↔ a ∈ uses := by
  induction uses with
  | nil => exact Iff.rfl
  | cons b uses ih =>
    simp only [byRecency, List.mem_cons, List.mem_filter, ih, decide_eq_true_eq]
    by_cases same : a = b <;> simp [same]

theorem nodup_byRecency (uses : List α) : (byRecency uses).Nodup := by
  induction uses with
  | nil => exact List.nodup_nil
  | cons a uses ih =>
    rw [byRecency, List.nodup_cons]
    exact ⟨by simp, ih.filter _⟩

/-- Items are cut off at the end before or after one of them is taken out: it makes no difference to
as many as are left when one is missing. -/
theorem take_filter_ne (a : α) (n : Nat) {xs : List α} (nodup : xs.Nodup) :
    ((xs.take (n + 1)).filter (· ≠ a)).take n = (xs.filter (· ≠ a)).take n := by
  induction xs generalizing n with
  | nil => rfl
  | cons b xs ih =>
    obtain ⟨new, nodup⟩ := List.nodup_cons.mp nodup
    rw [List.take_succ_cons]
    by_cases same : b = a
    · -- the only place where `a` stands
      subst same
      have others : ∀ ys : List α, ys ⊆ xs → ys.filter (· ≠ b) = ys := by
        intro ys within
        refine List.filter_eq_self.mpr fun y member => decide_eq_true ?_
        rintro rfl
        exact new (within member)
      rw [List.filter_cons_of_neg (by simp), List.filter_cons_of_neg (by simp),
        others _ (List.take_subset n xs), others xs (List.Subset.refl xs), List.take_take,
        Nat.min_self]
    · rw [List.filter_cons_of_pos (by simpa using same),
        List.filter_cons_of_pos (by simpa using same)]
      cases n with
      | zero => rfl
      | succ n => rw [List.take_succ_cons, List.take_succ_cons, ih n nodup]

end Recency

/-! ## Uses since the memory was cleared -/

namespace Request

/-- A look-up for a generic declaration, or a request to forget. -/
def Consults (h : Hierarchy) : Request → Prop
  | .find (some decl) _ => h.isGeneric decl = true
  | .invalidate => True
  | _ => False

def isInvalidate : Request → Bool
  | .invalidate => true
  | _ => false

/-- The requests since the memory was last cleared, latest first. -/
def sinceInvalidate (requests : List Request) : List Request :=
  requests.reverse.takeWhile fun r => !r.isInvalidate

theorem sinceInvalidate_concat (requests : List Request) (r : Request) :
    sinceInvalidate (requests ++ [r]) =
      if r.isInvalidate then [] else r :: sinceInvalidate requests := by
  unfold sinceInvalidate
  rw [List.reverse_concat, List.takeWhile_cons]
  cases r.isInvalidate <;> rfl

end Request

namespace Hierarchy

/-- What a search for the instantiation of `d` that `receiver` inherits comes to, where types may be
missing. -/
def search (h : Hierarchy) (d : DeclId) (receiver : Ty) : Except Failure (Option Ty) :=
  if h.searchLooks d (h.budget receiver.weight) [receiver] [] then .error .missingType
  else h.locate d receiver

def usedKey? (h : Hierarchy) : Request → Option LocatorKey
  | .find (some decl) (some receiver) =>
    decl.head?.bind fun d => if (h.search d receiver).isOk then some (d, receiver) else none
  | _ => none

theorem usedKey?_find {h : Hierarchy} {decl receiver : Ty} {d : DeclId}
    (head : decl.head? = some d) : h.usedKey? (.find (some decl) (some receiver)) =
      if (h.search d receiver).isOk then some (d, receiver) else none := by
  rw [usedKey?, head]
  rfl

theorem isOk_search_of_used {h : Hierarchy} {r : Request} {key : LocatorKey}
    (used : h.usedKey? r = some key) : (h.search key.1 key.2).isOk = true := by
  unfold usedKey? at used
  split at used
  · obtain ⟨d, -, used⟩ := Option.bind_eq_some_iff.mp used
    split at used
    · rename_i found
      cases used
      exact found
    · cases used
  · cases used

end Hierarchy

theorem Hierarchy.head_of_isGeneric {h : Hierarchy} {t : Ty} (generic : h.isGeneric t = true) :
    ∃ d, t.head? = some d ∧ h.params d ≠ [] := by
  unfold isGeneric at generic
  cases head : t.head? with
  | none =>
    rw [head] at generic
    cases generic
  | some d =>
    rw [head] at generic
    exact ⟨d, rfl, by simpa using generic⟩

/-! ## One look-up -/

namespace Cache

variable {h : Hierarchy} {c : Cache} {key : LocatorKey}

def keys (c : Cache) : List LocatorKey := c.entries.map Prod.fst

theorem find?_eq_none_iff : c.find? key = none ↔ key ∉ c.keys := by
  simp only [find?, keys, Option.map_eq_none_iff, List.find?_eq_none, List.mem_map,
    decide_eq_true_eq, not_exists, not_and]

theorem keys_use (found : Option Ty) :
    (c.use key found).keys = (key :: c.keys.filter (· ≠ key)).take c.capacity := by
  unfold use keys
  rw [List.map_take, List.map_cons, List.filter_map]
  rfl

/-- The memory of a session: it holds the latest of the `uses`, as many as fit, and has counted
every call. -/
structure Recalls (c : Cache) (room calls : Nat) (uses : List LocatorKey) : Prop where
  capacity : c.capacity = room
  keys : c.keys = (byRecency uses).take room
  counted : c.hits + c.misses = calls

theorem recalls_empty (capacity : Nat) : (empty capacity).Recalls capacity 0 [] :=
  ⟨rfl, (List.take_nil).symm, rfl⟩

theorem Recalls.entries {room calls : Nat} {uses : List LocatorKey}
    (recalls : c.Recalls room calls uses) :
    c.entries.length = min room (byRecency uses).length := by
  have same : c.keys.length = c.entries.length := List.length_map _
  rw [← same, recalls.keys, List.length_take]

theorem Recalls.mem_uses {room calls : Nat} {uses : List LocatorKey}
    (recalls : c.Recalls room calls uses) (member : key ∈ c.keys) : key ∈ uses := by
  rw [recalls.keys] at member
  exact mem_byRecency.mp (List.mem_of_mem_take member)

/-- Only what can be found is remembered. -/
theorem Recalls.known {room calls : Nat} {requests : List Request}
    (recalls : c.Recalls room calls (requests.filterMap h.usedKey?)) :
    ∀ key ∈ c.keys, (h.search key.1 key.2).isOk = true := by
  intro key member
  obtain ⟨r, -, used⟩ := List.mem_filterMap.mp (recalls.mem_uses member)
  exact Hierarchy.isOk_search_of_used used

/-- A key that is used comes to the front and its old place is given up; what no longer fits is what
was used least recently. -/
theorem Recalls.keys_use {room calls : Nat} {uses : List LocatorKey}
    (recalls : c.Recalls room calls uses) (key : LocatorKey) (found : Option Ty) :
    (c.use key found).keys = (byRecency (key :: uses)).take room := by
  rw [Cache.keys_use, recalls.keys, recalls.capacity, byRecency]
  cases room with
  | zero => rfl
  | succ n =>
    rw [List.take_succ_cons, List.take_succ_cons, take_filter_ne key n (nodup_byRecency uses)]

/-- What a look-up can come to, with its answer and the memory after it. -/
inductive Looked (h : Hierarchy) (c : Cache) (key : LocatorKey) (answer : Except Failure Reply)
    (after : Cache) : Prop
  | hit (found : Option Ty) : key ∈ c.keys → (h.search key.1 key.2).isOk = true →
      answer = .ok (.found found) → after = { c.use key found with hits := c.hits + 1 } →
      Looked h c key answer after
  | learnt (found : Option Ty) : key ∉ c.keys → (h.search key.1 key.2).isOk = true →
      answer = .ok (.found found) →
      after = { c with misses := c.misses + 1 }.use key found → Looked h c key answer after
  | failed (x : Failure) : key ∉ c.keys → (h.search key.1 key.2).isOk = false →
      answer = .error x → after = { c with misses := c.misses + 1 } → Looked h c key answer after

/-- A call that fails is counted and leaves the rest as it is. -/
theorem Recalls.miss {room calls : Nat} {uses : List LocatorKey}
    (recalls : c.Recalls room calls uses) :
    { c with misses := c.misses + 1 }.Recalls room (calls + 1) uses :=
  ⟨recalls.capacity, recalls.keys, by rw [← recalls.counted, Nat.add_assoc]⟩

/-- A look-up is a use of its key, unless it fails. -/
theorem Looked.recalls {room calls : Nat} {uses : List LocatorKey} {answer : Except Failure Reply}
    {c' : Cache} (looked : c.Looked h key answer c') (recalls : c.Recalls room calls uses) :
    c'.Recalls room (calls + 1)
      (if (h.search key.1 key.2).isOk then key :: uses else uses) := by
  cases looked with
  | hit found _ found? _ same =>
    rw [same, if_pos found?]
    refine ⟨recalls.capacity, recalls.keys_use key found, ?_⟩
    rw [← recalls.counted, Nat.add_right_comm]
    rfl
  | learnt found _ found? _ same =>
    rw [same, if_pos found?]
    exact ⟨recalls.capacity, recalls.miss.keys_use key found, recalls.miss.counted⟩
  | failed x _ notFound _ same =>
    rw [same, notFound]
    exact recalls.miss

/-- A look-up is counted as a hit when its key is remembered, and else as a miss. -/
theorem Looked.counted {answer : Except Failure Reply} {c' : Cache}
    (looked : c.Looked h key answer c') :
    answer.isOk = (h.search key.1 key.2).isOk ∧
      c'.hits = c.hits + (if key ∈ c.keys then 1 else 0) ∧
      c'.misses = c.misses + (if key ∈ c.keys then 0 else 1) ∧
      ∀ x, answer = .error x → c'.stats = ⟨c.entries.length, c.hits, c.misses + 1⟩ := by
  cases looked with
  | hit found member ok answer same =>
    rw [same, answer, ok, if_pos member, if_pos member]
    exact ⟨rfl, rfl, rfl, fun _ failed => by cases failed⟩
  | learnt found new ok answer same =>
    rw [same, answer, ok, if_neg new, if_neg new]
    exact ⟨rfl, rfl, rfl, fun _ failed => by cases failed⟩
  | failed x new notOk answer same =>
    rw [same, answer, notOk, if_neg new, if_neg new]
    exact ⟨rfl, rfl, rfl, fun _ _ => rfl⟩

end Cache

namespace Engine

variable {h : Hierarchy} {e : Engine} {c : Cache}

theorem stats_of_cache (present : e.cache = some c) : e.stats = c.stats := by
  unfold Engine.stats
  rw [present]

/-- A look-up for a generic declaration, where types may be missing. -/
theorem reply_find_eq {decl receiver : Ty} {d : DeclId} (head : decl.head? = some d)
    (generic : h.params d ≠ []) : e.reply h (.find (some decl) (some receiver)) =
      let step := if h.searchLooks d (h.budget receiver.weight) [receiver] [] then e.missed
        else e.find h decl receiver
      (step.1.result.map .found, step.2) := by
  have looks : h.locatingLooks decl receiver =
      h.searchLooks d (h.budget receiver.weight) [receiver] [] := by
    unfold Hierarchy.locatingLooks Hierarchy.isGeneric
    rw [head]
    simp [generic]
  rw [← looks]
  rfl

/-- A look-up for a generic declaration is a hit, or is answered by a search and remembered, or
fails; as long as only what can be found is remembered. -/
theorem reply_find (present : e.cache = some c)
    (known : ∀ key ∈ c.keys, (h.search key.1 key.2).isOk = true) {decl : Ty} {d : DeclId}
    (head : decl.head? = some d) (generic : h.params d ≠ []) (receiver : Ty) :
    ∃ c', (e.reply h (.find (some decl) (some receiver))).2 = { e with cache := some c' } ∧
      c.Looked h (d, receiver) (e.reply h (.find (some decl) (some receiver))).1 c' := by
  rw [reply_find_eq head generic]
  by_cases hidden : h.searchLooks d (h.budget receiver.weight) [receiver] [] = true
  · have failing : (h.search d receiver).isOk = false := by
      rw [Hierarchy.search, if_pos hidden]
      rfl
    have new : (d, receiver) ∉ c.keys := by
      intro member
      rw [known _ member] at failing
      cases failing
    rw [if_pos hidden]
    refine ⟨{ c with misses := c.misses + 1 }, ?_, .failed .missingType new failing rfl rfl⟩
    rw [missed, present]
    rfl
  · have same : h.search d receiver = h.locate d receiver := if_neg hidden
    rw [if_neg hidden]
    unfold find Engine.locate Cache.get
    simp only [head, List.isEmpty_iff, if_neg generic, present]
    cases hit : c.find? (d, receiver) with
    | some found =>
      have member : (d, receiver) ∈ c.keys := by
        by_contra new
        rw [Cache.find?_eq_none_iff.mpr new] at hit
        cases hit
      exact ⟨_, rfl, .hit found member (known _ member) rfl rfl⟩
    | none =>
      have new := Cache.find?_eq_none_iff.mp hit
      cases located : h.locate d receiver with
      | ok found => exact ⟨_, rfl, .learnt found new (by rw [same, located]; rfl) rfl rfl⟩
      | error x =>
        refine ⟨_, rfl, .failed x new (by rw [same, located]; rfl) ?_ rfl⟩
        rw [Traced.result_reported]
        rfl

/-! ## A whole session -/

/-- One request of a session: a look-up is one more call, and forgetting starts anew. -/
theorem recalls_reply {room : Nat} {requests : List Request} (present : e.cache = some c)
    (recalls : c.Recalls room (Request.sinceInvalidate requests).length
      ((Request.sinceInvalidate requests).filterMap h.usedKey?))
    {r : Request} (consults : r.Consults h) :
    ∃ c', (e.reply h r).2.cache = some c' ∧
      c'.Recalls room (Request.sinceInvalidate (requests ++ [r])).length
        ((Request.sinceInvalidate (requests ++ [r])).filterMap h.usedKey?) := by
  rw [Request.sinceInvalidate_concat]
  cases r with
  | invalidate =>
    refine ⟨c.clear, ?_, ?_⟩
    · simp only [reply, Engine.invalidate, present]
    · rw [Cache.clear, recalls.capacity]
      exact Cache.recalls_empty room
  | find decl receiver =>
    cases decl with
    | none => exact consults.elim
    | some decl =>
      obtain ⟨d, head, generic⟩ := Hierarchy.head_of_isGeneric consults
      cases receiver with
      | none =>
        refine ⟨{ c with misses := c.misses + 1 }, ?_, recalls.miss⟩
        have generic : h.isGeneric decl = true := consults
        simp only [reply, viaReceiver, generic, if_true, missed, present, Option.map_some]
      | some receiver =>
        obtain ⟨c', after, looked⟩ := reply_find present recalls.known head generic receiver
        refine ⟨c', by rw [after], ?_⟩
        have step := looked.recalls recalls
        simp only [Request.isInvalidate, Bool.false_eq_true, if_false, List.length_cons,
          List.filterMap_cons, Hierarchy.usedKey?_find head]
        cases found : (h.search d receiver).isOk with
        | true => simpa only [found, if_true] using step
        | false => simpa only [found, Bool.false_eq_true, if_false] using step
  | isCompatible | argumentsMatch | isSubtype | arguments | connections | parameterize
  | createSpec | bindings | exactBindings | resolve | stats => exact consults.elim

theorem recalls_after {settings : Settings} (positive : 0 < settings.cacheSize)
    (requests : List Request) (consults : ∀ r ∈ requests, r.Consults h) :
    ∃ c, ((ofSettings settings).after h requests).cache = some c ∧
      c.Recalls settings.cacheSize.toNat (Request.sinceInvalidate requests).length
        ((Request.sinceInvalidate requests).filterMap h.usedKey?) := by
  induction requests using List.reverseRecOn with
  | nil => exact ⟨_, if_pos positive, Cache.recalls_empty _⟩
  | append_singleton requests r ih =>
    obtain ⟨c, present, recalls⟩ :=
      ih fun r member => consults r (List.mem_append_left _ member)
    have step := recalls_reply present recalls
      (consults r (List.mem_append_right _ (List.mem_singleton_self r)))
    rwa [after, List.foldl_concat]

/-- In a session of look-ups for generic declarations, with the memory cleared now and then, a call
is a hit exactly when its key is among the latest distinct keys looked up with success since the
memory was last cleared, as many of them as the memory has room for. As many are remembered, every
call is counted, and one that fails is a miss and is not remembered. -/
theorem memory_is_least_recently_used (h : Hierarchy) {settings : Settings}
    (positive : 0 < settings.cacheSize) {requests : List Request}
    (consults : ∀ r ∈ requests, r.Consults h) :
    let e := (ofSettings settings).after h requests
    let room := settings.cacheSize.toNat
    let calls := Request.sinceInvalidate requests
    let recent := byRecency (calls.filterMap h.usedKey?)
    e.stats.entries = min room recent.length ∧
    e.stats.hits + e.stats.misses = calls.length ∧
    ∀ (decl receiver : Ty) (d : DeclId), decl.head? = some d → h.params d ≠ [] →
      let call := Request.find (some decl) (some receiver)
      let e' := (e.reply h call).2
      (e.reply h call).1.isOk = (h.usedKey? call).isSome ∧
      e'.stats.hits = e.stats.hits + (if (d, receiver) ∈ recent.take room then 1 else 0) ∧
      e'.stats.misses = e.stats.misses + (if (d, receiver) ∈ recent.take room then 0 else 1) ∧
      ∀ x, (e.reply h call).1 = .error x →
        e'.stats = ⟨e.stats.entries, e.stats.hits, e.stats.misses + 1⟩ := by
  intro e room calls recent
  obtain ⟨c, present, recalls⟩ := recalls_after positive requests consults
  rw [stats_of_cache present]
  refine ⟨recalls.entries, recalls.counted, ?_⟩
  intro decl receiver d head generic call e'
  obtain ⟨c', after, looked⟩ := reply_find present recalls.known head generic receiver
  have stats' : e'.stats = c'.stats := stats_of_cache (congrArg Engine.cache after)
  obtain ⟨answered, hits, misses, failed⟩ := looked.counted
  rw [stats', ← recalls.keys, Hierarchy.usedKey?_find head]
  refine ⟨?_, hits, misses, failed⟩
  rw [answered]
  cases (h.search d receiver).isOk <;> rfl

def sequenceId : DeclId := ⟨"Sequence", 2⟩

def sequenceOf (receiver : Ty) : Request := .find (some (.decl sequenceId)) (some receiver)

def overfullSequence : Ty :=
  .app ⟨0, 0⟩ sequenceId [.exact ⟨⟨0, 1⟩, false⟩ .object, .exact ⟨⟨0, 2⟩, false⟩ .object]

/-- A reel, then a buffer, then what is no proper type. -/
def reelCalls : List Request :=
  [sequenceOf (reelLibrary.typeOf "Reel<Text>"), sequenceOf (reelLibrary.typeOf "Buffer<Text>"),
    sequenceOf overfullSequence]

/-- With room for one look-up only the buffer is remembered: the reel was used before it, and what
came after it has failed. -/
theorem reel_forgotten :
    let h := reelLibrary.hierarchy
    let e := (ofSettings { cacheSize := 1 }).after h reelCalls
    (∀ r ∈ reelCalls, r.Consults h) ∧
    e.stats.entries = 1 ∧ e.stats.hits + e.stats.misses = 3 ∧
    (e.reply h (sequenceOf (reelLibrary.typeOf "Buffer<Text>"))).2.stats.hits =
      e.stats.hits + 1 ∧
    (e.reply h (sequenceOf (reelLibrary.typeOf "Reel<Text>"))).2.stats.misses =
      e.stats.misses + 1 := by
  intro h e
  obtain ⟨generic, apart, uses⟩ : h.isGeneric (.decl sequenceId) = true ∧
      reelLibrary.typeOf "Reel<Text>" ≠ reelLibrary.typeOf "Buffer<Text>" ∧
      byRecency ((Request.sinceInvalidate reelCalls).filterMap h.usedKey?) =
        [(sequenceId, reelLibrary.typeOf "Buffer<Text>"),
          (sequenceId, reelLibrary.typeOf "Reel<Text>")] := by
    decide +kernel
  have consults : ∀ r ∈ reelCalls, r.Consults h := by
    intro r member
    simp only [reelCalls, List.mem_cons, List.not_mem_nil, or_false] at member
    rcases member with rfl | rfl | rfl <;> exact generic
  obtain ⟨d, head, declares⟩ := Hierarchy.head_of_isGeneric generic
  cases head
  have positive : 0 < ({ cacheSize := 1 } : Settings).cacheSize := by decide
  obtain ⟨entries, counted, calls⟩ := memory_is_least_recently_used h positive consults
  rw [uses] at entries calls
  obtain ⟨-, hits, -⟩ :=
    calls (.decl sequenceId) (reelLibrary.typeOf "Buffer<Text>") _ rfl declares
  obtain ⟨-, -, misses, -⟩ :=
    calls (.decl sequenceId) (reelLibrary.typeOf "Reel<Text>") _ rfl declares
  refine ⟨consults, entries, counted, ?_, ?_⟩
  · rw [if_pos (by simp)] at hits
    exact hits
  · rw [if_neg (by simp [apart])] at misses
    exact misses

end Engine

end NominalGenerics
