import Mathlib.Data.Set.Function
import NominalGenerics.Proofs.Connecting
import NominalGenerics.Proofs.Equivariance

/-!
# Arguments that are led elsewhere

The loop that connects an argument looks its name up among names of declared parameters. A type
parameter of the place that a receiver was written at may bear one of these names by chance. It is
then led to what the declared parameter of that name is bound to. So exact bindings are not for all
renamings the same up to the renaming. They are for those that leave such names alone: a renaming
carries each turn of the loop to a turn (`Follows.rename`) and so each run to a run
(`Connects.rename`).

Main statement: the exact bindings of a renamed receiver are the renamed ones where no name that
leads on is given away or taken (`Engine.exactBindings_rename`).
-/

namespace NominalGenerics

/-! ## Good names -/

section Names

variable {A : Arity} {good : String → Prop}

mutual

theorem Ty.Formed.names_good : ∀ {t : Ty}, t.Lettered A good → ∀ n ∈ t.names, good n
  | .decl _, _ | .bare _ _, _ => List.forall_mem_nil _
  | .app _ _ _, ⟨_, lettered⟩ => Slot.FormedAll.names_good lettered
  | .param _ _ _, lettered => by
    obtain ⟨here, below⟩ := ParamSet.named_iff.mp lettered
    exact List.forall_mem_cons.mpr ⟨here, Ty.FormedAll.names_good below⟩
  | .array _ e, lettered => Ty.Formed.names_good (t := e) lettered

theorem Slot.Formed.names_good : ∀ {s : Slot}, s.Lettered A good → ∀ n ∈ s.names, good n
  | .exact _ _, ⟨_, _, lettered⟩ => Ty.Formed.names_good lettered
  | .param _ none _ _ _, ⟨_, _, lettered⟩ => by
    obtain ⟨here, below⟩ := ParamSet.named_iff.mp lettered
    exact List.forall_mem_cons.mpr ⟨here, Ty.FormedAll.names_good below⟩
  | .wildcard _ none _, ⟨_, lettered⟩ => Ty.FormedAll.names_good lettered
  | .wildcard _ (some _) _, ⟨_, lower, upper⟩ =>
    List.forall_mem_append.mpr ⟨Ty.Formed.names_good lower, Ty.FormedAll.names_good upper⟩

theorem Ty.FormedAll.names_good : ∀ {ts : List Ty}, Ty.FormedAll A (.named A good) ts →
    ∀ n ∈ Ty.namesAll ts, good n
  | [], _ => List.forall_mem_nil _
  | _ :: _, ⟨first, rest⟩ =>
    List.forall_mem_append.mpr ⟨Ty.Formed.names_good first, Ty.FormedAll.names_good rest⟩

theorem Slot.FormedAll.names_good : ∀ {ss : List Slot}, Slot.FormedAll A (.named A good) ss →
    ∀ n ∈ Slot.namesAll ss, good n
  | [], _ => List.forall_mem_nil _
  | _ :: _, ⟨first, rest⟩ =>
    List.forall_mem_append.mpr ⟨Slot.Formed.names_good first, Slot.FormedAll.names_good rest⟩

end

/-- A renaming that keeps good names apart keeps slots with such names apart. -/
theorem Slot.rename_inj {ρ : String → String} (injective : Set.InjOn ρ {n | good n}) {s t : Slot}
    (names : ∀ n ∈ s.names, good n) (names' : ∀ n ∈ t.names, good n)
    (same : s.rename ρ = t.rename ρ) : s = t := by
  have back : ∀ n, good n → (Function.invFunOn ρ {n | good n} ∘ ρ) n = n :=
    fun n isGood => injective.leftInvOn_invFunOn isGood
  have undo := congrArg (Slot.rename (Function.invFunOn ρ {n | good n})) same
  rwa [Slot.rename_rename, Slot.rename_rename,
    Slot.rename_eq_self fun n member => back n (names n member),
    Slot.rename_eq_self fun n member => back n (names' n member)] at undo

theorem Slot.name_rename {ρ : String → String} {s : Slot} (isParam : s.isParam = true) :
    (s.rename ρ).name = ρ s.name := by
  rcases s with _ | _ | ⟨_, _ | _, _, _, _⟩ | _
  · cases isParam
  · cases isParam
  · rfl
  · rfl
  · cases isParam

theorem Slot.name_mem_names {s : Slot} (isParam : s.isParam = true) : s.name ∈ s.names := by
  rcases s with _ | _ | ⟨_, _ | _, _, _, _⟩ | _
  · cases isParam
  · cases isParam
  · exact List.mem_cons_self
  · exact List.mem_cons_self
  · cases isParam

end Names

/-! ## Runs of the loop -/

namespace Bindings

variable {b : Bindings} {args args' : Spec} {ρ : String → String} {good : String → Prop}

def rename (ρ : String → String) (b : Bindings) : Bindings :=
  b.map fun x => ⟨x.declared, x.actual.rename ρ⟩

/-- A name under which an argument is found. -/
def Leads (b : Bindings) (args : Spec) (n : String) : Prop :=
  (b.get? n).isSome = true ∨ (args.get? n).isSome = true

instance (b : Bindings) (args : Spec) (n : String) : Decidable (b.Leads args n) :=
  inferInstanceAs (Decidable (_ ∨ _))

/-- A renaming of the good names that leaves alone those that lead on, and gives none of these to
another. -/
structure Evades (b : Bindings) (args args' : Spec) (good : String → Prop) (ρ : String → String) :
    Prop where
  injective : Set.InjOn ρ {n | good n}
  stays : ∀ n, good n → b.Leads args n ∨ b.Leads args (ρ n) → ρ n = n
  goals : ∀ s ∈ b.goals args, ∀ n ∈ s.names, good n
  renamed : Hierarchy.Renamed ρ args args'

theorem get?_rename (b : Bindings) (n : String) :
    (b.rename ρ).get? n = (b.get? n).map (Slot.rename ρ) := by
  unfold get? rename
  rw [List.find?_map, Option.map_map, Option.map_map]
  rfl

namespace Evades

/-- What a good name leads to is what its new name leads to, renamed. -/
theorem lookup (evades : b.Evades args args' good ρ) {n : String} (isGood : good n) :
    (b.rename ρ).get? (ρ n) = (b.get? n).map (Slot.rename ρ) ∧
      args'.get? (ρ n) = (args.get? n).map (Slot.rename ρ) := by
  rw [get?_rename, evades.renamed (ρ n)]
  -- a name that leads on is not renamed; of the others neither the old nor the new one is found
  by_cases leads : b.Leads args n ∨ b.Leads args (ρ n)
  · rw [evades.stays n isGood leads]
    exact ⟨rfl, rfl⟩
  · simp only [Leads, not_or, Bool.not_eq_true, Option.isSome_eq_false_iff,
      Option.isNone_iff_eq_none] at leads
    rw [leads.1.1, leads.1.2, leads.2.1, leads.2.2]
    exact ⟨rfl, rfl⟩

theorem next?_rename (evades : b.Evades args args' good ρ) {actual : Slot}
    (isParam : actual.isParam = true) (names : ∀ n ∈ actual.names, good n) :
    (b.rename ρ).next? args' (actual.rename ρ) = (b.next? args actual).map (Slot.rename ρ) := by
  obtain ⟨bound, supplied⟩ := evades.lookup (names _ (Slot.name_mem_names isParam))
  unfold next?
  rw [Slot.name_rename isParam, bound, supplied]
  cases found : b.get? actual.name with
  | none => rfl
  | some other =>
    have known : ∀ n ∈ other.names, good n := by
      obtain ⟨x, first, rfl⟩ := Option.map_eq_some_iff.mp found
      exact evades.goals _
        (List.mem_append_left _ (List.mem_map_of_mem (List.mem_of_find?_eq_some first)))
    -- the test whether the argument was found itself is where the names have to be kept apart
    by_cases same : other = actual
    · simp [same]
    · have apart : other.rename ρ ≠ actual.rename ρ :=
        fun equal => same (Slot.rename_inj evades.injective known names equal)
      simp [same, apart]

end Evades

def renameState (ρ : String → String) (x : List String × Slot) : List String × Slot :=
  (x.1.map ρ, x.2.rename ρ)

def GoodState (good : String → Prop) (x : List String × Slot) : Prop :=
  (∀ n ∈ x.1, good n) ∧ ∀ n ∈ x.2.names, good n

/-- A renaming carries a turn of the loop to a turn. -/
theorem Follows.rename (evades : b.Evades args args' good ρ) {x y : List String × Slot}
    (isGood : GoodState good x) (follows : b.Follows args x y) :
    (b.rename ρ).Follows args' (renameState ρ x) (renameState ρ y) ∧ GoodState good y := by
  cases follows with
  | @on met actual other isParam new next =>
    obtain ⟨metGood, names⟩ := isGood
    have here := names _ (Slot.name_mem_names isParam)
    have turn : (b.rename ρ).Follows args' (met.map ρ, actual.rename ρ)
        ((actual.rename ρ).name :: met.map ρ, other.rename ρ) := by
      refine .on (by simpa using isParam) ?_ ?_
      · rw [Slot.name_rename isParam]
        rintro member
        obtain ⟨n, listed, same⟩ := List.mem_map.mp member
        rw [evades.injective (metGood n listed) here same] at listed
        exact new listed
      · rw [evades.next?_rename isParam names, next]
        rfl
    rw [Slot.name_rename isParam] at turn
    exact ⟨turn, List.forall_mem_cons.mpr ⟨here, metGood⟩, evades.goals other (next?_mem next)⟩

/-- Where the loop stops, it stops under the new names. -/
theorem stops_rename (evades : b.Evades args args' good ρ) {x : List String × Slot}
    (isGood : GoodState good x) (stops : ∀ y, ¬ b.Follows args x y) :
    ∀ y, ¬ (b.rename ρ).Follows args' (renameState ρ x) y := by
  obtain ⟨met, actual⟩ := x
  intro y follows
  generalize same : renameState ρ (met, actual) = x' at follows
  cases follows with
  | @on met' actual' other isParam new next =>
    cases same
    rw [Slot.isParam_rename] at isParam
    rw [evades.next?_rename isParam isGood.2] at next
    obtain ⟨other, leads, -⟩ := Option.map_eq_some_iff.mp next
    refine stops _ (.on isParam ?_ leads)
    intro member
    rw [Slot.name_rename isParam] at new
    exact new (List.mem_map_of_mem member)

/-- So it carries a run to a run. -/
theorem run_rename (evades : b.Evades args args' good ρ) {x y : List String × Slot}
    (isGood : GoodState good x) (run : Relation.ReflTransGen (b.Follows args) x y) :
    Relation.ReflTransGen ((b.rename ρ).Follows args') (renameState ρ x) (renameState ρ y) ∧
      GoodState good y := by
  induction run with
  | refl => exact ⟨.refl, isGood⟩
  | tail _ turn ih =>
    obtain ⟨turn, isGood⟩ := turn.rename evades ih.2
    exact ⟨ih.1.tail turn, isGood⟩

theorem Connects.rename (evades : b.Evades args args' good ρ) {start last : Slot}
    (names : ∀ n ∈ start.names, good n) (connects : b.Connects args start last) :
    (b.rename ρ).Connects args' (start.rename ρ) (last.rename ρ) := by
  obtain ⟨met, run, stops⟩ := connects
  obtain ⟨run, isGood⟩ := run_rename evades ⟨List.forall_mem_nil _, names⟩ run
  exact ⟨met.map ρ, run, stops_rename evades isGood stops⟩

theorem follows_rightUnique (b : Bindings) (args : Spec) :
    Relator.RightUnique (b.Follows args) := by
  intro x y z first second
  cases first with
  | on _ _ next =>
    cases second with
    | on _ _ next' =>
      cases next.symm.trans next'
      rfl

theorem Connects.unique {start last last' : Slot} (connects : b.Connects args start last)
    (connects' : b.Connects args start last') : last = last' := by
  obtain ⟨met, run, stops⟩ := connects
  obtain ⟨met', run', stops'⟩ := connects'
  rcases Relation.ReflTransGen.total_of_right_unique (b.follows_rightUnique args) run run' with
    more | more
  · rcases Relation.ReflTransGen.cases_head more with same | ⟨next, turn, -⟩
    · exact congrArg Prod.snd same
    · exact absurd turn (stops next)
  · rcases Relation.ReflTransGen.cases_head more with same | ⟨next, turn, -⟩
    · exact (congrArg Prod.snd same).symm
    · exact absurd turn (stops' next)

theorem Connects.connect_eq (h : Hierarchy) {start last : Slot}
    (connects : b.Connects args start last) : b.connect h args start = h.settle last := by
  obtain ⟨last', connects', same⟩ := b.connect_settles h args start
  rw [same, connects.unique connects']

/-! ## Where an argument is led -/

/-- An argument whose name leads nowhere stays. -/
theorem connects_self {a : Slot} (nowhere : ¬ b.Leads args a.name) : b.Connects args a a := by
  refine ⟨[], .refl, ?_⟩
  rintro _ ⟨-, -, next⟩
  simp only [Leads, not_or, Bool.not_eq_true, Option.isSome_eq_false_iff,
    Option.isNone_iff_eq_none] at nowhere
  simp only [next?, nowhere.1, nowhere.2] at next
  cases next

/-- One that is called like a declared parameter is led to the argument for that. -/
theorem connects_namesake {a other : Slot} (isParam : a.isParam = true)
    (bound : b.get? a.name = some other) (apart : other ≠ a) (plain : other.isParam = false) :
    b.Connects args a other := by
  refine ⟨[a.name], .single (.on isParam List.not_mem_nil ?_), ?_⟩
  · simp [next?, bound, apart]
  · rintro _ ⟨isParam, -, -⟩
    rw [plain] at isParam
    cases isParam

/-- If its name leads to type parameters of that name only, it is led to one of them at most. -/
theorem connects_same_name {a : Slot} (isParam : a.isParam = true)
    (itself : ∀ s, b.get? a.name = some s ∨ args.get? a.name = some s → s.name = a.name) :
    ∃ last, (last = a ∨ b.get? a.name = some last ∨ args.get? a.name = some last) ∧
      b.Connects args a last := by
  cases next : b.next? args a with
  | none =>
    refine ⟨a, .inl rfl, [], .refl, ?_⟩
    rintro _ ⟨-, -, leads⟩
    rw [next] at leads
    cases leads
  | some other =>
    have found : b.get? a.name = some other ∨ args.get? a.name = some other := by
      unfold next? at next
      split at next
      · rename_i bound
        split at next
        · exact .inr next
        · cases next
          exact .inl bound
      · exact .inr next
    refine ⟨other, .inr found, [a.name], .single (.on isParam List.not_mem_nil next), ?_⟩
    rintro _ ⟨-, new, -⟩
    rw [itself other found] at new
    exact new List.mem_cons_self

end Bindings

/-! ## Exact bindings under new names -/

namespace Hierarchy

variable {h : Hierarchy} {ids : List DeclId} {ρ : String → String}

theorem Sound.erasure_rename (sound : h.Sound ids) :
    ∀ t : Ty, h.erasure (t.rename ρ) = (h.erasure t).rename ρ
  | .param _ _ [] => rfl
  | .param _ _ (b :: _) => sound.erasure_rename b
  | .array s e => by rw [Ty.rename, erasure, erasure, sound.erasure_rename e, Ty.rename]
  | .decl d | .bare _ d | .app _ d _ => by
    rw [sound.erasure_of_head (d := d) rfl, sound.erasure_of_head (d := d) rfl, Ty.rename]

theorem Sound.settle_rename (sound : h.Sound ids) (s : Slot) :
    h.settle (s.rename ρ) = (h.settle s).rename ρ := by
  unfold settle
  rw [Slot.isParam_rename]
  split
  · have site : (s.rename ρ).site = s.site := by
      rcases s with _ | ⟨_, _, _ | _, _⟩ | ⟨_, _ | _, _, _, _⟩ | ⟨_, _ | _, _⟩ <;> rfl
    rw [Slot.ty_rename, sound.erasure_rename, site]
    cases h.erasure s.ty <;> rfl
  · rfl

mutual

/-- The bounds that a search meets are formed like the type. -/
theorem formed_throughBounds {A : Arity} {P : ParamSet} (bounded : P.Bounded A) : ∀ {t u : Ty},
    t.Formed A P → u ∈ t.throughBounds → u.Formed A P
  | .decl _, _, formed, member | .bare _ _, _, formed, member | .app _ _ _, _, formed, member
  | .array _ _, _, formed, member => by
    rw [List.mem_singleton.mp member]
    exact formed
  | .param s n bs, _, formed, member => by
    rcases List.mem_cons.mp member with rfl | below
    · exact formed
    · exact formed_throughAllBounds bounded (bounded s n bs formed) below

theorem formed_throughAllBounds {A : Arity} {P : ParamSet} (bounded : P.Bounded A) :
    ∀ {ts : List Ty} {u : Ty}, Ty.FormedAll A P ts → u ∈ Ty.throughAllBounds ts → u.Formed A P
  | _ :: _, _, ⟨first, rest⟩, member => by
    rcases List.mem_append.mp member with here | later
    · exact formed_throughBounds bounded first here
    · exact formed_throughAllBounds bounded rest later

end

/-- The use that is located from a renamed type is the renamed use. -/
theorem Sound.locateUse_rename (sound : h.Sound ids) {t : Ty} (through : h.RenamableThrough ids ρ t)
    (decl : Ty) : h.locateUse decl (t.rename ρ) =
      renameOutcome ρ (Option.map (Ty.rename ρ)) (h.locateUse decl t) := by
  unfold locateUse
  split
  · rfl
  · split
    · rfl
    · rw [locate_eq, locate_eq, Ty.weight_rename]
      have all : ∀ u ∈ [t], h.RenamableThrough ids ρ u := List.forall_mem_singleton.mpr through
      exact locateFrom_rename sound all

theorem pairing_rename {P : ParamSet} (decl : Ty) {found : Option Ty}
    (formed : ∀ u, found = some u → u.Formed (h.arity ids) P) :
    h.pairing decl (found.map (Ty.rename ρ)) = (h.pairing decl found).rename ρ := by
  cases found with
  | none => rfl
  | some use =>
    simp only [Option.map_some, pairing, Bindings.rename, args_rename (formed use rfl),
      List.zip_map_right, List.map_map]
    rfl

end Hierarchy

theorem Bindings.settled_rename {h : Hierarchy} {ids : List DeclId} (sound : h.Sound ids)
    {b : Bindings} {args args' : Spec} {ρ : String → String} {good : String → Prop}
    (evades : b.Evades args args' good ρ) :
    (b.rename ρ).settled h args' = (b.settled h args).rename ρ := by
  unfold settled
  rw [Bindings.rename, List.map_map, Bindings.rename, List.map_map]
  refine List.map_congr_left ?_
  intro x member
  obtain ⟨last, connects, same⟩ := b.connect_settles h args x.actual
  have names := evades.goals x.actual (List.mem_append_left _ (List.mem_map_of_mem member))
  have carried := (connects.rename evades names).connect_eq h
  rw [sound.settle_rename, ← same] at carried
  exact congrArg (Binding.mk x.declared) carried

namespace Engine

variable {h : Hierarchy}

/-- The names in what a receiver is bound to are names of the receiver. -/
theorem evades_of_lettered {ids : List DeclId} {decl : Ty} {found : Option Ty} {args args' : Spec}
    {good : String → Prop} {ρ : String → String}
    (located : ∀ u, found = some u → u.Lettered (h.arity ids) good)
    (mirrors : h.Mirrors ids good ρ args args') (injective : Set.InjOn ρ {n | good n})
    (stays : ∀ n, good n → (h.pairing decl found).Leads args n ∨
      (h.pairing decl found).Leads args (ρ n) → ρ n = n) :
    (h.pairing decl found).Evades args args' good ρ := by
  refine ⟨injective, stays, ?_, mirrors.renamed⟩
  intro s goal
  rcases List.mem_append.mp goal with bound | supplied
  · obtain ⟨x, member, rfl⟩ := List.mem_map.mp bound
    cases found with
    | none => cases member
    | some use =>
      obtain ⟨⟨p, a⟩, paired, rfl⟩ := List.mem_map.mp member
      exact Slot.Formed.names_good
        (Hierarchy.args_formed (located use rfl) (List.of_mem_zip paired).2)
  · obtain ⟨n, found⟩ := NameMap.mem_values_iff.mp supplied
    exact Slot.Formed.names_good (mirrors.tallies.values n s found)

/-- The exact bindings for a receiver under new names are those for the receiver, renamed, if
nothing is captured on the way up, and if the names that lead on stay and are given to no other type
parameter. An argument whose name leads nowhere is settled itself, and one whose name leads back to
that name only is settled as it is or as it is found there. But an argument that is called like a
declared parameter is bound to the argument for that parameter, if this is another one. -/
theorem exactBindings_rename {rs : List Registry} (loaded : h.Loaded rs) {scope : Scope}
    (opens : h.Opens rs scope) {receiver : Ty} (reads : h.Reads rs scope receiver) (decl : Ty)
    (settings : Settings) (requests : List Request) :
    ∃ loose exact args,
      (((ofSettings settings).after h requests).bindings h decl receiver).1.result = .ok loose ∧
      (((ofSettings settings).after h requests).exactBindings h decl receiver).1.result =
        .ok exact ∧
      h.arguments receiver = .ok args ∧
      (∀ (ρ : String → String) (later : List Request), Set.InjOn ρ {n | n ∈ receiver.names} →
        (∀ u ∈ receiver.throughBounds, ∀ d, u.head? = some d →
          h.Uncaptured u ∧ h.Uncaptured (u.rename ρ)) →
        (∀ n ∈ receiver.names, loose.Leads args n ∨ loose.Leads args (ρ n) → ρ n = n) →
        (((ofSettings settings).after h later).exactBindings h decl (receiver.rename ρ)).1.result =
          .ok (exact.rename ρ)) ∧
      ∀ (i : Nat) (p a : Slot), loose[i]? = some ⟨p, a⟩ → a.isParam = true →
        (¬ loose.Leads args a.name → exact[i]? = some ⟨p, h.settle a⟩) ∧
        ((∀ s, loose.get? a.name = some s ∨ args.get? a.name = some s → s.name = a.name) →
          ∃ last, (last = a ∨ loose.get? a.name = some last ∨ args.get? a.name = some last) ∧
            exact[i]? = some ⟨p, h.settle last⟩) ∧
        ∀ other, loose.get? a.name = some other → other ≠ a → other.isParam = false →
          exact[i]? = some ⟨p, other⟩ := by
  obtain ⟨ids, sound, known⟩ := loaded.sound
  have whole := reads.whole sound known opens
  have lettered : receiver.Lettered (h.arity ids) (· ∈ receiver.names) :=
    whole.lettered fun n member => member
  obtain ⟨args, ok, -⟩ := Hierarchy.arguments_whole whole
  obtain ⟨found, located, formed⟩ := sound.locateUse_formed
    ⟨ParamSet.named_bounded, ParamSet.named_selfBounded⟩ lettered decl
  have shadowed := (Shadowed.ofSettings h settings).after requests
  refine ⟨h.pairing decl found, (h.pairing decl found).settled h args, args, ?_, ?_, ok, ?_, ?_⟩
  · rw [shadowed.bindings_result sound.direct, located]
    rfl
  · rw [shadowed.exactBindings_result sound.direct decl ok, located]
    rfl
  · intro ρ later injective free stays
    obtain ⟨args₀, args', ok₀, ok', mirrors⟩ := Hierarchy.arguments_rename (ρ := ρ) lettered
    cases ok.symm.trans ok₀
    have through : h.RenamableThrough ids ρ receiver := by
      intro u member d head
      have formed := Hierarchy.formed_throughBounds ParamSet.whole_bounded whole member
      have formed := formed.mono (fun _ _ known => known) fun _ _ _ _ => trivial
      obtain ⟨free, free'⟩ := free u member d head
      exact ⟨formed, ⟨d, head⟩, free, free'⟩
    have shadowed' := (Shadowed.ofSettings h settings).after (h := h) later
    rw [shadowed'.exactBindings_result sound.direct decl ok', sound.locateUse_rename through, located]
    have evades := evades_of_lettered formed mirrors injective stays
    have renamed := Bindings.settled_rename sound evades
    rw [← Hierarchy.pairing_rename decl formed] at renamed
    exact congrArg Except.ok renamed
  · generalize h.pairing decl found = loose
    intro i p a at_i isParam
    have settled : ∀ last, loose.Connects args a last →
        (loose.settled h args)[i]? = some ⟨p, h.settle last⟩ := by
      intro last connects
      rw [Bindings.settled, List.getElem?_map, at_i, Option.map_some, connects.connect_eq h]
    refine ⟨?_, ?_, ?_⟩
    · intro nowhere
      exact settled a (Bindings.connects_self nowhere)
    · intro itself
      obtain ⟨last, among, connects⟩ := Bindings.connects_same_name isParam itself
      exact ⟨last, among, settled last connects⟩
    · intro other bound apart plain
      rw [settled other (Bindings.connects_namesake isParam bound apart plain), Hierarchy.settle,
        if_neg (by simp [plain])]

/-- The first argument of a crate may be called `D`. The second is called like a parameter of
crates, and its name stays. -/
theorem crateType_exact_renamed : ∃ exact : Bindings,
    (((ofSettings {}).after reelLibrary.hierarchy []).exactBindings reelLibrary.hierarchy
      (.decl ⟨"Crate", 8⟩) crateType).1.result = .ok exact ∧
    (((ofSettings {}).after reelLibrary.hierarchy
        [.find (some (.decl ⟨"Crate", 8⟩)) (some crateType)]).exactBindings reelLibrary.hierarchy
      (.decl ⟨"Crate", 8⟩) (crateType.rename (Equiv.swap "C" "D"))).1.result =
        .ok (exact.rename (Equiv.swap "C" "D")) := by
  have facts : ((reelLibrary.reader crateScope).parseType "Crate<C, A>").isOk = true ∧
      crateType.names = ["C", "A"] ∧ crateType.throughBounds = [crateType] ∧
      (((ofSettings {}).after reelLibrary.hierarchy []).bindings reelLibrary.hierarchy
        (.decl ⟨"Crate", 8⟩) crateType).1.result.toOption.map
          (fun b => ["C", "D"].map fun n => (b.get? n).isSome) = some [false, false] ∧
      (reelLibrary.hierarchy.arguments crateType).toOption.map
        (fun b => ["C", "D"].map fun n => (b.get? n).isSome) = some [false, false] ∧
      ∀ t ∈ [crateType, crateType.rename (Equiv.swap "C" "D")],
        (∀ u ∈ reelInstances t, ∀ v ∈ reelLibrary.hierarchy.directSupers u, v ∈ reelInstances t) ∧
        ∀ u ∈ reelInstances t, reelLibrary.hierarchy.captures u = false := by
    decide +kernel
  obtain ⟨readable, names, through, bound, supplied, uncaptured⟩ := facts
  have reads : reelLibrary.hierarchy.Reads [reelLibrary.registry, .root] crateScope crateType :=
    reads_in_reelLibrary readable
  obtain ⟨loose, exact, args, okLoose, okExact, okArgs, renames, -⟩ :=
    exactBindings_rename loaded_reelLibrary (Library.opens_scopeIn List.mem_cons_self _)
      reads (.decl ⟨"Crate", 8⟩) {} []
  rw [okLoose] at bound
  rw [okArgs] at supplied
  have nowhere : ¬ loose.Leads args "C" ∧ ¬ loose.Leads args "D" := by
    simp only [Except.toOption, Option.map_some, List.map_cons, List.map_nil, Option.some.injEq,
      List.cons.injEq, and_true] at bound supplied
    simp [Bindings.Leads, bound.1, bound.2, supplied.1, supplied.2]
  refine ⟨exact, okExact, renames _ _ (Equiv.swap "C" "D").injective.injOn ?_ ?_⟩
  · rw [through]
    intro u member _ _
    rw [List.mem_singleton.mp member]
    have free : ∀ t ∈ [crateType, crateType.rename (Equiv.swap "C" "D")],
        reelLibrary.hierarchy.Uncaptured t :=
      fun t listed => uncaptured_of_reelInstances (uncaptured t listed).1 (uncaptured t listed).2
    exact ⟨free _ List.mem_cons_self, free _ (List.mem_cons_of_mem _ List.mem_cons_self)⟩
  · rw [names]
    intro n member leads
    rcases List.mem_cons.mp member with rfl | member
    · rw [Equiv.swap_apply_left] at leads
      exact absurd leads (not_or.mpr nowhere)
    · rw [List.mem_singleton.mp member]
      exact Equiv.swap_apply_of_ne_of_ne (by decide) (by decide)

def textCrate : Ty := reelLibrary.typeIn crateScope "Crate<C, Text>"

/-- If the first argument of a crate of `C` and `Text` is called `B`, like the second parameter of
crates, then it is led to the second argument: both parameters are bound to `Text`. -/
theorem namesake_redirected :
    reelLibrary.hierarchy.Loaded [reelLibrary.registry, .root] ∧
    reelLibrary.hierarchy.Opens [reelLibrary.registry, .root] crateScope ∧
    reelLibrary.hierarchy.Reads [reelLibrary.registry, .root] crateScope textCrate ∧
    ((ofSettings {}).exactBindings reelLibrary.hierarchy (.decl ⟨"Crate", 8⟩)
      textCrate).1.result.toOption.map (fun b => b.map fun x => x.actual.name) =
        some ["Object", "Text"] ∧
    ((ofSettings {}).exactBindings reelLibrary.hierarchy (.decl ⟨"Crate", 8⟩)
      (textCrate.rename (Equiv.swap "B" "C"))).1.result.toOption.map
        (fun b => b.map fun x => x.actual.name) = some ["Text", "Text"] ∧
    ((ofSettings {}).exactBindings reelLibrary.hierarchy (.decl ⟨"Crate", 8⟩)
      (textCrate.rename (Equiv.swap "B" "C"))).1.result ≠
        renameOutcome (Equiv.swap "B" "C") (Bindings.rename (Equiv.swap "B" "C"))
          ((ofSettings {}).exactBindings reelLibrary.hierarchy (.decl ⟨"Crate", 8⟩)
            textCrate).1.result := by
  have facts : ((reelLibrary.reader crateScope).parseType "Crate<C, Text>").isOk = true ∧
      ((ofSettings {}).exactBindings reelLibrary.hierarchy (.decl ⟨"Crate", 8⟩)
        textCrate).1.result.toOption.map (fun b => b.map fun x => x.actual.name) =
          some ["Object", "Text"] ∧
      ((ofSettings {}).exactBindings reelLibrary.hierarchy (.decl ⟨"Crate", 8⟩)
        (textCrate.rename (Equiv.swap "B" "C"))).1.result.toOption.map
          (fun b => b.map fun x => x.actual.name) = some ["Text", "Text"] ∧
      (renameOutcome (Equiv.swap "B" "C") (Bindings.rename (Equiv.swap "B" "C"))
        ((ofSettings {}).exactBindings reelLibrary.hierarchy (.decl ⟨"Crate", 8⟩)
          textCrate).1.result).toOption.map (fun b => b.map fun x => x.actual.name) =
            some ["Object", "Text"] := by decide +kernel
  obtain ⟨readable, before, after, renamed⟩ := facts
  refine ⟨loaded_reelLibrary, Library.opens_scopeIn List.mem_cons_self _,
    reads_in_reelLibrary readable, before, after, ?_⟩
  intro same
  rw [← same, after] at renamed
  exact absurd renamed (by decide)

end Engine

end NominalGenerics
