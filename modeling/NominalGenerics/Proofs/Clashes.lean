import NominalGenerics.Proofs.Lettering

/-!
# Clashing names

A name is taken when a declared type has it or a declaration uses it for a type parameter. Whether
a candidate may stand for a slot does not depend on the names of their type parameters as long as
these are not taken: however they are chosen, the answer is the same
(`Engine.isCompatible_of_untaken`). A taken name can change it, since a type parameter that is
called like the parameter of a declaration is accepted as an argument for it, whatever the slot
demands there (`Engine.clash_accepted`).
-/

namespace NominalGenerics

/-- A renaming that keeps the names of a list apart and gives proper names. -/
structure Renames (ρ : String → String) (names : List String) : Prop where
  injective : ∀ m ∈ names, ∀ n ∈ names, ρ m = ρ n → m = n
  proper : ∀ n ∈ names, Token.IsName (ρ n)

/-- What one renaming gives leads to what another gives. -/
theorem Renames.exists_counterpart {ρ : String → String} {names : List String}
    (renames : Renames ρ names) (σ : String → String) :
    ∃ τ : String → String, ∀ n ∈ names, τ (ρ n) = σ n := by
  have injective : Set.InjOn ρ {n | n ∈ names} :=
    fun m member n member' same => renames.injective m member n member' same
  refine ⟨fun m => σ (Function.invFunOn ρ {n | n ∈ names} m), ?_⟩
  intro n member
  exact congrArg σ (injective.leftInvOn_invFunOn member)

/-- A name that a registry knows, or that a declaration uses for a type parameter. -/
def Hierarchy.Taken (h : Hierarchy) (rs : List Registry) (n : String) : Prop :=
  (∃ r ∈ rs, (r.lookup? n).isSome = true) ∨ ∃ c ∈ h.decls.toList, n ∈ c.names

instance (h : Hierarchy) (rs : List Registry) (n : String) : Decidable (h.Taken rs n) :=
  inferInstanceAs (Decidable (_ ∨ _))

namespace Hierarchy

variable {h : Hierarchy} {ids : List DeclId} {rs : List Registry} {ρ : String → String}
  {names : List String}

theorem taken_of_content {d : DeclId} {n : String} (member : n ∈ (h.content d).names) :
    h.Taken rs n := by
  rcases h.content_cases d with listed | blank
  · exact .inr ⟨_, listed, member⟩
  · rw [blank] at member
    cases member

/-- The renaming that changes the names of a list and no others. -/
def only (names : List String) (ρ : String → String) (n : String) : String :=
  if n ∈ names then ρ n else n

theorem only_of_mem {n : String} (member : n ∈ names) : only names ρ n = ρ n := if_pos member

theorem only_of_not_mem {n : String} (outside : n ∉ names) : only names ρ n = n := if_neg outside

theorem only_eq_self (untaken : ∀ n ∈ names, h.Taken rs n ∨ h.Taken rs (ρ n) → ρ n = n)
    {n : String} (taken : h.Taken rs n ∨ h.Taken rs (only names ρ n)) : only names ρ n = n := by
  by_cases member : n ∈ names
  · rw [only_of_mem member] at taken ⊢
    exact untaken n member taken
  · exact only_of_not_mem member

/-- A renaming that leaves taken names alone and gives no other such spares the declarations. -/
theorem Loaded.spares (loaded : h.Loaded rs)
    (registered : ∀ d ∈ ids, d = .missing ∨ ∃ r ∈ rs, r.lookup? d.name = some d)
    (spelled : ∀ n ∈ names, Token.IsName n) (renames : Renames ρ names)
    (untaken : ∀ n ∈ names, h.Taken rs n ∨ h.Taken rs (ρ n) → ρ n = n) :
    h.Spares ids (fun n => n ∈ names ∨ ∃ d, n ∈ (h.content d).names) (only names ρ) := by
  have proper : ∀ n, (n ∈ names ∨ ∃ d, n ∈ (h.content d).names) →
      Token.IsName n ∧ Token.IsName (only names ρ n) := by
    rintro n (member | ⟨d, inside⟩)
    · rw [only_of_mem member]
      exact ⟨spelled n member, renames.proper n member⟩
    · rw [only_eq_self untaken (.inl (taken_of_content inside))]
      exact ⟨loaded.isName.2 d n inside, loaded.isName.2 d n inside⟩
  have listed : ∀ n, (n ∈ names ∨ ∃ d, n ∈ (h.content d).names) →
      ¬ h.Taken rs (only names ρ n) → n ∈ names := by
    rintro n (member | ⟨d, inside⟩) free
    · exact member
    · have taken : h.Taken rs n := taken_of_content inside
      rw [only_eq_self untaken (.inl taken)] at free
      exact absurd taken free
  constructor
  · intro m n name name' same
    by_cases taken : h.Taken rs (only names ρ m)
    · have stays := only_eq_self untaken (.inr taken)
      rw [same] at taken
      rw [← stays, same, only_eq_self untaken (.inr taken)]
    · have member := listed m name taken
      have member' := listed n name' (same ▸ taken)
      rw [only_of_mem member, only_of_mem member'] at same
      exact renames.injective m member n member' same
  · intro d n inside
    exact ⟨.inr ⟨d, inside⟩, only_eq_self untaken (.inl (taken_of_content inside))⟩
  · intro d known n name
    rcases registered d known with rfl | ⟨r, member, found⟩
    · exact iff_of_false (proper n name).2.ne_missing (proper n name).1.ne_missing
    · have taken : h.Taken rs d.name := .inl ⟨r, member, Option.isSome_of_eq_some found⟩
      constructor
      · intro same
        rw [← same] at taken ⊢
        exact (only_eq_self untaken (.inr taken)).symm
      · intro same
        rw [← same] at taken ⊢
        exact only_eq_self untaken (.inl taken)
  · intro n name k
    exact ⟨(proper n name).1.ne_array k, (proper n name).2.ne_array k⟩

end Hierarchy

/-! ## Copies -/

theorem ParamSet.whole_of_rename {A : Arity} {ρ : String → String} {s : Site} {n : String}
    {bs : List Ty} (renamed : (ParamSet.whole A).rename ρ s n bs) : ParamSet.whole A s n bs := by
  refine ⟨(ParamSet.whole A).rename ρ, ?_, renamed⟩
  rintro s n bs ⟨m, cs, whole, -, rfl⟩
  exact Ty.FormedAll.image (ParamSet.whole_iff.mp whole)

theorem Traced.Echoes.answered {ρ : String → String} {x x' : Traced Bool} (echoes : x.Echoes ρ x')
    (answer : Bool) : x'.result = .ok answer ↔ x.result = .ok answer := by
  unfold Traced.Echoes at echoes
  rw [echoes]
  cases x.result with
  | ok a => exact Iff.rfl
  | error f => exact iff_of_false nofun nofun

namespace Engine

variable {h : Hierarchy} {ids : List DeclId} {rs : List Registry} {slot : Slot} {candidate : Ty}

theorem isCompatible_rename (loaded : h.Loaded rs) (sound : h.Sound ids)
    (registered : ∀ d ∈ ids, d = .missing ∨ ∃ r ∈ rs, r.lookup? d.name = some d)
    (whole : slot.Formed (h.arity ids) (.whole (h.arity ids)))
    (whole' : candidate.Formed (h.arity ids) (.whole (h.arity ids)))
    (spelled : ∀ n ∈ slot.names ++ candidate.names, Token.IsName n) {ρ : String → String}
    (renames : Renames ρ (slot.names ++ candidate.names))
    (untaken : ∀ n ∈ slot.names ++ candidate.names,
      h.Taken rs n ∨ h.Taken rs (ρ n) → ρ n = n) (e : Engine) (answer : Bool) :
    (e.isCompatible h (slot.rename ρ) (candidate.rename ρ)).result = .ok answer ↔
      (e.isCompatible h slot candidate).result = .ok answer := by
  have spares := loaded.spares registered spelled renames untaken
  have echoes := isCompatible_echoes spares sound e
    (whole.lettered fun n inside => .inl (List.mem_append_left _ inside))
    (whole'.lettered fun n inside => .inl (List.mem_append_right _ inside))
  have sameSlot : slot.rename (Hierarchy.only (slot.names ++ candidate.names) ρ) = slot.rename ρ :=
    Slot.rename_congr fun n inside => Hierarchy.only_of_mem (List.mem_append_left _ inside)
  have same : candidate.rename (Hierarchy.only (slot.names ++ candidate.names) ρ) =
      candidate.rename ρ :=
    Ty.rename_congr fun n inside => Hierarchy.only_of_mem (List.mem_append_right _ inside)
  rw [sameSlot, same] at echoes
  exact echoes.answered answer

theorem isCompatible_counterpart (loaded : h.Loaded rs) (sound : h.Sound ids)
    (registered : ∀ d ∈ ids, d = .missing ∨ ∃ r ∈ rs, r.lookup? d.name = some d)
    (whole : slot.Formed (h.arity ids) (.whole (h.arity ids)))
    (whole' : candidate.Formed (h.arity ids) (.whole (h.arity ids))) {ρ σ : String → String}
    (renames : Renames ρ (slot.names ++ candidate.names))
    (renames' : Renames σ (slot.names ++ candidate.names))
    (untaken : ∀ n ∈ slot.names ++ candidate.names,
      h.Taken rs (ρ n) ∨ h.Taken rs (σ n) → ρ n = σ n) (e : Engine) (answer : Bool) :
    (e.isCompatible h (slot.rename ρ) (candidate.rename ρ)).result = .ok answer ↔
      (e.isCompatible h (slot.rename σ) (candidate.rename σ)).result = .ok answer := by
  -- the second copy is the first with each name replaced by its counterpart
  obtain ⟨τ, counterpart⟩ := renames.exists_counterpart σ
  have sameSlot : (slot.rename ρ).rename τ = slot.rename σ := by
    rw [Slot.rename_rename]
    exact Slot.rename_congr fun n inside => counterpart n (List.mem_append_left _ inside)
  have same : (candidate.rename ρ).rename τ = candidate.rename σ := by
    rw [Ty.rename_rename]
    exact Ty.rename_congr fun n inside => counterpart n (List.mem_append_right _ inside)
  have copied : ∀ {P : String → Prop}, (∀ n ∈ slot.names ++ candidate.names, P (ρ n)) →
      ∀ m ∈ (slot.rename ρ).names ++ (candidate.rename ρ).names, P m := by
    intro P holds
    rw [Slot.names_rename, Ty.names_rename, ← List.map_append]
    exact List.forall_mem_map.mpr holds
  rw [← sameSlot, ← same]
  refine (isCompatible_rename loaded sound registered (whole.image.mono ?_ ?_)
    (whole'.image.mono ?_ ?_) (copied renames.proper) ⟨?_, ?_⟩ ?_ e answer).symm
  · exact fun _ _ known => known
  · exact fun _ _ _ => ParamSet.whole_of_rename
  · exact fun _ _ known => known
  · exact fun _ _ _ => ParamSet.whole_of_rename
  · refine copied fun m member => copied fun n member' same => ?_
    rw [counterpart m member, counterpart n member'] at same
    rw [renames'.injective m member n member' same]
  · refine copied fun n member => ?_
    rw [counterpart n member]
    exact renames'.proper n member
  · refine copied fun n member taken => ?_
    rw [counterpart n member] at taken ⊢
    exact (untaken n member taken).symm

/-- Whether a candidate may stand for a slot does not depend on which names their type parameters
bear, as long as a name that is taken is not given up or taken on: copies of the two that differ
only in such names get the same answer as they do, and the same answer as each other. -/
theorem isCompatible_of_untaken (loaded : h.Loaded rs) {scope : Scope} (opens : h.Opens rs scope)
    (readsSlot : h.ReadsSlot rs scope slot) (reads : h.Reads rs scope candidate) (e : Engine)
    (answer : Bool) :
    (∀ ρ, Renames ρ (slot.names ++ candidate.names) →
      (∀ n ∈ slot.names ++ candidate.names, h.Taken rs n ∨ h.Taken rs (ρ n) → ρ n = n) →
      ((e.isCompatible h (slot.rename ρ) (candidate.rename ρ)).result = .ok answer ↔
        (e.isCompatible h slot candidate).result = .ok answer)) ∧
    ∀ ρ σ, Renames ρ (slot.names ++ candidate.names) → Renames σ (slot.names ++ candidate.names) →
      (∀ n ∈ slot.names ++ candidate.names, h.Taken rs (ρ n) ∨ h.Taken rs (σ n) → ρ n = σ n) →
      ((e.isCompatible h (slot.rename ρ) (candidate.rename ρ)).result = .ok answer ↔
        (e.isCompatible h (slot.rename σ) (candidate.rename σ)).result = .ok answer) := by
  obtain ⟨ids, sound, known, registered⟩ := loaded.registered
  have registered : ∀ d ∈ ids, d = .missing ∨ ∃ r ∈ rs, r.lookup? d.name = some d :=
    fun d listed => (registered d listed).imp_left And.left
  have whole := readsSlot.whole sound known opens
  have whole' := reads.whole sound known opens
  have spelled : ∀ n ∈ slot.names ++ candidate.names, Token.IsName n :=
    List.forall_mem_append.mpr ⟨readsSlot.isName loaded opens, reads.isName loaded opens⟩
  constructor
  · intro ρ renames untaken
    exact isCompatible_rename loaded sound registered whole whole' spelled renames untaken e answer
  · intro ρ σ renames renames' untaken
    exact isCompatible_counterpart loaded sound registered whole whole' renames renames' untaken e
      answer

end Engine

def Library.scopeIn (l : Library) (texts : List String) : Scope :=
  match (l.reader .empty).parseParams texts with
  | .ok (_, scope) => scope
  | .error _ => .empty

theorem Library.opens_scopeIn {l : Library} {rs : List Registry} (member : l.registry ∈ rs)
    (texts : List String) : l.hierarchy.Opens rs (l.scopeIn texts) := by
  unfold scopeIn
  split
  · rename_i parsed
    exact .params member .empty parsed
  · exact .empty

/-- A name of a single letter. -/
theorem Token.isName_letter {c : Char} (starts : startsWord c = true) :
    IsName (String.ofList [c]) :=
  .word ⟨c, [], String.toList_ofList, starts, nofun⟩

namespace Engine

def crateScope : Scope := reelLibrary.scopeIn ["A extends Text", "C"]

def crateSlot : Slot := reelLibrary.slotIn crateScope "? extends Sequence<C[]>"

def crateType : Ty := reelLibrary.typeIn crateScope "Crate<C, A>"

def crateNames (c a : String) (n : String) : String :=
  if n = "C" then c else if n = "A" then a else n

theorem renames_crateNames {c a : String} (apart : c ≠ a) (name : Token.IsName c)
    (name' : Token.IsName a) : Renames (crateNames c a) ["C", "C", "A"] := by
  constructor
  · simp [crateNames, apart, apart.symm]
  · simp [crateNames, name, name']

/-- A crate is a sequence of arrays under any name for their elements. Its second type parameter is
called like one of the declaration; with that given up, two more copies agree. -/
theorem crate_copies_accepted :
    ((ofSettings {}).isCompatible reelLibrary.hierarchy (crateSlot.rename (crateNames "D" "A"))
      (crateType.rename (crateNames "D" "A"))).result = .ok true ∧
    (((ofSettings {}).isCompatible reelLibrary.hierarchy (crateSlot.rename (crateNames "D" "G"))
      (crateType.rename (crateNames "D" "G"))).result = .ok true ↔
    ((ofSettings {}).isCompatible reelLibrary.hierarchy (crateSlot.rename (crateNames "G" "D"))
      (crateType.rename (crateNames "G" "D"))).result = .ok true) := by
  -- all that has to be evaluated, at once: the model is loaded for it
  have facts : crateSlot.names ++ crateType.names = ["C", "C", "A"] ∧
      ((reelLibrary.reader crateScope).parseSlot "? extends Sequence<C[]>").isOk = true ∧
      ((reelLibrary.reader crateScope).parseType "Crate<C, A>").isOk = true ∧
      ((ofSettings {}).isCompatible reelLibrary.hierarchy crateSlot
        crateType).result.toOption = some true ∧
      (∀ n ∈ ["C", "C", "A"],
        reelLibrary.hierarchy.Taken [reelLibrary.registry, .root] n ∨
          reelLibrary.hierarchy.Taken [reelLibrary.registry, .root] (crateNames "D" "A" n) →
        crateNames "D" "A" n = n) ∧
      ∀ n ∈ ["C", "C", "A"],
        reelLibrary.hierarchy.Taken [reelLibrary.registry, .root] (crateNames "D" "G" n) ∨
          reelLibrary.hierarchy.Taken [reelLibrary.registry, .root] (crateNames "G" "D" n) →
        crateNames "D" "G" n = crateNames "G" "D" n := by decide +kernel
  obtain ⟨names, readable, readable', accepted, untaken, untaken'⟩ := facts
  have readsSlot : reelLibrary.hierarchy.ReadsSlot [reelLibrary.registry, .root] crateScope
      crateSlot := Library.reads_slotIn List.mem_cons_self readable
  have reads : reelLibrary.hierarchy.Reads [reelLibrary.registry, .root] crateScope crateType :=
    reads_in_reelLibrary readable'
  have isA : Token.IsName "A" := Token.isName_letter (c := 'A') (by decide)
  have isD : Token.IsName "D" := Token.isName_letter (c := 'D') (by decide)
  have isG : Token.IsName "G" := Token.isName_letter (c := 'G') (by decide)
  obtain ⟨same, copies⟩ := isCompatible_of_untaken loaded_reelLibrary
    (Library.opens_scopeIn List.mem_cons_self _) readsSlot reads (ofSettings {}) true
  rw [names] at same copies
  constructor
  · have renames := renames_crateNames (by decide) isD isA
    exact (same (crateNames "D" "A") renames untaken).mpr (toOption_eq_some.mp accepted)
  · exact copies (crateNames "D" "G") (crateNames "G" "D") (renames_crateNames (by decide) isD isG)
      (renames_crateNames (by decide) isG isD) untaken'

def bufferScope : Scope := reelLibrary.scopeIn ["T extends Buffer<Text>"]

def bufferSlot : Slot := reelLibrary.slotIn bufferScope "Buffer<Text>"

def bufferType : Ty := reelLibrary.typeIn bufferScope "Buffer<T>"

/-- A buffer of `T` may stand for a buffer of texts, since the declaration of buffers calls its
parameter `T` too. Called `C`, the same type parameter is refused. -/
theorem clash_accepted :
    reelLibrary.hierarchy.Opens [reelLibrary.registry, .root] bufferScope ∧
    reelLibrary.hierarchy.ReadsSlot [reelLibrary.registry, .root] bufferScope bufferSlot ∧
    reelLibrary.hierarchy.Reads [reelLibrary.registry, .root] bufferScope bufferType ∧
    Renames (fun _ => "C") (bufferSlot.names ++ bufferType.names) ∧
    (∀ r ∈ [reelLibrary.registry, .root], r.lookup? "C" = none) ∧
    ((ofSettings {}).isCompatible reelLibrary.hierarchy bufferSlot bufferType).result = .ok true ∧
    ((ofSettings {}).isCompatible reelLibrary.hierarchy (bufferSlot.rename fun _ => "C")
      (bufferType.rename fun _ => "C")).result = .ok false := by
  have facts : bufferSlot.names ++ bufferType.names = ["T"] ∧
      ((reelLibrary.reader bufferScope).parseSlot "Buffer<Text>").isOk = true ∧
      ((reelLibrary.reader bufferScope).parseType "Buffer<T>").isOk = true ∧
      (∀ r ∈ [reelLibrary.registry, .root], r.lookup? "C" = none) ∧
      ((ofSettings {}).isCompatible reelLibrary.hierarchy bufferSlot
        bufferType).result.toOption = some true ∧
      ((ofSettings {}).isCompatible reelLibrary.hierarchy (bufferSlot.rename fun _ => "C")
        (bufferType.rename fun _ => "C")).result.toOption = some false := by decide +kernel
  obtain ⟨names, readable, readable', undeclared, accepted, refused⟩ := facts
  have isC : Token.IsName "C" := Token.isName_letter (c := 'C') (by decide)
  refine ⟨Library.opens_scopeIn List.mem_cons_self _,
    Library.reads_slotIn List.mem_cons_self readable, reads_in_reelLibrary readable',
    ⟨?_, fun _ _ => isC⟩, undeclared, toOption_eq_some.mp accepted, toOption_eq_some.mp refused⟩
  rw [names]
  simp

end Engine

end NominalGenerics
