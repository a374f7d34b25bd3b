import NominalGenerics.Proofs.AlphaEquivalence
import NominalGenerics.Proofs.Building
import NominalGenerics.Proofs.Legible

/-!
# The names of type parameters

A type parameter that reading gives bears a name of the grammar: words with points between them. So
do all that declarations mention, since these were read (`Loaded.isName`), and all in what
is read with type parameters in scope (`Reads.isName`, `ReadsSlot.isName`). Such a name is never
that of an array.
-/

namespace NominalGenerics

/-! ## Names and other texts -/

namespace Token

theorem IsWord.chars {w : String} (word : IsWord w) : ∀ c ∈ w.toList, continuesWord c = true := by
  obtain ⟨c, cs, same, starts, rest⟩ := word
  rw [same]
  refine List.forall_mem_cons.mpr ⟨?_, rest⟩
  rw [continuesWord, starts, Bool.true_or]

/-- A name has no marks but points. -/
theorem IsName.chars {n : String} (name : IsName n) :
    ∀ c ∈ n.toList, continuesWord c = true ∨ c = '.' := by
  induction name with
  | word word => exact fun c member => .inl (word.chars c member)
  | dotted _ word ih =>
    intro c member
    simp only [String.toList_append, List.mem_append] at member
    rcases member with (before | point) | after
    · exact ih c before
    · exact .inr (by simpa using point)
    · exact .inl (word.chars c after)

theorem IsName.not_mem {n : String} (name : IsName n) {c : Char} (breaks : continuesWord c = false)
    (other : c ≠ '.') : c ∉ n.toList := by
  intro member
  rcases name.chars c member with continues | point
  · rw [breaks] at continues
    cases continues
  · exact other point

theorem IsName.ne_array {n : String} (name : IsName n) (k : String) : n ≠ k ++ "[]" := by
  rintro rfl
  refine name.not_mem (c := '[') (by decide) (by decide) ?_
  simp

theorem IsName.ne_missing {n : String} (name : IsName n) : n ≠ DeclId.missing.name := by
  rintro rfl
  exact name.not_mem (c := '<') (by decide) (by decide) (by decide)

end Token

/-! ## What is read -/

/-- The bounds of the type parameters in scope mention parameters with proper names. -/
def Scope.Spelled (scope : Scope) : Prop :=
  ∀ s n bs, scope.params s n bs → ∀ m ∈ Ty.namesAll bs, Token.IsName m

section Legible

variable {r : Reader}

mutual

theorem Ty.Legible.isName (spelled : r.scope.Spelled) : ∀ {t : Ty}, t.Legible r →
    ∀ n ∈ t.names, Token.IsName n
  | .decl _, _ | .bare _ _, _ => nofun
  | .app _ _ _, ⟨_, _, legible⟩ => Slot.LegibleAll.isName spelled legible
  | .param s n bs, held => List.forall_mem_cons.mpr ⟨held.name, spelled s n bs held.found⟩
  | .array _ e, legible => Ty.Legible.isName spelled (t := e) legible

theorem Slot.Legible.isName (spelled : r.scope.Spelled) : ∀ {s : Slot}, s.Legible r →
    ∀ n ∈ s.names, Token.IsName n
  | .exact _ t, ⟨_, _, legible⟩ => Ty.Legible.isName spelled (t := t) legible
  | .param _ none s n bs, ⟨_, _, held⟩ =>
    List.forall_mem_cons.mpr ⟨held.name, spelled s n bs held.found⟩
  | .wildcard _ none _, ⟨_, legible⟩ => Ty.LegibleAll.isName spelled legible
  | .wildcard _ (some l) [], ⟨_, _, legible⟩ => List.forall_mem_append.mpr
    ⟨Ty.Legible.isName spelled (t := l) legible, nofun⟩

theorem Ty.LegibleAll.isName (spelled : r.scope.Spelled) : ∀ {ts : List Ty}, Ty.LegibleAll r ts →
    ∀ n ∈ Ty.namesAll ts, Token.IsName n
  | [], _ => nofun
  | t :: _, ⟨first, rest⟩ => List.forall_mem_append.mpr
    ⟨Ty.Legible.isName spelled (t := t) first, Ty.LegibleAll.isName spelled rest⟩

theorem Slot.LegibleAll.isName (spelled : r.scope.Spelled) : ∀ {ss : List Slot},
    Slot.LegibleAll r ss → ∀ n ∈ Slot.namesAll ss, Token.IsName n
  | [], _ => nofun
  | s :: _, ⟨first, rest⟩ => List.forall_mem_append.mpr
    ⟨Slot.Legible.isName spelled (s := s) first, Slot.LegibleAll.isName spelled rest⟩

end

end Legible

namespace Reader

variable {r : Reader}

/-- Every reader knows how many arguments the declarations that it names take. -/
theorem Apt.informed (apt : r.Apt) : r.Informed fun d => some (r.hierarchy.params d).length :=
  ⟨fun _ _ _ => rfl, apt.proper⟩

theorem Apt.moved (apt : r.Apt) (source : Nat) :
    ({ r with source := source } : Reader).Apt :=
  ⟨apt.named, apt.proper⟩

theorem parseParam_isName (apt : r.Apt) (spelled : r.scope.Spelled) {text : String} {p : Slot}
    (ok : r.parseParam text = .ok p) : ∀ n ∈ p.names, Token.IsName n := by
  obtain ⟨o, k, rest, read⟩ := readWhole_eq_ok_iff.mp (mapError_eq_ok.mp ok)
  have genuine := Token.genuine_scan text.toList
  unfold readParam at read
  split at read
  · rename_i w _ _ _ _ tail scanned
    rw [scanned] at genuine
    have word : Token.IsWord w := genuine _ List.mem_cons_self w rfl
    obtain ⟨⟨bounds, after⟩, readBounds, read⟩ := bind_eq_ok.mp read
    cases read
    obtain ⟨legible, -⟩ := (rules_legible apt _).bounds _ _ _ genuine.tail.tail readBounds
    exact List.forall_mem_cons.mpr ⟨.word word, legible.isName spelled⟩
  · rename_i w _ _ tail _ scanned
    rw [scanned] at genuine
    have word : Token.IsWord w := genuine _ List.mem_cons_self w rfl
    cases read
    exact List.forall_mem_cons.mpr ⟨.word word, nofun⟩
  · exact absurd read fail_ne_ok

theorem parseEach_isName {texts : List String} {scope scope' : Scope} {params : List Slot}
    (apt : r.Apt) (spelled : r.scope.Spelled)
    (ok : r.parseEach texts scope = .ok (params, scope')) :
    ∀ p ∈ params, ∀ n ∈ p.names, Token.IsName n := by
  induction texts generalizing r scope params with
  | nil =>
    cases ok
    exact nofun
  | cons text texts ih =>
    obtain ⟨p, read, ok⟩ := bind_eq_ok.mp ok
    obtain ⟨⟨ps, after⟩, readRest, ok⟩ := bind_eq_ok.mp ok
    cases ok
    exact List.forall_mem_cons.mpr
      ⟨parseParam_isName apt spelled read, ih (apt.moved (r.source + 1)) spelled readRest⟩

theorem opened_spelled {scope : Scope} {params : List Slot} (spelled : scope.Spelled)
    (declared : ∀ p ∈ params, ∃ s n bs, p = .parameter s n bs)
    (names : ∀ p ∈ params, ∀ n ∈ p.names, Token.IsName n) : (opened scope params).Spelled := by
  intro s n bs found
  rcases get?_opened found with ⟨p, member, rfl, same⟩ | before
  · obtain ⟨s', n', bs', rfl⟩ := declared p member
    cases same
    exact (List.forall_mem_cons.mp (names _ member)).2
  · exact spelled s n bs before

/-- Declared parameters bear proper names and spell their bounds. -/
theorem parseParams_isName {texts : List String} {scope : Scope} {params : List Slot}
    (apt : r.Apt) (spelled : r.scope.Spelled) (ok : r.parseParams texts = .ok (params, scope)) :
    (∀ p ∈ params, ∀ n ∈ p.names, Token.IsName n) ∧ scope.Proper ∧ scope.Spelled := by
  obtain ⟨declared, -, rfl⟩ := parseParams_declared apt.informed ok
  -- the bounds are read while the parameters themselves are in scope without any
  obtain ⟨bare, isBare, ok⟩ := bind_eq_ok.mp ok
  obtain ⟨proper, bounds⟩ := bareScope_bare apt.proper isBare
  have spelledBare : bare.Spelled := by
    intro s n bs found
    rcases bounds s n bs found with rfl | outer
    · exact nofun
    · exact spelled s n bs outer
  have inner : ({ r with scope := bare, source := r.source + 1 } : Reader).Apt :=
    ⟨apt.named, proper⟩
  have names := parseEach_isName inner spelledBare ok
  refine ⟨names, opened_proper apt.proper declared, opened_spelled spelled ?_ names⟩
  intro p member
  obtain ⟨s, n, bs, same, -⟩ := declared p member
  exact ⟨s, n, bs, same⟩

theorem parseSupertypes_isName {texts : List String} {ts : List Ty} (apt : r.Apt)
    (spelled : r.scope.Spelled) (ok : Library.parseSupertypes r texts = .ok ts) :
    ∀ t ∈ ts, ∀ n ∈ t.names, Token.IsName n := by
  induction texts generalizing r ts with
  | nil =>
    cases ok
    exact nofun
  | cons text texts ih =>
    obtain ⟨t, parsed, ok⟩ := bind_eq_ok.mp ok
    dsimp only at ok
    split at ok
    · cases ok
    · obtain ⟨rest, later, ok⟩ := bind_eq_ok.mp ok
      cases ok
      have legible := parseType_legible apt (mapError_eq_ok.mp parsed)
      exact List.forall_mem_cons.mpr
        ⟨legible.isName spelled, ih (apt.moved (r.source + 1)) spelled later⟩

end Reader

/-! ## What is declared -/

theorem Library.supertypesOf_isName {l : Library} {s : Library.Scoped} {super : Option Ty}
    {interfaces : List Ty} (apt : (l.reader s.scope).Apt) (spelled : s.scope.Spelled)
    (ok : l.supertypesOf s = .ok (super, interfaces)) :
    (∀ t, super = some t → ∀ n ∈ t.names, Token.IsName n) ∧
      ∀ t ∈ interfaces, ∀ n ∈ t.names, Token.IsName n := by
  obtain ⟨extended, first, ok⟩ := bind_eq_ok.mp ok
  obtain ⟨implemented, second, ok⟩ := bind_eq_ok.mp ok
  have names₁ := Reader.parseSupertypes_isName apt spelled first
  have names₂ := Reader.parseSupertypes_isName (apt.moved _) spelled second
  obtain ⟨supers, others, -⟩ := checkSupertypes_spec ok
  constructor
  · intro t written
    exact names₁ t (supers t written).1
  · intro t written
    rcases (others t written).1 with member | member
    · exact names₁ t member
    · exact names₂ t member

/-- What a declaration says mentions proper names. -/
theorem Library.Says.isName {l : Library} {e : Library.Entry} {scope : Scope}
    (said : Library.Says l e scope)
    (named : ∀ name d, l.registry.lookup? name = some d → d.name = name) :
    ∀ n ∈ (l.hierarchy.content e.2).names, Token.IsName n := by
  obtain ⟨⟨v, view, params⟩, ⟨v', view', supertypes⟩⟩ := said
  have apt : (v.reader .empty).Apt := by
    refine ⟨?_, Library.proper_empty⟩
    intro name d found
    exact named name d ((view.lookup? name).symm.trans found)
  obtain ⟨names, proper, spelled⟩ := Reader.parseParams_isName apt nofun params
  have apt' : (v'.reader scope).Apt := by
    refine ⟨?_, proper⟩
    intro name d found
    exact named name d ((view'.lookup? name).symm.trans found)
  obtain ⟨supers, interfaces⟩ := Library.supertypesOf_isName apt' spelled supertypes
  unfold Decl.names
  rw [List.forall_mem_append, List.forall_mem_append]
  refine ⟨⟨?_, ?_⟩, ?_⟩
  · intro n member
    obtain ⟨p, declared, inside⟩ := Slot.mem_namesAll.mp member
    exact names p declared n inside
  · intro n member
    obtain ⟨t, written, inside⟩ := Ty.mem_namesAll.mp member
    exact supers t (Option.mem_toList.mp written) n inside
  · intro n member
    obtain ⟨t, written, inside⟩ := Ty.mem_namesAll.mp member
    exact interfaces t written n inside

/-- Every declaration after those that were there before is that of an entry. -/
theorem Library.Arranged.entry_of_index {l m : Library} {entries : List Library.Entry}
    (arranged : Library.Arranged l m entries) {d : DeclId} (new : l.hierarchy.decls.size ≤ d.index)
    (made : d.index < m.hierarchy.decls.size) : ∃ e ∈ entries, e.2.index = d.index := by
  have listed : d.index ∈ entries.map (·.2.index) := by
    rw [arranged.indices, List.mem_range'_1, ← arranged.size]
    exact ⟨new, made⟩
  exact List.mem_map.mp listed

namespace Hierarchy

variable {h : Hierarchy} {rs : List Registry}

theorem content_of_size_le {d : DeclId} (outside : h.decls.size ≤ d.index) : h.content d = {} := by
  unfold content
  rw [Array.getD_eq_getD_getElem?, Array.getElem?_eq_none outside]
  rfl

/-- Registries know declarations under their own names, and these mention proper names. -/
theorem Loaded.isName (loaded : h.Loaded rs) :
    (∀ r ∈ rs, ∀ name d, r.lookup? name = some d → d.name = name) ∧
      ∀ d, ∀ n ∈ (h.content d).names, Token.IsName n := by
  induction loaded with
  | root =>
    constructor
    · intro r member name d found
      rw [List.mem_singleton.mp member] at found
      have names : Registry.root.names = NameMap.empty.insert DeclId.object.name .object := rfl
      unfold Registry.lookup? at found
      rw [names, NameMap.get?_insert] at found
      split at found
      · rename_i same
        cases found
        exact same.symm
      · cases found
    · intro d
      rw [content_root]
      exact nofun
  | @load h rs r model l _ member ok ih =>
    obtain ⟨named, declared⟩ := ih
    obtain ⟨entries, -, builds⟩ := Library.load_builds ok
    have own : ∀ name d, l.registry.lookup? name = some d → d.name = name := by
      intro name d found
      rcases builds.names name d found with before | ⟨e, entry, rfl, rfl⟩
      · exact named r member name d before
      · exact (builds.named e entry).2
    constructor
    · exact List.forall_mem_cons.mpr ⟨own, named⟩
    · -- a declaration of before, one of the model or an index that none has
      intro d
      by_cases old : d.index < h.decls.size
      · rw [builds.old d old]
        exact declared d
      by_cases made : d.index < l.hierarchy.decls.size
      · obtain ⟨e, entry, same⟩ := builds.entry_of_index (Nat.not_lt.mp old) made
        obtain ⟨scope, said, -⟩ := builds.content e entry
        rw [← content_congr same]
        exact said.isName own
      · rw [content_of_size_le (Nat.not_lt.mp made)]
        exact nofun
  | read count _ ih => exact ih

/-- Scopes that reading makes spell the bounds in them. -/
theorem Opens.spelled {scope : Scope} (loaded : h.Loaded rs) (opens : h.Opens rs scope) :
    scope.Proper ∧ scope.Spelled := by
  obtain ⟨named, declared⟩ := loaded.isName
  induction opens with
  | empty => exact ⟨Library.proper_empty, nofun⟩
  | @of r name d _ _ =>
    obtain ⟨ids, sound, -⟩ := loaded.sound
    rw [scopeOf_eq]
    refine ⟨Reader.opened_proper Library.proper_empty (sound.decls d).params,
      Reader.opened_spelled nofun ?_ ?_⟩
    · intro p member
      obtain ⟨s, n, bs, same, -⟩ := (sound.decls d).params p member
      exact ⟨s, n, bs, same⟩
    · intro p member n inside
      exact declared d n (Decl.names_of_param member inside)
  | @params r outer scope source texts ps member _ parsed ih =>
    obtain ⟨proper, spelled⟩ := ih
    have apt : (Reader.mk h r outer source).Apt := ⟨named r member, proper⟩
    exact (Reader.parseParams_isName apt spelled parsed).2

/-- What is read is legible to some reader. -/
theorem Reads.legible {scope : Scope} {t : Ty} (loaded : h.Loaded rs) (opens : h.Opens rs scope)
    (reads : h.Reads rs scope t) : ∃ r source, t.Legible ⟨h, r, scope, source⟩ := by
  obtain ⟨r, member, source, text, parsed⟩ := reads
  obtain ⟨proper, -⟩ := opens.spelled loaded
  exact ⟨r, source, Reader.parseType_legible ⟨loaded.isName.1 r member, proper⟩ parsed⟩

/-- What is read mentions type parameters with proper names. -/
theorem Reads.isName {scope : Scope} {t : Ty} (loaded : h.Loaded rs) (opens : h.Opens rs scope)
    (reads : h.Reads rs scope t) : ∀ n ∈ t.names, Token.IsName n := by
  obtain ⟨r, source, legible⟩ := reads.legible loaded opens
  exact legible.isName (opens.spelled loaded).2

theorem ReadsSlot.isName {scope : Scope} {slot : Slot} (loaded : h.Loaded rs)
    (opens : h.Opens rs scope) (reads : h.ReadsSlot rs scope slot) :
    ∀ n ∈ slot.names, Token.IsName n := by
  obtain ⟨r, member, source, text, parsed⟩ := reads
  obtain ⟨proper, spelled⟩ := opens.spelled loaded
  exact (Reader.parseSlot_legible ⟨loaded.isName.1 r member, proper⟩ parsed).isName spelled

end Hierarchy

end NominalGenerics
