import NominalGenerics.Proofs.Descent
import NominalGenerics.Proofs.Registered
import NominalGenerics.Proofs.Whole

/-!
# Rendered types read back

From the tokens of its spelling a reader gets a legible type again, written elsewhere
(`Ty.Legible.readsBack`). Whatever was read is legible, so it is rendered as a text that reads as
the same, and rendering and reading are inverse to each other up to sites
(`Session.rendered_reads_equal`).
-/

namespace NominalGenerics

/-! ## Reading a spelling -/

theorem Ty.Legible.spelling_eq_cons {r : Reader} : ∀ {t : Ty}, t.Legible r →
    ∃ w fs, t.spelling = .word w :: fs
  | .decl _, ⟨calls, _⟩ => calls.name.forms_eq_cons
  | .bare _ _, ⟨calls, _⟩ => calls.name.forms_eq_cons
  | .app _ d args, ⟨calls, _, _⟩ => by
    obtain ⟨w, fs, same⟩ := calls.name.forms_eq_cons
    exact ⟨w, _, by rw [Ty.spelling, same]; rfl⟩
  | .param _ _ _, held => held.name.forms_eq_cons
  | .array _ e, legible => by
    obtain ⟨w, fs, same⟩ := Ty.Legible.spelling_eq_cons (t := e) legible
    exact ⟨w, _, by rw [Ty.spelling, same]; rfl⟩

theorem Ty.Legible.length_pos {r : Reader} {t : Ty} (legible : t.Legible r) :
    0 < t.spelling.length := by
  obtain ⟨w, fs, same⟩ := legible.spelling_eq_cons
  rw [same]
  exact Nat.succ_pos _

section Back

open Reader

variable {r : Reader}

/-- An argument begins with a word or a question mark. -/
theorem Slot.Legible.head_spelling {s : Slot} (legible : s.Legible r) {c : Char} (other : c ≠ '?')
    (fs : List Token.Form) : (s.spelling ++ fs).head? ≠ some (.mark c) := by
  have word : ∀ {gs : List Token.Form}, (∃ w gs', gs = .word w :: gs') →
      (gs ++ fs).head? ≠ some (.mark c) := by
    rintro _ ⟨w, gs, rfl⟩
    simp
  cases s with
  | exact m t => exact word legible.2.2.spelling_eq_cons
  | rebound => exact legible.elim
  | param => exact word legible.2.2.name.forms_eq_cons
  | wildcard m l us =>
    cases l with
    | some l => simp [Slot.spelling, other.symm]
    | none => cases us <;> simp [Slot.spelling, other.symm]

mutual

/-- From the tokens of its spelling a legible type is read again, written elsewhere. Three levels
for every token are enough: a type inside another is five rules further down at most, and one more
for each comma or ampersand before it, while the other's name and brackets alone pay for nine. -/
theorem Ty.Legible.readsBack : ∀ {t : Ty}, t.Legible r → ∀ ⦃fuel tokens fs⦄,
    tokens.map Token.form = t.spelling ++ fs → Next afterElem fs →
    3 * t.spelling.length ≤ fuel + 2 → r.ReadsBack fuel tokens (·.outline id = t.outline id) fs
  | _, legible, 0, _, _, _, _, enough => by
    have := legible.length_pos
    omega
  | .decl d, ⟨calls, params⟩, fuel + 1, tokens, fs, same, next, _ => by
    apply readsBack_bare calls.name.names calls.unscoped calls.found same next
    intro site
    rw [params]
    rfl
  | .bare s d, ⟨calls, params⟩, fuel + 1, tokens, fs, same, next, _ => by
    apply readsBack_bare calls.name.names calls.unscoped calls.found same next
    intro site
    rw [List.isEmpty_eq_false_iff.mpr params]
    rfl
  | .app s d args, ⟨calls, fits, legible⟩, fuel + 1, tokens, fs, same, next, enough => by
    simp only [Ty.spelling, List.append_assoc, List.length_append, List.length_singleton]
      at same enough
    obtain ⟨fuel, rfl⟩ : ∃ n, fuel = n + 1 := ⟨fuel - 1, by omega⟩
    apply readsBack_app (R := (Slot.outlines id · = Slot.outlines id args)) calls.name.names
      calls.unscoped calls.found same
    · intro rest inside
      exact Slot.LegibleAll.readsBack legible inside (by omega)
    · intro args' alike
      have count := Slot.length_of_outlines alike
      rcases fits with rfl | fits
      · exact .inl (List.length_eq_zero_iff.mp count)
      · exact .inr (count.trans fits)
    · intro site args' alike
      simp only [Ty.outline, alike]
  | .param s n bs, held, fuel + 1, tokens, fs, same, next, _ =>
    readsBack_param held.name.names held.found same next rfl
  | .array s e, legible, fuel + 1, tokens, fs, same, next, enough => by
    -- the element is read at this very level, the brackets after it by the same call
    simp only [Ty.spelling, List.append_assoc, List.length_append] at same enough
    have elem : r.ReadsBack (fuel + 1) tokens (·.outline id = e.outline id)
        (.mark '[' :: .mark ']' :: fs) :=
      Ty.Legible.readsBack (t := e) legible same ⟨.mark '[', List.mem_cons_self, rfl⟩ (by omega)
    apply elem.array
    intro site e' alike
    simp only [Ty.outline, alike]

theorem Slot.Legible.readsBack : ∀ {s : Slot}, s.Legible r → ∀ ⦃fuel tokens fs⦄,
    tokens.map Token.form = s.spelling ++ fs → Next afterArg fs → 3 * s.spelling.length ≤ fuel →
    Gives (r.readArg fuel tokens) (·.outline id = s.outline id) fs
  | .exact ⟨site, _⟩ t, ⟨rfl, noParam, legible⟩, fuel, tokens, fs, same, next, enough => by
    have ofTy : Slot.exact ⟨site, false⟩ t = .ofTy site t := by
      cases t with
      | param => cases noParam
      | decl | bare | app | array => rfl
    have long := legible.length_pos
    obtain ⟨w, gs, word⟩ := legible.spelling_eq_cons
    simp only [Slot.spelling] at same enough
    obtain ⟨fuel, rfl⟩ : ∃ n, fuel = n + 1 := ⟨fuel - 1, by omega⟩
    rw [ofTy]
    have back : r.ReadsBack fuel tokens (·.outline id = t.outline id) fs :=
      legible.readsBack same (next.mono (by decide)) (by omega)
    apply back.arg next (by rw [same, word]; simp)
    intro site t' alike
    exact Slot.outline_ofTy _ _ alike
  | .param ⟨site, _⟩ none s n bs, ⟨rfl, _, held⟩, fuel, tokens, fs, same, next, enough => by
    obtain ⟨w, gs, word⟩ := held.name.forms_eq_cons
    simp only [Slot.spelling, word, List.length_cons] at enough
    rw [Slot.spelling] at same
    obtain ⟨fuel, rfl⟩ : ∃ n, fuel = n + 2 := ⟨fuel - 2, by omega⟩
    have back : r.ReadsBack (fuel + 1) tokens (· = .param s n bs) fs :=
      readsBack_param held.name.names held.found same (next.mono (by decide)) rfl
    apply back.arg next (by rw [same, word]; simp)
    rintro site _ rfl
    rfl
  | .wildcard ⟨site, _⟩ none [], ⟨rfl, _⟩, fuel + 1, tokens, fs, same, next, enough =>
    gives_anything same next fun _ => rfl
  | .wildcard ⟨site, _⟩ none (u :: us), ⟨rfl, legible⟩, fuel + 1, tokens, fs, same, next,
      enough => by
    rw [Slot.spelling, ← Ty.spellings] at same enough
    simp only [List.length_append, List.length_cons, List.length_nil] at enough
    apply gives_extending (R := (Ty.outlines id · = Ty.outlines id (u :: us))) same
    · intro rest bounded
      exact Ty.LegibleAll.readsBack legible (List.cons_ne_nil u us) bounded next (by omega)
    · intro site us' alike
      simp only [Slot.extending, Slot.outline, alike]
  | .wildcard ⟨site, _⟩ (some l) _, ⟨rfl, rfl, legible⟩, fuel + 1, tokens, fs, same, next,
      enough => by
    simp only [Slot.spelling, List.length_append, List.length_cons, List.length_nil] at enough
    apply ReadsBack.above (P := (·.outline id = l.outline id)) same ?_ next
    · intro site l' alike
      simp only [Slot.above, Slot.outline, Ty.outlines, alike]
    · intro rest bounded
      exact legible.readsBack bounded (next.mono (by decide)) (by omega)

theorem Ty.LegibleAll.readsBack : ∀ {ts : List Ty}, Ty.LegibleAll r ts → ts ≠ [] →
    ∀ ⦃fuel tokens fs⦄,
    tokens.map Token.form = [.mark '&'].intercalate (Ty.spellings ts) ++ fs → Next afterArg fs →
    3 * ([Token.Form.mark '&'].intercalate (Ty.spellings ts)).length + 1 ≤ fuel →
    Gives (r.readBounds fuel tokens) (Ty.outlines id · = Ty.outlines id ts) fs
  | t :: ts, ⟨first, later⟩, _, fuel + 1, tokens, fs, same, next, enough => by
    have more := Ty.LegibleAll.readsBack later
    cases ts with
    | nil =>
      rw [Ty.spellings, Ty.spellings, List.intercalate_singleton] at same enough
      apply (first.readsBack same (next.mono (by decide)) (by omega)).lastBound next
      intro t' alike
      simp only [Ty.outlines, alike]
    | cons u us =>
      rw [Ty.spellings, Ty.spellings, List.intercalate_cons_cons, ← Ty.spellings] at same enough
      simp only [List.append_assoc, List.length_append, List.length_singleton] at same enough
      apply (first.readsBack same ⟨.mark '&', by decide, rfl⟩ (by omega)).bound
      · intro rest bounded
        exact more (List.cons_ne_nil u us) bounded next (by omega)
      · intro t' ts' alike alikes
        rw [Ty.outlines, Ty.outlines, alike, alikes]

theorem Slot.LegibleAll.readsBack : ∀ {ss : List Slot}, Slot.LegibleAll r ss →
    ∀ ⦃fuel tokens fs⦄,
    tokens.map Token.form = [.mark ','].intercalate (Slot.spellings ss) ++ .mark '>' :: fs →
    3 * ([Token.Form.mark ','].intercalate (Slot.spellings ss)).length + 1 ≤ fuel →
    Gives (r.readArgs fuel tokens) (Slot.outlines id · = Slot.outlines id ss) (.mark '>' :: fs)
  | [], _, fuel + 1, tokens, fs, same, _ => gives_noArgs same rfl
  | s :: ss, ⟨first, later⟩, fuel + 1, tokens, fs, same, enough => by
    have more := Slot.LegibleAll.readsBack later
    cases ss with
    | nil =>
      rw [Slot.spellings, Slot.spellings, List.intercalate_singleton] at same enough
      apply gives_lastArg (first.readsBack same ⟨.mark '>', by decide, rfl⟩ (by omega))
      · rw [same]
        exact first.head_spelling (by decide) _
      · intro s' alike
        simp only [Slot.outlines, alike]
    | cons u us =>
      rw [Slot.spellings, Slot.spellings, List.intercalate_cons_cons, ← Slot.spellings]
        at same enough
      simp only [List.append_assoc, List.length_append, List.length_singleton] at same enough
      apply gives_moreArgs (first.readsBack same ⟨.mark ',', by decide, rfl⟩ (by omega))
      · rw [same]
        exact first.head_spelling (by decide) _
      · intro rest listed
        exact more listed (by omega)
      · intro s' ss' alike alikes
        rw [Slot.outlines, Slot.outlines, alike, alikes]

end

/-! ## There and back -/

theorem Ty.Legible.parseType {t : Ty} (legible : t.Legible r) :
    ∃ t', r.parseType (r.hierarchy.render t) = .ok t' ∧ t'.outline id = t.outline id := by
  obtain ⟨w, gs, word⟩ := legible.spelling_eq_cons
  have scanned := legible.cuts.scan (by rw [word]; simp)
  have enough : 3 * t.spelling.length ≤
      3 * (Token.scan (r.hierarchy.render t).toList).length + 2 := by
    rw [← List.length_map Token.form, scanned, List.length_append]
    omega
  obtain ⟨t', rest, alike, after, read⟩ :=
    (legible.readsBack scanned ⟨.stop, by decide, rfl⟩ enough).whole ⟨.stop, by decide, rfl⟩
  obtain ⟨_, _, _, rfl, -⟩ := Token.map_form_eq_cons after
  exact ⟨t', mapError_eq_ok.mpr (readWhole_eq_ok_iff.mpr ⟨_, _, _, read⟩), alike⟩

theorem Slot.Legible.parseSlot {s : Slot} (legible : s.Legible r) :
    ∃ s', r.parseSlot (r.hierarchy.renderSlot s) = .ok s' ∧ s'.outline id = s.outline id := by
  have unmarked := legible.head_spelling (c := '\uFEFF') (by decide) []
  rw [List.append_nil] at unmarked
  have scanned := legible.cuts.scan unmarked
  have enough : 3 * s.spelling.length ≤
      3 * (Token.scan (r.hierarchy.renderSlot s).toList).length := by
    rw [← List.length_map Token.form, scanned, List.length_append]
    omega
  obtain ⟨s', rest, alike, after, read⟩ :=
    legible.readsBack scanned ⟨.stop, by decide, rfl⟩ enough
  obtain ⟨_, _, _, rfl, -⟩ := Token.map_form_eq_cons after
  exact ⟨s', mapError_eq_ok.mpr (readWhole_eq_ok_iff.mpr ⟨_, _, _, read⟩), alike⟩

end Back

namespace Hierarchy

variable (h : Hierarchy)

mutual

/-- Sites are not shown. -/
theorem render_outline : ∀ t : Ty, h.render (t.outline id) = h.render t
  | .decl _ | .bare _ _ | .param _ _ _ => by rfl
  | .app _ d args => by
    rw [Ty.outline, render, render, renderSlots_outlines args]
    rfl
  | .array _ e => by rw [Ty.outline, render, render, render_outline e]

theorem renderSlot_outline : ∀ s : Slot, h.renderSlot (s.outline id) = h.renderSlot s
  | .exact _ t => by rw [Slot.outline, renderSlot, renderSlot, render_outline t]
  | .rebound _ _ none [] | .rebound _ _ (some _) [] => by rfl
  | .rebound _ _ none (u :: _) | .rebound _ _ (some _) (u :: _) => by
    rw [Slot.outline, Ty.outlines, renderSlot, renderSlot, render_outline u]
  | .param _ none _ _ _ | .param _ (some _) _ _ _ => by rfl
  | .wildcard _ (some l) _ => by rw [Slot.outline, renderSlot, renderSlot, render_outline l]
  | .wildcard _ none [] => by rfl
  | .wildcard _ none (u :: us) => by
    rw [Slot.outline, Ty.outlines, renderSlot, renderSlot, render_outline u,
      renderTypes_outlines us]

theorem renderTypes_outlines : ∀ ts : List Ty, h.renderTypes (Ty.outlines id ts) = h.renderTypes ts
  | [] => by rfl
  | t :: ts => by
    rw [Ty.outlines, renderTypes, renderTypes, render_outline t, renderTypes_outlines ts]

theorem renderSlots_outlines : ∀ ss : List Slot,
    h.renderSlots (Slot.outlines id ss) = h.renderSlots ss
  | [] => by rfl
  | s :: ss => by
    rw [Slot.outlines, renderSlots, renderSlots, renderSlot_outline s, renderSlots_outlines ss]

end

/-- Scopes hold type parameters under their own names. -/
theorem Opens.proper {h : Hierarchy} {rs : List Registry} {scope : Scope}
    (consistent : ∀ r ∈ rs, r.Consistent h) (opens : h.Opens rs scope) : scope.Proper := by
  induction opens with
  | empty => exact Library.proper_empty
  | @of r name d member found =>
    rw [scopeOf_eq]
    intro name' t held
    rcases Reader.get?_opened held with ⟨p, listed, rfl, rfl⟩ | before
    · obtain ⟨s, n, bs, rfl⟩ := ((consistent r member).decls name d found).params p listed
      exact ⟨s, bs, rfl⟩
    · cases before
  | @params r outer scope source texts ps member _ parsed ih =>
    have informed : (Reader.mk h r outer source).Informed fun d => some (h.params d).length :=
      ⟨fun _ _ _ => rfl, ih⟩
    obtain ⟨declared, -, rfl⟩ := Reader.parseParams_declared informed parsed
    exact Reader.opened_proper ih declared

end Hierarchy

namespace Reader

variable {r : Reader}

theorem follows_moved (r : Reader) (source : Nat) : r.Follows id { r with source := source } :=
  ⟨fun _ => rfl, fun _ _ found => found, fun _ _ _ => rfl⟩

/-- The text of a type that was read is read again, as any later text. -/
theorem parseType_render (apt : r.Apt) {text : String} {t : Ty} (ok : r.parseType text = .ok t)
    (source : Nat) :
    ∃ t', ({ r with source := source } : Reader).parseType (r.hierarchy.render t) = .ok t' ∧
      t'.outline id = t.outline id := by
  obtain ⟨u, reread, alike⟩ := (r.follows_moved source).parseType ok
  have apt' : ({ r with source := source } : Reader).Apt := ⟨apt.named, apt.proper⟩
  obtain ⟨t', back, same⟩ := (parseType_legible apt' reread).parseType
  have shown : r.hierarchy.render u = r.hierarchy.render t := by
    rw [← Hierarchy.render_outline, alike, Hierarchy.render_outline]
  rw [← shown]
  exact ⟨t', back, same.trans alike⟩

theorem parseSlot_render (apt : r.Apt) {text : String} {s : Slot} (ok : r.parseSlot text = .ok s)
    (source : Nat) :
    ∃ s', ({ r with source := source } : Reader).parseSlot (r.hierarchy.renderSlot s) = .ok s' ∧
      s'.outline id = s.outline id := by
  obtain ⟨u, reread, alike⟩ := (r.follows_moved source).parseSlot ok
  have apt' : ({ r with source := source } : Reader).Apt := ⟨apt.named, apt.proper⟩
  obtain ⟨s', back, same⟩ := (parseSlot_legible apt' reread).parseSlot
  have shown : r.hierarchy.renderSlot u = r.hierarchy.renderSlot s := by
    rw [← Hierarchy.renderSlot_outline, alike, Hierarchy.renderSlot_outline]
  rw [← shown]
  exact ⟨s', back, same.trans alike⟩

end Reader

namespace Session

/-- What a registry of a session reads, in a scope opened then or earlier, is rendered as a text
that reads as an equal type or argument, and that one is rendered as the same text. -/
theorem rendered_reads_equal (earlier later : List Command) {r : Registry}
    (member : r ∈ (after (earlier ++ later)).registries) {scope : Scope}
    (opens : (after earlier).hierarchy.Opens (after earlier).registries scope)
    (source source' : Nat) :
    let h := (after (earlier ++ later)).hierarchy
    (∀ text t, (Reader.mk h r scope source).parseType text = .ok t →
      ∃ t', (Reader.mk h r scope source').parseType (h.render t) = .ok t' ∧
        h.equal t' t = true ∧ h.render t' = h.render t) ∧
    ∀ text s, (Reader.mk h r scope source).parseSlot text = .ok s →
      ∃ s', (Reader.mk h r scope source').parseSlot (h.renderSlot s) = .ok s' ∧
        h.slotEqual s' s = true ∧ h.renderSlot s' = h.renderSlot s := by
  intro h
  have proper : scope.Proper := opens.proper fun _ known => (upright earlier known).toConsistent
  have apt : (Reader.mk h r scope source).Apt := ⟨(upright (earlier ++ later) member).named, proper⟩
  constructor
  · intro text t ok
    obtain ⟨t', back, alike⟩ := Reader.parseType_render apt ok source'
    refine ⟨t', back, h.equal_of_outline alike, ?_⟩
    rw [← h.render_outline, alike, h.render_outline]
  · intro text s ok
    obtain ⟨s', back, alike⟩ := Reader.parseSlot_render apt ok source'
    refine ⟨s', back, h.slotEqual_of_outline alike, ?_⟩
    rw [← h.renderSlot_outline, alike, h.renderSlot_outline]

def elementScope : Scope := NameMap.insert .empty "T" (.param ⟨2, 0⟩ "T" [])

theorem opens_elementScope {h : Hierarchy} {rs : List Registry} {r : Registry} (known : r ∈ rs) :
    h.Opens rs elementScope := by
  have declared : (Reader.mk h r .empty 1).parseParams ["T"] =
      .ok ([.parameter ⟨2, 0⟩ "T" []], elementScope) := rfl
  exact .params known .empty declared

def reelCommands : List Command := [.fresh, .load 0 reelModel]

def reelRegistry : Registry := ((after reelCommands).registries[0]?).getD .root

theorem reelRegistry_mem (there : (after reelCommands).registries[0]?.isSome = true) :
    reelRegistry ∈ (after reelCommands).registries := by
  unfold reelRegistry
  generalize (after reelCommands).registries = rs at there
  cases rs with
  | nil => cases there
  | cons r rs => exact List.mem_cons_self

theorem reelRegistry_mem_cloned (there : (after reelCommands).registries[0]?.isSome = true) :
    reelRegistry ∈ (after (reelCommands ++ [.clone 0])).registries := by
  have member := reelRegistry_mem there
  unfold after at member ⊢
  rw [List.foldl_append]
  exact List.mem_append_left _ member

/-- Arrays of crates with arguments inside arguments, and bounds with a diamond among them. -/
theorem element_reads_equal :
    reelRegistry ∈ (after (reelCommands ++ [.clone 0])).registries ∧
    (after reelCommands).hierarchy.Opens (after reelCommands).registries elementScope ∧
    let h := (after (reelCommands ++ [.clone 0])).hierarchy
    (∃ t t', (Reader.mk h reelRegistry elementScope 3).parseType
        "Crate < Reel<T [ ]>,?super Crate<Text,T>>[]" = .ok t ∧
      (Reader.mk h reelRegistry elementScope 4).parseType (h.render t) = .ok t' ∧
        h.equal t' t = true) ∧
    ∃ s s', (Reader.mk h reelRegistry elementScope 3).parseSlot
        "?extends Reel<Crate<T,Text[]>>&Sequence<>" = .ok s ∧
      (Reader.mk h reelRegistry elementScope 4).parseSlot (h.renderSlot s) = .ok s' ∧
        h.slotEqual s' s = true := by
  obtain ⟨there, typed, slotted⟩ : (after reelCommands).registries[0]?.isSome = true ∧
      (Reader.parseType ⟨(after (reelCommands ++ [.clone 0])).hierarchy, reelRegistry,
        elementScope, 3⟩ "Crate < Reel<T [ ]>,?super Crate<Text,T>>[]").isOk = true ∧
      (Reader.parseSlot ⟨(after (reelCommands ++ [.clone 0])).hierarchy, reelRegistry,
        elementScope, 3⟩ "?extends Reel<Crate<T,Text[]>>&Sequence<>").isOk = true := by
    decide +kernel
  have member := reelRegistry_mem_cloned there
  have opens : (after reelCommands).hierarchy.Opens (after reelCommands).registries elementScope :=
    opens_elementScope (reelRegistry_mem there)
  obtain ⟨t, readType⟩ := exists_of_isOk typed
  obtain ⟨s, readSlot⟩ := exists_of_isOk slotted
  obtain ⟨types, slots⟩ := rendered_reads_equal reelCommands [.clone 0] member opens 3 4
  obtain ⟨t', backType, equal, -⟩ := types _ t readType
  obtain ⟨s', backSlot, equalSlot, -⟩ := slots _ s readSlot
  exact ⟨member, opens, ⟨t, t', readType, backType, equal⟩, s, s', readSlot, backSlot, equalSlot⟩

end Session

end NominalGenerics
