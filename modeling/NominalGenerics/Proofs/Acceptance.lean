import NominalGenerics.Proofs.Descent
import NominalGenerics.Proofs.Loading

/-!
# What a reader accepts

A reader accepts a text exactly when the grammar derives its tokens, except that the documented
grammar wants an argument after each comma, and a reader also takes a comma before the closing mark
(`Reader.accepts_grammar`). Declared parameters may be mentioned in each other's bounds, under the
first word of each declaration.
-/

namespace NominalGenerics

open Token (Form)
open Grammar

namespace Reader

variable {r : Reader} {text : String}

/-- A rule that consumes what a symbol stands for, and that reads all of it, reads a whole text when
the symbol derives its tokens. -/
theorem exists_readWhole_iff {α : Type} {symbol : Symbol}
    {rule : Nat → List Token → Except ReadError (α × List Token)}
    (consumes : ∀ fuel tokens a rest, rule fuel tokens = .ok (a, rest) →
      r.Consumes symbol tokens rest)
    (reads : ∀ fs fuel tokens, Derives r.vocabulary True symbol fs →
      tokens.map Token.form = fs ++ [.stop] → 3 * fs.length ≤ fuel →
      Gives (rule fuel tokens) (fun _ => True) [.stop]) :
    (∃ a, readWhole rule text = .ok a) ↔ r.vocabulary.Derivable True symbol text := by
  constructor
  · rintro ⟨a, ok⟩
    obtain ⟨o, k, rest, read⟩ := readWhole_eq_ok_iff.mp ok
    obtain ⟨fs, same, derives⟩ := consumes _ _ _ _ read
    obtain ⟨init, stops, once⟩ := Token.scan_stop text.toList
    refine ⟨fs, ?_, derives⟩
    -- nothing follows the stop
    rcases List.eq_nil_or_concat rest with rfl | ⟨rest, last, rfl⟩
    · exact same
    · have longer : init ++ [.stop] = (fs ++ .stop :: rest.map Token.form) ++ [last.form] := by
        simpa [stops] using same
      obtain ⟨before, -⟩ := List.append_inj' longer rfl
      exact absurd (by simp [before]) once
  · rintro ⟨fs, same, derives⟩
    have enough : 3 * fs.length ≤ 3 * (Token.scan text.toList).length := by
      have := congrArg List.length same
      simp only [tokens, List.length_map, List.length_append] at this
      omega
    obtain ⟨a, rest, -, stops, read⟩ := reads fs _ _ derives same enough
    obtain ⟨o, k, rest, rfl, -⟩ := Token.map_form_eq_cons stops
    exact ⟨a, readWhole_eq_ok_iff.mpr ⟨o, k, rest, read⟩⟩

theorem exists_parseType_iff :
    (∃ t, r.parseType text = .ok t) ↔ r.vocabulary.Derivable True .type text := by
  unfold parseType
  simp only [mapError_eq_ok]
  refine exists_readWhole_iff (fun fuel => (rules_derive r fuel).type) ?_
  intro fs fuel tokens derives same enough
  have back : r.ReadsBack fuel tokens (fun _ => True) [.stop] :=
    derives.reads same ⟨.stop, by decide, rfl⟩ (by simp only [depth]; omega)
  exact back.whole ⟨.stop, by decide, rfl⟩

theorem exists_parseSlot_iff :
    (∃ s, r.parseSlot text = .ok s) ↔ r.vocabulary.Derivable True .arg text := by
  unfold parseSlot
  simp only [mapError_eq_ok]
  refine exists_readWhole_iff (fun fuel => (rules_derive r fuel).arg) ?_
  intro fs fuel tokens derives same enough
  exact derives.reads same ⟨.stop, by decide, rfl⟩ (by simp only [depth]; omega)

theorem exists_parseParam_iff :
    (∃ p, r.parseParam text = .ok p) ↔ r.vocabulary.Derivable True .param text := by
  unfold parseParam
  simp only [mapError_eq_ok]
  refine exists_readWhole_iff (fun fuel tokens s rest ok => readParam_derives ok) ?_
  intro fs fuel tokens derives same enough
  exact derives.reads same ⟨.stop, by decide, rfl⟩ (by simp only [depth]; omega)

/-! ## Declared parameters -/

theorem exists_parseEach_iff {texts : List String} {declared : Scope} :
    (∃ p, r.parseEach texts declared = .ok p) ↔
      ∀ text ∈ texts, r.vocabulary.Derivable True .param text := by
  induction texts generalizing r declared with
  | nil => simp [parseEach]
  | cons text texts ih =>
    rw [List.forall_mem_cons, ← exists_parseParam_iff]
    -- which text a reader is at plays no part in what it accepts
    have moved : ({ r with source := r.source + 1 } : Reader).vocabulary = r.vocabulary := rfl
    constructor
    · rintro ⟨_, ok⟩
      obtain ⟨param, first, ok⟩ := bind_eq_ok.mp ok
      obtain ⟨p, later, -⟩ := bind_eq_ok.mp ok
      exact ⟨⟨param, first⟩, moved ▸ ih.mp ⟨p, later⟩⟩
    · rintro ⟨⟨param, first⟩, later⟩
      obtain ⟨p, later⟩ := ih.mpr (moved.symm ▸ later)
      exact ⟨_, bind_eq_ok.mpr ⟨param, first, bind_eq_ok.mpr ⟨p, later, rfl⟩⟩⟩

/-- A scope with bare parameters holds the names that the declarations introduce. -/
theorem bareScope_names {source i : Nat} {texts : List String} {scope bare : Scope}
    (ok : bareScope source texts i scope = .ok bare) (n : String) :
    (∃ t, bare.get? n = some t) ↔
      (∃ t, scope.get? n = some t) ∨ ∃ text ∈ texts, paramName text = .ok n := by
  induction texts generalizing i scope with
  | nil =>
    cases ok
    simp
  | cons text texts ih =>
    obtain ⟨name, named, ok⟩ := bind_eq_ok.mp ok
    rw [ih ok, NameMap.get?_insert]
    simp only [List.exists_mem_cons_iff, named, Except.ok.injEq, eq_comm (a := name)]
    split
    · rename_i same
      simp [same]
    · rename_i other
      simp [other]

theorem bareScope_ok {source i : Nat} {texts : List String} {scope : Scope}
    (named : ∀ text ∈ texts, ∃ n, paramName text = .ok n) :
    ∃ bare, bareScope source texts i scope = .ok bare := by
  induction texts generalizing i scope with
  | nil => exact ⟨scope, rfl⟩
  | cons text texts ih =>
    obtain ⟨⟨n, here⟩, later⟩ := List.forall_mem_cons.mp named
    obtain ⟨bare, ok⟩ := ih later
    exact ⟨bare, bind_eq_ok.mpr ⟨n, here, ok⟩⟩

end Reader

/-- The names of a vocabulary and those that parameter declarations introduce. -/
def Grammar.Vocabulary.declaring (V : Vocabulary) (texts : List String) : Vocabulary :=
  { V with isParam := fun n => V.isParam n ∨ ∃ text ∈ texts, Reader.paramName text = .ok n }

namespace Reader

variable {r : Reader}

theorem paramName_of_derivable {V : Vocabulary} {trailing : Prop} {text : String}
    (derivable : V.Derivable trailing .param text) : ∃ n, paramName text = .ok n := by
  obtain ⟨fs, same, derives⟩ := derivable
  have word : ∃ w, .word w ∈ fs := by
    cases derives with
    | unbounded w => exact ⟨w, List.mem_cons_self⟩
    | bounded w => exact ⟨w, List.mem_cons_self⟩
  obtain ⟨w, member⟩ := word
  obtain ⟨chars, first⟩ := Token.firstWord?_of_word (same ▸ List.mem_append_left _ member)
  refine ⟨String.ofList chars, ?_⟩
  unfold paramName
  rw [first]

theorem exists_parseParams_iff {texts : List String} :
    (∃ p, r.parseParams texts = .ok p) ↔
      ∀ text ∈ texts, (r.vocabulary.declaring texts).Derivable True .param text := by
  have inner : ∀ {bare : Scope}, bareScope r.source texts 0 r.scope = .ok bare →
      ({ r with scope := bare, source := r.source + 1 } : Reader).vocabulary =
        r.vocabulary.declaring texts := by
    intro bare ok
    have names := funext fun n => propext (bareScope_names ok n)
    simp only [vocabulary, Vocabulary.declaring, names]
  constructor
  · rintro ⟨p, ok⟩
    obtain ⟨bare, isBare, ok⟩ := bind_eq_ok.mp ok
    exact inner isBare ▸ exists_parseEach_iff.mp ⟨p, ok⟩
  · intro derivable
    obtain ⟨bare, isBare⟩ : ∃ bare, bareScope r.source texts 0 r.scope = .ok bare :=
      bareScope_ok fun text member => paramName_of_derivable (derivable text member)
    obtain ⟨p, ok⟩ := exists_parseEach_iff.mpr (inner isBare ▸ derivable)
    exact ⟨p, bind_eq_ok.mpr ⟨bare, isBare, ok⟩⟩

end Reader

/-- A reader accepts a type, an argument or declared parameters exactly when the grammar derives
all tokens, with names that resolve and lists of the declared length, where a comma may follow the
last argument of a list. The documented grammar derives what is accepted and has no comma before a
closing mark. -/
theorem Reader.accepts_grammar (r : Reader) :
    (∀ text,
      ((∃ t, r.parseType text = .ok t) ↔ r.vocabulary.Derivable True .type text) ∧
      (r.vocabulary.Derivable False .type text ↔
        (∃ t, r.parseType text = .ok t) ∧ ¬ TrailingComma (tokens text))) ∧
    (∀ text,
      ((∃ s, r.parseSlot text = .ok s) ↔ r.vocabulary.Derivable True .arg text) ∧
      (r.vocabulary.Derivable False .arg text ↔
        (∃ s, r.parseSlot text = .ok s) ∧ ¬ TrailingComma (tokens text))) ∧
    ∀ texts,
      ((∃ p, r.parseParams texts = .ok p) ↔
        ∀ text ∈ texts, (r.vocabulary.declaring texts).Derivable True .param text) ∧
      ((∀ text ∈ texts, (r.vocabulary.declaring texts).Derivable False .param text) ↔
        (∃ p, r.parseParams texts = .ok p) ∧ ∀ text ∈ texts, ¬ TrailingComma (tokens text)) := by
  refine ⟨fun text => ⟨exists_parseType_iff, ?_⟩, fun text => ⟨exists_parseSlot_iff, ?_⟩,
    fun texts => ⟨exists_parseParams_iff, ?_⟩⟩
  · rw [exists_parseType_iff]
    exact derivable_documented_iff nofun
  · rw [exists_parseSlot_iff]
    exact derivable_documented_iff nofun
  · rw [exists_parseParams_iff, ← forall₂_and]
    exact forall₂_congr fun text _ => derivable_documented_iff nofun

/-- A comma after the last argument is read, though the documented grammar has none there. -/
theorem trailing_comma_accepted :
    (∃ t, (reelLibrary.reader .empty).parseType "Crate<Text, Text,>" = .ok t) ∧
      ¬ (reelLibrary.reader .empty).vocabulary.Derivable False .type "Crate<Text, Text,>" := by
  refine ⟨exists_of_isOk (by decide +kernel), ?_⟩
  intro documented
  obtain ⟨-, none⟩ := (derivable_documented_iff (by nofun)).mp documented
  exact none ⟨[.word "Crate", .mark '<', .word "Text", .mark ',', .word "Text"], [.stop],
    by decide +kernel⟩

end NominalGenerics
