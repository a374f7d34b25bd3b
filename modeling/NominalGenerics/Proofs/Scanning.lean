import Mathlib.Data.List.Forall2
import Mathlib.Data.List.TakeWhile
import NominalGenerics.Expression.Token
import NominalGenerics.Text.Blank

/-!
# What tokens a text has

Without positions, the tokens of a text can be told piece by piece (`Token.cut`). The tokens of two
pieces are those of the one followed by those of the other, as long as a word that ends the first is
not continued by the second (`Token.Cuts.append`, `Token.Leads.append`). So a name gives its words
with points between them (`Token.IsName.cuts`). Whatever is scanned as a word is one
(`Token.genuine_scan`).
-/

namespace NominalGenerics.Token

/-- The forms of the tokens in the rest of a text. A word being read is given by its characters,
latest first. -/
def cut : List Char → Option (List Char) → List Form
  | [], none => [.stop]
  | [], some w => [.word (String.ofList w.reverse), .stop]
  | c :: rest, none =>
    if startsWord c then cut rest (some [c])
    else if isSeparator c then cut rest none
    else .mark c :: cut rest none
  | c :: rest, some w =>
    if continuesWord c then cut rest (some (c :: w))
    else if isSeparator c then .word (String.ofList w.reverse) :: cut rest none
    else .word (String.ofList w.reverse) :: .mark c :: cut rest none

theorem map_form_scanFrom (cs : List Char) (word : Option Pending) (offset column : Nat) :
    (scanFrom cs word offset column).map form = cut cs (word.map Pending.chars) := by
  induction cs generalizing word offset column with
  | nil => cases word <;> rfl
  | cons c rest ih =>
    cases word with
    | none =>
      simp only [scanFrom, cut, Option.map_none]
      split
      · exact ih _ _ _
      · split
        · exact ih _ _ _
        · simp only [List.map_cons, ih, Option.map_none]
    | some p =>
      simp only [scanFrom, cut, Option.map_some]
      split
      · exact ih _ _ _
      · split
        · simp only [List.map_cons, ih, Option.map_none, Pending.token]
        · simp only [List.map_cons, ih, Option.map_none, Pending.token]

/-- Without a byte order mark in front, the whole text is cut. -/
theorem map_form_scan {cs : List Char} (unmarked : cs.head? ≠ some '\uFEFF') :
    (scan cs).map form = cut cs none := by
  cases cs with
  | nil => rfl
  | cons c rest =>
    have other : (c == '\uFEFF') = false := by
      rw [beq_eq_false_iff_ne]
      rintro rfl
      exact unmarked rfl
    simp only [scan, other, Bool.false_eq_true, if_false]
    exact map_form_scanFrom (c :: rest) none 0 0

/-! ## Words -/

/-- A letter or underscore, then letters, underscores and digits. -/
def IsWord (w : String) : Prop :=
  ∃ c cs, w.toList = c :: cs ∧ startsWord c = true ∧ ∀ d ∈ cs, continuesWord d = true

theorem isWord_single {c : Char} (starts : startsWord c = true) :
    IsWord (String.ofList [c].reverse) := by
  refine ⟨c, [], ?_, starts, nofun⟩
  simp

theorem IsWord.extend {w : List Char} {c : Char} (word : IsWord (String.ofList w.reverse))
    (continues : continuesWord c = true) : IsWord (String.ofList (c :: w).reverse) := by
  obtain ⟨d, ds, same, starts, all⟩ := word
  refine ⟨d, ds ++ [c], ?_, starts, ?_⟩
  · rw [String.toList_ofList] at same ⊢
    rw [List.reverse_cons, same, List.cons_append]
  · intro e member
    rcases List.mem_append.mp member with before | last
    · exact all e before
    · rw [List.mem_singleton.mp last]
      exact continues

theorem isWord_of_mem_cut {cs : List Char} {word : Option (List Char)} {w : String}
    (begun : ∀ p, word = some p → IsWord (String.ofList p.reverse))
    (member : .word w ∈ cut cs word) : IsWord w := by
  fun_induction cut cs word with
  | case1 => simp at member
  | case2 p =>
    simp only [List.mem_cons, Form.word.injEq, reduceCtorEq, List.not_mem_nil, or_false] at member
    rw [member]
    exact begun p rfl
  | case3 c rest starts ih =>
    apply ih _ member
    rintro p ⟨⟩
    exact isWord_single starts
  | case4 c rest _ _ ih => exact ih nofun member
  | case5 c rest _ _ ih =>
    simp only [List.mem_cons, reduceCtorEq, false_or] at member
    exact ih nofun member
  | case6 c rest p continues ih =>
    apply ih _ member
    rintro q ⟨⟩
    exact (begun p rfl).extend continues
  | case7 c rest p _ _ ih =>
    simp only [List.mem_cons, Form.word.injEq] at member
    rcases member with rfl | member
    · exact begun p rfl
    · exact ih nofun member
  | case8 c rest p _ _ ih =>
    simp only [List.mem_cons, Form.word.injEq, reduceCtorEq, false_or] at member
    rcases member with rfl | member
    · exact begun p rfl
    · exact ih nofun member

/-- Every word among the tokens is one. -/
def Genuine (tokens : List Token) : Prop := ∀ t ∈ tokens, ∀ w, t.form = .word w → IsWord w

theorem Genuine.tail {t : Token} {tokens : List Token} (genuine : Genuine (t :: tokens)) :
    Genuine tokens :=
  fun u member => genuine u (List.mem_cons_of_mem t member)

theorem genuine_scan (cs : List Char) : Genuine (scan cs) := by
  have from_none : ∀ cs offset column, Genuine (scanFrom cs none offset column) := by
    intro cs offset column t member w same
    have listed : .word w ∈ cut cs none := by
      rw [← same]
      exact map_form_scanFrom cs none offset column ▸ List.mem_map_of_mem member
    apply isWord_of_mem_cut _ listed
    nofun
  unfold scan
  split
  · simp [Genuine]
  · split
    · exact from_none _ _ _
    · exact from_none _ _ _

/-! ## Pieces of a text -/

/-- What comes next is not part of a word. -/
def Breaks (cs : List Char) : Prop := ∀ c, cs.head? = some c → continuesWord c = false

theorem breaks_nil : Breaks [] := nofun

theorem startsWord_of_breaks {c : Char} (breaks : continuesWord c = false) :
    startsWord c = false := by
  simp only [continuesWord, Bool.or_eq_false_iff] at breaks
  exact breaks.1

/-- A word being read ends where something else comes. -/
theorem cut_some {w rest : List Char} (breaks : Breaks rest) :
    cut rest (some w) = .word (String.ofList w.reverse) :: cut rest none := by
  cases rest with
  | nil => rfl
  | cons c rest =>
    have here := breaks c rfl
    simp only [cut, here, startsWord_of_breaks here, Bool.false_eq_true, if_false]
    split <;> rfl

theorem cut_continued {cs w rest : List Char} (continues : ∀ c ∈ cs, continuesWord c = true) :
    cut (cs ++ rest) (some w) = cut rest (some (cs.reverse ++ w)) := by
  induction cs generalizing w with
  | nil => rfl
  | cons c cs ih =>
    have here := continues c List.mem_cons_self
    simp only [List.cons_append, cut, here, if_true]
    rw [ih fun d member => continues d (List.mem_cons_of_mem c member), List.reverse_cons,
      List.append_assoc]
    rfl

/-- A text has these tokens, where what follows is not part of its last word. -/
def Cuts (text : String) (fs : List Form) : Prop :=
  ∀ rest, Breaks rest → cut (text.toList ++ rest) none = fs ++ cut rest none

/-- A text has these tokens whatever follows. -/
def Leads (text : String) (fs : List Form) : Prop :=
  ∀ rest, cut (text.toList ++ rest) none = fs ++ cut rest none

/-- A text has no words, only these marks and what separates them. -/
structure Punctuates (text : String) (fs : List Form) : Prop where
  nonempty : text.toList ≠ []
  plain : ∀ c ∈ text.toList, continuesWord c = false
  marks : (text.toList.filter fun c => !isSeparator c).map Form.mark = fs

-- `List.all` and not a quantifier, which may be decided by going through all characters there are
instance (text : String) (fs : List Form) : Decidable (Punctuates text fs) :=
  decidable_of_iff (text.toList ≠ [] ∧ (text.toList.all fun c => !continuesWord c) = true ∧
      (text.toList.filter fun c => !isSeparator c).map Form.mark = fs)
    ⟨fun all => ⟨all.1, by simpa using all.2.1, all.2.2⟩,
      fun all => ⟨all.nonempty, by simpa using all.plain, all.marks⟩⟩

theorem cut_plain {cs : List Char} (plain : ∀ c ∈ cs, continuesWord c = false) (rest : List Char) :
    cut (cs ++ rest) none = (cs.filter fun c => !isSeparator c).map Form.mark ++ cut rest none := by
  induction cs with
  | nil => rfl
  | cons c cs ih =>
    have here := startsWord_of_breaks (plain c List.mem_cons_self)
    have later := ih fun d member => plain d (List.mem_cons_of_mem c member)
    cases dropped : isSeparator c with
    | true => simp [cut, here, dropped, later]
    | false => simp [cut, here, dropped, later]

section Pieces

variable {a b : String} {fs gs : List Form}

theorem Leads.cuts (leads : Leads a fs) : Cuts a fs := fun rest _ => leads rest

theorem Punctuates.leads (marks : Punctuates a fs) : Leads a fs := by
  intro rest
  rw [cut_plain marks.plain, marks.marks]

theorem Punctuates.breaks (marks : Punctuates a fs) (rest : List Char) :
    Breaks (a.toList ++ rest) := by
  intro c first
  cases chars : a.toList with
  | nil => exact absurd chars marks.nonempty
  | cons d ds =>
    rw [chars] at first
    cases first
    exact marks.plain c (chars ▸ List.mem_cons_self)

theorem Cuts.append (first : Cuts a fs) (second : Punctuates b gs) : Leads (a ++ b) (fs ++ gs) := by
  intro rest
  rw [String.toList_append, List.append_assoc, first _ (second.breaks rest), second.leads,
    List.append_assoc]

theorem Leads.append (first : Leads a fs) (second : Cuts b gs) : Cuts (a ++ b) (fs ++ gs) := by
  intro rest breaks
  rw [String.toList_append, List.append_assoc, first, second rest breaks, List.append_assoc]

/-- Texts joined by marks have those marks between their tokens. -/
theorem cuts_joined {sep : String} (marks : Punctuates sep gs) {texts : List String}
    {fss : List (List Form)} (each : List.Forall₂ Cuts texts fss) :
    Cuts (sep.intercalate texts) (gs.intercalate fss) := by
  induction each with
  | nil => exact fun rest _ => rfl
  | @cons a fs texts fss first later ih =>
    cases later with
    | nil =>
      rw [List.intercalate_singleton]
      exact first
    | @cons b fs' texts fss second later =>
      have joined :
          sep.intercalate (a :: b :: texts) = a ++ sep ++ sep.intercalate (b :: texts) := by
        rw [← String.toList_inj]
        simp only [String.toList_append, String.toList_intercalate, List.map_cons,
          List.intercalate_cons_cons]
      rw [joined, List.intercalate_cons_cons]
      exact (first.append marks).append ih

end Pieces

theorem startsWord_byteOrderMark : startsWord '\uFEFF' = false := by
  have noLetter : Text.inRanges Text.letterRanges '\uFEFF' = false := by
    -- over the list of ranges, where the search is cheap to run
    unfold Text.inRanges
    rw [← Array.any_toList]
    decide +kernel
  simp [startsWord, Text.isLetter, noLetter]

/-- A text has the tokens it is cut into and the stop, unless a byte order mark comes first. -/
theorem Cuts.scan {text : String} {fs : List Form} (cuts : Cuts text fs)
    (unmarked : fs.head? ≠ some (.mark '\uFEFF')) :
    (scan text.toList).map form = fs ++ [.stop] := by
  have whole := cuts [] breaks_nil
  rw [List.append_nil] at whole
  rw [map_form_scan, whole]
  · rfl
  · intro marked
    obtain ⟨rest, chars⟩ := List.head?_eq_some_iff.mp marked
    have kept : isSeparator '\uFEFF' = false := by decide
    simp only [chars, cut, startsWord_byteOrderMark, kept, Bool.false_eq_true, if_false] at whole
    cases fs with
    | nil => cases whole
    | cons f fs => exact unmarked (congrArg List.head? whole).symm

/-! ## Names -/

inductive IsName : String → Prop
  | word {w : String} : IsWord w → IsName w
  | dotted {n w : String} : IsName n → IsWord w → IsName (n ++ "." ++ w)

theorem IsWord.cuts {w : String} (word : IsWord w) : Cuts w [.word w] := by
  obtain ⟨c, cs, same, starts, continues⟩ := word
  have whole : String.ofList (cs.reverse ++ [c]).reverse = w := by
    simp [← same]
  intro rest breaks
  rw [same, List.cons_append, cut, if_pos starts, cut_continued continues, cut_some breaks, whole]
  rfl

theorem Cuts.dotted {n w : String} {fs : List Form} (cuts : Cuts n fs) (word : IsWord w) :
    Cuts (n ++ "." ++ w) (fs ++ [.mark '.'] ++ [.word w]) := by
  have point : Punctuates "." [.mark '.'] := by decide
  exact (cuts.append point).append word.cuts

def forms (text : String) : List Form := (cut text.toList none).dropLast

theorem Cuts.forms {text : String} {fs : List Form} (cuts : Cuts text fs) : forms text = fs := by
  have whole := cuts [] breaks_nil
  rw [List.append_nil] at whole
  rw [Token.forms, whole]
  exact List.dropLast_concat

/-- A name is cut into its words and points. -/
theorem IsName.cuts {n : String} (name : IsName n) : Cuts n (Token.forms n) := by
  have some : ∃ fs, Cuts n fs := by
    induction name with
    | word isWord => exact ⟨_, isWord.cuts⟩
    | dotted _ isWord ih =>
      obtain ⟨fs, cuts⟩ := ih
      exact ⟨_, cuts.dotted isWord⟩
  obtain ⟨fs, cuts⟩ := some
  rw [cuts.forms]
  exact cuts

theorem IsName.forms_dotted {n w : String} (name : IsName n) (word : IsWord w) :
    Token.forms (n ++ "." ++ w) = Token.forms n ++ [.mark '.'] ++ [.word w] :=
  (name.cuts.dotted word).forms

theorem IsName.forms_eq_cons {n : String} (name : IsName n) :
    ∃ w fs, Token.forms n = .word w :: fs := by
  induction name with
  | @word w isWord => exact ⟨w, [], isWord.cuts.forms⟩
  | dotted name isWord ih =>
    obtain ⟨w, fs, same⟩ := ih
    exact ⟨w, _, by rw [name.forms_dotted isWord, same]; rfl⟩

/-! ## The end of a text -/

/-- The stop is the last token and no other. -/
theorem cut_stop (cs : List Char) (word : Option (List Char)) :
    ∃ fs, cut cs word = fs ++ [.stop] ∧ .stop ∉ fs := by
  fun_induction cut cs word with
  | case1 => exact ⟨[], rfl, nofun⟩
  | case2 w => exact ⟨[.word _], rfl, by simp⟩
  | case3 _ _ _ ih | case4 _ _ _ _ ih | case6 _ _ _ _ ih => exact ih
  | case5 c _ _ _ ih =>
    obtain ⟨fs, same, none⟩ := ih
    exact ⟨.mark c :: fs, by rw [same]; rfl, by simpa using none⟩
  | case7 _ _ w _ _ ih =>
    obtain ⟨fs, same, none⟩ := ih
    exact ⟨.word (String.ofList w.reverse) :: fs, by rw [same]; rfl, by simpa using none⟩
  | case8 c _ w _ _ ih =>
    obtain ⟨fs, same, none⟩ := ih
    exact ⟨.word (String.ofList w.reverse) :: .mark c :: fs, by rw [same]; rfl, by simpa using none⟩

theorem scan_stop (cs : List Char) :
    ∃ fs, (scan cs).map form = fs ++ [.stop] ∧ .stop ∉ fs := by
  unfold scan
  split
  · exact ⟨[], rfl, nofun⟩
  · split
    · rw [map_form_scanFrom]
      exact cut_stop _ _
    · rw [map_form_scanFrom]
      exact cut_stop _ _

/-! White space is no part of a word, so a text with a word among its tokens has a first word. -/

def blanks : List Nat :=
  [0x09, 0x0A, 0x0B, 0x0C, 0x0D, 0x20, 0x85, 0xA0, 0x1680, 0x2000, 0x2001, 0x2002, 0x2003, 0x2004,
    0x2005, 0x2006, 0x2007, 0x2008, 0x2009, 0x200A, 0x2028, 0x2029, 0x202F, 0x205F, 0x3000]

theorem mem_blanks {c : Char} (blank : Text.isBlank c = true) : c.toNat ∈ blanks := by
  simp only [Text.isBlank, Bool.or_eq_true, Bool.and_eq_true, decide_eq_true_eq,
    beq_iff_eq] at blank
  simp only [blanks, List.mem_cons, List.not_mem_nil, or_false]
  omega

theorem continuesWord_of_blank {c : Char} (blank : Text.isBlank c = true) :
    continuesWord c = false := by
  -- over the lists of ranges, where the search is cheap to run
  have apart : ∀ n ∈ blanks, (Char.ofNat n == '_' || (Char.ofNat n).isAlpha
      || (Char.ofNat n).isDigit) = false ∧
      (Text.letterRanges.toList.any fun r => r.1 ≤ n && n ≤ r.2) = false ∧
      (Text.decimalDigitRanges.toList.any fun r => r.1 ≤ n && n ≤ r.2) = false := by
    decide +kernel
  obtain ⟨plain, noLetter, noDigit⟩ := apart _ (mem_blanks blank)
  rw [Char.ofNat_toNat] at plain
  simp only [Bool.or_eq_false_iff] at plain
  obtain ⟨⟨noScore, noAlpha⟩, noNumeral⟩ := plain
  simp only [continuesWord, startsWord, noScore, Text.isLetter, noAlpha, Text.isDecimalDigit,
    noNumeral, Text.inRanges, ← Array.any_toList, noLetter, noDigit, ite_self, Bool.or_self]

/-- A text without a first word is all white space. -/
theorem isBlank_of_firstWord?_eq_none {cs : List Char} (none : Text.firstWord? cs = none) :
    ∀ c ∈ cs, Text.isBlank c = true := by
  unfold Text.firstWord? at none
  split at none
  · rename_i noWord
    have all : cs.dropWhile Text.isBlank = [] := by
      cases rest : cs.dropWhile Text.isBlank with
      | nil => rfl
      | cons c cs' =>
        have kept : Text.isBlank c = false := by
          have := List.head_dropWhile_not Text.isBlank
            (show cs.dropWhile Text.isBlank ≠ [] by simp [rest])
          simpa [rest] using this
        rw [rest, List.takeWhile_cons_of_pos (by simp [kept])] at noWord
        cases noWord
    exact List.dropWhile_eq_nil_iff.mp all
  · cases none

theorem firstWord?_of_word {cs : List Char} {w : String} (member : .word w ∈ (scan cs).map form) :
    ∃ word, Text.firstWord? cs = some word := by
  cases first : Text.firstWord? cs with
  | some word => exact ⟨word, rfl⟩
  | none =>
    have blank := isBlank_of_firstWord?_eq_none first
    have unmarked : cs.head? ≠ some '\uFEFF' := by
      intro head
      have := blank _ (List.mem_of_mem_head? head)
      revert this
      decide
    have plain : ∀ c ∈ cs, continuesWord c = false :=
      fun c inside => continuesWord_of_blank (blank c inside)
    have cuts := cut_plain plain []
    rw [List.append_nil] at cuts
    rw [map_form_scan unmarked, cuts] at member
    simp [cut] at member

end NominalGenerics.Token
