import Mathlib.Data.List.Chain
import NominalGenerics.Expression.Reader

/-!
# The grammar of type expressions

The grammar as a relation between its symbols and the tokens they stand for (`Grammar.Derives`),
where a name has to resolve and a list of arguments has to have the declared length. The documented
grammar has an argument after each comma. It derives exactly what is derivable with an optional
comma after the last argument and has no comma before a closing mark (`derivable_documented_iff`).
-/

namespace NominalGenerics

open Token (Form)

namespace Grammar

/-- What names mean: those of type parameters, and those of declarations with their number of
parameters. A type parameter hides a declaration. -/
structure Vocabulary where
  isParam : String → Prop
  declares : String → Nat → Prop

inductive Names : List Form → String → Prop
  | word (w : String) : Names [.word w] w
  | dotted {fs : List Form} {n : String} (w : String) :
      Names fs n → Names (fs ++ [.mark '.', .word w]) (n ++ "." ++ w)

/-- What the rules of the grammar are about. Lists of arguments and bounds are symbols too. -/
inductive Symbol where
  | type
  | args (count : Nat)
  | arg
  | bounds
  | param

/-- The tokens that a symbol stands for:

    type   = name [ "<" args ">" ] { "[" "]" }
    args   = [ arg { "," arg } ]
    arg    = "?" [ "extends" bounds | "super" type ] | type
    bounds = type { "&" type }
    param  = word [ "extends" bounds ]

A name is that of a type parameter and takes no list of arguments, or that of a declaration, and a
list that is not empty has as many arguments as there are parameters. Where `trailing` holds, the
last argument may be followed by a comma. -/
inductive Derives (V : Vocabulary) (trailing : Prop) : Symbol → List Form → Prop
  | param {fs : List Form} {n : String} :
      Names fs n → V.isParam n → Derives V trailing .type fs
  | bare {fs : List Form} {n : String} {k : Nat} :
      Names fs n → ¬ V.isParam n → V.declares n k → Derives V trailing .type fs
  | applied {fs gs : List Form} {n : String} {k count : Nat} :
      Names fs n → ¬ V.isParam n → V.declares n k → Derives V trailing (.args count) gs →
      count = 0 ∨ count = k → Derives V trailing .type (fs ++ .mark '<' :: gs ++ [.mark '>'])
  | array {fs : List Form} :
      Derives V trailing .type fs → Derives V trailing .type (fs ++ [.mark '[', .mark ']'])
  | noArgs : Derives V trailing (.args 0) []
  | lastArg {fs : List Form} : Derives V trailing .arg fs → Derives V trailing (.args 1) fs
  | moreArgs {fs gs : List Form} {count : Nat} :
      Derives V trailing .arg fs → Derives V trailing (.args count) gs → count ≠ 0 ∨ trailing →
      Derives V trailing (.args (count + 1)) (fs ++ .mark ',' :: gs)
  | anything : Derives V trailing .arg [.mark '?']
  | extending {fs : List Form} :
      Derives V trailing .bounds fs →
      Derives V trailing .arg (.mark '?' :: .word "extends" :: fs)
  | above {fs : List Form} :
      Derives V trailing .type fs → Derives V trailing .arg (.mark '?' :: .word "super" :: fs)
  | type {fs : List Form} : Derives V trailing .type fs → Derives V trailing .arg fs
  | lastBound {fs : List Form} : Derives V trailing .type fs → Derives V trailing .bounds fs
  | moreBounds {fs gs : List Form} :
      Derives V trailing .type fs → Derives V trailing .bounds gs →
      Derives V trailing .bounds (fs ++ .mark '&' :: gs)
  | unbounded (w : String) : Derives V trailing .param [.word w]
  | bounded {fs : List Form} (w : String) :
      Derives V trailing .bounds fs →
      Derives V trailing .param (.word w :: .word "extends" :: fs)

def tokens (text : String) : List Form := (Token.scan text.toList).map Token.form

/-- All tokens of a text, up to the stop, are what a symbol stands for. -/
def Vocabulary.Derivable (V : Vocabulary) (trailing : Prop) (symbol : Symbol) (text : String) :
    Prop :=
  ∃ fs, tokens text = fs ++ [.stop] ∧ Derives V trailing symbol fs

end Grammar

open Grammar

def Reader.vocabulary (r : Reader) : Vocabulary where
  isParam n := ∃ t, r.scope.get? n = some t
  declares n k := ∃ d, r.registry.lookup? n = some d ∧ (r.hierarchy.params d).length = k

namespace Grammar

variable {V : Vocabulary} {trailing : Prop} {symbol : Symbol} {fs gs : List Form}

/-! ## How derivations begin -/

theorem Names.eq_cons {n : String} (names : Names fs n) : ∃ w gs, fs = .word w :: gs := by
  induction names with
  | word w => exact ⟨w, [], rfl⟩
  | dotted _ _ ih =>
    obtain ⟨w, gs, rfl⟩ := ih
    exact ⟨w, _, rfl⟩

theorem Derives.type_eq_cons (derives : Derives V trailing .type fs) :
    ∃ w gs, fs = .word w :: gs := by
  generalize isType : Symbol.type = symbol at derives
  induction derives with
  | param names => exact names.eq_cons
  | bare names => exact names.eq_cons
  | applied names =>
    obtain ⟨w, gs, rfl⟩ := names.eq_cons
    exact ⟨w, _, rfl⟩
  | array _ ih =>
    obtain ⟨w, gs, rfl⟩ := ih isType
    exact ⟨w, _, rfl⟩
  | _ => cases isType

/-- An argument begins with a word or a question mark. -/
theorem Derives.arg_head (derives : Derives V trailing .arg fs) {c : Char} (other : c ≠ '?')
    (gs : List Form) : (fs ++ gs).head? ≠ some (.mark c) := by
  cases derives with
  | anything | extending | above => simpa using other.symm
  | type derives =>
    obtain ⟨w, hs, rfl⟩ := derives.type_eq_cons
    simp

theorem Derives.arg_ne_nil (derives : Derives V trailing .arg fs) : fs ≠ [] := by
  cases derives with
  | anything | extending | above => simp
  | type derives =>
    obtain ⟨w, hs, rfl⟩ := derives.type_eq_cons
    simp

/-! ## The documented grammar -/

def TrailingComma (fs : List Form) : Prop := [.mark ',', .mark '>'] <:+: fs

theorem Derives.mono {more : Prop} (derives : Derives V trailing symbol fs)
    (wider : trailing → more) : Derives V more symbol fs := by
  induction derives with
  | param names isParam => exact .param names isParam
  | bare names hidden declared => exact .bare names hidden declared
  | applied names hidden declared _ fits ih => exact .applied names hidden declared ih fits
  | array _ ih => exact ih.array
  | noArgs => exact .noArgs
  | lastArg _ ih => exact ih.lastArg
  | moreArgs _ _ goesOn ih later => exact ih.moreArgs later (goesOn.imp_right wider)
  | anything => exact .anything
  | extending _ ih => exact ih.extending
  | above _ ih => exact ih.above
  | type _ ih => exact ih.type
  | lastBound _ ih => exact ih.lastBound
  | moreBounds _ _ ih later => exact ih.moreBounds later
  | unbounded w => exact .unbounded w
  | bounded w _ ih => exact ih.bounded w

/-- Two tokens that are not a comma and the closing mark. -/
def Apart (f g : Form) : Prop := ¬ (f = .mark ',' ∧ g = .mark '>')

theorem not_trailingComma_iff : ¬ TrailingComma fs ↔ fs.IsChain Apart := by
  rw [List.isChain_iff_forall_rel_of_append_cons_cons]
  unfold TrailingComma Apart
  constructor
  · rintro none f g before after rfl ⟨rfl, rfl⟩
    exact none ⟨before, after, by simp⟩
  · rintro apart ⟨before, after, rfl⟩
    have here : before ++ [.mark ',', .mark '>'] ++ after =
        before ++ .mark ',' :: .mark '>' :: after := by simp
    exact apart here ⟨rfl, rfl⟩

theorem isChain_append_of_head (first : fs.IsChain Apart) (second : gs.IsChain Apart)
    (head : gs.head? ≠ some (.mark '>')) : (fs ++ gs).IsChain Apart := by
  refine List.isChain_append.mpr ⟨first, second, ?_⟩
  rintro f - g next ⟨-, rfl⟩
  exact head next

theorem isChain_append_of_last (first : fs.IsChain Apart) (second : gs.IsChain Apart)
    (last : fs.getLast? ≠ some (.mark ',')) : (fs ++ gs).IsChain Apart := by
  refine List.isChain_append.mpr ⟨first, second, ?_⟩
  rintro f ends g - ⟨rfl, -⟩
  exact last ends

theorem isChain_cons_of_ne {f : Form} (later : fs.IsChain Apart) (other : f ≠ .mark ',') :
    (f :: fs).IsChain Apart :=
  isChain_append_of_last (List.isChain_singleton f) later (by simpa using other)

theorem Names.isChain {n : String} (names : Names fs n) : fs.IsChain Apart := by
  induction names with
  | word w => exact List.isChain_singleton _
  | dotted w _ ih =>
    have point : [.mark '.', .word w].IsChain Apart :=
      isChain_cons_of_ne (List.isChain_singleton _) nofun
    exact isChain_append_of_head ih point nofun

/-- Arguments that are some have tokens, and begin as the first of them does. -/
theorem Derives.args_head {count : Nat} (derives : Derives V trailing (.args count) fs)
    (nonzero : count ≠ 0) : fs ≠ [] ∧ fs.head? ≠ some (.mark '>') := by
  cases derives with
  | noArgs => exact absurd rfl nonzero
  | lastArg arg => exact ⟨arg.arg_ne_nil, by simpa using arg.arg_head (by decide) []⟩
  | moreArgs arg => exact ⟨by simp, arg.arg_head (by decide) _⟩

theorem Names.last {n : String} (names : Names fs n) : fs.getLast? ≠ some (.mark ',') := by
  cases names <;> simp

/-- By the documented grammar nothing ends with a comma. -/
theorem Derives.last (derives : Derives V False symbol fs) :
    fs.getLast? ≠ some (.mark ',') := by
  induction derives with
  | param names | bare names => exact names.last
  | applied =>
    rw [List.getLast?_concat]
    simp
  | array | noArgs | anything | unbounded => simp
  | lastArg _ ih | type _ ih | lastBound _ ih => exact ih
  | @moreArgs fs gs count _ later goesOn _ ih =>
    cases gs with
    | nil => exact absurd rfl (later.args_head (goesOn.resolve_right id)).1
    | cons g gs => simpa using ih
  | @extending fs _ ih | @above fs _ ih | @bounded fs w _ ih =>
    cases fs with
    | nil => simp
    | cons f fs => simpa using ih
  | @moreBounds fs gs _ _ _ ih =>
    cases gs with
    | nil => simp
    | cons g gs => simpa using ih

/-- By the documented grammar no comma stands before a closing mark. -/
theorem Derives.isChain (derives : Derives V False symbol fs) : fs.IsChain Apart := by
  induction derives with
  | param names | bare names => exact names.isChain
  | @applied fs gs n k count names _ _ inside _ ih =>
    have opened : (fs ++ .mark '<' :: gs).IsChain Apart :=
      isChain_append_of_head names.isChain (isChain_cons_of_ne ih nofun) nofun
    refine isChain_append_of_last opened (List.isChain_singleton _) ?_
    cases gs with
    | nil => simp
    | cons g gs => simpa using inside.last
  | array _ ih =>
    have brackets : [.mark '[', .mark ']'].IsChain Apart :=
      isChain_cons_of_ne (List.isChain_singleton _) nofun
    exact isChain_append_of_head ih brackets nofun
  | noArgs => exact List.isChain_nil
  | anything | unbounded => exact List.isChain_singleton _
  | lastArg _ ih | type _ ih | lastBound _ ih => exact ih
  | moreArgs _ later goesOn ih ih' =>
    refine isChain_append_of_head ih
      (isChain_append_of_head (List.isChain_singleton _) ih' ?_) nofun
    exact (later.args_head (goesOn.resolve_right id)).2
  | extending _ ih | above _ ih | bounded w _ ih =>
    exact isChain_cons_of_ne (isChain_cons_of_ne ih nofun) nofun
  | moreBounds _ _ ih ih' => exact isChain_append_of_head ih (isChain_cons_of_ne ih' nofun) nofun

/-- Without a comma before a closing mark a derivation is by the documented grammar. -/
theorem Derives.documented (derives : Derives V trailing symbol fs) (apart : fs.IsChain Apart)
    (ends : ∀ count, symbol = .args count → fs.getLast? ≠ some (.mark ',')) :
    Derives V False symbol fs := by
  induction derives with
  | param names isParam => exact .param names isParam
  | bare names hidden declared => exact .bare names hidden declared
  | @applied fs gs n k count names hidden declared _ fits ih =>
    obtain ⟨opened, -, last⟩ := List.isChain_append.mp apart
    refine .applied names hidden declared (ih opened.right_of_append.tail ?_) fits
    rintro _ - comma
    have whole : (fs ++ .mark '<' :: gs).getLast? = some (.mark ',') := by
      cases gs with
      | nil => cases comma
      | cons g gs => simpa using comma
    exact last _ whole _ rfl ⟨rfl, rfl⟩
  | array _ ih => exact (ih apart.left_of_append nofun).array
  | noArgs => exact .noArgs
  | lastArg _ ih => exact (ih apart nofun).lastArg
  | @moreArgs fs gs count _ later _ ih ih' =>
    have comma := ends _ rfl
    have nonzero : count ≠ 0 := by
      rintro rfl
      cases later
      simp at comma
    have first := ih apart.left_of_append nofun
    refine first.moreArgs (ih' apart.right_of_append.tail ?_) (.inl nonzero)
    rintro _ - last
    cases gs with
    | nil => cases last
    | cons g gs => exact comma (by simpa using last)
  | anything => exact .anything
  | extending _ ih => exact (ih apart.tail.tail nofun).extending
  | above _ ih => exact (ih apart.tail.tail nofun).above
  | type _ ih => exact (ih apart nofun).type
  | lastBound _ ih => exact (ih apart nofun).lastBound
  | moreBounds _ _ ih ih' =>
    exact (ih apart.left_of_append nofun).moreBounds (ih' apart.right_of_append.tail nofun)
  | unbounded w => exact .unbounded w
  | bounded w _ ih => exact (ih apart.tail.tail nofun).bounded w

/-- The documented grammar derives what is derivable without a comma before a closing mark. -/
theorem derivable_documented_iff {text : String} (single : ∀ count, symbol ≠ .args count) :
    V.Derivable False symbol text ↔
      V.Derivable True symbol text ∧ ¬ TrailingComma (tokens text) := by
  rw [not_trailingComma_iff]
  constructor
  · rintro ⟨fs, same, derives⟩
    refine ⟨⟨fs, same, derives.mono nofun⟩, same ▸ ?_⟩
    exact isChain_append_of_head derives.isChain (List.isChain_singleton _) nofun
  · rintro ⟨⟨fs, same, derives⟩, apart⟩
    rw [same] at apart
    exact ⟨fs, same, derives.documented apart.left_of_append fun k list => absurd list (single k)⟩

end Grammar

end NominalGenerics
