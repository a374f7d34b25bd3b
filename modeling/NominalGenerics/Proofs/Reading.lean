import Mathlib.Data.List.Forall2
import NominalGenerics.Expression.Reader
import NominalGenerics.Proofs.Formed

/-!
# What reading gives

Whatever a reader accepts is formed: it uses registered declarations with the right number of
arguments and mentions the type parameters in scope (`Reader.parseType_formed`). Declared parameters
have formed bounds, and the scope they open holds exactly them beside the scope around
(`Reader.parseParams_declared`).
-/

namespace NominalGenerics

/-! ## Successful computations -/

theorem bind_eq_ok {ε α β : Type} {x : Except ε α} {f : α → Except ε β} {b : β} :
    x >>= f = .ok b ↔ ∃ a, x = .ok a ∧ f a = .ok b := by
  cases x with
  | error e =>
    constructor
    · intro failed
      cases failed
    · rintro ⟨a, failed, _⟩
      cases failed
  | ok a =>
    constructor
    · intro done
      exact ⟨a, rfl, done⟩
    · rintro ⟨_, ⟨⟩, done⟩
      exact done

theorem mapError_eq_ok {ε ε' α : Type} {x : Except ε α} {f : ε → ε'} {a : α} :
    x.mapError f = .ok a ↔ x = .ok a := by
  cases x with
  | error e =>
    constructor
    · intro failed
      cases failed
    · intro failed
      cases failed
  | ok b =>
    constructor
    · rintro ⟨⟩
      rfl
    · rintro ⟨⟩
      rfl

theorem toOption_eq_some {ε α : Type} {x : Except ε α} {a : α} :
    x.toOption = some a ↔ x = .ok a := by
  cases x with
  | error e => simp [Except.toOption]
  | ok b => simp [Except.toOption]

theorem exists_of_isOk {ε α : Type} {x : Except ε α} (ok : x.isOk = true) : ∃ a, x = .ok a := by
  cases x with
  | error e => cases ok
  | ok a => exact ⟨a, rfl⟩

theorem mapM_eq_ok {ε α β : Type} {f : α → Except ε β} {xs : List α} {ys : List β} :
    xs.mapM f = .ok ys ↔ List.Forall₂ (fun x y => f x = .ok y) xs ys := by
  induction xs generalizing ys with
  | nil =>
    rw [List.mapM_nil, List.forall₂_nil_left_iff]
    constructor
    · rintro ⟨⟩
      rfl
    · rintro rfl
      rfl
  | cons x xs ih =>
    rw [List.mapM_cons, bind_eq_ok, List.forall₂_cons_left_iff]
    constructor
    · rintro ⟨y, first, ok⟩
      obtain ⟨rest, others, ok⟩ := bind_eq_ok.mp ok
      cases ok
      exact ⟨y, rest, first, ih.mp others, rfl⟩
    · rintro ⟨y, rest, first, others, rfl⟩
      exact ⟨y, first, bind_eq_ok.mpr ⟨rest, ih.mpr others, rfl⟩⟩

def Scope.params (scope : Scope) : ParamSet := fun s n bs => scope.get? n = some (.param s n bs)

/-- A scope holds type parameters, each under its own name. -/
def Scope.Proper (scope : Scope) : Prop :=
  ∀ name t, scope.get? name = some t → ∃ s bs, t = .param s name bs

namespace Reader

structure Informed (r : Reader) (A : Arity) : Prop where
  known : ∀ name d, r.registry.lookup? name = some d → A d = some (r.hierarchy.params d).length
  proper : r.scope.Proper

theorem Informed.moved {r : Reader} {A : Arity} (informed : r.Informed A) (source : Nat) :
    ({ r with source := source } : Reader).Informed A :=
  ⟨informed.known, informed.proper⟩

theorem fail_ne_ok {α : Type} {tokens : List Token} {problem : Token.Form → ReadProblem} {a : α} :
    fail tokens problem ≠ .ok a := by
  intro failed
  cases tokens with
  | nil => cases failed
  | cons t rest => cases failed

/-! ## What each rule of the grammar accepts -/

section Rules

variable {r : Reader} {fuel : Nat} {tokens rest : List Token}

theorem atMark_eq_true {c : Char} : atMark c tokens = true ↔
    ∃ o k tail, tokens = ⟨.mark c, o, k⟩ :: tail := by
  constructor
  · intro marked
    unfold atMark at marked
    split at marked
    · rw [beq_iff_eq] at marked
      subst marked
      exact ⟨_, _, _, rfl⟩
    · cases marked
  · rintro ⟨o, k, tail, rfl⟩
    simp [atMark]

theorem atMark_eq_false {c : Char} : atMark c tokens = false ↔
    ∀ o k tail, tokens ≠ ⟨.mark c, o, k⟩ :: tail := by
  rw [Bool.eq_false_iff, ne_eq, atMark_eq_true]
  simp only [not_exists, ne_eq]

/-- A type is a name in scope, or a use of a registered name, with its arrays. -/
theorem readType_eq_ok {t : Ty} : r.readType (fuel + 1) tokens = .ok (t, rest) ↔
    ∃ w o k tail name after, tokens = ⟨.word w, o, k⟩ :: tail ∧
      readNameRest w tail = .ok (name, after) ∧
      ((∃ param, r.scope.get? name = some param ∧ atMark '<' after = false ∧
          readArrays r.source param after = .ok (t, rest)) ∨
        (r.scope.get? name = none ∧ ∃ d u after', r.registry.lookup? name = some d ∧
          r.readUse fuel ⟨r.source, o⟩ d after = .ok (u, after') ∧
          readArrays r.source u after' = .ok (t, rest))) := by
  constructor
  · intro ok
    unfold readType at ok
    split at ok
    · exact absurd ok fail_ne_ok
    · rename_i same
      cases same
      obtain ⟨⟨name, after⟩, named, ok⟩ := bind_eq_ok.mp ok
      refine ⟨_, _, _, _, name, after, rfl, named, ?_⟩
      dsimp only at ok
      split at ok
      · rename_i param inScope
        split at ok
        · exact absurd ok fail_ne_ok
        · rename_i unmarked
          exact .inl ⟨param, inScope, Bool.eq_false_iff.mpr unmarked, ok⟩
      · rename_i outOfScope
        split at ok
        · exact absurd ok fail_ne_ok
        · rename_i d registered
          obtain ⟨⟨u, after'⟩, used, ok⟩ := bind_eq_ok.mp ok
          exact .inr ⟨outOfScope, d, u, after', registered, used, ok⟩
    · exact absurd ok fail_ne_ok
  · rintro ⟨w, o, k, tail, name, after, rfl, named, here⟩
    rw [readType]
    refine bind_eq_ok.mpr ⟨_, named, ?_⟩
    dsimp only
    rcases here with
      ⟨param, inScope, unmarked, ok⟩ | ⟨outOfScope, d, u, after', registered, used, ok⟩
    · rw [inScope]
      simp only [unmarked, Bool.false_eq_true, if_false]
      exact ok
    · rw [outOfScope]
      dsimp only
      rw [registered]
      exact bind_eq_ok.mpr ⟨_, used, ok⟩

theorem readUse_of_unmarked {site : Site} {d : DeclId} (unmarked : atMark '<' tokens = false) :
    r.readUse fuel site d tokens =
      .ok (if (r.hierarchy.params d).isEmpty then .decl d else .bare site d, tokens) := by
  unfold readUse
  split
  · cases unmarked
  · rfl

/-- A use has a list of arguments, none or as many as there are parameters, or no list. -/
theorem readUse_eq_ok {site : Site} {d : DeclId} {t : Ty} :
    r.readUse (fuel + 1) site d tokens = .ok (t, rest) ↔
      (∃ o k tail args after, tokens = ⟨.mark '<', o, k⟩ :: tail ∧
        r.readArgs fuel tail = .ok (args, after) ∧ expect '>' after = .ok rest ∧
        (args = [] ∨ args.length = (r.hierarchy.params d).length) ∧ t = .app site d args) ∨
      (atMark '<' tokens = false ∧ rest = tokens ∧
        t = if (r.hierarchy.params d).isEmpty then .decl d else .bare site d) := by
  constructor
  · intro ok
    cases marked : atMark '<' tokens with
    | true =>
      obtain ⟨o, k, tail, rfl⟩ := atMark_eq_true.mp marked
      rw [readUse] at ok
      obtain ⟨⟨args, after⟩, read, ok⟩ := bind_eq_ok.mp ok
      obtain ⟨after', closed, ok⟩ := bind_eq_ok.mp ok
      dsimp only at ok
      split at ok
      · exact absurd ok fail_ne_ok
      · rename_i fits
        cases ok
        refine .inl ⟨o, k, tail, args, after, rfl, read, closed, ?_, rfl⟩
        cases args with
        | nil => exact .inl rfl
        | cons s ss =>
          right
          simpa using fits
    | false =>
      rw [readUse_of_unmarked marked] at ok
      cases ok
      exact .inr ⟨rfl, rfl, rfl⟩
  · rintro (⟨o, k, tail, args, after, rfl, read, closed, fits, rfl⟩ | ⟨unmarked, rfl, rfl⟩)
    · rw [readUse]
      refine bind_eq_ok.mpr ⟨_, read, bind_eq_ok.mpr ⟨_, closed, ?_⟩⟩
      dsimp only
      rw [if_neg]
      · rfl
      · rcases fits with rfl | fits
        · simp
        · simp [fits]
    · exact readUse_of_unmarked unmarked

/-- A list goes on after a mark, and otherwise ends. -/
theorem goesOn_eq_ok {α : Type} {c : Char} {first : α} {all : List α} {after : List Token}
    {rule : List Token → Except ReadError (List α × List Token)}
    {result : Except ReadError (List α × List Token)}
    (marked : ∀ o k tail, after = ⟨.mark c, o, k⟩ :: tail → result = do
      let (more, rest) ← rule tail
      return (first :: more, rest))
    (unmarked : atMark c after = false → result = .ok ([first], after)) :
    result = .ok (all, rest) ↔
      (∃ o k tail more, after = ⟨.mark c, o, k⟩ :: tail ∧ rule tail = .ok (more, rest) ∧
        all = first :: more) ∨
      (atMark c after = false ∧ all = [first] ∧ rest = after) := by
  cases here : atMark c after with
  | true =>
    obtain ⟨o, k, tail, rfl⟩ := atMark_eq_true.mp here
    simp only [marked o k tail rfl, Bool.true_eq_false, false_and, or_false]
    constructor
    · intro ok
      obtain ⟨⟨more, after'⟩, read, ok⟩ := bind_eq_ok.mp ok
      cases ok
      exact ⟨o, k, tail, more, rfl, read, rfl⟩
    · rintro ⟨_, _, _, more, ⟨⟩, read, rfl⟩
      exact bind_eq_ok.mpr ⟨_, read, rfl⟩
  | false =>
    rw [unmarked here]
    constructor
    · rintro ⟨⟩
      exact .inr ⟨rfl, rfl, rfl⟩
    · rintro (⟨o, k, tail, more, same, -⟩ | ⟨-, rfl, rfl⟩)
      · exact absurd same (atMark_eq_false.mp here o k tail)
      · rfl

/-- Arguments end where the list is closed, or with one that no comma follows. -/
theorem readArgs_eq_ok {ss : List Slot} : r.readArgs (fuel + 1) tokens = .ok (ss, rest) ↔
    (atMark '>' tokens = true ∧ ss = [] ∧ rest = tokens) ∨
    (atMark '>' tokens = false ∧ ∃ s after, r.readArg fuel tokens = .ok (s, after) ∧
      ((∃ o k tail more, after = ⟨.mark ',', o, k⟩ :: tail ∧
          r.readArgs fuel tail = .ok (more, rest) ∧ ss = s :: more) ∨
        (atMark ',' after = false ∧ ss = [s] ∧ rest = after))) := by
  rw [readArgs]
  cases atMark '>' tokens with
  | true =>
    simp only [if_true, Bool.true_eq_false, false_and, or_false, true_and]
    constructor
    · rintro ⟨⟩
      exact ⟨rfl, rfl⟩
    · rintro ⟨rfl, rfl⟩
      rfl
  | false =>
    simp only [Bool.false_eq_true, if_false, false_and, false_or, true_and, bind_eq_ok, Prod.exists]
    refine exists_congr fun s => exists_congr fun after => and_congr_right fun _ => ?_
    apply goesOn_eq_ok
    · rintro o k tail rfl
      rfl
    · intro unmarked
      split
      · cases unmarked
      · rfl

/-- Bounds go on after an ampersand. -/
theorem readBounds_eq_ok {ts : List Ty} : r.readBounds (fuel + 1) tokens = .ok (ts, rest) ↔
    ∃ t after, r.readType fuel tokens = .ok (t, after) ∧
      ((∃ o k tail more, after = ⟨.mark '&', o, k⟩ :: tail ∧
          r.readBounds fuel tail = .ok (more, rest) ∧ ts = t :: more) ∨
        (atMark '&' after = false ∧ ts = [t] ∧ rest = after)) := by
  rw [readBounds]
  simp only [bind_eq_ok, Prod.exists]
  refine exists_congr fun t => exists_congr fun after => and_congr_right fun _ => ?_
  apply goesOn_eq_ok
  · rintro o k tail rfl
    rfl
  · intro unmarked
    split
    · cases unmarked
    · rfl

/-- An argument is a wildcard, with upper bounds, a lower bound or none, or a type. -/
theorem readArg_eq_ok {s : Slot} : r.readArg (fuel + 1) tokens = .ok (s, rest) ↔
    (∃ o k o' k' tail us, tokens = ⟨.mark '?', o, k⟩ :: ⟨.word "extends", o', k'⟩ :: tail ∧
      r.readBounds fuel tail = .ok (us, rest) ∧ s = .extending ⟨r.source, o⟩ us) ∨
    (∃ o k o' k' tail l, tokens = ⟨.mark '?', o, k⟩ :: ⟨.word "super", o', k'⟩ :: tail ∧
      r.readType fuel tail = .ok (l, rest) ∧ s = .above ⟨r.source, o⟩ (some l)) ∨
    (∃ o k, tokens = ⟨.mark '?', o, k⟩ :: rest ∧
      (∀ t ∈ rest.head?, t.form ≠ .word "extends" ∧ t.form ≠ .word "super") ∧
      s = .anything ⟨r.source, o⟩) ∨
    (atMark '?' tokens = false ∧ ∃ t, r.readType fuel tokens = .ok (t, rest) ∧
      s = .ofTy ⟨r.source, (tokens.head?.map Token.offset).getD 0⟩ t) := by
  constructor
  · intro ok
    unfold readArg at ok
    split at ok
    · exact absurd ok fail_ne_ok
    · rename_i same
      cases same
      obtain ⟨⟨us, after⟩, read, ok⟩ := bind_eq_ok.mp ok
      cases ok
      exact .inl ⟨_, _, _, _, _, us, rfl, read, rfl⟩
    · rename_i same
      cases same
      obtain ⟨⟨l, after⟩, read, ok⟩ := bind_eq_ok.mp ok
      cases ok
      exact .inr (.inl ⟨_, _, _, _, _, l, rfl, read, rfl⟩)
    · rename_i noExtends noSuper _
      cases ok
      refine .inr (.inr (.inl ⟨_, _, rfl, ?_, rfl⟩))
      rintro ⟨form, o, k⟩ head
      obtain ⟨tail, rfl⟩ := List.head?_eq_some_iff.mp head
      constructor
      · rintro rfl
        exact noExtends o k tail rfl
      · rintro rfl
        exact noSuper o k tail rfl
    · rename_i same _ _ noQuestion
      cases same
      obtain ⟨⟨t, after⟩, read, ok⟩ := bind_eq_ok.mp ok
      cases ok
      exact .inr (.inr (.inr ⟨atMark_eq_false.mpr noQuestion, t, read, rfl⟩))
  · rintro (⟨o, k, o', k', tail, us, rfl, read, rfl⟩ | ⟨o, k, o', k', tail, l, rfl, read, rfl⟩ |
      ⟨o, k, rfl, bare, rfl⟩ | ⟨unmarked, t, read, rfl⟩)
    · rw [readArg]
      exact bind_eq_ok.mpr ⟨_, read, rfl⟩
    · rw [readArg]
      exact bind_eq_ok.mpr ⟨_, read, rfl⟩
    · rw [readArg]
      · rintro _ _ _ rfl
        exact (bare _ rfl).1 rfl
      · rintro _ _ _ rfl
        exact (bare _ rfl).2 rfl
    · have noQuestion := atMark_eq_false.mp unmarked
      rw [readArg]
      · exact bind_eq_ok.mpr ⟨_, read, rfl⟩
      · exact fun o k o' k' tail => noQuestion o k _
      · exact fun o k o' k' tail => noQuestion o k _
      · exact noQuestion

end Rules

/-! ## What is read is formed -/

theorem readArrays_formed {A : Arity} {P : ParamSet} {source : Nat} {t u : Ty}
    {tokens rest : List Token} (formed : t.Formed A P)
    (ok : readArrays source t tokens = .ok (u, rest)) : u.Formed A P := by
  fun_induction readArrays source t tokens with
  | case1 t offset column o c tail ih => exact ih formed ok
  | case2 => exact absurd ok fail_ne_ok
  | case3 =>
    cases ok
    exact formed

section Grammar

variable {r : Reader} {A : Arity}

/-- What the five rules of the grammar give is formed, when at most `fuel` rules are nested. -/
structure RulesFormed (r : Reader) (A : Arity) (fuel : Nat) : Prop where
  type : ∀ tokens t rest, r.readType fuel tokens = .ok (t, rest) → t.Formed A r.scope.params
  use : ∀ site d tokens t rest, A d = some (r.hierarchy.params d).length →
    r.readUse fuel site d tokens = .ok (t, rest) → t.Formed A r.scope.params
  args : ∀ tokens ss rest, r.readArgs fuel tokens = .ok (ss, rest) →
    Slot.FormedAll A r.scope.params ss
  arg : ∀ tokens s rest, r.readArg fuel tokens = .ok (s, rest) → s.Formed A r.scope.params
  bounds : ∀ tokens ts rest, r.readBounds fuel tokens = .ok (ts, rest) →
    Ty.FormedAll A r.scope.params ts

/-- A use without an argument list needs no level below. -/
theorem bareUse_formed {d : DeclId} (site : Site)
    (known : A d = some (r.hierarchy.params d).length) :
    (if (r.hierarchy.params d).isEmpty then Ty.decl d else .bare site d).Formed A
      r.scope.params := by
  cases params : r.hierarchy.params d with
  | nil =>
    rw [params] at known
    exact known
  | cons p ps =>
    rw [params] at known
    exact ⟨ps.length, known⟩

section Level

variable {fuel : Nat} {tokens rest : List Token}

theorem RulesFormed.readType (below : r.RulesFormed A fuel) (informed : r.Informed A) {t : Ty}
    (ok : r.readType (fuel + 1) tokens = .ok (t, rest)) : t.Formed A r.scope.params := by
  obtain ⟨_, _, _, _, name, _, -, -, here⟩ := readType_eq_ok.mp ok
  rcases here with ⟨param, inScope, -, ok⟩ | ⟨-, d, u, _, registered, used, ok⟩
  · obtain ⟨s, bs, rfl⟩ := informed.proper name param inScope
    exact readArrays_formed (t := .param s name bs) inScope ok
  · exact readArrays_formed (below.use _ d _ _ _ (informed.known name d registered) used) ok

theorem RulesFormed.readUse (below : r.RulesFormed A fuel) {site : Site} {d : DeclId} {t : Ty}
    (known : A d = some (r.hierarchy.params d).length)
    (ok : r.readUse (fuel + 1) site d tokens = .ok (t, rest)) : t.Formed A r.scope.params := by
  rcases readUse_eq_ok.mp ok with ⟨_, _, _, args, _, -, read, -, fits, rfl⟩ | ⟨-, -, rfl⟩
  · exact ⟨⟨_, known, fits⟩, below.args _ _ _ read⟩
  · exact bareUse_formed _ known

theorem RulesFormed.readArgs (below : r.RulesFormed A fuel) {ss : List Slot}
    (ok : r.readArgs (fuel + 1) tokens = .ok (ss, rest)) : Slot.FormedAll A r.scope.params ss := by
  rcases readArgs_eq_ok.mp ok with ⟨-, rfl, -⟩ | ⟨-, s, _, read, here⟩
  · trivial
  · rcases here with ⟨_, _, _, more, -, readMore, rfl⟩ | ⟨-, rfl, -⟩
    · exact ⟨below.arg _ _ _ read, below.args _ _ _ readMore⟩
    · exact ⟨below.arg _ _ _ read, trivial⟩

theorem RulesFormed.readArg (below : r.RulesFormed A fuel) {s : Slot}
    (ok : r.readArg (fuel + 1) tokens = .ok (s, rest)) : s.Formed A r.scope.params := by
  rcases readArg_eq_ok.mp ok with ⟨_, _, _, _, _, us, -, read, rfl⟩ |
    ⟨_, _, _, _, _, l, -, read, rfl⟩ | ⟨_, _, -, -, rfl⟩ | ⟨-, t, read, rfl⟩
  · exact ⟨rfl, below.bounds _ _ _ read⟩
  · exact ⟨rfl, below.type _ _ _ read, trivial⟩
  · exact ⟨rfl, trivial⟩
  · exact Slot.formed_ofTy _ (below.type _ _ _ read)

theorem RulesFormed.readBounds (below : r.RulesFormed A fuel) {ts : List Ty}
    (ok : r.readBounds (fuel + 1) tokens = .ok (ts, rest)) : Ty.FormedAll A r.scope.params ts := by
  obtain ⟨t, _, read, here⟩ := readBounds_eq_ok.mp ok
  rcases here with ⟨_, _, _, more, -, readMore, rfl⟩ | ⟨-, rfl, -⟩
  · exact ⟨below.type _ _ _ read, below.bounds _ _ _ readMore⟩
  · exact ⟨below.type _ _ _ read, trivial⟩

end Level

/-- All five rules at once, since each level of one uses the level below of others. -/
theorem rules_formed (informed : r.Informed A) (fuel : Nat) : r.RulesFormed A fuel := by
  induction fuel with
  | zero =>
    refine ⟨?_, ?_, ?_, ?_, ?_⟩
    · intro tokens t rest ok
      exact absurd ok fail_ne_ok
    · intro site d tokens t rest known ok
      unfold readUse at ok
      cases ok
      exact bareUse_formed site known
    · intro tokens ss rest ok
      exact absurd ok fail_ne_ok
    · intro tokens s rest ok
      exact absurd ok fail_ne_ok
    · intro tokens ts rest ok
      exact absurd ok fail_ne_ok
  | succ fuel below =>
    exact ⟨fun _ _ _ ok => below.readType informed ok,
      fun _ _ _ _ _ known ok => below.readUse known ok, fun _ _ _ ok => below.readArgs ok,
      fun _ _ _ ok => below.readArg ok, fun _ _ _ ok => below.readBounds ok⟩

theorem readWhole_eq_ok {α : Type} {rule : Nat → List Token → Except ReadError (α × List Token)}
    {text : String} {a : α} (ok : readWhole rule text = .ok a) :
    ∃ fuel tokens rest, rule fuel tokens = .ok (a, rest) := by
  obtain ⟨⟨b, rest⟩, read, ok⟩ := bind_eq_ok.mp ok
  dsimp only at ok
  split at ok
  · cases ok
    exact ⟨_, _, _, read⟩
  · exact absurd ok fail_ne_ok

theorem parseType_formed (informed : r.Informed A) {text : String} {t : Ty}
    (ok : r.parseType text = .ok t) : t.Formed A r.scope.params := by
  obtain ⟨fuel, tokens, rest, read⟩ := readWhole_eq_ok (mapError_eq_ok.mp ok)
  exact (rules_formed informed fuel).type tokens t rest read

theorem parseSlot_formed (informed : r.Informed A) {text : String} {s : Slot}
    (ok : r.parseSlot text = .ok s) : s.Formed A r.scope.params := by
  obtain ⟨fuel, tokens, rest, read⟩ := readWhole_eq_ok (mapError_eq_ok.mp ok)
  exact (rules_formed informed fuel).arg tokens s rest read

/-- A declared parameter has no lower bound and formed upper bounds. -/
theorem parseParam_declared (informed : r.Informed A) {text : String} {p : Slot}
    (ok : r.parseParam text = .ok p) :
    ∃ s n bs, p = .parameter s n bs ∧ Ty.FormedAll A r.scope.params bs := by
  obtain ⟨fuel, tokens, rest, read⟩ := readWhole_eq_ok (mapError_eq_ok.mp ok)
  unfold readParam at read
  split at read
  · obtain ⟨⟨bounds, after⟩, readBounds, read⟩ := bind_eq_ok.mp read
    cases read
    exact ⟨_, _, bounds, rfl, (rules_formed informed fuel).bounds _ _ _ readBounds⟩
  · cases read
    exact ⟨_, _, [], rfl, trivial⟩
  · exact absurd read fail_ne_ok

end Grammar

/-! ## Declared parameters and their scope -/

/-- Parameters as a declaration lists them, with bounds over `P`. -/
def Declared (A : Arity) (P : ParamSet) (params : List Slot) : Prop :=
  ∀ p ∈ params, ∃ s n bs, p = .parameter s n bs ∧ Ty.FormedAll A P bs

/-- A scope with declared parameters added; a later one of the same name wins. -/
def opened (scope : Scope) (params : List Slot) : Scope :=
  params.foldl (fun acc p => acc.insert p.name p.ty) scope

theorem get?_opened {scope : Scope} {params : List Slot} {name : String} {t : Ty}
    (found : (opened scope params).get? name = some t) :
    (∃ p ∈ params, p.name = name ∧ p.ty = t) ∨ scope.get? name = some t := by
  induction params generalizing scope with
  | nil => exact .inr found
  | cons p ps ih =>
    rcases ih found with ⟨q, member, here⟩ | before
    · exact .inl ⟨q, List.mem_cons_of_mem _ member, here⟩
    · rw [NameMap.get?_insert] at before
      split at before
      · rename_i same
        cases before
        exact .inl ⟨p, List.mem_cons_self, same.symm, rfl⟩
      · exact .inr before

theorem opened_proper {A : Arity} {P : ParamSet} {scope : Scope} {params : List Slot}
    (proper : scope.Proper) (declared : Declared A P params) : (opened scope params).Proper := by
  intro name t found
  rcases get?_opened found with ⟨p, member, rfl, rfl⟩ | before
  · obtain ⟨s, n, bs, rfl, -⟩ := declared p member
    exact ⟨s, bs, rfl⟩
  · exact proper name t before

/-- What is in scope is a declared parameter, unless it was in the scope around. -/
theorem params_opened {A : Arity} {P : ParamSet} {scope : Scope} {params : List Slot}
    (declared : Declared A P params) {s : Site} {n : String} {bs : List Ty}
    (found : (opened scope params).params s n bs) :
    ParamSet.of params s n bs ∨ scope.params s n bs := by
  rcases get?_opened found with ⟨p, member, rfl, same⟩ | before
  · obtain ⟨s', n', bs', rfl, -⟩ := declared p member
    cases same
    exact .inl member
  · exact .inr before

/-- Bare parameters have no bounds. -/
theorem bareScope_bare {source : Nat} {texts : List String} {i : Nat} {scope bare : Scope}
    (proper : scope.Proper) (ok : bareScope source texts i scope = .ok bare) :
    bare.Proper ∧ ∀ s n bs, bare.params s n bs → bs = [] ∨ scope.params s n bs := by
  induction texts generalizing i scope with
  | nil =>
    cases ok
    exact ⟨proper, fun _ _ _ found => .inr found⟩
  | cons text texts ih =>
    obtain ⟨name, -, ok⟩ := bind_eq_ok.mp ok
    have added : Scope.Proper (scope.insert name (.param ⟨source, i⟩ name [])) := by
      intro k t found
      rw [NameMap.get?_insert] at found
      split at found
      · rename_i same
        subst same
        cases found
        exact ⟨_, _, rfl⟩
      · exact proper k t found
    obtain ⟨isProper, bare⟩ := ih added ok
    refine ⟨isProper, ?_⟩
    intro s n bs found
    rcases bare s n bs found with empty | before
    · exact .inl empty
    · unfold Scope.params at before
      rw [NameMap.get?_insert] at before
      split at before
      · cases before
        exact .inl rfl
      · exact .inr before

theorem parseEach_declared {A : Arity} {texts : List String} {r : Reader} {scope scope' : Scope}
    {params : List Slot} (informed : r.Informed A)
    (ok : r.parseEach texts scope = .ok (params, scope')) :
    Declared A r.scope.params params ∧ params.length = texts.length ∧
      scope' = opened scope params := by
  induction texts generalizing r scope params with
  | nil =>
    cases ok
    refine ⟨?_, rfl, rfl⟩
    intro p member
    cases member
  | cons text texts ih =>
    obtain ⟨p, read, ok⟩ := bind_eq_ok.mp ok
    obtain ⟨⟨ps, after⟩, readRest, ok⟩ := bind_eq_ok.mp ok
    cases ok
    obtain ⟨declared, count, opens⟩ := ih (informed.moved _) readRest
    refine ⟨?_, by simp [count], opens⟩
    intro q member
    rcases List.mem_cons.mp member with rfl | member
    · exact parseParam_declared informed read
    · exact declared q member

/-- Declared parameters are as many as there are texts; their bounds mention parameters without
bounds or those of the scope around; and they are what is added to the scope. -/
theorem parseParams_declared {A : Arity} {r : Reader} {texts : List String} {params : List Slot}
    {scope : Scope} (informed : r.Informed A) (ok : r.parseParams texts = .ok (params, scope)) :
    Declared A (fun s n bs => bs = [] ∨ r.scope.params s n bs) params ∧
      params.length = texts.length ∧ scope = opened r.scope params := by
  obtain ⟨bare, isBare, ok⟩ := bind_eq_ok.mp ok
  obtain ⟨proper, bounds⟩ := bareScope_bare informed.proper isBare
  have inner : ({ r with scope := bare, source := r.source + 1 } : Reader).Informed A :=
    ⟨informed.known, proper⟩
  obtain ⟨declared, count, opens⟩ := parseEach_declared inner ok
  refine ⟨?_, count, opens⟩
  intro p member
  obtain ⟨s, n, bs, rfl, formed⟩ := declared p member
  exact ⟨s, n, bs, rfl, formed.mono (fun _ _ known => known) bounds⟩

end Reader

end NominalGenerics
