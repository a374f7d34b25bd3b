import NominalGenerics.Proofs.Reading
import NominalGenerics.Proofs.Scanning
import NominalGenerics.Hierarchy.Rendering

/-!
# Legible types

A type that a reader gave is legible to it: it uses declarations under the names the reader knows
them by and type parameters under the names they have in scope (`Reader.parseType_legible`). The
text of a legible type has the tokens of its spelling (`Ty.Legible.cuts`).
-/

namespace NominalGenerics

/-- The reader knows a declaration by its own name. -/
structure Reader.Calls (r : Reader) (d : DeclId) : Prop where
  name : Token.IsName d.name
  unscoped : r.scope.get? d.name = none
  found : r.registry.lookup? d.name = some d

/-- The reader has a type parameter in scope under its own name. -/
structure Reader.Holds (r : Reader) (s : Site) (n : String) (bs : List Ty) : Prop where
  name : Token.IsName n
  found : r.scope.get? n = some (.param s n bs)

mutual

/-- A type that the reader could have read: what it uses is known by the name it shows, and uses
without arguments are told apart by whether there are parameters. -/
def Ty.Legible (r : Reader) : Ty → Prop
  | .decl d => r.Calls d ∧ r.hierarchy.params d = []
  | .bare _ d => r.Calls d ∧ r.hierarchy.params d ≠ []
  | .app _ d args => r.Calls d ∧ (args = [] ∨ args.length = (r.hierarchy.params d).length) ∧
    Slot.LegibleAll r args
  | .param s n bs => r.Holds s n bs
  | .array _ e => e.Legible r

/-- An argument that the reader could have read. A lower bound comes alone. -/
def Slot.Legible (r : Reader) : Slot → Prop
  | .exact m t => m.resolved = false ∧ t.isParam = false ∧ t.Legible r
  | .rebound _ _ _ _ => False
  | .param m l s n bs => m.resolved = false ∧ l = none ∧ r.Holds s n bs
  | .wildcard m none us => m.resolved = false ∧ Ty.LegibleAll r us
  | .wildcard m (some l) us => m.resolved = false ∧ us = [] ∧ l.Legible r

def Ty.LegibleAll (r : Reader) : List Ty → Prop
  | [] => True
  | t :: ts => t.Legible r ∧ Ty.LegibleAll r ts

def Slot.LegibleAll (r : Reader) : List Slot → Prop
  | [] => True
  | s :: ss => s.Legible r ∧ Slot.LegibleAll r ss

end

theorem Slot.legible_ofTy {r : Reader} (site : Site) {t : Ty} (legible : t.Legible r) :
    (Slot.ofTy site t).Legible r := by
  cases t with
  | param => exact ⟨rfl, rfl, legible⟩
  | decl | bare | app | array => exact ⟨rfl, rfl, legible⟩

namespace Reader

/-- A reader whose declarations and type parameters are known under their own names. -/
structure Apt (r : Reader) : Prop where
  named : ∀ name d, r.registry.lookup? name = some d → d.name = name
  proper : r.scope.Proper

section Grammar

variable {r : Reader}

theorem readNameRest_isName {name n : String} {tokens rest : List Token}
    (isName : Token.IsName name) (genuine : Token.Genuine tokens)
    (ok : readNameRest name tokens = .ok (n, rest)) :
    Token.IsName n ∧ Token.Genuine rest := by
  fun_induction readNameRest name tokens with
  | case1 name _ _ w _ _ tail ih =>
    have word : Token.IsWord w := genuine _ (List.mem_cons_of_mem _ List.mem_cons_self) w rfl
    exact ih (.dotted isName word) genuine.tail.tail ok
  | case2 => exact absurd ok fail_ne_ok
  | case3 =>
    cases ok
    exact ⟨isName, genuine⟩

theorem readArrays_legible {source : Nat} {t u : Ty} {tokens rest : List Token}
    (legible : t.Legible r) (genuine : Token.Genuine tokens)
    (ok : readArrays source t tokens = .ok (u, rest)) : u.Legible r ∧ Token.Genuine rest := by
  fun_induction readArrays source t tokens with
  | case1 t offset column o c tail ih => exact ih legible genuine.tail.tail ok
  | case2 => exact absurd ok fail_ne_ok
  | case3 =>
    cases ok
    exact ⟨legible, genuine⟩

/-- What the five rules of the grammar give is legible, when at most `fuel` rules are nested. -/
structure RulesLegible (r : Reader) (fuel : Nat) : Prop where
  type : ∀ tokens t rest, Token.Genuine tokens → r.readType fuel tokens = .ok (t, rest) →
    t.Legible r ∧ Token.Genuine rest
  use : ∀ site d tokens t rest, r.Calls d → Token.Genuine tokens →
    r.readUse fuel site d tokens = .ok (t, rest) → t.Legible r ∧ Token.Genuine rest
  args : ∀ tokens ss rest, Token.Genuine tokens → r.readArgs fuel tokens = .ok (ss, rest) →
    Slot.LegibleAll r ss ∧ Token.Genuine rest
  arg : ∀ tokens s rest, Token.Genuine tokens → r.readArg fuel tokens = .ok (s, rest) →
    s.Legible r ∧ Token.Genuine rest
  bounds : ∀ tokens ts rest, Token.Genuine tokens → r.readBounds fuel tokens = .ok (ts, rest) →
    Ty.LegibleAll r ts ∧ Token.Genuine rest

theorem bareUse_legible {d : DeclId} (site : Site) (calls : r.Calls d) :
    (if (r.hierarchy.params d).isEmpty then Ty.decl d else .bare site d).Legible r := by
  cases params : r.hierarchy.params d with
  | nil => exact ⟨calls, params⟩
  | cons p ps =>
    refine ⟨calls, ?_⟩
    rw [params]
    exact List.cons_ne_nil p ps

theorem expect_genuine {c : Char} {tokens rest : List Token} (genuine : Token.Genuine tokens)
    (ok : expect c tokens = .ok rest) : Token.Genuine rest := by
  unfold expect at ok
  split at ok
  · split at ok
    · cases ok
      exact genuine.tail
    · exact absurd ok fail_ne_ok
  · exact absurd ok fail_ne_ok

section Level

variable {fuel : Nat} {tokens rest : List Token}

theorem RulesLegible.readType (below : r.RulesLegible fuel) (apt : r.Apt) {t : Ty}
    (genuine : Token.Genuine tokens) (ok : r.readType (fuel + 1) tokens = .ok (t, rest)) :
    t.Legible r ∧ Token.Genuine rest := by
  obtain ⟨w, _, _, _, name, _, rfl, named, here⟩ := readType_eq_ok.mp ok
  have word : Token.IsWord w := genuine _ List.mem_cons_self w rfl
  obtain ⟨isName, genuine⟩ := readNameRest_isName (.word word) genuine.tail named
  rcases here with ⟨param, inScope, -, ok⟩ | ⟨unscoped, d, u, _, registered, used, ok⟩
  · obtain ⟨s, bs, rfl⟩ := apt.proper name param inScope
    have held : (Ty.param s name bs).Legible r := ⟨isName, inScope⟩
    exact readArrays_legible held genuine ok
  · have own := apt.named name d registered
    subst own
    obtain ⟨legible, genuine⟩ := below.use _ d _ _ _ ⟨isName, unscoped, registered⟩ genuine used
    exact readArrays_legible legible genuine ok

theorem RulesLegible.readUse (below : r.RulesLegible fuel) {site : Site} {d : DeclId} {t : Ty}
    (calls : r.Calls d) (genuine : Token.Genuine tokens)
    (ok : r.readUse (fuel + 1) site d tokens = .ok (t, rest)) :
    t.Legible r ∧ Token.Genuine rest := by
  rcases readUse_eq_ok.mp ok with ⟨_, _, _, args, _, rfl, read, closed, fits, rfl⟩ | ⟨-, rfl, rfl⟩
  · obtain ⟨legible, genuine⟩ := below.args _ _ _ genuine.tail read
    exact ⟨⟨calls, fits, legible⟩, expect_genuine genuine closed⟩
  · exact ⟨bareUse_legible _ calls, genuine⟩

theorem RulesLegible.readArgs (below : r.RulesLegible fuel) {ss : List Slot}
    (genuine : Token.Genuine tokens) (ok : r.readArgs (fuel + 1) tokens = .ok (ss, rest)) :
    Slot.LegibleAll r ss ∧ Token.Genuine rest := by
  rcases readArgs_eq_ok.mp ok with ⟨-, rfl, rfl⟩ | ⟨-, s, _, read, here⟩
  · exact ⟨trivial, genuine⟩
  · obtain ⟨first, genuine⟩ := below.arg _ _ _ genuine read
    rcases here with ⟨_, _, _, more, rfl, readMore, rfl⟩ | ⟨-, rfl, rfl⟩
    · obtain ⟨later, genuine⟩ := below.args _ _ _ genuine.tail readMore
      exact ⟨⟨first, later⟩, genuine⟩
    · exact ⟨⟨first, trivial⟩, genuine⟩

theorem RulesLegible.readArg (below : r.RulesLegible fuel) {s : Slot}
    (genuine : Token.Genuine tokens) (ok : r.readArg (fuel + 1) tokens = .ok (s, rest)) :
    s.Legible r ∧ Token.Genuine rest := by
  rcases readArg_eq_ok.mp ok with ⟨_, _, _, _, _, us, rfl, read, rfl⟩ |
    ⟨_, _, _, _, _, l, rfl, read, rfl⟩ | ⟨_, _, rfl, -, rfl⟩ | ⟨-, t, read, rfl⟩
  · obtain ⟨legible, genuine⟩ := below.bounds _ _ _ genuine.tail.tail read
    exact ⟨⟨rfl, legible⟩, genuine⟩
  · obtain ⟨legible, genuine⟩ := below.type _ _ _ genuine.tail.tail read
    exact ⟨⟨rfl, rfl, legible⟩, genuine⟩
  · exact ⟨⟨rfl, trivial⟩, genuine.tail⟩
  · obtain ⟨legible, genuine⟩ := below.type _ _ _ genuine read
    exact ⟨Slot.legible_ofTy _ legible, genuine⟩

theorem RulesLegible.readBounds (below : r.RulesLegible fuel) {ts : List Ty}
    (genuine : Token.Genuine tokens) (ok : r.readBounds (fuel + 1) tokens = .ok (ts, rest)) :
    Ty.LegibleAll r ts ∧ Token.Genuine rest := by
  obtain ⟨t, _, read, here⟩ := readBounds_eq_ok.mp ok
  obtain ⟨first, genuine⟩ := below.type _ _ _ genuine read
  rcases here with ⟨_, _, _, more, rfl, readMore, rfl⟩ | ⟨-, rfl, rfl⟩
  · obtain ⟨later, genuine⟩ := below.bounds _ _ _ genuine.tail readMore
    exact ⟨⟨first, later⟩, genuine⟩
  · exact ⟨⟨first, trivial⟩, genuine⟩

end Level

/-- All five rules at once, since each level of one uses the level below of others. -/
theorem rules_legible (apt : r.Apt) (fuel : Nat) : r.RulesLegible fuel := by
  induction fuel with
  | zero =>
    refine ⟨?_, ?_, ?_, ?_, ?_⟩
    · intro tokens t rest _ ok
      exact absurd ok fail_ne_ok
    · intro site d tokens t rest calls genuine ok
      unfold readUse at ok
      cases ok
      exact ⟨bareUse_legible site calls, genuine⟩
    · intro tokens ss rest _ ok
      exact absurd ok fail_ne_ok
    · intro tokens s rest _ ok
      exact absurd ok fail_ne_ok
    · intro tokens ts rest _ ok
      exact absurd ok fail_ne_ok
  | succ fuel below =>
    exact ⟨fun _ _ _ genuine ok => below.readType apt genuine ok,
      fun _ _ _ _ _ calls genuine ok => below.readUse calls genuine ok,
      fun _ _ _ genuine ok => below.readArgs genuine ok,
      fun _ _ _ genuine ok => below.readArg genuine ok,
      fun _ _ _ genuine ok => below.readBounds genuine ok⟩

/-- A rule reads a whole text when it comes to the stop. -/
theorem readWhole_eq_ok_iff {α : Type} {rule : Nat → List Token → Except ReadError (α × List Token)}
    {text : String} {a : α} : readWhole rule text = .ok a ↔ ∃ o k rest,
      rule (3 * (Token.scan text.toList).length) (Token.scan text.toList) =
        .ok (a, ⟨.stop, o, k⟩ :: rest) := by
  constructor
  · intro ok
    obtain ⟨⟨b, rest⟩, read, ok⟩ := bind_eq_ok.mp ok
    dsimp only at ok
    split at ok
    · cases ok
      exact ⟨_, _, _, read⟩
    · exact absurd ok fail_ne_ok
  · rintro ⟨o, k, rest, read⟩
    exact bind_eq_ok.mpr ⟨_, read, rfl⟩

theorem parseType_legible (apt : r.Apt) {text : String} {t : Ty} (ok : r.parseType text = .ok t) :
    t.Legible r := by
  obtain ⟨o, k, rest, read⟩ := readWhole_eq_ok_iff.mp (mapError_eq_ok.mp ok)
  exact ((rules_legible apt _).type _ _ _ (Token.genuine_scan _) read).1

theorem parseSlot_legible (apt : r.Apt) {text : String} {s : Slot} (ok : r.parseSlot text = .ok s) :
    s.Legible r := by
  obtain ⟨o, k, rest, read⟩ := readWhole_eq_ok_iff.mp (mapError_eq_ok.mp ok)
  exact ((rules_legible apt _).arg _ _ _ (Token.genuine_scan _) read).1

end Grammar

end Reader

/-! ## Spelling -/

mutual

def Ty.spelling : Ty → List Token.Form
  | .decl d | .bare _ d => Token.forms d.name
  | .app _ d args => Token.forms d.name ++ [.mark '<'] ++
    [.mark ','].intercalate (Slot.spellings args) ++ [.mark '>']
  | .param _ n _ => Token.forms n
  | .array _ e => e.spelling ++ [.mark '[', .mark ']']

def Slot.spelling : Slot → List Token.Form
  | .exact _ t => t.spelling
  | .rebound _ n _ _ | .param _ _ _ n _ => Token.forms n
  | .wildcard _ (some l) _ => [.mark '?', .word "super"] ++ l.spelling
  | .wildcard _ none [] => [.mark '?']
  | .wildcard _ none (u :: us) =>
    [.mark '?', .word "extends"] ++ [.mark '&'].intercalate (u.spelling :: Ty.spellings us)

def Ty.spellings : List Ty → List (List Token.Form)
  | [] => []
  | t :: ts => t.spelling :: Ty.spellings ts

def Slot.spellings : List Slot → List (List Token.Form)
  | [] => []
  | s :: ss => s.spelling :: Slot.spellings ss

end

namespace Token

theorem isWord_extends : IsWord "extends" :=
  ⟨'e', "xtends".toList, rfl, by decide, List.all_eq_true.mp (by decide)⟩

theorem isWord_super : IsWord "super" :=
  ⟨'s', "uper".toList, rfl, by decide, List.all_eq_true.mp (by decide)⟩

theorem leads_keyword {w : String} (word : IsWord w) :
    Leads ("? " ++ w ++ " ") [.mark '?', .word w] := by
  have question : Punctuates "? " [.mark '?'] := by decide
  have blank : Punctuates " " [] := by decide
  exact (question.leads.append word.cuts).append blank

end Token

section Spelling

variable {r : Reader}

mutual

/-- The text of a legible type has the tokens of its spelling. -/
theorem Ty.Legible.cuts : ∀ {t : Ty}, t.Legible r → Token.Cuts (r.hierarchy.render t) t.spelling
  | .decl d, ⟨calls, params⟩ => by
    rw [Hierarchy.render, params, Ty.spelling]
    exact calls.name.cuts
  | .bare s d, ⟨calls, _⟩ => by
    rw [Hierarchy.render, Ty.spelling]
    exact calls.name.cuts
  | .app s d args, ⟨calls, _, legible⟩ => by
    have opens : Token.Punctuates "<" [.mark '<'] := by decide
    have comma : Token.Punctuates ", " [.mark ','] := by decide
    have closes : Token.Punctuates ">" [.mark '>'] := by decide
    have inside := Token.cuts_joined comma (Slot.LegibleAll.cuts legible)
    rw [Hierarchy.render, Ty.spelling]
    exact (((calls.name.cuts.append opens).append inside).append closes).cuts
  | .param s n bs, held => by
    rw [Hierarchy.render, Ty.spelling]
    exact held.name.cuts
  | .array s e, legible => by
    have brackets : Token.Punctuates "[]" [.mark '[', .mark ']'] := by decide
    rw [Hierarchy.render, Ty.spelling]
    exact ((Ty.Legible.cuts (t := e) legible).append brackets).cuts

theorem Slot.Legible.cuts : ∀ {s : Slot}, s.Legible r →
    Token.Cuts (r.hierarchy.renderSlot s) s.spelling
  | .exact m t, ⟨_, _, legible⟩ => by
    rw [Hierarchy.renderSlot, Slot.spelling]
    exact legible.cuts
  | .param m none s n bs, ⟨_, _, held⟩ => by
    rw [Hierarchy.renderSlot, Slot.spelling]
    exact held.name.cuts
  | .wildcard m none [], _ => by
    have question : Token.Punctuates "?" [.mark '?'] := by decide
    rw [Hierarchy.renderSlot, Slot.spelling]
    exact question.leads.cuts
  | .wildcard m none (u :: us), ⟨_, legible⟩ => by
    have ampersand : Token.Punctuates " & " [.mark '&'] := by decide
    have joined := Token.cuts_joined ampersand (Ty.LegibleAll.cuts legible)
    rw [Hierarchy.renderSlot, Slot.spelling]
    exact (Token.leads_keyword Token.isWord_extends).append joined
  | .wildcard m (some l) us, ⟨_, _, legible⟩ => by
    rw [Hierarchy.renderSlot, Slot.spelling]
    exact (Token.leads_keyword Token.isWord_super).append legible.cuts

theorem Ty.LegibleAll.cuts : ∀ {ts : List Ty}, Ty.LegibleAll r ts →
    List.Forall₂ Token.Cuts (r.hierarchy.renderTypes ts) (Ty.spellings ts)
  | [], _ => .nil
  | _ :: _, ⟨first, later⟩ => .cons first.cuts (Ty.LegibleAll.cuts later)

theorem Slot.LegibleAll.cuts : ∀ {ss : List Slot}, Slot.LegibleAll r ss →
    List.Forall₂ Token.Cuts (r.hierarchy.renderSlots ss) (Slot.spellings ss)
  | [], _ => .nil
  | _ :: _, ⟨first, later⟩ => .cons first.cuts (Slot.LegibleAll.cuts later)

end

end Spelling

end NominalGenerics
