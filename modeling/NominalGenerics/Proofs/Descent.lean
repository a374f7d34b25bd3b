import NominalGenerics.Proofs.Grammar
import NominalGenerics.Proofs.Legible

/-!
# Reading by the grammar

The rules of a reader consume what the grammar derives (`Reader.rules_derive`), and from tokens that
the grammar derives they get something and leave what follows (`Grammar.Derives.reads`). One lemma
for each way to go on in the grammar says what comes of it, whatever is wanted of the result, and
one for each production that what it derives is read (`Reader.Readable`).
-/

namespace NominalGenerics

open Token (Form)
open Grammar

/-! ## What is read is derivable -/

namespace Reader

/-- Some tokens are gone, and they are what the symbol stands for. -/
def Consumes (r : Reader) (symbol : Symbol) (tokens rest : List Token) : Prop :=
  ∃ fs, tokens.map Token.form = fs ++ rest.map Token.form ∧
    Derives r.vocabulary True symbol fs

section Consumes

variable {r : Reader} {fuel : Nat} {tokens rest : List Token}

theorem readNameRest_names {name n : String} {fs : List Form} (names : Names fs name)
    (ok : readNameRest name tokens = .ok (n, rest)) :
    ∃ gs, tokens.map Token.form = gs ++ rest.map Token.form ∧ Names (fs ++ gs) n := by
  fun_induction readNameRest name tokens generalizing fs with
  | case1 name _ _ w _ _ tail ih =>
    obtain ⟨gs, same, longer⟩ := ih (names.dotted w) ok
    refine ⟨.mark '.' :: .word w :: gs, by simp [same], ?_⟩
    simpa using longer
  | case2 => exact absurd ok fail_ne_ok
  | case3 =>
    cases ok
    exact ⟨[], rfl, by simpa using names⟩

theorem readArrays_derives {source : Nat} {t u : Ty} {fs : List Form}
    (derives : Derives r.vocabulary True .type fs)
    (ok : readArrays source t tokens = .ok (u, rest)) :
    ∃ gs, tokens.map Token.form = gs ++ rest.map Token.form ∧
      Derives r.vocabulary True .type (fs ++ gs) := by
  fun_induction readArrays source t tokens generalizing fs with
  | case1 t offset column o c tail ih =>
    obtain ⟨gs, same, longer⟩ := ih derives.array ok
    refine ⟨.mark '[' :: .mark ']' :: gs, by simp [same], ?_⟩
    simpa using longer
  | case2 => exact absurd ok fail_ne_ok
  | case3 =>
    cases ok
    exact ⟨[], rfl, by simpa using derives⟩

/-- What the five rules accept is derivable, when at most `fuel` rules are nested. A use is read
after its name. -/
structure RulesDerive (r : Reader) (fuel : Nat) : Prop where
  type : ∀ tokens t rest, r.readType fuel tokens = .ok (t, rest) → r.Consumes .type tokens rest
  use : ∀ site n d fs tokens t rest, Names fs n → ¬ r.vocabulary.isParam n →
    r.registry.lookup? n = some d → r.readUse fuel site d tokens = .ok (t, rest) →
    ∃ gs, tokens.map Token.form = gs ++ rest.map Token.form ∧
      Derives r.vocabulary True .type (fs ++ gs)
  args : ∀ tokens ss rest, r.readArgs fuel tokens = .ok (ss, rest) →
    r.Consumes (.args ss.length) tokens rest
  arg : ∀ tokens s rest, r.readArg fuel tokens = .ok (s, rest) → r.Consumes .arg tokens rest
  bounds : ∀ tokens ts rest, r.readBounds fuel tokens = .ok (ts, rest) →
    r.Consumes .bounds tokens rest

theorem expect_eq_ok {c : Char} (ok : expect c tokens = .ok rest) :
    tokens.map Token.form = .mark c :: rest.map Token.form := by
  unfold expect at ok
  split at ok
  · split at ok
    · rename_i same
      cases ok
      rw [same]
      rfl
    · exact absurd ok fail_ne_ok
  · exact absurd ok fail_ne_ok

theorem RulesDerive.readType (below : r.RulesDerive fuel) {t : Ty}
    (ok : r.readType (fuel + 1) tokens = .ok (t, rest)) : r.Consumes .type tokens rest := by
  obtain ⟨w, _, _, tail, n, after, rfl, named, here⟩ := readType_eq_ok.mp ok
  obtain ⟨gs, same, names⟩ := readNameRest_names (.word w) named
  rcases here with ⟨param, inScope, -, ok⟩ | ⟨unscoped, d, u, after', registered, used, ok⟩
  · have derives : Derives r.vocabulary True .type ([.word w] ++ gs) :=
      .param names ⟨param, inScope⟩
    obtain ⟨hs, same', longer⟩ := readArrays_derives derives ok
    exact ⟨_, by simp [same, same'], longer⟩
  · have hidden : ¬ r.vocabulary.isParam n := by
      rintro ⟨t, found⟩
      rw [unscoped] at found
      cases found
    obtain ⟨hs, same', derives⟩ := below.use _ n d _ _ _ _ names hidden registered used
    obtain ⟨is, same'', longer⟩ := readArrays_derives derives ok
    exact ⟨_, by simp [same, same', same''], longer⟩

theorem RulesDerive.readUse (below : r.RulesDerive fuel) {site : Site} {n : String} {d : DeclId}
    {fs : List Form} {t : Ty} (names : Names fs n) (hidden : ¬ r.vocabulary.isParam n)
    (registered : r.registry.lookup? n = some d)
    (ok : r.readUse (fuel + 1) site d tokens = .ok (t, rest)) :
    ∃ gs, tokens.map Token.form = gs ++ rest.map Token.form ∧
      Derives r.vocabulary True .type (fs ++ gs) := by
  rcases readUse_eq_ok.mp ok with ⟨_, _, _, args, _, rfl, read, closed, fits, rfl⟩ | ⟨-, rfl, rfl⟩
  · obtain ⟨gs, same, derives⟩ := below.args _ _ _ read
    rw [expect_eq_ok closed] at same
    have fits : args.length = 0 ∨ args.length = (r.hierarchy.params d).length :=
      fits.imp_left List.length_eq_zero_iff.mpr
    refine ⟨.mark '<' :: gs ++ [.mark '>'], by simp [same], ?_⟩
    have applied := Derives.applied names hidden ⟨d, registered, rfl⟩ derives fits
    simpa using applied
  · exact ⟨[], rfl, by simpa using Derives.bare names hidden ⟨d, registered, rfl⟩⟩

theorem RulesDerive.readArgs (below : r.RulesDerive fuel) {ss : List Slot}
    (ok : r.readArgs (fuel + 1) tokens = .ok (ss, rest)) :
    r.Consumes (.args ss.length) tokens rest := by
  rcases readArgs_eq_ok.mp ok with ⟨-, rfl, rfl⟩ | ⟨-, s, _, read, here⟩
  · exact ⟨[], rfl, .noArgs⟩
  · obtain ⟨fs, same, first⟩ := below.arg _ _ _ read
    rcases here with ⟨_, _, _, more, rfl, readMore, rfl⟩ | ⟨-, rfl, rfl⟩
    · obtain ⟨gs, same', later⟩ := below.args _ _ _ readMore
      exact ⟨_, by simp [same, same'], first.moreArgs later (.inr trivial)⟩
    · exact ⟨fs, same, first.lastArg⟩

theorem RulesDerive.readArg (below : r.RulesDerive fuel) {s : Slot}
    (ok : r.readArg (fuel + 1) tokens = .ok (s, rest)) : r.Consumes .arg tokens rest := by
  rcases readArg_eq_ok.mp ok with ⟨_, _, _, _, _, us, rfl, read, rfl⟩ |
    ⟨_, _, _, _, _, l, rfl, read, rfl⟩ | ⟨_, _, rfl, -, rfl⟩ | ⟨-, t, read, rfl⟩
  · obtain ⟨fs, same, derives⟩ := below.bounds _ _ _ read
    exact ⟨_, by simp [same], derives.extending⟩
  · obtain ⟨fs, same, derives⟩ := below.type _ _ _ read
    exact ⟨_, by simp [same], derives.above⟩
  · exact ⟨_, rfl, .anything⟩
  · obtain ⟨fs, same, derives⟩ := below.type _ _ _ read
    exact ⟨fs, same, derives.type⟩

theorem RulesDerive.readBounds (below : r.RulesDerive fuel) {ts : List Ty}
    (ok : r.readBounds (fuel + 1) tokens = .ok (ts, rest)) : r.Consumes .bounds tokens rest := by
  obtain ⟨t, _, read, here⟩ := readBounds_eq_ok.mp ok
  obtain ⟨fs, same, first⟩ := below.type _ _ _ read
  rcases here with ⟨_, _, _, more, rfl, readMore, rfl⟩ | ⟨-, rfl, rfl⟩
  · obtain ⟨gs, same', later⟩ := below.bounds _ _ _ readMore
    exact ⟨_, by simp [same, same'], first.moreBounds later⟩
  · exact ⟨fs, same, first.lastBound⟩

theorem rules_derive (r : Reader) (fuel : Nat) : r.RulesDerive fuel := by
  induction fuel with
  | zero =>
    refine ⟨?_, ?_, ?_, ?_, ?_⟩
    · intro tokens t rest ok
      exact absurd ok fail_ne_ok
    · intro site n d fs tokens t rest names hidden registered ok
      unfold readUse at ok
      cases ok
      exact ⟨[], rfl, by simpa using Derives.bare names hidden ⟨d, registered, rfl⟩⟩
    · intro tokens ss rest ok
      exact absurd ok fail_ne_ok
    · intro tokens s rest ok
      exact absurd ok fail_ne_ok
    · intro tokens ts rest ok
      exact absurd ok fail_ne_ok
  | succ fuel below =>
    exact ⟨fun _ _ _ ok => below.readType ok,
      fun _ _ _ _ _ _ _ names hidden registered ok => below.readUse names hidden registered ok,
      fun _ _ _ ok => below.readArgs ok, fun _ _ _ ok => below.readArg ok,
      fun _ _ _ ok => below.readBounds ok⟩

theorem readParam_derives {s : Slot} (ok : r.readParam fuel tokens = .ok (s, rest)) :
    r.Consumes .param tokens rest := by
  unfold readParam at ok
  split at ok
  · rename_i name _ _ _ _ _
    obtain ⟨⟨bounds, after⟩, read, ok⟩ := bind_eq_ok.mp ok
    cases ok
    obtain ⟨fs, same, derives⟩ := (rules_derive r fuel).bounds _ _ _ read
    exact ⟨_, by simp [same], derives.bounded name⟩
  · cases ok
    exact ⟨_, rfl, .unbounded _⟩
  · exact absurd ok fail_ne_ok

end Consumes

end Reader

/-! ## What is derivable is read -/

theorem Token.map_form_eq_cons {tokens : List Token} {f : Form} {fs : List Form}
    (same : tokens.map Token.form = f :: fs) :
    ∃ o k rest, tokens = ⟨f, o, k⟩ :: rest ∧ rest.map Token.form = fs := by
  obtain ⟨⟨f, o, k⟩, rest, rfl, rfl, later⟩ := List.map_eq_cons_iff.mp same
  exact ⟨o, k, rest, rfl, later⟩

theorem Token.IsName.names {n : String} (name : Token.IsName n) : Names (Token.forms n) n := by
  induction name with
  | @word w isWord =>
    rw [isWord.cuts.forms]
    exact .word w
  | @dotted n w name isWord ih =>
    rw [name.forms_dotted isWord]
    simpa using ih.dotted w

namespace Reader

def afterArg : List Form := [.mark ',', .mark '>', .stop]

/-- What may follow a type, which may be a bound among others. -/
def afterType : List Form := .mark '&' :: afterArg

/-- What may follow a type of which more arrays may be made. -/
def afterElem : List Form := .mark '[' :: afterType

def Next (allowed fs : List Form) : Prop := ∃ f ∈ allowed, fs.head? = some f

theorem Next.ne {allowed fs : List Form} (next : Next allowed fs) {f : Form}
    (other : f ∉ allowed) : fs.head? ≠ some f := by
  obtain ⟨g, member, head⟩ := next
  rw [head]
  rintro ⟨⟩
  exact other member

theorem Next.mono {allowed more fs : List Form} (next : Next allowed fs)
    (wider : allowed ⊆ more) : Next more fs := by
  obtain ⟨f, member, head⟩ := next
  exact ⟨f, wider member, head⟩

/-- Reading gives something that `Q` holds of, and leaves the tokens of `fs`. -/
def Gives {α : Type} (result : Except ReadError (α × List Token)) (Q : α → Prop)
    (fs : List Form) : Prop :=
  ∃ a rest, Q a ∧ rest.map Token.form = fs ∧ result = .ok (a, rest)

/-- Reading a type comes to make arrays of one that `Q` holds of. -/
def ReadsBack (r : Reader) (fuel : Nat) (tokens : List Token) (Q : Ty → Prop) (fs : List Form) :
    Prop :=
  ∃ t after, Q t ∧ after.map Token.form = fs ∧
    ∀ u rest, readArrays r.source t after = .ok (u, rest) → r.readType fuel tokens = .ok (u, rest)

section Spelled

variable {r : Reader} {tokens rest : List Token} {fs gs : List Form}

/-- Where another form comes next, or none, a mark does not. -/
theorem atMark_eq_false_of_head {c : Char}
    (other : (tokens.map Token.form).head? ≠ some (.mark c)) : atMark c tokens = false := by
  rw [atMark_eq_false]
  rintro o k tail rfl
  exact other rfl

theorem readNameRest_spelled {n : String} (names : Names gs n)
    (same : tokens.map Token.form = gs ++ fs) :
    ∃ w o k tail rest, tokens = ⟨.word w, o, k⟩ :: tail ∧ rest.map Token.form = fs ∧
      readNameRest w tail = readNameRest n rest := by
  induction names generalizing fs with
  | word w =>
    obtain ⟨o, k, tail, rfl, later⟩ := Token.map_form_eq_cons same
    exact ⟨w, o, k, tail, tail, rfl, later, rfl⟩
  | @dotted gs n v _ ih =>
    rw [List.append_assoc] at same
    obtain ⟨w, o, k, tail, rest, rfl, pointed, named⟩ := ih same
    obtain ⟨_, _, last, rfl, worded⟩ := Token.map_form_eq_cons pointed
    obtain ⟨_, _, after, rfl, done⟩ := Token.map_form_eq_cons worded
    refine ⟨w, o, k, tail, after, rfl, done, ?_⟩
    rw [named, readNameRest]

/-- A name that no point follows is read as it is. -/
theorem readNameRest_name {n : String} (names : Names gs n)
    (same : tokens.map Token.form = gs ++ fs) (noPoint : fs.head? ≠ some (.mark '.')) :
    ∃ w o k tail rest, tokens = ⟨.word w, o, k⟩ :: tail ∧ rest.map Token.form = fs ∧
      readNameRest w tail = .ok (n, rest) := by
  obtain ⟨w, o, k, tail, rest, rfl, rfl, named⟩ := readNameRest_spelled names same
  refine ⟨w, o, k, tail, rest, rfl, rfl, named.trans ?_⟩
  unfold readNameRest
  split
  · exact absurd rfl noPoint
  · exact absurd rfl noPoint
  · rfl

theorem readArrays_ends {source : Nat} {t : Ty}
    (ends : (tokens.map Token.form).head? ≠ some (.mark '[')) :
    readArrays source t tokens = .ok (t, tokens) := by
  unfold readArrays
  split
  · exact absurd rfl ends
  · exact absurd rfl ends
  · rfl

/-! One lemma for each way to go on in the grammar. `Q` says what the result is to be. -/

section Steps

variable {fuel : Nat} {hs : List Form} {n : String} {d : DeclId} {P Q : Ty → Prop}

theorem readsBack_param {t : Ty} (names : Names gs n) (found : r.scope.get? n = some t)
    (same : tokens.map Token.form = gs ++ fs) (next : Next afterElem fs) (holds : Q t) :
    r.ReadsBack (fuel + 1) tokens Q fs := by
  obtain ⟨w, o, k, tail, after, rfl, same, named⟩ :=
    readNameRest_name names same (next.ne (by decide))
  have unmarked : atMark '<' after = false :=
    atMark_eq_false_of_head (same ▸ next.ne (by decide))
  refine ⟨t, after, holds, same, ?_⟩
  intro u rest arrays
  exact readType_eq_ok.mpr ⟨w, o, k, tail, n, after, rfl, named, .inl ⟨t, found, unmarked, arrays⟩⟩

/-- A use is read after the name of its declaration. -/
theorem readsBack_use (names : Names gs n) (unscoped : r.scope.get? n = none)
    (found : r.registry.lookup? n = some d) (same : tokens.map Token.form = gs ++ hs)
    (noPoint : hs.head? ≠ some (.mark '.'))
    (used : ∀ site rest, rest.map Token.form = hs → Gives (r.readUse fuel site d rest) Q fs) :
    r.ReadsBack (fuel + 1) tokens Q fs := by
  obtain ⟨w, o, k, tail, rest, rfl, same, named⟩ := readNameRest_name names same noPoint
  obtain ⟨t, after, holds, done, used⟩ := used ⟨r.source, o⟩ rest same
  refine ⟨t, after, holds, done, ?_⟩
  intro u rest arrays
  exact readType_eq_ok.mpr ⟨w, o, k, tail, n, _, rfl, named,
    .inr ⟨unscoped, d, t, after, found, used, arrays⟩⟩

theorem readsBack_bare (names : Names gs n) (unscoped : r.scope.get? n = none)
    (found : r.registry.lookup? n = some d) (same : tokens.map Token.form = gs ++ fs)
    (next : Next afterElem fs)
    (holds : ∀ site, Q (if (r.hierarchy.params d).isEmpty then .decl d else .bare site d)) :
    r.ReadsBack (fuel + 1) tokens Q fs := by
  apply readsBack_use names unscoped found same (next.ne (by decide))
  intro site rest after
  exact ⟨_, rest, holds site, after,
    readUse_of_unmarked (atMark_eq_false_of_head (after ▸ next.ne (by decide)))⟩

theorem readsBack_app {R : List Slot → Prop} (names : Names gs n)
    (unscoped : r.scope.get? n = none) (found : r.registry.lookup? n = some d)
    (same : tokens.map Token.form = gs ++ .mark '<' :: hs)
    (reads : ∀ rest, rest.map Token.form = hs → Gives (r.readArgs fuel rest) R (.mark '>' :: fs))
    (fits : ∀ args, R args → args = [] ∨ args.length = (r.hierarchy.params d).length)
    (holds : ∀ site args, R args → Q (.app site d args)) :
    r.ReadsBack (fuel + 2) tokens Q fs := by
  apply readsBack_use names unscoped found same (by simp)
  intro site rest opened
  obtain ⟨o, k, rest, rfl, inside⟩ := Token.map_form_eq_cons opened
  obtain ⟨args, after, all, closed, read⟩ := reads rest inside
  obtain ⟨_, _, after, rfl, done⟩ := Token.map_form_eq_cons closed
  refine ⟨.app site d args, after, holds site args all, done, ?_⟩
  exact readUse_eq_ok.mpr (.inl ⟨o, k, rest, args, _, rfl, read, rfl, fits args all, rfl⟩)

theorem ReadsBack.array (back : r.ReadsBack fuel tokens P (.mark '[' :: .mark ']' :: fs))
    (holds : ∀ site e, P e → Q (.array site e)) : r.ReadsBack fuel tokens Q fs := by
  obtain ⟨e, after, elem, opened, read⟩ := back
  obtain ⟨o, _, after, rfl, closing⟩ := Token.map_form_eq_cons opened
  obtain ⟨_, _, after, rfl, done⟩ := Token.map_form_eq_cons closing
  refine ⟨.array ⟨r.source, o⟩ e, after, holds _ e elem, done, ?_⟩
  intro u rest arrays
  apply read
  rw [readArrays]
  exact arrays

theorem ReadsBack.whole (back : r.ReadsBack fuel tokens Q fs) (next : Next afterType fs) :
    Gives (r.readType fuel tokens) Q fs := by
  obtain ⟨t, rest, holds, after, read⟩ := back
  exact ⟨t, rest, holds, after, read _ _ (readArrays_ends (after ▸ next.ne (by decide)))⟩

variable {S : Slot → Prop}

theorem ReadsBack.arg (back : r.ReadsBack fuel tokens P fs) (next : Next afterArg fs)
    (starts : (tokens.map Token.form).head? ≠ some (.mark '?'))
    (holds : ∀ site t, P t → S (.ofTy site t)) : Gives (r.readArg (fuel + 1) tokens) S fs := by
  obtain ⟨t, rest, type, after, read⟩ := back.whole (next.mono (by decide))
  let here : Site := ⟨r.source, (tokens.head?.map Token.offset).getD 0⟩
  refine ⟨.ofTy here t, rest, holds here t type, after, ?_⟩
  exact readArg_eq_ok.mpr (.inr (.inr (.inr ⟨atMark_eq_false_of_head starts, t, read, rfl⟩)))

theorem gives_anything (same : tokens.map Token.form = .mark '?' :: fs)
    (next : Next afterArg fs) (holds : ∀ site, S (.anything site)) :
    Gives (r.readArg (fuel + 1) tokens) S fs := by
  obtain ⟨o, k, rest, rfl, after⟩ := Token.map_form_eq_cons same
  refine ⟨.anything ⟨r.source, o⟩, rest, holds _, after, ?_⟩
  refine readArg_eq_ok.mpr (.inr (.inr (.inl ⟨o, k, rfl, ?_, rfl⟩)))
  intro t head
  have form : fs.head? = some t.form := by
    rw [← after, List.head?_map, head]
    rfl
  constructor
  · intro word
    exact next.ne (by decide) (word ▸ form)
  · intro word
    exact next.ne (by decide) (word ▸ form)

theorem ReadsBack.above (same : tokens.map Token.form = .mark '?' :: .word "super" :: gs)
    (back : ∀ rest, rest.map Token.form = gs → r.ReadsBack fuel rest P fs)
    (next : Next afterArg fs) (holds : ∀ site l, P l → S (.above site (some l))) :
    Gives (r.readArg (fuel + 1) tokens) S fs := by
  obtain ⟨o, k, rest, rfl, worded⟩ := Token.map_form_eq_cons same
  obtain ⟨o', k', rest, rfl, bounded⟩ := Token.map_form_eq_cons worded
  obtain ⟨l, after, type, done, read⟩ := (back rest bounded).whole (next.mono (by decide))
  refine ⟨.above ⟨r.source, o⟩ (some l), after, holds _ l type, done, ?_⟩
  exact readArg_eq_ok.mpr (.inr (.inl ⟨o, k, o', k', rest, l, rfl, read, rfl⟩))

theorem gives_extending {R : List Ty → Prop}
    (same : tokens.map Token.form = .mark '?' :: .word "extends" :: gs)
    (bounds : ∀ rest, rest.map Token.form = gs → Gives (r.readBounds fuel rest) R fs)
    (holds : ∀ site us, R us → S (.extending site us)) :
    Gives (r.readArg (fuel + 1) tokens) S fs := by
  obtain ⟨o, k, rest, rfl, worded⟩ := Token.map_form_eq_cons same
  obtain ⟨o', k', rest, rfl, bounded⟩ := Token.map_form_eq_cons worded
  obtain ⟨us, after, all, done, read⟩ := bounds rest bounded
  refine ⟨.extending ⟨r.source, o⟩ us, after, holds _ us all, done, ?_⟩
  exact readArg_eq_ok.mpr (.inl ⟨o, k, o', k', rest, us, rfl, read, rfl⟩)

theorem ReadsBack.lastBound {R : List Ty → Prop} (back : r.ReadsBack fuel tokens P fs)
    (next : Next afterArg fs) (holds : ∀ t, P t → R [t]) :
    Gives (r.readBounds (fuel + 1) tokens) R fs := by
  obtain ⟨t, rest, type, after, read⟩ := back.whole (next.mono (by decide))
  have ends : atMark '&' rest = false := atMark_eq_false_of_head (after ▸ next.ne (by decide))
  exact ⟨[t], rest, holds t type, after,
    readBounds_eq_ok.mpr ⟨t, rest, read, .inr ⟨ends, rfl, rfl⟩⟩⟩

theorem ReadsBack.bound {R T : List Ty → Prop}
    (back : r.ReadsBack fuel tokens P (.mark '&' :: gs))
    (later : ∀ rest, rest.map Token.form = gs → Gives (r.readBounds fuel rest) T fs)
    (holds : ∀ t ts, P t → T ts → R (t :: ts)) :
    Gives (r.readBounds (fuel + 1) tokens) R fs := by
  obtain ⟨t, rest, type, after, read⟩ := back.whole ⟨.mark '&', by decide, rfl⟩
  obtain ⟨o, k, rest, rfl, bounded⟩ := Token.map_form_eq_cons after
  obtain ⟨ts, last, types, done, reads⟩ := later rest bounded
  exact ⟨t :: ts, last, holds t ts type types, done,
    readBounds_eq_ok.mpr ⟨t, _, read, .inl ⟨o, k, rest, ts, rfl, reads, rfl⟩⟩⟩

variable {R T : List Slot → Prop}

theorem gives_noArgs (same : tokens.map Token.form = .mark '>' :: fs) (holds : R []) :
    Gives (r.readArgs (fuel + 1) tokens) R (.mark '>' :: fs) := by
  obtain ⟨o, k, tail, rfl, -⟩ := Token.map_form_eq_cons same
  exact ⟨[], _, holds, same, readArgs_eq_ok.mpr (.inl ⟨rfl, rfl, rfl⟩)⟩

theorem gives_lastArg (arg : Gives (r.readArg fuel tokens) S (.mark '>' :: fs))
    (starts : (tokens.map Token.form).head? ≠ some (.mark '>')) (holds : ∀ s, S s → R [s]) :
    Gives (r.readArgs (fuel + 1) tokens) R (.mark '>' :: fs) := by
  obtain ⟨s, rest, slot, after, read⟩ := arg
  have ends : atMark ',' rest = false := atMark_eq_false_of_head (after ▸ by simp)
  exact ⟨[s], rest, holds s slot, after, readArgs_eq_ok.mpr
    (.inr ⟨atMark_eq_false_of_head starts, s, rest, read, .inr ⟨ends, rfl, rfl⟩⟩)⟩

theorem gives_moreArgs (arg : Gives (r.readArg fuel tokens) S (.mark ',' :: gs))
    (starts : (tokens.map Token.form).head? ≠ some (.mark '>'))
    (later : ∀ rest, rest.map Token.form = gs → Gives (r.readArgs fuel rest) T fs)
    (holds : ∀ s ss, S s → T ss → R (s :: ss)) :
    Gives (r.readArgs (fuel + 1) tokens) R fs := by
  obtain ⟨s, rest, slot, after, read⟩ := arg
  obtain ⟨o, k, rest, rfl, listed⟩ := Token.map_form_eq_cons after
  obtain ⟨ss, last, slots, done, reads⟩ := later rest listed
  exact ⟨s :: ss, last, holds s ss slot slots, done, readArgs_eq_ok.mpr
    (.inr ⟨atMark_eq_false_of_head starts, s, _, read, .inl ⟨o, k, rest, ss, rfl, reads, rfl⟩⟩)⟩

/-- A declared parameter that nothing follows has no bounds. -/
theorem gives_unbounded {w : String} (same : tokens.map Token.form = .word w :: fs)
    (next : Next [.stop] fs) (holds : ∀ site, S (.parameter site w [])) :
    Gives (r.readParam fuel tokens) S fs := by
  obtain ⟨o, k, rest, rfl, ends⟩ := Token.map_form_eq_cons same
  refine ⟨.parameter ⟨r.source, o⟩ w [], rest, holds _, ends, ?_⟩
  unfold readParam
  split
  · rename_i same
    cases same
    have word : fs.head? = some (.word "extends") := (congrArg List.head? ends).symm
    exact absurd word (next.ne (by decide))
  · rename_i same
    cases same
    rfl
  · rename_i other
    exact absurd rfl (other w o k rest)

theorem gives_bounded {P : List Ty → Prop} {w : String}
    (same : tokens.map Token.form = .word w :: .word "extends" :: gs)
    (bounds : ∀ rest, rest.map Token.form = gs → Gives (r.readBounds fuel rest) P fs)
    (holds : ∀ site us, P us → S (.parameter site w us)) :
    Gives (r.readParam fuel tokens) S fs := by
  obtain ⟨o, k, rest, rfl, worded⟩ := Token.map_form_eq_cons same
  obtain ⟨_, _, rest, rfl, bounded⟩ := Token.map_form_eq_cons worded
  obtain ⟨us, after, all, done, read⟩ := bounds rest bounded
  refine ⟨.parameter ⟨r.source, o⟩ w us, after, holds _ us all, done, ?_⟩
  rw [readParam]
  exact bind_eq_ok.mpr ⟨_, read, rfl⟩

end Steps

end Spelled

def after : Symbol → List Form
  | .type => afterElem
  | .args _ => [.mark '>']
  | .arg | .bounds => afterArg
  | .param => [.stop]

/-- The levels that reading a symbol takes beyond those that its tokens pay for. -/
def depth : Symbol → Nat
  | .type => 0
  | .arg | .param => 2
  | .args _ | .bounds => 3

def Reads (r : Reader) (fuel : Nat) (tokens : List Token) (fs : List Form) : Symbol → Prop
  | .type => r.ReadsBack fuel tokens (fun _ => True) fs
  | .args count => Gives (r.readArgs fuel tokens) (·.length = count) fs
  | .arg => Gives (r.readArg fuel tokens) (fun _ => True) fs
  | .bounds => Gives (r.readBounds fuel tokens) (fun _ => True) fs
  | .param => Gives (r.readParam fuel tokens) (fun _ => True) fs

/-- A symbol is read wherever its tokens stand before something that may follow it. Three levels for
every token are enough. -/
def Readable (r : Reader) (symbol : Symbol) (fs : List Form) : Prop :=
  ∀ ⦃fuel tokens gs⦄, tokens.map Token.form = fs ++ gs → Next (after symbol) gs →
    3 * fs.length + depth symbol ≤ fuel + 2 → r.Reads fuel tokens gs symbol

/-! One lemma for each production of the grammar. -/

namespace Readable

variable {r : Reader} {trailing : Prop} {fs gs : List Form} {n : String} {k count : Nat}

/-! ## Types -/

theorem scope_of_not_isParam (hidden : ¬ r.vocabulary.isParam n) : r.scope.get? n = none := by
  cases found : r.scope.get? n with
  | none => rfl
  | some t => exact absurd ⟨t, found⟩ hidden

theorem param (names : Names fs n) (isParam : r.vocabulary.isParam n) : r.Readable .type fs := by
  intro fuel tokens gs same next enough
  obtain ⟨t, found⟩ := isParam
  obtain ⟨w, hs, rfl⟩ := names.eq_cons
  obtain ⟨fuel, rfl⟩ : ∃ n, fuel = n + 1 := ⟨fuel - 1, by simp at enough; omega⟩
  exact readsBack_param names found same next trivial

theorem bare (names : Names fs n) (hidden : ¬ r.vocabulary.isParam n)
    (declared : r.vocabulary.declares n k) : r.Readable .type fs := by
  intro fuel tokens gs same next enough
  obtain ⟨d, found, -⟩ := declared
  obtain ⟨w, hs, rfl⟩ := names.eq_cons
  obtain ⟨fuel, rfl⟩ : ∃ n, fuel = n + 1 := ⟨fuel - 1, by simp at enough; omega⟩
  exact readsBack_bare names (scope_of_not_isParam hidden) found same next fun _ => trivial

theorem applied (names : Names fs n) (hidden : ¬ r.vocabulary.isParam n)
    (declared : r.vocabulary.declares n k) (args : r.Readable (.args count) gs)
    (fits : count = 0 ∨ count = k) : r.Readable .type (fs ++ .mark '<' :: gs ++ [.mark '>']) := by
  intro fuel tokens hs same next enough
  obtain ⟨d, found, params⟩ := declared
  simp only [List.length_append, List.length_cons, List.length_nil, depth] at enough
  obtain ⟨fuel, rfl⟩ : ∃ n, fuel = n + 2 := ⟨fuel - 2, by omega⟩
  simp only [List.append_assoc, List.cons_append, List.nil_append] at same
  refine readsBack_app (R := (·.length = count)) names (scope_of_not_isParam hidden) found same ?_
    ?_ fun _ _ _ => trivial
  · intro rest inside
    exact args inside ⟨.mark '>', List.mem_singleton_self _, rfl⟩ (by simp only [depth]; omega)
  · intro args length
    rw [← List.length_eq_zero_iff, length, params]
    exact fits

theorem array (elem : r.Readable .type fs) :
    r.Readable .type (fs ++ [.mark '[', .mark ']']) := by
  intro fuel tokens gs same next enough
  simp only [List.append_assoc, List.length_append, List.length_cons, List.length_nil, depth]
    at same enough
  have elem : r.ReadsBack fuel tokens (fun _ => True) (.mark '[' :: .mark ']' :: gs) :=
    elem same ⟨.mark '[', List.mem_cons_self, rfl⟩ (by simp only [depth]; omega)
  exact elem.array fun _ _ _ => trivial

/-! ## Lists of arguments -/

/-- A list of arguments is followed by the mark that closes it. -/
theorem eq_cons_of_next_args (next : Next (after (.args count)) gs) :
    ∃ hs, gs = .mark '>' :: hs := by
  obtain ⟨f, member, head⟩ := next
  rw [List.mem_singleton.mp member] at head
  exact List.head?_eq_some_iff.mp head

theorem noArgs : r.Readable (.args 0) [] := by
  intro fuel tokens gs same next enough
  obtain ⟨gs, rfl⟩ := eq_cons_of_next_args next
  obtain ⟨fuel, rfl⟩ : ∃ n, fuel = n + 1 := ⟨fuel - 1, by simp [depth] at enough; omega⟩
  exact gives_noArgs same rfl

theorem lastArg (derives : Derives r.vocabulary trailing .arg fs) (arg : r.Readable .arg fs) :
    r.Readable (.args 1) fs := by
  intro fuel tokens gs same next enough
  obtain ⟨gs, rfl⟩ := eq_cons_of_next_args next
  simp only [depth] at enough
  obtain ⟨fuel, rfl⟩ : ∃ n, fuel = n + 1 := ⟨fuel - 1, by omega⟩
  have first := arg same ⟨.mark '>', by decide, rfl⟩ (show _ ≤ fuel + 2 by simp only [depth]; omega)
  refine gives_lastArg first ?_ fun _ _ => rfl
  exact same ▸ derives.arg_head (by decide) _

theorem moreArgs (derives : Derives r.vocabulary trailing .arg fs) (arg : r.Readable .arg fs)
    (later : r.Readable (.args count) gs) :
    r.Readable (.args (count + 1)) (fs ++ .mark ',' :: gs) := by
  intro fuel tokens hs same next enough
  simp only [List.append_assoc, List.cons_append, List.length_append, List.length_cons, depth]
    at same enough
  obtain ⟨fuel, rfl⟩ : ∃ n, fuel = n + 1 := ⟨fuel - 1, by omega⟩
  have first := arg same ⟨.mark ',', by decide, rfl⟩ (show _ ≤ fuel + 2 by simp only [depth]; omega)
  refine gives_moreArgs (T := (·.length = count)) first ?_ ?_ ?_
  · exact same ▸ derives.arg_head (by decide) _
  · intro rest listed
    exact later listed next (by simp only [depth]; omega)
  · intro s ss _ length
    rw [List.length_cons, length]

/-! ## Arguments -/

theorem anything : r.Readable .arg [.mark '?'] := by
  intro fuel tokens gs same next enough
  obtain ⟨fuel, rfl⟩ : ∃ n, fuel = n + 1 := ⟨fuel - 1, by simp [depth] at enough; omega⟩
  exact gives_anything same next fun _ => trivial

theorem extending (bounds : r.Readable .bounds fs) :
    r.Readable .arg (.mark '?' :: .word "extends" :: fs) := by
  intro fuel tokens gs same next enough
  simp only [List.length_cons, depth] at enough
  obtain ⟨fuel, rfl⟩ : ∃ n, fuel = n + 1 := ⟨fuel - 1, by omega⟩
  refine gives_extending (R := fun _ => True) same ?_ fun _ _ _ => trivial
  intro rest bounded
  exact bounds bounded next (by simp only [depth]; omega)

theorem above (type : r.Readable .type fs) :
    r.Readable .arg (.mark '?' :: .word "super" :: fs) := by
  intro fuel tokens gs same next enough
  simp only [List.length_cons, depth] at enough
  obtain ⟨fuel, rfl⟩ : ∃ n, fuel = n + 1 := ⟨fuel - 1, by omega⟩
  refine ReadsBack.above (P := fun _ => True) same ?_ next fun _ _ _ => trivial
  intro rest bounded
  exact type bounded (next.mono (by decide)) (by simp only [depth]; omega)

theorem type (derives : Derives r.vocabulary trailing .type fs) (type : r.Readable .type fs) :
    r.Readable .arg fs := by
  intro fuel tokens gs same next enough
  obtain ⟨w, hs, rfl⟩ := derives.type_eq_cons
  simp only [List.length_cons, depth] at enough
  obtain ⟨fuel, rfl⟩ : ∃ n, fuel = n + 1 := ⟨fuel - 1, by omega⟩
  have back := type same (next.mono (by decide))
    (show _ ≤ fuel + 2 by simp only [List.length_cons, depth]; omega)
  refine ReadsBack.arg back next ?_ fun _ _ _ => trivial
  rw [same]
  simp

/-! ## Bounds -/

theorem lastBound (type : r.Readable .type fs) : r.Readable .bounds fs := by
  intro fuel tokens gs same next enough
  simp only [depth] at enough
  obtain ⟨fuel, rfl⟩ : ∃ n, fuel = n + 1 := ⟨fuel - 1, by omega⟩
  have back := type same (next.mono (by decide)) (show _ ≤ fuel + 2 by simp only [depth]; omega)
  exact ReadsBack.lastBound back next fun _ _ => trivial

theorem moreBounds (type : r.Readable .type fs) (later : r.Readable .bounds gs) :
    r.Readable .bounds (fs ++ .mark '&' :: gs) := by
  intro fuel tokens hs same next enough
  simp only [List.append_assoc, List.cons_append, List.length_append, List.length_cons, depth]
    at same enough
  obtain ⟨fuel, rfl⟩ : ∃ n, fuel = n + 1 := ⟨fuel - 1, by omega⟩
  have back := type same ⟨.mark '&', by decide, rfl⟩ (show _ ≤ fuel + 2 by simp only [depth]; omega)
  refine ReadsBack.bound (T := fun _ => True) back ?_ fun _ _ _ _ => trivial
  intro rest bounded
  exact later bounded next (by simp only [depth]; omega)

/-! ## Declared parameters -/

theorem unbounded (w : String) : r.Readable .param [.word w] := by
  intro fuel tokens gs same next enough
  exact gives_unbounded same next fun _ => trivial

theorem bounded (w : String) (bounds : r.Readable .bounds fs) :
    r.Readable .param (.word w :: .word "extends" :: fs) := by
  intro fuel tokens gs same next enough
  simp only [List.length_cons, depth] at enough
  refine gives_bounded (P := fun _ => True) same ?_ fun _ _ _ => trivial
  intro rest bounded
  exact bounds bounded (next.mono (by decide)) (by simp only [depth]; omega)

end Readable

end Reader

/-- From tokens that a symbol stands for it is read. -/
theorem Grammar.Derives.reads {r : Reader} {trailing : Prop} {symbol : Symbol} {fs : List Form}
    (derives : Derives r.vocabulary trailing symbol fs) : r.Readable symbol fs := by
  induction derives with
  | param names isParam => exact .param names isParam
  | bare names hidden declared => exact .bare names hidden declared
  | applied names hidden declared _ fits args => exact .applied names hidden declared args fits
  | array _ elem => exact elem.array
  | noArgs => exact .noArgs
  | lastArg derives arg => exact .lastArg derives arg
  | moreArgs derives _ _ arg later => exact .moreArgs derives arg later
  | anything => exact .anything
  | extending _ bounds => exact bounds.extending
  | above _ type => exact type.above
  | type derives type => exact .type derives type
  | lastBound _ type => exact type.lastBound
  | moreBounds _ _ type later => exact type.moreBounds later
  | unbounded w => exact .unbounded w
  | bounded w _ bounds => exact .bounded w bounds

end NominalGenerics
