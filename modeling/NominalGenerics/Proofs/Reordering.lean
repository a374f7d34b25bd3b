import Mathlib.Data.List.Sort
import NominalGenerics.Proofs.Intact
import NominalGenerics.Proofs.Rereading

/-!
# The order of declarations does not matter

The types of a model may be listed in any order. Every pass over them reads its texts in a library
where names, forms and numbers of parameters are those of the end, and only the identities of new
declarations depend on the order. So what one order reads any other order reads too, up to the
identities (`Library.Follows`), and the libraries that two orders make are the same up to the
identities of what they add (`Library.Relocation`).
-/

namespace NominalGenerics

/-! ## Outlines of declarations and signatures -/

/-- A declaration without its sites, other declarations called as `ρ` says. -/
def Decl.outline (ρ : DeclId → DeclId) (c : Decl) : Decl where
  form := c.form
  pending := c.pending
  params := Slot.outlines ρ c.params
  super := c.super.map (Ty.outline ρ)
  interfaces := Ty.outlines ρ c.interfaces
  standsFor := c.standsFor.map (Ty.outline ρ)

def Signature.outline (ρ : DeclId → DeclId) (m : Signature) : Signature where
  name := m.name
  owner := m.owner.map (Ty.outline ρ)
  typeParams := Slot.outlines ρ m.typeParams
  params := m.params.map (Option.map (Ty.outline ρ))
  returns := m.returns.map (Ty.outline ρ)

section Congr

variable {ρ σ : DeclId → DeclId}

theorem Ty.map_outline_congr {t : Option Ty} (agree : AgreeOn ρ σ (Ty.usesAll t.toList)) :
    t.map (Ty.outline ρ) = t.map (Ty.outline σ) := by
  cases t with
  | none => rfl
  | some t =>
    have inside : AgreeOn ρ σ t.uses := fun u member =>
      agree u (Ty.mem_usesAll.mpr ⟨t, List.mem_singleton_self t, member⟩)
    simp only [Option.map_some, Ty.outline_congr inside]

theorem Decl.outline_congr {c : Decl} (agree : AgreeOn ρ σ c.uses) : c.outline ρ = c.outline σ := by
  have rest := agree.left
  simp only [Decl.outline, Slot.outlines_congr rest.left.left, Ty.map_outline_congr rest.left.right,
    Ty.outlines_congr rest.right, Ty.map_outline_congr agree.right]

theorem Signature.outline_congr {m : Signature} (agree : AgreeOn ρ σ m.uses) :
    m.outline ρ = m.outline σ := by
  have rest := agree.left
  have params : m.params.map (Option.map (Ty.outline ρ)) =
      m.params.map (Option.map (Ty.outline σ)) := by
    apply List.map_congr_left
    intro t member
    apply Ty.map_outline_congr
    intro u inside
    obtain ⟨p, within, inside⟩ := Ty.mem_usesAll.mp inside
    exact rest.right u (Ty.mem_usesAll.mpr ⟨p, List.mem_flatMap.mpr ⟨t, member, within⟩, inside⟩)
  simp only [Signature.outline, Ty.map_outline_congr rest.left.left,
    Slot.outlines_congr rest.left.right, params, Ty.map_outline_congr agree.right]

end Congr

/-! ## Reading a declaration in another library -/

/-- A class type read with one registry, and the same type up to sites and identities. -/
def Ty.Kin (ρ : DeclId → DeclId) (r : Registry) (t t' : Ty) : Prop :=
  t'.outline id = t.outline ρ ∧ ∃ n d, r.lookup? n = some d ∧ t.head? = some d

theorem Ty.Kin.head {ρ : DeclId → DeclId} {r : Registry} {t t' : Ty} (kin : t.Kin ρ r t') :
    ∃ n d, r.lookup? n = some d ∧ t.head? = some d ∧ t'.head? = some (ρ d) := by
  obtain ⟨same, n, d, named, head⟩ := kin
  refine ⟨n, d, named, head, ?_⟩
  have heads := congrArg Ty.head? same
  rwa [Ty.head?_outline, Ty.head?_outline, Option.map_id, head] at heads

theorem Ty.isClass_of_outline {ρ : DeclId → DeclId} {t t' : Ty}
    (same : t'.outline id = t.outline ρ) :
    (t'.isParam || t'.isArray) = (t.isParam || t.isArray) := by
  cases t <;> cases t' <;> simp [Ty.outline] at same <;> rfl

/-- Whatever class type a reader reads, it found under a name. -/
theorem Reader.named_of_parseType {r : Reader} {text : String} {t : Ty} {d : DeclId}
    (proper : r.scope.Proper) (ok : r.parseType text = .ok t) (head : t.head? = some d) :
    ∃ n, r.registry.lookup? n = some d := by
  have informed : r.Informed (r.hierarchy.arity r.registry.names.values) := by
    refine ⟨?_, proper⟩
    intro n d named
    exact if_pos (NameMap.mem_values_iff.mpr ⟨n, named⟩)
  obtain ⟨k, known⟩ := (parseType_formed informed ok).head head
  unfold Hierarchy.arity at known
  split at known
  · rename_i listed
    exact NameMap.mem_values_iff.mp listed
  · cases known

namespace Library

/-- `l'` knows what `l` knows: what `l` calls `d` is called `ρ d` in `l'`, under the same name, with
as many parameters and of the same form. -/
structure Follows (ρ : DeclId → DeclId) (l l' : Library) : Prop where
  lookup : ∀ n d, l.registry.lookup? n = some d → l'.registry.lookup? n = some (ρ d)
  arity : ∀ n d, l.registry.lookup? n = some d →
    (l'.hierarchy.params (ρ d)).length = (l.hierarchy.params d).length
  form : ∀ n d, l.registry.lookup? n = some d →
    (l'.hierarchy.content (ρ d)).form = (l.hierarchy.content d).form

section Follows

variable {ρ : DeclId → DeclId} {l l' v v' : Library} {scope scope' : Scope}

theorem Follows.of_view (follows : Follows ρ l l') (view : SameView l v) (view' : SameView l' v') :
    Follows ρ v v' := by
  refine ⟨?_, ?_, ?_⟩
  · intro n d named
    rw [view.lookup?] at named
    rw [view'.lookup?]
    exact follows.lookup n d named
  · intro n d named
    rw [view.lookup?] at named
    rw [view'.length, view.length]
    exact follows.arity n d named
  · intro n d named
    rw [view.lookup?] at named
    rw [view'.form, view.form]
    exact follows.form n d named

theorem Follows.reader (follows : Follows ρ l l') (alike : scope.Alike ρ scope') :
    (l.reader scope).Follows ρ (l'.reader scope') :=
  ⟨alike, follows.lookup, follows.arity⟩

theorem Follows.isInterface (follows : Follows ρ l l') {t t' : Ty} (kin : t.Kin ρ l.registry t') :
    l'.hierarchy.isInterface t' = l.hierarchy.isInterface t := by
  obtain ⟨n, d, named, head, head'⟩ := kin.head
  rw [Hierarchy.isInterface_of_head head, Hierarchy.isInterface_of_head head',
    follows.form n d named]

/-- Parameters read in libraries that cannot be told from two that follow each other. -/
theorem Follows.params (follows : Follows ρ l l') {texts : List String} {ps ps' : List Slot}
    (read : ∃ v, SameView l v ∧ (v.reader .empty).parseParams texts = .ok (ps, scope))
    (read' : ∃ v, SameView l' v ∧ (v.reader .empty).parseParams texts = .ok (ps', scope')) :
    Slot.outlines id ps' = Slot.outlines ρ ps ∧ scope.Alike ρ scope' := by
  obtain ⟨v, view, read⟩ := read
  obtain ⟨v', view', read'⟩ := read'
  obtain ⟨qs, other, again, same, alike⟩ :=
    ((follows.of_view view view').reader (Scope.alike_empty ρ)).parseParams read
  cases read'.symm.trans again
  exact ⟨same, alike⟩

theorem parseSupertypes_follows {r r' : Reader} (follows : r.Follows ρ r')
    (proper : r.scope.Proper) {texts : List String} {ts : List Ty}
    (ok : parseSupertypes r texts = .ok ts) :
    ∃ ts', parseSupertypes r' texts = .ok ts' ∧ List.Forall₂ (Ty.Kin ρ r.registry) ts ts' := by
  induction texts generalizing r r' ts with
  | nil =>
    cases ok
    exact ⟨[], rfl, .nil⟩
  | cons text texts ih =>
    obtain ⟨t, parsed, ok⟩ := bind_eq_ok.mp ok
    have read := mapError_eq_ok.mp parsed
    obtain ⟨t', read', same⟩ := follows.parseType read
    dsimp only at ok
    split at ok
    · cases ok
    · rename_i isClass
      obtain ⟨rest, later, ok⟩ := bind_eq_ok.mp ok
      cases ok
      obtain ⟨rest', later', kin⟩ := ih (follows.moved (r.source + 1) (r'.source + 1)) proper later
      have head : ∃ d, t.head? = some d := by
        cases t with
        | param | array => exact absurd rfl isClass
        | decl d | bare _ d | app _ d _ => exact ⟨d, rfl⟩
      obtain ⟨d, head⟩ := head
      obtain ⟨n, named⟩ := Reader.named_of_parseType proper read head
      refine ⟨t' :: rest', ?_, .cons ⟨same, n, d, named, head⟩ kin⟩
      refine bind_eq_ok.mpr ⟨t', mapError_eq_ok.mpr read', ?_⟩
      dsimp only
      rw [Ty.isClass_of_outline same, if_neg isClass]
      exact bind_eq_ok.mpr ⟨rest', later', rfl⟩

theorem find?_eq_none_of_forall₂ {h h' : Hierarchy} {R : Ty → Ty → Prop}
    (keeps : ∀ t t', R t t' → h'.isInterface t' = h.isInterface t) {ts ts' : List Ty}
    (all : List.Forall₂ R ts ts') (none : (ts.find? fun t => !h.isInterface t) = none) :
    (ts'.find? fun t => !h'.isInterface t) = .none := by
  induction all with
  | nil => rfl
  | cons first _ ih =>
    rw [List.find?_cons] at none ⊢
    rw [keeps _ _ first]
    split at none
    · cases none
    · exact ih none

/-- Supertypes that pass the check still pass it when interfaces stay interfaces. -/
theorem checkSupertypes_follows {h h' : Hierarchy} {R : Ty → Ty → Prop}
    (keeps : ∀ t t', R t t' → h'.isInterface t' = h.isInterface t) {isInterface : Bool}
    {extended extended' implemented implemented' interfaces : List Ty} {super : Option Ty}
    (extends' : List.Forall₂ R extended extended')
    (implements' : List.Forall₂ R implemented implemented')
    (ok : checkSupertypes h isInterface extended implemented = .ok (super, interfaces)) :
    ∃ super' interfaces',
      checkSupertypes h' isInterface extended' implemented' = .ok (super', interfaces') ∧
        List.Forall₂ R super.toList super'.toList ∧ List.Forall₂ R interfaces interfaces' := by
  have passes : ∀ {ts ts' : List Ty}, List.Forall₂ R ts ts' →
      (ts.find? fun t => !h.isInterface t) = none →
        (ts'.find? fun t => !h'.isInterface t) = none :=
    fun all none => find?_eq_none_of_forall₂ keeps all none
  unfold checkSupertypes at ok ⊢
  cases isInterface with
  | true =>
    simp only [if_true] at ok ⊢
    cases implements' with
    | cons => simp at ok
    | nil =>
      simp only [List.isEmpty_nil, Bool.not_true, Bool.false_eq_true, if_false] at ok ⊢
      split at ok
      · cases ok
      · rename_i passed
        cases ok
        rw [passes extends' passed]
        exact ⟨none, extended', rfl, .nil, extends'⟩
  | false =>
    simp only [Bool.false_eq_true, if_false] at ok ⊢
    cases extends' with
    | nil =>
      split at ok
      · contradiction
      · contradiction
      · cases ok
      · rename_i passed
        cases ok
        rw [passes implements' passed]
        exact ⟨none, implemented', rfl, .nil, implements'⟩
    | cons first rest =>
      cases rest with
      | cons => cases ok
      | nil =>
        -- a class extends one type at most, and that it is no interface carries over
        dsimp only at ok ⊢
        rw [keeps _ _ first]
        split at ok
        · cases ok
        · rename_i isClass
          rw [if_neg isClass]
          split at ok
          · cases ok
          · rename_i passed
            cases ok
            rw [passes implements' passed]
            exact ⟨_, implemented', rfl, .cons first .nil, implements'⟩

theorem Follows.supertypesOf (follows : Follows ρ l l') (alike : scope.Alike ρ scope')
    (proper : scope.Proper) {type : TypeDecl} {d : DeclId} (d' : DeclId) {super : Option Ty}
    {interfaces : List Ty} (ok : l.supertypesOf ⟨type, d, scope⟩ = .ok (super, interfaces)) :
    ∃ super' interfaces', l'.supertypesOf ⟨type, d', scope'⟩ = .ok (super', interfaces') ∧
      List.Forall₂ (Ty.Kin ρ l.registry) super.toList super'.toList ∧
      List.Forall₂ (Ty.Kin ρ l.registry) interfaces interfaces' := by
  obtain ⟨extended, first, ok⟩ := bind_eq_ok.mp ok
  obtain ⟨implemented, second, ok⟩ := bind_eq_ok.mp ok
  have reads := follows.reader alike
  obtain ⟨extended', first', kinExtended⟩ := parseSupertypes_follows reads proper first
  obtain ⟨implemented', second', kinImplemented⟩ := parseSupertypes_follows
    (reads.moved _ (l'.hierarchy.sources + type.extended.length)) proper second
  obtain ⟨super', interfaces', checked, kin⟩ := checkSupertypes_follows
    (fun _ _ kin => follows.isInterface kin) kinExtended kinImplemented ok
  exact ⟨super', interfaces',
    bind_eq_ok.mpr ⟨_, first', bind_eq_ok.mpr ⟨_, second', checked⟩⟩, kin⟩

theorem parseTypes_follows {r r' : Reader} (follows : r.Follows ρ r') {texts : List String}
    {ts : List Ty} (ok : parseTypes r texts = .ok ts) :
    ∃ ts', parseTypes r' texts = .ok ts' ∧ ts'.map (Ty.outline id) = ts.map (Ty.outline ρ) := by
  induction texts generalizing r r' ts with
  | nil =>
    cases ok
    exact ⟨[], rfl, rfl⟩
  | cons text texts ih =>
    obtain ⟨t, parsed, ok⟩ := bind_eq_ok.mp ok
    obtain ⟨rest, later, ok⟩ := bind_eq_ok.mp ok
    cases ok
    obtain ⟨t', parsed', same⟩ := follows.parseType parsed
    obtain ⟨rest', later', sameRest⟩ := ih (follows.moved (r.source + 1) (r'.source + 1)) later
    refine ⟨t' :: rest', bind_eq_ok.mpr ⟨t', parsed', bind_eq_ok.mpr ⟨rest', later', rfl⟩⟩, ?_⟩
    rw [List.map_cons, List.map_cons, same, sameRest]

theorem parseSignature_follows {r r' : Reader} (follows : r.Follows ρ r') {d : DeclId}
    {m : MethodDecl} {signature : Signature} (ok : parseSignature r d m = .ok signature) :
    ∃ signature', parseSignature r' (ρ d) m = .ok signature' ∧
      signature'.outline id = signature.outline ρ := by
  obtain ⟨⟨typeParams, scope⟩, opened, ok⟩ := bind_eq_ok.mp ok
  obtain ⟨params, read, ok⟩ := bind_eq_ok.mp ok
  obtain ⟨typeParams', scope', opened', sameTypes, alike⟩ := follows.parseParams opened
  have inner := follows.scoped alike (r.source + Reader.paramSources m.typeParams)
    (r'.source + Reader.paramSources m.typeParams)
  obtain ⟨params', read', sameParams⟩ := parseTypes_follows inner read
  have sameOptions : (params'.map some).map (Option.map (Ty.outline id)) =
      (params.map some).map (Option.map (Ty.outline ρ)) := by
    have options := congrArg (List.map some) sameParams
    simpa using options
  dsimp only at ok
  split at ok
  · rename_i nothing
    cases ok
    refine ⟨_, bind_eq_ok.mpr ⟨_, opened', bind_eq_ok.mpr ⟨_, read', if_pos nothing⟩⟩, ?_⟩
    simp only [Signature.outline, sameTypes, sameOptions, Option.map_some, Option.map_none,
      Ty.outline, id_eq]
  · rename_i something
    obtain ⟨returns, answer, ok⟩ := bind_eq_ok.mp ok
    obtain ⟨t, parsed, answer⟩ := bind_eq_ok.mp answer
    cases answer
    cases ok
    obtain ⟨t', parsed', same⟩ := (inner.moved _ _).parseType parsed
    refine ⟨_, bind_eq_ok.mpr ⟨_, opened', bind_eq_ok.mpr ⟨_, read',
      (if_neg something).trans (bind_eq_ok.mpr ⟨_, bind_eq_ok.mpr ⟨t', parsed', rfl⟩, rfl⟩)⟩⟩, ?_⟩
    simp only [Signature.outline, sameTypes, sameOptions, same, Option.map_some, Ty.outline, id_eq]

end Follows

/-! ## Two orders of one model -/

/-- The declaration that `m` has in place of one that was added to `l`. -/
def renumber (l m : Library) (d : DeclId) : DeclId :=
  if d.index < l.hierarchy.decls.size then d else (m.registry.lookup? d.name).getD d

theorem renumber_old {l : Library} (m : Library) {d : DeclId}
    (old : d.index < l.hierarchy.decls.size) : renumber l m d = d := if_pos old

/-- Libraries that two orders of the same types make of `l`. -/
structure Rearranged (l m m' : Library) (entries entries' : List Entry) : Prop where
  intact : l.Intact
  left : Arranged l m entries
  right : Arranged l m' entries'
  perm : (entries.map Prod.fst).Perm (entries'.map Prod.fst)

section Rearranged

variable {l m m' : Library} {entries entries' : List Entry} {e e' : Entry}

theorem Rearranged.symm (both : Rearranged l m m' entries entries') :
    Rearranged l m' m entries' entries :=
  ⟨both.intact, both.right, both.left, both.perm.symm⟩

/-- Each type has a declaration on either side. -/
theorem Rearranged.mate (both : Rearranged l m m' entries entries') (member : e ∈ entries) :
    ∃ e' ∈ entries', e'.1 = e.1 :=
  List.mem_map.mp (both.perm.mem_iff.mp (List.mem_map.mpr ⟨e, member, rfl⟩))

theorem Rearranged.renumber (both : Rearranged l m m' entries entries') (member : e ∈ entries)
    (member' : e' ∈ entries') (same : e'.1 = e.1) : renumber l m' e.2 = e'.2 := by
  have new := (both.left.mem_range member).1
  unfold Library.renumber
  rw [if_neg (by omega), (both.left.named e member).2, ← same, both.right.registered e' member']
  rfl

/-- What is known by name was known before or is new. -/
theorem Rearranged.known (both : Rearranged l m m' entries entries') {n : String} {d : DeclId}
    (named : m.registry.lookup? n = some d) :
    (l.registry.lookup? n = some d ∧ d.index < l.hierarchy.decls.size) ∨
      ∃ e ∈ entries, e.2 = d ∧ e.1.name = n := by
  rcases both.left.names n d named with before | new
  · exact .inl ⟨before, both.intact d (.named before)⟩
  · exact .inr new

theorem Rearranged.follows (both : Rearranged l m m' entries entries') :
    Follows (Library.renumber l m') m m' := by
  refine ⟨?_, ?_, ?_⟩
  · intro n d named
    rcases both.known named with ⟨before, old⟩ | ⟨e, member, rfl, rfl⟩
    · rw [renumber_old m' old]
      exact both.right.kept n d before
    · obtain ⟨e', member', same⟩ := both.mate member
      rw [both.renumber member member' same, ← same]
      exact both.right.registered e' member'
  · intro n d named
    rcases both.known named with ⟨-, old⟩ | ⟨e, member, rfl, rfl⟩
    · unfold Hierarchy.params
      rw [renumber_old m' old, both.left.old d old, both.right.old d old]
    · obtain ⟨e', member', same⟩ := both.mate member
      rw [both.renumber member member' same, both.left.count e member,
        both.right.count e' member', same]
  · intro n d named
    rcases both.known named with ⟨-, old⟩ | ⟨e, member, rfl, rfl⟩
    · rw [renumber_old m' old, both.left.old d old, both.right.old d old]
    · obtain ⟨e', member', same⟩ := both.mate member
      rw [both.renumber member member' same, both.left.form e member,
        both.right.form e' member', same]

/-! ## What two orders read -/

theorem proper_of_parseParams {v : Library} {texts : List String} {ps : List Slot} {scope : Scope}
    (ok : (v.reader .empty).parseParams texts = .ok (ps, scope)) : scope.Proper := by
  have informed : (v.reader .empty).Informed (fun d => some (v.hierarchy.params d).length) :=
    ⟨fun _ _ _ => rfl, proper_empty⟩
  obtain ⟨declared, -, rfl⟩ := Reader.parseParams_declared informed ok
  exact Reader.opened_proper proper_empty declared

theorem Rearranged.reads_params (both : Rearranged l m m' entries entries')
    (said : ∀ e ∈ entries, ∃ scope, Says m e scope) (member' : e' ∈ entries') {v : Library}
    (view : SameView m' v) : ∃ p, (v.reader .empty).parseParams e'.1.params = .ok p := by
  obtain ⟨e, member, same⟩ := both.symm.mate member'
  obtain ⟨scope, ⟨u, seen, read⟩, -⟩ := said e member
  obtain ⟨ps, opened, again, -⟩ :=
    ((both.follows.of_view seen view).reader (Scope.alike_empty _)).parseParams read
  exact ⟨(ps, opened), same ▸ again⟩

theorem Rearranged.supertypesOf (both : Rearranged l m m' entries entries')
    {scope scope' : Scope} (said : Says m e scope) (same : e'.1 = e.1)
    (opened : ∃ ps, ∃ v, SameView m' v ∧
      (v.reader .empty).parseParams e'.1.params = .ok (ps, scope'))
    {v : Library} (view : SameView m' v) :
    ∃ super interfaces, v.supertypesOf ⟨e'.1, e'.2, scope'⟩ = .ok (super, interfaces) ∧
      List.Forall₂ (Ty.Kin (Library.renumber l m') m.registry)
        (m.hierarchy.content e.2).super.toList super.toList ∧
      List.Forall₂ (Ty.Kin (Library.renumber l m') m.registry)
        (m.hierarchy.content e.2).interfaces interfaces := by
  obtain ⟨ps, opened⟩ := opened
  obtain ⟨read, ⟨u, seen, written⟩⟩ := said
  have alike := (both.follows.params read (same ▸ opened)).2
  obtain ⟨_, -, proper⟩ := read
  obtain ⟨super, interfaces, again, kinSuper, kinInterfaces⟩ :=
    (both.follows.of_view seen view).supertypesOf alike (proper_of_parseParams proper) e'.2 written
  -- the stage at which `e` was read knows the names that `m` knows
  have names : ∀ t t', Ty.Kin (Library.renumber l m') u.registry t t' →
      Ty.Kin (Library.renumber l m') m.registry t t' := by
    rintro t t' ⟨outline, n, d, named, head⟩
    exact ⟨outline, n, d, by rw [← seen.lookup?]; exact named, head⟩
  exact ⟨super, interfaces, same ▸ again, kinSuper.imp names, kinInterfaces.imp names⟩

/-- Declarations of one type say the same, up to sites and identities. -/
theorem Rearranged.supertypes (both : Rearranged l m m' entries entries')
    {scope scope' : Scope} (said : Says m e scope) (said' : Says m' e' scope')
    (same : e'.1 = e.1) :
    List.Forall₂ (Ty.Kin (Library.renumber l m') m.registry)
        (m.hierarchy.content e.2).super.toList (m'.hierarchy.content e'.2).super.toList ∧
      List.Forall₂ (Ty.Kin (Library.renumber l m') m.registry)
        (m.hierarchy.content e.2).interfaces (m'.hierarchy.content e'.2).interfaces := by
  obtain ⟨v, view, written⟩ := said'.supertypes
  obtain ⟨super, interfaces, again, kin⟩ :=
    both.supertypesOf said same ⟨_, said'.params⟩ view
  cases written.symm.trans again
  exact kin

/-! ## Going up in two orders -/

theorem Arranged.supertypes (arranged : Arranged l m entries) (object : 0 < l.hierarchy.decls.size)
    (member : e ∈ entries) : m.hierarchy.supertypes (.decl e.2) =
      (m.hierarchy.content e.2).super.getD .object :: (m.hierarchy.content e.2).interfaces := by
  have new : e.2 ≠ .object := by
    intro same
    have above := (arranged.mem_range member).1
    rw [same] at above
    exact absurd object (Nat.not_lt.mpr above)
  simp only [Hierarchy.supertypes, Hierarchy.superclass, Hierarchy.interfaces, if_neg new]
  rfl

/-- The declarations of a supertype on either side: one that was there before, or new ones of one
type. -/
theorem Rearranged.paired (both : Rearranged l m m' entries entries')
    (said : ∀ e ∈ entries, ∃ scope, Says m e scope)
    (said' : ∀ e ∈ entries', ∃ scope, Says m' e scope) (member : e ∈ entries)
    (member' : e' ∈ entries') (same : e'.1 = e.1) {s' : Ty}
    (above : s' ∈ m'.hierarchy.supertypes (.decl e'.2)) :
    ∃ s ∈ m.hierarchy.supertypes (.decl e.2),
      (∃ d, l.Live d ∧ s.head? = some d ∧ s'.head? = some d) ∨
      ∃ f ∈ entries, ∃ f' ∈ entries', f'.1 = f.1 ∧ s.head? = some f.2 ∧ s'.head? = some f'.2 := by
  obtain ⟨scope, says₁⟩ := said e member
  obtain ⟨scope', says₂⟩ := said' e' member'
  obtain ⟨supers, interfaces⟩ := both.supertypes says₁ says₂ same
  have heads : ∀ s, Ty.Kin (Library.renumber l m') m.registry s s' →
      (∃ d, l.Live d ∧ s.head? = some d ∧ s'.head? = some d) ∨
      ∃ f ∈ entries, ∃ f' ∈ entries', f'.1 = f.1 ∧ s.head? = some f.2 ∧ s'.head? = some f'.2 := by
    intro s kin
    obtain ⟨n, d, named, head, head'⟩ := kin.head
    rcases both.known named with ⟨before, old⟩ | ⟨f, new, rfl, -⟩
    · rw [renumber_old m' old] at head'
      exact .inl ⟨d, .named before, head, head'⟩
    · obtain ⟨f', new', type⟩ := both.mate new
      rw [both.renumber new new' type] at head'
      exact .inr ⟨f, new, f', new', type, head, head'⟩
  rw [both.right.supertypes (both.intact _ .object) member'] at above
  rw [both.left.supertypes (both.intact _ .object) member]
  rcases List.mem_cons.mp above with rfl | above
  · refine ⟨_, List.mem_cons_self, ?_⟩
    revert supers heads
    cases (m.hierarchy.content e.2).super <;> cases (m'.hierarchy.content e'.2).super <;>
      intro supers heads
    · exact .inl ⟨.object, .object, rfl, rfl⟩
    · cases supers
    · cases supers
    · cases supers with
      | cons first => exact heads _ first
  · obtain ⟨s, member, kin⟩ := mem_left_of_forall₂ interfaces above
    exact ⟨s, List.mem_cons_of_mem _ member, heads s kin⟩

/-- If going up from new declarations comes to an end in one order, so it does in another. -/
theorem Rearranged.rooted (both : Rearranged l m m' entries entries')
    (said : ∀ e ∈ entries, ∃ scope, Says m e scope)
    (said' : ∀ e ∈ entries', ∃ scope, Says m' e scope)
    (rooted : ∀ e ∈ entries, m.hierarchy.Rooted (.decl e.2)) :
    ∀ e' ∈ entries', m'.hierarchy.Rooted (.decl e'.2) := by
  have closed := both.intact.closed
  have up : ∀ t, m.hierarchy.Rooted t → ∀ e ∈ entries, t = .decl e.2 →
      ∀ e' ∈ entries', e'.1 = e.1 → m'.hierarchy.Rooted (.decl e'.2) := by
    intro t rooted
    induction rooted with
    | intro t below ih =>
      rintro e member rfl e' member' same
      constructor
      rintro b ⟨s', above', rfl⟩
      obtain ⟨s, above, ⟨d, here, head, head'⟩ | ⟨f, new, f', new', type, head, head'⟩⟩ :=
        both.paired said said' member member' same above'
      · -- an old declaration has above it what it had before, on both sides
        have old := both.intact d here
        have settled := closed.within_declaration (within_decl here)
        have left : m.hierarchy.declaration s = l.hierarchy.declaration (.decl d) := by
          rw [Hierarchy.declaration_of_head head, both.left.old d old]
          rfl
        have right : m'.hierarchy.declaration s' = l.hierarchy.declaration (.decl d) := by
          rw [Hierarchy.declaration_of_head head', both.right.old d old]
          rfl
        rw [right]
        apply (Hierarchy.rooted_of_grows both.right.grows closed settled).mpr
        apply (Hierarchy.rooted_of_grows both.left.grows closed settled).mp
        exact below _ ⟨s, above, left⟩
      · have left : m.hierarchy.declaration s = .decl f.2 := by
          rw [Hierarchy.declaration_of_head head, both.left.direct f new]
          rfl
        have right : m'.hierarchy.declaration s' = .decl f'.2 := by
          rw [Hierarchy.declaration_of_head head', both.right.direct f' new']
          rfl
        rw [right]
        exact ih _ ⟨s, above, left⟩ f new rfl f' new' type
  intro e' member'
  obtain ⟨e, member, same⟩ := both.symm.mate member'
  exact up _ (rooted e member) e member rfl e' member' same.symm

/-! ## Methods in two orders -/

theorem Rearranged.signs (both : Rearranged l m m' entries entries') {scope scope' : Scope}
    (alike : scope.Alike (Library.renumber l m') scope')
    (renumbered : Library.renumber l m' e.2 = e'.2)
    {ms : List MethodDecl} {signatures : List Signature} (signs : Signs m scope e.2 ms signatures)
    {method : MethodDecl} (member : method ∈ ms) :
    method.name ≠ "" ∧ ∀ v, SameView m' v →
      ∃ signature, parseSignature (v.reader scope') e'.2 method = .ok signature := by
  induction signs with
  | nil => cases member
  | cons first _ ih =>
    rcases List.mem_cons.mp member with rfl | member
    · obtain ⟨named, u, seen, read⟩ := first
      refine ⟨named, ?_⟩
      intro v view
      obtain ⟨signature, again, -⟩ :=
        parseSignature_follows ((both.follows.of_view seen view).reader alike) read
      exact ⟨signature, renumbered ▸ again⟩
    · exact ih member

theorem Rearranged.signatures (both : Rearranged l m m' entries entries') {scope scope' : Scope}
    (alike : scope.Alike (Library.renumber l m') scope')
    (renumbered : Library.renumber l m' e.2 = e'.2)
    {ms : List MethodDecl} {signatures signatures' : List Signature}
    (signs : Signs m scope e.2 ms signatures) (signs' : Signs m' scope' e'.2 ms signatures') :
    signatures'.map (Signature.outline id) =
      signatures.map (Signature.outline (Library.renumber l m')) := by
  induction signs generalizing signatures' with
  | nil =>
    cases signs'
    rfl
  | cons first _ ih =>
    rcases signs' with _ | ⟨first', rest'⟩
    obtain ⟨-, u, seen, read⟩ := first
    obtain ⟨-, v, view, read'⟩ := first'
    obtain ⟨signature, again, same⟩ :=
      parseSignature_follows ((both.follows.of_view seen view).reader alike) read
    rw [renumbered] at again
    cases read'.symm.trans again
    rw [List.map_cons, List.map_cons, same, ih rest']

end Rearranged

/-! ## Loading in two orders -/

section Passes

variable {l m l₂ l₃ l₄ : Library} {types types' : List TypeDecl} {entries entries' : List Entry}
  {scoped' : List Scoped}

theorem Builds.said (builds : Builds l m entries) : ∀ e ∈ entries, ∃ scope, Says m e scope := by
  intro e member
  obtain ⟨scope, written, -⟩ := builds.content e member
  exact ⟨scope, written⟩

/-- Types that were registered and counted in one order can be in any other. -/
theorem Builds.arrange (builds : Builds l m entries) (intact : l.Intact)
    (perm : (entries.map Prod.fst).Perm types') :
    ∃ l₁ entries' l₂, l.declareTypes 1 types' = .ok (l₁, entries') ∧
      l₁.countParams entries' = .ok l₂ ∧ Rearranged l m l₂ entries entries' := by
  have entry : ∀ t ∈ types', ∃ e ∈ entries, e.1 = t := by
    intro t member
    exact List.mem_map.mp (perm.mem_iff.mpr member)
  have named : ∀ t ∈ types', t.name ≠ "" ∧ l.registry.lookup? t.name = none := by
    intro t member
    obtain ⟨e, inside, rfl⟩ := entry t member
    exact ⟨(builds.named e inside).1, builds.fresh e inside⟩
  have nodup : (types'.map TypeDecl.name).Nodup := by
    apply (perm.map TypeDecl.name).nodup_iff.mp
    rw [List.map_map]
    exact builds.nodup
  obtain ⟨⟨l₁, entries'⟩, declared⟩ := declareTypes_ok 1 (fun t member => (named t member).1) nodup
    fun t member => (named t member).2
  have listed := (declareTypes_registers declared).1
  have counts : ∀ e' ∈ entries', ∀ text ∈ e'.1.params, ∃ n, Reader.paramName text = .ok n := by
    intro e' member'
    obtain ⟨e, member, same⟩ := entry e'.1 (listed ▸ List.mem_map.mpr ⟨e', member', rfl⟩)
    obtain ⟨scope, ⟨v, -, read⟩, -⟩ := builds.said e member
    exact paramName_of_parseParams (same ▸ read)
  obtain ⟨l₂, counted⟩ := countParams_ok counts
  obtain ⟨-, arranged, -⟩ := arranged_of_counted declared counted
  exact ⟨l₁, entries', l₂, declared, counted, intact, builds.toArranged, arranged,
    by rw [listed]; exact perm⟩

/-- Parameters and supertypes that were read in one order can be read in any other. -/
theorem Rearranged.read_ok (both : Rearranged l m l₂ entries entries')
    (said : ∀ e ∈ entries, ∃ scope, Says m e scope) :
    ∃ l₃ types l₄, l₂.readParams entries' = .ok (l₃, types) ∧
      l₃.readSupertypes types = .ok l₄ := by
  have arranged := both.right
  obtain ⟨⟨l₃, types⟩, read⟩ := readParams_ok arranged.count
    fun e' member' v view => both.reads_params said member' view
  obtain ⟨fills, -, listing, -, reads⟩ := readParams_reads
    (fun e member => (arranged.mem_range member).1) (fun e member => (arranged.mem_range member).2)
    arranged.nodup_index arranged.count read
  have each : ∀ s ∈ types, ∀ v, SameView l₃ v → ∃ p, v.supertypesOf s = .ok p := by
    intro s member v view
    have inside : (s.type, s.id) ∈ entries' := listing ▸ List.mem_map.mpr ⟨s, member, rfl⟩
    obtain ⟨e, inside, same⟩ := both.symm.mate inside
    obtain ⟨scope, written⟩ := said e inside
    obtain ⟨super, interfaces, again, -⟩ := both.supertypesOf written same.symm
      ⟨_, reads s member⟩ (fills.toSameView.trans view)
    exact ⟨(super, interfaces), again⟩
  obtain ⟨l₄, extended⟩ := readSupertypes_ok each
  exact ⟨l₃, types, l₄, read, extended⟩

/-- Methods that were read in one order can be read in any other. -/
theorem Rearranged.methods_ok (both : Rearranged l m l₄ entries entries')
    (builds : Builds l m entries)
    (listing : scoped'.map (fun s => (s.type, s.id)) = entries')
    (written : ∀ s ∈ scoped', Says l₄ (s.type, s.id) s.scope) :
    ∃ m', l₄.readMethods scoped' = .ok m' := by
  have inside : ∀ s ∈ scoped', (s.type, s.id) ∈ entries' := fun s member =>
    listing ▸ List.mem_map.mpr ⟨s, member, rfl⟩
  apply readMethods_ok
  · intro s member
    rw [(both.right.named _ (inside s member)).2, both.right.registered _ (inside s member)]
    rfl
  · intro s member method inMethods
    obtain ⟨e, within, same⟩ := both.symm.mate (inside s member)
    obtain ⟨scope, said, signatures, signs, -⟩ := builds.content e within
    have params := (written s member).params
    have alike := (both.follows.params said.params (same ▸ params)).2
    exact both.signs alike (both.renumber within (inside s member) same.symm) signs
      (same ▸ inMethods)

/-- A model that can be loaded can be loaded in any order. -/
theorem load_ok_of_perm (intact : l.Intact) (perm : types.Perm types')
    (ok : l.load ⟨types⟩ = .ok m) : ∃ m', l.load ⟨types'⟩ = .ok m' := by
  obtain ⟨entries, listed, builds⟩ := load_builds ok
  dsimp only at listed
  obtain ⟨l₁, entries', l₂, declared, counted, both⟩ := builds.arrange intact (listed ▸ perm)
  obtain ⟨l₃, types₃, l₄, read, extended⟩ := both.read_ok builds.said
  obtain ⟨fills, -, listing, written⟩ := says_of_read both.right read extended
  have arranged := both.right.fills fills
  have final : Rearranged l m l₄ entries entries' := ⟨intact, both.left, arranged, both.perm⟩
  have said : ∀ e' ∈ entries', ∃ scope, Says l₄ e' scope := by
    intro e' member'
    rw [← listing] at member'
    obtain ⟨s, member, rfl⟩ := List.mem_map.mp member'
    exact ⟨s.scope, written s member⟩
  have short : (entries'.map Prod.snd).length ≤ l₄.hierarchy.decls.size := by
    rw [List.length_map, arranged.size]
    exact Nat.le_add_left _ _
  have checked : checkAcyclic l₄.hierarchy (entries'.map Prod.snd) = .ok () := by
    apply (checkAcyclic_iff short).mpr
    intro d member
    obtain ⟨e', member', rfl⟩ := List.mem_map.mp member
    exact final.rooted builds.said said builds.rooted e' member'
  obtain ⟨m', finished⟩ := final.methods_ok builds listing written
  exact ⟨m', bind_eq_ok.mpr ⟨_, declared, bind_eq_ok.mpr ⟨_, counted, bind_eq_ok.mpr ⟨_, read,
    bind_eq_ok.mpr ⟨_, extended, bind_eq_ok.mpr ⟨_, checked, finished⟩⟩⟩⟩⟩⟩

end Passes

/-! ## What two orders make -/

/-- `m'` is `m` with other identities for what was added to `l`: the same names, and under each name
the same declaration and the same methods, up to those identities and the sites of texts. -/
structure Relocation (l : Library) (ρ : DeclId → DeclId) (m m' : Library) : Prop where
  old : ∀ d, d.index < l.hierarchy.decls.size → ρ d = d
  named : ∀ n d, m.registry.lookup? n = some d → (ρ d).name = d.name
  injective : ∀ n k d e, m.registry.lookup? n = some d → m.registry.lookup? k = some e →
    ρ d = ρ e → d = e
  names : m'.registry.names.keys = m.registry.names.keys
  lookup : ∀ n, m'.registry.lookup? n = (m.registry.lookup? n).map ρ
  content : ∀ n d, m.registry.lookup? n = some d →
    (m'.hierarchy.content (ρ d)).outline id = (m.hierarchy.content d).outline ρ
  methods : ∀ n, (m'.registry.methodsOf n).map (Signature.outline id) =
    (m.registry.methodsOf n).map (Signature.outline ρ)

section Relocation

variable {l m m' : Library} {entries entries' : List Entry}

theorem map_outline_of_kin {ρ : DeclId → DeclId} {r : Registry} {t t' : Option Ty}
    (kin : List.Forall₂ (Ty.Kin ρ r) t.toList t'.toList) :
    t'.map (Ty.outline id) = t.map (Ty.outline ρ) := by
  cases t <;> cases t' <;> rcases kin with _ | ⟨⟨same, -⟩, -⟩
  · rfl
  · exact congrArg some same

theorem outlines_of_kin {ρ : DeclId → DeclId} {r : Registry} {ts ts' : List Ty}
    (kin : List.Forall₂ (Ty.Kin ρ r) ts ts') : Ty.outlines id ts' = Ty.outlines ρ ts := by
  induction kin with
  | nil => rfl
  | cons first _ ih => rw [Ty.outlines, Ty.outlines, first.1, ih]

/-- New identities do not show in what was made before. -/
theorem agreeOn_renumber (intact : l.Intact) {uses : List Ty} (within : Within l.Live uses) :
    AgreeOn id (renumber l m') uses :=
  fun u member d head => (renumber_old m' (intact d (within u member d head))).symm

theorem Rearranged.outline_content (both : Rearranged l m m' entries entries') {e e' : Entry}
    (member : e ∈ entries) (member' : e' ∈ entries') (same : e'.1 = e.1) {scope scope' : Scope}
    (said : Says m e scope) (said' : Says m' e' scope') :
    (m'.hierarchy.content e'.2).outline id =
      (m.hierarchy.content e.2).outline (Library.renumber l m') := by
  obtain ⟨supers, interfaces⟩ := both.supertypes said said' same
  have params := (both.follows.params said.params (same ▸ said'.params)).1
  unfold Hierarchy.params at params
  simp only [Decl.outline, both.left.form e member, both.right.form e' member',
    both.left.pending e member, both.right.pending e' member', both.left.direct e member,
    both.right.direct e' member', same, params, map_outline_of_kin supers,
    outlines_of_kin interfaces, Option.map_none]

theorem Rearranged.outline_methods (both : Rearranged l m m' entries entries')
    (builds : Builds l m entries) (builds' : Builds l m' entries') (n : String) :
    (m'.registry.methodsOf n).map (Signature.outline id) =
      (m.registry.methodsOf n).map (Signature.outline (Library.renumber l m')) := by
  have old : (l.registry.methodsOf n).map (Signature.outline id) =
      (l.registry.methodsOf n).map (Signature.outline (Library.renumber l m')) := by
    apply List.map_congr_left
    intro signature listed
    exact Signature.outline_congr (agreeOn_renumber both.intact
      fun u member d head => .method listed member head)
  by_cases new : n ∈ entries.map (·.1.name)
  · obtain ⟨e, member, rfl⟩ := List.mem_map.mp new
    obtain ⟨e', member', same⟩ := both.mate member
    obtain ⟨scope, said, signatures, signs, listed⟩ := builds.content e member
    obtain ⟨scope', said', signatures', signs', listed'⟩ := builds'.content e' member'
    have alike := (both.follows.params said.params (same ▸ said'.params)).2
    rw [same] at listed' signs'
    rw [listed, listed', List.map_append, List.map_append, old,
      both.signatures alike (both.renumber member member' same) signs signs']
  · have absent : n ∉ entries'.map (·.1.name) := by
      intro present
      obtain ⟨e', member', rfl⟩ := List.mem_map.mp present
      obtain ⟨e, member, same⟩ := both.symm.mate member'
      exact new (List.mem_map.mpr ⟨e, member, congrArg TypeDecl.name same⟩)
    rw [builds.others n new, builds'.others n absent, old]

theorem Rearranged.lookup (both : Rearranged l m m' entries entries') (n : String) :
    m'.registry.lookup? n = (m.registry.lookup? n).map (Library.renumber l m') := by
  rcases named : m.registry.lookup? n with _ | d
  · rcases named' : m'.registry.lookup? n with _ | d'
    · rfl
    · have back := both.symm.follows.lookup n d' named'
      rw [named] at back
      cases back
  · exact both.follows.lookup n d named

/-- Loading in two orders gives one library up to the identities of what was added. -/
theorem Rearranged.relocation (both : Rearranged l m m' entries entries')
    (builds : Builds l m entries) (builds' : Builds l m' entries') :
    Relocation l (Library.renumber l m') m m' where
  old d before := renumber_old m' before
  named n d named := by
    rcases both.known named with ⟨-, old⟩ | ⟨e, member, rfl, -⟩
    · rw [renumber_old m' old]
    · obtain ⟨e', member', same⟩ := both.mate member
      rw [both.renumber member member' same, (both.right.named e' member').2,
        (both.left.named e member).2, same]
  injective n k d e named named' same := by
    -- going back undoes it
    have back : ∀ n d, m.registry.lookup? n = some d →
        Library.renumber l m (Library.renumber l m' d) = d := by
      intro n d named
      have there := both.symm.follows.lookup n _ (both.follows.lookup n d named)
      rw [named] at there
      exact (Option.some.inj there).symm
    rw [← back n d named, ← back k e named', same]
  names := by
    apply List.Pairwise.eq_of_mem_iff m'.registry.names.sorted m.registry.names.sorted
    intro n
    have absent := congrArg (· = none) (both.lookup n)
    simp only [Option.map_eq_none_iff, eq_iff_iff] at absent
    have keys := (NameMap.get?_eq_none_iff.symm.trans absent).trans NameMap.get?_eq_none_iff
    exact not_iff_not.mp keys
  lookup := both.lookup
  content n d named := by
    rcases both.known named with ⟨before, old⟩ | ⟨e, member, rfl, -⟩
    · rw [renumber_old m' old, both.left.old d old, both.right.old d old]
      exact Decl.outline_congr
        (agreeOn_renumber both.intact (both.intact.closed.contents d (.named before)))
    · obtain ⟨e', member', same⟩ := both.mate member
      obtain ⟨scope, said⟩ := builds.said e member
      obtain ⟨scope', said'⟩ := builds'.said e' member'
      rw [both.renumber member member' same]
      exact both.outline_content member member' same said said'
  methods := both.outline_methods builds builds'

end Relocation

/-- Loading does not depend on the order of declarations: a model can be loaded when any
rearrangement of it can, and both give the same library up to the identities of what they add. -/
theorem load_perm {l : Library} (intact : l.Intact) {types types' : List TypeDecl}
    (perm : types.Perm types') :
    ((∃ m, l.load ⟨types⟩ = .ok m) ↔ ∃ m', l.load ⟨types'⟩ = .ok m') ∧
      ∀ m m', l.load ⟨types⟩ = .ok m → l.load ⟨types'⟩ = .ok m' →
        ∃ ρ, Relocation l ρ m m' := by
  refine ⟨⟨?_, ?_⟩, ?_⟩
  · rintro ⟨m, ok⟩
    exact load_ok_of_perm intact perm ok
  · rintro ⟨m', ok⟩
    exact load_ok_of_perm intact perm.symm ok
  · intro m m' ok ok'
    obtain ⟨entries, listed, builds⟩ := load_builds ok
    obtain ⟨entries', listed', builds'⟩ := load_builds ok'
    have both : Rearranged l m m' entries entries' :=
      ⟨intact, builds.toArranged, builds'.toArranged, by rw [listed, listed']; exact perm⟩
    exact ⟨_, both.relocation builds builds'⟩

/-- A relay is built on types declared after it, in its bounds, supertypes and methods. -/
def relayTypes : List TypeDecl := [
  { name := "Relay", params := ["T extends Node<T>"], extended := ["Base<T>"],
    implemented := ["Link"],
    methods := [
      { name := "next", typeParams := ["U extends Link"], params := ["U", "T[]"],
        returns := "Node<? super T>" },
      { name := "reset" }] },
  { name := "Base", params := ["S"], inCompilation := true },
  { name := "Node", isInterface := true, params := ["N extends Node<N>"], extended := ["Link"] },
  { name := "Link", isInterface := true }]

theorem relayTypes_reversed : Library.root.Intact ∧ relayTypes.Perm relayTypes.reverse ∧
    ∃ m m', Library.root.load ⟨relayTypes⟩ = .ok m ∧
      Library.root.load ⟨relayTypes.reverse⟩ = .ok m' ∧ ∃ ρ, Relocation .root ρ m m' := by
  have perm : relayTypes.Perm relayTypes.reverse := relayTypes.reverse_perm.symm
  obtain ⟨either, alike⟩ := load_perm intact_root perm
  have loads : (Library.root.load ⟨relayTypes⟩).isOk = true := by decide +kernel
  obtain ⟨m, ok⟩ := exists_of_isOk loads
  obtain ⟨m', ok'⟩ := either.mp ⟨m, ok⟩
  exact ⟨intact_root, perm, m, m', ok, ok', alike m m' ok ok'⟩

end Library

end NominalGenerics
