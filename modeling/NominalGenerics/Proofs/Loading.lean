import NominalGenerics.Proofs.Sound

/-!
# Loading keeps a hierarchy sound

Loading a model goes through its types several times. Registering them adds blank declarations
(`declareTypes_spec`), the next two passes give them parameters (`Reparams`), then their supertypes
are read and checked (`readSupertypes_spec`), and reading methods changes no declaration. Only the
declarations of the model change, so what was sound before stays sound (`load_sound`). Hence every
hierarchy that loading makes is sound (`Loaded.sound`).
-/

namespace NominalGenerics.Library

/-! ## Registering -/

/-- `l'` has a blank declaration for each entry, after those of `l`. -/
structure Declares (l l' : Library) (entries : List Entry) : Prop where
  indices : entries.map (·.2.index) = List.range' l.hierarchy.decls.size entries.length
  size : l'.hierarchy.decls.size = l.hierarchy.decls.size + entries.length
  old : ∀ d, d.index < l.hierarchy.decls.size → l'.hierarchy.content d = l.hierarchy.content d
  blank : ∀ e ∈ entries, ∃ p, l'.hierarchy.content e.2 =
    { form := if e.1.isInterface then .iface else .cls, pending := p }
  names : ∀ name d, l'.registry.lookup? name = some d →
    l.registry.lookup? name = some d ∨ d ∈ entries.map Prod.snd
  kept : ∀ name d, l.registry.lookup? name = some d → l'.registry.lookup? name = some d
  registered : ∀ e ∈ entries, l'.registry.lookup? e.2.name = some e.2

/-- A name is given only once. -/
theorem lookup?_name {r r' : Registry} {d : DeclId} (ok : r.name d = .ok r') :
    r'.lookup? d.name = some d ∧
      ∀ name e, r.lookup? name = some e → r'.lookup? name = some e := by
  unfold Registry.name at ok
  split at ok
  · cases ok
  · rename_i new
    cases ok
    unfold Registry.lookup?
    refine ⟨by rw [NameMap.get?_insert, if_pos rfl], ?_⟩
    intro name e found
    rw [NameMap.get?_insert, if_neg ?_, found]
    rintro rfl
    simp [NameMap.contains, found] at new

theorem lookup?_of_name {r r' : Registry} {d : DeclId} (ok : r.name d = .ok r') {name : String}
    {e : DeclId} (found : r'.lookup? name = some e) :
    r.lookup? name = some e ∨ e = d ∧ name = d.name := by
  unfold Registry.name at ok
  split at ok
  · cases ok
  · cases ok
    unfold Registry.lookup? at found
    rw [NameMap.get?_insert] at found
    split at found
    · rename_i same
      cases found
      exact .inr ⟨rfl, same⟩
    · exact .inl found

theorem declareTypes_spec {l l' : Library} {position : Nat} {types : List TypeDecl}
    {entries : List Entry} (ok : l.declareTypes position types = .ok (l', entries)) :
    Declares l l' entries := by
  induction types generalizing l l' position entries with
  | nil =>
    cases ok
    exact ⟨rfl, rfl, fun _ _ => rfl, nofun, fun _ _ found => .inl found, fun _ _ found => found,
      nofun⟩
  | cons t ts ih =>
    unfold declareTypes at ok
    dsimp only at ok
    split at ok
    · cases ok
    obtain ⟨r, named, ok⟩ := bind_eq_ok.mp ok
    obtain ⟨⟨final, rest⟩, later, ok⟩ := bind_eq_ok.mp ok
    cases ok
    have spec := ih later
    have grown : (l.hierarchy.declare t.name
        { form := if t.isInterface then .iface else .cls,
          pending := t.inCompilation }).2.decls.size = l.hierarchy.decls.size + 1 := by
      simp [Hierarchy.declare, Hierarchy.ofDecls]
    have mapped := mapError_eq_ok.mp named
    obtain ⟨own, keeps⟩ := lookup?_name mapped
    refine ⟨?_, ?_, ?_, ?_, ?_, fun name d found => spec.kept name d (keeps name d found), ?_⟩
    · simp only [List.map_cons, List.length_cons, List.range'_succ]
      rw [spec.indices]
      simp only [grown]
      rfl
    · rw [spec.size]
      simp only [grown, List.length_cons]
      omega
    · intro d inside
      rw [spec.old d (by simp only [grown]; omega), Hierarchy.content_declare, if_neg (by omega)]
    · intro e member
      rcases List.mem_cons.mp member with rfl | member
      · refine ⟨t.inCompilation, ?_⟩
        rw [spec.old _ (by simp only [grown]; exact Nat.lt_succ_self _), Hierarchy.content_declare]
        exact if_pos rfl
      · exact spec.blank e member
    · intro name d found
      rcases spec.names name d found with before | member
      · rcases lookup?_of_name mapped before with before | ⟨rfl, -⟩
        · exact .inl before
        · exact .inr List.mem_cons_self
      · exact .inr (List.mem_cons_of_mem _ member)
    · intro e member
      rcases List.mem_cons.mp member with rfl | member
      · exact spec.kept _ _ own
      · exact spec.registered e member

/-! ## Parameters -/

/-- The entries got parameters, as many as they are written with, and nothing else changed. -/
structure Reparams (A : Arity) (l l' : Library) (entries : List Entry) : Prop where
  size : l'.hierarchy.decls.size = l.hierarchy.decls.size
  registry : l'.registry = l.registry
  others : ∀ d, d.index ∉ entries.map (·.2.index) →
    l'.hierarchy.content d = l.hierarchy.content d
  each : ∀ e ∈ entries, ∃ ps, l'.hierarchy.content e.2 =
      { l.hierarchy.content e.2 with params := ps } ∧
    ps.length = e.1.params.length ∧ Reader.Declared A .bare ps

theorem Reparams.nil {A : Arity} (l : Library) : Reparams A l l [] :=
  ⟨rfl, rfl, fun _ _ => rfl, fun _ member => nomatch member⟩

theorem Reparams.cons {A : Arity} {l l' : Library} {t : TypeDecl} {d : DeclId} {rest : List Entry}
    {ps : List Slot} {count : Nat} (inside : d.index < l.hierarchy.decls.size)
    (once : d.index ∉ rest.map (·.2.index)) (length : ps.length = t.params.length)
    (declared : Reader.Declared A .bare ps)
    (later : Reparams A ((l.update d fun c => { c with params := ps }).read count) l' rest) :
    Reparams A l l' ((t, d) :: rest) := by
  have updated : ∀ e : DeclId,
      ((l.update d fun c => { c with params := ps }).read count).hierarchy.content e =
        if d.index = e.index ∧ e.index < l.hierarchy.decls.size
        then { l.hierarchy.content e with params := ps } else l.hierarchy.content e :=
    fun e => Hierarchy.content_update l.hierarchy d e _
  refine ⟨?_, later.registry, ?_, ?_⟩
  · rw [later.size]
    exact Hierarchy.size_update _ _ _
  · intro e outside
    simp only [List.map_cons, List.mem_cons, not_or] at outside
    rw [later.others e outside.2, updated, if_neg fun same => outside.1 same.1.symm]
  · intro e member
    rcases List.mem_cons.mp member with rfl | member
    · exact ⟨ps, by rw [later.others d once, updated, if_pos ⟨rfl, inside⟩], length, declared⟩
    · have apart : d.index ≠ e.2.index := fun same =>
        once (List.mem_map.mpr ⟨e, member, same.symm⟩)
      obtain ⟨qs, content, rest⟩ := later.each e member
      refine ⟨qs, ?_, rest⟩
      rw [content, updated, if_neg fun same => apart same.1]

/-- Every declaration keeps its form. -/
theorem Reparams.form {A : Arity} {l l' : Library} {entries : List Entry}
    (reparams : Reparams A l l' entries) (d : DeclId) :
    (l'.hierarchy.content d).form = (l.hierarchy.content d).form := by
  by_cases member : d.index ∈ entries.map (·.2.index)
  · obtain ⟨e, member, same⟩ := List.mem_map.mp member
    obtain ⟨ps, content, -⟩ := reparams.each e member
    rw [← Hierarchy.content_congr same, ← Hierarchy.content_congr same, content]
  · rw [reparams.others d member]

/-- Declarations stay sound while those that get parameters have no supertypes yet. -/
theorem Reparams.sound {A : Arity} {l l' : Library} {entries : List Entry}
    (reparams : Reparams A l l' entries)
    (plain : ∀ e ∈ entries, (l.hierarchy.content e.2).super = none ∧
      (l.hierarchy.content e.2).interfaces = [])
    (sound : ∀ d, (l.hierarchy.content d).Sound l.hierarchy A) (d : DeclId) :
    (l'.hierarchy.content d).Sound l'.hierarchy A := by
  have same := fun (e : DeclId) (k : Nat) (_ : A e = some k) => reparams.form e
  by_cases member : d.index ∈ entries.map (·.2.index)
  · obtain ⟨e, member, index⟩ := List.mem_map.mp member
    obtain ⟨ps, content, -, declared⟩ := reparams.each e member
    obtain ⟨noSuper, noInterfaces⟩ := plain e member
    have before := (sound e.2).mono (fun _ _ known => known) same
    rw [← Hierarchy.content_congr index, content]
    refine ⟨before.direct, before.noUnion, declared, ?_, ?_, before.rooted⟩
    · intro t written
      rw [noSuper] at written
      cases written
    · intro t written
      rw [noInterfaces] at written
      cases written
  · rw [reparams.others d member]
    exact (sound d).mono (fun _ _ known => known) same

theorem bareParams_declared {A : Arity} {source : Nat} {texts : List String} {ps : List Slot}
    (ok : bareParams source texts = .ok ps) :
    ps.length = texts.length ∧ Reader.Declared A .bare ps := by
  obtain ⟨names, named, ok⟩ := bind_eq_ok.mp ok
  cases ok
  constructor
  · have count : names.length = texts.length := (mapM_eq_ok.mp named).length_eq.symm
    simp [count]
  · intro p member
    obtain ⟨⟨name, i⟩, -, rfl⟩ := List.mem_map.mp member
    exact ⟨_, name, [], rfl, trivial⟩

theorem countParams_spec {A : Arity} {l l' : Library} {entries : List Entry}
    (inside : ∀ e ∈ entries, e.2.index < l.hierarchy.decls.size)
    (nodup : (entries.map (·.2.index)).Nodup) (ok : l.countParams entries = .ok l') :
    Reparams A l l' entries := by
  induction entries generalizing l with
  | nil =>
    cases ok
    exact .nil _
  | cons e rest ih =>
    obtain ⟨t, d⟩ := e
    obtain ⟨ps, counted, ok⟩ := bind_eq_ok.mp ok
    obtain ⟨length, declared⟩ := bareParams_declared (mapError_eq_ok.mp counted)
    obtain ⟨once, nodup⟩ := List.nodup_cons.mp nodup
    refine .cons (inside _ List.mem_cons_self) once length declared (ih ?_ nodup ok)
    intro e member
    exact lt_of_lt_of_eq (inside e (List.mem_cons_of_mem _ member))
      (Hierarchy.size_update _ _ _).symm

def Knows (A : Arity) (l : Library) : Prop :=
  ∀ name d, l.registry.lookup? name = some d → A d = some (l.hierarchy.params d).length

theorem Knows.of_length {A : Arity} {l l' : Library} (knows : Knows A l)
    (registry : l'.registry = l.registry)
    (length : ∀ d, (l'.hierarchy.params d).length = (l.hierarchy.params d).length) :
    Knows A l' := by
  intro name d found
  rw [registry] at found
  rw [length, knows name d found]

theorem Knows.informed {A : Arity} {l : Library} (knows : Knows A l) {scope : Scope}
    (proper : scope.Proper) : (l.reader scope).Informed A :=
  ⟨knows, proper⟩

theorem proper_empty : Scope.Proper .empty := fun _ _ found => nomatch found

/-- Parameters that replace as many others change no count. -/
theorem length_params_update {l : Library} {d : DeclId} {ps : List Slot} (count : Nat)
    (same : ps.length = (l.hierarchy.params d).length) (e : DeclId) :
    (((l.update d fun c => { c with params := ps }).read count).hierarchy.params e).length =
      (l.hierarchy.params e).length := by
  show ((l.hierarchy.update d _).content e).params.length = _
  rw [Hierarchy.content_update]
  split
  · rename_i here
    unfold Hierarchy.params at same ⊢
    rw [same, Hierarchy.content_congr here.1]
  · rfl

theorem readParams_spec {A : Arity} {l l' : Library} {entries : List Entry} {types : List Scoped}
    (inside : ∀ e ∈ entries, e.2.index < l.hierarchy.decls.size)
    (nodup : (entries.map (·.2.index)).Nodup) (knows : Knows A l)
    (counted : ∀ e ∈ entries, (l.hierarchy.params e.2).length = e.1.params.length)
    (ok : l.readParams entries = .ok (l', types)) :
    Reparams A l l' entries ∧ types.map (fun s => (s.type, s.id)) = entries ∧
      ∀ s ∈ types, s.scope = Reader.opened .empty (l'.hierarchy.params s.id) := by
  induction entries generalizing l types with
  | nil =>
    cases ok
    exact ⟨.nil _, rfl, fun _ member => nomatch member⟩
  | cons e rest ih =>
    obtain ⟨t, d⟩ := e
    obtain ⟨⟨ps, scope⟩, parsed, ok⟩ := bind_eq_ok.mp ok
    obtain ⟨⟨final, types⟩, later, ok⟩ := bind_eq_ok.mp ok
    cases ok
    obtain ⟨declared, length, opens⟩ :=
      Reader.parseParams_declared (knows.informed proper_empty) (mapError_eq_ok.mp parsed)
    have bounds : Reader.Declared A .bare ps := by
      intro p member
      obtain ⟨s, n, bs, rfl, formed⟩ := declared p member
      refine ⟨s, n, bs, rfl, formed.mono (fun _ _ known => known) ?_⟩
      rintro s n bs (bare | found)
      · exact bare
      · cases found
    obtain ⟨once, nodup⟩ := List.nodup_cons.mp nodup
    have same : ps.length = (l.hierarchy.params d).length :=
      length.trans (counted _ List.mem_cons_self).symm
    -- bounds are filled in without a change of count, so every arity stays known for the rest
    let next := (l.update d fun c => { c with params := ps }).read (Reader.paramSources t.params)
    have within : ∀ e ∈ rest, e.2.index < next.hierarchy.decls.size := by
      intro e member
      exact lt_of_lt_of_eq (inside e (List.mem_cons_of_mem _ member))
        (Hierarchy.size_update _ _ _).symm
    have lengths : ∀ e, (next.hierarchy.params e).length = (l.hierarchy.params e).length :=
      length_params_update _ same
    have knowsNext : Knows A next := knows.of_length rfl lengths
    have counts : ∀ e ∈ rest, (next.hierarchy.params e.2).length = e.1.params.length :=
      fun e member => (lengths e.2).trans (counted e (List.mem_cons_of_mem _ member))
    obtain ⟨reparams, listed, scopes⟩ := ih within nodup knowsNext counts later
    have whole := Reparams.cons (inside _ List.mem_cons_self) once length bounds reparams
    refine ⟨whole, by simp [listed], ?_⟩
    intro s member
    rcases List.mem_cons.mp member with rfl | member
    · have here := reparams.others d once
      dsimp only
      rw [opens]
      unfold Hierarchy.params
      rw [here]
      show Reader.opened .empty ps =
        Reader.opened .empty ((l.hierarchy.update d _).content d).params
      rw [Hierarchy.content_update, if_pos ⟨rfl, inside _ List.mem_cons_self⟩]
    · exact scopes s member

/-! ## Supertypes -/

theorem parseSupertypes_formed {A : Arity} {r : Reader} {texts : List String} {ts : List Ty}
    (informed : r.Informed A) (ok : parseSupertypes r texts = .ok ts) :
    ∀ t ∈ ts, t.Formed A r.scope.params ∧ ∃ d, t.head? = some d := by
  induction texts generalizing r ts with
  | nil =>
    cases ok
    exact fun _ member => nomatch member
  | cons text texts ih =>
    obtain ⟨t, parsed, ok⟩ := bind_eq_ok.mp ok
    dsimp only at ok
    split at ok
    · cases ok
    · rename_i isClass
      obtain ⟨rest, later, ok⟩ := bind_eq_ok.mp ok
      cases ok
      intro u member
      rcases List.mem_cons.mp member with rfl | member
      · refine ⟨Reader.parseType_formed informed (mapError_eq_ok.mp parsed), ?_⟩
        cases u with
        | decl d => exact ⟨d, rfl⟩
        | bare s d => exact ⟨d, rfl⟩
        | app s d args => exact ⟨d, rfl⟩
        | param s n bs => exact absurd rfl isClass
        | array s e => exact absurd rfl isClass
      · exact ih (informed.moved _) later u member

/-- Supertypes that pass the check: a class extends a class, and everything else is an interface. -/
theorem checkSupertypes_spec {h : Hierarchy} {isInterface : Bool} {extended implemented : List Ty}
    {super : Option Ty} {interfaces : List Ty}
    (ok : checkSupertypes h isInterface extended implemented = .ok (super, interfaces)) :
    (∀ t, super = some t → t ∈ extended ∧ h.isInterface t = false) ∧
      (∀ t ∈ interfaces, (t ∈ extended ∨ t ∈ implemented) ∧ h.isInterface t = true) ∧
      (isInterface = true → super = none) := by
  have all : ∀ ts : List Ty, (ts.find? fun t => !h.isInterface t) = none →
      ∀ t ∈ ts, h.isInterface t = true := by
    intro ts none t member
    simpa using List.find?_eq_none.mp none t member
  unfold checkSupertypes at ok
  cases isInterface with
  | true =>
    simp only [if_true] at ok
    split at ok
    · cases ok
    · split at ok
      · cases ok
      · rename_i passed
        cases ok
        exact ⟨nofun, fun t member => ⟨.inl member, all _ passed t member⟩, fun _ => rfl⟩
  | false =>
    simp only [Bool.false_eq_true, if_false] at ok
    split at ok
    · cases ok
    · split at ok
      · cases ok
      · rename_i isClass
        split at ok
        · cases ok
        · rename_i passed
          cases ok
          refine ⟨?_, fun t member => ⟨.inr member, all _ passed t member⟩, nofun⟩
          rintro t ⟨⟩
          exact ⟨List.mem_cons_self, by simpa using isClass⟩
    · cases ok
    · rename_i passed
      cases ok
      exact ⟨nofun, fun t member => ⟨.inr member, all _ passed t member⟩, nofun⟩

/-- Every declaration is sound, and what the registry names is known. -/
structure Staged (A : Arity) (l : Library) : Prop where
  decls : ∀ d, (l.hierarchy.content d).Sound l.hierarchy A
  knows : Knows A l

/-- What the passes fixed before about a type whose supertypes are to be read. -/
structure Scoped.Ready (l : Library) (base : Nat) (s : Scoped) : Prop where
  scope : s.scope = Reader.opened .empty (l.hierarchy.params s.id)
  form : (l.hierarchy.content s.id).form = if s.type.isInterface then .iface else .cls
  new : base ≤ s.id.index

/-- Supertypes were given to declarations from `base` on, and nothing else changed. -/
structure Extended (base : Nat) (l l' : Library) : Prop where
  size : l'.hierarchy.decls.size = l.hierarchy.decls.size
  registry : l'.registry = l.registry
  params : ∀ d, l'.hierarchy.params d = l.hierarchy.params d
  form : ∀ d, (l'.hierarchy.content d).form = (l.hierarchy.content d).form
  old : ∀ d, d.index < base → l'.hierarchy.content d = l.hierarchy.content d

theorem Extended.trans {base : Nat} {a b c : Library} (first : Extended base a b)
    (second : Extended base b c) : Extended base a c where
  size := second.size.trans first.size
  registry := second.registry.trans first.registry
  params d := (second.params d).trans (first.params d)
  form d := (second.form d).trans (first.form d)
  old d before := (second.old d before).trans (first.old d before)

theorem Extended.update {base : Nat} (l : Library) {d : DeclId} (new : base ≤ d.index)
    (super : Option Ty) (interfaces : List Ty) (count : Nat) :
    Extended base l
      ((l.update d fun c => { c with super := super, interfaces := interfaces }).read count) where
  size := Hierarchy.size_update _ _ _
  registry := rfl
  params e := Hierarchy.update_keeps _ _ _ Decl.params fun _ => rfl
  form e := Hierarchy.update_keeps _ _ _ Decl.form fun _ => rfl
  old e before := by
    show (l.hierarchy.update d _).content e = _
    rw [Hierarchy.content_update, if_neg (by omega)]

theorem Scoped.Ready.extended {base : Nat} {l l' : Library} {s : Scoped} (ready : s.Ready l base)
    (extended : Extended base l l') : s.Ready l' base :=
  ⟨by rw [extended.params, ready.scope], by rw [extended.form, ready.form], ready.new⟩

theorem supertypesOf_sound {A : Arity} {l : Library} {base : Nat} {s : Scoped} {super : Option Ty}
    {interfaces : List Ty} (staged : Staged A l) (ready : s.Ready l base)
    (ok : l.supertypesOf s = .ok (super, interfaces)) :
    ({ l.hierarchy.content s.id with super := super, interfaces := interfaces } : Decl).Sound
      l.hierarchy A := by
  have before := staged.decls s.id
  have proper : s.scope.Proper := by
    rw [ready.scope]
    exact Reader.opened_proper proper_empty before.params
  have informed := staged.knows.informed proper
  have own : ∀ site n bs, s.scope.params site n bs →
      ParamSet.of (l.hierarchy.content s.id).params site n bs := by
    intro site n bs found
    rw [ready.scope] at found
    rcases Reader.params_opened before.params found with declared | outside
    · exact declared
    · cases outside
  obtain ⟨extended, parsedExtended, ok⟩ := bind_eq_ok.mp ok
  obtain ⟨implemented, parsedImplemented, ok⟩ := bind_eq_ok.mp ok
  have readsExtended := parseSupertypes_formed informed parsedExtended
  have readsImplemented := parseSupertypes_formed (informed.moved _) parsedImplemented
  obtain ⟨isClass, areInterfaces, rooted⟩ := checkSupertypes_spec ok
  refine ⟨before.direct, before.noUnion, before.params, ?_, ?_, ?_⟩
  · intro t written
    obtain ⟨member, isClass⟩ := isClass t written
    obtain ⟨formed, head⟩ := readsExtended t member
    exact ⟨formed.mono (fun _ _ known => known) own, head, isClass⟩
  · intro t written
    obtain ⟨member, isInterface⟩ := areInterfaces t written
    refine ⟨?_, isInterface⟩
    rcases member with member | member
    · exact (readsExtended t member).1.mono (fun _ _ known => known) own
    · exact (readsImplemented t member).1.mono (fun _ _ known => known) own
  · intro isInterface
    refine rooted ?_
    have form := ready.form
    rw [isInterface] at form
    cases flag : s.type.isInterface with
    | true => rfl
    | false =>
      rw [flag] at form
      cases form

theorem Staged.update {A : Arity} {l : Library} {base : Nat} {d : DeclId} {super : Option Ty}
    {interfaces : List Ty} {count : Nat} (staged : Staged A l) (new : base ≤ d.index)
    (sound : ({ l.hierarchy.content d with super := super, interfaces := interfaces } : Decl).Sound
      l.hierarchy A) :
    Staged A
      ((l.update d fun c => { c with super := super, interfaces := interfaces }).read count) := by
  have extended := Extended.update l new super interfaces count
  refine ⟨?_, staged.knows.of_length rfl fun e => by rw [extended.params]⟩
  intro e
  have same := fun (e : DeclId) (k : Nat) (_ : A e = some k) => extended.form e
  show ((l.hierarchy.update d _).content e).Sound _ A
  rw [Hierarchy.content_update]
  split
  · rename_i here
    rw [← Hierarchy.content_congr here.1]
    exact sound.mono (fun _ _ known => known) same
  · exact (staged.decls e).mono (fun _ _ known => known) same

theorem readSupertypes_spec {A : Arity} {l l' : Library} {base : Nat} {types : List Scoped}
    (staged : Staged A l) (ready : ∀ s ∈ types, s.Ready l base)
    (ok : l.readSupertypes types = .ok l') : Staged A l' ∧ Extended base l l' := by
  induction types generalizing l with
  | nil =>
    cases ok
    exact ⟨staged, rfl, rfl, fun _ => rfl, fun _ => rfl, fun _ _ => rfl⟩
  | cons s rest ih =>
    obtain ⟨⟨super, interfaces⟩, parsed, ok⟩ := bind_eq_ok.mp ok
    have here := ready s List.mem_cons_self
    have sound := supertypesOf_sound staged here (mapError_eq_ok.mp parsed)
    have extended := Extended.update l here.new super interfaces
      (s.type.extended.length + s.type.implemented.length)
    obtain ⟨stagedAfter, later⟩ := ih (staged.update here.new sound)
      (fun s member => (ready s (List.mem_cons_of_mem _ member)).extended extended) ok
    exact ⟨stagedAfter, extended.trans later⟩

/-! ## Methods -/

/-- Reading the methods of a type changes no declaration and names none. -/
theorem readTypeMethods_spec {l l' : Library} {s : Scoped} {ms : List MethodDecl}
    (ok : l.readTypeMethods s ms = .ok l') :
    (∃ n, l'.hierarchy = l.hierarchy.fresh n) ∧ l'.registry.names = l.registry.names := by
  induction ms generalizing l with
  | nil =>
    cases ok
    exact ⟨⟨0, rfl⟩, rfl⟩
  | cons m ms ih =>
    unfold readTypeMethods at ok
    dsimp only at ok
    split at ok
    · cases ok
    obtain ⟨signature, -, ok⟩ := bind_eq_ok.mp ok
    obtain ⟨r, defined, ok⟩ := bind_eq_ok.mp ok
    have named : r.names = l.registry.names := by
      have defined := mapError_eq_ok.mp defined
      unfold Registry.defineMethod at defined
      split at defined
      · cases defined
        rfl
      · cases defined
    obtain ⟨⟨n, hierarchy⟩, names⟩ := ih ok
    refine ⟨⟨methodSources m + n, ?_⟩, names.trans named⟩
    rw [hierarchy]
    simp [read, Hierarchy.fresh, Nat.add_assoc]

theorem readMethods_spec {l l' : Library} {types : List Scoped}
    (ok : l.readMethods types = .ok l') :
    (∃ n, l'.hierarchy = l.hierarchy.fresh n) ∧ l'.registry.names = l.registry.names := by
  induction types generalizing l with
  | nil =>
    cases ok
    exact ⟨⟨0, rfl⟩, rfl⟩
  | cons s rest ih =>
    obtain ⟨between, first, ok⟩ := bind_eq_ok.mp ok
    obtain ⟨⟨n, hierarchy⟩, names⟩ := readTypeMethods_spec first
    obtain ⟨⟨m, later⟩, names'⟩ := ih ok
    refine ⟨⟨n + m, ?_⟩, names'.trans names⟩
    rw [later, hierarchy]
    simp [Hierarchy.fresh, Nat.add_assoc]

/-! ## The whole of loading -/

section Load

variable {l l₁ : Library} {entries : List Entry} {ids : List DeclId}

theorem Declares.mem_range (declares : Declares l l₁ entries) {e : Entry} (member : e ∈ entries) :
    l.hierarchy.decls.size ≤ e.2.index ∧ e.2.index < l₁.hierarchy.decls.size := by
  have listed : e.2.index ∈ entries.map (·.2.index) := List.mem_map.mpr ⟨e, member, rfl⟩
  rw [declares.indices, List.mem_range'_1] at listed
  rw [declares.size]
  exact listed

theorem Declares.nodup (declares : Declares l l₁ entries) :
    (entries.map (·.2.index)).Nodup := by
  rw [declares.indices]
  exact List.nodup_range'

theorem Declares.notMem (declares : Declares l l₁ entries) {d : DeclId}
    (old : d.index < l.hierarchy.decls.size) : d.index ∉ entries.map (·.2.index) := by
  rw [declares.indices, List.mem_range'_1]
  omega

/-- Declarations that were sound stay so, and the new ones have nothing to get wrong yet. -/
theorem Declares.sound (declares : Declares l l₁ entries) (sound : l.hierarchy.Sound ids)
    (d : DeclId) : (l₁.hierarchy.content d).Sound l₁.hierarchy (l.hierarchy.arity ids) := by
  by_cases old : d.index < l.hierarchy.decls.size
  · rw [declares.old d old]
    refine (sound.decls d).mono (fun _ _ known => known) ?_
    intro e k known
    rw [declares.old e (sound.index_lt (Hierarchy.arity_eq_some.mp known).1)]
  · by_cases new : d.index < l₁.hierarchy.decls.size
    · have listed : d.index ∈ entries.map (·.2.index) := by
        rw [declares.indices, List.mem_range'_1]
        rw [declares.size] at new
        omega
      obtain ⟨e, member, same⟩ := List.mem_map.mp listed
      obtain ⟨p, blank⟩ := declares.blank e member
      rw [← Hierarchy.content_congr same, blank]
      refine .blank ?_
      split <;> nofun
    · have beyond : l₁.hierarchy.content d = {} := by
        simp [Hierarchy.content, Array.getD_eq_getD_getElem?,
          Array.getElem?_eq_none (Nat.le_of_not_lt new)]
      rw [beyond]
      exact .blank nofun

/-- Reading the parameters again keeps how many there are. -/
theorem Reparams.length {A : Arity} {l l' : Library} (reparams : Reparams A l l' entries)
    (counted : ∀ e ∈ entries, (l.hierarchy.params e.2).length = e.1.params.length) (d : DeclId) :
    (l'.hierarchy.params d).length = (l.hierarchy.params d).length := by
  by_cases member : d.index ∈ entries.map (·.2.index)
  · obtain ⟨e, member, same⟩ := List.mem_map.mp member
    obtain ⟨ps, content, length, -⟩ := reparams.each e member
    have here : l'.hierarchy.params e.2 = ps := by
      rw [Hierarchy.params, content]
    unfold Hierarchy.params at here counted ⊢
    rw [← Hierarchy.content_congr same, ← Hierarchy.content_congr same, here, length,
      counted e member]
  · unfold Hierarchy.params
    rw [reparams.others d member]

/-- Old declarations have the ancestors they had. -/
theorem old_ancestors {h h' : Hierarchy} (sound : h.Sound ids)
    (old : ∀ d, d.index < h.decls.size → h'.content d = h.content d) {d e : DeclId}
    (member : d ∈ ids) (above : Relation.TransGen h'.Edge d e) :
    Relation.TransGen h.Edge d e ∧ e ∈ ids := by
  have step : ∀ d e, d ∈ ids → h'.Edge d e → h.Edge d e ∧ e ∈ ids := by
    rintro d e member ⟨t, written, head⟩
    have same : h'.supertypes (.decl d) = h.supertypes (.decl d) := by
      simp only [Hierarchy.supertypes, Hierarchy.superclass, Hierarchy.interfaces,
        old d (sound.index_lt member)]
    rw [same] at written
    obtain ⟨formed, -⟩ := (sound.decls d).supertype sound.arity_object written
    obtain ⟨k, known⟩ := formed.head head
    exact ⟨⟨t, written, head⟩, (Hierarchy.arity_eq_some.mp known).1⟩
  induction above with
  | single edge =>
    obtain ⟨edge, member⟩ := step _ _ member edge
    exact ⟨.single edge, member⟩
  | tail _ edge ih =>
    obtain ⟨edge, member⟩ := step _ _ ih.2 edge
    exact ⟨ih.1.tail edge, member⟩

/-- The arities once the parameters of every type are counted. -/
theorem arity_mono {l₂ : Library} {A : Arity} (sound : l.hierarchy.Sound ids)
    (declares : Declares l l₁ entries) (counts : Reparams A l₁ l₂ entries) {d : DeclId} {k : Nat}
    (known : l.hierarchy.arity ids d = some k) :
    l₂.hierarchy.arity (ids ++ entries.map Prod.snd) d = some k := by
  obtain ⟨member, length⟩ := Hierarchy.arity_eq_some.mp known
  have old := sound.index_lt member
  refine Hierarchy.arity_eq_some.mpr ⟨List.mem_append_left _ member, ?_⟩
  rw [← length]
  unfold Hierarchy.params
  rw [counts.others d (declares.notMem old), declares.old d old]

/-- The declarations of a model have no supertypes while their parameters are read. -/
theorem Declares.plain (declares : Declares l l₁ entries) :
    ∀ e ∈ entries, (l₁.hierarchy.content e.2).super = none ∧
      (l₁.hierarchy.content e.2).interfaces = [] := by
  intro e member
  obtain ⟨p, blank⟩ := declares.blank e member
  rw [blank]
  exact ⟨rfl, rfl⟩

theorem Reparams.plain {A : Arity} {l l' : Library} (reparams : Reparams A l l' entries)
    (before : ∀ e ∈ entries, (l.hierarchy.content e.2).super = none ∧
      (l.hierarchy.content e.2).interfaces = []) :
    ∀ e ∈ entries, (l'.hierarchy.content e.2).super = none ∧
      (l'.hierarchy.content e.2).interfaces = [] := by
  intro e member
  obtain ⟨ps, content, -⟩ := reparams.each e member
  rw [content]
  exact before e member

theorem Reparams.counted {A : Arity} {l l' : Library} (reparams : Reparams A l l' entries) :
    ∀ e ∈ entries, (l'.hierarchy.params e.2).length = e.1.params.length := by
  intro e member
  obtain ⟨ps, content, length, -⟩ := reparams.each e member
  rw [Hierarchy.params, content]
  exact length

/-- What holds once the parameters are read, before any supertype is. -/
theorem staged_of_readParams {l₂ l₃ : Library} {types : List Scoped}
    (sound : l.hierarchy.Sound ids)
    (known : ∀ name d, l.registry.lookup? name = some d → d ∈ ids)
    (declares : Declares l l₁ entries)
    (counts : Reparams (l.hierarchy.arity ids) l₁ l₂ entries)
    (ok : l₂.readParams entries = .ok (l₃, types)) :
    let A := l₂.hierarchy.arity (ids ++ entries.map Prod.snd)
    Staged A l₃ ∧ Reparams A l₂ l₃ entries ∧
      ∀ s ∈ types, s.Ready l₃ l.hierarchy.decls.size := by
  intro A
  have decls₂ : ∀ d, (l₂.hierarchy.content d).Sound l₂.hierarchy A := fun d =>
    (counts.sound declares.plain (declares.sound sound) d).mono
      (fun _ _ known => arity_mono sound declares counts known) fun _ _ _ => rfl
  have knows₂ : Knows A l₂ := by
    intro name d found
    refine Hierarchy.arity_eq_some.mpr ⟨?_, rfl⟩
    rw [counts.registry] at found
    rcases declares.names name d found with before | new
    · exact List.mem_append_left _ (known name d before)
    · exact List.mem_append_right _ new
  have inside : ∀ e ∈ entries, e.2.index < l₂.hierarchy.decls.size := fun e member =>
    lt_of_lt_of_eq (declares.mem_range member).2 counts.size.symm
  obtain ⟨reparams, listed, scopes⟩ :=
    readParams_spec inside declares.nodup knows₂ counts.counted ok
  refine ⟨⟨?_, ?_⟩, reparams, ?_⟩
  · exact reparams.sound (counts.plain declares.plain) decls₂
  · exact knows₂.of_length reparams.registry (reparams.length counts.counted)
  · intro s member
    have entry : (s.type, s.id) ∈ entries := listed ▸ List.mem_map.mpr ⟨s, member, rfl⟩
    refine ⟨scopes s member, ?_, (declares.mem_range entry).1⟩
    obtain ⟨p, blank⟩ := declares.blank _ entry
    rw [reparams.form, counts.form, blank]

/-- Loading a model into a sound hierarchy adds declarations and leaves it sound. -/
theorem load_sound {l' : Library} {model : ClassModel} (sound : l.hierarchy.Sound ids)
    (known : ∀ name d, l.registry.lookup? name = some d → d ∈ ids) (ok : l.load model = .ok l') :
    ∃ new, l'.hierarchy.Sound (ids ++ new) ∧
      (∀ name d, l'.registry.lookup? name = some d → d ∈ ids ++ new) ∧
      (∀ d ∈ new, l'.registry.lookup? d.name = some d) ∧
      ∀ d ∈ ids, l'.hierarchy.params d = l.hierarchy.params d := by
  -- `l₁` has the names, `l₂` the numbers of parameters, `l₃` their bounds, `l₄` the supertypes
  obtain ⟨⟨l₁, entries⟩, declared, ok⟩ := bind_eq_ok.mp ok
  obtain ⟨l₂, counted, ok⟩ := bind_eq_ok.mp ok
  obtain ⟨⟨l₃, types⟩, read, ok⟩ := bind_eq_ok.mp ok
  obtain ⟨l₄, extended, ok⟩ := bind_eq_ok.mp ok
  obtain ⟨⟨⟩, checked, ok⟩ := bind_eq_ok.mp ok
  have declares := declareTypes_spec declared
  have counts : Reparams (l.hierarchy.arity ids) l₁ l₂ entries :=
    countParams_spec (fun e member => (declares.mem_range member).2) declares.nodup counted
  obtain ⟨staged₃, reparams, ready⟩ := staged_of_readParams sound known declares counts read
  obtain ⟨staged₄, extends₄⟩ := readSupertypes_spec staged₃ ready extended
  obtain ⟨⟨n, hierarchy⟩, names⟩ := readMethods_spec ok
  have old : ∀ d, d.index < l.hierarchy.decls.size →
      l₄.hierarchy.content d = l.hierarchy.content d := by
    intro d before
    rw [extends₄.old d before, reparams.others d (declares.notMem before),
      counts.others d (declares.notMem before), declares.old d before]
  have arities : l₄.hierarchy.arity (ids ++ entries.map Prod.snd) =
      l₂.hierarchy.arity (ids ++ entries.map Prod.snd) := by
    funext d
    unfold Hierarchy.arity
    rw [extends₄.params, reparams.length counts.counted]
  have size : l₄.hierarchy.decls.size = l.hierarchy.decls.size + entries.length := by
    rw [extends₄.size, reparams.size, counts.size, declares.size]
  have indices : (ids ++ entries.map Prod.snd).map DeclId.index =
      List.range l₄.hierarchy.decls.size := by
    have new := declares.indices
    rw [List.map_append, List.map_map, sound.indices, size, List.range_eq_range',
      List.range_eq_range', ← List.range'_append_1, Nat.zero_add]
    exact congrArg _ new
  have object : l₂.hierarchy.arity (ids ++ entries.map Prod.snd) .object = some 0 :=
    arity_mono sound declares counts sound.arity_object
  have fresh : ∀ d ∈ entries.map Prod.snd, ¬ Relation.TransGen l₄.hierarchy.Edge d d := by
    intro d new cycle
    have short : (entries.map Prod.snd).length ≤ l₄.hierarchy.decls.size := by
      rw [List.length_map, size]
      omega
    have direct : l₄.hierarchy.Direct := fun d => (staged₄.decls d).direct
    exact ((checkAcyclic_iff short).mp checked d new).not_above (direct.above_of_edges cycle)
  refine ⟨entries.map Prod.snd, ?_, ?_, ?_, ?_⟩
  · rw [hierarchy]
    refine Hierarchy.Sound.fresh ⟨indices, List.mem_append_left _ sound.object, ?_, ?_, ?_⟩ n
    · rw [old _ (sound.index_lt sound.object), sound.root]
    · rw [arities]
      exact staged₄.decls
    · intro d cycle
      -- the last step of a cycle leads to a declaration that is listed
      obtain ⟨c, -, ⟨t, written, head⟩⟩ := Relation.TransGen.tail'_iff.mp cycle
      obtain ⟨formed, -⟩ := (staged₄.decls c).supertype object written
      obtain ⟨k, arity⟩ := formed.head head
      rcases List.mem_append.mp (Hierarchy.arity_eq_some.mp arity).1 with before | new
      · exact sound.acyclic d (old_ancestors sound old before cycle).1
      · exact fresh d new cycle
  · intro name d found
    unfold Registry.lookup? at found
    rw [names, extends₄.registry, reparams.registry, counts.registry] at found
    rcases declares.names name d found with before | new
    · exact List.mem_append_left _ (known name d before)
    · exact List.mem_append_right _ new
  · intro d new
    obtain ⟨e, member, rfl⟩ := List.mem_map.mp new
    unfold Registry.lookup?
    rw [names, extends₄.registry, reparams.registry, counts.registry]
    exact declares.registered e member
  · intro d before
    rw [hierarchy]
    exact congrArg Decl.params (old d (sound.index_lt before))

end Load

end NominalGenerics.Library

/-! ## Hierarchies that loading makes -/

namespace NominalGenerics.Hierarchy

/-- A hierarchy that loading makes, with the registries that name its declarations. A model may be
loaded into any of them: that gives one more registry, and the others stay as they are. -/
inductive Loaded : Hierarchy → List Registry → Prop
  | root : Loaded .root [.root]
  | load {h : Hierarchy} {rs : List Registry} {r : Registry} {model : ClassModel} {l : Library} :
      Loaded h rs → r ∈ rs → (Library.mk h r).load model = .ok l →
      Loaded l.hierarchy (l.registry :: rs)
  | read {h : Hierarchy} {rs : List Registry} (count : Nat) :
      Loaded h rs → Loaded (h.fresh count) rs

/-- A type that reading a text gives, with the type parameters of `scope` and the names of one of
the registries. -/
def Reads (h : Hierarchy) (rs : List Registry) (scope : Scope) (t : Ty) : Prop :=
  ∃ r ∈ rs, ∃ source text, (Reader.mk h r scope source).parseType text = .ok t

/-- What loading makes is sound, names only what is there, and names all that is there but what
stands for a missing type. -/
theorem Loaded.registered {h : Hierarchy} {rs : List Registry} (loaded : h.Loaded rs) :
    ∃ ids, h.Sound ids ∧ (∀ r ∈ rs, ∀ name d, r.lookup? name = some d → d ∈ ids) ∧
      ∀ d ∈ ids, (d = .missing ∧ h.params d = []) ∨ ∃ r ∈ rs, r.lookup? d.name = some d := by
  induction loaded with
  | root =>
    refine ⟨_, sound_root, ?_, ?_⟩
    · intro r member name d found
      rw [List.mem_singleton.mp member] at found
      have names : Registry.root.names = NameMap.empty.insert DeclId.object.name .object := rfl
      unfold Registry.lookup? at found
      rw [names, NameMap.get?_insert] at found
      split at found
      · cases found
        exact List.mem_cons_self
      · cases found
    · intro d listed
      rcases List.mem_cons.mp listed with rfl | listed
      · exact .inr ⟨.root, List.mem_cons_self, by decide⟩
      · exact .inl ⟨List.mem_singleton.mp listed, congrArg Decl.params (content_root d)⟩
  | load _ member ok ih =>
    obtain ⟨ids, sound, known, named⟩ := ih
    obtain ⟨new, soundAfter, knownAfter, namedAfter, params⟩ :=
      Library.load_sound sound (known _ member) ok
    refine ⟨ids ++ new, soundAfter, ?_, ?_⟩
    · intro r listed name d found
      rcases List.mem_cons.mp listed with rfl | before
      · exact knownAfter name d found
      · exact List.mem_append_left _ (known r before name d found)
    · intro d listed
      rcases List.mem_append.mp listed with before | isNew
      · rcases named d before with ⟨missing, plain⟩ | ⟨r, older, found⟩
        · exact .inl ⟨missing, (params d before).trans plain⟩
        · exact .inr ⟨r, List.mem_cons_of_mem _ older, found⟩
      · exact .inr ⟨_, List.mem_cons_self, namedAfter d isNew⟩
  | read count _ ih =>
    obtain ⟨ids, sound, known, named⟩ := ih
    exact ⟨ids, sound.fresh count, known, named⟩

/-- In particular it names all that is generic. -/
theorem Loaded.named {h : Hierarchy} {rs : List Registry} (loaded : h.Loaded rs) :
    ∃ ids, h.Sound ids ∧ (∀ r ∈ rs, ∀ name d, r.lookup? name = some d → d ∈ ids) ∧
      ∀ d ∈ ids, h.params d ≠ [] → ∃ r ∈ rs, r.lookup? d.name = some d := by
  obtain ⟨ids, sound, known, named⟩ := loaded.registered
  refine ⟨ids, sound, known, ?_⟩
  intro d listed generic
  exact (named d listed).resolve_left fun plain => generic plain.2

theorem Loaded.sound {h : Hierarchy} {rs : List Registry} (loaded : h.Loaded rs) :
    ∃ ids, h.Sound ids ∧ ∀ r ∈ rs, ∀ name d, r.lookup? name = some d → d ∈ ids := by
  obtain ⟨ids, sound, known, -⟩ := loaded.named
  exact ⟨ids, sound, known⟩

/-- What is read from a text is formed. -/
theorem Reads.formed {h : Hierarchy} {rs : List Registry} {ids : List DeclId} {scope : Scope}
    {t : Ty} (reads : h.Reads rs scope t) (proper : scope.Proper)
    (known : ∀ r ∈ rs, ∀ name d, r.lookup? name = some d → d ∈ ids) :
    t.Formed (h.arity ids) scope.params := by
  obtain ⟨r, member, source, text, parsed⟩ := reads
  refine Reader.parseType_formed ⟨?_, proper⟩ parsed
  intro name d found
  exact arity_eq_some.mpr ⟨known r member name d found, rfl⟩

/-- Without type parameters in scope it is closed. -/
theorem Reads.closed {h : Hierarchy} {rs : List Registry} {ids : List DeclId} {t : Ty}
    (reads : h.Reads rs .empty t)
    (known : ∀ r ∈ rs, ∀ name d, r.lookup? name = some d → d ∈ ids) :
    t.Formed (h.arity ids) .none :=
  (reads.formed Library.proper_empty known).mono (fun _ _ known => known)
    fun _ _ _ inScope => nomatch inScope

end NominalGenerics.Hierarchy

/-! ## Libraries made from a model -/

namespace NominalGenerics.Library

def ofModel (model : ClassModel) : Library :=
  match Library.root.load model with
  | .ok l => l
  | .error _ => .root

def typeIn (l : Library) (scope : Scope) (text : String) : Ty :=
  match (l.reader scope).parseType text with
  | .ok t => t
  | .error _ => .object

def typeOf (l : Library) (text : String) : Ty := l.typeIn .empty text

theorem loaded_ofModel (model : ClassModel) (ok : (Library.root.load model).isOk = true) :
    (ofModel model).hierarchy.Loaded [(ofModel model).registry, .root] := by
  unfold ofModel
  split
  · rename_i l loaded
    exact .load .root List.mem_cons_self loaded
  · rename_i failed
    rw [failed] at ok
    cases ok

theorem parseType_typeIn {l : Library} {scope : Scope} {text : String}
    (ok : ((l.reader scope).parseType text).isOk = true) :
    (l.reader scope).parseType text = .ok (l.typeIn scope text) := by
  unfold typeIn
  split
  · assumption
  · rename_i failed
    rw [failed] at ok
    cases ok

theorem reads_typeIn {l : Library} {rs : List Registry} (member : l.registry ∈ rs) {scope : Scope}
    {text : String} (ok : ((l.reader scope).parseType text).isOk = true) :
    l.hierarchy.Reads rs scope (l.typeIn scope text) :=
  ⟨l.registry, member, l.hierarchy.sources, text, parseType_typeIn ok⟩

end NominalGenerics.Library

namespace NominalGenerics

/-- A reel is a buffer, which is a sequence of arrays, and a loop, which at the end of a longer
chain is a sequence of elements. A crate is a sequence of arrays of its first kind of content. -/
def reelModel : ClassModel := { types := [
  { name := "Sequence", isInterface := true, params := ["E"] },
  { name := "Text" },
  { name := "Buffer", params := ["T"], implemented := ["Sequence<T[]>"] },
  { name := "Ring", isInterface := true, params := ["Y"], extended := ["Sequence<Y>"] },
  { name := "Loop", isInterface := true, params := ["Z"], extended := ["Ring<Z>"] },
  { name := "Reel", params := ["X"], extended := ["Buffer<X>"], implemented := ["Loop<X>"] },
  { name := "Crate", params := ["A", "B"], implemented := ["Sequence<A[]>"] }] }

def reelLibrary : Library := .ofModel reelModel

theorem loaded_reelLibrary : reelLibrary.hierarchy.Loaded [reelLibrary.registry, .root] :=
  Library.loaded_ofModel reelModel (by decide +kernel)

theorem reads_in_reelLibrary {scope : Scope} {text : String}
    (ok : ((reelLibrary.reader scope).parseType text).isOk = true) :
    reelLibrary.hierarchy.Reads [reelLibrary.registry, .root] scope
      (reelLibrary.typeIn scope text) :=
  Library.reads_typeIn List.mem_cons_self ok

theorem reads_reelLibrary {text : String}
    (ok : ((reelLibrary.reader .empty).parseType text).isOk = true) :
    reelLibrary.hierarchy.Reads [reelLibrary.registry, .root] .empty (reelLibrary.typeOf text) :=
  reads_in_reelLibrary ok

end NominalGenerics
