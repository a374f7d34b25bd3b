import NominalGenerics.CoreLibrary
import NominalGenerics.Proofs.Intact
import NominalGenerics.Proofs.Rereading

/-!
# Loading all or nothing

Loading works on a copy of a registry, but declarations are shared: a load that fails has made some
and filled in others, and these stay behind. `Library.stage` is loading that shows how far it came
(`stage_outcome`). A session is several registries over one hierarchy, copied and extended one by
one; a load either extends its registry by just the model or leaves every registry as it was, and
neither touches what any registry had before (`Session.load_all_or_nothing`).
-/

namespace NominalGenerics

/-- How far loading came: the library it reached, and what it has to go on with unless it failed
there. -/
structure Stage (α : Type) where
  library : Library
  result : Except LoadError α

namespace Stage

variable {α β : Type}

def andThen (s : Stage α) (next : Library → α → Stage β) : Stage β :=
  match s.result with
  | .error e => ⟨s.library, .error e⟩
  | .ok a => next s.library a

/-- Take a step for each item, up to the first that fails. -/
def each (step : Library → α → Except LoadError (Library × β)) (l : Library) :
    List α → Stage (List β)
  | [] => ⟨l, .ok []⟩
  | a :: as =>
    match step l a with
    | .error e => ⟨l, .error e⟩
    | .ok (l, b) => (each step l as).andThen fun l bs => ⟨l, .ok (b :: bs)⟩

/-- What is left when nobody sees how far a failed load came. -/
def outcome (s : Stage α) : Except LoadError (Library × α) :=
  s.result.map fun a => (s.library, a)

theorem outcome_andThen (s : Stage α) (next : Library → α → Stage β) :
    (s.andThen next).outcome = s.outcome >>= fun p => (next p.1 p.2).outcome := by
  rcases s with ⟨l, _ | a⟩ <;> rfl

theorem outcome_each_cons (step : Library → α → Except LoadError (Library × β)) (l : Library)
    (a : α) (as : List α) :
    (each step l (a :: as)).outcome = step l a >>= fun p =>
      (each step p.1 as).outcome >>= fun q => pure (q.1, p.2 :: q.2) := by
  rw [each]
  rcases step l a with e | ⟨l', b⟩
  · rfl
  · exact outcome_andThen _ _

theorem outcome_each_append (step : Library → α → Except LoadError (Library × β)) (l : Library)
    (as bs : List α) :
    (each step l (as ++ bs)).outcome = (each step l as).outcome >>= fun p =>
      (each step p.1 bs).outcome >>= fun q => pure (q.1, p.2 ++ q.2) := by
  induction as generalizing l with
  | nil =>
    show _ = (each step l bs).outcome >>= fun q => pure (q.1, q.2)
    exact (bind_pure _).symm
  | cons a as ih =>
    rw [List.cons_append, outcome_each_cons, outcome_each_cons]
    simp only [ih, bind_assoc, pure_bind, List.cons_append]

/-- A step that leaves what is declared in `h` as it is, when taken for a good item. -/
def Leaves (h : Hierarchy) (step : Library → α → Except LoadError (Library × β))
    (good : α → Prop) (made : β → Prop) : Prop :=
  ∀ l a l' b, h.Grows l.hierarchy → good a → step l a = .ok (l', b) →
    h.Grows l'.hierarchy ∧ made b

/-- However far the steps came, what they leave alone is as it was. -/
theorem Leaves.each {h : Hierarchy} {step : Library → α → Except LoadError (Library × β)}
    {good : α → Prop} {made : β → Prop} (leaves : Leaves h step good made) {as : List α}
    {l : Library} (before : h.Grows l.hierarchy) (all : ∀ a ∈ as, good a) :
    h.Grows (each step l as).library.hierarchy ∧
      ∀ bs, (each step l as).result = .ok bs → ∀ b ∈ bs, made b := by
  induction as generalizing l with
  | nil =>
    refine ⟨before, ?_⟩
    intro bs ok
    cases ok
    exact List.forall_mem_nil _
  | cons a as ih =>
    rw [Stage.each]
    rcases taken : step l a with e | ⟨l', b⟩
    · exact ⟨before, nofun⟩
    · obtain ⟨after, first⟩ := leaves l a l' b before (all a List.mem_cons_self) taken
      obtain ⟨reached, rest⟩ := ih after fun a member => all a (List.mem_cons_of_mem _ member)
      dsimp only
      unfold andThen
      rcases result : (Stage.each step l' as).result with e | bs
      · exact ⟨reached, nofun⟩
      · refine ⟨reached, ?_⟩
        rintro _ ⟨⟩
        exact List.forall_mem_cons.mpr ⟨first, rest bs result⟩

theorem grows_andThen {h : Hierarchy} {s : Stage α} {next : Library → α → Stage β}
    (here : h.Grows s.library.hierarchy)
    (later : ∀ a, s.result = .ok a → h.Grows (next s.library a).library.hierarchy) :
    h.Grows (s.andThen next).library.hierarchy := by
  unfold andThen
  rcases result : s.result with e | a
  · exact here
  · exact later a result

end Stage

namespace Library

/-! ## Loading that shows how far it came -/

def declareStep (l : Library) (p : TypeDecl × Nat) : Except LoadError (Library × Entry) := do
  if p.1.name = "" then .error (.unnamed p.2)
  let form := if p.1.isInterface then .iface else .cls
  let (d, h) := l.hierarchy.declare p.1.name { form := form, pending := p.1.inCompilation }
  let r ← (l.registry.name d).mapError .registry
  return (⟨h, r⟩, (p.1, d))

def countStep (l : Library) (e : Entry) : Except LoadError (Library × Unit) := do
  let params ← (bareParams l.hierarchy.sources e.1.params).mapError fun x =>
    .inType e.1.name (.expression x)
  return ((l.update e.2 fun c => { c with params := params }).read 1, ())

def paramStep (l : Library) (e : Entry) : Except LoadError (Library × Scoped) := do
  let (params, scope) ← ((l.reader .empty).parseParams e.1.params).mapError fun x =>
    .inType e.1.name (.expression x)
  return ((l.update e.2 fun c => { c with params := params }).read
    (Reader.paramSources e.1.params), ⟨e.1, e.2, scope⟩)

def supertypeStep (l : Library) (s : Scoped) : Except LoadError (Library × Unit) := do
  let (super, interfaces) ← (l.supertypesOf s).mapError (.inType s.type.name)
  return ((l.update s.id fun c => { c with super := super, interfaces := interfaces }).read
    (s.type.extended.length + s.type.implemented.length), ())

def methodStep (l : Library) (p : Scoped × MethodDecl) : Except LoadError (Library × Unit) := do
  if p.2.name = "" then .error (.inType p.1.type.name .unnamedMethod)
  let signature ← (parseSignature (l.reader p.1.scope) p.1.id p.2).mapError fun x =>
    .inType p.1.type.name (.inMethod p.2.name x)
  let r ← (l.registry.defineMethod p.1.id.name signature).mapError .registry
  return (Library.read { l with registry := r } (methodSources p.2), ())

/-- Loading that keeps the library it has reached when it fails. -/
def stage (l : Library) (model : ClassModel) : Stage Unit :=
  (Stage.each declareStep l (model.types.zipIdx 1)).andThen fun l entries =>
  (Stage.each countStep l entries).andThen fun l _ =>
  (Stage.each paramStep l entries).andThen fun l types =>
  (Stage.each supertypeStep l types).andThen fun l _ =>
  (Stage.mk l (checkAcyclic l.hierarchy (entries.map Prod.snd))).andThen fun l _ =>
  (Stage.each methodStep l (types.flatMap fun s => s.type.methods.map (s, ·))).andThen fun l _ =>
  ⟨l, .ok ()⟩

/-- What comes with a library does not matter to it. -/
theorem map_fst_bind {ε α β γ : Type} (x : Except ε (α × β)) (g : α × β → γ) :
    (x >>= fun p => pure (p.1, g p)).map Prod.fst = x.map Prod.fst := by
  cases x <;> rfl

section Outcome

variable (l : Library)

theorem outcome_declareTypes (position : Nat) (types : List TypeDecl) :
    (Stage.each declareStep l (types.zipIdx position)).outcome = l.declareTypes position types := by
  induction types generalizing l position with
  | nil => rfl
  | cons t ts ih =>
    rw [List.zipIdx_cons, Stage.outcome_each_cons, declareTypes, declareStep]
    simp only [ih]
    by_cases named : t.name = ""
    · rw [if_pos named, if_pos named]
      rfl
    · rw [if_neg named, if_neg named]
      rcases l.registry.name _ <;> rfl

theorem outcome_countParams (entries : List Entry) :
    (Stage.each countStep l entries).outcome.map Prod.fst = l.countParams entries := by
  induction entries generalizing l with
  | nil => rfl
  | cons e rest ih =>
    rw [Stage.outcome_each_cons, countParams, countStep]
    rcases bareParams l.hierarchy.sources e.1.params with x | params
    · rfl
    · exact (map_fst_bind _ _).trans (ih _)

theorem outcome_readParams (entries : List Entry) :
    (Stage.each paramStep l entries).outcome = l.readParams entries := by
  induction entries generalizing l with
  | nil => rfl
  | cons e rest ih =>
    rw [Stage.outcome_each_cons, readParams, paramStep]
    simp only [ih]
    rcases (l.reader .empty).parseParams e.1.params <;> rfl

theorem outcome_readSupertypes (types : List Scoped) :
    (Stage.each supertypeStep l types).outcome.map Prod.fst = l.readSupertypes types := by
  induction types generalizing l with
  | nil => rfl
  | cons s rest ih =>
    rw [Stage.outcome_each_cons, readSupertypes, supertypeStep]
    rcases l.supertypesOf s with x | ⟨super, interfaces⟩
    · rfl
    · exact (map_fst_bind _ _).trans (ih _)

theorem outcome_readTypeMethods (s : Scoped) (ms : List MethodDecl) :
    (Stage.each methodStep l (ms.map (s, ·))).outcome.map Prod.fst = l.readTypeMethods s ms := by
  induction ms generalizing l with
  | nil => rfl
  | cons m ms ih =>
    rw [List.map_cons, Stage.outcome_each_cons, readTypeMethods, methodStep]
    by_cases named : m.name = ""
    · rw [if_pos named, if_pos named]
      rfl
    · rw [if_neg named, if_neg named]
      rcases parseSignature (l.reader s.scope) s.id m with x | signature
      · rfl
      · dsimp only [Except.mapError, bind, Except.bind]
        rcases l.registry.defineMethod s.id.name signature with x | r
        · rfl
        · exact (map_fst_bind _ _).trans (ih _)

theorem outcome_readMethods (types : List Scoped) :
    (Stage.each methodStep l (types.flatMap fun s => s.type.methods.map (s, ·))).outcome.map
      Prod.fst = l.readMethods types := by
  induction types generalizing l with
  | nil => rfl
  | cons s rest ih =>
    rw [List.flatMap_cons, Stage.outcome_each_append, readMethods, ← outcome_readTypeMethods]
    rcases (Stage.each methodStep l (s.type.methods.map (s, ·))).outcome with x | ⟨l', us⟩
    · rfl
    · exact (map_fst_bind _ _).trans (ih _)

/-- Loading is staging that does not show how far it came. -/
theorem stage_outcome (model : ClassModel) :
    (l.stage model).outcome.map Prod.fst = l.load model := by
  unfold stage load
  rw [Stage.outcome_andThen, outcome_declareTypes]
  rcases l.declareTypes 1 model.types with e | ⟨l₁, entries⟩
  · rfl
  dsimp only [bind, Except.bind]
  rw [Stage.outcome_andThen, ← outcome_countParams]
  rcases (Stage.each countStep l₁ entries).outcome with e | ⟨l₂, -⟩
  · rfl
  dsimp only [bind, Except.bind, Except.map]
  rw [Stage.outcome_andThen, outcome_readParams]
  rcases l₂.readParams entries with e | ⟨l₃, types⟩
  · rfl
  dsimp only [bind, Except.bind]
  rw [Stage.outcome_andThen, ← outcome_readSupertypes]
  rcases (Stage.each supertypeStep l₃ types).outcome with e | ⟨l₄, -⟩
  · rfl
  dsimp only [bind, Except.bind, Except.map]
  rw [Stage.outcome_andThen]
  rcases checkAcyclic l₄.hierarchy (entries.map Prod.snd) with e | ⟨⟩
  · rfl
  show Except.map Prod.fst (Stage.andThen _ _).outcome = _
  rw [Stage.outcome_andThen]
  refine Eq.trans ?_ (outcome_readMethods l₄ types)
  rcases (Stage.each methodStep l₄ _).outcome <;> rfl

end Outcome

/-! ## What a stage leaves alone -/

section Grows

variable {h : Hierarchy} {l l' : Library}

theorem grows_update (grows : h.Grows l.hierarchy) {d : DeclId} (new : h.decls.size ≤ d.index)
    (f : Decl → Decl) (count : Nat) : h.Grows ((l.update d f).read count).hierarchy where
  size := by
    show h.decls.size ≤ (l.hierarchy.update d f).decls.size
    rw [Hierarchy.size_update]
    exact grows.size
  content e before := by
    show (l.hierarchy.update d f).content e = _
    rw [Hierarchy.content_update, if_neg (by omega)]
    exact grows.content e before

theorem leaves_declareStep (h : Hierarchy) :
    Stage.Leaves h declareStep (fun _ => True) fun e => h.decls.size ≤ e.2.index := by
  intro l p l' e grows _ ok
  unfold declareStep at ok
  dsimp only at ok
  split at ok
  · cases ok
  · obtain ⟨r, -, ok⟩ := bind_eq_ok.mp ok
    cases ok
    refine ⟨⟨?_, ?_⟩, grows.size⟩
    · show h.decls.size ≤ (l.hierarchy.decls.push _).size
      rw [Array.size_push]
      exact Nat.le_succ_of_le grows.size
    · intro d before
      have size := grows.size
      rw [Hierarchy.content_declare, if_neg (by omega)]
      exact grows.content d before

theorem leaves_countStep (h : Hierarchy) :
    Stage.Leaves h countStep (fun e => h.decls.size ≤ e.2.index) fun _ => True := by
  intro l e l' _ grows new ok
  obtain ⟨params, -, ok⟩ := bind_eq_ok.mp ok
  cases ok
  exact ⟨grows_update grows new _ _, trivial⟩

theorem leaves_paramStep (h : Hierarchy) :
    Stage.Leaves h paramStep (fun e => h.decls.size ≤ e.2.index)
      fun s => h.decls.size ≤ s.id.index := by
  intro l e l' s grows new ok
  obtain ⟨⟨params, scope⟩, -, ok⟩ := bind_eq_ok.mp ok
  cases ok
  exact ⟨grows_update grows new _ _, new⟩

theorem leaves_supertypeStep (h : Hierarchy) :
    Stage.Leaves h supertypeStep (fun s => h.decls.size ≤ s.id.index) fun _ => True := by
  intro l s l' _ grows new ok
  obtain ⟨⟨super, interfaces⟩, -, ok⟩ := bind_eq_ok.mp ok
  cases ok
  exact ⟨grows_update grows new _ _, trivial⟩

theorem leaves_methodStep (h : Hierarchy) :
    Stage.Leaves h methodStep (fun _ => True) fun _ => True := by
  intro l p l' _ grows _ ok
  unfold methodStep at ok
  dsimp only at ok
  split at ok
  · cases ok
  · obtain ⟨signature, -, ok⟩ := bind_eq_ok.mp ok
    obtain ⟨r, -, ok⟩ := bind_eq_ok.mp ok
    cases ok
    exact ⟨⟨grows.size, grows.content⟩, trivial⟩

/-- However far loading came, what was declared before says the same. -/
theorem stage_grows (l : Library) (model : ClassModel) :
    l.hierarchy.Grows (l.stage model).library.hierarchy := by
  have all : ∀ {α : Type} {as : List α}, ∀ a ∈ as, True := fun _ _ => trivial
  obtain ⟨declared, entries⟩ := (leaves_declareStep l.hierarchy).each (.refl _) all
  refine Stage.grows_andThen declared fun es made => ?_
  obtain ⟨counted, -⟩ := (leaves_countStep l.hierarchy).each declared (entries es made)
  refine Stage.grows_andThen counted fun _ _ => ?_
  obtain ⟨opened, types⟩ := (leaves_paramStep l.hierarchy).each counted (entries es made)
  refine Stage.grows_andThen opened fun ts read => ?_
  obtain ⟨extended, -⟩ := (leaves_supertypeStep l.hierarchy).each opened (types ts read)
  refine Stage.grows_andThen extended fun _ _ => Stage.grows_andThen extended fun _ _ => ?_
  obtain ⟨finished, -⟩ := (leaves_methodStep l.hierarchy).each extended all
  exact Stage.grows_andThen finished fun _ _ => finished

end Grows

section Load

variable {l l' : Library} {model : ClassModel}

theorem load_eq_ok (ok : l.load model = .ok l') :
    (l.stage model).result = .ok () ∧ (l.stage model).library = l' := by
  rw [← stage_outcome] at ok
  rcases staged : l.stage model with ⟨reached, _ | ⟨⟩⟩ <;> rw [staged] at ok <;> cases ok
  exact ⟨rfl, rfl⟩

theorem load_eq_error {e : LoadError} (failed : l.load model = .error e) :
    (l.stage model).result = .error e := by
  rw [← stage_outcome] at failed
  rcases staged : l.stage model with ⟨reached, _ | ⟨⟩⟩ <;> rw [staged] at failed <;> cases failed
  rfl

theorem load_grows (ok : l.load model = .ok l') : l.hierarchy.Grows l'.hierarchy := by
  rw [← (load_eq_ok ok).2]
  exact stage_grows l model

/-- The names after a load are the names before and those of the model. -/
theorem mem_keys_load (ok : l.load model = .ok l') (name : String) :
    name ∈ l'.registry.names.keys ↔
      name ∈ l.registry.names.keys ∨ name ∈ model.types.map TypeDecl.name := by
  obtain ⟨entries, listed, builds⟩ := load_builds ok
  have known : ∀ {r : Registry}, name ∈ r.names.keys ↔ ∃ d, r.lookup? name = some d := by
    intro r
    rw [← Option.isSome_iff_exists, ← Option.ne_none_iff_isSome, ← not_iff_not, not_not]
    exact NameMap.get?_eq_none_iff.symm
  rw [known, known, ← listed, List.map_map]
  constructor
  · rintro ⟨d, found⟩
    rcases builds.names name d found with before | ⟨e, member, -, named⟩
    · exact .inl ⟨d, before⟩
    · exact .inr (List.mem_map.mpr ⟨e, member, named⟩)
  · rintro (⟨d, before⟩ | new)
    · exact ⟨d, builds.kept name d before⟩
    · obtain ⟨e, member, rfl⟩ := List.mem_map.mp new
      exact ⟨e.2, builds.registered e member⟩

/-- A name that was known has the methods it had. -/
theorem methodsOf_load (ok : l.load model = .ok l') {name : String} {d : DeclId}
    (known : l.registry.lookup? name = some d) :
    l'.registry.methodsOf name = l.registry.methodsOf name := by
  obtain ⟨entries, -, builds⟩ := load_builds ok
  apply builds.others
  intro new
  obtain ⟨e, member, rfl⟩ := List.mem_map.mp new
  rw [builds.fresh e member] at known
  cases known

end Load

end Library

/-! ## Sessions -/

/-- Several registries over one hierarchy, and the one that core registries are copied from. -/
structure Session where
  hierarchy : Hierarchy
  core : Registry
  registries : List Registry

namespace Session

/-- Make a registry of the root type alone or of the core library, copy one, or load a model into
one. -/
inductive Command where
  | fresh
  | core
  | clone (i : Nat)
  | load (i : Nat) (model : ClassModel)

/-- Declarations that all registries share, and no registry yet. -/
def sharing (l : Library) : Session := ⟨l.hierarchy, l.registry, []⟩

def start : Session := sharing Library.core

/-- A failed load keeps the declarations it made, but no registry has them. -/
def step (s : Session) : Command → Session
  | .fresh => { s with registries := s.registries ++ [.root] }
  | .core => { s with registries := s.registries ++ [s.core] }
  | .clone i => { s with registries := s.registries ++ s.registries[i]?.toList }
  | .load i model =>
    match s.registries[i]? with
    | none => s
    | some r =>
      let reached := (Library.mk s.hierarchy r).stage model
      match reached.result with
      | .error _ => { s with hierarchy := reached.library.hierarchy }
      | .ok () =>
        { s with
          hierarchy := reached.library.hierarchy
          registries := s.registries.set i reached.library.registry }

def after (commands : List Command) : Session := commands.foldl step start

section Step

variable {s : Session} {i : Nat} {r : Registry} {model : ClassModel}

theorem step_load_error {e : LoadError} (here : s.registries[i]? = some r)
    (failed : (Library.mk s.hierarchy r).load model = .error e) :
    s.step (.load i model) =
      { s with hierarchy := ((Library.mk s.hierarchy r).stage model).library.hierarchy } := by
  simp only [step, here, Library.load_eq_error failed]

theorem step_load_ok {l : Library} (here : s.registries[i]? = some r)
    (ok : (Library.mk s.hierarchy r).load model = .ok l) :
    s.step (.load i model) =
      { s with hierarchy := l.hierarchy, registries := s.registries.set i l.registry } := by
  simp only [step, here, Library.load_eq_ok ok]

/-- What a step does to the hierarchy and to each registry. -/
theorem step_cases (s : Session) (c : Command) :
    s.hierarchy.Grows (s.step c).hierarchy ∧ (s.step c).core = s.core ∧
      ∀ r ∈ (s.step c).registries, r ∈ s.registries ∨ r = .root ∨ r = s.core ∨
        ∃ q ∈ s.registries, ∃ model,
          (Library.mk s.hierarchy q).load model = .ok ⟨(s.step c).hierarchy, r⟩ := by
  cases c with
  | fresh =>
    refine ⟨.refl _, rfl, ?_⟩
    intro r member
    rcases List.mem_append.mp member with before | new
    · exact .inl before
    · exact .inr (.inl (List.mem_singleton.mp new))
  | core =>
    refine ⟨.refl _, rfl, ?_⟩
    intro r member
    rcases List.mem_append.mp member with before | new
    · exact .inl before
    · exact .inr (.inr (.inl (List.mem_singleton.mp new)))
  | clone i =>
    refine ⟨.refl _, rfl, ?_⟩
    intro r member
    rcases List.mem_append.mp member with before | new
    · exact .inl before
    · exact .inl (List.mem_of_getElem? (Option.mem_toList.mp new))
  | load i model =>
    rcases here : s.registries[i]? with _ | q
    · have same : s.step (.load i model) = s := by simp only [step, here]
      rw [same]
      exact ⟨.refl _, rfl, fun r member => .inl member⟩
    · rcases loaded : (Library.mk s.hierarchy q).load model with e | l
      · rw [step_load_error here loaded]
        exact ⟨Library.stage_grows ⟨s.hierarchy, q⟩ model, rfl, fun r member => .inl member⟩
      · rw [step_load_ok here loaded]
        refine ⟨Library.load_grows loaded, rfl, ?_⟩
        intro r member
        rcases List.mem_or_eq_of_mem_set member with before | rfl
        · exact .inl before
        · exact .inr (.inr (.inr ⟨q, List.mem_of_getElem? here, model, loaded⟩))

end Step

theorem load_coreModel : Library.root.load coreModel = .ok Library.core := by
  have loads : (Library.root.load coreModel).isOk = true := by decide +kernel
  unfold Library.core
  generalize Library.root.load coreModel = loaded at loads
  cases loaded with
  | error e => cases loads
  | ok l => rfl

section Induct

variable {P : Hierarchy → Registry → Prop}

/-- What holds of the registries to start from, goes on to hold while declarations are made, and is
kept by loading holds of every registry. -/
theorem registry_induct_from (grow : ∀ h h' r, P h r → h.Grows h' → P h' r)
    (load : ∀ (l l' : Library) (model : ClassModel), P l.hierarchy l.registry →
      l.load model = .ok l' → P l'.hierarchy l'.registry) (commands : List Command) {s : Session}
    (root : P s.hierarchy .root) (core : P s.hierarchy s.core)
    (each : ∀ r ∈ s.registries, P s.hierarchy r) :
    ∀ r ∈ (commands.foldl step s).registries, P (commands.foldl step s).hierarchy r := by
  induction commands generalizing s with
  | nil => exact each
  | cons c commands ih =>
    obtain ⟨grows, same, registries⟩ := step_cases s c
    refine ih (grow _ _ _ root grows) (same ▸ grow _ _ _ core grows) ?_
    intro r member
    rcases registries r member with before | rfl | rfl | ⟨q, before, model, loaded⟩
    · exact grow _ _ _ (each r before) grows
    · exact grow _ _ _ root grows
    · exact grow _ _ _ core grows
    · exact load _ _ _ (each q before) loaded

/-- What holds of the registry of the root type, goes on to hold while declarations are made, and is
kept by loading holds of every registry of every session. -/
theorem registry_induct (root : P .root .root) (grow : ∀ h h' r, P h r → h.Grows h' → P h' r)
    (load : ∀ (l l' : Library) (model : ClassModel), P l.hierarchy l.registry →
      l.load model = .ok l' → P l'.hierarchy l'.registry) (commands : List Command) :
    ∀ r ∈ (after commands).registries, P (after commands).hierarchy r := by
  have shared : ∀ l : Library, Library.root.load coreModel = .ok l →
      P l.hierarchy .root ∧ P l.hierarchy l.registry := by
    intro l loaded
    exact ⟨grow _ _ _ root (Library.load_grows loaded), load _ _ _ root loaded⟩
  have all : ∀ l : Library, P l.hierarchy .root ∧ P l.hierarchy l.registry →
      ∀ r ∈ (commands.foldl step (sharing l)).registries,
        P (commands.foldl step (sharing l)).hierarchy r := by
    intro l here
    exact registry_induct_from grow load commands here.1 here.2 (List.forall_mem_nil _)
  exact all Library.core (shared Library.core load_coreModel)

end Induct

/-- Whatever a registry of a session names has been made. -/
theorem index_lt_of_lookup? (commands : List Command) {r : Registry}
    (member : r ∈ (after commands).registries) {name : String} {d : DeclId}
    (named : r.lookup? name = some d) : d.index < (after commands).hierarchy.decls.size := by
  revert name d
  refine registry_induct (P := fun h r => ∀ {name : String} {d : DeclId},
    r.lookup? name = some d → d.index < h.decls.size) ?_ ?_ ?_ commands r member
  · intro name d named
    rw [(Library.lookup?_root named).2]
    decide
  · intro h h' r before grows name d named
    exact Nat.lt_of_lt_of_le (before named) grows.size
  · intro l l' model before ok name d named
    obtain ⟨entries, -, builds⟩ := Library.load_builds ok
    rcases builds.names name d named with old | ⟨e, member, rfl, -⟩
    · exact Nat.lt_of_lt_of_le (before old) builds.toArranged.grows.size
    · exact (builds.mem_range member).2

/-- What a load of a model into registry `i` of a session does. -/
structure LoadsWhole (s : Session) (i : Nat) (r : Registry) (model : ClassModel) : Prop where
  /-- A failed load leaves every registry as it was. -/
  failed : ∀ e, (Library.mk s.hierarchy r).load model = .error e →
    (s.step (.load i model)).registries = s.registries
  /-- Otherwise only the one registry changes. -/
  loaded : ∀ l, (Library.mk s.hierarchy r).load model = .ok l →
    (s.step (.load i model)).registries = s.registries.set i l.registry
  /-- It has its names with the same declarations and methods, and those of the model. -/
  kept : ∀ l, (Library.mk s.hierarchy r).load model = .ok l → ∀ name d, r.lookup? name = some d →
    l.registry.lookup? name = some d ∧ l.registry.methodsOf name = r.methodsOf name
  added : ∀ l, (Library.mk s.hierarchy r).load model = .ok l → ∀ name,
    name ∈ l.registry.names.keys ↔ name ∈ r.names.keys ∨ name ∈ model.types.map TypeDecl.name
  /-- Either way, whatever any registry names says what it said. -/
  contents : ∀ q ∈ s.registries, ∀ name d, q.lookup? name = some d →
    (s.step (.load i model)).hierarchy.content d = s.hierarchy.content d
  /-- And what could be read with any registry is read as an equal type or slot. -/
  reads : ∀ (j : Nat) (q q' : Registry), s.registries[j]? = some q →
    (s.step (.load i model)).registries[j]? = some q' → ∀ scope source source' text,
      (∀ t, (Reader.mk s.hierarchy q scope source).parseType text = .ok t →
        ∃ t', (Reader.mk (s.step (.load i model)).hierarchy q' scope source').parseType text =
          .ok t' ∧ (s.step (.load i model)).hierarchy.equal t' t = true) ∧
      ∀ slot, (Reader.mk s.hierarchy q scope source).parseSlot text = .ok slot →
        ∃ slot', (Reader.mk (s.step (.load i model)).hierarchy q' scope source').parseSlot text =
          .ok slot' ∧ (s.step (.load i model)).hierarchy.slotEqual slot' slot = true

/-- A name that a registry has keeps its declaration, whatever is loaded. -/
theorem lookup?_step_load {s : Session} {i j : Nat} {r q q' : Registry} {model : ClassModel}
    (here : s.registries[i]? = some r) (before : s.registries[j]? = some q)
    (after : (s.step (.load i model)).registries[j]? = some q') {name : String} {d : DeclId}
    (named : q.lookup? name = some d) : q'.lookup? name = some d := by
  rcases loaded : (Library.mk s.hierarchy r).load model with e | l
  · rw [step_load_error here loaded] at after
    cases before.symm.trans after
    exact named
  · rw [step_load_ok here loaded] at after
    dsimp only at after
    by_cases same : i = j
    · subst same
      obtain ⟨inside, -⟩ := List.getElem?_eq_some_iff.mp here
      rw [List.getElem?_set_self inside] at after
      cases after
      cases here.symm.trans before
      obtain ⟨entries, -, builds⟩ := Library.load_builds loaded
      exact builds.kept name d named
    · rw [List.getElem?_set_ne same] at after
      cases before.symm.trans after
      exact named

/-- Loading is all or nothing, and leaves alone what was there. -/
theorem load_all_or_nothing (commands : List Command) (i : Nat) (r : Registry) (model : ClassModel)
    (here : (after commands).registries[i]? = some r) : LoadsWhole (after commands) i r model := by
  have contents : ∀ q ∈ (after commands).registries, ∀ name d, q.lookup? name = some d →
      ((after commands).step (.load i model)).hierarchy.content d =
        (after commands).hierarchy.content d := by
    intro q member name d named
    exact (step_cases _ _).1.content d (index_lt_of_lookup? commands member named)
  generalize after commands = s at here contents ⊢
  refine ⟨?_, ?_, ?_, ?_, contents, ?_⟩
  · intro e failed
    rw [step_load_error here failed]
  · intro l loaded
    rw [step_load_ok here loaded]
  · intro l loaded name d named
    obtain ⟨entries, -, builds⟩ := Library.load_builds loaded
    exact ⟨builds.kept name d named, Library.methodsOf_load loaded named⟩
  · intro l loaded name
    exact Library.mem_keys_load loaded name
  · intro j q q' before after scope source source' text
    have follows : (Reader.mk s.hierarchy q scope source).Follows id
        (Reader.mk (s.step (.load i model)).hierarchy q' scope source') := by
      refine ⟨fun _ => rfl, ?_, ?_⟩
      · intro n d named
        exact lookup?_step_load here before after named
      · intro n d named
        unfold Hierarchy.params
        rw [id, contents q (List.mem_of_getElem? before) n d named]
    constructor
    · intro t read
      obtain ⟨t', again, same⟩ := follows.parseType read
      exact ⟨t', again, Hierarchy.equal_of_outline _ same⟩
    · intro slot read
      obtain ⟨slot', again, same⟩ := follows.parseSlot read
      exact ⟨slot', again, Hierarchy.slotEqual_of_outline _ same⟩

/-- A registry and its copy take a model that loads, and one that names a type twice. -/
theorem copied_load_all_or_nothing :
    (after [.fresh, .clone 0]).registries[0]? = some .root ∧
      (after [.fresh, .clone 0]).registries[1]? = some .root ∧
      ((Library.mk (after [.fresh, .clone 0]).hierarchy .root).load reelModel).isOk = true ∧
      ((Library.mk (after [.fresh, .clone 0]).hierarchy .root).load
        ⟨reelModel.types ++ reelModel.types⟩).isOk = false ∧
      LoadsWhole (after [.fresh, .clone 0]) 0 .root reelModel ∧
      LoadsWhole (after [.fresh, .clone 0]) 1 .root ⟨reelModel.types ++ reelModel.types⟩ := by
  have first : (after [.fresh, .clone 0]).registries[0]? = some .root := rfl
  have second : (after [.fresh, .clone 0]).registries[1]? = some .root := rfl
  have outcomes : ((Library.mk (after [.fresh, .clone 0]).hierarchy .root).load
        reelModel).isOk = true ∧
      ((Library.mk (after [.fresh, .clone 0]).hierarchy .root).load
        ⟨reelModel.types ++ reelModel.types⟩).isOk = false := by
    decide +kernel
  exact ⟨first, second, outcomes.1, outcomes.2, load_all_or_nothing _ 0 .root _ first,
    load_all_or_nothing _ 1 .root _ second⟩

end Session

end NominalGenerics
