import NominalGenerics.Proofs.Composition
import NominalGenerics.Proofs.Connecting
import NominalGenerics.Proofs.Members

/-!
# Resolved signatures

A method is resolved by substituting in its signature what the receiver supplies for the parameters
of the owner, and for each type parameter of the method itself. The latter may bear the name of one
of the former, which it then shadows. To tell the two apart type parameters are counted as nodes,
with their bounds, and not only by their names (`Hierarchy.paramsIn`).

Main statement: the type parameters in a signature resolved on a closed type are the method's own,
at the places where the signature mentions them (`Engine.resolved_paramsIn_own`).
-/

namespace NominalGenerics

/-! ## Type parameters as nodes -/

namespace Hierarchy

variable {h : Hierarchy} {ids : List DeclId} {P : ParamSet} {spec : Spec} {own : List String}

mutual

/-- The type parameters that a type mentions, with their bounds. -/
def paramsIn (h : Hierarchy) : Ty → List Ty
  | .decl d => (h.params d).map Slot.ty
  | .bare _ _ => []
  | .app _ _ args => h.slotsParamsIn args
  | .param s n bs => [.param s n bs]
  | .array _ e => h.paramsIn e

def slotParamsIn (h : Hierarchy) : Slot → List Ty
  | .exact _ t => h.paramsIn t
  | .rebound _ _ _ [] => []
  | .rebound _ _ _ (u :: _) => h.paramsIn u
  | .param _ _ s n bs => [.param s n bs]
  | .wildcard _ none us => h.typesParamsIn us
  | .wildcard _ (some l) us => h.paramsIn l ++ h.typesParamsIn us

def typesParamsIn (h : Hierarchy) : List Ty → List Ty
  | [] => []
  | t :: ts => h.paramsIn t ++ h.typesParamsIn ts

def slotsParamsIn (h : Hierarchy) : List Slot → List Ty
  | [] => []
  | s :: ss => h.slotParamsIn s ++ h.slotsParamsIn ss

end

mutual

theorem Parametric.map_name_paramsIn (parametric : h.Parametric) :
    ∀ t : Ty, (h.paramsIn t).map Ty.name = h.mentions t
  | .decl d => by
    rw [paramsIn, mentions, List.map_map]
    refine List.map_congr_left ?_
    intro p declared
    cases p with
    | param => rfl
    | exact | rebound | wildcard => cases parametric.params d _ declared
  | .bare _ _ | .param _ _ _ => rfl
  | .app _ _ args => parametric.map_name_slotsParamsIn args
  | .array _ e => parametric.map_name_paramsIn e

theorem Parametric.map_name_slotParamsIn (parametric : h.Parametric) :
    ∀ s : Slot, (h.slotParamsIn s).map Ty.name = h.slotMentions s
  | .exact _ t | .rebound _ _ _ (t :: _) => parametric.map_name_paramsIn t
  | .rebound _ _ _ [] | .param _ _ _ _ _ => rfl
  | .wildcard _ none us => parametric.map_name_typesParamsIn us
  | .wildcard _ (some l) us => by
    rw [slotParamsIn, slotMentions, List.map_append, parametric.map_name_paramsIn l,
      parametric.map_name_typesParamsIn us]

theorem Parametric.map_name_typesParamsIn (parametric : h.Parametric) :
    ∀ ts : List Ty, (h.typesParamsIn ts).map Ty.name = h.typesMention ts
  | [] => rfl
  | t :: ts => by
    rw [typesParamsIn, typesMention, List.map_append, parametric.map_name_paramsIn t,
      parametric.map_name_typesParamsIn ts]

theorem Parametric.map_name_slotsParamsIn (parametric : h.Parametric) :
    ∀ ss : List Slot, (h.slotsParamsIn ss).map Ty.name = h.slotsMention ss
  | [] => rfl
  | s :: ss => by
    rw [slotsParamsIn, slotsMention, List.map_append, parametric.map_name_slotParamsIn s,
      parametric.map_name_slotsParamsIn ss]

end

mutual

/-- A closed type mentions no type parameter. -/
theorem paramsIn_of_closed : ∀ {t : Ty}, t.Formed (h.arity ids) .none → h.paramsIn t = []
  | .decl _, closed => by
    rw [paramsIn, Formed.params_eq_nil closed]
    rfl
  | .bare _ _, _ => rfl
  | .app _ _ _, ⟨_, closed⟩ => slotsParamsIn_of_closed closed
  | .array _ e, closed => paramsIn_of_closed (t := e) closed

theorem slotParamsIn_of_closed : ∀ {s : Slot}, s.Formed (h.arity ids) .none → h.slotParamsIn s = []
  | .exact _ _, ⟨_, _, closed⟩ => paramsIn_of_closed closed
  | .wildcard _ none _, ⟨_, closed⟩ => typesParamsIn_of_closed closed
  | .wildcard _ (some _) _, ⟨_, lower, upper⟩ => by
    rw [slotParamsIn, paramsIn_of_closed lower, typesParamsIn_of_closed upper]
    rfl

theorem typesParamsIn_of_closed : ∀ {ts : List Ty}, Ty.FormedAll (h.arity ids) .none ts →
    h.typesParamsIn ts = []
  | [], _ => rfl
  | _ :: _, ⟨first, rest⟩ => by
    rw [typesParamsIn, paramsIn_of_closed first, typesParamsIn_of_closed rest]
    rfl

theorem slotsParamsIn_of_closed : ∀ {ss : List Slot}, Slot.FormedAll (h.arity ids) .none ss →
    h.slotsParamsIn ss = []
  | [], _ => rfl
  | _ :: _, ⟨first, rest⟩ => by
    rw [slotsParamsIn, slotParamsIn_of_closed first, slotsParamsIn_of_closed rest]
    rfl

end

/-! ## What stays in place -/

/-- In `spec` the `own` names stand for type parameters of their name, and the others for what
mentions none. -/
structure Retains (h : Hierarchy) (own : List String) (spec : Spec) : Prop where
  itself : ∀ n ∈ own, ∃ s b bs, spec.get? n = some (.parameter s n (b :: bs))
  others : ∀ n ∉ own, ∀ s, spec.get? n = some s → h.slotParamsIn s = []

/-- What the own ones among some names stand for. -/
def kept (own : List String) (spec : Spec) (names : List String) : List Ty :=
  (names.filter (· ∈ own)).map spec.once

@[simp]
theorem kept_append (as bs : List String) :
    kept own spec (as ++ bs) = kept own spec as ++ kept own spec bs := by
  simp [kept]

theorem Parametric.paramsIn_object (parametric : h.Parametric) : h.paramsIn .object = [] := by
  rw [Ty.object, paramsIn, parametric.root]
  rfl

/-- A slot without type parameters denotes a type without them. -/
theorem Parametric.paramsIn_ty (parametric : h.Parametric) {s : Slot}
    (closed : h.slotParamsIn s = []) : h.paramsIn s.ty = [] := by
  have names := parametric.map_name_slotParamsIn s
  rw [closed] at names
  have none := parametric.mentions_ty names.symm
  rw [← parametric.map_name_paramsIn] at none
  exact List.map_eq_nil_iff.mp none

theorem slotParamsIn_ofTy (h : Hierarchy) (site : Site) (t : Ty) :
    h.slotParamsIn (.ofTy site t) = h.paramsIn t := by
  cases t <;> rfl

namespace Retains

/-- No name is led to another. -/
theorem resolve_eq (retains : h.Retains own spec) (parametric : h.Parametric) (site : Site)
    (n : String) (bounds : List Ty) : spec.resolve [] site n bounds = spec.once n := by
  refine resolve_eq_once ?_ site bounds
  intro s node n' b bs found _ same _
  by_cases mine : n ∈ own
  · obtain ⟨_, _, _, itself⟩ := retains.itself n mine
    cases itself.symm.trans found
    cases same
    rfl
  · have none := parametric.paramsIn_ty (retains.others n mine s found)
    rw [same] at none
    cases none

theorem once_own (retains : h.Retains own spec) {n : String} (mine : n ∈ own) :
    ∃ s b bs, spec.get? n = some (.parameter s n (b :: bs)) ∧
      spec.once n = .param s n (b :: bs) := by
  obtain ⟨s, b, bs, itself⟩ := retains.itself n mine
  refine ⟨s, b, bs, itself, ?_⟩
  unfold Spec.once
  rw [itself]
  rfl

theorem paramsIn_once (retains : h.Retains own spec) (parametric : h.Parametric) (n : String) :
    h.paramsIn (spec.once n) = kept own spec [n] := by
  by_cases mine : n ∈ own
  · obtain ⟨s, b, bs, -, once⟩ := retains.once_own mine
    simp [kept, mine, once, paramsIn]
  · have none : kept own spec [n] = [] := by simp [kept, mine]
    rw [none]
    unfold Spec.once
    cases found : spec.get? n with
    | none => exact parametric.paramsIn_object
    | some s =>
      have closed := parametric.paramsIn_ty (retains.others n mine s found)
      dsimp only
      split
      · exact closed
      · revert closed
        cases s.ty with
        | param =>
          intro closed
          cases closed
        | decl | bare | app | array => exact id

theorem slotParamsIn_resolveSlot (retains : h.Retains own spec) (parametric : h.Parametric)
    (p : Slot) : h.slotParamsIn (spec.resolveSlot [] p) = kept own spec [p.name] := by
  unfold Spec.resolveSlot
  by_cases mine : p.name ∈ own
  · obtain ⟨s, b, bs, itself, once⟩ := retains.once_own mine
    simp [kept, mine, itself, once, slotParamsIn, Slot.parameter]
  · have none : kept own spec [p.name] = [] := by simp [kept, mine]
    rw [none]
    cases found : spec.get? p.name with
    | none => exact parametric.paramsIn_object
    | some s => exact retains.others _ mine s found

theorem slotsParamsIn_resolveSlot (retains : h.Retains own spec) (parametric : h.Parametric)
    (ps : List Slot) :
    h.slotsParamsIn (ps.map (spec.resolveSlot [])) = kept own spec (ps.map Slot.name) := by
  induction ps with
  | nil => rfl
  | cons p ps ih =>
    rw [List.map_cons, slotsParamsIn, retains.slotParamsIn_resolveSlot parametric p, ih,
      ← kept_append]
    rfl

mutual

/-- Substitution leaves the own type parameters that a type mentions in their places, as what they
stand for, and no others. -/
theorem paramsIn_subst (retains : h.Retains own spec) (parametric : h.Parametric) :
    ∀ t : Ty, h.paramsIn (h.subst spec [] t) = kept own spec (h.mentions t)
  | .decl d => by
    rw [subst, mentions]
    split
    · rename_i none
      rw [paramsIn, none]
      rfl
    · exact retains.slotsParamsIn_resolveSlot parametric (h.params d)
  | .bare _ _ => rfl
  | .app _ _ args => retains.slotsParamsIn_subst parametric args
  | .param s n bs => by
    rw [subst, retains.resolve_eq parametric, retains.paramsIn_once parametric, mentions]
  | .array _ e => retains.paramsIn_subst parametric e

theorem slotParamsIn_subst (retains : h.Retains own spec) (parametric : h.Parametric) :
    ∀ s : Slot, h.slotParamsIn (h.substSlot spec [] s) = kept own spec (h.slotMentions s)
  | .exact _ t | .rebound _ _ _ (t :: _) => by
    rw [substSlot, slotParamsIn_ofTy, slotMentions, retains.paramsIn_subst parametric t]
  | .rebound _ _ _ [] => parametric.paramsIn_object
  | .param m l s n bs => retains.slotParamsIn_resolveSlot parametric (.param m l s n bs)
  | .wildcard _ none us => retains.typesParamsIn_subst parametric us
  | .wildcard _ (some l) us => by
    rw [substSlot, slotParamsIn, slotMentions, retains.paramsIn_subst parametric l,
      retains.typesParamsIn_subst parametric us, kept_append]

theorem typesParamsIn_subst (retains : h.Retains own spec) (parametric : h.Parametric) :
    ∀ ts : List Ty, h.typesParamsIn (h.substTypes spec [] ts) = kept own spec (h.typesMention ts)
  | [] => rfl
  | t :: ts => by
    rw [substTypes, typesParamsIn, typesMention, retains.paramsIn_subst parametric t,
      retains.typesParamsIn_subst parametric ts, kept_append]

theorem slotsParamsIn_subst (retains : h.Retains own spec) (parametric : h.Parametric) :
    ∀ ss : List Slot, h.slotsParamsIn (h.substSlots spec [] ss) = kept own spec (h.slotsMention ss)
  | [] => rfl
  | s :: ss => by
    rw [substSlots, slotsParamsIn, slotsMention, retains.slotParamsIn_subst parametric s,
      retains.slotsParamsIn_subst parametric ss, kept_append]

end

theorem mem_of_mem_mentions (retains : h.Retains own spec) (parametric : h.Parametric) {t : Ty}
    {n : String} (mentioned : n ∈ h.mentions (h.subst spec [] t)) : n ∈ own := by
  rw [← parametric.map_name_paramsIn, retains.paramsIn_subst parametric, kept] at mentioned
  simp only [List.mem_map, List.mem_filter, decide_eq_true_eq] at mentioned
  obtain ⟨_, ⟨k, ⟨-, mine⟩, rfl⟩, named⟩ := mentioned
  obtain ⟨s, b, bs, -, once⟩ := retains.once_own mine
  rw [once] at named
  cases named
  exact mine

end Retains

theorem substTypes_eq_map (h : Hierarchy) (spec : Spec) (excluded : List String) (ts : List Ty) :
    h.substTypes spec excluded ts = ts.map (h.subst spec excluded) := by
  induction ts with
  | nil => rfl
  | cons t ts ih => rw [substTypes, ih, List.map_cons]

/-- What a closed type supplies mentions no type parameter. -/
theorem closed_of_createSpec : ∀ {t : Ty}, t.Formed (h.arity ids) .none →
    h.createSpec .empty t = .ok spec → ∀ n s, spec.get? n = some s → h.slotParamsIn s = []
  | .array _ e, closed, ok => closed_of_createSpec (t := e) closed ok
  | .decl _, closed, ok | .bare _ _, closed, ok | .app _ _ _, closed, ok => by
    obtain ⟨_, created, values⟩ := createSpec_spec closed rfl
    cases created.symm.trans ok
    intro n s found
    obtain ⟨p, paired, -⟩ := values n s found
    exact slotParamsIn_of_closed (args_formed closed (List.of_mem_zip paired).2)

end Hierarchy

/-! ## What a method adds -/

/-- What was put into a map one by one is found under its key, and the rest as before. -/
theorem NameMap.get?_foldl_insert {α β : Type} (key : β → String) (f : β → α) (xs : List β)
    (m : NameMap α) (n : String) :
    (n ∉ xs.map key ∧ (xs.foldl (fun acc x => acc.insert (key x) (f x)) m).get? n = m.get? n) ∨
      ∃ x ∈ xs, key x = n ∧
        (xs.foldl (fun acc x => acc.insert (key x) (f x)) m).get? n = some (f x) := by
  induction xs generalizing m with
  | nil => exact .inl ⟨List.not_mem_nil, rfl⟩
  | cons x xs ih =>
    rcases ih (m.insert (key x) (f x)) with ⟨unlisted, same⟩ | ⟨y, member, named, found⟩
    · rw [NameMap.get?_insert] at same
      by_cases here : n = key x
      · rw [if_pos here] at same
        exact .inr ⟨x, List.mem_cons_self, here.symm, same⟩
      · rw [if_neg here] at same
        exact .inl ⟨by simp [here, unlisted], same⟩
    · exact .inr ⟨y, List.mem_cons_of_mem _ member, named, found⟩

namespace Hierarchy

/-- A method adds its type parameters one by one, each with some bound. -/
theorem addMethodParams_eq (h : Hierarchy) (spec : Spec) (typeParams : List Slot) :
    ∃ entry : Slot → Slot,
      h.addMethodParams spec typeParams =
        typeParams.foldl (fun acc p => acc.insert p.name (entry p)) spec ∧
      ∀ p, p.isParam = true → ∃ s b bs, entry p = .parameter s p.name (b :: bs) := by
  refine ⟨_, rfl, ?_⟩
  intro p isParam
  cases p with
  | param m l s n bs =>
    cases bs with
    | nil => exact ⟨m.site, _, _, rfl⟩
    | cons b bs =>
      dsimp only
      split
      · exact ⟨m.site, b, bs, rfl⟩
      · exact ⟨m.site, _, _, rfl⟩
  | exact | rebound | wildcard => cases isParam

/-- The type parameters of a method stand for themselves. -/
theorem retains_addMethodParams {h : Hierarchy} {spec : Spec} {typeParams : List Slot}
    (isParam : ∀ p ∈ typeParams, p.isParam = true)
    (closed : ∀ n s, spec.get? n = some s → h.slotParamsIn s = []) :
    h.Retains (typeParams.map Slot.name) (h.addMethodParams spec typeParams) := by
  obtain ⟨entry, added, itself⟩ := h.addMethodParams_eq spec typeParams
  rw [added]
  -- an own name is found as the method added it, whatever the owner had under it
  have found := NameMap.get?_foldl_insert Slot.name entry typeParams spec
  constructor
  · intro n mine
    rcases found n with ⟨unlisted, -⟩ | ⟨p, member, rfl, here⟩
    · exact absurd mine unlisted
    · obtain ⟨s, b, bs, same⟩ := itself p (isParam p member)
      exact ⟨s, b, bs, same ▸ here⟩
  · intro n other s known
    rcases found n with ⟨-, before⟩ | ⟨p, member, rfl, -⟩
    · exact closed n s (before ▸ known)
    · exact absurd (List.mem_map_of_mem member) other

end Hierarchy

/-! ## Type parameters of methods -/

theorem Reader.parseParam_isParam {r : Reader} {text : String} {p : Slot}
    (ok : r.parseParam text = .ok p) : p.isParam = true := by
  obtain ⟨fuel, tokens, rest, read⟩ := readWhole_eq_ok (mapError_eq_ok.mp ok)
  unfold readParam at read
  split at read
  · obtain ⟨_, -, read⟩ := bind_eq_ok.mp read
    cases read
    rfl
  · cases read
    rfl
  · exact absurd read fail_ne_ok

theorem Reader.parseEach_isParam {r : Reader} {texts : List String} {scope scope' : Scope}
    {params : List Slot} (ok : r.parseEach texts scope = .ok (params, scope')) :
    ∀ p ∈ params, p.isParam = true := by
  induction texts generalizing r scope params with
  | nil =>
    cases ok
    exact List.forall_mem_nil _
  | cons text texts ih =>
    obtain ⟨p, read, ok⟩ := bind_eq_ok.mp ok
    obtain ⟨⟨ps, after⟩, readRest, ok⟩ := bind_eq_ok.mp ok
    cases ok
    exact List.forall_mem_cons.mpr ⟨parseParam_isParam read, ih readRest⟩

theorem Library.parseSignature_isParam {r : Reader} {d : DeclId} {m : MethodDecl}
    {signature : Signature} (ok : parseSignature r d m = .ok signature) :
    ∀ p ∈ signature.typeParams, p.isParam = true := by
  obtain ⟨scope, -, readParams, -⟩ := parseSignature_parts ok
  obtain ⟨_, -, readEach⟩ := bind_eq_ok.mp readParams
  exact Reader.parseEach_isParam readEach

theorem Hierarchy.Loaded.typeParams_isParam {h : Hierarchy} {rs : List Registry}
    (loaded : h.Loaded rs) {r : Registry} (member : r ∈ rs) {name : String} {m : Signature}
    (listed : m ∈ r.methodsOf name) : ∀ p ∈ m.typeParams, p.isParam = true := by
  let P : Hierarchy → Registry → Prop := fun _ r =>
    ∀ name, ∀ m ∈ r.methodsOf name, ∀ p ∈ m.typeParams, p.isParam = true
  refine loaded.registry_induct (P := P) ?_ (fun _ _ _ before _ => before) ?_ r member name m listed
  · intro name m listed
    cases listed
  · intro l l' model before ok name m listed
    obtain ⟨entries, -, builds⟩ := Library.load_builds ok
    rcases builds.methods listed with old | ⟨e, -, rfl, scope, -, signatures, signs, added⟩
    · exact before name m old
    · obtain ⟨_, _, -, read⟩ := signs.parsed added
      exact Library.parseSignature_isParam read

/-! ## Resolving on a closed type -/

def Hierarchy.useSpec (h : Hierarchy) : Option Ty → Except Failure Spec
  | none => .ok .empty
  | some use => h.createSpec .empty use

/-- What is supplied from a closed type mentions no type parameter. -/
theorem Hierarchy.Sound.useSpec_closed {h : Hierarchy} {ids : List DeclId} (sound : h.Sound ids)
    {decl receiver : Ty} (closed : receiver.Formed (h.arity ids) .none) {found : Option Ty}
    (located : h.locateUse decl receiver = .ok found) {spec : Spec}
    (supplied : h.useSpec found = .ok spec) :
    ∀ n s, spec.get? n = some s → h.slotParamsIn s = [] := by
  obtain ⟨_, located', closed⟩ := sound.locateUse_formed ParamSet.none_stable closed decl
  cases located'.symm.trans located
  cases found with
  | none =>
    cases supplied
    intro n s found
    cases found
  | some use => exact closed_of_createSpec (closed use rfl) supplied

namespace Engine

variable {h : Hierarchy} {e plain : Engine} {receiver owner : Ty} {m : Signature}
  {resolved : Resolved}

theorem resolveWith_eq_ok {spec : Spec} {params : List Ty} (typed : m.params = params.map some)
    (ok : (resolveWith h spec (some receiver) m).result = .ok resolved) :
    resolved.spec = h.addMethodParams spec m.typeParams ∧
    resolved.params = params.map (h.subst resolved.spec []) ∧
    ∀ u, resolved.returns = some u → ∃ t, m.returns = some t ∧ u = h.subst resolved.spec [] t := by
  unfold resolveWith at ok
  simp only [typed, mapM_map_some] at ok
  cases ok
  refine ⟨rfl, Hierarchy.substTypes_eq_map h _ [] params, ?_⟩
  intro u answer
  obtain ⟨v, substituted, same⟩ := Option.bind_eq_some_iff.mp answer
  obtain ⟨t, written, rfl⟩ := Option.map_eq_some_iff.mp substituted
  unfold Ty.toOption at same
  split at same
  · cases same
  · cases same
    exact ⟨t, written, rfl⟩

theorem Shadowed.resolve_eq_ok (shadowed : Shadowed h e plain)
    (ok : (e.resolve h receiver owner m).1.result = .ok resolved) :
    ∃ found spec, h.locateUse (h.declaration owner) receiver = .ok found ∧
      h.useSpec found = .ok spec ∧
      (resolveWith h spec (some receiver) m).result = .ok resolved := by
  unfold Engine.resolve at ok
  dsimp only at ok
  split at ok
  · cases ok
  · rw [Traced.result_reported, Traced.result_bind, shadowed.locate_result] at ok
    cases located : h.locateUse (h.declaration owner) receiver with
    | error f =>
      rw [located] at ok
      cases ok
    | ok found =>
      rw [located] at ok
      refine ⟨found, ?_⟩
      cases found with
      | none => exact ⟨.empty, rfl, rfl, ok⟩
      | some use =>
        cases created : h.createSpec .empty use with
        | error f =>
          dsimp only [Except.bind] at ok
          rw [created] at ok
          cases ok
        | ok spec =>
          dsimp only [Except.bind] at ok
          rw [created] at ok
          exact ⟨spec, rfl, created, ok⟩

theorem resolve_of_resolveOption (owned : m.owner = some owner)
    (ok : (e.resolveOption h (some receiver) m).1.result = .ok resolved) :
    (e.resolve h receiver owner m).1.result = .ok resolved := by
  unfold Engine.resolveOption at ok
  simp only [owned] at ok
  split at ok
  · cases ok
  · split at ok
    · cases ok
    · rw [Traced.result_bind] at ok
      cases seen : (e.resolve h receiver owner m).1.result with
      | error f =>
        rw [seen] at ok
        cases ok
      | ok answer =>
        rw [seen] at ok
        dsimp only [Except.bind] at ok
        unfold guarded at ok
        split at ok
        · cases ok
        · cases ok
          rfl

/-- A signature resolved on a closed type mentions type parameters of the method only. Each of these
stands for itself, and is found where the signature mentions its name. So a parameter of the owner
or of another class is not left in a resolved signature, also if the method has one of that name. -/
theorem resolved_paramsIn_own {rs : List Registry} (loaded : h.Loaded rs) {r : Registry}
    (member : r ∈ rs) {name : String} (listed : m ∈ r.methodsOf name)
    (reads : h.Reads rs .empty receiver) (settings : Settings) (requests : List Request)
    (ok : (((ofSettings settings).after h requests).resolveOption h (some receiver) m).1.result =
      .ok resolved) :
    let own := m.typeParams.map Slot.name
    (∀ u ∈ resolved.params ++ resolved.returns.toList, ∀ n ∈ h.mentions u, n ∈ own) ∧
    (∀ n ∈ own, ∃ s b bs, resolved.spec.get? n = some (.parameter s n (b :: bs)) ∧
      resolved.spec.once n = .param s n (b :: bs) ∧
      ∀ s' bs', h.subst resolved.spec [] (.param s' n bs') = resolved.spec.once n) ∧
    (∃ params : List Ty, m.params = params.map some ∧ resolved.params.map h.paramsIn =
      params.map fun t => Hierarchy.kept own resolved.spec (h.mentions t)) ∧
    ∀ u, resolved.returns = some u → ∃ t, m.returns = some t ∧
      h.paramsIn u = Hierarchy.kept own resolved.spec (h.mentions t) := by
  intro own
  obtain ⟨ids, sound, known⟩ := loaded.sound
  have parametric := sound.parametric
  have shadowed := (Shadowed.ofSettings h settings).after requests
  have complete := loaded.complete member
  obtain ⟨d, -, owned⟩ := complete.owned name m listed
  obtain ⟨params, typed⟩ := complete.typed name m listed
  obtain ⟨found, spec, located, supplied, ok⟩ :=
    shadowed.resolve_eq_ok (resolve_of_resolveOption owned ok)
  obtain ⟨extended, passed, returned⟩ := resolveWith_eq_ok typed ok
  have retains : h.Retains own resolved.spec := by
    rw [extended]
    exact Hierarchy.retains_addMethodParams (loaded.typeParams_isParam member listed)
      (sound.useSpec_closed (reads.closed known) located supplied)
  refine ⟨?_, ?_, ⟨params, typed, ?_⟩, ?_⟩
  · intro u member n mentioned
    rcases List.mem_append.mp member with param | answer
    · rw [passed] at param
      obtain ⟨t, -, rfl⟩ := List.mem_map.mp param
      exact retains.mem_of_mem_mentions parametric mentioned
    · obtain ⟨t, -, rfl⟩ := returned u (Option.mem_toList.mp answer)
      exact retains.mem_of_mem_mentions parametric mentioned
  · intro n mine
    obtain ⟨s, b, bs, itself, once⟩ := retains.once_own mine
    exact ⟨s, b, bs, itself, once, fun s' bs' => retains.resolve_eq parametric s' n bs'⟩
  · rw [passed, List.map_map]
    exact List.map_congr_left fun t _ => retains.paramsIn_subst parametric t
  · intro u answer
    obtain ⟨t, written, rfl⟩ := returned u answer
    exact ⟨t, written, retains.paramsIn_subst parametric t⟩

/-- One may pick from a rack by a type parameter that bears the name of one of the rack's. -/
def rackModel : ClassModel := { types := [
  { name := "Text" },
  { name := "Rack", params := ["E", "F"],
    methods := [
      { name := "pick", typeParams := ["E extends F"], params := ["E", "F[]", "Rack<F, E>"],
        returns := "E" }] },
  { name := "Row", params := ["T"], extended := ["Rack<T[], T>"] }] }

def rackLibrary : Library := .ofModel rackModel

theorem loaded_rackLibrary : rackLibrary.hierarchy.Loaded [rackLibrary.registry, .root] :=
  Library.loaded_ofModel rackModel (by decide +kernel)

/-- Picking from a row of texts: of the two type parameters the shadowed one is gone. -/
theorem row_pick_resolved : ∃ m ∈ rackLibrary.registry.methodsOf "Rack", ∃ resolved,
    (((ofSettings {}).after rackLibrary.hierarchy []).resolveOption rackLibrary.hierarchy
      (some (rackLibrary.typeOf "Row<Text>")) m).1.result = .ok resolved ∧
    (m.params.filterMap id).map rackLibrary.hierarchy.mentions = [["E"], ["F"], ["F", "E"]] ∧
    resolved.params.map rackLibrary.hierarchy.paramsIn =
      [[resolved.spec.once "E"], [], [resolved.spec.once "E"]] := by
  have reads : rackLibrary.hierarchy.Reads [rackLibrary.registry, .root] .empty
      (rackLibrary.typeOf "Row<Text>") :=
    Library.reads_typeIn List.mem_cons_self (by decide +kernel)
  obtain ⟨m, listed, names, mentioned, resolves⟩ : ∃ m ∈ rackLibrary.registry.methodsOf "Rack",
      m.typeParams.map Slot.name = ["E"] ∧
      (m.params.filterMap id).map rackLibrary.hierarchy.mentions = [["E"], ["F"], ["F", "E"]] ∧
      (((ofSettings {}).after rackLibrary.hierarchy []).resolveOption rackLibrary.hierarchy
        (some (rackLibrary.typeOf "Row<Text>")) m).1.result.isOk = true := by decide +kernel
  obtain ⟨resolved, ok⟩ := exists_of_isOk resolves
  obtain ⟨-, -, ⟨params, typed, left⟩, -⟩ := resolved_paramsIn_own loaded_rackLibrary
    List.mem_cons_self listed reads {} [] ok
  refine ⟨m, listed, resolved, ok, mentioned, ?_⟩
  have written : params.map rackLibrary.hierarchy.mentions = [["E"], ["F"], ["F", "E"]] := by
    simpa [typed, List.filterMap_map] using mentioned
  calc resolved.params.map rackLibrary.hierarchy.paramsIn
      = (params.map rackLibrary.hierarchy.mentions).map
          (Hierarchy.kept (m.typeParams.map Slot.name) resolved.spec) := by
        rw [left, List.map_map]
        rfl
    _ = _ := by
        rw [written, names]
        rfl

end Engine

end NominalGenerics
