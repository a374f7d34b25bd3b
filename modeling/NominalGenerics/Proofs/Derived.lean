import NominalGenerics.Proofs.Ground
import NominalGenerics.Proofs.Upward
import NominalGenerics.Proofs.Whole

/-!
# What is derived from whole types

What is derived from whole types is whole: the supertypes of a whole type with its arguments in
place (`keptUp_whole`), the arguments it supplies (`arguments_whole`), the instantiations it
inherits (`locate_formed`). A parameterisation may also end at a declaration seen as a type, and
so at a loose one (`parameterizeWithin_loose`). Everywhere the number of arguments is right, so no
such derivation stumbles over it.
-/

namespace NominalGenerics

/-- A type that is whole, or a declaration seen as a type, which carries its own parameters as
arguments; also an array of such. -/
def Ty.Loose (A : Arity) : Ty → Prop
  | .decl d => ∃ k, A d = some k
  | .array _ e => e.Loose A
  | .bare s d => (Ty.bare s d).Formed A (.whole A)
  | .app s d args => (Ty.app s d args).Formed A (.whole A)
  | .param s n bs => (Ty.param s n bs).Formed A (.whole A)

theorem Ty.Formed.loose {A : Arity} : ∀ {t : Ty}, t.Formed A (.whole A) → t.Loose A
  | .decl _, whole => ⟨0, whole⟩
  | .array _ e, whole => Ty.Formed.loose (t := e) whole
  | .bare _ _, whole | .app _ _ _, whole | .param _ _ _, whole => whole

/-- A set of type parameters that going up stays within: it holds what its parameters are bounded by
and what those without bounds come back as. -/
structure ParamSet.Stable (A : Arity) (P : ParamSet) : Prop where
  bounded : P.Bounded A
  selfBounded : ∀ s n, P s n [] → P s n [.param s n []]

theorem ParamSet.whole_stable {A : Arity} : (ParamSet.whole A).Stable A :=
  ⟨ParamSet.whole_bounded, ParamSet.whole_selfBounded⟩

theorem ParamSet.none_stable {A : Arity} : ParamSet.none.Stable A :=
  ⟨fun _ _ _ none => none.elim, fun _ _ none => none⟩

namespace Hierarchy

variable {h : Hierarchy} {ids : List DeclId} {t : Ty} {d : DeclId}

/-! ## Steps up -/

section Up

theorem Sound.args_loose (sound : h.Sound ids) (loose : t.Loose (h.arity ids)) {s : Slot}
    (member : s ∈ h.args t) : s.Formed (h.arity ids) (.whole (h.arity ids)) := by
  cases t with
  | decl e => exact sound.params_whole member
  | app site e as => exact args_formed loose member
  | bare | param | array => cases member

/-- The arguments of a class type, if it has any, are as many as its declaration has parameters. -/
theorem Formed.length_args {P : ParamSet} (head : t.head? = some d)
    (formed : t.Formed (h.arity ids) P) :
    h.args t = [] ∨ (h.params d).length = (h.args t).length := by
  cases t with
  | decl e =>
    cases head
    exact .inr rfl
  | bare site e => exact .inl rfl
  | app site e as =>
    cases head
    obtain ⟨⟨k, known, fits⟩, -⟩ := formed
    rcases fits with none | fits
    · exact .inl none
    · exact .inr ((arity_eq_some.mp known).2.trans fits.symm)
  | param | array => cases head

theorem Sound.length_args (head : t.head? = some d) (loose : t.Loose (h.arity ids)) :
    h.args t = [] ∨ (h.params d).length = (h.args t).length := by
  cases t with
  | decl e =>
    cases head
    exact .inr rfl
  | bare | app => exact Formed.length_args head loose
  | param | array => cases head

theorem Sound.createSpec_loose (sound : h.Sound ids) (loose : t.Loose (h.arity ids))
    (head : t.head? = some d) : ∃ spec, h.createSpec .empty t = .ok spec ∧
      Supplies (h.arity ids) (.whole (h.arity ids)) spec := by
  have nothing : Supplies (h.arity ids) (.whole (h.arity ids)) .empty :=
    ⟨by simp, sound.arity_object, ParamSet.whole_selfBounded⟩
  have all : Slot.FormedAll (h.arity ids) (.whole (h.arity ids)) (h.args t) :=
    Slot.formedAll_iff.mpr fun _ member => sound.args_loose loose member
  have bare : h.args t = [] → h.createSpec .empty t = .ok .empty := by
    intro none
    cases t <;> cases head <;> simp only [createSpec, Ty.head?, none]
  have keyed : (h.params d).length = (h.args t).length → h.args t ≠ [] →
      h.createSpec .empty t = .ok (h.keyed .empty (h.params d) (h.args t) .empty) := by
    intro length applied
    cases args : h.args t with
    | nil => exact absurd args applied
    | cons a as =>
      rw [args] at length
      cases t <;> cases head <;> simp only [createSpec, Ty.head?, args, if_pos length]
  by_cases applied : h.args t = []
  · exact ⟨.empty, bare applied, nothing⟩
  · have length := (Sound.length_args head loose).resolve_left applied
    refine ⟨h.keyed .empty (h.params d) (h.args t) .empty, keyed length applied, ?_,
      sound.arity_object, ParamSet.whole_selfBounded⟩
    intro n s found
    obtain ⟨p, paired, -⟩ := (keyed_sound all found).resolve_right (by simp)
    exact sound.args_loose loose (List.of_mem_zip paired).2

theorem Sound.keptUp_loose (sound : h.Sound ids) :
    h.KeptUp ids fun t => t.Loose (h.arity ids) where
  listed := by
    intro t d loose head
    cases t with
    | decl e =>
      cases head
      obtain ⟨k, known⟩ := loose
      exact (arity_eq_some.mp known).1
    | bare site e | app site e as =>
      obtain ⟨k, known⟩ := Ty.Formed.head loose head
      exact (arity_eq_some.mp known).1
    | param | array => cases head
  step := by
    intro t d loose head
    obtain ⟨spec, created, supplies⟩ := sound.createSpec_loose loose head
    refine ⟨spec, created, ?_⟩
    intro w written
    obtain ⟨formed, -⟩ := sound.supertype head written
    exact Ty.Formed.loose (subst_formed supplies formed)
  erased := fun _ listed => Ty.Formed.loose (erasedUse_formed _ listed).1

theorem Sound.keptUp_formed {P : ParamSet} (sound : h.Sound ids)
    (selfBounded : ∀ s n, P s n [] → P s n [.param s n []]) :
    h.KeptUp ids fun t => t.Formed (h.arity ids) P where
  listed := by
    intro t d formed head
    obtain ⟨k, known⟩ := formed.head head
    exact (arity_eq_some.mp known).1
  step := by
    intro t d formed head
    obtain ⟨spec, created, supplies⟩ := supplies_of_createSpec sound selfBounded formed head
    refine ⟨spec, created, ?_⟩
    intro w written
    obtain ⟨formed, -⟩ := sound.supertype head written
    exact subst_formed supplies formed
  erased := fun _ listed => (erasedUse_formed _ listed).1

theorem Sound.keptUp_whole (sound : h.Sound ids) :
    h.KeptUp ids fun t => t.Formed (h.arity ids) (.whole (h.arity ids)) :=
  sound.keptUp_formed ParamSet.whole_selfBounded

end Up

/-! ## Supplied arguments -/

section Arguments

def WholeSpec (A : Arity) (spec : Spec) : Prop :=
  ∀ n s, spec.get? n = some s → s.Formed A (.whole A)

theorem WholeSpec.empty {A : Arity} : WholeSpec A .empty := fun _ _ found => nomatch found

theorem WholeSpec.bindNew {A : Arity} {ps ss : List Slot} {bound : Spec} (whole : WholeSpec A bound)
    (formed : Slot.FormedAll A (.whole A) ss) : WholeSpec A (bindNew ps ss bound).1 := by
  induction ps generalizing ss bound with
  | nil => exact whole
  | cons p ps ih =>
    cases ss with
    | nil => exact whole
    | cons a ss =>
      unfold Hierarchy.bindNew
      split
      · refine ih ?_ formed.2
        intro n s found
        rw [NameMap.get?_insert] at found
        split at found
        · cases found
          exact formed.1
        · exact whole n s found
      · exact ih whole formed.2

/-- A relation between specs that lasts when the arguments of a formed use are bound in the one and
the renamed arguments in the other, and the same arguments are new to both. -/
def BindsAlike (h : Hierarchy) (ids : List DeclId) (P : ParamSet) (ρ : String → String)
    (R : Spec → Spec → Prop) : Prop :=
  ∀ d args bound bound', Slot.FormedAll (h.arity ids) P args → R bound bound' →
    R (bindNew (h.params d) args bound).1
      (bindNew (h.params d) (Slot.renameAll ρ args) bound').1 ∧
    (bindNew (h.params d) (Slot.renameAll ρ args) bound').2 = (bindNew (h.params d) args bound).2

theorem addArguments_app {site : Site} {args : List Slot} {bound : Spec} (applied : args ≠ [])
    (length : (h.params d).length = args.length) : h.addArguments (.app site d args) bound =
      h.addNewArguments args (bindNew (h.params d) args bound).2
        (bindNew (h.params d) args bound).1 := by
  rw [addArguments, if_neg (by simpa using applied), if_pos length]

section Simulation

variable {P : ParamSet} {ρ : String → String} {R : Spec → Spec → Prop}

mutual

/-- Adding the arguments of a formed type and of the renamed one succeeds and keeps such a
relation. -/
theorem addArguments_simulates (alike : h.BindsAlike ids P ρ R) : ∀ {t : Ty} {bound bound' : Spec},
    t.Formed (h.arity ids) P → R bound bound' → ∃ spec spec', h.addArguments t bound = .ok spec ∧
      h.addArguments (t.rename ρ) bound' = .ok spec' ∧ R spec spec'
  | .decl _, bound, bound', _, related | .bare _ _, bound, bound', _, related
  | .param _ _ _, bound, bound', _, related => ⟨bound, bound', rfl, rfl, related⟩
  | .array _ e, _, _, formed, related => addArguments_simulates alike (t := e) formed related
  | .app s d args, bound, bound', ⟨⟨k, known, fits⟩, formed⟩, related => by
    have renamed : Slot.renameAll ρ args = args.map (Slot.rename ρ) := Slot.renameAll_eq_map args
    by_cases unapplied : args = []
    · exact ⟨bound, bound', by rw [unapplied]; rfl, by rw [unapplied]; rfl, related⟩
    · have length : (h.params d).length = args.length :=
        (arity_eq_some.mp known).2.trans (fits.resolve_left unapplied).symm
      have unapplied' : Slot.renameAll ρ args ≠ [] := by rwa [renamed, ne_eq, List.map_eq_nil_iff]
      have length' : (h.params d).length = (Slot.renameAll ρ args).length := by
        rw [renamed, List.length_map, length]
      obtain ⟨related, news⟩ := alike d args bound bound' formed related
      rw [Ty.rename, addArguments_app unapplied length, addArguments_app unapplied' length', news]
      exact addNewArguments_simulates alike _ formed related

theorem addSlotArguments_simulates (alike : h.BindsAlike ids P ρ R) : ∀ {s : Slot}
    {bound bound' : Spec}, s.Formed (h.arity ids) P → R bound bound' →
    ∃ spec spec', h.addSlotArguments s bound = .ok spec ∧
      h.addSlotArguments (s.rename ρ) bound' = .ok spec' ∧ R spec spec'
  | .exact _ t, _, _, ⟨_, _, formed⟩, related =>
    addArguments_simulates alike (t := t) formed related
  | .param _ none _ _ _, bound, bound', _, related => ⟨bound, bound', rfl, rfl, related⟩
  | .wildcard _ none _, _, _, ⟨_, formed⟩, related =>
    addTypesArguments_simulates alike formed related
  | .wildcard _ (some l) _, _, _, ⟨_, formed, _⟩, related =>
    addArguments_simulates alike (t := l) formed related

theorem addTypesArguments_simulates (alike : h.BindsAlike ids P ρ R) : ∀ {ts : List Ty}
    {bound bound' : Spec}, Ty.FormedAll (h.arity ids) P ts → R bound bound' →
    ∃ spec spec', h.addTypesArguments ts bound = .ok spec ∧
      h.addTypesArguments (Ty.renameAll ρ ts) bound' = .ok spec' ∧ R spec spec'
  | [], bound, bound', _, related => ⟨bound, bound', rfl, rfl, related⟩
  | t :: ts, _, _, ⟨first, rest⟩, related => by
    obtain ⟨between, between', ok, ok', related⟩ :=
      addArguments_simulates alike (t := t) first related
    obtain ⟨spec, spec', done, done', related⟩ := addTypesArguments_simulates alike rest related
    rw [Ty.renameAll, addTypesArguments, addTypesArguments]
    exact ⟨spec, spec', bind_eq_ok.mpr ⟨between, ok, done⟩, bind_eq_ok.mpr ⟨between', ok', done'⟩,
      related⟩

theorem addNewArguments_simulates (alike : h.BindsAlike ids P ρ R) : ∀ {ss : List Slot}
    (news : List Bool) {bound bound' : Spec}, Slot.FormedAll (h.arity ids) P ss → R bound bound' →
    ∃ spec spec', h.addNewArguments ss news bound = .ok spec ∧
      h.addNewArguments (Slot.renameAll ρ ss) news bound' = .ok spec' ∧ R spec spec'
  | [], _, bound, bound', _, related | _ :: _, [], bound, bound', _, related =>
    ⟨bound, bound', rfl, rfl, related⟩
  | s :: _, true :: news, _, _, ⟨first, rest⟩, related => by
    obtain ⟨between, between', ok, ok', related⟩ :=
      addSlotArguments_simulates alike (s := s) first related
    obtain ⟨spec, spec', done, done', related⟩ := addNewArguments_simulates alike news rest related
    rw [Slot.renameAll, addNewArguments, addNewArguments]
    exact ⟨spec, spec', bind_eq_ok.mpr ⟨between, ok, done⟩, bind_eq_ok.mpr ⟨between', ok', done'⟩,
      related⟩
  | _ :: _, false :: news, _, _, ⟨_, rest⟩, related => by
    rw [Slot.renameAll, addNewArguments, addNewArguments]
    exact addNewArguments_simulates alike news rest related

end

end Simulation

/-- Binding whole arguments to whole slots gives whole slots and changes no binding. -/
theorem WholeSpec.bindsAlike (start : Spec) :
    h.BindsAlike ids (.whole (h.arity ids)) id fun bound bound' =>
      bound' = bound ∧ WholeSpec (h.arity ids) bound ∧ Keeps start bound := by
  rintro d args bound _ formed ⟨rfl, whole, keeps⟩
  rw [Slot.renameAll_id]
  exact ⟨⟨rfl, whole.bindNew formed, fun n s found => bindNew_keeps n s (keeps n s found)⟩, rfl⟩

/-- Adding arguments inside whole slots succeeds, gives whole slots and changes no binding. -/
theorem addNewArguments_whole {ss : List Slot} (news : List Bool) (bound : Spec)
    (formed : Slot.FormedAll (h.arity ids) (.whole (h.arity ids)) ss)
    (whole : WholeSpec (h.arity ids) bound) :
    ∃ bound', h.addNewArguments ss news bound = .ok bound' ∧ WholeSpec (h.arity ids) bound' ∧
      Keeps bound bound' := by
  obtain ⟨bound', _, ok, -, rfl, whole, keeps⟩ := addNewArguments_simulates
    (WholeSpec.bindsAlike bound) news formed ⟨rfl, whole, fun _ _ found => found⟩
  exact ⟨_, ok, whole, keeps⟩

theorem arguments_whole (whole : t.Formed (h.arity ids) (.whole (h.arity ids))) :
    ∃ spec, h.arguments t = .ok spec ∧ WholeSpec (h.arity ids) spec := by
  obtain ⟨spec, _, ok, -, rfl, whole, -⟩ := addArguments_simulates
    (WholeSpec.bindsAlike .empty) whole ⟨rfl, WholeSpec.empty, fun _ _ found => found⟩
  exact ⟨_, ok, whole⟩

/-- Every declared parameter gets bound to one of the slots, if it was not bound before. -/
theorem bindNew_covers {ps ss : List Slot} {bound : Spec} (params : ∀ p ∈ ps, p.isParam = true)
    (length : ps.length = ss.length) : ∀ p ∈ ps,
      (∃ a ∈ ss, (bindNew ps ss bound).1.get? p.name = some a) ∨ bound.contains p.name = true := by
  induction ps generalizing ss bound with
  | nil => exact nofun
  | cons q ps ih =>
    cases ss with
    | nil => cases length
    | cons a ss =>
      have later := fun p member => params p (List.mem_cons_of_mem _ member)
      intro p member
      unfold bindNew
      rw [params q List.mem_cons_self, Bool.true_and]
      split
      · by_cases same : p.name = q.name
        · refine .inl ⟨a, List.mem_cons_self, bindNew_keeps _ _ ?_⟩
          rw [NameMap.get?_insert, if_pos same]
        · have behind : p ∈ ps := by
            rcases List.mem_cons.mp member with rfl | behind
            · exact absurd rfl same
            · exact behind
          rcases ih later (Nat.succ.inj length) p behind with ⟨b, listed, found⟩ | before
          · exact .inl ⟨b, List.mem_cons_of_mem _ listed, found⟩
          · rw [NameMap.contains, NameMap.get?_insert, if_neg same] at before
            exact .inr before
      · rename_i taken
        have taken : bound.contains q.name = true := by simpa using taken
        rcases List.mem_cons.mp member with rfl | behind
        · exact .inr taken
        · rcases ih later (Nat.succ.inj length) p behind with ⟨b, listed, found⟩ | before
          · exact .inl ⟨b, List.mem_cons_of_mem _ listed, found⟩
          · exact .inr before

/-- The arguments of a whole type stay where they are bound first: what is bound inside them comes
later and displaces nothing. -/
theorem arguments_bound {site : Site} {args : List Slot}
    (whole : (Ty.app site d args).Formed (h.arity ids) (.whole (h.arity ids)))
    (applied : args ≠ []) : (h.params d).length = args.length ∧
      ∃ spec, h.arguments (.app site d args) = .ok spec ∧
        ∀ n s, (bindNew (h.params d) args .empty).1.get? n = some s → spec.get? n = some s := by
  obtain ⟨⟨k, known, fits⟩, formed⟩ := whole
  have length : (h.params d).length = args.length :=
    (arity_eq_some.mp known).2.trans (fits.resolve_left applied).symm
  obtain ⟨spec, ok, -, keeps⟩ := addNewArguments_whole (bindNew (h.params d) args .empty).2
    (bindNew (h.params d) args .empty).1 formed (WholeSpec.empty.bindNew formed)
  refine ⟨length, spec, ?_, keeps⟩
  rw [arguments, addArguments_app applied length]
  exact ok

/-- Under the name of a declared parameter stands an argument of the type itself. -/
theorem Sound.arguments_direct (sound : h.Sound ids)
    (whole : t.Formed (h.arity ids) (.whole (h.arity ids))) (head : t.head? = some d)
    (applied : h.args t ≠ []) : ∃ spec, h.arguments t = .ok spec ∧
      ∀ p ∈ h.params d, ∃ a ∈ h.args t, spec.get? p.name = some a := by
  cases t with
  | decl e => exact absurd (Formed.params_eq_nil whole) applied
  | bare | param | array => exact absurd rfl applied
  | app site e args =>
    cases head
    obtain ⟨length, spec, ok, keeps⟩ := arguments_bound whole applied
    refine ⟨spec, ok, ?_⟩
    intro p member
    have covered : (∃ a ∈ args, (bindNew (h.params d) args .empty).1.get? p.name = some a) ∨
        (.empty : Spec).contains p.name = true :=
      bindNew_covers sound.isParam_of_declared length p member
    obtain ⟨a, listed, found⟩ := covered.resolve_right (by simp [NameMap.contains])
    exact ⟨a, listed, keeps _ _ found⟩

/-- The spec of a whole type can be made, whatever its arguments are resolved through. -/
theorem createSpec_whole : ∀ {t : Ty} (outer : Spec),
    t.Formed (h.arity ids) (.whole (h.arity ids)) → ∃ spec, h.createSpec outer t = .ok spec
  | .array _ e, outer, whole => createSpec_whole (t := e) outer whole
  | .decl d, outer, whole => by
    refine ⟨outer, ?_⟩
    simp [createSpec, Ty.head?, args, Formed.params_eq_nil whole]
  | .bare _ _, outer, _ => ⟨outer, rfl⟩
  | .param _ _ _, outer, _ => ⟨outer, rfl⟩
  | .app s d [], outer, _ => ⟨outer, rfl⟩
  | .app s d (a :: as), outer, ⟨⟨k, known, fits⟩, _⟩ => by
    have length : (h.params d).length = (a :: as).length :=
      (arity_eq_some.mp known).2.trans (fits.resolve_left (List.cons_ne_nil _ _)).symm
    refine ⟨h.keyed outer (h.params d) (a :: as) .empty, ?_⟩
    simp only [createSpec, Ty.head?, args, if_pos length]

end Arguments

/-! ## Inherited instantiations -/

section Locate

variable {P : ParamSet}

theorem Sound.instantiate_formed (sound : h.Sound ids) (stable : P.Stable (h.arity ids))
    (formed : t.Formed (h.arity ids) P) (head : t.head? = some d) {w : Ty}
    (written : w ∈ h.supertypes t) : ∃ u, h.instantiate t w = .ok u ∧
      u.Formed (h.arity ids) P ∧ ∃ c, u.head? = some c := by
  obtain ⟨formedW, c, above, edge⟩ := sound.supertype head written
  obtain ⟨spec, created, kept⟩ := (sound.keptUp_formed stable.selfBounded).step formed head
  have kept := kept w written
  unfold instantiate
  split
  · rename_i closed
    have none : h.mentions w = [] := by simpa [hasParams] using closed
    rw [subst_eq_self formedW (by simp [none])] at kept
    exact ⟨w, rfl, kept, c, above⟩
  · split
    · rw [sound.direct.declaration above]
      obtain ⟨formed, head⟩ := erasedUse_formed (h := h) t (sound.edge_mem edge)
      exact ⟨_, rfl, formed, c, head⟩
    · rw [created]
      exact ⟨_, rfl, kept, c, head_subst spec formedW above⟩

/-- Going up from a formed type gives a formed type for each written supertype. -/
theorem Sound.instantiateAll_ok (sound : h.Sound ids) (stable : P.Stable (h.arity ids))
    (formed : t.Formed (h.arity ids) P) (head : t.head? = some d) :
    ∃ supers, h.instantiateAll t = .ok supers ∧
      supers.length = (h.supertypes (.decl d)).length ∧
      (∀ u ∈ supers, ∃ w ∈ h.supertypes t, h.instantiate t w = .ok u ∧
        u.Formed (h.arity ids) P ∧ ∃ c, u.head? = some c) ∧
      ∀ w ∈ h.supertypes t, ∃ u ∈ supers, h.instantiate t w = .ok u := by
  have each : ∀ w ∈ h.supertypes t, ∃ u, h.instantiate t w = .ok u ∧
      u.Formed (h.arity ids) P ∧ ∃ c, u.head? = some c :=
    fun w written => sound.instantiate_formed stable formed head written
  choose! up goes using each
  refine ⟨(h.interfaces t ++ (h.superclass t).toList).map up, ?_, ?_, ?_, ?_⟩
  · refine mapM_eq_ok_map ?_
    intro w written
    exact (goes w (mem_interfaces_append_superclass.mp written)).1
  · rw [← supertypes_of_head head]
    simp only [supertypes, List.length_map, List.length_append]
    omega
  · intro u member
    obtain ⟨w, written, rfl⟩ := List.mem_map.mp member
    have written := mem_interfaces_append_superclass.mp written
    exact ⟨w, written, goes w written⟩
  · intro w written
    exact ⟨up w, List.mem_map_of_mem (mem_interfaces_append_superclass.mpr written),
      (goes w written).1⟩

/-- How many steps a search can take: one for each type that its queue leads to through bounds, and
one for each supertype of a declaration that was not visited yet. -/
def searchCost (h : Hierarchy) (ids : List DeclId) (queue : List Ty) (visited : List DeclId) :
    Nat :=
  (queue.flatMap Ty.throughBounds).length +
    pending (fun e => (h.supertypes (.decl e)).length) ids visited

/-- A search of formed types tells what it found, which is formed, unless its steps are too few. -/
theorem Sound.locateFrom_ends (sound : h.Sound ids) (stable : P.Stable (h.arity ids)) (d : DeclId)
    {fuel : Nat} {queue : List Ty} {visited : List DeclId}
    (formed : ∀ t ∈ queue, t.Formed (h.arity ids) P) :
    Ends (fun f => f = .exhausted ∧ fuel ≤ h.searchCost ids queue visited)
      (fun found => ∀ t, found = some t → t.Formed (h.arity ids) P)
      (h.locateFrom d fuel queue visited) := by
  induction fuel generalizing queue visited with
  | zero => exact ⟨rfl, Nat.zero_le _⟩
  | succ fuel ih =>
    cases queue with
    | nil => exact nofun
    | cons t queue =>
      have here := formed t List.mem_cons_self
      have rest : ∀ u ∈ queue, u.Formed (h.arity ids) P :=
        fun u member => formed u (List.mem_cons_of_mem _ member)
      -- a search that goes on with a queue that costs less
      have further : ∀ more visited',
          (∀ u ∈ more, u.Formed (h.arity ids) P) →
          h.searchCost ids (queue ++ more) visited' < h.searchCost ids (t :: queue) visited →
          Ends (fun f => f = .exhausted ∧ fuel + 1 ≤ h.searchCost ids (t :: queue) visited)
            (fun found => ∀ t, found = some t → t.Formed (h.arity ids) P)
            (h.locateFrom d fuel (queue ++ more) visited') := by
        intro more visited' new cheaper
        refine (ih ?_).mono (fun _ short => ⟨short.1, by omega⟩) fun _ all => all
        exact List.forall_mem_append.mpr ⟨rest, new⟩
      unfold locateFrom
      cases head : t.head? with
      | none =>
        refine further t.bounds visited ?_ ?_
        · intro b member
          cases t with
          | param s n bs => exact stable.bounded.bound here member
          | decl | bare | app | array => cases member
        · simp only [searchCost, List.flatMap_append, List.flatMap_cons, List.length_append,
            Ty.throughBounds_of_not_head head, List.length_cons]
          omega
      | some e =>
        have once : t.throughBounds.length = 1 := by rw [Ty.throughBounds_of_head head]; rfl
        dsimp only
        split
        · have skipped := further [] visited (List.forall_mem_nil _)
          rw [List.append_nil] at skipped
          refine skipped ?_
          simp only [searchCost, List.flatMap_cons, List.length_append, once]
          omega
        split
        · -- the number of arguments is nought or the right one
          rename_i found
          obtain ⟨rfl, -⟩ := found
          rcases Formed.length_args head here with none | length
          · rw [none]
            exact nofun
          · rw [← length]
            split
            · exact nofun
            · rw [if_pos rfl]
              rintro _ ⟨⟩
              exact here
        · rename_i new _
          obtain ⟨supers, ok, length, all, -⟩ := sound.instantiateAll_ok stable here head
          rw [ok]
          refine further supers (e :: visited) ?_ ?_
          · intro u member
            obtain ⟨_, -, -, formed, -⟩ := all u member
            exact formed
          have listed := (sound.keptUp_formed stable.selfBounded).listed here head
          have less :=
            pending_cons_add_le (f := fun e => (h.supertypes (.decl e)).length) listed new
          have single : (supers.flatMap Ty.throughBounds).length = supers.length := by
            have each : ∀ u ∈ supers, u.throughBounds = [u] := by
              intro u member
              obtain ⟨_, -, -, -, c, above⟩ := all u member
              exact Ty.throughBounds_of_head above
            rw [List.flatMap_congr each, List.flatMap_singleton']
          simp only [searchCost, List.flatMap_append, List.flatMap_cons, List.length_append, once,
            single]
          omega

/-- What a search finds has an argument for each parameter: it is looked at before it is given. -/
theorem length_args_of_locateFrom {d : DeclId} {fuel : Nat} {queue : List Ty}
    {visited : List DeclId} {u : Ty} (found : h.locateFrom d fuel queue visited = .ok (some u)) :
    (h.args u).length = (h.params d).length := by
  induction fuel generalizing queue visited with
  | zero => cases found
  | succ fuel ih =>
    cases queue with
    | nil => cases found
    | cons t queue =>
      unfold locateFrom at found
      cases head : t.head? with
      | none =>
        rw [head] at found
        exact ih found
      | some e =>
        simp only [head] at found
        split at found
        · exact ih found
        split at found
        · split at found
          · cases found
          split at found
          · rename_i same
            cases found
            exact same
          · cases found
        · obtain ⟨supers, -, found⟩ := bind_eq_ok.mp found
          exact ih found

theorem length_args_of_locate {d : DeclId} {u : Ty} (found : h.locate d t = .ok (some u)) :
    (h.args u).length = (h.params d).length :=
  length_args_of_locateFrom ((h.locate_eq d t).symm.trans found)

mutual

theorem length_throughBounds_le : ∀ t : Ty, t.throughBounds.length ≤ t.weight
  | .decl _ | .bare _ _ => Nat.le_refl 1
  | .app _ _ _ | .array _ _ => Nat.le_add_right 1 _
  | .param _ _ bs => by
    rw [Ty.throughBounds, List.length_cons, Ty.weight, Nat.add_comm]
    exact Nat.add_le_add_left (length_throughAllBounds_le bs) 1

theorem length_throughAllBounds_le : ∀ ts : List Ty,
    (Ty.throughAllBounds ts).length ≤ Ty.weights ts
  | [] => Nat.le_refl 0
  | t :: ts => by
    rw [Ty.throughAllBounds, List.length_append, Ty.weights]
    exact Nat.add_le_add (length_throughBounds_le t) (length_throughAllBounds_le ts)

end

/-- The search from a formed type comes to an end, and what it finds is formed. -/
theorem Sound.locate_formed (sound : h.Sound ids) (stable : P.Stable (h.arity ids))
    (formed : t.Formed (h.arity ids) P) (d : DeclId) :
    ∃ found, h.locate d t = .ok found ∧
      ∀ u, found = some u → u.Formed (h.arity ids) P := by
  have enough : h.searchCost ids [t] [] < h.budget t.weight := by
    have total := sound.pending_supertypes_le
    have := length_throughBounds_le t
    have := h.weight_lt_budget t.weight
    rw [searchCost, List.flatMap_singleton]
    omega
  have ends : Ends (fun f => f = .exhausted ∧ h.budget t.weight ≤ h.searchCost ids [t] [])
      (fun found => ∀ u, found = some u → u.Formed (h.arity ids) P)
      (h.locateFrom d (h.budget t.weight) [t] []) :=
    sound.locateFrom_ends stable d (List.forall_mem_singleton.mpr formed)
  rw [locate_eq]
  cases result : h.locateFrom d (h.budget t.weight) [t] [] with
  | ok found =>
    rw [result] at ends
    exact ⟨found, rfl, ends⟩
  | error f =>
    have short := (ends.failure f result).2
    omega

/-- The use of a generic declaration that `receiver` inherits. -/
def locateUse (h : Hierarchy) (decl receiver : Ty) : Except Failure (Option Ty) :=
  match decl.head? with
  | none => .ok none
  | some d => if (h.params d).isEmpty then .ok none else h.locate d receiver

theorem Sound.locateUse_formed (sound : h.Sound ids) 
    (stable : P.Stable (h.arity ids)) (formed : t.Formed (h.arity ids) P) (decl : Ty) :
    ∃ found, h.locateUse decl t = .ok found ∧
      ∀ u, found = some u → u.Formed (h.arity ids) P := by
  unfold locateUse
  split
  · exact ⟨none, rfl, nofun⟩
  · rename_i d _
    split
    · exact ⟨none, rfl, nofun⟩
    · exact sound.locate_formed stable formed d

/-- A located use has as many arguments as its declaration has parameters. -/
theorem Direct.length_args_of_locateUse (direct : h.Direct) {decl receiver u : Ty}
    (found : h.locateUse decl receiver = .ok (some u)) :
    (h.args (h.declaration decl)).length = (h.args u).length := by
  unfold locateUse at found
  cases head : decl.head? with
  | none =>
    rw [head] at found
    cases found
  | some d =>
    simp only [head] at found
    split at found
    · cases found
    · rw [direct.declaration head]
      exact (length_args_of_locate found).symm

end Locate

end Hierarchy

namespace Context

variable {Γ : Context} {ids : List DeclId}

/-! ## Parameterisations -/

section Parameterize

/-- One step of a climb, whatever it goes to. -/
theorem climb_loose (sound : Γ.hierarchy.Sound ids) {above : Ty → Ty → Traced Ty} {hint target : Ty}
    {d : DeclId} (loose : hint.Loose (Γ.hierarchy.arity ids)) (head : hint.head? = some d)
    (loose' : target.Loose (Γ.hierarchy.arity ids))
    (further : ∀ t : Ty, t.Loose (Γ.hierarchy.arity ids) →
      Ends (·.isArity = false) (·.Loose (Γ.hierarchy.arity ids)) (above t target).result) :
    Ends (·.isArity = false) (·.Loose (Γ.hierarchy.arity ids))
      (Γ.climb above hint target).result := by
  unfold climb
  dsimp only
  split
  · exact loose
  split
  · cases head' : target.head? with
    | some g =>
      rw [sound.direct.declaration head']
      exact Ty.Formed.loose (Hierarchy.erasedUse_formed hint
        (sound.keptUp_loose.listed loose' head')).1
    | none =>
      have itself : Γ.hierarchy.declaration target = target := by
        unfold Hierarchy.declaration
        rw [head']
      rw [itself]
      unfold Hierarchy.erasedUse
      rw [head']
      exact loose'
  · cases next : Γ.nextSupertype hint (Γ.hierarchy.declaration target) with
    | none => exact rfl
    | some w =>
      obtain ⟨spec, created, kept⟩ := sound.keptUp_loose.step loose head
      simp only [created]
      exact further _ (kept w (nextSupertype_mem next))

theorem parameterizeWithin_loose (sound : Γ.hierarchy.Sound ids) {fuel : Nat} {hint target : Ty}
    (loose : hint.Loose (Γ.hierarchy.arity ids)) (loose' : target.Loose (Γ.hierarchy.arity ids)) :
    Ends (·.isArity = false) (·.Loose (Γ.hierarchy.arity ids))
      (Γ.parameterizeWithin fuel hint target).result := by
  induction fuel generalizing hint target with
  | zero => exact rfl
  | succ fuel ih =>
    have further : ∀ t : Ty, t.Loose (Γ.hierarchy.arity ids) →
        Ends (·.isArity = false) (·.Loose (Γ.hierarchy.arity ids))
          (Γ.parameterizeWithin fuel t target).result := fun t loose => ih loose loose'
    unfold parameterizeWithin
    cases hint with
    | array s a =>
      cases target with
      | array s' b =>
        have elements : a.Loose (Γ.hierarchy.arity ids) := loose
        have elements' : b.Loose (Γ.hierarchy.arity ids) := loose'
        exact Ends.traced_bind (ih elements elements') fun _ loose => loose
      | decl | bare | app | param => exact loose'
    | param s n bs =>
      cases target with
      | array => exact rfl
      | decl | bare | app | param =>
        unfold parameterizeStep
        dsimp only
        split
        · rename_i b found
          have member := List.mem_of_find?_eq_some found
          exact further b (Ty.Formed.bound (s := s) (n := n) loose member).loose
        · exact climb_loose sound ⟨0, sound.arity_object⟩ rfl loose' further
    | decl | bare | app =>
      cases target with
      | array => exact rfl
      | decl | bare | app | param => exact climb_loose sound loose rfl loose' further

end Parameterize

end Context

end NominalGenerics
