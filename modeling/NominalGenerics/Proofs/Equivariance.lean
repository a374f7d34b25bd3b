import NominalGenerics.Proofs.Hygiene
import NominalGenerics.Proofs.Untripped

/-!
# Operations on renamed types

A renaming spares the declarations of a hierarchy when it leaves the type parameters that they
mention alone and keeps all names apart: those of type parameters from each other, from those of
declarations and from those of arrays. A type parameter that is called like one of a declaration
keeps its name then. Every operation that a comparison of types is made of commutes with such a
renaming: the arguments that a type supplies (`arguments_rename`), the step up
(`Spares.stepsRename`) and the subtype test (`isSubtype_rename`).
-/

namespace NominalGenerics

/-! ## Names that may be mentioned -/

/-- Type parameters with good names and formed bounds, whose own parameters are such again. -/
def ParamSet.named (A : Arity) (good : String → Prop) : ParamSet := fun s n bs =>
  ∃ Q : ParamSet, (∀ s n bs, Q s n bs → good n ∧ Ty.FormedAll A Q bs) ∧ Q s n bs

section Named

variable {A : Arity} {good : String → Prop} {s : Site} {n : String} {bs : List Ty}

theorem ParamSet.named_iff :
    ParamSet.named A good s n bs ↔ good n ∧ Ty.FormedAll A (.named A good) bs := by
  constructor
  · rintro ⟨Q, closed, inside⟩
    obtain ⟨name, formed⟩ := closed s n bs inside
    exact ⟨name, formed.mono (fun _ _ known => known) fun _ _ _ inside => ⟨Q, closed, inside⟩⟩
  · rintro ⟨name, formed⟩
    -- the set with this parameter added is no larger, since it is still closed
    refine ⟨fun s' n' bs' => ParamSet.named A good s' n' bs' ∨ n' = n ∧ bs' = bs, ?_,
      .inr ⟨rfl, rfl⟩⟩
    rintro s' n' bs' (⟨Q, closed, inside⟩ | ⟨rfl, rfl⟩)
    · obtain ⟨name, formed⟩ := closed s' n' bs' inside
      exact ⟨name, formed.mono (fun _ _ known => known)
        fun _ _ _ inside => .inl ⟨Q, closed, inside⟩⟩
    · exact ⟨name, formed.mono (fun _ _ known => known) fun _ _ _ => .inl⟩

theorem ParamSet.named_bounded : (ParamSet.named A good).Bounded A :=
  fun _ _ _ inside => (ParamSet.named_iff.mp inside).2

theorem ParamSet.named_selfBounded (s : Site) (n : String) (inside : ParamSet.named A good s n []) :
    ParamSet.named A good s n [.param s n []] :=
  ParamSet.named_iff.mpr ⟨(ParamSet.named_iff.mp inside).1, inside, trivial⟩

/-- The whole parameters with good names, bounds included. -/
theorem ParamSet.restrict_whole (inside : (ParamSet.whole A).restrict good s n bs) :
    ParamSet.named A good s n bs := by
  refine ⟨(ParamSet.whole A).restrict good, ?_, inside⟩
  rintro s n bs ⟨whole, names⟩
  obtain ⟨here, below⟩ := List.forall_mem_cons.mp names
  exact ⟨here, Ty.FormedAll.restrict (ParamSet.whole_iff.mp whole) below⟩

/-- A type that respects arities and whose type parameters, those in bounds included, bear good
names. -/
abbrev Ty.Lettered (A : Arity) (good : String → Prop) (t : Ty) : Prop := t.Formed A (.named A good)

abbrev Slot.Lettered (A : Arity) (good : String → Prop) (s : Slot) : Prop :=
  s.Formed A (.named A good)

theorem Ty.Formed.lettered {t : Ty} (whole : t.Formed A (.whole A))
    (names : ∀ n ∈ t.names, good n) : t.Lettered A good :=
  (whole.restrict names).mono (fun _ _ known => known) fun _ _ _ => ParamSet.restrict_whole

theorem Slot.Formed.lettered {slot : Slot} (whole : slot.Formed A (.whole A))
    (names : ∀ n ∈ slot.names, good n) : slot.Lettered A good :=
  (whole.restrict names).mono (fun _ _ known => known) fun _ _ _ => ParamSet.restrict_whole

theorem Ty.Formed.unlettered {t : Ty} (lettered : t.Lettered A good) : t.Formed A (.whole A) := by
  refine lettered.mono (fun _ _ known => known) ?_
  rintro s n bs ⟨Q, closed, inside⟩
  exact ⟨Q, fun s n bs inside => (closed s n bs inside).2, inside⟩

theorem Ty.Formed.name_good (lettered : (Ty.param s n bs).Lettered A good) : good n :=
  (ParamSet.named_iff.mp lettered).1

end Named

def Decl.names (c : Decl) : List String :=
  Slot.namesAll c.params ++ Ty.namesAll c.super.toList ++ Ty.namesAll c.interfaces

theorem Ty.mem_namesAll {n : String} {ts : List Ty} :
    n ∈ Ty.namesAll ts ↔ ∃ t ∈ ts, n ∈ t.names := by
  induction ts with
  | nil => simp [Ty.namesAll]
  | cons t ts ih => simp [Ty.namesAll, ih]

theorem Slot.mem_namesAll {n : String} {ss : List Slot} :
    n ∈ Slot.namesAll ss ↔ ∃ s ∈ ss, n ∈ s.names := by
  induction ss with
  | nil => simp [Slot.namesAll]
  | cons s ss ih => simp [Slot.namesAll, ih]

mutual

theorem Ty.typeUses_subset : ∀ t : Ty, t.typeUses ⊆ t.names
  | .decl _ | .bare _ _ => List.nil_subset _
  | .app _ _ args => Slot.typeUsesAll_subset args
  | .param _ _ _ => List.cons_subset.mpr ⟨List.mem_cons_self, List.nil_subset _⟩
  | .array _ e => Ty.typeUses_subset e

theorem Slot.typeUses_subset : ∀ s : Slot, s.typeUses ⊆ s.names
  | .exact _ t => Ty.typeUses_subset t
  | .rebound _ _ none us | .wildcard _ none us => Ty.typeUsesAll_subset us
  | .rebound _ _ (some _) us => List.subset_append_of_subset_right _ (Ty.typeUsesAll_subset us)
  | .param _ _ _ _ _ => List.nil_subset _
  | .wildcard _ (some l) us => List.append_subset.mpr
    ⟨List.subset_append_of_subset_left _ (Ty.typeUses_subset l),
      List.subset_append_of_subset_right _ (Ty.typeUsesAll_subset us)⟩

theorem Ty.typeUsesAll_subset : ∀ ts : List Ty, Ty.typeUsesAll ts ⊆ Ty.namesAll ts
  | [] => List.nil_subset _
  | t :: ts => List.append_subset.mpr
    ⟨List.subset_append_of_subset_left _ (Ty.typeUses_subset t),
      List.subset_append_of_subset_right _ (Ty.typeUsesAll_subset ts)⟩

theorem Slot.typeUsesAll_subset : ∀ ss : List Slot, Slot.typeUsesAll ss ⊆ Slot.namesAll ss
  | [] => List.nil_subset _
  | s :: ss => List.append_subset.mpr
    ⟨List.subset_append_of_subset_left _ (Slot.typeUses_subset s),
      List.subset_append_of_subset_right _ (Slot.typeUsesAll_subset ss)⟩

end

namespace Decl

variable {c : Decl} {n : String}

theorem names_of_param {p : Slot} (member : p ∈ c.params) (inside : n ∈ p.names) : n ∈ c.names := by
  unfold Decl.names
  rw [List.mem_append, List.mem_append]
  exact .inl (.inl (Slot.mem_namesAll.mpr ⟨p, member, inside⟩))

theorem names_of_super {t : Ty} (written : c.super = some t) (inside : n ∈ t.names) :
    n ∈ c.names := by
  unfold Decl.names
  rw [List.mem_append, List.mem_append]
  exact .inl (.inr (Ty.mem_namesAll.mpr ⟨t, Option.mem_toList.mpr written, inside⟩))

theorem names_of_interface {t : Ty} (written : t ∈ c.interfaces) (inside : n ∈ t.names) :
    n ∈ c.names := by
  unfold Decl.names
  rw [List.mem_append]
  exact .inr (Ty.mem_namesAll.mpr ⟨t, written, inside⟩)

end Decl

namespace Hierarchy

/-- A renaming of good names that leaves alone those that declarations mention and keeps them all
apart, from each other and from the names of declarations and arrays. -/
structure Spares (h : Hierarchy) (ids : List DeclId) (good : String → Prop) (ρ : String → String) :
    Prop where
  injective : ∀ m n, good m → good n → ρ m = ρ n → m = n
  declared : ∀ d, ∀ n ∈ (h.content d).names, good n ∧ ρ n = n
  types : ∀ d ∈ ids, ∀ n, good n → (ρ n = d.name ↔ n = d.name)
  arrays : ∀ n, good n → ∀ k, n ≠ k ++ "[]" ∧ ρ n ≠ k ++ "[]"

variable {h : Hierarchy} {ids : List DeclId} {good : String → Prop} {ρ : String → String}

namespace Spares

variable {t u w : Ty} {d : DeclId} {n : String}

/-! ## Declarations -/

theorem params (spares : h.Spares ids good ρ) {p : Slot} (member : p ∈ h.params d) {n : String}
    (inside : n ∈ p.names) : good n ∧ ρ n = n :=
  spares.declared d n (Decl.names_of_param member inside)

theorem supertypes (spares : h.Spares ids good ρ) (head : t.head? = some d)
    (written : w ∈ h.supertypes t) (inside : n ∈ w.names) : good n ∧ ρ n = n := by
  rw [Hierarchy.supertypes, List.mem_append, superclass_of_head head, interfaces_of_head head]
    at written
  rcases written with super | interface
  · rw [Option.mem_toList, Hierarchy.superclass] at super
    split at super
    · cases super
    · cases given : (h.content d).super with
      | none =>
        rw [given] at super
        cases super
        cases inside
      | some v =>
        rw [given] at super
        cases super
        exact spares.declared d n (Decl.names_of_super given inside)
  · exact spares.declared d n (Decl.names_of_interface interface inside)

theorem param_rename (spares : h.Spares ids good ρ) {p : Slot} (member : p ∈ h.params d) :
    p.rename ρ = p :=
  Slot.rename_eq_self fun _ inside => (spares.params member inside).2

theorem param_lettered (spares : h.Spares ids good ρ) (sound : h.Sound ids) {p : Slot}
    (member : p ∈ h.params d) : p.Lettered (h.arity ids) good :=
  (sound.params_whole member).lettered fun _ inside => (spares.params member inside).1

theorem param_name (spares : h.Spares ids good ρ) (sound : h.Sound ids) {p : Slot}
    (member : p ∈ h.params d) : good p.name ∧ ρ p.name = p.name := by
  refine spares.params member ?_
  obtain ⟨s, n, bs, rfl, -⟩ := (sound.decls d).params p member
  exact List.mem_cons_self

theorem supertype_rename (spares : h.Spares ids good ρ) (head : t.head? = some d)
    (written : w ∈ h.supertypes t) : w.rename ρ = w :=
  Ty.rename_eq_self fun _ inside => (spares.supertypes head written inside).2

theorem supertype_lettered (spares : h.Spares ids good ρ) (sound : h.Sound ids)
    (head : t.head? = some d) (written : w ∈ h.supertypes t) : w.Lettered (h.arity ids) good := by
  obtain ⟨formed, -⟩ := sound.supertype head written
  refine Ty.Formed.lettered (formed.mono (fun _ _ known => known) ?_)
    fun _ inside => (spares.supertypes head written inside).1
  intro s n bs own
  exact (sound.params_whole (d := d) own).2.2

/-! ## Comparing names -/

theorem name_rename (spares : h.Spares ids good ρ) (lettered : t.Lettered (h.arity ids) good)
    (name : good n) : (t.rename ρ).name = ρ n ↔ t.name = n := by
  cases t with
  | decl d | bare s d | app s d args =>
    obtain ⟨k, known⟩ := lettered.head rfl
    rw [eq_comm, eq_comm (b := n)]
    exact spares.types d (arity_eq_some.mp known).1 n name
  | param s m bs =>
    constructor
    · exact spares.injective m n lettered.name_good name
    · exact congrArg ρ
  | array s e =>
    constructor
    · intro same
      exact absurd same.symm (spares.arrays n name _).2
    · intro same
      exact absurd same.symm (spares.arrays n name _).1

theorem is_rename (spares : h.Spares ids good ρ) : ∀ {t u : Ty}, t.Lettered (h.arity ids) good →
    u.Lettered (h.arity ids) good → (t.rename ρ).is (u.rename ρ) = t.is u
  | .array _ a, .array _ b, lettered, lettered' =>
    is_rename spares (t := a) (u := b) lettered lettered'
  | .param _ m _, .param _ n _, lettered, lettered' => by
    have same : ρ m = ρ n ↔ m = n :=
      ⟨spares.injective m n lettered.name_good lettered'.name_good, congrArg ρ⟩
    simp [Ty.rename, Ty.is, same]
  | .decl _, u, _, _ | .bare _ _, u, _, _ | .app _ _ _, u, _, _ => by
    cases u <;> rfl
  | .param _ _ _, .decl _, _, _ | .param _ _ _, .bare _ _, _, _ | .param _ _ _, .app _ _ _, _, _
  | .param _ _ _, .array _ _, _, _ => rfl
  | .array _ _, .decl _, _, _ | .array _ _, .bare _ _, _, _ | .array _ _, .app _ _ _, _, _
  | .array _ _, .param _ _ _, _, _ => rfl

end Spares

/-! ## The arguments of a type -/

theorem Renamed.contains {spec spec' : Spec} (renamed : Renamed ρ spec spec') (n : String) :
    spec'.contains n = spec.contains n := by
  unfold NameMap.contains
  rw [renamed n, Option.isSome_map]

/-- Slots under the names of declared parameters, whose own type parameters bear good names. -/
structure Tallies (h : Hierarchy) (ids : List DeclId) (good : String → Prop) (spec : Spec) :
    Prop where
  values : ∀ n s, spec.get? n = some s → s.Lettered (h.arity ids) good
  keys : ∀ n s, spec.get? n = some s → ∃ d, ∃ p ∈ h.params d, p.name = n

theorem Tallies.empty : h.Tallies ids good .empty where
  values _ _ found := nomatch found
  keys _ _ found := nomatch found

theorem Tallies.insert {spec : Spec} (tallies : h.Tallies ids good spec) {d : DeclId} {p s : Slot}
    (member : p ∈ h.params d) (lettered : s.Lettered (h.arity ids) good) :
    h.Tallies ids good (spec.insert p.name s) := by
  constructor
  · intro n value found
    rw [NameMap.get?_insert] at found
    split at found
    · cases found
      exact lettered
    · exact tallies.values n value found
  · intro n value found
    by_cases same : n = p.name
    · exact ⟨d, p, member, same.symm⟩
    · rw [NameMap.get?_insert, if_neg same] at found
      exact tallies.keys n value found

/-- A renamed name is looked up with the same result, renamed. -/
theorem Spares.get?_rename (spares : h.Spares ids good ρ) (sound : h.Sound ids) {spec spec' : Spec}
    (renamed : Renamed ρ spec spec') (tallies : h.Tallies ids good spec) {n : String}
    (name : good n) : spec'.get? (ρ n) = (spec.get? n).map (Slot.rename ρ) := by
  have fixed : ∀ m s, spec.get? m = some s → good m ∧ ρ m = m := by
    intro m s found
    obtain ⟨d, p, member, rfl⟩ := tallies.keys m s found
    exact spares.param_name sound member
  rw [renamed (ρ n)]
  cases known : spec.get? n with
  | some s => rw [(fixed n s known).2, known]
  | none =>
    -- the renamed name is none of the keys, since these keep their names
    cases found : spec.get? (ρ n) with
    | none => rfl
    | some s =>
      obtain ⟨isGood, stays⟩ := fixed _ s found
      rw [spares.injective _ _ isGood name stays, known] at found
      cases found

structure Mirrors (h : Hierarchy) (ids : List DeclId) (good : String → Prop) (ρ : String → String)
    (spec spec' : Spec) : Prop where
  renamed : Renamed ρ spec spec'
  tallies : h.Tallies ids good spec

theorem Mirrors.empty : h.Mirrors ids good ρ .empty .empty := ⟨fun _ => rfl, .empty⟩

theorem Mirrors.bindNew {d : DeclId} {ps ss : List Slot} {bound bound' : Spec}
    (mirrors : h.Mirrors ids good ρ bound bound') (declared : ∀ p ∈ ps, p ∈ h.params d)
    (lettered : ∀ s ∈ ss, s.Lettered (h.arity ids) good) :
    h.Mirrors ids good ρ (bindNew ps ss bound).1 (bindNew ps (ss.map (Slot.rename ρ)) bound').1 ∧
      (bindNew ps (ss.map (Slot.rename ρ)) bound').2 = (bindNew ps ss bound).2 := by
  induction ps generalizing ss bound bound' with
  | nil => exact ⟨mirrors, rfl⟩
  | cons p ps ih =>
    cases ss with
    | nil => exact ⟨mirrors, rfl⟩
    | cons s ss =>
      obtain ⟨here, others⟩ := List.forall_mem_cons.mp declared
      obtain ⟨first, rest⟩ := List.forall_mem_cons.mp lettered
      rw [List.map_cons]
      unfold Hierarchy.bindNew
      rw [mirrors.renamed.contains]
      split
      · have added : h.Mirrors ids good ρ (bound.insert p.name s)
            (bound'.insert p.name (s.rename ρ)) := by
          refine ⟨?_, mirrors.tallies.insert here first⟩
          intro n
          rw [NameMap.get?_insert, NameMap.get?_insert, mirrors.renamed n]
          split <;> rfl
        obtain ⟨mirrors, same⟩ := ih added others rest
        exact ⟨mirrors, congrArg (true :: ·) same⟩
      · obtain ⟨mirrors, same⟩ := ih mirrors others rest
        exact ⟨mirrors, congrArg (false :: ·) same⟩

/-- The arguments that a renamed type supplies are the renamed arguments, under the same names. -/
theorem arguments_rename {t : Ty} (lettered : t.Lettered (h.arity ids) good) :
    ∃ spec spec', h.arguments t = .ok spec ∧ h.arguments (t.rename ρ) = .ok spec' ∧
      h.Mirrors ids good ρ spec spec' := by
  refine addArguments_simulates ?_ lettered Mirrors.empty
  intro d args bound bound' lettered mirrors
  rw [Slot.renameAll_eq_map]
  exact mirrors.bindNew (fun p member => member) (Slot.formedAll_iff.mp lettered)

/-! ## Stepping up -/

section Resolve

variable {spec spec' : Spec}

section Lookup

variable {excluded : List String} {n : String}

theorem resolve_of_none (unknown : spec.get? n = none) (free : n ∉ excluded) (site : Site)
    (bounds : List Ty) : spec.resolve excluded site n bounds = .object := by
  rw [Spec.resolve, dif_neg (mt List.contains_iff_mem.mp free)]
  split
  · rfl
  · rename_i known
    rw [unknown] at known
    cases known

theorem resolve_of_some {s : Slot} (known : spec.get? n = some s) (free : n ∉ excluded)
    (site : Site) (bounds : List Ty) : spec.resolve excluded site n bounds =
      if s.isWildcard then s.ty
      else
        match s.ty with
        | .param site' n' [] => .param site' n' [.param site' n' []]
        | .param site' n' (b :: bs) =>
          if spec.contains n' && n' != n then spec.resolve (n :: excluded) site' n' (b :: bs)
          else .param site' n' (b :: bs)
        | t => t := by
  rw [Spec.resolve, dif_neg (mt List.contains_iff_mem.mp free)]
  split
  · rename_i unknown
    rw [unknown] at known
    cases known
  · rename_i s' known'
    obtain rfl : s' = s := Option.some.inj (known'.symm.trans known)
    rfl

/-- Where nothing is excluded, the bounds of a parameter that is looked up do not matter. -/
theorem resolve_nil_bounds (spec : Spec) (site : Site) (n : String) (bs cs : List Ty) :
    spec.resolve [] site n bs = spec.resolve [] site n cs := by
  cases found : spec.get? n with
  | none => rw [resolve_of_none found List.not_mem_nil, resolve_of_none found List.not_mem_nil]
  | some s => rw [resolve_of_some found List.not_mem_nil, resolve_of_some found List.not_mem_nil]

end Lookup

theorem Spares.mem_map (spares : h.Spares ids good ρ) {names : List String} {n : String}
    (goods : ∀ m ∈ names, good m) (name : good n) : ρ n ∈ names.map ρ ↔ n ∈ names := by
  constructor
  · intro member
    obtain ⟨m, inside, same⟩ := List.mem_map.mp member
    rwa [← spares.injective m n (goods m inside) name same]
  · exact List.mem_map_of_mem

theorem Spares.bne_rename (spares : h.Spares ids good ρ) {m n : String} (name : good m)
    (name' : good n) : (ρ m != ρ n) = (m != n) := by
  rw [Bool.eq_iff_iff, bne_iff_ne, bne_iff_ne]
  exact not_congr ⟨spares.injective m n name name', congrArg ρ⟩

theorem Spares.contains_rename (spares : h.Spares ids good ρ) (sound : h.Sound ids)
    (mirrors : h.Mirrors ids good ρ spec spec') {n : String} (name : good n) :
    spec'.contains (ρ n) = spec.contains n := by
  unfold NameMap.contains
  rw [spares.get?_rename sound mirrors.renamed mirrors.tallies name, Option.isSome_map]

/-- What a renamed type parameter stands for. -/
theorem Spares.resolve_rename (spares : h.Spares ids good ρ) (sound : h.Sound ids)
    (mirrors : h.Mirrors ids good ρ spec spec') (excluded : List String) (site : Site)
    (bounds : List Ty) {n : String} (goods : ∀ m ∈ excluded, good m) (name : good n) :
    spec'.resolve (excluded.map ρ) site (ρ n) (Ty.renameAll ρ bounds) =
      (spec.resolve excluded site n bounds).rename ρ := by
  have found : ∀ {n}, good n → spec'.get? (ρ n) = (spec.get? n).map (Slot.rename ρ) :=
    fun name => spares.get?_rename sound mirrors.renamed mirrors.tallies name
  have found' : ∀ {n s}, good n → spec.get? n = some s → spec'.get? (ρ n) = some (s.rename ρ) :=
    fun name known => by rw [found name, known, Option.map_some]
  have lettered : ∀ {n s}, spec.get? n = some s → s.ty.Lettered (h.arity ids) good :=
    fun known => Slot.Formed.ty (mirrors.tallies.values _ _ known) sound.arity_object
  have still : ∀ {excluded : List String} {n : String}, (∀ m ∈ excluded, good m) → good n →
      ¬ excluded.contains n = true → ρ n ∉ excluded.map ρ := by
    intro excluded n goods name free
    rwa [spares.mem_map goods name, ← List.contains_iff_mem]
  -- along the chain of parameters looked up; the names passed are excluded, and are good too
  fun_induction Spec.resolve spec excluded site n bounds with
  | case1 excluded site n bounds free =>
    rw [List.contains_iff_mem] at free
    rw [Spec.resolve, dif_pos (List.contains_iff_mem.mpr (List.mem_map_of_mem free))]
    rfl
  | case2 excluded site n bounds free unknown =>
    have unknown' : spec'.get? (ρ n) = none := by rw [found name, unknown, Option.map_none]
    rw [resolve_of_none unknown' (still goods name free)]
    rfl
  | case3 excluded site n bounds free s known wildcard =>
    rw [resolve_of_some (found' name known) (still goods name free)]
    simp only [Slot.isWildcard_rename, if_pos wildcard, Slot.ty_rename]
  | case4 excluded site n bounds free s known bound node m same =>
    rw [resolve_of_some (found' name known) (still goods name free)]
    simp only [Slot.isWildcard_rename, if_neg bound, Slot.ty_rename, same]
    rfl
  | case5 excluded site n bounds free s known bound node m b bs same further _ ih =>
    have name' : good m := (same ▸ lettered known : (Ty.param node m _).Lettered _ good).name_good
    have rest := ih (List.forall_mem_cons.mpr ⟨name, goods⟩) name'
    rw [← spares.contains_rename sound mirrors name', ← spares.bne_rename name' name] at further
    rw [resolve_of_some (found' name known) (still goods name free)]
    simp only [Slot.isWildcard_rename, if_neg bound, Slot.ty_rename, same,
      Ty.rename, Ty.renameAll, if_pos further]
    exact rest
  | case6 excluded site n bounds free s known bound node m b bs same further =>
    have name' : good m := (same ▸ lettered known : (Ty.param node m _).Lettered _ good).name_good
    rw [← spares.contains_rename sound mirrors name', ← spares.bne_rename name' name] at further
    rw [resolve_of_some (found' name known) (still goods name free)]
    simp only [Slot.isWildcard_rename, if_neg bound, Slot.ty_rename, same,
      Ty.rename, Ty.renameAll, if_neg further]
  | case7 excluded site n bounds free s known bound unbounded bounded =>
    rw [resolve_of_some (found' name known) (still goods name free)]
    simp only [Slot.isWildcard_rename, if_neg bound, Slot.ty_rename]
    cases same : s.ty with
    | decl | bare | app | array => rfl
    | param node m bs =>
      cases bs with
      | nil => exact absurd same (unbounded node m)
      | cons b bs => exact absurd same (bounded node m b bs)

end Resolve

section Step

variable {t : Ty} {d : DeclId} {spec : Spec}

/-- The specs that a type and the renamed one create. -/
theorem Mirrors.createSpec (lettered : t.Lettered (h.arity ids) good) (head : t.head? = some d)
    (created : h.createSpec .empty t = .ok spec) :
    ∃ spec', h.createSpec .empty (t.rename ρ) = .ok spec' ∧ h.Mirrors ids good ρ spec spec' := by
  obtain ⟨spec', created', renamed⟩ := createSpec_rename (ρ := ρ) lettered head created
  obtain ⟨same, ok, values⟩ := createSpec_spec lettered head
  rw [created] at ok
  cases ok
  refine ⟨spec', created', renamed, ?_, ?_⟩
  · intro n s found
    obtain ⟨p, paired, -⟩ := values n s found
    exact args_formed lettered (List.of_mem_zip paired).2
  · intro n s found
    obtain ⟨p, paired, name⟩ := values n s found
    exact ⟨d, p, (List.of_mem_zip paired).1, name⟩

/-- Every step up commutes with a renaming that spares the declarations. -/
theorem Spares.stepsRename (spares : h.Spares ids good ρ) (sound : h.Sound ids) :
    h.StepsRename ids ρ fun t => t.Lettered (h.arity ids) good where
  formed lettered := lettered.mono (fun _ _ known => known) fun _ _ _ _ => trivial
  step := by
    intro t d spec lettered head created
    obtain ⟨spec', created', mirrors⟩ := Mirrors.createSpec lettered head created
    refine ⟨spec', created', ?_⟩
    intro w written
    refine ⟨subst_rename mirrors.renamed (sound.supertype head written).1 ?_,
      (step_formed sound ParamSet.named_selfBounded lettered head written created).1⟩
    -- the parameters replaced are written in the declaration, so they keep their names
    intro s n bs used
    obtain ⟨name, stays⟩ := spares.supertypes head written (Ty.typeUses_subset w used)
    have renamed := spares.resolve_rename sound mirrors [] s bs nofun name
    rw [stays] at renamed
    rw [← renamed]
    exact resolve_nil_bounds ..

end Step

/-! ## The subtype test -/

theorem lineage_eq_cons (h : Hierarchy) (t : Ty) : h.lineage t = t :: (h.lineage t).tail := by
  obtain ⟨fuel, enough⟩ := Nat.exists_eq_succ_of_ne_zero
    (Nat.ne_zero_of_lt (h.weight_lt_budget t.weight))
  unfold lineage
  rw [enough]
  unfold lineageWithin
  split <;> rfl

theorem lineage_rename {t : Ty} {d : DeclId} (head : t.head? = some d) :
    (h.lineage (t.rename ρ)).tail = (h.lineage t).tail := by
  have head' : (t.rename ρ).head? = some d := (Ty.head?_rename t).trans head
  unfold lineage
  rw [Ty.weight_rename]
  cases h.budget t.weight with
  | zero => rfl
  | succ fuel =>
    unfold lineageWithin
    rw [superclass_of_head head, superclass_of_head head']
    split <;> rfl

theorem allInterfaces_rename {t : Ty} {d : DeclId} (head : t.head? = some d) :
    h.allInterfaces (t.rename ρ) = h.allInterfaces t := by
  have head' : (t.rename ρ).head? = some d := (Ty.head?_rename t).trans head
  unfold allInterfaces
  rw [lineage_eq_cons h t, lineage_eq_cons h (t.rename ρ), lineage_rename head, List.flatMap_cons,
    List.flatMap_cons, interfaces_of_head head, interfaces_of_head head']

end Hierarchy

namespace Context

variable {Γ : Context} {ids : List DeclId} {good : String → Prop} {ρ : String → String}

section Class

variable {t u : Ty} {d e : DeclId}

theorem is_rename_right (head : u.head? = some e) (t : Ty) : t.is (u.rename ρ) = t.is u := by
  cases u <;> cases head <;> cases t <;> rfl

theorem is_rename_left (head : t.head? = some d) (u : Ty) : (t.rename ρ).is u = t.is u := by
  cases t <;> cases head <;> cases u <;> rfl

theorem derives_rename (head : t.head? = some d) (head' : u.head? = some e) :
    Γ.derives (t.rename ρ) (u.rename ρ) = Γ.derives t u := by
  unfold derives
  rw [Hierarchy.lineage_rename head]
  exact congrArg _ (funext (is_rename_right head'))

theorem implements_rename (head : t.head? = some d) (head' : u.head? = some e) :
    Γ.implements (t.rename ρ) (u.rename ρ) = Γ.implements t u := by
  unfold implements Hierarchy.isInterface
  rw [Hierarchy.allInterfaces_rename head, Ty.head?_rename]
  exact congrArg _ (congrArg _ (funext (is_rename_left head')))

theorem willImplement_rename (head' : u.head? = some e) (t : Ty) :
    Γ.willImplement (t.rename ρ) (u.rename ρ) = Γ.willImplement t u := by
  unfold willImplement Hierarchy.isPending
  rw [Ty.name_rename head', Ty.head?_rename]

end Class

section Tests

variable {ts : List Ty} {test test' : Ty → Bool}

theorem any_rename (same : ∀ t ∈ ts, test' (t.rename ρ) = test t) :
    (ts.map (Ty.rename ρ)).any test' = ts.any test := by
  rw [List.any_map, Bool.eq_iff_iff, List.any_eq_true, List.any_eq_true]
  refine exists_congr fun t => and_congr_right fun member => ?_
  rw [Function.comp_apply, same t member]

theorem all_rename (same : ∀ t ∈ ts, test' (t.rename ρ) = test t) :
    (ts.map (Ty.rename ρ)).all test' = ts.all test := by
  rw [List.all_map, Bool.eq_iff_iff, List.all_eq_true, List.all_eq_true]
  refine forall₂_congr fun t member => ?_
  rw [Function.comp_apply, same t member]

theorem find?_rename (same : ∀ t ∈ ts, test' (t.rename ρ) = test t) :
    (ts.map (Ty.rename ρ)).find? test' = (ts.find? test).map (Ty.rename ρ) := by
  rw [List.find?_map]
  exact congrArg _ (List.find?_congr same)

end Tests

section Subtype

variable {t u : Ty}

/-- One level of the test, on class types. -/
theorem subtypeStep_rename_class (sound : Γ.hierarchy.Sound ids) {d e : DeclId}
    {below : Ty → Ty → Bool} (head : t.head? = some d) (head' : u.head? = some e) :
    Γ.subtypeStep below (t.rename ρ) (u.rename ρ) = Γ.subtypeStep below t u := by
  have here : (t.rename ρ).head? = some d := (Ty.head?_rename t).trans head
  have here' : (u.rename ρ).head? = some e := (Ty.head?_rename u).trans head'
  rw [subtypeStep_class head head', subtypeStep_class here here', is_rename_left head,
    is_rename_right head', Ty.isRoot_rename, derives_rename head head',
    implements_rename head head', willImplement_rename head', sound.isUnion_eq_false,
    sound.isUnion_eq_false]
  rfl

/-- One level of the test, given that what it asks further does not depend on names. -/
theorem subtypeStep_rename (spares : Γ.hierarchy.Spares ids good ρ) (sound : Γ.hierarchy.Sound ids)
    {below : Ty → Ty → Bool} (lettered : t.Lettered (Γ.hierarchy.arity ids) good)
    (lettered' : u.Lettered (Γ.hierarchy.arity ids) good)
    (further : ∀ x y : Ty, x.Lettered (Γ.hierarchy.arity ids) good →
      y.Lettered (Γ.hierarchy.arity ids) good → below (x.rename ρ) (y.rename ρ) = below x y) :
    Γ.subtypeStep below (t.rename ρ) (u.rename ρ) = Γ.subtypeStep below t u := by
  -- two class types are compared by declarations alone, without a question that goes further
  by_cases classes : (∃ d, t.head? = some d) ∧ ∃ e, u.head? = some e
  · obtain ⟨⟨d, head⟩, e, head'⟩ := classes
    exact subtypeStep_rename_class sound head head'
  unfold subtypeStep
  rw [spares.is_rename lettered lettered', Ty.isRoot_rename]
  split
  · rfl
  cases t with
  | array s a =>
    cases u with
    | array s' b => exact further a b lettered lettered'
    | decl | bare | app | param => rfl
  | param s n bs =>
    have through : (Ty.renameAll ρ bs).any (fun b => !b.isParam && below b (u.rename ρ)) =
        bs.any fun b => !b.isParam && below b u := by
      rw [Ty.renameAll_eq_map]
      refine any_rename fun b member => ?_
      rw [Ty.isParam_rename, further b u (ParamSet.named_bounded.bound lettered member) lettered']
    cases u with
    | array s' b => rfl
    | decl | bare | app | param => exact through
  | decl | bare | app =>
    cases u with
    | array s' b => rfl
    | param s' m bs =>
      rw [Ty.rename, Ty.rename, Ty.renameAll_eq_map]
      refine all_rename fun b member => ?_
      exact further _ b lettered (ParamSet.named_bounded.bound lettered' member)
    | decl | bare | app => exact absurd ⟨⟨_, rfl⟩, _, rfl⟩ classes

/-- The subtype test does not depend on names. -/
theorem isSubtype_rename (spares : Γ.hierarchy.Spares ids good ρ) (sound : Γ.hierarchy.Sound ids)
    (lettered : t.Lettered (Γ.hierarchy.arity ids) good)
    (lettered' : u.Lettered (Γ.hierarchy.arity ids) good) :
    Γ.isSubtype (t.rename ρ) (u.rename ρ) = Γ.isSubtype t u := by
  unfold isSubtype
  rw [Ty.weight_rename, Ty.weight_rename]
  generalize Γ.hierarchy.budget (t.weight + u.weight) = fuel
  induction fuel generalizing t u with
  | zero => rfl
  | succ fuel ih => exact subtypeStep_rename spares sound lettered lettered' fun _ _ => ih

end Subtype

end Context

end NominalGenerics
