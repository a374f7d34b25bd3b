import NominalGenerics.Proofs.Composition
import NominalGenerics.Proofs.Invariance
import NominalGenerics.Proofs.Uses

/-!
# Arguments found in a type

The arguments supplied anywhere in a type are collected by the names of the parameters they are
supplied for. What is collected under a name was supplied for a parameter of that name, and the
outermost type comes first. But an argument is looked into only where it is the one that was
collected: inside an argument whose name another one has taken, nothing is found. That is the only
way to miss a parameter (`supplied_arguments_found`), and a type nested in itself is enough for it
(`nested_reel_missed`).

Two facts carry the proof. While arguments are added, whatever is bound is also looked into
(`Hierarchy.Adds`). And in the end each use lies in arguments that were looked into, down to itself
or to one that was displaced (`Hierarchy.Collected.covered_or_passed`).
-/

namespace NominalGenerics

theorem Slot.LegibleAll.mem {r : Reader} {ss : List Slot} (legible : Slot.LegibleAll r ss) :
    ∀ a ∈ ss, a.Legible r := by
  induction ss with
  | nil => exact List.forall_mem_nil _
  | cons s ss ih => exact List.forall_mem_cons.mpr ⟨legible.1, ih legible.2⟩

namespace Hierarchy

def Supplied (h : Hierarchy) (uses : List Ty) (n : String) (a : Slot) : Prop :=
  ∃ s d args, Ty.app s d args ∈ uses ∧ ∃ p, (p, a) ∈ (h.params d).zip args ∧ p.name = n

/-- A use within an argument, where the spec has a different argument for the parameter. -/
def PassedOver (h : Hierarchy) (spec : Spec) (uses : List Ty) (u : Ty) : Prop :=
  ∃ s d args, Ty.app s d args ∈ uses ∧ ∃ x ∈ (h.params d).zip args, u ∈ x.2.uses ∧
    ∃ b, spec.get? x.1.name = some b ∧ h.slotEqual b x.2 = false

/-- The outermost use in a type has its parameters in the spec, if it has arguments. -/
def Covers (h : Hierarchy) (spec : Spec) : Ty → Prop
  | .app _ d args => args = [] ∨ ∀ p ∈ h.params d, spec.contains p.name = true
  | .array _ e => h.Covers spec e
  | .decl _ | .bare _ _ | .param _ _ _ => True

/-- So do the outermost uses in an argument. -/
def CoversSlot (h : Hierarchy) (spec : Spec) : Slot → Prop
  | .exact _ t | .rebound _ _ _ (t :: _) | .wildcard _ (some t) _ => h.Covers spec t
  | .wildcard _ none us => ∀ u ∈ us, h.Covers spec u
  | .rebound _ _ _ [] | .param _ _ _ _ _ => True

/-- What becomes of a spec when arguments found in these uses are added: nothing is displaced, and
what is new was supplied and has been looked into. -/
structure Adds (h : Hierarchy) (uses : List Ty) (bound spec : Spec) : Prop where
  keeps : Keeps bound spec
  new : ∀ n a, spec.get? n = some a →
    bound.get? n = some a ∨ h.Supplied uses n a ∧ h.CoversSlot spec a

section Adds

variable {h : Hierarchy} {bound middle spec : Spec} {uses uses' : List Ty}

theorem Supplied.mono {n : String} {a : Slot} (supplied : h.Supplied uses n a)
    (more : uses ⊆ uses') : h.Supplied uses' n a := by
  obtain ⟨s, d, args, member, beside⟩ := supplied
  exact ⟨s, d, args, more member, beside⟩

theorem PassedOver.mono {u : Ty} (passed : h.PassedOver spec uses u) (more : uses ⊆ uses') :
    h.PassedOver spec uses' u := by
  obtain ⟨s, d, args, member, beside⟩ := passed
  exact ⟨s, d, args, more member, beside⟩

theorem Keeps.contains (keeps : Keeps bound spec) {n : String} (known : bound.contains n = true) :
    spec.contains n = true := by
  obtain ⟨a, found⟩ := Option.isSome_iff_exists.mp known
  exact Option.isSome_iff_exists.mpr ⟨a, keeps n a found⟩

theorem Covers.mono (keeps : Keeps bound spec) : ∀ {t : Ty}, h.Covers bound t → h.Covers spec t
  | .app _ _ _, covers => covers.imp_right fun known p member => keeps.contains (known p member)
  | .array _ e, covers => Covers.mono keeps (t := e) covers
  | .decl _, _ | .bare _ _, _ | .param _ _ _, _ => trivial

theorem CoversSlot.mono (keeps : Keeps bound spec) {s : Slot} (covers : h.CoversSlot bound s) :
    h.CoversSlot spec s := by
  cases s with
  | exact m t => exact Covers.mono keeps (t := t) covers
  | rebound m n l us =>
    cases us with
    | nil => trivial
    | cons u us => exact Covers.mono keeps (t := u) covers
  | param => trivial
  | wildcard m l us =>
    cases l with
    | some l => exact Covers.mono keeps (t := l) covers
    | none => exact fun u member => Covers.mono keeps (covers u member)

theorem Adds.refl (h : Hierarchy) (uses : List Ty) (bound : Spec) : h.Adds uses bound bound :=
  ⟨fun _ _ found => found, fun _ _ found => .inl found⟩

theorem Adds.mono (adds : h.Adds uses bound spec) (more : uses ⊆ uses') :
    h.Adds uses' bound spec where
  keeps := adds.keeps
  new n a found := (adds.new n a found).imp_right fun ⟨supplied, covers⟩ =>
    ⟨supplied.mono more, covers⟩

theorem Adds.trans (first : h.Adds uses bound middle) (second : h.Adds uses middle spec) :
    h.Adds uses bound spec where
  keeps n a found := second.keeps n a (first.keeps n a found)
  new n a found := by
    rcases second.new n a found with before | added
    · refine (first.new n a before).imp_right fun ⟨supplied, covers⟩ => ?_
      exact ⟨supplied, covers.mono second.keeps⟩
    · exact .inr added

theorem Adds.append (first : h.Adds uses bound middle) (second : h.Adds uses' middle spec) :
    h.Adds (uses ++ uses') bound spec :=
  (first.mono (List.subset_append_left _ _)).trans (second.mono (List.subset_append_right _ _))

end Adds

/-! ## What is bound is looked into -/

/-- A binding was there, or it is the slot beside a parameter of the name, marked as new. -/
theorem bindNew_new {ps ss : List Slot} {bound : Spec} {n : String} {a : Slot}
    (found : (bindNew ps ss bound).1.get? n = some a) :
    bound.get? n = some a ∨ (a, true) ∈ ss.zip (bindNew ps ss bound).2 ∧
      ∃ p, (p, a) ∈ ps.zip ss ∧ p.name = n := by
  induction ps generalizing ss bound with
  | nil => exact .inl found
  | cons p ps ih =>
    cases ss with
    | nil => exact .inl found
    | cons b ss =>
      unfold bindNew at found ⊢
      split at found
      · rename_i isNew
        rw [if_pos isNew]
        rcases ih found with before | ⟨marked, q, beside, named⟩
        · rw [NameMap.get?_insert] at before
          split at before
          · rename_i here
            cases before
            exact .inr ⟨List.mem_cons_self, p, List.mem_cons_self, here.symm⟩
          · exact .inl before
        · exact .inr ⟨List.mem_cons_of_mem _ marked, q, List.mem_cons_of_mem _ beside, named⟩
      · rename_i taken
        rw [if_neg taken]
        rcases ih found with before | ⟨marked, q, beside, named⟩
        · exact .inl before
        · exact .inr ⟨List.mem_cons_of_mem _ marked, q, List.mem_cons_of_mem _ beside, named⟩

section Legible

variable {r : Reader} {spec : Spec}

theorem exists_beside {ps as : List Slot} (length : ps.length = as.length) {a : Slot}
    (listed : a ∈ as) : ∃ p, (p, a) ∈ ps.zip as := by
  rw [← List.map_snd_zip length.ge] at listed
  obtain ⟨⟨p, _⟩, beside, rfl⟩ := List.mem_map.mp listed
  exact ⟨p, beside⟩

/-- Binding the arguments of a use and looking into the new ones adds what the use supplies. -/
theorem Parametric.adds_app (parametric : r.hierarchy.Parametric) {s : Site} {d : DeclId}
    {args : List Slot} {bound : Spec} (length : (r.hierarchy.params d).length = args.length)
    (adds : r.hierarchy.Adds (Slot.usesAll args)
      (bindNew (r.hierarchy.params d) args bound).1 spec)
    (looked : ∀ x ∈ args.zip (bindNew (r.hierarchy.params d) args bound).2, x.2 = true →
      r.hierarchy.CoversSlot spec x.1) :
    r.hierarchy.Adds (Ty.app s d args).uses bound spec ∧
      r.hierarchy.Covers spec (.app s d args) := by
  have own : r.hierarchy.Adds (Ty.app s d args).uses bound spec := by
    refine ⟨fun n a found => adds.keeps n a (bindNew_keeps n a found), fun n a found => ?_⟩
    rcases (adds.mono (List.subset_cons_self _ _)).new n a found with before | added
    · refine (bindNew_new before).imp_right fun ⟨marked, beside⟩ => ?_
      exact ⟨⟨s, d, args, List.mem_cons_self, beside⟩, looked (a, true) marked rfl⟩
    · exact .inr added
  refine ⟨own, .inr fun p member => ?_⟩
  rcases bindNew_covers (parametric.params d) length p member with ⟨a, -, found⟩ | before
  · exact adds.keeps.contains (Option.isSome_iff_exists.mpr ⟨a, found⟩)
  · exact own.keeps.contains before

mutual

/-- Adding the arguments in a legible type succeeds. -/
theorem addArguments_adds (parametric : r.hierarchy.Parametric) : ∀ {t : Ty} (bound : Spec),
    t.Legible r → ∃ spec, r.hierarchy.addArguments t bound = .ok spec ∧
      r.hierarchy.Adds t.uses bound spec ∧ r.hierarchy.Covers spec t
  | .decl _, bound, _ | .bare _ _, bound, _ | .param _ _ _, bound, _ =>
    ⟨bound, rfl, .refl _ _ bound, trivial⟩
  | .array _ e, bound, legible => addArguments_adds parametric (t := e) bound legible
  | .app _ _ [], bound, _ => ⟨bound, rfl, .refl _ _ bound, .inl rfl⟩
  | .app s d (a :: as), bound, ⟨_, fits, legible⟩ => by
    have length := (fits.resolve_left (List.cons_ne_nil a as)).symm
    obtain ⟨spec, ok, adds, looked⟩ := addNewArguments_adds parametric
      (bindNew (r.hierarchy.params d) (a :: as) bound).2
      (bindNew (r.hierarchy.params d) (a :: as) bound).1 legible
    rw [addArguments_app (List.cons_ne_nil a as) length]
    exact ⟨spec, ok, parametric.adds_app length adds looked⟩

theorem addSlotArguments_adds (parametric : r.hierarchy.Parametric) : ∀ {s : Slot} (bound : Spec),
    s.Legible r → ∃ spec, r.hierarchy.addSlotArguments s bound = .ok spec ∧
      r.hierarchy.Adds s.uses bound spec ∧ r.hierarchy.CoversSlot spec s
  | .exact _ t, bound, ⟨_, _, legible⟩ => addArguments_adds parametric (t := t) bound legible
  | .param _ _ _ _ _, bound, _ => ⟨bound, rfl, .refl _ _ bound, trivial⟩
  | .wildcard _ none us, bound, ⟨_, legible⟩ => addTypesArguments_adds parametric bound legible
  | .wildcard _ (some l) [], bound, ⟨_, _, legible⟩ => by
    obtain ⟨spec, ok, adds, covers⟩ := addArguments_adds parametric (t := l) bound legible
    exact ⟨spec, ok, adds.mono (List.subset_append_left _ _), covers⟩

theorem addTypesArguments_adds (parametric : r.hierarchy.Parametric) : ∀ {ts : List Ty}
    (bound : Spec), Ty.LegibleAll r ts →
    ∃ spec, r.hierarchy.addTypesArguments ts bound = .ok spec ∧
      r.hierarchy.Adds (Ty.usesAll ts) bound spec ∧ ∀ t ∈ ts, r.hierarchy.Covers spec t
  | [], bound, _ => ⟨bound, rfl, .refl _ _ bound, List.forall_mem_nil _⟩
  | t :: ts, bound, ⟨first, rest⟩ => by
    obtain ⟨middle, ok, adds, covers⟩ := addArguments_adds parametric (t := t) bound first
    obtain ⟨spec, done, adds', covers'⟩ := addTypesArguments_adds parametric middle rest
    rw [addTypesArguments]
    exact ⟨spec, bind_eq_ok.mpr ⟨middle, ok, done⟩, adds.append adds',
      List.forall_mem_cons.mpr ⟨covers.mono adds'.keeps, covers'⟩⟩

/-- Of several arguments those that are marked are looked into. -/
theorem addNewArguments_adds (parametric : r.hierarchy.Parametric) : ∀ {ss : List Slot}
    (news : List Bool) (bound : Spec), Slot.LegibleAll r ss →
    ∃ spec, r.hierarchy.addNewArguments ss news bound = .ok spec ∧
      r.hierarchy.Adds (Slot.usesAll ss) bound spec ∧
      ∀ x ∈ ss.zip news, x.2 = true → r.hierarchy.CoversSlot spec x.1
  | [], _, bound, _ | _ :: _, [], bound, _ =>
    ⟨bound, rfl, .refl _ _ bound, List.forall_mem_nil _⟩
  | s :: ss, true :: news, bound, ⟨first, rest⟩ => by
    obtain ⟨middle, ok, adds, covers⟩ := addSlotArguments_adds parametric (s := s) bound first
    obtain ⟨spec, done, adds', looked⟩ := addNewArguments_adds parametric news middle rest
    rw [addNewArguments]
    exact ⟨spec, bind_eq_ok.mpr ⟨middle, ok, done⟩, adds.append adds',
      List.forall_mem_cons.mpr ⟨fun _ => covers.mono adds'.keeps, looked⟩⟩
  | s :: ss, false :: news, bound, ⟨_, rest⟩ => by
    obtain ⟨spec, done, adds, looked⟩ := addNewArguments_adds parametric news bound rest
    rw [addNewArguments]
    exact ⟨spec, done, adds.mono (List.subset_append_right _ _),
      List.forall_mem_cons.mpr ⟨nofun, looked⟩⟩

end

/-! ## An equal argument has the same uses -/

section Closed

theorem not_holds_of_closed (closed : r.scope = .empty) {s : Site} {n : String} {bs : List Ty} :
    ¬ r.Holds s n bs := by
  intro holds
  have found := holds.found
  rw [closed] at found
  cases found

/-- The parameters of a declaration are no closed arguments. -/
theorem not_restatesParams (closed : r.scope = .empty) {ps as : List Slot} (generic : ps ≠ [])
    (legible : Slot.LegibleAll r as) : restatesParams ps as = false := by
  obtain ⟨p, ps, rfl⟩ := List.exists_cons_of_ne_nil generic
  cases as with
  | nil => rfl
  | cons a as =>
    cases a with
    | param => exact absurd legible.1.2.2 (not_holds_of_closed closed)
    | exact | rebound | wildcard => rfl

theorem Covers.of_equal (closed : r.scope = .empty) : ∀ {t u : Ty},
    r.hierarchy.equal t u = true → r.hierarchy.Covers spec t → u.Legible r →
      r.hierarchy.Covers spec u
  | .app _ d as, .app _ e bs, same, covers, _ => by
    obtain ⟨here, slots⟩ := Bool.and_eq_true_iff.mp same
    cases eq_of_beq here
    refine covers.imp_left fun none => ?_
    subst none
    cases bs with
    | nil => rfl
    | cons => cases slots
  | .decl d, .app _ e bs, same, _, ⟨_, _, legible⟩ => by
    simp only [equal, Bool.and_eq_true, Bool.not_eq_true', List.isEmpty_eq_false_iff] at same
    rw [not_restatesParams closed same.1.2 legible] at same
    cases same.2
  | .array _ t, .array _ u, same, covers, legible =>
    Covers.of_equal closed (t := t) (u := u) same covers legible
  | _, .decl _, _, _, _ | _, .bare _ _, _, _, _ | _, .param _ _ _, _, _, _ => trivial

theorem Covers.of_equalTypes (closed : r.scope = .empty) : ∀ {ts us : List Ty},
    r.hierarchy.equalTypes ts us = true → (∀ t ∈ ts, r.hierarchy.Covers spec t) →
      Ty.LegibleAll r us → ∀ u ∈ us, r.hierarchy.Covers spec u
  | [], [], _, _, _ => List.forall_mem_nil _
  | t :: ts, u :: us, same, covers, ⟨first, rest⟩ => by
    obtain ⟨here, behind⟩ := Bool.and_eq_true_iff.mp same
    obtain ⟨covers, covers'⟩ := List.forall_mem_cons.mp covers
    exact List.forall_mem_cons.mpr ⟨covers.of_equal closed here first,
      Covers.of_equalTypes closed behind covers' rest⟩

/-- Where an argument was looked into, so was every equal one. -/
theorem CoversSlot.of_slotEqual (parametric : r.hierarchy.Parametric)
    (closed : r.scope = .empty) : ∀ {a b : Slot}, r.hierarchy.slotEqual a b = true →
    r.hierarchy.CoversSlot spec a → b.Legible r → r.hierarchy.CoversSlot spec b
  | .exact _ t, .exact _ _, same, covers, ⟨_, _, legible⟩
  | .rebound _ _ _ (t :: _), .exact _ _, same, covers, ⟨_, _, legible⟩ =>
    Covers.of_equal closed (t := t) same covers legible
  | .rebound _ _ _ [], .exact _ _, same, _, ⟨_, _, legible⟩ =>
    Covers.of_equal closed (t := .object) (parametric.equal_ty rfl same) trivial legible
  | .wildcard _ none _, .wildcard _ none _, same, covers, ⟨_, legible⟩ =>
    Covers.of_equalTypes closed same covers legible
  | .wildcard _ (some l) _, .wildcard _ (some _) _, same, covers, ⟨_, _, legible⟩ =>
    Covers.of_equal closed (t := l) (Bool.and_eq_true_iff.mp same).1 covers legible
  | _, .param _ _ _ _ _, _, _, _ => trivial

/-! ## Down to a use -/

/-- A spec in which every argument was looked into, for types without type parameters. -/
structure Collected (r : Reader) (spec : Spec) : Prop where
  parametric : r.hierarchy.Parametric
  closed : r.scope = .empty
  looked : ∀ n a, spec.get? n = some a → r.hierarchy.CoversSlot spec a

mutual

/-- In a type whose outermost use is covered, each use is covered or passed over. -/
theorem Collected.covered_or_passed (collected : Collected r spec) : ∀ {t : Ty},
    t.Legible r → r.hierarchy.Covers spec t → ∀ u ∈ t.uses,
      r.hierarchy.Covers spec u ∨ r.hierarchy.PassedOver spec t.uses u
  | .decl d, _, _, u, member | .bare _ d, _, _, u, member => by
    rw [List.mem_singleton.mp member]
    exact .inl trivial
  | .app s d args, ⟨_, fits, legible⟩, covers, u, member => by
    rcases List.mem_cons.mp member with rfl | inside
    · exact .inl covers
    obtain ⟨a, listed, inside⟩ := Slot.mem_usesAll.mp inside
    have applied : args ≠ [] := List.ne_nil_of_mem listed
    obtain ⟨p, beside⟩ := exists_beside (fits.resolve_left applied).symm listed
    have known := covers.resolve_left applied p (List.of_mem_zip beside).1
    obtain ⟨b, found⟩ := Option.isSome_iff_exists.mp known
    cases same : r.hierarchy.slotEqual b a with
    | false =>
      exact .inr ⟨s, d, args, List.mem_cons_self, (p, a), beside, inside, b, found, same⟩
    | true =>
      -- the argument, or one equal to it, was bound for its parameter, and so looked into
      have covers := (collected.looked p.name b found).of_slotEqual collected.parametric
        collected.closed same (Slot.LegibleAll.mem legible a listed)
      have within : a.uses ⊆ (Ty.app s d args).uses := fun v member =>
        List.mem_cons_of_mem _ (Slot.mem_usesAll.mpr ⟨a, listed, member⟩)
      exact (collected.slotsCovered_or_passed legible a listed covers u inside).imp_right
        (·.mono within)
  | .param _ _ _, holds, _, _, _ => absurd holds (not_holds_of_closed collected.closed)
  | .array _ e, legible, covers, u, member =>
    collected.covered_or_passed (t := e) legible covers u member

theorem Collected.slotCovered_or_passed (collected : Collected r spec) : ∀ {a : Slot},
    a.Legible r → r.hierarchy.CoversSlot spec a → ∀ u ∈ a.uses,
      r.hierarchy.Covers spec u ∨ r.hierarchy.PassedOver spec a.uses u
  | .exact _ t, ⟨_, _, legible⟩, covers, u, member =>
    collected.covered_or_passed (t := t) legible covers u member
  | .param _ _ _ _ _, ⟨_, _, holds⟩, _, _, _ => absurd holds (not_holds_of_closed collected.closed)
  | .wildcard _ none us, ⟨_, legible⟩, covers, u, member =>
    collected.typesCovered_or_passed legible covers u member
  | .wildcard _ (some l) [], ⟨_, _, legible⟩, covers, u, member => by
    rw [Slot.uses, Ty.usesAll, List.append_nil] at member ⊢
    exact collected.covered_or_passed (t := l) legible covers u member

theorem Collected.typesCovered_or_passed (collected : Collected r spec) : ∀ {ts : List Ty},
    Ty.LegibleAll r ts → (∀ t ∈ ts, r.hierarchy.Covers spec t) → ∀ u ∈ Ty.usesAll ts,
      r.hierarchy.Covers spec u ∨ r.hierarchy.PassedOver spec (Ty.usesAll ts) u
  | t :: ts, ⟨first, rest⟩, covers, u, member => by
    obtain ⟨covers, covers'⟩ := List.forall_mem_cons.mp covers
    rcases List.mem_append.mp member with inside | behind
    · exact (collected.covered_or_passed (t := t) first covers u inside).imp_right
        (·.mono (List.subset_append_left _ _))
    · exact (collected.typesCovered_or_passed rest covers' u behind).imp_right
        (·.mono (List.subset_append_right _ _))

theorem Collected.slotsCovered_or_passed (collected : Collected r spec) : ∀ {ss : List Slot},
    Slot.LegibleAll r ss → ∀ a ∈ ss, r.hierarchy.CoversSlot spec a → ∀ u ∈ a.uses,
      r.hierarchy.Covers spec u ∨ r.hierarchy.PassedOver spec a.uses u
  | [], _ => List.forall_mem_nil _
  | s :: _, ⟨first, rest⟩ => List.forall_mem_cons.mpr
    ⟨collected.slotCovered_or_passed (a := s) first, collected.slotsCovered_or_passed rest⟩

end

end Closed

end Legible

end Hierarchy

open Hierarchy in
/-- Collecting the arguments of a closed type that was read succeeds. Under each name stands an
argument that was supplied for a parameter of that name, for the parameters of the type itself its
own arguments. The parameters of every use with arguments are found, unless the use lies in an
argument that was passed over because another one had taken the name of its parameter. -/
theorem supplied_arguments_found {h : Hierarchy} {rs : List Registry} (loaded : h.Loaded rs)
    (distinct : h.DistinctParams) {t : Ty} (reads : h.Reads rs .empty t) :
    ∃ spec, h.arguments t = .ok spec ∧
      (∀ n a, spec.get? n = some a → h.Supplied t.uses n a) ∧
      (∀ s d args, t = .app s d args →
        ∀ x ∈ (h.params d).zip args, spec.get? x.1.name = some x.2) ∧
      ∀ s d args, Ty.app s d args ∈ t.uses → args ≠ [] →
        (∀ p ∈ h.params d, spec.contains p.name = true) ∨
          h.PassedOver spec t.uses (.app s d args) := by
  obtain ⟨ids, sound, known⟩ := loaded.sound
  obtain ⟨r, source, legible⟩ := reads.legible loaded .empty
  obtain ⟨spec, ok, adds, covers⟩ := addArguments_adds sound.parametric .empty legible
  have new : ∀ n a, spec.get? n = some a → h.Supplied t.uses n a ∧ h.CoversSlot spec a :=
    fun n a found => (adds.new n a found).resolve_left nofun
  refine ⟨spec, ok, fun n a found => (new n a found).1, ?_, ?_⟩
  · rintro s d args rfl x beside
    have applied : args ≠ [] := List.ne_nil_of_mem (List.of_mem_zip beside).2
    obtain ⟨-, spec', ok', binds⟩ := sound.arguments_beside distinct
      (reads.whole sound known .empty) applied
    cases ok'.symm.trans ok
    exact binds x beside
  · intro s d args member applied
    have collected : Collected ⟨h, r, .empty, source⟩ spec :=
      ⟨sound.parametric, rfl, fun n a found => (new n a found).2⟩
    have found := collected.covered_or_passed legible covers _ member
    exact found.imp_left (·.resolve_left applied)

def reelsCrate : Ty := reelLibrary.typeOf "Crate<Reel<Text[]>, ? super Reel<Buffer<Text>>>"

/-- The crate and the first reel supply arguments. The second reel has its own passed over, and so
the parameter of buffers is not found. -/
theorem reelsCrate_found :
    reelLibrary.hierarchy.DistinctParams ∧
    reelLibrary.hierarchy.Reads [reelLibrary.registry, .root] .empty reelsCrate ∧
    ∃ spec, reelLibrary.hierarchy.arguments reelsCrate = .ok spec ∧ spec.keys = ["A", "B", "X"] ∧
      (∀ n a, spec.get? n = some a → reelLibrary.hierarchy.Supplied reelsCrate.uses n a) ∧
      (∀ s d args, reelsCrate = .app s d args →
        ∀ x ∈ (reelLibrary.hierarchy.params d).zip args, spec.get? x.1.name = some x.2) ∧
      ∀ s d args, Ty.app s d args ∈ reelsCrate.uses → args ≠ [] →
        (∀ p ∈ reelLibrary.hierarchy.params d, spec.contains p.name = true) ∨
          reelLibrary.hierarchy.PassedOver spec reelsCrate.uses (.app s d args) := by
  obtain ⟨distinct, readable, found⟩ : reelLibrary.hierarchy.DistinctParams ∧
      ((reelLibrary.reader .empty).parseType
        "Crate<Reel<Text[]>, ? super Reel<Buffer<Text>>>").isOk = true ∧
      (reelLibrary.hierarchy.arguments reelsCrate).toOption.map NameMap.keys =
        some ["A", "B", "X"] := by
    decide +kernel
  have reads : reelLibrary.hierarchy.Reads [reelLibrary.registry, .root] .empty reelsCrate :=
    reads_reelLibrary readable
  obtain ⟨spec, ok, result⟩ := supplied_arguments_found loaded_reelLibrary distinct reads
  rw [ok] at found
  exact ⟨distinct, reads, spec, ok, Option.some.inj found, result⟩

def nestedReel : Ty := reelLibrary.typeOf "Reel<Reel<Crate<Text, Text>>>"

/-- The crate is used with arguments, but they are not found, though no two type parameters of the
library have one name. The inner reel is looked into, and its own argument is not: the name of its
parameter is taken. -/
theorem nested_reel_missed :
    (reelLibrary.hierarchy.decls.toList.flatMap fun c => c.params.map Slot.name).Nodup ∧
    reelLibrary.hierarchy.Reads [reelLibrary.registry, .root] .empty nestedReel ∧
    (∃ u ∈ nestedReel.uses, u.head? = some crateId ∧
      (reelLibrary.hierarchy.args u).map reelLibrary.hierarchy.renderSlot = ["Text", "Text"]) ∧
    (reelLibrary.hierarchy.params crateId).map Slot.name = ["A", "B"] ∧
    ∃ spec, reelLibrary.hierarchy.arguments nestedReel = .ok spec ∧ spec.keys = ["X"] := by
  obtain ⟨distinct, readable, used, params, found⟩ :
      (reelLibrary.hierarchy.decls.toList.flatMap fun c => c.params.map Slot.name).Nodup ∧
      ((reelLibrary.reader .empty).parseType "Reel<Reel<Crate<Text, Text>>>").isOk = true ∧
      (∃ u ∈ nestedReel.uses, u.head? = some crateId ∧
        (reelLibrary.hierarchy.args u).map reelLibrary.hierarchy.renderSlot = ["Text", "Text"]) ∧
      (reelLibrary.hierarchy.params crateId).map Slot.name = ["A", "B"] ∧
      (reelLibrary.hierarchy.arguments nestedReel).toOption.map NameMap.keys = some ["X"] := by
    decide +kernel
  obtain ⟨spec, ok, keys⟩ := Option.map_eq_some_iff.mp found
  exact ⟨distinct, reads_reelLibrary readable, used, params, spec, toOption_eq_some.mp ok, keys⟩

end NominalGenerics
