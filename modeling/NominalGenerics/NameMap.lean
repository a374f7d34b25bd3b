/-!
# Finite maps keyed by names

Entries are kept strictly sorted by name, in code point order, so a map has one representation
and listing it needs no sort. `get?_insert` says what a write does to every look-up, and
`get?_eq_none_iff` that look-ups find exactly the listed names.
-/

namespace NominalGenerics

/-- A finite map from names, its entries strictly sorted. -/
structure NameMap (α : Type) where
  entries : List (String × α)
  sorted : (entries.map Prod.fst).Pairwise (· < ·)

namespace NameMap

variable {α : Type}

def empty : NameMap α := ⟨[], List.Pairwise.nil⟩

instance : EmptyCollection (NameMap α) := ⟨empty⟩

instance : Inhabited (NameMap α) := ⟨empty⟩

/-- The value of the first entry for `name`. -/
def lookup (name : String) : List (String × α) → Option α
  | [] => none
  | (key, value) :: rest => if key = name then some value else lookup name rest

def get? (m : NameMap α) (name : String) : Option α := lookup name m.entries

def contains (m : NameMap α) (name : String) : Bool := (m.get? name).isSome

def keys (m : NameMap α) : List String := m.entries.map Prod.fst

def values (m : NameMap α) : List α := m.entries.map Prod.snd

def size (m : NameMap α) : Nat := m.entries.length

/-- Write `value` at its place in a sorted list, over an entry of the same name. -/
def place (name : String) (value : α) : List (String × α) → List (String × α)
  | [] => [(name, value)]
  | (key, old) :: rest =>
    if name < key then (name, value) :: (key, old) :: rest
    else if name = key then (name, value) :: rest
    else (key, old) :: place name value rest

theorem mem_keys_place {name k : String} {value : α} {entries : List (String × α)} :
    k ∈ (place name value entries).map Prod.fst ↔ k = name ∨ k ∈ entries.map Prod.fst := by
  induction entries with
  | nil => simp [place]
  | cons e rest ih => grind [place]

theorem sorted_place {name : String} {value : α} {entries : List (String × α)}
    (h : (entries.map Prod.fst).Pairwise (· < ·)) :
    ((place name value entries).map Prod.fst).Pairwise (· < ·) := by
  induction entries with
  | nil => simp [place]
  | cons e rest ih =>
    obtain ⟨key, old⟩ := e
    have tail := ih (List.Pairwise.of_cons h)
    have above : ∀ k ∈ rest.map Prod.fst, key < k := (List.pairwise_cons.mp h).1
    unfold place
    split
    · rename_i below
      refine List.pairwise_cons.mpr ⟨fun k hk => ?_, h⟩
      rcases List.mem_cons.mp hk with rfl | hk
      · exact below
      · exact String.lt_trans below (above k hk)
    · split
      · rename_i same
        subst same
        exact List.pairwise_cons.mpr ⟨above, List.Pairwise.of_cons h⟩
      · refine List.pairwise_cons.mpr ⟨fun k hk => ?_, tail⟩
        rcases mem_keys_place.mp hk with rfl | hk
        · grind
        · exact above k hk

def insert (m : NameMap α) (name : String) (value : α) : NameMap α :=
  ⟨place name value m.entries, sorted_place m.sorted⟩

/-- The map with `name` bound to `value` unless it is bound already: the first binding wins. -/
def insertNew (m : NameMap α) (name : String) (value : α) : NameMap α :=
  if m.contains name then m else m.insert name value

/-- The map of a list of bindings; a later binding of a name wins. -/
def ofList (bindings : List (String × α)) : NameMap α :=
  bindings.foldl (fun m e => m.insert e.1 e.2) empty

theorem lookup_place {name k : String} {value : α} {entries : List (String × α)} :
    lookup k (place name value entries) = if k = name then some value else lookup k entries := by
  induction entries with
  | nil => grind [place, lookup]
  | cons e rest ih => grind [place, lookup]

@[simp]
theorem get?_empty (name : String) : (empty : NameMap α).get? name = none := rfl

theorem get?_insert (m : NameMap α) (name k : String) (value : α) :
    (m.insert name value).get? k = if k = name then some value else m.get? k :=
  lookup_place

theorem get?_insertNew (m : NameMap α) (name k : String) (value : α) :
    (m.insertNew name value).get? k =
      if k = name then some ((m.get? name).getD value) else m.get? k := by
  unfold insertNew contains
  split
  · rename_i h
    obtain ⟨old, h⟩ := Option.isSome_iff_exists.mp h
    split
    · rename_i same
      subst same
      simp [h]
    · rfl
  · rename_i h
    rw [get?_insert]
    simp at h
    simp [h]

theorem lookup_eq_none_iff {name : String} {entries : List (String × α)} :
    lookup name entries = none ↔ name ∉ entries.map Prod.fst := by
  induction entries with
  | nil => simp [lookup]
  | cons e rest ih => grind [lookup]

theorem get?_eq_none_iff {m : NameMap α} {name : String} :
    m.get? name = none ↔ name ∉ m.keys :=
  lookup_eq_none_iff

theorem mem_keys_of_get?_eq_some {m : NameMap α} {name : String} {value : α}
    (h : m.get? name = some value) : name ∈ m.keys := by
  have present : m.get? name ≠ none := by simp [h]
  exact Classical.not_not.mp (mt get?_eq_none_iff.mpr present)

theorem mem_of_lookup {name : String} {value : α} {entries : List (String × α)}
    (h : lookup name entries = some value) : (name, value) ∈ entries := by
  induction entries with
  | nil => cases h
  | cons e rest ih => grind [lookup]

theorem lookup_of_mem {name : String} {value : α} {entries : List (String × α)}
    (h : (entries.map Prod.fst).Pairwise (· < ·)) (member : (name, value) ∈ entries) :
    lookup name entries = some value := by
  induction entries with
  | nil => cases member
  | cons e rest ih =>
    have above : ∀ k ∈ rest.map Prod.fst, e.1 < k := (List.pairwise_cons.mp h).1
    rcases List.mem_cons.mp member with rfl | later
    · exact if_pos rfl
    · have apart : e.1 ≠ name := by
        rintro rfl
        exact String.lt_irrefl _ (above _ (List.mem_map.mpr ⟨_, later, rfl⟩))
      exact (if_neg apart).trans (ih (List.Pairwise.of_cons h) later)

/-- The values are what look-ups find. -/
theorem mem_values_iff {m : NameMap α} {value : α} :
    value ∈ m.values ↔ ∃ name, m.get? name = some value := by
  constructor
  · intro member
    obtain ⟨⟨name, _⟩, listed, rfl⟩ := List.mem_map.mp member
    exact ⟨name, lookup_of_mem m.sorted listed⟩
  · rintro ⟨name, found⟩
    exact List.mem_map.mpr ⟨(name, value), mem_of_lookup found, rfl⟩

end NameMap

end NominalGenerics
