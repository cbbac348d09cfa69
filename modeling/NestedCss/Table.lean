import NestedCss.Text.Basic

set_option autoImplicit false

/-! Tables from names to values, in which each name occurs once. Entering a name
again replaces its value. -/

namespace NestedCss

/-- A finite table. Its entries have distinct names. -/
structure Table (α : Type) where
  entries : List (Text × α)
  distinct : (entries.map Prod.fst).Nodup

namespace Table

variable {α : Type}

def empty : Table α := ⟨[], List.nodup_nil⟩

def insert (table : Table α) (name : Text) (value : α) : Table α where
  entries := (name, value) :: table.entries.filter fun entry => entry.1 != name
  distinct := by
    rw [List.map_cons, List.nodup_cons]
    constructor
    · intro present
      obtain ⟨entry, kept, same⟩ := List.mem_map.mp present
      have different := (List.mem_filter.mp kept).2
      simp [same] at different
    · exact table.distinct.sublist (List.Sublist.map Prod.fst List.filter_sublist)

def find? (table : Table α) (name : Text) : Option α := table.entries.lookup name

def size (table : Table α) : Nat := table.entries.length

private theorem lookup_filter_of_ne (entries : List (Text × α)) (name other : Text)
    (different : other ≠ name) :
    (entries.filter fun entry => entry.1 != name).lookup other = entries.lookup other := by
  induction entries with
  | nil => rfl
  | cons entry rest ih =>
      obtain ⟨key, value⟩ := entry
      by_cases same : key = name
      · subst same
        have missed : (other == key) = false := beq_eq_false_iff_ne.mpr different
        simp [List.lookup_cons, missed, ih]
      · simp [List.lookup_cons, same, ih]

@[simp] theorem find?_empty (name : Text) : (empty : Table α).find? name = none := rfl

@[simp] theorem find?_insert_self (table : Table α) (name : Text) (value : α) :
    (table.insert name value).find? name = some value := by
  simp [find?, insert]

theorem find?_insert_of_ne (table : Table α) (name other : Text) (value : α)
    (different : other ≠ name) : (table.insert name value).find? other = table.find? other := by
  have missed : (other == name) = false := beq_eq_false_iff_ne.mpr different
  simp [find?, insert, List.lookup_cons, missed, lookup_filter_of_ne, different]

theorem find?_insert_cases {table : Table α} {name other : Text} {value found : α}
    (search : (table.insert name value).find? other = some found) :
    found = value ∨ table.find? other = some found := by
  by_cases same : other = name
  · subst same
    rw [find?_insert_self] at search
    injection search with same
    exact Or.inl same.symm
  · rw [find?_insert_of_ne _ _ _ _ same] at search
    exact Or.inr search

end Table
end NestedCss
