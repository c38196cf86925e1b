set_option autoImplicit false

/-!
# Tables keyed by name

A finite map from names to values.  Writing a name replaces what it held; the order of the
entries carries no meaning.
-/

namespace ReplEngine

/-- A finite map from names to values. -/
structure Table (α : Type) where
  entries : List (String × α) := []
  deriving Repr, Inhabited

namespace Table

variable {α : Type}

/-- The table without entries. -/
def empty : Table α := ⟨[]⟩

/-- The value stored under a name. -/
def get? (t : Table α) (name : String) : Option α := t.entries.lookup name

/-- The name has a value. -/
def contains (t : Table α) (name : String) : Bool := (t.get? name).isSome

/-- Drops what is stored under a name. -/
def erase (t : Table α) (name : String) : Table α :=
  ⟨t.entries.filter fun e => e.1 != name⟩

/-- Stores a value under a name, in place of any earlier one. -/
def insert (t : Table α) (name : String) (value : α) : Table α :=
  ⟨(name, value) :: (t.erase name).entries⟩

/-- The number of names with a value. -/
def size (t : Table α) : Nat := t.entries.length

/-- The table that results from storing pairs in order. -/
def ofList (pairs : List (String × α)) : Table α :=
  pairs.foldl (fun t p => t.insert p.1 p.2) empty

@[simp] theorem get?_empty (name : String) : (empty : Table α).get? name = none := rfl

theorem lookup_cons_eq (entries : List (String × α)) (name key : String) (value : α) :
    List.lookup key ((name, value) :: entries) =
      if key = name then some value else List.lookup key entries := by
  by_cases h : key = name
  · simp [h]
  · have : (key == name) = false := beq_false_of_ne h
    simp [List.lookup_cons, h, this]

theorem get?_erase (t : Table α) (name key : String) :
    (t.erase name).get? key = if key = name then none else t.get? key := by
  obtain ⟨entries⟩ := t
  simp only [get?, erase]
  induction entries with
  | nil => simp
  | cons e es ih =>
    obtain ⟨k, v⟩ := e
    rw [lookup_cons_eq]
    by_cases hk : k = name
    · subst hk
      rw [List.filter_cons_of_neg (by simp), ih]
      by_cases hkey : key = k <;> simp only [hkey, if_true, if_false]
    · rw [List.filter_cons_of_pos (by simp [hk]), lookup_cons_eq, ih]
      by_cases hkey : key = k
      · subst hkey
        simp only [if_true, hk, if_false]
      · simp only [hkey, if_false]

theorem get?_insert (t : Table α) (name key : String) (value : α) :
    (t.insert name value).get? key = if key = name then some value else t.get? key := by
  have h := get?_erase t name key
  simp only [get?] at h
  simp only [get?, insert, lookup_cons_eq, h]
  by_cases hkey : key = name <;> simp [hkey]

/-- Storing the value that a name has already changes nothing. -/
theorem get?_insert_of_eq {t : Table α} {name key : String} {value : α}
    (h : key = name → t.get? key = some value) : (t.insert name value).get? key = t.get? key := by
  rw [get?_insert]
  by_cases hkey : key = name
  · rw [if_pos hkey, h hkey]
  · rw [if_neg hkey]

theorem get?_single {name key : String} {value v : α} :
    (⟨[(name, value)]⟩ : Table α).get? key = some v ↔ key = name ∧ value = v := by
  rw [get?, lookup_cons_eq]
  by_cases hkey : key = name <;> simp [hkey]

end Table

end ReplEngine
