/-!
Dictionaries that remember the order in which their keys came. A key that is put again keeps its
place and gets the new value.
-/

set_option autoImplicit false
set_option relaxedAutoImplicit false

namespace PackageAtlas

/-- Entries in the order of their first insertion. -/
structure Dict (κ α : Type) where
  entries : List (κ × α)
deriving Repr

namespace Dict

variable {κ α : Type} [DecidableEq κ]

def empty : Dict κ α := ⟨[]⟩

instance : Inhabited (Dict κ α) := ⟨empty⟩

def find? (dict : Dict κ α) (key : κ) : Option α := dict.entries.lookup key

def contains (dict : Dict κ α) (key : κ) : Bool := (dict.find? key).isSome

/-- The entries after putting a value, at the place of the key or at the end. -/
def put (key : κ) (value : α) : List (κ × α) → List (κ × α)
  | [] => [(key, value)]
  | entry :: rest => if entry.1 = key then (key, value) :: rest else entry :: put key value rest

def insert (dict : Dict κ α) (key : κ) (value : α) : Dict κ α := ⟨put key value dict.entries⟩

def keys (dict : Dict κ α) : List κ := dict.entries.map (·.1)

def values (dict : Dict κ α) : List α := dict.entries.map (·.2)

theorem find?_insert_self (dict : Dict κ α) (key : κ) (value : α) :
    (dict.insert key value).find? key = some value := by
  obtain ⟨entries⟩ := dict
  simp only [find?, insert]
  induction entries with
  | nil => simp [put]
  | cons entry rest ih =>
    by_cases h : entry.1 = key
    · simp [put, h]
    · obtain ⟨k, a⟩ := entry
      have hne : (key == k) = false := by simpa using Ne.symm h
      simp only [put, h, if_false, List.lookup_cons, hne]
      exact ih

theorem find?_insert_of_ne (dict : Dict κ α) {key other : κ} (value : α) (h : other ≠ key) :
    (dict.insert key value).find? other = dict.find? other := by
  obtain ⟨entries⟩ := dict
  simp only [find?, insert]
  have hne : (other == key) = false := by simpa using h
  induction entries with
  | nil => simp [put, List.lookup_cons, hne]
  | cons entry rest ih =>
    by_cases he : entry.1 = key
    · obtain ⟨k, a⟩ := entry
      simp only at he
      subst he
      simp [put, List.lookup_cons, hne]
    · obtain ⟨k, a⟩ := entry
      simp only [put, he, if_false, List.lookup_cons]
      split
      · rfl
      · exact ih

theorem contains_insert (dict : Dict κ α) (key other : κ) (value : α) :
    (dict.insert key value).contains other = true ↔ other = key ∨ dict.contains other = true := by
  unfold contains
  by_cases heq : other = key
  · rw [heq, find?_insert_self]
    exact ⟨fun _ ↦ Or.inl rfl, fun _ ↦ rfl⟩
  · rw [find?_insert_of_ne dict value heq, or_iff_right heq]

end Dict

end PackageAtlas
