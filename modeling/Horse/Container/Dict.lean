import Horse.Container.HashTable

/-!
# Dictionaries that keep the order of insertion

A dictionary is a list of entries without two of one key.  Assigning to a key
changes its entry in place, or adds one at the end.
-/

namespace Horse.Container

universe u v

/-- Entries with distinct keys, the oldest first. -/
structure Dict (κ : Type u) (α : Type v) where
  entries : List (κ × α)
  distinct : (entries.map Prod.fst).Nodup
  deriving DecidableEq, Repr

namespace Dict

variable {κ : Type u} {α : Type v}

/-- The dictionary without entries. -/
def empty : Dict κ α where
  entries := []
  distinct := List.nodup_nil

variable [DecidableEq κ]

/-- The value of a key. -/
def get? (d : Dict κ α) (k : κ) : Option α :=
  (d.entries.find? fun entry => entry.1 == k).map Prod.snd

/-- Assign a value to a key. -/
def set (d : Dict κ α) (k : κ) (value : α) : Dict κ α :=
  if present : k ∈ d.entries.map Prod.fst then
    { entries := updateFirst (fun entry => entry.1 == k) (fun _ => (k, value)) d.entries
      distinct := by
        rw [map_updateFirst _ _ (by simp +contextual)]
        exact d.distinct }
  else
    { entries := d.entries ++ [(k, value)]
      distinct := by
        rw [List.map_append, List.nodup_append]
        refine ⟨d.distinct, List.pairwise_singleton _ _, ?_⟩
        intro old isOld new isNew same
        have isKey : old = k := same.trans (List.mem_singleton.mp isNew)
        exact present (isKey ▸ isOld) }

/-- Remove the entry of a key. -/
def erase (d : Dict κ α) (k : κ) : Dict κ α where
  entries := d.entries.eraseP fun entry => entry.1 == k
  distinct := d.distinct.sublist (List.eraseP_sublist.map _)

@[simp]
theorem get?_empty (k : κ) : (empty : Dict κ α).get? k = none :=
  rfl

theorem mem_entries_iff (d : Dict κ α) (k : κ) (value : α) :
    (k, value) ∈ d.entries ↔ d.get? k = some value := by
  constructor
  · intro member
    have found : d.entries.find? (fun entry => entry.1 == k) = some (k, value) :=
      find?_of_mem d.distinct member
    rw [get?, found]
    rfl
  · intro isValue
    rcases Option.map_eq_some_iff.mp isValue with ⟨⟨other, stored⟩, found, rfl⟩
    have isKey : other = k := by simpa using List.find?_some found
    rw [← isKey]
    exact List.mem_of_find?_eq_some found

theorem get?_set (d : Dict κ α) (k wanted : κ) (value : α) :
    (d.set k value).get? wanted = if wanted = k then some value else d.get? wanted := by
  unfold set
  split
  · rename_i present
    rw [get?, find?_updateFirst (by simp)]
    split
    · rcases List.mem_map.mp present with ⟨⟨other, stored⟩, member, rfl⟩
      have found : d.entries.find? (fun entry => entry.1 == other) = some (other, stored) :=
        find?_of_mem d.distinct member
      rw [found]
      rfl
    · rfl
  · rename_i missing
    rw [get?, List.find?_append]
    by_cases isKey : wanted = k
    · subst isKey
      have none : d.entries.find? (fun entry => entry.1 == wanted) = none := by
        rw [List.find?_eq_none]
        intro entry member same
        exact missing (List.mem_map.mpr ⟨entry, member, by simpa using same⟩)
      rw [none]
      simp
    · have skips : (k == wanted) = false := by simpa using Ne.symm isKey
      simp [isKey, skips, get?]

theorem get?_erase (d : Dict κ α) (k wanted : κ) :
    (d.erase k).get? wanted = if wanted = k then none else d.get? wanted := by
  by_cases isKey : wanted = k
  · rw [if_pos isKey, isKey, get?, erase, find?_eraseP_self d.distinct]
    rfl
  · rw [if_neg isKey, get?, erase, find?_eraseP isKey]
    rfl

end Dict

end Horse.Container
