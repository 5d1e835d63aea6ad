import Horse.Container.HashTable
import Mathlib.Data.List.Find
import Mathlib.Data.List.Nodup

/-!
# The last write under a key

A sequence of writes leaves under every key the value that was written last.  Keys can be
grouped: a container that keeps the last write of every group keeps the same values just
if no two keys of one group were written.
-/

namespace Horse.Container

universe u v w

variable {α : Type u} {κ : Type v} {ι : Type w} [DecidableEq κ] [DecidableEq ι]

/-- The last of a sequence of writes that has a key. -/
def lastWrite (key : α → κ) (written : List α) (k : κ) : Option α :=
  written.reverse.find? fun value => key value == k

@[simp]
theorem lastWrite_nil (key : α → κ) (k : κ) : lastWrite key [] k = none :=
  rfl

/-- Later writes come first. -/
theorem lastWrite_append (key : α → κ) (before after : List α) (k : κ) :
    lastWrite key (before ++ after) k = (lastWrite key after k).or (lastWrite key before k) := by
  rw [lastWrite, List.reverse_append, List.find?_append]
  rfl

theorem lastWrite_singleton (key : α → κ) (value : α) (k : κ) :
    lastWrite key [value] k = if key value = k then some value else none := by
  by_cases isKey : key value = k <;> simp [lastWrite, isKey]

theorem lastWrite_map {β : Type*} (key : β → κ) (f : α → β) (written : List α) (k : κ) :
    lastWrite key (written.map f) k = (lastWrite (key ∘ f) written k).map f := by
  rw [lastWrite, ← List.map_reverse, List.find?_map]
  rfl

variable {key : α → κ} {written : List α} {k : κ} {value : α}

theorem mem_of_lastWrite (last : lastWrite key written k = some value) :
    value ∈ written ∧ key value = k := by
  have found := List.mem_of_find?_eq_some last
  have isKey := List.find?_some last
  exact ⟨List.mem_reverse.mp found, by simpa using isKey⟩

theorem exists_lastWrite (member : value ∈ written) :
    ∃ last, lastWrite key written (key value) = some last := by
  rw [← Option.isSome_iff_exists, lastWrite, List.find?_isSome]
  exact ⟨value, List.mem_reverse.mpr member, by simp⟩

theorem lastWrite_eq_none_iff :
    lastWrite key written k = none ↔ ∀ value ∈ written, key value ≠ k := by
  rw [lastWrite, List.find?_eq_none]
  simp only [List.mem_reverse, beq_iff_eq, ne_eq]

/-- Where no key is written twice, the writes are the last ones. -/
theorem lastWrite_eq_some_iff (distinct : (written.map key).Nodup) :
    lastWrite key written k = some value ↔ value ∈ written ∧ key value = k := by
  constructor
  · exact mem_of_lastWrite
  · rintro ⟨member, rfl⟩
    refine find?_of_mem ?_ (List.mem_reverse.mpr member)
    rw [List.map_reverse]
    exact List.nodup_reverse.mpr distinct

/-- If the key of a write is the only one of its group, the last write of the group is
the last write of the key. -/
theorem lastWrite_group {group : κ → ι}
    (alone : ∀ other ∈ written, group (key other) = group (key value) → key other = key value) :
    lastWrite (group ∘ key) written (group (key value)) = lastWrite key written (key value) := by
  apply List.find?_congr
  intro other member
  rw [Bool.eq_iff_iff, beq_iff_eq, beq_iff_eq]
  exact ⟨alone other (List.mem_reverse.mp member), congrArg group⟩

/-- The last writes of the groups are the last writes of the keys just if no two keys of
one group were written. -/
theorem lastWrites_group_iff (key : α → κ) (group : κ → ι) (written : List α) :
    (∀ value, (∃ g, lastWrite (group ∘ key) written g = some value) ↔
        ∃ k, lastWrite key written k = some value) ↔
      ∀ a ∈ written, ∀ b ∈ written, group (key a) = group (key b) → key a = key b := by
  constructor
  · intro same a aMem b bMem sameGroup
    obtain ⟨lastA, isLastA⟩ := @exists_lastWrite _ _ _ key _ _ aMem
    obtain ⟨lastB, isLastB⟩ := @exists_lastWrite _ _ _ key _ _ bMem
    obtain ⟨groupA, keptA⟩ := (same lastA).mpr ⟨_, isLastA⟩
    obtain ⟨groupB, keptB⟩ := (same lastB).mpr ⟨_, isLastB⟩
    have keyA := (mem_of_lastWrite isLastA).2
    have keyB := (mem_of_lastWrite isLastB).2
    have isGroupA : group (key lastA) = groupA := (mem_of_lastWrite keptA).2
    have isGroupB : group (key lastB) = groupB := (mem_of_lastWrite keptB).2
    have oneGroup : groupA = groupB := by
      rw [← isGroupA, ← isGroupB, keyA, keyB, sameGroup]
    rw [oneGroup, keptB] at keptA
    rw [← keyA, ← keyB, Option.some_inj.mp keptA]
  · intro alone value
    have keeps : ∀ {value}, value ∈ written →
        lastWrite (group ∘ key) written (group (key value)) =
          lastWrite key written (key value) :=
      fun member => lastWrite_group fun other otherMem => alone other otherMem _ member
    constructor
    · rintro ⟨g, last⟩
      obtain ⟨member, isGroup⟩ := mem_of_lastWrite last
      rw [← isGroup] at last
      exact ⟨key value, (keeps member).symm.trans last⟩
    · rintro ⟨k, last⟩
      obtain ⟨member, rfl⟩ := mem_of_lastWrite last
      exact ⟨group (key value), (keeps member).trans last⟩

end Horse.Container
