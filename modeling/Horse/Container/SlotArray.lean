import Mathlib.Data.List.Basic

/-!
# A stack in an array

A stack in an array of fixed size is the array and the index of its top, which is -1 for
the empty stack.  An access outside the array is undefined.  If every slot above the top
is blank, the stack stands for the list of its items, the topmost first.
-/

namespace Horse.Container

universe u

/-- An array of slots and an index into it. -/
structure SlotArray (α : Type u) (capacity : Nat) where
  level : List α
  top : Int
  size : level.length = capacity
  deriving DecidableEq, Repr

namespace SlotArray

variable {α : Type u} {capacity : Nat}

/-- Read a slot. -/
def get? (a : SlotArray α capacity) (index : Int) : Option α :=
  if 0 ≤ index then a.level[index.toNat]? else none

/-- Assign a slot. -/
def set? (a : SlotArray α capacity) (index : Int) (item : α) : Option (SlotArray α capacity) :=
  if 0 ≤ index ∧ index < capacity then
    some { a with level := a.level.set index.toNat item, size := by rw [List.length_set, a.size] }
  else none

/-- The array for a list of items. -/
def ofList (blank : α) (items : List α) (bounded : items.length ≤ capacity) :
    SlotArray α capacity where
  level := items.reverse ++ List.replicate (capacity - items.length) blank
  top := (items.length : Int) - 1
  size := by
    rw [List.length_append, List.length_reverse, List.length_replicate]
    omega

variable {blank item : α} {items : List α} {bounded : items.length ≤ capacity}

@[simp]
theorem ofList_top :
    (ofList blank items bounded).top = (items.length : Int) - 1 :=
  rfl

theorem ofList_top_bounds :
    -1 ≤ (ofList blank items bounded).top ∧ (ofList blank items bounded).top ≤ capacity - 1 := by
  rw [ofList_top]
  omega

/-- The slot at the top holds the first item. -/
theorem get?_top : (ofList blank items bounded).get? ((items.length : Int) - 1) = items.head? := by
  cases items with
  | nil => rfl
  | cons first rest =>
    have index : (((first :: rest).length : Int) - 1).toNat = rest.reverse.length := by
      rw [List.length_cons, List.length_reverse]
      omega
    rw [get?, if_pos (by rw [List.length_cons]; omega), index]
    simp only [ofList, List.reverse_cons, List.append_assoc]
    rw [List.getElem?_append_right (Nat.le_refl _), Nat.sub_self]
    rfl

/-- The slot above the top is blank. -/
theorem get?_next (room : items.length < capacity) :
    (ofList blank items bounded).get? items.length = some blank := by
  have some_left : 0 < capacity - items.length := by omega
  rw [get?, if_pos (Int.natCast_nonneg _), Int.toNat_natCast]
  simp only [ofList]
  rw [List.getElem?_append_right (Nat.le_of_eq List.length_reverse), List.length_reverse,
    Nat.sub_self, List.getElem?_replicate, if_pos some_left]

theorem set_append_replicate {front : List α} {count : Nat} :
    (front ++ List.replicate (count + 1) blank).set front.length item =
      front ++ item :: List.replicate count blank := by
  rw [List.set_append_right _ _ (Nat.le_refl _), Nat.sub_self, List.replicate_succ,
    List.set_cons_zero]

/-- Assigning the slot above the top puts an item on the list. -/
theorem set?_next (room : items.length < capacity) :
    ({ ofList blank items bounded with top := items.length } : SlotArray α capacity).set?
      items.length item = some (ofList blank (item :: items) room) := by
  have inside : (0 : Int) ≤ items.length ∧ (items.length : Int) < capacity := by omega
  obtain ⟨count, isCount⟩ : ∃ count, capacity - items.length = count + 1 :=
    ⟨capacity - items.length - 1, by omega⟩
  have fewer : capacity - (item :: items).length = count := by
    rw [List.length_cons]
    omega
  have level : (items.reverse ++ List.replicate (capacity - items.length) blank).set
      items.length item =
      (item :: items).reverse ++ List.replicate (capacity - (item :: items).length) blank := by
    have assigned := @set_append_replicate _ blank item items.reverse count
    rw [List.length_reverse] at assigned
    rw [isCount, fewer, assigned, List.reverse_cons, List.append_assoc, List.singleton_append]
  have top : (items.length : Int) = ((item :: items).length : Int) - 1 := by
    rw [List.length_cons]
    omega
  rw [set?, if_pos inside]
  simp only [ofList, Int.toNat_natCast, Option.some.injEq, SlotArray.mk.injEq]
  exact ⟨level, top⟩

/-- A full array has no slot above the top. -/
theorem set?_full (a : SlotArray α capacity) (full : capacity ≤ items.length) :
    a.set? items.length item = none := by
  rw [set?, if_neg]
  omega

/-- Clearing the slot at the top removes the first item. -/
theorem clear_top {first : α} {rest : List α} (bounded : (first :: rest).length ≤ capacity)
    (fewer : rest.length ≤ capacity) :
    (ofList blank (first :: rest) bounded).set? rest.length blank =
      some { ofList blank rest fewer with top := rest.length } := by
  have inside : (0 : Int) ≤ rest.length ∧ (rest.length : Int) < capacity := by
    rw [List.length_cons] at bounded
    omega
  obtain ⟨count, isCount⟩ : ∃ count, capacity - rest.length = count + 1 :=
    ⟨capacity - rest.length - 1, by omega⟩
  have blanks : capacity - (first :: rest).length = count := by
    rw [List.length_cons]
    omega
  have level : ((first :: rest).reverse ++
      List.replicate (capacity - (first :: rest).length) blank).set rest.length blank =
      rest.reverse ++ List.replicate (capacity - rest.length) blank := by
    have front : rest.length = rest.reverse.length := List.length_reverse.symm
    rw [isCount, blanks, List.reverse_cons, List.append_assoc, List.singleton_append, front,
      List.set_append_right _ _ (Nat.le_refl _), Nat.sub_self, List.set_cons_zero,
      List.replicate_succ]
  have top : ((first :: rest).length : Int) - 1 = rest.length := by
    rw [List.length_cons]
    omega
  rw [set?, if_pos inside]
  simp only [ofList, Int.toNat_natCast, Option.some.injEq, SlotArray.mk.injEq]
  exact ⟨level, top⟩

end SlotArray

end Horse.Container
