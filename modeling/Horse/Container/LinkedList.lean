import Mathlib.Data.List.Pairwise
import Mathlib.Data.List.Perm.Basic
import Mathlib.Order.Basic
import Mathlib.Order.Lattice

/-!
# Ordered insertion and removal in a linked list

The two list operations of `utlist` that an ordered queue needs.  Insertion
walks past every element that compares strictly smaller than the new one and
links it in there, so an element that compares equal ends up behind it.
Removal searches for the element by identity; on an empty list the search
dereferences the null head, which is the undefined result.
-/

namespace Horse.Container

universe u v

variable {α : Type u}

/-- `LL_INSERT_INORDER`: link `add` in after the last element that compares
strictly smaller. -/
def insertInorder (cmp : α → α → Int) (add : α) : List α → List α
  | [] => [add]
  | head :: rest =>
    if 0 ≤ cmp head add then add :: head :: rest
    else head :: insertInorder cmp add rest

/-- `LL_DELETE`: unlink `del`; a list without it is left alone. -/
def llDelete [DecidableEq α] (del : α) : List α → Option (List α)
  | [] => none
  | head :: rest => some ((head :: rest).erase del)

theorem insertInorder_perm (cmp : α → α → Int) (add : α) (list : List α) :
    (insertInorder cmp add list).Perm (add :: list) := by
  induction list with
  | nil => exact List.Perm.refl _
  | cons head rest ih =>
    simp only [insertInorder]
    split
    · exact List.Perm.refl _
    · exact (ih.cons head).trans (List.Perm.swap add head rest)

variable {list : List α} {first second : α}

@[simp]
theorem mem_insertInorder {cmp : α → α → Int} {add item : α} :
    item ∈ insertInorder cmp add list ↔ item = add ∨ item ∈ list := by
  rw [(insertInorder_perm cmp add list).mem_iff, List.mem_cons]

/-- Insertion keeps the order of the elements already there. -/
theorem sublist_insertInorder (cmp : α → α → Int) (add : α) (list : List α) :
    list.Sublist (insertInorder cmp add list) := by
  induction list with
  | nil => exact List.nil_sublist _
  | cons head rest ih =>
    simp only [insertInorder]
    split
    · exact List.sublist_cons_self _ _
    · exact ih.cons_cons head

section Keyed

variable {κ : Type v} [LinearOrder κ] {cmp : α → α → Int} {key : α → κ}

/-- A list ordered by a key stays ordered when the comparison is that of the
keys. -/
theorem insertInorder_sorted (agrees : ∀ a b, 0 ≤ cmp a b ↔ key b ≤ key a) (add : α)
    (sorted : list.Pairwise fun a b => key a ≤ key b) :
    (insertInorder cmp add list).Pairwise fun a b => key a ≤ key b := by
  induction list with
  | nil => exact List.pairwise_singleton _ _
  | cons head rest ih =>
    obtain ⟨headLe, restSorted⟩ := List.pairwise_cons.mp sorted
    simp only [insertInorder]
    split
    · rename_i found
      have addLe : key add ≤ key head := (agrees head add).mp found
      refine List.pairwise_cons.mpr ⟨fun item member => ?_, sorted⟩
      rcases List.mem_cons.mp member with rfl | member
      · exact addLe
      · exact addLe.trans (headLe item member)
    · rename_i smaller
      have headLt : key head < key add :=
        lt_of_not_ge fun addLe => smaller ((agrees head add).mpr addLe)
      refine List.pairwise_cons.mpr ⟨fun item member => ?_, ih restSorted⟩
      rcases mem_insertInorder.mp member with rfl | member
      · exact headLt.le
      · exact headLe item member

/-- An element with the key of the inserted one stands behind it. -/
theorem insertInorder_before (agrees : ∀ a b, 0 ≤ cmp a b ↔ key b ≤ key a) {add item : α}
    (member : item ∈ list) (same : key item = key add) :
    [add, item].Sublist (insertInorder cmp add list) := by
  induction list with
  | nil => exact absurd member List.not_mem_nil
  | cons head rest ih =>
    simp only [insertInorder]
    split
    · exact (List.singleton_sublist.mpr member).cons_cons add
    · rename_i smaller
      have headNe : item ≠ head := by
        rintro rfl
        exact smaller ((agrees item add).mpr same.ge)
      have later : item ∈ rest := (List.mem_cons.mp member).resolve_left headNe
      exact (ih later).cons head

end Keyed

/-! ## Pairs in order -/

/-- In a list without repetitions two elements stand in one order only. -/
theorem not_sublist_swap (nodup : list.Nodup) (order : [first, second].Sublist list) :
    ¬[second, first].Sublist list := by
  induction list with
  | nil => exact absurd (List.sublist_nil.mp order) (by simp)
  | cons head rest ih =>
    obtain ⟨headFresh, restNodup⟩ := List.nodup_cons.mp nodup
    intro swapped
    cases order with
    | cons _ order =>
      cases swapped with
      | cons _ swapped => exact ih restNodup order swapped
      | cons_cons _ swapped =>
        exact headFresh (order.subset (by simp))
    | cons_cons _ order =>
      have secondMem : second ∈ rest := List.singleton_sublist.mp order
      cases swapped with
      | cons _ swapped => exact headFresh (swapped.subset (by simp))
      | cons_cons _ swapped => exact headFresh secondMem

/-- A pair in order in `list ++ [last]` is in order in `list`, or ends in
`last`. -/
theorem pair_sublist_concat {last : α} (order : [first, second].Sublist (list ++ [last])) :
    [first, second].Sublist list ∨ first ∈ list ∧ second = last := by
  induction list with
  | nil =>
    have short := order.length_le
    simp at short
  | cons head rest ih =>
    cases order with
    | cons _ order =>
      rcases ih order with inside | ⟨firstMem, secondEq⟩
      · exact Or.inl (inside.cons head)
      · exact Or.inr ⟨List.mem_cons_of_mem head firstMem, secondEq⟩
    | cons_cons _ order =>
      have secondMem : second ∈ rest ++ [last] := List.singleton_sublist.mp order
      rcases List.mem_append.mp secondMem with inside | atEnd
      · exact Or.inl ((List.singleton_sublist.mpr inside).cons_cons first)
      · exact Or.inr ⟨List.mem_cons_self, List.mem_singleton.mp atEnd⟩

/-- Removing an element keeps the order of every pair it is not part of. -/
theorem pair_sublist_erase [DecidableEq α] (nodup : list.Nodup) {del : α}
    (order : [first, second].Sublist list) (firstNe : first ≠ del) (secondNe : second ≠ del) :
    [first, second].Sublist (list.erase del) := by
  rw [nodup.erase_eq_filter]
  have kept := order.filter (fun item => item != del)
  simpa [firstNe, secondNe] using kept

end Horse.Container
