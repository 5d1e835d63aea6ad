import Mathlib.Data.List.Nodup
import Mathlib.Data.List.Range
import Mathlib.Logic.Equiv.Basic
import Mathlib.Order.Basic
import Mathlib.Order.Lattice

/-!
# Heaps in arrays

The positions `1`, `2`, … are a binary tree: the parent of a position is its half.  The keys
are in heap order if no position has a smaller key than its parent.  While a key is moved to
its place the order is broken at one position only, towards its parent while the key rises
and towards its children while it sinks.
-/

namespace Horse.Container

universe u v

/-! ## Heap order -/

section Order

variable {α : Type u} [LinearOrder α] {key : Nat → α} {size hole : Nat}

/-- No position has a smaller key than its parent. -/
def HeapOrder (key : Nat → α) (size : Nat) : Prop :=
  ∀ child, 1 < child → child ≤ size → key (child / 2) ≤ key child

/-- Heap order but for one position and its parent. -/
structure Rising (key : Nat → α) (size hole : Nat) : Prop where
  others : ∀ child, 1 < child → child ≤ size → child ≠ hole → key (child / 2) ≤ key child
  above : 1 < hole → ∀ child, child ≤ size → child / 2 = hole → key (hole / 2) ≤ key child

/-- Heap order but for one position and its children. -/
structure Sinking (key : Nat → α) (size hole : Nat) : Prop where
  others : ∀ child, 1 < child → child ≤ size → child / 2 ≠ hole → key (child / 2) ≤ key child
  above : 1 < hole → ∀ child, child ≤ size → child / 2 = hole → key (hole / 2) ≤ key child

/-- The root of a heap has the least key. -/
theorem HeapOrder.root_least (ordered : HeapOrder key size) {position : Nat}
    (positive : 1 ≤ position) (inside : position ≤ size) : key 1 ≤ key position := by
  induction position using Nat.strongRecOn with
  | ind position ih =>
    by_cases isRoot : position = 1
    · rw [isRoot]
    · have fromRoot : key 1 ≤ key (position / 2) :=
        ih (position / 2) (by omega) (by omega) (by omega)
      exact fromRoot.trans (ordered position (by omega) inside)

/-- A new last position may have any key. -/
theorem HeapOrder.rising_last {old : Nat → α} (ordered : HeapOrder old size)
    (same : ∀ position, 1 ≤ position → position ≤ size → key position = old position) :
    Rising key (size + 1) (size + 1) where
  others child inner inside notLast := by
    rw [same child (by omega) (by omega), same (child / 2) (by omega) (by omega)]
    exact ordered child inner (by omega)
  above _ child inside isChild := by omega

/-- The root may be given any key. -/
theorem HeapOrder.sinking_root {old : Nat → α} {oldSize : Nat}
    (ordered : HeapOrder old oldSize) (shrunk : size ≤ oldSize)
    (same : ∀ position, 1 < position → position ≤ size → key position = old position) :
    Sinking key size 1 where
  others child inner inside notBelow := by
    rw [same child inner inside, same (child / 2) (by omega) (by omega)]
    exact ordered child inner (by omega)
  above inner := absurd inner (Nat.lt_irrefl 1)

theorem Rising.ordered (rising : Rising key size hole)
    (arrived : 1 < hole → key (hole / 2) ≤ key hole) : HeapOrder key size := by
  intro child inner inside
  by_cases isHole : child = hole
  · subst isHole
    exact arrived inner
  · exact rising.others child inner inside isHole

theorem Sinking.ordered (sinking : Sinking key size hole)
    (arrived : ∀ child, 1 < child → child ≤ size → child / 2 = hole → key hole ≤ key child) :
    HeapOrder key size := by
  intro child inner inside
  by_cases below : child / 2 = hole
  · rw [below]
    exact arrived child inner inside below
  · exact sinking.others child inner inside below

/-- A smaller key is exchanged with the one of its parent. -/
theorem Rising.exchange (rising : Rising key size hole) (inner : 1 < hole)
    (inside : hole ≤ size) (less : key hole < key (hole / 2)) :
    Rising (key ∘ Equiv.swap hole (hole / 2)) size (hole / 2) := by
  have atHole : (key ∘ Equiv.swap hole (hole / 2)) hole = key (hole / 2) := by simp
  have atParent : (key ∘ Equiv.swap hole (hole / 2)) (hole / 2) = key hole := by simp
  have elsewhere : ∀ position, position ≠ hole → position ≠ hole / 2 →
      (key ∘ Equiv.swap hole (hole / 2)) position = key position := by
    intro position notHole notParent
    rw [Function.comp_apply, Equiv.swap_apply_of_ne_of_ne notHole notParent]
  constructor
  · intro child childInner childInside notParent
    by_cases isHole : child = hole
    · rw [isHole, atHole, atParent]
      exact less.le
    rw [elsewhere child isHole notParent]
    by_cases below : child / 2 = hole
    · rw [below, atHole]
      exact rising.above inner child childInside below
    have inOrder := rising.others child childInner childInside isHole
    by_cases sibling : child / 2 = hole / 2
    · rw [sibling, atParent]
      rw [sibling] at inOrder
      exact less.le.trans inOrder
    · rwa [elsewhere _ below sibling]
  · intro parentInner child childInside below
    have parentInOrder := rising.others (hole / 2) parentInner (by omega) (by omega)
    rw [elsewhere (hole / 2 / 2) (by omega) (by omega)]
    by_cases isHole : child = hole
    · rw [isHole, atHole]
      exact parentInOrder
    · have inOrder := rising.others child (by omega) childInside isHole
      rw [below] at inOrder
      rw [elsewhere child isHole (by omega)]
      exact parentInOrder.trans inOrder

/-- A larger key is exchanged with the least one of its children. -/
theorem Sinking.exchange (sinking : Sinking key size hole) {least : Nat} (positive : 1 ≤ hole)
    (isChild : least / 2 = hole) (inside : least ≤ size) (less : key least < key hole)
    (isLeast : ∀ child, 1 < child → child ≤ size → child / 2 = hole → key least ≤ key child) :
    Sinking (key ∘ Equiv.swap hole least) size least := by
  have atHole : (key ∘ Equiv.swap hole least) hole = key least := by simp
  have atLeast : (key ∘ Equiv.swap hole least) least = key hole := by simp
  have elsewhere : ∀ position, position ≠ hole → position ≠ least →
      (key ∘ Equiv.swap hole least) position = key position := by
    intro position notHole notLeast
    rw [Function.comp_apply, Equiv.swap_apply_of_ne_of_ne notHole notLeast]
  constructor
  · intro child inner childInside notBelow
    by_cases isHole : child = hole
    · subst isHole
      rw [atHole, elsewhere (child / 2) (by omega) (by omega)]
      exact sinking.above inner least inside isChild
    by_cases ofHole : child / 2 = hole
    · rw [ofHole, atHole]
      by_cases same : child = least
      · rw [same, atLeast]
        exact less.le
      · rw [elsewhere child isHole same]
        exact isLeast child inner childInside ofHole
    · rw [elsewhere (child / 2) ofHole notBelow, elsewhere child isHole (by omega)]
      exact sinking.others child inner childInside ofHole
  · intro inner child childInside below
    rw [isChild, atHole, elsewhere child (by omega) (by omega), ← below]
    exact sinking.others child (by omega) childInside (by omega)

end Order

/-! ## Contents -/

section Contents

variable {β : Type v} {content : Nat → β} {size : Nat}

/-- What the positions from 1 to the last one hold. -/
def contents (content : Nat → β) (size : Nat) : List β :=
  (List.range' 1 size).map content

theorem mem_contents {item : β} :
    item ∈ contents content size ↔
      ∃ position, 1 ≤ position ∧ position ≤ size ∧ content position = item := by
  rw [contents, List.mem_map]
  constructor
  · rintro ⟨position, isPosition, rfl⟩
    rw [List.mem_range'_1] at isPosition
    exact ⟨position, isPosition.1, by omega, rfl⟩
  · rintro ⟨position, positive, inside, rfl⟩
    exact ⟨position, List.mem_range'_1.mpr ⟨positive, by omega⟩, rfl⟩

theorem nodup_contents_iff :
    (contents content size).Nodup ↔
      ∀ i, 1 ≤ i → i ≤ size → ∀ j, 1 ≤ j → j ≤ size → content i = content j → i = j := by
  rw [contents, List.nodup_map_iff_inj_on List.nodup_range']
  constructor
  · intro injective i iPositive iInside j jPositive jInside
    exact injective i (List.mem_range'_1.mpr ⟨iPositive, by omega⟩) j
      (List.mem_range'_1.mpr ⟨jPositive, by omega⟩)
  · intro injective i isFirst j isSecond
    rw [List.mem_range'_1] at isFirst isSecond
    exact injective i isFirst.1 (by omega) j isSecond.1 (by omega)

theorem contents_succ :
    contents content (size + 1) = contents content size ++ [content (size + 1)] := by
  rw [contents, List.range'_1_concat, List.map_append, List.map_singleton, Nat.add_comm 1 size]
  rfl

theorem contents_congr {other : Nat → β}
    (same : ∀ position, 1 ≤ position → position ≤ size → content position = other position) :
    contents content size = contents other size := by
  apply List.map_congr_left
  intro position isPosition
  rw [List.mem_range'_1] at isPosition
  exact same position isPosition.1 (by omega)

/-- An exchange of two positions changes the order of the contents only. -/
theorem contents_swap {i j : Nat} (firstPositive : 1 ≤ i) (firstInside : i ≤ size)
    (secondPositive : 1 ≤ j) (secondInside : j ≤ size) :
    (contents (content ∘ Equiv.swap i j) size).Perm (contents content size) := by
  have moved : ((List.range' 1 size).map (Equiv.swap i j)).Perm (List.range' 1 size) := by
    apply (List.perm_ext_iff_of_nodup _ List.nodup_range').mpr
    · intro position
      rw [List.mem_map]
      constructor
      · rintro ⟨before, isPosition, rfl⟩
        rw [List.mem_range'_1] at isPosition ⊢
        rw [Equiv.swap_apply_def]
        split
        · omega
        · split <;> omega
      · intro isPosition
        refine ⟨Equiv.swap i j position, ?_, Equiv.swap_apply_self i j position⟩
        rw [List.mem_range'_1] at isPosition ⊢
        rw [Equiv.swap_apply_def]
        split
        · omega
        · split <;> omega
    · exact List.Nodup.map (Equiv.swap i j).injective List.nodup_range'
  have mapped := moved.map content
  rwa [List.map_map] at mapped

/-- Taking the root away and the last position to its place removes what the root held. -/
theorem contents_root_removed {moved : Nat → β} (atRoot : 1 ≤ size → moved 1 = content (size + 1))
    (elsewhere : ∀ position, 1 < position → position ≤ size → moved position = content position) :
    (contents content (size + 1)).Perm (content 1 :: contents moved size) := by
  cases size with
  | zero => exact List.Perm.refl _
  | succ rest =>
    have tail : (List.range' 2 rest).map moved = (List.range' 2 rest).map content := by
      apply List.map_congr_left
      intro position isPosition
      rw [List.mem_range'_1] at isPosition
      exact elsewhere position (by omega) (by omega)
    have split : contents content (rest + 1) = content 1 :: (List.range' 2 rest).map content := rfl
    rw [contents_succ, split, List.cons_append]
    apply List.Perm.cons
    change List.Perm _ (moved 1 :: (List.range' 2 rest).map moved)
    rw [atRoot (by omega), tail]
    exact List.perm_append_singleton _ _

end Contents

end Horse.Container
