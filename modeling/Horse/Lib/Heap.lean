import Horse.Container.ImplicitHeap
import Horse.Transition.Run
import Mathlib.Data.BitVec
import Mathlib.Logic.Function.Basic

/-!
# The binary heap

An array of pointers to nodes, with the root at position 1.  The nodes belong to the caller:
a node has its priority and the position it was last added at.  An access outside the array,
or to a slot that was never written, is undefined.

An insertion lets the new node rise from the last position.  A deletion writes the last node
to the root and lets it sink; this write alone does not go through `add_node`, which would
store the position.
-/

namespace Horse.Lib

open Horse.Container Horse.Transition

/-! ## The model -/

/-- `struct heap_node`. -/
structure HeapNode where
  priority : BitVec 64
  idx : Nat
  deriving DecidableEq, Repr

/-- `struct heap`, and the nodes in memory by their addresses.  The array has no slots while
the pointer to it is `NULL`. -/
structure Heap where
  array : List (Option Nat)
  size : Nat
  allocated : Nat
  node : Nat → HeapNode

/-- `heap_init`. -/
def heapInit (node : Nat → HeapNode) : Heap where
  array := []
  size := 0
  allocated := 0
  node := node

/-- Read `array[idx]`. -/
def Heap.slot (h : Heap) (idx : Nat) : Option Nat :=
  h.array[idx]?.join

/-- Assign `array[idx]`. -/
def Heap.write (h : Heap) (idx addr : Nat) : Option Heap :=
  if idx < h.array.length then some { h with array := h.array.set idx (some addr) } else none

/-- The priority of a node. -/
def Heap.priority (h : Heap) (addr : Nat) : BitVec 64 :=
  (h.node addr).priority

/-- `heap_parent`. -/
def heapParent (idx : Nat) : Nat := idx / 2

/-- `heap_right_child`. -/
def heapRightChild (idx : Nat) : Nat := 2 * idx

/-- `heap_left_child`. -/
def heapLeftChild (idx : Nat) : Nat := 2 * idx + 1

/-- `add_node`. -/
def addNode (h : Heap) (addr idx : Nat) : Option Heap :=
  { h with node := Function.update h.node addr { h.node addr with idx := idx } }.write idx addr

/-- `heap_swap`. -/
def heapSwap (h : Heap) (i j : Nat) : Option Heap := do
  let tmp ← h.slot i
  let other ← h.slot j
  let h ← addNode h other i
  addNode h tmp j

/-- The array is reallocated with twice as many slots if all are in use, and one more that
stays unused. -/
def Heap.grow (h : Heap) : Heap :=
  if h.allocated ≤ h.size then
    let allocated := if h.size = 0 then 1 else 2 * h.size
    { h with
      allocated := allocated
      array := h.array.take (allocated + 1) ++
        List.replicate (allocated + 1 - h.array.length) none }
  else h

/-- The loop of `heap_insert`, for at most the given number of turns. -/
def bubbleUp (addr : Nat) : Nat → Heap → Nat → Option Heap
  | 0, _, _ => none
  | turns + 1, h, idx =>
    if 1 < idx then do
      let parent := heapParent idx
      let above ← h.slot parent
      if h.priority above ≤ h.priority addr then
        some h
      else do
        let h ← heapSwap h idx parent
        bubbleUp addr turns h parent
    else some h

/-- `heap_insert`. -/
def heapInsert (h : Heap) (addr : Nat) (priority : BitVec 64) : Option Heap := do
  let idx := h.size + 1
  let h ← addNode { h.grow with size := idx } addr idx
  let h := { h with node := Function.update h.node addr { h.node addr with priority := priority } }
  bubbleUp addr idx h idx

/-- A child that is in the heap is compared with the least node so far. -/
def Heap.smaller (h : Heap) (size child min : Nat) : Option Nat :=
  if child ≤ size then do
    let candidate ← h.slot child
    let least ← h.slot min
    some (if h.priority candidate < h.priority least then child else min)
  else some min

/-- The least of a node and its children. -/
def Heap.leastChild (h : Heap) (size idx : Nat) : Option Nat := do
  let min ← h.smaller size (heapLeftChild idx) idx
  h.smaller size (heapRightChild idx) min

/-- The loop of `min_heapify`, for at most the given number of turns. -/
def minHeapify (size : Nat) : Nat → Heap → Nat → Nat → Option Heap
  | 0, _, _, _ => none
  | turns + 1, h, idx, min =>
    if min < h.size then do
      let min ← h.leastChild size idx
      if min = idx then
        some h
      else do
        let h ← heapSwap h idx min
        minHeapify size turns h min min
    else some h

/-- `heap_delete`. -/
def heapDelete (h : Heap) : Option (Nat × Heap) := do
  let temp ← h.slot h.size
  let h := { h with size := h.size - 1 }
  let removed ← h.slot 1
  let h ← h.write 1 temp
  let h ← minHeapify h.size (h.size + 1) h 1 0
  some (removed, h)

/-- `heap_retrieve`. -/
def heapRetrieve (h : Heap) : Option Nat :=
  h.slot 1

/-- A call of `heap_insert` or `heap_delete`. -/
inductive HeapCall
  | insert (addr : Nat) (priority : BitVec 64)
  | delete
  deriving DecidableEq, Repr

/-- A heap and the nodes that were inserted and returned so far. -/
structure HeapRun where
  heap : Heap
  inserted : List Nat
  returned : List Nat

/-- Nothing was inserted yet. -/
def HeapRun.start (node : Nat → HeapNode) : HeapRun :=
  ⟨heapInit node, [], []⟩

/-- One call. -/
def heapCall : Step HeapRun HeapCall
  | run, .insert addr priority =>
    (heapInsert run.heap addr priority).map fun h =>
      { run with heap := h, inserted := addr :: run.inserted }
  | run, .delete =>
    (heapDelete run.heap).map fun out =>
      { run with heap := out.2, returned := out.1 :: run.returned }

/-- What is stored in the positions in use. -/
def Heap.stored (h : Heap) : List (Option Nat) :=
  contents h.slot h.size

/-- The priority of the node at a position. -/
def Heap.key (h : Heap) (idx : Nat) : Nat :=
  ((h.slot idx).map fun addr => (h.priority addr).toNat).getD 0

/-- Every node knows its position. -/
def Heap.Positioned (h : Heap) : Prop :=
  ∀ i, 1 ≤ i → i ≤ h.size → ∃ addr, h.slot i = some addr ∧ (h.node addr).idx = i

/-! ## Slots -/

section Slots

variable {h after : Heap} {addr idx i j a b : Nat}

theorem Heap.lt_length_of_slot (here : h.slot idx = some addr) : idx < h.array.length := by
  rw [Heap.slot] at here
  cases found : h.array[idx]? with
  | none =>
    rw [found] at here
    cases here
  | some _ => exact (List.getElem?_eq_some_iff.mp found).1

theorem Heap.slot_set (assigned : after.array = h.array.set idx (some addr))
    (inside : idx < h.array.length) :
    after.slot = Function.update h.slot idx (some addr) := by
  funext position
  rw [Heap.slot, assigned, List.getElem?_set]
  by_cases here : idx = position
  · subst here
    rw [if_pos rfl, if_pos inside, Function.update_self]
    rfl
  · rw [if_neg here, Function.update_of_ne (Ne.symm here)]
    rfl

/-- A node is added inside the array. -/
theorem addNode_eq (inside : idx < h.array.length) :
    addNode h addr idx =
      some { h with
        array := h.array.set idx (some addr)
        node := Function.update h.node addr { h.node addr with idx := idx } } :=
  if_pos inside

/-- What an exchange of two slots does. -/
structure Exchanged (h : Heap) (i j : Nat) (after : Heap) : Prop where
  size : after.size = h.size
  allocated : after.allocated = h.allocated
  length : after.array.length = h.array.length
  slot : after.slot = h.slot ∘ Equiv.swap i j
  priority : after.priority = h.priority
  idx : ∀ addr, (after.node addr).idx =
    if h.slot i = some addr then j else if h.slot j = some addr then i else (h.node addr).idx

theorem heapSwap_exchanged (atI : h.slot i = some a) (atJ : h.slot j = some b) :
    ∃ after, heapSwap h i j = some after ∧ Exchanged h i j after := by
  have insideI := Heap.lt_length_of_slot atI
  have insideJ : j < (h.array.set i (some b)).length := by
    rw [List.length_set]
    exact Heap.lt_length_of_slot atJ
  rw [heapSwap, atI, atJ]
  simp only [Option.bind_eq_bind, Option.bind_some, addNode_eq insideI]
  rw [addNode_eq insideJ]
  refine ⟨_, rfl, rfl, rfl, by simp only [List.length_set], ?_, ?_, ?_⟩
  · funext position
    rw [@Heap.slot_set { h with array := h.array.set i (some b) } _ a j rfl insideJ,
      @Heap.slot_set h _ b i rfl insideI, Function.comp_apply, Equiv.swap_apply_def]
    by_cases isJ : position = j
    · subst isJ
      rw [Function.update_self]
      split
      · rename_i same
        rw [← atI, same]
      · rw [if_pos rfl, atI]
    · rw [Function.update_of_ne isJ]
      by_cases isI : position = i
      · rw [isI, Function.update_self, if_pos rfl, atJ]
      · rw [Function.update_of_ne isI, if_neg isI, if_neg isJ]
  · funext addr
    simp only [Heap.priority, Function.update_apply]
    split
    · rename_i isA
      rw [isA]
      split
      · rename_i isB
        rw [isB]
      · rfl
    · split
      · rename_i isB
        rw [isB]
      · rfl
  · intro addr
    simp only [atI, atJ, Option.some.injEq, Function.update_apply]
    by_cases isA : addr = a
    · rw [if_pos isA, if_pos isA.symm]
    · rw [if_neg isA, if_neg (Ne.symm isA)]
      by_cases isB : addr = b
      · rw [if_pos isB, if_pos isB.symm]
      · rw [if_neg isB, if_neg (Ne.symm isB)]

end Slots

/-! ## Rearranging -/

section Rearranging

variable {h after : Heap} {i j : Nat}

/-- Every position in use holds a node. -/
def Heap.Filled (h : Heap) : Prop :=
  none ∉ h.stored

theorem Heap.Filled.slot_eq (filled : h.Filled) (positive : 1 ≤ i) (inside : i ≤ h.size) :
    ∃ addr, h.slot i = some addr := by
  cases here : h.slot i with
  | none => exact absurd (mem_contents.mpr ⟨i, positive, inside, here⟩) filled
  | some addr => exact ⟨addr, rfl⟩

theorem Heap.Positioned.nodup (positioned : h.Positioned) : h.stored.Nodup := by
  apply nodup_contents_iff.mpr
  intro i iPositive iInside j jPositive jInside same
  rcases positioned i iPositive iInside with ⟨first, atI, knowsI⟩
  rcases positioned j jPositive jInside with ⟨second, atJ, knowsJ⟩
  rw [atI, atJ] at same
  cases same
  exact knowsI.symm.trans knowsJ

/-- The nodes of a heap are moved inside it. -/
structure Rearranged (h after : Heap) : Prop where
  size : after.size = h.size
  allocated : after.allocated = h.allocated
  length : after.array.length = h.array.length
  priority : after.priority = h.priority
  stored : after.stored.Perm h.stored
  positioned : h.Positioned → after.Positioned

theorem Rearranged.refl (h : Heap) : Rearranged h h :=
  ⟨rfl, rfl, rfl, rfl, .refl _, id⟩

theorem Rearranged.trans {middle : Heap} (first : Rearranged h middle)
    (second : Rearranged middle after) : Rearranged h after where
  size := second.size.trans first.size
  allocated := second.allocated.trans first.allocated
  length := second.length.trans first.length
  priority := second.priority.trans first.priority
  stored := second.stored.trans first.stored
  positioned := second.positioned ∘ first.positioned

theorem Rearranged.filled (moved : Rearranged h after) (filled : h.Filled) : after.Filled :=
  fun missing => filled (moved.stored.mem_iff.mp missing)

section Exchange

variable (exchanged : Exchanged h i j after)

include exchanged

theorem Exchanged.key : after.key = h.key ∘ Equiv.swap i j := by
  funext position
  simp only [Heap.key, exchanged.slot, exchanged.priority, Function.comp_apply]

variable (iPositive : 1 ≤ i) (iInside : i ≤ h.size) (jPositive : 1 ≤ j) (jInside : j ≤ h.size)

include iPositive iInside jPositive jInside

/-- An exchange stores the positions of both nodes, whatever they were. -/
theorem Exchanged.positioned (filled : h.Filled) (distinct : h.stored.Nodup)
    (others : ∀ k, 1 ≤ k → k ≤ h.size → k ≠ i → k ≠ j →
      ∃ addr, h.slot k = some addr ∧ (h.node addr).idx = k) : after.Positioned := by
  have apart := nodup_contents_iff.mp distinct
  intro k positive inside
  rw [exchanged.size] at inside
  rw [exchanged.slot, Function.comp_apply]
  by_cases isI : k = i
  · subst isI
    rcases filled.slot_eq jPositive jInside with ⟨other, atJ⟩
    refine ⟨other, by rw [Equiv.swap_apply_left, atJ], ?_⟩
    rw [exchanged.idx]
    by_cases atI : h.slot k = some other
    · rw [if_pos atI]
      exact (apart k positive inside j jPositive jInside (atI.trans atJ.symm)).symm
    · rw [if_neg atI, if_pos atJ]
  by_cases isJ : k = j
  · subst isJ
    rcases filled.slot_eq iPositive iInside with ⟨other, atI⟩
    refine ⟨other, by rw [Equiv.swap_apply_right, atI], ?_⟩
    rw [exchanged.idx, if_pos atI]
  · rcases others k positive inside isI isJ with ⟨addr, atK, knowsK⟩
    refine ⟨addr, by rw [Equiv.swap_apply_of_ne_of_ne isI isJ, atK], ?_⟩
    have notAtI : h.slot i ≠ some addr := fun atI =>
      isI (apart k positive inside i iPositive iInside (atK.trans atI.symm))
    have notAtJ : h.slot j ≠ some addr := fun atJ =>
      isJ (apart k positive inside j jPositive jInside (atK.trans atJ.symm))
    rw [exchanged.idx, if_neg notAtI, if_neg notAtJ, knowsK]

theorem Exchanged.stored_perm : after.stored.Perm h.stored := by
  rw [Heap.stored, exchanged.size, exchanged.slot]
  exact contents_swap iPositive iInside jPositive jInside

theorem Exchanged.rearranged (filled : h.Filled) : Rearranged h after where
  size := exchanged.size
  allocated := exchanged.allocated
  length := exchanged.length
  priority := exchanged.priority
  stored := exchanged.stored_perm iPositive iInside jPositive jInside
  positioned positioned :=
    exchanged.positioned iPositive iInside jPositive jInside filled positioned.nodup
      fun k positive inside _ _ => positioned k positive inside

end Exchange

end Rearranging

/-! ## Rising and sinking -/

section Sifting

variable {h : Heap}

theorem Heap.key_eq {idx addr : Nat} (here : h.slot idx = some addr) :
    h.key idx = (h.priority addr).toNat := by
  rw [Heap.key, here]
  rfl

/-- The loop of an insertion ends with the heap in order. -/
theorem bubbleUp_spec {addr turns idx : Nat} (filled : h.Filled) (positive : 1 ≤ idx)
    (inside : idx ≤ h.size) (enough : idx ≤ turns) (here : h.slot idx = some addr) :
    ∃ after, bubbleUp addr turns h idx = some after ∧ Rearranged h after ∧
      (Rising h.key h.size idx → HeapOrder after.key after.size) := by
  induction turns generalizing h idx with
  | zero => omega
  | succ turns ih =>
    rw [bubbleUp]
    by_cases inner : 1 < idx
    · rcases filled.slot_eq (show 1 ≤ idx / 2 by omega) (by omega) with ⟨above, atParent⟩
      rw [if_pos inner]
      simp only [heapParent, atParent, Option.bind_eq_bind, Option.bind_some]
      by_cases inOrder : h.priority above ≤ h.priority addr
      · rw [if_pos inOrder]
        refine ⟨h, rfl, .refl h, fun rising => rising.ordered fun _ => ?_⟩
        rw [Heap.key_eq here, Heap.key_eq atParent]
        exact inOrder
      · rw [if_neg inOrder]
        rcases heapSwap_exchanged here atParent with ⟨swapped, step, exchanged⟩
        have moved := exchanged.rearranged positive inside (show 1 ≤ idx / 2 by omega)
          (by omega) filled
        have less : h.key idx < h.key (idx / 2) := by
          rw [Heap.key_eq here, Heap.key_eq atParent]
          exact BitVec.not_le.mp inOrder
        have risen : swapped.slot (idx / 2) = some addr := by
          rw [exchanged.slot, Function.comp_apply, Equiv.swap_apply_right, here]
        rcases ih (moved.filled filled) (by omega) (by rw [moved.size]; omega) (by omega) risen
          with ⟨after, rest, later, ordered⟩
        refine ⟨after, by rw [step]; exact rest, moved.trans later, fun rising => ordered ?_⟩
        rw [exchanged.key, exchanged.size]
        exact rising.exchange inner inside less
    · rw [if_neg inner]
      exact ⟨h, rfl, .refl h, fun rising => rising.ordered fun more => absurd more inner⟩

theorem Heap.smaller_spec {child min : Nat} (filled : h.Filled) (childPositive : 1 ≤ child)
    (positive : 1 ≤ min) (inside : min ≤ h.size) :
    ∃ next, h.smaller h.size child min = some next ∧
      (next = min ∨ next = child ∧ child ≤ h.size ∧ h.key child < h.key min) ∧
      h.key next ≤ h.key min ∧ (child ≤ h.size → h.key next ≤ h.key child) := by
  unfold Heap.smaller
  by_cases exists_ : child ≤ h.size
  · rcases filled.slot_eq childPositive exists_ with ⟨candidate, atChild⟩
    rcases filled.slot_eq positive inside with ⟨least, atMin⟩
    rw [if_pos exists_, atChild, atMin]
    have compared : h.priority candidate < h.priority least ↔ h.key child < h.key min := by
      rw [Heap.key_eq atChild, Heap.key_eq atMin]
      rfl
    simp only [Option.bind_eq_bind, Option.bind_some, compared]
    by_cases less : h.key child < h.key min
    · rw [if_pos less]
      exact ⟨child, rfl, .inr ⟨rfl, exists_, less⟩, less.le, fun _ => le_rfl⟩
    · rw [if_neg less]
      exact ⟨min, rfl, .inl rfl, le_rfl, fun _ => not_lt.mp less⟩
  · rw [if_neg exists_]
    exact ⟨min, rfl, .inl rfl, le_rfl, fun inHeap => absurd inHeap exists_⟩

/-- A node that is not below one of its children is the least, else it is a least child. -/
theorem Heap.leastChild_spec {idx : Nat} (filled : h.Filled) (positive : 1 ≤ idx)
    (inside : idx ≤ h.size) :
    ∃ least, h.leastChild h.size idx = some least ∧
      (least = idx ∨ least / 2 = idx ∧ idx < least ∧ least ≤ h.size ∧ h.key least < h.key idx) ∧
      ∀ child, 1 < child → child ≤ h.size → child / 2 = idx → h.key least ≤ h.key child := by
  rcases @Heap.smaller_spec h (2 * idx + 1) idx filled (by omega) positive inside with
    ⟨first, firstStep, firstIs, firstBelow, firstLeast⟩
  have firstInside : 1 ≤ first ∧ first ≤ h.size := by omega
  rcases @Heap.smaller_spec h (2 * idx) first filled (by omega) firstInside.1 firstInside.2 with
    ⟨least, step, isLeast, below, leastOf⟩
  refine ⟨least, ?_, ?_, ?_⟩
  · simp only [Heap.leastChild, heapLeftChild, heapRightChild, firstStep, Option.bind_eq_bind,
      Option.bind_some, step]
  · omega
  · intro child inner childInside isChild
    have either : child = 2 * idx + 1 ∨ child = 2 * idx := by omega
    rcases either with rfl | rfl
    · exact below.trans (firstLeast childInside)
    · exact leastOf childInside

/-- A turn of `min_heapify` ends the loop, or exchanges a node with its least child. -/
theorem minHeapify_turn {idx min : Nat} (turns : Nat) (filled : h.Filled) (positive : 1 ≤ idx)
    (inside : idx ≤ h.size) (proceeds : min < h.size) :
    (minHeapify h.size (turns + 1) h idx min = some h ∧
        ∀ child, 1 < child → child ≤ h.size → child / 2 = idx → h.key idx ≤ h.key child) ∨
      ∃ least swapped,
        minHeapify h.size (turns + 1) h idx min = minHeapify h.size turns swapped least least ∧
        Exchanged h idx least swapped ∧ least / 2 = idx ∧ idx < least ∧ least ≤ h.size ∧
        h.key least < h.key idx ∧
        ∀ child, 1 < child → child ≤ h.size → child / 2 = idx → h.key least ≤ h.key child := by
  rcases Heap.leastChild_spec filled positive inside with ⟨least, chosen, isLeast, leastOf⟩
  rw [minHeapify, if_pos proceeds, chosen]
  simp only [Option.bind_eq_bind, Option.bind_some]
  rcases isLeast with rfl | ⟨isChild, below, leastInside, less⟩
  · exact .inl ⟨if_pos rfl, leastOf⟩
  · rcases filled.slot_eq positive inside with ⟨_, here⟩
    rcases filled.slot_eq (show 1 ≤ least by omega) leastInside with ⟨_, atLeast⟩
    rcases heapSwap_exchanged here atLeast with ⟨swapped, step, exchanged⟩
    rw [if_neg (Nat.ne_of_gt below), step]
    exact .inr ⟨least, swapped, rfl, exchanged, isChild, below, leastInside, less, leastOf⟩

/-- The loop of a deletion ends with the heap in order. -/
theorem minHeapify_spec {turns idx min : Nat} (filled : h.Filled) (positive : 1 ≤ idx)
    (inside : idx ≤ h.size) (enough : h.size < turns + idx) (started : min = 0 ∨ min = idx) :
    ∃ after, minHeapify h.size turns h idx min = some after ∧ Rearranged h after ∧
      (Sinking h.key h.size idx → HeapOrder after.key after.size) := by
  induction turns generalizing h idx min with
  | zero => omega
  | succ turns ih =>
    by_cases proceeds : min < h.size
    · rcases minHeapify_turn turns filled positive inside proceeds with
        ⟨stops, inOrder⟩ |
        ⟨least, swapped, continues, exchanged, isChild, below, leastInside, less, leastOf⟩
      · exact ⟨h, stops, .refl h, fun sinking => sinking.ordered inOrder⟩
      · have moved := exchanged.rearranged positive inside (by omega) leastInside filled
        rcases @ih swapped least least (moved.filled filled) (by omega)
          (by rw [moved.size]; exact leastInside) (by rw [moved.size]; omega) (.inr rfl)
          with ⟨after, rest, later, ordered⟩
        rw [moved.size] at rest ordered
        refine ⟨after, continues.trans rest, moved.trans later, fun sinking => ordered ?_⟩
        rw [exchanged.key]
        exact sinking.exchange positive isChild leastInside less leastOf
    · -- the loop also ends at the last position, which has no children
      rw [minHeapify, if_neg proceeds]
      refine ⟨h, rfl, .refl h, fun sinking => sinking.ordered ?_⟩
      intro child _ childInside isChild
      omega

end Sifting

end Horse.Lib
