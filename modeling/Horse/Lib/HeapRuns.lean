import Horse.Lib.Heap

/-!
# Runs of the heap

What one insertion and one deletion do, and from it what holds after any sequence of calls.
No access is outside the array and no node is lost or invented.  The order rests on the
priorities of the stored nodes, which only an insertion of a stored node changes.  The
positions that nodes store are right until a deletion leaves the last node at the root.
-/

namespace Horse.Lib

open Horse.Container Horse.Transition

/-- The slots that are allocated, with a node at each position in use. -/
structure Heap.Valid (h : Heap) : Prop where
  room : h.size ≤ h.allocated
  slots : h.array.length = if h.allocated = 0 then 0 else h.allocated + 1
  filled : h.Filled

theorem heapInit_valid (node : Nat → HeapNode) : (heapInit node).Valid where
  room := Nat.le_refl 0
  slots := rfl
  filled := List.not_mem_nil

theorem Rearranged.valid {h after : Heap} (moved : Rearranged h after) (valid : h.Valid) :
    after.Valid where
  room := by rw [moved.size, moved.allocated]; exact valid.room
  slots := by rw [moved.length, moved.allocated]; exact valid.slots
  filled := moved.filled valid.filled

/-! ## Insertion -/

section Insertion

variable {h : Heap} {addr : Nat} {priority : BitVec 64}

theorem Heap.grow_node : h.grow.node = h.node := by
  unfold Heap.grow
  split <;> rfl

/-- There is room for one more node. -/
theorem Heap.Valid.grow_room (valid : h.Valid) :
    h.size < h.grow.allocated ∧ h.grow.array.length = h.grow.allocated + 1 := by
  have slots := valid.slots
  have room := valid.room
  unfold Heap.grow
  by_cases full : h.allocated ≤ h.size
  · rw [if_pos full]
    simp only [List.length_append, List.length_take, List.length_replicate]
    split at slots <;> split <;> omega
  · rw [if_neg full]
    rw [if_neg (by omega)] at slots
    omega

/-- The new slots hold nothing. -/
theorem Heap.Valid.grow_slot (valid : h.Valid) : h.grow.slot = h.slot := by
  have slots := valid.slots
  have room := valid.room
  unfold Heap.grow
  by_cases full : h.allocated ≤ h.size
  · rw [if_pos full]
    have fits : h.array.length ≤ (if h.size = 0 then 1 else 2 * h.size) + 1 := by
      split at slots <;> split <;> omega
    funext idx
    unfold Heap.slot
    dsimp only
    rw [List.take_of_length_le fits, List.getElem?_append]
    by_cases inside : idx < h.array.length
    · rw [if_pos inside]
    · rw [if_neg inside, List.getElem?_eq_none (Nat.le_of_not_lt inside), List.getElem?_replicate,
        apply_ite Option.join]
      exact ite_self none
  · rw [if_neg full]

/-- The heap before the new node rises. -/
def Heap.appended (h : Heap) (addr : Nat) (priority : BitVec 64) : Heap where
  array := h.grow.array.set (h.size + 1) (some addr)
  size := h.size + 1
  allocated := h.grow.allocated
  node := Function.update h.node addr ⟨priority, h.size + 1⟩

theorem Heap.Valid.appended_slot (valid : h.Valid) :
    (h.appended addr priority).slot = Function.update h.slot (h.size + 1) (some addr) := by
  rw [← valid.grow_slot]
  have inside : h.size + 1 < h.grow.array.length := by
    rw [valid.grow_room.2]
    exact Nat.succ_lt_succ valid.grow_room.1
  exact Heap.slot_set rfl inside

theorem Heap.appended_priority :
    (h.appended addr priority).priority = Function.update h.priority addr priority := by
  funext other
  change (Function.update h.node addr _ other).priority = _
  rw [Function.update_apply, Function.update_apply, apply_ite HeapNode.priority]
  rfl

theorem Heap.Valid.appended_stored (valid : h.Valid) :
    (h.appended addr priority).stored = h.stored ++ [some addr] := by
  unfold Heap.stored
  rw [valid.appended_slot]
  change contents _ (h.size + 1) = _
  rw [contents_succ, Function.update_self]
  congr 1
  apply contents_congr
  intro position _ inside
  exact Function.update_of_ne (by omega) _ _

theorem heapInsert_eq (valid : h.Valid) :
    heapInsert h addr priority =
      bubbleUp addr (h.size + 1) (h.appended addr priority) (h.size + 1) := by
  have inside : h.size + 1 < h.grow.array.length := by
    rw [valid.grow_room.2]
    exact Nat.succ_lt_succ valid.grow_room.1
  rw [heapInsert, @addNode_eq { h.grow with size := h.size + 1 } addr _ inside]
  simp only [Option.bind_eq_bind, Option.bind_some, Heap.grow_node, Function.update_self,
    Function.update_idem]
  rfl

/-- Stored nodes that keep their priority keep their keys. -/
theorem Heap.Valid.appended_key (valid : h.Valid)
    (steady : some addr ∈ h.stored → h.priority addr = priority) {position : Nat}
    (positive : 1 ≤ position) (inside : position ≤ h.size) :
    (h.appended addr priority).key position = h.key position := by
  rcases valid.filled.slot_eq positive inside with ⟨other, here⟩
  have stays : (h.appended addr priority).slot position = some other := by
    rw [valid.appended_slot, Function.update_of_ne (by omega), here]
  rw [Heap.key_eq stays, Heap.key_eq here, Heap.appended_priority, Function.update_apply]
  split
  · rename_i same
    subst same
    rw [steady (mem_contents.mpr ⟨position, positive, inside, here⟩)]
  · rfl

/-- What `heap_insert` does. -/
structure Inserted (h : Heap) (addr : Nat) (priority : BitVec 64) (after : Heap) : Prop where
  valid : after.Valid
  stored : after.stored.Perm (some addr :: h.stored)
  ordered : HeapOrder h.key h.size → (some addr ∈ h.stored → h.priority addr = priority) →
    HeapOrder after.key after.size
  positioned : h.Positioned → (after.Positioned ↔ some addr ∉ h.stored)

theorem heapInsert_spec (valid : h.Valid) (addr : Nat) (priority : BitVec 64) :
    ∃ after, heapInsert h addr priority = some after ∧ Inserted h addr priority after := by
  have appendedStored := @Heap.Valid.appended_stored h addr priority valid
  have appendedValid : (h.appended addr priority).Valid := by
    constructor
    · exact valid.grow_room.1
    · change (List.set _ _ _).length = if h.grow.allocated = 0 then _ else _
      rw [List.length_set, valid.grow_room.2, if_neg (by have := valid.grow_room.1; omega)]
      rfl
    · unfold Heap.Filled
      rw [appendedStored]
      intro missing
      rcases List.mem_append.mp missing with inOld | isNew
      · exact valid.filled inOld
      · cases List.mem_singleton.mp isNew
  have last : (h.appended addr priority).slot (h.size + 1) = some addr := by
    rw [valid.appended_slot, Function.update_self]
  rcases bubbleUp_spec appendedValid.filled (Nat.le_add_left 1 h.size) (Nat.le_refl _)
    (Nat.le_refl _) last with ⟨after, ran, moved, ordered⟩
  have stored : after.stored.Perm (some addr :: h.stored) := by
    apply moved.stored.trans
    rw [appendedStored]
    exact List.perm_append_singleton _ _
  refine ⟨after, (heapInsert_eq valid).trans ran, moved.valid appendedValid, stored, ?_, ?_⟩
  · intro inOrder steady
    apply ordered
    exact inOrder.rising_last fun position positive inside =>
      valid.appended_key steady positive inside
  · intro positioned
    constructor
    · intro knows
      exact (List.nodup_cons.mp (stored.nodup_iff.mp knows.nodup)).1
    · intro fresh
      apply moved.positioned
      intro i positive inside
      rw [valid.appended_slot]
      by_cases isLast : i = h.size + 1
      · subst isLast
        refine ⟨addr, Function.update_self _ _ _, ?_⟩
        simp only [Heap.appended, Function.update_self]
      · have within : i ≤ h.size := by
          change i ≤ h.size + 1 at inside
          omega
        rcases positioned i positive within with ⟨other, here, knows⟩
        have apart : other ≠ addr := by
          rintro rfl
          exact fresh (mem_contents.mpr ⟨i, positive, within, here⟩)
        refine ⟨other, by rw [Function.update_of_ne isLast, here], ?_⟩
        simp only [Heap.appended, Function.update_of_ne apart, knows]

end Insertion

/-! ## Deletion -/

section Deletion

variable {h : Heap}

/-- The heap before the last node sinks from the root. -/
def Heap.shrunk (h : Heap) (last : Nat) : Heap :=
  { h with size := h.size - 1, array := h.array.set 1 (some last) }

variable {root last : Nat} (atRoot : h.slot 1 = some root)

include atRoot

theorem Heap.shrunk_slot : (h.shrunk last).slot = Function.update h.slot 1 (some last) :=
  Heap.slot_set rfl (Heap.lt_length_of_slot atRoot)

theorem Heap.shrunk_key {position : Nat} (inner : 1 < position) :
    (h.shrunk last).key position = h.key position := by
  unfold Heap.key
  rw [Heap.shrunk_slot atRoot, Function.update_of_ne (Nat.ne_of_gt inner)]
  rfl

variable (atLast : h.slot h.size = some last)

include atLast

theorem Heap.shrunk_stored (nonempty : 0 < h.size) :
    h.stored.Perm (some root :: (h.shrunk last).stored) := by
  have removed := @contents_root_removed _ h.slot (h.size - 1) (h.shrunk last).slot
    (by
      intro _
      rw [Heap.shrunk_slot atRoot, Function.update_self, Nat.sub_add_cancel nonempty, atLast])
    (by
      intro position inner _
      rw [Heap.shrunk_slot atRoot, Function.update_of_ne (Nat.ne_of_gt inner)])
  rw [Nat.sub_add_cancel nonempty, atRoot] at removed
  exact removed

theorem Heap.shrunk_key_root : (h.shrunk last).key 1 = h.key h.size := by
  have here : (h.shrunk last).slot 1 = some last := by
    rw [Heap.shrunk_slot atRoot, Function.update_self]
  rw [Heap.key_eq here, Heap.key_eq atLast]
  rfl

theorem Heap.Valid.shrunk (valid : h.Valid) (nonempty : 0 < h.size) : (h.shrunk last).Valid where
  room := (Nat.sub_le _ _).trans valid.room
  slots := by
    change (List.set _ _ _).length = _
    rw [List.length_set]
    exact valid.slots
  filled missing :=
    valid.filled ((Heap.shrunk_stored atRoot atLast nonempty).mem_iff.mpr
      (List.mem_cons_of_mem _ missing))

/-- A child of the root that is smaller than the last node takes the place of the root. -/
def Heap.Sinks (h : Heap) : Prop :=
  ∃ child ∈ [2, 3], child < h.size ∧ h.key child < h.key h.size

instance (h : Heap) : Decidable h.Sinks :=
  inferInstanceAs (Decidable (∃ child ∈ _, _))

/-- What `heap_delete` does. -/
structure Deleted (h : Heap) (removed : Nat) (after : Heap) : Prop where
  atRoot : h.slot 1 = some removed
  valid : after.Valid
  stored : h.stored.Perm (some removed :: after.stored)
  ordered : HeapOrder h.key h.size → HeapOrder after.key after.size
  positioned : h.Positioned → (after.Positioned ↔ h.size = 1 ∨ h.Sinks)

theorem heapDelete_eq :
    heapDelete h =
      (minHeapify (h.shrunk last).size ((h.shrunk last).size + 1) (h.shrunk last) 1 0).map
        fun after => (root, after) := by
  have rootStays : Heap.slot { h with size := h.size - 1 } 1 = some root := atRoot
  have written : Heap.write { h with size := h.size - 1 } 1 last = some (h.shrunk last) :=
    if_pos (Heap.lt_length_of_slot atRoot)
  rw [heapDelete, atLast]
  simp only [Option.bind_eq_bind, Option.bind_some, rootStays, written]
  exact Option.map_eq_bind.symm

/-- The last node knows its position at the root only after it has left it. -/
theorem minHeapify_positioned {after : Heap} (valid : h.Valid) (several : 1 < h.size)
    (positioned : h.Positioned)
    (ran : minHeapify (h.shrunk last).size ((h.shrunk last).size + 1) (h.shrunk last) 1 0 =
      some after) :
    after.Positioned ↔ h.Sinks := by
  have isShrunk : (h.shrunk last).Valid := valid.shrunk atRoot atLast (by omega)
  have hasRoot : 1 ≤ (h.shrunk last).size := Nat.le_sub_of_add_le several
  have rootKey := Heap.shrunk_key_root atRoot atLast
  rcases minHeapify_turn (h.shrunk last).size isShrunk.filled (Nat.le_refl 1) hasRoot
      (Nat.lt_of_lt_of_le Nat.zero_lt_one hasRoot) with
    ⟨stops, inOrder⟩ |
    ⟨least, swapped, continues, exchanged, isChild, below, leastInside, less, _⟩
  · rw [stops] at ran
    cases ran
    apply iff_of_false
    · intro knows
      rcases knows 1 (Nat.le_refl 1) hasRoot with ⟨addr, here, knowsRoot⟩
      rw [Heap.shrunk_slot atRoot, Function.update_self] at here
      cases here
      rcases positioned h.size (by omega) (Nat.le_refl _) with ⟨other, atOther, knowsLast⟩
      rw [atLast] at atOther
      cases atOther
      have same : h.size = 1 := knowsLast.symm.trans knowsRoot
      omega
    · rintro ⟨child, isChild, inside, smaller⟩
      have either : child = 2 ∨ child = 3 := by simpa using isChild
      have inner : 1 < child := by omega
      have notSmaller := inOrder child inner (Nat.le_sub_one_of_lt inside) (by omega)
      rw [rootKey, Heap.shrunk_key atRoot inner] at notSmaller
      omega
  · have distinct : (h.shrunk last).stored.Nodup :=
      (List.nodup_cons.mp ((Heap.shrunk_stored atRoot atLast (by omega)).nodup_iff.mp
        positioned.nodup)).2
    have swappedPositioned : swapped.Positioned := by
      apply exchanged.positioned (Nat.le_refl 1) hasRoot (by omega) leastInside isShrunk.filled
        distinct
      intro k positive inside notRoot _
      have within : k ≤ h.size := inside.trans (Nat.sub_le _ _)
      rw [Heap.shrunk_slot atRoot, Function.update_of_ne notRoot]
      exact positioned k positive within
    have moved := exchanged.rearranged (Nat.le_refl 1) hasRoot (by omega) leastInside
      isShrunk.filled
    rcases @minHeapify_spec swapped (h.shrunk last).size least least (moved.filled isShrunk.filled)
        (by omega) (by rw [moved.size]; exact leastInside) (by rw [moved.size]; omega) (.inr rfl)
      with ⟨final, rest, later, _⟩
    rw [moved.size, ← continues, ran] at rest
    cases rest
    apply iff_of_true
    · exact later.positioned swappedPositioned
    · rw [rootKey, Heap.shrunk_key atRoot below] at less
      have either : least = 2 ∨ least = 3 := by omega
      exact ⟨least, by simpa using either, Nat.lt_of_le_sub_one (by omega) leastInside, less⟩

omit atRoot atLast in
theorem heapDelete_spec (valid : h.Valid) (nonempty : 0 < h.size) :
    ∃ removed after, heapDelete h = some (removed, after) ∧ Deleted h removed after := by
  rcases valid.filled.slot_eq (Nat.le_refl 1) nonempty with ⟨root, atRoot⟩
  rcases valid.filled.slot_eq nonempty (Nat.le_refl _) with ⟨last, atLast⟩
  have isShrunk : (h.shrunk last).Valid := valid.shrunk atRoot atLast nonempty
  have stored := Heap.shrunk_stored atRoot atLast nonempty
  rw [heapDelete_eq atRoot atLast]
  by_cases single : h.size = 1
  · -- the heap is empty now, and the loop is not entered
    have empty : (h.shrunk last).size = 0 := by
      change h.size - 1 = 0
      omega
    have stops : minHeapify (h.shrunk last).size ((h.shrunk last).size + 1) (h.shrunk last) 1 0 =
        some (h.shrunk last) := by
      rw [minHeapify, if_neg (by omega)]
    rw [stops]
    refine ⟨root, h.shrunk last, rfl, atRoot, isShrunk, stored, ?_, ?_⟩
    · intro _ child inner inside
      omega
    · intro _
      apply iff_of_true
      · intro i positive inside
        omega
      · exact .inl single
  · have hasRoot : 1 ≤ (h.shrunk last).size := by
      change 1 ≤ h.size - 1
      omega
    rcases minHeapify_spec isShrunk.filled (Nat.le_refl 1) hasRoot (Nat.lt_add_right 1
        (Nat.lt_succ_self _)) (.inl rfl) with ⟨after, ran, moved, ordered⟩
    rw [ran]
    refine ⟨root, after, rfl, atRoot, moved.valid isShrunk,
      stored.trans (moved.stored.symm.cons _), ?_, ?_⟩
    · intro inOrder
      apply ordered
      exact inOrder.sinking_root (Nat.sub_le _ _) fun position inner _ =>
        Heap.shrunk_key atRoot inner
    · intro positioned
      rw [minHeapify_positioned atRoot atLast valid (by omega) positioned ran, or_iff_right single]

end Deletion

/-! ## Sequences of calls -/

/-- `heap_delete` is called for a heap with nodes only. -/
def NonemptyDelete (run : HeapRun) : HeapCall → Prop
  | .insert _ _ => True
  | .delete => 0 < run.heap.size

/-- A node that is stored already is inserted with the priority it has only. -/
def SteadyInsert (run : HeapRun) : HeapCall → Prop
  | .insert addr priority => some addr ∈ run.heap.stored → run.heap.priority addr = priority
  | .delete => True

instance (run : HeapRun) (call : HeapCall) : Decidable (NonemptyDelete run call) :=
  match call with
  | .insert _ _ => inferInstanceAs (Decidable True)
  | .delete => inferInstanceAs (Decidable (0 < run.heap.size))

instance (run : HeapRun) (call : HeapCall) : Decidable (SteadyInsert run call) :=
  match call with
  | .insert addr priority =>
    inferInstanceAs
      (Decidable (some addr ∈ run.heap.stored → run.heap.priority addr = priority))
  | .delete => inferInstanceAs (Decidable True)

/-- No stored node is inserted, and no deletion leaves the last node at the root. -/
def StoresPositions (run : HeapRun) : HeapCall → Prop
  | .insert addr _ => some addr ∉ run.heap.stored
  | .delete => run.heap.size = 1 ∨ run.heap.Sinks

instance (run : HeapRun) (call : HeapCall) : Decidable (StoresPositions run call) :=
  match call with
  | .insert addr _ => inferInstanceAs (Decidable (some addr ∉ run.heap.stored))
  | .delete => inferInstanceAs (Decidable (run.heap.size = 1 ∨ run.heap.Sinks))

/-- The nodes that were inserted are those returned and those stored. -/
def HeapRun.Conserved (run : HeapRun) : Prop :=
  (run.inserted.map some).Perm (run.returned.map some ++ run.heap.stored)

/-- A node without a node of smaller priority in the heap. -/
def Heap.Least (h : Heap) (addr : Nat) : Prop :=
  some addr ∈ h.stored ∧ ∀ other, some other ∈ h.stored → h.priority addr ≤ h.priority other

section Calls

variable {state after : HeapRun} {call : HeapCall}

/-- What a call does to the heap and to the nodes. -/
structure Called (state : HeapRun) (call : HeapCall) (after : HeapRun) : Prop where
  valid : after.heap.Valid
  conserved : state.Conserved → after.Conserved
  ordered : HeapOrder state.heap.key state.heap.size → SteadyInsert state call →
    HeapOrder after.heap.key after.heap.size
  positioned : state.heap.Positioned → (after.heap.Positioned ↔ StoresPositions state call)

theorem heapCall_spec (valid : state.heap.Valid) (nonempty : NonemptyDelete state call) :
    ∃ after, heapCall state call = some after ∧ Called state call after := by
  cases call with
  | insert addr priority =>
    rcases heapInsert_spec valid addr priority with ⟨h, ran, inserted⟩
    refine ⟨{ state with heap := h, inserted := addr :: state.inserted },
      by rw [heapCall, ran]; rfl, inserted.valid, ?_, inserted.ordered, inserted.positioned⟩
    intro conserved
    exact (conserved.cons (some addr)).trans
      (List.perm_middle.symm.trans (inserted.stored.symm.append_left _))
  | delete =>
    rcases heapDelete_spec valid nonempty with ⟨removed, h, ran, deleted⟩
    refine ⟨{ state with heap := h, returned := removed :: state.returned },
      by rw [heapCall, ran]; rfl, deleted.valid, ?_, fun ordered _ => deleted.ordered ordered,
      deleted.positioned⟩
    intro conserved
    exact conserved.trans ((deleted.stored.append_left _).trans List.perm_middle)

theorem called_of_heapCall (valid : state.heap.Valid) (nonempty : NonemptyDelete state call)
    (step : heapCall state call = some after) : Called state call after := by
  rcases heapCall_spec valid nonempty with ⟨other, ran, called⟩
  rw [step] at ran
  cases ran
  exact called

/-- The root of a heap in order is a node of least priority. -/
theorem Heap.least_of_ordered {h : Heap} {root : Nat} (ordered : HeapOrder h.key h.size)
    (nonempty : 0 < h.size) (atRoot : h.slot 1 = some root) : h.Least root := by
  constructor
  · exact mem_contents.mpr ⟨1, Nat.le_refl 1, nonempty, atRoot⟩
  · intro other isStored
    rcases mem_contents.mp isStored with ⟨position, positive, inside, here⟩
    have below := ordered.root_least positive inside
    rw [Heap.key_eq atRoot, Heap.key_eq here] at below
    exact below

end Calls

/-- After any calls every access was inside the array, and the nodes that were inserted are
those returned and those stored.  If no stored node was given another priority, the heap is
in order, and the next node to be retrieved or deleted is one of least priority. -/
theorem heap_calls_ordered (node : Nat → HeapNode) (calls : List HeapCall)
    (nonempty : Along heapCall NonemptyDelete (.start node) calls) :
    ∃ final, run heapCall (.start node) calls = some final ∧ final.Conserved ∧
      (Along heapCall SteadyInsert (.start node) calls →
        HeapOrder final.heap.key final.heap.size ∧
          (0 < final.heap.size → ∃ least after, heapRetrieve final.heap = some least ∧
            heapDelete final.heap = some (least, after) ∧ final.heap.Least least)) := by
  have start : (HeapRun.start node).heap.Valid ∧ (HeapRun.start node).Conserved :=
    ⟨heapInit_valid node, .refl _⟩
  rcases @run_defined _ _ heapCall NonemptyDelete (fun run => run.heap.Valid ∧ run.Conserved)
    (fun {state call} kept guarded => by
      rcases heapCall_spec kept.1 guarded with ⟨after, step, called⟩
      exact ⟨after, step, called.valid, called.conserved kept.2⟩)
    _ calls start nonempty with ⟨final, ran, valid, conserved⟩
  refine ⟨final, ran, conserved, fun steady => ?_⟩
  have ordered : final.heap.Valid ∧ HeapOrder final.heap.key final.heap.size := by
    apply @run_invariant _ _ heapCall _
      (fun run => run.heap.Valid ∧ HeapOrder run.heap.key run.heap.size) _ _ _ _ _
      (nonempty.and steady) ran
    · rintro state call after ⟨isValid, inOrder⟩ ⟨mayDelete, isSteady⟩ step
      have called := called_of_heapCall isValid mayDelete step
      exact ⟨called.valid, called.ordered inOrder isSteady⟩
    · refine ⟨heapInit_valid node, fun child inner inside => ?_⟩
      change child ≤ 0 at inside
      omega
  refine ⟨ordered.2, fun hasNodes => ?_⟩
  rcases heapDelete_spec valid hasNodes with ⟨least, after, deletes, deleted⟩
  exact ⟨least, after, deleted.atRoot, deletes,
    Heap.least_of_ordered ordered.2 hasNodes deleted.atRoot⟩

/-- Nodes that were not inserted yet. -/
def blankNodes (_ : Nat) : HeapNode :=
  ⟨0, 0⟩

/-- Two insertions and a deletion. -/
theorem heap_calls_ordered_three :
    ∃ final, run heapCall (.start blankNodes) [.insert 10 5, .insert 11 3, .delete] = some final ∧
      final.Conserved ∧ HeapOrder final.heap.key final.heap.size := by
  have nonempty : Along heapCall NonemptyDelete (.start blankNodes)
      [.insert 10 5, .insert 11 3, .delete] := by decide +kernel
  have steady : Along heapCall SteadyInsert (.start blankNodes)
      [.insert 10 5, .insert 11 3, .delete] := by decide +kernel
  rcases heap_calls_ordered blankNodes _ nonempty with ⟨final, ran, conserved, ordered⟩
  exact ⟨final, ran, conserved, (ordered steady).1⟩

/-- A node that is inserted again while it is the root gets the greatest priority, and stays
the root. -/
theorem inserted_again_out_of_order :
    ∃ final, run heapCall (.start blankNodes) [.insert 10 1, .insert 11 2, .insert 10 9] =
        some final ∧
      final.heap.key 1 = 9 ∧ final.heap.key 2 = 2 ∧
      ¬HeapOrder final.heap.key final.heap.size := by
  refine ⟨_, rfl, by decide, by decide, ?_⟩
  intro ordered
  have inOrder := ordered 2 (by decide) (by decide)
  revert inOrder
  decide

/-- Every stored node knows its position after every call, exactly if no call inserts a stored
node and no deletion leaves the last node at the root. -/
theorem heap_positioned_along_iff (node : Nat → HeapNode) (calls : List HeapCall)
    (nonempty : Along heapCall NonemptyDelete (.start node) calls) :
    Along heapCall
        (fun state call => ∀ after, heapCall state call = some after → after.heap.Positioned)
        (.start node) calls ↔
      Along heapCall StoresPositions (.start node) calls := by
  apply @along_congr _ _ heapCall _ (fun run => run.heap.Valid ∧ run.heap.Positioned)
    NonemptyDelete
  · rintro state call after mayDelete ⟨valid, _⟩ keeps step
    exact ⟨(called_of_heapCall valid mayDelete step).valid, keeps after step⟩
  · rintro state call mayDelete ⟨valid, positioned⟩
    rcases heapCall_spec valid mayDelete with ⟨after, step, called⟩
    rw [step, ← called.positioned positioned]
    simp only [Option.some.injEq, forall_eq']
  · refine ⟨heapInit_valid node, fun i positive inside => ?_⟩
    change i ≤ 0 at inside
    omega
  · exact nonempty

/-- The third of three nodes sinks when the first one is deleted. -/
theorem heap_positioned_along_three :
    Along heapCall
      (fun state call => ∀ after, heapCall state call = some after → after.heap.Positioned)
      (.start blankNodes) [.insert 10 1, .insert 11 2, .insert 12 3, .delete] := by
  apply (heap_positioned_along_iff blankNodes _ ?_).mpr
  · decide +kernel
  · decide +kernel

/-- The second of two nodes stays at the root when the first one is deleted, and takes itself
to be at the second position. -/
theorem last_node_keeps_old_position :
    ∃ final, run heapCall (.start blankNodes) [.insert 10 1, .insert 11 2, .delete] =
        some final ∧
      final.heap.size = 1 ∧ final.heap.slot 1 = some 11 ∧ (final.heap.node 11).idx = 2 ∧
      ¬final.heap.Positioned := by
  refine ⟨_, rfl, by decide, by decide, by decide, ?_⟩
  intro positioned
  rcases positioned 1 (by decide) (by decide) with ⟨addr, here, knows⟩
  cases here
  revert knows
  decide

end Horse.Lib
