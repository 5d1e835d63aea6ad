import Mathlib.Data.BitVec
import Mathlib.Data.List.Basic
import Mathlib.Data.Nat.Log

/-!
# Arrays that are grown by doubling

An array is filled batch by batch.  Every batch is written by a loop that has its own idea
of how many elements are allocated, starting from one, and doubles the array when as many
elements have been written.  As long as at most one element was written before, the loop
is right about the size.  With two elements or more in the array it never comes across its
own size, and writes on as if there was room.
-/

namespace Horse.Container

universe u

variable {α : Type u}

/-- An array: the number of elements last allocated for it, and those written so far. -/
structure GrowingArray (α : Type u) where
  capacity : Nat
  elems : List α
  deriving DecidableEq, Repr

namespace GrowingArray

/-- The array before the first batch. -/
def single : GrowingArray α := ⟨1, []⟩

/-- Write one element.  The array is doubled if the size that the loop takes it to have is
the number of its elements.  A write behind the end is undefined. -/
def write (state : Nat × GrowingArray α) (elem : α) : Option (Nat × GrowingArray α) :=
  let grown :=
    if state.1 = state.2.elems.length then
      (state.1 * 2, { state.2 with capacity := state.1 * 2 })
    else state
  if grown.2.elems.length < grown.2.capacity then
    some (grown.1, { grown.2 with elems := grown.2.elems ++ [elem] })
  else none

/-- Write a batch. -/
def writeBatch (array : GrowingArray α) (batch : List α) : Option (GrowingArray α) :=
  (batch.foldlM write (1, array)).map Prod.snd

/-- Write one batch after another. -/
def writeBatches (array : GrowingArray α) (batches : List (List α)) :
    Option (GrowingArray α) :=
  batches.foldlM writeBatch array

/-! ## A batch that grows the array -/

/-- The least power of two that is not less. -/
def roundUp (count : Nat) : Nat := 2 ^ Nat.clog 2 count

theorem le_roundUp (count : Nat) : count ≤ roundUp count :=
  Nat.le_pow_clog Nat.one_lt_two count

variable {array : GrowingArray α} {count : Nat} {batch : List α}

theorem roundUp_of_le_one (few : count ≤ 1) : roundUp count = 1 := by
  rw [roundUp, Nat.clog_of_right_le_one few, Nat.pow_zero]

/-- Below the power of two there is room for one more. -/
theorem roundUp_succ_of_ne (room : roundUp count ≠ count) :
    roundUp (count + 1) = roundUp count := by
  rw [roundUp, ← (Nat.clog_eq_clog_succ_iff Nat.one_lt_two).mpr room]
  rfl

/-- At the power of two the next one is twice as much. -/
theorem roundUp_succ_of_eq (full : roundUp count = count) :
    roundUp (count + 1) = count * 2 := by
  have more : Nat.clog 2 count < Nat.clog 2 (count + 1) :=
    (Nat.clog_lt_clog_succ_iff Nat.one_lt_two).mpr full
  have nonempty : 0 < count := by
    rw [← full]
    exact Nat.two_pow_pos _
  have enough : count + 1 ≤ 2 ^ (Nat.clog 2 count + 1) := by
    rw [Nat.pow_succ]
    change count + 1 ≤ roundUp count * 2
    omega
  have notMore := Nat.clog_le_of_le_pow enough
  rw [roundUp, Nat.le_antisymm notMore more, Nat.pow_succ]
  exact congrArg (· * 2) full

/-- A loop that is right about the size of the array stays right and never fails. -/
theorem write_of_right (array : GrowingArray α) (elem : α)
    (right : array.capacity = roundUp array.elems.length) :
    write (roundUp array.elems.length, array) elem =
      some (roundUp (array.elems.length + 1),
        ⟨roundUp (array.elems.length + 1), array.elems ++ [elem]⟩) := by
  unfold write
  dsimp only
  by_cases full : roundUp array.elems.length = array.elems.length
  · have nonempty : 0 < array.elems.length := by
      rw [← full]
      exact Nat.two_pow_pos _
    rw [if_pos full, roundUp_succ_of_eq full, full]
    exact if_pos (by dsimp only; omega)
  · have room : array.elems.length < roundUp array.elems.length :=
      Nat.lt_of_le_of_ne (le_roundUp _) (Ne.symm full)
    rw [if_neg full, roundUp_succ_of_ne full]
    dsimp only
    rw [if_pos (right ▸ room), ← right]

theorem foldlM_write_of_right (batch : List α) (array : GrowingArray α)
    (right : array.capacity = roundUp array.elems.length) :
    batch.foldlM write (roundUp array.elems.length, array) =
      some (roundUp (array.elems.length + batch.length),
        ⟨roundUp (array.elems.length + batch.length), array.elems ++ batch⟩) := by
  induction batch generalizing array with
  | nil => simp [← right]
  | cons elem rest ih =>
    rw [List.foldlM_cons, write_of_right array elem right]
    have tail := ih ⟨roundUp (array.elems.length + 1), array.elems ++ [elem]⟩ (by simp)
    simp only [List.length_append, List.length_singleton] at tail
    rw [Option.bind_eq_bind, Option.bind_some, tail]
    simp [Nat.add_assoc, Nat.add_comm 1]

/-- A batch written to at most one element. -/
theorem writeBatch_of_few (few : array.elems.length ≤ 1) (one : array.capacity = 1)
    (batch : List α) :
    writeBatch array batch =
      some ⟨roundUp (array.elems.length + batch.length), array.elems ++ batch⟩ := by
  have isOne := roundUp_of_le_one few
  have written := foldlM_write_of_right batch array (one.trans isOne.symm)
  rw [isOne] at written
  rw [writeBatch, written]
  rfl

/-! ## A batch that does not grow the array -/

theorem write_of_many (many : 2 ≤ array.elems.length) (elem : α) :
    write (1, array) elem =
      if array.elems.length < array.capacity then
        some (1, { array with elems := array.elems ++ [elem] })
      else none := by
  have notOne : ¬1 = array.elems.length := by omega
  unfold write
  dsimp only
  rw [if_neg notOne]

/-- A batch written to two elements or more, in an array with room for them. -/
theorem writeBatch_of_many (many : 2 ≤ array.elems.length)
    (inside : array.elems.length ≤ array.capacity) (batch : List α) :
    writeBatch array batch =
      if array.elems.length + batch.length ≤ array.capacity then
        some { array with elems := array.elems ++ batch }
      else none := by
  unfold writeBatch
  induction batch generalizing array with
  | nil => simp [inside]
  | cons elem rest ih =>
    rw [List.foldlM_cons, write_of_many many]
    by_cases room : array.elems.length < array.capacity
    · have tail := @ih { array with elems := array.elems ++ [elem] }
        (by simp; omega) (by simpa using Nat.succ_le_of_lt room)
      rw [if_pos room, Option.bind_eq_bind, Option.bind_some, tail]
      simp [Nat.add_assoc, Nat.add_comm 1]
    · rw [if_neg room, if_neg (by simp; omega)]
      rfl

theorem writeBatches_of_many (many : 2 ≤ array.elems.length)
    (inside : array.elems.length ≤ array.capacity) (batches : List (List α)) :
    writeBatches array batches =
      if array.elems.length + batches.flatten.length ≤ array.capacity then
        some { array with elems := array.elems ++ batches.flatten }
      else none := by
  unfold writeBatches
  induction batches generalizing array with
  | nil => simp [inside]
  | cons batch rest ih =>
    rw [List.foldlM_cons, writeBatch_of_many many inside]
    by_cases room : array.elems.length + batch.length ≤ array.capacity
    · have tail := @ih { array with elems := array.elems ++ batch }
        (by simp; omega) (by simpa using room)
      rw [if_pos room, Option.bind_eq_bind, Option.bind_some, tail]
      simp [Nat.add_assoc]
    · rw [if_neg room, if_neg (by simp; omega)]
      rfl

/-! ## All batches -/

/-- The array has room for all batches: it is as large as the batch with its second
element has made it. -/
def Fits (written : Nat) (batches : List (List α)) : Prop :=
  ∀ before batch after, batches = before ++ batch :: after →
    written + before.flatten.length ≤ 1 →
    2 ≤ written + before.flatten.length + batch.length →
    written + batches.flatten.length ≤
      roundUp (written + before.flatten.length + batch.length)

theorem fits_nil (written : Nat) : Fits written ([] : List (List α)) := by
  intro before batch after isSplit
  simp at isSplit

/-- A single batch always fits. -/
theorem fits_singleton (batch : List α) : Fits 0 [batch] := by
  intro before other after isSplit _ _
  cases before with
  | nil =>
    cases isSplit
    simpa using le_roundUp batch.length
  | cons first before => simp at isSplit

variable {written : Nat} {rest : List (List α)} {state after : Nat × GrowingArray α}

theorem fits_cons_of_few (few : written + batch.length ≤ 1) :
    Fits written (batch :: rest) ↔ Fits (written + batch.length) rest := by
  constructor
  · intro fits before next after isSplit beforeFew second
    have whole := fits (batch :: before) next after (by rw [isSplit, List.cons_append])
    simp only [List.flatten_cons, List.length_append, ← Nat.add_assoc] at whole ⊢
    exact whole beforeFew second
  · intro fits before next after isSplit beforeFew second
    cases before with
    | nil =>
      cases isSplit
      simp only [List.flatten_nil, List.length_nil] at second
      omega
    | cons first before =>
      rw [List.cons_append, List.cons.injEq] at isSplit
      obtain ⟨rfl, isSplit⟩ := isSplit
      simp only [List.flatten_cons, List.length_append, ← Nat.add_assoc] at *
      exact fits before next after isSplit beforeFew second

theorem fits_cons_of_many (few : written ≤ 1) (many : 2 ≤ written + batch.length) :
    Fits written (batch :: rest) ↔
      written + batch.length + rest.flatten.length ≤ roundUp (written + batch.length) := by
  constructor
  · intro fits
    have whole := fits [] batch rest rfl
    simp only [List.flatten_nil, List.length_nil, Nat.add_zero, List.flatten_cons,
      List.length_append, ← Nat.add_assoc] at whole
    exact whole few many
  · intro room before next after isSplit beforeFew second
    cases before with
    | nil =>
      cases isSplit
      simpa [← Nat.add_assoc] using room
    | cons first before =>
      rw [List.cons_append, List.cons.injEq] at isSplit
      obtain ⟨rfl, isSplit⟩ := isSplit
      simp only [List.flatten_cons, List.length_append] at beforeFew
      omega

/-- From at most one element, no batch is written behind the end just if they fit. -/
theorem writeBatches_isSome_iff (few : array.elems.length ≤ 1) (one : array.capacity = 1)
    (batches : List (List α)) :
    (writeBatches array batches).isSome ↔ Fits array.elems.length batches := by
  induction batches generalizing array with
  | nil => exact iff_of_true rfl (fits_nil _)
  | cons batch rest ih =>
    rw [writeBatches, List.foldlM_cons, writeBatch_of_few few one, Option.bind_eq_bind,
      Option.bind_some]
    change (writeBatches _ rest).isSome ↔ _
    by_cases still : array.elems.length + batch.length ≤ 1
    · rw [fits_cons_of_few still]
      rw [← List.length_append] at still ⊢
      exact ih still (roundUp_of_le_one still)
    · have many : 2 ≤ array.elems.length + batch.length := by omega
      rw [fits_cons_of_many few many, writeBatches_of_many]
      · simp [Nat.add_assoc]
      · rwa [List.length_append]
      · rw [List.length_append]
        exact le_roundUp _

/-! ## What is written -/

theorem elems_of_write {elem : α} (written : write state elem = some after) :
    after.2.elems = state.2.elems ++ [elem] := by
  unfold write at written
  dsimp only at written
  split at written
  · split at written
    · cases written
      rfl
    · cases written
  · split at written
    · cases written
      rfl
    · cases written

theorem elems_of_foldlM_write (written : batch.foldlM write state = some after) :
    after.2.elems = state.2.elems ++ batch := by
  induction batch generalizing state with
  | nil =>
    cases written
    simp
  | cons elem rest ih =>
    rw [List.foldlM_cons, Option.bind_eq_bind, Option.bind_eq_some_iff] at written
    obtain ⟨next, first, tail⟩ := written
    rw [ih tail, elems_of_write first, List.append_assoc, List.singleton_append]

/-- What was written is in the array, batch by batch. -/
theorem elems_of_writeBatches {after : GrowingArray α} {batches : List (List α)}
    (written : writeBatches array batches = some after) :
    after.elems = array.elems ++ batches.flatten := by
  induction batches generalizing array with
  | nil =>
    cases written
    simp
  | cons batch rest ih =>
    rw [writeBatches, List.foldlM_cons, Option.bind_eq_bind, Option.bind_eq_some_iff] at written
    obtain ⟨next, first, tail⟩ := written
    obtain ⟨state, isState, rfl⟩ := Option.map_eq_some_iff.mp first
    rw [ih tail, elems_of_foldlM_write isState, List.flatten_cons, List.append_assoc]

end GrowingArray

end Horse.Container
