import Horse.Transition.Run
import Mathlib.Data.BitVec
import Mathlib.Data.List.Basic

/-!
# Numbers in network byte order

Reading a number from the bytes at an offset, and the bytes of a number.  What was
packed is read back wherever it stands among other bytes.  The last part copies bytes in
the same way.
-/

namespace Horse.Codec

open Horse.Transition

/-- The number that some bytes at an offset make, undefined beyond the end. -/
def readBe (data : List (BitVec 8)) (offset : Nat) : Nat → Option Nat
  | 0 => some 0
  | count + 1 =>
    (readBe data offset count).bind fun high =>
      data[offset + count]?.map fun byte => high * 256 + byte.toNat

/-- The bytes of a number. -/
def packBe : Nat → Nat → List (BitVec 8)
  | 0, _ => []
  | count + 1, value => packBe count (value / 256) ++ [BitVec.ofNat 8 value]

variable {count offset : Nat} {data : List (BitVec 8)}

theorem readBe_take {bound : Nat} (inside : offset + count ≤ bound) :
    readBe (data.take bound) offset count = readBe data offset count := by
  induction count with
  | zero => rfl
  | succ count ih =>
    rw [readBe, readBe, ih (by omega), List.getElem?_take_of_lt (by omega)]

/-- Reading from where some bytes begin. -/
theorem readBe_drop (data : List (BitVec 8)) (start offset count : Nat) :
    readBe (data.drop start) offset count = readBe data (start + offset) count := by
  induction count with
  | zero => rfl
  | succ count ih => rw [readBe, readBe, ih, List.getElem?_drop, Nat.add_assoc]

/-- Reading behind some bytes. -/
theorem readBe_append_right (before data : List (BitVec 8)) (offset count : Nat) :
    readBe (before ++ data) (before.length + offset) count = readBe data offset count := by
  induction count with
  | zero => rfl
  | succ count ih =>
    rw [readBe, readBe, ih, Nat.add_assoc,
      List.getElem?_append_right (Nat.le_add_right _ _), Nat.add_sub_cancel_left]

/-- Reading in front of some bytes. -/
theorem readBe_append_left (after : List (BitVec 8)) (inside : offset + count ≤ data.length) :
    readBe (data ++ after) offset count = readBe data offset count := by
  have front : (data ++ after).take data.length = data := List.take_left
  rw [← readBe_take inside, front]

theorem readBe_defined (inside : offset + count ≤ data.length) :
    ∃ value, readBe data offset count = some value := by
  induction count with
  | zero => exact ⟨0, rfl⟩
  | succ count ih =>
    rcases ih (by omega) with ⟨high, isHigh⟩
    have byte : data[offset + count]? = some data[offset + count] :=
      List.getElem?_eq_getElem (by omega)
    rw [readBe, isHigh, byte]
    exact ⟨_, rfl⟩

@[simp]
theorem length_packBe (count value : Nat) : (packBe count value).length = count := by
  induction count generalizing value with
  | zero => rfl
  | succ count ih => rw [packBe, List.length_append, ih, List.length_singleton]

/-- A packed number is read back, as far as it fits. -/
theorem readBe_packBe (before after : List (BitVec 8)) (count value : Nat) :
    readBe (before ++ (packBe count value ++ after)) before.length count =
      some (value % 256 ^ count) := by
  induction count generalizing value after with
  | zero => simp [readBe, Nat.mod_one]
  | succ count ih =>
    have high := ih (BitVec.ofNat 8 value :: after) (value / 256)
    have low : (before ++ (packBe count (value / 256) ++ BitVec.ofNat 8 value :: after))[
        before.length + count]? = some (BitVec.ofNat 8 value) := by
      rw [List.getElem?_append_right (Nat.le_add_right _ _), Nat.add_sub_cancel_left,
        List.getElem?_append_right (Nat.le_of_eq (length_packBe _ _)), length_packBe, Nat.sub_self]
      rfl
    rw [packBe, List.append_assoc, List.singleton_append, readBe, high, low]
    simp only [Option.bind_some, Option.map_some, BitVec.toNat_ofNat, Option.some.injEq]
    have split : value % 256 ^ (count + 1) =
        value % 256 + 256 * (value / 256 % 256 ^ count) := by
      rw [Nat.pow_succ', Nat.mod_mul]
    rw [split, Nat.mul_comm, Nat.add_comm]

/-- A packed word is read back. -/
theorem readBe_packBe_word {width : Nat} (before after : List (BitVec 8)) (count : Nat)
    (fits : 256 ^ count = 2 ^ width) (word : BitVec width) :
    (readBe (before ++ (packBe count word.toNat ++ after)) before.length count).map
      (BitVec.ofNat width) = some word := by
  rw [readBe_packBe, fits, Nat.mod_eq_of_lt word.isLt, Option.map_some, BitVec.ofNat_toNat,
    BitVec.setWidth_eq]

/-- Numbers that fit are told apart by their bytes. -/
theorem packBe_inj {first second : Nat} (firstFits : first < 256 ^ count)
    (secondFits : second < 256 ^ count) (same : packBe count first = packBe count second) :
    first = second := by
  have readFirst := readBe_packBe [] [] count first
  have readSecond := readBe_packBe [] [] count second
  rw [same, readSecond, Option.some.injEq, Nat.mod_eq_of_lt firstFits,
    Nat.mod_eq_of_lt secondFits] at readFirst
  exact readFirst.symm

theorem readBe_lt {value : Nat} (read : readBe data offset count = some value) :
    value < 256 ^ count := by
  induction count generalizing value with
  | zero =>
    cases read
    exact Nat.one_pos
  | succ count ih =>
    obtain ⟨high, byte, isHigh, -, rfl⟩ := bind_map_eq_some_iff.mp read
    have small := ih isHigh
    have isByte : byte.toNat < 256 := byte.isLt
    rw [Nat.pow_succ]
    omega

/-- The bytes of a number that was read are those it was read from. -/
theorem packBe_readBe {value : Nat} (read : readBe data offset count = some value) :
    packBe count value = (data.drop offset).take count := by
  induction count generalizing value with
  | zero =>
    cases read
    rfl
  | succ count ih =>
    obtain ⟨high, byte, isHigh, isByte, rfl⟩ := bind_map_eq_some_iff.mp read
    have small : byte.toNat < 256 := byte.isLt
    have quotient : (high * 256 + byte.toNat) / 256 = high := by omega
    have last : BitVec.ofNat 8 (high * 256 + byte.toNat) = byte := by
      apply BitVec.eq_of_toNat_eq
      rw [BitVec.toNat_ofNat]
      omega
    rw [packBe, quotient, ih isHigh, last, List.take_add_one, List.getElem?_drop, isByte]
    rfl

/-- The word of a whole number of bytes at an offset. -/
def readWord (width : Nat) (data : List (BitVec 8)) (offset : Nat) : Option (BitVec width) :=
  (readBe data offset (width / 8)).map (BitVec.ofNat width)

/-! ## Copies -/

/-- Some bytes at an offset, undefined beyond the end. -/
def copyBytes (data : List (BitVec 8)) (offset count : Nat) : Option (List (BitVec 8)) :=
  if offset + count ≤ data.length then some ((data.drop offset).take count) else none

/-- Copying behind some bytes. -/
theorem copyBytes_append_right (before data : List (BitVec 8)) (offset count : Nat) :
    copyBytes (before ++ data) (before.length + offset) count = copyBytes data offset count := by
  have length : before.length + offset + count ≤ (before ++ data).length ↔
      offset + count ≤ data.length := by
    rw [List.length_append]
    omega
  simp only [copyBytes, length, List.drop_length_add_append]

/-- Copying in front of some bytes. -/
theorem copyBytes_append_left (after : List (BitVec 8)) (inside : offset + count ≤ data.length) :
    copyBytes (data ++ after) offset count = copyBytes data offset count := by
  have longer : offset + count ≤ (data ++ after).length := by
    rw [List.length_append]
    omega
  rw [copyBytes, copyBytes, if_pos longer, if_pos inside, List.drop_append_of_le_length (by omega),
    List.take_append_of_le_length (by rw [List.length_drop]; omega)]

/-- The first bytes of some that go on. -/
theorem copyBytes_left (data after : List (BitVec 8)) :
    copyBytes (data ++ after) 0 data.length = some data := by
  have longer : 0 + data.length ≤ (data ++ after).length := by
    rw [List.length_append]
    omega
  rw [copyBytes, if_pos longer, List.drop_zero, List.take_left]

/-- Overwrite the bytes at an offset, undefined beyond the end. -/
def storeBytes (data : List (BitVec 8)) (offset : Nat) (bytes : List (BitVec 8)) :
    Option (List (BitVec 8)) :=
  if offset + bytes.length ≤ data.length then
    some (data.take offset ++ (bytes ++ data.drop (offset + bytes.length)))
  else none

/-- Bytes stored right behind some others. -/
theorem storeBytes_append (before : List (BitVec 8)) {bytes rest : List (BitVec 8)}
    (fits : bytes.length ≤ rest.length) :
    storeBytes (before ++ rest) before.length bytes =
      some (before ++ (bytes ++ rest.drop bytes.length)) := by
  have inside : before.length + bytes.length ≤ (before ++ rest).length := by
    rw [List.length_append]
    omega
  rw [storeBytes, if_pos inside, List.take_left, ← List.drop_drop, List.drop_left]

/-- Store pieces one behind the other. -/
def storeAll (data : List (BitVec 8)) (offset : Nat) :
    List (List (BitVec 8)) → Option (List (BitVec 8))
  | [] => some data
  | piece :: rest =>
    (storeBytes data offset piece).bind fun stored =>
      storeAll stored (offset + piece.length) rest

theorem storeAll_append (before : List (BitVec 8)) {pieces : List (List (BitVec 8))}
    {rest : List (BitVec 8)} (fits : pieces.flatten.length ≤ rest.length) :
    storeAll (before ++ rest) before.length pieces =
      some (before ++ (pieces.flatten ++ rest.drop pieces.flatten.length)) := by
  induction pieces generalizing before rest with
  | nil => rfl
  | cons piece pieces ih =>
    rw [List.flatten_cons, List.length_append] at fits
    have others := @ih (before ++ piece) (rest.drop piece.length) (by
      rw [List.length_drop]
      omega)
    rw [List.length_append, List.append_assoc] at others
    rw [storeAll, storeBytes_append before (Nat.le_of_add_right_le fits), Option.bind_some,
      others, List.drop_drop, List.flatten_cons, List.length_append]
    simp only [List.append_assoc]

/-- Pieces that fill what is behind some bytes. -/
theorem storeAll_fill {before rest : List (BitVec 8)} {pieces : List (List (BitVec 8))}
    (fills : pieces.flatten.length = rest.length) :
    storeAll (before ++ rest) before.length pieces = some (before ++ pieces.flatten) := by
  rw [storeAll_append before (Nat.le_of_eq fills), fills, List.drop_length, List.append_nil]

end Horse.Codec
