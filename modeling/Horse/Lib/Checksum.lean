import Horse.Codec.Crc
import Horse.Lib.Netflow

/-!
# The checksum of a netflow

`crc32` keeps the complement of the remainder, and its table is built from complements too:
the conditional of `crc32_for_byte` is inverted, and every shift brings a zero where the
complement of a zero is due, which the last constant makes up for.  What it computes from 0
is the standard CRC-32.

The table is static.  It is built by the first call, which finds its first entry zero.
-/

namespace Horse.Lib

open Horse.Codec

/-- The polynomial of CRC-32, reflected. -/
def crc32Poly : BitVec 32 := 0xEDB88320

/-- CRC-32, bit by bit. -/
def standardCrc32 (data : List (BitVec 8)) : BitVec 32 :=
  crcFold crc32Poly data 0xFFFFFFFF ^^^ 0xFFFFFFFF

/-- The static table of `crc32`. -/
abbrev Crc32Table := Vector (BitVec 32) 0x100

/-- The table before the first call. -/
def crc32NoTable : Crc32Table :=
  Vector.replicate 0x100 0

/-- The loop that fills the table. -/
def crc32FullTable : Crc32Table :=
  Vector.ofFn fun i => crc32ForByte (BitVec.ofNat 32 i)

/-- `crc32`, with the table it finds and the one it leaves. -/
def crc32Static (table : Crc32Table) (data : List (BitVec 8)) (crc : BitVec 32) :
    Crc32Table × BitVec 32 :=
  let table := if table[0] = 0 then crc32FullTable else table
  (table, data.foldl
    (fun crc byte => table.get (crc.setWidth 8 ^^^ byte).toFin ^^^ (crc >>> 8)) crc)

/-- The table after the given calls. -/
def crc32TableAfter (calls : List (List (BitVec 8) × BitVec 32)) : Crc32Table :=
  calls.foldl (fun table call => (crc32Static table call.1 call.2).1) crc32NoTable

/-! ## The table -/

theorem crc32FullTable_get (index : BitVec 8) :
    crc32FullTable.get index.toFin = crc32ForByte (index.setWidth 32) := by
  have entry : crc32FullTable.get index.toFin = crc32ForByte (BitVec.ofNat 32 index.toNat) :=
    Vector.getElem_ofFn _
  rw [entry, BitVec.ofNat_toNat]

/-- Before the first call the table is empty, and it is full ever after. -/
theorem crc32TableAfter_cases (calls : List (List (BitVec 8) × BitVec 32)) :
    crc32TableAfter calls = crc32NoTable ∨ crc32TableAfter calls = crc32FullTable := by
  induction calls using List.reverseRecOn with
  | nil => exact .inl rfl
  | append_singleton calls call ih =>
    right
    rw [crc32TableAfter, List.foldl_append]
    change (if (crc32TableAfter calls)[0] = 0 then crc32FullTable else crc32TableAfter calls) = _
    rcases ih with empty | full
    · rw [empty]
      exact if_pos rfl
    · rw [full, ite_self]

/-- Every call works with the full table. -/
theorem crc32Static_eq (calls : List (List (BitVec 8) × BitVec 32)) (data : List (BitVec 8))
    (crc : BitVec 32) :
    crc32Static (crc32TableAfter calls) data crc = (crc32FullTable, crc32 data crc) := by
  have built : (if (crc32TableAfter calls)[0] = 0 then crc32FullTable else crc32TableAfter calls) =
      crc32FullTable := by
    rcases crc32TableAfter_cases calls with empty | full
    · rw [empty]
      exact if_pos rfl
    · rw [full, ite_self]
  rw [crc32Static, built]
  simp only [crc32FullTable_get]
  rfl

theorem crc32_append (first second : List (BitVec 8)) (crc : BitVec 32) :
    crc32 (first ++ second) crc = crc32 second (crc32 first crc) :=
  List.foldl_append

/-! ## Complements -/

/-- The inverted conditional adds the polynomial once more. -/
theorem crc32Bit_eq (r : BitVec 32) : crc32Bit r = crcShift crc32Poly r ^^^ crc32Poly := by
  have low : (r &&& 1 ≠ 0) ↔ r.getLsbD 0 = true := by
    rw [show (1 : BitVec 32) = 1#32 from rfl, BitVec.and_one_eq_setWidth_ofBool_getLsbD]
    cases r.getLsbD 0 <;> decide
  rw [crcShift_eq, crc32Bit, BitVec.xor_assoc, BitVec.xor_comm]
  simp only [low]
  cases r.getLsbD 0 <;> rfl

/-- What the loop adds does not depend on where it starts. -/
theorem repeat_crc32Bit (count : Nat) (r : BitVec 32) :
    Nat.repeat crc32Bit count r =
      Nat.repeat (crcShift crc32Poly) count r ^^^ Nat.repeat crc32Bit count 0 := by
  induction count with
  | zero => exact (BitVec.xor_zero).symm
  | succ count ih =>
    rw [Nat.repeat, ih, crc32Bit_eq, crcShift_xor, BitVec.xor_assoc, ← crc32Bit_eq]
    rfl

/-- The table holds the complements of the shifted complements. -/
theorem crc32ForByte_eq (r : BitVec 32) :
    crc32ForByte r =
      Nat.repeat (crcShift crc32Poly) 8 (r ^^^ 0xFFFFFFFF) ^^^ 0xFFFFFFFF := by
  have constant : Nat.repeat crc32Bit 8 0 ^^^ 0xFF000000 =
      Nat.repeat (crcShift crc32Poly) 8 0xFFFFFFFF ^^^ 0xFFFFFFFF := by decide
  rw [crc32ForByte, repeat_crc32Bit, repeat_crcShift_xor, BitVec.xor_assoc, constant,
    BitVec.xor_assoc]

/-- A byte is looked up by its sum with the low bits, and the high bits are moved. -/
theorem crc32_step (crc : BitVec 32) (byte : BitVec 8) :
    crc32ForByte ((crc.setWidth 8 ^^^ byte).setWidth 32) ^^^ (crc >>> 8) =
      Nat.repeat (crcShift crc32Poly) 8 ((crc ^^^ 0xFFFFFFFF) ^^^ byte.setWidth 32) ^^^
        0xFFFFFFFF := by
  generalize isIndex : (crc.setWidth 8 ^^^ byte).setWidth 32 = index
  have clear : ∀ i < 8, (index ^^^ crc ^^^ byte.setWidth 32).getLsbD i = false := by
    intro i low
    rw [← isIndex]
    simp only [BitVec.getLsbD_xor, BitVec.getLsbD_setWidth, low, show i < 32 by omega,
      decide_true, Bool.true_and]
    cases crc.getLsbD i <;> cases byte.getLsbD i <;> rfl
  have high : (index ^^^ crc ^^^ byte.setWidth 32) >>> 8 = crc >>> 8 := by
    ext i inside
    rw [← isIndex]
    simp
  have moved := (repeat_crcShift_of_clear crc32Poly clear).trans high
  have sum : (index ^^^ 0xFFFFFFFF) ^^^ (index ^^^ crc ^^^ byte.setWidth 32) =
      (crc ^^^ 0xFFFFFFFF) ^^^ byte.setWidth 32 := by
    ext i inside
    simp only [BitVec.getElem_xor]
    cases index[i] <;> cases crc[i] <;> simp
  rw [crc32ForByte_eq, ← moved, BitVec.xor_assoc, BitVec.xor_comm 0xFFFFFFFF, ← BitVec.xor_assoc,
    ← repeat_crcShift_xor, sum]

/-- `crc32` works on the complement of the remainder. -/
theorem crc32_eq_crcFold (data : List (BitVec 8)) (crc : BitVec 32) :
    crc32 data crc = crcFold crc32Poly data (crc ^^^ 0xFFFFFFFF) ^^^ 0xFFFFFFFF := by
  induction data generalizing crc with
  | nil =>
    change crc = crc ^^^ 0xFFFFFFFF ^^^ 0xFFFFFFFF
    rw [BitVec.xor_assoc, BitVec.xor_self, BitVec.xor_zero]
  | cons byte rest ih =>
    change crc32 rest (_ ^^^ _) = _
    rw [ih, crc32_step, BitVec.xor_assoc _ 0xFFFFFFFF, BitVec.xor_self, BitVec.xor_zero, crcFold,
      crcFold, List.flatMap_cons, List.foldl_append, foldl_crcFeed_byte _ _ _ (by decide)]

/-! ## CRC-32 -/

/-- Whatever calls were made before, `crc32` from 0 gives the CRC-32 of the data, and from
any value it may be continued where it stopped. -/
theorem crc32_isStandard (calls : List (List (BitVec 8) × BitVec 32)) :
    (∀ data, (crc32Static (crc32TableAfter calls) data 0).2 = standardCrc32 data) ∧
      ∀ first second crc,
        let half := crc32Static (crc32TableAfter calls) first crc
        (crc32Static half.1 second half.2).2 =
          (crc32Static (crc32TableAfter calls) (first ++ second) crc).2 := by
  constructor
  · intro data
    rw [crc32Static_eq, crc32_eq_crcFold]
    rfl
  · intro first second crc
    have left := crc32Static_eq (calls ++ [(first, crc)]) second (crc32 first crc)
    rw [crc32TableAfter, List.foldl_append] at left
    change crc32Static (crc32Static (crc32TableAfter calls) first crc).1 _ _ = _ at left
    rw [crc32Static_eq] at left
    simp only [crc32Static_eq, left, crc32_append]

-- the check value of CRC-32, for the digits from 1 to 9
example : standardCrc32 [0x31, 0x32, 0x33, 0x34, 0x35, 0x36, 0x37, 0x38, 0x39] = 0xCBF43926 := by
  decide +kernel

end Horse.Lib
