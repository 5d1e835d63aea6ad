import Mathlib.Data.BitVec

/-!
# Cyclic redundancy checks

The reflected check of a message, for a remainder of any width and any polynomial: the bits
of every byte enter at the low end, the lowest first, and the remainder is shifted to the
right.  A shift is linear in exclusive or, and bits that do not reach the low end are only
moved.  So all bits of a byte may enter at once, before the shifts.
-/

namespace Horse.Codec

variable {width : Nat} (poly : BitVec width)

/-- One bit enters the remainder. -/
def crcFeed (remainder : BitVec width) (bit : Bool) : BitVec width :=
  if remainder.getLsbD 0 ^^ bit then (remainder >>> 1) ^^^ poly else remainder >>> 1

/-- The bits of a byte, the lowest first. -/
def byteBits (byte : BitVec 8) : List Bool :=
  (List.range 8).map byte.getLsbD

/-- The remainder after a message. -/
def crcFold (data : List (BitVec 8)) (remainder : BitVec width) : BitVec width :=
  (data.flatMap byteBits).foldl (crcFeed poly) remainder

/-- A shift without a new bit. -/
def crcShift (remainder : BitVec width) : BitVec width :=
  crcFeed poly remainder false

/-! ## Linearity -/

theorem crcShift_eq (remainder : BitVec width) :
    crcShift poly remainder =
      (remainder >>> 1) ^^^ (if remainder.getLsbD 0 then poly else 0) := by
  unfold crcShift crcFeed
  cases remainder.getLsbD 0 <;> simp

theorem crcShift_xor (a b : BitVec width) :
    crcShift poly (a ^^^ b) = crcShift poly a ^^^ crcShift poly b := by
  simp only [crcShift_eq, BitVec.getLsbD_xor, BitVec.ushiftRight_xor_distrib]
  ext i inside
  simp only [BitVec.getElem_xor]
  cases a.getLsbD 0 <;> cases b.getLsbD 0 <;>
    cases (a >>> 1)[i] <;> cases (b >>> 1)[i] <;> cases poly[i] <;> simp_all

theorem repeat_crcShift_xor (count : Nat) (a b : BitVec width) :
    Nat.repeat (crcShift poly) count (a ^^^ b) =
      Nat.repeat (crcShift poly) count a ^^^ Nat.repeat (crcShift poly) count b := by
  induction count with
  | zero => rfl
  | succ count ih => rw [Nat.repeat, ih, crcShift_xor, Nat.repeat, Nat.repeat]

/-- Bits above the low end are moved to the right. -/
theorem repeat_crcShift_of_clear {count : Nat} {remainder : BitVec width}
    (clear : ∀ i < count, remainder.getLsbD i = false) :
    Nat.repeat (crcShift poly) count remainder = remainder >>> count := by
  induction count with
  | zero => simp [Nat.repeat]
  | succ count ih =>
    have low : (remainder >>> count).getLsbD 0 = false := by
      simpa using clear count (Nat.lt_succ_self count)
    rw [Nat.repeat, ih fun i before => clear i (Nat.lt_succ_of_lt before), crcShift_eq, low,
      BitVec.shiftRight_add]
    simp

/-! ## Whole bytes -/

/-- A bit enters at the low end, and then the remainder is shifted. -/
theorem crcFeed_eq (positive : 0 < width) (remainder : BitVec width) (bit : Bool) :
    crcFeed poly remainder bit =
      crcShift poly (remainder ^^^ (BitVec.ofBool bit).setWidth width) := by
  have nothing : (BitVec.ofBool bit).setWidth width >>> 1 = 0 := by
    ext i inside
    simp
  have low : ((BitVec.ofBool bit).setWidth width).getLsbD 0 = bit := by
    simp [positive]
  unfold crcShift crcFeed
  rw [BitVec.getLsbD_xor, low, BitVec.ushiftRight_xor_distrib, nothing, Bool.xor_false,
    BitVec.ofNat_eq_ofNat, BitVec.xor_zero]

/-- The low bits of a byte, one after the other, have the effect of all at once. -/
theorem foldl_crcFeed_low (byte : BitVec 8) (remainder : BitVec width) {count : Nat}
    (inside : count ≤ width) :
    ((List.range count).map byte.getLsbD).foldl (crcFeed poly) remainder =
      Nat.repeat (crcShift poly) count
        (remainder ^^^ (byte.setWidth count).setWidth width) := by
  induction count with
  | zero =>
    have nothing : (byte.setWidth 0).setWidth width = 0 := by
      ext i bound
      simp
    rw [nothing]
    simp [Nat.repeat]
  | succ count ih =>
    -- the next bit waits at its place while the bits below it enter
    have waiting : Nat.repeat (crcShift poly) count
        ((BitVec.ofBool (byte.getLsbD count)).setWidth width <<< count) =
          (BitVec.ofBool (byte.getLsbD count)).setWidth width := by
      rw [repeat_crcShift_of_clear poly]
      · ext i bound
        simp only [BitVec.getElem_ushiftRight, BitVec.getLsbD_shiftLeft, BitVec.getLsbD_setWidth,
          BitVec.getElem_setWidth, BitVec.getLsbD_ofBool, Nat.add_sub_cancel_left]
        by_cases isLow : i = 0
        · subst isLow
          simp [show count < width by omega, show 0 < width by omega]
        · simp [isLow]
      · intro i before
        simp [before]
    have nextBit : (byte.setWidth (count + 1)).setWidth width =
        (byte.setWidth count).setWidth width ^^^
          ((BitVec.ofBool (byte.getLsbD count)).setWidth width <<< count) := by
      ext i bound
      simp only [BitVec.getElem_setWidth, BitVec.getElem_xor, BitVec.getLsbD_setWidth,
        BitVec.getElem_shiftLeft, BitVec.getLsbD_ofBool]
      by_cases before : i < count
      · simp [before, show i < count + 1 by omega]
      · by_cases here : i = count
        · subst here
          simp
        · simp [before, show ¬i < count + 1 by omega, show i - count ≠ 0 by omega]
    rw [List.range_succ, List.map_append, List.foldl_append, ih (Nat.le_of_succ_le inside),
      List.map_singleton, List.foldl_cons, List.foldl_nil, crcFeed_eq poly (by omega), nextBit,
      ← BitVec.xor_assoc, Nat.repeat, repeat_crcShift_xor poly count (_ ^^^ _) (_ <<< _), waiting]

/-- A byte enters at once. -/
theorem foldl_crcFeed_byte (byte : BitVec 8) (remainder : BitVec width) (inside : 8 ≤ width) :
    (byteBits byte).foldl (crcFeed poly) remainder =
      Nat.repeat (crcShift poly) 8 (remainder ^^^ byte.setWidth width) := by
  rw [byteBits, foldl_crcFeed_low poly byte remainder inside, BitVec.setWidth_eq byte]

end Horse.Codec
