import Mathlib.Data.BitVec

/-!
# Writing a part of a word

A field of a packed word is written by clearing its bits and setting those of the new
value, and a member of a union by replacing the low bits of the union.  The lemmas say
when shorter ways to write come to the same.
-/

namespace Horse.Codec

variable {width : Nat}

/-- A write under a mask: `(old AND NOT mask) OR (value AND mask)`. -/
def maskedWrite (old value mask : BitVec width) : BitVec width :=
  (old &&& ~~~mask) ||| (value &&& mask)

section Words

variable (old value mask : BitVec width)

/-- Assigning the value without the mask comes to the same if the value agrees with the
old one outside the mask. -/
theorem maskedWrite_eq_value_iff :
    value = maskedWrite old value mask ↔ value &&& ~~~mask = old &&& ~~~mask := by
  simp only [BitVec.eq_of_getElem_eq_iff, maskedWrite, BitVec.getElem_or, BitVec.getElem_and,
    BitVec.getElem_not]
  refine forall_congr' fun i => forall_congr' fun bound => ?_
  cases value[i] <;> cases old[i] <;> cases mask[i] <;> decide

/-- Keeping the bits inside the mask in place of those outside comes to the same if the
old word has no bits but those that are written. -/
theorem keptInside_eq_maskedWrite_iff :
    (old &&& mask) ||| (value &&& mask) = maskedWrite old value mask ↔
      old &&& ~~~(value &&& mask) = 0 := by
  simp only [BitVec.eq_of_getElem_eq_iff, maskedWrite, BitVec.getElem_or, BitVec.getElem_and,
    BitVec.getElem_not, BitVec.ofNat_eq_ofNat, BitVec.getElem_zero]
  refine forall_congr' fun i => forall_congr' fun bound => ?_
  cases value[i] <;> cases old[i] <;> cases mask[i] <;> decide

theorem maskedWrite_inside : maskedWrite old value mask &&& mask = value &&& mask := by
  ext i bound
  simp only [maskedWrite, BitVec.getElem_or, BitVec.getElem_and, BitVec.getElem_not]
  cases value[i] <;> cases old[i] <;> cases mask[i] <;> decide

end Words

variable {low count member : Nat} {mask other : BitVec width}

/-- A write leaves the fields beside it alone. -/
theorem maskedWrite_beside (old value : BitVec width) (disjoint : other &&& mask = 0) :
    maskedWrite old value mask &&& other = old &&& other := by
  ext i bound
  have apart : (other[i] && mask[i]) = false := by
    rw [← BitVec.getElem_and, disjoint, BitVec.ofNat_eq_ofNat, BitVec.getElem_zero]
  simp only [maskedWrite, BitVec.getElem_or, BitVec.getElem_and, BitVec.getElem_not]
  revert apart
  cases value[i] <;> cases old[i] <;> cases mask[i] <;> cases other[i] <;> decide

/-- A write is known by what it leaves and what it sets. -/
theorem eq_maskedWrite_iff (word old value mask : BitVec width) :
    word = maskedWrite old value mask ↔
      word &&& ~~~mask = old &&& ~~~mask ∧ word &&& mask = value &&& mask := by
  constructor
  · rintro rfl
    have disjoint : ~~~mask &&& mask = 0 := by
      ext i bound
      simp
    exact ⟨maskedWrite_beside old value disjoint, maskedWrite_inside old value mask⟩
  · rintro ⟨left, set⟩
    have parts : word = (word &&& ~~~mask) ||| (word &&& mask) := by
      ext i bound
      simp only [BitVec.getElem_or, BitVec.getElem_and, BitVec.getElem_not]
      cases word[i] <;> cases mask[i] <;> decide
    rw [parts, left, set]
    rfl

/-- Words that agree outside a mask agree in the fields beside it. -/
theorem and_eq_of_outside {word old : BitVec width} (same : word &&& ~~~mask = old &&& ~~~mask)
    (disjoint : other &&& mask = 0) :
    word &&& other = old &&& other := by
  have beside : ~~~mask &&& other = other := by
    ext i bound
    have apart : (other[i] && mask[i]) = false := by
      rw [← BitVec.getElem_and, disjoint, BitVec.ofNat_eq_ofNat, BitVec.getElem_zero]
    simp only [BitVec.getElem_and, BitVec.getElem_not]
    revert apart
    cases mask[i] <;> cases other[i] <;> decide
  rw [← beside, ← BitVec.and_assoc, same, BitVec.and_assoc]

/-! ## Fields -/

/-- The mask of a field, by its lowest bit and its width. -/
def fieldMask (width low count : Nat) : BitVec width :=
  (BitVec.allOnes count).setWidth width <<< low

@[simp]
theorem getElem_fieldMask (low count : Nat) {i : Nat} (inside : i < width) :
    (fieldMask width low count)[i] = (decide (low ≤ i) && decide (i < low + count)) := by
  by_cases below : i < low
  · have notAbove : ¬low ≤ i := by omega
    simp [fieldMask, below, notAbove]
  · have above : low ≤ i := by omega
    have same : i - low < count ↔ i < low + count := by omega
    simp [fieldMask, above, same]

/-- A field that was read into a narrower word is shifted back into its place. -/
theorem field_shift_back (word : BitVec width) (narrow : count ≤ member) :
    ((((word &&& fieldMask width low count) >>> low).setWidth member).setWidth width) <<< low =
      word &&& fieldMask width low count := by
  ext i inside
  by_cases below : i < low
  · have notAbove : ¬low ≤ i := by omega
    simp [below, notAbove]
  · have back : low + (i - low) = i := by omega
    by_cases within : i < low + count
    · have short : i - low < member := by omega
      simp [below, inside, back, short]
    · simp [below, inside, back, within]

/-- A value that fits into a field is read back from it. -/
theorem field_of_shift (member : Nat) (value : BitVec count) (fits : low + count ≤ width) :
    (((value.setWidth width <<< low) &&& fieldMask width low count) >>> low).setWidth member =
      value.setWidth member := by
  ext i inside
  by_cases within : i < count
  · have place : low + i < width := by omega
    simp [within, place]
  · have out : value.getLsbD i = false := BitVec.getLsbD_of_ge _ _ (by omega)
    by_cases place : low + i < width
    · simp [within, out, place]
    · simp [out, place]

/-- A value was written into a field, and nothing else, if the rest of the word is as
before and the field reads the value. -/
theorem eq_fieldWrite_iff (narrow : count ≤ member) (old word : BitVec width)
    {value : BitVec member}
    (holds : (((value.setWidth width <<< low) &&& fieldMask width low count) >>> low).setWidth
      member = value) :
    word = maskedWrite old (value.setWidth width <<< low) (fieldMask width low count) ↔
      word &&& ~~~fieldMask width low count = old &&& ~~~fieldMask width low count ∧
        value = ((word &&& fieldMask width low count) >>> low).setWidth member := by
  rw [eq_maskedWrite_iff]
  refine and_congr_right fun _ => ?_
  constructor
  · intro inside
    rw [inside, holds]
  · intro read
    rw [read, field_shift_back word narrow, BitVec.and_assoc, BitVec.and_self]

/-! ## Parts of words -/

/-- Replace the low bits of a word. -/
def overwriteLow {count : Nat} (word : BitVec width) (value : BitVec count) : BitVec width :=
  maskedWrite word (value.setWidth width) ((BitVec.allOnes count).setWidth width)

/-- A word is made of a high and a low part. -/
theorem append_eq_iff {high : Nat} (a : BitVec high) (b : BitVec low) (word : BitVec (high + low)) :
    a ++ b = word ↔ a = word.extractLsb' low high ∧ b = word.extractLsb' 0 low := by
  constructor
  · rintro rfl
    exact ⟨BitVec.extractLsb'_append_eq_left.symm, BitVec.extractLsb'_append_eq_right.symm⟩
  · rintro ⟨rfl, rfl⟩
    rw [BitVec.extractLsb'_append_extractLsb'_eq_extractLsb' (Nat.zero_add low).symm]
    exact BitVec.extractLsb'_eq_self

end Horse.Codec
