import Mathlib.Data.List.Basic

/-!
# Decimal texts

The number that a text of decimal digits stands for.  `Nat.toDigits` writes the digits of
a number, and the two are inverse to each other.
-/

namespace Horse.Codec

/-- The number that some decimal digits make. -/
def readDecimal (text : List Char) : Option Nat :=
  if text ≠ [] ∧ text.all Char.isDigit then some (Nat.ofDigitChars 10 text 0) else none

@[simp]
theorem readDecimal_toDigits (value : Nat) :
    readDecimal (Nat.toDigits 10 value) = some value := by
  have digits : (Nat.toDigits 10 value).all Char.isDigit = true :=
    List.all_eq_true.mpr fun _ member =>
      Nat.isDigit_of_mem_toDigits (Nat.succ_pos 9) (Nat.le_refl 10) member
  rw [readDecimal, if_pos ⟨Nat.toDigits_ne_nil, digits⟩, Nat.ofDigitChars_ten_toDigits]

/-- Separators are not digits. -/
theorem notMem_toDigits {char : Char} (notDigit : char.isDigit = false) (value : Nat) :
    char ∉ Nat.toDigits 10 value := by
  intro member
  have isDigit := Nat.isDigit_of_mem_toDigits (Nat.succ_pos 9) (Nat.le_refl 10) member
  rw [notDigit] at isDigit
  cases isDigit

end Horse.Codec
