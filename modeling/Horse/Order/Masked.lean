import Mathlib.Order.BooleanAlgebra.Basic

/-!
# Matching under a mask

A pattern is a mask and a value; it matches a key whose part under the mask is the
value.  In a generalized Boolean algebra one pattern matches every key of another one just
when its mask is below the other mask and its value is the part of the other value under
its own mask.
-/

namespace Horse.Order

universe u

variable {α : Type u} [GeneralizedBooleanAlgebra α]

/-- A pattern: the keys with a given value under a mask. -/
def Matched (mask value key : α) : Prop :=
  key ⊓ mask = value

/-- The bits of one mask that another one leaves open are free. -/
theorem matched_sup_sdiff {mask value : α} (reduced : value ⊓ mask = value) (wide : α) :
    Matched mask value (value ⊔ wide \ mask) := by
  rw [Matched, inf_sup_right, reduced, inf_comm, inf_sdiff_self_right, sup_bot_eq]

/-- Every key of the pattern `mask`, `value` is a key of the pattern `wide`, `wanted`. -/
theorem forall_matched_iff {mask value wide wanted : α} (reduced : value ⊓ mask = value) :
    (∀ key, Matched mask value key → Matched wide wanted key) ↔
      mask ⊓ wide = wide ∧ value ⊓ wide = wanted := by
  constructor
  · intro all
    have atValue : value ⊓ wide = wanted := all value reduced
    have free : (value ⊔ wide \ mask) ⊓ wide = wanted :=
      all (value ⊔ wide \ mask) (matched_sup_sdiff reduced wide)
    rw [inf_sup_right, atValue, inf_eq_left.mpr sdiff_le] at free
    have below : wide \ mask ≤ mask :=
      calc wide \ mask ≤ wanted := sup_eq_left.mp free
        _ = value ⊓ wide := atValue.symm
        _ ≤ value := inf_le_left
        _ ≤ mask := inf_eq_left.mp reduced
    have nothing : wide \ mask = ⊥ := disjoint_sdiff_self_left.eq_bot_of_le below
    exact ⟨inf_eq_right.mpr (sdiff_eq_bot_iff.mp nothing), atValue⟩
  · rintro ⟨wider, atValue⟩ key isKey
    calc key ⊓ wide = key ⊓ (mask ⊓ wide) := by rw [wider]
      _ = value ⊓ wide := by rw [← inf_assoc, isKey]
      _ = wanted := atValue

end Horse.Order
