import Mathlib.Data.List.TakeWhile
import Mathlib.Data.Nat.Bitwise

/-!
# Counting bits

A number is cut into lanes of equally many bits, the lowest lane first.  Masks that are the
same in all lanes, and sums that stay inside them, act on every lane by itself; so a
computation on a whole word is one on each of its lanes.

The second part counts the positions of a property: those before the first one that has it,
and those after it.
-/

namespace Horse.Codec

/-! ## Lanes -/

section Lanes

variable {size count word : Nat} {f g : Nat → Nat}

/-- A function of every lane. -/
def laneMap (size : Nat) (f : Nat → Nat) : Nat → Nat → Nat
  | 0, _ => 0
  | count + 1, word =>
    f (word % 2 ^ size) + 2 ^ size * laneMap size f count (word / 2 ^ size)

theorem laneMap_cons {lowest : Nat} (isLane : lowest < 2 ^ size) (rest : Nat) :
    laneMap size f (count + 1) (lowest + 2 ^ size * rest) =
      f lowest + 2 ^ size * laneMap size f count rest := by
  rw [laneMap, Nat.add_mul_mod_self_left, Nat.mod_eq_of_lt isLane,
    Nat.add_mul_div_left _ _ (Nat.two_pow_pos size), Nat.div_eq_of_lt isLane, Nat.zero_add]

theorem laneMap_id (inside : word < 2 ^ (size * count)) : laneMap size id count word = word := by
  induction count generalizing word with
  | zero =>
    have nothing : word < 1 := inside
    rw [laneMap]
    omega
  | succ count ih =>
    have rest : word / 2 ^ size < 2 ^ (size * count) := by
      apply Nat.div_lt_of_lt_mul
      rw [← Nat.pow_add, Nat.add_comm, ← Nat.mul_succ]
      exact inside
    rw [laneMap, ih rest]
    exact Nat.mod_add_div word (2 ^ size)

theorem laneMap_congr (same : ∀ lane < 2 ^ size, f lane = g lane) :
    laneMap size f count word = laneMap size g count word := by
  induction count generalizing word with
  | zero => rfl
  | succ count ih =>
    rw [laneMap, laneMap, ih, same _ (Nat.mod_lt _ (Nat.two_pow_pos size))]

theorem laneMap_add :
    laneMap size f count word + laneMap size g count word =
      laneMap size (fun lane => f lane + g lane) count word := by
  induction count generalizing word with
  | zero => rfl
  | succ count ih =>
    rw [laneMap, laneMap, laneMap, ← ih, Nat.mul_add]
    omega

/-- A difference without a borrow. -/
theorem laneMap_sub_add (below : ∀ lane < 2 ^ size, g lane ≤ f lane) :
    laneMap size (fun lane => f lane - g lane) count word + laneMap size g count word =
      laneMap size f count word := by
  rw [laneMap_add]
  exact laneMap_congr fun lane isLane => Nat.sub_add_cancel (below lane isLane)

theorem laneMap_lt (fits : ∀ lane < 2 ^ size, f lane < 2 ^ size) :
    laneMap size f count word < 2 ^ (size * count) := by
  induction count generalizing word with
  | zero => exact Nat.one_pos
  | succ count ih =>
    have isLane := fits (word % 2 ^ size) (Nat.mod_lt _ (Nat.two_pow_pos size))
    rw [laneMap, Nat.mul_succ, Nat.add_comm (size * count), Nat.pow_add]
    calc f (word % 2 ^ size) + 2 ^ size * laneMap size f count (word / 2 ^ size)
        < 2 ^ size * (laneMap size f count (word / 2 ^ size) + 1) := by
          rw [Nat.mul_succ]
          omega
      _ ≤ 2 ^ size * 2 ^ (size * count) := Nat.mul_le_mul_left _ ih

theorem laneMap_comp (fits : ∀ lane < 2 ^ size, f lane < 2 ^ size) :
    laneMap size g count (laneMap size f count word) = laneMap size (g ∘ f) count word := by
  induction count generalizing word with
  | zero => rfl
  | succ count ih =>
    have isLane := fits (word % 2 ^ size) (Nat.mod_lt _ (Nat.two_pow_pos size))
    change laneMap size g (count + 1) (f _ + _ * _) = _
    rw [laneMap_cons isLane, ih]
    rfl

/-- The mask of a lane cuts off what a shift brings in from the next one. -/
theorem shiftRight_mod_and {shift mask : Nat} (few : shift ≤ size)
    (inside : mask < 2 ^ (size - shift)) :
    (word >>> shift) % 2 ^ size &&& mask = ((word % 2 ^ size) >>> shift) &&& mask := by
  apply Nat.eq_of_testBit_eq
  intro i
  rw [Nat.testBit_and, Nat.testBit_and]
  by_cases low : i < size - shift
  · rw [Nat.testBit_mod_two_pow, Nat.testBit_shiftRight, Nat.testBit_shiftRight,
      Nat.testBit_mod_two_pow, decide_eq_true (show i < size by omega),
      decide_eq_true (show shift + i < size by omega)]
  · have clear : mask.testBit i = false :=
      Nat.testBit_lt_two_pow (inside.trans_le (Nat.pow_le_pow_right Nat.two_pos (by omega)))
    rw [clear, Bool.and_false, Bool.and_false]

theorem shiftRight_and_laneMap {shift mask : Nat} (few : shift ≤ size)
    (inside : mask < 2 ^ (size - shift)) (other : Nat) :
    (word >>> shift) &&& laneMap size (fun _ => mask) count other =
      laneMap size (fun lane => (lane >>> shift) &&& mask) count word := by
  induction count generalizing word other with
  | zero => exact Nat.and_zero _
  | succ count ih =>
    have isLane : mask < 2 ^ size :=
      inside.trans_le (Nat.pow_le_pow_right Nat.two_pos (Nat.sub_le _ _))
    have low : ((word >>> shift) &&& laneMap size (fun _ => mask) (count + 1) other) % 2 ^ size =
        ((word % 2 ^ size) >>> shift) &&& mask := by
      rw [Nat.and_mod_two_pow, laneMap, Nat.add_mul_mod_self_left, Nat.mod_eq_of_lt isLane,
        shiftRight_mod_and few inside]
    have high : ((word >>> shift) &&& laneMap size (fun _ => mask) (count + 1) other) / 2 ^ size =
        laneMap size (fun lane => (lane >>> shift) &&& mask) count (word / 2 ^ size) := by
      have swapped : (word >>> shift) / 2 ^ size = (word / 2 ^ size) >>> shift := by
        rw [← Nat.shiftRight_eq_div_pow, ← Nat.shiftRight_eq_div_pow, ← Nat.shiftRight_add,
          ← Nat.shiftRight_add, Nat.add_comm]
      rw [Nat.and_div_two_pow, laneMap, Nat.add_mul_div_left _ _ (Nat.two_pow_pos size),
        Nat.div_eq_of_lt isLane, Nat.zero_add, swapped, ih]
    rw [← Nat.mod_add_div (_ &&& _) (2 ^ size), low, high, laneMap]

theorem and_laneMap {mask : Nat} (inside : mask < 2 ^ size) (other : Nat) :
    word &&& laneMap size (fun _ => mask) count other =
      laneMap size (fun lane => lane &&& mask) count word :=
  @shiftRight_and_laneMap size count word 0 mask (Nat.zero_le _) inside other

/-- The one bits of the lowest lane and those of the others. -/
theorem countP_testBit_lane :
    (List.range (size + count)).countP word.testBit =
      (List.range size).countP (word % 2 ^ size).testBit +
        (List.range count).countP (word / 2 ^ size).testBit := by
  rw [List.range_add, List.countP_append, List.countP_map]
  congr 1
  · apply List.countP_congr
    intro i inside
    rw [Nat.testBit_mod_two_pow, decide_eq_true (List.mem_range.mp inside), Bool.true_and]
  · apply List.countP_congr
    intro i _
    rw [Function.comp_apply, Nat.testBit_div_two_pow, Nat.add_comm]

end Lanes

/-! ## Positions -/

section Positions

variable (p : Nat → Bool) (count : Nat)

theorem countP_range_succ :
    (List.range (count + 1)).countP p = (List.range count).countP p + if p count then 1 else 0 := by
  rw [List.range_succ, List.countP_append, List.countP_singleton]

/-- The positions may be counted from the last one. -/
theorem countP_range_reverse :
    (List.range count).countP p = (List.range count).countP fun i => p (count - 1 - i) := by
  have backwards : (List.range count).reverse = (List.range count).map fun i => count - 1 - i := by
    rw [List.range_eq_range', List.reverse_range', List.range_eq_range', Nat.zero_add]
  rw [← List.countP_reverse, backwards, List.countP_map]
  rfl

/-- The positions before the first one with the property. -/
theorem countP_before_first :
    (List.range count).countP (fun i => decide (∀ j ≤ i, p j = false)) =
      ((List.range count).takeWhile fun i => !p i).length := by
  induction count with
  | zero => rfl
  | succ count ih =>
    rw [countP_range_succ, ih, List.range_succ, List.takeWhile_append]
    by_cases all : ∀ j < count, p j = false
    · have whole : (List.range count).takeWhile (fun i => !p i) = List.range count := by
        rw [List.takeWhile_eq_self_iff]
        intro i inside
        simp [all i (List.mem_range.mp inside)]
      rw [whole, if_pos rfl]
      cases here : p count with
      | true =>
        have notAll : ¬∀ j ≤ count, p j = false := fun none => by
          rw [none count (Nat.le_refl _)] at here
          cases here
        rw [decide_eq_false notAll]
        simp [here]
      | false =>
        have stillAll : ∀ j ≤ count, p j = false := fun j inside => by
          rcases Nat.lt_or_eq_of_le inside with before | rfl
          · exact all j before
          · exact here
        rw [decide_eq_true stillAll]
        simp [here]
    · have notAll : ¬∀ j ≤ count, p j = false := fun none =>
        all fun j before => none j (Nat.le_of_lt before)
      have shorter : ((List.range count).takeWhile fun i => !p i).length ≠
          (List.range count).length := by
        intro same
        have whole := (List.takeWhile_prefix (fun i => !p i)).eq_of_length same
        rw [List.takeWhile_eq_self_iff] at whole
        exact all fun j before => by simpa using whole j (List.mem_range.mpr before)
      rw [if_neg shorter, decide_eq_false notAll]
      rfl

/-- The positions after the first one with the property that have it too. -/
theorem countP_after_first :
    (List.range count).countP (fun i => p i && decide (∃ j < i, p j = true)) +
        (if ∃ j < count, p j = true then 1 else 0) =
      (List.range count).countP p := by
  induction count with
  | zero => simp
  | succ count ih =>
    rw [countP_range_succ, countP_range_succ, ← ih]
    by_cases before : ∃ j < count, p j = true
    · have stillBefore : ∃ j < count + 1, p j = true := by
        rcases before with ⟨j, inside, holds⟩
        exact ⟨j, Nat.lt_succ_of_lt inside, holds⟩
      rw [if_pos before, if_pos stillBefore, decide_eq_true before, Bool.and_true]
      omega
    · rw [if_neg before, decide_eq_false before, Bool.and_false]
      cases here : p count with
      | true =>
        have nowBefore : ∃ j < count + 1, p j = true := ⟨count, Nat.lt_succ_self _, here⟩
        rw [if_pos nowBefore]
        rfl
      | false =>
        have notBefore : ¬∃ j < count + 1, p j = true := by
          rintro ⟨j, inside, holds⟩
          rcases Nat.lt_succ_iff_lt_or_eq.mp inside with earlier | rfl
          · exact before ⟨j, earlier, holds⟩
          · rw [here] at holds
            cases holds
        rw [if_neg notBefore]
        rfl

end Positions

end Horse.Codec
