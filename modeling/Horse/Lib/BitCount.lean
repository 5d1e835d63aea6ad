import Horse.Codec.BitCounting
import Horse.Lib.Util

/-!
# Bit counts

The helpers that count bits of a word are exact for every word.  `pop` adds the bits of each
byte in ever wider fields and then the bytes; `nlz` and `ntz` count the ones of a word that
has them at the leading, or trailing, zeros only; and `count_set_bits` clears the lowest one
bit until none is left.
-/

namespace Horse.Lib

open Horse.Codec

/-- `nlz`. -/
def nlz (x : BitVec 32) : Nat :=
  let x := x ||| (x >>> 1)
  let x := x ||| (x >>> 2)
  let x := x ||| (x >>> 4)
  let x := x ||| (x >>> 8)
  let x := x ||| (x >>> 16)
  pop (~~~x)

theorem and_sub_one_lt {n : BitVec 32} (positive : n ≠ 0) : n &&& (n - 1) < n := by
  have notZero : n.toNat ≠ 0 := fun isZero => positive (BitVec.eq_of_toNat_eq isZero)
  have bound : (n &&& (n - 1)).toNat ≤ (n - 1).toNat := by
    rw [BitVec.toNat_and]
    exact Nat.and_le_right
  have less : (n - 1).toNat = n.toNat - 1 := by
    have := n.isLt
    rw [BitVec.toNat_sub]
    change (2 ^ 32 - 1 + n.toNat) % 2 ^ 32 = _
    omega
  rw [BitVec.lt_def]
  omega

/-- The loop of `count_set_bits`. -/
def countSetBitsLoop (n : BitVec 32) (c : BitVec 32) : BitVec 32 :=
  if 0 < n then countSetBitsLoop (n &&& (n - 1)) (c + 1) else c
termination_by n.toNat
decreasing_by
  apply and_sub_one_lt
  rintro rfl
  contradiction

/-- `count_set_bits`. -/
def countSetBits (n : BitVec 32) : BitVec 8 :=
  (countSetBitsLoop n 0).setWidth 8

/-! ## What is counted -/

/-- The number of one bits. -/
def oneBits (x : BitVec 32) : Nat :=
  (List.range 32).countP x.getLsbD

/-- The number of trailing zero bits, 32 for the word 0. -/
def trailingZeros (x : BitVec 32) : Nat :=
  ((List.range 32).takeWhile fun i => !x.getLsbD i).length

/-- The number of leading zero bits. -/
def leadingZeros (x : BitVec 32) : Nat :=
  ((List.range 32).takeWhile fun i => !x.getLsbD (31 - i)).length

/-! ## Sums in parallel -/

/-- The sums of `pop` in one byte, up to the two halves of the byte. -/
def byteNibbles (byte : Nat) : Nat :=
  let pairs := byte - ((byte >>> 1) &&& 0x55)
  (pairs &&& 0x33) + ((pairs >>> 2) &&& 0x33)

/-- The halves of a byte have at most four one bits each. -/
theorem byteNibbles_spec : ∀ byte < 2 ^ 8,
    byteNibbles byte % 16 ≤ 4 ∧ byteNibbles byte / 16 ≤ 4 ∧
      byteNibbles byte % 16 + byteNibbles byte / 16 = (List.range 8).countP byte.testBit := by
  decide +kernel

/-- After two sums every byte of the word has been treated by itself. -/
theorem nibbles_eq {x pairs nibbles : BitVec 32} (isPairs : pairs = x - ((x >>> 1) &&& 0x55555555))
    (isNibbles : nibbles = (pairs &&& 0x33333333) + ((pairs >>> 2) &&& 0x33333333)) :
    nibbles.toNat = laneMap 8 byteNibbles 4 x.toNat := by
  have whole : laneMap 8 id 4 x.toNat = x.toNat := laneMap_id x.isLt
  have odd : ((x >>> 1) &&& 0x55555555).toNat =
      laneMap 8 (fun byte => (byte >>> 1) &&& 0x55) 4 x.toNat := by
    rw [BitVec.toNat_and, BitVec.toNat_ushiftRight]
    exact @shiftRight_and_laneMap 8 4 x.toNat 1 0x55 (by decide) (by decide) 0
  have below : ∀ byte < 2 ^ 8, (byte >>> 1) &&& 0x55 ≤ byte := by decide +kernel
  have pairsEq : pairs.toNat =
      laneMap 8 (fun byte => byte - ((byte >>> 1) &&& 0x55)) 4 x.toNat := by
    have sum := @laneMap_sub_add 8 4 x.toNat id (fun byte => (byte >>> 1) &&& 0x55) below
    rw [whole, ← odd] at sum
    have := x.isLt
    rw [isPairs, BitVec.toNat_sub]
    simp only [id] at sum
    omega
  have low : (pairs &&& 0x33333333).toNat =
      laneMap 8 (fun byte => byte &&& 0x33) 4 pairs.toNat := by
    rw [BitVec.toNat_and]
    exact @and_laneMap 8 4 pairs.toNat 0x33 (by decide) 0
  have high : ((pairs >>> 2) &&& 0x33333333).toNat =
      laneMap 8 (fun byte => (byte >>> 2) &&& 0x33) 4 pairs.toNat := by
    rw [BitVec.toNat_and, BitVec.toNat_ushiftRight]
    exact @shiftRight_and_laneMap 8 4 pairs.toNat 2 0x33 (by decide) (by decide) 0
  have fits : ∀ byte < 2 ^ 8, byte - ((byte >>> 1) &&& 0x55) < 2 ^ 8 := by
    intro byte isByte
    omega
  have nibblesFit : ∀ byte < 2 ^ 8, byteNibbles byte < 2 ^ 8 := by
    intro byte isByte
    have := byteNibbles_spec byte isByte
    omega
  have sum : (pairs &&& 0x33333333).toNat + ((pairs >>> 2) &&& 0x33333333).toNat =
      laneMap 8 byteNibbles 4 x.toNat := by
    rw [low, high, laneMap_add, pairsEq, laneMap_comp fits]
    rfl
  have total : nibbles.toNat =
      ((pairs &&& 0x33333333).toNat + ((pairs >>> 2) &&& 0x33333333).toNat) % 2 ^ 32 := by
    rw [isNibbles]
    exact BitVec.toNat_add _ _
  rw [total, sum]
  exact Nat.mod_eq_of_lt (laneMap_lt nibblesFit)

/-- The sum of the four bytes of a word comes out as its highest byte. -/
theorem sum_of_bytes {bytes : BitVec 32} {o0 o1 o2 o3 : Nat} (small0 : o0 ≤ 8) (small1 : o1 ≤ 8)
    (small2 : o2 ≤ 8) (small3 : o3 ≤ 8)
    (parts : bytes.toNat = o0 + 2 ^ 8 * (o1 + 2 ^ 8 * (o2 + 2 ^ 8 * o3))) :
    ((bytes + (bytes <<< 8) + ((bytes + (bytes <<< 8)) <<< 16)) >>> 24).toNat =
      o0 + o1 + o2 + o3 := by
  have moved : (bytes <<< 8).toNat = 2 ^ 8 * (o0 + 2 ^ 8 * (o1 + 2 ^ 8 * o2)) := by
    rw [BitVec.toNat_shiftLeft, Nat.shiftLeft_eq, parts]
    omega
  have halves : (bytes + (bytes <<< 8)).toNat =
      o0 + 2 ^ 8 * ((o0 + o1) + 2 ^ 8 * ((o1 + o2) + 2 ^ 8 * (o2 + o3))) := by
    rw [BitVec.toNat_add, moved, parts]
    omega
  have movedHalves : ((bytes + (bytes <<< 8)) <<< 16).toNat =
      2 ^ 16 * (o0 + 2 ^ 8 * (o0 + o1)) := by
    rw [BitVec.toNat_shiftLeft, Nat.shiftLeft_eq, halves]
    omega
  have total : (bytes + (bytes <<< 8) + ((bytes + (bytes <<< 8)) <<< 16)).toNat =
      o0 + 2 ^ 8 * ((o0 + o1) + 2 ^ 8 * ((o0 + o1 + o2) + 2 ^ 8 * (o0 + o1 + o2 + o3))) := by
    rw [BitVec.toNat_add, movedHalves, halves]
    omega
  rw [BitVec.toNat_ushiftRight, total, Nat.shiftRight_eq_div_pow]
  omega

/-- The halves of every byte are added. -/
theorem bytes_of_nibbles {nibbles : BitVec 32} {l0 l1 l2 l3 h0 h1 h2 h3 : Nat}
    (low : l0 ≤ 4 ∧ l1 ≤ 4 ∧ l2 ≤ 4 ∧ l3 ≤ 4) (high : h0 ≤ 4 ∧ h1 ≤ 4 ∧ h2 ≤ 4 ∧ h3 ≤ 4)
    (parts : nibbles.toNat = (l0 + 16 * h0) + 2 ^ 8 * ((l1 + 16 * h1) +
      2 ^ 8 * ((l2 + 16 * h2) + 2 ^ 8 * (l3 + 16 * h3)))) :
    ((nibbles + (nibbles >>> 4)) &&& 0x0F0F0F0F).toNat =
      (l0 + h0) + 2 ^ 8 * ((l1 + h1) + 2 ^ 8 * ((l2 + h2) + 2 ^ 8 * (l3 + h3))) := by
  have moved : (nibbles >>> 4).toNat = (h0 + 16 * l1) + 2 ^ 8 * ((h1 + 16 * l2) +
      2 ^ 8 * ((h2 + 16 * l3) + 2 ^ 8 * h3)) := by
    rw [BitVec.toNat_ushiftRight, Nat.shiftRight_eq_div_pow, parts]
    omega
  have sum : (nibbles + (nibbles >>> 4)).toNat =
      (l0 + h0 + 16 * (h0 + l1)) + 2 ^ 8 * ((l1 + h1 + 16 * (h1 + l2)) +
        2 ^ 8 * ((l2 + h2 + 16 * (h2 + l3)) + 2 ^ 8 * (l3 + h3 + 16 * h3))) := by
    rw [BitVec.toNat_add, moved, parts]
    omega
  have masked : ((nibbles + (nibbles >>> 4)) &&& 0x0F0F0F0F).toNat =
      laneMap 8 (fun byte => byte &&& 0x0F) 4 (nibbles + (nibbles >>> 4)).toNat := by
    rw [BitVec.toNat_and]
    exact @and_laneMap 8 4 _ 0x0F (by decide) 0
  have lowBits : ∀ a b : Nat, a < 16 → (a + 16 * b) &&& 0x0F = a := by
    intro a b small
    rw [show (0x0F : Nat) = 2 ^ 4 - 1 from rfl, Nat.and_two_pow_sub_one_eq_mod]
    omega
  rw [masked, sum, laneMap_cons (by omega), laneMap_cons (by omega), laneMap_cons (by omega),
    laneMap, Nat.mod_eq_of_lt (by omega), lowBits _ _ (by omega), lowBits _ _ (by omega),
    lowBits _ _ (by omega), lowBits _ _ (by omega), laneMap, Nat.mul_zero, Nat.add_zero]

/-- `pop` counts the one bits. -/
theorem pop_eq_oneBits (x : BitVec 32) : pop x = oneBits x := by
  have isByte : ∀ n : Nat, n % 2 ^ 8 < 2 ^ 8 := fun n => Nat.mod_lt _ (by decide)
  have nibbles := @nibbles_eq x _ _ rfl rfl
  simp only [laneMap, Nat.mul_zero, Nat.add_zero] at nibbles
  have spec0 := byteNibbles_spec _ (isByte x.toNat)
  have spec1 := byteNibbles_spec _ (isByte (x.toNat / 2 ^ 8))
  have spec2 := byteNibbles_spec _ (isByte (x.toNat / 2 ^ 8 / 2 ^ 8))
  have spec3 := byteNibbles_spec _ (isByte (x.toNat / 2 ^ 8 / 2 ^ 8 / 2 ^ 8))
  have ones : oneBits x = (List.range (8 + (8 + (8 + (8 + 0))))).countP x.toNat.testBit := rfl
  rw [ones, countP_testBit_lane, countP_testBit_lane, countP_testBit_lane, countP_testBit_lane,
    ← spec0.2.2, ← spec1.2.2, ← spec2.2.2, ← spec3.2.2, List.range_zero, List.countP_nil,
    Nat.add_zero, ← Nat.add_assoc, ← Nat.add_assoc]
  generalize byteNibbles _ = n0, byteNibbles _ = n1, byteNibbles _ = n2, byteNibbles _ = n3 at *
  have halved : ∀ n : Nat, n % 16 + 16 * (n / 16) = n := fun n => Nat.mod_add_div n 16
  have bytes := bytes_of_nibbles ⟨spec0.1, spec1.1, spec2.1, spec3.1⟩
    ⟨spec0.2.1, spec1.2.1, spec2.2.1, spec3.2.1⟩
    (by rw [halved, halved, halved, halved]; exact nibbles)
  exact sum_of_bytes (by omega) (by omega) (by omega) (by omega) bytes

/-! ## Zeros at the ends -/

/-- The bits of a word less one: those above the lowest one bit stay. -/
theorem getLsbD_sub_one (x : BitVec 32) {i : Nat} (inside : i < 32) :
    (x - 1).getLsbD i = (x.getLsbD i == decide (∃ j < i, x.getLsbD j = true)) := by
  rw [show x - 1 = ~~~(-x) from (BitVec.not_neg x).symm, BitVec.getLsbD_not, BitVec.getLsbD_neg,
    decide_eq_true inside, Bool.true_and, Bool.true_and]
  cases x.getLsbD i <;> cases decide (∃ j < i, x.getLsbD j = true) <;> rfl

/-- `ntz` counts the trailing zeros. -/
theorem ntz_eq_trailingZeros (x : BitVec 32) : ntz x = trailingZeros x := by
  rw [ntz, pop_eq_oneBits, oneBits, trailingZeros, ← countP_before_first]
  apply List.countP_congr
  intro i isIndex
  have inside := List.mem_range.mp isIndex
  rw [BitVec.getLsbD_and, BitVec.getLsbD_not, getLsbD_sub_one x inside, decide_eq_true inside,
    decide_eq_true_iff]
  constructor
  · intro marked
    cases here : x.getLsbD i with
    | true =>
      rw [here] at marked
      cases marked
    | false =>
      have noneBelow : ¬∃ j < i, x.getLsbD j = true := by
        simpa [here] using marked
      intro j atMost
      rcases Nat.lt_or_eq_of_le atMost with below | rfl
      · exact Bool.eq_false_iff.mpr fun isOne => noneBelow ⟨j, below, isOne⟩
      · exact here
  · intro clear
    have noneBelow : ¬∃ j < i, x.getLsbD j = true := by
      rintro ⟨j, below, isOne⟩
      rw [clear j (Nat.le_of_lt below)] at isOne
      cases isOne
    rw [clear i (Nat.le_refl i), decide_eq_false noneBelow]
    rfl

/-- A word in which every one bit has been copied to the places below it. -/
def Smeared (x smeared : BitVec 32) (width : Nat) : Prop :=
  ∀ i, smeared.getLsbD i = decide (∃ j < width, x.getLsbD (i + j) = true)

theorem smeared_one (x : BitVec 32) : Smeared x x 1 := by
  intro i
  cases here : x.getLsbD i with
  | true => exact (decide_eq_true ⟨0, Nat.one_pos, here⟩).symm
  | false =>
    symm
    rw [decide_eq_false_iff_not]
    rintro ⟨j, isZero, isOne⟩
    rw [Nat.lt_one_iff.mp isZero, Nat.add_zero, here] at isOne
    cases isOne

/-- A shifted copy doubles the width. -/
theorem Smeared.double {x smeared : BitVec 32} {width : Nat} (copied : Smeared x smeared width) :
    Smeared x (smeared ||| (smeared >>> width)) (2 * width) := by
  intro i
  rw [BitVec.getLsbD_or, BitVec.getLsbD_ushiftRight, copied i, copied (width + i),
    ← Bool.decide_or]
  apply decide_eq_decide.mpr
  constructor
  · rintro (⟨j, inside, isOne⟩ | ⟨j, inside, isOne⟩)
    · exact ⟨j, by omega, isOne⟩
    · exact ⟨width + j, by omega, by rw [← isOne]; congr 1; omega⟩
  · rintro ⟨j, inside, isOne⟩
    by_cases low : j < width
    · exact .inl ⟨j, low, isOne⟩
    · exact .inr ⟨j - width, by omega, by rw [← isOne]; congr 1; omega⟩

/-- `nlz` counts the leading zeros. -/
theorem nlz_eq_leadingZeros (x : BitVec 32) : nlz x = leadingZeros x := by
  have copied := (smeared_one x).double.double.double.double.double
  rw [nlz, pop_eq_oneBits, oneBits, leadingZeros, countP_range_reverse,
    ← countP_before_first fun i => x.getLsbD (31 - i)]
  apply List.countP_congr
  intro i isIndex
  have inside := List.mem_range.mp isIndex
  rw [BitVec.getLsbD_not, decide_eq_true (show 32 - 1 - i < 32 by omega), Bool.true_and, copied,
    Bool.not_eq_true', decide_eq_false_iff_not, decide_eq_true_iff]
  constructor
  · intro noneAbove j atMost
    apply Bool.eq_false_iff.mpr
    intro isOne
    exact noneAbove ⟨i - j, by omega, by rw [← isOne]; congr 1; omega⟩
  · rintro clear ⟨j, _, isOne⟩
    by_cases above : j ≤ i
    · have isZero := clear (i - j) (by omega)
      rw [show 31 - (i - j) = 32 - 1 - i + j by omega, isOne] at isZero
      cases isZero
    · rw [BitVec.getLsbD_of_ge x _ (by omega)] at isOne
      cases isOne

/-! ## Clearing the lowest one bit -/

theorem oneBits_and_sub_one {n : BitVec 32} (positive : n ≠ 0) :
    oneBits (n &&& (n - 1)) + 1 = oneBits n := by
  have someBit : ∃ j < 32, n.getLsbD j = true := by
    refine Decidable.byContradiction fun noBit => positive (BitVec.eq_of_getLsbD_eq ?_)
    intro i inside
    rw [show (0 : BitVec 32) = 0#32 from rfl, BitVec.getLsbD_zero]
    exact Bool.eq_false_iff.mpr fun isOne => noBit ⟨i, inside, isOne⟩
  have counted := countP_after_first n.getLsbD 32
  rw [if_pos someBit] at counted
  rw [oneBits, oneBits, ← counted]
  congr 1
  apply List.countP_congr
  intro i isIndex
  rw [BitVec.getLsbD_and, getLsbD_sub_one n (List.mem_range.mp isIndex)]
  cases n.getLsbD i <;> simp

theorem countSetBitsLoop_eq (n c : BitVec 32) :
    countSetBitsLoop n c = c + BitVec.ofNat 32 (oneBits n) := by
  induction n, c using countSetBitsLoop.induct with
  | case1 n c positive ih =>
    have notZero : n ≠ 0 := by
      rintro rfl
      contradiction
    rw [countSetBitsLoop, if_pos positive, ih, ← oneBits_and_sub_one notZero, BitVec.ofNat_add,
      BitVec.add_assoc, BitVec.add_comm 1]
    rfl
  | case2 n c isZero =>
    have zero : n = 0 := by
      apply BitVec.eq_of_toNat_eq
      rw [BitVec.lt_def] at isZero
      change n.toNat = 0
      change ¬0 < n.toNat at isZero
      omega
    have noBits : oneBits 0 = 0 := by decide
    rw [countSetBitsLoop, if_neg isZero, zero, noBits]
    exact (BitVec.add_zero c).symm

/-- `count_set_bits` counts the one bits. -/
theorem countSetBits_eq_oneBits (n : BitVec 32) : (countSetBits n).toNat = oneBits n := by
  have few : oneBits n ≤ 32 := List.countP_le_length
  rw [countSetBits, countSetBitsLoop_eq, BitVec.toNat_setWidth]
  change (0#32 + _).toNat % 2 ^ 8 = _
  rw [BitVec.zero_add, BitVec.toNat_ofNat]
  omega

/-! ## Netmasks -/

/-- All bits above a one bit are one bits. -/
def TopOnes (x : BitVec 32) : Prop :=
  ∀ i j, i ≤ j → j < 32 → x.getLsbD i = true → x.getLsbD j = true

/-- The trailing zeros of a netmask are all its zeros. -/
theorem oneBits_add_trailingZeros {x : BitVec 32} (topOnes : TopOnes x) :
    oneBits x + trailingZeros x = 32 := by
  have zeros : trailingZeros x = (List.range 32).countP fun i => !x.getLsbD i := by
    rw [trailingZeros, ← countP_before_first]
    apply List.countP_congr
    intro i isIndex
    rw [decide_eq_true_iff, Bool.not_eq_true']
    constructor
    · intro clear
      exact clear i (Nat.le_refl i)
    · intro isZero j atMost
      apply Bool.eq_false_iff.mpr
      intro isOne
      rw [topOnes j i atMost (List.mem_range.mp isIndex) isOne] at isZero
      cases isZero
  have all : 32 = oneBits x + (List.range 32).countP fun i => decide ¬x.getLsbD i = true :=
    List.length_range.symm.trans (List.length_eq_countP_add_countP x.getLsbD)
  rw [zeros]
  refine Eq.trans ?_ all.symm
  congr 1
  apply List.countP_congr
  intro i _
  rw [Bool.not_eq_true', decide_eq_true_iff, Bool.not_eq_true]

end Horse.Lib
