import Horse.Net.Node
import Horse.Transition.Run

/-!
# The arithmetic of ports

The transmission time of a netflow is computed from the speed of the port in kilobits per
second, which is first made bits per microsecond in 32 bits.  The load of a port is an
`int` that all netflows on the port are added to.  Both leave the range in which they are
exact.
-/

namespace Horse.Net

open Horse.Lib Horse.Transition

/-! ## Transmission times -/

/-- The divisor of `netflow_update_send_time`. -/
def bitsPerMicrosecond (portSpeed : BitVec 32) : Nat :=
  (portSpeed * 1000).toNat / 1000000

theorem txTime_eq (byteCnt : Nat) (portSpeed : BitVec 32) :
    txTime byteCnt portSpeed =
      if bitsPerMicrosecond portSpeed = 0 then none
      else some (byteCnt * 8 % 2 ^ 64 / bitsPerMicrosecond portSpeed) :=
  rfl

/-- The speeds that are converted without loss. -/
def ExactSpeed (portSpeed : BitVec 32) : Prop :=
  1000 ≤ portSpeed.toNat ∧ portSpeed.toNat ≤ 4294967

instance (portSpeed : BitVec 32) : Decidable (ExactSpeed portSpeed) :=
  inferInstanceAs (Decidable (_ ∧ _))

/-- A port converts its speed without wrapping around, to something that can be divided by,
and charges a netflow the quotient. -/
structure ExactTx (node : Node) (port : BitVec 32) (portSpeed : BitVec 32) (nf : Netflow) :
    Prop where
  unwrapped : bitsPerMicrosecond portSpeed = portSpeed.toNat / 1000
  nonzero : bitsPerMicrosecond portSpeed ≠ 0
  charged : ∀ sum, nodeAddTxTime sum node port nf =
    nf.delay sum (nf.byteCnt * 8 / (portSpeed.toNat / 1000))

theorem bitsPerMicrosecond_eq (portSpeed : BitVec 32) :
    bitsPerMicrosecond portSpeed = portSpeed.toNat * 1000 % 2 ^ 32 / 1000000 := by
  have thousand : (1000 : BitVec 32).toNat = 1000 := rfl
  rw [bitsPerMicrosecond, BitVec.toNat_mul, thousand]

/-- Where the product wraps around, the quotient is not that of the speed. -/
theorem bitsPerMicrosecond_ne {portSpeed : BitVec 32} (large : 4294967 < portSpeed.toNat) :
    bitsPerMicrosecond portSpeed ≠ portSpeed.toNat / 1000 := by
  rw [bitsPerMicrosecond_eq]
  generalize portSpeed.toNat = speed at large
  intro same
  have small : speed * 1000 % 2 ^ 32 / 1000000 ≤ 4294 := by omega
  have wrapped : speed * 1000 % 2 ^ 32 = speed * 1000 - 2 ^ 32 := by
    have once : speed * 1000 / 2 ^ 32 = 1 := by omega
    omega
  omega

theorem exactSpeed_iff (portSpeed : BitVec 32) :
    ExactSpeed portSpeed ↔
      bitsPerMicrosecond portSpeed = portSpeed.toNat / 1000 ∧ bitsPerMicrosecond portSpeed ≠ 0 := by
  by_cases large : 4294967 < portSpeed.toNat
  · refine iff_of_false ?_ fun exact => bitsPerMicrosecond_ne large exact.1
    intro exact
    exact Nat.not_lt.mpr exact.2 large
  · have fits : portSpeed.toNat * 1000 < 2 ^ 32 := by omega
    have unwrapped : bitsPerMicrosecond portSpeed = portSpeed.toNat / 1000 := by
      rw [bitsPerMicrosecond_eq, Nat.mod_eq_of_lt fits]
      exact Nat.mul_div_mul_right _ 1000 (by decide)
    rw [unwrapped, and_iff_right rfl, ExactSpeed, and_iff_left (Nat.not_lt.mp large)]
    omega

theorem txTime_of_exactSpeed {portSpeed : BitVec 32} (exact : ExactSpeed portSpeed)
    {byteCnt : Nat} (fits : byteCnt * 8 < 2 ^ 64) :
    txTime byteCnt portSpeed = some (byteCnt * 8 / (portSpeed.toNat / 1000)) := by
  obtain ⟨unwrapped, nonzero⟩ := (exactSpeed_iff portSpeed).mp exact
  rw [txTime_eq, if_neg nonzero, unwrapped, Nat.mod_eq_of_lt fits]

theorem exactTx_iff {node : Node} {port : BitVec 32} {p : Port}
    (found : nodePort node port = some p) {nf : Netflow} (fits : nf.byteCnt * 8 < 2 ^ 64) :
    ExactTx node port p.currSpeed nf ↔ ExactSpeed p.currSpeed := by
  constructor
  · intro exact
    exact (exactSpeed_iff p.currSpeed).mpr ⟨exact.unwrapped, exact.nonzero⟩
  · intro exact
    obtain ⟨unwrapped, nonzero⟩ := (exactSpeed_iff p.currSpeed).mp exact
    refine ⟨unwrapped, nonzero, fun sum => ?_⟩
    rw [nodeAddTxTime, found]
    dsimp only
    rw [netflowUpdateSendTime, txTime_of_exactSpeed exact fits, Option.bind_some]

/-- For two ports of a node, a slower and a faster one, both conversions are exact and the
faster one takes no longer, exactly if the speeds are in the range. -/
theorem exactTx_pair_iff (node : Node) (slow fast : BitVec 32) (slowPort fastPort : Port)
    (isSlow : nodePort node slow = some slowPort) (isFast : nodePort node fast = some fastPort)
    (order : slowPort.currSpeed ≤ fastPort.currSpeed) (nf : Netflow)
    (fits : nf.byteCnt * 8 < 2 ^ 64) :
    (ExactTx node slow slowPort.currSpeed nf ∧ ExactTx node fast fastPort.currSpeed nf ∧
        ∃ slowTx fastTx, txTime nf.byteCnt slowPort.currSpeed = some slowTx ∧
          txTime nf.byteCnt fastPort.currSpeed = some fastTx ∧ fastTx ≤ slowTx) ↔
      1000 ≤ slowPort.currSpeed.toNat ∧ fastPort.currSpeed.toNat ≤ 4294967 := by
  have ordered : slowPort.currSpeed.toNat ≤ fastPort.currSpeed.toNat := BitVec.le_def.mp order
  rw [exactTx_iff isSlow fits, exactTx_iff isFast fits]
  constructor
  · rintro ⟨exactSlow, exactFast, -⟩
    exact ⟨exactSlow.1, exactFast.2⟩
  · rintro ⟨notSlow, notFast⟩
    have exactSlow : ExactSpeed slowPort.currSpeed := ⟨notSlow, ordered.trans notFast⟩
    have exactFast : ExactSpeed fastPort.currSpeed := ⟨notSlow.trans ordered, notFast⟩
    refine ⟨exactSlow, exactFast, _, _, txTime_of_exactSpeed exactSlow fits,
      txTime_of_exactSpeed exactFast fits, ?_⟩
    -- A larger divisor gives a smaller quotient.
    have positive : 0 < slowPort.currSpeed.toNat / 1000 := Nat.div_pos notSlow (by decide)
    exact Nat.div_le_div_left (Nat.div_le_div_right ordered) positive

/-- A node with two ports. -/
def twoSpeeds (slow fast : BitVec 32) : Node :=
  { nodeInit 1 with ports := [portNew 2 0 fast, portNew 1 0 slow] }

/-- A megabyte at 10 megabits and at a gigabit per second. -/
theorem exactTx_pair_megabyte :
    ExactTx (twoSpeeds 10000 1000000) 1 10000 { netflowNew with byteCnt := 1000000 } :=
  ((exactTx_pair_iff (twoSpeeds 10000 1000000) 1 2 _ _ rfl rfl (by decide)
    { netflowNew with byteCnt := 1000000 } (by decide)).mpr (by decide)).1

/-- A port with less than a megabit per second makes the division trap, and a port with 10
gigabits per second is slower than one with 4. -/
theorem txTime_inexact :
    nodeAddTxTime wrappingSum (twoSpeeds 999 999) 1 netflowNew = none ∧
      txTime 1000000 4000000 = some 2000 ∧ txTime 1000000 10000000 = some 5673 := by
  decide

/-! ## Loads -/

/-- `buffer_state_init`. -/
def bufferStateInit : BufferState :=
  ⟨0, 0⟩

/-- `INT_MAX`. -/
def intMax : Int := 2 ^ 31 - 1

/-- `buffer_state_update_capacity` as a step. -/
def updateLoad : Step BufferState Int :=
  bufferStateUpdateCapacity

/-- The sum of the load and the rate is an `int`, the load does not become negative, and the
loss is what exceeds the capacity and the bandwidth, an `int` as well. -/
def LoadExact (ts : BufferState) (bits : Int) : Prop :=
  (-intMax - 1 ≤ ts.load + bits ∧ ts.load + bits ≤ intMax) ∧
    ∃ after, updateLoad ts bits = some after ∧ 0 ≤ after.load ∧
      ∀ bw : BitVec 32, 0 ≤ bufferStateCalculateLoss after bw ∧
        bufferStateCalculateLoss after bw ≤ intMax ∧
        bufferStateCalculateLoss after bw = max 0 (after.load - after.capacity - bw.toNat)

variable {ts : BufferState} {bits : Int}

theorem updateLoad_eq_some_iff {after : BufferState} :
    updateLoad ts bits = some after ↔
      (-intMax - 1 ≤ ts.load + bits ∧ ts.load + bits ≤ intMax) ∧
        after = { ts with load := max 0 (ts.load + bits) } := by
  simp only [updateLoad, bufferStateUpdateCapacity, intMax]
  split
  · refine iff_of_false nofun fun inside => ?_
    omega
  · rename_i inside
    have range : -(2 ^ 31 - 1) - 1 ≤ ts.load + bits ∧ ts.load + bits ≤ 2 ^ 31 - 1 := by omega
    rw [and_iff_right range]
    split
    · rename_i negative
      rw [max_eq_left (Int.le_of_lt negative), Option.some.injEq, eq_comm]
    · rename_i notNegative
      rw [max_eq_right (Int.not_lt.mp notNegative), Option.some.injEq, eq_comm]

theorem bufferStateCalculateLoss_eq (ts : BufferState) (bw : BitVec 32) :
    bufferStateCalculateLoss ts bw = max 0 (ts.load - ts.capacity - bw.toNat) := by
  simp only [bufferStateCalculateLoss]
  split <;> omega

/-- The load of a port whose state was never anything else than initialised and updated. -/
structure LoadBounded (ts : BufferState) : Prop where
  capacity : ts.capacity = 0
  nonneg : 0 ≤ ts.load
  bounded : ts.load ≤ intMax

theorem LoadBounded.step {after : BufferState} (bounded : LoadBounded ts)
    (updated : updateLoad ts bits = some after) : LoadBounded after := by
  obtain ⟨range, rfl⟩ := updateLoad_eq_some_iff.mp updated
  refine ⟨bounded.capacity, Int.le_max_left _ _, Int.max_le.mpr ⟨by decide, range.2⟩⟩

/-- An update is exact if the load has room for the rate. -/
theorem loadExact_iff (bounded : LoadBounded ts) (rate : -intMax ≤ bits) :
    LoadExact ts bits ↔ ts.load + bits ≤ intMax := by
  constructor
  · intro exact
    exact exact.1.2
  · intro room
    have low : -intMax - 1 ≤ ts.load + bits := by
      have nonneg := bounded.nonneg
      omega
    have updated := updateLoad_eq_some_iff.mpr ⟨⟨low, room⟩, rfl⟩
    have later := bounded.step updated
    refine ⟨⟨low, room⟩, _, updated, later.nonneg, fun bw => ?_⟩
    rw [bufferStateCalculateLoss_eq]
    refine ⟨Int.le_max_left _ _, Int.max_le.mpr ⟨by decide, ?_⟩, rfl⟩
    have small := later.bounded
    have noCapacity := later.capacity
    omega

/-- A load has room for the prefixes of some rates if it has room for the first, and what is
left of it then for those of the others: a load that was cut off at zero starts again there,
and the prefixes are segments. -/
theorem room_cons_iff {load : Int} {rest : List Int} (bounded : load ≤ intMax)
    (segments : ∀ segment, segment <:+: rest → segment.sum ≤ intMax) :
    (∀ first, first <+: bits :: rest → load + first.sum ≤ intMax) ↔
      load + bits ≤ intMax ∧
        ∀ first, first <+: rest → max 0 (load + bits) + first.sum ≤ intMax := by
  constructor
  · intro firsts
    have room := firsts [bits] (by simp)
    rw [List.sum_singleton] at room
    refine ⟨room, fun first isFirst => ?_⟩
    have whole := firsts (bits :: first) (List.cons_prefix_cons.mpr ⟨rfl, isFirst⟩)
    have alone := segments first isFirst.isInfix
    rw [List.sum_cons] at whole
    omega
  · rintro ⟨-, later⟩ first isFirst
    rcases List.prefix_cons_iff.mp isFirst with rfl | ⟨tail, rfl, isTail⟩
    · rw [List.sum_nil, Int.add_zero]
      exact bounded
    · have tailFits := later tail isTail
      rw [List.sum_cons]
      omega

/-- From a load on, the updates are exact if it has room for the sum of every prefix of the
rates, and `INT_MAX` for that of every contiguous segment of them. -/
theorem LoadBounded.along_iff (bounded : LoadBounded ts) {rates : List Int}
    (inRange : ∀ bits ∈ rates, -intMax ≤ bits) :
    Along updateLoad LoadExact ts rates ↔
      (∀ first, first <+: rates → ts.load + first.sum ≤ intMax) ∧
        ∀ segment, segment <:+: rates → segment.sum ≤ intMax := by
  induction rates generalizing ts with
  | nil =>
    have small := bounded.bounded
    simp only [Along, List.prefix_nil, List.infix_nil, forall_eq, List.sum_nil, true_iff]
    exact ⟨by omega, by decide⟩
  | cons bits rest ih =>
    obtain ⟨rate, inRest⟩ := List.forall_mem_cons.mp inRange
    have nonneg := bounded.nonneg
    rw [Along, loadExact_iff bounded rate]
    constructor
    · rintro ⟨room, later⟩
      have updated := updateLoad_eq_some_iff.mpr ⟨⟨by omega, room⟩, rfl⟩
      obtain ⟨firsts, segments⟩ := (ih (bounded.step updated) inRest).mp (later _ updated)
      have fits := (room_cons_iff bounded.bounded segments).mpr ⟨room, firsts⟩
      refine ⟨fits, fun segment isSegment => ?_⟩
      rcases List.infix_cons_iff.mp isSegment with isFirst | inside
      · have segmentFits := fits segment isFirst
        omega
      · exact segments segment inside
    · rintro ⟨firsts, segments⟩
      have inside : ∀ segment, segment <:+: rest → segment.sum ≤ intMax := fun segment inRest =>
        segments segment (List.infix_cons inRest)
      obtain ⟨room, later⟩ := (room_cons_iff bounded.bounded inside).mp firsts
      refine ⟨room, fun after updated => (ih (bounded.step updated) inRest).mpr ⟨?_, inside⟩⟩
      obtain ⟨-, rfl⟩ := updateLoad_eq_some_iff.mp updated
      exact later

/-- Updates by rates from `-INT_MAX` to `INT_MAX` are all exact, exactly if no contiguous
segment of the rates has a sum above `INT_MAX`. -/
theorem loadExact_along_iff (rates : List Int)
    (inRange : ∀ bits ∈ rates, -intMax ≤ bits ∧ bits ≤ intMax) :
    Along updateLoad LoadExact bufferStateInit rates ↔
      ∀ segment, segment <:+: rates → segment.sum ≤ intMax := by
  have bounded : LoadBounded bufferStateInit := ⟨rfl, Int.le_refl 0, by decide⟩
  rw [bounded.along_iff fun bits inside => (inRange bits inside).1]
  refine and_iff_right_of_imp fun segments first isFirst => ?_
  rw [show bufferStateInit.load = 0 from rfl, Int.zero_add]
  exact segments first isFirst.isInfix

/-- Two gigabits come, and one of them goes before a third comes. -/
theorem loadExact_along_gigabits :
    Along updateLoad LoadExact bufferStateInit
      [1000000000, 1000000000, -1000000000, 1000000000] := by
  apply (loadExact_along_iff [1000000000, 1000000000, -1000000000, 1000000000] (by decide)).mpr
  intro segment inside
  simp only [List.infix_cons_iff, List.prefix_cons_iff, List.prefix_nil, List.infix_nil] at inside
  -- Every segment is one of finitely many lists.
  grind [intMax]

/-- Two large netflows on one port. -/
theorem two_loads_overflow : run updateLoad bufferStateInit [intMax, intMax] = none := by
  decide

end Horse.Net
