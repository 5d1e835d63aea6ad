import Horse.Lib.KeyAlgebra
import Mathlib.Data.BitVec

/-!
# Packing for the controller

LOCI keeps a match in two structures of fields, one for the values and one for the mask.
The flow keys are copied into them and out of them field by field.  The copy into them
leaves out one field, which keeps what the structure held before.  A reply with aggregate
statistics has three counters; the one for bytes is never set.
-/

namespace Horse.Lib

/-! ## The fields of a match -/

/-- The fields of LOCI's `of_match_fields_t` that flow keys are copied to. -/
structure OfMatchFields where
  inPort : BitVec 32
  inPhyPort : BitVec 32
  metadata : BitVec 64
  ethDst : BitVec 48
  ethSrc : BitVec 48
  ethType : BitVec 16
  vlanVid : BitVec 16
  vlanPcp : BitVec 8
  ipDscp : BitVec 8
  ipEcn : BitVec 8
  ipProto : BitVec 8
  ipv4Src : BitVec 32
  ipv4Dst : BitVec 32
  tcpSrc : BitVec 16
  tcpDst : BitVec 16
  udpSrc : BitVec 16
  udpDst : BitVec 16
  sctpSrc : BitVec 16
  sctpDst : BitVec 16
  icmpv4Type : BitVec 8
  icmpv4Code : BitVec 8
  arpOp : BitVec 16
  arpSpa : BitVec 32
  arpTpa : BitVec 32
  arpSha : BitVec 48
  arpTha : BitVec 48
  ipv6Src : BitVec 128
  ipv6Dst : BitVec 128
  ipv6Flabel : BitVec 32
  icmpv6Type : BitVec 8
  icmpv6Code : BitVec 8
  ipv6NdTarget : BitVec 128
  ipv6NdSll : BitVec 48
  ipv6NdTll : BitVec 48
  mplsLabel : BitVec 32
  mplsTc : BitVec 8
  mplsBos : BitVec 8
  tunnelId : BitVec 64

/-- The fields after `memset`. -/
def OfMatchFields.zero : OfMatchFields where
  inPort := 0
  inPhyPort := 0
  metadata := 0
  ethDst := 0
  ethSrc := 0
  ethType := 0
  vlanVid := 0
  vlanPcp := 0
  ipDscp := 0
  ipEcn := 0
  ipProto := 0
  ipv4Src := 0
  ipv4Dst := 0
  tcpSrc := 0
  tcpDst := 0
  udpSrc := 0
  udpDst := 0
  sctpSrc := 0
  sctpDst := 0
  icmpv4Type := 0
  icmpv4Code := 0
  arpOp := 0
  arpSpa := 0
  arpTpa := 0
  arpSha := 0
  arpTha := 0
  ipv6Src := 0
  ipv6Dst := 0
  ipv6Flabel := 0
  icmpv6Type := 0
  icmpv6Code := 0
  ipv6NdTarget := 0
  ipv6NdSll := 0
  ipv6NdTll := 0
  mplsLabel := 0
  mplsTc := 0
  mplsBos := 0
  tunnelId := 0

/-- `pack_match_fields`. -/
def packMatchFields (key : OflFlowKey) (fields : OfMatchFields) : OfMatchFields where
  inPort := key.inPort
  inPhyPort := key.inPhyPort
  metadata := key.metadata
  tunnelId := key.tunnelId
  ethDst := key.ethDst
  ethSrc := key.ethSrc
  ethType := key.ethType
  vlanVid := key.vlanId
  vlanPcp := key.vlanPcp
  ipDscp := key.ipDscp
  ipEcn := key.ipEcn
  ipProto := key.ipProto
  ipv4Src := key.ipv4Src
  ipv4Dst := key.ipv4Dst
  tcpSrc := key.tcpSrc
  tcpDst := key.tcpDst
  udpSrc := key.udpSrc
  udpDst := key.udpDst
  sctpSrc := key.sctpSrc
  sctpDst := key.sctpDst
  icmpv4Type := key.icmpv4Type
  icmpv4Code := key.icmpv4Code
  arpOp := key.arpOp
  arpSpa := key.arpSpa
  arpTpa := key.arpTpa
  arpSha := key.arpSha
  arpTha := key.arpTha
  ipv6Src := key.ipv6Src
  ipv6Dst := key.ipv6Dst
  ipv6Flabel := key.ipv6Flabel
  icmpv6Type := key.icmpv6Type
  -- The source assigns the field to itself.
  icmpv6Code := fields.icmpv6Code
  ipv6NdTarget := key.ipv6NdTarget
  ipv6NdSll := key.ipv6NdSll
  ipv6NdTll := key.ipv6NdTll
  mplsLabel := key.mplsLabel
  mplsTc := key.mplsTc
  mplsBos := key.mplsBos

/-- `unpack_match_fields`; every field of the target is overwritten. -/
def unpackMatchFields (fields : OfMatchFields) (_target : OflFlowKey) : OflFlowKey where
  inPort := fields.inPort
  inPhyPort := fields.inPhyPort
  metadata := fields.metadata
  tunnelId := fields.tunnelId
  ethDst := fields.ethDst
  ethSrc := fields.ethSrc
  ethType := fields.ethType
  vlanId := fields.vlanVid
  vlanPcp := fields.vlanPcp
  ipDscp := fields.ipDscp
  ipEcn := fields.ipEcn
  ipProto := fields.ipProto
  ipv4Src := fields.ipv4Src
  ipv4Dst := fields.ipv4Dst
  tcpSrc := fields.tcpSrc
  tcpDst := fields.tcpDst
  udpSrc := fields.udpSrc
  udpDst := fields.udpDst
  sctpSrc := fields.sctpSrc
  sctpDst := fields.sctpDst
  icmpv4Type := fields.icmpv4Type
  icmpv4Code := fields.icmpv4Code
  arpOp := fields.arpOp
  arpSpa := fields.arpSpa
  arpTpa := fields.arpTpa
  arpSha := fields.arpSha
  arpTha := fields.arpTha
  ipv6Src := fields.ipv6Src
  ipv6Dst := fields.ipv6Dst
  ipv6Flabel := fields.ipv6Flabel
  icmpv6Type := fields.icmpv6Type
  icmpv6Code := fields.icmpv6Code
  ipv6NdTarget := fields.ipv6NdTarget
  ipv6NdSll := fields.ipv6NdSll
  ipv6NdTll := fields.ipv6NdTll
  mplsLabel := fields.mplsLabel
  mplsTc := fields.mplsTc
  mplsBos := fields.mplsBos

/-- What comes back is the key, with the code of ICMPv6 that was in the fields before. -/
theorem unpackMatchFields_packMatchFields (key : OflFlowKey) (fields : OfMatchFields)
    (target : OflFlowKey) :
    unpackMatchFields (packMatchFields key fields) target =
      key.assign .icmpv6Code fields.icmpv6Code :=
  rfl

/-- A key comes back just if the fields have held its code of ICMPv6 before. -/
theorem match_fields_return_iff (key : OflFlowKey) (fields : OfMatchFields)
    (target : OflFlowKey) :
    unpackMatchFields (packMatchFields key fields) target = key ↔
      fields.icmpv6Code = key.icmpv6Code := by
  rw [unpackMatchFields_packMatchFields]
  exact OflFlowKey.assign_eq_self_iff.trans eq_comm

/-- The code of ICMPv6 is lost in zeroed fields. -/
theorem icmpv6Code_lost :
    unpackMatchFields
        (packMatchFields { OflFlowKey.zero with icmpv6Code := 1 } OfMatchFields.zero)
        OflFlowKey.zero ≠ { OflFlowKey.zero with icmpv6Code := 1 } := by
  decide

/-! ## Aggregate statistics -/

/-- LOCI's `of_aggregate_stats_reply_t`: the counters have 64, 64 and 32 bits. -/
structure OfAggregateStatsReply where
  xid : BitVec 32
  packetCount : Nat
  byteCount : Nat
  flowCount : Nat
  deriving DecidableEq, Repr

/-- `of_aggregate_stats_reply_new`: the bytes of the new object are zero. -/
def ofAggregateStatsReplyNew : OfAggregateStatsReply := ⟨0, 0, 0, 0⟩

/-- `of_aggregate_stats_reply_xid_set`. -/
def OfAggregateStatsReply.xidSet (reply : OfAggregateStatsReply) (xid : BitVec 32) :
    OfAggregateStatsReply :=
  { reply with xid := xid }

/-- `of_aggregate_stats_reply_packet_count_set`. -/
def OfAggregateStatsReply.packetCountSet (reply : OfAggregateStatsReply) (count : Nat) :
    OfAggregateStatsReply :=
  { reply with packetCount := count % 2 ^ 64 }

/-- `of_aggregate_stats_reply_flow_count_set`. -/
def OfAggregateStatsReply.flowCountSet (reply : OfAggregateStatsReply) (count : Nat) :
    OfAggregateStatsReply :=
  { reply with flowCount := count % 2 ^ 32 }

/-- The loop of `pack_aggregate_stats_reply` over the flows. -/
def sumCounts (flows : List Flow) (pktCnt byteCnt : Nat) : Nat × Nat :=
  match flows with
  | [] => (pktCnt, byteCnt)
  | f :: rest =>
    sumCounts rest ((pktCnt + f.pktCnt) % 2 ^ 64) ((byteCnt + f.byteCnt) % 2 ^ 64)

/-- `pack_aggregate_stats_reply`. -/
def packAggregateStatsReply (flows : List Flow) (xid : BitVec 32) : OfAggregateStatsReply :=
  let reply := (ofAggregateStatsReplyNew.xidSet xid).flowCountSet flows.length
  let (pktCnt, byteCnt) := sumCounts flows 0 0
  -- The source calls the setter of the packets for the bytes, too.
  (reply.packetCountSet pktCnt).packetCountSet byteCnt

/-- The sums wrap as sums modulo 2^64 do. -/
theorem sumCounts_eq {flows : List Flow} {pktCnt byteCnt : Nat} (pktBound : pktCnt < 2 ^ 64)
    (byteBound : byteCnt < 2 ^ 64) :
    sumCounts flows pktCnt byteCnt =
      ((pktCnt + (flows.map Flow.pktCnt).sum) % 2 ^ 64,
        (byteCnt + (flows.map Flow.byteCnt).sum) % 2 ^ 64) := by
  induction flows generalizing pktCnt byteCnt with
  | nil =>
    rw [sumCounts]
    exact Prod.ext (Nat.mod_eq_of_lt pktBound).symm (Nat.mod_eq_of_lt byteBound).symm
  | cons f rest ih =>
    rw [sumCounts, ih (Nat.mod_lt _ (by decide)) (Nat.mod_lt _ (by decide)),
      List.map_cons, List.map_cons, List.sum_cons, List.sum_cons, Nat.mod_add_mod,
      Nat.mod_add_mod, Nat.add_assoc, Nat.add_assoc]

/-- The counters of a reply are those of the flows. -/
structure Aggregates (flows : List Flow) (reply : OfAggregateStatsReply) : Prop where
  flowCount : reply.flowCount = flows.length
  packetCount : reply.packetCount = (flows.map Flow.pktCnt).sum % 2 ^ 64
  byteCount : reply.byteCount = (flows.map Flow.byteCnt).sum % 2 ^ 64

/-- The reply has the sum of the bytes in the place of the packets, and no bytes. -/
theorem packAggregateStatsReply_eq (flows : List Flow) (xid : BitVec 32) :
    packAggregateStatsReply flows xid =
      { xid := xid
        packetCount := (flows.map Flow.byteCnt).sum % 2 ^ 64
        byteCount := 0
        flowCount := flows.length % 2 ^ 32 } := by
  rw [packAggregateStatsReply, sumCounts_eq (by decide) (by decide), Nat.zero_add,
    Nat.zero_add]
  exact congrArg (OfAggregateStatsReply.mk xid · 0 _) (Nat.mod_mod _ _)

/-- The counters of a reply are those of the flows just if the flows have no packets and
no bytes and their number fits. -/
theorem aggregate_stats_iff (flows : List Flow) (xid : BitVec 32) :
    Aggregates flows (packAggregateStatsReply flows xid) ↔
      flows.length < 2 ^ 32 ∧ (flows.map Flow.pktCnt).sum % 2 ^ 64 = 0 ∧
        (flows.map Flow.byteCnt).sum % 2 ^ 64 = 0 := by
  rw [packAggregateStatsReply_eq]
  constructor
  · rintro ⟨flowCount, packetCount, byteCount⟩
    dsimp only at flowCount packetCount byteCount
    refine ⟨?_, ?_, byteCount.symm⟩
    · rw [← flowCount]
      exact Nat.mod_lt _ (by decide)
    · rw [← packetCount, ← byteCount]
  · rintro ⟨bound, noPackets, noBytes⟩
    exact ⟨Nat.mod_eq_of_lt bound, noBytes.trans noPackets.symm, noBytes.symm⟩

/-- A flow of one packet with 100 bytes is reported as 100 packets with no bytes. -/
theorem aggregate_stats_miscounted :
    ¬Aggregates [{ flowNew with pktCnt := 1, byteCnt := 100 }]
      (packAggregateStatsReply [{ flowNew with pktCnt := 1, byteCnt := 100 }] 7) := by
  intro aggregates
  exact absurd aggregates.byteCount (by decide)

end Horse.Lib
