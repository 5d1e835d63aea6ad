import Horse.Lib.Flow
import Horse.Lib.Util

/-!
# Network flows

A netflow is a burst of packets with one header.  Its tag stack is kept as the
list of the tags below the index `top`, outermost first; the slots above `top`
are always zero in the source, because a new netflow is zeroed and a popped slot
is cleared.  Zeroing also sets `top` to 0 and not to `STACK_EMPTY`, so a new
netflow starts with one blank tag.
-/

namespace Horse.Lib

/-- `ETH_TYPE_IP`. -/
def ethTypeIp : BitVec 16 := 0x0800

/-- `ETH_TYPE_IPV6`. -/
def ethTypeIpv6 : BitVec 16 := 0x86dd

/-- `ETH_TYPE_ARP`. -/
def ethTypeArp : BitVec 16 := 0x0806

/-- `ETH_TYPE_VLAN`. -/
def ethTypeVlan : BitVec 16 := 0x8100

/-- `ETH_TYPE_VLAN_QinQ`. -/
def ethTypeVlanQinQ : BitVec 16 := 0x88a8

/-- `ETH_TYPE_MPLS`. -/
def ethTypeMpls : BitVec 16 := 0x8847

/-- `ETH_TYPE_MPLS_MCAST`. -/
def ethTypeMplsMcast : BitVec 16 := 0x8848

/-- `IP_PROTO_ICMPV4`. -/
def ipProtoIcmpv4 : BitVec 8 := 1

/-- `IP_PROTO_TCP`. -/
def ipProtoTcp : BitVec 8 := 6

/-- `IP_PROTO_UDP`. -/
def ipProtoUdp : BitVec 8 := 17

/-- `ECHO`. -/
def pingEcho : BitVec 8 := 8

/-- `ECHO_REPLY`. -/
def pingEchoReply : BitVec 8 := 0

/-- `VLAN_VID_MASK`. -/
def vlanVidMask : BitVec 16 := 0x0fff

/-- `VLAN_PCP_MASK`. -/
def vlanPcpMask : BitVec 16 := 0xe000

/-- `MPLS_S_MASK`. -/
def mplsSMask : BitVec 32 := 0x00000100

/-- `MPLS_TC_MASK`. -/
def mplsTcMask : BitVec 32 := 0x00000e00

/-- `MPLS_LABEL_MASK`. -/
def mplsLabelMask : BitVec 32 := 0xfffff000

/-- The types of VLAN tags. -/
def vlanType (type : BitVec 16) : Bool :=
  type == ethTypeVlan || type == ethTypeVlanQinQ

/-- The types of MPLS tags. -/
def mplsType (type : BitVec 16) : Bool :=
  type == ethTypeMpls || type == ethTypeMplsMcast

/-- `MAX_STACK_SIZE`. -/
def maxStackSize : Nat := 8

/-- `struct tag`.  The union is one word: an MPLS tag uses all of it, a VLAN tag
has its ethertype in the low half and its tag in the high half. -/
structure Tag where
  type : BitVec 16
  word : BitVec 32
  deriving DecidableEq, Repr

namespace Tag

/-- A cleared slot. -/
def blank : Tag := ⟨0, 0⟩

/-- A VLAN tag, by its type. -/
def isVlan (t : Tag) : Bool := t.type == ethTypeVlan || t.type == ethTypeVlanQinQ

/-- An MPLS tag, by its type. -/
def isMpls (t : Tag) : Bool := t.type == ethTypeMpls || t.type == ethTypeMplsMcast

/-- `vlan_tag.tag`. -/
def vlanTag (t : Tag) : BitVec 16 := t.word.extractLsb' 16 16

/-- `vlan_tag.ethertype`. -/
def vlanEthertype (t : Tag) : BitVec 16 := t.word.extractLsb' 0 16

/-- Assign `vlan_tag.tag`. -/
def setVlanTag (t : Tag) (tag : BitVec 16) : Tag :=
  { t with word := tag ++ t.vlanEthertype }

/-- Assign `vlan_tag.ethertype`. -/
def setVlanEthertype (t : Tag) (ethertype : BitVec 16) : Tag :=
  { t with word := t.vlanTag ++ ethertype }

end Tag

/-- `struct tag_stack`, outermost tag first. -/
structure TagStack where
  levels : List Tag
  bounded : levels.length ≤ maxStackSize
  deriving DecidableEq, Repr

namespace TagStack

/-- The stack of a zeroed netflow. -/
def zeroed : TagStack := ⟨[Tag.blank], by decide⟩

/-- Put a tag on a stack that has room for it. -/
def push (tags : TagStack) (tag : Tag) (room : tags.levels.length < maxStackSize) : TagStack :=
  ⟨tag :: tags.levels, room⟩

/-- Drop the outermost tag. -/
def pop (tags : TagStack) : TagStack :=
  ⟨tags.levels.tail, by
    have bounded := tags.bounded
    rw [List.length_tail]
    omega⟩

/-- Replace the outermost tag. -/
def setTop (tags : TagStack) (change : Tag → Tag) : TagStack :=
  ⟨tags.levels.modifyHead change, by
    rw [List.length_modifyHead]
    exact tags.bounded⟩

end TagStack

/-- `struct icmp_echo_reply`. -/
structure IcmpEchoReply where
  identifier : BitVec 16
  seqNumber : BitVec 16
  data : List (BitVec 8)
  length : data.length = 48
  deriving DecidableEq, Repr

/-- `struct dp_meta`. -/
structure DpMeta where
  bufferId : BitVec 32
  reason : BitVec 8
  tableId : BitVec 8
  cookie : BitVec 64
  deriving DecidableEq, Repr

/-- `struct netflow`.  The field `match` of the source is `key` here.  The TCP
flags share their memory with the identifier of the echo data. -/
structure Netflow where
  pktCnt : Nat
  byteCnt : Nat
  startTime : Nat
  execId : Nat
  rate : BitVec 32
  key : OflFlowKey
  tags : TagStack
  icmpInfo : IcmpEchoReply
  payload : List (BitVec 8)
  payloadLen : BitVec 16
  metadata : DpMeta
  outPorts : List (BitVec 32)
  deriving DecidableEq, Repr

/-- `netflow_new`, and a netflow after it was zeroed. -/
def netflowNew : Netflow where
  pktCnt := 0
  byteCnt := 0
  startTime := 0
  execId := 0
  rate := 0
  key := OflFlowKey.zero
  tags := TagStack.zeroed
  icmpInfo := ⟨0, 0, List.replicate 48 0, rfl⟩
  payload := []
  payloadLen := 0
  metadata := ⟨0, 0, 0, 0⟩
  outPorts := []

namespace Netflow

/-- Assign `match.metadata`. -/
def setKeyMetadata (nf : Netflow) (metadata : BitVec 64) : Netflow :=
  { nf with key := { nf.key with metadata := metadata } }

/-- Assign `metadata.cookie`. -/
def setCookie (nf : Netflow) (cookie : BitVec 64) : Netflow :=
  { nf with metadata := { nf.metadata with cookie := cookie } }

/-- Assign `metadata.table_id`. -/
def setTableId (nf : Netflow) (tableId : BitVec 8) : Netflow :=
  { nf with metadata := { nf.metadata with tableId := tableId } }

/-- Assign `metadata.buffer_id`. -/
def setBufferId (nf : Netflow) (bufferId : BitVec 32) : Netflow :=
  { nf with metadata := { nf.metadata with bufferId := bufferId } }

end Netflow

/-! ## Tags -/

/-- `netflow_is_vlan_tagged`. -/
def netflowIsVlanTagged (nf : Netflow) : Bool :=
  nf.tags.levels.head?.any Tag.isVlan

/-- `netflow_is_outer_mpls`. -/
def netflowIsOuterMpls (nf : Netflow) : Bool :=
  nf.tags.levels.head?.any Tag.isMpls

/-- The VLAN tag that `netflow_push_vlan` fills in above `prev`. -/
def pushedVlanTag (ethType : BitVec 16) (prev : Option Tag) : Tag :=
  let new : Tag := { Tag.blank with type := ethType }
  let copied :=
    match prev with
    | some prev => if prev.isVlan then new.setVlanTag prev.vlanTag else new
    | none => new.setVlanTag 0
  copied.setVlanEthertype ethType

/-- `netflow_push_vlan`. -/
def netflowPushVlan (nf : Netflow) (ethType : BitVec 16) : Netflow :=
  if room : nf.tags.levels.length < maxStackSize then
    if ethType == ethTypeVlan || ethType == ethTypeVlanQinQ then
      { nf with tags := nf.tags.push (pushedVlanTag ethType nf.tags.levels.head?) room }
    else nf
  else nf

/-- The word and the bottom-of-stack field that `netflow_push_mpls` sets above
`prev`. -/
def pushedMpls (bos : BitVec 8) : Option Tag → BitVec 32 × BitVec 8
  | some prev => if prev.isMpls then (prev.word &&& ~~~mplsSMask, 0) else (0, bos)
  | none => (mplsSMask, 1)

/-- `netflow_push_mpls`. -/
def netflowPushMpls (nf : Netflow) (ethType : BitVec 16) : Netflow :=
  if room : nf.tags.levels.length < maxStackSize then
    if ethType == ethTypeMpls || ethType == ethTypeMplsMcast then
      let pushed := pushedMpls nf.key.mplsBos nf.tags.levels.head?
      { nf with
        tags := nf.tags.push ⟨ethType, pushed.1⟩ room
        key := { nf.key with mplsBos := pushed.2, ethType := ethType } }
    else nf
  else nf

/-- `netflow_pop_vlan`. -/
def netflowPopVlan (nf : Netflow) : Netflow :=
  if netflowIsVlanTagged nf then
    let popped := { nf with tags := nf.tags.pop }
    match popped.tags.levels.head? with
    | some t =>
      if t.isVlan then
        { popped with
          key := { nf.key with
            vlanId := t.vlanTag &&& vlanVidMask
            vlanPcp := ((t.vlanTag &&& vlanPcpMask) >>> 13).setWidth 8 } }
      else { popped with key := { nf.key with vlanId := 0, vlanPcp := 0 } }
    | none => { popped with key := { nf.key with vlanId := 0, vlanPcp := 0 } }
  else nf

/-- `netflow_pop_mpls`.  The fields are read back from the slot that was just
cleared, not from the tag below it. -/
def netflowPopMpls (nf : Netflow) (ethType : BitVec 16) : Netflow :=
  match nf.tags.levels with
  | [] => nf
  | _ :: _ =>
    let popped := { nf with
      tags := nf.tags.pop
      key := { nf.key with ethType := ethType } }
    let t := Tag.blank
    if netflowIsOuterMpls popped then
      { popped with
        key := { popped.key with
          mplsLabel := (t.word &&& mplsLabelMask) >>> 12
          mplsTc := ((t.word &&& mplsTcMask) >>> 9).setWidth 8
          mplsBos := ((t.word &&& mplsSMask) >>> 8).setWidth 8 } }
    else { popped with key := { popped.key with mplsLabel := 0, mplsTc := 0, mplsBos := 0 } }

/-- A netflow that differs from another in its header at most. -/
def HeaderOnly (after before : Netflow) : Prop :=
  ∃ key tags, after = { before with key := key, tags := tags }

theorem HeaderOnly.refl (nf : Netflow) : HeaderOnly nf nf :=
  ⟨nf.key, nf.tags, rfl⟩

theorem netflowPushVlan_headerOnly (nf : Netflow) (ethType : BitVec 16) :
    HeaderOnly (netflowPushVlan nf ethType) nf := by
  unfold netflowPushVlan
  split
  · split
    · exact ⟨_, _, rfl⟩
    · exact HeaderOnly.refl nf
  · exact HeaderOnly.refl nf

theorem netflowPushMpls_headerOnly (nf : Netflow) (ethType : BitVec 16) :
    HeaderOnly (netflowPushMpls nf ethType) nf := by
  unfold netflowPushMpls
  split
  · split
    · exact ⟨_, _, rfl⟩
    · exact HeaderOnly.refl nf
  · exact HeaderOnly.refl nf

theorem netflowPopVlan_headerOnly (nf : Netflow) : HeaderOnly (netflowPopVlan nf) nf := by
  simp only [netflowPopVlan]
  split
  · split
    · split <;> exact ⟨_, _, rfl⟩
    · exact ⟨_, _, rfl⟩
  · exact HeaderOnly.refl nf

theorem netflowPopMpls_headerOnly (nf : Netflow) (ethType : BitVec 16) :
    HeaderOnly (netflowPopMpls nf ethType) nf := by
  simp only [netflowPopMpls]
  split
  · exact HeaderOnly.refl nf
  · split <;> exact ⟨_, _, rfl⟩

/-! ## Ports, time and hash -/

/-- `netflow_add_out_port`. -/
def netflowAddOutPort (nf : Netflow) (outPort : BitVec 32) : Netflow :=
  { nf with outPorts := nf.outPorts ++ [outPort] }

/-- A way to add two times. -/
abbrev TimeSum := Nat → Nat → Option Nat

/-- The sum of the program, in 64 bits. -/
def wrappingSum : TimeSum := fun a b => some ((a + b) % 2 ^ 64)

/-- A sum that is undefined where 64 bits are not enough.  A handler that does not
change when this sum takes the place of the other one wraps no time. -/
def exactSum : TimeSum := fun a b => if a + b < 2 ^ 64 then some (a + b) else none

/-- The transmission time that `netflow_update_send_time` adds.  The speed is
multiplied in 32 bits; a divisor of zero traps. -/
def txTime (byteCnt : Nat) (portSpeed : BitVec 32) : Option Nat :=
  let bitsPerMicrosecond := (portSpeed * 1000).toNat / 1000000
  if bitsPerMicrosecond = 0 then none
  else some (byteCnt * 8 % 2 ^ 64 / bitsPerMicrosecond)

/-- Add to `start_time`. -/
def Netflow.delay (sum : TimeSum) (nf : Netflow) (delta : Nat) : Option Netflow :=
  (sum nf.startTime delta).map fun time => { nf with startTime := time }

/-- `netflow_update_send_time`. -/
def netflowUpdateSendTime (sum : TimeSum) (nf : Netflow) (portSpeed : BitVec 32) :
    Option Netflow :=
  (txTime nf.byteCnt portSpeed).bind fun tx => nf.delay sum tx

/-- The transport ports that enter the hash of an IPv4 netflow. -/
def hashedPorts (key : OflFlowKey) : BitVec 16 × BitVec 16 :=
  if key.ipProto == ipProtoTcp then (key.tcpSrc, key.tcpDst)
  else if key.ipProto == ipProtoUdp then (key.udpSrc, key.udpDst)
  else (0, 0)

/-- `netflow_calculate_hash`. -/
def netflowCalculateHash (nf : Netflow) : BitVec 32 :=
  if nf.key.ethType == ethTypeIp then
    let ports := hashedPorts nf.key
    crc32 (hostBytes 4 nf.key.ipv4Src ++ hostBytes 4 nf.key.ipv4Dst ++
      hostBytes 2 (nf.key.ipProto.setWidth 16) ++ hostBytes 2 ports.1 ++ hostBytes 2 ports.2) 0
  else crc32 (List.replicate 14 0) 0

end Horse.Lib
