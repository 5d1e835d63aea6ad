import Horse.Lib.KeyAlgebra
import Horse.Transition.Run

/-!
# Building a match

A match is built from an empty flow, field by field.  A setter is meant to assign the value
under the mask to its own field of the key and the mask to the same field of the mask, and
nothing else; then the key has no bits outside the mask.  All setters are instances of two
functions, with three exceptions that assign to the wrong member.
-/

namespace Horse.Lib

open Horse.Transition

/-- The key field gets the value, and the mask field all ones. -/
def Flow.setExact (f : Flow) (field : KeyField) (value : BitVec field.width) : Flow :=
  { f with
    key := f.key.assign field value
    mask := f.mask.assign field (BitVec.allOnes field.width) }

/-- The key field gets the value under the mask, and the mask field the mask. -/
def Flow.setMasked (f : Flow) (field : KeyField) (value mask : BitVec field.width) : Flow :=
  { f with
    key := f.key.assign field (value &&& mask)
    mask := f.mask.assign field mask }

/-! ## Setters -/

/-- `set_in_port`. -/
def Flow.setInPort (f : Flow) (inPort : BitVec 32) : Flow :=
  f.setExact .inPort inPort

/-- `set_metadata`. -/
def Flow.setMetadata (f : Flow) (metadata : BitVec 64) : Flow :=
  f.setExact .metadata metadata

/-- `set_tunnel_id`. -/
def Flow.setTunnelId (f : Flow) (tunnelId : BitVec 64) : Flow :=
  f.setExact .tunnelId tunnelId

/-- `set_eth_type`. -/
def Flow.setEthType (f : Flow) (ethType : BitVec 16) : Flow :=
  f.setExact .ethType ethType

/-- `set_eth_dst`. -/
def Flow.setEthDst (f : Flow) (ethDst : BitVec 48) : Flow :=
  f.setExact .ethDst ethDst

/-- `set_eth_src`. -/
def Flow.setEthSrc (f : Flow) (ethSrc : BitVec 48) : Flow :=
  f.setExact .ethSrc ethSrc

/-- `set_vlan_id`. -/
def Flow.setVlanId (f : Flow) (vlanId : BitVec 16) : Flow :=
  f.setExact .vlanId vlanId

/-- `set_vlan_pcp`. -/
def Flow.setVlanPcp (f : Flow) (vlanPcp : BitVec 8) : Flow :=
  f.setExact .vlanPcp vlanPcp

/-- `set_mpls_label`. -/
def Flow.setMplsLabel (f : Flow) (mplsLabel : BitVec 32) : Flow :=
  f.setExact .mplsLabel mplsLabel

/-- `set_mpls_tc`. -/
def Flow.setMplsTc (f : Flow) (mplsTc : BitVec 8) : Flow :=
  f.setExact .mplsTc mplsTc

/-- `set_mpls_bos`. -/
def Flow.setMplsBos (f : Flow) (mplsBos : BitVec 8) : Flow :=
  f.setExact .mplsBos mplsBos

/-- `set_ip_dscp`. -/
def Flow.setIpDscp (f : Flow) (ipDscp : BitVec 8) : Flow :=
  f.setExact .ipDscp ipDscp

/-- `set_ip_ecn`. -/
def Flow.setIpEcn (f : Flow) (ipEcn : BitVec 8) : Flow :=
  f.setExact .ipEcn ipEcn

/-- `set_ip_proto`. -/
def Flow.setIpProto (f : Flow) (ipProto : BitVec 8) : Flow :=
  f.setExact .ipProto ipProto

/-- `set_ipv4_dst`. -/
def Flow.setIpv4Dst (f : Flow) (ipv4Dst : BitVec 32) : Flow :=
  f.setExact .ipv4Dst ipv4Dst

/-- `set_ipv4_src`. -/
def Flow.setIpv4Src (f : Flow) (ipv4Src : BitVec 32) : Flow :=
  f.setExact .ipv4Src ipv4Src

/-- `set_tcp_dst`. -/
def Flow.setTcpDst (f : Flow) (tcpDst : BitVec 16) : Flow :=
  f.setExact .tcpDst tcpDst

/-- `set_tcp_src`. -/
def Flow.setTcpSrc (f : Flow) (tcpSrc : BitVec 16) : Flow :=
  f.setExact .tcpSrc tcpSrc

/-- `set_sctp_dst`. -/
def Flow.setSctpDst (f : Flow) (sctpDst : BitVec 16) : Flow :=
  f.setExact .sctpDst sctpDst

/-- `set_sctp_src`. -/
def Flow.setSctpSrc (f : Flow) (sctpSrc : BitVec 16) : Flow :=
  f.setExact .sctpSrc sctpSrc

/-- `set_udp_dst`. -/
def Flow.setUdpDst (f : Flow) (udpDst : BitVec 16) : Flow :=
  f.setExact .udpDst udpDst

/-- `set_udp_src`. -/
def Flow.setUdpSrc (f : Flow) (udpSrc : BitVec 16) : Flow :=
  f.setExact .udpSrc udpSrc

/-- `set_icmpv4_type`. -/
def Flow.setIcmpv4Type (f : Flow) (icmpv4Type : BitVec 8) : Flow :=
  f.setExact .icmpv4Type icmpv4Type

/-- `set_icmpv4_code`. -/
def Flow.setIcmpv4Code (f : Flow) (icmpv4Code : BitVec 8) : Flow :=
  f.setExact .icmpv4Code icmpv4Code

/-- `set_arp_op`. -/
def Flow.setArpOp (f : Flow) (arpOp : BitVec 16) : Flow :=
  f.setExact .arpOp arpOp

/-- `set_arp_spa`. -/
def Flow.setArpSpa (f : Flow) (arpSpa : BitVec 32) : Flow :=
  f.setExact .arpSpa arpSpa

/-- `set_arp_tpa`. -/
def Flow.setArpTpa (f : Flow) (arpTpa : BitVec 32) : Flow :=
  f.setExact .arpTpa arpTpa

/-- `set_arp_sha`. -/
def Flow.setArpSha (f : Flow) (arpSha : BitVec 48) : Flow :=
  f.setExact .arpSha arpSha

/-- `set_arp_tha`. -/
def Flow.setArpTha (f : Flow) (arpTha : BitVec 48) : Flow :=
  f.setExact .arpTha arpTha

/-- `set_ipv6_dst`. -/
def Flow.setIpv6Dst (f : Flow) (ipv6Dst : BitVec 128) : Flow :=
  f.setExact .ipv6Dst ipv6Dst

/-- `set_ipv6_src`. -/
def Flow.setIpv6Src (f : Flow) (ipv6Src : BitVec 128) : Flow :=
  f.setExact .ipv6Src ipv6Src

/-- `set_ipv6_flabel`. -/
def Flow.setIpv6Flabel (f : Flow) (ipv6Flabel : BitVec 32) : Flow :=
  f.setExact .ipv6Flabel ipv6Flabel

/-- `set_icmpv6_type`. -/
def Flow.setIcmpv6Type (f : Flow) (icmpv6Type : BitVec 8) : Flow :=
  f.setExact .icmpv6Type icmpv6Type

/-- `set_icmpv6_code`. -/
def Flow.setIcmpv6Code (f : Flow) (icmpv6Code : BitVec 8) : Flow :=
  f.setExact .icmpv6Code icmpv6Code

/-- `set_ipv6_nd_target`. -/
def Flow.setIpv6NdTarget (f : Flow) (ipv6NdTarget : BitVec 128) : Flow :=
  f.setExact .ipv6NdTarget ipv6NdTarget

/-- `set_ipv6_nd_sll`. -/
def Flow.setIpv6NdSll (f : Flow) (ipv6NdSll : BitVec 48) : Flow :=
  f.setExact .ipv6NdSll ipv6NdSll

/-- `set_ipv6_nd_tll`. -/
def Flow.setIpv6NdTll (f : Flow) (ipv6NdTll : BitVec 48) : Flow :=
  f.setExact .ipv6NdTll ipv6NdTll

/-! ## Masked setters -/

/-- `flow_set_masked_metadata`, which assigns the mask of another field. -/
def flowSetMaskedMetadata (f : Flow) (metadata mask : BitVec 64) : Flow :=
  { f with
    key := f.key.assign .metadata (metadata &&& mask)
    mask := f.mask.assign .inPort (mask.setWidth 32) }

/-- `flow_set_masked_tunnel_id`. -/
def flowSetMaskedTunnelId (f : Flow) (tunnelId mask : BitVec 64) : Flow :=
  f.setMasked .tunnelId tunnelId mask

/-- `flow_set_masked_eth_dst`. -/
def flowSetMaskedEthDst (f : Flow) (ethDst mask : BitVec 48) : Flow :=
  f.setMasked .ethDst ethDst mask

/-- `flow_set_masked_eth_src`. -/
def flowSetMaskedEthSrc (f : Flow) (ethSrc mask : BitVec 48) : Flow :=
  f.setMasked .ethSrc ethSrc mask

/-- `flow_set_masked_vlan_id`. -/
def flowSetMaskedVlanId (f : Flow) (vlanId mask : BitVec 16) : Flow :=
  f.setMasked .vlanId vlanId mask

/-- `flow_set_masked_mpls_label`. -/
def flowSetMaskedMplsLabel (f : Flow) (mplsLabel mask : BitVec 32) : Flow :=
  f.setMasked .mplsLabel mplsLabel mask

/-- `flow_set_masked_ipv4_dst`. -/
def flowSetMaskedIpv4Dst (f : Flow) (ipv4Dst mask : BitVec 32) : Flow :=
  f.setMasked .ipv4Dst ipv4Dst mask

/-- `flow_set_masked_ipv4_src`. -/
def flowSetMaskedIpv4Src (f : Flow) (ipv4Src mask : BitVec 32) : Flow :=
  f.setMasked .ipv4Src ipv4Src mask

/-- `flow_set_masked_arp_spa`. -/
def flowSetMaskedArpSpa (f : Flow) (arpSpa mask : BitVec 32) : Flow :=
  f.setMasked .arpSpa arpSpa mask

/-- `flow_set_masked_arp_tpa`. -/
def flowSetMaskedArpTpa (f : Flow) (arpTpa mask : BitVec 32) : Flow :=
  f.setMasked .arpTpa arpTpa mask

/-- `flow_set_masked_arp_sha`. -/
def flowSetMaskedArpSha (f : Flow) (arpSha mask : BitVec 48) : Flow :=
  f.setMasked .arpSha arpSha mask

/-- `flow_set_masked_arp_tha`. -/
def flowSetMaskedArpTha (f : Flow) (arpTha mask : BitVec 48) : Flow :=
  f.setMasked .arpTha arpTha mask

/-- `flow_set_masked_ipv6_dst`, which copies the address to a mask and leaves the key with the
address it had. -/
def flowSetMaskedIpv6Dst (f : Flow) (ipv6Dst mask : BitVec 128) : Flow :=
  { f with
    mask := (f.mask.assign .ipv6Dst mask).assign .ipv6Src ipv6Dst
    key := f.key.assign .ipv6Dst (f.key.ipv6Dst &&& mask) }

/-- `flow_set_masked_ipv6_src`, which copies the address over the mask and leaves the key with
the address it had. -/
def flowSetMaskedIpv6Src (f : Flow) (ipv6Src mask : BitVec 128) : Flow :=
  { f with
    mask := (f.mask.assign .ipv6Src mask).assign .ipv6Src ipv6Src
    key := f.key.assign .ipv6Src (f.key.ipv6Src &&& mask) }

/-- `flow_set_masked_ipv6_nd_target`. -/
def flowSetMaskedIpv6NdTarget (f : Flow) (ipv6NdTarget mask : BitVec 128) : Flow :=
  f.setMasked .ipv6NdTarget ipv6NdTarget mask

/-- `flow_set_masked_ipv6_nd_sll`. -/
def flowSetMaskedIpv6NdSll (f : Flow) (ipv6NdSll mask : BitVec 48) : Flow :=
  f.setMasked .ipv6NdSll ipv6NdSll mask

/-- `flow_set_masked_ipv6_nd_tll`. -/
def flowSetMaskedIpv6NdTll (f : Flow) (ipv6NdTll mask : BitVec 48) : Flow :=
  f.setMasked .ipv6NdTll ipv6NdTll mask

/-! ## Calls -/

/-- The setter of a field.  Nothing sets `in_phy_port`. -/
def setterOf : (field : KeyField) → Option (Flow → BitVec field.width → Flow)
  | .inPort => some Flow.setInPort
  | .metadata => some Flow.setMetadata
  | .tunnelId => some Flow.setTunnelId
  | .ethType => some Flow.setEthType
  | .ethDst => some Flow.setEthDst
  | .ethSrc => some Flow.setEthSrc
  | .vlanId => some Flow.setVlanId
  | .vlanPcp => some Flow.setVlanPcp
  | .mplsLabel => some Flow.setMplsLabel
  | .mplsTc => some Flow.setMplsTc
  | .mplsBos => some Flow.setMplsBos
  | .ipDscp => some Flow.setIpDscp
  | .ipEcn => some Flow.setIpEcn
  | .ipProto => some Flow.setIpProto
  | .ipv4Dst => some Flow.setIpv4Dst
  | .ipv4Src => some Flow.setIpv4Src
  | .tcpDst => some Flow.setTcpDst
  | .tcpSrc => some Flow.setTcpSrc
  | .sctpDst => some Flow.setSctpDst
  | .sctpSrc => some Flow.setSctpSrc
  | .udpDst => some Flow.setUdpDst
  | .udpSrc => some Flow.setUdpSrc
  | .icmpv4Type => some Flow.setIcmpv4Type
  | .icmpv4Code => some Flow.setIcmpv4Code
  | .arpOp => some Flow.setArpOp
  | .arpSpa => some Flow.setArpSpa
  | .arpTpa => some Flow.setArpTpa
  | .arpSha => some Flow.setArpSha
  | .arpTha => some Flow.setArpTha
  | .ipv6Dst => some Flow.setIpv6Dst
  | .ipv6Src => some Flow.setIpv6Src
  | .ipv6Flabel => some Flow.setIpv6Flabel
  | .icmpv6Type => some Flow.setIcmpv6Type
  | .icmpv6Code => some Flow.setIcmpv6Code
  | .ipv6NdTarget => some Flow.setIpv6NdTarget
  | .ipv6NdSll => some Flow.setIpv6NdSll
  | .ipv6NdTll => some Flow.setIpv6NdTll
  | .inPhyPort => none

/-- The masked setter of a field. -/
def maskedSetterOf :
    (field : KeyField) → Option (Flow → BitVec field.width → BitVec field.width → Flow)
  | .metadata => some flowSetMaskedMetadata
  | .tunnelId => some flowSetMaskedTunnelId
  | .ethDst => some flowSetMaskedEthDst
  | .ethSrc => some flowSetMaskedEthSrc
  | .vlanId => some flowSetMaskedVlanId
  | .mplsLabel => some flowSetMaskedMplsLabel
  | .ipv4Dst => some flowSetMaskedIpv4Dst
  | .ipv4Src => some flowSetMaskedIpv4Src
  | .arpSpa => some flowSetMaskedArpSpa
  | .arpTpa => some flowSetMaskedArpTpa
  | .arpSha => some flowSetMaskedArpSha
  | .arpTha => some flowSetMaskedArpTha
  | .ipv6Dst => some flowSetMaskedIpv6Dst
  | .ipv6Src => some flowSetMaskedIpv6Src
  | .ipv6NdTarget => some flowSetMaskedIpv6NdTarget
  | .ipv6NdSll => some flowSetMaskedIpv6NdSll
  | .ipv6NdTll => some flowSetMaskedIpv6NdTll
  | _ => none

/-- A call of a setter: the field it is named after and its arguments. -/
inductive MatchCall
  | set (field : KeyField) (value : BitVec field.width)
  | setMasked (field : KeyField) (value mask : BitVec field.width)
  deriving DecidableEq

namespace MatchCall

/-- The field that the setter is named after. -/
def field : MatchCall → KeyField
  | set field _ => field
  | setMasked field _ _ => field

/-- The value that is set. -/
def value : (call : MatchCall) → BitVec call.field.width
  | set _ value => value
  | setMasked _ value _ => value

/-- The mask that goes with the value. -/
def mask : (call : MatchCall) → BitVec call.field.width
  | set field _ => BitVec.allOnes field.width
  | setMasked _ _ mask => mask

end MatchCall

/-- One call, where there is such a function. -/
def buildMatch : Step Flow MatchCall
  | f, .set field value => (setterOf field).map fun setter => setter f value
  | f, .setMasked field value mask => (maskedSetterOf field).map fun setter => setter f value mask

/-! ## One call -/

/-- The key has no bits outside the mask. -/
def Flow.Normalised (f : Flow) : Prop :=
  applyAllMask f.key f.mask = f.key

instance (f : Flow) : Decidable f.Normalised :=
  inferInstanceAs (Decidable (_ = _))

/-- One field is assigned under its mask, and all others stay. -/
structure SetsOwn (before : Flow) (field : KeyField) (value mask : BitVec field.width)
    (after : Flow) : Prop where
  key : after.key.get field = value &&& mask
  mask : after.mask.get field = mask
  otherKeys : ∀ other, other ≠ field → after.key.get other = before.key.get other
  otherMasks : ∀ other, other ≠ field → after.mask.get other = before.mask.get other

section OneCall

variable {f after : Flow} {field : KeyField}

theorem Flow.setMasked_setsOwn (f : Flow) (field : KeyField) (value mask : BitVec field.width) :
    SetsOwn f field value mask (f.setMasked field value mask) where
  key := OflFlowKey.get_assign _ _ _
  mask := OflFlowKey.get_assign _ _ _
  otherKeys _ apart := OflFlowKey.get_assign_ne _ _ apart
  otherMasks _ apart := OflFlowKey.get_assign_ne _ _ apart

theorem Flow.setExact_eq (f : Flow) (field : KeyField) (value : BitVec field.width) :
    f.setExact field value = f.setMasked field value (BitVec.allOnes field.width) := by
  rw [Flow.setExact, Flow.setMasked, BitVec.and_allOnes]

theorem SetsOwn.normalised {value mask : BitVec field.width}
    (sets : SetsOwn f field value mask after) (normalised : f.Normalised) : after.Normalised := by
  apply OflFlowKey.eq_of_get_eq
  intro other
  rw [get_applyAllMask]
  by_cases own : other = field
  · subst own
    rw [sets.key, sets.mask, BitVec.and_assoc, BitVec.and_self]
  · rw [sets.otherKeys other own, sets.otherMasks other own, ← get_applyAllMask, normalised]

/-- Every setter without a mask is the same function of its field. -/
theorem setter_eq {setter : Flow → BitVec field.width → Flow}
    (isSetter : setterOf field = some setter) (f : Flow) (value : BitVec field.width) :
    setter f value = f.setExact field value := by
  cases field <;> cases isSetter <;> rfl

/-- The masked setters that go wrong. -/
def misassigned : List KeyField := [.metadata, .ipv6Dst, .ipv6Src]

theorem maskedSetter_eq {setter : Flow → BitVec field.width → BitVec field.width → Flow}
    (isSetter : maskedSetterOf field = some setter) (right : field ∉ misassigned) (f : Flow)
    (value mask : BitVec field.width) : setter f value mask = f.setMasked field value mask := by
  cases field <;> first
    | exact absurd (by decide) right
    | cases isSetter <;> rfl

/-- Metadata is assigned under a mask that is there already. -/
theorem flowSetMaskedMetadata_setsOwn_iff (value mask : BitVec 64) :
    SetsOwn f .metadata value mask (flowSetMaskedMetadata f value mask) ↔
      f.mask.metadata = mask ∧ f.mask.inPort = mask.setWidth 32 := by
  constructor
  · intro sets
    exact ⟨sets.mask, (sets.otherMasks .inPort (by decide)).symm⟩
  · rintro ⟨sameMask, samePort⟩
    have unchanged : (flowSetMaskedMetadata f value mask).mask = f.mask :=
      OflFlowKey.assign_eq_self_iff.mpr samePort
    constructor
    · exact OflFlowKey.get_assign _ _ _
    · rw [unchanged]
      exact sameMask
    · intro other apart
      exact OflFlowKey.get_assign_ne _ _ apart
    · intro other _
      rw [unchanged]

theorem flowSetMaskedIpv6Dst_setsOwn_iff (value mask : BitVec 128) :
    SetsOwn f .ipv6Dst value mask (flowSetMaskedIpv6Dst f value mask) ↔
      f.key.ipv6Dst &&& mask = value &&& mask ∧ f.mask.ipv6Src = value := by
  constructor
  · intro sets
    exact ⟨sets.key, (sets.otherMasks .ipv6Src (by decide)).symm⟩
  · rintro ⟨sameKey, sameMask⟩
    constructor
    · exact sameKey
    · rfl
    · intro other apart
      exact OflFlowKey.get_assign_ne _ _ apart
    · intro other apart
      by_cases isSrc : other = .ipv6Src
      · subst isSrc
        exact sameMask.symm
      · exact (OflFlowKey.get_assign_ne _ _ isSrc).trans (OflFlowKey.get_assign_ne _ _ apart)

theorem flowSetMaskedIpv6Src_setsOwn_iff (value mask : BitVec 128) :
    SetsOwn f .ipv6Src value mask (flowSetMaskedIpv6Src f value mask) ↔
      value = mask ∧ f.key.ipv6Src &&& mask = value &&& mask := by
  constructor
  · intro sets
    exact ⟨sets.mask, sets.key⟩
  · rintro ⟨sameMask, sameKey⟩
    constructor
    · exact sameKey
    · exact sameMask
    · intro other apart
      exact OflFlowKey.get_assign_ne _ _ apart
    · intro other apart
      exact (OflFlowKey.get_assign_ne _ _ apart).trans (OflFlowKey.get_assign_ne _ _ apart)

/-- What the three setters need to assign nothing wrong. -/
def AssignsOwn (f : Flow) : MatchCall → Prop
  | .setMasked .metadata _ mask =>
    f.mask.get .metadata = mask ∧ f.mask.inPort = mask.setWidth 32
  | .setMasked .ipv6Dst value mask =>
    f.key.get .ipv6Dst &&& mask = value &&& mask ∧ f.mask.get .ipv6Src = value
  | .setMasked .ipv6Src value mask =>
    value = mask ∧ f.key.get .ipv6Src &&& mask = value &&& mask
  | _ => True

theorem assignsOwn_of_right {value mask : BitVec field.width} (right : field ∉ misassigned) :
    AssignsOwn f (.setMasked field value mask) := by
  cases field <;> first
    | exact absurd (by decide) right
    | trivial

/-- A call sets its own field only, exactly if it is not one of the three that assign
something wrong. -/
theorem buildMatch_setsOwn_iff {call : MatchCall} (step : buildMatch f call = some after) :
    SetsOwn f call.field call.value call.mask after ↔ AssignsOwn f call := by
  cases call with
  | set field value =>
    rcases Option.map_eq_some_iff.mp step with ⟨setter, isSetter, rfl⟩
    rw [setter_eq isSetter, Flow.setExact_eq]
    exact iff_of_true (Flow.setMasked_setsOwn _ _ _ _) trivial
  | setMasked field value mask =>
    rcases Option.map_eq_some_iff.mp step with ⟨setter, isSetter, rfl⟩
    by_cases wrong : field ∈ misassigned
    · have either : field = .metadata ∨ field = .ipv6Dst ∨ field = .ipv6Src := by
        simpa [misassigned] using wrong
      rcases either with rfl | rfl | rfl
      · cases isSetter
        exact flowSetMaskedMetadata_setsOwn_iff value mask
      · cases isSetter
        exact flowSetMaskedIpv6Dst_setsOwn_iff value mask
      · cases isSetter
        exact flowSetMaskedIpv6Src_setsOwn_iff value mask
    · rw [maskedSetter_eq isSetter wrong]
      exact iff_of_true (Flow.setMasked_setsOwn _ _ _ _) (assignsOwn_of_right wrong)

end OneCall

/-! ## Sequences of calls -/

theorem flowNew_normalised : flowNew.Normalised := by
  decide

/-- From an empty flow, every call sets its own field and leaves the key inside the mask,
exactly if none of the three setters assigns something wrong. -/
theorem setsOwn_along_iff (calls : List MatchCall) :
    Along buildMatch
        (fun f call => ∀ after, buildMatch f call = some after →
          SetsOwn f call.field call.value call.mask after ∧ after.Normalised)
        flowNew calls ↔
      Along buildMatch (fun f call => (buildMatch f call).isSome → AssignsOwn f call)
        flowNew calls := by
  apply @along_holds_iff _ _ buildMatch AssignsOwn Flow.Normalised (fun _ => True) (fun _ => True)
    (fun f call after => SetsOwn f call.field call.value call.mask after ∧ after.Normalised)
  · intro _ _ _ _ _ _
    trivial
  · intro _ _ _ _ _ sets
    exact sets.2
  · intro f call after _ _ normalised step
    rw [← buildMatch_setsOwn_iff step]
    constructor
    · exact And.left
    · intro sets
      exact ⟨sets, sets.normalised normalised⟩
  · trivial
  · exact flowNew_normalised
  · intro _ _
    trivial

/-- The metadata under a mask, from an empty flow: the value is outside the mask. -/
theorem masked_metadata_not_normalised :
    ∃ after, run buildMatch flowNew [.setMasked .metadata 5 0xFF] = some after ∧
      after.key.metadata = 5 ∧ after.mask.metadata = 0 ∧ after.mask.inPort = 0xFF ∧
      ¬after.Normalised := by
  exact ⟨_, rfl, by decide, by decide, by decide, by decide⟩

end Horse.Lib
