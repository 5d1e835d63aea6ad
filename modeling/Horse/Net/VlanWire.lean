import Horse.Lib.PacketRoundTrip
import Horse.Net.TagFields

/-!
# VLAN-tagged packets on the wire

`netflow_push_vlan` leaves the type in the match alone, and `netflow_to_pkt` writes that
type into the Ethernet header.  An IPv4 netflow with tags is thus written as a packet that
announces IPv4 and has the tags where the IPv4 header should start.  Reading it back finds
none of the tags.
-/

namespace Horse.Net

open Horse.Codec Horse.Lib

/-! ## Putting tags on -/

/-- A tag that is pushed, with the id and the priority that are set in it. -/
structure VlanPush where
  qinq : Bool
  id : BitVec 12
  pcp : BitVec 3

/-- The type of the tag. -/
def VlanPush.ethType (tag : VlanPush) : BitVec 16 :=
  if tag.qinq then ethTypeVlanQinQ else ethTypeVlan

/-- Push a tag, then set its id, then its priority. -/
def pushTag (nf : Netflow) (tag : VlanPush) : Netflow :=
  let pushed := VlanCall.apply nf (.push tag.ethType)
  let named := VlanCall.apply pushed (.setId (tag.id.setWidth 16))
  VlanCall.apply named (.setPcp (tag.pcp.setWidth 8))

/-- The number of VLAN tags. -/
def vlanCount (nf : Netflow) : Nat := nf.tags.levels.countP Tag.isVlan

theorem push_top {nf : Netflow} (room : nf.tags.levels.length < maxStackSize)
    (tag : VlanPush) :
    ∃ t, t.isVlan = true ∧
      (VlanCall.apply nf (.push tag.ethType)).tags.levels = t :: nf.tags.levels ∧
      (VlanCall.apply nf (.push tag.ethType)).key = nf.key := by
  have valid : (tag.ethType == ethTypeVlan || tag.ethType == ethTypeVlanQinQ) = true := by
    obtain ⟨qinq, id, pcp⟩ := tag
    cases qinq <;> rfl
  have isVlan : (pushedVlanTag tag.ethType nf.tags.levels.head?).isVlan = true :=
    pushedVlanTag_isVlan valid _
  rw [VlanCall.apply, netflowPushVlan, dif_pos room, if_pos valid]
  exact ⟨_, isVlan, rfl, rfl⟩

section Setting

variable {nf : Netflow} {t : Tag} {below : List Tag}

section

variable (isLevels : nf.tags.levels = t :: below) (isVlan : t.isVlan = true)

include isLevels isVlan

theorem tagged_of_top :
    netflowIsVlanTagged nf = true := by
  rw [netflowIsVlanTagged, isLevels]
  exact isVlan

theorem setId_top (value : BitVec 16) :
    ∃ t', t'.isVlan = true ∧ (VlanCall.apply nf (.setId value)).tags.levels = t' :: below ∧
      (VlanCall.apply nf (.setId value)).key = { nf.key with vlanId := value } := by
  rw [VlanCall.apply, setId_eq (tagged_of_top isLevels isVlan)]
  refine ⟨t.setVlanTag (maskedWrite t.vlanTag value vlanVidMask), isVlan, ?_, rfl⟩
  exact congrArg (List.modifyHead _) isLevels

theorem setPcp_top (value : BitVec 8) :
    ∃ t', t'.isVlan = true ∧ (VlanCall.apply nf (.setPcp value)).tags.levels = t' :: below ∧
      (VlanCall.apply nf (.setPcp value)).key = { nf.key with vlanPcp := value } := by
  rw [VlanCall.apply, setPcp_eq (tagged_of_top isLevels isVlan)]
  refine ⟨t.setVlanTag (maskedWrite t.vlanTag (value.setWidth 16 <<< 13) vlanPcpMask), isVlan,
    ?_, rfl⟩
  exact congrArg (List.modifyHead _) isLevels

end

end Setting

/-- What putting a tag on does to the stack and to the match. -/
theorem pushTag_top {nf : Netflow} (room : nf.tags.levels.length < maxStackSize)
    (tag : VlanPush) :
    ∃ t, t.isVlan = true ∧ (pushTag nf tag).tags.levels = t :: nf.tags.levels ∧
      (pushTag nf tag).key =
        { nf.key with vlanId := tag.id.setWidth 16, vlanPcp := tag.pcp.setWidth 8 } := by
  obtain ⟨pushed, pushedVlan, levels, key⟩ := push_top room tag
  obtain ⟨named, namedVlan, levels', key'⟩ := setId_top levels pushedVlan (tag.id.setWidth 16)
  obtain ⟨t, isVlan, levels'', key''⟩ := setPcp_top levels' namedVlan (tag.pcp.setWidth 8)
  rw [key] at key'
  rw [key'] at key''
  exact ⟨t, isVlan, levels'', key''⟩

/-- Tags are put on one by one, and the type in the match stays. -/
theorem pushTags_spec {nf : Netflow} {tags : List VlanPush}
    (fits : nf.tags.levels.length + tags.length ≤ maxStackSize) :
    (tags.foldl pushTag nf).key.ethType = nf.key.ethType ∧
      vlanCount (tags.foldl pushTag nf) = vlanCount nf + tags.length := by
  induction tags generalizing nf with
  | nil => exact ⟨rfl, rfl⟩
  | cons tag rest ih =>
    rw [List.length_cons] at fits
    have room : nf.tags.levels.length < maxStackSize := by omega
    obtain ⟨t, isVlan, levels, key⟩ := pushTag_top room tag
    have counted : vlanCount (pushTag nf tag) = vlanCount nf + 1 := by
      rw [vlanCount, levels, List.countP_cons_of_pos isVlan]
      rfl
    have later := @ih (pushTag nf tag) (by rw [levels, List.length_cons]; omega)
    rw [counted, key] at later
    refine ⟨later.1, later.2.trans ?_⟩
    rw [List.length_cons]
    omega

theorem vlanCount_untagged {nf : Netflow} (untagged : Untagged nf) : vlanCount nf = 0 :=
  List.countP_eq_zero.mpr fun t inside isVlan =>
    Bool.false_ne_true ((untagged t inside).1.symm.trans isVlan)

/-! ## Reading them back -/

/-- An IPv4 netflow is read as one without tags, whatever its tags are. -/
theorem roundTrip_tags_missed {nf : Netflow} (isIp : nf.key.ethType = ethTypeIp) :
    RoundTrip nf fun after => LinkKept after (linkRead nf.key) := by
  have written := netflowToPkt_ip isIp
  have loaded : ethHeader.load
      (linkBytes nf ++ (ipHeader.pack (patchedIp nf) ++ transportBytes nf)) 0 =
      some (ethOf nf.key) := by
    rw [linkBytes, List.append_assoc]
    exact ethHeader.load_pack [] (ethOf nf.key) _
  have plain : vlanType (ethOf nf.key).type = false := by
    change vlanType nf.key.ethType = false
    rw [isIp]
    rfl
  have inside : ethHeader.size ≤
      (linkBytes nf ++ (ipHeader.pack (patchedIp nf) ++ transportBytes nf)).length := by
    rw [linkBytes, List.append_assoc, List.length_append, ethHeader.length_pack]
    omega
  obtain ⟨after, read, kept⟩ := parseNetwork_ok (linkRead nf.key) inside
  exact ⟨_, after, written, (pktToNetflow_plain loaded plain netflowNew).trans read, kept⟩

/-- What should come back of a netflow with VLAN tags. -/
structure VlanRecovered (after nf : Netflow) : Prop where
  vlanId : after.key.vlanId = nf.key.vlanId
  vlanPcp : after.key.vlanPcp = nf.key.vlanPcp
  ethType : after.key.ethType = nf.key.ethType
  ipv4 : after.key.ipv4Src = nf.key.ipv4Src ∧ after.key.ipv4Dst = nf.key.ipv4Dst ∧
    after.key.ipProto = nf.key.ipProto
  count : vlanCount after = vlanCount nf
  next : ((netflowPopVlan after).key.vlanId, (netflowPopVlan after).key.vlanPcp) =
    vlanFields nf.tags.levels.tail.head?

/-- No IPv4 netflow with VLAN tags comes back from the wire: what is read has the type of
the match and no tag. -/
theorem vlan_round_trip_fails (nf : Netflow) (tags : List VlanPush) (untagged : Untagged nf)
    (isIp : nf.key.ethType = ethTypeIp) (nonempty : tags ≠ [])
    (fits : nf.tags.levels.length + tags.length ≤ maxStackSize) :
    RoundTrip (tags.foldl pushTag nf) fun after =>
      after.key.ethType = ethTypeIp ∧ (after.key.vlanId, after.key.vlanPcp) = (0, 0) ∧
        vlanCount after = 0 ∧ vlanCount (tags.foldl pushTag nf) = tags.length ∧
        ¬VlanRecovered after (tags.foldl pushTag nf) := by
  obtain ⟨sameType, counted⟩ := pushTags_spec fits
  rw [vlanCount_untagged untagged, Nat.zero_add] at counted
  have isIp' := sameType.trans isIp
  obtain ⟨bytes, after, written, read, kept⟩ := roundTrip_tags_missed isIp'
  have none : vlanCount after = 0 := by
    rw [vlanCount, kept.tags]
    rfl
  refine ⟨bytes, after, written, read, kept.ethType.trans isIp',
    Prod.ext kept.vlanId kept.vlanPcp, none, counted, fun recovered => ?_⟩
  have noTags : tags.length = 0 := counted.symm.trans (recovered.count.symm.trans none)
  exact nonempty (List.length_eq_zero_iff.mp noTags)

theorem vlan_round_trip_fails_ping :
    RoundTrip (pushTag pingFlow ⟨false, 5, 3⟩) fun after =>
      ¬VlanRecovered after (pushTag pingFlow ⟨false, 5, 3⟩) := by
  obtain ⟨bytes, after, written, read, -, -, -, -, lost⟩ :=
    vlan_round_trip_fails pingFlow [⟨false, 5, 3⟩] untagged_pingFlow rfl (List.cons_ne_nil _ _)
      (by decide)
  exact ⟨bytes, after, written, read, lost⟩

/-- A ping with the VLAN id 5 comes back with the id 0. -/
theorem vlan_id_lost :
    (pushTag pingFlow ⟨false, 5, 3⟩).key.vlanId = 5 ∧
      RoundTrip (pushTag pingFlow ⟨false, 5, 3⟩) fun after =>
        after.key.vlanId = 0 ∧ ¬VlanRecovered after (pushTag pingFlow ⟨false, 5, 3⟩) := by
  have isId : (pushTag pingFlow ⟨false, 5, 3⟩).key.vlanId = 5 := by decide
  have isIp : (pushTag pingFlow ⟨false, 5, 3⟩).key.ethType = ethTypeIp := by decide
  obtain ⟨bytes, after, written, read, kept⟩ := roundTrip_tags_missed isIp
  refine ⟨isId, bytes, after, written, read, kept.vlanId, fun recovered => ?_⟩
  have same : (0 : BitVec 16) = 5 := (kept.vlanId.symm.trans recovered.vlanId).trans isId
  exact absurd same (by decide)

end Horse.Net
