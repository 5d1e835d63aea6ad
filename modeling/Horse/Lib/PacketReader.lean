import Horse.Lib.PacketCodec

/-!
# What the packet reader can do

The stages of `pkt_to_netflow` one by one: which memory they read, how the offset moves
and which parts of a netflow they leave alone.  Behind the Ethernet header no stage reads
outside the packet; the VLAN tags are the only ones that can leave the tag stack.
-/

namespace Horse.Lib

open Horse.Codec

/-! ## Headers -/

section Headers

variable {α : Type} {format : Packed α} {buffer : List (BitVec 8)} {offset : Nat}

theorem fetch_loaded {value : α} (loaded : format.load buffer offset = some value) :
    fetch format buffer offset = .ok value := by
  rw [fetch, loaded]

theorem fetch_inside (inside : offset + format.size ≤ buffer.length) :
    ∃ value, format.load buffer offset = some value ∧ fetch format buffer offset = .ok value := by
  obtain ⟨value, loaded⟩ := Packed.load_eq_some inside
  exact ⟨value, loaded, by rw [fetch, loaded]⟩

theorem fetch_outside (outside : buffer.length < offset + format.size) :
    fetch format buffer offset = .error .outsideBuffer := by
  rw [fetch, Packed.load_eq_none_iff.mpr outside]

/-- A header that stands in the packet is used. -/
theorem withHeader_loaded {value : α} (loaded : format.load buffer offset = some value)
    (nf : Netflow) (use : α → Except ParseFault Netflow) :
    withHeader buffer buffer.length offset nf format use = use value := by
  have inside : offset + format.size ≤ buffer.length :=
    (format.load_isSome buffer offset).mp (by rw [loaded]; rfl)
  rw [withHeader, if_neg (Nat.not_lt_of_le inside), fetch_loaded loaded]
  rfl

/-- A header is skipped or used, and never read outside the packet. -/
theorem withHeader_ok {nf : Netflow} {use : α → Except ParseFault Netflow}
    {post : Netflow → Prop} (skipped : post nf)
    (used : ∀ value, ∃ after, use value = .ok after ∧ post after) :
    ∃ after, withHeader buffer buffer.length offset nf format use = .ok after ∧ post after := by
  rw [withHeader]
  split
  · exact ⟨nf, rfl, skipped⟩
  · rename_i inside
    obtain ⟨value, -, fetched⟩ := fetch_inside (Nat.le_of_not_lt inside)
    rw [fetched]
    exact used value

end Headers

/-! ## The transport layer -/

/-- Nothing but the fields of the transport layer has changed. -/
def TransportOnly (after before : Netflow) : Prop :=
  ∃ tcpSrc tcpDst udpSrc udpDst icmpv4Type icmpv4Code icmpInfo,
    after = { before with
      key := { before.key with
        tcpSrc := tcpSrc
        tcpDst := tcpDst
        udpSrc := udpSrc
        udpDst := udpDst
        icmpv4Type := icmpv4Type
        icmpv4Code := icmpv4Code }
      icmpInfo := icmpInfo }

theorem TransportOnly.refl (nf : Netflow) : TransportOnly nf nf :=
  ⟨_, _, _, _, _, _, _, rfl⟩

variable {buffer : List (BitVec 8)} {offset : Nat} {nf : Netflow}

theorem parseEcho_ok (nf before : Netflow) (started : TransportOnly nf before) :
    ∃ after, parseEcho buffer buffer.length offset nf = .ok after ∧
      TransportOnly after before := by
  rw [parseEcho]
  split
  · refine withHeader_ok started fun echo => ⟨_, rfl, ?_⟩
    obtain ⟨tcpSrc, tcpDst, udpSrc, udpDst, icmpv4Type, icmpv4Code, icmpInfo, rfl⟩ := started
    exact ⟨tcpSrc, tcpDst, udpSrc, udpDst, icmpv4Type, icmpv4Code, echo, rfl⟩
  · exact ⟨nf, rfl, started⟩

theorem parseL4_ok (nf : Netflow) :
    ∃ after, parseL4 buffer buffer.length offset nf = .ok after ∧ TransportOnly after nf := by
  rw [parseL4]
  split
  · exact withHeader_ok (TransportOnly.refl nf) fun udp => ⟨_, rfl, _, _, _, _, _, _, _, rfl⟩
  split
  · exact withHeader_ok (TransportOnly.refl nf) fun tcp => ⟨_, rfl, _, _, _, _, _, _, _, rfl⟩
  split
  · exact withHeader_ok (TransportOnly.refl nf) fun icmp =>
      parseEcho_ok _ nf ⟨_, _, _, _, _, _, _, rfl⟩
  · exact ⟨nf, rfl, TransportOnly.refl nf⟩

/-! ## The network layer -/

/-- The link layer and the tags are as before. -/
structure LinkKept (after before : Netflow) : Prop where
  tags : after.tags = before.tags
  ethSrc : after.key.ethSrc = before.key.ethSrc
  ethDst : after.key.ethDst = before.key.ethDst
  ethType : after.key.ethType = before.key.ethType
  vlanId : after.key.vlanId = before.key.vlanId
  vlanPcp : after.key.vlanPcp = before.key.vlanPcp

theorem LinkKept.refl (nf : Netflow) : LinkKept nf nf :=
  ⟨rfl, rfl, rfl, rfl, rfl, rfl⟩

theorem TransportOnly.linkKept {after before : Netflow} (only : TransportOnly after before) :
    LinkKept after before := by
  obtain ⟨_, _, _, _, _, _, _, rfl⟩ := only
  exact ⟨rfl, rfl, rfl, rfl, rfl, rfl⟩

/-- The payload that an LLDP packet is left with. -/
def lldpPayload (buffer : List (BitVec 8)) (offset : Nat) : List (BitVec 8) :=
  (buffer.drop offset).take ((buffer.length - offset) % 2 ^ 16)

theorem parseLldp_eq (nf : Netflow) (inside : offset ≤ buffer.length) :
    parseLldp buffer buffer.length offset nf =
      .ok { nf with
        payload := lldpPayload buffer offset
        payloadLen := BitVec.ofNat 16 (buffer.length - offset) } := by
  have difference : BitVec.ofInt 16 ((buffer.length : Int) - offset) =
      BitVec.ofNat 16 (buffer.length - offset) := by
    rw [← Int.ofNat_sub inside]
    exact BitVec.ofInt_natCast 16 _
  have small : offset + (buffer.length - offset) % 2 ^ 16 ≤ buffer.length := by
    have cut := Nat.mod_le (buffer.length - offset) (2 ^ 16)
    omega
  have copied : copyBytes buffer offset (BitVec.ofNat 16 (buffer.length - offset)).toNat =
      some (lldpPayload buffer offset) := by
    rw [BitVec.toNat_ofNat, copyBytes, if_pos small]
    rfl
  simp only [parseLldp, difference, copied]

theorem arpKey_linkKept (arp : ArpHeader) (nf : Netflow) :
    LinkKept { nf with key := arpKey arp nf.key } nf := by
  constructor <;> simp only [arpKey] <;> repeat' split
  all_goals rfl

/-- Behind the tags nothing is read outside the packet. -/
theorem parseNetwork_ok (nf : Netflow) (inside : offset ≤ buffer.length) :
    ∃ after, parseNetwork buffer buffer.length offset nf = .ok after ∧ LinkKept after nf := by
  rw [parseNetwork]
  split
  · exact withHeader_ok (LinkKept.refl nf) fun fields => ⟨_, rfl, rfl, rfl, rfl, rfl, rfl, rfl⟩
  split
  · exact ⟨_, parseLldp_eq nf inside, rfl, rfl, rfl, rfl, rfl, rfl⟩
  split
  · exact withHeader_ok (LinkKept.refl nf) fun arp => ⟨_, rfl, arpKey_linkKept arp nf⟩
  split
  · refine withHeader_ok (LinkKept.refl nf) fun ip => ?_
    dsimp only
    split
    · exact ⟨_, rfl, rfl, rfl, rfl, rfl, rfl, rfl⟩
    · obtain ⟨after, parsed, only⟩ := @parseL4_ok buffer (offset + ipHeader.size)
        { nf with key := ipKey ip nf.key }
      obtain ⟨_, _, _, _, _, _, _, rfl⟩ := only
      exact ⟨_, parsed, rfl, rfl, rfl, rfl, rfl, rfl⟩
  · obtain ⟨after, parsed, only⟩ := @parseL4_ok buffer offset nf
    exact ⟨after, parsed, only.linkKept⟩

theorem parseNetwork_lldp (isLldp : nf.key.ethType = ethTypeLldp)
    (inside : offset ≤ buffer.length) :
    parseNetwork buffer buffer.length offset nf =
      .ok { nf with
        payload := lldpPayload buffer offset
        payloadLen := BitVec.ofNat 16 (buffer.length - offset) } := by
  rw [parseNetwork, isLldp]
  exact parseLldp_eq nf inside

@[simp]
theorem linkKey_ethType (eth : EthHeader) (ethType : BitVec 16) (outer : Option (BitVec 16))
    (key : OflFlowKey) : (linkKey eth ethType outer key).ethType = ethType := by
  cases outer <;> rfl

/-! ## The VLAN tags -/

/-- The VLAN tags of a packet from an offset on, each complete and announced by the type
in front of it. -/
def vlanChain (buffer : List (BitVec 8)) : Nat → BitVec 16 → Nat → List VlanHeader
  | 0, _, _ => []
  | turns + 1, ethType, offset =>
    if vlanType ethType then
      match vlanHeader.load buffer offset with
      | some vlan => vlan :: vlanChain buffer turns vlan.ethertype (offset + vlanHeader.size)
      | none => []
    else []

/-- The type of what follows some tags. -/
def innerType : BitVec 16 → List VlanHeader → BitVec 16
  | ethType, [] => ethType
  | _, vlan :: rest => innerType vlan.ethertype rest

variable {ethType : BitVec 16} {turns : Nat}

theorem vlanChain_plain (plain : vlanType ethType = false) :
    vlanChain buffer turns ethType offset = [] := by
  cases turns with
  | zero => rfl
  | succ turns => simp [vlanChain, plain]

theorem vlanChain_short (short : buffer.length < offset + vlanHeader.size) :
    vlanChain buffer turns ethType offset = [] := by
  cases turns with
  | zero => rfl
  | succ turns => simp [vlanChain, Packed.load_eq_none_iff.mpr short]

/-- More turns than bytes change nothing. -/
theorem vlanChain_enough (enough : buffer.length ≤ offset + turns) :
    vlanChain buffer (turns + 1) ethType offset = vlanChain buffer turns ethType offset := by
  induction turns generalizing ethType offset with
  | zero => exact vlanChain_short (by simp; omega)
  | succ turns ih =>
    rw [vlanChain, vlanChain]
    split
    · split
      · rw [ih (by simp; omega)]
      · rfl
    · rfl

/-- A slot above a list of tags is inside the array as long as the list is not full. -/
theorem tagStackOps_add (tags : TagStack) (tag : Tag) :
    (tags.levels.length < maxStackSize ∧
      ∃ grown : TagStack, grown.levels = tag :: tags.levels ∧
        tagStackOps.add tags tag = .ok grown) ∨
    (maxStackSize ≤ tags.levels.length ∧
      tagStackOps.add tags tag = .error .outsideStack) := by
  by_cases room : tags.levels.length < maxStackSize
  · refine Or.inl ⟨room, tags.push tag room, rfl, ?_⟩
    simp only [StackOps.add, tagStackOps, dif_pos room]
  · refine Or.inr ⟨Nat.le_of_not_lt room, ?_⟩
    simp only [StackOps.add, tagStackOps, dif_neg room]

/-- Where the reader is behind some tags, with the stack that has taken them in. -/
def TagParse.passed (p : TagParse TagStack) (chain : List VlanHeader) (tags : TagStack) :
    TagParse TagStack where
  ethType := innerType p.ethType chain
  outer := p.outer
  tags := tags
  offset := p.offset + vlanHeader.size * chain.length
  done := vlanType (innerType p.ethType chain)

/-- The reader passes the first tag, then the others. -/
theorem TagParse.passed_cons (p : TagParse TagStack) (vlan : VlanHeader)
    (rest : List VlanHeader) (grown tags : TagStack) :
    TagParse.passed
        { p with
          ethType := vlan.ethertype
          tags := grown
          offset := p.offset + vlanHeader.size } rest tags =
      p.passed (vlan :: rest) tags := by
  simp only [TagParse.passed, innerType, List.length_cons, Nat.mul_succ, TagParse.mk.injEq,
    true_and, and_true]
  omega

/-- The loop passes all tags of the packet, or leaves the stack. -/
theorem parseVlans_cases {p : TagParse TagStack} (notDone : p.done = false)
    (enough : buffer.length ≤ p.offset + turns) :
    (p.tags.levels.length + (vlanChain buffer turns p.ethType p.offset).length ≤ maxStackSize ∧
      ∃ tags, parseVlans tagStackOps buffer buffer.length turns p =
        .ok (p.passed (vlanChain buffer turns p.ethType p.offset) tags)) ∨
    (maxStackSize < p.tags.levels.length + (vlanChain buffer turns p.ethType p.offset).length ∧
      parseVlans tagStackOps buffer buffer.length turns p = .error .outsideStack) := by
  induction turns generalizing p with
  | zero => exact Or.inl ⟨p.tags.bounded, p.tags, rfl⟩
  | succ turns ih =>
    rw [vlanChain, parseVlans]
    by_cases vlan : vlanType p.ethType
    · by_cases short : buffer.length < p.offset + vlanHeader.size
      · rw [if_pos vlan, if_pos short, if_pos vlan, Packed.load_eq_none_iff.mpr short]
        exact Or.inl ⟨p.tags.bounded, p.tags, by simp [TagParse.passed, innerType, vlan]⟩
      · obtain ⟨header, loaded, fetched⟩ := fetch_inside (Nat.le_of_not_lt short)
        have below : tagStackOps.top p.tags < maxStackSize := by
          have bounded := p.tags.bounded
          simp only [tagStackOps]
          omega
        rw [if_pos vlan, if_neg short, if_pos vlan, loaded, fetched]
        simp only [Except.bind, if_pos below, List.length_cons]
        rcases tagStackOps_add p.tags header.slot with
          ⟨room, grown, isGrown, added⟩ | ⟨full, failed⟩
        · have further := @ih
            { p with
              ethType := header.ethertype
              tags := grown
              offset := p.offset + vlanHeader.size } notDone (by simp; omega)
          simp only [isGrown, List.length_cons] at further
          rw [added]
          rcases further with ⟨fits, tags, parsed⟩ | ⟨tooMany, parsed⟩
          · refine Or.inl ⟨by omega, tags, parsed.trans ?_⟩
            rw [TagParse.passed_cons]
          · exact Or.inr ⟨by omega, parsed⟩
        · rw [failed]
          exact Or.inr ⟨by omega, rfl⟩
    · rw [if_neg vlan, if_neg vlan]
      refine Or.inl ⟨p.tags.bounded, p.tags, ?_⟩
      simp only [TagParse.passed, innerType, List.length_nil, Nat.mul_zero, Nat.add_zero]
      rw [Bool.not_eq_true] at vlan
      rw [vlan, ← notDone]

/-- A type that announces no VLAN tag is what comes next. -/
theorem parseTags_plain {σ : Type} (ops : StackOps σ) (pktLen : Nat) (tags : σ)
    (plain : vlanType ethType = false) :
    parseTags ops buffer pktLen ethType tags =
      .ok ⟨ethType, none, tags, ethHeader.size, false⟩ := by
  have first : parseFirstVlan ops buffer pktLen ⟨ethType, none, tags, ethHeader.size, false⟩ =
      .ok ⟨ethType, none, tags, ethHeader.size, false⟩ := by
    simp only [parseFirstVlan, plain, Bool.false_eq_true, if_false]
  rw [parseTags, first]
  cases pktLen with
  | zero => simp [Except.bind, parseVlans, plain]
  | succ turns => simp [Except.bind, parseVlans, plain]

/-- The reader passes all VLAN tags of the packet, or leaves the stack. -/
theorem parseTags_cases (ethType : BitVec 16) (tags : TagStack) :
    (tags.levels.length + (vlanChain buffer buffer.length ethType ethHeader.size).length ≤
        maxStackSize ∧
      ∃ outer grown, parseTags tagStackOps buffer buffer.length ethType tags =
        .ok (TagParse.passed ⟨ethType, outer, tags, ethHeader.size, false⟩
          (vlanChain buffer buffer.length ethType ethHeader.size) grown)) ∨
    (maxStackSize <
        tags.levels.length + (vlanChain buffer buffer.length ethType ethHeader.size).length ∧
      parseTags tagStackOps buffer buffer.length ethType tags = .error .outsideStack) := by
  by_cases vlan : vlanType ethType
  · by_cases short : buffer.length < ethHeader.size + vlanHeader.size
    · rw [vlanChain_short short]
      refine Or.inl ⟨tags.bounded, none, tags, ?_⟩
      rw [parseTags, parseFirstVlan, if_pos vlan, if_pos short]
      simp [Except.bind, TagParse.passed, innerType, vlan]
    · obtain ⟨header, loaded, fetched⟩ := fetch_inside (Nat.le_of_not_lt short)
      have chain : vlanChain buffer buffer.length ethType ethHeader.size =
          header :: vlanChain buffer buffer.length header.ethertype
            (ethHeader.size + vlanHeader.size) := by
        obtain ⟨turns, isLength⟩ : ∃ turns, buffer.length = turns + 1 :=
          ⟨buffer.length - 1, by simp at short; omega⟩
        rw [isLength, vlanChain, if_pos vlan, loaded, vlanChain_enough (by simp; omega)]
      rw [chain, parseTags, parseFirstVlan, if_pos vlan, if_neg short, fetched, List.length_cons]
      simp only [Except.bind]
      rcases tagStackOps_add tags header.slot with ⟨room, grown, isGrown, added⟩ | ⟨full, failed⟩
      · have further := @parseVlans_cases buffer buffer.length
          ⟨header.ethertype, some header.tag, grown, ethHeader.size + vlanHeader.size, false⟩ rfl
          (Nat.le_add_left _ _)
        simp only [isGrown, List.length_cons] at further
        rw [added]
        simp only [Except.map, Bool.false_eq_true, if_false]
        rcases further with ⟨fits, final, parsed⟩ | ⟨tooMany, parsed⟩
        · refine Or.inl ⟨by omega, some header.tag, final, parsed.trans ?_⟩
          rw [← TagParse.passed_cons _ header _ grown]
        · exact Or.inr ⟨by omega, parsed⟩
      · rw [failed]
        exact Or.inr ⟨by omega, rfl⟩
  · rw [Bool.not_eq_true] at vlan
    rw [vlanChain_plain vlan]
    refine Or.inl ⟨tags.bounded, none, tags, ?_⟩
    rw [parseTags_plain _ _ _ vlan]
    simp [TagParse.passed, innerType, vlan]

/-! ## The whole packet -/

/-- The VLAN tags that the reader passes. -/
def vlanTags (packet : List (BitVec 8)) : List VlanHeader :=
  match ethHeader.load packet 0 with
  | some eth => vlanChain packet packet.length eth.type ethHeader.size
  | none => []

/-- Where the headers of the link layer end. -/
def headerSize (packet : List (BitVec 8)) : Nat :=
  ethHeader.size + vlanHeader.size * (vlanTags packet).length

/-- The tags are inside the packet. -/
theorem vlanChain_inside (inside : offset ≤ buffer.length) :
    offset + vlanHeader.size * (vlanChain buffer turns ethType offset).length ≤ buffer.length := by
  induction turns generalizing ethType offset with
  | zero => exact inside
  | succ turns ih =>
    rw [vlanChain]
    split
    · split
      · rename_i vlan loaded
        have whole : offset + vlanHeader.size ≤ buffer.length :=
          (vlanHeader.load_isSome buffer offset).mp (by rw [loaded]; rfl)
        have further := @ih _ vlan.ethertype whole
        rw [List.length_cons, Nat.mul_succ]
        omega
      · exact inside
    · exact inside

/-- A packet shorter than an Ethernet header is read beyond its end. -/
theorem pktToNetflow_short (nf : Netflow) (short : buffer.length < ethHeader.size) :
    pktToNetflow buffer nf buffer.length = .error .outsideBuffer := by
  rw [pktToNetflow, fetch_outside (by rwa [Nat.zero_add])]
  rfl

/-- The rest of a packet is read to an end. -/
theorem parseBehindTags_ok (nf : Netflow) (eth : EthHeader) (p : TagParse TagStack)
    (inside : p.offset ≤ buffer.length) (isDone : p.done = vlanType p.ethType) :
    ∃ after, parseBehindTags buffer buffer.length nf eth p = .ok after ∧
      LinkKept after
        { nf with key := linkKey eth p.ethType p.outer nf.key, tags := p.tags } ∧
      (p.ethType = ethTypeLldp →
        after.payload = lldpPayload buffer p.offset ∧
          after.payloadLen = BitVec.ofNat 16 (buffer.length - p.offset)) := by
  rw [parseBehindTags]
  by_cases vlan : vlanType p.ethType
  · rw [if_pos (isDone.trans vlan)]
    refine ⟨_, rfl, LinkKept.refl _, fun isLldp => ?_⟩
    rw [isLldp] at vlan
    exact absurd vlan (by decide)
  · rw [if_neg (isDone ▸ vlan)]
    obtain ⟨after, read, kept⟩ := @parseNetwork_ok buffer p.offset
      { nf with key := linkKey eth p.ethType p.outer nf.key, tags := p.tags } inside
    refine ⟨after, read, kept, fun isLldp => ?_⟩
    have payload := @parseNetwork_lldp buffer p.offset
      { nf with key := linkKey eth p.ethType p.outer nf.key, tags := p.tags }
      ((linkKey_ethType _ _ _ _).trans isLldp) inside
    cases read.symm.trans payload
    exact ⟨rfl, rfl⟩

/-- The type of a packet: that of its last VLAN tag, or of its Ethernet header. -/
def packetType (packet : List (BitVec 8)) : Option (BitVec 16) :=
  (ethHeader.load packet 0).map fun eth => innerType eth.type (vlanTags packet)

/-- What the reader leaves of the payload of an LLDP packet. -/
def LldpRead (packet : List (BitVec 8)) (after : Netflow) : Prop :=
  after.key.ethType = ethTypeLldp →
    after.payload = lldpPayload packet (headerSize packet) ∧
      after.payloadLen = BitVec.ofNat 16 (packet.length - headerSize packet)

/-- A longer packet is read to an end, or its tags leave the stack. -/
theorem pktToNetflow_cases (nf : Netflow) (long : ethHeader.size ≤ buffer.length) :
    (nf.tags.levels.length + (vlanTags buffer).length ≤ maxStackSize ∧
      ∃ after, pktToNetflow buffer nf buffer.length = .ok after ∧
        packetType buffer = some after.key.ethType ∧ LldpRead buffer after) ∨
    (maxStackSize < nf.tags.levels.length + (vlanTags buffer).length ∧
      pktToNetflow buffer nf buffer.length = .error .outsideStack) := by
  obtain ⟨eth, loaded, fetched⟩ :=
    @fetch_inside _ ethHeader buffer 0 (by rwa [Nat.zero_add])
  have isTags : vlanTags buffer = vlanChain buffer buffer.length eth.type ethHeader.size := by
    rw [vlanTags, loaded]
  have inside : headerSize buffer ≤ buffer.length := by
    rw [headerSize, isTags]
    exact vlanChain_inside long
  rw [pktToNetflow, fetched, Except.bind]
  rcases @parseTags_cases buffer eth.type nf.tags with ⟨fits, outer, grown, parsed⟩ | ⟨many, parsed⟩
  · rw [← isTags] at fits parsed
    obtain ⟨after, read, kept, isLldp⟩ := parseBehindTags_ok nf eth
      (TagParse.passed ⟨eth.type, outer, nf.tags, ethHeader.size, false⟩ (vlanTags buffer) grown)
      inside rfl
    have isType : after.key.ethType = innerType eth.type (vlanTags buffer) :=
      kept.ethType.trans (linkKey_ethType _ _ _ _)
    refine Or.inl ⟨fits, after, ?_, ?_, fun type => isLldp (isType.symm.trans type)⟩
    · rw [parsed]
      exact read
    · rw [packetType, loaded, isType]
      rfl
  · rw [← isTags] at many
    rw [parsed]
    exact Or.inr ⟨many, rfl⟩

/-! ## Reading inside the packet -/

/-- No byte outside the packet is read. -/
def ReadsInside (packet : List (BitVec 8)) (nf : Netflow) : Prop :=
  pktToNetflow packet nf packet.length ≠ .error .outsideBuffer

/-- The payload of an LLDP packet is all that follows the headers. -/
def LldpExact (packet : List (BitVec 8)) (nf : Netflow) : Prop :=
  ∀ after, pktToNetflow packet nf packet.length = .ok after →
    after.key.ethType = ethTypeLldp →
      after.payload = packet.drop (headerSize packet) ∧
        after.payloadLen.toNat = packet.length - headerSize packet

/-- An LLDP packet whose tags fit on the stack is not so long that the length of its payload
wraps around.  No message of OpenFlow is. -/
def LldpFits (packet : List (BitVec 8)) (nf : Netflow) : Prop :=
  nf.tags.levels.length + (vlanTags packet).length ≤ maxStackSize →
    packetType packet = some ethTypeLldp → packet.length - headerSize packet < 2 ^ 16

theorem lldpExact_iff (packet : List (BitVec 8)) (nf : Netflow)
    (long : ethHeader.size ≤ packet.length) : LldpExact packet nf ↔ LldpFits packet nf := by
  rcases pktToNetflow_cases nf long with ⟨fits, other, readOther, isType, payload⟩ | ⟨many, failed⟩
  · rw [LldpFits, forall_prop_of_true fits, isType, Option.some_inj]
    constructor
    · intro exact isLldp
      rw [← (exact other readOther isLldp).2]
      exact other.payloadLen.isLt
    · intro small after read isLldp
      cases readOther.symm.trans read
      obtain ⟨isPayload, isLength⟩ := payload isLldp
      rw [isPayload, isLength, BitVec.toNat_ofNat, lldpPayload, Nat.mod_eq_of_lt (small isLldp)]
      refine ⟨List.take_of_length_le ?_, rfl⟩
      rw [List.length_drop]
  · refine iff_of_true (fun after read => ?_) fun fits => absurd fits (Nat.not_le.mpr many)
    cases failed.symm.trans read

/-- The reader stays inside the packet, and takes all of an LLDP payload, exactly if the
packet has an Ethernet header and is not too long for one of LLDP. -/
theorem reads_inside_iff (packet : List (BitVec 8)) (nf : Netflow) :
    ReadsInside packet nf ∧ LldpExact packet nf ↔
      ethHeader.size ≤ packet.length ∧ LldpFits packet nf := by
  by_cases long : ethHeader.size ≤ packet.length
  · have inside : ReadsInside packet nf := by
      intro outside
      rcases pktToNetflow_cases nf long with ⟨-, after, read, -⟩ | ⟨-, failed⟩
      · cases read.symm.trans outside
      · cases failed.symm.trans outside
    rw [lldpExact_iff packet nf long]
    exact and_congr (iff_of_true inside long) Iff.rfl
  · have short := pktToNetflow_short nf (Nat.lt_of_not_le long)
    exact iff_of_false (fun both => both.1 short) (fun both => long both.1)

/-- A packet-out without data has the reader read an Ethernet header all the same. -/
theorem reads_outside_empty : ¬ReadsInside [] netflowNew := by
  intro inside
  exact inside rfl

end Horse.Lib
