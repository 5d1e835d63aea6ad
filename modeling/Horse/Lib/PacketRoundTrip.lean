import Horse.Lib.PacketReader

/-!
# Untagged packets on the wire and back

What is left of a netflow without tags after it was written by `netflow_to_pkt` and read
again into a new netflow.  The headers of the link and transport layers, of ARP and the
addresses of IPv4 come back as they were.  The type-of-service byte is written with a
shift that is not the one it is read with, and IPv6 is written but not read.
-/

namespace Horse.Lib

open Horse.Codec

/-- No tag is a VLAN or MPLS tag. -/
def Untagged (nf : Netflow) : Prop :=
  ∀ t ∈ nf.tags.levels, t.isVlan = false ∧ t.isMpls = false

/-- The Ethernet header of a netflow. -/
def ethOf (m : OflFlowKey) : EthHeader :=
  ⟨m.ethDst, m.ethSrc, m.ethType⟩

theorem linkBytes_untagged {nf : Netflow} (untagged : Untagged nf) :
    linkBytes nf = ethHeader.pack (ethOf nf.key) := by
  have noTags : nf.tags.levels.reverse.flatMap tagToPkt = [] := by
    rw [List.flatMap_eq_nil_iff]
    intro t member
    obtain ⟨notVlan, notMpls⟩ := untagged t (List.mem_reverse.mp member)
    simp [tagToPkt, notVlan, notMpls]
  rw [linkBytes, noTags, List.append_nil]
  rfl

/-! ## Reading what was written -/

section Reading

variable {buffer : List (BitVec 8)} {eth : EthHeader} {offset : Nat}

/-- A packet without VLAN tags, read into a netflow. -/
theorem pktToNetflow_plain (loaded : ethHeader.load buffer 0 = some eth)
    (plain : vlanType eth.type = false) (nf : Netflow) :
    pktToNetflow buffer nf buffer.length =
      parseNetwork buffer buffer.length ethHeader.size
        { nf with key := linkKey eth eth.type none nf.key } := by
  rw [pktToNetflow, fetch_loaded loaded, Except.bind, parseTags_plain tagStackOps _ nf.tags plain]
  rfl

theorem parseNetwork_arp {nf : Netflow} {arp : ArpHeader} (isArp : nf.key.ethType = ethTypeArp)
    (loaded : arpHeader.load buffer offset = some arp) :
    parseNetwork buffer buffer.length offset nf = .ok { nf with key := arpKey arp nf.key } := by
  rw [parseNetwork, isArp]
  exact withHeader_loaded loaded nf _

theorem parseNetwork_ip {nf : Netflow} {ip : IpHeader} (isIp : nf.key.ethType = ethTypeIp)
    (loaded : ipHeader.load buffer offset = some ip) (whole : ip.fragOff = 0) :
    parseNetwork buffer buffer.length offset nf =
      parseL4 buffer buffer.length (offset + ipHeader.size)
        { nf with key := ipKey ip nf.key } := by
  rw [parseNetwork, isIp]
  refine (withHeader_loaded loaded nf _).trans ?_
  rw [whole]
  rfl

/-- The fields of the transport layer are those of the netflow that was written. -/
structure TransportRecovered (after nf : Netflow) : Prop where
  tcp : nf.key.ipProto = ipProtoTcp →
    after.key.tcpSrc = nf.key.tcpSrc ∧ after.key.tcpDst = nf.key.tcpDst
  udp : nf.key.ipProto = ipProtoUdp →
    after.key.udpSrc = nf.key.udpSrc ∧ after.key.udpDst = nf.key.udpDst
  icmp : nf.key.ipProto = ipProtoIcmpv4 →
    after.key.icmpv4Type = nf.key.icmpv4Type ∧ after.key.icmpv4Code = nf.key.icmpv4Code ∧
      (isEcho nf.key.icmpv4Type → after.icmpInfo = nf.icmpInfo)

/-- The ICMP header of a netflow. -/
def icmpOf (m : OflFlowKey) : IcmpHeader :=
  ⟨m.icmpv4Type, m.icmpv4Code, 0⟩

variable {start : Netflow}

theorem parseL4_icmp {icmp : IcmpHeader} (isIcmp : start.key.ipProto = ipProtoIcmpv4)
    (loaded : icmpHeader.load buffer offset = some icmp) :
    parseL4 buffer buffer.length offset start =
      parseEcho buffer buffer.length (offset + icmpHeader.size)
        { start with
          key := { start.key with icmpv4Code := icmp.code, icmpv4Type := icmp.type } } := by
  rw [parseL4, isIcmp]
  exact withHeader_loaded loaded start _

theorem parseEcho_loaded {info : IcmpEchoReply} (echo : isEcho start.key.icmpv4Type = true)
    (loaded : echoReply.load buffer offset = some info) :
    parseEcho buffer buffer.length offset start = .ok { start with icmpInfo := info } := by
  rw [parseEcho, if_pos echo, withHeader_loaded loaded]

theorem parseEcho_other (other : ¬isEcho start.key.icmpv4Type = true) :
    parseEcho buffer buffer.length offset start = .ok start := by
  rw [parseEcho, if_neg other]

/-- The transport layer is read as it was written, wherever it stands. -/
theorem parseL4_transportBytes (before : List (BitVec 8)) (nf start : Netflow)
    (isBuffer : buffer = before ++ transportBytes nf) (here : offset = before.length)
    (sameProto : start.key.ipProto = nf.key.ipProto) :
    ∃ after, parseL4 buffer buffer.length offset start = .ok after ∧
      TransportOnly after start ∧ TransportRecovered after nf := by
  obtain ⟨after, read, only⟩ := @parseL4_ok buffer offset start
  refine ⟨after, read, only, ?_, ?_, ?_⟩
  · intro isTcp
    have loaded : tcpHeader.load buffer offset = some (tcpOf nf.key) := by
      have written := tcpHeader.load_pack before (tcpOf nf.key) []
      simpa [isBuffer, here, transportBytes, isTcp] using written
    rw [parseL4, sameProto, isTcp] at read
    cases read.symm.trans (withHeader_loaded loaded start _)
    exact ⟨rfl, rfl⟩
  · intro isUdp
    have loaded : udpHeader.load buffer offset = some (udpOf nf.key) := by
      have written := udpHeader.load_pack before (udpOf nf.key) []
      simpa [isBuffer, here, transportBytes, isUdp, ipProtoUdp, ipProtoTcp] using written
    rw [parseL4, sameProto, isUdp] at read
    cases read.symm.trans (withHeader_loaded loaded start _)
    exact ⟨rfl, rfl⟩
  · intro isIcmp
    have bytes : transportBytes nf = icmpHeader.pack (icmpOf nf.key) ++
        if isEcho nf.key.icmpv4Type then echoReply.pack nf.icmpInfo else [] := by
      simp [transportBytes, isIcmp, ipProtoIcmpv4, ipProtoUdp, ipProtoTcp, icmpOf]
    have loaded : icmpHeader.load buffer offset = some (icmpOf nf.key) := by
      rw [isBuffer, here, bytes]
      exact icmpHeader.load_pack _ _ _
    have header := read.symm.trans (parseL4_icmp (sameProto.trans isIcmp) loaded)
    by_cases echo : isEcho nf.key.icmpv4Type
    · have data : echoReply.load buffer (offset + icmpHeader.size) = some nf.icmpInfo := by
        have written := echoReply.load_pack (before ++ icmpHeader.pack (icmpOf nf.key))
          nf.icmpInfo []
        rw [List.length_append, icmpHeader.length_pack, List.append_nil, List.append_assoc]
          at written
        rw [isBuffer, here, bytes, if_pos echo]
        exact written
      cases header.trans (parseEcho_loaded echo data)
      exact ⟨rfl, rfl, fun _ => rfl⟩
    · cases header.trans (parseEcho_other echo)
      exact ⟨rfl, rfl, fun isEchoType => absurd isEchoType echo⟩

end Reading

/-! ## Round trips -/

section RoundTrips

variable {nf : Netflow}

/-- The Ethernet header of an untagged netflow is read first. -/
theorem load_link (untagged : Untagged nf) (rest : List (BitVec 8)) :
    ethHeader.load (linkBytes nf ++ rest) 0 = some (ethOf nf.key) := by
  rw [linkBytes_untagged untagged]
  exact ethHeader.load_pack [] (ethOf nf.key) rest

theorem length_linkBytes (untagged : Untagged nf) : (linkBytes nf).length = ethHeader.size := by
  rw [linkBytes_untagged untagged, ethHeader.length_pack]

/-- The header behind the Ethernet header of an untagged netflow. -/
theorem load_behind {α : Type} (format : Packed α) (untagged : Untagged nf) (value : α)
    (rest : List (BitVec 8)) :
    format.load (linkBytes nf ++ (format.pack value ++ rest)) ethHeader.size = some value := by
  rw [← length_linkBytes untagged]
  exact format.load_pack _ _ _

/-- A new netflow after the Ethernet header of another one was read into it. -/
def linkRead (m : OflFlowKey) : Netflow :=
  { netflowNew with key := linkKey (ethOf m) m.ethType none netflowNew.key }

/-- An untagged packet that was written, as it is read into a new netflow. -/
theorem pktToNetflow_written (untagged : Untagged nf) (plain : vlanType nf.key.ethType = false)
    (rest : List (BitVec 8)) :
    pktToNetflow (linkBytes nf ++ rest) netflowNew (linkBytes nf ++ rest).length =
      parseNetwork (linkBytes nf ++ rest) (linkBytes nf ++ rest).length ethHeader.size
        (linkRead nf.key) :=
  pktToNetflow_plain (load_link untagged rest) plain netflowNew

/-- What the headers of an untagged netflow come back as. -/
structure Recovered (after nf : Netflow) : Prop where
  ethSrc : after.key.ethSrc = nf.key.ethSrc
  ethDst : after.key.ethDst = nf.key.ethDst
  ethType : after.key.ethType = nf.key.ethType
  arp : nf.key.ethType = ethTypeArp →
    after.key.arpOp = nf.key.arpOp ∧ after.key.arpSpa = nf.key.arpSpa ∧
      after.key.arpTpa = nf.key.arpTpa ∧ after.key.arpSha = nf.key.arpSha ∧
      after.key.arpTha = nf.key.arpTha
  lldp : nf.key.ethType = ethTypeLldp →
    after.payload = nf.payload.take nf.payloadLen.toNat ∧ after.payloadLen = nf.payloadLen
  ipv4 : nf.key.ethType = ethTypeIp →
    after.key.ipv4Src = nf.key.ipv4Src ∧ after.key.ipv4Dst = nf.key.ipv4Dst ∧
      after.key.ipProto = nf.key.ipProto ∧ TransportRecovered after nf

/-- The netflow is written, and read again into one of which something holds. -/
def RoundTrip (nf : Netflow) (post : Netflow → Prop) : Prop :=
  ∃ bytes after, netflowToPkt nf = some bytes ∧
    pktToNetflow bytes netflowNew bytes.length = .ok after ∧ post after

theorem roundTrip_arp (untagged : Untagged nf) (isArp : nf.key.ethType = ethTypeArp)
    (op : nf.key.arpOp = arpOpRequest ∨ nf.key.arpOp = arpOpReply) :
    RoundTrip nf fun after => Recovered after nf := by
  have written := netflowToPkt_arp isArp
  have plain : vlanType nf.key.ethType = false := by rw [isArp]; rfl
  have read := pktToNetflow_written untagged plain (arpHeader.pack (arpOf nf.key))
  have loaded := load_behind arpHeader untagged (arpOf nf.key) []
  rw [List.append_nil] at loaded
  have network := @parseNetwork_arp _ _ (linkRead nf.key) (arpOf nf.key) isArp loaded
  have kept := arpKey_linkKept (arpOf nf.key) (linkRead nf.key)
  refine ⟨_, _, written, read.trans network, kept.ethSrc, kept.ethDst, kept.ethType, ?_, ?_, ?_⟩
  · intro _
    have accepted : arpKey (arpOf nf.key) (linkRead nf.key).key =
        { (linkRead nf.key).key with
          arpOp := nf.key.arpOp
          arpSpa := nf.key.arpSpa
          arpTpa := nf.key.arpTpa
          arpSha := nf.key.arpSha
          arpTha := nf.key.arpTha } := by
      rcases op with request | reply
      · simp [arpKey, arpOf, request, arpHwTypeEth, arpOpRequest]
      · simp [arpKey, arpOf, reply, arpHwTypeEth, arpOpReply, arpOpRequest]
    simp only [accepted, and_self]
  · intro isLldp
    exact absurd (isArp.symm.trans isLldp) (by decide)
  · intro isIp
    exact absurd (isArp.symm.trans isIp) (by decide)

theorem roundTrip_lldp (untagged : Untagged nf) (isLldp : nf.key.ethType = ethTypeLldp)
    (held : nf.payloadLen.toNat ≤ nf.payload.length) :
    RoundTrip nf fun after => Recovered after nf := by
  have written : netflowToPkt nf =
      some (linkBytes nf ++ nf.payload.take nf.payloadLen.toNat) := by
    rw [netflowToPkt_lldp isLldp, copyBytes, if_pos (by rwa [Nat.zero_add])]
    rfl
  have plain : vlanType nf.key.ethType = false := by rw [isLldp]; rfl
  have read := pktToNetflow_written untagged plain (nf.payload.take nf.payloadLen.toNat)
  have size : (linkBytes nf ++ nf.payload.take nf.payloadLen.toNat).length =
      ethHeader.size + nf.payloadLen.toNat := by
    rw [List.length_append, length_linkBytes untagged, List.length_take_of_le held]
  have isType : (linkRead nf.key).key.ethType = ethTypeLldp := isLldp
  have network := parseNetwork_lldp isType (size ▸ Nat.le_add_right _ _)
  refine ⟨_, _, written, read.trans network, rfl, rfl, rfl, ?_, ?_, ?_⟩
  · intro isArp
    exact absurd (isLldp.symm.trans isArp) (by decide)
  · intro _
    have behind : (linkBytes nf ++ nf.payload.take nf.payloadLen.toNat).drop ethHeader.size =
        nf.payload.take nf.payloadLen.toNat := List.drop_left' (length_linkBytes untagged)
    have small : nf.payloadLen.toNat % 2 ^ 16 = nf.payloadLen.toNat :=
      Nat.mod_eq_of_lt nf.payloadLen.isLt
    constructor
    · simp only [lldpPayload, behind, size, Nat.add_sub_cancel_left, small, List.take_take,
        Nat.min_self]
    · simp only [size, Nat.add_sub_cancel_left, BitVec.ofNat_toNat, BitVec.setWidth_eq]
  · intro isIp
    exact absurd (isLldp.symm.trans isIp) (by decide)

/-- The network and transport layers of an untagged IPv4 netflow. -/
theorem roundTrip_ip (untagged : Untagged nf) (isIp : nf.key.ethType = ethTypeIp) :
    RoundTrip nf fun after =>
      TransportOnly after
        { linkRead nf.key with key := ipKey (patchedIp nf) (linkRead nf.key).key } ∧
      TransportRecovered after nf := by
  have written := netflowToPkt_ip isIp
  have plain : vlanType nf.key.ethType = false := by rw [isIp]; rfl
  have read := pktToNetflow_written untagged plain
    (ipHeader.pack (patchedIp nf) ++ transportBytes nf)
  have network := @parseNetwork_ip _ _ (linkRead nf.key) (patchedIp nf) isIp
    (load_behind ipHeader untagged (patchedIp nf) (transportBytes nf)) rfl
  have behind : (linkBytes nf ++ ipHeader.pack (patchedIp nf)).length =
      ethHeader.size + ipHeader.size := by
    rw [List.length_append, length_linkBytes untagged, ipHeader.length_pack]
  obtain ⟨after, transport, only, recovered⟩ :=
    parseL4_transportBytes (linkBytes nf ++ ipHeader.pack (patchedIp nf)) nf
      { linkRead nf.key with key := ipKey (patchedIp nf) (linkRead nf.key).key }
      (List.append_assoc _ _ _).symm behind.symm rfl
  exact ⟨_, after, written, (read.trans network).trans transport, only, recovered⟩

/-- The kinds of netflows whose headers come back. -/
def Supported (nf : Netflow) : Prop :=
  (nf.key.ethType = ethTypeArp ∧
    (nf.key.arpOp = arpOpRequest ∨ nf.key.arpOp = arpOpReply)) ∨
  (nf.key.ethType = ethTypeLldp ∧ nf.payloadLen.toNat ≤ nf.payload.length) ∨
  (nf.key.ethType = ethTypeIp ∧
    (nf.key.ipProto = ipProtoTcp ∨ nf.key.ipProto = ipProtoUdp ∨
      nf.key.ipProto = ipProtoIcmpv4))

/-- The length in the header of the network layer counts the bytes from that header on for
IPv4, and those behind it for IPv6. -/
def LengthWritten (nf : Netflow) : Prop :=
  (nf.key.ethType = ethTypeIp → ∃ bytes, netflowToPkt nf = some bytes ∧
    readBe bytes ((linkBytes nf).length + 2) 2 = some (bytes.length - (linkBytes nf).length)) ∧
  (nf.key.ethType = ethTypeIpv6 → ∃ bytes, netflowToPkt nf = some bytes ∧
    readBe bytes ((linkBytes nf).length + 4) 2 =
      some (bytes.length - ((linkBytes nf).length + ipv6Header.size)))

/-- A member of a header is read where it was patched. -/
theorem readBe_uint16 (before after : List (BitVec 8)) (value : BitVec 16) :
    readBe (before ++ (uint16.pack value ++ after)) before.length 2 = some value.toNat := by
  have read := readBe_packBe before after 2 value.toNat
  have small : value.toNat < 256 ^ 2 := value.isLt
  rw [Nat.mod_eq_of_lt small] at read
  exact read

theorem lengthWritten (nf : Netflow) : LengthWritten nf := by
  have short := length_transportBytes_le nf
  constructor
  · intro isIp
    obtain ⟨front, back, frontSize, isPacked⟩ := ipHeader_pack (ipOf nf.key)
    have patched : ipHeader.pack (patchedIp nf) = _ := isPacked _
    have read := readBe_uint16 (linkBytes nf ++ front) (back ++ transportBytes nf)
      (patchedIp nf).totLen
    have counted : (patchedIp nf).totLen.toNat = 20 + (transportBytes nf).length := by
      have twenty : (20 : BitVec 16).toNat = 20 := rfl
      simp only [patchedIp, BitVec.toNat_add, BitVec.toNat_ofNat, twenty]
      omega
    have size : (linkBytes nf ++ (ipHeader.pack (patchedIp nf) ++ transportBytes nf)).length -
        (linkBytes nf).length = 20 + (transportBytes nf).length := by
      rw [List.length_append, List.length_append, ipHeader.length_pack, ipHeader_size]
      omega
    refine ⟨_, netflowToPkt_ip isIp, ?_⟩
    rw [size, ← counted, patched]
    simp only [List.append_assoc, List.length_append, frontSize] at read ⊢
    exact read
  · intro isIpv6
    obtain ⟨front, back, frontSize, isPacked⟩ := ipv6Header_pack (ipv6Of nf.key)
    have patched : ipv6Header.pack (patchedIpv6 nf) = _ := isPacked _
    have read := readBe_uint16 (linkBytes nf ++ front) (back ++ transportBytes nf)
      (patchedIpv6 nf).payLen
    have counted : (patchedIpv6 nf).payLen.toNat = (transportBytes nf).length := by
      have zero : (0 : BitVec 16).toNat = 0 := rfl
      simp only [patchedIpv6, BitVec.toNat_add, BitVec.toNat_ofNat, zero]
      omega
    have size : (linkBytes nf ++ (ipv6Header.pack (patchedIpv6 nf) ++ transportBytes nf)).length -
        ((linkBytes nf).length + ipv6Header.size) = (transportBytes nf).length := by
      rw [List.length_append, List.length_append, ipv6Header.length_pack]
      omega
    refine ⟨_, netflowToPkt_ipv6 isIpv6, ?_⟩
    rw [size, ← counted, patched]
    simp only [List.append_assoc, List.length_append, frontSize] at read ⊢
    exact read

/-- An untagged netflow of ARP, LLDP or the usual protocols over IPv4 comes back from the
wire, and the length in its network layer is right. -/
theorem untagged_round_trip (nf : Netflow) (untagged : Untagged nf) :
    (Supported nf → RoundTrip nf fun after => Recovered after nf) ∧ LengthWritten nf := by
  refine ⟨?_, lengthWritten nf⟩
  rintro (⟨isArp, op⟩ | ⟨isLldp, held⟩ | ⟨isIp, -⟩)
  · exact roundTrip_arp untagged isArp op
  · exact roundTrip_lldp untagged isLldp held
  · obtain ⟨bytes, after, written, read, only, transport⟩ := roundTrip_ip untagged isIp
    obtain ⟨_, _, _, _, _, _, _, rfl⟩ := only
    refine ⟨bytes, _, written, read, rfl, rfl, rfl, ?_, ?_, ?_⟩
    · intro isArp
      exact absurd (isIp.symm.trans isArp) (by decide)
    · intro isLldp
      exact absurd (isIp.symm.trans isLldp) (by decide)
    · intro _
      exact ⟨rfl, rfl, rfl, transport⟩

/-- A ping, which is an untagged netflow of this kind. -/
def pingFlow : Netflow :=
  { netflowNew with
    key := { OflFlowKey.zero with
      ethType := ethTypeIp
      ipProto := ipProtoIcmpv4
      icmpv4Type := pingEcho
      ipv4Src := 0x0a000001
      ipv4Dst := 0x0a000002 } }

theorem untagged_pingFlow : Untagged pingFlow := by
  intro t member
  cases List.mem_singleton.mp member
  exact ⟨rfl, rfl⟩

theorem ping_round_trip :
    Untagged pingFlow ∧ Supported pingFlow ∧
      (RoundTrip pingFlow fun after => Recovered after pingFlow) := by
  have supported : Supported pingFlow := Or.inr (Or.inr ⟨rfl, Or.inr (Or.inr rfl)⟩)
  exact ⟨untagged_pingFlow, supported,
    (untagged_round_trip pingFlow untagged_pingFlow).1 supported⟩

end RoundTrips

/-! ## The type of service and IPv6 -/

/-- The fields of the network layer that an IPv4 or IPv6 netflow should come back with,
and the ports behind an IPv6 header. -/
structure NetworkRecovered (after nf : Netflow) : Prop where
  ipv4 : nf.key.ethType = ethTypeIp →
    after.key.ipDscp = nf.key.ipDscp ∧ after.key.ipEcn = nf.key.ipEcn
  ipv6 : nf.key.ethType = ethTypeIpv6 →
    after.key.ipv6Src = nf.key.ipv6Src ∧ after.key.ipv6Dst = nf.key.ipv6Dst ∧
      after.key.ipProto = nf.key.ipProto ∧
      (nf.key.ipProto = ipProtoTcp →
        after.key.tcpSrc = nf.key.tcpSrc ∧ after.key.tcpDst = nf.key.tcpDst) ∧
      (nf.key.ipProto = ipProtoUdp →
        after.key.udpSrc = nf.key.udpSrc ∧ after.key.udpDst = nf.key.udpDst)

/-- The type of service is written one bit too low. -/
theorem tos_recovered_iff {dscp ecn : BitVec 8} (dscpSmall : dscp < 64) (ecnSmall : ecn < 4) :
    ((((0 ||| dscp) <<< 1) ||| ecn) >>> 2 = dscp ∧
      (((0 ||| dscp) <<< 1) ||| ecn) &&& ipEcnMask = ecn) ↔ dscp = 0 := by
  have dscpBits : (dscp.setWidth 6).setWidth 8 = dscp := by
    apply BitVec.eq_of_toNat_eq
    have small : dscp.toNat < 64 := dscpSmall
    simp only [BitVec.toNat_setWidth]
    omega
  have ecnBits : (ecn.setWidth 2).setWidth 8 = ecn := by
    apply BitVec.eq_of_toNat_eq
    have small : ecn.toNat < 4 := ecnSmall
    simp only [BitVec.toNat_setWidth]
    omega
  have all : ∀ (d : BitVec 6) (e : BitVec 2),
      ((((0 ||| d.setWidth 8) <<< 1) ||| e.setWidth 8) >>> 2 = d.setWidth 8 ∧
        (((0 ||| d.setWidth 8) <<< 1) ||| e.setWidth 8) &&& ipEcnMask = e.setWidth 8) ↔
      d.setWidth 8 = (0 : BitVec 8) := by
    decide +kernel
  rw [← dscpBits, ← ecnBits]
  exact all _ _

/-- An IPv6 netflow is written as a packet that is not read behind its Ethernet header. -/
theorem roundTrip_ipv6 {nf : Netflow} (untagged : Untagged nf)
    (isIpv6 : nf.key.ethType = ethTypeIpv6) :
    RoundTrip nf fun after => after = linkRead nf.key := by
  have plain : vlanType nf.key.ethType = false := by rw [isIpv6]; rfl
  have read := pktToNetflow_written untagged plain
    (ipv6Header.pack (patchedIpv6 nf) ++ transportBytes nf)
  have isType : (linkRead nf.key).key.ethType = ethTypeIpv6 := isIpv6
  refine ⟨_, _, netflowToPkt_ipv6 isIpv6, read.trans ?_, rfl⟩
  rw [parseNetwork, isType]
  rfl

/-- The fields of the network layer come back from the wire only if the code point of an
IPv4 netflow is zero, or the addresses and the next header of an IPv6 netflow are. -/
theorem network_layer_round_trip_iff (nf : Netflow) (untagged : Untagged nf)
    (isNetwork : nf.key.ethType = ethTypeIp ∨ nf.key.ethType = ethTypeIpv6)
    (dscpSmall : nf.key.ipDscp < 64) (ecnSmall : nf.key.ipEcn < 4) :
    RoundTrip nf fun after =>
      NetworkRecovered after nf ↔
        (nf.key.ethType = ethTypeIp → nf.key.ipDscp = 0) ∧
        (nf.key.ethType = ethTypeIpv6 →
          nf.key.ipv6Src = 0 ∧ nf.key.ipv6Dst = 0 ∧ nf.key.ipProto = 0) := by
  rcases isNetwork with isIp | isIpv6
  · have notIpv6 : ¬nf.key.ethType = ethTypeIpv6 := fun isIpv6 =>
      absurd (isIp.symm.trans isIpv6) (by decide)
    obtain ⟨bytes, after, written, read, only, -⟩ := roundTrip_ip untagged isIp
    obtain ⟨_, _, _, _, _, _, _, rfl⟩ := only
    refine ⟨bytes, _, written, read, ?_⟩
    have tos := tos_recovered_iff dscpSmall ecnSmall
    constructor
    · intro recovered
      exact ⟨fun _ => tos.mp (recovered.ipv4 isIp), fun isIpv6 => absurd isIpv6 notIpv6⟩
    · intro zero
      exact ⟨fun _ => tos.mpr (zero.1 isIp), fun isIpv6 => absurd isIpv6 notIpv6⟩
  · have notIp : ¬nf.key.ethType = ethTypeIp := fun isIp =>
      absurd (isIp.symm.trans isIpv6) (by decide)
    obtain ⟨bytes, after, written, read, rfl⟩ := roundTrip_ipv6 untagged isIpv6
    refine ⟨bytes, _, written, read, ?_⟩
    constructor
    · intro recovered
      obtain ⟨src, dst, proto, -⟩ := recovered.ipv6 isIpv6
      exact ⟨fun isIp => absurd isIp notIp, fun _ => ⟨src.symm, dst.symm, proto.symm⟩⟩
    · intro zero
      obtain ⟨src, dst, proto⟩ := zero.2 isIpv6
      refine ⟨fun isIp => absurd isIp notIp, fun _ => ⟨src.symm, dst.symm, proto.symm, ?_, ?_⟩⟩
      · intro isTcp
        exact absurd (proto.symm.trans isTcp) (by decide)
      · intro isUdp
        exact absurd (proto.symm.trans isUdp) (by decide)

/-- The ping comes back with its network layer, since its code point is zero. -/
theorem ping_network_layer_round_trip :
    RoundTrip pingFlow fun after => NetworkRecovered after pingFlow := by
  obtain ⟨bytes, after, written, read, recovered⟩ :=
    network_layer_round_trip_iff pingFlow untagged_pingFlow (Or.inl rfl) (by decide) (by decide)
  exact ⟨bytes, after, written, read, recovered.mpr ⟨fun _ => rfl, fun isIpv6 =>
    absurd isIpv6 (by decide)⟩⟩

/-- A ping with a code point of its own. -/
def markedPing : Netflow :=
  { pingFlow with key := { pingFlow.key with ipDscp := 1 } }

/-- An IPv6 netflow with a source address. -/
def ipv6Flow : Netflow :=
  { pingFlow with key := { pingFlow.key with ethType := ethTypeIpv6, ipv6Src := 1 } }

/-- The code point 1 comes back as 0, and the address 1 as 0. -/
theorem network_layer_lost :
    (RoundTrip markedPing fun after =>
      after.key.ipDscp = 0 ∧ ¬NetworkRecovered after markedPing) ∧
    (RoundTrip ipv6Flow fun after =>
      after.key.ipv6Src = 0 ∧ ¬NetworkRecovered after ipv6Flow) := by
  constructor
  · obtain ⟨bytes, after, written, read, only, -⟩ :=
      @roundTrip_ip markedPing untagged_pingFlow rfl
    obtain ⟨_, _, _, _, _, _, _, rfl⟩ := only
    refine ⟨bytes, _, written, read, rfl, fun recovered => ?_⟩
    have same : (0 : BitVec 8) = 1 := (recovered.ipv4 rfl).1
    exact absurd same (by decide)
  · obtain ⟨bytes, after, written, read, rfl⟩ := @roundTrip_ipv6 ipv6Flow untagged_pingFlow rfl
    refine ⟨bytes, _, written, read, rfl, fun recovered => ?_⟩
    have same : (0 : BitVec 128) = 1 := (recovered.ipv6 rfl).1
    exact absurd same (by decide)

end Horse.Lib
