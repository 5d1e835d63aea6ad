import Horse.Lib.Packets

/-!
# From netflows to packets and back

A netflow is written as the header of one packet, and a packet that a controller sends
is read into a netflow.  The writer copies tags as they lie in memory, the innermost one
first, and patches the length of the network layer in at the end.  The reader has a test
of the remaining length for every header but the first.

What the reader does to the tag stack is written for any representation of the stack, so
that it runs on the array of the source as well as on the list of `TagStack`.
-/

namespace Horse.Lib

open Horse.Codec

/-! ## Writing -/

/-- `vlan_to_pkt` and `mpls_to_pkt`: the union of a tag as it lies in memory.  A tag of
another type is not written. -/
def tagToPkt (t : Tag) : List (BitVec 8) :=
  if t.isMpls then hostBytes 4 t.word
  else if t.isVlan then hostBytes 4 t.word
  else []

/-- The Ethernet header and the tags, from `level[0]` on. -/
def linkBytes (nf : Netflow) : List (BitVec 8) :=
  ethHeader.pack ⟨nf.key.ethDst, nf.key.ethSrc, nf.key.ethType⟩ ++
    nf.tags.levels.reverse.flatMap tagToPkt

/-- The ARP header. -/
def arpOf (m : OflFlowKey) : ArpHeader where
  hrd := arpHwTypeEth
  pro := ethTypeIp
  hln := 6
  pln := 4
  op := m.arpOp
  sha := m.arpSha
  spa := m.arpSpa
  tha := m.arpTha
  tpa := m.arpTpa

/-- The IPv4 header; `tos` is zero where the source reads it back. -/
def ipOf (m : OflFlowKey) : IpHeader where
  ihlVer := (1 <<< 6) ||| 5
  tos := ((0 ||| m.ipDscp) <<< 1) ||| m.ipEcn
  totLen := 20
  id := 0
  fragOff := 0
  ttl := 0
  proto := m.ipProto
  csum := 0
  src := m.ipv4Src
  dst := m.ipv4Dst

/-- The IPv6 header. -/
def ipv6Of (m : OflFlowKey) : Ipv6Header where
  verTcFl := 0
  payLen := 0
  nextHd := m.ipProto
  hopLimit := 0
  src := m.ipv6Src
  dst := m.ipv6Dst

/-- The TCP header. -/
def tcpOf (m : OflFlowKey) : TcpHeader where
  src := m.tcpSrc
  dst := m.tcpDst
  seq := 0
  ack := 0
  ctl := 0
  winsz := 0
  csum := 0
  urg := 0

/-- The UDP header. -/
def udpOf (m : OflFlowKey) : UdpHeader where
  src := m.udpSrc
  dst := m.udpDst
  len := 8
  csum := 0

/-- Whether echo data belongs to an ICMP type. -/
def isEcho (type : BitVec 8) : Bool :=
  type == pingEcho || type == pingEchoReply

/-- The buffer as far as it is written, so that `offset` is its length, and
`payload_len`. -/
structure L4Writer where
  buffer : List (BitVec 8)
  payloadLen : BitVec 16

/-- Write a header and count its size. -/
def L4Writer.put {α : Type} (w : L4Writer) (format : Packed α) (value : α) : L4Writer :=
  ⟨w.buffer ++ format.pack value, w.payloadLen + BitVec.ofNat 16 format.size⟩

/-- The branch for TCP behind the label `l4` of `netflow_to_pkt`. -/
def writeTcp (m : OflFlowKey) (w : L4Writer) : L4Writer :=
  if m.ipProto == ipProtoTcp then w.put tcpHeader (tcpOf m) else w

/-- The branch for UDP. -/
def writeUdp (m : OflFlowKey) (w : L4Writer) : L4Writer :=
  if m.ipProto == ipProtoUdp then w.put udpHeader (udpOf m) else w

/-- The branch for ICMPv4. -/
def writeIcmpv4 (nf : Netflow) (w : L4Writer) : L4Writer :=
  if nf.key.ipProto == ipProtoIcmpv4 then
    let w := w.put icmpHeader ⟨nf.key.icmpv4Type, nf.key.icmpv4Code, 0⟩
    if isEcho nf.key.icmpv4Type then w.put echoReply nf.icmpInfo else w
  else w

/-- The branch for ICMPv6. -/
def writeIcmpv6 (m : OflFlowKey) (w : L4Writer) : L4Writer :=
  if m.ipProto == ipProtoIcmpv6 then
    w.put icmpHeader ⟨m.icmpv6Type, m.icmpv6Code, 0⟩
  else w

/-- The transport layer, and the length that is patched in at `lengthOffset`. -/
def writeL4 (nf : Netflow) (lengthOffset : Nat) (w : L4Writer) : Option (List (BitVec 8)) :=
  let w := writeIcmpv6 nf.key (writeIcmpv4 nf (writeUdp nf.key (writeTcp nf.key w)))
  storeBytes w.buffer lengthOffset (uint16.pack w.payloadLen)

/-- `netflow_to_pkt`: the bytes that are written, of which there are as many as the
function returns.  A payload shorter than its length is read beyond its end. -/
def netflowToPkt (nf : Netflow) : Option (List (BitVec 8)) :=
  let m := nf.key
  let link := linkBytes nf
  if m.ethType == ethTypeLldp then
    (copyBytes nf.payload 0 nf.payloadLen.toNat).map fun payload => link ++ payload
  else if m.ethType == ethTypeArp then some (link ++ arpHeader.pack (arpOf m))
  else if m.ethType == ethTypeIp then
    writeL4 nf (link.length + 2) ⟨link ++ ipHeader.pack (ipOf m), 20⟩
  else if m.ethType == ethTypeIpv6 then
    writeL4 nf (link.length + 4) ⟨link ++ ipv6Header.pack (ipv6Of m), 0⟩
  else some link

/-! ## Reading -/

/-- How the reader can leave its memory. -/
inductive ParseFault
  | outsideBuffer
  | outsideStack
  deriving DecidableEq, Repr

/-- Read a header at an offset. -/
def fetch {α : Type} (format : Packed α) (buffer : List (BitVec 8)) (offset : Nat) :
    Except ParseFault α :=
  match format.load buffer offset with
  | some value => .ok value
  | none => .error .outsideBuffer

/-- What the reader uses of a tag stack: the index `top`, and the assignment of the slot
above it, undefined outside the array. -/
structure StackOps (σ : Type) where
  top : σ → Int
  grow : σ → Tag → Option σ

/-- The assignment of the next slot. -/
def StackOps.add {σ : Type} (ops : StackOps σ) (tags : σ) (tag : Tag) : Except ParseFault σ :=
  match ops.grow tags tag with
  | some tags => .ok tags
  | none => .error .outsideStack

/-- The number that bytes make in memory. -/
def hostNumber : List (BitVec 8) → Nat
  | [] => 0
  | byte :: rest => byte.toNat + 256 * hostNumber rest

/-- The slot that the reader fills: its type is that of what follows the tag, and the
bytes of the tag are copied as they are. -/
def VlanHeader.slot (vlan : VlanHeader) : Tag :=
  ⟨vlan.ethertype, BitVec.ofNat 32 (hostNumber (vlanHeader.pack vlan))⟩

/-- The reader among the VLAN tags: the type of what comes next, the tag word of the
outer tag, and whether the reader has returned. -/
structure TagParse (σ : Type) where
  ethType : BitVec 16
  outer : Option (BitVec 16)
  tags : σ
  offset : Nat
  done : Bool

section Tags

variable {σ : Type} (ops : StackOps σ) (buffer : List (BitVec 8)) (pktLen : Nat)

/-- The first VLAN tag, which is added without a test of the stack. -/
def parseFirstVlan (p : TagParse σ) : Except ParseFault (TagParse σ) :=
  if vlanType p.ethType then
    if pktLen < p.offset + vlanHeader.size then .ok { p with done := true }
    else
      (fetch vlanHeader buffer p.offset).bind fun vlan =>
        (ops.add p.tags vlan.slot).map fun tags =>
          { p with
            ethType := vlan.ethertype
            outer := some vlan.tag
            tags := tags
            offset := p.offset + vlanHeader.size }
  else .ok p

/-- The loop over the rest of the VLAN tags.  A turn needs the bytes of a tag, so that
as many turns as there are bytes are enough; without any the test of the length fails. -/
def parseVlans : Nat → TagParse σ → Except ParseFault (TagParse σ)
  | 0, p => .ok { p with done := vlanType p.ethType }
  | turns + 1, p =>
    if vlanType p.ethType then
      if pktLen < p.offset + vlanHeader.size then .ok { p with done := true }
      else
        (fetch vlanHeader buffer p.offset).bind fun vlan =>
          if ops.top p.tags < maxStackSize then
            (ops.add p.tags vlan.slot).bind fun tags =>
              parseVlans turns
                { p with
                  ethType := vlan.ethertype
                  tags := tags
                  offset := p.offset + vlanHeader.size }
          else .ok { p with ethType := vlan.ethertype, done := true }
    else .ok p

/-- All VLAN tags behind an Ethernet header. -/
def parseTags (ethType : BitVec 16) (tags : σ) : Except ParseFault (TagParse σ) :=
  (parseFirstVlan ops buffer pktLen ⟨ethType, none, tags, ethHeader.size, false⟩).bind fun p =>
    if p.done then .ok p else parseVlans ops buffer pktLen pktLen p

end Tags

/-- The list of `TagStack` as a stack. -/
def tagStackOps : StackOps TagStack where
  top tags := (tags.levels.length : Int) - 1
  grow tags tag :=
    if room : tags.levels.length < maxStackSize then some (tags.push tag room) else none

/-- The match fields after the link layer. -/
def linkKey (eth : EthHeader) (ethType : BitVec 16) (outer : Option (BitVec 16))
    (key : OflFlowKey) : OflFlowKey :=
  let key := { key with ethType := ethType, ethSrc := eth.src, ethDst := eth.dst }
  match outer with
  | none => key
  | some tag =>
    { key with
      vlanId := tag &&& vlanVidMask
      vlanPcp := ((tag &&& vlanPcpMask) >>> 13).setWidth 8 }

section Layers

variable (buffer : List (BitVec 8)) (pktLen offset : Nat) (nf : Netflow)

/-- A header that is only read if all of it is in the packet. -/
def withHeader {α : Type} (format : Packed α) (use : α → Except ParseFault Netflow) :
    Except ParseFault Netflow :=
  if pktLen < offset + format.size then .ok nf
  else (fetch format buffer offset).bind use

/-- The key with the fields of an MPLS tag. -/
def mplsKey (fields : BitVec 32) (key : OflFlowKey) : OflFlowKey :=
  { key with
    mplsLabel := (fields &&& mplsLabelMask) >>> 12
    mplsTc := ((fields &&& mplsTcMask) >>> 9).setWidth 8
    mplsBos := ((fields &&& mplsSMask) >>> 8).setWidth 8 }

/-- The payload of an LLDP packet.  Its length is the difference of the lengths, cut
down to 16 bits. -/
def parseLldp : Except ParseFault Netflow :=
  let payloadLen := BitVec.ofInt 16 (pktLen - offset)
  match copyBytes buffer offset payloadLen.toNat with
  | some payload => .ok { nf with payload := payload, payloadLen := payloadLen }
  | none => .error .outsideBuffer

/-- The key with the fields of an ARP header for IPv4 over Ethernet. -/
def arpKey (arp : ArpHeader) (key : OflFlowKey) : OflFlowKey :=
  if arp.hrd == 1 && arp.pro == ethTypeIp && arp.hln == 6 && arp.pln == 4 then
    let key := if arp.op ≤ 0xff then { key with arpOp := arp.op } else key
    if arp.op == arpOpRequest || arp.op == arpOpReply then
      { key with arpSpa := arp.spa, arpTpa := arp.tpa, arpSha := arp.sha, arpTha := arp.tha }
    else key
  else key

/-- The key with the fields of an IPv4 header. -/
def ipKey (ip : IpHeader) (key : OflFlowKey) : OflFlowKey :=
  { key with
    ipv4Src := ip.src
    ipv4Dst := ip.dst
    ipProto := ip.proto
    ipEcn := ip.tos &&& ipEcnMask
    ipDscp := ip.tos >>> 2 }

/-- The echo data behind an ICMP header. -/
def parseEcho : Except ParseFault Netflow :=
  if isEcho nf.key.icmpv4Type then
    withHeader buffer pktLen offset nf echoReply fun echo => .ok { nf with icmpInfo := echo }
  else .ok nf

/-- The transport layer.  The TCP flags are kept in the identifier of the echo data. -/
def parseL4 : Except ParseFault Netflow :=
  if nf.key.ipProto == ipProtoUdp then
    withHeader buffer pktLen offset nf udpHeader fun udp =>
      .ok { nf with key := { nf.key with udpSrc := udp.src, udpDst := udp.dst } }
  else if nf.key.ipProto == ipProtoTcp then
    withHeader buffer pktLen offset nf tcpHeader fun tcp =>
      .ok { nf with
        key := { nf.key with tcpSrc := tcp.src, tcpDst := tcp.dst }
        icmpInfo := { nf.icmpInfo with identifier := tcp.ctl } }
  else if nf.key.ipProto == ipProtoIcmpv4 then
    withHeader buffer pktLen offset nf icmpHeader fun icmp =>
      parseEcho buffer pktLen (offset + icmpHeader.size)
        { nf with key := { nf.key with icmpv4Code := icmp.code, icmpv4Type := icmp.type } }
  else .ok nf

/-- What follows the VLAN tags.  There is no branch for IPv6. -/
def parseNetwork : Except ParseFault Netflow :=
  if mplsType nf.key.ethType then
    withHeader buffer pktLen offset nf uint32 fun fields =>
      .ok { nf with key := mplsKey fields nf.key }
  else if nf.key.ethType == ethTypeLldp then parseLldp buffer pktLen offset nf
  else if nf.key.ethType == ethTypeArp then
    withHeader buffer pktLen offset nf arpHeader fun arp =>
      .ok { nf with key := arpKey arp nf.key }
  else if nf.key.ethType == ethTypeIp then
    withHeader buffer pktLen offset nf ipHeader fun ip =>
      let nf := { nf with key := ipKey ip nf.key }
      if ip.fragOff &&& ipFragmentMask ≠ 0 then .ok nf
      else parseL4 buffer pktLen (offset + ipHeader.size) nf
  else parseL4 buffer pktLen offset nf

end Layers

/-- What is left to do after the link layer was read. -/
def parseBehindTags (buffer : List (BitVec 8)) (pktLen : Nat) (nf : Netflow) (eth : EthHeader)
    (p : TagParse TagStack) : Except ParseFault Netflow :=
  let nf := { nf with key := linkKey eth p.ethType p.outer nf.key, tags := p.tags }
  if p.done then .ok nf else parseNetwork buffer pktLen p.offset nf

/-- `pkt_to_netflow`.  The Ethernet header is read without a test of the length. -/
def pktToNetflow (buffer : List (BitVec 8)) (nf : Netflow) (pktLen : Nat) :
    Except ParseFault Netflow :=
  (fetch ethHeader buffer 0).bind fun eth =>
    (parseTags tagStackOps buffer pktLen eth.type nf.tags).bind
      (parseBehindTags buffer pktLen nf eth)

/-! ## What is written -/

/-- Bytes behind those that are written, with their number added to the length. -/
def L4Writer.append (w : L4Writer) (bytes : List (BitVec 8)) : L4Writer :=
  ⟨w.buffer ++ bytes, w.payloadLen + BitVec.ofNat 16 bytes.length⟩

theorem L4Writer.put_eq {α : Type} (w : L4Writer) (format : Packed α) (value : α) :
    w.put format value = w.append (format.pack value) := by
  rw [L4Writer.put, L4Writer.append, format.length_pack]

theorem L4Writer.append_append (w : L4Writer) (first second : List (BitVec 8)) :
    (w.append first).append second = w.append (first ++ second) := by
  simp only [L4Writer.append, List.append_assoc, List.length_append, BitVec.ofNat_add,
    BitVec.add_assoc]

theorem L4Writer.append_nil (w : L4Writer) : w.append [] = w := by
  simp [L4Writer.append]

/-- The transport header of a netflow, with the data of an echo. -/
def transportBytes (nf : Netflow) : List (BitVec 8) :=
  if nf.key.ipProto == ipProtoTcp then tcpHeader.pack (tcpOf nf.key)
  else if nf.key.ipProto == ipProtoUdp then udpHeader.pack (udpOf nf.key)
  else if nf.key.ipProto == ipProtoIcmpv4 then
    icmpHeader.pack ⟨nf.key.icmpv4Type, nf.key.icmpv4Code, 0⟩ ++
      if isEcho nf.key.icmpv4Type then echoReply.pack nf.icmpInfo else []
  else if nf.key.ipProto == ipProtoIcmpv6 then
    icmpHeader.pack ⟨nf.key.icmpv6Type, nf.key.icmpv6Code, 0⟩
  else []

/-- The branches of the transport layer exclude each other. -/
theorem writeL4_eq (nf : Netflow) (lengthOffset : Nat) (w : L4Writer) :
    writeL4 nf lengthOffset w =
      storeBytes (w.buffer ++ transportBytes nf) lengthOffset
        (uint16.pack (w.payloadLen + BitVec.ofNat 16 (transportBytes nf).length)) := by
  have step : writeIcmpv6 nf.key (writeIcmpv4 nf (writeUdp nf.key (writeTcp nf.key w))) =
      w.append (transportBytes nf) := by
    simp only [writeTcp, writeUdp, writeIcmpv4, writeIcmpv6, transportBytes, beq_iff_eq,
      L4Writer.put_eq]
    by_cases tcp : nf.key.ipProto = ipProtoTcp
    · simp [tcp, ipProtoTcp, ipProtoUdp, ipProtoIcmpv4, ipProtoIcmpv6]
    by_cases udp : nf.key.ipProto = ipProtoUdp
    · simp [udp, ipProtoTcp, ipProtoUdp, ipProtoIcmpv4, ipProtoIcmpv6]
    by_cases icmpv4 : nf.key.ipProto = ipProtoIcmpv4
    · by_cases echo : isEcho nf.key.icmpv4Type
      · simp [icmpv4, echo, ipProtoTcp, ipProtoUdp, ipProtoIcmpv4, ipProtoIcmpv6,
          L4Writer.append_append]
      · simp [icmpv4, echo, ipProtoTcp, ipProtoUdp, ipProtoIcmpv4, ipProtoIcmpv6]
    · by_cases icmpv6 : nf.key.ipProto = ipProtoIcmpv6
      · simp [icmpv6, ipProtoTcp, ipProtoUdp, ipProtoIcmpv4, ipProtoIcmpv6]
      · simp [tcp, udp, icmpv4, icmpv6, L4Writer.append_nil]
  rw [writeL4, step]
  rfl

/-- A member of a header is patched. -/
theorem storeBytes_member (before old after new : List (BitVec 8))
    (sameSize : new.length = old.length) :
    storeBytes (before ++ (old ++ after)) before.length new = some (before ++ (new ++ after)) := by
  rw [storeBytes_append before (by rw [List.length_append]; omega), sameSize, List.drop_left]

/-- The IPv4 header with the length that is patched in. -/
def patchedIp (nf : Netflow) : IpHeader :=
  { ipOf nf.key with totLen := 20 + BitVec.ofNat 16 (transportBytes nf).length }

/-- The IPv6 header with the length that is patched in. -/
def patchedIpv6 (nf : Netflow) : Ipv6Header :=
  { ipv6Of nf.key with payLen := 0 + BitVec.ofNat 16 (transportBytes nf).length }

/-- The total length stands behind two bytes. -/
theorem ipHeader_pack (h : IpHeader) : ∃ front back : List (BitVec 8), front.length = 2 ∧
    ∀ totLen, ipHeader.pack { h with totLen := totLen } =
      front ++ (uint16.pack totLen ++ back) :=
  ⟨uint8.pack h.ihlVer ++ uint8.pack h.tos,
    (uint16.pair (uint16.pair (uint8.pair (uint8.pair (uint16.pair
      (uint32.pair uint32)))))).pack (h.id, h.fragOff, h.ttl, h.proto, h.csum, h.src, h.dst),
    rfl, fun _ => rfl⟩

/-- The length of the payload stands behind four bytes. -/
theorem ipv6Header_pack (h : Ipv6Header) : ∃ front back : List (BitVec 8), front.length = 4 ∧
    ∀ payLen, ipv6Header.pack { h with payLen := payLen } =
      front ++ (uint16.pack payLen ++ back) :=
  ⟨uint32.pack h.verTcFl,
    (uint8.pair (uint8.pair (ipv6Addr.pair ipv6Addr))).pack (h.nextHd, h.hopLimit, h.src, h.dst),
    rfl, fun _ => rfl⟩

/-- The length is patched into a header of the network layer, behind its first members. -/
theorem writeL4_patched (nf : Netflow) (link front back : List (BitVec 8))
    (length old : BitVec 16) :
    writeL4 nf (link.length + front.length) ⟨link ++ (front ++ (uint16.pack old ++ back)), length⟩ =
      some (link ++ ((front ++ (uint16.pack
        (length + BitVec.ofNat 16 (transportBytes nf).length) ++ back)) ++ transportBytes nf)) := by
  have stored := storeBytes_member (link ++ front) (uint16.pack old) (back ++ transportBytes nf)
    (uint16.pack (length + BitVec.ofNat 16 (transportBytes nf).length)) rfl
  rw [writeL4_eq]
  simp only [List.append_assoc, List.length_append] at stored ⊢
  exact stored

/-- What `netflow_to_pkt` writes of an IPv4 netflow. -/
theorem netflowToPkt_ip {nf : Netflow} (isIp : nf.key.ethType = ethTypeIp) :
    netflowToPkt nf =
      some (linkBytes nf ++ (ipHeader.pack (patchedIp nf) ++ transportBytes nf)) := by
  obtain ⟨front, back, frontSize, isPacked⟩ := ipHeader_pack (ipOf nf.key)
  have written : ipHeader.pack (ipOf nf.key) = _ := isPacked 20
  have patched : ipHeader.pack (patchedIp nf) = _ := isPacked _
  have branch : netflowToPkt nf =
      writeL4 nf ((linkBytes nf).length + 2) ⟨linkBytes nf ++ ipHeader.pack (ipOf nf.key), 20⟩ := by
    rw [netflowToPkt, isIp]
    rfl
  rw [branch, written, patched, ← frontSize]
  exact writeL4_patched nf (linkBytes nf) front back 20 20

/-- What `netflow_to_pkt` writes of an IPv6 netflow. -/
theorem netflowToPkt_ipv6 {nf : Netflow} (isIpv6 : nf.key.ethType = ethTypeIpv6) :
    netflowToPkt nf =
      some (linkBytes nf ++ (ipv6Header.pack (patchedIpv6 nf) ++ transportBytes nf)) := by
  obtain ⟨front, back, frontSize, isPacked⟩ := ipv6Header_pack (ipv6Of nf.key)
  have written : ipv6Header.pack (ipv6Of nf.key) = _ := isPacked 0
  have patched : ipv6Header.pack (patchedIpv6 nf) = _ := isPacked _
  have branch : netflowToPkt nf = writeL4 nf ((linkBytes nf).length + 4)
      ⟨linkBytes nf ++ ipv6Header.pack (ipv6Of nf.key), 0⟩ := by
    rw [netflowToPkt, isIpv6]
    rfl
  rw [branch, written, patched, ← frontSize]
  exact writeL4_patched nf (linkBytes nf) front back 0 0

theorem netflowToPkt_arp {nf : Netflow} (isArp : nf.key.ethType = ethTypeArp) :
    netflowToPkt nf = some (linkBytes nf ++ arpHeader.pack (arpOf nf.key)) := by
  rw [netflowToPkt, isArp]
  rfl

theorem netflowToPkt_lldp {nf : Netflow} (isLldp : nf.key.ethType = ethTypeLldp) :
    netflowToPkt nf =
      (copyBytes nf.payload 0 nf.payloadLen.toNat).map fun payload => linkBytes nf ++ payload := by
  rw [netflowToPkt, isLldp]
  rfl

/-- The transport layer takes at most a header and an echo. -/
theorem length_transportBytes_le (nf : Netflow) : (transportBytes nf).length ≤ 56 := by
  rw [transportBytes]
  repeat' split
  all_goals simp [Packed.length_pack]

end Horse.Lib
