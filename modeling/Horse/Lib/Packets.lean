import Horse.Codec.Packed
import Horse.Lib.Netflow

/-!
# Packet headers

The headers of `packets.h` as they lie in a packet.  A word holds the value after the
conversion to host byte order; the addresses of the link layer and of IPv6 are arrays of
bytes in the source and long words here.
-/

namespace Horse.Lib

open Horse.Codec

/-- `ETH_TYPE_LLDP`. -/
def ethTypeLldp : BitVec 16 := 0x88cc

/-- `IP_PROTO_ICMPV6`. -/
def ipProtoIcmpv6 : BitVec 8 := 58

/-- `ARP_HW_TYPE_ETH`. -/
def arpHwTypeEth : BitVec 16 := 1

/-- `ARP_OP_REQUEST`. -/
def arpOpRequest : BitVec 16 := 1

/-- `ARP_OP_REPLY`. -/
def arpOpReply : BitVec 16 := 2

/-- `IP_ECN_MASK`. -/
def ipEcnMask : BitVec 8 := 0x03

/-- `IP_MORE_FRAGMENTS | IP_FRAG_OFF_MASK`. -/
def ipFragmentMask : BitVec 16 := 0x3fff

/-! ## Members -/

/-- A `uint8_t`. -/
def uint8 : Packed (BitVec 8) := .word 8 rfl (by decide)

/-- A `uint16_t`. -/
def uint16 : Packed (BitVec 16) := .word 16 rfl (by decide)

/-- A `uint32_t`. -/
def uint32 : Packed (BitVec 32) := .word 32 rfl (by decide)

/-- An Ethernet address. -/
def ethAddr : Packed (BitVec 48) := .word 48 rfl (by decide)

/-- An IPv6 address. -/
def ipv6Addr : Packed (BitVec 128) := .word 128 rfl (by decide)

/-! ## Headers -/

/-- `struct eth_header`. -/
structure EthHeader where
  dst : BitVec 48
  src : BitVec 48
  type : BitVec 16

/-- The Ethernet header in memory. -/
def ethHeader : Packed EthHeader :=
  (ethAddr.pair (ethAddr.pair uint16)).via (fun (dst, src, type) => ⟨dst, src, type⟩)
    (fun h => (h.dst, h.src, h.type)) fun _ => rfl

/-- `struct vlan`.  On the wire the tag stands in front of the ethertype; here it is
behind. -/
structure VlanHeader where
  ethertype : BitVec 16
  tag : BitVec 16

/-- The VLAN tag in memory. -/
def vlanHeader : Packed VlanHeader :=
  (uint16.pair uint16).via (fun (ethertype, tag) => ⟨ethertype, tag⟩)
    (fun h => (h.ethertype, h.tag)) fun _ => rfl

/-- `struct ip_header`. -/
structure IpHeader where
  ihlVer : BitVec 8
  tos : BitVec 8
  totLen : BitVec 16
  id : BitVec 16
  fragOff : BitVec 16
  ttl : BitVec 8
  proto : BitVec 8
  csum : BitVec 16
  src : BitVec 32
  dst : BitVec 32

/-- The IPv4 header in memory. -/
def ipHeader : Packed IpHeader :=
  (uint8.pair (uint8.pair (uint16.pair (uint16.pair (uint16.pair (uint8.pair (uint8.pair
    (uint16.pair (uint32.pair uint32))))))))).via
    (fun (ihlVer, tos, totLen, id, fragOff, ttl, proto, csum, src, dst) =>
      ⟨ihlVer, tos, totLen, id, fragOff, ttl, proto, csum, src, dst⟩)
    (fun h => (h.ihlVer, h.tos, h.totLen, h.id, h.fragOff, h.ttl, h.proto, h.csum, h.src, h.dst))
    fun _ => rfl

/-- `struct ipv6_header`. -/
structure Ipv6Header where
  verTcFl : BitVec 32
  payLen : BitVec 16
  nextHd : BitVec 8
  hopLimit : BitVec 8
  src : BitVec 128
  dst : BitVec 128

/-- The IPv6 header in memory. -/
def ipv6Header : Packed Ipv6Header :=
  (uint32.pair (uint16.pair (uint8.pair (uint8.pair (ipv6Addr.pair ipv6Addr))))).via
    (fun (verTcFl, payLen, nextHd, hopLimit, src, dst) =>
      ⟨verTcFl, payLen, nextHd, hopLimit, src, dst⟩)
    (fun h => (h.verTcFl, h.payLen, h.nextHd, h.hopLimit, h.src, h.dst)) fun _ => rfl

/-- `struct tcp_header`. -/
structure TcpHeader where
  src : BitVec 16
  dst : BitVec 16
  seq : BitVec 32
  ack : BitVec 32
  ctl : BitVec 16
  winsz : BitVec 16
  csum : BitVec 16
  urg : BitVec 16

/-- The TCP header in memory. -/
def tcpHeader : Packed TcpHeader :=
  (uint16.pair (uint16.pair (uint32.pair (uint32.pair (uint16.pair (uint16.pair
    (uint16.pair uint16))))))).via
    (fun (src, dst, seq, ack, ctl, winsz, csum, urg) =>
      ⟨src, dst, seq, ack, ctl, winsz, csum, urg⟩)
    (fun h => (h.src, h.dst, h.seq, h.ack, h.ctl, h.winsz, h.csum, h.urg)) fun _ => rfl

/-- `struct udp_header`. -/
structure UdpHeader where
  src : BitVec 16
  dst : BitVec 16
  len : BitVec 16
  csum : BitVec 16

/-- The UDP header in memory. -/
def udpHeader : Packed UdpHeader :=
  (uint16.pair (uint16.pair (uint16.pair uint16))).via
    (fun (src, dst, len, csum) => ⟨src, dst, len, csum⟩)
    (fun h => (h.src, h.dst, h.len, h.csum)) fun _ => rfl

/-- `struct icmp_header`. -/
structure IcmpHeader where
  type : BitVec 8
  code : BitVec 8
  csum : BitVec 16

/-- The ICMP header in memory. -/
def icmpHeader : Packed IcmpHeader :=
  (uint8.pair (uint8.pair uint16)).via (fun (type, code, csum) => ⟨type, code, csum⟩)
    (fun h => (h.type, h.code, h.csum)) fun _ => rfl

/-- The echo data in memory. -/
def echoReply : Packed IcmpEchoReply :=
  (uint16.pair (uint16.pair (.array 48))).via
    (fun (identifier, seqNumber, data) => ⟨identifier, seqNumber, data.1, data.2⟩)
    (fun h => (h.identifier, h.seqNumber, ⟨h.data, h.length⟩)) fun _ => rfl

/-- `struct arp_eth_header`. -/
structure ArpHeader where
  hrd : BitVec 16
  pro : BitVec 16
  hln : BitVec 8
  pln : BitVec 8
  op : BitVec 16
  sha : BitVec 48
  spa : BitVec 32
  tha : BitVec 48
  tpa : BitVec 32

/-- The ARP header in memory. -/
def arpHeader : Packed ArpHeader :=
  (uint16.pair (uint16.pair (uint8.pair (uint8.pair (uint16.pair (ethAddr.pair (uint32.pair
    (ethAddr.pair uint32)))))))).via
    (fun (hrd, pro, hln, pln, op, sha, spa, tha, tpa) =>
      ⟨hrd, pro, hln, pln, op, sha, spa, tha, tpa⟩)
    (fun h => (h.hrd, h.pro, h.hln, h.pln, h.op, h.sha, h.spa, h.tha, h.tpa)) fun _ => rfl

/-! ## Sizes -/

@[simp] theorem ethHeader_size : ethHeader.size = 14 := rfl
@[simp] theorem vlanHeader_size : vlanHeader.size = 4 := rfl
@[simp] theorem ipHeader_size : ipHeader.size = 20 := rfl
@[simp] theorem ipv6Header_size : ipv6Header.size = 40 := rfl
@[simp] theorem tcpHeader_size : tcpHeader.size = 20 := rfl
@[simp] theorem udpHeader_size : udpHeader.size = 8 := rfl
@[simp] theorem icmpHeader_size : icmpHeader.size = 4 := rfl
@[simp] theorem echoReply_size : echoReply.size = 52 := rfl
@[simp] theorem arpHeader_size : arpHeader.size = 28 := rfl
@[simp] theorem uint32_size : uint32.size = 4 := rfl

end Horse.Lib
