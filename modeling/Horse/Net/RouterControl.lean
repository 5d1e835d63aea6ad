import Horse.Codec.BigEndian
import Horse.Net.Host

/-!
# Routing messages

The messages that the routing daemon of a router sends to the simulator.  All
integers are in network byte order.  A read beyond the end of the message is
undefined.
-/

namespace Horse.Net

open Horse.Codec Horse.Lib

/-- `HEADER_LEN`. -/
def headerLen : Nat := 8

/-- `enum routing_msg_type`. -/
inductive RoutingMsgType
  | routerActivity
  | routerFib
  | bgpState
  | bgpAnnounce
  deriving DecidableEq, Repr

/-- The number of a message type on the wire. -/
def RoutingMsgType.code : RoutingMsgType → BitVec 16
  | .routerActivity => 0
  | .routerFib => 1
  | .bgpState => 2
  | .bgpAnnounce => 3

/-- A 16-bit field. -/
def readBe16 (data : List (BitVec 8)) (offset : Nat) : Option (BitVec 16) :=
  (readBe data offset 2).map (BitVec.ofNat 16)

/-- A 32-bit field. -/
def readBe32 (data : List (BitVec 8)) (offset : Nat) : Option (BitVec 32) :=
  (readBe data offset 4).map (BitVec.ofNat 32)

/-- `struct routing_msg`. -/
structure RoutingMsg where
  type : BitVec 16
  size : BitVec 16
  routerId : BitVec 32
  deriving DecidableEq, Repr

section Fields

variable (before after : List (BitVec 8))

theorem readBe16_packBe (word : BitVec 16) :
    readBe16 (before ++ (packBe 2 word.toNat ++ after)) before.length = some word :=
  readBe_packBe_word before after 2 rfl word

theorem readBe32_packBe (word : BitVec 32) :
    readBe32 (before ++ (packBe 4 word.toNat ++ after)) before.length = some word :=
  readBe_packBe_word before after 4 rfl word

end Fields

/-- The bytes of a header. -/
def headerBytes (msg : RoutingMsg) : List (BitVec 8) :=
  packBe 2 msg.type.toNat ++ packBe 2 msg.size.toNat ++ packBe 4 msg.routerId.toNat

theorem length_headerBytes (msg : RoutingMsg) : (headerBytes msg).length = 8 := by
  simp [headerBytes]

/-- The fields of a header are read back. -/
theorem read_headerBytes (msg : RoutingMsg) (after : List (BitVec 8)) :
    readBe16 (headerBytes msg ++ after) 0 = some msg.type ∧
      readBe16 (headerBytes msg ++ after) 2 = some msg.size ∧
      readBe32 (headerBytes msg ++ after) 4 = some msg.routerId := by
  have type := readBe16_packBe []
    (packBe 2 msg.size.toNat ++ (packBe 4 msg.routerId.toNat ++ after)) msg.type
  have size := readBe16_packBe (packBe 2 msg.type.toNat)
    (packBe 4 msg.routerId.toNat ++ after) msg.size
  have router := readBe32_packBe (packBe 2 msg.type.toNat ++ packBe 2 msg.size.toNat) after
    msg.routerId
  simp only [List.length_append, length_packBe, List.append_assoc, List.nil_append,
    List.length_nil] at type size router
  simp only [headerBytes, List.append_assoc]
  exact ⟨type, size, router⟩

/-- `routing_msg_unpack`, as far as its caller reads the result.  Nothing is
allocated for an announcement or an unknown type, and the header is then written
through a pointer that was never set. -/
def routingMsgUnpack (data : List (BitVec 8)) : Option RoutingMsg :=
  (readBe16 data 0).bind fun type =>
    (readBe16 data 2).bind fun size =>
      (readBe32 data 4).bind fun routerId =>
        if type = RoutingMsgType.bgpState.code then
          -- The peer and the state follow the header.
          (readBe data 8 5).map fun _ => ⟨type, size, routerId⟩
        else if type = RoutingMsgType.routerActivity.code ∨
            type = RoutingMsgType.routerFib.code then some ⟨type, size, routerId⟩
        else none

/-- The route that `fib_add` makes of an entry; its port is the one that leads to
the next hop. -/
def fibRoute (r : Router) (addr netmask nextHop : BitVec 32) : RouteEntryV4 where
  ip := addr &&& netmask
  netmask := netmask
  gateway := nextHop
  iface := ((ipv4Lookup r.ln.rt nextHop 0).map RouteEntryV4.iface).getD 0

/-- One turn of the loop of `fib_add`. -/
def fibInstall (r : Router) (addr netmask nextHop : BitVec 32) : Router :=
  { r with ln := { r.ln with rt := addIpv4Entry r.ln.rt (fibRoute r addr netmask nextHop) } }

/-- The loop of `fib_add` over the entries from an offset on. -/
def fibAddLoop (data : List (BitVec 8)) : Nat → Nat → Router → Option Router
  | 0, _, r => some r
  | entries + 1, offset, r =>
    (readBe32 data offset).bind fun addr =>
      (readBe32 data (offset + 4)).bind fun netmask =>
        (readBe32 data (offset + 8)).bind fun nextHop =>
          fibAddLoop data entries (offset + 12) (fibInstall r addr netmask nextHop)

/-- `fib_add`. -/
def fibAdd (r : Router) (data : List (BitVec 8)) (len : Nat) : Option Router :=
  fibAddLoop data (len / 12) 0 r

/-- `router_handle_control_message`, which never makes a reply.  A size below that
of the header becomes a huge number of entries. -/
def routerHandleControlMessage (r : Router) (data : List (BitVec 8)) : Option Router :=
  (routingMsgUnpack data).bind fun msg =>
    if msg.type = RoutingMsgType.routerFib.code then
      if msg.size.toNat < headerLen then none
      else fibAdd r (data.drop headerLen) (msg.size.toNat - headerLen)
    else some r

end Horse.Net
