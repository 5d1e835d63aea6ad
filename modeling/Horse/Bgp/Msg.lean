import Horse.Bgp.Rib
import Horse.Codec.Struct
import Horse.Codec.Text

/-!
# Messages between peers and the simulator

The bytes that a peer exchanges with the simulator.  All integers are in network byte
order, and a message is filled up with zeros to a multiple of eight bytes.  A result
is undefined where packing raises an exception; unpacking tells the exceptions apart.

A route is packed from its address and prefix length.  The texts in which the source
keeps them are read and written in the second part.
-/

namespace Horse.Bgp

open Horse.Codec

/-- `HEADER_LEN`. -/
def headerLen : Nat := 8

/-- `FIB_ENTRY_LEN`. -/
def fibEntryLen : Nat := 12

/-- `MAX_MESSAGE_SIZE`. -/
def maxMessageSize : Nat := 65535

/-- `MAX_FIB_ENTRIES`. -/
def maxFibEntries : Nat := (maxMessageSize - headerLen) / fibEntryLen

/-- `cidr_to_netmask`. -/
def cidrToNetmask (cidr : Nat) : Option (BitVec 32) :=
  if cidr ≤ 32 then some ((BitVec.allOnes 32 >>> (32 - cidr)) <<< (32 - cidr)) else none

/-- `MsgType`. -/
inductive MsgType
  | bgpActivity
  | bgpFib
  | bgpState
  | bgpAnnounce
  deriving DecidableEq, Repr

/-- The number of a message type on the wire. -/
def MsgType.code : MsgType → Nat
  | .bgpActivity => 0
  | .bgpFib => 1
  | .bgpState => 2
  | .bgpAnnounce => 3

/-- `FIBRoute`. -/
structure FibRoute where
  dest : IpPrefix
  nextHop : BitVec 32
  deriving DecidableEq, Repr

/-- `wire_size`. -/
def wireSize (size : Nat) : Option Nat :=
  if headerLen ≤ size ∧ size ≤ maxMessageSize then some ((size + 7) / 8 * 8) else none

/-- `RouterMsg.pack`. -/
def routerMsgPack (type : MsgType) (size : Nat) (routerId : BitVec 32) :
    Option (List (BitVec 8)) :=
  (wireSize size).map fun _ =>
    packBe 2 type.code ++ packBe 2 size ++ packBe 4 routerId.toNat

/-- One turn of the loop of `BGPFIBMsg.pack`. -/
def fibEntryPack (route : FibRoute) : Option (List (BitVec 8)) :=
  (cidrToNetmask route.dest.len).map fun netmask =>
    packBe 4 route.dest.addr.toNat ++ packBe 4 netmask.toNat ++ packBe 4 route.nextHop.toNat

/-- The loop of `BGPFIBMsg.pack`. -/
def fibEntriesPack : List FibRoute → Option (List (BitVec 8))
  | [] => some []
  | route :: rest =>
    (fibEntryPack route).bind fun entry =>
      (fibEntriesPack rest).map fun entries => entry ++ entries

/-- `BGPFIBMsg.pack`. -/
def bgpFibPack (localId : BitVec 32) (routes : List FibRoute) : Option (List (BitVec 8)) :=
  let size := headerLen + routes.length * fibEntryLen
  (wireSize size).bind fun paddedSize =>
    (routerMsgPack .bgpFib size localId).bind fun header =>
      (fibEntriesPack routes).map fun entries =>
        header ++ entries ++ List.replicate (paddedSize - size) 0

/-! ## Texts of addresses -/

/-- `int2ip`. -/
def int2ip (addr : BitVec 32) : List Char :=
  ['.'].intercalate ((packBe 4 addr.toNat).map fun byte => Nat.toDigits 10 byte.toNat)

/-- A part of a dotted address, without leading zeros. -/
def readOctet (part : List Char) : Option Nat :=
  (readDecimal part).filter fun value => value < 256 && part == Nat.toDigits 10 value

/-- `ip2int` on dotted decimals.  The other spellings that `inet_aton` knows, with fewer
parts or in octal and hexadecimal, have no value here. -/
def ip2int (text : List Char) : Option (BitVec 32) :=
  match (text.splitOn '.').map readOctet with
  | [some first, some second, some third, some fourth] =>
    some (BitVec.ofNat 32 (((first * 256 + second) * 256 + third) * 256 + fourth))
  | _ => none

/-- `FIBRoute` as the source has it. -/
structure FibRouteText where
  dest : List Char
  nextHop : List Char
  deriving DecidableEq, Repr

/-- The texts of a route. -/
def FibRoute.text (route : FibRoute) : FibRouteText where
  dest := ['/'].intercalate [int2ip route.dest.addr, Nat.toDigits 10 route.dest.len]
  nextHop := int2ip route.nextHop

/-- What `BGPFIBMsg.pack` reads from the texts of a route. -/
def FibRouteText.read (text : FibRouteText) : Option FibRoute :=
  match text.dest.splitOn '/' with
  | [ip, mask] =>
    (ip2int ip).bind fun addr =>
      (readDecimal mask).bind fun len =>
        (ip2int text.nextHop).map fun nextHop => ⟨⟨addr, len⟩, nextHop⟩
  | _ => none

/-! ## Message objects -/

/-- The exceptions that unpacking could raise. -/
inductive PyError
  | valueError
  | structError
  deriving DecidableEq, Repr

/-- A result that is missing where the source raises `ValueError`. -/
def orValueError {α : Type} : Option α → Except PyError α
  | some value => .ok value
  | none => .error .valueError

/-- The conversion of a number to `MsgType`. -/
def MsgType.ofCode : Nat → Option MsgType
  | 0 => some .bgpActivity
  | 1 => some .bgpFib
  | 2 => some .bgpState
  | 3 => some .bgpAnnounce
  | _ => none

/-- `BGPState`. -/
inductive BgpState
  | down
  | connected
  | up
  deriving DecidableEq, Repr

/-- The number of a state on the wire. -/
def BgpState.code : BgpState → Nat
  | .down => 0
  | .connected => 1
  | .up => 2

/-- The conversion of a number to `BGPState`. -/
def BgpState.ofCode : Nat → Option BgpState
  | 0 => some .down
  | 1 => some .connected
  | 2 => some .up
  | _ => none

/-- `HEADER`. -/
def headerStruct : Layout := [.uint 2, .uint 2, .uint 4]

/-- `STATE_BODY`. -/
def stateBody : Layout := [.uint 4, .uint 1, .pad 3]

/-- `ANNOUNCE_BODY`. -/
def announceBody : Layout := [.uint 4, .pad 4]

/-- `FIB_ENTRY_STRUCT`. -/
def fibEntryStruct : Layout := [.uint 4, .uint 4, .uint 4]

/-- `BGP_STATE_LEN`. -/
def bgpStateLen : Nat := headerLen + stateBody.size

/-- `BGP_ANNOUNCE_LEN`. -/
def bgpAnnounceLen : Nat := headerLen + announceBody.size

/-- `RouterMsg`. -/
structure RouterMsg where
  type : MsgType
  size : Nat
  routerId : BitVec 32
  deriving DecidableEq, Repr

/-- `BGPStateMsg`. -/
structure BgpStateMsg extends RouterMsg where
  peerId : BitVec 32
  state : BgpState
  deriving DecidableEq, Repr

/-- `BGPAnnounce`. -/
structure BgpAnnounce extends RouterMsg where
  peerId : BitVec 32
  deriving DecidableEq, Repr

/-- `BGPFIBMsg`. -/
structure BgpFibMsg extends RouterMsg where
  routes : List FibRouteText
  deriving DecidableEq, Repr

/-- `BGPActivity`. -/
structure BgpActivity extends RouterMsg
  deriving DecidableEq, Repr

/-- The constructor of `BGPStateMsg`. -/
def BgpStateMsg.new (localId peerId : BitVec 32) (state : BgpState) : BgpStateMsg :=
  ⟨⟨.bgpState, bgpStateLen, localId⟩, peerId, state⟩

/-- The constructor of `BGPAnnounce`. -/
def BgpAnnounce.new (localId peerId : BitVec 32) : BgpAnnounce :=
  ⟨⟨.bgpAnnounce, bgpAnnounceLen, localId⟩, peerId⟩

/-- The constructor of `BGPActivity`. -/
def BgpActivity.new (localId : BitVec 32) : BgpActivity :=
  ⟨⟨.bgpActivity, headerLen, localId⟩⟩

/-- The constructor of `BGPFIBMsg`, which checks the size. -/
def BgpFibMsg.new (localId : BitVec 32) (routes : List FibRouteText) : Option BgpFibMsg :=
  let size := headerLen + routes.length * fibEntryLen
  (wireSize size).map fun _ => ⟨⟨.bgpFib, size, localId⟩, routes⟩

/-- `RouterMsg.pack`, which is also the one of `BGPActivity`. -/
def RouterMsg.pack (msg : RouterMsg) : Option (List (BitVec 8)) :=
  routerMsgPack msg.type msg.size msg.routerId

/-- `BGPStateMsg.pack`. -/
def BgpStateMsg.pack (msg : BgpStateMsg) : Option (List (BitVec 8)) :=
  msg.toRouterMsg.pack.bind fun header =>
    (stateBody.pack [msg.peerId.toNat, msg.state.code]).map fun body => header ++ body

/-- `BGPAnnounce.pack`. -/
def BgpAnnounce.pack (msg : BgpAnnounce) : Option (List (BitVec 8)) :=
  msg.toRouterMsg.pack.bind fun header =>
    (announceBody.pack [msg.peerId.toNat]).map fun body => header ++ body

/-- The routes that `BGPFIBMsg.pack` reads. -/
def readRoutes : List FibRouteText → Option (List FibRoute)
  | [] => some []
  | text :: rest =>
    text.read.bind fun route => (readRoutes rest).map fun routes => route :: routes

/-- `BGPFIBMsg.pack`, which computes the size again. -/
def BgpFibMsg.pack (msg : BgpFibMsg) : Option (List (BitVec 8)) :=
  let size := headerLen + msg.routes.length * fibEntryLen
  (wireSize size).bind fun paddedSize =>
    (routerMsgPack msg.type size msg.routerId).bind fun header =>
      (readRoutes msg.routes).bind fun routes =>
        (fibEntriesPack routes).map fun entries =>
          header ++ entries ++ List.replicate (paddedSize - size) 0

/-- `RouterMsg.unpack`. -/
def RouterMsg.unpack (msg : List (BitVec 8)) : Except PyError RouterMsg :=
  if msg.length < headerLen then .error .valueError
  else
    match headerStruct.unpackFrom msg 0 with
    | some [msgType, size, routerId] =>
      (orValueError (MsgType.ofCode msgType)).bind fun type =>
        (orValueError (wireSize size)).map fun _ => ⟨type, size, BitVec.ofNat 32 routerId⟩
    | _ => .error .structError

/-- `_unpack_frame`. -/
def unpackFrame (msg : List (BitVec 8)) (expectedType : MsgType) (expectedSize : Option Nat) :
    Except PyError RouterMsg :=
  (RouterMsg.unpack msg).bind fun header =>
    if header.type ≠ expectedType then .error .valueError
    else if expectedSize.any fun expected => header.size != expected then .error .valueError
    else
      (orValueError (wireSize header.size)).bind fun paddedSize =>
        if msg.length ≠ paddedSize then .error .valueError else .ok header

/-- `BGPStateMsg.unpack`. -/
def BgpStateMsg.unpack (msg : List (BitVec 8)) : Except PyError BgpStateMsg :=
  (unpackFrame msg .bgpState (some bgpStateLen)).bind fun header =>
    match stateBody.unpackFrom msg headerLen with
    | some [peerId, state] =>
      (orValueError (BgpState.ofCode state)).map fun state =>
        ⟨header, BitVec.ofNat 32 peerId, state⟩
    | _ => .error .structError

/-- `BGPAnnounce.unpack`. -/
def BgpAnnounce.unpack (msg : List (BitVec 8)) : Except PyError BgpAnnounce :=
  (unpackFrame msg .bgpAnnounce (some bgpAnnounceLen)).bind fun header =>
    match announceBody.unpackFrom msg headerLen with
    | some [peerId] => .ok ⟨header, BitVec.ofNat 32 peerId⟩
    | _ => .error .structError

/-- `BGPActivity.unpack`. -/
def BgpActivity.unpack (msg : List (BitVec 8)) : Except PyError BgpActivity :=
  (unpackFrame msg .bgpActivity (some headerLen)).map fun header => ⟨header⟩

/-- `bit_count` of a 32-bit number. -/
def bitCount (mask : BitVec 32) : Nat :=
  (List.range 32).countP fun index => mask.getLsbD index

/-- One turn of the loop of `BGPFIBMsg.unpack`. -/
def fibEntryUnpack : List Nat → Except PyError FibRoute
  | [ip, mask, nextHop] =>
    let mask := BitVec.ofNat 32 mask
    let cidr := bitCount mask
    (orValueError (cidrToNetmask cidr)).bind fun netmask =>
      if mask ≠ netmask then .error .valueError
      else .ok ⟨⟨BitVec.ofNat 32 ip, cidr⟩, BitVec.ofNat 32 nextHop⟩
  | _ => .error .structError

/-- The loop of `BGPFIBMsg.unpack`. -/
def fibEntriesUnpack : List (List Nat) → Except PyError (List FibRoute)
  | [] => .ok []
  | entry :: rest =>
    (fibEntryUnpack entry).bind fun route =>
      (fibEntriesUnpack rest).map fun routes => route :: routes

/-- `BGPFIBMsg.unpack`. -/
def BgpFibMsg.unpack (msg : List (BitVec 8)) : Except PyError BgpFibMsg :=
  (unpackFrame msg .bgpFib none).bind fun header =>
    if (header.size - headerLen) % fibEntryLen ≠ 0 then .error .valueError
    else
      match fibEntryStruct.iterUnpack ((msg.take header.size).drop headerLen) with
      | some entries =>
        (fibEntriesUnpack entries).map fun routes => ⟨header, routes.map FibRoute.text⟩
      | none => .error .structError

end Horse.Bgp
