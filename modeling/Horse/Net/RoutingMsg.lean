import Horse.Net.RouterControl

/-!
# Routing messages in memory

The messages of `routing_msg.c` with all their fields, how they are packed and unpacked,
and the frames that the routing helper builds by hand.  The bytes of an allocation are
arbitrary until they are written.  Words are kept in the byte order of the machine;
`htonl` and `htons` make a word whose bytes are in network order.
-/

namespace Horse.Net

open Horse.Codec Horse.Lib

/-- `htonl`. -/
def htonl (x : BitVec 32) : BitVec 32 :=
  x.extractLsb' 0 8 ++ x.extractLsb' 8 8 ++ x.extractLsb' 16 8 ++ x.extractLsb' 24 8

/-- `htons`. -/
def htons (x : BitVec 16) : BitVec 16 :=
  x.extractLsb' 0 8 ++ x.extractLsb' 8 8

/-- What a message has behind its header. -/
inductive RoutingMsgBody
  | none
  | bgpState (peerRid : BitVec 32) (state : BitVec 8)
  | bgpAnnounce (peerRid : BitVec 32)
  deriving DecidableEq, Repr

/-- A message: `struct routing_msg`, `struct bgp_state` or `struct bgp_announce`. -/
structure RoutingMessage where
  hdr : RoutingMsg
  body : RoutingMsgBody
  deriving DecidableEq, Repr

/-- `BGP_STATE_LEN`. -/
def bgpStateLen : BitVec 16 := 16

/-- `BGP_ANNOUNCE_LEN`. -/
def bgpAnnounceLen : BitVec 16 := 16

/-- A message of type `ROUTER_ACTIVITY`, which is a header. -/
def routerActivityNew (routerId : BitVec 32) : RoutingMessage :=
  ⟨⟨RoutingMsgType.routerActivity.code, 8, routerId⟩, .none⟩

/-- `routing_msg_bgp_state_new`. -/
def routingMsgBgpStateNew (routerId peerRid : BitVec 32) (state : BitVec 8) : RoutingMessage :=
  ⟨⟨RoutingMsgType.bgpState.code, bgpStateLen, routerId⟩, .bgpState peerRid state⟩

/-- `routing_msg_bgp_announce_new`. -/
def routingMsgBgpAnnounceNew (routerId peerRid : BitVec 32) : RoutingMessage :=
  ⟨⟨RoutingMsgType.bgpAnnounce.code, bgpAnnounceLen, routerId⟩, .bgpAnnounce peerRid⟩

/-! ## Packing -/

/-- `pack_msg_hdr`, on an allocation of the size of the message. -/
def packMsgHdr (fresh : Nat → BitVec 8) (msg : RoutingMsg) : Option (List (BitVec 8)) :=
  (storeBytes ((List.range msg.size.toNat).map fresh) 0 (hostBytes 2 (htons msg.type))).bind
    fun data => (storeBytes data 2 (hostBytes 2 (htons msg.size))).bind
      fun data => storeBytes data 4 (hostBytes 4 (htonl msg.routerId))

/-- `pack_bgp_state`. -/
def packBgpState (peerRid : BitVec 32) (state : BitVec 8) (data : List (BitVec 8)) :
    Option (List (BitVec 8)) :=
  (storeBytes data 8 (hostBytes 4 (htonl peerRid))).bind fun data =>
    (storeBytes data 12 [state]).bind fun data => storeBytes data 13 (List.replicate 3 0)

/-- `pack_bgp_announce`. -/
def packBgpAnnounce (peerRid : BitVec 32) (data : List (BitVec 8)) : Option (List (BitVec 8)) :=
  (storeBytes data 8 (hostBytes 4 (htonl peerRid))).bind fun data =>
    storeBytes data 12 (List.replicate 4 0)

/-- `routing_msg_pack`, which returns a null pointer for a type it does not know.  A message
that is not of the struct its type stands for is read beyond its end. -/
def routingMsgPack (fresh : Nat → BitVec 8) (msg : RoutingMessage) :
    Option (Option (List (BitVec 8))) :=
  (packMsgHdr fresh msg.hdr).bind fun data =>
    if msg.hdr.type = RoutingMsgType.bgpState.code then
      match msg.body with
      | .bgpState peerRid state => (packBgpState peerRid state data).map some
      | _ => none
    else if msg.hdr.type = RoutingMsgType.bgpAnnounce.code then
      match msg.body with
      | .bgpAnnounce peerRid => (packBgpAnnounce peerRid data).map some
      | _ => none
    else if msg.hdr.type = RoutingMsgType.routerActivity.code then some (some data)
    else some none

/-! ## Unpacking -/

/-- `unpack_bgp_state`. -/
def unpackBgpState (data : List (BitVec 8)) : Option RoutingMsgBody :=
  (readBe32 data 8).bind fun peerRid => data[12]?.map fun state => .bgpState peerRid state

/-- `routing_msg_unpack` with all that it fills in. -/
def routingMsgUnpackMessage (data : List (BitVec 8)) : Option RoutingMessage :=
  (readBe16 data 0).bind fun type =>
    (readBe16 data 2).bind fun size =>
      (readBe32 data 4).bind fun routerId =>
        if type = RoutingMsgType.bgpState.code then
          (unpackBgpState data).map fun body => ⟨⟨type, size, routerId⟩, body⟩
        else if type = RoutingMsgType.routerActivity.code ∨
            type = RoutingMsgType.routerFib.code then some ⟨⟨type, size, routerId⟩, .none⟩
        else none

/-- What `router_handle_control_message` reads of the result. -/
theorem hdr_routingMsgUnpackMessage (data : List (BitVec 8)) :
    (routingMsgUnpackMessage data).map RoutingMessage.hdr = routingMsgUnpack data := by
  have five : readBe data 8 5 =
      (readBe data 8 4).bind fun high => data[12]?.map fun byte => high * 256 + byte.toNat := rfl
  have state : (unpackBgpState data).isSome = (readBe data 8 5).isSome := by
    rw [five, unpackBgpState, readBe32]
    cases readBe data 8 4 <;> cases data[12]? <;> rfl
  unfold routingMsgUnpackMessage routingMsgUnpack
  cases readBe16 data 0 with
  | none => rfl
  | some type =>
    cases readBe16 data 2 with
    | none => rfl
    | some size =>
      cases readBe32 data 4 with
      | none => rfl
      | some routerId =>
        simp only [Option.bind_some]
        split
        · rw [Option.map_map]
          cases unpacked : unpackBgpState data <;> cases read : readBe data 8 5 <;>
            rw [unpacked, read] at state <;> first | rfl | cases state
        · split <;> rfl

/-! ## The frames of the routing helper -/

/-- The frame of `send_activity`; its argument is in network byte order. -/
def sendActivity (routerId : BitVec 32) : List (BitVec 8) :=
  [0, 0, 0, 8] ++ hostBytes 4 routerId

/-- The frame of `send_next_hop`; its arguments are in network byte order. -/
def sendNextHop (routerId destination netmask nextHop : BitVec 32) : List (BitVec 8) :=
  [0, 1, 0, 20] ++ hostBytes 4 routerId ++ hostBytes 4 destination ++ hostBytes 4 netmask ++
    hostBytes 4 nextHop ++ List.replicate 4 0

/-! ## Bytes in network order -/

/-- A byte of a word, by shifting its number. -/
theorem extractLsb'_eq_ofNat {width : Nat} (x : BitVec width) (start : Nat) :
    x.extractLsb' start 8 = BitVec.ofNat 8 (x.toNat / 2 ^ start) := by
  apply BitVec.eq_of_toNat_eq
  rw [BitVec.toNat_ofNat, BitVec.extractLsb'_toNat, Nat.shiftRight_eq_div_pow]

/-- The bytes of a word that `htonl` made are those of the argument, highest first. -/
theorem hostBytes_htonl_eq (x : BitVec 32) : hostBytes 4 (htonl x) =
    [x.extractLsb' 24 8, x.extractLsb' 16 8, x.extractLsb' 8 8, x.extractLsb' 0 8] := by
  change [(htonl x >>> 0).setWidth 8, (htonl x >>> 8).setWidth 8, (htonl x >>> 16).setWidth 8,
    (htonl x >>> 24).setWidth 8] = _
  simp only [List.cons.injEq, and_true]
  refine ⟨?_, ?_, ?_, ?_⟩ <;> apply BitVec.eq_of_getLsbD_eq <;> intro index inside <;>
    simp [htonl] <;> grind

theorem hostBytes_htonl (x : BitVec 32) : hostBytes 4 (htonl x) = packBe 4 x.toNat := by
  have packed : packBe 4 x.toNat =
      [BitVec.ofNat 8 (x.toNat / 256 / 256 / 256), BitVec.ofNat 8 (x.toNat / 256 / 256),
        BitVec.ofNat 8 (x.toNat / 256), BitVec.ofNat 8 x.toNat] := rfl
  rw [hostBytes_htonl_eq, packed]
  simp only [extractLsb'_eq_ofNat, Nat.div_div_eq_div_mul, Nat.reducePow, Nat.reduceMul,
    Nat.div_one]

theorem hostBytes_htons (x : BitVec 16) : hostBytes 2 (htons x) = packBe 2 x.toNat := by
  have inMemory : hostBytes 2 (htons x) = [x.extractLsb' 8 8, x.extractLsb' 0 8] := by
    change [(htons x >>> 0).setWidth 8, (htons x >>> 8).setWidth 8] = _
    simp only [List.cons.injEq, and_true]
    refine ⟨?_, ?_⟩ <;> apply BitVec.eq_of_getLsbD_eq <;> intro index inside <;>
      simp [htons] <;> grind
  have packed : packBe 2 x.toNat = [BitVec.ofNat 8 (x.toNat / 256), BitVec.ofNat 8 x.toNat] := rfl
  rw [inMemory, packed]
  simp only [extractLsb'_eq_ofNat, Nat.reducePow, Nat.div_one]

/-- The header of a message is written into the first eight bytes. -/
theorem packMsgHdr_eq (fresh : Nat → BitVec 8) {msg : RoutingMsg} {rest : Nat}
    (size : msg.size.toNat = 8 + rest) :
    ∃ body, body.length = rest ∧ packMsgHdr fresh msg = some (headerBytes msg ++ body) := by
  let data := (List.range msg.size.toNat).map fresh
  have length : data.length = 8 + rest := by
    rw [List.length_map, List.length_range, size]
  refine ⟨data.drop 8, by rw [List.length_drop, length, Nat.add_sub_cancel_left], ?_⟩
  have isHeader : [packBe 2 msg.type.toNat, packBe 2 msg.size.toNat,
      packBe 4 msg.routerId.toNat].flatten = headerBytes msg := by
    simp [headerBytes]
  have stored := @storeAll_append [] [packBe 2 msg.type.toNat, packBe 2 msg.size.toNat,
    packBe 4 msg.routerId.toNat] data (by
      rw [isHeader, length_headerBytes, length]
      exact Nat.le_add_right 8 rest)
  rw [isHeader, length_headerBytes] at stored
  rw [packMsgHdr, hostBytes_htons, hostBytes_htons, hostBytes_htonl]
  simpa [storeAll] using stored

/-- Fields behind a header that fill the message. -/
theorem storeAll_behind_header {msg : RoutingMsg} {body : List (BitVec 8)}
    {fields : List (List (BitVec 8))} (fills : fields.flatten.length = body.length) :
    storeAll (headerBytes msg ++ body) 8 fields = some (headerBytes msg ++ fields.flatten) := by
  have stored := @storeAll_fill (headerBytes msg) body fields fills
  rw [length_headerBytes] at stored
  exact stored

/-- The packed bytes of a state message. -/
theorem routingMsgPack_bgpState (fresh : Nat → BitVec 8) (routerId peerRid : BitVec 32)
    (state : BitVec 8) :
    routingMsgPack fresh (routingMsgBgpStateNew routerId peerRid state) =
      some (some (headerBytes ⟨RoutingMsgType.bgpState.code, bgpStateLen, routerId⟩ ++
        (packBe 4 peerRid.toNat ++ (state :: List.replicate 3 0)))) := by
  obtain ⟨body, length, header⟩ := @packMsgHdr_eq fresh
    ⟨RoutingMsgType.bgpState.code, bgpStateLen, routerId⟩ 8 rfl
  have stored := @storeAll_behind_header ⟨RoutingMsgType.bgpState.code, bgpStateLen, routerId⟩
    body [packBe 4 peerRid.toNat, [state], List.replicate 3 0] (by simp [length])
  have packed : packBgpState peerRid state (headerBytes
      ⟨RoutingMsgType.bgpState.code, bgpStateLen, routerId⟩ ++ body) =
      some (headerBytes ⟨RoutingMsgType.bgpState.code, bgpStateLen, routerId⟩ ++
        (packBe 4 peerRid.toNat ++ (state :: List.replicate 3 0))) := by
    rw [packBgpState, hostBytes_htonl]
    simpa [storeAll] using stored
  rw [routingMsgPack, routingMsgBgpStateNew, header, Option.bind_some, if_pos rfl]
  exact congrArg (Option.map some) packed

/-- The packed bytes of an announcement. -/
theorem routingMsgPack_bgpAnnounce (fresh : Nat → BitVec 8) (routerId peerRid : BitVec 32) :
    routingMsgPack fresh (routingMsgBgpAnnounceNew routerId peerRid) =
      some (some (headerBytes ⟨RoutingMsgType.bgpAnnounce.code, bgpAnnounceLen, routerId⟩ ++
        (packBe 4 peerRid.toNat ++ List.replicate 4 0))) := by
  obtain ⟨body, length, header⟩ := @packMsgHdr_eq fresh
    ⟨RoutingMsgType.bgpAnnounce.code, bgpAnnounceLen, routerId⟩ 8 rfl
  have stored := @storeAll_behind_header
    ⟨RoutingMsgType.bgpAnnounce.code, bgpAnnounceLen, routerId⟩
    body [packBe 4 peerRid.toNat, List.replicate 4 0] (by simp [length])
  have packed : packBgpAnnounce peerRid (headerBytes
      ⟨RoutingMsgType.bgpAnnounce.code, bgpAnnounceLen, routerId⟩ ++ body) =
      some (headerBytes ⟨RoutingMsgType.bgpAnnounce.code, bgpAnnounceLen, routerId⟩ ++
        (packBe 4 peerRid.toNat ++ List.replicate 4 0)) := by
    rw [packBgpAnnounce, hostBytes_htonl]
    simpa [storeAll] using stored
  have notState : RoutingMsgType.bgpAnnounce.code ≠ RoutingMsgType.bgpState.code := by decide
  rw [routingMsgPack, routingMsgBgpAnnounceNew, header, Option.bind_some, if_neg notState,
    if_pos rfl]
  exact congrArg (Option.map some) packed

/-- The packed bytes of an activity message. -/
theorem routingMsgPack_routerActivity (fresh : Nat → BitVec 8) (routerId : BitVec 32) :
    routingMsgPack fresh (routerActivityNew routerId) =
      some (some (headerBytes ⟨RoutingMsgType.routerActivity.code, 8, routerId⟩)) := by
  obtain ⟨body, length, header⟩ := @packMsgHdr_eq fresh
    ⟨RoutingMsgType.routerActivity.code, 8, routerId⟩ 0 rfl
  rw [List.length_eq_zero_iff.mp length, List.append_nil] at header
  have notState : RoutingMsgType.routerActivity.code ≠ RoutingMsgType.bgpState.code := by decide
  have notAnnounce : RoutingMsgType.routerActivity.code ≠ RoutingMsgType.bgpAnnounce.code := by
    decide
  rw [routingMsgPack, routerActivityNew, header, Option.bind_some, if_neg notState,
    if_neg notAnnounce, if_pos rfl]

end Horse.Net
