import Horse.Bgp.FibTransfer
import Horse.Net.RoutingMsg

/-!
# The native codec and that of the peers

The messages of `routing_msg.c` and the frames of the routing helper are, byte for byte,
those of the message classes.
-/

namespace Horse.Bgp

open Horse.Codec

/-- The state as the native code has it. -/
def BgpState.byte (state : BgpState) : BitVec 8 :=
  BitVec.ofNat 8 state.code

theorem BgpStateMsg.pack_new (localId peerId : BitVec 32) (state : BgpState) :
    (BgpStateMsg.new localId peerId state).pack =
      some (Net.headerBytes ⟨Net.RoutingMsgType.bgpState.code, Net.bgpStateLen, localId⟩ ++
        (packBe 4 peerId.toNat ++ (state.byte :: List.replicate 3 0))) := by
  exact congrArg (Option.map (Net.headerBytes
    ⟨Net.RoutingMsgType.bgpState.code, Net.bgpStateLen, localId⟩ ++ ·))
      (stateBody_pack peerId state)

theorem BgpAnnounce.pack_new (localId peerId : BitVec 32) :
    (BgpAnnounce.new localId peerId).pack =
      some (Net.headerBytes ⟨Net.RoutingMsgType.bgpAnnounce.code, Net.bgpAnnounceLen, localId⟩ ++
        (packBe 4 peerId.toNat ++ List.replicate 4 0)) := by
  exact congrArg (Option.map (Net.headerBytes
    ⟨Net.RoutingMsgType.bgpAnnounce.code, Net.bgpAnnounceLen, localId⟩ ++ ·))
      (announceBody_pack peerId)

theorem BgpActivity.pack_new (localId : BitVec 32) :
    (BgpActivity.new localId).pack =
      some (Net.headerBytes ⟨Net.RoutingMsgType.routerActivity.code, 8, localId⟩) :=
  rfl

/-- The native code reads an activity message of a peer. -/
theorem routingMsgUnpackMessage_activity (routerId : BitVec 32) :
    Net.routingMsgUnpackMessage
        (Net.headerBytes ⟨Net.RoutingMsgType.routerActivity.code, 8, routerId⟩) =
      some (Net.routerActivityNew routerId) := by
  obtain ⟨type, size, router⟩ :=
    Net.read_headerBytes ⟨Net.RoutingMsgType.routerActivity.code, 8, routerId⟩ []
  rw [List.append_nil] at type size router
  rw [Net.routingMsgUnpackMessage, type, Option.bind_some, size, Option.bind_some, router,
    Option.bind_some]
  rfl

/-- The native code reads a state message of a peer. -/
theorem routingMsgUnpackMessage_state (routerId peerId : BitVec 32) (state : BitVec 8) :
    Net.routingMsgUnpackMessage
        (Net.headerBytes ⟨Net.RoutingMsgType.bgpState.code, Net.bgpStateLen, routerId⟩ ++
          (packBe 4 peerId.toNat ++ (state :: List.replicate 3 0))) =
      some (Net.routingMsgBgpStateNew routerId peerId state) := by
  obtain ⟨type, size, router⟩ :=
    Net.read_headerBytes ⟨Net.RoutingMsgType.bgpState.code, Net.bgpStateLen, routerId⟩
      (packBe 4 peerId.toNat ++ (state :: List.replicate 3 0))
  have length := Net.length_headerBytes
    ⟨Net.RoutingMsgType.bgpState.code, Net.bgpStateLen, routerId⟩
  have peer := Net.readBe32_packBe
    (Net.headerBytes ⟨Net.RoutingMsgType.bgpState.code, Net.bgpStateLen, routerId⟩)
    (state :: List.replicate 3 0) peerId
  rw [length] at peer
  have byte : (Net.headerBytes ⟨Net.RoutingMsgType.bgpState.code, Net.bgpStateLen, routerId⟩ ++
      (packBe 4 peerId.toNat ++ (state :: List.replicate 3 0)))[12]? = some state := by
    rw [← List.append_assoc, List.getElem?_append_right] <;>
      simp only [List.length_append, length, length_packBe] <;> rfl
  rw [Net.routingMsgUnpackMessage, type, Option.bind_some, size, Option.bind_some, router,
    Option.bind_some, if_pos rfl, Net.unpackBgpState, peer, Option.bind_some, byte]
  rfl

/-- The frame of one next hop is the packed message with that route. -/
theorem BgpFibMsg.pack_single (localId addr nextHop : BitVec 32) {mask : BitVec 32}
    (contiguous : Contiguous mask) :
    ∃ msg, BgpFibMsg.new localId [FibRoute.text ⟨⟨addr, bitCount mask⟩, nextHop⟩] = some msg ∧
      msg.pack = some (Net.sendNextHop (Net.htonl localId) (Net.htonl addr) (Net.htonl mask)
        (Net.htonl nextHop)) := by
  have isNetmask := cidrToNetmask_bitCount_iff.mpr contiguous
  have isEntries : fibEntriesPack [⟨⟨addr, bitCount mask⟩, nextHop⟩] =
      some (packBe 4 addr.toNat ++ packBe 4 mask.toNat ++ packBe 4 nextHop.toNat) := by
    simp only [fibEntriesPack, fibEntryPack, isNetmask, Option.map_some, Option.bind_some,
      List.append_nil]
  have isHeader : routerMsgPack .bgpFib 20 localId =
      some ([0, 1, 0, 20] ++ packBe 4 localId.toNat) := rfl
  have isPadded : wireSize 20 = some 24 := rfl
  let msg : BgpFibMsg :=
    ⟨⟨.bgpFib, 20, localId⟩, [FibRoute.text ⟨⟨addr, bitCount mask⟩, nextHop⟩]⟩
  have packed := @BgpFibMsg.pack_of_parts 20 _ msg 24 _ _ rfl isPadded isHeader rfl isEntries
  refine ⟨msg, rfl, ?_⟩
  rw [packed, Net.sendNextHop, Net.hostBytes_htonl, Net.hostBytes_htonl, Net.hostBytes_htonl,
    Net.hostBytes_htonl]
  simp only [List.append_assoc]

/-- The native messages are packed to the bytes of the message classes, and the native code
reads those bytes back; the routing helper sends its activity and its next hops as the
classes do. -/
theorem native_messages_are_packed_classes :
    (∀ fresh routerId, ∃ frame,
        Net.routingMsgPack fresh (Net.routerActivityNew routerId) = some (some frame) ∧
          (BgpActivity.new routerId).pack = some frame ∧
          Net.routingMsgUnpackMessage frame = some (Net.routerActivityNew routerId) ∧
          Net.sendActivity (Net.htonl routerId) = frame) ∧
      (∀ fresh routerId peerId, ∀ state : BgpState, ∃ frame,
        Net.routingMsgPack fresh (Net.routingMsgBgpStateNew routerId peerId state.byte) =
            some (some frame) ∧
          (BgpStateMsg.new routerId peerId state).pack = some frame ∧
          Net.routingMsgUnpackMessage frame =
            some (Net.routingMsgBgpStateNew routerId peerId state.byte)) ∧
      (∀ fresh routerId peerId, ∃ frame,
        Net.routingMsgPack fresh (Net.routingMsgBgpAnnounceNew routerId peerId) =
            some (some frame) ∧
          (BgpAnnounce.new routerId peerId).pack = some frame) ∧
      ∀ routerId destination netmask nextHop, Contiguous netmask →
        ∃ msg, BgpFibMsg.new routerId
              [FibRoute.text ⟨⟨destination, bitCount netmask⟩, nextHop⟩] = some msg ∧
          msg.pack = some (Net.sendNextHop (Net.htonl routerId) (Net.htonl destination)
            (Net.htonl netmask) (Net.htonl nextHop)) := by
  refine ⟨fun fresh routerId => ?_, fun fresh routerId peerId state => ?_,
    fun fresh routerId peerId => ?_, fun routerId destination netmask nextHop contiguous => ?_⟩
  · refine ⟨_, Net.routingMsgPack_routerActivity fresh routerId, BgpActivity.pack_new routerId,
      routingMsgUnpackMessage_activity routerId, ?_⟩
    have front : packBe 2 Net.RoutingMsgType.routerActivity.code.toNat ++
        packBe 2 (8 : BitVec 16).toNat = [0, 0, 0, 8] := by decide
    rw [Net.sendActivity, Net.hostBytes_htonl, Net.headerBytes, front]
  · exact ⟨_, Net.routingMsgPack_bgpState fresh routerId peerId state.byte,
      BgpStateMsg.pack_new routerId peerId state,
      routingMsgUnpackMessage_state routerId peerId state.byte⟩
  · exact ⟨_, Net.routingMsgPack_bgpAnnounce fresh routerId peerId,
      BgpAnnounce.pack_new routerId peerId⟩
  · exact BgpFibMsg.pack_single routerId destination nextHop contiguous

end Horse.Bgp
