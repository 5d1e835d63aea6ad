import Horse.Codec.Packed
import Horse.Sim.ConnManager

/-!
# Decoding a routing frame

A frame that arrives as a whole passes three functions that all use the size in its header:
the callback allocates a block for it and reads it into the block, the router unpacks the
header, and the loop over the routes reads the rest.
-/

namespace Horse.Sim

open Horse.Codec Horse.Net

/-- A frame arrives at the start of a message, and none of the reads is short. -/
def deliver (usable : Nat → Nat) (time connId : Nat) (frame : Frame) : Option RouterIn :=
  (readHeader time connId (frame.bytes.take headerLen)).bind fun turn =>
    match turn.event with
    | some ev => some ev
    | none =>
      turn.input.wanted.bind fun wanted =>
        (readData usable time connId turn.input wanted (frame.bytes.drop headerLen)).bind
          Turn.event

/-- Both the callback and the router stay inside the block of a frame.  The router works on a
message with the fields of the header. -/
structure DecodedSafely (usable : Nat → Nat) (time connId : Nat) (r : Router) (frame : Frame) :
    Prop where
  delivered : ∃ ev, deliver usable time connId frame = some ev ∧ Brings frame ev
  unpacked : ∃ msg, routingMsgUnpack frame.bytes = some msg ∧
    readBe16 frame.bytes 0 = some msg.type ∧ readBe16 frame.bytes 2 = some msg.size ∧
    readBe32 frame.bytes 4 = some msg.routerId
  handled : (routerHandleControlMessage r frame.bytes).isSome

/-- The type of the message in a frame. -/
def Frame.HasType (frame : Frame) (type : RoutingMsgType) : Prop :=
  readBe16 frame.bytes 0 = some type.code

instance (frame : Frame) (type : RoutingMsgType) : Decidable (frame.HasType type) :=
  inferInstanceAs (Decidable (_ = _))

/-! ## Delivery -/

section Delivery

variable (usable : Nat → Nat) (time connId : Nat) (frame : Frame)

/-- A frame without data is its header. -/
theorem deliver_header (noData : frame.size = headerLen) :
    ∃ ev, deliver usable time connId frame = some ev ∧ Brings frame ev := by
  obtain ⟨input, ev, isTurn, -, -, brings⟩ := frame.readHeader_alone time connId noData
  refine ⟨ev, ?_, brings⟩
  rw [deliver, isTurn, Option.bind_some]

/-- A frame with data fits if the block has room for the header too. -/
theorem deliver_data (hasData : frame.size ≠ headerLen) :
    (∃ ev, deliver usable time connId frame = some ev ∧ Brings frame ev) ↔
      roundUp frame.size 8 ≤ usable (roundUp frame.size 8 - headerLen) := by
  obtain ⟨input, isTurn, isPos, isHeader⟩ := frame.readHeader_first time connId hasData
  have isWanted : input.wanted = some (frame.bytes.length - headerLen) := by
    rw [RouterInput.wanted, isPos, if_neg (by decide), isHeader, frame.msgSize_header,
      frame.padded]
    rfl
  have isDelivered : deliver usable time connId frame =
      (readData usable time connId input (frame.bytes.length - headerLen)
        (frame.bytes.drop headerLen)).bind Turn.event := by
    rw [deliver, isTurn, Option.bind_some]
    dsimp only
    rw [isWanted, Option.bind_some]
  rw [isDelivered, ← frame.padded]
  constructor
  · rintro ⟨ev, delivered, -⟩
    by_contra tooSmall
    have long := frame.long
    rw [readData, List.length_drop, if_pos (by omega)] at delivered
    cases delivered
  · intro fits
    obtain ⟨after, ev, isRest, -, -, brings⟩ := frame.readData_rest time connId isHeader fits
    refine ⟨ev, ?_, brings⟩
    rw [isRest, Option.bind_some]

end Delivery

/-! ## Handling -/

section Handling

variable (frame : Frame)

/-- The fields of a header are inside every frame. -/
theorem Frame.read_fields : ∃ type size routerId, readBe16 frame.bytes 0 = some type ∧
    readBe16 frame.bytes 2 = some size ∧ readBe32 frame.bytes 4 = some routerId ∧
      size.toNat = frame.size := by
  have long := frame.long
  unfold headerLen at long
  obtain ⟨type, isType⟩ := readBe_defined (show 0 + 2 ≤ frame.bytes.length by omega)
  obtain ⟨routerId, isRouterId⟩ := readBe_defined (show 4 + 4 ≤ frame.bytes.length by omega)
  obtain ⟨size, isSize, sameSize⟩ := Option.map_eq_some_iff.mp frame.isSize
  refine ⟨BitVec.ofNat 16 type, size, BitVec.ofNat 32 routerId, ?_, isSize, ?_, sameSize⟩
  · rw [readBe16, isType, Option.map_some]
  · rw [readBe32, isRouterId, Option.map_some]

theorem fibAddLoop_isSome {data : List (BitVec 8)} {entries offset : Nat}
    (inside : offset + 12 * entries ≤ data.length) (r : Router) :
    (fibAddLoop data entries offset r).isSome := by
  induction entries generalizing offset r with
  | zero => rfl
  | succ entries ih =>
    obtain ⟨addr, isAddr⟩ := readBe_defined (show offset + 4 ≤ data.length by omega)
    obtain ⟨netmask, isNetmask⟩ := readBe_defined (show offset + 4 + 4 ≤ data.length by omega)
    obtain ⟨nextHop, isNextHop⟩ := readBe_defined (show offset + 8 + 4 ≤ data.length by omega)
    simp only [fibAddLoop, readBe32, isAddr, isNetmask, isNextHop, Option.map_some,
      Option.bind_some]
    exact ih (by omega) _

/-- The peer and the state of a message are inside the frame if it has data. -/
theorem readBe_bgpState : (readBe frame.bytes 8 5).isSome ↔ frame.size ≠ headerLen := by
  rw [readBe_isSome (by decide), frame.padded]
  constructor
  · intro inside noData
    rw [noData] at inside
    revert inside
    decide
  · intro hasData
    have hasHeader := frame.hasHeader
    unfold headerLen roundUp at *
    omega

/-- Memory is allocated for the message of a frame, and its fields are inside the frame. -/
def Frame.Unpackable : Prop :=
  frame.HasType .routerActivity ∨ frame.HasType .routerFib ∨
    frame.HasType .bgpState ∧ frame.size ≠ headerLen

instance : Decidable frame.Unpackable :=
  inferInstanceAs (Decidable (_ ∨ _))

theorem routingMsgUnpack_isSome_iff :
    (routingMsgUnpack frame.bytes).isSome ↔ frame.Unpackable := by
  obtain ⟨type, size, routerId, isType, isSize, isRouterId, -⟩ := frame.read_fields
  simp only [routingMsgUnpack, Frame.Unpackable, Frame.HasType, isType, isSize, isRouterId,
    Option.bind_some, Option.some.injEq]
  by_cases isState : type = RoutingMsgType.bgpState.code
  · have notActivity : type ≠ RoutingMsgType.routerActivity.code := by
      rw [isState]
      decide
    have notFib : type ≠ RoutingMsgType.routerFib.code := by
      rw [isState]
      decide
    rw [if_pos isState, Option.isSome_map, readBe_bgpState, or_iff_right notActivity,
      or_iff_right notFib, and_iff_right isState]
  · have notState : ¬(type = RoutingMsgType.bgpState.code ∧ frame.size ≠ headerLen) :=
      fun both => isState both.1
    rw [if_neg isState, or_iff_left notState]
    split
    · rename_i header
      exact iff_of_true rfl header
    · rename_i unknown
      exact iff_of_false nofun unknown

/-- A message that is unpacked has the fields of the header. -/
theorem routingMsgUnpack_fields {data : List (BitVec 8)} {msg : RoutingMsg}
    (unpacked : routingMsgUnpack data = some msg) :
    readBe16 data 0 = some msg.type ∧ readBe16 data 2 = some msg.size ∧
      readBe32 data 4 = some msg.routerId := by
  obtain ⟨type, isType, unpacked⟩ := Option.bind_eq_some_iff.mp unpacked
  obtain ⟨size, isSize, unpacked⟩ := Option.bind_eq_some_iff.mp unpacked
  obtain ⟨routerId, isRouterId, unpacked⟩ := Option.bind_eq_some_iff.mp unpacked
  have isMsg : msg = ⟨type, size, routerId⟩ := by
    split at unpacked
    · obtain ⟨_, -, same⟩ := Option.map_eq_some_iff.mp unpacked
      exact same.symm
    · split at unpacked
      · exact (Option.some.inj unpacked).symm
      · cases unpacked
  rw [isMsg]
  exact ⟨isType, isSize, isRouterId⟩

/-- The loop over the routes of a frame stays inside it. -/
theorem routerHandleControlMessage_isSome {msg : RoutingMsg}
    (unpacked : routingMsgUnpack frame.bytes = some msg) (r : Router) :
    (routerHandleControlMessage r frame.bytes).isSome := by
  rw [routerHandleControlMessage, unpacked, Option.bind_some]
  split
  · obtain ⟨size, isSize, sameSize⟩ := Option.map_eq_some_iff.mp frame.isSize
    have same : msg.size.toNat = frame.size := by
      rw [← sameSize, ← Option.some.inj (isSize.symm.trans (routingMsgUnpack_fields unpacked).2.1)]
    have hasHeader := frame.hasHeader
    have padded := le_roundUp frame.size
    rw [if_neg (by omega), fibAdd]
    apply fibAddLoop_isSome
    rw [List.length_drop, frame.padded]
    omega
  · rfl

end Handling

/-! ## Both -/

section Both

variable {usable : Nat → Nat} {time connId : Nat} {r : Router} {frame : Frame}

/-- What is needed beyond the delivery of a frame. -/
theorem decodedSafely_iff : DecodedSafely usable time connId r frame ↔
    (∃ ev, deliver usable time connId frame = some ev ∧ Brings frame ev) ∧ frame.Unpackable := by
  rw [← routingMsgUnpack_isSome_iff]
  constructor
  · rintro ⟨delivered, ⟨msg, unpacked, -⟩, -⟩
    exact ⟨delivered, Option.isSome_iff_exists.mpr ⟨msg, unpacked⟩⟩
  · rintro ⟨delivered, isSome⟩
    obtain ⟨msg, unpacked⟩ := Option.isSome_iff_exists.mp isSome
    exact ⟨delivered, ⟨msg, unpacked, routingMsgUnpack_fields unpacked⟩,
      routerHandleControlMessage_isSome frame unpacked r⟩

end Both

/-- In the block that is allocated, just the frames without data and of two types are decoded
safely.  In a block with room for the header, memory for the message is missing for
announcements and unknown types, and a state change has to have data. -/
theorem decodedSafely_iff_header (time connId : Nat) (r : Router) (frame : Frame) :
    (DecodedSafely id time connId r frame ↔
        frame.size = headerLen ∧
          (frame.HasType .routerActivity ∨ frame.HasType .routerFib)) ∧
      ∀ usable : Nat → Nat,
        roundUp frame.size 8 ≤ usable (roundUp frame.size 8 - headerLen) →
          (DecodedSafely usable time connId r frame ↔ frame.Unpackable) := by
  constructor
  · rw [decodedSafely_iff]
    by_cases noData : frame.size = headerLen
    · rw [and_iff_right (deliver_header id time connId frame noData), and_iff_right noData,
        Frame.Unpackable]
      have notState : ¬(frame.HasType .bgpState ∧ frame.size ≠ headerLen) :=
        fun both => both.2 noData
      rw [or_iff_left notState]
    · have overflows : ¬roundUp frame.size 8 ≤ id (roundUp frame.size 8 - headerLen) := by
        have large := headerLen_lt_roundUp frame.hasHeader noData
        unfold headerLen id at *
        omega
      rw [deliver_data id time connId frame noData]
      exact iff_of_false (fun both => overflows both.1) fun both => noData both.1
  · intro usable room
    rw [decodedSafely_iff, and_iff_right]
    by_cases noData : frame.size = headerLen
    · exact deliver_header usable time connId frame noData
    · exact (deliver_data usable time connId frame noData).mpr room

/-- A frame with one route. -/
def oneRoute : Frame where
  bytes := headerBytes ⟨RoutingMsgType.routerFib.code, 20, 1⟩ ++ List.replicate 16 0
  size := 20
  isSize := by decide
  hasHeader := by decide
  padded := by decide

/-- The announcement of a route, without the route. -/
def announceFrame : Frame where
  bytes := headerBytes ⟨RoutingMsgType.bgpAnnounce.code, 8, 1⟩
  size := 8
  isSize := by decide
  hasHeader := by decide
  padded := by decide

/-- A frame with a route is written beyond its block, and the message of an announcement is
written through a pointer that was never set. -/
theorem frames_not_decodedSafely :
    deliver id 0 0 oneRoute = none ∧ routingMsgUnpack announceFrame.bytes = none := by
  decide

end Horse.Sim
