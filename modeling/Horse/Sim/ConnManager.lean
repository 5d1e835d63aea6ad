import Horse.Net.RouterControl
import Mathlib.Logic.Function.Basic

/-!
# The connections of the routing daemons

Routing daemons send their messages over connections to the simulator, as frames
that a header with the size precedes.  A callback reads a connection until nothing
is left, and makes an event of each message.  Every read may return less than was
asked for.  What a callback keeps between its reads is one variable for all
connections.

The block that holds a message with data is allocated without room for its header.
How much of it can be written is up to the allocator, so it is a parameter here; C
only guarantees the size that was asked for.
-/

namespace Horse.Sim

open Horse.Codec Horse.Net Horse.Transition

/-- `ROUND_UP`. -/
def roundUp (x y : Nat) : Nat :=
  (x + (y - 1)) / y * y

/-- The size in a message header. -/
def msgSize (header : List (BitVec 8)) : Option Nat :=
  (readBe16 header 2).map BitVec.toNat

/-- The size in a message header as the host reads it, with its bytes swapped. -/
def hostSize (header : List (BitVec 8)) : Option Nat :=
  header[2]?.bind fun low => header[3]?.map fun high => low.toNat + 256 * high.toNat

/-- A frame: a message with a header, filled up to a multiple of eight bytes. -/
structure Frame where
  bytes : List (BitVec 8)
  size : Nat
  isSize : msgSize bytes = some size
  hasHeader : headerLen ≤ size
  padded : bytes.length = roundUp size 8

/-- `struct fti_event_router`.  A byte of the message that was never written is
missing. -/
structure RouterIn where
  time : Nat
  routerId : BitVec 32
  connId : Nat
  data : List (Option (BitVec 8))
  len : Nat
  deriving DecidableEq, Repr

/-- The static variables of `conn_manager_router_message_cb`. -/
structure RouterInput where
  pos : Nat
  header : List (BitVec 8)
  isPos : pos = 0 ∨ pos = headerLen
  full : header.length = headerLen
  deriving DecidableEq, Repr

/-- The variables before the first callback. -/
def routerInputInit : RouterInput where
  pos := 0
  header := List.replicate headerLen 0
  isPos := Or.inl rfl
  full := List.length_replicate

/-- The number of bytes that the next read asks for. -/
def RouterInput.wanted (input : RouterInput) : Option Nat :=
  if input.pos = 0 then some headerLen
  else (msgSize input.header).map fun size => roundUp size 8 - headerLen

/-- What one turn of the loop leaves in the variables, and the event it makes. -/
structure Turn where
  input : RouterInput
  event : Option RouterIn

/-- The event of a message. -/
def routerInNew (time connId : Nat) (header : List (BitVec 8)) (data : List (Option (BitVec 8))) :
    Option RouterIn :=
  (readBe32 header 4).bind fun routerId =>
    (hostSize header).map fun len => ⟨time, routerId, connId, data, len⟩

/-- The header after a read of at most eight bytes; it was zeroed before. -/
def headerOf (got : List (BitVec 8)) : List (BitVec 8) :=
  got.take headerLen ++ List.replicate (headerLen - got.length) 0

theorem headerOf_length (got : List (BitVec 8)) : (headerOf got).length = headerLen := by
  simp only [headerOf, List.length_append, List.length_take, List.length_replicate]
  omega

theorem headerOf_of_length {got : List (BitVec 8)} (full : got.length = headerLen) :
    headerOf got = got := by
  rw [headerOf, full, ← full, List.take_length, Nat.sub_self, List.replicate_zero, List.append_nil]

/-- The turn that reads a header. -/
def readHeader (time connId : Nat) (got : List (BitVec 8)) : Option Turn :=
  let header := headerOf got
  if got = [] then some ⟨⟨0, header, Or.inl rfl, headerOf_length got⟩, none⟩
  else
    (msgSize header).bind fun size =>
      if size = headerLen then
        (routerInNew time connId header (header.map some)).map fun ev =>
          ⟨⟨0, header, Or.inl rfl, headerOf_length got⟩, some ev⟩
      else if headerLen < roundUp size 8 then
        some ⟨⟨headerLen, header, Or.inr rfl, headerOf_length got⟩, none⟩
      else some ⟨⟨0, header, Or.inl rfl, headerOf_length got⟩, none⟩

/-- The turn that reads the data of a message.  The event is made whatever was read,
and the block is written beyond its end if it has no room for the header. -/
def readData (usable : Nat → Nat) (time connId : Nat) (input : RouterInput) (wanted : Nat)
    (got : List (BitVec 8)) : Option Turn :=
  if usable wanted < headerLen + got.length then none
  else
    (routerInNew time connId input.header
      ((input.header ++ got).map some ++ List.replicate (wanted - got.length) none)).map fun ev =>
        ⟨⟨0, input.header, Or.inl rfl, input.full⟩, some ev⟩

/-! ## Connections -/

/-- The connections: the bytes of each that were not read, the frames that were sent
on it, the connection whose callback is running, and the events made so far. -/
structure RouterConns where
  clock : Nat
  input : RouterInput
  reading : Option Nat
  unread : Nat → List (BitVec 8)
  sent : Nat → List Frame
  events : List RouterIn

/-- No connection has sent anything. -/
def routerConnsInit : RouterConns where
  clock := 0
  input := routerInputInit
  reading := none
  unread := fun _ => []
  sent := fun _ => []
  events := []

/-- What happens to the connections.  A callback runs alone: it starts when no other
one is running, and does not end before a read that returns nothing.  A read returns
no more bytes than the given number. -/
inductive ConnCall
  | send (connId : Nat) (frame : Frame)
  | callback (connId : Nat)
  | read (limit : Nat)
  | setClock (clock : Nat)

/-- What `bufferevent_read` returns. -/
def buffereventRead (unread : List (BitVec 8)) (wanted limit : Nat) : List (BitVec 8) :=
  unread.take (min limit wanted)

/-- A turn of the loop for a connection. -/
def readTurn (usable : Nat → Nat) (conns : RouterConns) (connId wanted : Nat)
    (got : List (BitVec 8)) : Option Turn :=
  if conns.input.pos = 0 then readHeader conns.clock connId got
  else readData usable conns.clock connId conns.input wanted got

/-- The connections after a turn. -/
def afterTurn (conns : RouterConns) (connId : Nat) (got : List (BitVec 8)) (turn : Turn) :
    RouterConns :=
  { conns with
    input := turn.input
    reading := if got = [] then none else some connId
    unread := Function.update conns.unread connId ((conns.unread connId).drop got.length)
    events := conns.events ++ turn.event.toList }

/-- `conn_manager_router_message_cb`, one read at a time. -/
def connStep (usable : Nat → Nat) : Step RouterConns ConnCall
  | conns, .send connId frame =>
    some { conns with
      unread := Function.update conns.unread connId (conns.unread connId ++ frame.bytes)
      sent := Function.update conns.sent connId (conns.sent connId ++ [frame]) }
  | conns, .callback connId =>
    some { conns with reading := conns.reading <|> some connId }
  | conns, .read limit =>
    match conns.reading with
    | none => some conns
    | some connId =>
      conns.input.wanted.bind fun wanted =>
        let got := buffereventRead (conns.unread connId) wanted limit
        (readTurn usable conns connId wanted got).map (afterTurn conns connId got)
  | conns, .setClock clock => some { conns with clock := clock }

/-! ## The property -/

/-- An event that brings a frame, whole. -/
structure Brings (frame : Frame) (ev : RouterIn) : Prop where
  data : ev.data = frame.bytes.map some
  routerId : readBe32 frame.bytes 4 = some ev.routerId

/-- The events of a connection. -/
def RouterConns.eventsOf (conns : RouterConns) (connId : Nat) : List RouterIn :=
  conns.events.filter fun ev => ev.connId == connId

/-- The bytes of a connection that no event has brought yet. -/
def RouterConns.pending (conns : RouterConns) (connId : Nat) : List (BitVec 8) :=
  (if conns.reading = some connId ∧ conns.input.pos ≠ 0 then conns.input.header else []) ++
    conns.unread connId

/-- The events of a connection bring the frames sent on it in their order, up to
those of which no byte is lost and none was brought. -/
def Reassembles (conns : RouterConns) (connId : Nat) : Prop :=
  ∃ brought later, conns.sent connId = brought ++ later ∧
    List.Forall₂ Brings brought (conns.eventsOf connId) ∧
    later.flatMap Frame.bytes = conns.pending connId

/-- No read is short: a header is read as a whole or not at all, data is read as a
whole, and the block of the message has room for both. -/
def WholeRead (usable : Nat → Nat) (conns : RouterConns) : ConnCall → Prop
  | .read limit => ∀ connId wanted, conns.reading = some connId →
      conns.input.wanted = some wanted →
      let got := buffereventRead (conns.unread connId) wanted limit
      (conns.input.pos = 0 ∧ got = []) ∨
        (got.length = wanted ∧ (conns.input.pos ≠ 0 → headerLen + wanted ≤ usable wanted))
  | _ => True

instance (usable : Nat → Nat) (conns : RouterConns) (call : ConnCall) :
    Decidable (WholeRead usable conns call) := by
  unfold WholeRead
  split
  · exact decidable_of_iff (∀ connId ∈ conns.reading, ∀ wanted ∈ conns.input.wanted, _)
      ⟨fun all connId wanted isConn isWanted => all connId isConn wanted isWanted,
        fun all connId isConn wanted isWanted => all connId wanted isConn isWanted⟩
  · infer_instance

/-! ## Frames -/

theorem le_roundUp (size : Nat) : size ≤ roundUp size 8 := by
  unfold roundUp
  omega

theorem headerLen_lt_roundUp {size : Nat} (hasHeader : headerLen ≤ size)
    (hasData : size ≠ headerLen) : headerLen < roundUp size 8 := by
  unfold roundUp headerLen at *
  omega

/-- The event of a message with a whole header is made. -/
theorem routerInNew_defined {time connId : Nat} {header : List (BitVec 8)}
    {data : List (Option (BitVec 8))} (full : header.length = headerLen) :
    ∃ ev, routerInNew time connId header data = some ev ∧ ev.connId = connId ∧ ev.data = data ∧
      readBe32 header 4 = some ev.routerId := by
  unfold headerLen at full
  rcases readBe_defined (show 4 + 4 ≤ header.length by omega) with ⟨value, isValue⟩
  have routerId : readBe32 header 4 = some (BitVec.ofNat 32 value) := by
    rw [readBe32, isValue]
    rfl
  have low : header[2]? = some header[2] := List.getElem?_eq_getElem (by omega)
  have high : header[3]? = some header[3] := List.getElem?_eq_getElem (by omega)
  rw [routerInNew, routerId, hostSize, low, high]
  exact ⟨_, rfl, rfl, rfl, rfl⟩

theorem RouterInput.wanted_defined (input : RouterInput) :
    ∃ wanted, input.wanted = some wanted := by
  have full := input.full
  unfold headerLen at full
  rcases readBe_defined (show 2 + 2 ≤ input.header.length by omega) with ⟨value, isValue⟩
  unfold RouterInput.wanted
  split
  · exact ⟨_, rfl⟩
  · rw [msgSize, readBe16, isValue]
    exact ⟨_, rfl⟩

namespace Frame

variable (frame : Frame)

theorem long : headerLen ≤ frame.bytes.length := by
  rw [frame.padded]
  exact Nat.le_trans frame.hasHeader (le_roundUp _)

/-- The header of a frame tells its size. -/
theorem msgSize_header : msgSize (frame.bytes.take headerLen) = some frame.size := by
  rw [msgSize, readBe16, readBe_take (by decide)]
  exact frame.isSize

theorem readBe32_header : readBe32 (frame.bytes.take headerLen) 4 = readBe32 frame.bytes 4 := by
  rw [readBe32, readBe32, readBe_take (by decide)]

theorem length_header : (frame.bytes.take headerLen).length = headerLen :=
  List.length_take_of_le frame.long

theorem header_ne_nil : frame.bytes.take headerLen ≠ [] := by
  intro isEmpty
  have full := frame.length_header
  rw [isEmpty] at full
  cases full

/-- A frame without data is brought by its header. -/
theorem readHeader_alone (time connId : Nat) (noData : frame.size = headerLen) :
    ∃ input ev, readHeader time connId (frame.bytes.take headerLen) = some ⟨input, some ev⟩ ∧
      input.pos = 0 ∧ ev.connId = connId ∧ Brings frame ev := by
  have bytes : frame.bytes.take headerLen = frame.bytes := by
    rw [List.take_of_length_le]
    rw [frame.padded, noData]
    exact Nat.le_refl _
  obtain ⟨ev, isEvent, own, isData, isRouter⟩ := @routerInNew_defined time connId _
    ((frame.bytes.take headerLen).map some) frame.length_header
  simp only [readHeader, headerOf_of_length frame.length_header, frame.header_ne_nil, if_false,
    frame.msgSize_header, Option.bind_some]
  rw [if_pos noData, isEvent]
  refine ⟨_, ev, rfl, rfl, own, ?_, ?_⟩
  · rw [isData, bytes]
  · rw [← isRouter, bytes]

/-- The header of a frame with data is kept. -/
theorem readHeader_first (time connId : Nat) (hasData : frame.size ≠ headerLen) :
    ∃ input, readHeader time connId (frame.bytes.take headerLen) = some ⟨input, none⟩ ∧
      input.pos = headerLen ∧ input.header = frame.bytes.take headerLen := by
  simp only [readHeader, headerOf_of_length frame.length_header, frame.header_ne_nil, if_false,
    frame.msgSize_header, Option.bind_some]
  rw [if_neg hasData, if_pos (headerLen_lt_roundUp frame.hasHeader hasData)]
  exact ⟨_, rfl, rfl, rfl⟩

/-- The rest of a frame is brought together with its header. -/
theorem readData_rest {usable : Nat → Nat} (time connId : Nat) {input : RouterInput}
    (isHeader : input.header = frame.bytes.take headerLen)
    (fits : frame.bytes.length ≤ usable (frame.bytes.length - headerLen)) :
    ∃ after ev, readData usable time connId input (frame.bytes.length - headerLen)
        (frame.bytes.drop headerLen) = some ⟨after, some ev⟩ ∧
      after.pos = 0 ∧ ev.connId = connId ∧ Brings frame ev := by
  have long := frame.long
  have whole : ¬usable (frame.bytes.length - headerLen) <
      headerLen + (frame.bytes.length - headerLen) := by omega
  have bytes : input.header ++ frame.bytes.drop headerLen = frame.bytes := by
    rw [isHeader, List.take_append_drop]
  obtain ⟨ev, isEvent, own, isData, isRouter⟩ := @routerInNew_defined time connId input.header
    (frame.bytes.map some) input.full
  rw [readData, List.length_drop, if_neg whole, bytes, Nat.sub_self, List.replicate_zero,
    List.append_nil, isEvent]
  refine ⟨_, ev, rfl, rfl, own, isData, ?_⟩
  rw [← frame.readBe32_header, ← isHeader]
  exact isRouter

end Frame

/-- The header at the start of a sequence of frames is that of the first one. -/
theorem first_frame {frames : List Frame} {header rest : List (BitVec 8)}
    (flat : frames.flatMap Frame.bytes = header ++ rest) (full : header.length = headerLen) :
    ∃ frame later, frames = frame :: later ∧ header = frame.bytes.take headerLen ∧
      rest = frame.bytes.drop headerLen ++ later.flatMap Frame.bytes := by
  cases frames with
  | nil =>
    have empty : header = [] := (List.append_eq_nil_iff.mp flat.symm).1
    rw [empty] at full
    cases full
  | cons frame later =>
    rw [List.flatMap_cons] at flat
    refine ⟨frame, later, rfl, ?_, ?_⟩
    · calc
        header = (header ++ rest).take headerLen := by rw [← full, List.take_left]
        _ = frame.bytes.take headerLen := by
          rw [← flat, List.take_append_of_le_length frame.long]
    · calc
        rest = (header ++ rest).drop headerLen := by rw [← full, List.drop_left]
        _ = frame.bytes.drop headerLen ++ later.flatMap Frame.bytes := by
          rw [← flat, List.drop_append_of_le_length frame.long]

/-! ## Reads -/

section Reads

variable {usable : Nat → Nat} {conns : RouterConns} {connId wanted limit : Nat}
  {got : List (BitVec 8)}

/-- What a turn of a callback has to keep. -/
structure KeepsTurn (conns : RouterConns) (connId : Nat) (got : List (BitVec 8)) (turn : Turn) :
    Prop where
  reassembles : Reassembles (afterTurn conns connId got turn) connId
  ownEvent : ∀ ev, turn.event = some ev → ev.connId = connId
  atEnd : got = [] → turn.input.pos = 0

theorem eventsOf_afterTurn_none (input : RouterInput) (other : Nat) :
    (afterTurn conns connId got ⟨input, none⟩).eventsOf other = conns.eventsOf other := by
  simp [RouterConns.eventsOf, afterTurn]

variable {input : RouterInput} {ev : RouterIn} {turn : Turn}

theorem eventsOf_afterTurn_some (own : ev.connId = connId) :
    (afterTurn conns connId got ⟨input, some ev⟩).eventsOf connId =
      conns.eventsOf connId ++ [ev] := by
  simp [RouterConns.eventsOf, afterTurn, own]

theorem pending_afterTurn (atBoundary : turn.input.pos = 0) :
    (afterTurn conns connId got turn).pending connId =
      (conns.unread connId).drop got.length := by
  simp [RouterConns.pending, afterTurn, atBoundary]

/-- A turn that makes the event of the first frame that was not brought. -/
theorem KeepsTurn.brings {brought later : List Frame} {frame : Frame}
    (isSent : conns.sent connId = brought ++ frame :: later)
    (before : List.Forall₂ Brings brought (conns.eventsOf connId)) (brings : Brings frame ev)
    (own : ev.connId = connId) (atBoundary : input.pos = 0)
    (rest : later.flatMap Frame.bytes = (conns.unread connId).drop got.length) :
    KeepsTurn conns connId got ⟨input, some ev⟩ where
  reassembles := by
    refine ⟨brought ++ [frame], later, ?_, ?_, ?_⟩
    · rw [List.append_assoc]
      exact isSent
    · rw [eventsOf_afterTurn_some own]
      exact List.rel_append before (.cons brings .nil)
    · rw [pending_afterTurn atBoundary]
      exact rest
  ownEvent := by
    rintro _ ⟨rfl⟩
    exact own
  atEnd _ := atBoundary

/-- A whole header was read at the boundary between two frames. -/
theorem readHeader_keeps (atBoundary : conns.input.pos = 0) (before : Reassembles conns connId)
    (full : got.length = headerLen)
    (split : conns.unread connId = got ++ (conns.unread connId).drop got.length) :
    ∃ turn, readHeader conns.clock connId got = some turn ∧ KeepsTurn conns connId got turn := by
  rcases before with ⟨brought, later, isSent, bringsBefore, flat⟩
  have isPending : conns.pending connId = conns.unread connId := by
    simp [RouterConns.pending, atBoundary]
  rw [isPending, split] at flat
  rcases first_frame flat full with ⟨frame, rest, rfl, isHeader, isRest⟩
  have nonempty : got ≠ [] := by
    rintro rfl
    cases full
  subst isHeader
  by_cases noData : frame.size = headerLen
  · obtain ⟨input, ev, isTurn, atStart, own, brings⟩ :=
      frame.readHeader_alone conns.clock connId noData
    have bytes : frame.bytes.length = headerLen := by
      rw [frame.padded, noData]
      rfl
    rw [isTurn]
    refine ⟨_, rfl, .brings isSent bringsBefore brings own atStart ?_⟩
    rw [isRest, ← bytes, List.drop_length]
    rfl
  · obtain ⟨input, isTurn, isPos, isHeader⟩ := frame.readHeader_first conns.clock connId noData
    rw [isTurn]
    refine ⟨_, rfl, ⟨?_, nofun, fun isEmpty => absurd isEmpty nonempty⟩⟩
    refine ⟨brought, frame :: rest, isSent, ?_, ?_⟩
    · rw [eventsOf_afterTurn_none]
      exact bringsBefore
    · rw [flat]
      simp [RouterConns.pending, afterTurn, isPos, isHeader, headerLen]

/-- All data of a message was read. -/
theorem readData_keeps (running : conns.reading = some connId) (inside : conns.input.pos ≠ 0)
    (before : Reassembles conns connId) (isWanted : conns.input.wanted = some wanted)
    (full : got.length = wanted) (fits : headerLen + wanted ≤ usable wanted)
    (split : conns.unread connId = got ++ (conns.unread connId).drop got.length) :
    ∃ turn, readData usable conns.clock connId conns.input wanted got = some turn ∧
      KeepsTurn conns connId got turn := by
  rcases before with ⟨brought, later, isSent, bringsBefore, flat⟩
  have isPending : conns.pending connId = conns.input.header ++ conns.unread connId := by
    simp [RouterConns.pending, running, inside]
  rw [isPending] at flat
  rcases first_frame flat conns.input.full with ⟨frame, rest, rfl, isHeader, isRest⟩
  have length : wanted = frame.bytes.length - headerLen := by
    rw [RouterInput.wanted, if_neg inside, isHeader, frame.msgSize_header] at isWanted
    rw [frame.padded]
    exact (Option.some.inj isWanted).symm
  have sameLength : got.length = (frame.bytes.drop headerLen).length := by
    rw [full, length, List.length_drop]
  rcases List.append_inj (split.symm.trans isRest) sameLength with ⟨isGot, isLater⟩
  have long := frame.long
  subst isGot length
  obtain ⟨after, ev, isTurn, atStart, own, brings⟩ := frame.readData_rest conns.clock connId
    isHeader (show frame.bytes.length ≤ usable (frame.bytes.length - headerLen) by omega)
  rw [isTurn]
  exact ⟨_, rfl, .brings isSent bringsBefore brings own atStart isLater.symm⟩

/-- A read that is not short keeps the frames of its connection in order. -/
theorem readTurn_keeps (running : conns.reading = some connId) (before : Reassembles conns connId)
    (isWanted : conns.input.wanted = some wanted)
    (isGot : got = buffereventRead (conns.unread connId) wanted limit)
    (whole : (conns.input.pos = 0 ∧ got = []) ∨
      (got.length = wanted ∧ (conns.input.pos ≠ 0 → headerLen + wanted ≤ usable wanted))) :
    ∃ turn, readTurn usable conns connId wanted got = some turn ∧
      KeepsTurn conns connId got turn := by
  have split : conns.unread connId = got ++ (conns.unread connId).drop got.length := by
    rw [isGot]
    exact List.prefix_iff_eq_append.mp (List.take_prefix _ _) |>.symm
  unfold readTurn
  rcases whole with ⟨atBoundary, rfl⟩ | ⟨full, fits⟩
  · rw [if_pos atBoundary]
    refine ⟨_, rfl, ⟨?_, nofun, fun _ => rfl⟩⟩
    rcases before with ⟨brought, later, isSent, bringsBefore, flat⟩
    refine ⟨brought, later, isSent, ?_, ?_⟩
    · rw [eventsOf_afterTurn_none]
      exact bringsBefore
    · rw [pending_afterTurn rfl, flat]
      simp [RouterConns.pending, atBoundary]
  · by_cases atBoundary : conns.input.pos = 0
    · rw [if_pos atBoundary]
      rw [RouterInput.wanted, if_pos atBoundary] at isWanted
      exact readHeader_keeps atBoundary before (full.trans (Option.some.inj isWanted).symm) split
    · rw [if_neg atBoundary]
      exact readData_keeps running atBoundary before isWanted full (fits atBoundary) split

/-- A callback does not touch the other connections. -/
theorem reassembles_other {other : Nat} (running : conns.reading = some connId)
    (isOther : other ≠ connId) (own : ∀ ev, turn.event = some ev → ev.connId = connId)
    (before : Reassembles conns other) : Reassembles (afterTurn conns connId got turn) other := by
  have sameEvents : (afterTurn conns connId got turn).eventsOf other = conns.eventsOf other := by
    simp only [RouterConns.eventsOf, afterTurn, List.filter_append]
    rw [List.append_right_eq_self, List.filter_eq_nil_iff]
    intro ev member
    rw [own ev (Option.mem_toList.mp member)]
    simpa using Ne.symm isOther
  have samePending : (afterTurn conns connId got turn).pending other = conns.pending other := by
    have notRunning : connId ≠ other := Ne.symm isOther
    by_cases isEmpty : got = [] <;>
      simp [RouterConns.pending, afterTurn, running, isEmpty, notRunning, isOther]
  rcases before with ⟨brought, later, isSent, bringsBefore, flat⟩
  exact ⟨brought, later, isSent, sameEvents ▸ bringsBefore, flat.trans samePending.symm⟩

end Reads

/-! ## Runs -/

/-- Frames are in order on all connections, and between two callbacks no header is
waiting for its data. -/
structure Sound (conns : RouterConns) : Prop where
  reassembles : ∀ connId, Reassembles conns connId
  idle : conns.reading = none → conns.input.pos = 0

theorem sound_init : Sound routerConnsInit where
  reassembles _ := ⟨[], [], rfl, .nil, rfl⟩
  idle _ := rfl

theorem sound_send {conns : RouterConns} (sound : Sound conns) (connId : Nat) (frame : Frame) :
    Sound { conns with
      unread := Function.update conns.unread connId (conns.unread connId ++ frame.bytes)
      sent := Function.update conns.sent connId (conns.sent connId ++ [frame]) } where
  reassembles other := by
    rcases sound.reassembles other with ⟨brought, later, isSent, brings, flat⟩
    by_cases isConn : other = connId
    · subst isConn
      refine ⟨brought, later ++ [frame], ?_, brings, ?_⟩
      · simp [isSent]
      · rw [List.flatMap_append, flat]
        simp [RouterConns.pending]
    · refine ⟨brought, later, ?_, brings, ?_⟩
      · simp [isConn, isSent]
      · rw [flat]
        simp [RouterConns.pending, isConn]
  idle := sound.idle

theorem sound_step {usable : Nat → Nat} {conns : RouterConns} {call : ConnCall}
    (sound : Sound conns) (whole : WholeRead usable conns call) :
    ∃ after, connStep usable conns call = some after ∧ Sound after := by
  cases call with
  | send connId frame => exact ⟨_, rfl, sound_send sound connId frame⟩
  | callback connId =>
    cases running : conns.reading with
    | none =>
      refine ⟨{ conns with reading := some connId }, by rw [connStep, running]; rfl, ?_, nofun⟩
      intro other
      rcases sound.reassembles other with ⟨brought, later, isSent, brings, flat⟩
      refine ⟨brought, later, isSent, brings, flat.trans ?_⟩
      simp [RouterConns.pending, sound.idle running]
    | some current =>
      have same : (conns.reading <|> some connId) = conns.reading := by
        rw [running]
        rfl
      refine ⟨conns, ?_, sound⟩
      rw [connStep, same]
  | read limit =>
    cases running : conns.reading with
    | none =>
      refine ⟨conns, ?_, sound⟩
      rw [connStep, running]
    | some connId =>
      rcases conns.input.wanted_defined with ⟨wanted, isWanted⟩
      rcases readTurn_keeps running (sound.reassembles connId) isWanted rfl
        (whole connId wanted running isWanted) with ⟨turn, isTurn, keeps⟩
      have step : connStep usable conns (.read limit) = some (afterTurn conns connId
          (buffereventRead (conns.unread connId) wanted limit) turn) := by
        rw [connStep, running]
        simp only [isWanted, Option.bind_some, isTurn]
        rfl
      refine ⟨_, step, ?_, ?_⟩
      · intro other
        by_cases isConn : other = connId
        · subst isConn
          exact keeps.reassembles
        · exact reassembles_other running isConn keeps.ownEvent (sound.reassembles other)
      · intro isNone
        apply keeps.atEnd
        by_contra nonempty
        simp [afterTurn, nonempty] at isNone
  | setClock clock => exact ⟨_, rfl, sound.reassembles, sound.idle⟩

/-- If no read is short, the events of every connection bring the frames that were
sent on it, whole and in order, and of what they have not brought every byte is still
to be read.  In particular all frames have been brought when nothing is left. -/
theorem reassembles_of_wholeRead (usable : Nat → Nat) (calls : List ConnCall)
    (whole : Along (connStep usable) (WholeRead usable) routerConnsInit calls) :
    ∃ final, run (connStep usable) routerConnsInit calls = some final ∧
      ∀ connId, Reassembles final connId ∧
        (final.reading = none → final.unread connId = [] →
          List.Forall₂ Brings (final.sent connId) (final.eventsOf connId)) := by
  rcases run_defined sound_step sound_init whole with ⟨final, ran, sound⟩
  refine ⟨final, ran, fun connId => ⟨sound.reassembles connId, ?_⟩⟩
  intro notRunning nothing
  rcases sound.reassembles connId with ⟨brought, later, isSent, brings, flat⟩
  have noBytes : later.flatMap Frame.bytes = [] := by
    rw [flat]
    simp [RouterConns.pending, notRunning, nothing]
  cases later with
  | nil =>
    rw [isSent, List.append_nil]
    exact brings
  | cons frame rest =>
    have empty : frame.bytes = [] := (List.append_eq_nil_iff.mp noBytes).1
    have long := frame.long
    rw [empty] at long
    cases long

/-- The activity of router 10.0.0.1, a message without data. -/
def activityFrame : Frame where
  bytes := [0, 0, 0, 8, 10, 0, 0, 1]
  size := 8
  isSize := rfl
  hasHeader := Nat.le_refl _
  padded := rfl

/-- A session of router 10.0.0.2 with 10.0.0.1 that is up. -/
def stateFrame : Frame where
  bytes := [0, 2, 0, 16, 10, 0, 0, 2, 10, 0, 0, 1, 2, 0, 0, 0]
  size := 16
  isSize := rfl
  hasHeader := by decide
  padded := rfl

/-- Two connections that are read without short reads, into blocks with room for a
header. -/
theorem reassembles_of_wholeRead_twoConnections :
    ∃ final, run (connStep (· + 8)) routerConnsInit
        [.send 0 stateFrame, .send 1 activityFrame, .callback 0, .read 8, .read 8, .read 0,
          .callback 1, .read 8, .read 0] = some final ∧
      List.Forall₂ Brings [stateFrame] (final.eventsOf 0) ∧
      List.Forall₂ Brings [activityFrame] (final.eventsOf 1) := by
  rcases reassembles_of_wholeRead (· + 8)
    [.send 0 stateFrame, .send 1 activityFrame, .callback 0, .read 8, .read 8, .read 0,
      .callback 1, .read 8, .read 0] (by decide +kernel) with ⟨final, ran, exact⟩
  cases ran
  exact ⟨_, rfl, (exact 0).2 rfl rfl, (exact 1).2 rfl rfl⟩

/-- A header of which only the first half was read is taken for a whole one, with
router 0 in it.  Where a block has only the size that was asked for, a message that
was read without short reads is written beyond its end. -/
theorem short_header_brings_other_frame :
    (∃ final, run (connStep (· + 8)) routerConnsInit
        [.send 0 activityFrame, .callback 0, .read 4, .read 8, .read 0] = some final ∧
      final.reading = none ∧ final.unread 0 = [] ∧
      ¬ List.Forall₂ Brings (final.sent 0) (final.eventsOf 0)) ∧
    run (connStep id) routerConnsInit
      [.send 0 stateFrame, .callback 0, .read 8, .read 8] = none := by
  refine ⟨⟨_, rfl, rfl, rfl, ?_⟩, rfl⟩
  intro brings
  cases brings with
  | cons first rest => exact absurd first.data (by decide)

end Horse.Sim
