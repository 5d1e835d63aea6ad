import Horse.Bgp.MsgCodec
import Horse.Net.RoutingMsg

/-!
# The receiver of a routing client

`_recv` reads the messages of the simulator from a stream, in two reads each, and puts
them on a queue.
-/

namespace Horse.Bgp

open Horse.Codec Horse.Transition

/-! ## The loop -/

/-- What `conn.recv` does: it returns bytes, or raises an `OSError` with or without the
codes for a read that would block. -/
inductive Received
  | bytes (msg : List (BitVec 8))
  | wouldBlock
  | failed
  deriving DecidableEq, Repr

/-- The variables of `_recv` and the queue. -/
structure Receiver where
  pos : Nat
  size : Nat
  msgType : Nat
  buf : Option (List (BitVec 8))
  queue : List (Nat × List (BitVec 8))
  deriving DecidableEq, Repr

/-- A receiver that waits for the next header. -/
def Receiver.idle (msgType : Nat) (queue : List (Nat × List (BitVec 8))) : Receiver :=
  ⟨0, 0, msgType, none, queue⟩

/-- The receiver before the loop; the type is only assigned by the first header. -/
def Receiver.start : Receiver :=
  .idle 0 []

namespace Receiver

/-- `readlen`; reading a negative number of bytes raises an exception. -/
def readlen (r : Receiver) : Option Nat :=
  if r.pos = 0 then some 8 else if 8 ≤ r.size then some (r.size - 8) else none

/-- The first branch of the loop.  Unpacking fewer than four bytes raises an exception that
the loop does not catch. -/
def recvHeader (r : Receiver) (msg : List (BitVec 8)) : Option Receiver :=
  (readBe msg 0 2).bind fun msgType => (readBe msg 2 2).map fun size =>
    { r with pos := r.pos + 8, msgType, size, buf := some msg }

/-- The second branch of the loop. -/
def recvRest (r : Receiver) (msg : List (BitVec 8)) : Option Receiver :=
  r.buf.map fun buf =>
    { r with pos := r.size, queue := r.queue ++ [(r.msgType, buf ++ msg)] }

/-- The end of a turn. -/
def finish (r : Receiver) : Receiver :=
  if r.pos = r.size then { r with pos := 0, size := 0, buf := none } else r

/-- A turn of the loop. -/
def recvTurn (r : Receiver) (received : Received) : Option Receiver :=
  r.readlen.bind fun _ =>
    match received with
    | .wouldBlock => some r
    | .failed => some r.finish
    | .bytes msg => (if r.pos = 0 then r.recvHeader msg else r.recvRest msg).map finish

/-- The queue of `_recv` when it has received the chunks or has raised an exception. -/
def recvLoop (r : Receiver) : List (List (BitVec 8)) → List (Nat × List (BitVec 8))
  | [] => r.queue
  | chunk :: rest =>
    match r.recvTurn (.bytes chunk) with
    | none => r.queue
    | some after => after.recvLoop rest

/-- The chunks can be what `conn.recv` returns: none is empty, and none is longer than what
the receiver asks for. -/
def Receives (r : Receiver) : List (List (BitVec 8)) → Prop
  | [] => True
  | chunk :: rest =>
    chunk ≠ [] ∧ (∀ readlen, r.readlen = some readlen → chunk.length ≤ readlen) ∧
      ∀ after, r.recvTurn (.bytes chunk) = some after → after.Receives rest

instance decidableReceives (r : Receiver) (chunks : List (List (BitVec 8))) :
    Decidable (r.Receives chunks) :=
  match chunks with
  | [] => isTrue trivial
  | chunk :: rest =>
    have (after : Receiver) : Decidable (after.Receives rest) := decidableReceives after rest
    inferInstanceAs (Decidable (chunk ≠ [] ∧
      (∀ readlen ∈ r.readlen, chunk.length ≤ readlen) ∧
        ∀ after ∈ r.recvTurn (.bytes chunk), after.Receives rest))

/-! ## The queue -/

/-- The number of bytes in the items of a queue. -/
def carried (queue : List (Nat × List (BitVec 8))) : Nat :=
  (queue.map fun item => item.2.length).sum

theorem carried_append (first second : List (Nat × List (BitVec 8))) :
    carried (first ++ second) = carried first + carried second := by
  rw [carried, List.map_append, List.sum_append, ← carried, ← carried]

/-- The number of bytes of an unfinished message. -/
def held (r : Receiver) : Nat :=
  (r.buf.getD []).length

/-- What a turn with data does. -/
theorem recvTurn_cases {r after : Receiver} {chunk : List (BitVec 8)}
    (turned : r.recvTurn (.bytes chunk) = some after) :
    (after.queue = r.queue ∧ (after.buf = none ∨ after.buf = some chunk)) ∨
      ∃ buf, r.buf = some buf ∧ after.buf = none ∧
        after.queue = r.queue ++ [(r.msgType, buf ++ chunk)] := by
  obtain ⟨_, middle, _, read, rfl⟩ := bind_map_eq_some_iff.mp turned
  by_cases atStart : r.pos = 0
  · rw [if_pos atStart] at read
    obtain ⟨msgType, size, _, _, rfl⟩ := bind_map_eq_some_iff.mp read
    left
    unfold finish
    split
    · exact ⟨rfl, .inl rfl⟩
    · exact ⟨rfl, .inr rfl⟩
  · rw [if_neg atStart] at read
    obtain ⟨buf, isBuf, rfl⟩ := Option.map_eq_some_iff.mp read
    right
    rw [finish, if_pos rfl]
    exact ⟨buf, isBuf, rfl, rfl⟩

/-- Items stay on the queue. -/
theorem queue_prefix_recvLoop (r : Receiver) (chunks : List (List (BitVec 8))) :
    r.queue <+: r.recvLoop chunks := by
  induction chunks generalizing r with
  | nil => exact List.prefix_refl _
  | cons chunk rest ih =>
    rw [recvLoop]
    cases turned : r.recvTurn (.bytes chunk) with
    | none => exact List.prefix_refl _
    | some after =>
      rcases recvTurn_cases turned with ⟨sameQueue, _⟩ | ⟨buf, _, _, isQueue⟩
      · exact sameQueue ▸ ih after
      · exact (List.prefix_append _ _).trans (isQueue ▸ ih after)

/-- The queue carries no more bytes than were received. -/
theorem carried_recvLoop_le (r : Receiver) (chunks : List (List (BitVec 8))) :
    carried (r.recvLoop chunks) ≤ carried r.queue + r.held + chunks.flatten.length := by
  induction chunks generalizing r with
  | nil =>
    rw [recvLoop]
    omega
  | cons chunk rest ih =>
    rw [recvLoop, List.flatten_cons, List.length_append]
    cases turned : r.recvTurn (.bytes chunk) with
    | none =>
      dsimp only
      omega
    | some after =>
      have received := ih after
      dsimp only
      rcases recvTurn_cases turned with ⟨sameQueue, isBuf | isBuf⟩ |
        ⟨buf, isBuf, noBuf, isQueue⟩
      · simp only [sameQueue, held, isBuf, Option.getD_none, List.length_nil] at received
        omega
      · simp only [sameQueue, held, isBuf, Option.getD_some] at received
        omega
      · have item : carried [(r.msgType, buf ++ chunk)] = buf.length + chunk.length := by
          rw [carried, List.map_singleton, List.sum_singleton, List.length_append]
        simp only [isQueue, carried_append, item, held, noBuf, Option.getD_none,
          List.length_nil] at received
        simp only [held, isBuf, Option.getD_some]
        omega

end Receiver

/-! ## The messages of the simulator -/

/-- The messages that `routing_msg_pack` knows. -/
inductive SimMsg
  | activity (routerId : BitVec 32)
  | state (routerId peerRid : BitVec 32) (code : BitVec 8)
  | announce (routerId peerRid : BitVec 32)
  deriving DecidableEq, Repr

namespace SimMsg

/-- The message as the native code builds it. -/
def message : SimMsg → Net.RoutingMessage
  | activity routerId => Net.routerActivityNew routerId
  | state routerId peerRid code => Net.routingMsgBgpStateNew routerId peerRid code
  | announce routerId peerRid => Net.routingMsgBgpAnnounceNew routerId peerRid

/-- The bytes behind the header. -/
def body : SimMsg → List (BitVec 8)
  | activity _ => []
  | state _ peerRid code => packBe 4 peerRid.toNat ++ (code :: List.replicate 3 0)
  | announce _ peerRid => packBe 4 peerRid.toNat ++ List.replicate 4 0

/-- The bytes of the message on the connection. -/
def frame (msg : SimMsg) : List (BitVec 8) :=
  Net.headerBytes msg.message.hdr ++ msg.body

/-- The bytes are those that the simulator packs, whatever its buffer held before. -/
theorem routingMsgPack_message (fresh : Nat → BitVec 8) (msg : SimMsg) :
    Net.routingMsgPack fresh msg.message = some (some msg.frame) := by
  cases msg with
  | activity routerId =>
    rw [frame, body, List.append_nil]
    exact Net.routingMsgPack_routerActivity fresh routerId
  | state routerId peerRid code => exact Net.routingMsgPack_bgpState fresh routerId peerRid code
  | announce routerId peerRid => exact Net.routingMsgPack_bgpAnnounce fresh routerId peerRid

/-- The item that the receiver should put on the queue. -/
def item (msg : SimMsg) : Nat × List (BitVec 8) :=
  (msg.message.hdr.type.toNat, msg.frame)

/-- The bytes of some messages on the connection. -/
def stream (msgs : List SimMsg) : List (BitVec 8) :=
  msgs.flatMap frame

/-- The message is not only a header. -/
def HasBody (msg : SimMsg) : Prop :=
  msg.body ≠ []

instance (msg : SimMsg) : Decidable msg.HasBody :=
  inferInstanceAs (Decidable (_ ≠ _))

/-- The chunks of a message when its header and its body are each received at once. -/
def parts (msg : SimMsg) : List (List (BitVec 8)) :=
  [Net.headerBytes msg.message.hdr, msg.body]

theorem length_frame (msg : SimMsg) : msg.frame.length = 8 + msg.body.length := by
  rw [frame, List.length_append, Net.length_headerBytes]

theorem HasBody.longer {msg : SimMsg} (hasBody : msg.HasBody) : 8 < msg.frame.length := by
  have body := List.length_pos_iff.mpr hasBody
  rw [length_frame]
  omega

theorem size_message (msg : SimMsg) : msg.message.hdr.size.toNat = msg.frame.length := by
  rw [length_frame]
  cases msg with
  | activity routerId => rfl
  | state routerId peerRid code =>
    rw [body, List.length_append, length_packBe]
    rfl
  | announce routerId peerRid =>
    rw [body, List.length_append, length_packBe]
    rfl

/-- The first four bytes of a message say its type and its size. -/
theorem read_frame (msg : SimMsg) (after : List (BitVec 8)) :
    readBe (msg.frame ++ after) 0 2 = some msg.message.hdr.type.toNat ∧
      readBe (msg.frame ++ after) 2 2 = some msg.frame.length := by
  have type := readBe_packBe [] (packBe 2 msg.message.hdr.size.toNat ++
    (packBe 4 msg.message.hdr.routerId.toNat ++ (msg.body ++ after))) 2
    msg.message.hdr.type.toNat
  have size := readBe_packBe (packBe 2 msg.message.hdr.type.toNat)
    (packBe 4 msg.message.hdr.routerId.toNat ++ (msg.body ++ after)) 2
    msg.message.hdr.size.toNat
  rw [Nat.mod_eq_of_lt (by exact msg.message.hdr.type.isLt)] at type
  rw [Nat.mod_eq_of_lt (by exact msg.message.hdr.size.isLt), length_packBe] at size
  rw [← size_message, frame, Net.headerBytes]
  simp only [List.append_assoc]
  exact ⟨type, size⟩

theorem carried_items (msgs : List SimMsg) :
    Receiver.carried (msgs.map item) = (stream msgs).length := by
  rw [Receiver.carried, List.map_map, stream, List.length_flatMap]
  rfl

end SimMsg

/-! ## Reassembly -/

namespace Receiver

/-- A header is read from the first chunk of a message that has at least four bytes. -/
theorem recvTurn_idle (msgType : Nat) (queue : List (Nat × List (BitVec 8))) (msg : SimMsg)
    {chunk after stream : List (BitVec 8)} (joined : chunk ++ after = msg.frame ++ stream) :
    (idle msgType queue).recvTurn (.bytes chunk) =
      if 4 ≤ chunk.length then
        some (finish
          ⟨8, msg.frame.length, msg.message.hdr.type.toNat, some chunk, queue⟩)
      else none := by
  split
  next enough =>
    obtain ⟨type, size⟩ := msg.read_frame stream
    rw [← joined, readBe_append_left after (by omega)] at type size
    simp only [recvTurn, readlen, idle, recvHeader, type, size, if_pos, Option.bind_some,
      Option.map_some, Nat.zero_add]
  next short =>
    have noSize : readBe chunk 2 2 = none := by
      cases read : readBe chunk 2 2 with
      | none => rfl
      | some size =>
        have length := congrArg List.length (packBe_readBe read)
        rw [length_packBe, List.length_take, List.length_drop] at length
        omega
    simp only [recvTurn, readlen, idle, recvHeader, noSize, if_pos, Option.bind_some,
      Option.map_none]
    cases readBe chunk 0 2 <;> rfl

variable {msgType : Nat} {msgs : List SimMsg} {msg : SimMsg}

/-- What is asked for after the header of a longer message. -/
theorem readlen_started {size : Nat} (longer : 8 < size) (buf : List (BitVec 8))
    (queue : List (Nat × List (BitVec 8))) :
    readlen ⟨8, size, msgType, some buf, queue⟩ = some (size - 8) := by
  rw [readlen, if_neg (by exact Nat.succ_ne_zero 7), if_pos (Nat.le_of_lt longer)]

/-- The rest of a message that is longer than its header. -/
theorem recvTurn_started {size : Nat} (longer : 8 < size) (buf chunk : List (BitVec 8))
    (queue : List (Nat × List (BitVec 8))) :
    recvTurn ⟨8, size, msgType, some buf, queue⟩ (.bytes chunk) =
      some (idle msgType (queue ++ [(msgType, buf ++ chunk)])) := by
  rw [recvTurn, readlen_started longer, Option.bind_some]
  dsimp only
  rw [if_neg (Nat.succ_ne_zero 7), recvRest, Option.map_some, Option.map_some, finish, if_pos rfl]
  rfl

/-- Messages with a body, each received in two reads, are put on the queue. -/
theorem recvLoop_parts (bodies : ∀ msg ∈ msgs, msg.HasBody) (msgType : Nat)
    (queue : List (Nat × List (BitVec 8))) :
    (idle msgType queue).recvLoop (msgs.flatMap SimMsg.parts) =
      queue ++ msgs.map SimMsg.item := by
  induction msgs generalizing msgType queue with
  | nil => exact (List.append_nil queue).symm
  | cons msg rest ih =>
    have longer := (bodies msg List.mem_cons_self).longer
    have header := @recvTurn_idle msgType queue msg (Net.headerBytes msg.message.hdr)
      msg.body [] (List.append_nil _).symm
    rw [if_pos (by rw [Net.length_headerBytes]; decide), finish,
      if_neg (Nat.ne_of_lt longer)] at header
    rw [List.flatMap_cons, SimMsg.parts, List.cons_append, List.singleton_append, recvLoop,
      header]
    dsimp only
    rw [recvLoop, recvTurn_started longer]
    dsimp only
    rw [ih (fun other member => bodies other (List.mem_cons_of_mem _ member)),
      List.append_assoc]
    rfl

/-- A message that is only a header is taken from the stream and not put on the queue. -/
theorem carried_recvLoop_lt (noBody : ¬ msg.HasBody) (msgType : Nat)
    (queue : List (Nat × List (BitVec 8))) {chunk stream : List (BitVec 8)}
    {rest : List (List (BitVec 8))} (enough : 4 ≤ chunk.length)
    (joined : chunk ++ rest.flatten = msg.frame ++ stream) :
    carried ((idle msgType queue).recvLoop (chunk :: rest)) <
      carried queue + (msg.frame ++ stream).length := by
  have only : msg.frame.length = 8 := by
    rw [SimMsg.length_frame, Decidable.not_not.mp noBody, List.length_nil]
  have dropped : (idle msgType queue).recvTurn (.bytes chunk) =
      some (idle msg.message.hdr.type.toNat queue) := by
    rw [recvTurn_idle msgType queue msg joined, if_pos enough, finish, if_pos only.symm]
    rfl
  have bound := carried_recvLoop_le (idle msg.message.hdr.type.toNat queue) rest
  rw [recvLoop, dropped, ← joined, List.length_append]
  dsimp only [idle, held, Option.getD_none, List.length_nil] at bound ⊢
  omega

/-- The first two chunks make up a message with a body only if they are its parts. -/
theorem chunks_eq_parts {first second : List (BitVec 8)} (whole : first ++ second = msg.frame)
    (firstShort : first.length ≤ 8) (secondShort : second.length ≤ msg.frame.length - 8) :
    first = Net.headerBytes msg.message.hdr ∧ second = msg.body := by
  have length := congrArg List.length whole
  rw [List.length_append] at length
  have isBody := msg.length_frame
  refine List.append_inj whole ?_
  rw [Net.length_headerBytes]
  omega

/-- A queue with one item for each message needs messages with a body and two reads each. -/
theorem parts_of_recvLoop {chunks : List (List (BitVec 8))} {queue : List (Nat × List (BitVec 8))}
    (receives : (idle msgType queue).Receives chunks)
    (joined : chunks.flatten = SimMsg.stream msgs)
    (queued : (idle msgType queue).recvLoop chunks = queue ++ msgs.map SimMsg.item) :
    (∀ msg ∈ msgs, msg.HasBody) ∧ chunks = msgs.flatMap SimMsg.parts := by
  induction msgs generalizing chunks msgType queue with
  | nil =>
    cases chunks with
    | nil => exact ⟨nofun, rfl⟩
    | cons chunk rest => exact absurd (List.append_eq_nil_iff.mp joined).1 receives.1
  | cons msg others ih =>
    -- An item for the message is missing as long as the queue has not grown.
    have grown : queue ≠ queue ++ (msg :: others).map SimMsg.item := fun same =>
      List.cons_ne_nil _ _ (List.self_eq_append_right.mp same)
    cases chunks with
    | nil => exact absurd queued grown
    | cons first rest =>
      rw [List.flatten_cons, SimMsg.stream, List.flatMap_cons, ← SimMsg.stream] at joined
      obtain ⟨_, firstShort, receives⟩ := receives
      have header := recvTurn_idle msgType queue msg joined
      by_cases enough : 4 ≤ first.length
      case neg =>
        rw [recvLoop, header, if_neg enough] at queued
        exact absurd queued grown
      by_cases hasBody : msg.HasBody
      case neg =>
        have lost := carried_recvLoop_lt hasBody msgType queue enough joined
        rw [queued, carried_append, SimMsg.carried_items, SimMsg.stream,
          List.flatMap_cons, ← SimMsg.stream] at lost
        exact absurd lost (Nat.lt_irrefl _)
      have longer := hasBody.longer
      rw [if_pos enough, finish, if_neg (Nat.ne_of_lt longer)] at header
      rw [recvLoop, header] at queued
      cases rest with
      | nil => exact absurd queued grown
      | cons second rest =>
        obtain ⟨_, secondShort, receives⟩ := receives _ header
        have turned := @recvTurn_started msg.message.hdr.type.toNat _ longer first second
          queue
        dsimp only at queued
        rw [recvLoop, turned] at queued
        have onQueue : queue ++ [(msg.message.hdr.type.toNat, first ++ second)] <+:
            queue ++ (msg :: others).map SimMsg.item :=
          queued ▸ queue_prefix_recvLoop
            (idle _ (queue ++ [(msg.message.hdr.type.toNat, first ++ second)])) rest
        have isItem := (List.cons_prefix_cons.mp
          ((List.prefix_append_right_inj queue).mp onQueue)).1
        have whole : first ++ second = msg.frame := congrArg Prod.snd isItem
        obtain ⟨rfl, rfl⟩ := chunks_eq_parts whole (firstShort 8 rfl)
          (secondShort _ (readlen_started longer first queue))
        rw [List.flatten_cons, ← List.append_assoc, whole] at joined
        rw [whole] at queued turned
        obtain ⟨bodies, isParts⟩ := ih (receives _ turned)
          (List.append_cancel_left joined) (by
            rw [List.append_assoc]
            exact queued)
        rw [isParts]
        exact ⟨List.forall_mem_cons.mpr ⟨hasBody, bodies⟩, rfl⟩

end Receiver

/-- The receiver puts one item for each message on its queue, in order and complete, exactly
if every message has a body and each header and each body arrives in one chunk. -/
theorem recv_queues_messages_iff (msgs : List SimMsg) (chunks : List (List (BitVec 8)))
    (receives : Receiver.start.Receives chunks)
    (joined : chunks.flatten = SimMsg.stream msgs) :
    Receiver.start.recvLoop chunks = msgs.map SimMsg.item ↔
      (∀ msg ∈ msgs, msg.HasBody) ∧ chunks = msgs.flatMap SimMsg.parts := by
  constructor
  · intro queued
    exact Receiver.parts_of_recvLoop receives joined queued
  · rintro ⟨bodies, rfl⟩
    exact Receiver.recvLoop_parts bodies 0 []

/-- A state message between two announcements, each received in two reads. -/
theorem recv_queues_messages_iff_three :
    Receiver.start.recvLoop
        ([SimMsg.announce 1 2, .state 1 2 6, .announce 1 3].flatMap SimMsg.parts) =
      [SimMsg.announce 1 2, .state 1 2 6, .announce 1 3].map SimMsg.item :=
  (recv_queues_messages_iff _ _ (by decide) (by decide)).mpr ⟨by decide, rfl⟩

/-- An activity message is never put on the queue, and a header that arrives in two chunks
makes a state message end after twelve bytes. -/
theorem messages_lost_by_receiver :
    (∃ chunks, Receiver.start.Receives chunks ∧ chunks.flatten = SimMsg.stream [.activity 1] ∧
        Receiver.start.recvLoop chunks = []) ∧
      ∃ chunks, Receiver.start.Receives chunks ∧
        chunks.flatten = SimMsg.stream [.state 1 2 2] ∧
        Receiver.start.recvLoop chunks = [(2, (SimMsg.state 1 2 2).frame.take 12)] := by
  refine ⟨⟨[(SimMsg.activity 1).frame], by decide, by decide, by decide⟩,
    [[0, 2, 0, 16], [0, 0, 0, 1, 0, 0, 0, 2], [2, 0, 0, 0]], by decide, by decide, by decide⟩

end Horse.Bgp
