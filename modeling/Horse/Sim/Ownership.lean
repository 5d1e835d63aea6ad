import Horse.Container.Ownership
import Horse.Sim.Memory

/-!
# Who owns a netflow object

The source refers to netflows by pointers: from the table of live flows, from the buffers
of the nodes, and from the handlers.  A netflow may in turn refer to a payload.  The
objects are numbered here, next to the state of the simulator, and released objects are
recorded.

Two handlers release objects that are still referred to: a netflow that is sent on a port
without a link stays in its live flow, and the copies that a packet-out makes for its
ports share the payload of the netflow that is released at the end.
-/

namespace Horse.Sim

open Horse.Container Horse.Lib Horse.Net Horse.Transition

/-! ## Objects -/

/-- A netflow object, and the payload that it refers to. -/
structure Cell where
  obj : Nat
  payload : Option Nat
  deriving DecidableEq, Repr

/-- The netflow objects and payloads.  The live flows and the netflows that wait in the
buffer of a node are listed with the newest in front. -/
structure Heap where
  next : Nat
  held : List (Nat × Cell)
  waiting : List (Nat × Cell)
  freed : List Nat
  deriving DecidableEq, Repr

namespace Heap

/-- The pointer in a live flow. -/
def cellOf (heap : Heap) (flowId : Nat) : Option Cell :=
  (heap.held.find? fun entry => entry.1 == flowId).map Prod.snd

/-- The first entry for a live flow has the pointer. -/
abbrev Holds (heap : Heap) (flowId : Nat) (c : Cell) : Prop :=
  heap.held.find? (fun entry => entry.1 == flowId) = some (flowId, c)

/-- Assign the pointer in a live flow. -/
def setFlow (heap : Heap) (flowId : Nat) (c : Cell) : Heap :=
  { heap with
    held := updateFirst (fun entry => entry.1 == flowId) (fun entry => (entry.1, c)) heap.held }

/-- `netflow_destroy`. -/
def netflowDestroy (heap : Heap) (c : Cell) : Heap :=
  { heap with freed := c.obj :: (c.payload.toList ++ heap.freed) }

/-- `del_live_flow`, with the netflow of the live flow. -/
def delLiveFlow (heap : Heap) (flowId : Nat) (c : Cell) : Heap :=
  netflowDestroy { heap with held := heap.held.eraseP fun entry => entry.1 == flowId } c

/-- The objects after a node has received the netflow of a live flow. -/
def recv (heap : Heap) (uuid flowId : Nat) (c : Cell) : FlowMove → Heap
  | .returned => heap
  | .dropped cleared =>
    heap.delLiveFlow flowId (if cleared then { c with payload := none } else c)
  | .requested pushed =>
    { heap.setFlow flowId ⟨heap.next, none⟩ with
      next := heap.next + 1
      waiting := if pushed then (uuid, c) :: heap.waiting else heap.waiting }
  | .released =>
    match heap.waiting.find? fun entry => entry.1 == uuid with
    | none => heap
    | some top =>
      { heap.setFlow flowId top.2 with
        waiting := heap.waiting.eraseP fun entry => entry.1 == uuid }

/-- `netflow_new_from_netflow` for a number of new live flows: the copies share the
payload. -/
def copy (payload : Option Nat) : Nat → Nat → Heap → Heap
  | 0, _, heap => heap
  | count + 1, flowId, heap =>
    copy payload count (flowId + 1)
      { heap with
        next := heap.next + 1
        held := (flowId, ⟨heap.next, payload⟩) :: heap.held }

/-- A netflow is copied for the live flows from `first` on, and destroyed. -/
def launch (heap : Heap) (source : Cell) (first last : Nat) : Heap :=
  (copy source.payload (last - first) first heap).netflowDestroy source

/-- The objects after `handle_start_app`.  A netflow that is not sent is forgotten. -/
def start (heap : Heap) (uuid first last : Nat) : FlowMove → Heap
  | .returned => { heap with next := heap.next + 1 }.launch ⟨heap.next, none⟩ first last
  | .dropped _ => { heap with next := heap.next + 1 }
  | .requested pushed =>
    { heap with
      next := heap.next + 2
      waiting := if pushed then (uuid, ⟨heap.next, none⟩) :: heap.waiting
        else heap.waiting }.launch ⟨heap.next + 1, none⟩ first last
  | .released => heap

end Heap

/-- `pkt_to_netflow` allocates a payload, which it does for LLDP frames.  An empty payload
has no object. -/
def carriesPayload : OfMessage → Bool
  | .packetOut _ _ (some pkt) _ => !pkt.payload.isEmpty
  | _ => false

namespace Heap

/-- The objects after `handle_of_in`. -/
def ofIn (heap : Heap) (msg : OfMessage) (first last : Nat) : Heap :=
  { heap with next := heap.next + 2 }.launch
    ⟨heap.next, if carriesPayload msg then some (heap.next + 1) else none⟩ first last

/-- The objects after an event was handled, which made new live flows. -/
def handle (heap : Heap) (find : HashFind Flow) (evh after : EvHandler) : SimEvent → Heap
  | .flowRecv _ nodeId flowId _ _ =>
    match topologyNode evh.topo nodeId, (evh.findLiveFlow flowId).bind LiveFlow.flow,
        heap.cellOf flowId with
    | some node, some nf, some c => heap.recv node.uuid flowId c (node.recvMove find nf)
    | _, _, _ => heap
  | .flowSend _ nodeId flowId outPort _ =>
    match topologyNode evh.topo nodeId, heap.cellOf flowId with
    | some node, some c =>
      if nodeCalculatePortLoss node.base outPort = 0 ∧
          topologyNextHop evh.topo nodeId outPort = none then heap.netflowDestroy c
      else heap
    | _, _ => heap
  | .appStart _ nodeId addr =>
    match topologyNode evh.topo nodeId with
    | some (.host h) =>
      match (h.execAt addr).bind (startMove h) with
      | some move => heap.start h.ep.base.uuid evh.nextFlowId after.nextFlowId move
      | none => heap
    | _ => heap
  | .ofMsgIn _ _ msg => heap.ofIn msg evh.nextFlowId after.nextFlowId
  | _ => heap

/-- The objects that are referred to or released, once for each time. -/
def objs (heap : Heap) : List Nat :=
  heap.held.map (fun entry => entry.2.obj) ++
    (heap.waiting.map (fun entry => entry.2.obj) ++ heap.freed)

end Heap

/-- The netflow of every live flow and its payload have not been released, and nothing was
released twice. -/
def Alive (heap : Heap) : Prop :=
  (∀ entry ∈ heap.held, entry.2.obj ∉ heap.freed ∧
    ∀ payload ∈ entry.2.payload, payload ∉ heap.freed) ∧
  heap.freed.Nodup

/-- The number of netflows that wait at a node. -/
def EvHandler.buffered (evh : EvHandler) (uuid : Nat) : Nat :=
  ((evh.memoryAt uuid).map fun memory => memory.buffer.flows.length).getD 0

/-- There is a pointer for each live flow and for each netflow in a buffer. -/
structure Synced (evh : EvHandler) (heap : Heap) : Prop where
  ids : heap.held.map Prod.fst = evh.flowIds
  buffers : ∀ uuid, heap.waiting.countP (fun entry => entry.1 == uuid) = evh.buffered uuid

namespace Synced

variable {evh after : EvHandler} {heap : Heap}

theorem cellOf (synced : Synced evh heap) {flowId : Nat} {lf : LiveFlow}
    (live : evh.findLiveFlow flowId = some lf) : ∃ c, heap.Holds flowId c := by
  have member : flowId ∈ heap.held.map Prod.fst := by
    rw [synced.ids]
    refine List.mem_map.mpr ⟨lf, List.mem_of_find?_eq_some live, ?_⟩
    simpa using List.find?_some live
  obtain ⟨entry, isEntry, rfl⟩ := List.mem_map.mp member
  have isSome : (heap.held.find? fun other => other.1 == entry.1).isSome :=
    List.find?_isSome.mpr ⟨entry, isEntry, by simp⟩
  obtain ⟨found, isFound⟩ := Option.isSome_iff_exists.mp isSome
  have sameId : found.1 = entry.1 := by simpa using List.find?_some isFound
  exact ⟨found.2, by rw [Heap.Holds, isFound, ← sameId]⟩

/-- Neither the numbers nor the buffers change. -/
theorem quiet (synced : Synced evh heap) (sameIds : after.flowIds = evh.flowIds)
    (sameMemory : after.memoryAt = evh.memoryAt) : Synced after heap where
  ids := synced.ids.trans sameIds.symm
  buffers uuid := by rw [synced.buffers, EvHandler.buffered, EvHandler.buffered, sameMemory]

theorem netflowDestroy (synced : Synced evh heap) (c : Cell) :
    Synced evh (heap.netflowDestroy c) :=
  ⟨synced.ids, synced.buffers⟩

/-- Each new live flow refers to a copy. -/
theorem copy {sum : TimeSum} {start : Nat} {events : List SimEvent}
    (launches : Launches sum start evh events after) (payload : Option Nat)
    (synced : Synced evh heap) :
    Synced after (heap.copy payload (after.nextFlowId - evh.nextFlowId) evh.nextFlowId) := by
  induction launches generalizing heap with
  | nil evh =>
    rw [Nat.sub_self]
    exact synced
  | @cons evh after nodeId time port new events inTime rest ih =>
    have more : evh.nextFlowId + 1 ≤ after.nextFlowId := rest.nextFlowId
    have count : after.nextFlowId - evh.nextFlowId =
        after.nextFlowId - (evh.nextFlowId + 1) + 1 := by omega
    rw [count]
    apply ih
    exact ⟨congrArg (evh.nextFlowId :: ·) synced.ids, synced.buffers⟩

end Synced

variable {nodeId : Nat} {node : TopoNode}

/-- The buffer of one node changes. -/
theorem buffered_setNode {evh : EvHandler} {old : TopoNode}
    (atNode : topologyNode evh.topo nodeId = some old) (sameUuid : node.uuid = nodeId)
    (uuid : Nat) :
    (evh.setNode node).buffered uuid =
      if uuid = nodeId then node.base.flowBuff.flows.length else evh.buffered uuid := by
  rw [EvHandler.buffered, memoryAt_setNode atNode sameUuid]
  split
  · simp only [Option.map_some, TopoNode.memory_buffer, Option.getD_some]
  · rfl

theorem buffered_of_node {evh : EvHandler} (atNode : topologyNode evh.topo nodeId = some node) :
    evh.buffered nodeId = node.base.flowBuff.flows.length := by
  simp only [EvHandler.buffered, EvHandler.memoryAt, atNode, Option.map_some,
    TopoNode.memory_buffer, Option.getD_some]

/-- Receiving a netflow keeps the pointers in step with the live flows and the buffers. -/
theorem Synced.recv {evh after : EvHandler} {heap : Heap} {before next : Node} {flowId : Nat}
    {c : Cell} {move : FlowMove} {out : Option Netflow} (synced : Synced evh heap)
    (length : evh.buffered nodeId = before.flowBuff.flows.length)
    (fits : move.Fits before next out)
    (ids : after.flowIds =
      if out.isSome then evh.flowIds else evh.flowIds.eraseP fun id => id == flowId)
    (buffers : ∀ uuid, after.buffered uuid =
      if uuid = nodeId then next.flowBuff.flows.length else evh.buffered uuid) :
    Synced after (heap.recv nodeId flowId c move) := by
  have setIds (new : Cell) : (heap.setFlow flowId new).held.map Prod.fst = evh.flowIds := by
    rw [← synced.ids, Heap.setFlow, map_updateFirst _ _ (by simp)]
  cases move with
  | returned =>
    obtain ⟨isSome, sameBuffer⟩ := fits
    rw [if_pos isSome] at ids
    refine ⟨synced.ids.trans ids.symm, fun uuid => ?_⟩
    rw [buffers, sameBuffer, ← length, Heap.recv, synced.buffers]
    split
    · rename_i isNode
      rw [isNode]
    · rfl
  | dropped cleared =>
    obtain ⟨isNone, sameBuffer⟩ := fits
    rw [isNone, if_neg (by simp), ← synced.ids, List.eraseP_map] at ids
    refine ⟨ids.symm, fun uuid => ?_⟩
    rw [buffers, sameBuffer, ← length]
    refine (synced.buffers uuid).trans ?_
    split
    · rename_i isNode
      rw [isNode]
    · rfl
  | requested pushed =>
    obtain ⟨isSome, longer⟩ := fits
    rw [if_pos isSome] at ids
    refine ⟨(setIds _).trans ids.symm, fun uuid => ?_⟩
    have old := synced.buffers uuid
    rw [buffers, longer, ← length]
    by_cases isNode : uuid = nodeId
    · subst isNode
      cases pushed <;> simp [Heap.recv, old]
    · cases pushed <;> simp [Heap.recv, old, isNode, Ne.symm isNode]
  | released =>
    obtain ⟨isSome, shorter⟩ := fits
    rw [if_pos isSome] at ids
    have waits : 0 < heap.waiting.countP fun entry => entry.1 == nodeId := by
      rw [synced.buffers, length, ← shorter]
      exact Nat.succ_pos _
    have found : (heap.waiting.find? fun entry => entry.1 == nodeId).isSome :=
      List.find?_isSome.mpr (List.countP_pos_iff.mp waits)
    obtain ⟨top, isTop⟩ := Option.isSome_iff_exists.mp found
    have isId : top.1 = nodeId := by simpa using List.find?_some isTop
    simp only [Heap.recv, isTop]
    refine ⟨(setIds _).trans ids.symm, fun uuid => ?_⟩
    have old := synced.buffers uuid
    rw [(perm_cons_eraseP isTop).countP_eq, List.countP_cons, isId] at old
    rw [buffers]
    by_cases isNode : uuid = nodeId
    · subst isNode
      rw [length, ← shorter] at old
      simp only [beq_self_eq_true, if_true] at old ⊢
      omega
    · simpa [isNode, Ne.symm isNode] using old

/-! ## Exclusive references -/

/-- Every reference is the only one to its object, no object in use was released, and no
netflow has a payload. -/
structure Owned (heap : Heap) : Prop where
  heldPlain : ∀ entry ∈ heap.held, entry.2.payload = none
  waitingPlain : ∀ entry ∈ heap.waiting, entry.2.payload = none
  exclusive : Exclusive heap.next heap.objs

theorem Owned.alive {heap : Heap} (owned : Owned heap) : Alive heap := by
  have split := List.nodup_append.mp owned.exclusive.once
  refine ⟨fun entry member => ⟨?_, ?_⟩, (List.nodup_append.mp split.2.1).2.1⟩
  · intro released
    exact split.2.2 _ (List.mem_map.mpr ⟨entry, member, rfl⟩) _
      (List.mem_append_right _ released) rfl
  · rw [owned.heldPlain entry member]
    intro payload isPayload
    cases isPayload

namespace Heap

variable {heap : Heap} {flowId : Nat} {c : Cell}

/-- The references, without the one of a live flow. -/
theorem count_held (cell : heap.Holds flowId c) (obj : Nat) :
    (heap.held.map fun entry => entry.2.obj).count obj =
      ((heap.held.eraseP fun entry => entry.1 == flowId).map fun entry => entry.2.obj).count obj +
        if c.obj = obj then 1 else 0 := by
  have perm := (perm_cons_eraseP cell).map fun entry => entry.2.obj
  rw [perm.count_eq obj, List.map_cons, List.count_cons]
  simp only [beq_iff_eq]

theorem freed_setFlow (new : Cell) : (heap.setFlow flowId new).freed = heap.freed :=
  rfl

/-- The references after one was replaced. -/
theorem count_setFlow (cell : heap.Holds flowId c) (new : Cell) (obj : Nat) :
    ((heap.setFlow flowId new).held.map fun entry => entry.2.obj).count obj =
      ((heap.held.eraseP fun entry => entry.1 == flowId).map fun entry => entry.2.obj).count obj +
        if new.obj = obj then 1 else 0 := by
  have perm := (updateFirst_perm (fun entry => (entry.1, new)) cell).map fun entry => entry.2.obj
  rw [setFlow, perm.count_eq obj, List.map_cons, List.count_cons]
  simp only [beq_iff_eq]

end Heap

section Recv

variable {heap : Heap} {flowId : Nat} {c : Cell}

theorem Owned.cell_plain (owned : Owned heap) (cell : heap.Holds flowId c) :
    c.payload = none :=
  owned.heldPlain _ (List.mem_of_find?_eq_some cell)

theorem Owned.setFlow_plain (owned : Owned heap) {new : Cell} (plain : new.payload = none) :
    ∀ entry ∈ (heap.setFlow flowId new).held, entry.2.payload = none := by
  intro entry member
  rcases mem_updateFirst member with old | ⟨_, -, rfl⟩
  · exact owned.heldPlain entry old
  · exact plain

theorem Owned.delLiveFlow (owned : Owned heap) (cell : heap.Holds flowId c) :
    Owned (heap.delLiveFlow flowId c) where
  heldPlain entry member := owned.heldPlain entry (List.mem_of_mem_eraseP member)
  waitingPlain := owned.waitingPlain
  exclusive := by
    apply owned.exclusive.of_count_le (Nat.le_refl _)
    intro obj
    have held := Heap.count_held cell obj
    simp only [Heap.objs, Heap.delLiveFlow, Heap.netflowDestroy, owned.cell_plain cell,
      List.count_append, List.count_cons, Option.toList_none, List.count_nil, beq_iff_eq] at held ⊢
    omega

/-- Receiving a netflow keeps references exclusive. -/
theorem Owned.recv (owned : Owned heap) (uuid : Nat) (cell : heap.Holds flowId c)
    (move : FlowMove) : Owned (heap.recv uuid flowId c move) := by
  have plain := owned.cell_plain cell
  cases move with
  | returned => exact owned
  | dropped cleared =>
    have same : (if cleared then { c with payload := none } else c) = c := by
      cases cleared
      · rfl
      · rw [if_pos rfl, ← plain]
    rw [Heap.recv, same]
    exact owned.delLiveFlow cell
  | requested pushed =>
    refine ⟨owned.setFlow_plain rfl, ?_, ?_⟩
    · intro entry member
      cases pushed with
      | false => exact owned.waitingPlain entry member
      | true =>
        rcases List.mem_cons.mp member with rfl | old
        · exact plain
        · exact owned.waitingPlain entry old
    · apply owned.exclusive.of_count_le (Nat.le_succ _)
      intro obj
      have held := Heap.count_held cell obj
      have set := Heap.count_setFlow cell ⟨heap.next, none⟩ obj
      cases pushed with
      | false =>
        simp only [Heap.objs, Heap.recv, Heap.freed_setFlow, List.count_append,
          Bool.false_eq_true, if_false, held, set]
        split <;> split <;> split <;> omega
      | true =>
        simp only [Heap.objs, Heap.recv, Heap.freed_setFlow, List.count_append, if_true,
          List.map_cons, List.count_cons, beq_iff_eq, held, set]
        split <;> split <;> split <;> omega
  | released =>
    simp only [Heap.recv]
    cases isTop : heap.waiting.find? fun entry => entry.1 == uuid with
    | none => exact owned
    | some top =>
      have topPlain := owned.waitingPlain top (List.mem_of_find?_eq_some isTop)
      refine ⟨owned.setFlow_plain topPlain, ?_, ?_⟩
      · intro entry member
        exact owned.waitingPlain entry (List.mem_of_mem_eraseP member)
      · apply owned.exclusive.of_count_le (Nat.le_refl _)
        intro obj
        have held := Heap.count_held cell obj
        have set := Heap.count_setFlow cell top.2 obj
        have waiting := ((perm_cons_eraseP isTop).map fun entry => entry.2.obj).count_eq obj
        simp only [List.map_cons, List.count_cons, beq_iff_eq] at waiting
        simp only [Heap.objs, Heap.freed_setFlow, List.count_append, held, set, waiting]
        omega

end Recv

/-! ### Copies -/

section Launch

variable {heap : Heap}

section

variable (payload : Option Nat) (count flowId : Nat)

include payload count flowId

theorem Heap.copy_waiting (heap : Heap) :
    (heap.copy payload count flowId).waiting = heap.waiting := by
  induction count generalizing flowId heap with
  | zero => rfl
  | succ count ih => exact ih _ _

/-- The live flows there were keep their netflows. -/
theorem Heap.held_copy (heap : Heap) {entry : Nat × Cell}
    (member : entry ∈ (heap.copy payload count flowId).held) :
    entry ∈ heap.held ∨ entry.2.payload = payload := by
  induction count generalizing flowId heap with
  | zero => exact Or.inl member
  | succ count ih =>
    rcases ih _ _ member with inHeap | isPayload
    · rcases List.mem_cons.mp inHeap with rfl | old
      · exact Or.inr rfl
      · exact Or.inl old
    · exact Or.inr isPayload

/-- Copies are new objects, also next to objects that a handler still refers to. -/
theorem Heap.copy_exclusive {local_ : List Nat}
    (exclusive : Exclusive heap.next (local_ ++ heap.objs)) :
    Exclusive (heap.copy payload count flowId).next
      (local_ ++ (heap.copy payload count flowId).objs) := by
  induction count generalizing flowId heap with
  | zero => exact exclusive
  | succ count ih =>
    apply ih
    apply exclusive.of_count_le (Nat.le_succ _)
    intro obj
    simp only [Heap.objs, List.map_cons, List.count_append, List.count_cons, beq_iff_eq]
    split <;> split <;> omega

end

variable {source : Cell} {first last : Nat}

/-- A netflow that is copied and destroyed leaves exclusive references if it has no payload,
or no copy is made. -/
theorem Owned.launch (heldPlain : ∀ entry ∈ heap.held, entry.2.payload = none)
    (waitingPlain : ∀ entry ∈ heap.waiting, entry.2.payload = none)
    (exclusive : Exclusive heap.next (source.obj :: source.payload.toList ++ heap.objs))
    (unshared : source.payload = none ∨ last ≤ first) :
    Owned (heap.launch source first last) where
  heldPlain := by
    intro entry member
    rcases unshared with plain | noCopy
    · rcases Heap.held_copy _ _ _ _ member with old | isPayload
      · exact heldPlain entry old
      · exact isPayload.trans plain
    · rw [Heap.launch, Nat.sub_eq_zero_of_le noCopy] at member
      exact heldPlain entry member
  waitingPlain := by
    intro entry member
    refine waitingPlain entry ?_
    rw [← Heap.copy_waiting source.payload (last - first) first heap]
    exact member
  exclusive := by
    have copied := Heap.copy_exclusive source.payload (last - first) first exclusive
    apply copied.of_count_le (Nat.le_refl _)
    intro obj
    simp only [Heap.objs, Heap.launch, Heap.netflowDestroy, List.count_append, List.count_cons,
      List.cons_append]
    omega

end Launch

end Horse.Sim
