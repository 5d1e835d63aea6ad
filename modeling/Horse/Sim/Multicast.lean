import Horse.Sim.Effects

/-!
# Copies of a netflow

A netflow that leaves a node through several ports has a send event for each of
them, and through each it goes its own way.  The events share one live flow all
the same.  Its clock has gone on for every port before, a copy that crosses its
link changes the netflow of all others, and one that is dropped takes them with
it.

The events carry the netflow they were made for.  A copy is isolated if its events
find this netflow when they are handled, and were made as if there were no other
copy.
-/

namespace Horse.Sim

open Horse.Container Horse.Lib Horse.Net Horse.Transition

/-- A netflow on its way, without what a node notes in it to forward it, and without the port
it came in through, which the link at the other end writes. -/
def onLink (nf : Netflow) : Netflow :=
  { nf with
    key := { nf.key with inPort := 0 }
    metadata := { nf.metadata with reason := 0 }
    outPorts := [] }

/-- A netflow is the one that an event was made for, if this is about a netflow. -/
def IsCopy (nf : Netflow) : SimEvent → Prop
  | .flowRecv _ _ _ _ flow => nf = flow
  | .flowSend _ _ _ _ flow => onLink nf = onLink flow
  | _ => True

/-- The live flow of an event is the netflow that the event was made for. -/
def FindsCopy (evh : EvHandler) (ev : SimEvent) : Prop :=
  ∀ flowId, ev.flowId? = some flowId →
    ∃ lf nf, evh.findLiveFlow flowId = some lf ∧ lf.flow = some nf ∧ IsCopy nf ev

/-- An event that a handler inserts is the one for its port alone.  A node sends at
the time that transmission through the port takes, and the node at the other end of
the link receives what was sent, on its own port. -/
def MadeAlone (find : HashFind Flow) (evh : EvHandler) : SimEvent → SimEvent → Prop
  | .flowRecv _ nodeId _ _ flow, .flowSend time _ _ port copy =>
    ∃ node returned after alone, topologyNode evh.topo nodeId = some node ∧
      node.recvNetflow find flow = some (some returned, after) ∧
      nodeAddTxTime wrappingSum after.base port returned = some alone ∧
      time = alone.startTime ∧ onLink copy = onLink alone
  | .flowSend _ nodeId _ outPort flow, .flowRecv time uuid _ _ copy =>
    ∃ dst latency alone, topologyNextHop evh.topo nodeId outPort = some (dst, latency) ∧
      crossLink wrappingSum flow latency dst.port = some alone ∧ uuid = dst.uuid ∧
      time = alone.startTime ∧ onLink copy = onLink alone ∧ copy.key.inPort = dst.port
  | _, _ => True

/-- A pending event finds its copy, and the events that come of it are those for
each port alone. -/
def Isolated (sim : SimState) : SimCall → Prop
  | .handle find ev =>
    ev ∈ sim.sch.evQueue → FindsCopy sim.evh ev ∧ ∀ evh inserted,
      handleEvent wrappingSum find sim.evh ev = some (evh, inserted) →
        ∀ new ∈ inserted, MadeAlone find sim.evh ev new
  | _ => True

/-! ## The condition -/

/-- The ports that an output port stands for. -/
def expand (n : Node) (inPort port : BitVec 32) : List (BitVec 32) :=
  if port = ofppFlood then floodPorts n inPort else [port]

/-- The ports of a list that lead to other nodes. -/
def forwards (n : Node) (inPort : BitVec 32) (ports : List (BitVec 32)) : List (BitVec 32) :=
  (ports.flatMap (expand n inPort)).filter (· ≠ ofppController)

/-- The ports that a netflow leaves a node through. -/
def forwardPorts (n : Node) (nf : Netflow) : List (BitVec 32) :=
  forwards n nf.key.inPort nf.outPorts

/-- The events of a queue that are about a live flow. -/
def copiesOf (queue : List SimEvent) (flowId : Nat) : List SimEvent :=
  queue.filter fun ev => ev.flowId? = some flowId

/-- The event of a netflow that is to be received. -/
def isRecv : SimEvent → Bool
  | .flowRecv .. => true
  | _ => false

/-- What a node may do with a netflow of which other copies are on their way: it passes it on
as it was, and not to the controller.  Transmission takes no time then, and neither does it
where the netflow leaves the node through several ports. -/
def RecvApart (copies : List SimEvent) (nf : Netflow) (n : Node) : Option Netflow → Prop
  | none => copies = []
  | some returned =>
    (copies ≠ [] → { returned with outPorts := [] } = nf ∧
      ofppController ∉ returned.outPorts.flatMap (expand n returned.key.inPort)) ∧
    (copies ≠ [] ∨ 1 < (forwardPorts n returned).length →
      ∀ port ∈ forwardPorts n returned, nodeAddTxTime wrappingSum n port returned = some returned)

/-- What a link may do with a netflow of which other copies are on their way: crossing it
takes no time, and a netflow that is to be received came in through the same port. -/
def SendApart (copies : List SimEvent) (nf : Netflow) (hop : Option (NodePortPair × BitVec 32)) :
    Prop :=
  copies ≠ [] → ∃ link ∈ hop, nf.delay wrappingSum link.2.toNat = some nf ∧
    (copies.any isRecv → link.1.port = nf.key.inPort)

/-- The nodes that receive a netflow, and the links that it crosses without loss, leave its
other copies alone. -/
def KeepsApart (sim : SimState) : SimCall → Prop
  | .handle find (.flowRecv time nodeId flowId rate flow) =>
    ∀ node ∈ topologyNode sim.evh.topo nodeId, ∀ lf ∈ sim.evh.findLiveFlow flowId,
      ∀ nf ∈ lf.flow, ∀ result ∈ node.recvNetflow find nf,
        RecvApart (copiesOf (sim.sch.evQueue.erase (.flowRecv time nodeId flowId rate flow)) flowId)
          nf result.2.base result.1
  | .handle _ (.flowSend time nodeId flowId outPort flow) =>
    ∀ node ∈ topologyNode sim.evh.topo nodeId, nodeCalculatePortLoss node.base outPort = 0 →
      ∀ lf ∈ sim.evh.findLiveFlow flowId, ∀ nf ∈ lf.flow,
        SendApart (copiesOf (sim.sch.evQueue.erase (.flowSend time nodeId flowId outPort flow))
          flowId) nf (topologyNextHop sim.evh.topo nodeId outPort)
  | _ => True

instance (copies : List SimEvent) (nf : Netflow) (n : Node) (returned : Option Netflow) :
    Decidable (RecvApart copies nf n returned) := by
  unfold RecvApart
  -- The ports of the list are tried, not all words.
  have (returned : Netflow) := List.decidableBAll
    (fun port => nodeAddTxTime wrappingSum n port returned = some returned)
    (forwardPorts n returned)
  have (ports : List (BitVec 32)) : Decidable (ofppController ∈ ports) :=
    decidable_of_iff _ List.contains_iff_mem
  split <;> infer_instance

instance (copies : List SimEvent) (nf : Netflow) (hop : Option (NodePortPair × BitVec 32)) :
    Decidable (SendApart copies nf hop) := by
  unfold SendApart
  infer_instance

instance (sim : SimState) (call : SimCall) : Decidable (KeepsApart sim call) := by
  unfold KeepsApart
  split <;> infer_instance

/-! ## Transmission -/

/-- The time when a netflow has been transmitted through a port. -/
def txEnd (sum : TimeSum) (n : Node) (port : BitVec 32) (byteCnt start : Nat) : Option Nat :=
  match (nodePort n port).map Port.currSpeed with
  | none => some start
  | some speed => (txTime byteCnt speed).bind (sum start)

theorem nodeAddTxTime_eq_map (sum : TimeSum) (n : Node) (port : BitVec 32) (nf : Netflow) :
    nodeAddTxTime sum n port nf =
      (txEnd sum n port nf.byteCnt nf.startTime).map fun time => { nf with startTime := time } := by
  unfold nodeAddTxTime txEnd
  cases nodePort n port with
  | none => rfl
  | some p =>
    simp only [Option.map_some, netflowUpdateSendTime, Netflow.delay]
    cases txTime nf.byteCnt p.currSpeed <;> rfl

/-- Two nodes with the same ports, as far as transmission is concerned. -/
def SamePorts (n other : Node) : Prop :=
  other.ports.map (fun p => (p.portId, p.currSpeed)) =
    n.ports.map fun p => (p.portId, p.currSpeed)

variable {port : BitVec 32}

theorem nodeUpdatePortCapacity_samePorts {n after : Node} {bits : Int}
    (updated : nodeUpdatePortCapacity n bits port = some after) : SamePorts n after := by
  unfold nodeUpdatePortCapacity at updated
  split at updated
  · cases updated
    rfl
  · rcases Option.map_eq_some_iff.mp updated with ⟨ts, -, rfl⟩
    exact map_updateFirst _ _ (by simp) _

section SamePorts

variable {n other : Node} (same : SamePorts n other)

include same

theorem SamePorts.portSpeed (port : BitVec 32) :
    (nodePort other port).map Port.currSpeed = (nodePort n port).map Port.currSpeed := by
  have read (ports : List Port) : (ports.find? fun p => p.portId == port).map Port.currSpeed =
      ((ports.map fun p => (p.portId, p.currSpeed)).find? fun p => p.1 == port).map Prod.snd := by
    rw [List.find?_map, Option.map_map]
    rfl
  rw [nodePort, nodePort, read, read, same]

theorem SamePorts.txEnd (sum : TimeSum) (port : BitVec 32) :
    txEnd sum other port = txEnd sum n port := by
  funext byteCnt start
  rw [Sim.txEnd, Sim.txEnd, same.portSpeed]

theorem SamePorts.floodPorts (inPort : BitVec 32) :
    floodPorts other inPort = floodPorts n inPort := by
  have read (ports : List Port) :
      (ports.reverse.filter fun p => p.portId != inPort).map Port.portId =
        ((ports.map fun p => (p.portId, p.currSpeed)).reverse.filter
          fun p => p.1 != inPort).map Prod.fst := by
    rw [← List.map_reverse, List.filter_map, List.map_map]
    rfl
  rw [Sim.floodPorts, Sim.floodPorts, read, read, same]

theorem SamePorts.expand (inPort : BitVec 32) :
    expand other inPort = expand n inPort := by
  funext port
  rw [Sim.expand, Sim.expand, same.floodPorts]

theorem SamePorts.forwards (inPort : BitVec 32) :
    forwards other inPort = forwards n inPort := by
  funext ports
  rw [Sim.forwards, Sim.forwards, same.expand]

end SamePorts

theorem chargePort_sends {sum : TimeSum} {node after : TopoNode} {nf delayed : Netflow}
    (charged : chargePort sum node nf port = some (after, delayed)) :
    SamePorts node.base after.base ∧
      txEnd sum node.base port nf.byteCnt nf.startTime = some delayed.startTime ∧
      delayed = { nf with startTime := delayed.startTime } := by
  rcases bind_map_eq_some_iff.mp charged with ⟨n, delayed, updated, added, result⟩
  cases result
  have same := nodeUpdatePortCapacity_samePorts updated
  rw [nodeAddTxTime_eq_map, same.txEnd] at added
  rcases Option.map_eq_some_iff.mp added with ⟨time, isTime, rfl⟩
  rw [TopoNode.base_setBase]
  exact ⟨same, isTime, rfl⟩

/-! ## The loop over output ports -/

section Loop

variable {sum : TimeSum} {flowId : Nat} {node : TopoNode} {nf : Netflow} {out : Forwarded}

/-- The loop over the output ports uses them up and leaves the header alone. -/
theorem LoopRun.key (run : LoopRun sum flowId node nf out) :
    out.nf.key = nf.key ∧ out.nf.outPorts = [] := by
  induction run with
  | done ports => exact ⟨rfl, ports⟩
  | controller ports later ih => exact ih
  | flood ports later ih => exact ih
  | send ports notController notFlood charged later ih => exact ih

/-- A flood that leads to another flood never ends. -/
theorem LoopRun.flood_not_port (run : LoopRun sum flowId node nf out)
    (floods : ofppFlood ∈ nf.outPorts) : ofppFlood ∉ floodPorts node.base nf.key.inPort := by
  induction run with
  | done ports =>
    rw [ports] at floods
    cases floods
  | controller ports later ih =>
    rw [ports] at floods
    exact ih (List.mem_of_ne_of_mem (by decide) floods)
  | flood ports later ih =>
    intro isPort
    exact ih (List.mem_append_right _ isPort) isPort
  | send ports notController notFlood charged later ih =>
    rw [ports] at floods
    rw [← (chargePort_sends charged).1.floodPorts]
    exact ih (List.mem_of_ne_of_mem (Ne.symm notFlood) floods)

section Forwards

variable (n : Node) (inPort : BitVec 32) (rest : List (BitVec 32))

theorem forwards_port (notController : port ≠ ofppController) (notFlood : port ≠ ofppFlood) :
    forwards n inPort (port :: rest) = port :: forwards n inPort rest := by
  simp [forwards, expand, notFlood, notController]

/-- A flood may as well be replaced by its ports at the end of the list. -/
theorem expand_flood (ends : ofppFlood ∉ floodPorts n inPort) :
    ((rest ++ floodPorts n inPort).flatMap (expand n inPort)).Perm
      ((ofppFlood :: rest).flatMap (expand n inPort)) := by
  have plain : (floodPorts n inPort).flatMap (expand n inPort) = floodPorts n inPort := by
    calc
      (floodPorts n inPort).flatMap (expand n inPort) = (floodPorts n inPort).flatMap pure := by
        apply List.flatMap_congr
        intro port isPort
        have notFlood : port ≠ ofppFlood := fun isFlood => ends (isFlood ▸ isPort)
        simp [expand, notFlood]
      _ = floodPorts n inPort := List.flatMap_singleton' _
  rw [List.flatMap_append, plain, List.flatMap_cons]
  exact List.perm_append_comm

end Forwards

/-- A flood that ends may as well be replaced by its ports. -/
theorem LoopRun.expand_flood {rest : List (BitVec 32)}
    (later : LoopRun sum flowId node
      { nf with outPorts := rest ++ floodPorts node.base nf.key.inPort } out) :
    ((rest ++ floodPorts node.base nf.key.inPort).flatMap (expand node.base nf.key.inPort)).Perm
      ((ofppFlood :: rest).flatMap (expand node.base nf.key.inPort)) :=
  Sim.expand_flood _ _ _ fun isPort =>
    later.flood_not_port (List.mem_append_right _ isPort) isPort

/-- A netflow that is not sent to the controller keeps what it says about itself. -/
theorem LoopRun.unreported (run : LoopRun sum flowId node nf out)
    (unreported : ofppController ∉ nf.outPorts.flatMap (expand node.base nf.key.inPort)) :
    out.nf.metadata = nf.metadata := by
  induction run with
  | done ports => rfl
  | controller ports later ih =>
    rw [ports] at unreported
    exact absurd (List.mem_append_left _ List.mem_cons_self) unreported
  | flood ports later ih =>
    rw [ports, ← later.expand_flood.mem_iff] at unreported
    exact ih unreported
  | send ports notController notFlood charged later ih =>
    rw [(chargePort_sends charged).1.expand] at ih
    rw [ports] at unreported
    exact ih fun reported => unreported (List.mem_append_right _ reported)

/-- The send events of a netflow that no transmission delays. -/
theorem LoopRun.quick (run : LoopRun sum flowId node nf out)
    (quick : ∀ port ∈ forwardPorts node.base nf,
      txEnd sum node.base port nf.byteCnt nf.startTime = some nf.startTime) :
    onLink out.nf = onLink nf ∧ ∀ time uuid id port copy,
      .flowSend time uuid id port copy ∈ out.events →
        port ∈ forwardPorts node.base nf ∧ time = nf.startTime ∧ onLink copy = onLink nf := by
  induction run with
  | done ports => exact ⟨rfl, by simp⟩
  | controller ports later ih =>
    unfold forwardPorts at quick ih ⊢
    rw [ports] at quick ⊢
    rcases ih quick with ⟨same, sends⟩
    refine ⟨same, ?_⟩
    intro time uuid id port copy member
    rcases List.mem_cons.mp member with isOther | inTail
    · cases isOther
    · exact sends time uuid id port copy inTail
  | flood ports later ih =>
    unfold forwardPorts at quick ih ⊢
    rw [ports] at quick ⊢
    have perm := later.expand_flood.filter (· ≠ ofppController)
    rcases ih fun port member => quick port (perm.mem_iff.mp member) with ⟨same, sends⟩
    refine ⟨same, ?_⟩
    intro time uuid id port copy member
    rcases sends time uuid id port copy member with ⟨isPort, atTime, isCopy⟩
    exact ⟨perm.mem_iff.mp isPort, atTime, isCopy⟩
  | send ports notController notFlood charged later ih =>
    rcases chargePort_sends charged with ⟨same, isTime, -⟩
    unfold forwardPorts at quick ih ⊢
    rw [ports, forwards_port _ _ _ notController notFlood] at quick ⊢
    cases (quick _ List.mem_cons_self).symm.trans isTime
    rw [same.forwards] at ih
    rcases ih fun other member => by
      rw [same.txEnd]
      exact quick other (List.mem_cons_of_mem _ member) with ⟨sameLink, sends⟩
    refine ⟨sameLink, ?_⟩
    intro time uuid id other copy member
    rcases List.mem_cons.mp member with isFirst | inTail
    · cases isFirst
      exact ⟨List.mem_cons_self, rfl, rfl⟩
    · rcases sends time uuid id other copy inTail with ⟨isPort, atTime, isCopy⟩
      exact ⟨List.mem_cons_of_mem _ isPort, atTime, isCopy⟩

/-- The send event of a netflow that has no other way to go. -/
theorem LoopRun.single (run : LoopRun sum flowId node nf out)
    (single : (forwardPorts node.base nf).length ≤ 1) :
    ∀ time uuid id port copy, .flowSend time uuid id port copy ∈ out.events →
      txEnd sum node.base port nf.byteCnt nf.startTime = some time ∧
        onLink copy = onLink { nf with startTime := time } ∧ onLink out.nf = onLink copy := by
  intro time uuid id port copy member
  induction run with
  | done ports => cases member
  | controller ports later ih =>
    rw [forwardPorts, ports] at single
    rcases List.mem_cons.mp member with isOther | inTail
    · cases isOther
    · exact ih single inTail
  | flood ports later ih =>
    rw [forwardPorts, ports] at single
    exact ih ((later.expand_flood.filter _).length_eq.trans_le single) member
  | @send node next nf port rest sent tail ports notController notFlood charged later ih =>
    rcases chargePort_sends charged with ⟨same, isTime, -⟩
    rw [forwardPorts, ports, forwards_port _ _ _ notController notFlood] at single
    have none : forwardPorts next.base { nf with outPorts := rest, startTime := sent } = [] := by
      rw [forwardPorts, same.forwards]
      exact List.length_eq_zero_iff.mp (Nat.le_zero.mp (Nat.le_of_succ_le_succ single))
    rcases later.quick (by simp [none]) with ⟨sameLink, sends⟩
    rcases List.mem_cons.mp member with isFirst | inTail
    · cases isFirst
      exact ⟨isTime, rfl, sameLink⟩
    · have inNone := (sends time uuid id _ copy inTail).1
      rw [none] at inNone
      cases inNone

theorem txEnd_of_quick {n : Node}
    (quick : ∀ port ∈ forwardPorts n nf, nodeAddTxTime sum n port nf = some nf) :
    ∀ port ∈ forwardPorts n nf, txEnd sum n port nf.byteCnt nf.startTime = some nf.startTime := by
  intro port isPort
  have added := quick port isPort
  rw [nodeAddTxTime_eq_map] at added
  rcases Option.map_eq_some_iff.mp added with ⟨ended, isEnd, same⟩
  rw [isEnd, ← congrArg Netflow.startTime same]

/-- Where nothing is delayed, or there is only one way to go, each send event is the
one for its port alone, and finds its copy. -/
theorem handleAfterFlowRecv_sends (looped : handleAfterFlowRecv sum node nf flowId = some out)
    (apart : 1 < (forwardPorts node.base nf).length → ∀ port ∈ forwardPorts node.base nf,
      nodeAddTxTime sum node.base port nf = some nf) :
    ∀ time uuid id port copy, .flowSend time uuid id port copy ∈ out.events →
      (∃ alone, nodeAddTxTime sum node.base port nf = some alone ∧ time = alone.startTime ∧
        onLink copy = onLink alone) ∧ onLink out.nf = onLink copy := by
  intro time uuid id port copy member
  by_cases single : (forwardPorts node.base nf).length ≤ 1
  · rcases (outPortLoop_runs looped).single single time uuid id port copy member with
      ⟨isTime, isCopy, sameLink⟩
    refine ⟨⟨{ nf with startTime := time }, ?_, rfl, isCopy⟩, sameLink⟩
    rw [nodeAddTxTime_eq_map, isTime]
    rfl
  · have quick := apart (Nat.lt_of_not_le single)
    rcases (outPortLoop_runs looped).quick (txEnd_of_quick quick) with ⟨sameLink, sends⟩
    rcases sends time uuid id port copy member with ⟨isPort, atTime, isCopy⟩
    exact ⟨⟨nf, quick port isPort, atTime, isCopy⟩, sameLink.trans isCopy.symm⟩

/-- A netflow that is neither delayed nor sent to the controller stays as it is. -/
theorem handleAfterFlowRecv_unchanged (looped : handleAfterFlowRecv sum node nf flowId = some out)
    (quick : ∀ port ∈ forwardPorts node.base nf, nodeAddTxTime sum node.base port nf = some nf)
    (unreported : ofppController ∉ nf.outPorts.flatMap (expand node.base nf.key.inPort)) :
    out.nf = { nf with outPorts := [] } := by
  have run := outPortLoop_runs looped
  have sameLink := (run.quick (txEnd_of_quick quick)).1
  obtain ⟨sameKey, noPorts⟩ := run.key
  have sameMeta := run.unreported unreported
  calc
    out.nf = { onLink out.nf with
      key := out.nf.key, metadata := out.nf.metadata, outPorts := out.nf.outPorts } := rfl
    _ = { onLink nf with key := nf.key, metadata := nf.metadata, outPorts := [] } := by
      rw [sameLink, sameKey, sameMeta, noPorts]
    _ = { nf with outPorts := [] } := rfl

end Loop

/-! ## The handlers -/

variable {sim : SimState}

section Handlers

variable {find : HashFind Flow} {evh after : EvHandler} {queue inserted : List SimEvent}

/-- The events find their copies. -/
def FindCopies (evh : EvHandler) (events : List SimEvent) : Prop :=
  ∀ ev ∈ events, FindsCopy evh ev

/-- What is to be shown of a handler: the pending events and the new ones find their copies,
and the new ones are those for each port alone. -/
def LeavesApart (find : HashFind Flow) (evh after : EvHandler) (ev : SimEvent)
    (queue inserted : List SimEvent) : Prop :=
  FindCopies after queue ∧ ∀ new ∈ inserted, FindsCopy after new ∧ MadeAlone find evh ev new

variable {flowId nodeId : Nat} {ev : SimEvent} {sum : TimeSum}

/-- An event finds its copy as long as its live flow stays the same. -/
theorem FindsCopy.of_same (finds : FindsCopy evh ev)
    (same : ∀ flowId, ev.flowId? = some flowId →
      after.findLiveFlow flowId = evh.findLiveFlow flowId) :
    FindsCopy after ev := by
  intro flowId isId
  rw [same flowId isId]
  exact finds flowId isId

theorem FindCopies.sameFlows (finds : FindCopies evh queue) (same : SameFlows after evh) :
    FindCopies after queue := by
  intro ev member
  exact (finds ev member).of_same fun flowId _ => congrFun same.findLiveFlow flowId

/-- The events of other live flows do not notice what happens to one. -/
theorem FindCopies.other (finds : FindCopies evh queue) (noCopies : copiesOf queue flowId = [])
    (same : ∀ other, other ≠ flowId → after.findLiveFlow other = evh.findLiveFlow other) :
    FindCopies after queue := by
  intro ev member
  apply (finds ev member).of_same
  intro other isId
  apply same
  rintro rfl
  exact List.filter_eq_nil_iff.mp noCopies ev member (decide_eq_true isId)

/-- The copies of a netflow do not notice a change that leaves each of them what it is. -/
theorem FindCopies.setFlow {lf : LiveFlow} {nf changed : Netflow} (finds : FindCopies evh queue)
    (node : TopoNode) (live : evh.findLiveFlow flowId = some lf) (isFlow : lf.flow = some nf)
    (same : ∀ ev ∈ copiesOf queue flowId, IsCopy nf ev → IsCopy changed ev) :
    FindCopies ((evh.setNode node).setFlow flowId (some changed)) queue := by
  intro ev member id isId
  obtain ⟨old, copy, oldLive, isOld, isCopy⟩ := finds ev member id isId
  by_cases isSame : id = flowId
  · subst isSame
    cases oldLive.symm.trans live
    cases isOld.symm.trans isFlow
    have ofFlow : ev ∈ copiesOf queue id := List.mem_filter.mpr ⟨member, decide_eq_true isId⟩
    exact ⟨_, changed, findLiveFlow_setFlow_self live _, rfl, same ev ofFlow isCopy⟩
  · rw [findLiveFlow_setFlow, if_neg isSame, findLiveFlow_setNode]
    exact ⟨old, copy, oldLive, isOld, isCopy⟩

theorem FindCopies.launches {start : Nat} {events : List SimEvent} (finds : FindCopies evh queue)
    (launches : Launches sum start evh events after) :
    FindCopies after queue ∧ FindCopies after events := by
  constructor
  · intro ev member
    apply (finds ev member).of_same
    intro flowId isId
    rcases finds ev member flowId isId with ⟨lf, nf, live, -⟩
    exact launches.findLiveFlow (findLiveFlow_lt live)
  · intro ev member
    rcases launches.sends member with
      ⟨time, nodeId, flowId, port, lf, new, rfl, -, -, live, isNew, -⟩
    rintro _ ⟨rfl⟩
    exact ⟨lf, new, live, isNew, rfl⟩

theorem recv_apart {time : Nat} {rate : Int} {flow : Netflow} (finds : FindCopies evh queue)
    (own : FindsCopy evh (.flowRecv time nodeId flowId rate flow))
    (apart : ∀ node ∈ topologyNode evh.topo nodeId, ∀ lf ∈ evh.findLiveFlow flowId,
      ∀ nf ∈ lf.flow, ∀ result ∈ node.recvNetflow find nf,
        RecvApart (copiesOf queue flowId) nf result.2.base result.1)
    (effect : RecvEffect wrappingSum find evh nodeId flowId after inserted) :
    LeavesApart find evh after (.flowRecv time nodeId flowId rate flow) queue inserted := by
  obtain ⟨ownLf, _, ownLive, isOwn, rfl⟩ := own flowId rfl
  cases effect with
  | ignored missing => exact ⟨finds, nofun⟩
  | dropped atNode live isFlow received same =>
    have noCopies := apart _ atNode _ live _ isFlow _ received
    refine ⟨finds.other noCopies fun other isOther => ?_, nofun⟩
    rw [findLiveFlow_delLiveFlow _ isOther, findLiveFlow_setNode]
  | @forwarded node next lf nf returned out atNode live isFlow received looped same =>
    obtain ⟨passes, quick⟩ := apart _ atNode _ live _ isFlow _ received
    have sends := handleAfterFlowRecv_sends looped fun several => quick (.inr several)
    cases ownLive.symm.trans live
    cases isOwn.symm.trans isFlow
    refine ⟨finds.setFlow out.node live isFlow ?_, fun new member => ?_⟩
    · intro ev ofFlow isCopy
      have crowded := List.ne_nil_of_mem ofFlow
      obtain ⟨isPassed, unreported⟩ := passes crowded
      rw [handleAfterFlowRecv_unchanged looped (quick (.inl crowded)) unreported, isPassed]
      exact isCopy
    · cases (outPortLoop_runs looped).effect.events new member with
      | send sent port copy =>
        obtain ⟨⟨alone, added, atTime, isCopy⟩, sameLink⟩ := sends sent _ flowId port copy member
        refine ⟨?_, node, returned, next, alone, atNode, received, added, atTime, isCopy⟩
        rintro _ ⟨rfl⟩
        exact ⟨_, out.nf, findLiveFlow_setFlow_self ownLive _, rfl, sameLink⟩
      | packetIn sent dpId msg => exact ⟨nofun, trivial⟩

/-- Links do the same to two netflows that are the same on their way. -/
theorem crossLink_onLink {nf copy arrived : Netflow} {latency : BitVec 32}
    (same : onLink nf = onLink copy) (crosses : crossLink sum nf latency port = some arrived) :
    ∃ alone, crossLink sum copy latency port = some alone ∧
      arrived.startTime = alone.startTime ∧ onLink arrived = onLink alone := by
  rcases Option.map_eq_some_iff.mp crosses with ⟨delayed, delays, rfl⟩
  rcases Option.map_eq_some_iff.mp delays with ⟨time, summed, rfl⟩
  have sameStart : nf.startTime = copy.startTime := congrArg (fun nf => nf.startTime) same
  refine ⟨{ copy with startTime := time, key := { copy.key with inPort := port } }, ?_, rfl, ?_⟩
  · rw [crossLink, Netflow.delay, ← sameStart, summed]
    rfl
  · exact congrArg (fun nf : Netflow => { nf with startTime := time }) same

theorem restarts_isStart {node next : TopoNode} {nf : Netflow} {started : List SimEvent}
    (restarts : Restarts sum evh nodeId node nf next started) :
    ∀ new ∈ started, ∃ time uuid addr, new = .appStart time uuid addr := by
  intro new member
  cases restarts with
  | none noExec same => cases member
  | @restart exec time isNext atTime changed =>
    cases List.mem_singleton.mp member
    exact ⟨time, nodeId, exec.addr, rfl⟩

theorem restarts_apart {node next : TopoNode} {nf : Netflow} {started : List SimEvent}
    (restarts : Restarts sum evh nodeId node nf next started) (source : SimEvent) :
    ∀ new ∈ started, FindsCopy after new ∧ MadeAlone find evh source new := by
  intro new member
  obtain ⟨time, uuid, addr, rfl⟩ := restarts_isStart restarts new member
  refine ⟨nofun, ?_⟩
  cases source <;> trivial

theorem send_apart {time : Nat} {outPort : BitVec 32} {flow : Netflow}
    (finds : FindCopies evh queue)
    (own : FindsCopy evh (.flowSend time nodeId flowId outPort flow))
    (apart : ∀ node ∈ topologyNode evh.topo nodeId, nodeCalculatePortLoss node.base outPort = 0 →
      ∀ lf ∈ evh.findLiveFlow flowId, ∀ nf ∈ lf.flow,
        SendApart (copiesOf queue flowId) nf (topologyNextHop evh.topo nodeId outPort))
    (effect : SendEffect wrappingSum evh nodeId flowId outPort after inserted) :
    LeavesApart find evh after (.flowSend time nodeId flowId outPort flow) queue inserted := by
  obtain ⟨ownLf, ownNf, ownLive, isOwn, sameLink⟩ := own flowId rfl
  cases effect with
  | ignored missing => exact ⟨finds, nofun⟩
  | lost atNode live isFlow sent loss same => exact ⟨finds.sameFlows same, nofun⟩
  | @freed node next lf nf started atNode live isFlow sent noLoss restarts unlinked =>
    have noCopies : copiesOf queue flowId = [] := by
      by_contra crowded
      obtain ⟨link, isLink, -⟩ := apart _ atNode noLoss _ live _ isFlow crowded
      exact nomatch unlinked.symm.trans isLink
    refine ⟨finds.other noCopies fun other isOther => ?_, restarts_apart restarts _⟩
    rw [findLiveFlow_setFlow, if_neg isOther, findLiveFlow_setNode]
  | @crossed node next lf nf arrived started dst latency atNode live isFlow sent noLoss restarts
      linked crosses =>
    cases ownLive.symm.trans live
    cases isOwn.symm.trans isFlow
    refine ⟨finds.setFlow next live isFlow fun ev ofFlow isCopy => ?_, fun new member => ?_⟩
    · obtain ⟨link, isLink, inTime, samePort⟩ :=
        apart _ atNode noLoss _ live _ isFlow (List.ne_nil_of_mem ofFlow)
      cases linked.symm.trans isLink
      rw [crossLink, inTime] at crosses
      cases crosses
      cases ev with
      | flowRecv time nodeId flowId rate flow =>
        rw [samePort (List.any_eq_true.mpr ⟨_, ofFlow, rfl⟩)]
        exact isCopy
      | flowSend time nodeId flowId outPort flow => exact isCopy
      | _ => trivial
    · rcases List.mem_append.mp member with here | there
      · exact restarts_apart restarts _ new here
      · cases List.mem_singleton.mp there
        rcases crossLink_onLink sameLink crosses with ⟨alone, aloneCrosses, sameStart, isCopy⟩
        refine ⟨?_, dst, latency, alone, linked, aloneCrosses, rfl, sameStart, isCopy,
          (crossLink_eq crosses).1⟩
        rintro _ ⟨rfl⟩
        exact ⟨_, arrived, findLiveFlow_setFlow_self ownLive _, rfl, rfl⟩

/-- Handling an event leaves the others their copies, and makes events for each port
alone. -/
theorem handleEvent_apart (finds : FindCopies sim.evh sim.sch.evQueue)
    (pending : ev ∈ sim.sch.evQueue) (apart : KeepsApart sim (.handle find ev))
    (done : handleEvent wrappingSum find sim.evh ev = some (after, inserted)) :
    LeavesApart find sim.evh after ev (sim.sch.evQueue.erase ev) inserted := by
  have rest : FindCopies sim.evh (sim.sch.evQueue.erase ev) := fun other member =>
    finds other (List.mem_of_mem_erase member)
  have own := finds ev pending
  cases ev with
  | flowRecv time nodeId flowId rate flow =>
    exact recv_apart rest own apart (handleRecvNetflow_effect done)
  | flowSend time nodeId flowId outPort flow =>
    exact send_apart rest own apart (handleSendNetflow_effect done)
  | appStart time nodeId addr =>
    cases handleStartApp_effect done with
    | ignored missing => exact ⟨rest, nofun⟩
    | @started node exec _ _ isExec counted launches =>
      have kept : FindCopies (sim.evh.setNode node) _ := rest
      obtain ⟨older, newer⟩ := kept.launches launches
      exact ⟨older, fun new member => ⟨newer new member, trivial⟩⟩
  | ofMsgIn time dpId msg =>
    rcases handleOfIn_effect done with ⟨middle, events, replies, rfl, same, launches, areReplies⟩
    obtain ⟨older, newer⟩ := (rest.sameFlows same).launches launches
    refine ⟨older, fun new member => ⟨?_, trivial⟩⟩
    rcases List.mem_append.mp member with sent | reply
    · exact newer new sent
    · rcases areReplies new reply with ⟨_, _, rfl⟩
      nofun
  | ofMsgOut time dpId msg =>
    cases done
    exact ⟨rest, nofun⟩
  | routerIn time routerId connId data =>
    rcases Option.map_eq_some_iff.mp done with ⟨final, handled, result⟩
    cases result
    exact ⟨rest.sameFlows (handleRouterIn_effect handled), nofun⟩

end Handlers

/-! ## Runs -/

theorem findCopies_step {after : SimState} {call : SimCall} (finds : EachPending FindsCopy sim)
    (apart : KeepsApart sim call) (step : simStep sim call = some after) :
    EachPending FindsCopy after := by
  apply finds.step (fun _ _ _ => nofun) (fun _ _ _ _ => nofun) _ step
  rintro find ev evh inserted rfl pending done other member
  obtain ⟨older, newer⟩ := handleEvent_apart finds pending apart done
  rcases List.mem_append.mp member with new | old
  · exact (newer other new).1
  · exact older other old

theorem isolated_of_findCopies {call : SimCall} (finds : EachPending FindsCopy sim)
    (apart : KeepsApart sim call) :
    Isolated sim call := by
  cases call with
  | handle find ev =>
    intro pending
    refine ⟨finds ev pending, fun evh inserted done new member => ?_⟩
    exact ((handleEvent_apart finds pending apart done).2 new member).2
  | _ => trivial

/-- In a run from the setup events the copies of a netflow are isolated, if several copies are
made only where transmission takes no time, and the nodes and links that one of them goes
through do nothing to the others on their way. -/
theorem isolated_of_keepsApart (topo : Topology) (calls : List SimCall)
    (apart : Along simStep KeepsApart (setup topo) calls) :
    Along simStep Isolated (setup topo) calls :=
  along_of_invariant findCopies_step isolated_of_findCopies
    (eachPending_setup fun _ _ _ _ => nofun) apart

/-- A datapath with three ports that floods every netflow. -/
def floodingDatapath (uuid : Nat) (speed : BitVec 32) : Datapath :=
  { dpAddPort (dpAddPort (dpAddPort (dpNew uuid uuid) 1 0x41 speed) 2 0x42 speed) 3 0x43 speed with
    tables := (dpNew uuid uuid).tables.set 0 (addFlow (flowTableNew 0)
      { flowNew with insts := addApplyActions instructionSetInit [.output ofppFlood] } 0)
    tablesNum := by simp [dpNew] }

/-- A host on the third port of a datapath, with two others behind it. -/
def floodedTwice : Topology where
  nodes := [.datapath (floodingDatapath 6 1000000), .datapath (floodingDatapath 5 1000000),
    .datapath (floodingDatapath 4 1000000), .host (pinger 1 0x01 0x0a000001 0x0a000002 0)]
  links := [⟨⟨4, 2⟩, ⟨6, 1⟩, 0, 0⟩, ⟨⟨4, 1⟩, ⟨5, 1⟩, 0, 0⟩, ⟨⟨1, 1⟩, ⟨4, 3⟩, 10, 0⟩]
  dps := [(6, 6), (5, 5), (4, 4)]
  routers := []
  distinct := by decide

/-- The request of the host is flooded by the first datapath.  Both copies cross their links
before the first of them is received, and both are flooded again. -/
theorem isolated_of_keepsApart_floodedTwice :
    (run simStep (setup floodedTwice)
        (handleCalls [0, 0, 0, 0, 1, 0, 2] (setup floodedTwice))).isSome ∧
      Along simStep Isolated (setup floodedTwice)
        (handleCalls [0, 0, 0, 0, 1, 0, 2] (setup floodedTwice)) :=
  ⟨by decide +kernel, isolated_of_keepsApart _ _ (by decide +kernel)⟩

/-- Three hosts around the datapath.  The first one pings the second. -/
def flooded (speed : BitVec 32) : Topology where
  nodes := [.datapath (floodingDatapath 4 speed),
    .host (pinger 3 0x03 0x0a000003 0x0a000001 5000000),
    .host (pinger 2 0x02 0x0a000002 0x0a000001 5000000),
    .host (pinger 1 0x01 0x0a000001 0x0a000002 0)]
  links := [⟨⟨4, 3⟩, ⟨3, 1⟩, 10, 0⟩, ⟨⟨3, 1⟩, ⟨4, 3⟩, 10, 0⟩, ⟨⟨4, 2⟩, ⟨2, 1⟩, 10, 0⟩,
    ⟨⟨2, 1⟩, ⟨4, 2⟩, 10, 0⟩, ⟨⟨4, 1⟩, ⟨1, 1⟩, 10, 0⟩, ⟨⟨1, 1⟩, ⟨4, 1⟩, 10, 0⟩]
  dps := [(4, 4)]
  routers := []
  distinct := (by decide : [4, 3, 2, 1].Nodup)

/-- The first host asks for the address of the second, and the datapath floods the
request.  Through slow ports the second copy is sent after twice the time that its
transmission takes.  Through fast ports the third host drops its copy, and the
second host finds none. -/
theorem flooded_copies_interfere :
    ¬ Along simStep Isolated (setup (flooded 10000)) (dispatchCalls 3 (setup (flooded 10000))) ∧
      ¬ Along simStep Isolated (setup (flooded 1000000))
        (dispatchCalls 7 (setup (flooded 1000000))) := by
  constructor
  · intro along
    have split : dispatchCalls 3 (setup (flooded 10000)) =
        dispatchCalls 2 (setup (flooded 10000)) ++ _ :: [] := rfl
    rw [split] at along
    have isolated := along.at_end rfl
    have alone := (isolated List.mem_cons_self).2 _ _ rfl _
      (List.mem_cons_of_mem _ List.mem_cons_self)
    rcases alone with ⟨_, _, _, _, ⟨rfl⟩, ⟨rfl⟩, ⟨rfl⟩, atTime, -⟩
    exact absurd atTime (by decide +kernel)
  · intro along
    have split : dispatchCalls 7 (setup (flooded 1000000)) =
        dispatchCalls 6 (setup (flooded 1000000)) ++ _ :: [] := rfl
    rw [split] at along
    have isolated := along.at_end rfl
    rcases (isolated List.mem_cons_self).1 _ rfl with ⟨lf, nf, live, -⟩
    cases live

end Horse.Sim
