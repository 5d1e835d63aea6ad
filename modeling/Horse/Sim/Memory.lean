import Horse.Sim.LoadEffects

/-!
# What the nodes of a simulator remember

What a node remembers changes when a netflow is received or an application starts.
Sending a netflow and handling a message leave it alone.
-/

namespace Horse.Sim

open Horse.Container Horse.Lib Horse.Net Horse.Transition

/-- What the node with an identifier remembers. -/
def EvHandler.memoryAt (evh : EvHandler) (uuid : Nat) : Option NodeMemory :=
  (topologyNode evh.topo uuid).map TopoNode.memory

/-- The numbers of the live flows. -/
def EvHandler.flowIds (evh : EvHandler) : List Nat :=
  evh.liveFlows.map LiveFlow.flowId

section FlowIds

variable (evh : EvHandler) (flowId : Nat)

@[simp]
theorem flowIds_setFlow (flow : Option Netflow) :
    (evh.setFlow flowId flow).flowIds = evh.flowIds := by
  rw [EvHandler.flowIds, EvHandler.setFlow, map_updateFirst _ _ (by simp)]
  rfl

end FlowIds

section Memory

variable {evh after : EvHandler} {inserted : List SimEvent} {sum : TimeSum} {node : TopoNode}
  {nodeId : Nat}

theorem memoryAt_setNode {old : TopoNode} (atNode : topologyNode evh.topo nodeId = some old)
    (sameUuid : node.uuid = nodeId) (uuid : Nat) :
    (evh.setNode node).memoryAt uuid =
      if uuid = nodeId then some node.memory else evh.memoryAt uuid := by
  rw [EvHandler.memoryAt, EvHandler.setNode, topologyNode_setNode, sameUuid]
  by_cases isNode : uuid = nodeId
  · simp [isNode, atNode]
  · simp [isNode, EvHandler.memoryAt]

/-- A node that remembers the same in the place of another one. -/
theorem memoryAt_setNode_same {old : TopoNode} (atNode : topologyNode evh.topo nodeId = some old)
    (sameUuid : node.uuid = nodeId) (same : node.memory = old.memory) :
    (evh.setNode node).memoryAt = evh.memoryAt := by
  funext uuid
  rw [memoryAt_setNode atNode sameUuid, same]
  split
  · rename_i isNode
    rw [isNode, EvHandler.memoryAt, atNode]
    rfl
  · rfl

theorem Launches.memoryAt {start : Nat} {events : List SimEvent}
    (launches : Launches sum start evh events after) : after.memoryAt = evh.memoryAt := by
  unfold EvHandler.memoryAt
  rw [launches.topo]

theorem LoopRun.memory {flowId : Nat} {nf : Netflow} {out : Forwarded}
    (run : LoopRun sum flowId node nf out) : out.node.memory = node.memory := by
  induction run with
  | done ports => rfl
  | controller ports later ih => exact ih
  | flood ports later ih => exact ih
  | send ports notController notFlood charged later ih =>
    obtain ⟨n, delayed, updated, -, result⟩ := bind_map_eq_some_iff.mp charged
    cases result
    exact ih.trans (TopoNode.memory_updatePortCapacity updated)

/-- Sending a netflow is not remembered. -/
theorem SendEffect.memoryAt {flowId : Nat} {outPort : BitVec 32}
    (effect : SendEffect sum evh nodeId flowId outPort after inserted) :
    after.memoryAt = evh.memoryAt := by
  cases effect with
  | ignored missing => rfl
  | lost atNode live isFlow sent loss same =>
    exact memoryAt_setNode_same atNode (sent.uuid atNode) sent.sameMemory
  | freed atNode live isFlow sent noLoss restarts unlinked =>
    exact memoryAt_setNode_same atNode (sent.uuid atNode) sent.sameMemory
  | crossed atNode live isFlow sent noLoss restarts linked crosses =>
    exact memoryAt_setNode_same atNode (sent.uuid atNode) sent.sameMemory

/-- Messages to datapaths are not remembered, and only packet-outs make live flows. -/
theorem handleOfIn_memory {find : HashFind Flow} {time dpId : Nat} {msg : OfMessage}
    (done : handleOfIn sum find evh time dpId msg = some (after, inserted)) :
    ∃ middle events, middle.memoryAt = evh.memoryAt ∧ middle.liveFlows = evh.liveFlows ∧
      middle.nextFlowId = evh.nextFlowId ∧ Launches sum time middle events after := by
  obtain ⟨middle, events, replies, -, answering, launches, -⟩ := handleOfIn_launches done
  cases answering with
  | unknown => exact ⟨evh, events, rfl, rfl, rfl, launches⟩
  | @known old new found sameBase =>
    have remembers : (TopoNode.datapath new).memory = (TopoNode.datapath old).memory := by
      simp only [TopoNode.memory, sameBase]
    exact ⟨_, events, memoryAt_setNode_same found rfl remembers, rfl, rfl, launches⟩

theorem handleRouterIn_memory {routerId : BitVec 32} {data : List (BitVec 8)}
    (done : handleRouterIn evh routerId data = some after) :
    after.memoryAt = evh.memoryAt ∧ after.liveFlows = evh.liveFlows := by
  rcases handleRouterIn_cases done with rfl | ⟨r, changed, found, handled, rfl⟩
  · exact ⟨rfl, rfl⟩
  · exact ⟨memoryAt_setNode_same found rfl (routerHandleControlMessage_memory handled), rfl⟩

end Memory

end Horse.Sim
