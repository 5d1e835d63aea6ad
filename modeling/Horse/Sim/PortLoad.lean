import Horse.Net.PortArithmetic
import Horse.Sim.Multicast
import Mathlib.Algebra.BigOperators.Group.List.Basic
import Mathlib.Algebra.Order.BigOperators.Group.List

/-!
# The load of ports

The load of a port should be the sum of the rates of the netflows that wait to be sent
on it.  It is raised when a received netflow is forwarded and lowered when a netflow is
sent; packet-outs and applications schedule sends without raising it.  This module
states which steps keep the load of every port equal to that sum.
-/

namespace Horse.Sim

open Horse.Container Horse.Lib Horse.Net Horse.Transition

/-! ## Loads and pending sends -/

/-- The load of a port of a node. -/
def nodeLoad (n : Node) (port : BitVec 32) : Option Int :=
  (nodePort n port).map fun p => p.bufferState.load

/-- The load of a port of the topology. -/
def EvHandler.loadAt (evh : EvHandler) (uuid : Nat) (port : BitVec 32) : Option Int :=
  (topologyNode evh.topo uuid).bind fun node => nodeLoad node.base port

/-- The rate of a live flow; one that is gone or was freed has none. -/
def EvHandler.rateOf (evh : EvHandler) (flowId : Nat) : Int :=
  (((evh.findLiveFlow flowId).bind LiveFlow.flow).map flowRate).getD 0

/-- What an event will take from the load of a port. -/
def sendRate (rates : Nat → Int) (uuid : Nat) (port : BitVec 32) : SimEvent → Int
  | .flowSend _ nodeId flowId outPort _ =>
    if nodeId = uuid ∧ outPort = port then rates flowId else 0
  | _ => 0

/-- The sum of the rates of the events that send on a port. -/
def pendingLoad (rates : Nat → Int) (queue : List SimEvent) (uuid : Nat) (port : BitVec 32) :
    Int :=
  (queue.map (sendRate rates uuid port)).sum

/-- The load of every port is the sum over its pending sends. -/
def Balanced (sim : SimState) : Prop :=
  ∀ uuid port load, sim.evh.loadAt uuid port = some load →
    load = pendingLoad sim.evh.rateOf sim.sch.evQueue uuid port

/-- A pending event sends the live flow on a port that exists. -/
def SendsOnPort (evh : EvHandler) (queue : List SimEvent) (flowId : Nat) : Prop :=
  ∃ time nodeId port flow, .flowSend time nodeId flowId port flow ∈ queue ∧
    (evh.loadAt nodeId port).isSome

/-- A step that keeps the loads equal to the pending sends: where a live flow is received,
or freed at a port without a link, while other sends of it are pending, its rate stays the
same (it is 0 if the flow is dropped or freed); a packet-out and the netflow of an
application are sent on no port, or have the rate 0. -/
def KeepsLoad (sim : SimState) : SimCall → Prop
  | .handle find (.flowRecv _ nodeId flowId _ _) =>
    ∀ node nf out after, topologyNode sim.evh.topo nodeId = some node →
      (sim.evh.findLiveFlow flowId).bind LiveFlow.flow = some nf →
      node.recvNetflow find nf = some (out, after) →
      SendsOnPort sim.evh sim.sch.evQueue flowId →
        flowRate nf = (out.map flowRate).getD 0
  | .handle _ (.flowSend time nodeId flowId outPort flow) =>
    ∀ node nf, topologyNode sim.evh.topo nodeId = some node →
      (sim.evh.findLiveFlow flowId).bind LiveFlow.flow = some nf →
      nodeCalculatePortLoss node.base outPort = 0 →
      topologyNextHop sim.evh.topo nodeId outPort = none →
      SendsOnPort sim.evh (sim.sch.evQueue.erase (.flowSend time nodeId flowId outPort flow))
        flowId →
        flowRate nf = 0
  | .handle _ (.appStart _ nodeId addr) =>
    ∀ h exec nf after, topologyNode sim.evh.topo nodeId = some (.host h) →
      h.execAt addr = some exec → hostExecuteApp h exec = some (some nf, after) →
      ∀ port ∈ nf.outPorts, (nodePort h.ep.base port).isSome → flowRate nf = 0
  | .handle _ (.ofMsgIn time dpId (.packetOut bufferId inPort packet al)) =>
    ∀ dp nf, topologyDatapathByDpid sim.evh.topo dpId = some dp →
      dpHandlePktOut bufferId inPort packet al netflowNew time = some nf →
      ∀ port, PacketOutPort dp.base nf port → (nodePort dp.base port).isSome →
        flowRate nf = 0
  | _ => True

/-! ## Sums over a queue -/

section Sums

variable {rates : Nat → Int} {queue : List SimEvent} {uuid : Nat} {port : BitVec 32}

theorem flowRate_nonneg (nf : Netflow) : 0 ≤ flowRate nf := by
  unfold flowRate
  omega

theorem rateOf_nonneg (evh : EvHandler) (flowId : Nat) : 0 ≤ evh.rateOf flowId := by
  unfold EvHandler.rateOf
  cases (evh.findLiveFlow flowId).bind LiveFlow.flow with
  | none => exact Int.le_refl 0
  | some nf => exact flowRate_nonneg nf

theorem sendRate_nonneg (nonneg : ∀ flowId, 0 ≤ rates flowId) (ev : SimEvent) :
    0 ≤ sendRate rates uuid port ev := by
  unfold sendRate
  split
  · split
    · exact nonneg _
    · exact Int.le_refl 0
  · exact Int.le_refl 0

theorem pendingLoad_append (first second : List SimEvent) :
    pendingLoad rates (first ++ second) uuid port =
      pendingLoad rates first uuid port + pendingLoad rates second uuid port := by
  simp [pendingLoad]

theorem pendingLoad_cons (ev : SimEvent) (rest : List SimEvent) :
    pendingLoad rates (ev :: rest) uuid port =
      sendRate rates uuid port ev + pendingLoad rates rest uuid port := by
  simp [pendingLoad]

theorem pendingLoad_perm {other : List SimEvent} (perm : queue.Perm other) :
    pendingLoad rates queue uuid port = pendingLoad rates other uuid port :=
  (perm.map _).sum_eq

theorem pendingLoad_erase {ev : SimEvent} (pending : ev ∈ queue) :
    pendingLoad rates queue uuid port =
      sendRate rates uuid port ev + pendingLoad rates (queue.erase ev) uuid port := by
  rw [pendingLoad_perm (List.perm_cons_erase pending), pendingLoad_cons]

theorem pendingLoad_nonneg (nonneg : ∀ flowId, 0 ≤ rates flowId) :
    0 ≤ pendingLoad rates queue uuid port := by
  apply List.sum_nonneg
  intro rate member
  obtain ⟨ev, -, rfl⟩ := List.mem_map.mp member
  exact sendRate_nonneg nonneg ev

/-- A sum of rates is 0 if and only if each of them is. -/
theorem pendingLoad_eq_zero_iff (nonneg : ∀ flowId, 0 ≤ rates flowId) :
    pendingLoad rates queue uuid port = 0 ↔ ∀ ev ∈ queue, sendRate rates uuid port ev = 0 := by
  induction queue with
  | nil => simp [pendingLoad]
  | cons ev rest ih =>
    have first := @sendRate_nonneg rates uuid port nonneg ev
    have others := @pendingLoad_nonneg rates rest uuid port nonneg
    rw [pendingLoad_cons, List.forall_mem_cons, ← ih]
    omega

/-- Events that send nothing do not count. -/
theorem pendingLoad_of_noSend (noSend : ∀ ev ∈ queue, sendRate rates uuid port ev = 0) :
    pendingLoad rates queue uuid port = 0 := by
  induction queue with
  | nil => rfl
  | cons ev rest ih =>
    rw [List.forall_mem_cons] at noSend
    rw [pendingLoad_cons, noSend.1, ih noSend.2]
    rfl

theorem pendingLoad_congr {other : Nat → Int}
    (same : ∀ ev ∈ queue, ∀ flowId, ev.flowId? = some flowId → rates flowId = other flowId) :
    pendingLoad rates queue uuid port = pendingLoad other queue uuid port := by
  unfold pendingLoad
  congr 1
  apply List.map_congr_left
  intro ev member
  cases ev with
  | flowSend time nodeId flowId outPort flow =>
    simp only [sendRate, same _ member flowId rfl]
  | _ => rfl

/-- The number of pending sends of a live flow on a port. -/
def sendCount (queue : List SimEvent) (flowId uuid : Nat) (port : BitVec 32) : Int :=
  pendingLoad (fun other => if other = flowId then 1 else 0) queue uuid port

theorem sendRate_update (flowId : Nat) (rate : Int) (ev : SimEvent) :
    sendRate (Function.update rates flowId rate) uuid port ev =
      sendRate rates uuid port ev +
        sendRate (fun other => if other = flowId then 1 else 0) uuid port ev *
          (rate - rates flowId) := by
  cases ev with
  | flowSend time nodeId other outPort flow =>
    by_cases onPort : nodeId = uuid ∧ outPort = port
    · by_cases isFlow : other = flowId
      · simp [sendRate, onPort, isFlow]
      · simp [sendRate, onPort, isFlow]
    · simp [sendRate, onPort]
  | _ => simp [sendRate]

/-- A sum after the rate of one live flow has changed. -/
theorem pendingLoad_update (flowId : Nat) (rate : Int) :
    pendingLoad (Function.update rates flowId rate) queue uuid port =
      pendingLoad rates queue uuid port +
        sendCount queue flowId uuid port * (rate - rates flowId) := by
  induction queue with
  | nil => simp [pendingLoad, sendCount]
  | cons ev rest ih =>
    unfold sendCount at ih ⊢
    rw [pendingLoad_cons, pendingLoad_cons, pendingLoad_cons, ih, sendRate_update,
      Int.add_mul]
    omega

/-- There are pending sends of a live flow on a port where their number is not 0. -/
theorem sendCount_ne_zero_iff (flowId : Nat) :
    sendCount queue flowId uuid port ≠ 0 ↔
      ∃ time flow, .flowSend time uuid flowId port flow ∈ queue := by
  have nonneg : ∀ other : Nat, (0 : Int) ≤ if other = flowId then 1 else 0 := by
    intro other
    split <;> decide
  unfold sendCount
  rw [Ne, pendingLoad_eq_zero_iff nonneg]
  constructor
  · intro someSend
    simp only [not_forall] at someSend
    obtain ⟨ev, member, isSend⟩ := someSend
    unfold sendRate at isSend
    split at isSend
    · rename_i time nodeId other outPort flow
      split at isSend
      · rename_i onPort
        obtain ⟨rfl, rfl⟩ := onPort
        by_cases isFlow : other = flowId
        · subst isFlow
          exact ⟨time, flow, member⟩
        · exact absurd (if_neg isFlow) isSend
      · contradiction
    · contradiction
  · rintro ⟨time, flow, member⟩ allZero
    have zero := allZero _ member
    simp [sendRate] at zero

end Sums

/-! ## What changes loads and rates -/

section Changes

variable (evh : EvHandler)

theorem nodeLoad_updatePortCapacity {n after : Node} {bits : Int} {port : BitVec 32}
    (updated : nodeUpdatePortCapacity n bits port = some after) (other : BitVec 32) :
    nodeLoad after other =
      if other = port then (nodeLoad n port).map fun load => max 0 (load + bits)
      else nodeLoad n other := by
  unfold nodeUpdatePortCapacity at updated
  split at updated
  · rename_i missing
    cases updated
    split
    · rename_i isPort
      simp [nodeLoad, isPort, missing]
    · rfl
  · rename_i p isPort
    obtain ⟨ts, changed, rfl⟩ := Option.map_eq_some_iff.mp updated
    obtain ⟨-, rfl⟩ := updateLoad_eq_some_iff.mp changed
    unfold nodeLoad
    rw [nodePort_updatePort (by intro p; rfl)]
    split
    · simp [isPort]
    · rfl

theorem KeepsPorts.nodeLoad {after before : Node} (keeps : KeepsPorts after before)
    (port : BitVec 32) : nodeLoad after port = nodeLoad before port :=
  keeps.nodePort_read port (fun p => p.bufferState.load) fun _ => rfl

variable {evh} in
theorem loadAt_setNode {node old : TopoNode}
    (found : topologyNode evh.topo node.uuid = some old) (uuid : Nat) (port : BitVec 32) :
    (evh.setNode node).loadAt uuid port =
      if uuid = node.uuid then nodeLoad node.base port else evh.loadAt uuid port := by
  simp only [EvHandler.loadAt, EvHandler.setNode, topologyNode_setNode]
  split
  · rename_i isNode
    simp [isNode, found]
  · rfl

/-- A node in whose place another one with the same ports is put. -/
theorem loadAt_setNode_keeps {node old : TopoNode} {uuid : Nat}
    (found : topologyNode evh.topo uuid = some old) (keeps : KeepsPorts node.base old.base) :
    (evh.setNode node).loadAt = evh.loadAt := by
  have sameUuid : node.uuid = uuid := keeps.sameUuid.trans (topologyNode_uuid found)
  rw [← sameUuid] at found
  funext other port
  rw [loadAt_setNode found]
  split
  · rename_i isNode
    rw [KeepsPorts.nodeLoad keeps, isNode]
    simp [EvHandler.loadAt, found]
  · rfl

variable {evh} in
theorem rateOf_eq {flowId : Nat} {nf : Netflow}
    (isFlow : (evh.findLiveFlow flowId).bind LiveFlow.flow = some nf) :
    evh.rateOf flowId = flowRate nf := by
  simp [EvHandler.rateOf, isFlow]

theorem rateOf_setFlow {flowId : Nat} {lf : LiveFlow} (live : evh.findLiveFlow flowId = some lf)
    (flow : Option Netflow) :
    (evh.setFlow flowId flow).rateOf =
      Function.update evh.rateOf flowId ((flow.map flowRate).getD 0) := by
  funext other
  simp only [EvHandler.rateOf, findLiveFlow_setFlow]
  by_cases isFlow : other = flowId
  · simp [isFlow, live]
  · simp [isFlow, EvHandler.rateOf]

theorem rateOf_delLiveFlow (flowId : Nat) :
    (evh.delLiveFlow flowId).rateOf = Function.update evh.rateOf flowId 0 := by
  funext other
  by_cases isFlow : other = flowId
  · simp [EvHandler.rateOf, isFlow, findLiveFlow_delLiveFlow_self]
  · simp [EvHandler.rateOf, isFlow, findLiveFlow_delLiveFlow evh isFlow]

end Changes

end Horse.Sim
