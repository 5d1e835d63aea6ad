import Horse.Net.Memory
import Horse.Sim.EventHandler

/-!
# What the handlers do

One lemma for each handler says which events it inserts and what it does to the
live flows and to the executions of the hosts.  The invariants of the simulator
are derived from these.
-/

namespace Horse.Sim

open Horse.Container Horse.Lib Horse.Net Horse.Transition

/-! ## The queue -/

theorem insertAll_perm (sch : Scheduler SimEvent) (events : List SimEvent) :
    (insertAll sch events).evQueue.Perm (events ++ sch.evQueue) := by
  induction events generalizing sch with
  | nil => exact List.Perm.refl _
  | cons ev rest ih =>
    calc
      (insertAll (schedulerInsert SimEvent.time sch ev) rest).evQueue.Perm
          (rest ++ (schedulerInsert SimEvent.time sch ev).evQueue) := ih _
      _ |>.Perm (rest ++ ev :: sch.evQueue) := (insertInorder_perm _ _ _).append_left rest
      _ |>.Perm (ev :: rest ++ sch.evQueue) := List.perm_middle

variable {nf : Netflow} {time dpId addr : Nat} {node old : TopoNode} {msg : OfMessage}
  {inserted : List SimEvent} {ev : SimEvent} {port routerId : BitVec 32} {dp : Datapath}

theorem mem_insertAll {sch : Scheduler SimEvent} {events : List SimEvent} :
    ev ∈ (insertAll sch events).evQueue ↔ ev ∈ events ∨ ev ∈ sch.evQueue := by
  rw [(insertAll_perm sch events).mem_iff, List.mem_append]

/-- Handling an event removes it from the queue and adds what the handler inserts. -/
theorem SimState.handle_eq_some_iff {sum : TimeSum} {find : HashFind Flow} {sim after : SimState} :
    sim.handle sum find ev = some after ↔
      ev ∈ sim.sch.evQueue ∧ ∃ evh inserted,
        handleEvent sum find sim.evh ev = some (evh, inserted) ∧
        after = ⟨evh, insertAll { sim.sch with evQueue := sim.sch.evQueue.erase ev } inserted⟩ := by
  unfold SimState.handle
  by_cases queued : ev ∈ sim.sch.evQueue
  · simp only [queued, if_true, true_and, Option.map_eq_some_iff, Prod.exists]
    exact exists_congr fun _ => exists_congr fun _ => and_congr_right fun _ => eq_comm
  · simp [queued]

/-- The queue stays ordered by time. -/
theorem insertAll_sorted {sch : Scheduler SimEvent} (events : List SimEvent)
    (sorted : sch.evQueue.Pairwise fun a b => a.time ≤ b.time) :
    (insertAll sch events).evQueue.Pairwise fun a b => a.time ≤ b.time := by
  induction events generalizing sch with
  | nil => exact sorted
  | cons ev rest ih =>
    exact ih (insertInorder_sorted (priocmp_nonneg_iff SimEvent.time) ev sorted)

/-- The start events of a topology. -/
theorem mem_setupAppEvents {topo : Topology} :
    ev ∈ setupAppEvents topo ↔ ∃ h exec, .host h ∈ topo.nodes ∧ exec ∈ h.execs ∧
      ev = .appStart exec.startTime h.ep.base.uuid exec.addr := by
  simp only [setupAppEvents, List.mem_flatMap, List.mem_reverse]
  constructor
  · rintro ⟨node, isNode, member⟩
    cases node with
    | host h =>
      simp only [hostAppEvents, List.mem_map, List.mem_reverse] at member
      rcases member with ⟨exec, isExec, rfl⟩
      exact ⟨h, exec, isNode, isExec, rfl⟩
    | datapath dp => cases member
    | router r => cases member
  · rintro ⟨h, exec, isNode, isExec, rfl⟩
    refine ⟨.host h, isNode, ?_⟩
    simp only [hostAppEvents, List.mem_map, List.mem_reverse]
    exact ⟨exec, isExec, rfl⟩

/-- A property of every pending event. -/
def EachPending (good : EvHandler → SimEvent → Prop) (sim : SimState) : Prop :=
  ∀ ev ∈ sim.sch.evQueue, good sim.evh ev

section EachPending

variable {good : EvHandler → SimEvent → Prop} {sim after : SimState} {call : SimCall}

theorem eachPending_setup {topo : Topology}
    (starts : ∀ h exec, .host h ∈ topo.nodes → exec ∈ h.execs →
      good (setup topo).evh (.appStart exec.startTime h.ep.base.uuid exec.addr)) :
    EachPending good (setup topo) := by
  intro ev member
  rcases mem_insertAll.mp member with inserted | old
  · rcases mem_setupAppEvents.mp inserted with ⟨h, exec, isNode, isExec, rfl⟩
    exact starts h exec isNode isExec
  · cases old

/-- A step keeps a property of the pending events if it holds of every message, and handling
an event keeps it. -/
theorem EachPending.step (pending : EachPending good sim)
    (ofMessage : ∀ time dpId msg, good sim.evh (.ofMsgIn time dpId msg))
    (routerMessage : ∀ time routerId connId data,
      good sim.evh (.routerIn time routerId connId data))
    (handled : ∀ find ev evh inserted, call = .handle find ev → ev ∈ sim.sch.evQueue →
      handleEvent wrappingSum find sim.evh ev = some (evh, inserted) →
      ∀ other ∈ inserted ++ sim.sch.evQueue.erase ev, good evh other)
    (step : simStep sim call = some after) : EachPending good after := by
  cases call with
  | handle find ev =>
    rcases SimState.handle_eq_some_iff.mp step with ⟨isPending, evh, inserted, done, rfl⟩
    intro other member
    exact handled find ev evh inserted rfl isPending done other
      (List.mem_append.mpr (mem_insertAll.mp member))
  | ofMessage dpId msg =>
    cases step
    intro ev member
    rcases mem_insertInorder.mp member with rfl | old
    · exact ofMessage _ dpId msg
    · exact pending ev old
  | routerMessage routerId connId data =>
    cases step
    intro ev member
    rcases mem_insertInorder.mp member with rfl | old
    · exact routerMessage _ routerId connId data
    · exact pending ev old
  | setClock clock =>
    cases step
    exact pending

end EachPending

/-! ## Live flows -/

section LiveFlows

variable (evh : EvHandler) (flowId wanted : Nat)

@[simp]
theorem findLiveFlow_setNode (node : TopoNode) :
    (evh.setNode node).findLiveFlow wanted = evh.findLiveFlow wanted :=
  rfl

theorem findLiveFlow_setFlow (flow : Option Netflow) :
    (evh.setFlow flowId flow).findLiveFlow wanted =
      if wanted = flowId then (evh.findLiveFlow flowId).map fun lf => { lf with flow := flow }
      else evh.findLiveFlow wanted := by
  rw [EvHandler.findLiveFlow, EvHandler.setFlow, find?_updateFirst (by simp)]
  rfl

variable {evh flowId} in
theorem findLiveFlow_setFlow_self {lf : LiveFlow} (live : evh.findLiveFlow flowId = some lf)
    (flow : Option Netflow) :
    (evh.setFlow flowId flow).findLiveFlow flowId = some { lf with flow := flow } := by
  rw [findLiveFlow_setFlow, if_pos rfl, live]
  rfl

variable {flowId wanted} in
theorem findLiveFlow_delLiveFlow (other : wanted ≠ flowId) :
    (evh.delLiveFlow flowId).findLiveFlow wanted = evh.findLiveFlow wanted :=
  find?_eraseP other evh.liveFlows

variable {evh flowId} in
theorem findLiveFlow_lt {lf : LiveFlow} (live : evh.findLiveFlow flowId = some lf) :
    flowId < evh.nextFlowId := by
  have isId : lf.flowId = flowId := by simpa using List.find?_some live
  rw [← isId]
  exact (List.pairwise_cons.mp evh.numbered).1 _
    (List.mem_map.mpr ⟨lf, List.mem_of_find?_eq_some live, rfl⟩)

/-- No two live flows have the same number. -/
theorem findLiveFlow_delLiveFlow_self :
    (evh.delLiveFlow flowId).findLiveFlow flowId = none :=
  find?_eraseP_self ((List.pairwise_cons.mp evh.numbered).2.imp Nat.ne_of_gt) flowId

theorem findLiveFlow_addLiveFlow (nodeId : Nat) (flow : Netflow) :
    (evh.addLiveFlow nodeId flow).findLiveFlow wanted =
      if wanted = evh.nextFlowId then some ⟨evh.nextFlowId, nodeId, some flow⟩
      else evh.findLiveFlow wanted := by
  by_cases isNew : wanted = evh.nextFlowId
  · simp [EvHandler.findLiveFlow, EvHandler.addLiveFlow, isNew]
  · have skips : (evh.nextFlowId == wanted) = false := by simpa using Ne.symm isNew
    simp [EvHandler.findLiveFlow, EvHandler.addLiveFlow, isNew, skips]

end LiveFlows

/-! ## Executions -/

/-- The execution at an address of a host. -/
def EvHandler.execAt (evh : EvHandler) (uuid addr : Nat) : Option Exec :=
  (topologyNode evh.topo uuid).bind fun node => node.execs.find? fun exec => exec.addr == addr

/-- Every execution of a host of a topology is found at its address. -/
theorem execAt_of_mem {evh : EvHandler} {h : Host} {exec : Exec}
    (isNode : .host h ∈ evh.topo.nodes) (isExec : exec ∈ h.execs) :
    evh.execAt h.ep.base.uuid exec.addr = some exec := by
  have atNode : topologyNode evh.topo h.ep.base.uuid = some (.host h) :=
    find?_of_mem evh.topo.distinct isNode
  have addrs : (h.execs.map Exec.addr).Nodup := by
    rw [h.addrs, List.nodup_reverse]
    exact List.nodup_range
  rw [EvHandler.execAt, atNode]
  exact find?_of_mem addrs isExec

/-- A node with the executions of the one it replaces. -/
theorem execAt_setNode {evh : EvHandler} (found : topologyNode evh.topo node.uuid = some old)
    (sameExecs : node.execs = old.execs) :
    (evh.setNode node).execAt = evh.execAt := by
  funext uuid addr
  simp only [EvHandler.execAt, EvHandler.setNode, topologyNode_setNode]
  by_cases isNode : uuid = node.uuid
  · simp [isNode, found, sameExecs]
  · simp [isNode]

/-- Two states with the same live flows and the same executions. -/
structure SameFlows (after before : EvHandler) : Prop where
  execAt : after.execAt = before.execAt
  findLiveFlow : after.findLiveFlow = before.findLiveFlow
  nextFlowId : after.nextFlowId = before.nextFlowId

theorem SameFlows.refl (evh : EvHandler) : SameFlows evh evh :=
  ⟨rfl, rfl, rfl⟩

/-- A node without executions in the place of another one. -/
theorem SameFlows.setNode {evh : EvHandler} (found : topologyNode evh.topo node.uuid = some old)
    (sameExecs : node.execs = old.execs) :
    SameFlows (evh.setNode node) evh :=
  ⟨execAt_setNode found sameExecs, rfl, rfl⟩

/-- The executions after a change to one of them. -/
def changeExec (execAt : Nat → Nat → Option Exec) (uuid addr : Nat) (change : Exec → Exec) :
    Nat → Nat → Option Exec := fun otherUuid otherAddr =>
  if otherUuid = uuid ∧ otherAddr = addr then (execAt uuid addr).map change
  else execAt otherUuid otherAddr

theorem Exec.change_addr (execCnt : BitVec 32 → BitVec 32) (startTime : Nat → Nat)
    (exec : Exec) : (exec.change execCnt startTime).addr = exec.addr :=
  rfl

/-- A node in which the execution at one address was changed. -/
theorem execAt_setNode_change {evh : EvHandler} {change : Exec → Exec}
    (keeps : ∀ exec, (change exec).addr = exec.addr)
    (found : topologyNode evh.topo node.uuid = some old)
    (changed : node.execs = updateFirst (fun exec => exec.addr == addr) change old.execs) :
    (evh.setNode node).execAt = changeExec evh.execAt node.uuid addr change := by
  funext uuid otherAddr
  simp only [EvHandler.execAt, EvHandler.setNode, topologyNode_setNode, changeExec]
  by_cases isNode : uuid = node.uuid
  · rw [isNode, if_pos rfl, found]
    simp only [Option.map_some, Option.bind_some, changed, true_and]
    rw [find?_updateFirst (by simp +contextual [keeps])]
  · simp [isNode]

/-! ## The loop over output ports -/

variable {n : Node} {turns : Nat}

section Loop

variable {sum : TimeSum} {flowId : Nat} {delayed : Netflow} {out : Forwarded}

/-- Sums that do not wrap. -/
def Grows (sum : TimeSum) : Prop :=
  ∀ {a b total : Nat}, sum a b = some total → a ≤ total

theorem exactSum_grows : Grows exactSum := by
  intro a b total summed
  simp only [exactSum] at summed
  split at summed
  · cases summed
    exact Nat.le_add_right a b
  · cases summed

/-- Transmission delays a netflow and changes nothing else of it. -/
theorem nodeAddTxTime_eq (added : nodeAddTxTime sum n port nf = some delayed) :
    delayed = { nf with startTime := delayed.startTime } ∧
      (Grows sum → nf.startTime ≤ delayed.startTime) := by
  unfold nodeAddTxTime at added
  split at added
  · cases added
    exact ⟨rfl, fun _ => Nat.le_refl _⟩
  · rcases bind_map_eq_some_iff.mp added with ⟨tx, time, -, summed, rfl⟩
    exact ⟨rfl, fun grows => grows summed⟩

theorem nodeUpdatePortCapacity_uuid {after : Node} {bits : Int}
    (updated : nodeUpdatePortCapacity n bits port = some after) : after.uuid = n.uuid := by
  unfold nodeUpdatePortCapacity at updated
  split at updated
  · cases updated
    rfl
  · rcases Option.map_eq_some_iff.mp updated with ⟨ts, -, rfl⟩
    rfl

/-- What charging a port keeps. -/
theorem chargePort_keeps {after : TopoNode}
    (charged : chargePort sum node nf port = some (after, delayed)) :
    after.uuid = node.uuid ∧ after.execs = node.execs ∧
      delayed = { nf with startTime := delayed.startTime } ∧
      (Grows sum → nf.startTime ≤ delayed.startTime) := by
  rcases bind_map_eq_some_iff.mp charged with ⟨n, delayed, updated, added, result⟩
  cases result
  refine ⟨?_, node.execs_setBase n, nodeAddTxTime_eq added⟩
  rw [TopoNode.uuid, TopoNode.base_setBase]
  exact nodeUpdatePortCapacity_uuid updated

/-- The ports that `dp_create_flood` adds to a netflow. -/
def floodPorts (n : Node) (inPort : BitVec 32) : List (BitVec 32) :=
  (n.ports.reverse.filter fun p => p.portId != inPort).map Port.portId

theorem dpCreateFlood_eq (n : Node) (nf : Netflow) :
    dpCreateFlood n nf = { nf with outPorts := nf.outPorts ++ floodPorts n nf.key.inPort } := by
  unfold dpCreateFlood floodPorts
  generalize n.ports.reverse.filter _ = ports
  induction ports generalizing nf with
  | nil => simp
  | cons p rest ih =>
    rw [List.foldl_cons, ih]
    simp [netflowAddOutPort]

/-- The turns of a loop over the output ports that ends: one case for each kind of port. -/
inductive LoopRun (sum : TimeSum) (flowId : Nat) : TopoNode → Netflow → Forwarded → Prop
  | done {node : TopoNode} {nf : Netflow} (ports : nf.outPorts = []) :
      LoopRun sum flowId node nf ⟨node, nf, []⟩
  | controller {dp : Datapath} {nf : Netflow} {rest : List (BitVec 32)} {msg : OfReply}
      {tail : Forwarded} (ports : nf.outPorts = ofppController :: rest)
      (later : LoopRun sum flowId (.datapath dp) (setReason { nf with outPorts := rest }) tail) :
      LoopRun sum flowId (.datapath dp) nf (tail.cons (.ofMsgOut nf.startTime dp.dpId msg))
  | flood {node : TopoNode} {nf : Netflow} {rest : List (BitVec 32)} {out : Forwarded}
      (ports : nf.outPorts = ofppFlood :: rest)
      (later : LoopRun sum flowId node
        { nf with outPorts := rest ++ floodPorts node.base nf.key.inPort } out) :
      LoopRun sum flowId node nf out
  | send {node next : TopoNode} {nf : Netflow} {port : BitVec 32} {rest : List (BitVec 32)}
      {time : Nat} {tail : Forwarded} (ports : nf.outPorts = port :: rest)
      (notController : port ≠ ofppController) (notFlood : port ≠ ofppFlood)
      (charged : chargePort sum node { nf with outPorts := rest } port =
        some (next, { nf with outPorts := rest, startTime := time }))
      (later : LoopRun sum flowId next { nf with outPorts := rest, startTime := time } tail) :
      LoopRun sum flowId node nf (tail.cons (.flowSend time next.uuid flowId port
        { nf with outPorts := rest, startTime := time }))

theorem outPortLoop_runs (looped : outPortLoop sum flowId turns node nf = some out) :
    LoopRun sum flowId node nf out := by
  induction turns generalizing node nf out with
  | zero => cases looped
  | succ turns ih =>
    rw [outPortLoop] at looped
    split at looped
    · rename_i ports
      cases looped
      exact .done ports
    · rename_i port rest ports
      dsimp only at looped
      split at looped
      · rename_i isController
        rcases bind_map_eq_some_iff.mp looped with ⟨ev, tail, packed, tailLooped, rfl⟩
        cases node with
        | datapath dp =>
          cases packed
          exact .controller (isController ▸ ports) (ih tailLooped)
        | host h => cases packed
        | router r => cases packed
      · rename_i notController
        split at looped
        · rename_i isFlood
          rw [dpCreateFlood_eq] at looped
          exact .flood (isFlood ▸ ports) (ih looped)
        · rename_i notFlood
          rcases Option.bind_eq_some_iff.mp looped with ⟨⟨next, delayed⟩, charged, later⟩
          rcases Option.map_eq_some_iff.mp later with ⟨tail, tailLooped, rfl⟩
          have isDelayed := (chargePort_keeps charged).2.2.1
          rw [isDelayed] at charged
          have run := ih tailLooped
          rw [isDelayed] at run ⊢
          exact .send ports notController notFlood charged run

/-- An event of the loop: the netflow is sent, or goes to the controller. -/
inductive LoopEvent (uuid flowId : Nat) : SimEvent → Prop
  | send (time : Nat) (port : BitVec 32) (flow : Netflow) :
      LoopEvent uuid flowId (.flowSend time uuid flowId port flow)
  | packetIn (time dpId : Nat) (msg : OfReply) : LoopEvent uuid flowId (.ofMsgOut time dpId msg)

/-- What the loop over the output ports does, whatever the ports are. -/
structure LoopEffect (sum : TimeSum) (flowId : Nat) (node : TopoNode) (start : Nat)
    (out : Forwarded) : Prop where
  sameUuid : out.node.uuid = node.uuid
  sameExecs : out.node.execs = node.execs
  events : ∀ ev ∈ out.events, LoopEvent node.uuid flowId ev
  later : Grows sum → start ≤ out.nf.startTime
  inTime : Grows sum → ∀ ev ∈ out.events, start ≤ ev.time ∧ ev.time ≤ out.nf.startTime

/-- An event in front of the rest of the loop. -/
theorem LoopEffect.cons {start : Nat} {next : TopoNode} {rest : Forwarded}
    (sameUuid : next.uuid = node.uuid) (sameExecs : next.execs = node.execs)
    (isEvent : LoopEvent node.uuid flowId ev) (later : Grows sum → start ≤ ev.time)
    (effect : LoopEffect sum flowId next ev.time rest) :
    LoopEffect sum flowId node start (rest.cons ev) where
  sameUuid := effect.sameUuid.trans sameUuid
  sameExecs := effect.sameExecs.trans sameExecs
  events := by
    intro other member
    rcases List.mem_cons.mp member with rfl | inRest
    · exact isEvent
    · rw [← sameUuid]
      exact effect.events other inRest
  later grows := Nat.le_trans (later grows) (effect.later grows)
  inTime := by
    intro grows other member
    rcases List.mem_cons.mp member with rfl | inRest
    · exact ⟨later grows, effect.later grows⟩
    · rcases effect.inTime grows other inRest with ⟨after, before⟩
      exact ⟨Nat.le_trans (later grows) after, before⟩

theorem LoopRun.effect (run : LoopRun sum flowId node nf out) :
    LoopEffect sum flowId node nf.startTime out := by
  induction run with
  | done ports => exact ⟨rfl, rfl, by simp, fun _ => Nat.le_refl _, by simp⟩
  | controller ports later ih =>
    exact .cons rfl rfl (.packetIn _ _ _) (fun _ => Nat.le_refl _) ih
  | flood ports later ih => exact ih
  | send ports notController notFlood charged later ih =>
    rcases chargePort_keeps charged with ⟨sameUuid, sameExecs, -, grown⟩
    refine .cons sameUuid sameExecs ?_ grown ih
    rw [sameUuid]
    exact .send _ _ _

end Loop

/-! ## Receiving -/

/-- An event is ignored if its node or its flow is missing. -/
theorem none_or_none {α β : Type} {first : Option α} {second : Option β}
    (notBoth : ∀ a b, first = some a → second = some b → False) :
    first = none ∨ second = none := by
  cases first with
  | none => exact Or.inl rfl
  | some a =>
    cases second with
    | none => exact Or.inr rfl
    | some b => exact (notBoth a b rfl rfl).elim

section Receive

variable (sum : TimeSum) (find : HashFind Flow) (evh : EvHandler) (nodeId flowId : Nat)

/-- What `handle_recv_netflow` can do. -/
inductive RecvEffect : EvHandler → List SimEvent → Prop
  | ignored (missing : topologyNode evh.topo nodeId = none ∨ evh.findLiveFlow flowId = none) :
      RecvEffect evh []
  | dropped {node after : TopoNode} {lf : LiveFlow} {nf : Netflow}
      (atNode : topologyNode evh.topo nodeId = some node)
      (live : evh.findLiveFlow flowId = some lf) (isFlow : lf.flow = some nf)
      (received : node.recvNetflow find nf = some (none, after))
      (same : SameFlows (evh.setNode after) evh) :
      RecvEffect ((evh.setNode after).delLiveFlow flowId) []
  | forwarded {node after : TopoNode} {lf : LiveFlow} {nf returned : Netflow} {out : Forwarded}
      (atNode : topologyNode evh.topo nodeId = some node)
      (live : evh.findLiveFlow flowId = some lf) (isFlow : lf.flow = some nf)
      (received : node.recvNetflow find nf = some (some returned, after))
      (looped : handleAfterFlowRecv sum after returned flowId = some out)
      (same : SameFlows (evh.setNode out.node) evh) :
      RecvEffect ((evh.setNode out.node).setFlow flowId (some out.nf)) out.events

variable {sum find evh nodeId flowId}

theorem handleRecvNetflow_effect {after : EvHandler} {events : List SimEvent}
    (done : handleRecvNetflow sum find evh nodeId flowId = some (after, events)) :
    RecvEffect sum find evh nodeId flowId after events := by
  unfold handleRecvNetflow at done
  split at done
  · rename_i node lf atNode live
    rcases Option.bind_eq_some_iff.mp done with ⟨nf, isFlow, rest⟩
    rcases Option.bind_eq_some_iff.mp rest with ⟨⟨out, next⟩, received, last⟩
    rcases TopoNode.recvNetflow_passes received with ⟨passes, sameExecs⟩
    have found : topologyNode evh.topo next.uuid = some node := by
      rw [TopoNode.uuid, passes.sameUuid, topologyNode_uuid atNode, atNode]
    cases out with
    | none =>
      cases last
      exact .dropped atNode live isFlow received (.setNode found sameExecs)
    | some returned =>
      rcases Option.map_eq_some_iff.mp last with ⟨out, looped, result⟩
      cases result
      have effect := (outPortLoop_runs looped).effect
      rw [← effect.sameUuid] at found
      exact .forwarded atNode live isFlow received looped
        (.setNode found (effect.sameExecs.trans sameExecs))
  · rename_i notBoth
    cases done
    exact .ignored (none_or_none notBoth)

end Receive

/-! ## Sending -/

section Send

variable (sum : TimeSum) (evh : EvHandler) (nodeId flowId : Nat) (outPort : BitVec 32)

/-- What `handle_after_flow_send` can do to the executions of the sending node,
which was `node` and is `after` now. -/
inductive Restarts (node : TopoNode) (nf : Netflow) (after : TopoNode) : List SimEvent → Prop
  | none (noExec : nextExec nf node = none) (same : (evh.setNode after).execAt = evh.execAt) :
      Restarts node nf after []
  | restart {exec : Exec} {time : Nat} (isNext : nextExec nf node = some exec)
      (atTime : sum nf.startTime 1000000 = some time)
      (changed : (evh.setNode after).execAt =
        changeExec evh.execAt nodeId exec.addr (Exec.change id fun _ => time)) :
      Restarts node nf after [.appStart time nodeId exec.addr]

/-- What sending a netflow does to a node, its executions apart: the load of the port is
lowered, and it is counted. -/
structure Sent (node : TopoNode) (nf : Netflow) (after : TopoNode) : Prop where
  lowered : ∃ n, nodeUpdatePortCapacity node.base (-flowRate nf) outPort = some n ∧
    KeepsPorts after.base n
  sameMemory : after.memory = node.memory

/-- What `handle_send_netflow` can do. -/
inductive SendEffect : EvHandler → List SimEvent → Prop
  | ignored (missing : topologyNode evh.topo nodeId = none ∨ evh.findLiveFlow flowId = none) :
      SendEffect evh []
  | lost {node after : TopoNode} {lf : LiveFlow} {nf : Netflow}
      (atNode : topologyNode evh.topo nodeId = some node)
      (live : evh.findLiveFlow flowId = some lf) (isFlow : lf.flow = some nf)
      (sent : Sent outPort node nf after) (loss : nodeCalculatePortLoss node.base outPort ≠ 0)
      (same : SameFlows (evh.setNode after) evh) :
      SendEffect (evh.setNode after) []
  | freed {node after : TopoNode} {lf : LiveFlow} {nf : Netflow} {started : List SimEvent}
      (atNode : topologyNode evh.topo nodeId = some node)
      (live : evh.findLiveFlow flowId = some lf) (isFlow : lf.flow = some nf)
      (sent : Sent outPort node nf after) (noLoss : nodeCalculatePortLoss node.base outPort = 0)
      (restarts : Restarts sum evh nodeId node nf after started)
      (unlinked : topologyNextHop evh.topo nodeId outPort = none) :
      SendEffect ((evh.setNode after).setFlow flowId none) started
  | crossed {node after : TopoNode} {lf : LiveFlow} {nf arrived : Netflow}
      {started : List SimEvent} {dst : NodePortPair} {latency : BitVec 32}
      (atNode : topologyNode evh.topo nodeId = some node)
      (live : evh.findLiveFlow flowId = some lf) (isFlow : lf.flow = some nf)
      (sent : Sent outPort node nf after) (noLoss : nodeCalculatePortLoss node.base outPort = 0)
      (restarts : Restarts sum evh nodeId node nf after started)
      (linked : topologyNextHop evh.topo nodeId outPort = some (dst, latency))
      (crosses : crossLink sum nf latency dst.port = some arrived) :
      SendEffect ((evh.setNode after).setFlow flowId (some arrived))
        (started ++ [.flowRecv arrived.startTime dst.uuid flowId (flowRate arrived) arrived])

variable {sum evh nodeId flowId outPort}

theorem setExecStart_uuid (addr time : Nat) (node : TopoNode) :
    (setExecStart addr time node).uuid = node.uuid := by
  cases node <;> rfl

theorem setExecStart_execs (addr time : Nat) (node : TopoNode) :
    (setExecStart addr time node).execs =
      updateFirst (fun exec => exec.addr == addr) (Exec.change id fun _ => time) node.execs := by
  cases node <;> rfl

theorem nextExec_congr {other : TopoNode}
    (sameExecs : other.execs = node.execs) : nextExec nf other = nextExec nf node := by
  have read (node : TopoNode) : nextExec nf node =
      (node.execs.find? fun exec => exec.id == nf.execId).filter fun exec => exec.execCnt ≠ 0 := by
    cases node <;> rfl
  rw [read, read, sameExecs]

/-- The first part of `handle_after_flow_send`, on a node that counts the netflow. -/
theorem scheduleExec_restarts {counted after : TopoNode} {started : List SimEvent}
    (atNode : topologyNode evh.topo nodeId = some node)
    (sameUuid : counted.uuid = nodeId) (sameExecs : counted.execs = node.execs)
    (scheduled : scheduleExec sum counted nf = some (after, started)) :
    after.uuid = nodeId ∧ Restarts sum evh nodeId node nf after started := by
  have found : topologyNode evh.topo counted.uuid = some node := by
    rw [sameUuid, atNode]
  unfold scheduleExec at scheduled
  split at scheduled
  · rename_i noExec
    cases scheduled
    rw [nextExec_congr sameExecs] at noExec
    exact ⟨sameUuid, .none noExec (execAt_setNode found sameExecs)⟩
  · rename_i exec isNext
    rcases Option.map_eq_some_iff.mp scheduled with ⟨time, atTime, result⟩
    cases result
    rw [nextExec_congr sameExecs] at isNext
    rw [← setExecStart_uuid exec.addr time] at found sameUuid
    refine ⟨sameUuid, ?_⟩
    rw [← setExecStart_uuid exec.addr time counted, sameUuid]
    refine .restart isNext atTime ?_
    have changed := setExecStart_execs exec.addr time counted
    rw [sameExecs] at changed
    rw [execAt_setNode_change (Exec.change_addr id fun _ => time) found changed, sameUuid]

theorem scheduleExec_keeps {after : TopoNode} {started : List SimEvent}
    (scheduled : scheduleExec sum node nf = some (after, started)) :
    after.base = node.base ∧ after.memory = node.memory := by
  unfold scheduleExec at scheduled
  split at scheduled
  · cases scheduled
    exact ⟨rfl, rfl⟩
  · rcases Option.map_eq_some_iff.mp scheduled with ⟨time, -, result⟩
    cases result
    cases node <;> exact ⟨rfl, rfl⟩

theorem handleSendNetflow_effect {after : EvHandler} {events : List SimEvent}
    (done : handleSendNetflow sum evh nodeId flowId outPort = some (after, events)) :
    SendEffect sum evh nodeId flowId outPort after events := by
  unfold handleSendNetflow at done
  split at done
  · rename_i node lf atNode live
    rcases Option.bind_eq_some_iff.mp done with ⟨nf, isFlow, rest⟩
    rcases Option.bind_eq_some_iff.mp rest with ⟨n, updated, last⟩
    have sameUuid : n.uuid = nodeId :=
      (nodeUpdatePortCapacity_uuid updated).trans (topologyNode_uuid atNode)
    have remembers := TopoNode.memory_updatePortCapacity updated
    split at last
    · rename_i loss
      cases last
      refine .lost atNode live isFlow ⟨⟨n, updated, ?_⟩, remembers⟩ loss ?_
      · rw [TopoNode.base_setBase]
        exact .refl n
      apply SameFlows.setNode _ (node.execs_setBase n)
      rw [TopoNode.uuid, TopoNode.base_setBase, sameUuid, atNode]
    · rename_i noLoss
      rcases Option.bind_eq_some_iff.mp last with ⟨⟨next, started⟩, scheduled, later⟩
      rcases Option.map_eq_some_iff.mp later with ⟨⟨final, crossed⟩, crosses, result⟩
      cases result
      rcases scheduleExec_restarts atNode (by simp [TopoNode.uuid, TopoNode.sendNetflow,
        nodeUpdatePortStats, Node.updatePort, sameUuid]) (by simp [TopoNode.sendNetflow])
        scheduled with ⟨nextUuid, restarts⟩
      rcases scheduleExec_keeps scheduled with ⟨sameBase, sameMemory⟩
      have sent : Sent outPort node nf next := by
        refine ⟨⟨n, updated, ?_⟩, ?_⟩
        · rw [sameBase, TopoNode.sendNetflow, TopoNode.base_setBase, TopoNode.base_setBase]
          exact .updatePortStats _ _ _
        · rw [sameMemory, TopoNode.memory_sendNetflow, remembers]
      simp only [crossOrFree, nextUuid] at crosses
      split at crosses
      · rename_i unlinked
        cases crosses
        rw [List.append_nil]
        exact .freed atNode live isFlow sent (not_not.mp noLoss) restarts unlinked
      · rename_i dst latency linked
        rcases Option.map_eq_some_iff.mp crosses with ⟨arrived, arrives, result⟩
        cases result
        exact .crossed atNode live isFlow sent (not_not.mp noLoss) restarts linked arrives
  · rename_i notBoth
    cases done
    exact .ignored (none_or_none notBoth)

theorem Sent.uuid {after : TopoNode} (sent : Sent outPort node nf after)
    (atNode : topologyNode evh.topo nodeId = some node) : after.uuid = nodeId := by
  rcases sent.lowered with ⟨n, updated, keeps⟩
  exact keeps.sameUuid.trans
    ((nodeUpdatePortCapacity_uuid updated).trans (topologyNode_uuid atNode))

theorem crossLink_eq {arrived : Netflow} {latency : BitVec 32}
    (crosses : crossLink sum nf latency port = some arrived) :
    arrived.key.inPort = port ∧ (Grows sum → nf.startTime ≤ arrived.startTime) := by
  rcases Option.map_eq_some_iff.mp crosses with ⟨delayed, delays, rfl⟩
  rcases Option.map_eq_some_iff.mp delays with ⟨time, summed, rfl⟩
  exact ⟨rfl, fun grows => grows summed⟩

end Send

/-! ## New live flows -/

/-- Netflows that start a life of their own, each with the event that sends it. -/
inductive Launches (sum : TimeSum) (start : Nat) :
    EvHandler → List SimEvent → EvHandler → Prop
  | nil (evh : EvHandler) : Launches sum start evh [] evh
  | cons {evh after : EvHandler} {nodeId time : Nat} {port : BitVec 32} {new : Netflow}
      {events : List SimEvent}
      (inTime : Grows sum → start ≤ time ∧ time ≤ new.startTime)
      (rest : Launches sum start (evh.addLiveFlow nodeId new) events after) :
      Launches sum start evh (.flowSend time nodeId evh.nextFlowId port new :: events) after

namespace Launches

variable {sum : TimeSum} {start : Nat} {evh after : EvHandler} {events : List SimEvent}

section

variable (launches : Launches sum start evh events after)

include launches

theorem topo : after.topo = evh.topo := by
  induction launches with
  | nil => rfl
  | cons inTime rest ih => exact ih

theorem execAt : after.execAt = evh.execAt := by
  unfold EvHandler.execAt
  rw [launches.topo]

theorem nextFlowId :
    evh.nextFlowId ≤ after.nextFlowId := by
  induction launches with
  | nil => exact Nat.le_refl _
  | cons inTime rest ih => exact Nat.le_trans (Nat.le_succ _) ih

/-- The live flows there were are still there. -/
theorem findLiveFlow {wanted : Nat} (old : wanted < evh.nextFlowId) :
    after.findLiveFlow wanted = evh.findLiveFlow wanted := by
  induction launches with
  | nil => rfl
  | cons inTime rest ih =>
    rw [ih (Nat.lt_succ_of_lt old), findLiveFlow_addLiveFlow, if_neg (Nat.ne_of_lt old)]

/-- Each event sends one of the new live flows. -/
theorem sends (member : ev ∈ events) :
    ∃ time nodeId flowId port lf new, ev = .flowSend time nodeId flowId port new ∧
      evh.nextFlowId ≤ flowId ∧ flowId < after.nextFlowId ∧
      after.findLiveFlow flowId = some lf ∧ lf.flow = some new ∧
      (Grows sum → start ≤ time ∧ time ≤ new.startTime) := by
  induction launches with
  | nil => cases member
  | @cons evh after nodeId time port new events inTime rest ih =>
    rcases List.mem_cons.mp member with rfl | inRest
    · refine ⟨time, nodeId, evh.nextFlowId, port, ⟨evh.nextFlowId, nodeId, some new⟩, new, rfl,
        Nat.le_refl _, rest.nextFlowId, ?_, rfl, inTime⟩
      rw [rest.findLiveFlow (Nat.lt_succ_self _), findLiveFlow_addLiveFlow, if_pos rfl]
    · rcases ih inRest with ⟨time, nodeId, flowId, port, lf, new, isSend, fresh, found⟩
      exact ⟨time, nodeId, flowId, port, lf, new, isSend, Nat.le_of_succ_le fresh, found⟩

end

end Launches

/-- A netflow is sent on some ports of a node, on each as a live flow of its own. -/
inductive SendRun (sum : TimeSum) (n : Node) (nf : Netflow) :
    List (BitVec 32) → EvHandler → List SimEvent → EvHandler → Prop
  | nil (evh : EvHandler) : SendRun sum n nf [] evh [] evh
  | cons {ports : List (BitVec 32)} {evh after : EvHandler} {time : Nat} {port : BitVec 32}
      {new : Netflow} {events : List SimEvent} (added : nodeAddTxTime sum n port nf = some new)
      (isTime : time = nf.startTime ∨ time = new.startTime)
      (rest : SendRun sum n nf ports (evh.addLiveFlow n.uuid new) events after) :
      SendRun sum n nf (port :: ports) evh
        (.flowSend time n.uuid evh.nextFlowId port new :: events) after

section SendRuns

variable {sum : TimeSum} {ports : List (BitVec 32)} {evh after : EvHandler}
  {events : List SimEvent}

theorem SendRun.launches (run : SendRun sum n nf ports evh events after) :
    Launches sum nf.startTime evh events after := by
  induction run with
  | nil evh => exact .nil evh
  | cons added isTime rest ih =>
    refine .cons (fun grows => ?_) ih
    have later := (nodeAddTxTime_eq added).2 grows
    rcases isTime with rfl | rfl
    · exact ⟨Nat.le_refl _, later⟩
    · exact ⟨later, Nat.le_refl _⟩

theorem startAppLoop_runs (looped : startAppLoop sum node nf ports evh = some (after, events)) :
    SendRun sum node.base { nf with outPorts := [] } ports evh events after := by
  induction ports generalizing evh events with
  | nil =>
    cases looped
    exact .nil _
  | cons port rest ih =>
    rcases bind_map_eq_some_iff.mp looped with ⟨new, ⟨final, tail⟩, added, tailLooped, result⟩
    cases result
    exact .cons added (Or.inr rfl) (ih tailLooped)

/-- The ports that a packet-out is sent on. -/
def PacketOutPort (n : Node) (nf : Netflow) (port : BitVec 32) : Prop :=
  port ≠ ofppFlood ∧
    (port ∈ nf.outPorts ∨ ofppFlood ∈ nf.outPorts ∧ port ∈ floodPorts n nf.key.inPort)

theorem packetOutLoop_runs (looped : packetOutLoop sum dp turns evh nf = some (after, events)) :
    ∃ ports, (∀ port, PacketOutPort dp.base nf port ↔ port ∈ ports) ∧
      SendRun sum dp.base { nf with outPorts := [] } ports evh events after := by
  induction turns generalizing evh nf events with
  | zero => cases looped
  | succ turns ih =>
    rw [packetOutLoop] at looped
    split at looped
    · rename_i noPorts
      cases looped
      exact ⟨[], by simp [PacketOutPort, noPorts], .nil _⟩
    · rename_i port rest isPorts
      dsimp only at looped
      split at looped
      · rename_i isFlood
        rw [dpCreateFlood_eq] at looped
        rcases ih looped with ⟨ports, mem_iff, run⟩
        refine ⟨ports, fun other => Iff.trans ?_ (mem_iff other), run⟩
        simp only [PacketOutPort, isPorts, isFlood, List.mem_append, List.mem_cons]
        tauto
      · rename_i notFlood
        rcases bind_map_eq_some_iff.mp looped with ⟨new, ⟨final, tail⟩, added, tailLooped, result⟩
        cases result
        rcases ih tailLooped with ⟨ports, mem_iff, run⟩
        refine ⟨port :: ports, fun other => ?_, .cons added (Or.inl rfl) run⟩
        simp only [List.mem_cons, ← mem_iff, PacketOutPort, isPorts]
        by_cases isPort : other = port
        · simp [isPort, notFlood]
        · simp [isPort, Ne.symm notFlood]

theorem packetOutLoop_launches (looped : packetOutLoop sum dp turns evh nf = some (after, events)) :
    Launches sum nf.startTime evh events after :=
  match packetOutLoop_runs looped with
  | ⟨_, _, run⟩ => run.launches

end SendRuns

/-! ## Starting applications -/

/-- What `handle_start_app` can do. -/
inductive StartEffect (sum : TimeSum) (evh : EvHandler) (nodeId addr : Nat) :
    EvHandler → List SimEvent → Prop
  | ignored (missing : topologyNode evh.topo nodeId = none) :
      StartEffect sum evh nodeId addr evh []
  | started {node : TopoNode} {exec : Exec} {after : EvHandler} {events : List SimEvent}
      (isExec : evh.execAt nodeId addr = some exec)
      (counted : (evh.setNode node).execAt =
        changeExec evh.execAt nodeId addr (Exec.change (fun execCnt => execCnt - 1) id))
      (launches : Launches sum exec.startTime (evh.setNode node) events after) :
      StartEffect sum evh nodeId addr after events

section Handlers

variable {sum : TimeSum} {find : HashFind Flow} {evh after : EvHandler} {nodeId : Nat}
  {events : List SimEvent} {data : List (BitVec 8)}

theorem Host.execAt_addr {h : Host} {exec : Exec} (isExec : h.execAt addr = some exec) :
    exec.addr = addr := by
  simpa using List.find?_some isExec

/-- An application is started on a host; without the node nothing happens. -/
theorem handleStartApp_cases (done : handleStartApp sum evh nodeId addr = some (after, events)) :
    (topologyNode evh.topo nodeId = none ∧ after = evh ∧ events = []) ∨
      ∃ h exec out next, topologyNode evh.topo nodeId = some (.host h) ∧
        h.execAt addr = some exec ∧ hostExecuteApp h exec = some (out, next) ∧
        (TopoNode.host next).uuid = nodeId ∧
        sendStarted sum evh (.host next) out = some (after, events) := by
  unfold handleStartApp at done
  split at done
  · rename_i missing
    cases done
    exact Or.inl ⟨missing, rfl, rfl⟩
  · rename_i h atNode
    rcases Option.bind_eq_some_iff.mp done with ⟨exec, isExec, rest⟩
    rcases Option.bind_eq_some_iff.mp rest with ⟨⟨out, next⟩, executed, last⟩
    have sameUuid : (TopoNode.host next).uuid = nodeId :=
      (hostExecuteApp_passes isExec executed).1.sameUuid.trans (topologyNode_uuid atNode)
    exact Or.inr ⟨h, exec, out, next, atNode, isExec, executed, sameUuid, last⟩
  · cases done

theorem handleStartApp_effect (done : handleStartApp sum evh nodeId addr = some (after, events)) :
    StartEffect sum evh nodeId addr after events := by
  rcases handleStartApp_cases done with
    ⟨missing, rfl, rfl⟩ | ⟨h, exec, out, next, atNode, isExec, executed, sameUuid, last⟩
  · exact .ignored missing
  · rcases hostExecuteApp_passes isExec executed with ⟨passes, counted⟩
    have found : topologyNode evh.topo (TopoNode.host next).uuid = some (.host h) := by
      rw [sameUuid, atNode]
    rw [Host.execAt_addr isExec] at counted
    have changed := execAt_setNode_change (Exec.change_addr (fun execCnt => execCnt - 1) id)
      found counted
    rw [sameUuid] at changed
    have atAddr : evh.execAt nodeId addr = some exec := by
      rw [EvHandler.execAt, atNode]
      exact isExec
    apply StartEffect.started atAddr changed
    cases out with
    | none =>
      cases last
      exact .nil _
    | some nf =>
      rw [← passes.sameStart nf rfl]
      exact (startAppLoop_runs last).launches

/-! ## Messages -/

theorem topologyDatapathByDpid_node {topo : Topology}
    (found : topologyDatapathByDpid topo dpId = some dp) :
    topologyNode topo dp.base.uuid = some (.datapath dp) := by
  rcases Option.bind_eq_some_iff.mp found with ⟨dn, -, rest⟩
  rcases Option.bind_eq_some_iff.mp rest with ⟨node, atNode, isDp⟩
  cases node with
  | datapath other =>
    cases isDp
    rw [← topologyNode_uuid atNode] at atNode
    exact atNode
  | host h => cases isDp
  | router r => cases isDp

theorem topologyRouterById_node {topo : Topology} {r : Router}
    (found : topologyRouterById topo routerId = some r) :
    topologyNode topo r.ln.base.uuid = some (.router r) := by
  rcases Option.bind_eq_some_iff.mp found with ⟨rn, -, rest⟩
  rcases Option.bind_eq_some_iff.mp rest with ⟨node, atNode, isRouter⟩
  cases node with
  | router other =>
    cases isRouter
    rw [← topologyNode_uuid atNode] at atNode
    exact atNode
  | host h => cases isRouter
  | datapath dp => cases isRouter

theorem dpHandleStatsReq_base {after : Datapath} {reply : List Flow → OfReply}
    {out : Option OfReply} (done : dpHandleStatsReq dp time reply = some (out, after)) :
    (some after).map Datapath.base = (some dp).map Datapath.base := by
  rcases Option.map_eq_some_iff.mp done with ⟨⟨flows, changed⟩, got, result⟩
  cases result
  rcases bind_map_eq_some_iff.mp got with ⟨table, updated, -, isUpdated, result⟩
  cases result
  rcases Option.map_eq_some_iff.mp isUpdated with ⟨table, -, rfl⟩
  rfl

theorem dpHandlePktOut_startTime {bufferId inPort : BitVec 32} {packet : Option DecodedPacket}
    {al : List Action} {out : Netflow}
    (done : dpHandlePktOut bufferId inPort packet al nf time = some out) :
    out.startTime = time := by
  simp only [dpHandlePktOut, executeActionList_eq] at done
  split at done
  · cases done
    rw [applyActions_startTime]
    cases packet <;> rfl
  · cases done

/-- Whether a message is a packet-out. -/
def isPacketOut : OfMessage → Bool
  | .packetOut _ _ _ _ => true
  | _ => false

/-- A message leaves the ports of a datapath alone, and only a packet-out makes a netflow. -/
theorem dpControlHandleControlMsg_keeps {dp after : Option Datapath} {reply : Option OfReply}
    (done : dpControlHandleControlMsg find dp msg netflowNew time = some (reply, nf, after)) :
    (isPacketOut msg ∧ nf.startTime = time ∨ nf = netflowNew) ∧
      after.map Datapath.base = dp.map Datapath.base := by
  unfold dpControlHandleControlMsg at done
  split at done
  case h_1 =>
    rcases Option.map_eq_some_iff.mp done with ⟨out, handled, result⟩
    cases result
    exact ⟨Or.inl ⟨rfl, dpHandlePktOut_startTime handled⟩, rfl⟩
  case h_2 =>
    rcases bind_map_eq_some_iff.mp done with ⟨known, changed, rfl, handled, result⟩
    cases result
    rcases Option.map_eq_some_iff.mp handled with ⟨table, -, rfl⟩
    exact ⟨Or.inr rfl, rfl⟩
  case h_3 =>
    rcases bind_map_eq_some_iff.mp done with ⟨known, stats, rfl, -, result⟩
    cases result
    exact ⟨Or.inr rfl, rfl⟩
  case h_6 =>
    rcases Option.map_eq_some_iff.mp done with ⟨known, rfl, result⟩
    cases result
    exact ⟨Or.inr rfl, rfl⟩
  case h_7 =>
    cases done
    exact ⟨Or.inr rfl, rfl⟩
  all_goals
    rcases bind_map_eq_some_iff.mp done with ⟨known, ⟨stats, changed⟩, rfl, handled, result⟩
    cases result
    exact ⟨Or.inr rfl, dpHandleStatsReq_base handled⟩

theorem dpControlHandleControlMsg_noPacket {dp after : Option Datapath} {reply : Option OfReply}
    (noPacket : isPacketOut msg = false)
    (done : dpControlHandleControlMsg find dp msg netflowNew time = some (reply, nf, after)) :
    nf = netflowNew :=
  (dpControlHandleControlMsg_keeps done).1.resolve_left fun packet => by simp [noPacket] at packet

/-- The simulator between a message to a datapath and the netflows of its packet-out: a
known datapath may have other flow tables. -/
inductive Answering (evh : EvHandler) : EvHandler → Prop
  | unknown : Answering evh evh
  | known {old new : Datapath} (found : topologyNode evh.topo new.base.uuid = some (.datapath old))
      (sameBase : new.base = old.base) : Answering evh (evh.setNode (.datapath new))

/-- A message to a datapath is answered, and the netflow of a packet-out leaves it.  For a
datapath that is not known there is nothing to send. -/
theorem handleOfIn_cases
    (done : handleOfIn sum find evh time dpId msg = some (after, inserted)) :
    ∃ reply nf dp events,
      dpControlHandleControlMsg find (topologyDatapathByDpid evh.topo dpId) msg netflowNew time =
        some (reply, nf, dp) ∧
      inserted = events ++ (dp.bind (replyEvent time reply)).toList ∧
      ((dp = none ∧ after = evh ∧ events = []) ∨ ∃ known, dp = some known ∧
        packetOutLoop sum known (nf.outPorts.length * (known.base.ports.length + 1) + 1)
          (evh.setNode (.datapath known)) nf = some (after, events)) := by
  rcases Option.bind_eq_some_iff.mp done with ⟨⟨reply, nf, dp⟩, handled, rest⟩
  rcases Option.map_eq_some_iff.mp rest with ⟨⟨final, events⟩, sent, result⟩
  cases result
  refine ⟨reply, nf, dp, events, handled, rfl, ?_⟩
  cases dp with
  | none =>
    simp only [sendPacketOut] at sent
    split at sent
    · cases sent
      exact Or.inl ⟨rfl, rfl, rfl⟩
    · cases sent
  | some known => exact Or.inr ⟨known, rfl, sent⟩

/-- A packet-out has no reply. -/
theorem handlePacketOut_cases {bufferId inPort : BitVec 32} {packet : Option DecodedPacket}
    {al : List Action}
    (done : handleOfIn sum find evh time dpId (.packetOut bufferId inPort packet al) =
      some (after, inserted)) :
    (topologyDatapathByDpid evh.topo dpId = none ∧ after = evh ∧ inserted = []) ∨
      ∃ dp nf, topologyDatapathByDpid evh.topo dpId = some dp ∧
        dpHandlePktOut bufferId inPort packet al netflowNew time = some nf ∧
        packetOutLoop sum dp (nf.outPorts.length * (dp.base.ports.length + 1) + 1)
          (evh.setNode (.datapath dp)) nf = some (after, inserted) := by
  rcases handleOfIn_cases done with ⟨reply, nf, dp, events, handled, isInserted, sends⟩
  rcases Option.map_eq_some_iff.mp handled with ⟨out, isOut, result⟩
  simp only [Prod.mk.injEq] at result
  rcases result with ⟨rfl, rfl, atDp⟩
  rcases sends with ⟨rfl, rfl, rfl⟩ | ⟨known, rfl, sent⟩
  · exact Or.inl ⟨atDp, rfl, isInserted⟩
  · have noReply : (Option.bind (some known) (replyEvent time none)).toList = [] := rfl
    rw [noReply, List.append_nil] at isInserted
    rw [isInserted]
    exact Or.inr ⟨known, out, atDp, isOut, sent⟩

/-- What `handle_of_in` does: the netflows of a packet-out are launched, and a reply
is sent. -/
theorem handleOfIn_launches
    (done : handleOfIn sum find evh time dpId msg = some (after, inserted)) :
    ∃ middle events replies, inserted = events ++ replies ∧ Answering evh middle ∧
      Launches sum time middle events after ∧
      ∀ ev ∈ replies, ∃ dpId msg, ev = .ofMsgOut time dpId msg := by
  rcases handleOfIn_cases done with ⟨reply, nf, dp, events, handled, rfl, sends⟩
  rcases dpControlHandleControlMsg_keeps handled with ⟨made, sameBase⟩
  have isReply : ∀ ev ∈ (dp.bind (replyEvent time reply)).toList,
      ∃ dpId msg, ev = SimEvent.ofMsgOut time dpId msg := by
    intro ev member
    rcases Option.bind_eq_some_iff.mp (Option.mem_toList.mp member) with ⟨known, -, packed⟩
    rcases Option.map_eq_some_iff.mp packed with ⟨msg, -, rfl⟩
    exact ⟨known.dpId, msg, rfl⟩
  rcases sends with ⟨rfl, rfl, rfl⟩ | ⟨changed, rfl, sent⟩
  · exact ⟨_, [], _, rfl, .unknown, .nil _, isReply⟩
  · rcases Option.map_eq_some_iff.mp sameBase.symm with ⟨known, isKnown, bases⟩
    have found : topologyNode evh.topo changed.base.uuid = some (.datapath known) := by
      rw [← bases]
      exact topologyDatapathByDpid_node isKnown
    refine ⟨evh.setNode (.datapath changed), events, _, rfl, .known found bases.symm, ?_, isReply⟩
    rcases made with ⟨-, sameStart⟩ | rfl
    · rw [← sameStart]
      exact packetOutLoop_launches sent
    · cases sent
      exact .nil _

theorem handleOfIn_effect
    (done : handleOfIn sum find evh time dpId msg = some (after, inserted)) :
    ∃ middle events replies, inserted = events ++ replies ∧ SameFlows middle evh ∧
      Launches sum time middle events after ∧
      ∀ ev ∈ replies, ∃ dpId msg, ev = .ofMsgOut time dpId msg := by
  rcases handleOfIn_launches done with ⟨middle, events, replies, split, answering, sent⟩
  refine ⟨middle, events, replies, split, ?_, sent⟩
  cases answering with
  | unknown => exact .refl evh
  | known found sameBase => exact .setNode found rfl

/-- A message to a router changes the routes of a known one. -/
theorem handleRouterIn_cases (done : handleRouterIn evh routerId data = some after) :
    after = evh ∨ ∃ r changed, topologyNode evh.topo (TopoNode.router changed).uuid =
        some (.router r) ∧ routerHandleControlMessage r data = some changed ∧
      after = evh.setNode (.router changed) := by
  unfold handleRouterIn at done
  split at done
  · cases done
    exact Or.inl rfl
  · rename_i r isRouter
    rcases Option.map_eq_some_iff.mp done with ⟨changed, handled, rfl⟩
    have found : topologyNode evh.topo (TopoNode.router changed).uuid = some (.router r) := by
      rw [TopoNode.uuid, TopoNode.base, (routerHandleControlMessage_keeps handled).1]
      exact topologyRouterById_node isRouter
    exact Or.inr ⟨r, changed, found, handled, rfl⟩

theorem handleRouterIn_effect (done : handleRouterIn evh routerId data = some after) :
    SameFlows after evh := by
  rcases handleRouterIn_cases done with rfl | ⟨r, changed, found, -, rfl⟩
  · exact .refl _
  · exact .setNode found rfl

end Handlers

end Horse.Sim
