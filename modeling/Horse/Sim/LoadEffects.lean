import Horse.Sim.PortLoad

/-!
# What the handlers do to the load of ports

For each handler: what it does to the loads and to the rates of live flows, and from
that exactly when it keeps the load of every port equal to the sum over its pending
sends.
-/

namespace Horse.Sim

open Horse.Container Horse.Lib Horse.Net Horse.Transition

/-! ## Receiving -/

section Receive

variable {sum : TimeSum} {flowId turns : Nat} {node : TopoNode} {nf : Netflow} {out : Forwarded}
  {after : TopoNode} {delayed : Netflow} {port : BitVec 32}

theorem chargePort_loads (charged : chargePort sum node nf port = some (after, delayed)) :
    ∀ other, nodeLoad after.base other =
      if other = port then (nodeLoad node.base port).map fun load => max 0 (load + flowRate nf)
      else nodeLoad node.base other := by
  obtain ⟨n, delayed, updated, -, result⟩ := bind_map_eq_some_iff.mp charged
  cases result
  rw [TopoNode.base_setBase]
  exact nodeLoad_updatePortCapacity updated

/-- Where no load is negative, that of the port is raised by the rate. -/
theorem chargePort_raises (charged : chargePort sum node nf port = some (after, delayed))
    (nonneg : ∀ port load, nodeLoad node.base port = some load → 0 ≤ load) (other : BitVec 32) :
    nodeLoad after.base other = (nodeLoad node.base other).map fun load =>
      load + if port = other then flowRate nf else 0 := by
  rw [chargePort_loads charged other]
  by_cases isPort : port = other
  · subst isPort
    cases isLoad : nodeLoad node.base port with
    | none => simp
    | some load =>
      have sumNonneg := Int.add_nonneg (nonneg port load isLoad) (flowRate_nonneg nf)
      simpa using Int.max_eq_right sumNonneg
  · simp [isPort, Ne.symm isPort]

/-- The loop over the output ports raises the load of every port by the rate of the
netflow for every send that it makes. -/
theorem LoopRun.loads {rate : Int} (run : LoopRun sum flowId node nf out)
    (isRate : flowRate nf = rate)
    (nonneg : ∀ port load, nodeLoad node.base port = some load → 0 ≤ load) :
    flowRate out.nf = rate ∧ ∀ port, nodeLoad out.node.base port =
      (nodeLoad node.base port).map fun load =>
        load + pendingLoad (fun _ => rate) out.events node.uuid port := by
  induction run with
  | done ports => simp [pendingLoad, isRate]
  | controller ports later ih =>
    simpa [Forwarded.cons, pendingLoad_cons, sendRate] using ih isRate nonneg
  | flood ports later ih => exact ih isRate nonneg
  | @send node next nf port rest time tail ports notController notFlood charged later ih =>
    have sameUuid := (chargePort_keeps charged).1
    have raises := chargePort_raises charged nonneg
    have chargedRate : flowRate { nf with outPorts := rest } = rate := isRate
    rw [chargedRate] at raises
    have rateNonneg : 0 ≤ rate := isRate ▸ flowRate_nonneg nf
    have stillNonneg : ∀ port load, nodeLoad next.base port = some load → 0 ≤ load := by
      intro other load isLoad
      rw [raises] at isLoad
      obtain ⟨old, isOld, rfl⟩ := Option.map_eq_some_iff.mp isLoad
      have oldNonneg := nonneg other old isOld
      split <;> omega
    obtain ⟨tailRate, loads⟩ := ih isRate stillNonneg
    refine ⟨tailRate, ?_⟩
    intro other
    simp only [Forwarded.cons, pendingLoad_cons, loads, raises, Option.map_map, sendRate,
      sameUuid, true_and, Function.comp_def, Int.add_assoc]

end Receive

section Handlers

variable {sim : SimState} {after : EvHandler} {inserted : List SimEvent} {ev : SimEvent}

/-- The simulator after an event was handled. -/
def SimState.handled (sim : SimState) (ev : SimEvent) (after : EvHandler)
    (inserted : List SimEvent) : SimState :=
  ⟨after, insertAll { sim.sch with evQueue := sim.sch.evQueue.erase ev } inserted⟩

theorem bind_flow {evh : EvHandler} {flowId : Nat} {lf : LiveFlow} {nf : Netflow}
    (live : evh.findLiveFlow flowId = some lf) (isFlow : lf.flow = some nf) :
    (evh.findLiveFlow flowId).bind LiveFlow.flow = some nf := by
  rw [live]
  exact isFlow

/-- The sums after an event was taken from the queue and others were inserted. -/
theorem pendingLoad_handled (rates : Nat → Int) (uuid : Nat) (port : BitVec 32) :
    pendingLoad rates (sim.handled ev after inserted).sch.evQueue uuid port =
      pendingLoad rates (sim.sch.evQueue.erase ev) uuid port +
        pendingLoad rates inserted uuid port := by
  rw [SimState.handled, pendingLoad_perm (insertAll_perm _ _), pendingLoad_append, Int.add_comm]

/-- Where the loads and the sums change by the same amount up to a drift, they stay equal
if and only if there is no drift at any port. -/
theorem balanced_iff_drift (balanced : Balanced sim) (change drift : Nat → BitVec 32 → Int)
    (loads : ∀ uuid port, after.loadAt uuid port =
      (sim.evh.loadAt uuid port).map fun load => load + change uuid port)
    (sums : ∀ uuid port, pendingLoad after.rateOf (sim.sch.evQueue.erase ev) uuid port +
        pendingLoad after.rateOf inserted uuid port =
      pendingLoad sim.evh.rateOf sim.sch.evQueue uuid port + change uuid port +
        drift uuid port) :
    Balanced (sim.handled ev after inserted) ↔
      ∀ uuid port, (sim.evh.loadAt uuid port).isSome → drift uuid port = 0 := by
  have total (uuid : Nat) (port : BitVec 32) :=
    (@pendingLoad_handled sim after inserted ev after.rateOf uuid port).trans (sums uuid port)
  constructor
  · intro balancedAfter uuid port exists_
    obtain ⟨load, isLoad⟩ := Option.isSome_iff_exists.mp exists_
    have before := balanced uuid port load isLoad
    have later := balancedAfter uuid port (load + change uuid port)
      ((loads uuid port).trans (by rw [isLoad]; rfl))
    have isSum := total uuid port
    change load + change uuid port = pendingLoad after.rateOf _ uuid port at later
    omega
  · intro noDrift uuid port load isLoad
    obtain ⟨old, before, rfl⟩ := Option.map_eq_some_iff.mp ((loads uuid port).symm.trans isLoad)
    refine Eq.trans ?_ (total uuid port).symm
    rw [← balanced uuid port old before, noDrift uuid port (by rw [before]; rfl), Int.add_zero]

variable {find : HashFind Flow} {time nodeId flowId uuid : Nat} {nf flow : Netflow} {sum : TimeSum}
  {evh : EvHandler} {node next : TopoNode} {events : List SimEvent} {rate : Int}
  {outPort : BitVec 32}

/-- An event that sends nothing has no part in the sums. -/
theorem pendingLoad_erase_of_noSend {rates : Nat → Int} {port : BitVec 32}
    (pending : ev ∈ sim.sch.evQueue) (noSend : sendRate rates uuid port ev = 0) :
    pendingLoad rates (sim.sch.evQueue.erase ev) uuid port =
      pendingLoad rates sim.sch.evQueue uuid port := by
  rw [pendingLoad_erase pending, noSend, Int.zero_add]

/-- No drift comes from the changed rate of a live flow if and only if no pending event
sends it on a port, or the rate did not change. -/
theorem noDrift_iff (evh : EvHandler) (queue : List SimEvent) (flowId : Nat) (old new : Int) :
    (∀ uuid port, (evh.loadAt uuid port).isSome →
        sendCount queue flowId uuid port * (new - old) = 0) ↔
      (SendsOnPort evh queue flowId → old = new) := by
  constructor
  · rintro noDrift ⟨time, uuid, port, flow, pending, exists_⟩
    have zero := noDrift uuid port exists_
    have counted : sendCount queue flowId uuid port ≠ 0 :=
      (sendCount_ne_zero_iff flowId).mpr ⟨time, flow, pending⟩
    have same := (Int.mul_eq_zero.mp zero).resolve_left counted
    omega
  · intro same uuid port exists_
    by_cases counted : sendCount queue flowId uuid port = 0
    · rw [counted, Int.zero_mul]
    · obtain ⟨time, flow, pending⟩ := (sendCount_ne_zero_iff flowId).mp counted
      rw [same ⟨time, uuid, port, flow, pending, exists_⟩, Int.sub_self, Int.mul_zero]

theorem Balanced.load_nonneg (balanced : Balanced sim) {port : BitVec 32} {load : Int}
    (isLoad : sim.evh.loadAt uuid port = some load) : 0 ≤ load := by
  rw [balanced uuid port load isLoad]
  exact pendingLoad_nonneg (rateOf_nonneg sim.evh)

theorem keepsLoad_recv_iff {out : Option Netflow}
    (atNode : topologyNode sim.evh.topo nodeId = some node)
    (found : (sim.evh.findLiveFlow flowId).bind LiveFlow.flow = some nf)
    (received : node.recvNetflow find nf = some (out, next)) :
    KeepsLoad sim (.handle find (.flowRecv time nodeId flowId rate flow)) ↔
      (SendsOnPort sim.evh sim.sch.evQueue flowId →
        sim.evh.rateOf flowId = (out.map flowRate).getD 0) := by
  rw [rateOf_eq found]
  constructor
  · intro keeps
    exact keeps node nf out next atNode found received
  · intro same node' nf' out' next' atNode' found' received'
    cases atNode.symm.trans atNode'
    cases found.symm.trans found'
    cases received.symm.trans received'
    exact same

variable {out : Forwarded} {turns start dpId : Nat} {onPort : BitVec 32 → Prop} {n : Node}
  {dp : Option Datapath} {msg : OfMessage} {reply : Option OfReply}

/-- The rate and the loads after a netflow was forwarded. -/
theorem forwarded_loads {returned : Netflow} (balanced : Balanced sim)
    (atNode : topologyNode sim.evh.topo nodeId = some node)
    (received : node.recvNetflow find nf = some (some returned, next))
    (looped : handleAfterFlowRecv wrappingSum next returned flowId = some out) :
    flowRate out.nf = flowRate returned ∧ ∀ uuid port,
      (sim.evh.setNode out.node).loadAt uuid port =
        (sim.evh.loadAt uuid port).map fun load =>
          load + pendingLoad (fun _ => flowRate returned) out.events uuid port := by
  have keeps := TopoNode.recvNetflow_keepsPorts received
  have effect := (outPortLoop_runs looped).effect
  have sameUuid : next.uuid = nodeId := keeps.sameUuid.trans (topologyNode_uuid atNode)
  have outUuid : out.node.uuid = nodeId := effect.sameUuid.trans sameUuid
  have nonneg : ∀ port load, nodeLoad next.base port = some load → 0 ≤ load := by
    intro port load isLoad
    rw [KeepsPorts.nodeLoad keeps] at isLoad
    apply @Balanced.load_nonneg sim nodeId balanced port
    simp [EvHandler.loadAt, atNode, isLoad]
  obtain ⟨sameRate, loads⟩ := (outPortLoop_runs looped).loads rfl nonneg
  refine ⟨sameRate, ?_⟩
  intro uuid port
  rw [loadAt_setNode (by rw [outUuid]; exact atNode), outUuid]
  split
  · rename_i isNode
    rw [loads, KeepsPorts.nodeLoad keeps, isNode, sameUuid]
    simp [EvHandler.loadAt, atNode]
  · rename_i otherNode
    have noSend : pendingLoad (fun _ => flowRate returned) out.events uuid port = 0 := by
      apply pendingLoad_of_noSend
      intro ev member
      cases effect.events ev member with
      | send time other flow =>
        have otherUuid : next.uuid ≠ uuid := fun same => otherNode (same.symm.trans sameUuid)
        simp [sendRate, otherUuid]
      | packetIn => rfl
    simp [noSend]

/-- The sends of the loop over the output ports are all of one live flow. -/
theorem pendingLoad_forwarded (looped : outPortLoop sum flowId turns node nf = some out)
    (rates : Nat → Int) (rate : Int) (uuid : Nat) (port : BitVec 32) :
    pendingLoad (Function.update rates flowId rate) out.events uuid port =
      pendingLoad (fun _ => rate) out.events uuid port := by
  apply pendingLoad_congr
  intro ev member wanted isWanted
  cases (outPortLoop_runs looped).effect.events ev member with
  | send time port flow =>
    cases isWanted
    exact Function.update_self _ _ _
  | packetIn => cases isWanted

section

variable (balanced : Balanced sim) (pending : ev ∈ sim.sch.evQueue)
  (noSend : ∀ rates uuid port, sendRate rates uuid port ev = 0)
  (sameLoads : after.loadAt = sim.evh.loadAt)

include balanced pending noSend sameLoads

/-- Events that launch new live flows keep the balance if and only if these add nothing to
the load of any port. -/
theorem launched_balanced_iff
    (older : ∀ other ∈ sim.sch.evQueue, ∀ flowId, other.flowId? = some flowId →
      after.rateOf flowId = sim.evh.rateOf flowId) :
    Balanced (sim.handled ev after inserted) ↔
      ∀ uuid port, (sim.evh.loadAt uuid port).isSome →
        pendingLoad after.rateOf inserted uuid port = 0 := by
  apply balanced_iff_drift balanced (fun _ _ => 0)
  · intro uuid port
    simp [sameLoads]
  · intro uuid port
    rw [pendingLoad_erase_of_noSend pending (noSend _ _ _),
      pendingLoad_congr older, Int.add_zero]

/-- Nothing is sent. -/
theorem quiet_balanced (sameRates : after.rateOf = sim.evh.rateOf)
    (quiet : ∀ new ∈ inserted, ∀ rates uuid port, sendRate rates uuid port new = 0) :
    Balanced (sim.handled ev after inserted) := by
  rw [launched_balanced_iff balanced pending noSend sameLoads
    fun other _ flowId _ => congrFun sameRates flowId]
  intro uuid port _
  exact pendingLoad_of_noSend fun new member => quiet new member _ uuid port

end

/-- A received netflow keeps the balance unless its rate changes while it waits to be sent
elsewhere. -/
theorem recv_balanced_iff (balanced : Balanced sim)
    (pending : .flowRecv time nodeId flowId rate flow ∈ sim.sch.evQueue)
    (effect : RecvEffect wrappingSum find sim.evh nodeId flowId after inserted) :
    Balanced (sim.handled (.flowRecv time nodeId flowId rate flow) after inserted) ↔
      KeepsLoad sim (.handle find (.flowRecv time nodeId flowId rate flow)) := by
  have kept (rates : Nat → Int) (uuid : Nat) (port : BitVec 32) :=
    @pendingLoad_erase_of_noSend sim _ uuid rates port pending rfl
  cases effect with
  | ignored missing =>
    refine iff_of_true (quiet_balanced balanced pending (fun _ _ _ => rfl) rfl rfl
      (List.forall_mem_nil _)) ?_
    intro node nf out next atNode isFlow
    rcases missing with noNode | noFlow
    · cases noNode.symm.trans atNode
    · simp [noFlow] at isFlow
  | @dropped node next lf nf atNode live isFlow received same =>
    have loads := loadAt_setNode_keeps sim.evh atNode
      (TopoNode.recvNetflow_keepsPorts received)
    rw [keepsLoad_recv_iff atNode (bind_flow live isFlow) received, ← noDrift_iff]
    apply balanced_iff_drift balanced (fun _ _ => 0)
    · intro uuid port
      refine (congrFun (congrFun loads uuid) port).trans ?_
      simp
    · intro uuid port
      rw [kept, rateOf_delLiveFlow, pendingLoad_update]
      simp [pendingLoad]
      rfl
  | @forwarded node next lf nf returned out atNode live isFlow received looped same =>
    obtain ⟨sameRate, loads⟩ := forwarded_loads balanced atNode received looped
    rw [keepsLoad_recv_iff atNode (bind_flow live isFlow) received, ← noDrift_iff]
    apply balanced_iff_drift balanced
      (fun uuid port => pendingLoad (fun _ => flowRate returned) out.events uuid port)
    · exact loads
    · intro uuid port
      have rates : ((sim.evh.setNode out.node).setFlow flowId (some out.nf)).rateOf =
          Function.update sim.evh.rateOf flowId (flowRate returned) := by
        rw [← sameRate]
        exact rateOf_setFlow (sim.evh.setNode out.node) live (some out.nf)
      rw [kept, rates, pendingLoad_update, pendingLoad_forwarded looped]
      simp only [Option.map_some, Option.getD_some]
      omega

/-! ### Sending -/

/-- What `handle_send_netflow` does to the loads and rates: the load of the port is lowered
by the rate of the netflow, and a netflow that is freed has no rate any more. -/
structure SendLoads (evh after : EvHandler) (inserted : List SimEvent) (nodeId flowId : Nat)
    (outPort : BitVec 32) (kept : Int) : Prop where
  loads : ∀ uuid port, after.loadAt uuid port =
    if uuid = nodeId ∧ port = outPort then
      (evh.loadAt uuid port).map fun load => max 0 (load - evh.rateOf flowId)
    else evh.loadAt uuid port
  rates : after.rateOf = Function.update evh.rateOf flowId kept
  noSend : ∀ ev ∈ inserted, ∀ rates uuid port, sendRate rates uuid port ev = 0

theorem Sent.loadAt (sent : Sent outPort node nf next)
    (atNode : topologyNode evh.topo nodeId = some node)
    (found : (evh.findLiveFlow flowId).bind LiveFlow.flow = some nf) (uuid : Nat)
    (port : BitVec 32) :
    (evh.setNode next).loadAt uuid port =
      if uuid = nodeId ∧ port = outPort then
        (evh.loadAt uuid port).map fun load => max 0 (load - evh.rateOf flowId)
      else evh.loadAt uuid port := by
  have sameUuid := sent.uuid atNode
  obtain ⟨n, updated, keeps⟩ := sent.lowered
  rw [loadAt_setNode (by rw [sameUuid]; exact atNode), sameUuid, KeepsPorts.nodeLoad keeps,
    nodeLoad_updatePortCapacity updated, rateOf_eq found]
  by_cases isNode : uuid = nodeId
  · by_cases isPort : port = outPort
    · simp [isNode, isPort, EvHandler.loadAt, atNode, Int.sub_eq_add_neg]
    · simp [isNode, isPort, EvHandler.loadAt, atNode]
  · simp [isNode]

theorem Restarts.sendNothing {started : List SimEvent}
    (restarts : Restarts sum evh nodeId node nf next started) :
    ∀ ev ∈ started, ∀ rates uuid port, sendRate rates uuid port ev = 0 := by
  intro ev member rates uuid port
  obtain ⟨time, other, addr, rfl⟩ := restarts_isStart restarts ev member
  rfl

theorem SendLoads.balanced_iff {kept : Int} (balanced : Balanced sim)
    (pending : .flowSend time nodeId flowId outPort flow ∈ sim.sch.evQueue)
    (sends : SendLoads sim.evh after inserted nodeId flowId outPort kept) :
    Balanced (sim.handled (.flowSend time nodeId flowId outPort flow) after inserted) ↔
      (SendsOnPort sim.evh (sim.sch.evQueue.erase (.flowSend time nodeId flowId outPort flow))
        flowId → sim.evh.rateOf flowId = kept) := by
  rw [← noDrift_iff]
  apply balanced_iff_drift balanced (fun uuid port =>
    -sendRate sim.evh.rateOf uuid port (.flowSend time nodeId flowId outPort flow))
  · intro uuid port
    have loads := sends.loads uuid port
    have share := @pendingLoad_erase sim.evh.rateOf _ uuid port _ pending
    have others := @pendingLoad_nonneg sim.evh.rateOf
      (sim.sch.evQueue.erase (.flowSend time nodeId flowId outPort flow)) uuid port
      (rateOf_nonneg sim.evh)
    -- the load holds the share of the event, so that nothing is cut off at 0
    refine loads.trans ?_
    by_cases onPort : uuid = nodeId ∧ port = outPort
    · obtain ⟨rfl, rfl⟩ := onPort
      simp only [sendRate, and_self, if_true] at share ⊢
      apply Option.map_congr
      intro load isLoad
      rw [← balanced uuid port load isLoad] at share
      omega
    · have elsewhere : ¬(nodeId = uuid ∧ outPort = port) :=
        fun same => onPort ⟨same.1.symm, same.2.symm⟩
      simp [sendRate, onPort, elsewhere]
  · intro uuid port
    rw [sends.rates, pendingLoad_update,
      pendingLoad_of_noSend (fun ev member => sends.noSend ev member _ uuid port),
      pendingLoad_erase pending]
    omega

theorem keepsLoad_send_iff (atNode : topologyNode sim.evh.topo nodeId = some node)
    (found : (sim.evh.findLiveFlow flowId).bind LiveFlow.flow = some nf) :
    KeepsLoad sim (.handle find (.flowSend time nodeId flowId outPort flow)) ↔
      (nodeCalculatePortLoss node.base outPort = 0 →
        topologyNextHop sim.evh.topo nodeId outPort = none →
        SendsOnPort sim.evh (sim.sch.evQueue.erase (.flowSend time nodeId flowId outPort flow))
          flowId → sim.evh.rateOf flowId = 0) := by
  rw [rateOf_eq found]
  constructor
  · intro keeps
    exact keeps node nf atNode found
  · intro same node' nf' atNode' found'
    cases atNode.symm.trans atNode'
    cases found.symm.trans found'
    exact same

/-- A sent netflow keeps the balance unless it is freed while it waits to be sent
elsewhere. -/
theorem send_balanced_iff (balanced : Balanced sim)
    (pending : .flowSend time nodeId flowId outPort flow ∈ sim.sch.evQueue)
    (effect : SendEffect wrappingSum sim.evh nodeId flowId outPort after inserted) :
    Balanced (sim.handled (.flowSend time nodeId flowId outPort flow) after inserted) ↔
      KeepsLoad sim (.handle find (.flowSend time nodeId flowId outPort flow)) := by
  cases effect with
  | ignored missing =>
    apply iff_of_true
    · intro uuid port load isLoad
      have noShare : sendRate sim.evh.rateOf uuid port
          (.flowSend time nodeId flowId outPort flow) = 0 := by
        simp only [sendRate, ite_eq_right_iff]
        rintro ⟨rfl, -⟩
        rcases missing with noNode | noFlow
        · change (topologyNode sim.evh.topo nodeId).bind _ = some load at isLoad
          simp [noNode] at isLoad
        · simp [EvHandler.rateOf, noFlow]
      rw [pendingLoad_handled]
      change load = pendingLoad sim.evh.rateOf _ uuid port + 0
      rw [pendingLoad_erase_of_noSend pending noShare, Int.add_zero]
      exact balanced uuid port load isLoad
    · intro node nf atNode found
      rcases missing with noNode | noFlow
      · cases noNode.symm.trans atNode
      · simp [noFlow] at found
  | lost atNode live isFlow sent loss same =>
    have found := bind_flow live isFlow
    have sends : SendLoads sim.evh _ [] nodeId flowId outPort (sim.evh.rateOf flowId) :=
      ⟨sent.loadAt atNode found, (Function.update_eq_self flowId _).symm, List.forall_mem_nil _⟩
    rw [sends.balanced_iff balanced pending, keepsLoad_send_iff atNode found]
    exact iff_of_true (fun _ => rfl) fun noLoss => absurd noLoss loss
  | @freed node next lf nf started atNode live isFlow sent noLoss restarts unlinked =>
    have found := bind_flow live isFlow
    have sends : SendLoads sim.evh ((sim.evh.setNode next).setFlow flowId none) inserted nodeId
        flowId outPort 0 :=
      ⟨sent.loadAt atNode found, rateOf_setFlow (sim.evh.setNode next) live none,
        restarts.sendNothing⟩
    rw [sends.balanced_iff balanced pending, keepsLoad_send_iff atNode found]
    simp [noLoss, unlinked]
  | @crossed node next lf nf arrived started dst latency atNode live isFlow sent noLoss restarts
      linked crosses =>
      have found := bind_flow live isFlow
      have sends : SendLoads sim.evh ((sim.evh.setNode next).setFlow flowId (some arrived))
          (started ++ [.flowRecv arrived.startTime dst.uuid flowId (flowRate arrived) arrived])
          nodeId flowId outPort (sim.evh.rateOf flowId) := by
        refine ⟨sent.loadAt atNode found, ?_, ?_⟩
        · have sameRate : flowRate arrived = flowRate nf := by
            obtain ⟨delayed, delays, rfl⟩ := Option.map_eq_some_iff.mp crosses
            obtain ⟨time, -, rfl⟩ := Option.map_eq_some_iff.mp delays
            rfl
          rw [rateOf_eq found, ← sameRate]
          exact rateOf_setFlow (sim.evh.setNode next) live (some arrived)
        · exact List.forall_mem_append.mpr ⟨restarts.sendNothing, by simp [sendRate]⟩
      rw [sends.balanced_iff balanced pending, keepsLoad_send_iff atNode found]
      exact iff_of_true (fun _ => rfl) fun _ unlinked =>
        absurd (linked.symm.trans unlinked) (Option.some_ne_none _)

/-! ### New live flows -/

/-- The events send new live flows of one rate, at least one on each of some ports. -/
structure SentOn (after : EvHandler) (uuid : Nat) (rate : Int) (onPort : BitVec 32 → Prop)
    (events : List SimEvent) : Prop where
  each : ∀ ev ∈ events, ∃ time flowId port flow, ev = .flowSend time uuid flowId port flow ∧
    onPort port ∧ after.rateOf flowId = rate
  every : ∀ port, onPort port → ∃ time flowId flow,
    .flowSend time uuid flowId port flow ∈ events

/-- New sends leave the sum for a port alone if and only if none is on it, or they have no
rate. -/
theorem SentOn.pendingLoad_eq_zero_iff (sent : SentOn after uuid rate onPort events) (other : Nat)
    (port : BitVec 32) :
    pendingLoad after.rateOf events other port = 0 ↔ (other = uuid → onPort port → rate = 0) := by
  rw [Sim.pendingLoad_eq_zero_iff (rateOf_nonneg after)]
  constructor
  · rintro allZero rfl isPort
    obtain ⟨time, flowId, flow, member⟩ := sent.every port isPort
    obtain ⟨_, _, _, _, isSend, -, isRate⟩ := sent.each _ member
    cases isSend
    have zero := allZero _ member
    simpa [sendRate, isRate] using zero
  · intro noRate ev member
    obtain ⟨time, flowId, sentPort, flow, rfl, isPort, isRate⟩ := sent.each ev member
    simp only [sendRate]
    split
    · rename_i onIt
      obtain ⟨rfl, rfl⟩ := onIt
      rw [isRate]
      exact noRate rfl isPort
    · rfl

theorem SentOn.congr {other : BitVec 32 → Prop} (sent : SentOn after uuid rate onPort events)
    (same : ∀ port, other port ↔ onPort port) :
    SentOn after uuid rate other events := by
  have equal : other = onPort := funext fun port => propext (same port)
  rw [equal]
  exact sent

theorem flowRate_addTxTime {port : BitVec 32} {new : Netflow}
    (added : nodeAddTxTime sum n port nf = some new) : flowRate new = flowRate nf := by
  rw [(nodeAddTxTime_eq added).1]
  rfl

theorem SendRun.sentOn {ports : List (BitVec 32)} (run : SendRun sum n nf ports evh events after) :
    SentOn after n.uuid (flowRate nf) (· ∈ ports) events := by
  induction run with
  | nil evh => exact ⟨List.forall_mem_nil _, fun _ member => absurd member List.not_mem_nil⟩
  | @cons ports evh after time port new events added isTime rest ih =>
    constructor
    · intro ev member
      rcases List.mem_cons.mp member with rfl | inRest
      · refine ⟨time, evh.nextFlowId, port, new, rfl, List.mem_cons_self, ?_⟩
        have found : after.findLiveFlow evh.nextFlowId = _ :=
          rest.launches.findLiveFlow (Nat.lt_succ_self _)
        rw [findLiveFlow_addLiveFlow, if_pos rfl] at found
        rw [← flowRate_addTxTime added]
        exact rateOf_eq (by rw [found]; rfl)
      · obtain ⟨time, flowId, sentPort, flow, isSend, isPort, sameRate⟩ := ih.each ev inRest
        exact ⟨time, flowId, sentPort, flow, isSend, List.mem_cons_of_mem _ isPort, sameRate⟩
    · intro other isPort
      rcases List.mem_cons.mp isPort with rfl | inRest
      · exact ⟨time, evh.nextFlowId, new, List.mem_cons_self⟩
      · obtain ⟨time, flowId, flow, member⟩ := ih.every other inRest
        exact ⟨time, flowId, flow, List.mem_cons_of_mem _ member⟩

theorem packetOutLoop_sentOn {dp : Datapath}
    (looped : packetOutLoop sum dp turns evh nf = some (after, events)) :
    SentOn after dp.base.uuid (flowRate nf) (PacketOutPort dp.base nf) events := by
  obtain ⟨ports, mem_iff, run⟩ := packetOutLoop_runs looped
  exact run.sentOn.congr mem_iff

/-- Live flows that were there keep their rates. -/
theorem Launches.rateOf (launches : Launches sum start evh events after)
    (old : flowId < evh.nextFlowId) : after.rateOf flowId = evh.rateOf flowId := by
  unfold EvHandler.rateOf
  rw [launches.findLiveFlow old]

theorem Launches.loadAt (launches : Launches sum start evh events after) :
    after.loadAt = evh.loadAt := by
  unfold EvHandler.loadAt
  rw [launches.topo]

/-- An event is about a live flow that was made before. -/
def Known (evh : EvHandler) (ev : SimEvent) : Prop :=
  ∀ flowId, ev.flowId? = some flowId → flowId < evh.nextFlowId

/-- An application keeps the balance unless its netflow has a rate and is sent. -/
theorem start_balanced_iff {addr : Nat} (balanced : Balanced sim) (known : EachPending Known sim)
    (pending : .appStart time nodeId addr ∈ sim.sch.evQueue)
    (done : handleStartApp wrappingSum sim.evh nodeId addr = some (after, inserted)) :
    Balanced (sim.handled (.appStart time nodeId addr) after inserted) ↔
      KeepsLoad sim (.handle find (.appStart time nodeId addr)) := by
  have noSend : ∀ rates uuid port, sendRate rates uuid port (.appStart time nodeId addr) = 0 :=
    fun _ _ _ => rfl
  rcases handleStartApp_cases done with
    ⟨missing, rfl, rfl⟩ | ⟨h, exec, out, next, atNode, isExec, executed, sameUuid, last⟩
  · apply iff_of_true
    · exact quiet_balanced balanced pending noSend rfl rfl (List.forall_mem_nil _)
    · intro h exec nf next atNode
      cases missing.symm.trans atNode
  · have keeps : KeepsPorts (TopoNode.host next).base (TopoNode.host h).base :=
      hostExecuteApp_keepsPorts executed
    have sameLoads := loadAt_setNode_keeps sim.evh atNode keeps
    cases out with
    | none =>
      cases last
      apply iff_of_true
      · exact quiet_balanced balanced pending noSend sameLoads rfl (List.forall_mem_nil _)
      · intro h' exec' nf next' atNode' isExec' executed'
        cases atNode.symm.trans atNode'
        cases isExec.symm.trans isExec'
        cases executed.symm.trans executed'
    | some nf =>
      have launches := (startAppLoop_runs last).launches
      have sent := (startAppLoop_runs last).sentOn
      rw [launched_balanced_iff balanced pending noSend (launches.loadAt.trans sameLoads)
        fun other member flowId isId => launches.rateOf (known other member flowId isId)]
      have nextUuid : (TopoNode.host next).base.uuid = nodeId := sameUuid
      simp only [sent.pendingLoad_eq_zero_iff, nextUuid]
      constructor
      · intro noRate h' exec' nf' next' atNode' isExec' executed' port isPort exists_
        cases atNode.symm.trans atNode'
        cases isExec.symm.trans isExec'
        cases executed.symm.trans executed'
        apply noRate nodeId port _ rfl isPort
        simpa [EvHandler.loadAt, atNode, nodeLoad, TopoNode.base] using exists_
      · rintro noRate _ port exists_ rfl isPort
        apply noRate h exec nf next atNode isExec executed port isPort
        simpa [EvHandler.loadAt, atNode, nodeLoad, TopoNode.base] using exists_

/-! ### Messages -/

theorem replies_sendNothing :
    ∀ ev ∈ (dp.bind (replyEvent time reply)).toList, ∀ rates uuid port,
      sendRate rates uuid port ev = 0 := by
  intro ev member rates uuid port
  obtain ⟨known, -, packed⟩ := Option.bind_eq_some_iff.mp (Option.mem_toList.mp member)
  obtain ⟨msg, -, rfl⟩ := Option.map_eq_some_iff.mp packed
  rfl

/-- A message that is not a packet-out sends nothing. -/
theorem noPacket_balanced (balanced : Balanced sim)
    (pending : .ofMsgIn time dpId msg ∈ sim.sch.evQueue) (noPacket : isPacketOut msg = false)
    (done : handleOfIn wrappingSum find sim.evh time dpId msg = some (after, inserted)) :
    Balanced (sim.handled (.ofMsgIn time dpId msg) after inserted) := by
  have noSend : ∀ rates uuid port, sendRate rates uuid port (.ofMsgIn time dpId msg) = 0 :=
    fun _ _ _ => rfl
  obtain ⟨reply, nf, changed, events, handled, rfl, sends⟩ := handleOfIn_cases done
  have sameBase := (dpControlHandleControlMsg_keeps handled).2
  cases dpControlHandleControlMsg_noPacket noPacket handled
  rcases sends with ⟨-, rfl, rfl⟩ | ⟨dp, rfl, sent⟩
  · exact quiet_balanced balanced pending noSend rfl rfl replies_sendNothing
  · cases sent
    obtain ⟨known, isKnown, bases⟩ := Option.map_eq_some_iff.mp sameBase.symm
    have atNode := topologyDatapathByDpid_node isKnown
    have keeps : KeepsPorts (TopoNode.datapath dp).base (TopoNode.datapath known).base := by
      rw [TopoNode.base, TopoNode.base, bases]
      exact .refl _
    exact quiet_balanced balanced pending noSend (loadAt_setNode_keeps sim.evh atNode keeps)
      rfl replies_sendNothing

/-- A packet-out keeps the balance unless its netflow has a rate and is sent. -/
theorem packetOut_balanced_iff {bufferId inPort : BitVec 32} {packet : Option DecodedPacket}
    {al : List Action} (balanced : Balanced sim) (known : EachPending Known sim)
    (pending : .ofMsgIn time dpId (.packetOut bufferId inPort packet al) ∈ sim.sch.evQueue)
    (done : handleOfIn wrappingSum find sim.evh time dpId (.packetOut bufferId inPort packet al) =
      some (after, inserted)) :
    Balanced (sim.handled (.ofMsgIn time dpId (.packetOut bufferId inPort packet al)) after
        inserted) ↔
      KeepsLoad sim (.handle find
        (.ofMsgIn time dpId (.packetOut bufferId inPort packet al))) := by
  have noSend : ∀ rates uuid port, sendRate rates uuid port
      (.ofMsgIn time dpId (.packetOut bufferId inPort packet al)) = 0 := fun _ _ _ => rfl
  rcases handlePacketOut_cases done with
    ⟨noDp, rfl, rfl⟩ | ⟨dp, nf, atDp, isOut, sent⟩
  · apply iff_of_true
    · exact quiet_balanced balanced pending noSend rfl rfl (List.forall_mem_nil _)
    · intro dp nf isDp
      cases noDp.symm.trans isDp
  · have atNode := topologyDatapathByDpid_node atDp
    have sameLoads := loadAt_setNode_keeps sim.evh atNode (.refl (TopoNode.datapath dp).base)
    have launches := packetOutLoop_launches sent
    have sentOn := packetOutLoop_sentOn sent
    rw [launched_balanced_iff balanced pending noSend (launches.loadAt.trans sameLoads)
      fun other member flowId isId => launches.rateOf (known other member flowId isId)]
    simp only [sentOn.pendingLoad_eq_zero_iff]
    have exists_iff (port : BitVec 32) : (sim.evh.loadAt dp.base.uuid port).isSome ↔
        (nodePort dp.base port).isSome := by
      simp [EvHandler.loadAt, atNode, nodeLoad, TopoNode.base]
    constructor
    · intro noRate dp' nf' isDp isOut' port isPort exists_
      cases atDp.symm.trans isDp
      cases isOut.symm.trans isOut'
      exact noRate dp.base.uuid port ((exists_iff port).mpr exists_) rfl isPort
    · rintro noRate _ port exists_ rfl isPort
      exact noRate dp nf atDp isOut port isPort ((exists_iff port).mp exists_)

theorem handleRouterIn_keeps {routerId : BitVec 32} {data : List (BitVec 8)}
    (done : handleRouterIn evh routerId data = some after) :
    after.loadAt = evh.loadAt ∧ after.rateOf = evh.rateOf := by
  rcases handleRouterIn_cases done with rfl | ⟨r, changed, found, handled, rfl⟩
  · exact ⟨rfl, rfl⟩
  · have keeps : KeepsPorts (TopoNode.router changed).base (TopoNode.router r).base := by
      rw [TopoNode.base, TopoNode.base, (routerHandleControlMessage_keeps handled).1]
      exact .refl _
    exact ⟨loadAt_setNode_keeps evh found keeps, rfl⟩

/-- Handling an event keeps the balance exactly under the condition. -/
theorem handle_balanced_iff (balanced : Balanced sim) (known : EachPending Known sim)
    (pending : ev ∈ sim.sch.evQueue)
    (done : handleEvent wrappingSum find sim.evh ev = some (after, inserted)) :
    Balanced (sim.handled ev after inserted) ↔
      KeepsLoad sim (.handle find ev) := by
  cases ev with
  | flowRecv time nodeId flowId rate flow =>
    exact recv_balanced_iff balanced pending (handleRecvNetflow_effect done)
  | flowSend time nodeId flowId outPort flow =>
    exact send_balanced_iff balanced pending (handleSendNetflow_effect done)
  | appStart time nodeId addr => exact start_balanced_iff balanced known pending done
  | ofMsgIn time dpId msg =>
    cases msg with
    | packetOut bufferId inPort packet al =>
      exact packetOut_balanced_iff balanced known pending done
    | _ => exact iff_of_true (noPacket_balanced balanced pending rfl done) trivial
  | ofMsgOut time dpId msg =>
    cases done
    exact iff_of_true
      (quiet_balanced balanced pending (fun _ _ _ => rfl) rfl rfl (List.forall_mem_nil _)) trivial
  | routerIn time routerId connId data =>
    obtain ⟨final, handled, result⟩ := Option.map_eq_some_iff.mp done
    cases result
    obtain ⟨sameLoads, sameRates⟩ := handleRouterIn_keeps handled
    exact iff_of_true (quiet_balanced balanced pending (fun _ _ _ => rfl) sameLoads sameRates
      (List.forall_mem_nil _)) trivial

end Handlers

end Horse.Sim
