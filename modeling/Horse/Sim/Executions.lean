import Horse.Sim.Effects

/-!
# Executions of applications

An execution of an application is started by an event, and every start takes one
from its counter.  The next start is scheduled where the host sends a netflow that
carries the identifier of the execution.  The netflow may come from another host
and carry the identifier of an execution there, so more starts can be pending than
the counter allows.
-/

namespace Horse.Sim

open Horse.Container Horse.Lib Horse.Net Horse.Transition

/-- The host and the address of the execution that an event starts. -/
def SimEvent.start? : SimEvent → Option (Nat × Nat)
  | .appStart _ uuid addr => some (uuid, addr)
  | _ => none

/-- The executions that a list of events starts. -/
def starts (events : List SimEvent) : List (Nat × Nat) :=
  events.filterMap SimEvent.start?

/-- How often an execution may still be started. -/
def EvHandler.execsLeft (evh : EvHandler) (uuid addr : Nat) : Option Nat :=
  (evh.execAt uuid addr).map fun exec => exec.execCnt.toNat

/-- A send restarts an execution only if fewer of its starts are pending than are
left. -/
def RestartsWithin (sim : SimState) : SimCall → Prop
  | .handle _ (.flowSend _ nodeId flowId outPort _) =>
    ∀ node lf nf exec, topologyNode sim.evh.topo nodeId = some node →
      sim.evh.findLiveFlow flowId = some lf → lf.flow = some nf →
      nodeCalculatePortLoss node.base outPort = 0 → nextExec nf node = some exec →
        (starts sim.sch.evQueue).count (nodeId, exec.addr) < exec.execCnt.toNat
  | _ => True

/-! ## Starts -/

theorem starts_append (first second : List SimEvent) :
    starts (first ++ second) = starts first ++ starts second :=
  List.filterMap_append

@[simp]
theorem starts_appStart (time uuid addr : Nat) :
    starts [.appStart time uuid addr] = [(uuid, addr)] :=
  rfl

theorem starts_eq_nil {events : List SimEvent} (noStart : ∀ ev ∈ events, ev.start? = none) :
    starts events = [] :=
  List.filterMap_eq_nil_iff.mpr noStart

theorem starts_of_perm {first second : List SimEvent} (perm : first.Perm second)
    (exec : Nat × Nat) : (starts first).count exec = (starts second).count exec :=
  (perm.filterMap SimEvent.start?).count_eq exec

variable {ev : SimEvent} {sim : SimState}

/-- The starts that are pending after an event was handled. -/
theorem starts_handled {sch : Scheduler SimEvent} (inserted : List SimEvent)
    (pending : ev ∈ sch.evQueue) (exec : Nat × Nat) :
    (starts (insertAll { sch with evQueue := sch.evQueue.erase ev } inserted).evQueue).count exec +
        (starts [ev]).count exec =
      (starts inserted).count exec + (starts sch.evQueue).count exec := by
  have removed : (starts sch.evQueue).count exec =
      (starts [ev]).count exec + (starts (sch.evQueue.erase ev)).count exec := by
    rw [starts_of_perm (List.perm_cons_erase pending), ← List.singleton_append, starts_append,
      List.count_append]
  rw [starts_of_perm (insertAll_perm _ _), starts_append, List.count_append, removed,
    Nat.add_assoc, Nat.add_comm (List.count exec (starts [ev]))]

/-- A pending start is among those that are pending. -/
theorem starts_count_le {queue : List SimEvent} (pending : ev ∈ queue) (exec : Nat × Nat) :
    (starts [ev]).count exec ≤ (starts queue).count exec :=
  ((List.singleton_sublist.mpr pending).filterMap SimEvent.start?).count_le exec

/-- Every execution has one start event to begin with. -/
theorem starts_setup_nodup (topo : Topology) : (starts (setup topo).sch.evQueue).Nodup := by
  have perm : (starts (setup topo).sch.evQueue).Perm (starts (setupAppEvents topo)) := by
    have inserted := insertAll_perm (schedulerNew SimEvent) (setupAppEvents topo)
    exact (inserted.trans (List.Perm.of_eq (List.append_nil _))).filterMap _
  have flat : starts (setupAppEvents topo) =
      topo.nodes.reverse.flatMap fun node =>
        node.execs.reverse.map fun exec => (node.uuid, exec.addr) := by
    rw [starts, setupAppEvents, List.filterMap_flatMap]
    congr
    funext node
    cases node with
    | host h =>
      simp only [hostAppEvents, List.filterMap_map, TopoNode.execs]
      rw [← List.filterMap_eq_map]
      rfl
    | datapath dp => rfl
    | router r => rfl
  rw [perm.nodup_iff, flat, List.nodup_flatMap]
  constructor
  · intro node _
    rw [List.map_reverse, List.nodup_reverse]
    cases node with
    | host h =>
      have addrs : (h.execs.map Exec.addr).Nodup := by
        rw [h.addrs, List.nodup_reverse]
        exact List.nodup_range
      apply List.Nodup.of_map Prod.snd
      rw [List.map_map]
      exact addrs
    | datapath dp => exact List.nodup_nil
    | router r => exact List.nodup_nil
  · rw [List.pairwise_reverse]
    apply (List.pairwise_map.mp topo.distinct).imp
    intro first second distinct exec inSecond inFirst
    rcases List.mem_map.mp inFirst with ⟨one, -, rfl⟩
    rcases List.mem_map.mp inSecond with ⟨other, -, same⟩
    exact distinct (congrArg Prod.fst same).symm

/-! ## What the handlers do to executions -/

/-- The counters of the executions change by the given starts. -/
def Spends (before after : EvHandler) (started : List (Nat × Nat)) : Prop :=
  ∀ uuid addr, (after.execsLeft uuid addr).map (· + started.count (uuid, addr)) =
    before.execsLeft uuid addr

theorem Spends.of_same {before after : EvHandler} (same : after.execAt = before.execAt) :
    Spends before after [] := by
  intro uuid addr
  simp only [EvHandler.execsLeft, same, List.count_nil, Nat.add_zero]
  exact Option.map_id'

theorem Spends.trans {before middle after : EvHandler} {first second : List (Nat × Nat)}
    (one : Spends before middle first) (two : Spends middle after second) :
    Spends before after (first ++ second) := by
  intro uuid addr
  rw [← one uuid addr, ← two uuid addr, Option.map_map, List.count_append]
  congr
  funext left
  simp only [Function.comp]
  omega

/-- An event starts an execution and takes one from its counter, and a send may
schedule one more start. -/
structure Counts (evh : EvHandler) (ev : SimEvent) (after : EvHandler) (inserted : List SimEvent) :
    Prop where
  spends : Spends evh after (starts [ev])
  restarts : starts inserted = [] ∨ ∃ time nodeId flowId outPort flow node lf nf exec,
    ev = .flowSend time nodeId flowId outPort flow ∧ topologyNode evh.topo nodeId = some node ∧
      evh.findLiveFlow flowId = some lf ∧ lf.flow = some nf ∧
      nodeCalculatePortLoss node.base outPort = 0 ∧ nextExec nf node = some exec ∧
      starts inserted = [(nodeId, exec.addr)]

section Handlers

variable {sum : TimeSum} {find : HashFind Flow} {evh after : EvHandler} {inserted : List SimEvent}

theorem Counts.of_same (same : after.execAt = evh.execAt) (noStart : ev.start? = none)
    (noStarts : ∀ new ∈ inserted, new.start? = none) :
    Counts evh ev after inserted where
  spends := by
    rw [starts_eq_nil (by simpa using noStart)]
    exact .of_same same
  restarts := Or.inl (starts_eq_nil noStarts)

theorem launches_start? {start : Nat} {middle : EvHandler} {events : List SimEvent}
    (launches : Launches sum start middle events after) : ∀ ev ∈ events, ev.start? = none := by
  intro ev member
  rcases launches.sends member with ⟨time, nodeId, flowId, port, lf, new, rfl, -⟩
  rfl

variable {nodeId time : Nat}

theorem recv_counts {flowId : Nat} {rate : Int} {flow : Netflow}
    (effect : RecvEffect sum find evh nodeId flowId after inserted) :
    Counts evh (.flowRecv time nodeId flowId rate flow) after inserted := by
  cases effect with
  | ignored missing => exact .of_same rfl rfl (by simp)
  | dropped atNode live isFlow received same => exact .of_same same.execAt rfl (by simp)
  | forwarded atNode live isFlow received looped same =>
    refine .of_same same.execAt rfl ?_
    intro ev member
    cases (outPortLoop_runs looped).effect.events ev member <;> rfl

/-- A restart keeps the counter of the execution. -/
theorem Restarts.spends {node next : TopoNode} {nf : Netflow} {started : List SimEvent}
    (restarts : Restarts sum evh nodeId node nf next started) :
    Spends evh (evh.setNode next) [] ∧ (starts started = [] ∨
      ∃ exec, nextExec nf node = some exec ∧ starts started = [(nodeId, exec.addr)]) := by
  cases restarts with
  | none noExec same => exact ⟨.of_same same, Or.inl rfl⟩
  | @restart exec time isNext atTime changed =>
    refine ⟨?_, Or.inr ⟨exec, isNext, rfl⟩⟩
    intro uuid addr
    simp only [EvHandler.execsLeft, changed, changeExec, List.count_nil, Nat.add_zero,
      Option.map_id']
    split
    · rename_i here
      rcases here with ⟨rfl, rfl⟩
      rw [Option.map_map]
      rfl
    · rfl

theorem send_counts {flowId : Nat} {outPort : BitVec 32} {flow : Netflow}
    (effect : SendEffect sum evh nodeId flowId outPort after inserted) :
    Counts evh (.flowSend time nodeId flowId outPort flow) after inserted := by
  cases effect with
  | ignored missing => exact .of_same rfl rfl (by simp)
  | lost atNode live isFlow sent loss same => exact .of_same same.execAt rfl (by simp)
  | @freed node next lf nf started atNode live isFlow sent noLoss restarts unlinked =>
    rcases restarts.spends with ⟨spends, noneStarted | ⟨exec, isNext, isStart⟩⟩
    · exact ⟨spends, Or.inl noneStarted⟩
    · exact ⟨spends, Or.inr ⟨time, nodeId, flowId, outPort, flow, node, lf, nf, exec, rfl, atNode,
        live, isFlow, noLoss, isNext, isStart⟩⟩
  | @crossed node next lf nf arrived started dst latency atNode live isFlow sent noLoss restarts
      linked crosses =>
      have sameStarts : starts (started ++ [.flowRecv arrived.startTime dst.uuid flowId
          (flowRate arrived) arrived]) = starts started := by
        rw [starts_append]
        exact List.append_nil _
      rcases restarts.spends with ⟨spends, noneStarted | ⟨exec, isNext, isStart⟩⟩
      · exact ⟨spends, Or.inl (sameStarts.trans noneStarted)⟩
      · exact ⟨spends, Or.inr ⟨time, nodeId, flowId, outPort, flow, node, lf, nf, exec, rfl, atNode,
          live, isFlow, noLoss, isNext, sameStarts.trans isStart⟩⟩

/-- A start takes one from the counter unless the counter is zero and wraps. -/
theorem start_counts {addr : Nat}
    (enough : ∀ left, evh.execsLeft nodeId addr = some left → 0 < left)
    (effect : StartEffect sum evh nodeId addr after inserted) :
    Counts evh (.appStart time nodeId addr) after inserted := by
  cases effect with
  | ignored missing =>
    refine ⟨?_, Or.inl rfl⟩
    intro uuid other
    by_cases here : uuid = nodeId
    · simp [EvHandler.execsLeft, EvHandler.execAt, here, missing]
    · have otherExec : (nodeId, addr) ≠ (uuid, other) := fun same =>
        here (congrArg Prod.fst same).symm
      simp [List.count_cons_of_ne otherExec]
  | @started node exec after events isExec counted launches =>
    refine ⟨?_, Or.inl (starts_eq_nil (launches_start? launches))⟩
    intro uuid other
    simp only [EvHandler.execsLeft, launches.execAt, counted, changeExec]
    by_cases here : uuid = nodeId ∧ other = addr
    · rcases here with ⟨rfl, rfl⟩
      have positive : 0 < exec.execCnt.toNat := enough _ (by simp [EvHandler.execsLeft, isExec])
      have counts : (exec.execCnt - 1).toNat + 1 = exec.execCnt.toNat := by
        rw [BitVec.toNat_sub_of_le positive]
        exact Nat.sub_add_cancel positive
      simpa [isExec, Exec.change] using counts
    · have otherExec : (nodeId, addr) ≠ (uuid, other) := by
        rintro ⟨rfl, rfl⟩
        exact here ⟨rfl, rfl⟩
      simp only [here, if_false, starts_appStart, List.count_cons_of_ne otherExec,
        List.count_nil, Nat.add_zero, Option.map_id']

theorem handleEvent_counts (enough : ∀ uuid addr left, evh.execsLeft uuid addr = some left →
      (starts [ev]).count (uuid, addr) ≤ left)
    (done : handleEvent sum find evh ev = some (after, inserted)) :
    Counts evh ev after inserted := by
  cases ev with
  | flowRecv time nodeId flowId rate flow => exact recv_counts (handleRecvNetflow_effect done)
  | flowSend time nodeId flowId outPort flow => exact send_counts (handleSendNetflow_effect done)
  | appStart time nodeId addr =>
    apply start_counts _ (handleStartApp_effect done)
    intro left isLeft
    have counted := enough nodeId addr left isLeft
    rw [starts_appStart, List.count_singleton_self] at counted
    exact counted
  | ofMsgIn time dpId msg =>
    rcases handleOfIn_effect done with ⟨middle, events, replies, rfl, same, launches, areReplies⟩
    apply Counts.of_same (launches.execAt.trans same.execAt) rfl
    intro ev member
    rcases List.mem_append.mp member with sent | reply
    · exact launches_start? launches ev sent
    · rcases areReplies ev reply with ⟨_, _, rfl⟩
      rfl
  | ofMsgOut time dpId msg =>
    cases done
    exact .of_same rfl rfl (by simp)
  | routerIn time routerId connId data =>
    rcases Option.map_eq_some_iff.mp done with ⟨final, handled, result⟩
    cases result
    exact .of_same (handleRouterIn_effect handled).execAt rfl (by simp)

end Handlers

/-! ## Runs -/

/-- No more starts of an execution are pending than are left. -/
def Within (sim : SimState) : Prop :=
  ∀ uuid addr left, sim.evh.execsLeft uuid addr = some left →
    (starts sim.sch.evQueue).count (uuid, addr) ≤ left

theorem within_setup {topo : Topology}
    (asked : ∀ h exec, .host h ∈ topo.nodes → exec ∈ h.execs → exec.execCnt ≠ 0) :
    Within (setup topo) := by
  intro uuid addr left isLeft
  apply Nat.le_trans (List.nodup_iff_count_le_one.mp (starts_setup_nodup topo) _)
  rcases Option.map_eq_some_iff.mp isLeft with ⟨exec, isExec, rfl⟩
  rcases Option.bind_eq_some_iff.mp isExec with ⟨node, atNode, isAt⟩
  cases node with
  | host h =>
    have nonzero := asked h exec (List.mem_of_find?_eq_some atNode)
      (List.mem_of_find?_eq_some isAt)
    exact Nat.pos_of_ne_zero fun zero => nonzero (BitVec.eq_of_toNat_eq zero)
  | datapath dp => cases isAt
  | router r => cases isAt

/-- The event of a message that arrives starts nothing. -/
theorem Within.insert {evh : EvHandler} {sch : Scheduler SimEvent} {new : SimEvent}
    (within : Within ⟨evh, sch⟩) (noStart : new.start? = none) :
    Within ⟨evh, schedulerInsert SimEvent.time sch new⟩ := by
  intro uuid addr left isLeft
  have same : (starts (schedulerInsert SimEvent.time sch new).evQueue).count (uuid, addr) =
      (starts sch.evQueue).count (uuid, addr) := by
    rw [schedulerInsert, starts_of_perm (insertInorder_perm _ _ _), starts,
      List.filterMap_cons_none noStart]
    rfl
  exact (Nat.le_of_eq same).trans (within uuid addr left isLeft)

/-- The execution that a send restarts is the one at its address. -/
theorem nextExec_execsLeft {evh : EvHandler} {nodeId : Nat} {node : TopoNode} {nf : Netflow}
    {exec : Exec} (atNode : topologyNode evh.topo nodeId = some node)
    (isNext : nextExec nf node = some exec) :
    evh.execsLeft nodeId exec.addr = some exec.execCnt.toNat := by
  cases node with
  | host h =>
    have isExec : exec ∈ h.execs :=
      List.mem_of_find?_eq_some (Option.filter_eq_some_iff.mp isNext).1
    have isAt := execAt_of_mem (List.mem_of_find?_eq_some atNode) isExec
    have isNode : h.ep.base.uuid = nodeId := topologyNode_uuid atNode
    rw [EvHandler.execsLeft, ← isNode, isAt]
    rfl
  | datapath dp => cases isNext
  | router r => cases isNext

/-- There is room among the executions left for the start that a send schedules. -/
theorem Counts.room {find : HashFind Flow} {after : EvHandler} {inserted : List SimEvent}
    (counts : Counts sim.evh ev after inserted) (within : Within sim)
    (kept : RestartsWithin sim (.handle find ev)) {uuid addr left : Nat}
    (isLeft : sim.evh.execsLeft uuid addr = some left) :
    (starts inserted).count (uuid, addr) + (starts sim.sch.evQueue).count (uuid, addr) ≤ left := by
  have fits := within uuid addr left isLeft
  rcases counts.restarts with noStarts | ⟨time, nodeId, flowId, outPort, flow, node, lf, nf, exec,
    rfl, atNode, live, isFlow, noLoss, isNext, isStart⟩
  · rw [noStarts, List.count_nil, Nat.zero_add]
    exact fits
  · rw [isStart]
    by_cases here : (nodeId, exec.addr) = (uuid, addr)
    · cases here
      cases (nextExec_execsLeft atNode isNext).symm.trans isLeft
      rw [List.count_singleton_self, Nat.add_comm]
      exact kept node lf nf exec atNode live isFlow noLoss isNext
    · rw [List.count_cons_of_ne here, List.count_nil, Nat.zero_add]
      exact fits

theorem within_step {after : SimState} {call : SimCall} (within : Within sim)
    (kept : RestartsWithin sim call) (step : simStep sim call = some after) :
    Within after ∧ Spends sim.evh after.evh (starts (handledEvents [call])) := by
  cases call with
  | handle find ev =>
    rcases SimState.handle_eq_some_iff.mp step with ⟨pending, evh, inserted, done, rfl⟩
    have counts := handleEvent_counts (fun uuid addr left isLeft =>
      Nat.le_trans (starts_count_le pending (uuid, addr)) (within uuid addr left isLeft)) done
    refine ⟨?_, counts.spends⟩
    intro uuid addr left isLeft
    have wasLeft : sim.evh.execsLeft uuid addr = some (left + (starts [ev]).count (uuid, addr)) :=
      (counts.spends uuid addr).symm.trans (congrArg _ isLeft)
    have room := counts.room within kept wasLeft
    have balance := starts_handled inserted pending (uuid, addr)
    rw [← balance] at room
    exact Nat.le_of_add_le_add_right room
  | ofMessage dpId msg =>
    cases step
    exact ⟨within.insert rfl, .of_same rfl⟩
  | routerMessage routerId connId data =>
    cases step
    exact ⟨within.insert rfl, .of_same rfl⟩
  | setClock clock =>
    cases step
    exact ⟨within, .of_same rfl⟩

/-- Over a run, the starts of an execution and what is left of it add up to what was
left before. -/
theorem spends_of_within {calls : List SimCall} {final : SimState} (within : Within sim)
    (kept : Along simStep RestartsWithin sim calls) (ran : run simStep sim calls = some final) :
    Spends sim.evh final.evh (starts (handledEvents calls)) := by
  induction calls generalizing sim with
  | nil =>
    cases ran
    exact .of_same rfl
  | cons call rest ih =>
    rcases (run_cons_eq_some_iff _ _ _ _ _).mp ran with ⟨after, step, later⟩
    rcases within_step within kept.1 step with ⟨stillWithin, spends⟩
    have split : starts (handledEvents (call :: rest)) =
        starts (handledEvents [call]) ++ starts (handledEvents rest) := by
      rw [← starts_append, handledEvents, handledEvents, handledEvents, ← List.filterMap_append]
      rfl
    rw [split]
    exact spends.trans (ih stillWithin (kept.2 after step) later)

/-- If every execution was asked for at least once, and no send restarts one that
has as many starts pending as it has left, then in every run from the setup events
each execution is started at most as often as it was asked for, and its counter
says how often it was not. -/
theorem started_at_most_asked (topo : Topology) (calls : List SimCall) (final : SimState)
    (asked : ∀ h exec, .host h ∈ topo.nodes → exec ∈ h.execs → exec.execCnt ≠ 0)
    (kept : Along simStep RestartsWithin (setup topo) calls)
    (ran : run simStep (setup topo) calls = some final) (h : Host) (exec : Exec)
    (isNode : .host h ∈ topo.nodes) (isExec : exec ∈ h.execs) :
    ∃ left, final.evh.execsLeft h.ep.base.uuid exec.addr = some left ∧
      left + (starts (handledEvents calls)).count (h.ep.base.uuid, exec.addr) =
        exec.execCnt.toNat := by
  have spends := spends_of_within (within_setup asked) kept ran h.ep.base.uuid exec.addr
  have atFirst : (setup topo).evh.execAt h.ep.base.uuid exec.addr = some exec :=
    execAt_of_mem isNode isExec
  rw [EvHandler.execsLeft.eq_def (setup topo).evh, atFirst] at spends
  exact Option.map_eq_some_iff.mp spends

/-- The first ping of the crossed pings is the only one of its host. -/
theorem started_at_most_asked_crossedPings :
    ∃ left final, run simStep (setup crossedPings) (dispatchCalls 3 (setup crossedPings)) =
        some final ∧
      final.evh.execsLeft 1 0 = some left ∧
      left + (starts (handledEvents (dispatchCalls 3 (setup crossedPings)))).count (1, 0) = 1 := by
  have kept : Along simStep RestartsWithin (setup crossedPings)
      (dispatchCalls 3 (setup crossedPings)) := by
    refine ⟨trivial, ?_⟩
    rintro _ ⟨rfl⟩
    refine ⟨?_, ?_⟩
    · rintro _ _ _ exec ⟨rfl⟩ ⟨rfl⟩ ⟨rfl⟩ _ isNext
      cases isNext
    · rintro _ ⟨rfl⟩
      exact ⟨trivial, fun _ _ => trivial⟩
  have asked : ∀ h exec, .host h ∈ crossedPings.nodes → exec ∈ h.execs → exec.execCnt ≠ 0 := by
    intro h exec isNode isExec
    simp only [crossedPings, List.mem_cons, List.not_mem_nil, or_false,
      TopoNode.host.injEq] at isNode
    rcases isNode with rfl | rfl <;> cases List.mem_singleton.mp isExec <;> decide
  rcases started_at_most_asked crossedPings _ _ asked kept rfl
    (pinger 1 0x01 0x0a000001 0x0a000002 0) ⟨0, 1, .pingv4 0x0a000002, 1, 0⟩
    (List.mem_cons_of_mem _ List.mem_cons_self) List.mem_cons_self with ⟨left, isLeft, total⟩
  exact ⟨left, _, rfl, isLeft, total⟩

/-- The second host of the crossed pings was asked for one ping.  Its answer to the
first host schedules another one, so it starts two, and its counter wraps. -/
theorem answer_restarts_execution :
    (setup crossedPings).evh.execsLeft 2 0 = some 1 ∧
      (starts (handledEvents (dispatchCalls 15 (setup crossedPings)))).count (2, 0) = 2 ∧
      ((run simStep (setup crossedPings) (dispatchCalls 15 (setup crossedPings))).bind
        fun final => final.evh.execsLeft 2 0) = some (2 ^ 32 - 1) := by
  refine ⟨rfl, ?_, rfl⟩
  have started : starts (handledEvents (dispatchCalls 15 (setup crossedPings))) =
      [(1, 0), (2, 0), (2, 0)] := rfl
  rw [started]
  rfl

end Horse.Sim
