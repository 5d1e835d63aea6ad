import Horse.Sim.Effects

/-!
# Events are scheduled ahead

The time of a new event is the start time of the live flow that the handled event
is about, or of the execution that it starts.  Both are read when the event is
handled and not when it was scheduled.  The start time of a live flow only grows.
That of an execution is overwritten whenever its host sends a netflow with its
identifier, and then a start that is still pending may be left behind it.
-/

namespace Horse.Sim

open Horse.Container Horse.Lib Horse.Net Horse.Transition

/-- Every event that handling an event inserts has its time or a later one. -/
def SchedulesAhead (sim : SimState) : SimCall → Prop
  | .handle find ev =>
    ev ∈ sim.sch.evQueue → ∀ evh inserted,
      handleEvent wrappingSum find sim.evh ev = some (evh, inserted) →
        ∀ new ∈ inserted, ev.time ≤ new.time
  | _ => True

/-- A send that restarts an execution does so no earlier than the starts of the
execution that are pending. -/
def RestartsLast (evh : EvHandler) (queue : List SimEvent) : SimEvent → Prop
  | .flowSend _ nodeId flowId outPort _ =>
    ∀ node lf nf exec, topologyNode evh.topo nodeId = some node →
      evh.findLiveFlow flowId = some lf → lf.flow = some nf →
      nodeCalculatePortLoss node.base outPort = 0 → nextExec nf node = some exec →
        ∀ time, .appStart time nodeId exec.addr ∈ queue → time ≤ nf.startTime + 1000000
  | _ => True

/-- No time wraps while the event is handled, and restarts come last. -/
def KeepsTime (sim : SimState) : SimCall → Prop
  | .handle find ev =>
    handleEvent exactSum find sim.evh ev = handleEvent wrappingSum find sim.evh ev ∧
      RestartsLast sim.evh sim.sch.evQueue ev
  | _ => True

/-- The event at the head of the queue is handled, and nothing else happens. -/
def Dispatches (sim : SimState) : SimCall → Prop
  | .handle _ ev => sim.sch.evQueue.head? = some ev
  | _ => False

/-- The times of the events that are handled in a run. -/
def handledTimes (calls : List SimCall) : List Nat :=
  (handledEvents calls).map SimEvent.time

/-! ## The clocks of live flows and executions -/

/-- An event is not ahead of the live flow it is about or of the execution it starts. -/
structure Timely (evh : EvHandler) (ev : SimEvent) : Prop where
  known : ∀ flowId, ev.flowId? = some flowId → flowId < evh.nextFlowId
  flow : ∀ flowId, ev.flowId? = some flowId → ∀ lf nf, evh.findLiveFlow flowId = some lf →
    lf.flow = some nf → ev.time ≤ nf.startTime
  start : ∀ time uuid addr, ev = .appStart time uuid addr → ∀ exec,
    evh.execAt uuid addr = some exec → time ≤ exec.startTime

/-- No live flow was set back. -/
def FlowsLater (before after : EvHandler) : Prop :=
  ∀ flowId, flowId < before.nextFlowId → ∀ lf nf, after.findLiveFlow flowId = some lf →
    lf.flow = some nf → ∃ oldLf old, before.findLiveFlow flowId = some oldLf ∧
      oldLf.flow = some old ∧ old.startTime ≤ nf.startTime

section Timely

variable {evh after : EvHandler} {ev : SimEvent} {inserted : List SimEvent} {lf : LiveFlow}
  {nf : Netflow} {flowId : Nat}

/-- An event that is about no live flow and starts no execution. -/
theorem timely_of_plain (noFlow : ev.flowId? = none)
    (noStart : ∀ time uuid addr, ev ≠ .appStart time uuid addr) : Timely evh ev where
  known _ isId := nomatch noFlow.symm.trans isId
  flow _ isId := nomatch noFlow.symm.trans isId
  start time uuid addr isStart := absurd isStart (noStart time uuid addr)

/-- Pending events stay behind clocks that were not set back. -/
theorem Timely.later (timely : Timely evh ev) (more : evh.nextFlowId ≤ after.nextFlowId)
    (flowsLater : FlowsLater evh after)
    (startLater : ∀ time uuid addr, ev = .appStart time uuid addr → ∀ exec,
      after.execAt uuid addr = some exec → time ≤ exec.startTime) : Timely after ev where
  known flowId isId := Nat.lt_of_lt_of_le (timely.known flowId isId) more
  flow flowId isId lf nf live isFlow := by
    rcases flowsLater flowId (timely.known flowId isId) lf nf live isFlow with
      ⟨oldLf, old, wasLive, wasFlow, grown⟩
    exact Nat.le_trans (timely.flow flowId isId oldLf old wasLive wasFlow) grown
  start := startLater

theorem FlowsLater.of_same
    (same : ∀ flowId < evh.nextFlowId, after.findLiveFlow flowId = evh.findLiveFlow flowId) :
    FlowsLater evh after :=
  fun flowId old lf nf live isFlow => ⟨lf, nf, same flowId old ▸ live, isFlow, Nat.le_refl _⟩

theorem Timely.sameFlows (timely : Timely evh ev) (same : SameFlows after evh) :
    Timely after ev := by
  apply timely.later (Nat.le_of_eq same.nextFlowId.symm)
  · exact .of_same fun flowId _ => congrFun same.findLiveFlow flowId
  · rw [same.execAt]
    exact timely.start

/-- A live flow whose netflow is freed, or replaced by one that does not start
earlier. -/
theorem Timely.setFlow {flow : Option Netflow} (timely : Timely evh ev)
    (live : evh.findLiveFlow flowId = some lf) (isFlow : lf.flow = some nf)
    (grown : ∀ new, flow = some new → nf.startTime ≤ new.startTime) :
    Timely (evh.setFlow flowId flow) ev := by
  refine timely.later (by exact Nat.le_refl _) ?_ timely.start
  intro wanted _ found new isFound isNew
  rw [findLiveFlow_setFlow] at isFound
  split at isFound
  · rename_i same
    rw [live] at isFound
    cases isFound
    rw [same]
    exact ⟨lf, nf, live, isFlow, grown new isNew⟩
  · exact ⟨found, new, isFound, isNew, Nat.le_refl _⟩

theorem Timely.delLiveFlow (timely : Timely evh ev) (flowId : Nat) :
    Timely (evh.delLiveFlow flowId) ev := by
  refine timely.later (by exact Nat.le_refl _) ?_ timely.start
  intro wanted _ found new isFound isNew
  by_cases same : wanted = flowId
  · rw [same, findLiveFlow_delLiveFlow_self] at isFound
    cases isFound
  · rw [findLiveFlow_delLiveFlow evh same] at isFound
    exact ⟨found, new, isFound, isNew, Nat.le_refl _⟩

/-- A new event about a live flow. -/
theorem timely_of_flow (live : evh.findLiveFlow flowId = some lf) (isFlow : lf.flow = some nf)
    (about : ev.flowId? = some flowId) (inTime : ev.time ≤ nf.startTime) : Timely evh ev where
  known id isId := by
    cases about.symm.trans isId
    exact findLiveFlow_lt live
  flow id isId other otherNf isLive isNf := by
    cases about.symm.trans isId
    cases live.symm.trans isLive
    cases isFlow.symm.trans isNf
    exact inTime
  start time uuid addr isStart := by
    rw [isStart] at about
    cases about

/-- New live flows are sent no earlier than they start. -/
theorem launches_timely {start : Nat} (launches : Launches exactSum start evh inserted after) :
    ∀ new ∈ inserted, Timely after new ∧ start ≤ new.time := by
  intro new member
  rcases launches.sends member with
    ⟨time, nodeId, newId, port, lf, nf, rfl, -, -, isLive, isNew, inTime⟩
  exact ⟨timely_of_flow isLive isNew rfl (inTime exactSum_grows).2, (inTime exactSum_grows).1⟩

theorem Timely.launches {start : Nat} (timely : Timely evh ev)
    (launches : Launches exactSum start evh inserted after) : Timely after ev := by
  apply timely.later launches.nextFlowId
  · exact .of_same fun flowId old => launches.findLiveFlow old
  · rw [launches.execAt]
    exact timely.start

variable {nodeId : Nat} {node next : TopoNode} {started : List SimEvent}

theorem restart_time {time : Nat} (atTime : exactSum nf.startTime 1000000 = some time) :
    time = nf.startTime + 1000000 := by
  simp only [exactSum] at atTime
  split at atTime
  · exact (Option.some.inj atTime).symm
  · cases atTime

theorem restarts_timely (restarts : Restarts exactSum evh nodeId node nf next started) :
    ∀ new ∈ started, Timely (evh.setNode next) new ∧ nf.startTime ≤ new.time := by
  intro new member
  cases restarts with
  | none noExec same => cases member
  | @restart exec time isNext atTime changed =>
    cases List.mem_singleton.mp member
    refine ⟨⟨nofun, nofun, ?_⟩, ?_⟩
    · rintro _ _ _ ⟨rfl⟩ exec' isExec
      rw [changed, changeExec, if_pos ⟨rfl, rfl⟩] at isExec
      rcases Option.map_eq_some_iff.mp isExec with ⟨old, -, rfl⟩
      exact Nat.le_refl _
    · rw [SimEvent.time, restart_time atTime]
      exact Nat.le_add_right _ _

/-- A restart moves the clock of its execution, but not before a pending start. -/
theorem Timely.restarts (timely : Timely evh ev)
    (restarts : Restarts exactSum evh nodeId node nf next started)
    (last : ∀ exec, nextExec nf node = some exec → ∀ time,
      ev = .appStart time nodeId exec.addr → time ≤ nf.startTime + 1000000) :
    Timely (evh.setNode next) ev := by
  cases restarts with
  | none noExec same => exact timely.sameFlows ⟨same, rfl, rfl⟩
  | @restart exec time isNext atTime changed =>
    refine timely.later (by exact Nat.le_refl _) (.of_same fun _ _ => rfl) ?_
    intro otherTime uuid addr isStart exec' isExec
    rw [changed, changeExec] at isExec
    split at isExec
    · rename_i restarted
      rcases restarted with ⟨rfl, rfl⟩
      rcases Option.map_eq_some_iff.mp isExec with ⟨old, -, rfl⟩
      exact (last exec isNext otherTime isStart).trans_eq (restart_time atTime).symm
    · exact timely.start otherTime uuid addr isStart exec' isExec

end Timely

/-! ## The handlers -/

/-- What is to be shown of a handler: the clocks stay ahead of all events, and the
new events are not before the handled one. -/
def Ahead (time : Nat) (queue : List SimEvent) (after : EvHandler) (inserted : List SimEvent) :
    Prop :=
  (∀ ev ∈ queue, Timely after ev) ∧ ∀ new ∈ inserted, Timely after new ∧ time ≤ new.time

section Handlers

variable {evh after : EvHandler} {queue inserted : List SimEvent} {time nodeId : Nat}
  {find : HashFind Flow}

section

variable (timely : ∀ ev ∈ queue, Timely evh ev)

include timely

theorem recv_ahead {flowId : Nat}
    (notLate : ∀ lf nf, evh.findLiveFlow flowId = some lf → lf.flow = some nf → time ≤ nf.startTime)
    (effect : RecvEffect exactSum find evh nodeId flowId after inserted) :
    Ahead time queue after inserted := by
  cases effect with
  | ignored missing => exact ⟨timely, by simp⟩
  | dropped atNode live isFlow received same =>
    refine ⟨fun ev member => ?_, by simp⟩
    exact ((timely ev member).sameFlows same).delLiveFlow flowId
  | @forwarded node next lf nf returned out atNode live isFlow received looped same =>
    have effect := (outPortLoop_runs looped).effect
    rw [(TopoNode.recvNetflow_passes received).1.sameStart returned rfl] at effect
    constructor
    · intro ev member
      apply ((timely ev member).sameFlows same).setFlow live isFlow
      rintro new ⟨rfl⟩
      exact effect.later exactSum_grows
    · intro new member
      rcases effect.inTime exactSum_grows new member with ⟨later, inTime⟩
      refine ⟨?_, Nat.le_trans (notLate lf nf live isFlow) later⟩
      cases effect.events new member with
      | send =>
        exact timely_of_flow (findLiveFlow_setFlow_self live (some out.nf)) rfl rfl inTime
      | packetIn => exact timely_of_plain rfl nofun

theorem send_ahead {flowId : Nat} {outPort : BitVec 32} {flow : Netflow}
    (notLate : ∀ lf nf, evh.findLiveFlow flowId = some lf → lf.flow = some nf → time ≤ nf.startTime)
    (last : RestartsLast evh queue (.flowSend time nodeId flowId outPort flow))
    (effect : SendEffect exactSum evh nodeId flowId outPort after inserted) :
    Ahead time queue after inserted := by
  cases effect with
  | ignored missing => exact ⟨timely, by simp⟩
  | lost atNode live isFlow sent loss same =>
    exact ⟨fun ev member => (timely ev member).sameFlows same, by simp⟩
  | @freed node next lf nf started atNode live isFlow sent noLoss restarts unlinked =>
    constructor
    · intro ev member
      refine ((timely ev member).restarts restarts ?_).setFlow live isFlow nofun
      rintro exec isNext time rfl
      exact last node lf nf exec atNode live isFlow noLoss isNext time member
    · intro new member
      rcases restarts_timely restarts new member with ⟨started, later⟩
      exact ⟨started.setFlow live isFlow nofun, Nat.le_trans (notLate lf nf live isFlow) later⟩
  | @crossed node next lf nf arrived started dst latency atNode live isFlow sent noLoss restarts
      linked crosses =>
      have grown := (crossLink_eq crosses).2 exactSum_grows
      have setFlow {ev : SimEvent} (kept : Timely (evh.setNode next) ev) :
          Timely ((evh.setNode next).setFlow flowId (some arrived)) ev := by
        apply kept.setFlow live isFlow
        rintro new ⟨rfl⟩
        exact grown
      constructor
      · intro ev member
        refine setFlow ((timely ev member).restarts restarts ?_)
        rintro exec isNext time rfl
        exact last node lf nf exec atNode live isFlow noLoss isNext time member
      · intro new member
        have behind := notLate lf nf live isFlow
        rcases List.mem_append.mp member with here | there
        · rcases restarts_timely restarts new here with ⟨started, later⟩
          exact ⟨setFlow started, Nat.le_trans behind later⟩
        · cases List.mem_singleton.mp there
          exact ⟨timely_of_flow (findLiveFlow_setFlow_self live _) rfl rfl (Nat.le_refl _),
            Nat.le_trans behind grown⟩

theorem start_ahead {addr : Nat}
    (notLate : ∀ exec, evh.execAt nodeId addr = some exec → time ≤ exec.startTime)
    (effect : StartEffect exactSum evh nodeId addr after inserted) :
    Ahead time queue after inserted := by
  cases effect with
  | ignored missing => exact ⟨timely, by simp⟩
  | @started node exec after events isExec counted launches =>
    constructor
    · intro ev member
      have kept : Timely (evh.setNode node) ev := by
        refine (timely ev member).later (by exact Nat.le_refl _) (.of_same fun _ _ => rfl) ?_
        intro startTime uuid otherAddr isStart exec' isExec'
        rw [counted, changeExec] at isExec'
        split at isExec'
        · rename_i same
          rcases same with ⟨rfl, rfl⟩
          rcases Option.map_eq_some_iff.mp isExec' with ⟨old, isOld, rfl⟩
          exact (timely ev member).start startTime _ _ isStart old isOld
        · exact (timely ev member).start startTime _ _ isStart exec' isExec'
      exact kept.launches launches
    · intro new member
      rcases launches_timely launches new member with ⟨isTimely, later⟩
      exact ⟨isTimely, Nat.le_trans (notLate exec isExec) later⟩

theorem ofIn_ahead {dpId : Nat} {msg : OfMessage}
    (done : handleOfIn exactSum find evh time dpId msg = some (after, inserted)) :
    Ahead time queue after inserted := by
  rcases handleOfIn_effect done with ⟨middle, events, replies, rfl, same, launches, areReplies⟩
  constructor
  · intro ev member
    exact ((timely ev member).sameFlows same).launches launches
  · intro new member
    rcases List.mem_append.mp member with here | there
    · exact launches_timely launches new here
    · rcases areReplies new there with ⟨_, _, rfl⟩
      exact ⟨timely_of_plain rfl nofun, Nat.le_refl _⟩

end

/-- Every handler schedules ahead if no time wraps and restarts come last. -/
theorem handleEvent_ahead {ev : SimEvent} (timely : ∀ ev ∈ queue, Timely evh ev)
    (pending : ev ∈ queue) (last : RestartsLast evh queue ev)
    (done : handleEvent exactSum find evh ev = some (after, inserted)) :
    Ahead ev.time queue after inserted := by
  cases ev with
  | flowRecv time nodeId flowId rate flow =>
    exact recv_ahead timely ((timely _ pending).flow flowId rfl) (handleRecvNetflow_effect done)
  | flowSend time nodeId flowId outPort flow =>
    exact send_ahead timely ((timely _ pending).flow flowId rfl) last
      (handleSendNetflow_effect done)
  | appStart time nodeId addr =>
    exact start_ahead timely ((timely _ pending).start time nodeId addr rfl)
      (handleStartApp_effect done)
  | ofMsgIn time dpId msg => exact ofIn_ahead timely done
  | ofMsgOut time dpId msg =>
    cases done
    exact ⟨timely, by simp⟩
  | routerIn time routerId connId data =>
    rcases Option.map_eq_some_iff.mp done with ⟨next, handled, result⟩
    cases result
    exact ⟨fun ev member => (timely ev member).sameFlows (handleRouterIn_effect handled), by simp⟩

end Handlers

/-! ## Runs -/

theorem timely_setup (topo : Topology) : EachPending Timely (setup topo) := by
  apply eachPending_setup
  intro h own isNode isOwn
  refine ⟨nofun, nofun, ?_⟩
  rintro time uuid addr ⟨rfl⟩ exec isExec
  have found : (setup topo).evh.execAt h.ep.base.uuid own.addr = some own :=
    execAt_of_mem isNode isOwn
  cases found.symm.trans isExec
  exact Nat.le_refl _

variable {sim : SimState}

theorem timely_step {after : SimState} {call : SimCall} (timely : EachPending Timely sim)
    (kept : KeepsTime sim call) (step : simStep sim call = some after) :
    EachPending Timely after := by
  apply timely.step (fun _ _ _ => timely_of_plain rfl nofun)
    (fun _ _ _ _ => timely_of_plain rfl nofun) _ step
  rintro find ev evh inserted rfl pending done
  rw [← kept.1] at done
  rcases handleEvent_ahead timely pending kept.2 done with ⟨still, ahead⟩
  exact List.forall_mem_append.mpr ⟨fun new member => (ahead new member).1,
    fun old member => still old (List.mem_of_mem_erase member)⟩

theorem schedulesAhead_of_timely {call : SimCall} (timely : EachPending Timely sim)
    (kept : KeepsTime sim call) :
    SchedulesAhead sim call := by
  cases call with
  | handle find ev =>
    intro pending evh inserted done new member
    rw [← kept.1] at done
    exact ((handleEvent_ahead timely pending kept.2 done).2 new member).2
  | ofMessage dpId msg => trivial
  | routerMessage routerId connId data => trivial
  | setClock clock => trivial

/-- Dispatching handles events in the order of their times, from a bound on those
pending on. -/
theorem dispatched_in_order {calls : List SimCall} {low : Nat}
    (timely : EachPending Timely sim)
    (sorted : sim.sch.evQueue.Pairwise fun a b => a.time ≤ b.time)
    (above : ∀ ev ∈ sim.sch.evQueue, low ≤ ev.time) (kept : Along simStep KeepsTime sim calls)
    (dispatched : Along simStep Dispatches sim calls) (defined : (run simStep sim calls).isSome) :
    (∀ time ∈ handledTimes calls, low ≤ time) ∧ (handledTimes calls).Pairwise (· ≤ ·) := by
  induction calls generalizing sim low with
  | nil => exact ⟨by simp [handledTimes, handledEvents], List.Pairwise.nil⟩
  | cons call rest ih =>
    cases call with
    | handle find ev =>
      rcases Option.isSome_iff_exists.mp defined with ⟨final, ran⟩
      rcases (run_cons_eq_some_iff _ _ _ _ _).mp ran with ⟨after, step, later⟩
      rcases SimState.handle_eq_some_iff.mp step with ⟨pending, evh, inserted, done, rfl⟩
      have first : ∀ other ∈ sim.sch.evQueue, ev.time ≤ other.time := by
        rcases List.head?_eq_some_iff.mp dispatched.1 with ⟨queue, isQueue⟩
        rw [isQueue] at sorted ⊢
        intro other member
        rcases List.mem_cons.mp member with rfl | behind
        · exact Nat.le_refl _
        · exact (List.pairwise_cons.mp sorted).1 other behind
      have ahead := schedulesAhead_of_timely timely kept.1 pending evh inserted done
      rcases @ih _ ev.time (timely_step timely kept.1 step)
        (insertAll_sorted inserted (sorted.sublist List.erase_sublist)) (by
          intro other member
          rcases mem_insertAll.mp member with here | there
          · exact ahead other here
          · exact first other (List.mem_of_mem_erase there))
        (kept.2 _ step) (dispatched.2 _ step) (by rw [later]; rfl) with ⟨bound, inOrder⟩
      constructor
      · intro time member
        rcases List.mem_cons.mp member with rfl | inRest
        · exact above ev pending
        · exact Nat.le_trans (above ev pending) (bound time inRest)
      · exact List.pairwise_cons.mpr ⟨bound, inOrder⟩
    | ofMessage dpId msg => exact dispatched.1.elim
    | routerMessage routerId connId data => exact dispatched.1.elim
    | setClock clock => exact dispatched.1.elim

/-- If no time wraps and every restart comes last, handlers schedule ahead
throughout every run from the setup events, and events dispatched without input
from outside are handled in the order of their times. -/
theorem schedulesAhead_of_keepsTime (topo : Topology) (calls : List SimCall)
    (kept : Along simStep KeepsTime (setup topo) calls) :
    Along simStep SchedulesAhead (setup topo) calls ∧
      ((run simStep (setup topo) calls).isSome → Along simStep Dispatches (setup topo) calls →
        (handledTimes calls).Pairwise (· ≤ ·)) := by
  constructor
  · exact along_of_invariant timely_step schedulesAhead_of_timely (timely_setup topo) kept
  · intro defined dispatched
    exact (dispatched_in_order (timely_setup topo)
      (insertAll_sorted _ List.Pairwise.nil) (fun ev _ => Nat.zero_le ev.time) kept dispatched
      defined).2

/-- The first ping of the crossed pings asks for an address, and the second host
hears it. -/
theorem schedulesAhead_of_keepsTime_crossedPings :
    Along simStep SchedulesAhead (setup crossedPings) (dispatchCalls 3 (setup crossedPings)) ∧
      (handledTimes (dispatchCalls 3 (setup crossedPings))).Pairwise (· ≤ ·) := by
  have dispatched : Along simStep Dispatches (setup crossedPings)
      (dispatchCalls 3 (setup crossedPings)) := by
    refine ⟨rfl, ?_⟩
    rintro _ ⟨rfl⟩
    refine ⟨rfl, ?_⟩
    rintro _ ⟨rfl⟩
    exact ⟨rfl, fun _ _ => trivial⟩
  refine (schedulesAhead_of_keepsTime crossedPings _ ?_).imp id fun ordered =>
    ordered (by decide +kernel) dispatched
  refine ⟨⟨by decide +kernel, trivial⟩, ?_⟩
  rintro _ ⟨rfl⟩
  refine ⟨⟨by decide +kernel, ?_⟩, ?_⟩
  · intro _ _ _ _ _ _ _ _ _ time member
    rcases List.mem_cons.mp (show _ ∈ [_, _] from member) with same | other
    · cases same
    · cases List.mem_singleton.mp other
  · rintro _ ⟨rfl⟩
    exact ⟨⟨by decide +kernel, trivial⟩, fun _ _ => trivial⟩

/-- The second host of the crossed pings answers the ping of the first, and by that
moves the clock of its own ping, which it starts twice.  The second start is
handled at five seconds and sends at one. -/
theorem restart_schedules_into_past :
    ¬ Along simStep SchedulesAhead (setup crossedPings)
        (dispatchCalls 15 (setup crossedPings)) ∧
      ¬ (handledTimes (dispatchCalls 16 (setup crossedPings))).Pairwise (· ≤ ·) := by
  constructor
  · intro along
    have split : dispatchCalls 15 (setup crossedPings) =
        dispatchCalls 14 (setup crossedPings) ++
          .handle HashFind.latest (.appStart 5000000 2 0) :: [] := rfl
    rw [split] at along
    have ahead := along.at_end rfl
    exact absurd (ahead (by decide) _ _ rfl _ List.mem_cons_self) (by decide)
  · have times : handledTimes (dispatchCalls 16 (setup crossedPings)) =
        [0, 0, 10, 10, 20, 20, 30, 30, 40, 1000030, 1000030, 1000040, 1000040, 1000050, 5000000,
          1000030] := rfl
    rw [times]
    decide

end Horse.Sim
