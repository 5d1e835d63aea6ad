import Horse.Sim.PortExpansion

/-!
# The transmission delay of a send event

A netflow gets onto a link in three ways: a node forwards it, an application starts it, or a
packet-out of the controller brings it.  In all three the send event should be made for the
time when the netflow has been transmitted, and the netflow should have that time as well.
-/

namespace Horse.Sim

open Horse.Container Horse.Lib Horse.Net Horse.Transition

/-- The only event sends a netflow through a port at a time, and the netflow has that time. -/
def SentAt (uuid : Nat) (port : BitVec 32) (time : Nat) (events : List SimEvent) : Prop :=
  ∃ flowId copy, events = [.flowSend time uuid flowId port copy] ∧ copy.startTime = time

/-- `handle_after_flow_recv` sends a netflow at a time, and leaves it with that time. -/
def ForwardedAt (node : TopoNode) (nf : Netflow) (flowId : Nat) (port : BitVec 32) (time : Nat) :
    Prop :=
  ∃ out, handleAfterFlowRecv wrappingSum node nf flowId = some out ∧
    SentAt node.uuid port time out.events ∧ out.nf.startTime = time

/-- The loop of `handle_start_app` sends a netflow at a time. -/
def StartedAt (evh : EvHandler) (node : TopoNode) (nf : Netflow) (port : BitVec 32) (time : Nat) :
    Prop :=
  ∃ after events, startAppLoop wrappingSum node nf nf.outPorts evh = some (after, events) ∧
    SentAt node.uuid port time events

/-- The loop of `handle_of_in` sends a netflow at a time. -/
def PacketOutAt (evh : EvHandler) (dp : Datapath) (nf : Netflow) (port : BitVec 32) (time : Nat) :
    Prop :=
  ∃ after events, sendPacketOut wrappingSum evh nf (some dp) = some (after, events) ∧
    SentAt dp.base.uuid port time events

/-! ## The three ways -/

section Ways

variable {node : TopoNode} {nf : Netflow} {port : BitVec 32} {p : Port}

theorem nodeAddTxTime_of_port {n : Node} (found : nodePort n port = some p) (nf : Netflow) :
    nodeAddTxTime wrappingSum n port nf = (txTime nf.byteCnt p.currSpeed).map fun tx =>
      { nf with startTime := (nf.startTime + tx) % 2 ^ 64 } := by
  rw [nodeAddTxTime, found]
  dsimp only
  rw [netflowUpdateSendTime]
  cases txTime nf.byteCnt p.currSpeed <;> rfl

/-- An application is started at the end of the transmission. -/
theorem startedAt_iff (evh : EvHandler) (found : nodePort node.base port = some p)
    (only : nf.outPorts = [port]) (time : Nat) :
    StartedAt evh node nf port time ↔
      ∃ tx, txTime nf.byteCnt p.currSpeed = some tx ∧ time = (nf.startTime + tx) % 2 ^ 64 := by
  unfold StartedAt
  simp only [only, startAppLoop, nodeAddTxTime_of_port found]
  cases isTx : txTime nf.byteCnt p.currSpeed with
  | none => simp
  | some tx =>
    constructor
    · rintro ⟨after, events, started, flowId, copy, rfl, -⟩
      cases started
      exact ⟨tx, rfl, rfl⟩
    · rintro ⟨_, ⟨rfl⟩, rfl⟩
      exact ⟨_, _, rfl, _, _, rfl, rfl⟩

theorem chargePort_of_port (found : nodePort node.base port = some p) (nf : Netflow) :
    chargePort wrappingSum node nf port =
      (updateLoad p.bufferState (flowRate nf)).bind fun ts =>
        (txTime nf.byteCnt p.currSpeed).map fun tx =>
          (node.setBase (node.base.updatePort port fun p => { p with bufferState := ts }),
            { nf with startTime := (nf.startTime + tx) % 2 ^ 64 }) := by
  rw [chargePort, nodeUpdatePortCapacity_of_port _ found]
  cases updateLoad p.bufferState (flowRate nf) with
  | none => rfl
  | some ts =>
    have still := @nodePort_updatePort (fun p => { p with bufferState := ts }) (fun _ => rfl)
      node.base port port
    rw [if_pos rfl, found, Option.map_some] at still
    rw [Option.map_some, Option.bind_some, Option.bind_some, nodeAddTxTime_of_port still,
      Option.map_map]
    rfl

/-- A flood is not sent through a port of its own. -/
theorem LoopRun.sent_ne_flood {sum : TimeSum} {flowId : Nat} {out : Forwarded}
    (run : LoopRun sum flowId node nf out) {time uuid id : Nat} {copy : Netflow}
    (sent : .flowSend time uuid id port copy ∈ out.events) : port ≠ ofppFlood := by
  induction run with
  | done ports => cases sent
  | controller ports later ih =>
    rcases List.mem_cons.mp sent with isOther | inTail
    · cases isOther
    · exact ih inTail
  | flood ports later ih => exact ih sent
  | send ports notController notFlood charged later ih =>
    rcases List.mem_cons.mp sent with isFirst | inTail
    · cases isFirst
      exact notFlood
    · exact ih inTail

/-- A forwarded netflow is sent at the end of the transmission. -/
theorem forwardedAt_iff (flowId : Nat) (found : nodePort node.base port = some p)
    (only : nf.outPorts = [port]) (time : Nat) :
    ForwardedAt node nf flowId port time ↔
      (port ≠ ofppController ∧ port ≠ ofppFlood) ∧
        (updateLoad p.bufferState (flowRate nf)).isSome ∧
        ∃ tx, txTime nf.byteCnt p.currSpeed = some tx ∧ time = (nf.startTime + tx) % 2 ^ 64 := by
  have turns : handleAfterFlowRecv wrappingSum node nf flowId =
      outPortLoop wrappingSum flowId (node.base.ports.length + 1 + 1) node nf := by
    rw [handleAfterFlowRecv, only, List.length_singleton, Nat.one_mul]
  rw [ForwardedAt, turns]
  by_cases ordinary : port ≠ ofppController ∧ port ≠ ofppFlood
  · rw [and_iff_right ordinary, outPortLoop, only]
    dsimp only
    have sameRate : flowRate { nf with outPorts := [] } = flowRate nf := rfl
    rw [if_neg ordinary.1, if_neg ordinary.2, chargePort_of_port found, sameRate]
    cases updateLoad p.bufferState (flowRate nf) with
    | none => simp
    | some ts =>
      cases txTime nf.byteCnt p.currSpeed with
      | none => simp
      | some tx =>
        have sameUuid : (node.setBase (node.base.updatePort port
            fun p => { p with bufferState := ts })).uuid = node.uuid := by
          rw [TopoNode.uuid, TopoNode.base_setBase]
          rfl
        simp only [Option.map_some, Option.bind_some, outPortLoop, Option.some.injEq, sameUuid]
        constructor
        · rintro ⟨out, rfl, -, rfl⟩
          exact ⟨rfl, tx, rfl, rfl⟩
        · rintro ⟨-, _, rfl, rfl⟩
          exact ⟨_, rfl, ⟨flowId, _, rfl, rfl⟩, rfl⟩
  · refine iff_of_false ?_ fun all => ordinary all.1
    rintro ⟨out, looped, ⟨id, copy, isEvents, -⟩, -⟩
    have sent : SimEvent.flowSend time node.uuid id port copy ∈ out.events := by
      rw [isEvents]
      exact List.mem_singleton_self _
    have run := outPortLoop_runs looped
    have isController : port = ofppController := by
      by_contra notController
      exact ordinary ⟨notController, run.sent_ne_flood sent⟩
    cases run with
    | done ports => cases only.symm.trans ports
    | controller ports later => cases isEvents
    | flood ports later =>
      rw [only, isController] at ports
      cases ports
    | send ports notController _ _ _ =>
      cases only.symm.trans ports
      exact notController isController

/-- A packet-out is sent at once, but its netflow has the time of the end of the
transmission. -/
theorem packetOutAt_iff (evh : EvHandler) {dp : Datapath} (found : nodePort dp.base port = some p)
    (only : nf.outPorts = [port]) (time : Nat) :
    PacketOutAt evh dp nf port time ↔
      port ≠ ofppFlood ∧ time = nf.startTime ∧
        ∃ tx, txTime nf.byteCnt p.currSpeed = some tx ∧ time = (nf.startTime + tx) % 2 ^ 64 := by
  have turns : sendPacketOut wrappingSum evh nf (some dp) =
      packetOutLoop wrappingSum dp (dp.base.ports.length + 1 + 1)
        (evh.setNode (.datapath dp)) nf := by
    rw [sendPacketOut, only, List.length_singleton, Nat.one_mul]
  rw [PacketOutAt, turns]
  by_cases isFlood : port = ofppFlood
  · refine iff_of_false ?_ fun all => all.1 isFlood
    rintro ⟨after, events, looped, id, copy, rfl, -⟩
    have outcomes := packetOutLoop_outcomes (dp.base.ports.length + 1 + 1) dp
      (evh.setNode (.datapath dp)) nf
    rw [looped, Option.map_some] at outcomes
    obtain ⟨order, drained, isSent⟩ := Option.bind_eq_some_iff.mp outcomes.symm
    unfold sentOf at isSent
    split at isSent
    · obtain ⟨other, rfl, same⟩ := List.map_eq_singleton_iff.mp (Option.some.inj isSent)
      cases same
      have plain := plain_of_drain drained port List.mem_cons_self
      exact (growth_eq_none_iff _ _).mp plain isFlood
    · cases isSent
  · rw [and_iff_right isFlood, packetOutLoop, only]
    dsimp only
    rw [if_neg isFlood, nodeAddTxTime_of_port found]
    cases txTime nf.byteCnt p.currSpeed with
    | none => simp
    | some tx =>
      simp only [Option.map_some, Option.bind_some, packetOutLoop, Option.some.injEq]
      constructor
      · rintro ⟨after, events, looped, id, copy, rfl, isCopy⟩
        cases looped
        exact ⟨rfl, tx, rfl, isCopy.symm⟩
      · rintro ⟨rfl, _, rfl, isTime⟩
        exact ⟨_, _, rfl, _, _, rfl, isTime.symm⟩

end Ways

/-! ## All of them -/

/-- The three ways charge the same delay exactly if the port is an ordinary one, its
transmission time and load are defined, and, on a datapath, transmission takes no time: a
packet-out is sent before the delay is added. -/
theorem txDelay_iff (node : TopoNode) (port : BitVec 32) (p : Port)
    (found : nodePort node.base port = some p) (nf : Netflow) (only : nf.outPorts = [port])
    (flowId : Nat) (evh : EvHandler) :
    (∃ tx, txTime nf.byteCnt p.currSpeed = some tx ∧
        ForwardedAt node nf flowId port (nf.startTime + tx) ∧
        StartedAt evh node nf port (nf.startTime + tx) ∧
        ∀ dp, node = .datapath dp → PacketOutAt evh dp nf port (nf.startTime + tx)) ↔
      ∃ tx, txTime nf.byteCnt p.currSpeed = some tx ∧ nf.startTime + tx < 2 ^ 64 ∧
        (port ≠ ofppController ∧ port ≠ ofppFlood) ∧
        (updateLoad p.bufferState (flowRate nf)).isSome ∧
        ∀ dp, node = .datapath dp → tx = 0 := by
  refine exists_congr fun tx => and_congr_right fun isTx => ?_
  rw [forwardedAt_iff flowId found only, startedAt_iff evh found only]
  have exact_iff : (∃ other, txTime nf.byteCnt p.currSpeed = some other ∧
      nf.startTime + tx = (nf.startTime + other) % 2 ^ 64) ↔ nf.startTime + tx < 2 ^ 64 := by
    constructor
    · rintro ⟨other, isOther, same⟩
      rw [same]
      exact Nat.mod_lt _ (by decide)
    · intro fits
      exact ⟨tx, isTx, (Nat.mod_eq_of_lt fits).symm⟩
  rw [exact_iff]
  constructor
  · rintro ⟨⟨ordinary, room, fits⟩, -, packetOut⟩
    refine ⟨fits, ordinary, room, fun dp isDp => ?_⟩
    subst isDp
    obtain ⟨-, atOnce, -⟩ := (packetOutAt_iff evh found only _).mp (packetOut dp rfl)
    omega
  · rintro ⟨fits, ordinary, room, quick⟩
    refine ⟨⟨ordinary, room, fits⟩, fits, fun dp isDp => ?_⟩
    have noTime := quick dp isDp
    subst isDp
    refine (packetOutAt_iff evh found only _).mpr ⟨ordinary.2, ?_, exact_iff.mpr fits⟩
    rw [noTime, Nat.add_zero]

/-- A router with a port of 10 megabits per second sends a megabyte after 0.8 seconds. -/
theorem txDelay_router :
    ForwardedAt ((TopoNode.router (routerNew 1)).setBase (twoSpeeds 10000 1000000))
      { netflowNew with byteCnt := 1000000, outPorts := [1] } 0 1 800000 := by
  obtain ⟨tx, isTx, forwarded, -⟩ :=
    (txDelay_iff ((TopoNode.router (routerNew 1)).setBase (twoSpeeds 10000 1000000)) 1
      (portNew 1 0 10000) rfl { netflowNew with byteCnt := 1000000, outPorts := [1] } rfl 0
      (setup topologyNew).evh).mpr ⟨800000, by decide, by decide, by decide, by decide, nofun⟩
  cases isTx
  exact forwarded

/-- The packet-out of a netflow of a megabit on a link of a gigabit per second is sent a
millisecond before its netflow says, and before it would be forwarded. -/
theorem packetOut_sent_early :
    (∃ after new, sendPacketOut wrappingSum (setup topologyNew).evh
        { netflowNew with byteCnt := 125000, outPorts := [1] } (some (onePort 1)) =
          some (after, [.flowSend 0 1 0 1 new]) ∧ new.startTime = 1000) ∧
      ForwardedAt (.datapath (onePort 1))
        { netflowNew with byteCnt := 125000, outPorts := [1] } 0 1 1000 :=
  ⟨⟨_, _, rfl, rfl⟩, ⟨_, rfl, ⟨_, _, rfl, rfl⟩, rfl⟩⟩

end Horse.Sim
