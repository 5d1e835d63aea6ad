import Horse.Sim.LoadEffects

/-!
# Runs that keep the load of ports

The load of every port is the sum over its pending sends along a run exactly if each
step meets the condition.
-/

namespace Horse.Sim

open Horse.Container Horse.Lib Horse.Net Horse.Transition

section Numbers

variable {sim : SimState} {after : EvHandler} {inserted : List SimEvent} {ev : SimEvent}

/-- Live flows are only made, and new events are about those that were made. -/
structure NumbersFlows (evh after : EvHandler) (inserted : List SimEvent) : Prop where
  more : evh.nextFlowId ≤ after.nextFlowId
  made : ∀ new ∈ inserted, ∀ flowId, new.flowId? = some flowId → flowId < after.nextFlowId

variable {evh : EvHandler} {sum : TimeSum} {find : HashFind Flow} {nodeId : Nat}

theorem NumbersFlows.quiet (same : after.nextFlowId = evh.nextFlowId) :
    NumbersFlows evh after [] :=
  ⟨Nat.le_of_eq same.symm, List.forall_mem_nil _⟩

theorem Launches.numbersFlows {start : Nat} {events : List SimEvent}
    (launches : Launches sum start evh events after) :
    NumbersFlows evh after events where
  more := launches.nextFlowId
  made := by
    intro new member flowId isId
    obtain ⟨_, _, _, _, _, _, rfl, -, below, -⟩ := launches.sends member
    cases isId
    exact below

theorem recv_numbersFlows {flowId : Nat}
    (effect : RecvEffect sum find evh nodeId flowId after inserted)
    (ownId : flowId < evh.nextFlowId) : NumbersFlows evh after inserted := by
  cases effect with
  | ignored missing => exact .quiet rfl
  | dropped atNode live isFlow received same => exact .quiet rfl
  | forwarded atNode live isFlow received looped same =>
    refine ⟨Nat.le_refl _, ?_⟩
    intro new member other isId
    cases (outPortLoop_runs looped).effect.events new member with
    | send time port flow =>
      cases isId
      exact ownId
    | packetIn => cases isId

theorem restarts_noFlow {node next : TopoNode} {nf : Netflow} {started : List SimEvent}
    (restarts : Restarts sum evh nodeId node nf next started) :
    ∀ new ∈ started, new.flowId? = none := by
  intro new member
  obtain ⟨_, _, _, rfl⟩ := restarts_isStart restarts new member
  rfl

theorem send_numbersFlows {flowId : Nat} {outPort : BitVec 32}
    (effect : SendEffect sum evh nodeId flowId outPort after inserted)
    (ownId : flowId < evh.nextFlowId) : NumbersFlows evh after inserted := by
  cases effect with
  | ignored missing => exact .quiet rfl
  | lost atNode live isFlow sent loss same => exact .quiet rfl
  | freed atNode live isFlow sent noLoss restarts unlinked =>
    refine ⟨Nat.le_refl _, ?_⟩
    intro new member other isId
    cases (restarts_noFlow restarts new member).symm.trans isId
  | crossed atNode live isFlow sent noLoss restarts linked crosses =>
    refine ⟨Nat.le_refl _, ?_⟩
    intro new member other isId
    rcases List.mem_append.mp member with isStart | isRecv
    · cases (restarts_noFlow restarts new isStart).symm.trans isId
    · cases List.mem_singleton.mp isRecv
      cases isId
      exact ownId

theorem handleEvent_numbersFlows
    (ownId : ∀ flowId, ev.flowId? = some flowId → flowId < evh.nextFlowId)
    (done : handleEvent sum find evh ev = some (after, inserted)) :
    NumbersFlows evh after inserted := by
  cases ev with
  | flowRecv time nodeId flowId rate flow =>
    exact recv_numbersFlows (handleRecvNetflow_effect done) (ownId flowId rfl)
  | flowSend time nodeId flowId outPort flow =>
    exact send_numbersFlows (handleSendNetflow_effect done) (ownId flowId rfl)
  | appStart time nodeId addr =>
    cases handleStartApp_effect done with
    | ignored missing => exact .quiet rfl
    | started isExec counted launches =>
      have numbers := launches.numbersFlows
      exact ⟨numbers.more, numbers.made⟩
  | ofMsgIn time dpId msg =>
    obtain ⟨middle, events, replies, rfl, same, launches, areReplies⟩ := handleOfIn_effect done
    refine ⟨same.nextFlowId ▸ launches.nextFlowId, ?_⟩
    intro new member other isId
    rcases List.mem_append.mp member with sent | isReply
    · exact launches.numbersFlows.made new sent other isId
    · obtain ⟨_, _, rfl⟩ := areReplies new isReply
      cases isId
  | ofMsgOut time dpId msg =>
    cases done
    exact .quiet rfl
  | routerIn time routerId connId data =>
    obtain ⟨final, handled, result⟩ := Option.map_eq_some_iff.mp done
    cases result
    exact .quiet (handleRouterIn_effect handled).nextFlowId

theorem known_step {next : SimState} {call : SimCall} (known : EachPending Known sim)
    (step : simStep sim call = some next) : EachPending Known next := by
  apply known.step (fun _ _ _ _ => nofun) (fun _ _ _ _ _ => nofun) _ step
  rintro find ev evh inserted rfl pending done
  have numbers := handleEvent_numbersFlows (known ev pending) done
  refine List.forall_mem_append.mpr ⟨numbers.made, ?_⟩
  intro other old flowId isId
  exact Nat.lt_of_lt_of_le (known other (List.mem_of_mem_erase old) flowId isId) numbers.more

end Numbers

/-! ## Runs -/

/-- The ports as `port_new` makes them. -/
def FreshPorts (topo : Topology) : Prop :=
  ∀ node ∈ topo.nodes, ∀ p ∈ node.base.ports, p.bufferState.load = 0

theorem balanced_setup {topo : Topology} (fresh : FreshPorts topo) : Balanced (setup topo) := by
  intro uuid port load isLoad
  have nothing : pendingLoad (setup topo).evh.rateOf (setup topo).sch.evQueue uuid port = 0 := by
    apply pendingLoad_of_noSend
    intro ev member
    rcases mem_insertAll.mp member with inserted | old
    · obtain ⟨h, exec, -, -, rfl⟩ := mem_setupAppEvents.mp inserted
      rfl
    · cases old
  obtain ⟨node, p, atNode, found, rfl⟩ := bind_map_eq_some_iff.mp isLoad
  rw [nothing]
  exact fresh node (List.mem_of_find?_eq_some atNode) p (List.mem_of_find?_eq_some found)

/-- A message that arrives changes neither loads nor sums. -/
theorem Balanced.insert {sim : SimState} (balanced : Balanced sim) {ev : SimEvent}
    (noSend : ∀ rates uuid port, sendRate rates uuid port ev = 0) :
    Balanced { sim with sch := schedulerInsert SimEvent.time sim.sch ev } := by
  intro uuid port load isLoad
  rw [schedulerInsert, pendingLoad_perm (insertInorder_perm _ _ _), pendingLoad_cons, noSend,
    Int.zero_add]
  exact balanced uuid port load isLoad

theorem step_balanced_iff {sim after : SimState} {call : SimCall} (known : EachPending Known sim)
    (balanced : Balanced sim) (step : simStep sim call = some after) :
    Balanced after ↔ KeepsLoad sim call := by
  cases call with
  | handle find ev =>
    obtain ⟨pending, evh, inserted, done, rfl⟩ := SimState.handle_eq_some_iff.mp step
    exact handle_balanced_iff balanced known pending done
  | ofMessage dpId msg =>
    cases step
    exact iff_of_true (balanced.insert fun _ _ _ => rfl) trivial
  | routerMessage routerId connId data =>
    cases step
    exact iff_of_true (balanced.insert fun _ _ _ => rfl) trivial
  | setClock clock =>
    cases step
    exact iff_of_true balanced trivial

/-- After every step of a run the load of each port is the sum of the rates of its pending
sends, if and only if every step meets the condition. -/
theorem balanced_along_iff (topo : Topology) (fresh : FreshPorts topo) (calls : List SimCall) :
    Along simStep (fun sim call => ∀ after, simStep sim call = some after → Balanced after)
        (setup topo) calls ↔
      Along simStep (fun sim call => (simStep sim call).isSome → KeepsLoad sim call)
        (setup topo) calls := by
  apply @along_keeps_iff _ _ simStep KeepsLoad Balanced (fun _ => True)
    (EachPending Known)
  · intro sim call after _ known step
    exact known_step known step
  · intro sim call after _ known balanced step
    exact step_balanced_iff known balanced step
  · exact eachPending_setup fun _ _ _ _ _ => nofun
  · exact balanced_setup fresh
  · exact fun _ _ => trivial

/-- The first of the two hosts sends 12032 bytes to the second. -/
def udpAndPing : Topology :=
  { crossedPings with
    nodes := [.host (pinger 2 0x02 0x0a000002 0x0a000001 5000000),
      .host (appHost 1 0x01 0x0a000001 (.udp 100000 0x0a000002 5000 6000) 0)]
    distinct := by decide }

/-- The bytes wait for the address of the second host.  Once it has answered they are sent,
with the rate 96, and received. -/
theorem balanced_along_udpAndPing :
    (∃ sim, run simStep (setup udpAndPing) (dispatchCalls 5 (setup udpAndPing)) = some sim ∧
      sim.evh.loadAt 1 1 = some 96) ∧
    Along simStep (fun sim call => ∀ after, simStep sim call = some after → Balanced after)
      (setup udpAndPing) (dispatchCalls 7 (setup udpAndPing)) := by
  refine ⟨⟨_, rfl, rfl⟩, ?_⟩
  have fresh : FreshPorts udpAndPing := by
    unfold FreshPorts
    decide +kernel
  apply (balanced_along_iff udpAndPing fresh _).mpr
  -- The start and the request have the rate 0, and nothing else is sent while the reply and
  -- the bytes are received.
  refine ⟨?_, ?_⟩
  · rintro _ _ _ _ _ ⟨rfl⟩ ⟨rfl⟩ ⟨rfl⟩ _ _ _
    rfl
  rintro _ ⟨rfl⟩
  refine ⟨fun _ _ _ _ _ _ noHop => (nomatch noHop), ?_⟩
  rintro _ ⟨rfl⟩
  refine ⟨?_, ?_⟩
  · rintro _ _ _ _ _ ⟨rfl⟩ ⟨rfl⟩ ⟨rfl⟩ _
    rfl
  rintro _ ⟨rfl⟩
  refine ⟨fun _ _ _ _ _ _ noHop => (nomatch noHop), ?_⟩
  rintro _ ⟨rfl⟩
  refine ⟨?_, ?_⟩
  · rintro _ _ _ _ _ _ _ _ ⟨_, _, _, _, sends, _⟩
    rcases List.mem_pair.mp sends with isRecv | isStart
    · cases isRecv
    · cases isStart
  rintro _ ⟨rfl⟩
  refine ⟨fun _ _ _ _ _ _ noHop => (nomatch noHop), ?_⟩
  rintro _ ⟨rfl⟩
  refine ⟨?_, fun _ _ => trivial⟩
  rintro _ _ _ _ _ _ _ _ ⟨_, _, _, _, sends, _⟩
  rcases List.mem_pair.mp sends with isRecv | isStart
  · cases isRecv
  · cases isStart

/-- A packet-out of 1250 bytes to the second port of a datapath. -/
def largePacketOut : OfMessage :=
  .packetOut 0xffffffff 0
    (some ⟨OflFlowKey.zero, TagStack.zeroed, netflowNew.icmpInfo, [], 0, 1250⟩) [.output 2]

/-- The packet waits to be sent with the rate 10, and the load of the port is 0. -/
theorem packetOut_puts_no_load :
    ∃ sim, run simStep (setup (flooded 1000000))
        [.ofMessage 4 largePacketOut, .handle HashFind.latest (.ofMsgIn 0 4 largePacketOut)] =
          some sim ∧
      sim.evh.loadAt 4 2 = some 0 ∧
      pendingLoad sim.evh.rateOf sim.sch.evQueue 4 2 = 10 :=
  ⟨_, rfl, rfl, rfl⟩

end Horse.Sim
