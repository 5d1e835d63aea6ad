import Horse.Net.ArpSound
import Horse.Sim.Memory

/-!
# ARP tables over runs

An ARP table is sound if each of its entries has the Ethernet address of the port that
owns its IPv4 address.  Entries are learned from messages that other nodes and the
controller have sent, so the invariant also speaks about the netflows that are alive.
-/

namespace Horse.Sim

open Horse.Container Horse.Lib Horse.Net Horse.Transition

/-! ## Ports and their addresses -/

/-- The ports of all nodes. -/
def allPorts (topo : Topology) : List Port :=
  topo.nodes.flatMap fun node => node.base.ports

/-- The port with an IPv4 address. -/
def portOwning (topo : Topology) (ip : BitVec 32) : Option Port :=
  (allPorts topo).find? fun p => p.ipv4Addr.any fun info => info.addr == ip

/-- The Ethernet address of the port that owns an IPv4 address. -/
def Owns (topo : Topology) (ip : BitVec 32) (ethAddr : BitVec 48) : Prop :=
  (portOwning topo ip).map Port.ethAddress = some ethAddr

/-- No two ports have the same IPv4 address or the same Ethernet address. -/
structure DistinctAddresses (topo : Topology) : Prop where
  ipv4 : ((allPorts topo).filterMap fun p => p.ipv4Addr.map Ipv4Info.addr).Nodup
  eth : ((allPorts topo).map Port.ethAddress).Nodup

/-- The ARP tables and buffers as `legacy_node_init` makes them. -/
def FreshNodes (topo : Topology) : Prop :=
  ∀ node ∈ topo.nodes, node.base.flowBuff.flows = [] ∧
    ∀ table, node.memory.arp = some table → table.entries = []

/-- Every entry of every ARP table has the Ethernet address of the port that owns its
address in a topology. -/
def ArpSound (topo : Topology) (evh : EvHandler) : Prop :=
  ∀ node ∈ evh.topo.nodes, ∀ table, node.memory.arp = some table →
    ∀ e ∈ table.entries, Owns topo e.ip e.ethAddr

/-! ## Conditions on a step -/

/-- Two netflows with the same Ethernet and ARP fields. -/
structure SameFrame (out nf : Netflow) : Prop where
  ethDst : out.key.ethDst = nf.key.ethDst
  ethSrc : out.key.ethSrc = nf.key.ethSrc
  ethType : out.key.ethType = nf.key.ethType
  arpOp : out.key.arpOp = nf.key.arpOp
  arpSpa : out.key.arpSpa = nf.key.arpSpa
  arpTpa : out.key.arpTpa = nf.key.arpTpa
  arpSha : out.key.arpSha = nf.key.arpSha
  arpTha : out.key.arpTha = nf.key.arpTha

/-- A datapath that receives a netflow does not rewrite its Ethernet and ARP fields. -/
def KeepsFrames (sim : SimState) : SimCall → Prop
  | .handle find (.flowRecv _ nodeId flowId _ _) =>
    ∀ dp nf out after, topologyNode sim.evh.topo nodeId = some (.datapath dp) →
      (sim.evh.findLiveFlow flowId).bind LiveFlow.flow = some nf →
      dpRecvNetflow find dp nf = some (some out, after) → SameFrame out nf
  | _ => True

/-- A host or a router takes ARP requests only on ports with an IPv4 address, and an ARP
message that a controller sends through a datapath is honest. -/
def KeepsArp (topo : Topology) (sim : SimState) : SimCall → Prop
  | .handle _ (.flowRecv _ nodeId flowId _ _) =>
    ∀ node nf, topologyNode sim.evh.topo nodeId = some node →
      (sim.evh.findLiveFlow flowId).bind LiveFlow.flow = some nf →
      (∀ dp, node ≠ .datapath dp) → TakesRequest node.base nf
  | .handle _ (.ofMsgIn time dpId (.packetOut bufferId inPort packet al)) =>
    ∀ dp nf port, topologyDatapathByDpid sim.evh.topo dpId = some dp →
      dpHandlePktOut bufferId inPort packet al netflowNew time = some nf →
      PacketOutPort dp.base nf port → Honest (Owns topo) nf
  | _ => True

/-! ## Netflows in the handlers -/

section Loops

variable {sum : TimeSum} {evh after : EvHandler} {events : List SimEvent}

/-- A live flow was there, or is a new one with a header and without output ports. -/
def OldOrNew (evh : EvHandler) (key : OflFlowKey) (lf : LiveFlow) : Prop :=
  lf ∈ evh.liveFlows ∨ ∃ new, lf.flow = some new ∧ new.key = key ∧ new.outPorts = []

theorem OldOrNew.of_add {nodeId : Nat} {new : Netflow} {key : OflFlowKey} {lf : LiveFlow}
    (sameKey : new.key = key) (noPorts : new.outPorts = [])
    (later : OldOrNew (evh.addLiveFlow nodeId new) key lf) : OldOrNew evh key lf := by
  rcases later with member | isNew
  · rcases List.mem_cons.mp member with rfl | old
    · exact Or.inr ⟨new, rfl, sameKey, noPorts⟩
    · exact Or.inl old
  · exact Or.inr isNew

theorem SendRun.flows {n : Node} {nf : Netflow} {ports : List (BitVec 32)}
    (run : SendRun sum n { nf with outPorts := [] } ports evh events after) :
    ∀ lf ∈ after.liveFlows, OldOrNew evh nf.key lf := by
  induction run with
  | nil evh => exact fun lf member => Or.inl member
  | cons added isTime rest ih =>
    have isNew := (nodeAddTxTime_eq added).1
    intro lf member
    exact (ih lf member).of_add (by rw [isNew]) (by rw [isNew])

theorem packetOutLoop_flows {dp : Datapath} {turns : Nat} {nf : Netflow}
    (looped : packetOutLoop sum dp turns evh nf = some (after, events)) :
    ∀ lf ∈ after.liveFlows, OldOrNew evh nf.key lf :=
  match packetOutLoop_runs looped with
  | ⟨_, _, run⟩ => run.flows

end Loops

/-! ## The invariant -/

section Invariant

variable {owns : BitVec 32 → BitVec 48 → Prop}

/-- All nodes are truthful, and the netflows of live flows are honest. -/
structure ArpInvariant (owns : BitVec 32 → BitVec 48 → Prop) (evh : EvHandler) : Prop where
  nodes : ∀ uuid memory, evh.memoryAt uuid = some memory → memory.Truthful owns
  flows : ∀ lf ∈ evh.liveFlows, ∀ nf, lf.flow = some nf → nf.outPorts = [] ∧ Honest owns nf

variable {nodeId flowId time : Nat} {nf : Netflow} {find : HashFind Flow} {topo : Topology}
  {sim : SimState}

theorem SameFrame.honest {out : Netflow} (same : SameFrame out nf) (honest : Honest owns nf) :
    Honest owns out := by
  intro isArp
  rw [same.ethType] at isArp
  rw [same.arpOp, same.arpSpa, same.ethSrc, same.arpSha]
  exact honest isArp

/-- A node that receives an honest netflow stays truthful, and returns an honest one. -/
theorem recvNetflow_truthful {node after : TopoNode} {out : Option Netflow}
    (truthful : node.memory.Truthful owns) (honest : Honest owns nf) (noPorts : nf.outPorts = [])
    (takes : (∀ dp, node ≠ .datapath dp) → TakesRequest node.base nf)
    (frames : ∀ dp out after, node = .datapath dp →
      dpRecvNetflow find dp nf = some (some out, after) → SameFrame out nf)
    (received : node.recvNetflow find nf = some (out, after)) :
    after.memory.Truthful owns ∧ ∀ f, out = some f → Honest owns f := by
  cases node with
  | datapath dp =>
    obtain ⟨⟨sent, dp'⟩, done, result⟩ := Option.map_eq_some_iff.mp received
    cases result
    have sameMemory : (TopoNode.datapath dp').memory = (TopoNode.datapath dp).memory := by
      simp only [TopoNode.memory, (dpRecvNetflow_keepsPorts done).addresses,
        dpRecvNetflow_flowBuff done]
    rw [sameMemory]
    refine ⟨truthful, ?_⟩
    rintro f ⟨rfl⟩
    exact (frames dp f dp' rfl done).honest honest
  | host h =>
    obtain ⟨⟨sent, h'⟩, done, result⟩ := Option.map_eq_some_iff.mp received
    cases result
    exact hostRecvNetflow_truthful truthful honest noPorts (takes (by rintro _ ⟨⟩)) done
  | router r =>
    obtain ⟨⟨sent, r'⟩, done, result⟩ := Option.map_eq_some_iff.mp received
    cases result
    exact routerRecvNetflow_truthful truthful honest noPorts (takes (by rintro _ ⟨⟩)) done

variable {evh after : EvHandler} {inserted : List SimEvent}

section

variable (inv : ArpInvariant owns evh)

include inv

theorem ArpInvariant.setNode {node old : TopoNode}
    (atNode : topologyNode evh.topo nodeId = some old) (sameUuid : node.uuid = nodeId)
    (truthful : node.memory.Truthful owns) : ArpInvariant owns (evh.setNode node) where
  nodes := by
    intro uuid memory isMemory
    rw [memoryAt_setNode atNode sameUuid] at isMemory
    split at isMemory
    · cases isMemory
      exact truthful
    · exact inv.nodes uuid memory isMemory
  flows := inv.flows

theorem ArpInvariant.setFlow (flowId : Nat) {flow : Option Netflow}
    (honest : ∀ nf, flow = some nf → nf.outPorts = [] ∧ Honest owns nf) :
    ArpInvariant owns (evh.setFlow flowId flow) where
  nodes := inv.nodes
  flows := by
    intro lf member nf isFlow
    rcases mem_updateFirst member with old | ⟨_, -, rfl⟩
    · exact inv.flows lf old nf isFlow
    · exact honest nf isFlow

theorem ArpInvariant.live {lf : LiveFlow} (live : evh.findLiveFlow flowId = some lf)
    (isFlow : lf.flow = some nf) :
    nf.outPorts = [] ∧ Honest owns nf :=
  inv.flows lf (List.mem_of_find?_eq_some live) nf isFlow

theorem ArpInvariant.node {node : TopoNode} (atNode : topologyNode evh.topo nodeId = some node) :
    node.memory.Truthful owns :=
  inv.nodes nodeId _ (by rw [EvHandler.memoryAt, atNode]; rfl)

end

/-! ### Handlers -/

theorem recv_arpInvariant {rate : Int} {flow : Netflow} (inv : ArpInvariant (Owns topo) sim.evh)
    (frames : KeepsFrames sim (.handle find (.flowRecv time nodeId flowId rate flow)))
    (keeps : KeepsArp topo sim (.handle find (.flowRecv time nodeId flowId rate flow)))
    (effect : RecvEffect wrappingSum find sim.evh nodeId flowId after inserted) :
    ArpInvariant (Owns topo) after := by
  have received_truthful {node next : TopoNode} {lf : LiveFlow} {nf : Netflow}
      {out : Option Netflow} (atNode : topologyNode sim.evh.topo nodeId = some node)
      (live : sim.evh.findLiveFlow flowId = some lf) (isFlow : lf.flow = some nf)
      (received : node.recvNetflow find nf = some (out, next)) :
      next.uuid = nodeId ∧ next.memory.Truthful (Owns topo) ∧
        ∀ f, out = some f → Honest (Owns topo) f := by
    have found : (sim.evh.findLiveFlow flowId).bind LiveFlow.flow = some nf := by
      rw [live, Option.bind_some, isFlow]
    obtain ⟨noPorts, honest⟩ := inv.live live isFlow
    refine ⟨(TopoNode.recvNetflow_keepsPorts received).sameUuid.trans
      (topologyNode_uuid atNode), ?_⟩
    apply recvNetflow_truthful (inv.node atNode) honest noPorts (keeps node nf atNode found) _
      received
    rintro dp sent dp' rfl done
    exact frames dp nf sent dp' atNode found done
  cases effect with
  | ignored missing => exact inv
  | dropped atNode live isFlow received same =>
    obtain ⟨sameUuid, truthful, -⟩ := received_truthful atNode live isFlow received
    have kept := inv.setNode atNode sameUuid truthful
    exact ⟨kept.nodes, fun lf member => kept.flows lf (List.mem_of_mem_eraseP member)⟩
  | forwarded atNode live isFlow received looped same =>
    obtain ⟨sameUuid, truthful, honest⟩ := received_truthful atNode live isFlow received
    obtain ⟨sameKey, noPorts⟩ := (outPortLoop_runs looped).key
    rw [← (outPortLoop_runs looped).memory] at truthful
    apply (inv.setNode atNode ((outPortLoop_runs looped).effect.sameUuid.trans sameUuid)
      truthful).setFlow
    rintro _ ⟨rfl⟩
    exact ⟨noPorts, (honest _ rfl).congr sameKey⟩

theorem send_arpInvariant {sum : TimeSum} {outPort : BitVec 32} (inv : ArpInvariant owns evh)
    (done : handleSendNetflow sum evh nodeId flowId outPort = some (after, inserted)) :
    ArpInvariant owns after := by
  have nodes : ∀ uuid memory, after.memoryAt uuid = some memory → memory.Truthful owns := by
    rw [(handleSendNetflow_effect done).memoryAt]
    exact inv.nodes
  refine ⟨nodes, ?_⟩
  cases handleSendNetflow_effect done with
  | ignored missing => exact inv.flows
  | lost atNode live isFlow sent loss same => exact inv.flows
  | freed atNode live isFlow sent noLoss restarts unlinked =>
    have kept := inv.setFlow flowId (fun nf (isNone : none = some nf) => nomatch isNone)
    exact kept.flows
  | @crossed node next lf nf arrived started dst latency atNode live isFlow sent noLoss restarts
      linked crosses =>
      obtain ⟨noPorts, honest⟩ := inv.live live isFlow
      obtain ⟨delayed, delays, rfl⟩ := Option.map_eq_some_iff.mp crosses
      obtain ⟨time, -, rfl⟩ := Option.map_eq_some_iff.mp delays
      have arrives : ∀ f, some { nf with
          startTime := time, key := { nf.key with inPort := dst.port } } = some f →
          f.outPorts = [] ∧ Honest owns f := by
        rintro _ ⟨rfl⟩
        exact ⟨noPorts, honest⟩
      have kept := inv.setFlow flowId arrives
      exact kept.flows

theorem start_arpInvariant {sum : TimeSum} {addr : Nat} (inv : ArpInvariant owns evh)
    (done : handleStartApp sum evh nodeId addr = some (after, inserted)) :
    ArpInvariant owns after := by
  rcases handleStartApp_cases done with
    ⟨-, rfl, rfl⟩ | ⟨h, exec, out, next, atNode, isExec, executed, sameUuid, last⟩
  · exact inv
  · obtain ⟨truthful, honest⟩ := hostExecuteApp_truthful (inv.node atNode) executed
    have kept : ArpInvariant owns (evh.setNode (.host next)) :=
      inv.setNode atNode sameUuid truthful
    cases out with
    | none =>
      cases last
      exact kept
    | some nf =>
      have sameMemory := (startAppLoop_runs last).launches.memoryAt
      refine ⟨by rw [sameMemory]; exact kept.nodes, ?_⟩
      intro lf member new isNew
      rcases (startAppLoop_runs last).flows lf member with old | ⟨_, isFlow, sameKey, noPorts⟩
      · exact kept.flows lf old new isNew
      · cases isFlow.symm.trans isNew
        exact ⟨noPorts, (honest nf rfl).congr sameKey⟩

/-- A netflow that leaves a datapath on a message is honest. -/
theorem ofIn_honest {dpId : Nat} {msg : OfMessage} {reply : Option OfReply} {dp : Datapath}
    {port : BitVec 32} (keeps : KeepsArp topo sim (.handle find (.ofMsgIn time dpId msg)))
    (handled : dpControlHandleControlMsg find (topologyDatapathByDpid sim.evh.topo dpId) msg
      netflowNew time = some (reply, nf, some dp))
    (isPort : PacketOutPort dp.base nf port) : Honest (Owns topo) nf := by
  cases msg with
  | packetOut bufferId inPort packet al =>
    obtain ⟨out, isOut, result⟩ := Option.map_eq_some_iff.mp handled
    simp only [Prod.mk.injEq] at result
    obtain ⟨-, rfl, isDp⟩ := result
    exact keeps dp out port isDp isOut isPort
  | _ =>
    have notArp : netflowNew.key.ethType ≠ ethTypeArp := by decide
    cases dpControlHandleControlMsg_noPacket rfl handled
    exact .of_notArp notArp

theorem ofIn_arpInvariant {dpId : Nat} {msg : OfMessage} (inv : ArpInvariant (Owns topo) sim.evh)
    (keeps : KeepsArp topo sim (.handle find (.ofMsgIn time dpId msg)))
    (done : handleOfIn wrappingSum find sim.evh time dpId msg = some (after, inserted)) :
    ArpInvariant (Owns topo) after := by
  obtain ⟨middle, _, sameMemory, -, -, launches⟩ := handleOfIn_memory done
  constructor
  · rw [launches.memoryAt, sameMemory]
    exact inv.nodes
  · obtain ⟨reply, nf, changed, events, handled, -, ⟨-, rfl, -⟩ | ⟨dp, rfl, sent⟩⟩ :=
      handleOfIn_cases done
    · exact inv.flows
    · cases events with
      | nil =>
        cases packetOutLoop_launches sent
        exact inv.flows
      | cons ev later =>
        obtain ⟨_, _, port, _, -, isPort, -⟩ :=
          (packetOutLoop_sentOn sent).each ev List.mem_cons_self
        intro lf member new isNew
        rcases packetOutLoop_flows sent lf member with old | ⟨_, isFlow, sameKey, noPorts⟩
        · exact inv.flows lf old new isNew
        · cases isFlow.symm.trans isNew
          exact ⟨noPorts, (ofIn_honest keeps handled isPort).congr sameKey⟩

end Invariant

/-! ## Runs -/

section Runs

variable {topo : Topology}

/-- In a list in which no value is read twice, a value is read of one entry only. -/
theorem eq_of_filterMap_nodup {α β : Type} {read : α → Option β} {entries : List α}
    (distinct : (entries.filterMap read).Nodup) {first second : α} {value : β}
    (firstMem : first ∈ entries) (secondMem : second ∈ entries)
    (readsFirst : read first = some value) (readsSecond : read second = some value) :
    first = second := by
  induction entries with
  | nil => cases firstMem
  | cons entry rest ih =>
    have inRest {other : α} (member : other ∈ rest) (reads : read other = some value) :
        value ∈ rest.filterMap read :=
      List.mem_filterMap.mpr ⟨other, member, reads⟩
    rcases List.mem_cons.mp firstMem with rfl | firstLater
    · rcases List.mem_cons.mp secondMem with rfl | secondLater
      · rfl
      · rw [List.filterMap_cons_some readsFirst, List.nodup_cons] at distinct
        exact absurd (inRest secondLater readsSecond) distinct.1
    · rcases List.mem_cons.mp secondMem with rfl | secondLater
      · rw [List.filterMap_cons_some readsSecond, List.nodup_cons] at distinct
        exact absurd (inRest firstLater readsFirst) distinct.1
      · apply ih _ firstLater secondLater
        exact distinct.sublist ((List.sublist_cons_self entry rest).filterMap read)

/-- A port owns the address it has. -/
theorem DistinctAddresses.owns (distinct : DistinctAddresses topo) {p : Port} {info : Ipv4Info}
    (isPort : p ∈ allPorts topo) (hasAddr : p.ipv4Addr = some info) :
    Owns topo info.addr p.ethAddress := by
  have passes : (p.ipv4Addr.any fun other => other.addr == info.addr) = true := by
    simp [hasAddr]
  have isSome : (portOwning topo info.addr).isSome :=
    List.find?_isSome.mpr ⟨p, isPort, passes⟩
  obtain ⟨owner, isOwner⟩ := Option.isSome_iff_exists.mp isSome
  have ownerHas : owner.ipv4Addr.map Ipv4Info.addr = some info.addr := by
    have found := List.find?_some isOwner
    cases hasOther : owner.ipv4Addr with
    | none => simp [hasOther] at found
    | some other => simpa [hasOther] using found
  have same : owner = p := by
    apply eq_of_filterMap_nodup distinct.ipv4 (List.mem_of_find?_eq_some isOwner) isPort ownerHas
    rw [hasAddr]
    rfl
  rw [Owns, isOwner, same]
  rfl

theorem arpInvariant_setup (distinct : DistinctAddresses topo) (fresh : FreshNodes topo) :
    ArpInvariant (Owns topo) (setup topo).evh where
  nodes := by
    intro uuid memory isMemory
    obtain ⟨node, atNode, rfl⟩ := Option.map_eq_some_iff.mp isMemory
    have isNode : node ∈ topo.nodes := List.mem_of_find?_eq_some atNode
    obtain ⟨noFlows, noEntries⟩ := fresh node isNode
    refine ⟨?_, ?_, ?_⟩
    · intro entry member info hasAddr
      rw [TopoNode.memory_ports] at member
      obtain ⟨p, isPort, rfl⟩ := List.mem_map.mp member
      exact distinct.owns (List.mem_flatMap.mpr ⟨node, isNode, isPort⟩) hasAddr
    · intro table isTable e member
      rw [noEntries table isTable] at member
      cases member
    · rw [TopoNode.memory_buffer, noFlows]
      exact List.forall_mem_nil _
  flows := List.forall_mem_nil _

theorem handle_arpInvariant {sim : SimState} {find : HashFind Flow} {ev : SimEvent}
    {after : EvHandler} {inserted : List SimEvent} (inv : ArpInvariant (Owns topo) sim.evh)
    (frames : KeepsFrames sim (.handle find ev)) (keeps : KeepsArp topo sim (.handle find ev))
    (done : handleEvent wrappingSum find sim.evh ev = some (after, inserted)) :
    ArpInvariant (Owns topo) after := by
  cases ev with
  | flowRecv time nodeId flowId rate flow =>
    exact recv_arpInvariant inv frames keeps (handleRecvNetflow_effect done)
  | flowSend time nodeId flowId outPort flow => exact send_arpInvariant inv done
  | appStart time nodeId addr => exact start_arpInvariant inv done
  | ofMsgIn time dpId msg => exact ofIn_arpInvariant inv keeps done
  | ofMsgOut time dpId msg =>
    cases done
    exact inv
  | routerIn time routerId connId data =>
    obtain ⟨final, handled, result⟩ := Option.map_eq_some_iff.mp done
    cases result
    obtain ⟨sameMemory, sameFlows⟩ := handleRouterIn_memory handled
    refine ⟨?_, ?_⟩
    · rw [sameMemory]
      exact inv.nodes
    · rw [sameFlows]
      exact inv.flows

theorem step_arpInvariant {sim after : SimState} {call : SimCall}
    (inv : ArpInvariant (Owns topo) sim.evh)
    (keeps : KeepsFrames sim call ∧ KeepsArp topo sim call)
    (step : simStep sim call = some after) : ArpInvariant (Owns topo) after.evh := by
  cases call with
  | handle find ev =>
    obtain ⟨-, evh, inserted, done, rfl⟩ := SimState.handle_eq_some_iff.mp step
    exact handle_arpInvariant inv keeps.1 keeps.2 done
  | ofMessage _ _ | routerMessage _ _ _ | setClock _ =>
    cases step
    exact inv

theorem ArpInvariant.sound {evh : EvHandler} (inv : ArpInvariant (Owns topo) evh) :
    ArpSound topo evh := by
  intro node isNode table isTable
  have atNode : topologyNode evh.topo node.uuid = some node := find?_of_mem evh.topo.distinct isNode
  exact (inv.node atNode).table table isTable

/-- Over every run from a topology with distinct addresses, in which datapaths do not
rewrite frames, the ARP tables stay sound if every ARP request is taken by a port with an
address and the controller sends honest ARP messages. -/
theorem arp_sound_along (topo : Topology) (distinct : DistinctAddresses topo)
    (fresh : FreshNodes topo) (calls : List SimCall)
    (keeps : Along simStep (fun sim call => KeepsFrames sim call ∧ KeepsArp topo sim call)
      (setup topo) calls) :
    Along simStep (fun sim call => ∀ after, simStep sim call = some after →
      ArpSound topo after.evh) (setup topo) calls := by
  apply @along_of_invariant _ _ simStep _ (fun sim => ArpInvariant (Owns topo) sim.evh)
  · exact fun inv keeps step => step_arpInvariant inv keeps step
  · exact fun inv keeps after step => (step_arpInvariant inv keeps step).sound
  · exact arpInvariant_setup distinct fresh
  · exact keeps

/-- The first ping of the crossed pings, up to the reply to its ARP request. -/
theorem arp_sound_along_crossedPings :
    Along simStep (fun sim call => ∀ after, simStep sim call = some after →
      ArpSound crossedPings after.evh) (setup crossedPings)
      (dispatchCalls 5 (setup crossedPings)) := by
  have distinct : DistinctAddresses crossedPings := ⟨by decide, by decide⟩
  have fresh : FreshNodes crossedPings := by
    intro node isNode
    rcases List.mem_cons.mp isNode with rfl | isNode
    · exact ⟨rfl, by rintro _ ⟨rfl⟩; rfl⟩
    · cases List.mem_singleton.mp isNode
      exact ⟨rfl, by rintro _ ⟨rfl⟩; rfl⟩
  apply arp_sound_along crossedPings distinct fresh
  refine ⟨⟨trivial, trivial⟩, ?_⟩
  rintro _ ⟨rfl⟩
  refine ⟨⟨trivial, trivial⟩, ?_⟩
  rintro _ ⟨rfl⟩
  constructor
  · constructor
    · rintro _ _ _ _ ⟨⟩
    · rintro _ _ ⟨rfl⟩ ⟨rfl⟩ _ _ _ _ ⟨rfl⟩ _ noAddr
      cases noAddr
  · rintro _ ⟨rfl⟩
    refine ⟨⟨trivial, trivial⟩, ?_⟩
    rintro _ ⟨rfl⟩
    refine ⟨⟨?_, ?_⟩, fun _ _ => trivial⟩
    · rintro _ _ _ _ ⟨⟩
    · rintro _ _ ⟨rfl⟩ ⟨rfl⟩ _ _ isRequest
      exact absurd isRequest (by decide)

/-- A host with one port that has no IPv4 address. -/
def muteHost (uuid : Nat) (ethAddr : BitVec 48) : Host :=
  { hostNew uuid with
    ep := { legacyNodeInit uuid with base := nodeAddPort (nodeInit uuid) 1 ethAddr 1000000 } }

/-- A host that pings 10.0.0.2 has a link to a port without an address.  The address
belongs to a third host. -/
def muteNeighbor : Topology where
  nodes := [.host (pinger 3 0x03 0x0a000002 0x0a000001 5000000), .host (muteHost 2 0x02),
    .host (pinger 1 0x01 0x0a000001 0x0a000002 0)]
  links := [⟨⟨2, 1⟩, ⟨1, 1⟩, 10, 0⟩, ⟨⟨1, 1⟩, ⟨2, 1⟩, 10, 0⟩]
  dps := []
  routers := []
  distinct := by decide

/-- The port without an address answers the request for 10.0.0.2. -/
theorem mute_port_answers :
    DistinctAddresses muteNeighbor ∧ Owns muteNeighbor 0x0a000002 0x03 ∧
      ∃ sim, run simStep (setup muteNeighbor) (dispatchCalls 5 (setup muteNeighbor)) = some sim ∧
        (sim.evh.memoryAt 1).bind NodeMemory.arp = some ⟨[⟨0x0a000002, 0x02, 1⟩]⟩ ∧
        ¬ArpSound muteNeighbor sim.evh := by
  refine ⟨⟨by decide, by decide⟩, rfl, _, rfl, rfl, ?_⟩
  intro sound
  have wrong := sound _ (List.mem_cons_of_mem _ (List.mem_cons_of_mem _ List.mem_cons_self)) _
    rfl _ List.mem_cons_self
  exact absurd (Option.some.inj wrong) (by decide)

end Runs

end Horse.Sim
