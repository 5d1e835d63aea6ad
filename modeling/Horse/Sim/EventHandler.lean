import Horse.Net.Topology
import Horse.Sim.Scheduler

/-!
# The event handlers

Netflows travel through the topology by events: a node receives a netflow, and
what it forwards is sent later on each of its output ports.  The netflow itself
is kept in a table of live flows, and events only carry its identifier.

A handler returns the events it inserts, in order, next to the changed state.  An
undefined result is a fault: a null or freed pointer is followed, an integer
overflows, or a loop does not end.
-/

namespace Horse.Sim

open Horse.Container Horse.Lib Horse.Net Horse.Transition

/-! ## Events and live flows -/

/-- The events that `handle_event` takes.  The netflow of an event is the value it
had when the event was made.  It only serves to talk about the netflow at that
time: the source keeps a pointer in a receive event and nothing in a send event,
and no handler reads it. -/
inductive SimEvent
  | flowRecv (time nodeId flowId : Nat) (rate : Int) (flow : Netflow)
  | flowSend (time nodeId flowId : Nat) (outPort : BitVec 32) (flow : Netflow)
  | appStart (time nodeId addr : Nat)
  | ofMsgIn (time dpId : Nat) (msg : OfMessage)
  | ofMsgOut (time dpId : Nat) (msg : OfReply)
  | routerIn (time : Nat) (routerId : BitVec 32) (connId : Nat) (data : List (BitVec 8))
  deriving DecidableEq, Repr

namespace SimEvent

/-- The time of an event. -/
def time : SimEvent → Nat
  | flowRecv time .. => time
  | flowSend time .. => time
  | appStart time .. => time
  | ofMsgIn time .. => time
  | ofMsgOut time .. => time
  | routerIn time .. => time

/-- The live flow that a receive or send event is about. -/
def flowId? : SimEvent → Option Nat
  | flowRecv _ _ flowId .. => some flowId
  | flowSend _ _ flowId .. => some flowId
  | _ => none

end SimEvent

/-- `struct live_flow`; the netflow is missing after it was freed. -/
structure LiveFlow where
  flowId : Nat
  nodeId : Nat
  flow : Option Netflow
  deriving DecidableEq, Repr

/-- `struct ev_handler` without the scheduler, and the counter of `live_flow_new`.
The counter is not bounded here, so that a newer live flow has a larger number. -/
structure EvHandler where
  topo : Topology
  liveFlows : List LiveFlow
  nextFlowId : Nat
  numbered : (nextFlowId :: liveFlows.map LiveFlow.flowId).Pairwise (· > ·)
  deriving DecidableEq, Repr

namespace EvHandler

/-- Replace a node of the topology. -/
def setNode (evh : EvHandler) (node : TopoNode) : EvHandler :=
  { evh with topo := evh.topo.setNode node }

/-- `find_live_flow`. -/
def findLiveFlow (evh : EvHandler) (flowId : Nat) : Option LiveFlow :=
  evh.liveFlows.find? fun lf => lf.flowId == flowId

/-- Assign the netflow of a live flow. -/
def setFlow (evh : EvHandler) (flowId : Nat) (flow : Option Netflow) : EvHandler :=
  { evh with
    liveFlows := updateFirst (fun lf => lf.flowId == flowId)
      (fun lf => { lf with flow := flow }) evh.liveFlows
    numbered := by
      rw [map_updateFirst _ _ (by simp)]
      exact evh.numbered }

/-- `del_live_flow`. -/
def delLiveFlow (evh : EvHandler) (flowId : Nat) : EvHandler :=
  { evh with
    liveFlows := evh.liveFlows.eraseP fun lf => lf.flowId == flowId
    numbered := evh.numbered.sublist ((List.eraseP_sublist.map _).cons_cons _) }

/-- `live_flow_new` and `add_live_flow`. -/
def addLiveFlow (evh : EvHandler) (nodeId : Nat) (flow : Netflow) : EvHandler :=
  { evh with
    liveFlows := ⟨evh.nextFlowId, nodeId, some flow⟩ :: evh.liveFlows
    nextFlowId := evh.nextFlowId + 1
    numbered := by
      refine List.pairwise_cons.mpr ⟨?_, evh.numbered⟩
      intro other member
      rcases List.mem_cons.mp member with rfl | older
      · exact Nat.lt_succ_self _
      · exact Nat.lt_succ_of_lt ((List.pairwise_cons.mp evh.numbered).1 other older) }

end EvHandler

/-! ## Handlers -/

section Handlers

variable (sum : TimeSum) (find : HashFind Flow)

/-- The load that a netflow puts on a port. -/
def flowRate (nf : Netflow) : Int :=
  min (nf.byteCnt / 125) (2 ^ 31 - 1)

/-- `OFPR_ACTION`. -/
def ofprAction : BitVec 8 := 1

/-- The packet-in that a datapath sends; the dpid of another node is not defined. -/
def packetIn (nf : Netflow) : TopoNode → Option SimEvent
  | .datapath dp => some (.ofMsgOut nf.startTime dp.dpId (.packetIn nf))
  | _ => none

/-- The netflow as it goes into a packet-in. -/
def setReason (nf : Netflow) : Netflow :=
  { nf with metadata := { nf.metadata with reason := ofprAction } }

/-- Charge a port with a netflow and add the time to transmit it. -/
def chargePort (node : TopoNode) (nf : Netflow) (port : BitVec 32) :
    Option (TopoNode × Netflow) :=
  (nodeUpdatePortCapacity node.base (flowRate nf) port).bind fun n =>
    (nodeAddTxTime sum n port nf).map fun nf => (node.setBase n, nf)

/-- What the loop over output ports leaves behind. -/
structure Forwarded where
  node : TopoNode
  nf : Netflow
  events : List SimEvent

/-- An event in front of those of the rest of the loop. -/
def Forwarded.cons (ev : SimEvent) (rest : Forwarded) : Forwarded :=
  { rest with events := ev :: rest.events }

/-- The loop of `handle_after_flow_recv`.  A flood is replaced by the ports of the
node, which go to the end of the list. -/
def outPortLoop (flowId : Nat) : Nat → TopoNode → Netflow → Option Forwarded
  | 0, _, _ => none
  | turns + 1, node, nf =>
    match nf.outPorts with
    | [] => some ⟨node, nf, []⟩
    | port :: rest =>
      let nf := { nf with outPorts := rest }
      if port = ofppController then
        (packetIn (setReason nf) node).bind fun ev =>
          (outPortLoop flowId turns node (setReason nf)).map (Forwarded.cons ev)
      else if port = ofppFlood then
        outPortLoop flowId turns node (dpCreateFlood node.base nf)
      else
        (chargePort sum node nf port).bind fun (node, nf) =>
          (outPortLoop flowId turns node nf).map
            (Forwarded.cons (.flowSend nf.startTime node.uuid flowId port nf))

/-- `handle_after_flow_recv`.  Each port of the list stands for at most all ports
of the node, so the turns are enough unless a port of the node has the number of
a flood. -/
def handleAfterFlowRecv (node : TopoNode) (nf : Netflow) (flowId : Nat) : Option Forwarded :=
  outPortLoop sum flowId (nf.outPorts.length * (node.base.ports.length + 1) + 1) node nf

/-- The part of `handle_recv_netflow` after the netflow was received. -/
def afterReceived (evh : EvHandler) (flowId : Nat) (node : TopoNode) :
    Option Netflow → Option (EvHandler × List SimEvent)
  | none => some ((evh.setNode node).delLiveFlow flowId, [])
  | some nf =>
    (handleAfterFlowRecv sum node nf flowId).map fun out =>
      ((evh.setNode out.node).setFlow flowId (some out.nf), out.events)

/-- `handle_recv_netflow`. -/
def handleRecvNetflow (evh : EvHandler) (nodeId flowId : Nat) :
    Option (EvHandler × List SimEvent) :=
  match topologyNode evh.topo nodeId, evh.findLiveFlow flowId with
  | some node, some lf =>
    lf.flow.bind fun nf =>
      (node.recvNetflow find nf).bind fun out => afterReceived sum evh flowId out.2 out.1
  | _, _ => some (evh, [])

/-- The execution of a sending host that `handle_after_flow_send` schedules next:
one with the identifier in the netflow and executions left. -/
def nextExec (nf : Netflow) : TopoNode → Option Exec
  | .host h => (h.execs.find? fun exec => exec.id == nf.execId).filter fun exec => exec.execCnt ≠ 0
  | _ => none

/-- Assign the start time of an execution of a host. -/
def setExecStart (addr time : Nat) : TopoNode → TopoNode
  | .host h => .host (h.updateExec addr id fun _ => time)
  | node => node

/-- The first part of `handle_after_flow_send`: the next execution of the
application is scheduled. -/
def scheduleExec (node : TopoNode) (nf : Netflow) : Option (TopoNode × List SimEvent) :=
  match nextExec nf node with
  | none => some (node, [])
  | some exec =>
    (sum nf.startTime 1000000).map fun time =>
      (setExecStart exec.addr time node, [.appStart time node.uuid exec.addr])

/-- A netflow as it reaches the port at the other end of a link. -/
def crossLink (nf : Netflow) (latency port : BitVec 32) : Option Netflow :=
  (nf.delay sum latency.toNat).map fun nf =>
    { nf with key := { nf.key with inPort := port } }

/-- The second part of `handle_after_flow_send`: the netflow crosses the link, or
is freed at a port without one. -/
def crossOrFree (evh : EvHandler) (nodeId : Nat) (outPort : BitVec 32) (nf : Netflow)
    (flowId : Nat) : Option (EvHandler × List SimEvent) :=
  match topologyNextHop evh.topo nodeId outPort with
  | none => some (evh.setFlow flowId none, [])
  | some (dst, latency) =>
    (crossLink sum nf latency dst.port).map fun nf =>
      (evh.setFlow flowId (some nf),
        [.flowRecv nf.startTime dst.uuid flowId (flowRate nf) nf])

/-- `handle_after_flow_send`. -/
def handleAfterFlowSend (evh : EvHandler) (node : TopoNode) (outPort : BitVec 32)
    (nf : Netflow) (flowId : Nat) : Option (EvHandler × List SimEvent) :=
  (scheduleExec sum node nf).bind fun (node, started) =>
    (crossOrFree sum (evh.setNode node) node.uuid outPort nf flowId).map fun out =>
      (out.1, started ++ out.2)

/-- `handle_send_netflow`. -/
def handleSendNetflow (evh : EvHandler) (nodeId flowId : Nat) (outPort : BitVec 32) :
    Option (EvHandler × List SimEvent) :=
  match topologyNode evh.topo nodeId, evh.findLiveFlow flowId with
  | some node, some lf =>
    lf.flow.bind fun nf =>
      (nodeUpdatePortCapacity node.base (-flowRate nf) outPort).bind fun n =>
        if nodeCalculatePortLoss node.base outPort ≠ 0 then
          some (evh.setNode (node.setBase n), [])
        else
          handleAfterFlowSend sum evh ((node.setBase n).sendNetflow nf outPort) outPort nf flowId
  | _, _ => some (evh, [])

/-- The loop of `handle_of_in`: every port gets a netflow of its own, and the time
to transmit it is only added after the send event was made. -/
def packetOutLoop (dp : Datapath) :
    Nat → EvHandler → Netflow → Option (EvHandler × List SimEvent)
  | 0, _, _ => none
  | turns + 1, evh, nf =>
    match nf.outPorts with
    | [] => some (evh, [])
    | port :: rest =>
      let nf := { nf with outPorts := rest }
      if port = ofppFlood then packetOutLoop dp turns evh (dpCreateFlood dp.base nf)
      else
        (nodeAddTxTime sum dp.base port { nf with outPorts := [] }).bind fun new =>
          (packetOutLoop dp turns (evh.addLiveFlow dp.base.uuid new) nf).map fun out =>
            (out.1, .flowSend nf.startTime dp.base.uuid evh.nextFlowId port new :: out.2)

/-- The netflow of a packet-out leaves the datapath; without a datapath only an
empty list of ports is harmless. -/
def sendPacketOut (evh : EvHandler) (nf : Netflow) :
    Option Datapath → Option (EvHandler × List SimEvent)
  | none => if nf.outPorts.isEmpty then some (evh, []) else none
  | some dp =>
    packetOutLoop sum dp (nf.outPorts.length * (dp.base.ports.length + 1) + 1)
      (evh.setNode (.datapath dp)) nf

/-- The event that sends the reply of a datapath. -/
def replyEvent (time : Nat) (reply : Option OfReply) (dp : Datapath) : Option SimEvent :=
  reply.map (.ofMsgOut time dp.dpId)

/-- `handle_of_in`. -/
def handleOfIn (evh : EvHandler) (time dpId : Nat) (msg : OfMessage) :
    Option (EvHandler × List SimEvent) :=
  (dpControlHandleControlMsg find (topologyDatapathByDpid evh.topo dpId) msg netflowNew time).bind
    fun (reply, nf, dp) =>
      (sendPacketOut sum evh nf dp).map fun out =>
        (out.1, out.2 ++ (dp.bind (replyEvent time reply)).toList)

/-- `handle_router_in`. -/
def handleRouterIn (evh : EvHandler) (routerId : BitVec 32) (data : List (BitVec 8)) :
    Option EvHandler :=
  match topologyRouterById evh.topo routerId with
  | none => some evh
  | some r => (routerHandleControlMessage r data).map fun r => evh.setNode (.router r)

/-- The loop of `handle_start_app`: every port gets a netflow of its own. -/
def startAppLoop (node : TopoNode) (nf : Netflow) :
    List (BitVec 32) → EvHandler → Option (EvHandler × List SimEvent)
  | [], evh => some (evh, [])
  | port :: rest, evh =>
    (nodeAddTxTime sum node.base port { nf with outPorts := [] }).bind fun new =>
      (startAppLoop node nf rest (evh.addLiveFlow node.uuid new)).map fun out =>
        (out.1, .flowSend new.startTime node.uuid evh.nextFlowId port new :: out.2)

/-- What `handle_start_app` does with the netflow of the application. -/
def sendStarted (evh : EvHandler) (node : TopoNode) :
    Option Netflow → Option (EvHandler × List SimEvent)
  | none => some (evh.setNode node, [])
  | some nf => startAppLoop sum node nf nf.outPorts (evh.setNode node)

/-- `handle_start_app`; the node is taken for a host. -/
def handleStartApp (evh : EvHandler) (nodeId addr : Nat) : Option (EvHandler × List SimEvent) :=
  match topologyNode evh.topo nodeId with
  | none => some (evh, [])
  | some (.host h) =>
    (h.execAt addr).bind fun exec =>
      (hostExecuteApp h exec).bind fun out => sendStarted sum evh (.host out.2) out.1
  | some _ => none

/-- `handle_event`. -/
def handleEvent (evh : EvHandler) : SimEvent → Option (EvHandler × List SimEvent)
  | .flowRecv _ nodeId flowId .. => handleRecvNetflow sum find evh nodeId flowId
  | .flowSend _ nodeId flowId outPort _ => handleSendNetflow sum evh nodeId flowId outPort
  | .appStart _ nodeId addr => handleStartApp sum evh nodeId addr
  | .ofMsgIn time dpId msg => handleOfIn sum find evh time dpId msg
  | .ofMsgOut .. => some (evh, [])
  | .routerIn _ routerId _ data => (handleRouterIn evh routerId data).map fun evh => (evh, [])

end Handlers

/-! ## Runs of the simulator -/

/-- The handlers' state and the scheduler. -/
structure SimState where
  evh : EvHandler
  sch : Scheduler SimEvent
  deriving DecidableEq, Repr

/-- The start events of a host, the oldest execution first. -/
def hostAppEvents (h : Host) : List SimEvent :=
  h.execs.reverse.map fun exec => .appStart exec.startTime h.ep.base.uuid exec.addr

/-- The events that `setup_app_events` inserts. -/
def setupAppEvents (topo : Topology) : List SimEvent :=
  topo.nodes.reverse.flatMap fun
    | .host h => hostAppEvents h
    | _ => []

/-- Insert events one after the other. -/
def insertAll (sch : Scheduler SimEvent) (events : List SimEvent) : Scheduler SimEvent :=
  events.foldl (schedulerInsert SimEvent.time) sch

/-- The simulator after `setup`. -/
def setup (topo : Topology) : SimState where
  evh := ⟨topo, [], 0, List.pairwise_singleton _ _⟩
  sch := insertAll (schedulerNew SimEvent) (setupAppEvents topo)

/-- What happens to a simulator: one of its events is handled, a controller or a
routing daemon sends a message, or the clock is set. -/
inductive SimCall
  | handle (find : HashFind Flow) (ev : SimEvent)
  | ofMessage (dpId : Nat) (msg : OfMessage)
  | routerMessage (routerId : BitVec 32) (connId : Nat) (data : List (BitVec 8))
  | setClock (clock : Nat)

/-- An event is taken from the queue and handled. -/
def SimState.handle (sum : TimeSum) (find : HashFind Flow) (sim : SimState) (ev : SimEvent) :
    Option SimState :=
  if ev ∈ sim.sch.evQueue then
    (handleEvent sum find sim.evh ev).map fun out =>
      ⟨out.1, insertAll { sim.sch with evQueue := sim.sch.evQueue.erase ev } out.2⟩
  else none

/-- One step.  Events are handled in any order here. -/
def simStep : Step SimState SimCall
  | sim, .handle find ev => sim.handle wrappingSum find ev
  | sim, .ofMessage dpId msg =>
    some { sim with
      sch := connManagerOfMessageCb SimEvent.time sim.sch fun clock => .ofMsgIn clock dpId msg }
  | sim, .routerMessage routerId connId data =>
    some { sim with
      sch := schedulerInsert SimEvent.time sim.sch
        (.routerIn sim.sch.clock routerId connId data) }
  | sim, .setClock clock => some { sim with sch := { sim.sch with clock := clock } }

/-- The events that are handled in a run. -/
def handledEvents (calls : List SimCall) : List SimEvent :=
  calls.filterMap fun
    | .handle _ ev => some ev
    | _ => none

/-- The calls of a run that handles the pending events at the given places of the queue. -/
def handleCalls : List Nat → SimState → List SimCall
  | [], _ => []
  | place :: rest, sim =>
    match sim.sch.evQueue[place]? with
    | none => []
    | some ev =>
      let call := .handle HashFind.latest ev
      match simStep sim call with
      | none => [call]
      | some after => call :: handleCalls rest after

/-- The calls of a run that dispatches the given number of events. -/
def dispatchCalls (count : Nat) (sim : SimState) : List SimCall :=
  handleCalls (List.replicate count 0) sim

/-- A host that sends a ping. -/
def pinger (uuid : Nat) (ethAddr : BitVec 48) (ip ipDst : BitVec 32) (startTime : Nat) : Host :=
  appHost uuid ethAddr ip (.pingv4 ipDst) startTime

/-- Two hosts with a link between them that ping each other, the second one five
seconds after the first. -/
def crossedPings : Topology where
  nodes := [.host (pinger 2 0x02 0x0a000002 0x0a000001 5000000),
    .host (pinger 1 0x01 0x0a000001 0x0a000002 0)]
  links := [⟨⟨2, 1⟩, ⟨1, 1⟩, 10, 0⟩, ⟨⟨1, 1⟩, ⟨2, 1⟩, 10, 0⟩]
  dps := []
  routers := []
  distinct := by decide

end Horse.Sim
