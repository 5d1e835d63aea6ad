import Horse.Net.Datapath

/-!
# OpenFlow messages

The messages a controller can send to a datapath, after they were decoded, and
the replies, before they are encoded.  A message for an unknown datapath is
handled with a null pointer, which most kinds of messages follow.
-/

namespace Horse.Net

open Horse.Container Horse.Lib

/-- `OFPP_FLOOD`. -/
def ofppFlood : BitVec 32 := 0xfffffffb

/-- `OFPP_CONTROLLER`. -/
def ofppController : BitVec 32 := 0xfffffffd

/-- `OFPP_ANY`. -/
def ofppAny : BitVec 32 := 0xffffffff

/-- `OFPTT_ALL`. -/
def ofpttAll : BitVec 8 := 0xff

/-- What `pkt_to_netflow` reads from the data of a packet-out. -/
structure DecodedPacket where
  key : OflFlowKey
  tags : TagStack
  icmpInfo : IcmpEchoReply
  payload : List (BitVec 8)
  payloadLen : BitVec 16
  bytes : Nat
  deriving DecidableEq, Repr

/-- The kinds of flow modification. -/
inductive FlowModCommand
  | add
  | modify
  | modifyStrict
  | delete
  | deleteStrict
  deriving DecidableEq, Repr

/-- The part of `struct ofl_flow_stats_req` that a request is answered by. -/
structure FlowStatsReq where
  tableId : BitVec 8
  key : OflFlowKey
  mask : OflFlowKey
  deriving DecidableEq, Repr

/-- A request after it was zeroed. -/
def FlowStatsReq.zero : FlowStatsReq := ⟨0, OflFlowKey.zero, OflFlowKey.zero⟩

/-- A message from the controller. -/
inductive OfMessage
  | packetOut (bufferId inPort : BitVec 32) (packet : Option DecodedPacket) (al : List Action)
  | flowMod (command : FlowModCommand) (f : Flow)
  | portStatsRequest (xid portNo : BitVec 32)
  | flowStatsRequest (xid : BitVec 32) (req : FlowStatsReq)
  | aggregateStatsRequest (xid : BitVec 32) (req : FlowStatsReq)
  | portDescRequest (xid : BitVec 32)
  | other
  deriving DecidableEq, Repr

/-- A message to the controller. -/
inductive OfReply
  | packetIn (nf : Netflow)
  | portStats (xid : BitVec 32) (entries : List (BitVec 32 × PortStats))
  | flowStats (xid : BitVec 32) (flows : List Flow)
  | aggregateStats (xid : BitVec 32) (flows : List Flow)
  | portDesc (xid : BitVec 32) (ports : List Port)
  deriving DecidableEq, Repr

/-- `dp_handle_pkt_out`: the netflow that a packet-out describes, with the output
ports of its actions. -/
def dpHandlePktOut (bufferId inPort : BitVec 32) (packet : Option DecodedPacket)
    (al : List Action) (nf : Netflow) (time : Nat) : Option Netflow :=
  let nf := Netflow.setBufferId { nf with startTime := time } bufferId
  executeActionList al <|
    match packet with
    | none => { nf with key := { nf.key with inPort := inPort } }
    | some pkt =>
      { nf with
        key := { pkt.key with inPort := inPort }
        tags := pkt.tags
        icmpInfo := pkt.icmpInfo
        payload := pkt.payload
        payloadLen := pkt.payloadLen
        pktCnt := 1
        byteCnt := pkt.bytes }

/-- Replace a table; an index outside the array is undefined. -/
def Datapath.updateTable (dp : Datapath) (tableId : BitVec 8)
    (change : FlowTable → FlowTable) : Option Datapath :=
  dp.tables[tableId.toNat]?.map fun table =>
    { dp with
      tables := dp.tables.set tableId.toNat (change table)
      tablesNum := by rw [List.length_set, dp.tablesNum] }

/-- `dp_handle_flow_mod`. -/
def dpHandleFlowMod (find : HashFind Flow) (dp : Datapath) (command : FlowModCommand)
    (f : Flow) (time : Nat) : Option Datapath :=
  dp.updateTable f.tableId fun ft =>
    match command with
    | .add => addFlow ft f time
    | .modify => modifyFlow find ft f false time
    | .modifyStrict => modifyFlow find ft f true time
    | .delete => deleteFlow find ft f time false
    | .deleteStrict => deleteFlow find ft f time true

/-- `dp_handle_port_stats_req`; the statistics of a port that does not exist are
read through a null pointer. -/
def dpHandlePortStatsReq (dp : Datapath) (xid portNo : BitVec 32) : Option OfReply :=
  if portNo = ofppAny then
    some (.portStats xid (dp.base.ports.reverse.map fun p => (p.portId, p.stats)))
  else (dpPort dp portNo).map fun p => .portStats xid [(p.portId, p.stats)]

/-- `dp_get_stats_flows`. -/
def dpGetStatsFlows (dp : Datapath) (req : FlowStatsReq) (time : Nat) :
    Option (List Flow × Datapath) :=
  if req.tableId = ofpttAll then
    some (dp.tables.flatMap fun ft => (flowTableStats ft req.key req.mask time).1,
      { dp with
        tables := dp.tables.map fun ft => (flowTableStats ft req.key req.mask time).2
        tablesNum := by rw [List.length_map, dp.tablesNum] })
  else
    (dp.tables[req.tableId.toNat]?).bind fun ft =>
      (dp.updateTable req.tableId fun ft => (flowTableStats ft req.key req.mask time).2).map
        fun dp => ((flowTableStats ft req.key req.mask time).1, dp)

/-- The common part of `dp_handle_flow_stats_req` and
`dp_handle_aggregate_stats_req`, which zero the request before they use it. -/
def dpHandleStatsReq (dp : Datapath) (time : Nat) (reply : List Flow → OfReply) :
    Option (Option OfReply × Datapath) :=
  (dpGetStatsFlows dp FlowStatsReq.zero time).map fun (flows, dp) =>
    (if flows.isEmpty then none else some (reply flows), dp)

/-- `dp_control_handle_control_msg`: the reply, the netflow and the datapath. -/
def dpControlHandleControlMsg (find : HashFind Flow) (dp : Option Datapath) (msg : OfMessage)
    (nf : Netflow) (time : Nat) : Option (Option OfReply × Netflow × Option Datapath) :=
  match msg with
  | .packetOut bufferId inPort packet al =>
    (dpHandlePktOut bufferId inPort packet al nf time).map fun nf => (none, nf, dp)
  | .flowMod command f =>
    dp.bind fun dp => (dpHandleFlowMod find dp command f time).map fun dp => (none, nf, some dp)
  | .portStatsRequest xid portNo =>
    dp.bind fun dp =>
      (dpHandlePortStatsReq dp xid portNo).map fun reply => (some reply, nf, some dp)
  | .flowStatsRequest xid _ =>
    dp.bind fun dp =>
      (dpHandleStatsReq dp time (.flowStats xid)).map fun (reply, dp) => (reply, nf, some dp)
  | .aggregateStatsRequest xid _ =>
    dp.bind fun dp =>
      (dpHandleStatsReq dp time (.aggregateStats xid)).map fun (reply, dp) =>
        (reply, nf, some dp)
  | .portDescRequest xid =>
    dp.map fun dp => (some (.portDesc xid dp.base.ports.reverse), nf, some dp)
  | .other => some (none, nf, dp)

end Horse.Net
