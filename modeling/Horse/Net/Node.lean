import Horse.Container.HashTable
import Horse.Lib.Netflow

/-!
# Nodes and ports

What datapaths, hosts and routers have in common: an identifier, ports and the
small buffer of netflows that wait for an ARP reply.  The hash table of ports is
a list with the port added last in front.

The buffer is an array of `BUFFER_MAX` slots with an index that is advanced
before a slot is written, so slot 0 is never used and the buffer holds one
netflow less than it has slots.  It is kept as the list of its netflows, the one
pushed last in front.
-/

namespace Horse.Net

open Horse.Container Horse.Lib

/-! ## Ports -/

/-- `struct port_stats`. -/
structure PortStats where
  rxPackets : Nat
  txPackets : Nat
  txBytes : Nat
  rxBytes : Nat
  deriving DecidableEq, Repr

/-- `struct buffer_state` without the time stamp that nothing sets. -/
structure BufferState where
  capacity : Int
  load : Int
  deriving DecidableEq, Repr

/-- `struct ipv4_info` without the broadcast address that nothing sets. -/
structure Ipv4Info where
  addr : BitVec 32
  netmask : BitVec 32
  deriving DecidableEq, Repr

/-- `PORT_UP`. -/
def portUp : BitVec 8 := 2

/-- `PORT_LIVE`. -/
def portLive : BitVec 8 := 4

/-- `struct port`. -/
structure Port where
  portId : BitVec 32
  currSpeed : BitVec 32
  config : BitVec 8
  state : BitVec 8
  stats : PortStats
  ethAddress : BitVec 48
  ipv4Addr : Option Ipv4Info
  ipv6Addr : Option (BitVec 128)
  bufferState : BufferState
  deriving DecidableEq, Repr

/-- `port_new`. -/
def portNew (portId : BitVec 32) (ethAddr : BitVec 48) (currSpeed : BitVec 32) : Port where
  portId := portId
  currSpeed := currSpeed
  config := portUp
  state := portLive
  stats := ⟨0, 0, 0, 0⟩
  ethAddress := ethAddr
  ipv4Addr := none
  ipv6Addr := none
  bufferState := ⟨0, 0⟩

/-- `buffer_state_update_capacity`; the sum of two `int`s must be one. -/
def bufferStateUpdateCapacity (ts : BufferState) (bits : Int) : Option BufferState :=
  let load := ts.load + bits
  if load < -2 ^ 31 ∨ 2 ^ 31 ≤ load then none
  else if load < 0 then some { ts with load := 0 }
  else some { ts with load := load }

/-- `buffer_state_calculate_loss`. -/
def bufferStateCalculateLoss (ts : BufferState) (bw : BitVec 32) : Int :=
  let total := ts.capacity + bw.toNat
  if total < ts.load then ts.load - total else 0

/-! ## Nodes -/

/-- `BUFFER_MAX`. -/
def bufferMax : Nat := 3

/-- `struct buffer`. -/
structure FlowBuffer where
  flows : List Netflow
  bounded : flows.length ≤ bufferMax - 1
  deriving DecidableEq, Repr

/-- The part of `struct node` that all kinds of nodes use. -/
structure Node where
  uuid : Nat
  ports : List Port
  flowBuff : FlowBuffer
  deriving DecidableEq, Repr

/-- `node_init`, for a node that was given an identifier. -/
def nodeInit (uuid : Nat) : Node where
  uuid := uuid
  ports := []
  flowBuff := ⟨[], by decide⟩

/-- `node_add_port`. -/
def nodeAddPort (n : Node) (portId : BitVec 32) (ethAddr : BitVec 48) (currSpeed : BitVec 32) :
    Node :=
  { n with ports := portNew portId ethAddr currSpeed :: n.ports }

/-- `node_port`. -/
def nodePort (n : Node) (port : BitVec 32) : Option Port :=
  n.ports.find? fun p => p.portId == port

/-- Change the port that `node_port` finds. -/
def Node.updatePort (n : Node) (port : BitVec 32) (change : Port → Port) : Node :=
  { n with ports := updateFirst (fun p => p.portId == port) change n.ports }

/-- `node_add_tx_time`. -/
def nodeAddTxTime (sum : TimeSum) (n : Node) (outPort : BitVec 32) (flow : Netflow) :
    Option Netflow :=
  match nodePort n outPort with
  | none => some flow
  | some p => netflowUpdateSendTime sum flow p.currSpeed

/-- `node_update_port_stats`. -/
def nodeUpdatePortStats (n : Node) (flow : Netflow) (outPort : BitVec 32) : Node :=
  n.updatePort outPort fun p =>
    if p.config &&& portUp ≠ 0 ∧ p.state &&& portLive ≠ 0 then
      { p with stats := { p.stats with
          txPackets := (p.stats.txPackets + flow.pktCnt) % 2 ^ 64
          txBytes := (p.stats.txBytes + flow.byteCnt) % 2 ^ 64 } }
    else p

/-- The update of the receive counters. -/
def Node.countReceived (n : Node) (flow : Netflow) (inPort : BitVec 32) : Node :=
  n.updatePort inPort fun p =>
    { p with stats := { p.stats with
        rxBytes := (p.stats.rxBytes + flow.byteCnt) % 2 ^ 64
        rxPackets := (p.stats.rxPackets + flow.pktCnt) % 2 ^ 64 } }

/-- `node_is_buffer_empty`. -/
def nodeIsBufferEmpty (n : Node) : Bool :=
  n.flowBuff.flows.isEmpty

/-- `node_flow_push`; a full buffer refuses the netflow, and no caller looks at
the result. -/
def nodeFlowPush (n : Node) (flow : Netflow) : Node :=
  if room : n.flowBuff.flows.length < bufferMax - 1 then
    { n with flowBuff := ⟨flow :: n.flowBuff.flows, room⟩ }
  else n

/-- `node_flow_pop`, called on a buffer that is not empty. -/
def nodeFlowPop (n : Node) : Option (Netflow × Node) :=
  match flows : n.flowBuff.flows with
  | [] => none
  | flow :: rest =>
    some (flow, { n with flowBuff := ⟨rest, by
      have bounded := n.flowBuff.bounded
      rw [flows, List.length_cons] at bounded
      omega⟩ })

/-- A pop takes the front of the buffer and nothing else. -/
theorem nodeFlowPop_cases {n rest : Node} {flow : Netflow}
    (popped : nodeFlowPop n = some (flow, rest)) :
    ∃ flows bounded, n.flowBuff.flows = flow :: flows ∧
      rest = { n with flowBuff := ⟨flows, bounded⟩ } := by
  unfold nodeFlowPop at popped
  split at popped
  · cases popped
  · rename_i flows
    cases popped
    exact ⟨_, _, flows, rfl⟩

/-- `node_update_port_capacity`. -/
def nodeUpdatePortCapacity (n : Node) (bits : Int) (outPort : BitVec 32) : Option Node :=
  match nodePort n outPort with
  | none => some n
  | some p =>
    (bufferStateUpdateCapacity p.bufferState bits).map fun ts =>
      n.updatePort outPort fun p => { p with bufferState := ts }

/-- `node_calculate_port_loss`. -/
def nodeCalculatePortLoss (n : Node) (outPort : BitVec 32) : Int :=
  match nodePort n outPort with
  | none => 0
  | some p => bufferStateCalculateLoss p.bufferState p.currSpeed

end Horse.Net
