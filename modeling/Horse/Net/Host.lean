import Horse.Net.LegacyNode

/-!
# Hosts and routers

A host runs applications: it starts the executions it was given and answers
netflows addressed to it.  A router only forwards.  Both resolve the next hop of
what they send through the legacy node they contain.
-/

namespace Horse.Net

open Horse.Container Horse.Lib

/-! ## Applications -/

/-- `enum app_type`. -/
inductive AppType
  | pingv4
  | udp
  | pingv6
  deriving DecidableEq, Repr

/-- The number of an application type, which is the protocol it handles. -/
def AppType.proto : AppType → BitVec 8
  | .pingv4 => 1
  | .udp => 17
  | .pingv6 => 58

/-- The arguments of an execution, by the type of its application. -/
inductive AppArgs
  | pingv4 (ipDst : BitVec 32)
  | udp (rate : Nat) (ipDst : BitVec 32) (dstPort srcPort : BitVec 16)
  | pingv6
  deriving DecidableEq, Repr

/-- The type of the application that an execution starts. -/
def AppArgs.type : AppArgs → AppType
  | .pingv4 _ => .pingv4
  | .udp .. => .udp
  | .pingv6 => .pingv6

/-- `struct exec`.  The address stands for the pointer that events keep. -/
structure Exec where
  addr : Nat
  id : Nat
  args : AppArgs
  execCnt : BitVec 32
  startTime : Nat
  deriving DecidableEq, Repr

/-- `ping_start`. -/
def pingStart (start : Nat) (ipDst : BitVec 32) : Netflow :=
  { netflowNew with
    key := { OflFlowKey.zero with
      ethType := ethTypeIp
      ipProto := ipProtoIcmpv4
      ipv4Dst := ipDst
      icmpv4Type := pingEcho
      icmpv4Code := 0 }
    pktCnt := 1
    byteCnt := 64
    icmpInfo := ⟨0x42, 0, hostBytes 8 (BitVec.ofNat 64 start) ++ List.replicate 40 0, rfl⟩
    startTime := start }

/-- `raw_udp_start`. -/
def rawUdpStart (start rate : Nat) (ipDst : BitVec 32) (dstPort srcPort : BitVec 16) : Netflow :=
  let pktSize := 1470 + 34
  let pktCnt := rate / (pktSize * 8)
  { netflowNew with
    key := { OflFlowKey.zero with
      ethType := ethTypeIp
      ipProto := ipProtoUdp
      ipv4Dst := ipDst
      udpSrc := srcPort
      udpDst := dstPort }
    pktCnt := pktCnt
    byteCnt := pktCnt * pktSize % 2 ^ 64
    startTime := start }

/-- The `start` function of an application; a ping over IPv6 has none. -/
def appStart (start : Nat) : AppArgs → Option Netflow
  | .pingv4 ipDst => some (pingStart start ipDst)
  | .udp rate ipDst dstPort srcPort => some (rawUdpStart start rate ipDst dstPort srcPort)
  | .pingv6 => none

variable {flow : Netflow}

theorem appStart_ip {start : Nat} {args : AppArgs} (started : appStart start args = some flow) :
    flow.key.ethType ≠ ethTypeArp ∧ flow.outPorts = [] := by
  have notArp : ethTypeIp ≠ ethTypeArp := by decide
  cases args with
  | pingv4 ipDst | udp rate ipDst dstPort srcPort =>
    cases started
    exact ⟨notArp, rfl⟩
  | pingv6 => cases started

/-- `ping_handle_netflow`: the netflow, and whether it is an answer to send. -/
def pingHandleNetflow (flow : Netflow) : Netflow × Bool :=
  if flow.key.icmpv4Type = pingEcho then
    ({ flow with
        key := { flow.key with icmpv4Type := pingEchoReply, ipv4Dst := flow.key.ipv4Src } },
      true)
  else (flow, false)

/-- The `handle_netflow` function of an application; a ping over IPv6 has none. -/
def appHandleNetflow (flow : Netflow) : AppType → Option (Netflow × Bool)
  | .pingv4 => some (pingHandleNetflow flow)
  | .udp => some (flow, false)
  | .pingv6 => none

theorem appHandleNetflow_keeps {nf : Netflow} {app : AppType} {answer : Bool}
    (handled : appHandleNetflow flow app = some (nf, answer)) :
    nf.startTime = flow.startTime ∧ nf.key.ethType = flow.key.ethType ∧
      nf.outPorts = flow.outPorts := by
  cases app with
  | pingv4 =>
    simp only [appHandleNetflow, pingHandleNetflow, Option.some.injEq] at handled
    split at handled <;> cases handled <;> exact ⟨rfl, rfl, rfl⟩
  | udp =>
    cases handled
    exact ⟨rfl, rfl, rfl⟩
  | pingv6 => cases handled

/-! ## Hosts -/

/-- `struct host`.  Both hash tables have the entry added last in front.  The
addresses of the executions count up, and an execution is only added when its
application is there. -/
structure Host where
  ep : LegacyNode
  apps : List AppType
  execs : List Exec
  addrs : execs.map Exec.addr = (List.range execs.length).reverse
  installed : ∀ exec ∈ execs, exec.args.type ∈ apps
  deriving DecidableEq, Repr

/-- `host_new`, for a node that was given an identifier. -/
def hostNew (uuid : Nat) : Host where
  ep := legacyNodeInit uuid
  apps := []
  execs := []
  addrs := rfl
  installed := by simp

/-- `host_add_app`. -/
def hostAddApp (h : Host) (type : AppType) : Host :=
  { h with
    apps := type :: h.apps
    installed := fun exec member => List.mem_cons_of_mem _ (h.installed exec member) }

/-- `host_add_app_exec`: an execution without its application is not added. -/
def hostAddAppExec (h : Host) (id : Nat) (execsNum : BitVec 32) (startTime : Nat)
    (args : AppArgs) : Host :=
  if known : args.type ∈ h.apps then
    { h with
      execs := ⟨h.execs.length, id, args, execsNum, startTime⟩ :: h.execs
      addrs := by simp [h.addrs, List.range_succ]
      installed := List.forall_mem_cons.mpr ⟨known, h.installed⟩ }
  else h

/-- A host on 10.0.0.0/24 with one port and one execution, which has the number 1. -/
def appHost (uuid : Nat) (ethAddr : BitVec 48) (ip : BitVec 32) (args : AppArgs)
    (startTime : Nat) : Host :=
  let ln := { legacyNodeInit uuid with base := nodeAddPort (nodeInit uuid) 1 ethAddr 1000000 }
  let h := { hostNew uuid with ep := (legacyNodeSetIntfIpv4 ln 1 ip 0xffffff00).getD ln }
  hostAddAppExec (hostAddApp h args.type) 1 1 startTime args

/-- Write the source addresses of a port into a netflow. -/
def fillFrom (flow : Netflow) (p : Port) (info : Ipv4Info) : Netflow :=
  { flow with key := { flow.key with ipv4Src := info.addr, ethSrc := p.ethAddress } }

/-- Write the source addresses of the output ports into a netflow; the last port
decides. -/
def fillSource (n : Node) : List (BitVec 32) → Netflow → Option Netflow
  | [], flow => some flow
  | port :: rest, flow =>
    (nodePort n port).bind fun p =>
      p.ipv4Addr.bind fun info => fillSource n rest (fillFrom flow p info)

/-- What the source addresses of one port leave alone is left alone by those of all ports. -/
theorem fillSource_keeps {α : Type*} (read : Netflow → α)
    (kept : ∀ flow p info, read (fillFrom flow p info) = read flow) {n : Node}
    {ports : List (BitVec 32)} {filled : Netflow} (done : fillSource n ports flow = some filled) :
    read filled = read flow := by
  induction ports generalizing flow with
  | nil =>
    cases done
    rfl
  | cons port rest ih =>
    rcases Option.bind_eq_some_iff.mp done with ⟨p, -, later⟩
    rcases Option.bind_eq_some_iff.mp later with ⟨info, -, last⟩
    exact (ih last).trans (kept flow p info)

/-- The answer of an application.  The ports are those of the netflow received,
also when an ARP request is sent instead of it. -/
def hostAnswer (h : Host) (nf : Netflow) : Option (Option Netflow × Host) :=
  (findForwardingPorts h.ep nf false).bind fun
    | (none, ep) => some (none, { h with ep := ep })
    | (some f, ep) =>
      (fillSource ep.base (ipLookup h.ep nf false).2.outPorts f).map fun f =>
        (some f, { h with ep := ep })

/-- The IP branch of `host_recv_netflow`. -/
def hostRecvIp (h : Host) (nf : Netflow) : Option (Option Netflow × Host) :=
  if isL3Destination h.ep nf then
    match h.apps.find? fun type => type.proto == nf.key.ipProto with
    | none => some (none, h)
    | some app =>
      (appHandleNetflow nf app).bind fun
        | (nf, true) => hostAnswer h nf
        | (_, false) => some (none, h)
  else some (none, h)

/-- The ARP branch of `host_recv_netflow`: a released netflow gets its source
addresses. -/
def hostRecvArp (h : Host) (nf : Netflow) : Option (Option Netflow × Host) :=
  if nf.key.ethType = ethTypeIp ∨ nf.key.ethType = ethTypeIpv6 then
    (fillSource h.ep.base nf.outPorts nf).map fun nf => (some nf, h)
  else some (some nf, h)

/-- `host_recv_netflow`. -/
def hostRecvNetflow (h : Host) (flow : Netflow) : Option (Option Netflow × Host) :=
  match l2RecvNetflow h.ep flow with
  | (none, ep) => some (none, { h with ep := ep })
  | (some nf, ep) =>
    let h := { h with ep := ep }
    if flow.key.ethType = ethTypeIp ∨ flow.key.ethType = ethTypeIpv6 then hostRecvIp h nf
    else if flow.key.ethType = ethTypeArp then hostRecvArp h nf
    else some (none, h)

/-- The execution at an address. -/
def Host.execAt (h : Host) (addr : Nat) : Option Exec :=
  h.execs.find? fun exec => exec.addr == addr

/-- An execution with another counter and another time. -/
def Exec.change (execCnt : BitVec 32 → BitVec 32) (startTime : Nat → Nat) (exec : Exec) : Exec :=
  { exec with execCnt := execCnt exec.execCnt, startTime := startTime exec.startTime }

/-- Change the counter and the time of the execution at an address. -/
def Host.updateExec (h : Host) (addr : Nat) (execCnt : BitVec 32 → BitVec 32)
    (startTime : Nat → Nat) : Host :=
  { h with
    execs := updateFirst (fun exec => exec.addr == addr) (Exec.change execCnt startTime) h.execs
    addrs := by
      rw [map_updateFirst _ _ (by simp [Exec.change]), length_updateFirst]
      exact h.addrs
    installed := by
      intro exec member
      rcases mem_updateFirst member with same | ⟨old, wasThere, rfl⟩
      · exact h.installed exec same
      · exact h.installed old wasThere }

/-- `host_execute_app`, for an execution of the host. -/
def hostExecuteApp (h : Host) (exec : Exec) : Option (Option Netflow × Host) :=
  if exec.args.type ∈ h.apps then
    (appStart exec.startTime exec.args).bind fun flow =>
      let flow := { flow with execId := exec.id }
      let h := h.updateExec exec.addr (fun execCnt => execCnt - 1) id
      (findForwardingPorts h.ep flow false).bind fun
        | (none, ep) => some (none, { h with ep := ep })
        | (some flow, ep) =>
          (fillSource ep.base flow.outPorts flow).map fun flow =>
            (some flow, { h with ep := ep })
  else some (none, h)

/-! ## Routers -/

/-- The part of `struct router` that handles netflows. -/
structure Router where
  ln : LegacyNode
  routerId : BitVec 32
  ecmp : Bool
  deriving DecidableEq, Repr

/-- `router_new`, for a node that was given an identifier. -/
def routerNew (uuid : Nat) : Router where
  ln := legacyNodeInit uuid
  routerId := 0
  ecmp := false

/-- `router_recv_netflow`. -/
def routerRecvNetflow (r : Router) (flow : Netflow) : Option (Option Netflow × Router) :=
  let counted := { r.ln with base := r.ln.base.countReceived flow flow.key.inPort }
  match l2RecvNetflow counted flow with
  | (none, ln) => some (none, { r with ln := ln })
  | (some nf, ln) =>
    if flow.key.ethType = ethTypeIp ∨ flow.key.ethType = ethTypeIpv6 then
      if isL3Destination ln nf then some (none, { r with ln := ln })
      else
        (findForwardingPorts ln nf r.ecmp).map fun
          | (out, ln) => (out, { r with ln := ln })
    else if flow.key.ethType = ethTypeArp then some (some nf, { r with ln := ln })
    else some (none, { r with ln := ln })

end Horse.Net
