import Horse.Net.Ports

/-!
# What becomes of the netflow object that a node receives

A node gets a pointer to a netflow and returns one.  Here the functions that receive and
start netflows are read once more for what they do with the object: which object they
return, and whether the one they got ends up in the buffer of the node.  The results
fit the values that the functions compute.
-/

namespace Horse.Net

open Horse.Container Horse.Lib

/-- What a node does with a netflow object. -/
inductive FlowMove
  /-- The object is returned. -/
  | returned
  /-- A null pointer is returned.  An ARP reply was cleared before. -/
  | dropped (cleared : Bool)
  /-- A new ARP request is returned; the object is in the buffer, if there was room. -/
  | requested (pushed : Bool)
  /-- The object on top of the buffer is returned, and the one received is forgotten. -/
  | released
  deriving DecidableEq, Repr

/-! ## Moves -/

/-- The move of `resolve_mac`. -/
def resolveMove (ln : LegacyNode) (flow : Netflow) (ip : BitVec 32) : FlowMove :=
  match arpTableLookup ln.at_ ip with
  | some _ => .returned
  | none =>
    match craftRequest ln.base arpReqNew flow.outPorts with
    | some (some _) => .requested (ln.base.flowBuff.flows.length < bufferMax - 1)
    | _ => .dropped false

/-- The move of `find_forwarding_ports`. -/
def forwardingMove (ln : LegacyNode) (flow : Netflow) (ecmp : Bool) : FlowMove :=
  let looked := ipLookup ln flow ecmp
  if looked.1 = 0 then .dropped false else resolveMove ln looked.2 looked.1

/-- The move of `l2_recv_netflow`. -/
def l2Move (ln : LegacyNode) (flow : Netflow) : FlowMove :=
  match nodePort ln.base flow.key.inPort with
  | none => .dropped false
  | some p =>
    if isLinkDestination p flow then
      if flow.key.ethType = ethTypeArp then
        if flow.key.arpOp = arpRequest then
          if p.ipv4Addr.any fun info => flow.key.arpTpa != info.addr then .dropped false
          else .returned
        else if flow.key.arpOp = arpReply then
          if nodeIsBufferEmpty ln.base then .dropped true else .released
        else .returned
      else .returned
    else .dropped false

/-- The move of the IP branch of `host_recv_netflow`. -/
def hostIpMove (h : Host) (nf : Netflow) : FlowMove :=
  if isL3Destination h.ep nf then
    match h.apps.find? fun type => type.proto == nf.key.ipProto with
    | none => .dropped false
    | some app =>
      match appHandleNetflow nf app with
      | some (nf, true) => forwardingMove h.ep nf false
      | _ => .dropped false
  else .dropped false

/-- The move of `host_recv_netflow`. -/
def hostMove (h : Host) (flow : Netflow) : FlowMove :=
  match l2RecvNetflow h.ep flow with
  | (none, _) => l2Move h.ep flow
  | (some nf, ep) =>
    if flow.key.ethType = ethTypeIp ∨ flow.key.ethType = ethTypeIpv6 then
      hostIpMove { h with ep := ep } nf
    else if flow.key.ethType = ethTypeArp then l2Move h.ep flow
    else .dropped false

/-- The move of `router_recv_netflow`. -/
def routerMove (r : Router) (flow : Netflow) : FlowMove :=
  let counted := { r.ln with base := r.ln.base.countReceived flow flow.key.inPort }
  match l2RecvNetflow counted flow with
  | (none, _) => l2Move counted flow
  | (some nf, ln) =>
    if flow.key.ethType = ethTypeIp ∨ flow.key.ethType = ethTypeIpv6 then
      if isL3Destination ln nf then .dropped false else forwardingMove ln nf r.ecmp
    else if flow.key.ethType = ethTypeArp then l2Move counted flow
    else .dropped false

/-- The move of `dp_recv_netflow`, which returns the netflow or a null pointer. -/
def dpMove (find : HashFind Flow) (dp : Datapath) (nf : Netflow) : FlowMove :=
  match dpRecvNetflow find dp nf with
  | some (some _, _) => .returned
  | _ => .dropped false

/-- The move of the member `recv_netflow` of a node. -/
def TopoNode.recvMove (find : HashFind Flow) (nf : Netflow) : TopoNode → FlowMove
  | datapath dp => dpMove find dp nf
  | host h => hostMove h nf
  | router r => routerMove r nf

/-- The move of `host_execute_app`, for the netflow that the application makes; without
the application there is none. -/
def startMove (h : Host) (exec : Exec) : Option FlowMove :=
  if exec.args.type ∈ h.apps then
    (appStart exec.startTime exec.args).map fun flow =>
      forwardingMove h.ep { flow with execId := exec.id } false
  else none

/-! ## Moves and values -/

/-- A move fits a result: the result is null if the object was dropped, and the buffer
grows and shrinks with the move. -/
def FlowMove.Fits (before after : Node) (out : Option Netflow) : FlowMove → Prop
  | returned => out.isSome ∧ after.flowBuff = before.flowBuff
  | dropped _ => out = none ∧ after.flowBuff = before.flowBuff
  | requested pushed => out.isSome ∧
      after.flowBuff.flows.length = before.flowBuff.flows.length + pushed.toNat
  | released => out.isSome ∧ after.flowBuff.flows.length + 1 = before.flowBuff.flows.length

/-- A move fits every result that is null at the same time, and nodes with the same
buffers. -/
theorem FlowMove.Fits.congr {move : FlowMove} {before before' after : Node}
    {out out' : Option Netflow} (fits : move.Fits before after out)
    (sameOut : out'.isSome = out.isSome) (sameBuffer : before'.flowBuff = before.flowBuff) :
    move.Fits before' after out' := by
  cases move with
  | dropped cleared =>
    rw [fits.1, Option.isSome_none, Option.isSome_eq_false_iff, Option.isNone_iff_eq_none]
      at sameOut
    exact ⟨sameOut, fits.2.trans sameBuffer.symm⟩
  | returned => exact ⟨sameOut.trans fits.1, fits.2.trans sameBuffer.symm⟩
  | requested pushed | released =>
    rw [Fits, sameBuffer]
    exact ⟨sameOut.trans fits.1, fits.2⟩

section Legacy

variable {ln after : LegacyNode} {flow : Netflow} {out : Option Netflow}

end Legacy

section Nodes

variable {flow nf : Netflow} {out : Option Netflow}

theorem FillsSource.isSome {n : Node} {ports : Netflow → List (BitVec 32)} {sent : Option Netflow}
    (fills : FillsSource n ports sent out) : out.isSome = sent.isSome := by
  cases fills <;> rfl

variable {h after : Host} {find : HashFind Flow}

end Nodes

end Horse.Net
