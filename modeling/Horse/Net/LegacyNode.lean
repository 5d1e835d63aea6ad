import Horse.Net.Node
import Horse.Net.RouteTable

/-!
# Legacy nodes

The link and network layer that hosts and routers share.  A netflow whose next
hop has no entry in the ARP table is pushed on the buffer of the node and an ARP
request takes its place.  An ARP reply releases the netflow on top of the buffer.

The result of a function that may return a null pointer is an `Option`; an
undefined call, here a read through the null address of a port, is `none` one
level further out.
-/

namespace Horse.Net

open Horse.Lib

/-- `ARP_REQUEST`. -/
def arpRequest : BitVec 16 := 1

/-- `ARP_REPLY`. -/
def arpReply : BitVec 16 := 2

/-- The Ethernet broadcast address. -/
def bcastEthAddr : BitVec 48 := 0xffffffffffff

/-- `struct legacy_node`. -/
structure LegacyNode where
  base : Node
  at_ : ArpTable
  rt : RouteTable
  deriving DecidableEq, Repr

/-- `legacy_node_init`. -/
def legacyNodeInit (uuid : Nat) : LegacyNode where
  base := nodeInit uuid
  at_ := ⟨[]⟩
  rt := ⟨[]⟩

/-- `legacy_node_set_intf_ipv4`; the program exits if the port does not exist. -/
def legacyNodeSetIntfIpv4 (ln : LegacyNode) (portId addr netmask : BitVec 32) :
    Option LegacyNode :=
  (nodePort ln.base portId).map fun _ =>
    { ln with
      base := ln.base.updatePort portId fun p => { p with ipv4Addr := some ⟨addr, netmask⟩ }
      rt := addIpv4Entry ln.rt ⟨addr &&& netmask, netmask, 0, portId⟩ }

/-- The hash that selects among several routes. -/
def ecmpHash (flow : Netflow) (ecmp : Bool) : BitVec 32 :=
  if ecmp then netflowCalculateHash flow else 0

/-- The address that `ip_lookup` returns: the next hop, or 0 without a route. -/
def nextHop (rt : RouteTable) (flow : Netflow) (ecmp : Bool) : BitVec 32 :=
  match ipv4Lookup rt flow.key.ipv4Dst (ecmpHash flow ecmp) with
  | some re => if re.gateway = 0 then flow.key.ipv4Dst else re.gateway
  | none => 0

/-- `ip_lookup`: the next hop, and the netflow with the port of the route. -/
def ipLookup (ln : LegacyNode) (flow : Netflow) (ecmp : Bool) : BitVec 32 × Netflow :=
  match ipv4Lookup ln.rt flow.key.ipv4Dst (ecmpHash flow ecmp) with
  | some re => (nextHop ln.rt flow ecmp, netflowAddOutPort flow re.iface)
  | none => (nextHop ln.rt flow ecmp, flow)

/-- Write the destination Ethernet address of a netflow. -/
def setEthDst (flow : Netflow) (ethAddr : BitVec 48) : Netflow :=
  { flow with key := { flow.key with ethDst := ethAddr } }

/-- The address fields of an ARP request that leaves through a port. -/
def fillRequest (arpReq : Netflow) (p : Port) (info : Ipv4Info) : Netflow :=
  { arpReq with
    key := { arpReq.key with
      ethSrc := p.ethAddress
      arpSha := p.ethAddress
      arpSpa := info.addr } }

/-- The loop of `resolve_mac` over the output ports: the request takes the
addresses of the last one.  A missing port abandons the request. -/
def craftRequest (n : Node) (arpReq : Netflow) : List (BitVec 32) → Option (Option Netflow)
  | [] => some (some arpReq)
  | port :: rest =>
    match nodePort n port with
    | none => some none
    | some p =>
      p.ipv4Addr.bind fun info =>
        craftRequest n (netflowAddOutPort (fillRequest arpReq p info) port) rest

/-- The request before the loop over the ports. -/
def arpReqNew : Netflow :=
  { netflowNew with key := { OflFlowKey.zero with ethType := ethTypeArp } }

/-- The fields of the request set after the loop. -/
def finishRequest (arpReq flow : Netflow) (ip : BitVec 32) : Netflow :=
  { arpReq with
    key := { arpReq.key with ethDst := bcastEthAddr, arpTpa := ip, arpOp := arpRequest }
    startTime := flow.startTime
    pktCnt := 1
    byteCnt := 56 }

/-- `resolve_mac`: the netflow to send and the node. -/
def resolveMac (ln : LegacyNode) (flow : Netflow) (ip : BitVec 32) :
    Option (Option Netflow × LegacyNode) :=
  match arpTableLookup ln.at_ ip with
  | some ae => some (some (setEthDst flow ae.ethAddr), ln)
  | none =>
    (craftRequest ln.base arpReqNew flow.outPorts).map fun
      | none => (none, ln)
      | some arpReq =>
        (some (finishRequest arpReq flow ip),
          { ln with base := nodeFlowPush ln.base flow })

/-- `find_forwarding_ports`. -/
def findForwardingPorts (ln : LegacyNode) (flow : Netflow) (ecmp : Bool) :
    Option (Option Netflow × LegacyNode) :=
  let looked := ipLookup ln flow ecmp
  if looked.1 = 0 then some (none, ln) else resolveMac ln looked.2 looked.1

/-- The frame is for the port. -/
def isLinkDestination (p : Port) (flow : Netflow) : Bool :=
  p.ethAddress == flow.key.ethDst || bcastEthAddr == flow.key.ethDst

/-- The reply into which `l2_recv_netflow` turns an ARP request that arrived on a
port. -/
def craftReply (p : Port) (flow : Netflow) : Netflow :=
  netflowAddOutPort
    { flow with
      key := { flow.key with
        arpSha := p.ethAddress
        arpTha := flow.key.ethSrc
        ethDst := flow.key.ethSrc
        ethSrc := p.ethAddress
        arpSpa := flow.key.arpTpa
        arpTpa := flow.key.arpSpa
        arpOp := arpReply } }
    flow.key.inPort

/-- The ARP request branch of `l2_recv_netflow`. -/
def recvArpRequest (ln : LegacyNode) (p : Port) (flow : Netflow) :
    Option Netflow × LegacyNode :=
  if p.ipv4Addr.any fun info => flow.key.arpTpa != info.addr then (none, ln)
  else
    let learned :=
      match arpTableLookup ln.at_ flow.key.arpSpa with
      | some _ => ln
      | none =>
        { ln with
          at_ := arpTableAddEntry ln.at_ ⟨flow.key.arpSpa, flow.key.ethSrc, flow.key.inPort⟩ }
    (some (craftReply p flow), learned)

/-- A netflow taken from the buffer on an ARP reply. -/
def releaseFlow (waiting reply : Netflow) : Netflow :=
  setEthDst { waiting with startTime := reply.startTime } reply.key.arpSha

/-- The ARP reply branch of `l2_recv_netflow`: the netflow on top of the buffer is
released, whatever it waits for. -/
def recvArpReply (ln : LegacyNode) (flow : Netflow) : Option Netflow × LegacyNode :=
  let learned :=
    { ln with at_ := arpTableAddEntry ln.at_ ⟨flow.key.arpSpa, flow.key.arpSha, flow.key.inPort⟩ }
  match nodeFlowPop ln.base with
  | none => (none, learned)
  | some (waiting, base) => (some (releaseFlow waiting flow), { learned with base := base })

/-- `l2_recv_netflow`. -/
def l2RecvNetflow (ln : LegacyNode) (flow : Netflow) : Option Netflow × LegacyNode :=
  match nodePort ln.base flow.key.inPort with
  | none => (none, ln)
  | some p =>
    if isLinkDestination p flow then
      if flow.key.ethType = ethTypeArp then
        if flow.key.arpOp = arpRequest then recvArpRequest ln p flow
        else if flow.key.arpOp = arpReply then recvArpReply ln flow
        else (some flow, ln)
      else (some flow, ln)
    else (none, ln)

/-- `is_l3_destination`. -/
def isL3Destination (ln : LegacyNode) (flow : Netflow) : Bool :=
  match nodePort ln.base flow.key.inPort with
  | none => false
  | some p =>
    match p.ipv4Addr, flow.key.ipv4Dst == 0 with
    | some info, false => info.addr == flow.key.ipv4Dst
    | _, _ => p.ipv6Addr.any fun addr => addr == flow.key.ipv6Dst

end Horse.Net
