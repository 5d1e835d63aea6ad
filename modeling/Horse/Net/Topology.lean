import Horse.Net.Control
import Horse.Net.RouterControl

/-!
# Topologies

Nodes of the three kinds and the links between their ports.  All hash tables are
lists with the entry added last in front.  The identifiers of the nodes come from
one counter, so no two nodes have the same.
-/

namespace Horse.Net

open Horse.Container Horse.Lib

/-- A node of a topology. -/
inductive TopoNode
  | datapath (dp : Datapath)
  | host (h : Host)
  | router (r : Router)
  deriving DecidableEq, Repr

namespace TopoNode

/-- The part that all nodes have. -/
def base : TopoNode → Node
  | datapath dp => dp.base
  | host h => h.ep.base
  | router r => r.ln.base

/-- Assign this part. -/
def setBase (n : Node) : TopoNode → TopoNode
  | datapath dp => datapath { dp with base := n }
  | host h => host { h with ep := { h.ep with base := n } }
  | router r => router { r with ln := { r.ln with base := n } }

/-- The identifier of a node. -/
def uuid (node : TopoNode) : Nat :=
  node.base.uuid

/-- The member `recv_netflow` of a node. -/
def recvNetflow (find : HashFind Flow) (nf : Netflow) :
    TopoNode → Option (Option Netflow × TopoNode)
  | datapath dp => (dpRecvNetflow find dp nf).map fun out => (out.1, datapath out.2)
  | host h => (hostRecvNetflow h nf).map fun out => (out.1, host out.2)
  | router r => (routerRecvNetflow r nf).map fun out => (out.1, router out.2)

/-- The member `send_netflow` of a node, which is one function for all kinds. -/
def sendNetflow (node : TopoNode) (nf : Netflow) (outPort : BitVec 32) : TopoNode :=
  node.setBase (nodeUpdatePortStats node.base nf outPort)

end TopoNode

/-- `struct node_port_pair`. -/
structure NodePortPair where
  uuid : Nat
  port : BitVec 32
  deriving DecidableEq, Repr

/-- `struct link`. -/
structure Link where
  node1 : NodePortPair
  node2 : NodePortPair
  latency : BitVec 32
  bandwidth : BitVec 32
  deriving DecidableEq, Repr

/-- `struct topology` without its counters.  Datapaths and routers are also found
by the identifier they had when they were added. -/
structure Topology where
  nodes : List TopoNode
  links : List Link
  dps : List (Nat × Nat)
  routers : List (BitVec 32 × Nat)
  distinct : (nodes.map TopoNode.uuid).Nodup
  deriving DecidableEq, Repr

/-- `topology_new`. -/
def topologyNew : Topology where
  nodes := []
  links := []
  dps := []
  routers := []
  distinct := List.nodup_nil

/-- `topology_node`. -/
def topologyNode (topo : Topology) (uuid : Nat) : Option TopoNode :=
  topo.nodes.find? fun node => node.uuid == uuid

/-- Put a node in the place of the one with its identifier. -/
def Topology.setNode (topo : Topology) (node : TopoNode) : Topology :=
  { topo with
    nodes := updateFirst (fun old => old.uuid == node.uuid) (fun _ => node) topo.nodes
    distinct := by
      rw [map_updateFirst _ _ (by simp +contextual)]
      exact topo.distinct }

/-- `topology_add_link` with `directed` set. -/
def topologyAddDirectedLink (t : Topology) (node1 node2 : NodePortPair)
    (bw latency : BitVec 32) : Topology :=
  match topologyNode t node1.uuid, topologyNode t node2.uuid with
  | some _, some _ => { t with links := ⟨node1, node2, latency, bw⟩ :: t.links }
  | _, _ => t

/-- `topology_add_link` with `directed` clear. -/
def topologyAddLink (t : Topology) (node1 node2 : NodePortPair) (bw latency : BitVec 32) :
    Topology :=
  topologyAddDirectedLink (topologyAddDirectedLink t node1 node2 bw latency) node2 node1 bw
    latency

/-- `topology_next_hop`: the other end of the link at a port, and its latency. -/
def topologyNextHop (topo : Topology) (uuid : Nat) (port : BitVec 32) :
    Option (NodePortPair × BitVec 32) :=
  (topo.links.find? fun l => l.node1 == ⟨uuid, port⟩).map fun l => (l.node2, l.latency)

/-- `topology_datapath_by_dpid`. -/
def topologyDatapathByDpid (topo : Topology) (dpId : Nat) : Option Datapath :=
  (topo.dps.find? fun dn => dn.1 == dpId).bind fun dn =>
    (topologyNode topo dn.2).bind fun
      | .datapath dp => some dp
      | _ => none

/-- `topology_router_by_id`. -/
def topologyRouterById (topo : Topology) (routerId : BitVec 32) : Option Router :=
  (topo.routers.find? fun rn => rn.1 == routerId).bind fun rn =>
    (topologyNode topo rn.2).bind fun
      | .router r => some r
      | _ => none

end Horse.Net
