import Horse.Net.Moves

/-!
# What nodes remember

Besides its counters a node changes in two places only: netflows wait in its buffer, and
addresses are learned into its ARP table.
-/

namespace Horse.Net

open Horse.Container Horse.Lib

/-- The number of a port and its addresses. -/
def Port.addresses (p : Port) : BitVec 32 × BitVec 48 × Option Ipv4Info :=
  (p.portId, p.ethAddress, p.ipv4Addr)

/-- What a node remembers, and the addresses of its ports. -/
structure NodeMemory where
  buffer : FlowBuffer
  arp : Option ArpTable
  ports : List (BitVec 32 × BitVec 48 × Option Ipv4Info)

/-- The memory of a host or router. -/
def LegacyNode.memory (ln : LegacyNode) : NodeMemory where
  buffer := ln.base.flowBuff
  arp := some ln.at_
  ports := ln.base.ports.map Port.addresses

/-- The memory of a node; a datapath has no ARP table. -/
def TopoNode.memory : TopoNode → NodeMemory
  | datapath dp => ⟨dp.base.flowBuff, none, dp.base.ports.map Port.addresses⟩
  | host h => h.ep.memory
  | router r => r.ln.memory

theorem TopoNode.memory_buffer (node : TopoNode) : node.memory.buffer = node.base.flowBuff := by
  cases node <;> rfl

theorem TopoNode.memory_ports (node : TopoNode) :
    node.memory.ports = node.base.ports.map Port.addresses := by
  cases node <;> rfl

/-- Replacing the common part of a node by one with the same buffer and the same addresses. -/
theorem TopoNode.memory_setBase {n : Node} {node : TopoNode}
    (sameBuffer : n.flowBuff = node.base.flowBuff)
    (samePorts : n.ports.map Port.addresses = node.base.ports.map Port.addresses) :
    (node.setBase n).memory = node.memory := by
  cases node <;>
    simp only [setBase, memory, LegacyNode.memory, base] at sameBuffer samePorts ⊢ <;>
    rw [sameBuffer, samePorts]

/-- Ports change without their addresses. -/
theorem addresses_updatePort (n : Node) (port : BitVec 32) {change : Port → Port}
    (keeps : ∀ p, (change p).addresses = p.addresses) :
    (n.updatePort port change).ports.map Port.addresses = n.ports.map Port.addresses :=
  map_updateFirst _ _ (fun p _ => keeps p) _

theorem KeepsPorts.addresses {after before : Node} (keeps : KeepsPorts after before) :
    after.ports.map Port.addresses = before.ports.map Port.addresses := by
  have same := congrArg (List.map Port.addresses) keeps.samePorts
  rw [List.map_map, List.map_map] at same
  exact same

theorem TopoNode.memory_sendNetflow (node : TopoNode) (nf : Netflow) (outPort : BitVec 32) :
    (node.sendNetflow nf outPort).memory = node.memory := by
  have samePorts : (nodeUpdatePortStats node.base nf outPort).ports.map Port.addresses =
      node.base.ports.map Port.addresses := by
    apply addresses_updatePort
    intro p
    split <;> rfl
  exact memory_setBase rfl samePorts

theorem TopoNode.memory_updatePortCapacity {node : TopoNode} {n : Node} {bits : Int}
    {port : BitVec 32} (updated : nodeUpdatePortCapacity node.base bits port = some n) :
    (node.setBase n).memory = node.memory := by
  unfold nodeUpdatePortCapacity at updated
  split at updated
  · cases updated
    exact memory_setBase rfl rfl
  · obtain ⟨ts, -, rfl⟩ := Option.map_eq_some_iff.mp updated
    exact memory_setBase rfl (addresses_updatePort _ _ fun _ => rfl)

variable {data : List (BitVec 8)} {r after : Router}

theorem fibAddLoop_keeps {entries offset : Nat}
    (done : fibAddLoop data entries offset r = some after) :
    after.ln.base = r.ln.base ∧ after.ln.at_ = r.ln.at_ := by
  induction entries generalizing offset r with
  | zero =>
    cases done
    exact ⟨rfl, rfl⟩
  | succ entries ih =>
    obtain ⟨addr, -, rest⟩ := Option.bind_eq_some_iff.mp done
    obtain ⟨netmask, -, rest⟩ := Option.bind_eq_some_iff.mp rest
    obtain ⟨nextHop, -, rest⟩ := Option.bind_eq_some_iff.mp rest
    have kept := ih rest
    exact kept

/-- Routing messages only write the routing table. -/
theorem routerHandleControlMessage_keeps (done : routerHandleControlMessage r data = some after) :
    after.ln.base = r.ln.base ∧ after.ln.at_ = r.ln.at_ := by
  obtain ⟨msg, -, rest⟩ := Option.bind_eq_some_iff.mp done
  split at rest
  · split at rest
    · cases rest
    · exact fibAddLoop_keeps rest
  · cases rest
    exact ⟨rfl, rfl⟩

theorem routerHandleControlMessage_memory (done : routerHandleControlMessage r data = some after) :
    (TopoNode.router after).memory = (TopoNode.router r).memory := by
  obtain ⟨sameBase, sameTable⟩ := routerHandleControlMessage_keeps done
  simp only [TopoNode.memory, LegacyNode.memory, sameBase, sameTable]

end Horse.Net
