import Horse.Net.Passing

/-!
# What a node keeps of its ports

Receiving a netflow, starting an application and handling a routing message change the
counters of ports and the buffer of the node, and nothing else of its ports.
-/

namespace Horse.Net

open Horse.Container Horse.Lib

/-- A change of a port is seen where that port is looked up. -/
theorem nodePort_updatePort {change : Port → Port} (keeps : ∀ p, (change p).portId = p.portId)
    (n : Node) (port other : BitVec 32) :
    nodePort (n.updatePort port change) other =
      if other = port then (nodePort n port).map change else nodePort n other :=
  find?_updateFirst (fun p same => (keeps p).trans same) other n.ports

/-- A port without its counters. -/
def Port.fixed (p : Port) : Port :=
  { p with stats := ⟨0, 0, 0, 0⟩ }

/-- Two nodes with the same identifier and the same ports up to their counters. -/
structure KeepsPorts (after before : Node) : Prop where
  sameUuid : after.uuid = before.uuid
  samePorts : after.ports.map Port.fixed = before.ports.map Port.fixed

namespace KeepsPorts

theorem refl (n : Node) : KeepsPorts n n :=
  ⟨rfl, rfl⟩

variable {after before : Node}

theorem trans {middle : Node} (second : KeepsPorts after middle)
    (first : KeepsPorts middle before) : KeepsPorts after before :=
  ⟨second.sameUuid.trans first.sameUuid, second.samePorts.trans first.samePorts⟩

/-- A port is found as it was, up to its counters. -/
theorem nodePort_fixed (keeps : KeepsPorts after before) (port : BitVec 32) :
    (nodePort after port).map Port.fixed = (nodePort before port).map Port.fixed := by
  have found (n : Node) : (nodePort n port).map Port.fixed =
      (n.ports.map Port.fixed).find? fun p => p.portId == port := by
    rw [List.find?_map]
    rfl
  rw [found, found, keeps.samePorts]

/-- What is read of a port, if it is not a counter, stays the same. -/
theorem nodePort_read {β : Type} (keeps : KeepsPorts after before) (port : BitVec 32)
    (read : Port → β) (noCounter : ∀ p, read p.fixed = read p) :
    (nodePort after port).map read = (nodePort before port).map read := by
  have same := congrArg (Option.map read) (keeps.nodePort_fixed port)
  simpa only [Option.map_map, Function.comp_def, noCounter] using same

theorem updatePort (n : Node) (port : BitVec 32) {change : Port → Port}
    (onlyCounters : ∀ p, (change p).fixed = p.fixed) :
    KeepsPorts (n.updatePort port change) n :=
  ⟨rfl, map_updateFirst _ _ (fun p _ => onlyCounters p) n.ports⟩

theorem countReceived (n : Node) (flow : Netflow) (inPort : BitVec 32) :
    KeepsPorts (n.countReceived flow inPort) n :=
  updatePort n inPort fun _ => rfl

theorem updatePortStats (n : Node) (flow : Netflow) (outPort : BitVec 32) :
    KeepsPorts (nodeUpdatePortStats n flow outPort) n := by
  apply updatePort
  intro p
  split <;> rfl

theorem flowPush (n : Node) (flow : Netflow) : KeepsPorts (nodeFlowPush n flow) n := by
  unfold nodeFlowPush
  split
  · exact ⟨rfl, rfl⟩
  · exact refl n

theorem flowPop {n rest : Node} {flow : Netflow} (popped : nodeFlowPop n = some (flow, rest)) :
    KeepsPorts rest n := by
  rcases nodeFlowPop_cases popped with ⟨flows, bounded, -, rfl⟩
  exact ⟨rfl, rfl⟩

end KeepsPorts

/-! ## Legacy nodes -/

section Legacy

variable {ln after : LegacyNode} {flow : Netflow} {out : Option Netflow}

theorem findForwardingPorts_keepsPorts {ecmp : Bool}
    (found : findForwardingPorts ln flow ecmp = some (out, after)) :
    KeepsPorts after.base ln.base := by
  cases forwards_of_findForwardingPorts found with
  | noRoute | resolved | abandoned => exact .refl _
  | asked => exact .flowPush _ _

theorem recvArpRequest_base (ln : LegacyNode) (p : Port) (flow : Netflow) :
    (recvArpRequest ln p flow).2.base = ln.base := by
  unfold recvArpRequest
  split
  · rfl
  · dsimp only
    split <;> rfl

theorem recvArpReply_keepsPorts (ln : LegacyNode) (flow : Netflow) :
    KeepsPorts (recvArpReply ln flow).2.base ln.base := by
  unfold recvArpReply
  split
  · exact .refl _
  · rename_i popped
    exact .flowPop popped

theorem l2RecvNetflow_keepsPorts (ln : LegacyNode) (flow : Netflow) :
    KeepsPorts (l2RecvNetflow ln flow).2.base ln.base := by
  rcases received : l2RecvNetflow ln flow with ⟨out, after⟩
  cases receives_of_l2RecvNetflow received with
  | dropped | passed => exact .refl _
  | request =>
    rw [recvArpRequest_base]
    exact .refl _
  | reply => exact recvArpReply_keepsPorts ln flow

end Legacy

/-! ## Hosts, routers and datapaths -/

section Nodes

variable {flow nf : Netflow} {out : Option Netflow} {h after : Host} {find : HashFind Flow}

theorem hostRecvIp_keepsPorts (done : hostRecvIp h nf = some (out, after)) :
    KeepsPorts after.ep.base h.ep.base := by
  rcases hostRecvIp_cases done with ⟨-, rfl⟩ | ⟨app, handled, -, answers⟩
  · exact .refl _
  · rcases hostAnswer_forwards answers with ⟨sent, found, -⟩
    exact findForwardingPorts_keepsPorts found

theorem hostRecvNetflow_keepsPorts (done : hostRecvNetflow h flow = some (out, after)) :
    KeepsPorts after.ep.base h.ep.base := by
  have keeps := l2RecvNetflow_keepsPorts h.ep flow
  cases receives_of_hostRecvNetflow done with
  | dropped received =>
    rw [received] at keeps
    exact keeps
  | ip _ _ answers => exact hostRecvIp_keepsPorts answers
  | arp _ received sends =>
    rw [received] at keeps
    rw [(hostRecvArp_cases sends).1]
    exact keeps
  | ignored => exact .refl _

theorem hostExecuteApp_keepsPorts {exec : Exec} (done : hostExecuteApp h exec = some (out, after)) :
    KeepsPorts after.ep.base h.ep.base := by
  rcases hostExecuteApp_cases done with ⟨-, -, rfl⟩ | ⟨-, started, sent, -, found, -⟩
  · exact .refl _
  · exact findForwardingPorts_keepsPorts found

theorem routerRecvNetflow_keepsPorts {r after : Router}
    (done : routerRecvNetflow r flow = some (out, after)) :
    KeepsPorts after.ln.base r.ln.base := by
  have counted := KeepsPorts.countReceived r.ln.base flow flow.key.inPort
  have keeps := (l2RecvNetflow_keepsPorts (r.counted flow) flow).trans counted
  cases receives_of_routerRecvNetflow done with
  | dropped received | arp _ received =>
    rw [received] at keeps
    exact keeps
  | consumed | ignored => exact counted
  | forwarded _ _ _ found => exact (findForwardingPorts_keepsPorts found).trans counted

theorem dpRecvNetflow_keepsPorts {dp after : Datapath}
    (done : dpRecvNetflow find dp flow = some (out, after)) :
    KeepsPorts after.base dp.base := by
  unfold dpRecvNetflow at done
  split at done
  · cases done
    exact .refl _
  · split at done
    · cases done
    · cases done
      exact .countReceived _ _ _

theorem dpRecvNetflow_flowBuff {dp after : Datapath}
    (done : dpRecvNetflow find dp flow = some (out, after)) :
    after.base.flowBuff = dp.base.flowBuff := by
  unfold dpRecvNetflow at done
  split at done
  · cases done
    rfl
  · split at done
    · cases done
    · cases done
      rfl

/-- A node that receives a netflow keeps its ports. -/
theorem TopoNode.recvNetflow_keepsPorts {node after : TopoNode}
    (received : node.recvNetflow find nf = some (out, after)) :
    KeepsPorts after.base node.base := by
  cases node with
  | datapath dp =>
    rcases Option.map_eq_some_iff.mp received with ⟨⟨sent, dp'⟩, done, result⟩
    cases result
    exact dpRecvNetflow_keepsPorts done
  | host h =>
    rcases Option.map_eq_some_iff.mp received with ⟨⟨sent, h'⟩, done, result⟩
    cases result
    exact hostRecvNetflow_keepsPorts done
  | router r =>
    rcases Option.map_eq_some_iff.mp received with ⟨⟨sent, r'⟩, done, result⟩
    cases result
    exact routerRecvNetflow_keepsPorts done

end Nodes

end Horse.Net
