import Horse.Net.Receiving
import Horse.Net.Topology

/-!
# What a node keeps of a netflow and of itself

A node that receives a netflow forwards one that starts at the same time, be it
the netflow itself, an ARP request in its place or a netflow that waited for it.
Its identifier and the executions of a host stay as they are.
-/

namespace Horse.Net

open Horse.Container Horse.Lib

/-- A node with the given identifier passes on a netflow that starts at the given
time, if any, and keeps its identifier. -/
structure Passes (start uuid : Nat) (out : Option Netflow) (after : Node) : Prop where
  sameUuid : after.uuid = uuid
  sameStart : ∀ nf, out = some nf → nf.startTime = start

variable {start uuid : Nat}

theorem Passes.nothing {after : Node} (sameUuid : after.uuid = uuid) :
    Passes start uuid none after :=
  ⟨sameUuid, by simp⟩

theorem Passes.one {after : Node} {nf : Netflow} (sameUuid : after.uuid = uuid)
    (sameStart : nf.startTime = start) :
    Passes start uuid (some nf) after := by
  refine ⟨sameUuid, ?_⟩
  rintro _ ⟨rfl⟩
  exact sameStart

/-! ## Legacy nodes -/

section Legacy

variable {ln after : LegacyNode} {flow nf : Netflow} {out : Option Netflow}

theorem nodeFlowPush_uuid (n : Node) (flow : Netflow) : (nodeFlowPush n flow).uuid = n.uuid := by
  unfold nodeFlowPush
  split <;> rfl

variable {n : Node}

theorem nodeFlowPop_uuid {rest : Node} (popped : nodeFlowPop n = some (flow, rest)) :
    rest.uuid = n.uuid := by
  rcases nodeFlowPop_cases popped with ⟨flows, bounded, -, rfl⟩
  rfl

theorem ipLookup_startTime (ln : LegacyNode) (flow : Netflow) (ecmp : Bool) :
    (ipLookup ln flow ecmp).2.startTime = flow.startTime := by
  unfold ipLookup
  split <;> rfl

theorem findForwardingPorts_passes {ecmp : Bool}
    (found : findForwardingPorts ln flow ecmp = some (out, after)) :
    Passes flow.startTime ln.base.uuid out after.base := by
  have sameStart := ipLookup_startTime ln flow ecmp
  cases forwards_of_findForwardingPorts found with
  | noRoute | abandoned => exact .nothing rfl
  | resolved => exact .one rfl sameStart
  | asked => exact .one (nodeFlowPush_uuid _ _) sameStart

theorem recvArpRequest_passes (ln : LegacyNode) (p : Port) (flow : Netflow) :
    Passes flow.startTime ln.base.uuid (recvArpRequest ln p flow).1
      (recvArpRequest ln p flow).2.base := by
  unfold recvArpRequest
  split
  · exact .nothing rfl
  · refine .one ?_ rfl
    dsimp only
    split <;> rfl

theorem recvArpReply_passes (ln : LegacyNode) (flow : Netflow) :
    Passes flow.startTime ln.base.uuid (recvArpReply ln flow).1 (recvArpReply ln flow).2.base := by
  unfold recvArpReply
  split
  · exact .nothing rfl
  · rename_i popped
    exact .one (nodeFlowPop_uuid popped) rfl

theorem l2RecvNetflow_passes (ln : LegacyNode) (flow : Netflow) :
    Passes flow.startTime ln.base.uuid (l2RecvNetflow ln flow).1
      (l2RecvNetflow ln flow).2.base := by
  rcases received : l2RecvNetflow ln flow with ⟨out, after⟩
  cases receives_of_l2RecvNetflow received with
  | dropped => exact .nothing rfl
  | request => exact recvArpRequest_passes ln _ flow
  | reply => exact recvArpReply_passes ln flow
  | passed => exact .one rfl rfl

theorem fillSource_startTime {ports : List (BitVec 32)} (done : fillSource n ports flow = some nf) :
    nf.startTime = flow.startTime :=
  fillSource_keeps Netflow.startTime (fun _ _ _ => rfl) done

theorem Passes.fills {next : Node} {ports : Netflow → List (BitVec 32)} {sent : Option Netflow}
    (passes : Passes start uuid sent next) (fills : FillsSource n ports sent out) :
    Passes start uuid out next := by
  cases fills with
  | nothing => exact passes
  | @filled flow nf fills =>
    exact .one passes.sameUuid ((fillSource_startTime fills).trans (passes.sameStart flow rfl))

end Legacy

/-! ## Hosts -/

section Host

variable {h after : Host} {flow nf : Netflow} {out : Option Netflow}

theorem hostRecvIp_passes (done : hostRecvIp h nf = some (out, after)) :
    Passes nf.startTime h.ep.base.uuid out after.ep.base ∧ after.execs = h.execs := by
  rcases hostRecvIp_cases done with ⟨rfl, rfl⟩ | ⟨app, handled, handles, answers⟩
  · exact ⟨.nothing rfl, rfl⟩
  · rcases hostAnswer_forwards answers with ⟨sent, found, fills, sameExecs⟩
    rw [← (appHandleNetflow_keeps handles).1]
    exact ⟨(findForwardingPorts_passes found).fills fills, sameExecs⟩

theorem hostRecvArp_passes (done : hostRecvArp h nf = some (out, after)) :
    Passes nf.startTime h.ep.base.uuid out after.ep.base ∧ after.execs = h.execs := by
  rcases hostRecvArp_cases done with ⟨rfl, sent, rfl, ⟨-, fills⟩ | rfl⟩
  · exact ⟨.one rfl (fillSource_startTime fills), rfl⟩
  · exact ⟨.one rfl rfl, rfl⟩

theorem Passes.trans {middle last : Node} (first : Passes start uuid (some nf) middle)
    (second : Passes nf.startTime middle.uuid out last) : Passes start uuid out last where
  sameUuid := second.sameUuid.trans first.sameUuid
  sameStart next isNext := (second.sameStart next isNext).trans (first.sameStart nf rfl)

theorem hostRecvNetflow_passes (done : hostRecvNetflow h flow = some (out, after)) :
    Passes flow.startTime h.ep.base.uuid out after.ep.base ∧ after.execs = h.execs := by
  have passes := l2RecvNetflow_passes h.ep flow
  cases receives_of_hostRecvNetflow done with
  | dropped received =>
    rw [received] at passes
    exact ⟨passes, rfl⟩
  | ip _ _ answers => exact hostRecvIp_passes answers
  | arp _ received sends =>
    rw [received] at passes
    rcases hostRecvArp_passes sends with ⟨rest, sameExecs⟩
    exact ⟨passes.trans rest, sameExecs⟩
  | ignored => exact ⟨.nothing rfl, rfl⟩

theorem appStart_startTime {args : AppArgs} (starts : appStart start args = some nf) :
    nf.startTime = start := by
  cases args <;> cases starts <;> rfl

/-- Starting an execution counts it down. -/
theorem hostExecuteApp_passes {exec : Exec} {addr : Nat} (isExec : h.execAt addr = some exec)
    (done : hostExecuteApp h exec = some (out, after)) :
    Passes exec.startTime h.ep.base.uuid out after.ep.base ∧
      after.execs = (h.updateExec exec.addr (fun execCnt => execCnt - 1) id).execs := by
  rcases hostExecuteApp_cases done with
    ⟨notInstalled, -⟩ | ⟨-, started, sent, starts, found, fills, execs⟩
  · exact absurd (h.installed exec (List.mem_of_find?_eq_some isExec)) notInstalled
  · have passes := findForwardingPorts_passes found
    rw [← appStart_startTime starts]
    exact ⟨passes.fills fills, execs⟩

end Host

/-! ## Routers and datapaths -/

variable {find : HashFind Flow}

section Other

variable {flow nf : Netflow} {out : Option Netflow}

theorem routerRecvNetflow_passes {r after : Router}
    (done : routerRecvNetflow r flow = some (out, after)) :
    Passes flow.startTime r.ln.base.uuid out after.ln.base := by
  have passes := l2RecvNetflow_passes (r.counted flow) flow
  cases receives_of_routerRecvNetflow done with
  | dropped received | arp _ received =>
    rw [received] at passes
    exact passes
  | consumed | ignored => exact .nothing rfl
  | forwarded _ received _ found =>
    rw [received] at passes
    exact passes.trans (findForwardingPorts_passes found)

theorem applyActions_startTime (al : List Action) (nf : Netflow) :
    (applyActions al nf).startTime = nf.startTime := by
  rcases applyActions_effect al nf with ⟨key, tags, applied⟩
  rw [applied]

theorem leaveTable_startTime (f : Flow) (nf : Netflow) :
    (leaveTable f nf).startTime = nf.startTime := by
  have applied := applyActions_startTime (appliedActions f.insts) (nf.setCookie f.cookie)
  simp only [leaveTable]
  split <;> exact applied

theorem executeActionSet_startTime {as : ActionSet}
    (done : executeActionSet as flow = some nf) : nf.startTime = flow.startTime := by
  rw [executeActionSet_eq, executeActionList_eq] at done
  split at done
  · cases done
    exact applyActions_startTime _ _
  · cases done

theorem pipeline_startTime {turns tableId : Nat} {tables : List FlowTable} {acts : ActionSet}
    {result : PipelineResult} (ran : pipeline find turns tables tableId nf acts = some result) :
    result.nf.startTime = nf.startTime := by
  induction turns generalizing tables tableId nf acts result with
  | zero => cases ran
  | succ turns ih =>
    rcases Option.bind_eq_some_iff.mp ran with ⟨table, here, -⟩
    rw [pipeline_turn here] at ran
    split at ran
    · cases ran
      rfl
    · rename_i f found
      dsimp only at ran
      split at ran
      · split at ran
        · rcases Option.map_eq_some_iff.mp ran with ⟨tail, tailRan, rfl⟩
          exact (ih tailRan).trans (leaveTable_startTime f nf)
        · rcases Option.map_eq_some_iff.mp ran with ⟨final, executed, rfl⟩
          exact (executeActionSet_startTime executed).trans (leaveTable_startTime f nf)
      · cases ran

theorem dpRecvNetflow_passes {dp after : Datapath}
    (done : dpRecvNetflow find dp flow = some (out, after)) :
    Passes flow.startTime dp.base.uuid out after.base := by
  unfold dpRecvNetflow at done
  split at done
  · cases done
    exact .nothing rfl
  · split at done
    · cases done
    · rename_i result ran
      cases done
      refine ⟨rfl, ?_⟩
      intro nf isNf
      split at isNf
      · cases isNf
        have sameStart := pipeline_startTime (show pipeline find maxTables dp.tables 0
          (enterPipeline flow) actionSetInit = some result from ran)
        exact sameStart
      · cases isNf

end Other

/-! ## Nodes of a topology -/

namespace TopoNode

/-- The executions of a node, which only a host has. -/
def execs : TopoNode → List Exec
  | host h => h.execs
  | _ => []

/-- What every kind of node keeps when it receives a netflow. -/
theorem recvNetflow_passes {nf : Netflow} {node after : TopoNode} {out : Option Netflow}
    (received : node.recvNetflow find nf = some (out, after)) :
    Passes nf.startTime node.uuid out after.base ∧ after.execs = node.execs := by
  cases node with
  | datapath dp =>
    rcases Option.map_eq_some_iff.mp received with ⟨⟨sent, dp'⟩, done, result⟩
    cases result
    exact ⟨dpRecvNetflow_passes done, rfl⟩
  | host h =>
    rcases Option.map_eq_some_iff.mp received with ⟨⟨sent, h'⟩, done, result⟩
    cases result
    exact hostRecvNetflow_passes done
  | router r =>
    rcases Option.map_eq_some_iff.mp received with ⟨⟨sent, r'⟩, done, result⟩
    cases result
    exact ⟨routerRecvNetflow_passes done, rfl⟩

@[simp]
theorem base_setBase (n : Node) (node : TopoNode) : (node.setBase n).base = n := by
  cases node <;> rfl

@[simp]
theorem execs_setBase (n : Node) (node : TopoNode) : (node.setBase n).execs = node.execs := by
  cases node <;> rfl

end TopoNode

/-! ## Topologies -/

theorem topologyNode_uuid {topo : Topology} {node : TopoNode}
    (found : topologyNode topo uuid = some node) : node.uuid = uuid := by
  simpa using List.find?_some found

/-- Only the searches for its identifier see a node that was put in place. -/
theorem topologyNode_setNode (topo : Topology) (node : TopoNode) (uuid : Nat) :
    topologyNode (topo.setNode node) uuid =
      if uuid = node.uuid then (topologyNode topo uuid).map fun _ => node
      else topologyNode topo uuid := by
  rw [topologyNode, Topology.setNode, find?_updateFirst (fun _ _ => rfl)]
  by_cases isNode : uuid = node.uuid
  · simp only [isNode, if_true, topologyNode]
  · simp only [isNode, if_false, topologyNode]

end Horse.Net
