import Horse.Net.FlowTable
import Horse.Net.Node

/-!
# Datapaths

The OpenFlow pipeline.  Actions are executed through a table of handlers in
which several kinds of actions have none; calling a missing handler ends the
program, which is the undefined result here.
-/

namespace Horse.Net

open Horse.Container Horse.Lib

/-! ## Actions -/

/-- The fields a set-field action writes without looking at the tags. -/
def setPlainField (key : OflFlowKey) (set : SetField) : OflFlowKey :=
  match set.field with
  | .inPort => { key with inPort := set.u32Field }
  | .metadata => { key with metadata := set.u64Field }
  | .tunnelId => { key with tunnelId := set.u64Field }
  | .ethType => { key with ethType := set.u16Field }
  | .ethDst => { key with ethDst := set.ethAddr }
  | .ethSrc => { key with ethSrc := set.ethAddr }
  | .ipDscp => { key with ipDscp := set.u8Field }
  | .ipEcn => { key with ipEcn := set.u8Field }
  | .ipProto => { key with ipProto := set.u8Field }
  | .ipv4Dst => { key with ipv4Dst := set.u32Field }
  | .ipv4Src => { key with ipv4Src := set.u32Field }
  | .tcpDst => { key with tcpDst := set.u16Field }
  | .tcpSrc => { key with tcpSrc := set.u16Field }
  | .udpDst => { key with udpDst := set.u16Field }
  | .udpSrc => { key with udpSrc := set.u16Field }
  | .arpOp => { key with arpOp := set.u16Field }
  | .arpSpa => { key with arpSpa := set.u32Field }
  | .arpTpa => { key with arpTpa := set.u32Field }
  | .arpSha => { key with arpSha := set.ethAddr }
  | .arpTha => { key with arpTha := set.ethAddr }
  | .ipv6Dst => { key with ipv6Dst := set.ipv6Addr }
  | .ipv6Src => { key with ipv6Src := set.ipv6Addr }
  -- Only six of the sixteen bytes are copied.
  | .ipv6NdTarget =>
    { key with ipv6NdTarget := key.ipv6NdTarget.extractLsb' 48 80 ++ set.ethAddr }
  | .ipv6NdSll => { key with ipv6NdSll := set.ethAddr }
  | .ipv6NdTll => { key with ipv6NdTll := set.ethAddr }
  | _ => key

/-- `set_field`.  The fields of a tag are only written when the outermost tag is
of their kind, in the match and in the tag. -/
def setField (set : SetField) (nf : Netflow) : Netflow :=
  match set.field with
  | .vlanId =>
    if netflowIsVlanTagged nf then
      { nf with
        key := { nf.key with vlanId := set.u16Field }
        tags := nf.tags.setTop fun t =>
          t.setVlanTag ((t.vlanTag &&& ~~~vlanVidMask) ||| (set.u16Field &&& vlanVidMask)) }
    else nf
  | .vlanPcp =>
    if netflowIsVlanTagged nf then
      { nf with
        key := { nf.key with vlanPcp := set.u8Field }
        tags := nf.tags.setTop fun t =>
          t.setVlanTag ((t.vlanTag &&& ~~~vlanPcpMask) ||| (set.u8Field.setWidth 16 <<< 13)) }
    else nf
  | .mplsLabel =>
    if netflowIsOuterMpls nf then
      { nf with
        key := { nf.key with mplsLabel := set.u32Field }
        tags := nf.tags.setTop fun t =>
          { t with word := (t.word &&& ~~~mplsLabelMask) |||
              ((set.u32Field <<< 12) &&& mplsLabelMask) } }
    else nf
  | .mplsTc =>
    if netflowIsOuterMpls nf then
      { nf with
        key := { nf.key with mplsTc := set.u8Field }
        tags := nf.tags.setTop fun t =>
          { t with word := (t.word &&& mplsTcMask) |||
              ((set.u8Field.setWidth 32 <<< 9) &&& mplsTcMask) } }
    else nf
  | .mplsBos =>
    if netflowIsOuterMpls nf then
      { nf with
        key := { nf.key with mplsBos := set.u8Field }
        tags := nf.tags.setTop fun t =>
          { t with word := (t.word &&& mplsSMask) |||
              ((set.u8Field.setWidth 32 <<< 8) &&& mplsSMask) } }
    else nf
  | _ => { nf with key := setPlainField nf.key set }

/-- The array `handle_action`.  Kinds without an entry have a null handler; the
entries of push-VLAN and push-MPLS are exchanged. -/
def handleAction : Action → Option (Netflow → Netflow)
  | .popVlan => some netflowPopVlan
  | .popMpls ethType => some fun nf => netflowPopMpls nf ethType
  | .pushMpls ethType => some fun nf => netflowPushVlan nf ethType
  | .pushVlan ethType => some fun nf => netflowPushMpls nf ethType
  | .setField set => some (setField set)
  | .group _ => some id
  | .output port => some fun nf => netflowAddOutPort nf port
  | .meter _ => none
  | .copyTtlInwards => none
  | .copyTtlOutwards => none
  | .decrementTtl => none
  | .setMplsTtl _ => none
  | .decrementMplsTtl => none
  | .qos => none

/-- `execute_action`. -/
def executeAction (flow : Netflow) (act : Action) : Option Netflow :=
  (handleAction act).map fun handler => handler flow

/-- `execute_action_list`. -/
def executeActionList (al : List Action) (flow : Netflow) : Option Netflow :=
  al.foldlM executeAction flow

/-- `execute_action_set`. -/
def executeActionSet (as : ActionSet) (flow : Netflow) : Option Netflow :=
  ActionSetOrder.all.foldlM
    (fun flow type =>
      match actionSetAction as type with
      | some act => executeAction flow act
      | none => some flow)
    flow

/-- `execute_instructions`: the target of a goto, which is 0 without one, the
netflow and the action set. -/
def executeInstructions (is : InstructionSet) (flow : Netflow) (as : ActionSet) :
    Option (BitVec 8 × Netflow × ActionSet) :=
  let applied :=
    if instructionIsActive is .applyActions then executeActionList is.applyAct flow
    else some flow
  applied.map fun flow =>
    let cleared := if instructionIsActive is .clearActions then actionSetInit else as
    let written :=
      if instructionIsActive is .writeActions then actionSetMerge cleared is.writeAct
      else cleared
    let flow :=
      if instructionIsActive is .writeMetadata then
        flow.setKeyMetadata is.writeMeta.metadata
      else flow
    (if instructionIsActive is .gotoTable then is.gtTable else 0, flow, written)

/-! ## The pipeline -/

/-- `MAX_TABLES`. -/
def maxTables : Nat := 128

/-- `OFP_NO_BUFFER`. -/
def ofpNoBuffer : BitVec 32 := 0xffffffff

/-- `struct datapath`. -/
structure Datapath where
  base : Node
  dpId : Nat
  tables : List FlowTable
  tablesNum : tables.length = maxTables
  deriving DecidableEq, Repr

/-- `dp_new`, for a node that was given an identifier. -/
def dpNew (uuid dpId : Nat) : Datapath where
  base := nodeInit uuid
  dpId := dpId
  tables := (List.range maxTables).map fun i => flowTableNew (BitVec.ofNat 8 i)
  tablesNum := by simp

/-- `dp_add_port`. -/
def dpAddPort (dp : Datapath) (portId : BitVec 32) (ethAddr : BitVec 48)
    (currSpeed : BitVec 32) : Datapath :=
  { dp with base := nodeAddPort dp.base portId ethAddr currSpeed }

/-- `dp_port`. -/
def dpPort (dp : Datapath) (portId : BitVec 32) : Option Port :=
  nodePort dp.base portId

/-- What the loop of `dp_recv_netflow` leaves behind: whether the netflow is
returned, the netflow, the tables, and the tables visited, which are only
observed. -/
structure PipelineResult where
  returned : Bool
  nf : Netflow
  tables : List FlowTable
  visited : List Nat

/-- The counters of a matched flow. -/
def FlowTable.count (table : FlowTable) (f : Flow) (nf : Netflow) : FlowTable :=
  { table with
    flows := table.flows.map fun mft =>
      mft.update f.addr fun g =>
        { g with
          pktCnt := (g.pktCnt + nf.pktCnt) % 2 ^ 64
          byteCnt := (g.byteCnt + nf.byteCnt) % 2 ^ 64 } }

/-- The loop of `dp_recv_netflow`.  The table identifiers grow, so as many turns
as there are tables are enough. -/
def pipeline (find : HashFind Flow) :
    Nat → List FlowTable → Nat → Netflow → ActionSet → Option PipelineResult
  | 0, _, _, _, _ => none
  | turns + 1, tables, tableId, nf, acts =>
    -- An index outside the array is undefined.
    tables[tableId]?.bind fun table =>
      let lookup := flowTableLookup find table nf.key nf.startTime
      match lookup.1 with
      | none => some ⟨false, nf, tables.set tableId lookup.2, [tableId]⟩
      | some f =>
        let tables := tables.set tableId (lookup.2.count f nf)
        (executeInstructions f.insts (nf.setCookie f.cookie) acts).bind
          fun (nextTableId, nf, acts) =>
          if tableId < nextTableId.toNat then
            (pipeline find turns tables nextTableId.toNat (nf.setTableId nextTableId) acts).map
              fun result => { result with visited := tableId :: result.visited }
          else
            (executeActionSet acts nf).map fun nf =>
              ⟨!nf.outPorts.isEmpty, nf, tables, [tableId]⟩

/-- What one turn of the pipeline can be: a miss, a match that leads to a later table or a
match that ends the loop. -/
inductive PipelineTurn (find : HashFind Flow) (turns : Nat) (tables : List FlowTable)
    (tableId : Nat) (nf : Netflow) (acts : ActionSet) : PipelineResult → Prop
  | miss {table : FlowTable} (here : tables[tableId]? = some table)
      (missed : (flowTableLookup find table nf.key nf.startTime).1 = none) :
      PipelineTurn find turns tables tableId nf acts
        ⟨false, nf, tables.set tableId (flowTableLookup find table nf.key nf.startTime).2,
          [tableId]⟩
  | goto {table : FlowTable} {f : Flow} {nextTableId : BitVec 8} {nextNf : Netflow}
      {nextActs : ActionSet} {tail : PipelineResult} (here : tables[tableId]? = some table)
      (found : (flowTableLookup find table nf.key nf.startTime).1 = some f)
      (executed : executeInstructions f.insts (nf.setCookie f.cookie) acts =
        some (nextTableId, nextNf, nextActs))
      (later : tableId < nextTableId.toNat)
      (tailRan : pipeline find turns
        (tables.set tableId ((flowTableLookup find table nf.key nf.startTime).2.count f nf))
        nextTableId.toNat (nextNf.setTableId nextTableId) nextActs = some tail) :
      PipelineTurn find turns tables tableId nf acts
        { tail with visited := tableId :: tail.visited }
  | last {table : FlowTable} {f : Flow} {nextTableId : BitVec 8} {nextNf final : Netflow}
      {nextActs : ActionSet} (here : tables[tableId]? = some table)
      (found : (flowTableLookup find table nf.key nf.startTime).1 = some f)
      (executed : executeInstructions f.insts (nf.setCookie f.cookie) acts =
        some (nextTableId, nextNf, nextActs))
      (stays : ¬tableId < nextTableId.toNat) :
      PipelineTurn find turns tables tableId nf acts
        ⟨!final.outPorts.isEmpty, final,
          tables.set tableId ((flowTableLookup find table nf.key nf.startTime).2.count f nf),
          [tableId]⟩

section Turns

variable {find : HashFind Flow} {turns : Nat} {tables : List FlowTable} {tableId : Nat}
  {nf : Netflow} {acts : ActionSet} {result : PipelineResult}

theorem pipelineTurn_of_ran (ran : pipeline find (turns + 1) tables tableId nf acts = some result) :
    PipelineTurn find turns tables tableId nf acts result := by
  rw [pipeline, Option.bind_eq_some_iff] at ran
  obtain ⟨table, here, ran⟩ := ran
  dsimp only at ran
  split at ran
  · rename_i missed
    cases ran
    exact .miss here missed
  · rename_i f found
    obtain ⟨⟨nextTableId, nextNf, nextActs⟩, executed, ran⟩ := Option.bind_eq_some_iff.mp ran
    dsimp only at ran
    split at ran
    · rename_i later
      obtain ⟨tail, tailRan, rfl⟩ := Option.map_eq_some_iff.mp ran
      exact .goto here found executed later tailRan
    · rename_i stays
      obtain ⟨final, -, rfl⟩ := Option.map_eq_some_iff.mp ran
      exact .last here found executed stays

theorem pipeline_tables_length (ran : pipeline find turns tables tableId nf acts = some result) :
    result.tables.length = tables.length := by
  induction turns generalizing tables tableId nf acts result with
  | zero => cases ran
  | succ turns ih =>
    cases pipelineTurn_of_ran ran with
    | miss here missed => exact List.length_set
    | goto here found executed later tailRan => exact (ih tailRan).trans List.length_set
    | last here found executed stays => exact List.length_set

end Turns

/-- A netflow as it enters the pipeline. -/
def enterPipeline (nf : Netflow) : Netflow :=
  ((nf.setBufferId ofpNoBuffer).setKeyMetadata 0).setTableId 0

/-- The pipeline of a datapath, from its first table. -/
def dpPipeline (find : HashFind Flow) (dp : Datapath) (nf : Netflow) : Option PipelineResult :=
  pipeline find maxTables dp.tables 0 (enterPipeline nf) actionSetInit

/-- `dp_recv_netflow`: the netflow, if it is to be forwarded, and the datapath. -/
def dpRecvNetflow (find : HashFind Flow) (dp : Datapath) (nf : Netflow) :
    Option (Option Netflow × Datapath) :=
  match dpPort dp nf.key.inPort with
  | none => some (none, dp)
  | some _ =>
    match ran : dpPipeline find dp nf with
    | none => none
    | some result =>
      some (if result.returned then some result.nf else none,
        { dp with
          base := dp.base.countReceived nf nf.key.inPort
          tables := result.tables
          tablesNum := (pipeline_tables_length ran).trans dp.tablesNum })

/-- `dp_create_flood`, on the node of a datapath: all ports but the one the netflow
came in through, the oldest first. -/
def dpCreateFlood (n : Node) (nf : Netflow) : Netflow :=
  (n.ports.reverse.filter fun p => p.portId != nf.key.inPort).foldl
    (fun nf p => netflowAddOutPort nf p.portId) nf

/-! ## The outputs of a walk -/

/-- The output ports of a list of actions, in order. -/
def outputs (al : List Action) : List (BitVec 32) :=
  al.filterMap fun
    | .output port => some port
    | _ => none

/-- The actions of a set in the order in which a set is executed. -/
def orderedActions (as : ActionSet) : List Action :=
  ActionSetOrder.all.filterMap (actionSetAction as)

/-- The actions a flow applies at once. -/
def appliedActions (is : InstructionSet) : List Action :=
  if instructionIsActive is .applyActions then is.applyAct else []

/-- The action set after the clear and write instructions of a flow. -/
def accumulate (as : ActionSet) (is : InstructionSet) : ActionSet :=
  let cleared := if instructionIsActive is .clearActions then actionSetInit else as
  if instructionIsActive is .writeActions then actionSetMerge cleared is.writeAct else cleared

/-- The table a flow sends the netflow to; 0 without a goto instruction. -/
def gotoTarget (is : InstructionSet) : BitVec 8 :=
  if instructionIsActive is .gotoTable then is.gtTable else 0

/-- The netflow after a list of actions; an action without handler has no effect. -/
def applyActions (al : List Action) (nf : Netflow) : Netflow :=
  al.foldl (fun nf act => ((handleAction act).getD id) nf) nf

/-- The netflow as a matched flow leaves it. -/
def leaveTable (f : Flow) (nf : Netflow) : Netflow :=
  let nf := applyActions (appliedActions f.insts) (nf.setCookie f.cookie)
  if instructionIsActive f.insts .writeMetadata then
    nf.setKeyMetadata f.insts.writeMeta.metadata
  else nf

/-- The record of a walk through the tables: where it went, whether the last
table matched, the actions applied on the way and the final action set. -/
structure Walk where
  visited : List Nat
  matched : Bool
  applied : List Action
  acts : ActionSet

/-- The walk a netflow is meant to take from a table: it ends at the first table
without a match or with a match that does not lead to a later table. -/
inductive Walks (find : HashFind Flow) (tables : List FlowTable) :
    Nat → Netflow → ActionSet → Walk → Prop
  | miss {tableId nf acts table} (at_ : tables[tableId]? = some table)
      (missed : (flowTableLookup find table nf.key nf.startTime).1 = none) :
      Walks find tables tableId nf acts ⟨[tableId], false, [], acts⟩
  | last {tableId nf acts table f} (at_ : tables[tableId]? = some table)
      (found : (flowTableLookup find table nf.key nf.startTime).1 = some f)
      (stays : (gotoTarget f.insts).toNat ≤ tableId) :
      Walks find tables tableId nf acts
        ⟨[tableId], true, appliedActions f.insts, accumulate acts f.insts⟩
  | goto {tableId nf acts table f walk} (at_ : tables[tableId]? = some table)
      (found : (flowTableLookup find table nf.key nf.startTime).1 = some f)
      (later : tableId < (gotoTarget f.insts).toNat)
      (tail : Walks find tables (gotoTarget f.insts).toNat
        ((leaveTable f nf).setTableId (gotoTarget f.insts)) (accumulate acts f.insts) walk) :
      Walks find tables tableId nf acts
        ⟨tableId :: walk.visited, walk.matched, appliedActions f.insts ++ walk.applied,
          walk.acts⟩

namespace Walk

/-- The actions that the walk executes. -/
def executed (walk : Walk) : List Action :=
  walk.applied ++ if walk.matched then orderedActions walk.acts else []

/-- The ports the netflow is meant to leave through. -/
def outPorts (walk : Walk) : List (BitVec 32) :=
  outputs walk.executed

end Walk

/-! ## Actions and instructions compute what the walk records -/

/-- The action has a handler. -/
def handled (act : Action) : Bool :=
  (handleAction act).isSome

@[simp]
theorem outputs_nil : outputs [] = [] :=
  rfl

theorem outputs_append (first second : List Action) :
    outputs (first ++ second) = outputs first ++ outputs second :=
  List.filterMap_append

theorem setField_headerOnly (set : SetField) (nf : Netflow) :
    HeaderOnly (setField set nf) nf := by
  unfold setField
  split
  case h_6 => exact ⟨_, _, rfl⟩
  all_goals
    split
    · exact ⟨_, _, rfl⟩
    · exact HeaderOnly.refl nf

/-- A handler changes the header at most and appends the port of an output
action. -/
theorem handleAction_effect {act : Action} {handler : Netflow → Netflow}
    (isHandler : handleAction act = some handler) (nf : Netflow) :
    ∃ key tags, handler nf =
      { nf with key := key, tags := tags, outPorts := nf.outPorts ++ outputs [act] } := by
  have header : ∀ {after : Netflow}, outputs [act] = [] → HeaderOnly after nf →
      ∃ key tags, after =
        { nf with key := key, tags := tags, outPorts := nf.outPorts ++ outputs [act] } := by
    rintro after none ⟨key, tags, rfl⟩
    rw [none, List.append_nil]
    exact ⟨key, tags, rfl⟩
  cases act <;> cases isHandler
  case popVlan => exact header rfl (netflowPopVlan_headerOnly nf)
  case popMpls ethType => exact header rfl (netflowPopMpls_headerOnly nf ethType)
  case pushMpls ethType => exact header rfl (netflowPushVlan_headerOnly nf ethType)
  case pushVlan ethType => exact header rfl (netflowPushMpls_headerOnly nf ethType)
  case setField set => exact header rfl (setField_headerOnly set nf)
  case group => exact header rfl (HeaderOnly.refl nf)
  case output => exact ⟨nf.key, nf.tags, rfl⟩

/-- An action without handler has no output port. -/
theorem outputs_of_not_handled {act : Action} (missing : handleAction act = none) :
    outputs [act] = [] := by
  cases act <;> first | rfl | cases missing

theorem applyActions_effect (al : List Action) (nf : Netflow) :
    ∃ key tags, applyActions al nf =
      { nf with key := key, tags := tags, outPorts := nf.outPorts ++ outputs al } := by
  induction al generalizing nf with
  | nil => exact ⟨nf.key, nf.tags, by simp [applyActions]⟩
  | cons act rest ih =>
    have first : ∃ key tags, ((handleAction act).getD id) nf =
        { nf with key := key, tags := tags, outPorts := nf.outPorts ++ outputs [act] } := by
      cases isHandler : handleAction act with
      | none =>
        rw [outputs_of_not_handled isHandler, List.append_nil]
        exact ⟨nf.key, nf.tags, rfl⟩
      | some handler => exact handleAction_effect isHandler nf
    obtain ⟨key, tags, firstEq⟩ := first
    obtain ⟨lastKey, lastTags, lastEq⟩ := ih (((handleAction act).getD id) nf)
    refine ⟨lastKey, lastTags, ?_⟩
    have split : outputs (act :: rest) = outputs [act] ++ outputs rest :=
      outputs_append [act] rest
    rw [applyActions, List.foldl_cons]
    rw [applyActions] at lastEq
    rw [lastEq, firstEq, split]
    simp

theorem executeActionList_eq (al : List Action) (nf : Netflow) :
    executeActionList al nf = if al.all handled then some (applyActions al nf) else none := by
  induction al generalizing nf with
  | nil => rfl
  | cons act rest ih =>
    rw [executeActionList, List.foldlM_cons]
    cases isHandler : handleAction act with
    | none => simp [executeAction, isHandler, handled]
    | some handler =>
      have tail := ih (handler nf)
      rw [executeActionList] at tail
      simp [executeAction, isHandler, handled, applyActions] at tail ⊢
      exact tail

theorem executeActionSet_eq (as : ActionSet) (nf : Netflow) :
    executeActionSet as nf = executeActionList (orderedActions as) nf := by
  unfold executeActionSet executeActionList orderedActions
  induction ActionSetOrder.all generalizing nf with
  | nil => rfl
  | cons type rest ih =>
    rw [List.foldlM_cons]
    cases found : actionSetAction as type with
    | none =>
      rw [List.filterMap_cons_none found]
      exact ih nf
    | some act =>
      rw [List.filterMap_cons_some found, List.foldlM_cons]
      exact bind_congr ih

theorem executeInstructions_eq (f : Flow) (nf : Netflow) (acts : ActionSet) :
    executeInstructions f.insts (nf.setCookie f.cookie) acts =
      if (appliedActions f.insts).all handled then
        some (gotoTarget f.insts, leaveTable f nf, accumulate acts f.insts)
      else none := by
  have applied : (if instructionIsActive f.insts .applyActions then
        executeActionList f.insts.applyAct (nf.setCookie f.cookie)
      else some (nf.setCookie f.cookie)) =
      executeActionList (appliedActions f.insts) (nf.setCookie f.cookie) := by
    unfold appliedActions
    split <;> rfl
  rw [executeInstructions, applied, executeActionList_eq]
  by_cases all : (appliedActions f.insts).all handled = true
  · rw [if_pos all, if_pos all]
    rfl
  · rw [if_neg all, if_neg all]
    rfl

theorem leaveTable_outPorts (f : Flow) (nf : Netflow) :
    (leaveTable f nf).outPorts = nf.outPorts ++ outputs (appliedActions f.insts) := by
  obtain ⟨key, tags, applied⟩ := applyActions_effect (appliedActions f.insts)
    (nf.setCookie f.cookie)
  simp only [leaveTable, applied]
  split <;> rfl

/-! ## The pipeline follows the walk -/

section Walk

variable {find : HashFind Flow} {orig : List FlowTable} {tableId : Nat} {nf : Netflow}
  {acts : ActionSet} {walk : Walk}

/-- The walk visits ever later tables. -/
theorem Walks.visited_increasing (walks : Walks find orig tableId nf acts walk) :
    walk.visited.head? = some tableId ∧ walk.visited.Pairwise (· < ·) ∧
      ∀ visited ∈ walk.visited, tableId ≤ visited := by
  induction walks with
  | miss => simp
  | last => simp
  | @goto tableId nf acts table f walk at_ found later tail ih =>
    obtain ⟨-, increasing, after⟩ := ih
    refine ⟨rfl, List.pairwise_cons.mpr ⟨?_, increasing⟩, ?_⟩
    · intro visited member
      have bound := after visited member
      omega
    · intro visited member
      rcases List.mem_cons.mp member with rfl | member
      · exact Nat.le_refl visited
      · have bound := after visited member
        omega

theorem Walks.unique {other : Walk} (walks : Walks find orig tableId nf acts walk)
    (others : Walks find orig tableId nf acts other) : walk = other := by
  induction walks generalizing other with
  | miss at_ missed =>
    cases others with
    | miss => rfl
    | last otherAt found =>
      cases at_.symm.trans otherAt
      cases missed.symm.trans found
    | goto otherAt found =>
      cases at_.symm.trans otherAt
      cases missed.symm.trans found
  | last at_ found stays =>
    cases others with
    | miss otherAt missed =>
      cases at_.symm.trans otherAt
      cases found.symm.trans missed
    | last otherAt otherFound =>
      cases at_.symm.trans otherAt
      cases found.symm.trans otherFound
      rfl
    | goto otherAt otherFound later =>
      cases at_.symm.trans otherAt
      cases found.symm.trans otherFound
      omega
  | goto at_ found later tail ih =>
    cases others with
    | miss otherAt missed =>
      cases at_.symm.trans otherAt
      cases found.symm.trans missed
    | last otherAt otherFound stays =>
      cases at_.symm.trans otherAt
      cases found.symm.trans otherFound
      omega
    | goto otherAt otherFound otherLater otherTail =>
      cases at_.symm.trans otherAt
      cases found.symm.trans otherFound
      rw [ih otherTail]

/-- Every goto instruction of the tables leads to an existing table. -/
def GotosInRange (tables : List FlowTable) : Prop :=
  ∀ table ∈ tables, ∀ f ∈ table.entries, (gotoTarget f.insts).toNat < tables.length

theorem exists_walks (find : HashFind Flow) (inRange : GotosInRange orig)
    (exists_ : tableId < orig.length) (nf : Netflow) (acts : ActionSet) :
    ∃ walk, Walks find orig tableId nf acts walk := by
  -- The number of tables behind the current one decreases at each goto.
  induction left : orig.length - tableId using Nat.strongRecOn generalizing tableId nf acts with
  | ind left ih =>
    have at_ : orig[tableId]? = some orig[tableId] := List.getElem?_eq_getElem exists_
    cases lookup : (flowTableLookup find orig[tableId] nf.key nf.startTime).1 with
    | none => exact ⟨_, Walks.miss at_ lookup⟩
    | some f =>
      by_cases stays : (gotoTarget f.insts).toNat ≤ tableId
      · exact ⟨_, Walks.last at_ lookup stays⟩
      · obtain ⟨entry, member, rfl⟩ := flowTableLookup_mem lookup
        have target := inRange _ (List.getElem_mem exists_) entry member
        have later : tableId < (gotoTarget entry.insts).toNat := Nat.lt_of_not_le stays
        obtain ⟨walk, tail⟩ := ih _ (by omega) target
          ((leaveTable _ nf).setTableId (gotoTarget entry.insts))
          (accumulate acts entry.insts) rfl
        exact ⟨_, Walks.goto at_ lookup later tail⟩

/-- The pipeline did what the walk says: it ended at a missing handler, or visited
the tables of the walk and returns the netflow if the last table matched and there
are ports. -/
def Follows (walk : Walk) (nf : Netflow) : Option PipelineResult → Prop
  | none => walk.executed.all handled = false
  | some result =>
    walk.executed.all handled = true ∧ result.visited = walk.visited ∧
      result.returned = (walk.matched && !(nf.outPorts ++ walk.outPorts).isEmpty) ∧
      (walk.matched = true → result.nf.outPorts = nf.outPorts ++ walk.outPorts)

variable {tables : List FlowTable}

theorem follows_miss :
    Follows ⟨[tableId], false, [], acts⟩ nf (some ⟨false, nf, tables, [tableId]⟩) := by
  refine ⟨rfl, rfl, rfl, ?_⟩
  rintro ⟨⟩

theorem follows_last (f : Flow) (tables : List FlowTable) :
    Follows ⟨[tableId], true, appliedActions f.insts, acts⟩ nf
      (if (appliedActions f.insts).all handled then
        (executeActionSet acts (leaveTable f nf)).map fun after =>
          ⟨!after.outPorts.isEmpty, after, tables, [tableId]⟩
      else none) := by
  have executed : (⟨[tableId], true, appliedActions f.insts, acts⟩ : Walk).executed.all handled =
      ((appliedActions f.insts).all handled && (orderedActions acts).all handled) :=
    List.all_append
  by_cases applied : (appliedActions f.insts).all handled = true
  · rw [if_pos applied, executeActionSet_eq, executeActionList_eq]
    rw [applied, Bool.true_and] at executed
    by_cases set : (orderedActions acts).all handled = true
    · rw [if_pos set]
      obtain ⟨key, tags, after⟩ := applyActions_effect (orderedActions acts) (leaveTable f nf)
      have ports : (applyActions (orderedActions acts) (leaveTable f nf)).outPorts =
          nf.outPorts ++ (⟨[tableId], true, appliedActions f.insts, acts⟩ : Walk).outPorts := by
        rw [after]
        simp only [leaveTable_outPorts, Walk.outPorts, Walk.executed, if_true, outputs_append,
          List.append_assoc]
      exact ⟨executed.trans set, rfl, by rw [← ports]; rfl, fun _ => ports⟩
    · rw [if_neg set]
      exact executed.trans (Bool.eq_false_iff.mpr set)
  · rw [if_neg applied]
    rw [Bool.eq_false_iff.mpr applied, Bool.false_and] at executed
    exact executed

theorem Follows.goto {f : Flow} {target : BitVec 8} {result : Option PipelineResult}
    (tail : Follows walk ((leaveTable f nf).setTableId target) result) :
    Follows ⟨tableId :: walk.visited, walk.matched, appliedActions f.insts ++ walk.applied,
        walk.acts⟩ nf
      (if (appliedActions f.insts).all handled then
        result.map fun after => { after with visited := tableId :: after.visited }
      else none) := by
  have executed : (⟨tableId :: walk.visited, walk.matched,
      appliedActions f.insts ++ walk.applied, walk.acts⟩ : Walk).executed =
      appliedActions f.insts ++ walk.executed :=
    List.append_assoc _ _ _
  have ports : ((leaveTable f nf).setTableId target).outPorts ++ walk.outPorts =
      nf.outPorts ++ (⟨tableId :: walk.visited, walk.matched,
        appliedActions f.insts ++ walk.applied, walk.acts⟩ : Walk).outPorts := by
    rw [Walk.outPorts, Walk.outPorts, executed, outputs_append, ← List.append_assoc]
    exact congrArg (· ++ outputs walk.executed) (leaveTable_outPorts f nf)
  by_cases applied : (appliedActions f.insts).all handled = true
  · rw [if_pos applied]
    cases result with
    | none =>
      change List.all _ handled = false
      rw [executed, List.all_append, applied, Bool.true_and]
      exact tail
    | some after =>
      obtain ⟨all, visited, returned, outPorts⟩ := tail
      rw [ports] at returned outPorts
      refine ⟨?_, congrArg (tableId :: ·) visited, returned, outPorts⟩
      rw [executed, List.all_append, applied, Bool.true_and]
      exact all
  · rw [if_neg applied]
    change List.all _ handled = false
    rw [executed, List.all_append, Bool.eq_false_iff.mpr applied, Bool.false_and]

/-- One turn of the loop, at a table that exists. -/
theorem pipeline_turn {turns : Nat} {table : FlowTable} (here : tables[tableId]? = some table) :
    pipeline find (turns + 1) tables tableId nf acts =
      match (flowTableLookup find table nf.key nf.startTime).1 with
      | none =>
        some ⟨false, nf,
          tables.set tableId (flowTableLookup find table nf.key nf.startTime).2, [tableId]⟩
      | some f =>
        let tables := tables.set tableId
          ((flowTableLookup find table nf.key nf.startTime).2.count f nf)
        if (appliedActions f.insts).all handled then
          if tableId < (gotoTarget f.insts).toNat then
            (pipeline find turns tables (gotoTarget f.insts).toNat
              ((leaveTable f nf).setTableId (gotoTarget f.insts))
              (accumulate acts f.insts)).map
              fun after => { after with visited := tableId :: after.visited }
          else
            (executeActionSet (accumulate acts f.insts) (leaveTable f nf)).map fun after =>
              ⟨!after.outPorts.isEmpty, after, tables, [tableId]⟩
        else none := by
  rw [pipeline, here]
  simp only [Option.bind_some]
  cases (flowTableLookup find table nf.key nf.startTime).1 with
  | none => rfl
  | some f =>
    simp only [executeInstructions_eq]
    split <;> rfl

/-- The pipeline follows the walk of the netflow.  Along the way it changes only
tables that the walk has left behind. -/
theorem pipeline_follows (walks : Walks find orig tableId nf acts walk) {turns : Nat}
    (same : ∀ id, tableId ≤ id → tables[id]? = orig[id]?) (enough : orig.length ≤ turns + tableId) :
    Follows walk nf (pipeline find turns tables tableId nf acts) := by
  have turnLeft : ∀ {turns id table}, orig[id]? = some table → orig.length ≤ turns + id →
      ∃ rest, turns = rest + 1 := by
    intro turns id table at_ enough
    have exists_ := (List.getElem?_eq_some_iff.mp at_).1
    exact ⟨turns - 1, by omega⟩
  induction walks generalizing turns tables with
  | @miss tableId nf acts table at_ missed =>
    obtain ⟨turns, rfl⟩ := turnLeft at_ enough
    rw [pipeline_turn ((same tableId (Nat.le_refl _)).trans at_), missed]
    exact follows_miss
  | @last tableId nf acts table f at_ found stays =>
    obtain ⟨turns, rfl⟩ := turnLeft at_ enough
    rw [pipeline_turn ((same tableId (Nat.le_refl _)).trans at_), found]
    simp only [if_neg (Nat.not_lt.mpr stays)]
    exact follows_last f _
  | @goto tableId nf acts table f walk at_ found later tail ih =>
    obtain ⟨turns, rfl⟩ := turnLeft at_ enough
    rw [pipeline_turn ((same tableId (Nat.le_refl _)).trans at_), found]
    simp only [if_pos later]
    apply Follows.goto
    apply ih
    · intro id after
      rw [List.getElem?_set_ne (by omega)]
      exact same id (by omega)
    · omega

end Walk

/-! ## Correctness of the pipeline -/

/-- What the pipeline is meant to do with a netflow that takes the given walk: to
visit ever later tables from the first one on, to return nothing exactly if the
walk has no output port, and otherwise the netflow with these ports. -/
def PipelineCorrect (find : HashFind Flow) (dp : Datapath) (nf : Netflow) (walk : Walk) : Prop :=
  ∃ result returned after,
    dpPipeline find dp nf = some result ∧
    dpRecvNetflow find dp nf = some (returned, after) ∧
    result.visited = walk.visited ∧ result.visited.head? = some 0 ∧
    result.visited.Pairwise (· < ·) ∧
    (returned = none ↔ walk.outPorts = []) ∧
    ∀ out, returned = some out → out.outPorts = walk.outPorts

variable {dp : Datapath}

theorem dpRecvNetflow_eq {find : HashFind Flow} {nf : Netflow} {port : Port}
    (arrives : dpPort dp nf.key.inPort = some port) {result : PipelineResult}
    (ran : dpPipeline find dp nf = some result) :
    ∃ after, dpRecvNetflow find dp nf =
      some (if result.returned then some result.nf else none, after) := by
  unfold dpRecvNetflow
  rw [arrives]
  simp only
  split
  · rename_i none
    cases none.symm.trans ran
  · rename_i other some
    cases some.symm.trans ran
    exact ⟨_, rfl⟩

theorem dpPipeline_follows {find : HashFind Flow} {nf : Netflow} {walk : Walk}
    (walks : Walks find dp.tables 0 (enterPipeline nf) actionSetInit walk) :
    Follows walk nf (dpPipeline find dp nf) := by
  have enough : dp.tables.length ≤ maxTables + 0 := by
    rw [dp.tablesNum]
    exact Nat.le_refl _
  exact pipeline_follows walks (fun _ _ => rfl) enough

theorem Walk.outPorts_of_not_matched {walk : Walk} (missed : walk.matched = false) :
    walk.outPorts = outputs walk.applied := by
  simp [outPorts, executed, missed]

/-- A datapath that received a netflow with a known walk returns the netflow
exactly if the last table matched and the walk has ports. -/
theorem Follows.dpRecvNetflow {find : HashFind Flow} {nf : Netflow} {port : Port} {walk : Walk}
    {result : PipelineResult} (arrives : dpPort dp nf.key.inPort = some port)
    (noPorts : nf.outPorts = []) (ran : dpPipeline find dp nf = some result)
    (follows : Follows walk nf (some result)) :
    ∃ returned after, dpRecvNetflow find dp nf = some (returned, after) ∧
      (returned = none ↔ walk.matched = false ∨ walk.outPorts = []) ∧
      ∀ out, returned = some out → out.outPorts = walk.outPorts := by
  obtain ⟨-, -, returnedEq, ports⟩ := follows
  rw [noPorts, List.nil_append] at returnedEq ports
  obtain ⟨after, recv⟩ := dpRecvNetflow_eq arrives ran
  refine ⟨_, after, recv, ?_, ?_⟩
  · rw [returnedEq]
    cases walk.matched <;> cases walk.outPorts <;> simp
  · intro out outEq
    cases isMatched : walk.matched with
    | false => simp [returnedEq, isMatched] at outEq
    | true =>
      rw [← ports isMatched]
      split at outEq
      · cases outEq
        rfl
      · cases outEq

/-- The pipeline is correct exactly if every action it executes has a handler and
the walk ends in a table that matches or has applied no output. -/
theorem pipelineCorrect_iff {find : HashFind Flow} {dp : Datapath} {nf : Netflow} {port : Port}
    (arrives : dpPort dp nf.key.inPort = some port) (noPorts : nf.outPorts = [])
    (inRange : GotosInRange dp.tables) :
    ∃ walk, Walks find dp.tables 0 (enterPipeline nf) actionSetInit walk ∧
      (∀ other, Walks find dp.tables 0 (enterPipeline nf) actionSetInit other → other = walk) ∧
      (PipelineCorrect find dp nf walk ↔
        (∀ act ∈ walk.executed, handled act = true) ∧
          (walk.matched = true ∨ outputs walk.applied = [])) := by
  have firstTable : 0 < dp.tables.length := by
    rw [dp.tablesNum]
    decide
  obtain ⟨walk, walks⟩ := exists_walks find inRange firstTable (enterPipeline nf) actionSetInit
  refine ⟨walk, walks, fun other others => others.unique walks, ?_⟩
  have follows := dpPipeline_follows walks
  rw [← List.all_eq_true]
  constructor
  · rintro ⟨result, returned, after, ran, recv, -, -, -, noneIff, -⟩
    rw [ran] at follows
    refine ⟨follows.1, ?_⟩
    by_cases isMatched : walk.matched = true
    · exact Or.inl isMatched
    · right
      have missed := Bool.eq_false_iff.mpr isMatched
      obtain ⟨_, _, recv', noneIff', -⟩ := follows.dpRecvNetflow arrives noPorts ran
      cases recv.symm.trans recv'
      rw [← Walk.outPorts_of_not_matched missed]
      exact noneIff.mp (noneIff'.mpr (Or.inl missed))
  · rintro ⟨all, ends⟩
    cases ran : dpPipeline find dp nf with
    | none =>
      rw [ran] at follows
      cases all.symm.trans follows
    | some result =>
      rw [ran] at follows
      obtain ⟨returned, after, recv, noneIff, ports⟩ :=
        follows.dpRecvNetflow arrives noPorts ran
      obtain ⟨first, increasing, -⟩ := walks.visited_increasing
      have visited := follows.2.1
      rw [← visited] at first increasing
      refine ⟨result, returned, after, ran, recv, visited, first, increasing, ?_, ports⟩
      rw [noneIff]
      constructor
      · rintro (missed | empty)
        · rw [Walk.outPorts_of_not_matched missed]
          exact ends.resolve_left (by simp [missed])
        · exact empty
      · exact Or.inr

/-- A flow that matches every packet, sends it to port 2 and goes on to table 1. -/
def outputThenGoto : Flow :=
  { flowNew with
    insts := addGotoTable (addApplyActions instructionSetInit [.output 2]) 1 }

/-- A datapath with that flow in table 0 and nothing in table 1. -/
def emptySecondTable : Datapath :=
  { dpAddPort (dpNew 1 1) 1 0 1000000 with
    tables := (dpNew 1 1).tables.set 0 (addFlow (flowTableNew 0) outputThenGoto 0)
    tablesNum := by simp [dpNew] }

/-- A netflow that arrives on port 1. -/
def arrivingFlow : Netflow :=
  { netflowNew with key := { OflFlowKey.zero with inPort := 1 }, startTime := 5 }

theorem emptySecondTable_inRange : GotosInRange emptySecondTable.tables := by
  intro table tableMem f flowMem
  rw [emptySecondTable.tablesNum]
  rcases List.mem_or_eq_of_mem_set tableMem with new | rfl
  · obtain ⟨id, -, rfl⟩ := List.mem_map.mp new
    exact absurd flowMem List.not_mem_nil
  · rw [show f = (flowTableNew 0).stamp outputThenGoto 0 from List.mem_singleton.mp flowMem]
    decide

theorem emptySecondTable_arrives :
    dpPort emptySecondTable arrivingFlow.key.inPort = some (portNew 1 0 1000000) := by
  decide

theorem pipelineCorrect_iff_emptySecondTable :
    ∃ walk, Walks HashFind.latest emptySecondTable.tables 0 (enterPipeline arrivingFlow)
        actionSetInit walk ∧
      (∀ other, Walks HashFind.latest emptySecondTable.tables 0 (enterPipeline arrivingFlow)
        actionSetInit other → other = walk) ∧
      (PipelineCorrect HashFind.latest emptySecondTable arrivingFlow walk ↔
        (∀ act ∈ walk.executed, handled act = true) ∧
          (walk.matched = true ∨ outputs walk.applied = [])) :=
  pipelineCorrect_iff emptySecondTable_arrives rfl emptySecondTable_inRange

/-- The walk of that netflow: table 0 matches, table 1 does not. -/
def missedWalk : Walk where
  visited := [0, 1]
  matched := false
  applied := [.output 2]
  acts := actionSetInit

theorem missedWalk_walks :
    Walks HashFind.latest emptySecondTable.tables 0 (enterPipeline arrivingFlow) actionSetInit
      missedWalk := by
  have first : emptySecondTable.tables[0]? =
      some (addFlow (flowTableNew 0) outputThenGoto 0) := by
    simp [emptySecondTable, dpNew, maxTables]
  have second : emptySecondTable.tables[1]? = some (flowTableNew 1) := by
    simp [emptySecondTable, dpNew, maxTables]
  have found : (flowTableLookup HashFind.latest (addFlow (flowTableNew 0) outputThenGoto 0)
      (enterPipeline arrivingFlow).key (enterPipeline arrivingFlow).startTime).1 =
      some { outputThenGoto with lastUsed := 5 } := by
    decide
  exact Walks.goto first found (by decide) (Walks.miss second rfl)

/-- The output applied in table 0 is lost when table 1 has no match: the datapath
returns nothing for a netflow that is meant to leave through port 2. -/
theorem miss_discards_applied_output :
    Walks HashFind.latest emptySecondTable.tables 0 (enterPipeline arrivingFlow) actionSetInit
        missedWalk ∧
      missedWalk.outPorts = [2] ∧
      (dpRecvNetflow HashFind.latest emptySecondTable arrivingFlow).map Prod.fst = some none ∧
      ¬PipelineCorrect HashFind.latest emptySecondTable arrivingFlow missedWalk := by
  have follows := dpPipeline_follows missedWalk_walks
  cases ran : dpPipeline HashFind.latest emptySecondTable arrivingFlow with
  | none =>
    rw [ran] at follows
    cases follows
  | some result =>
    rw [ran] at follows
    obtain ⟨returned, after, recv, noneIff, -⟩ :=
      follows.dpRecvNetflow emptySecondTable_arrives rfl ran
    have isNone : returned = none := noneIff.mpr (Or.inl rfl)
    subst isNone
    refine ⟨missedWalk_walks, rfl, by rw [recv]; rfl, ?_⟩
    rintro ⟨_, _, _, _, recv', _, _, _, nullIff, _⟩
    cases recv.symm.trans recv'
    cases nullIff.mp rfl

end Horse.Net
