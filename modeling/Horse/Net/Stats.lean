import Horse.Container.GrowingArray
import Horse.Net.FlowMods

/-!
# Flow statistics

A request for flow statistics names a table, or all of them, and a match.  It is to be
answered by the unexpired flows of these tables that the match subsumes.  The handlers
decode the request and zero it before they use it, so that it asks for all flows of the
first table, whatever the controller has asked for.  The flows are collected in an array
that grows while one table is read.
-/

namespace Horse.Net

open Horse.Container Horse.Lib Horse.Transition

/-! ## The tables of a datapath -/

/-- The flows that a step adds. -/
def DpCall.added : DpCall → List Flow
  | .message _ (.flowMod .add f) _ _ => [f]
  | _ => []

/-- Calls have led to the table from a new one, and the flows that they added name the
table by its index. -/
def TableRun (fine : Flow → Prop) (index : Nat) (ft : FlowTable) : Prop :=
  ∃ calls, run tableStep (flowTableNew (BitVec.ofNat 8 index)) calls = some ft ∧
    ∀ call ∈ calls, ∀ f ∈ call.added, f.tableId.toNat = index ∧ fine f

theorem TableRun.step {fine : Flow → Prop} {index : Nat} {ft after : FlowTable}
    {call : TableCall} (ran : TableRun fine index ft)
    (added : ∀ f ∈ call.added, f.tableId.toNat = index ∧ fine f)
    (stepped : tableStep ft call = some after) : TableRun fine index after := by
  obtain ⟨calls, isRun, fromCalls⟩ := ran
  refine ⟨calls ++ [call], run_concat isRun stepped, ?_⟩
  rw [List.forall_mem_append]
  exact ⟨fromCalls, List.forall_mem_singleton.mpr added⟩

theorem tableInvariant_tableRun (fine : Flow → Prop) : TableInvariant (TableRun fine) where
  lookup := fun ran find key time =>
    @TableRun.step _ _ _ _ (.call find (.lookup key time)) ran (List.forall_mem_nil _) rfl
  count := fun ran f nf => @TableRun.step _ _ _ _ (.count f nf) ran (List.forall_mem_nil _) rfl
  stats := fun ran key mask time =>
    @TableRun.step _ _ _ _ (.stats key mask time) ran (List.forall_mem_nil _) rfl

variable {ft : FlowTable} {dp : Datapath} {fine : Flow → Prop} {index time : Nat}
  {req : FlowStatsReq} {f : Flow} {uuid dpId : Nat} {calls : List DpCall} {first : FlowTable}

/-- The tables of a datapath go through calls on single tables. -/
theorem everyTable_tableRun (ran : run dpStep (dpNew uuid dpId) calls = some dp)
    (added : ∀ call ∈ calls, ∀ f ∈ call.added, fine f) :
    EveryTable (TableRun fine) dp.tables := by
  refine @run_invariant _ _ dpStep (fun _ call => ∀ f ∈ call.added, fine f)
    (fun dp => EveryTable (TableRun fine) dp.tables) ?_ _ _ calls
    (everyTable_dpNew uuid dpId fun _ _ => ⟨[], rfl, List.forall_mem_nil _⟩)
    (along_of_forall _ _ added) ran
  intro dp call after all added step
  refine (tableInvariant_tableRun fine).dpStep all ?_ step
  rintro find command f nf time rfl ft - isRun
  cases command with
  | add =>
    refine @TableRun.step _ _ _ _ (.call find (.add f time)) isRun ?_ rfl
    exact List.forall_mem_singleton.mpr ⟨rfl, added f List.mem_cons_self⟩
  | modify =>
    exact @TableRun.step _ _ _ _ (.call find (.modify f false time)) isRun
      (List.forall_mem_nil _) rfl
  | modifyStrict =>
    exact @TableRun.step _ _ _ _ (.call find (.modify f true time)) isRun
      (List.forall_mem_nil _) rfl
  | delete =>
    exact @TableRun.step _ _ _ _ (.call find (.delete f time false)) isRun
      (List.forall_mem_nil _) rfl
  | deleteStrict =>
    exact @TableRun.step _ _ _ _ (.call find (.delete f time true)) isRun
      (List.forall_mem_nil _) rfl

theorem TableRun.installed (ran : TableRun fine index ft) : ft.Installed := by
  obtain ⟨calls, isRun, -⟩ := ran
  exact installed_run isRun

theorem TableRun.tableId (ran : TableRun fine index ft) :
    ∀ f ∈ ft.entries, f.tableId.toNat = index := by
  obtain ⟨calls, isRun, added⟩ := ran
  refine entries_of_run ?_ isRun fun call member f isAdded => (added call member f isAdded).1
  intro h g same isIndex
  have sameTable : h.tableId = g.tableId := congrArg Prod.snd same
  rwa [← sameTable]

/-! ## What a request asks for -/

/-- A table that the request asks for. -/
def FlowStatsReq.Asks (req : FlowStatsReq) (index : Nat) : Prop :=
  req.tableId = ofpttAll ∨ req.tableId.toNat = index

/-- Every packet that the flow matches is matched by the request. -/
def FlowStatsReq.Subsumes (req : FlowStatsReq) (f : Flow) : Prop :=
  Covers { flowNew with key := req.key, mask := req.mask } f

/-- A flow that the request asks for. -/
def Asked (dp : Datapath) (req : FlowStatsReq) (time : Nat) (f : Flow) : Prop :=
  ∃ index ft, dp.tables[index]? = some ft ∧ req.Asks index ∧
    f ∈ ft.entries ∧ flowExpired f time = false ∧ req.Subsumes f

/-- The flows that the request asks for, each once. -/
structure Answers (dp : Datapath) (req : FlowStatsReq) (time : Nat) (handed : List Flow) :
    Prop where
  once : handed.Nodup
  exactly : ∀ f, f ∈ handed ↔ Asked dp req time f

/-! ## What is handed over -/

/-- The flows that a walk over one table selects. -/
theorem flowTableStats_fst (wellFormed : ft.WellFormed) (key mask : OflFlowKey) (time : Nat) :
    (flowTableStats ft key mask time).1 = ft.entries.filter fun f =>
      flowKeyCmp (applyAllMask f.mask mask) mask && matchNonStrict key mask f.key &&
        !flowExpired f time := by
  rw [FlowTable.entries, List.filter_flatMap]
  apply List.flatMap_congr
  intro mft mftMem
  apply List.filter_congr
  intro f member
  rw [wellFormed.masked mft mftMem f member]
  rfl

theorem mem_flowTableStats_fst_iff (wellFormed : ft.WellFormed) {key mask : OflFlowKey} :
    f ∈ (flowTableStats ft key mask time).1 ↔
      f ∈ ft.entries ∧ flowExpired f time = false ∧
        applyAllMask f.mask mask = mask ∧ applyAllMask f.key mask = key := by
  rw [flowTableStats_fst wellFormed, List.mem_filter, Bool.and_eq_true, Bool.and_eq_true,
    matchNonStrict, flowKeyCmp_iff, flowKeyCmp_iff, Bool.not_eq_true']
  exact and_congr_right fun _ => and_comm

theorem nodup_flowTableStats_fst (installed : ft.Installed) (key mask : OflFlowKey) (time : Nat) :
    (flowTableStats ft key mask time).1.Nodup := by
  rw [flowTableStats_fst installed.wellFormed]
  exact (List.Nodup.of_map Flow.addr installed.distinct).filter _

/-- The tables that `dp_get_stats_flows` reads; an index outside the array is undefined. -/
def requestedTables (dp : Datapath) (req : FlowStatsReq) : Option (List FlowTable) :=
  if req.tableId = ofpttAll then some dp.tables
  else dp.tables[req.tableId.toNat]?.map fun ft => [ft]

/-- The flows that `flow_table_stats` selects in a table. -/
def statsFlows (req : FlowStatsReq) (time : Nat) (ft : FlowTable) : List Flow :=
  (flowTableStats ft req.key req.mask time).1

/-- `dp_get_stats_flows` collects the flows selected in the tables it reads. -/
theorem dpGetStatsFlows_fst (dp : Datapath) (req : FlowStatsReq) (time : Nat) :
    (dpGetStatsFlows dp req time).map Prod.fst =
      (requestedTables dp req).map fun tables => tables.flatMap (statsFlows req time) := by
  unfold dpGetStatsFlows requestedTables
  by_cases isAll : req.tableId = ofpttAll
  · rw [if_pos isAll, if_pos isAll]
    rfl
  · rw [if_neg isAll, if_neg isAll, Datapath.updateTable]
    cases dp.tables[req.tableId.toNat]? with
    | none => rfl
    | some ft => exact congrArg some (List.flatMap_singleton _ _).symm

/-- The two comparisons of the walk decide whether the request subsumes a flow. -/
theorem FlowStatsReq.subsumes_iff (req : FlowStatsReq) (reduced : Reduced f) :
    req.Subsumes f ↔
      applyAllMask f.mask req.mask = req.mask ∧ applyAllMask f.key req.mask = req.key :=
  covers_iff reduced

/-- In a table of reduced flows the flows selected are those that the request subsumes. -/
theorem TableRun.mem_statsFlows_iff (ran : TableRun Reduced index ft) :
    f ∈ statsFlows req time ft ↔
      f ∈ ft.entries ∧ flowExpired f time = false ∧ req.Subsumes f := by
  refine (mem_flowTableStats_fst_iff ran.installed.wellFormed).trans ?_
  obtain ⟨calls, isRun, added⟩ := ran
  have reduced := reduced_of_run isRun fun call member f isAdded =>
    (added call member f isAdded).2
  exact and_congr_right fun member => and_congr_right fun _ =>
    (req.subsumes_iff (reduced f member)).symm

theorem TableRun.nodup_statsFlows (ran : TableRun fine index ft) (req : FlowStatsReq) (time : Nat) :
    (statsFlows req time ft).Nodup :=
  nodup_flowTableStats_fst ran.installed req.key req.mask time

/-- No flow is selected twice: a flow names its table, so that it is in one table only. -/
theorem nodup_flatMap_statsFlows {tables : List FlowTable}
    (all : EveryTable (TableRun Reduced) tables) (req : FlowStatsReq) (time : Nat) :
    (tables.flatMap (statsFlows req time)).Nodup := by
  refine List.nodup_flatMap.mpr ⟨?_, ?_⟩
  · intro ft member
    obtain ⟨index, isAt⟩ := List.mem_iff_getElem?.mp member
    exact (all index ft isAt).nodup_statsFlows req time
  · rw [List.pairwise_iff_getElem]
    intro i j iBound jBound before f inFirst inSecond
    have first := all i _ (List.getElem?_eq_getElem iBound)
    have second := all j _ (List.getElem?_eq_getElem jBound)
    have namesFirst := first.tableId f (first.mem_statsFlows_iff.mp inFirst).1
    have namesSecond := second.tableId f (second.mem_statsFlows_iff.mp inSecond).1
    omega

/-- What `dp_get_stats_flows` collects are the flows that the request asks for. -/
theorem dpGetStatsFlows_answers {after : Datapath}
    (ran : run dpStep (dpNew uuid dpId) calls = some dp)
    (added : ∀ call ∈ calls, ∀ f ∈ call.added, Reduced f) {flows : List Flow}
    (got : dpGetStatsFlows dp req time = some (flows, after)) :
    Answers dp req time flows := by
  have all := everyTable_tableRun ran added
  have collected := dpGetStatsFlows_fst dp req time
  rw [got, Option.map_some, eq_comm, Option.map_eq_some_iff] at collected
  obtain ⟨tables, requested, rfl⟩ := collected
  rw [requestedTables] at requested
  by_cases isAll : req.tableId = ofpttAll
  · rw [if_pos isAll] at requested
    cases requested
    refine ⟨nodup_flatMap_statsFlows all req time, fun f => ?_⟩
    rw [List.mem_flatMap]
    constructor
    · rintro ⟨ft, member, selected⟩
      obtain ⟨index, isAt⟩ := List.mem_iff_getElem?.mp member
      exact ⟨index, ft, isAt, .inl isAll, (all index ft isAt).mem_statsFlows_iff.mp selected⟩
    · rintro ⟨index, ft, isAt, -, asked⟩
      exact ⟨ft, List.mem_of_getElem? isAt, (all index ft isAt).mem_statsFlows_iff.mpr asked⟩
  · rw [if_neg isAll] at requested
    obtain ⟨ft, isAt, rfl⟩ := Option.map_eq_some_iff.mp requested
    have tableRun := all _ ft isAt
    rw [List.flatMap_singleton]
    refine ⟨tableRun.nodup_statsFlows req time, fun f => tableRun.mem_statsFlows_iff.trans ?_⟩
    constructor
    · intro asked
      exact ⟨_, ft, isAt, .inr rfl, asked⟩
    · rintro ⟨index, other, otherAt, asks, asked⟩
      have sameIndex : req.tableId.toNat = index := asks.resolve_left isAll
      rw [← sameIndex, isAt] at otherAt
      cases otherAt
      exact asked

/-- The flows handed over to `pack_flow_stats_reply` or `pack_aggregate_stats_reply`. -/
def handedFlows : Option OfReply → List Flow
  | some (.flowStats _ flows) => flows
  | some (.aggregateStats _ flows) => flows
  | _ => []

/-- Both handlers hand over what a zeroed request selects in the first table. -/
theorem dpHandleStatsReq_handed (isFirst : dp.tables[0]? = some first) (time : Nat)
    {reply : List Flow → OfReply} (handsOver : ∀ flows, handedFlows (some (reply flows)) = flows) :
    ∃ replied after, dpHandleStatsReq dp time reply = some (replied, after) ∧
      handedFlows replied = statsFlows FlowStatsReq.zero time first := by
  have tables : requestedTables dp FlowStatsReq.zero = some [first] := by
    rw [requestedTables, if_neg (by decide)]
    exact congrArg (Option.map fun ft => [ft]) isFirst
  have collected := dpGetStatsFlows_fst dp FlowStatsReq.zero time
  rw [tables, Option.map_some, List.flatMap_singleton, Option.map_eq_some_iff] at collected
  obtain ⟨⟨flows, after⟩, got, isFlows⟩ := collected
  rw [← isFlows]
  refine ⟨if flows.isEmpty then none else some (reply flows), after, ?_, ?_⟩
  · rw [dpHandleStatsReq, got]
    rfl
  · cases flows with
    | nil => rfl
    | cons f rest => exact handsOver (f :: rest)

theorem stats_request_handed (find : HashFind Flow) (nf : Netflow) {msg : OfMessage}
    {xid : BitVec 32}
    (request : msg = .flowStatsRequest xid req ∨ msg = .aggregateStatsRequest xid req)
    (time : Nat) (isFirst : dp.tables[0]? = some first) :
    ∃ reply after, dpControlHandleControlMsg find (some dp) msg nf time =
        some (reply, nf, some after) ∧
      handedFlows reply = statsFlows FlowStatsReq.zero time first := by
  rcases request with rfl | rfl
  · obtain ⟨reply, after, handled, isHanded⟩ :=
      @dpHandleStatsReq_handed dp first isFirst time (.flowStats xid) fun _ => rfl
    refine ⟨reply, after, ?_, isHanded⟩
    rw [dpControlHandleControlMsg, Option.bind_some, handled]
    rfl
  · obtain ⟨reply, after, handled, isHanded⟩ :=
      @dpHandleStatsReq_handed dp first isFirst time (.aggregateStats xid) fun _ => rfl
    refine ⟨reply, after, ?_, isHanded⟩
    rw [dpControlHandleControlMsg, Option.bind_some, handled]
    rfl

theorem applyAllMask_zero (key : OflFlowKey) :
    applyAllMask key OflFlowKey.zero = OflFlowKey.zero :=
  @inf_bot_eq OflFlowKey _ _ key

/-- A zeroed request selects every unexpired flow. -/
theorem mem_statsFlows_zero_iff (wellFormed : ft.WellFormed) :
    f ∈ statsFlows FlowStatsReq.zero time ft ↔ f ∈ ft.entries ∧ flowExpired f time = false := by
  refine (mem_flowTableStats_fst_iff wellFormed).trans (and_congr_right fun _ => ?_)
  exact and_iff_left ⟨applyAllMask_zero _, applyAllMask_zero _⟩

/-- The request happens to ask for all unexpired flows of the first table, and no other
table has unexpired flows that it asks for. -/
structure AsksForFirst (dp : Datapath) (req : FlowStatsReq) (time : Nat) : Prop where
  first : ∀ ft, dp.tables[0]? = some ft → ∀ f ∈ ft.entries, flowExpired f time = false →
    req.Asks 0 ∧ req.Subsumes f
  others : ∀ index ft, index ≠ 0 → dp.tables[index]? = some ft → req.Asks index →
    ∀ f ∈ ft.entries, flowExpired f time = false → ¬req.Subsumes f

/-- The unexpired flows of the first table answer a request just if it asks for them. -/
theorem answers_first_iff (tables : EveryTable (TableRun fun _ => True) dp.tables)
    (isFirst : dp.tables[0]? = some first) (req : FlowStatsReq) (time : Nat) :
    Answers dp req time (statsFlows FlowStatsReq.zero time first) ↔
      AsksForFirst dp req time := by
  have installed := (tables 0 first isFirst).installed
  have handed := fun f => @mem_statsFlows_zero_iff first time f installed.wellFormed
  constructor
  · intro answers
    constructor
    · intro ft at_ f member unexpired
      cases isFirst.symm.trans at_
      obtain ⟨index, ft, at_, asks, inTable, -, subsumes⟩ :=
        (answers.exactly f).mp ((handed f).mpr ⟨member, unexpired⟩)
      have isZero : index = 0 :=
        ((tables index ft at_).tableId f inTable).symm.trans
          ((tables 0 first isFirst).tableId f member)
      exact ⟨isZero ▸ asks, subsumes⟩
    · intro index ft notFirst at_ asks f member unexpired subsumes
      have inFirst := (handed f).mp
        ((answers.exactly f).mpr ⟨index, ft, at_, asks, member, unexpired, subsumes⟩)
      exact notFirst (((tables index ft at_).tableId f member).symm.trans
        ((tables 0 first isFirst).tableId f inFirst.1))
  · intro asked
    refine ⟨nodup_flowTableStats_fst installed _ _ _, fun f => (handed f).trans ?_⟩
    constructor
    · rintro ⟨member, unexpired⟩
      obtain ⟨asks, subsumes⟩ := asked.first first isFirst f member unexpired
      exact ⟨0, first, isFirst, asks, member, unexpired, subsumes⟩
    · rintro ⟨index, ft, at_, asks, member, unexpired, subsumes⟩
      by_cases isZero : index = 0
      · subst isZero
        cases isFirst.symm.trans at_
        exact ⟨member, unexpired⟩
      · exact absurd subsumes (asked.others index ft isZero at_ asks f member unexpired)

/-- A request for statistics is answered by the flows that it asks for just if these are
the unexpired flows of the first table. -/
theorem stats_answered_iff {uuid dpId : Nat} {calls : List DpCall} {dp : Datapath}
    (ran : run dpStep (dpNew uuid dpId) calls = some dp) {msg : OfMessage} {xid : BitVec 32}
    {req : FlowStatsReq}
    (request : msg = .flowStatsRequest xid req ∨ msg = .aggregateStatsRequest xid req)
    (find : HashFind Flow) (nf : Netflow) (time : Nat) :
    ∃ reply after, dpControlHandleControlMsg find (some dp) msg nf time =
        some (reply, nf, some after) ∧
      (Answers dp req time (handedFlows reply) ↔ AsksForFirst dp req time) := by
  have tables := everyTable_tableRun ran fun _ _ _ _ => trivial
  have nonempty : 0 < dp.tables.length := by
    rw [dp.tablesNum]
    decide
  have isFirst : dp.tables[0]? = some dp.tables[0] := List.getElem?_eq_getElem nonempty
  obtain ⟨reply, after, handled, isHanded⟩ :=
    stats_request_handed find nf request time isFirst
  refine ⟨reply, after, handled, ?_⟩
  rw [isHanded]
  exact answers_first_iff tables isFirst req time

/-- Two flows for IPv4 packets are added to the first table, and one for all packets to the
second. -/
def twoTables : List DpCall :=
  [.message HashFind.latest (.flowMod .add (ipFlow 10)) netflowNew 0,
    .message HashFind.latest (.flowMod .add (ipFlow 1)) netflowNew 0,
    .message HashFind.latest (.flowMod .add { flowNew with tableId := 1 }) netflowNew 0]

/-- A request for the flows of the first table that are about IPv4 packets is answered. -/
theorem stats_answered_iff_twoTables :
    ∃ dp reply after, run dpStep (dpNew 0 1) twoTables = some dp ∧
      dpControlHandleControlMsg HashFind.latest (some dp)
          (.flowStatsRequest 7 ⟨0, (ipFlow 0).key, (ipFlow 0).mask⟩) netflowNew 5 =
        some (reply, netflowNew, some after) ∧
      (handedFlows reply).length = 2 ∧
      Answers dp ⟨0, (ipFlow 0).key, (ipFlow 0).mask⟩ 5 (handedFlows reply) := by
  obtain ⟨reply, after, handled, answers⟩ := @stats_answered_iff 0 1 twoTables _ rfl _ 7
    ⟨0, (ipFlow 0).key, (ipFlow 0).mask⟩ (.inl rfl) HashFind.latest netflowNew 5
  refine ⟨_, reply, after, rfl, handled, ?_, answers.mpr ⟨?_, ?_⟩⟩
  · cases handled
    decide +kernel
  · rintro _ ⟨rfl⟩ f member unexpired
    refine ⟨.inr rfl, (covers_iff ?_).mpr ?_⟩
    · revert f
      decide +kernel
    · revert f
      decide +kernel
  · rintro index ft notFirst - (isAll | isIndex)
    · cases isAll
    · exact absurd isIndex.symm notFirst

/-- A request for the flows of table 1 is answered by the flow of table 0. -/
theorem stats_of_another_table :
    ∃ dp, run dpStep (dpNew 0 1)
        [.message HashFind.latest (.flowMod .add flowNew) netflowNew 0] = some dp ∧
      ∃ reply after, dpControlHandleControlMsg HashFind.latest (some dp)
          (.flowStatsRequest 7 { FlowStatsReq.zero with tableId := 1 }) netflowNew 0 =
          some (reply, netflowNew, some after) ∧
        ¬Answers dp { FlowStatsReq.zero with tableId := 1 } 0 (handedFlows reply) := by
  obtain ⟨dp, ran, first, isFirst, member⟩ :
      ∃ dp, run dpStep (dpNew 0 1)
          [.message HashFind.latest (.flowMod .add flowNew) netflowNew 0] = some dp ∧
        ∃ first, dp.tables[0]? = some first ∧ flowNew ∈ first.entries :=
    ⟨_, rfl, _, rfl, by decide +kernel⟩
  obtain ⟨reply, after, handled, isHanded⟩ :=
    stats_request_handed HashFind.latest netflowNew (.inl rfl) 0 isFirst
  refine ⟨dp, ran, reply, after, handled, ?_⟩
  rw [isHanded, answers_first_iff (everyTable_tableRun ran fun _ _ _ _ => trivial) isFirst]
  intro asks
  have asksForFirst := (asks.first first isFirst flowNew member (by decide)).1
  revert asksForFirst
  unfold FlowStatsReq.Asks
  decide

/-! ## The array -/

/-- The array that `dp_get_stats_flows` fills, starting from one element. -/
def statsArray (dp : Datapath) (req : FlowStatsReq) (time : Nat) :
    Option (GrowingArray Flow) :=
  (requestedTables dp req).bind fun tables =>
    GrowingArray.single.writeBatches (tables.map (statsFlows req time))

/-- The array holds the flows that are collected. -/
theorem dpGetStatsFlows_of_statsArray {array : GrowingArray Flow}
    (filled : statsArray dp req time = some array) :
    (dpGetStatsFlows dp req time).map Prod.fst = some array.elems := by
  obtain ⟨tables, isTables, written⟩ := Option.bind_eq_some_iff.mp filled
  rw [dpGetStatsFlows_fst, isTables, Option.map_some,
    GrowingArray.elems_of_writeBatches written, List.flatMap_def]
  rfl

/-- If no flow is written behind its end, the array holds what was asked for, each flow once. -/
theorem stats_array_answers {array : GrowingArray Flow}
    (ran : run dpStep (dpNew uuid dpId) calls = some dp)
    (added : ∀ call ∈ calls, ∀ f ∈ call.added, Reduced f)
    (filled : statsArray dp req time = some array) : Answers dp req time array.elems := by
  obtain ⟨⟨flows, after⟩, got, isElems⟩ :=
    Option.map_eq_some_iff.mp (dpGetStatsFlows_of_statsArray filled)
  rw [← isElems]
  exact dpGetStatsFlows_answers ran added got

/-- The two flows of the first table are in the array. -/
theorem stats_array_answers_twoTables : ∃ dp array,
    run dpStep (dpNew 0 1) twoTables = some dp ∧
      statsArray dp FlowStatsReq.zero 0 = some array ∧ array.elems.length = 2 ∧
        Answers dp FlowStatsReq.zero 0 array.elems := by
  refine ⟨_, _, rfl, rfl, by decide +kernel, ?_⟩
  exact @stats_array_answers _ _ _ 0 1 twoTables _ rfl (by decide +kernel) rfl

/-- No flow is written behind the end of the array just if the request is for one table,
or the array made by the table with the second flow has room for the flows of all. -/
theorem stats_array_large_enough_iff (dp : Datapath) (req : FlowStatsReq) (time : Nat) :
    (statsArray dp req time).isSome ↔
      req.tableId.toNat < maxTables ∨
        req.tableId = ofpttAll ∧ GrowingArray.Fits 0 (dp.tables.map (statsFlows req time)) := by
  have starts : (GrowingArray.single : GrowingArray Flow).elems.length ≤ 1 := by decide
  unfold statsArray requestedTables
  by_cases isAll : req.tableId = ofpttAll
  · have notOne : ¬req.tableId.toNat < maxTables := by
      rw [isAll]
      decide
    rw [if_pos isAll, Option.bind_some, GrowingArray.writeBatches_isSome_iff starts rfl,
      or_iff_right notOne, and_iff_right isAll]
    rfl
  · rw [if_neg isAll, or_iff_left fun all => isAll all.1, ← dp.tablesNum]
    by_cases exists_ : req.tableId.toNat < dp.tables.length
    · rw [List.getElem?_eq_getElem exists_, Option.map_some, Option.bind_some,
        GrowingArray.writeBatches_isSome_iff starts rfl]
      exact iff_of_true (GrowingArray.fits_singleton _) exists_
    · rw [List.getElem?_eq_none (Nat.le_of_not_lt exists_)]
      exact iff_of_false nofun exists_

/-- Two flows are added to table 0 and one to table 1. -/
def threeFlows : List DpCall :=
  [.message HashFind.latest (.flowMod .add flowNew) netflowNew 0,
    .message HashFind.latest (.flowMod .add flowNew) netflowNew 0,
    .message HashFind.latest (.flowMod .add { flowNew with tableId := 1 }) netflowNew 0]

/-- The third flow is written behind the end of an array of two elements. -/
theorem stats_array_overflows :
    ∃ dp, run dpStep (dpNew 0 1) threeFlows = some dp ∧
      statsArray dp { FlowStatsReq.zero with tableId := ofpttAll } 0 = none := by
  refine ⟨_, rfl, ?_⟩
  decide +kernel

end Horse.Net
