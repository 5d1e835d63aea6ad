import Horse.Net.Control
import Horse.Net.FlowFates

/-!
# Indices into the tables of a datapath

A table identifier on the wire has eight bits and a datapath has 128 tables.  The
identifier of a flow mod is used as it is; a goto target is stored with its flow and
used when a netflow matches it; a statistics request is zeroed before it is used.  The
module records the indices at which each message and each received netflow accesses the
array of tables, and shows which flow mods keep all of them inside.
-/

namespace Horse.Net

open Horse.Container Horse.Lib Horse.Transition

/-- What happens to a datapath: ports are added, messages of the controller are handled
and netflows are received. -/
inductive DpCall
  | addPort (portId : BitVec 32) (ethAddr : BitVec 48) (currSpeed : BitVec 32)
  | message (find : HashFind Flow) (msg : OfMessage) (nf : Netflow) (time : Nat)
  | recv (find : HashFind Flow) (nf : Netflow)

/-- One step of a datapath. -/
def dpStep : Step Datapath DpCall
  | dp, .addPort portId ethAddr currSpeed => some (dpAddPort dp portId ethAddr currSpeed)
  | dp, .message find msg nf time =>
    (dpControlHandleControlMsg find (some dp) msg nf time).bind fun handled => handled.2.2
  | dp, .recv find nf => (dpRecvNetflow find dp nf).map Prod.snd

/-! ## The indices used -/

/-- An access to the array of tables: the index, the metadata of the netflow and, if there is
a table, the flow that its lookup finds. -/
structure Access where
  tableId : Nat
  metadata : BitVec 64
  lookup : Option (Option Flow)

/-- The accesses of the loop of `dp_recv_netflow`.  The first one outside the array is the
last of the list. -/
def pipelineAccesses (find : HashFind Flow) :
    Nat → List FlowTable → Nat → Netflow → ActionSet → List Access
  | 0, _, _, _, _ => []
  | turns + 1, tables, tableId, nf, acts =>
    match tables[tableId]? with
    | none => [⟨tableId, nf.key.metadata, none⟩]
    | some table =>
      let lookup := flowTableLookup find table nf.key nf.startTime
      ⟨tableId, nf.key.metadata, some lookup.1⟩ ::
        match lookup.1 with
        | none => []
        | some f =>
          let tables := tables.set tableId (lookup.2.count f nf)
          match executeInstructions f.insts (nf.setCookie f.cookie) acts with
          | none => []
          | some (nextTableId, nf, acts) =>
            if tableId < nextTableId.toNat then
              pipelineAccesses find turns tables nextTableId.toNat
                (nf.setTableId nextTableId) acts
            else []

/-- The accesses of `dp_recv_netflow`.  Table identifiers have eight bits and grow along the
way, so 256 turns are enough. -/
def recvAccesses (find : HashFind Flow) (dp : Datapath) (nf : Netflow) : List Access :=
  match dpPort dp nf.key.inPort with
  | none => []
  | some _ => pipelineAccesses find 256 dp.tables 0 (enterPipeline nf) actionSetInit

/-- The indices that `dp_recv_netflow` uses. -/
def recvIndices (find : HashFind Flow) (dp : Datapath) (nf : Netflow) : List Nat :=
  (recvAccesses find dp nf).map Access.tableId

/-- The indices that `dp_get_stats_flows` uses. -/
def statsIndices (req : FlowStatsReq) : List Nat :=
  if req.tableId = ofpttAll then List.range maxTables else [req.tableId.toNat]

/-- The indices into the array of tables that a step uses. -/
def DpCall.indices (dp : Datapath) : DpCall → List Nat
  | .addPort _ _ _ => []
  | .message _ (.flowMod _ f) _ _ => [f.tableId.toNat]
  | .message _ (.flowStatsRequest _ _) _ _ => statsIndices FlowStatsReq.zero
  | .message _ (.aggregateStatsRequest _ _) _ _ => statsIndices FlowStatsReq.zero
  | .message _ _ _ _ => []
  | .recv find nf => recvIndices find dp nf

/-- The addresses of the flows whose instructions a flow mod writes. -/
def FlowModCommand.writes (command : FlowModCommand) (find : HashFind Flow) (f : Flow)
    (time : Nat) (ft : FlowTable) : List Nat :=
  match command with
  | .add => [ft.made]
  | .modify => modifyTargets find f false time ft.flows
  | .modifyStrict => modifyTargets find f true time ft.flows
  | .delete => []
  | .deleteStrict => []

/-- A flow mod names an existing table and brings a goto to an existing table to the
flows it adds or changes. -/
def NamesTables (dp : Datapath) : DpCall → Prop
  | .message find (.flowMod command f) _ time =>
    f.tableId.toNat < maxTables ∧
      ∀ ft, dp.tables[f.tableId.toNat]? = some ft → command.writes find f time ft ≠ [] →
        (gotoTarget f.insts).toNat < maxTables
  | _ => True

/-! ## The accesses are those of the pipeline -/

variable {ft : FlowTable} {find : HashFind Flow} {turns tableId : Nat} {tables : List FlowTable}
  {nf : Netflow} {acts : ActionSet}

/-- One turn of the loop: outside the array, with a last lookup, or with one that finds a flow
and continues from what the flow leaves. -/
inductive AccessTurn (find : HashFind Flow) (turns : Nat) (tables : List FlowTable)
    (tableId : Nat) (nf : Netflow) : List Access → Prop
  | outside (missing : tables[tableId]? = none) :
      AccessTurn find turns tables tableId nf [⟨tableId, nf.key.metadata, none⟩]
  | last (matched : Option Flow) :
      AccessTurn find turns tables tableId nf [⟨tableId, nf.key.metadata, some matched⟩]
  | goto {table : FlowTable} {f : Flow} {table' : FlowTable} {acts : ActionSet}
      (here : tables[tableId]? = some table)
      (found : (flowTableLookup find table nf.key nf.startTime).1 = some f)
      (later : tableId < (gotoTarget f.insts).toNat) :
      AccessTurn find turns tables tableId nf (⟨tableId, nf.key.metadata, some (some f)⟩ ::
        pipelineAccesses find turns (tables.set tableId table') (gotoTarget f.insts).toNat
          ((leaveTable f nf).setTableId (gotoTarget f.insts)) acts)

theorem accessTurn (find : HashFind Flow) (turns : Nat) (tables : List FlowTable)
    (tableId : Nat) (nf : Netflow) (acts : ActionSet) :
    AccessTurn find turns tables tableId nf
      (pipelineAccesses find (turns + 1) tables tableId nf acts) := by
  rw [pipelineAccesses]
  cases here : tables[tableId]? with
  | none => exact .outside here
  | some table =>
    dsimp only
    cases found : (flowTableLookup find table nf.key nf.startTime).1 with
    | none => exact .last none
    | some f =>
      dsimp only
      rw [executeInstructions_eq]
      by_cases allHandled : (appliedActions f.insts).all handled = true
      · rw [if_pos allHandled]
        dsimp only
        by_cases later : tableId < (gotoTarget f.insts).toNat
        · rw [if_pos later]
          exact .goto here found later
        · rw [if_neg later]
          exact .last (some f)
      · rw [if_neg allHandled]
        exact .last (some f)

/-- The pipeline records the tables of its accesses. -/
theorem pipeline_visited {result : PipelineResult}
    (ran : pipeline find turns tables tableId nf acts = some result) :
    result.visited = (pipelineAccesses find turns tables tableId nf acts).map Access.tableId := by
  induction turns generalizing tables tableId nf acts result with
  | zero => cases ran
  | succ turns ih =>
    cases pipelineTurn_of_ran ran with
    | miss here missed => simp only [pipelineAccesses, here, missed, List.map_cons, List.map_nil]
    | goto here found executed later tailRan =>
      simp only [pipelineAccesses, here, found, executed, if_pos later, List.map_cons, ih tailRan]
    | last here found executed stays =>
      simp only [pipelineAccesses, here, found, executed, if_neg stays, List.map_cons,
        List.map_nil]

/-- More turns than there are identifiers left change nothing. -/
theorem pipelineAccesses_enough (enough : 256 ≤ tableId + turns) (below : tableId < 256)
    (more : Nat) :
    pipelineAccesses find (turns + more) tables tableId nf acts =
      pipelineAccesses find turns tables tableId nf acts := by
  induction turns generalizing tables tableId nf acts with
  | zero => omega
  | succ turns ih =>
    rw [Nat.add_right_comm, pipelineAccesses, pipelineAccesses]
    cases tables[tableId]? with
    | none => rfl
    | some table =>
      dsimp only
      congr 1
      cases (flowTableLookup find table nf.key nf.startTime).1 with
      | none => rfl
      | some f =>
        dsimp only
        cases executeInstructions f.insts (nf.setCookie f.cookie) acts with
        | none => rfl
        | some next =>
          dsimp only
          split
          · exact ih (by omega) next.1.isLt
          · rfl

/-- A netflow visits existing tables only, if all goto targets exist. -/
theorem pipelineAccesses_lt {orig : List FlowTable} (inRange : GotosInRange orig)
    (same : ∀ id, tableId ≤ id → tables[id]? = orig[id]?) (exists_ : tableId < orig.length)
    {access : Access} (used : access ∈ pipelineAccesses find turns tables tableId nf acts) :
    access.tableId < orig.length := by
  induction turns generalizing tables tableId nf acts with
  | zero => cases used
  | succ turns ih =>
    have turn := accessTurn find turns tables tableId nf acts
    generalize pipelineAccesses find (turns + 1) tables tableId nf acts = accesses at turn used
    cases turn with
    | outside missing => exact List.mem_singleton.mp used ▸ exists_
    | last matched => exact List.mem_singleton.mp used ▸ exists_
    | goto here found later =>
      rcases List.mem_cons.mp used with rfl | used
      · exact exists_
      · rw [same tableId (Nat.le_refl _)] at here
        obtain ⟨entry, member, rfl⟩ := flowTableLookup_mem found
        dsimp only at later
        refine ih ?_ (inRange _ (List.mem_of_getElem? here) entry member) used
        intro id after
        rw [List.getElem?_set_ne (by omega)]
        exact same id (by omega)

/-! ## Invariants of the tables -/

/-- A property of a table at its index that receiving netflows and reading statistics
keep. -/
structure TableInvariant (inv : Nat → FlowTable → Prop) : Prop where
  lookup : ∀ {index ft}, inv index ft → ∀ find key time,
    inv index (flowTableLookup find ft key time).2
  count : ∀ {index ft}, inv index ft → ∀ f nf, inv index (ft.count f nf)
  stats : ∀ {index ft}, inv index ft → ∀ key mask time,
    inv index (flowTableStats ft key mask time).2

/-- The property holds of every table. -/
def EveryTable (inv : Nat → FlowTable → Prop) (tables : List FlowTable) : Prop :=
  ∀ index ft, tables[index]? = some ft → inv index ft

/-- The table after a flow mod. -/
def FlowModCommand.change (command : FlowModCommand) (find : HashFind Flow) (f : Flow)
    (time : Nat) (ft : FlowTable) : FlowTable :=
  match command with
  | .add => addFlow ft f time
  | .modify => modifyFlow find ft f false time
  | .modifyStrict => modifyFlow find ft f true time
  | .delete => deleteFlow find ft f time false
  | .deleteStrict => deleteFlow find ft f time true

variable {time : Nat} {call : DpCall}

section Invariant

variable {inv : Nat → FlowTable → Prop}

theorem EveryTable.set (all : EveryTable inv tables) {index : Nat} {new : FlowTable}
    (holds : inv index new) : EveryTable inv (tables.set index new) := by
  intro other ft at_
  rw [List.getElem?_set] at at_
  split at at_
  · rename_i same
    subst same
    split at at_
    · cases at_
      exact holds
    · cases at_
  · exact all other ft at_

theorem TableInvariant.pipeline (kept : TableInvariant inv) {result : PipelineResult}
    (all : EveryTable inv tables)
    (ran : Horse.Net.pipeline find turns tables tableId nf acts = some result) :
    EveryTable inv result.tables := by
  induction turns generalizing tables tableId nf acts result with
  | zero => cases ran
  | succ turns ih =>
    obtain ⟨table, at_, -⟩ := Option.bind_eq_some_iff.mp ran
    have looked := kept.lookup (all tableId table at_) find nf.key nf.startTime
    rw [pipeline_turn at_] at ran
    split at ran
    · cases ran
      exact all.set looked
    · rename_i f lookup
      have counted := all.set (kept.count looked f nf)
      dsimp only at ran
      split at ran
      · split at ran
        · obtain ⟨tail, tailRan, rfl⟩ := Option.map_eq_some_iff.mp ran
          have tailKept := ih counted tailRan
          exact tailKept
        · obtain ⟨final, -, rfl⟩ := Option.map_eq_some_iff.mp ran
          exact counted
      · cases ran

variable {dp after : Datapath}

theorem EveryTable.updateTable {tableId : BitVec 8} {change : FlowTable → FlowTable}
    (all : EveryTable inv dp.tables)
    (keeps : ∀ ft, dp.tables[tableId.toNat]? = some ft → inv tableId.toNat ft →
      inv tableId.toNat (change ft))
    (updated : dp.updateTable tableId change = some after) : EveryTable inv after.tables := by
  obtain ⟨table, at_, rfl⟩ := Option.map_eq_some_iff.mp updated
  exact all.set (keeps table at_ (all _ table at_))

section

variable (kept : TableInvariant inv) (all : EveryTable inv dp.tables)

include kept all

theorem TableInvariant.dpGetStatsFlows {req : FlowStatsReq} {flows : List Flow}
    (got : Horse.Net.dpGetStatsFlows dp req time = some (flows, after)) :
    EveryTable inv after.tables := by
  unfold Horse.Net.dpGetStatsFlows at got
  split at got
  · cases got
    intro index ft at_
    rw [List.getElem?_map] at at_
    obtain ⟨old, oldAt, rfl⟩ := Option.map_eq_some_iff.mp at_
    exact kept.stats (all index old oldAt) _ _ _
  · obtain ⟨table, updated, -, isUpdated, same⟩ := bind_map_eq_some_iff.mp got
    cases same
    exact all.updateTable (fun ft _ holds => kept.stats holds _ _ _) isUpdated

theorem TableInvariant.dpHandleStatsReq {reply : List Flow → OfReply} {replied : Option OfReply}
    (handled : Horse.Net.dpHandleStatsReq dp time reply = some (replied, after)) :
    EveryTable inv after.tables := by
  obtain ⟨⟨flows, got⟩, isGot, same⟩ := Option.map_eq_some_iff.mp handled
  cases same
  exact kept.dpGetStatsFlows all isGot

theorem TableInvariant.dpRecvNetflow {returned : Option Netflow}
    (received : Horse.Net.dpRecvNetflow find dp nf = some (returned, after)) :
    EveryTable inv after.tables := by
  unfold Horse.Net.dpRecvNetflow at received
  split at received
  · cases received
    exact all
  · split at received
    · cases received
    · rename_i result ran
      cases received
      exact kept.pipeline all ran

/-- An invariant of the tables is kept by every step whose flow mod keeps it. -/
theorem TableInvariant.dpStep
    (mods : ∀ find command f nf time, call = .message find (.flowMod command f) nf time →
      ∀ ft, dp.tables[f.tableId.toNat]? = some ft → inv f.tableId.toNat ft →
        inv f.tableId.toNat (command.change find f time ft))
    (step : Horse.Net.dpStep dp call = some after) : EveryTable inv after.tables := by
  cases call with
  | addPort portId ethAddr currSpeed =>
    cases step
    exact all
  | recv find nf =>
    obtain ⟨⟨returned, received⟩, isReceived, rfl⟩ := Option.map_eq_some_iff.mp step
    exact kept.dpRecvNetflow all isReceived
  | message find msg nf time =>
    obtain ⟨⟨reply, handledNf, handledDp⟩, handled, rfl⟩ := Option.bind_eq_some_iff.mp step
    cases msg with
    | packetOut bufferId inPort packet al =>
      obtain ⟨out, -, same⟩ := Option.map_eq_some_iff.mp handled
      cases same
      exact all
    | flowMod command f =>
      obtain ⟨modified, isModified, same⟩ := Option.map_eq_some_iff.mp handled
      cases same
      exact all.updateTable (mods find command f nf time rfl) isModified
    | portStatsRequest xid portNo =>
      obtain ⟨out, -, same⟩ := Option.map_eq_some_iff.mp handled
      cases same
      exact all
    | flowStatsRequest xid req =>
      obtain ⟨⟨replied, counted⟩, isCounted, same⟩ := Option.map_eq_some_iff.mp handled
      cases same
      exact kept.dpHandleStatsReq all isCounted
    | aggregateStatsRequest xid req =>
      obtain ⟨⟨replied, counted⟩, isCounted, same⟩ := Option.map_eq_some_iff.mp handled
      cases same
      exact kept.dpHandleStatsReq all isCounted
    | portDescRequest xid =>
      cases handled
      exact all
    | other =>
      cases handled
      exact all

end

/-- The tables of a new datapath are new. -/
theorem everyTable_dpNew (uuid dpId : Nat)
    (new : ∀ index, index < maxTables → inv index (flowTableNew (BitVec.ofNat 8 index))) :
    EveryTable inv (dpNew uuid dpId).tables := by
  intro index ft at_
  rw [dpNew, List.getElem?_map] at at_
  obtain ⟨number, isNumber, rfl⟩ := Option.map_eq_some_iff.mp at_
  obtain ⟨below, rfl⟩ := List.getElem?_eq_some_iff.mp isNumber
  rw [List.getElem_range]
  exact new index (by simpa using below)

end Invariant

/-! ## The tables that the steps leave behind -/

/-- What the steps keep of a table: its flows are installed, and their gotos lead to
existing tables. -/
structure FlowTable.Ranged (ft : FlowTable) : Prop where
  installed : ft.Installed
  gotos : ∀ f ∈ ft.entries, (gotoTarget f.insts).toNat < maxTables

theorem FlowTable.count_trims (ft : FlowTable) (f : Flow) (nf : Netflow) :
    TrimsTable (ft.count f nf) ft := by
  refine ⟨?_, rfl⟩
  rw [FlowTable.count, ← List.filterMap_eq_map]
  apply trims_filterMap
  rintro old new ⟨⟩
  exact Trimmed.update old f.addr fun _ => rfl

namespace FlowTable.Ranged

variable (ranged : ft.Ranged)

include ranged

theorem trimmed {after : FlowTable} (trims : TrimsTable after ft) {targets : List Nat}
    {insts : InstructionSet} (rewrites : Rewrites targets insts after.entries ft.entries)
    (exists_ : targets ≠ [] → (gotoTarget insts).toNat < maxTables) : after.Ranged := by
  refine ⟨ranged.installed.trimmed trims, ?_⟩
  intro g member
  obtain ⟨h, oldMem, -, sameInsts⟩ := rewrites g member
  rw [sameInsts]
  split
  · rename_i target
    exact exists_ (List.ne_nil_of_mem target)
  · exact ranged.gotos h oldMem

theorem lookup (find : HashFind Flow) (key : OflFlowKey) (time : Nat) :
    (flowTableLookup find ft key time).2.Ranged :=
  ranged.trimmed (flowTableLookup_trims find ft key time)
    (rewrites_flowTableLookup find ft key time instructionSetInit) (absurd rfl)

theorem count (f : Flow) (nf : Netflow) : (ft.count f nf).Ranged := by
  have rewrites : Rewrites [] instructionSetInit (ft.count f nf).entries ft.entries := by
    intro g member
    obtain ⟨h, oldMem, changed⟩ := exists_of_mem_update member
    refine ⟨h, oldMem, ?_⟩
    rw [if_neg List.not_mem_nil, changed]
    split <;> exact ⟨rfl, rfl⟩
  exact ranged.trimmed (ft.count_trims f nf) rewrites (absurd rfl)

theorem stats (key mask : OflFlowKey) (time : Nat) :
    (flowTableStats ft key mask time).2.Ranged :=
  ranged.trimmed (flowTableStats_trims ft key mask time)
    (rewrites_flowTableStats ft key mask time instructionSetInit) (absurd rfl)

theorem addFlow {f : Flow} (exists_ : (gotoTarget f.insts).toNat < maxTables) (time : Nat) :
    (Horse.Net.addFlow ft f time).Ranged := by
  refine ⟨ranged.installed.addFlow f time, ?_⟩
  intro g member
  have added := (ranged.installed.wellFormed.entries_addFlow f time).mem_iff.mp member
  rcases List.mem_cons.mp added with rfl | old
  · exact exists_
  · exact ranged.gotos g old

theorem modifyFlow {f : Flow} {strict : Bool}
    (exists_ : modifyTargets find f strict time ft.flows ≠ [] →
      (gotoTarget f.insts).toNat < maxTables) :
    (Horse.Net.modifyFlow find ft f strict time).Ranged :=
  ranged.trimmed (modifyFlow_trims find ft f strict time)
    (rewrites_modifyFlow find ranged.installed f strict time) exists_

theorem deleteFlow (find : HashFind Flow) (f : Flow) (time : Nat) (strict : Bool) :
    (Horse.Net.deleteFlow find ft f time strict).Ranged :=
  ranged.trimmed (deleteFlow_trims find ft f time strict)
    (rewrites_deleteFlow find ft f time strict instructionSetInit) (absurd rfl)

end FlowTable.Ranged

theorem tableInvariant_ranged : TableInvariant fun _ ft => ft.Ranged where
  lookup := fun ranged find key time => ranged.lookup find key time
  count := fun ranged f nf => ranged.count f nf
  stats := fun ranged key mask time => ranged.stats key mask time

/-- A step with a flow mod that names existing tables keeps the gotos in range. -/
theorem dpStep_ranged {dp after : Datapath} (all : EveryTable (fun _ ft => ft.Ranged) dp.tables)
    (names : NamesTables dp call) (step : dpStep dp call = some after) :
    EveryTable (fun _ ft => ft.Ranged) after.tables := by
  refine tableInvariant_ranged.dpStep all ?_ step
  rintro find command f nf time rfl ft at_ ranged
  have target := names.2 ft at_
  cases command with
  | add => exact ranged.addFlow (target (List.cons_ne_nil _ _)) time
  | modify => exact ranged.modifyFlow target
  | modifyStrict => exact ranged.modifyFlow target
  | delete => exact ranged.deleteFlow find f time false
  | deleteStrict => exact ranged.deleteFlow find f time true

/-! ## The indices of a run -/

theorem ranged_dpNew (uuid dpId : Nat) :
    EveryTable (fun _ ft => ft.Ranged) (dpNew uuid dpId).tables :=
  everyTable_dpNew uuid dpId fun _ _ => ⟨installed_flowTableNew _, List.forall_mem_nil _⟩

theorem indices_lt {dp : Datapath} (all : EveryTable (fun _ ft => ft.Ranged) dp.tables)
    (names : NamesTables dp call) : ∀ index ∈ call.indices dp, index < maxTables := by
  have stats : ∀ index ∈ statsIndices FlowStatsReq.zero, index < maxTables := by
    decide
  cases call with
  | addPort portId ethAddr currSpeed => exact List.forall_mem_nil _
  | recv find nf =>
    intro index used
    have inRange : GotosInRange dp.tables := by
      intro table member f flowMem
      rw [dp.tablesNum]
      obtain ⟨index, at_⟩ := List.mem_iff_getElem?.mp member
      exact (all index table at_).gotos f flowMem
    obtain ⟨access, accessed, rfl⟩ := List.mem_map.mp used
    unfold recvAccesses at accessed
    split at accessed
    · cases accessed
    · rw [← dp.tablesNum]
      refine pipelineAccesses_lt inRange (fun _ _ => rfl) ?_ accessed
      rw [dp.tablesNum]
      decide
  | message find msg nf time =>
    cases msg with
    | flowMod command f => exact List.forall_mem_singleton.mpr names.1
    | flowStatsRequest xid req => exact stats
    | aggregateStatsRequest xid req => exact stats
    | _ => exact List.forall_mem_nil _

/-- Along every sequence of messages and received netflows in which the flow mods name
existing tables and bring gotos to existing tables, all indices into the array of tables
are inside it. -/
theorem table_indices_along {uuid dpId : Nat} {calls : List DpCall}
    (named : Along dpStep NamesTables (dpNew uuid dpId) calls) :
    Along dpStep (fun dp call => ∀ index ∈ call.indices dp, index < maxTables)
      (dpNew uuid dpId) calls := by
  apply @along_of_invariant _ _ dpStep NamesTables
    fun dp => EveryTable (fun _ ft => ft.Ranged) dp.tables
  · intro dp call after all names step
    exact dpStep_ranged all names step
  · intro dp call all names
    exact indices_lt all names
  · exact ranged_dpNew uuid dpId
  · exact named

/-- A flow for every packet, with a goto. -/
def gotoFlow (target : BitVec 8) : Flow :=
  { flowNew with insts := addGotoTable instructionSetInit target }

/-- A netflow that arrives on port 1. -/
def arriving : Netflow :=
  { netflowNew with key := { OflFlowKey.zero with inPort := 1 } }

/-- A datapath with one port is given a flow with a goto. -/
def gotoCalls (target : BitVec 8) : List DpCall :=
  [.addPort 1 1 10, .message HashFind.latest (.flowMod .add (gotoFlow target)) netflowNew 0]

theorem table_indices_along_gotoCalls :
    Along dpStep (fun dp call => ∀ index ∈ call.indices dp, index < maxTables) (dpNew 0 1)
      (gotoCalls 7 ++ [.recv HashFind.latest arriving]) := by
  apply table_indices_along
  refine ⟨trivial, ?_⟩
  rintro _ ⟨rfl⟩
  refine ⟨⟨by decide, fun _ _ _ => by decide⟩, ?_⟩
  rintro _ ⟨rfl⟩
  exact ⟨trivial, fun _ _ => trivial⟩

/-- A request to delete the flows of all tables reads the array at 255, and a goto to
table 200 is followed by the first netflow that matches. -/
theorem indices_out_of_range :
    (∃ index ∈ (DpCall.message HashFind.latest (.flowMod .delete
        { flowNew with tableId := ofpttAll }) netflowNew 0).indices (dpNew 0 1),
      ¬index < maxTables) ∧
    ∃ dp, run dpStep (dpNew 0 1) (gotoCalls 200) = some dp ∧
      ∃ index ∈ (DpCall.recv HashFind.latest arriving).indices dp, ¬index < maxTables := by
  constructor
  · exact ⟨255, by decide, by decide⟩
  · exact ⟨_, rfl, 200, by decide, by decide⟩

end Horse.Net
