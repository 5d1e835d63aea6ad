import Horse.Codec.Masks
import Horse.Net.TableIndex

/-!
# Metadata along the pipeline

A write-metadata instruction carries a value and a mask.  It is meant to change the bits
of the mask only, so that the tables on the way of a netflow can share the metadata.
`execute_instructions` assigns the whole value.  The module lists the lookups that a
netflow goes through, with the metadata each of them uses and the flow it finds, and says
for which of these lists the metadata is the one composed under the masks.
-/

namespace Horse.Net

open Horse.Codec Horse.Container Horse.Lib Horse.Transition

/-! ## Composition under masks -/

/-- The metadata after the set-field actions of a list. -/
def assignMetadata (al : List Action) (old : BitVec 64) : BitVec 64 :=
  al.foldl
    (fun old act =>
      match act with
      | .setField set => if set.field = .metadata then set.u64Field else old
      | _ => old)
    old

/-- The metadata that a matched flow is meant to leave behind. -/
def composeMetadata (old : BitVec 64) (f : Flow) : BitVec 64 :=
  let assigned := assignMetadata (appliedActions f.insts) old
  if instructionIsActive f.insts .writeMetadata then
    maskedWrite assigned f.insts.writeMeta.metadata f.insts.writeMeta.metadataMask
  else assigned

/-- A flow that writes metadata writes what is there already outside its mask. -/
def KeepsOutsideMask (old : BitVec 64) (f : Flow) : Prop :=
  instructionIsActive f.insts .writeMetadata →
    f.insts.writeMeta.metadata &&& ~~~f.insts.writeMeta.metadataMask =
      assignMetadata (appliedActions f.insts) old &&& ~~~f.insts.writeMeta.metadataMask

/-! ## The metadata that a flow leaves behind -/

theorem netflowPushVlan_metadata (nf : Netflow) (ethType : BitVec 16) :
    (netflowPushVlan nf ethType).key.metadata = nf.key.metadata := by
  unfold netflowPushVlan
  split
  · split <;> rfl
  · rfl

theorem netflowPushMpls_metadata (nf : Netflow) (ethType : BitVec 16) :
    (netflowPushMpls nf ethType).key.metadata = nf.key.metadata := by
  unfold netflowPushMpls
  split
  · split <;> rfl
  · rfl

theorem netflowPopVlan_metadata (nf : Netflow) :
    (netflowPopVlan nf).key.metadata = nf.key.metadata := by
  simp only [netflowPopVlan]
  split
  · split
    · split <;> rfl
    · rfl
  · rfl

theorem netflowPopMpls_metadata (nf : Netflow) (ethType : BitVec 16) :
    (netflowPopMpls nf ethType).key.metadata = nf.key.metadata := by
  simp only [netflowPopMpls]
  split
  · rfl
  · split <;> rfl

theorem setField_metadata (set : SetField) (nf : Netflow) :
    (setField set nf).key.metadata = assignMetadata [.setField set] nf.key.metadata := by
  cases field : set.field <;>
    simp only [setField, setPlainField, assignMetadata, List.foldl_cons, List.foldl_nil, field,
      reduceCtorEq, if_true, if_false]
  all_goals split <;> rfl

/-- No action but a set-field action touches the metadata. -/
theorem handleAction_metadata (act : Action) (nf : Netflow) :
    ((handleAction act).getD id nf).key.metadata = assignMetadata [act] nf.key.metadata := by
  cases act with
  | popVlan => exact netflowPopVlan_metadata nf
  | popMpls ethType => exact netflowPopMpls_metadata nf ethType
  | pushMpls ethType => exact netflowPushVlan_metadata nf ethType
  | pushVlan ethType => exact netflowPushMpls_metadata nf ethType
  | setField set => exact setField_metadata set nf
  | _ => rfl

theorem applyActions_metadata (al : List Action) (nf : Netflow) :
    (applyActions al nf).key.metadata = assignMetadata al nf.key.metadata := by
  induction al generalizing nf with
  | nil => rfl
  | cons act rest ih =>
    calc (applyActions (act :: rest) nf).key.metadata
        = (applyActions rest ((handleAction act).getD id nf)).key.metadata := rfl
      _ = assignMetadata rest ((handleAction act).getD id nf).key.metadata := ih _
      _ = assignMetadata rest (assignMetadata [act] nf.key.metadata) := by
          rw [handleAction_metadata]
      _ = assignMetadata (act :: rest) nf.key.metadata := rfl

/-- A matched flow leaves the composed metadata behind just if it keeps the metadata
outside its mask. -/
theorem leaveTable_metadata_iff (f : Flow) (nf : Netflow) :
    (leaveTable f nf).key.metadata = composeMetadata nf.key.metadata f ↔
      KeepsOutsideMask nf.key.metadata f := by
  have applied : (applyActions (appliedActions f.insts) (nf.setCookie f.cookie)).key.metadata =
      assignMetadata (appliedActions f.insts) nf.key.metadata :=
    applyActions_metadata _ _
  unfold leaveTable composeMetadata KeepsOutsideMask
  by_cases writes : instructionIsActive f.insts .writeMetadata = true
  · simp only [writes, if_true, true_implies]
    exact maskedWrite_eq_value_iff _ _ _
  · simpa [writes] using applied

/-! ## The lookups of a netflow -/

/-- A lookup on the way of a netflow: the table, the metadata that the lookup uses and
the flow it finds. -/
structure Visit where
  tableId : Nat
  metadata : BitVec 64
  matched : Option Flow
  deriving DecidableEq, Repr

/-- An access to a table that exists is a lookup. -/
def Access.visit? (access : Access) : Option Visit :=
  access.lookup.map fun matched => ⟨access.tableId, access.metadata, matched⟩

/-- The lookups of `dp_recv_netflow`. -/
def recvVisits (find : HashFind Flow) (dp : Datapath) (nf : Netflow) : List Visit :=
  (recvAccesses find dp nf).filterMap Access.visit?

/-- The lookups of the loop of `dp_recv_netflow`. -/
def pipelineVisits (find : HashFind Flow) (turns : Nat) (tables : List FlowTable) (tableId : Nat)
    (nf : Netflow) (acts : ActionSet) : List Visit :=
  (pipelineAccesses find turns tables tableId nf acts).filterMap Access.visit?

variable {find : HashFind Flow} {turns tableId : Nat} {tables : List FlowTable} {nf : Netflow}
  {acts : ActionSet} {visit : Visit} {rest : List Visit}

/-! ## Composed metadata -/

/-- Every lookup uses the metadata composed from the flows found before it. -/
def Composed (start : BitVec 64) (visits : List Visit) : Prop :=
  ∀ before visit after, visits = before ++ visit :: after →
    visit.metadata = (before.filterMap Visit.matched).foldl composeMetadata start

/-- Every flow found keeps the metadata outside its mask, if another lookup follows. -/
def AllKeepOutsideMask (visits : List Visit) : Prop :=
  visits.IsChain fun visit _ => ∀ f ∈ visit.matched, KeepsOutsideMask visit.metadata f

theorem composed_nil (start : BitVec 64) : Composed start [] := by
  intro before visit after same
  simp at same

theorem composed_singleton (visit : Visit) : Composed visit.metadata [visit] := by
  intro before visit' after same
  cases before with
  | nil =>
    cases same
    rfl
  | cons first rest => simp at same

/-- The first lookup uses the metadata at the start, and the others continue from what
its flow is meant to leave. -/
theorem composed_cons_iff {start : BitVec 64} {f : Flow} (matched : visit.matched = some f) :
    Composed start (visit :: rest) ↔
      visit.metadata = start ∧ Composed (composeMetadata start f) rest := by
  constructor
  · intro composed
    refine ⟨composed [] visit rest rfl, ?_⟩
    intro before next after same
    have there := composed (visit :: before) next after (by rw [same, List.cons_append])
    rwa [List.filterMap_cons_some matched] at there
  · rintro ⟨atStart, composed⟩ before next after same
    cases before with
    | nil =>
      cases same
      exact atStart
    | cons first before =>
      rw [List.cons_append, List.cons.injEq] at same
      obtain ⟨rfl, same⟩ := same
      rw [List.filterMap_cons_some matched]
      exact composed before next after same

theorem pipelineVisits_head
    (visits : pipelineVisits find turns tables tableId nf acts = visit :: rest) :
    visit.metadata = nf.key.metadata := by
  unfold pipelineVisits at visits
  cases turns with
  | zero => cases visits
  | succ turns =>
    have turn := accessTurn find turns tables tableId nf acts
    generalize pipelineAccesses find (turns + 1) tables tableId nf acts = accesses at turn visits
    cases turn <;> cases visits <;> rfl

/-- The lookups from a table on use composed metadata just if their flows keep the
metadata outside their masks. -/
theorem pipelineVisits_composed_iff (find : HashFind Flow) (turns : Nat)
    (tables : List FlowTable) (tableId : Nat) (nf : Netflow) (acts : ActionSet) :
    Composed nf.key.metadata (pipelineVisits find turns tables tableId nf acts) ↔
      AllKeepOutsideMask (pipelineVisits find turns tables tableId nf acts) := by
  induction turns generalizing tables tableId nf acts with
  | zero => exact iff_of_true (composed_nil _) .nil
  | succ turns ih =>
    have turn := accessTurn find turns tables tableId nf acts
    rw [pipelineVisits]
    generalize pipelineAccesses find (turns + 1) tables tableId nf acts = accesses at turn
    cases turn with
    | outside missing => exact iff_of_true (composed_nil _) .nil
    | last matched => exact iff_of_true (composed_singleton _) (.singleton _)
    | @goto table f table' acts' here found later =>
      specialize ih (tables.set tableId table') (gotoTarget f.insts).toNat
        ((leaveTable f nf).setTableId (gotoTarget f.insts)) acts'
      rw [@List.filterMap_cons_some _ _ Access.visit? _ _ _ rfl, ← pipelineVisits,
        composed_cons_iff rfl]
      have leaves := leaveTable_metadata_iff f nf
      cases visits : pipelineVisits find turns (tables.set tableId table')
        (gotoTarget f.insts).toNat ((leaveTable f nf).setTableId (gotoTarget f.insts)) acts' with
      | nil => exact iff_of_true ⟨rfl, composed_nil _⟩ (.singleton _)
      | cons visit rest =>
        rw [visits] at ih
        have used := pipelineVisits_head visits
        rw [AllKeepOutsideMask, List.isChain_cons_cons]
        constructor
        · rintro ⟨-, composed⟩
          -- The second lookup says what the flow has left behind.
          have left : (leaveTable f nf).key.metadata = composeMetadata nf.key.metadata f :=
            used.symm.trans (composed [] visit rest rfl)
          have keeps := leaves.mp left
          rw [← left] at composed
          exact ⟨by rintro _ ⟨rfl⟩; exact keeps, ih.mp composed⟩
        · rintro ⟨keeps, others⟩
          have left := leaves.mpr (keeps f rfl)
          rw [← left]
          exact ⟨rfl, ih.mpr others⟩

/-- A netflow that a datapath receives meets composed metadata in every table it visits
just if every flow on its way that writes metadata writes outside its mask what is there
already. -/
theorem metadata_composed_iff (find : HashFind Flow) (dp : Datapath) (nf : Netflow) :
    Composed 0 (recvVisits find dp nf) ↔ AllKeepOutsideMask (recvVisits find dp nf) := by
  unfold recvVisits recvAccesses
  cases dpPort dp nf.key.inPort with
  | none => exact iff_of_true (composed_nil _) .nil
  | some port => exact pipelineVisits_composed_iff find 256 dp.tables 0 (enterPipeline nf) _

/-- A flow for every packet that writes the low four bits of the metadata, with a value
that has others, and goes to table 1. -/
def maskedFlow : Flow :=
  { flowNew with
    insts := addGotoTable (addWriteMetadata instructionSetInit ⟨0xff, 0x0f⟩) 1 }

/-- A datapath with one port is given the flow. -/
def maskedCalls : List DpCall :=
  [.addPort 1 1 10, .message HashFind.latest (.flowMod .add maskedFlow) netflowNew 0]

/-- The lookup in table 1 uses `0xff` where the flow was to leave `0x0f`. -/
theorem metadata_written_unmasked :
    ∃ dp, run dpStep (dpNew 0 1) maskedCalls = some dp ∧
      ¬Composed 0 (recvVisits HashFind.latest dp arriving) := by
  refine ⟨_, rfl, ?_⟩
  intro composed
  have wrong := composed [⟨0, 0, some maskedFlow⟩] ⟨1, 0xff, none⟩ [] (by decide +kernel)
  revert wrong
  decide

end Horse.Net
