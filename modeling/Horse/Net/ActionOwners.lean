import Horse.Container.Ownership
import Horse.Net.FlowFates
import Mathlib.Data.List.Pairwise

/-!
# Who owns the actions of a flow

The instruction set of a flow holds a pointer to its action list and one to its action
set.  `flow_add_instructions` copies an instruction set by value, so the flow it comes
from and the flow it goes to share the objects, and `flow_destroy` releases what it
finds.  The state of this module is a flow table together with these pointers, one pair
for each flow of the table.

A non-strict modify copies one instruction set into every flow it selects.  The last
part of the module shows that this is the only way in which two flows come to share
their actions.
-/

namespace Horse.Net

open Horse.Container Horse.Lib Horse.Transition

/-- The pointers of an instruction set; an empty list or set is a null pointer. -/
structure ActionRefs where
  applyAct : Option Nat
  writeAct : Option Nat
  deriving DecidableEq, Repr

/-- The objects an instruction set points to. -/
def ActionRefs.objs (refs : ActionRefs) : List Nat :=
  refs.applyAct.toList ++ refs.writeAct.toList

/-- The objects in which `unpack_instructions` places an instruction set. -/
def unpackRefs (next : Nat) (insts : InstructionSet) : ActionRefs where
  applyAct := if insts.applyAct.isEmpty then none else some next
  writeAct := if insts.writeAct.actions.isEmpty then none else some (next + 1)

/-- The action objects: the number of the next one, the pointers of each installed flow
by its address, and the objects released so far. -/
structure ActionHeap where
  next : Nat
  insts : List (Nat × ActionRefs)
  freed : List Nat
  deriving DecidableEq, Repr

namespace ActionHeap

/-- `flow_add_instructions` on each of the flows at the given addresses.  The pointers
that were there are lost, not released. -/
def flowAddInstructions (heap : ActionHeap) (targets : List Nat) (refs : ActionRefs) :
    ActionHeap :=
  { heap with
    insts := heap.insts.map fun entry => if entry.1 ∈ targets then (entry.1, refs) else entry }

/-- `flow_destroy` of each of the flows that are no longer in the table. -/
def flowDestroy (heap : ActionHeap) (present : List Nat) : ActionHeap :=
  { heap with
    insts := heap.insts.filter fun entry => decide (entry.1 ∈ present)
    freed := heap.freed ++
      (heap.insts.filter fun entry => !decide (entry.1 ∈ present)).flatMap (ActionRefs.objs ·.2) }

/-- All references to objects, and all releases. -/
def objs (heap : ActionHeap) : List Nat :=
  heap.insts.flatMap (ActionRefs.objs ·.2) ++ heap.freed

end ActionHeap

/-- A flow table with the action objects of its flows. -/
structure OwnedTable where
  table : FlowTable
  heap : ActionHeap

/-- `flow_table_new`. -/
def ownedTableNew (tableId : BitVec 8) : OwnedTable where
  table := flowTableNew tableId
  heap := ⟨0, [], []⟩

/-- What a table is asked to do: a call, or `flow_table_stats`. -/
inductive OwnedCall
  | call (find : HashFind Flow) (call : FlowTableCall)
  | stats (key mask : OflFlowKey) (time : Nat)

/-- A call that adds no flow: the instructions of the request go to the targets, and the
flows that leave the table are destroyed. -/
def OwnedTable.trim (st : OwnedTable) (table : FlowTable) (targets : List Nat)
    (refs : ActionRefs) (next : Nat) : OwnedTable where
  table := table
  heap := (({ st.heap with next := next } : ActionHeap).flowAddInstructions targets
    refs).flowDestroy table.addrs

/-- `add_flow` with a flow that has just been unpacked. -/
def OwnedTable.add (st : OwnedTable) (f : Flow) (time : Nat) : OwnedTable where
  table := addFlow st.table f time
  heap :=
    { st.heap with
      next := st.heap.next + 2
      insts := st.heap.insts ++ [(st.table.made, unpackRefs st.heap.next f.insts)] }

/-- One step.  A flow mod is unpacked into new objects, whatever it does then. -/
def ownedStep : Step OwnedTable OwnedCall
  | st, .call _ (.add f time) => some (st.add f time)
  | st, .call find (.modify f strict time) =>
    some (st.trim (modifyFlow find st.table f strict time)
      (modifyTargets find f strict time st.table.flows) (unpackRefs st.heap.next f.insts)
      (st.heap.next + 2))
  | st, .call find (.delete f time strict) =>
    some (st.trim (deleteFlow find st.table f time strict) []
      (unpackRefs st.heap.next f.insts) (st.heap.next + 2))
  | st, .call find (.lookup key time) =>
    some (st.trim (flowTableLookup find st.table key time).2 [] ⟨none, none⟩ st.heap.next)
  | st, .stats key mask time =>
    some (st.trim (flowTableStats st.table key mask time).2 [] ⟨none, none⟩ st.heap.next)

/-- The addresses of the flows whose instructions a call writes. -/
def OwnedCall.writes (table : FlowTable) : OwnedCall → List Nat
  | .call _ (.add _ _) => [table.made]
  | .call find (.modify f strict time) => modifyTargets find f strict time table.flows
  | _ => []

/-- The flow points to the object. -/
def OwnedTable.Reaches (st : OwnedTable) (f : Flow) (obj : Nat) : Prop :=
  ∃ refs, (f.addr, refs) ∈ st.heap.insts ∧ obj ∈ refs.objs

/-- What a call should leave behind: every action object an installed flow points to
belongs to that flow alone and has not been released, and the flows whose instructions
the call does not write have the actions they had. -/
structure ActionsOwned (before : OwnedTable) (call : OwnedCall) (after : OwnedTable) : Prop where
  owner : ∀ f ∈ after.table.entries, ∀ g ∈ after.table.entries, ∀ obj,
    after.Reaches f obj → after.Reaches g obj → f = g
  alive : ∀ f ∈ after.table.entries, ∀ obj, after.Reaches f obj → obj ∉ after.heap.freed
  kept : ∀ g ∈ after.table.entries, g.addr ∉ call.writes before.table →
    ∃ h ∈ before.table.entries, h.addr = g.addr ∧ h.insts = g.insts ∧
      ∀ obj, after.Reaches g obj ↔ before.Reaches h obj

/-- A non-strict modify that has actions selects at most one flow. -/
def ModifiesOne (table : FlowTable) : OwnedCall → Prop
  | .call _ (.modify f false time) =>
    f.insts.applyAct = [] ∧ f.insts.writeAct.actions = [] ∨
      (nonStrictTargets f time table.flows).length ≤ 1
  | _ => True

/-! ## The pointers represent the instructions of the table -/

/-- The pointers are those of an instruction set. -/
structure ActionRefs.Carries (refs : ActionRefs) (insts : InstructionSet) : Prop where
  applyAct : refs.applyAct = none ↔ insts.applyAct = []
  writeAct : refs.writeAct = none ↔ insts.writeAct.actions = []

theorem unpackRefs_carries (next : Nat) (insts : InstructionSet) :
    (unpackRefs next insts).Carries insts := by
  constructor <;> simp [unpackRefs]

/-- Each flow of the table has one pair of pointers, which are those of its
instructions. -/
structure OwnedTable.Represents (st : OwnedTable) : Prop where
  installed : st.table.Installed
  keysDistinct : (st.heap.insts.map Prod.fst).Nodup
  keys : ∀ addr, addr ∈ st.heap.insts.map Prod.fst ↔ addr ∈ st.table.addrs
  carries : ∀ f ∈ st.table.entries, ∀ refs, (f.addr, refs) ∈ st.heap.insts →
    refs.Carries f.insts

theorem represents_ownedTableNew (tableId : BitVec 8) : (ownedTableNew tableId).Represents where
  installed := installed_flowTableNew tableId
  keysDistinct := List.nodup_nil
  keys := fun _ => Iff.rfl
  carries := List.forall_mem_nil _

variable {st after : OwnedTable} {targets : List Nat} {refs : ActionRefs} {call : OwnedCall}
  {table : FlowTable} {next : Nat} {f g : Flow}

theorem mem_insts_trim {addr : Nat} {new : ActionRefs} :
    (addr, new) ∈ (st.trim table targets refs next).heap.insts ↔
      addr ∈ table.addrs ∧ ∃ old, (addr, old) ∈ st.heap.insts ∧
        new = if addr ∈ targets then refs else old := by
  simp only [OwnedTable.trim, ActionHeap.flowDestroy, ActionHeap.flowAddInstructions,
    List.mem_filter, List.mem_map, decide_eq_true_eq]
  constructor
  · rintro ⟨⟨⟨oldAddr, old⟩, member, changed⟩, present⟩
    split at changed
    · rename_i target
      cases changed
      exact ⟨present, old, member, (if_pos target).symm⟩
    · rename_i target
      cases changed
      exact ⟨present, new, member, (if_neg target).symm⟩
  · rintro ⟨present, old, member, rfl⟩
    refine ⟨⟨(addr, old), member, ?_⟩, present⟩
    split <;> rfl

theorem keys_trim (st : OwnedTable) (table : FlowTable) (targets : List Nat)
    (refs : ActionRefs) (next : Nat) :
    (st.trim table targets refs next).heap.insts.map Prod.fst =
      (st.heap.insts.map Prod.fst).filter fun addr => decide (addr ∈ table.addrs) := by
  have sameKeys : (st.heap.insts.map fun entry =>
      if entry.1 ∈ targets then (entry.1, refs) else entry).map Prod.fst =
        st.heap.insts.map Prod.fst := by
    rw [List.map_map]
    apply List.map_congr_left
    intro entry _
    simp only [Function.comp]
    split <;> rfl
  rw [← sameKeys, List.filter_map]
  rfl

/-- A call that adds no flow keeps the representation. -/
theorem OwnedTable.Represents.trim (represents : st.Represents) {insts : InstructionSet}
    (trims : TrimsTable table st.table)
    (rewrites : Rewrites targets insts table.entries st.table.entries)
    (carries : targets ≠ [] → refs.Carries insts) (next : Nat) :
    (st.trim table targets refs next).Represents := by
  have fewer : table.addrs.Sublist st.table.addrs := trims.1.addrs_sublist
  constructor
  · exact represents.installed.trimmed trims
  · rw [keys_trim]
    exact represents.keysDistinct.filter _
  · intro addr
    rw [keys_trim, List.mem_filter, decide_eq_true_eq, represents.keys]
    exact and_iff_right_of_imp fun member => fewer.subset member
  · intro f member new inHeap
    obtain ⟨-, old, wasThere, sameRefs⟩ := mem_insts_trim.mp inHeap
    obtain ⟨h, oldMem, sameAddr, sameInsts⟩ := rewrites f member
    rw [sameRefs, sameInsts]
    split
    · rename_i target
      exact carries (List.ne_nil_of_mem target)
    · rw [← sameAddr] at wasThere
      exact represents.carries h oldMem old wasThere

theorem OwnedTable.Represents.add (represents : st.Represents) (f : Flow) (time : Nat) :
    (st.add f time).Represents := by
  have entries := represents.installed.wellFormed.entries_addFlow f time
  have addrs : (addFlow st.table f time).addrs.Perm (st.table.made :: st.table.addrs) :=
    entries.map Flow.addr
  have fresh := represents.installed.fresh
  have keys : (st.add f time).heap.insts.map Prod.fst =
      st.heap.insts.map Prod.fst ++ [st.table.made] := List.map_append
  constructor
  · exact represents.installed.addFlow f time
  · rw [keys, List.nodup_append_comm, List.singleton_append, List.nodup_cons, represents.keys]
    exact ⟨fresh, represents.keysDistinct⟩
  · intro addr
    rw [keys, List.mem_append, List.mem_singleton, represents.keys]
    exact or_comm.trans (List.mem_cons.symm.trans addrs.mem_iff.symm)
  · intro g member refs inHeap
    rcases List.mem_append.mp inHeap with old | new
    · have wasThere := (represents.keys g.addr).mp (List.mem_map_of_mem old)
      rcases List.mem_cons.mp (entries.mem_iff.mp member) with rfl | oldFlow
      · exact absurd wasThere fresh
      · exact represents.carries g oldFlow refs old
    · obtain ⟨sameAddr, rfl⟩ := Prod.mk.inj (List.mem_singleton.mp new)
      rcases List.mem_cons.mp (entries.mem_iff.mp member) with rfl | oldFlow
      · exact unpackRefs_carries _ _
      · exact absurd (sameAddr ▸ List.mem_map_of_mem oldFlow) fresh

/-- Every call keeps the representation. -/
theorem ownedStep_represents (represents : st.Represents) (step : ownedStep st call = some after) :
    after.Represents := by
  cases call with
  | stats key mask time =>
    cases step
    exact represents.trim (flowTableStats_trims _ _ _ _)
      (rewrites_flowTableStats _ _ _ _ instructionSetInit) (absurd rfl) _
  | call find call =>
    cases call with
    | add f time =>
      cases step
      exact represents.add f time
    | modify f strict time =>
      cases step
      exact represents.trim (modifyFlow_trims find st.table f strict time)
        (rewrites_modifyFlow find represents.installed f strict time)
        (fun _ => unpackRefs_carries _ _) _
    | delete f time strict =>
      cases step
      exact represents.trim (deleteFlow_trims find st.table f time strict)
        (rewrites_deleteFlow find st.table f time strict f.insts) (absurd rfl) _
    | lookup key time =>
      cases step
      exact represents.trim (flowTableLookup_trims find st.table key time)
        (rewrites_flowTableLookup find st.table key time instructionSetInit)
        (absurd rfl) _

/-! ## Exclusive ownership -/

theorem count_unpackRefs_le (next : Nat) (insts : InstructionSet) (obj : Nat) :
    (unpackRefs next insts).objs.count obj ≤
      if next ≤ obj ∧ obj < next + 2 then 1 else 0 := by
  have two : [next, next + 1].count obj ≤ if next ≤ obj ∧ obj < next + 2 then 1 else 0 := by
    simp only [List.count_cons, List.count_nil, beq_iff_eq]
    split <;> split <;> split <;> omega
  refine Nat.le_trans (List.Sublist.count_le obj ?_) two
  rw [ActionRefs.objs, unpackRefs]
  cases insts.applyAct.isEmpty <;> cases insts.writeAct.actions.isEmpty <;> simp

/-- Destroying flows moves their objects to the released ones. -/
theorem objs_flowDestroy (heap : ActionHeap) (present : List Nat) :
    (heap.flowDestroy present).objs.Perm heap.objs := by
  have parts := List.filter_append_perm (fun entry => decide (entry.1 ∈ present)) heap.insts
  have objects := parts.flatMap_right fun entry => ActionRefs.objs entry.2
  rw [List.flatMap_append] at objects
  calc (heap.flowDestroy present).objs
    _ = (heap.insts.filter fun entry => decide (entry.1 ∈ present)).flatMap
          (ActionRefs.objs ·.2) ++ (heap.freed ++
        (heap.insts.filter fun entry => !decide (entry.1 ∈ present)).flatMap
          (ActionRefs.objs ·.2)) := rfl
    _ |>.Perm _ := List.perm_append_comm.append_left _
    _ = _ := (List.append_assoc _ _ _).symm
    _ |>.Perm heap.objs := objects.append_right _

theorem eq_of_length_le_one (one : targets.length ≤ 1) {first second : Nat}
    (firstMem : first ∈ targets) (secondMem : second ∈ targets) : first = second := by
  match targets, one with
  | [only], _ => rw [List.mem_singleton.mp firstMem, List.mem_singleton.mp secondMem]

/-- A set of instructions copied into at most one flow is referred to at most once. -/
theorem count_flowAddInstructions_le {heap : ActionHeap}
    (distinct : (heap.insts.map Prod.fst).Nodup) (one : refs.objs = [] ∨ targets.length ≤ 1)
    (obj : Nat) :
    (heap.flowAddInstructions targets refs).objs.count obj ≤
      heap.objs.count obj + refs.objs.count obj := by
  obtain ⟨next, insts, freed⟩ := heap
  simp only [ActionHeap.flowAddInstructions, ActionHeap.objs, List.count_append]
  dsimp only at distinct
  induction insts with
  | nil => simp
  | cons entry rest ih =>
    rw [List.map_cons, List.nodup_cons] at distinct
    have later := ih distinct.2
    simp only [List.map_cons, List.flatMap_cons, List.count_append]
    by_cases target : entry.1 ∈ targets
    · rw [if_pos target]
      rcases one with none_ | one
      · rw [none_] at later ⊢
        simp only [List.count_nil] at later ⊢
        omega
      · -- The only target is this flow, so the others keep their pointers.
        have others : (rest.map fun other =>
            if other.1 ∈ targets then (other.1, refs) else other) = rest := by
          refine (List.map_congr_left fun other member => if_neg fun targeted => ?_).trans
            (List.map_id _)
          have same := eq_of_length_le_one one targeted target
          exact distinct.1 (same ▸ List.mem_map_of_mem member)
        rw [others]
        dsimp only
        omega
    · rw [if_neg target]
      omega

/-- Each action object has one owner, and none is released while it has one. -/
abbrev OwnedTable.Exclusive (st : OwnedTable) : Prop :=
  Horse.Container.Exclusive st.heap.next st.heap.objs

theorem OwnedTable.Exclusive.trim (exclusive : st.Exclusive) (represents : st.Represents)
    (one : refs.objs = [] ∨ targets.length ≤ 1) (more : st.heap.next ≤ next)
    (new : ∀ obj, refs.objs.count obj ≤ if st.heap.next ≤ obj ∧ obj < next then 1 else 0)
    (table : FlowTable) :
    (st.trim table targets refs next).Exclusive := by
  refine exclusive.of_count_le more fun obj => ?_
  have copied := @count_flowAddInstructions_le targets refs { st.heap with next := next }
    represents.keysDistinct one obj
  calc (st.trim table targets refs next).heap.objs.count obj
    _ = _ := (objs_flowDestroy _ table.addrs).count_eq obj
    _ ≤ st.heap.objs.count obj + refs.objs.count obj := copied
    _ ≤ _ := Nat.add_le_add_left (new obj) _

theorem OwnedTable.Exclusive.add (exclusive : st.Exclusive) (f : Flow) (time : Nat) :
    (st.add f time).Exclusive := by
  refine exclusive.of_count_le (Nat.le_add_right _ 2) fun obj => ?_
  have new := count_unpackRefs_le st.heap.next f.insts obj
  have objects : (st.add f time).heap.objs.count obj =
      st.heap.objs.count obj + (unpackRefs st.heap.next f.insts).objs.count obj := by
    simp only [OwnedTable.add, ActionHeap.objs, List.flatMap_append, List.flatMap_singleton,
      List.count_append]
    omega
  rw [objects]
  exact Nat.add_le_add_left new _

theorem objs_unpackRefs_eq_nil_iff {insts : InstructionSet} :
    (unpackRefs next insts).objs = [] ↔
      insts.applyAct = [] ∧ insts.writeAct.actions = [] := by
  have carries := unpackRefs_carries next insts
  rw [ActionRefs.objs, List.append_eq_nil_iff, Option.toList_eq_nil_iff,
    Option.toList_eq_nil_iff, carries.applyAct, carries.writeAct]

theorem length_modifyTargets_strict (find : HashFind Flow) (f : Flow) (time : Nat)
    (tables : List MiniFlowTable) : (modifyTargets find f true time tables).length ≤ 1 := by
  rw [modifyTargets, if_pos rfl]
  cases strictTarget find f time tables <;> simp

/-- A guarded call keeps the ownership exclusive. -/
theorem ownedStep_exclusive (represents : st.Represents) (exclusive : st.Exclusive)
    (guard : ModifiesOne st.table call) (step : ownedStep st call = some after) :
    after.Exclusive := by
  have unpacked := fun insts => count_unpackRefs_le st.heap.next insts
  have more := Nat.le_add_right st.heap.next 2
  have nothing : ∀ obj, (⟨none, none⟩ : ActionRefs).objs.count obj ≤
      if st.heap.next ≤ obj ∧ obj < st.heap.next then 1 else 0 := fun _ => Nat.zero_le _
  cases call with
  | stats key mask time =>
    cases step
    exact exclusive.trim represents (Or.inl rfl) (Nat.le_refl _) nothing _
  | call find call =>
    cases call with
    | add f time =>
      cases step
      exact exclusive.add f time
    | modify f strict time =>
      cases step
      refine exclusive.trim represents ?_ more (unpacked f.insts) _
      cases strict with
      | true => exact Or.inr (length_modifyTargets_strict find f time _)
      | false => exact guard.imp_left objs_unpackRefs_eq_nil_iff.mpr
    | delete f time strict =>
      cases step
      refine exclusive.trim represents (Or.inr ?_) more (unpacked f.insts) _
      exact Nat.zero_le 1
    | lookup key time =>
      cases step
      exact exclusive.trim represents (Or.inl rfl) (Nat.le_refl _) nothing _

/-! ## The actions of the installed flows -/

theorem OwnedTable.Exclusive.owner (exclusive : st.Exclusive) (represents : st.Represents)
    (fMem : f ∈ st.table.entries) (gMem : g ∈ st.table.entries) {obj : Nat}
    (ofF : st.Reaches f obj) (ofG : st.Reaches g obj) : f = g := by
  obtain ⟨fRefs, fInsts, fObj⟩ := ofF
  obtain ⟨gRefs, gInsts, gObj⟩ := ofG
  apply List.inj_on_of_nodup_map represents.installed.distinct fMem gMem
  by_contra differ
  have once := (List.nodup_append.mp exclusive.once).1
  have symmetric : Std.Symm (Function.onFun List.Disjoint fun entry : Nat × ActionRefs =>
      entry.2.objs) := ⟨fun _ _ apart _ first second => apart second first⟩
  have apart := (List.nodup_flatMap.mp once).2.forall fInsts gInsts
    (fun same => differ (congrArg Prod.fst same))
  exact apart fObj gObj

theorem OwnedTable.Exclusive.alive (exclusive : st.Exclusive) {obj : Nat}
    (reached : st.Reaches f obj) : obj ∉ st.heap.freed := by
  obtain ⟨refs, inHeap, member⟩ := reached
  intro released
  have apart := (List.nodup_append.mp exclusive.once).2.2
  exact apart obj (List.mem_flatMap.mpr ⟨_, inHeap, member⟩) obj released rfl

/-- The flows whose instructions a call does not write keep them. -/
theorem kept_trim {insts : InstructionSet}
    (rewrites : Rewrites targets insts table.entries st.table.entries)
    (member : g ∈ table.entries) (unwritten : g.addr ∉ targets) :
    ∃ h ∈ st.table.entries, h.addr = g.addr ∧ h.insts = g.insts ∧
      ∀ obj, (st.trim table targets refs next).Reaches g obj ↔ st.Reaches h obj := by
  obtain ⟨h, oldMem, sameAddr, sameInsts⟩ := rewrites g member
  rw [if_neg unwritten] at sameInsts
  refine ⟨h, oldMem, sameAddr, sameInsts.symm, fun obj => exists_congr fun new => ?_⟩
  apply and_congr_left
  intro _
  rw [mem_insts_trim, sameAddr]
  simp [unwritten, show g.addr ∈ table.addrs from List.mem_map_of_mem member]

theorem ownedStep_kept (represents : st.Represents) (step : ownedStep st call = some after)
    (member : g ∈ after.table.entries) (unwritten : g.addr ∉ call.writes st.table) :
    ∃ h ∈ st.table.entries, h.addr = g.addr ∧ h.insts = g.insts ∧
      ∀ obj, after.Reaches g obj ↔ st.Reaches h obj := by
  cases call with
  | stats key mask time =>
    cases step
    exact kept_trim (rewrites_flowTableStats _ _ _ _ instructionSetInit) member unwritten
  | call find call =>
    cases call with
    | add f time =>
      cases step
      have added := (represents.installed.wellFormed.entries_addFlow f time).mem_iff.mp member
      rcases List.mem_cons.mp added with rfl | old
      · exact absurd (List.mem_singleton.mpr rfl) unwritten
      · refine ⟨g, old, rfl, rfl, fun obj => exists_congr fun refs => ?_⟩
        apply and_congr_left
        intro _
        have other : g.addr ≠ st.table.made := fun same =>
          unwritten (List.mem_singleton.mpr same)
        simp [OwnedTable.add, other]
    | modify f strict time =>
      cases step
      exact kept_trim
        (rewrites_modifyFlow find represents.installed f strict time)
        member unwritten
    | delete f time strict =>
      cases step
      exact kept_trim (rewrites_deleteFlow _ _ _ _ _ instructionSetInit) member unwritten
    | lookup key time =>
      cases step
      exact kept_trim (rewrites_flowTableLookup _ _ _ _ instructionSetInit) member unwritten

/-- The flows that take the instructions of a non-strict modify all point to them. -/
theorem reaches_of_target (represents : st.Represents) {time addr obj : Nat}
    (isObj : obj ∈ refs.objs) (target : addr ∈ nonStrictTargets f time st.table.flows) :
    ∃ g ∈ (modFlowNonStrict st.table f time).entries, g.addr = addr ∧
      (st.trim (modFlowNonStrict st.table f time) (nonStrictTargets f time st.table.flows)
        refs next).Reaches g obj := by
  have present := nonStrictTargets_subset target
  obtain ⟨g, member, rfl⟩ := List.mem_map.mp present
  have wasThere := (nonStrictTargets_sublist f time st.table.flows).subset target
  obtain ⟨⟨_, old⟩, inHeap, rfl⟩ := List.mem_map.mp ((represents.keys g.addr).mpr wasThere)
  refine ⟨g, member, rfl, refs, ?_, isObj⟩
  exact mem_insts_trim.mpr ⟨present, old, inHeap, (if_pos target).symm⟩

/-- A non-strict modify with actions that selects two flows makes them share. -/
theorem not_owned_of_modify (represents : st.Represents) {find : HashFind Flow} {time : Nat}
    (unguarded : ¬ModifiesOne st.table (.call find (.modify f false time)))
    (step : ownedStep st (.call find (.modify f false time)) = some after) :
    ¬ActionsOwned st (.call find (.modify f false time)) after := by
  intro owned
  rw [ModifiesOne, not_or, ← @objs_unpackRefs_eq_nil_iff st.heap.next] at unguarded
  obtain ⟨actions, several⟩ := unguarded
  obtain ⟨obj, isObj⟩ := List.exists_mem_of_ne_nil _ actions
  cases step
  have once : (nonStrictTargets f time st.table.flows).Nodup :=
    represents.installed.distinct.sublist (nonStrictTargets_sublist f time st.table.flows)
  have all := fun addr => @reaches_of_target st
    (unpackRefs st.heap.next f.insts) (st.heap.next + 2) f represents time addr obj isObj
  obtain ⟨first, second, rest, targets⟩ :
      ∃ first second rest, nonStrictTargets f time st.table.flows = first :: second :: rest := by
    match nonStrictTargets f time st.table.flows, several with
    | [], several => exact absurd (Nat.zero_le 1) several
    | [_], several => exact absurd (Nat.le_refl 1) several
    | first :: second :: rest, _ => exact ⟨first, second, rest, rfl⟩
  obtain ⟨g, gMem, gAddr, gReaches⟩ := all first (by simp [targets])
  obtain ⟨h, hMem, hAddr, hReaches⟩ := all second (by simp [targets])
  have same := owned.owner g gMem h hMem obj gReaches hReaches
  rw [targets, List.nodup_cons] at once
  apply once.1
  rw [← gAddr, same, hAddr]
  exact List.mem_cons_self

/-- A call leaves every action object with one owner and alive if and only if it is not
a non-strict modify that gives actions to several flows. -/
theorem ownedStep_owned_iff (represents : st.Represents) (exclusive : st.Exclusive)
    (step : ownedStep st call = some after) :
    ActionsOwned st call after ↔ ModifiesOne st.table call := by
  constructor
  · intro owned
    by_contra unguarded
    cases call with
    | stats key mask time => exact unguarded trivial
    | call find call =>
      cases call with
      | modify f strict time =>
        cases strict with
        | true => exact unguarded trivial
        | false => exact not_owned_of_modify represents unguarded step owned
      | _ => exact unguarded trivial
  · intro guard
    have kept := ownedStep_exclusive represents exclusive guard step
    have representsAfter := ownedStep_represents represents step
    constructor
    · intro f fMem g gMem obj
      exact kept.owner representsAfter fMem gMem
    · intro f _ obj
      exact kept.alive
    · intro g member
      exact ownedStep_kept represents step member

theorem ownedStep_isSome (st : OwnedTable) (call : OwnedCall) : (ownedStep st call).isSome := by
  cases call with
  | stats key mask time => rfl
  | call find call => cases call <;> rfl

/-- Along every sequence of flow mods, lookups and statistics requests on a new table,
the installed flows own their actions exclusively and keep them until they are deleted,
if and only if no non-strict modify gives actions to several flows at once. -/
theorem actions_owned_along_iff (tableId : BitVec 8) (calls : List OwnedCall) :
    Along ownedStep
        (fun st call => ∀ after, ownedStep st call = some after → ActionsOwned st call after)
        (ownedTableNew tableId) calls ↔
      Along ownedStep (fun st call => ModifiesOne st.table call) (ownedTableNew tableId)
        calls := by
  have guarded := @along_holds_iff _ _ ownedStep (fun st call => ModifiesOne st.table call)
    (fun st => st.Represents ∧ st.Exclusive) (fun _ => True) (fun _ => True) ActionsOwned
  simp only [ownedStep_isSome, forall_const] at guarded
  apply guarded
  · intro st call after inv step owned
    have guard := (ownedStep_owned_iff inv.1 inv.2 step).mp owned
    exact ⟨ownedStep_represents inv.1 step, ownedStep_exclusive inv.1 inv.2 guard step⟩
  · intro st call after inv step
    exact ownedStep_owned_iff inv.1 inv.2 step
  · exact ⟨represents_ownedTableNew tableId, Exclusive.nil⟩

/-- A flow for what arrives on one port. -/
def portFlow (inPort : BitVec 32) : Flow :=
  { flowNew with
    key := { OflFlowKey.zero with inPort := inPort }
    mask := { OflFlowKey.zero with inPort := 0xffffffff } }

/-- A request that selects every flow and brings one output action. -/
def outputRequest : Flow :=
  { flowNew with insts := addApplyActions instructionSetInit [.output 3] }

/-- Two flows are added, both are modified by one request, and the first is deleted. -/
def sharingCalls : List OwnedCall :=
  [.call HashFind.latest (.add (portFlow 1) 0),
    .call HashFind.latest (.add (portFlow 2) 0),
    .call HashFind.latest (.modify outputRequest false 1),
    .call HashFind.latest (.delete (portFlow 1) 2 true)]

/-- The flow that stays in the table then executes a released action list. -/
theorem deleted_flow_releases_shared_actions :
    ∃ st, run ownedStep (ownedTableNew 0) sharingCalls = some st ∧
      ∃ f ∈ st.table.entries, f.insts.applyAct = [.output 3] ∧
        ∃ obj, st.Reaches f obj ∧ obj ∈ st.heap.freed := by
  refine ⟨_, rfl, flowAddInstructions { portFlow 2 with addr := 1 } outputRequest.insts, ?_,
    rfl, 4, ⟨⟨some 4, none⟩, ?_, ?_⟩, ?_⟩
  all_goals decide

end Horse.Net
