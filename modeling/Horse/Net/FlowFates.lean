import Horse.Net.StrictWalk

/-!
# What becomes of the flows of a table

Each flow of a table after a call is the flow of the same address before it, or the
flow that the call added.  Its instructions are its own or, if the call was a modify
that selected it, those of the request.  The functions `strictTarget` and
`nonStrictTargets` say which flows a modify selects.
-/

namespace Horse.Net

open Horse.Container Horse.Lib Horse.Transition

/-- The addresses of the flows of a table. -/
def FlowTable.addrs (ft : FlowTable) : List Nat :=
  ft.entries.map Flow.addr

/-- The flow whose instructions `mod_flow_strict` replaces. -/
def strictTarget (find : HashFind Flow) (f : Flow) (time : Nat) :
    List MiniFlowTable → Option Flow
  | [] => none
  | nxtMft :: rest =>
    let matched := matchStrict find f nxtMft
    if matched.2 then
      matched.1.filter fun flowFound =>
        decide (flowFound.priority = f.priority) && !flowExpired flowFound time
    else strictTarget find f time rest

/-- The addresses of the flows whose instructions `mod_flow_non_strict` replaces. -/
def nonStrictTargets (f : Flow) (time : Nat) (tables : List MiniFlowTable) : List Nat :=
  tables.flatMap fun nxtMft =>
    if isFlowNonStrictInMft f.mask nxtMft then
      (nxtMft.flows.filter fun curFlow =>
        matchNonStrict f.key f.mask curFlow.key && !flowExpired curFlow time).map Flow.addr
    else []

/-- The addresses of the flows whose instructions `modify_flow` replaces. -/
def modifyTargets (find : HashFind Flow) (f : Flow) (strict : Bool) (time : Nat)
    (tables : List MiniFlowTable) : List Nat :=
  if strict then ((strictTarget find f time tables).map Flow.addr).toList
  else nonStrictTargets f time tables

/-- What `mod_flow_strict` does with the flow it selects. -/
def rewriteFlow (f : Flow) (mft : MiniFlowTable) (flowFound : Flow) : Option MiniFlowTable :=
  some (mft.update flowFound.addr fun found => flowAddInstructions found f.insts)

/-- Every flow of `new` is a flow of `old`, with the instructions `insts` if its address
is a target. -/
def Rewrites (targets : List Nat) (insts : InstructionSet) (new old : List Flow) : Prop :=
  ∀ g ∈ new, ∃ h ∈ old, h.addr = g.addr ∧
    g.insts = if g.addr ∈ targets then insts else h.insts

/-! ## Adding a flow -/

variable {ft : FlowTable} {g f : Flow} {tables : List MiniFlowTable} {time addr : Nat}
  {mft : MiniFlowTable} {find : HashFind Flow} {key : OflFlowKey}

theorem addToEqualMasks_eq_self (fresh : f.mask ∉ tables.map MiniFlowTable.mask) :
    addToEqualMasks f tables = tables := by
  refine (List.map_congr_left fun mft member => ?_).trans (List.map_id _)
  refine if_neg fun equal => fresh ?_
  rw [flowKeyCmp_iff.mp equal]
  exact List.mem_map_of_mem member

theorem entries_addToEqualMasks (distinct : (tables.map MiniFlowTable.mask).Nodup)
    (known : f.mask ∈ tables.map MiniFlowTable.mask) :
    ((addToEqualMasks f tables).flatMap MiniFlowTable.flows).Perm
      (f :: tables.flatMap MiniFlowTable.flows) := by
  induction tables with
  | nil => cases known
  | cons mft rest ih =>
    rw [List.map_cons, List.nodup_cons] at distinct
    by_cases same : f.mask = mft.mask
    · have others : addToEqualMasks f rest = rest :=
        addToEqualMasks_eq_self (same ▸ distinct.1)
      have here : addToEqualMasks f (mft :: rest) =
          { mft with flows := mft.flows ++ [f] } :: addToEqualMasks f rest :=
        congrArg (· :: _) (if_pos (flowKeyCmp_iff.mpr same))
      rw [here, others, List.flatMap_cons, List.flatMap_cons, List.append_assoc]
      exact List.perm_middle
    · have inRest := (List.mem_cons.mp known).resolve_left same
      have here : addToEqualMasks f (mft :: rest) = mft :: addToEqualMasks f rest :=
        congrArg (· :: _) (if_neg fun equal => same (flowKeyCmp_iff.mp equal))
      rw [here, List.flatMap_cons, List.flatMap_cons]
      exact ((ih distinct.2 inRest).append_left mft.flows).trans List.perm_middle

/-- A flow added to a table is in it once. -/
theorem FlowTable.WellFormed.entries_addFlow (wellFormed : ft.WellFormed) (f : Flow) (time : Nat) :
    (Horse.Net.addFlow ft f time).entries.Perm (ft.stamp f time :: ft.entries) := by
  unfold FlowTable.entries
  rcases addFlow_flows ft f time with ⟨flowsEq, known⟩ | ⟨flowsEq, fresh⟩
  · rw [flowsEq]
    exact entries_addToEqualMasks wellFormed.masksDistinct known
  · have others : addToEqualMasks (ft.stamp f time) ft.flows = ft.flows :=
      addToEqualMasks_eq_self fresh
    rw [flowsEq, others, List.flatMap_append, List.flatMap_singleton]
    exact List.perm_append_singleton _ _

/-! ## Trimming a table -/

/-- A call that adds no flow brings no address into the table. -/
theorem Trims.addrs_sublist {new old : List MiniFlowTable} (trims : Trims new old) :
    ((new.flatMap MiniFlowTable.flows).map Flow.addr).Sublist
      ((old.flatMap MiniFlowTable.flows).map Flow.addr) := by
  induction trims with
  | nil => exact List.nil_sublist _
  | cons trimmed _ ih =>
    have here := trimmed.flows.map Prod.fst
    rw [List.map_map, List.map_map] at here
    simp only [List.flatMap_cons, List.map_append]
    exact here.append ih
  | cons_right _ ih =>
    rw [List.flatMap_cons, List.map_append]
    exact ih.trans (List.sublist_append_right _ _)

theorem flowTableStats_trims (ft : FlowTable) (key mask : OflFlowKey) (time : Nat) :
    TrimsTable (flowTableStats ft key mask time).2 ft := by
  refine ⟨trims_filterMap ?_ ft.flows, rfl⟩
  intro old new kept
  split at kept
  · exact trimmed_of_unlessEmpty kept (List.filter_sublist.map identity)
  · cases kept
    exact Trimmed.refl old

/-- What holds of a table between calls: it is well formed, and its flows have the
distinct addresses they were given when they were added. -/
structure FlowTable.Installed (ft : FlowTable) : Prop where
  wellFormed : ft.WellFormed
  distinct : ft.addrs.Nodup
  made : ∀ addr ∈ ft.addrs, addr < ft.made

theorem installed_flowTableNew (tableId : BitVec 8) : (flowTableNew tableId).Installed where
  wellFormed := wellFormed_flowTableNew tableId
  distinct := List.nodup_nil
  made := List.forall_mem_nil _

theorem FlowTable.Installed.trimmed {after : FlowTable} (installed : ft.Installed)
    (trims : TrimsTable after ft) : after.Installed := by
  have fewer : after.addrs.Sublist ft.addrs := trims.1.addrs_sublist
  constructor
  · exact installed.wellFormed.trimmed trims.1
  · exact installed.distinct.sublist fewer
  · intro addr member
    rw [trims.2]
    exact installed.made addr (fewer.subset member)

theorem FlowTable.Installed.fresh (installed : ft.Installed) :
    ft.made ∉ ft.addrs :=
  fun member => Nat.lt_irrefl _ (installed.made _ member)

theorem FlowTable.Installed.eq_of_addr (installed : ft.Installed) {e : Flow}
    (eMem : e ∈ ft.entries) (gMem : g ∈ ft.entries) (sameAddr : e.addr = g.addr) : e = g :=
  List.inj_on_of_nodup_map installed.distinct eMem gMem sameAddr

theorem FlowTable.Installed.addFlow (installed : ft.Installed) (f : Flow) (time : Nat) :
    (Horse.Net.addFlow ft f time).Installed := by
  have addrs : (Horse.Net.addFlow ft f time).addrs.Perm (ft.made :: ft.addrs) :=
    (installed.wellFormed.entries_addFlow f time).map Flow.addr
  constructor
  · exact installed.wellFormed.addFlow f time
  · exact addrs.nodup_iff.mpr (List.nodup_cons.mpr ⟨installed.fresh, installed.distinct⟩)
  · intro addr member
    rcases List.mem_cons.mp (addrs.mem_iff.mp member) with rfl | old
    · exact Nat.lt_succ_self _
    · exact Nat.lt_succ_of_lt (installed.made addr old)

/-! ## The instructions of the flows that stay -/

variable {new : MiniFlowTable} {change : Flow → Option Flow} {h : Flow}

theorem mem_unlessEmpty (kept : mft.unlessEmpty = some new) :
    new = mft := by
  unfold MiniFlowTable.unlessEmpty at kept
  split at kept
  · cases kept
  · cases kept
    rfl

theorem mem_flowTableDelFlow (kept : flowTableDelFlow mft f = some new) (member : g ∈ new.flows) :
    g ∈ mft.flows := by
  rw [mem_unlessEmpty kept] at member
  exact List.mem_of_mem_eraseP member

theorem mem_entries_filterMap {change : MiniFlowTable → Option MiniFlowTable}
    (member : g ∈ (tables.filterMap change).flatMap MiniFlowTable.flows) :
    ∃ mft ∈ tables, ∃ new, change mft = some new ∧ g ∈ new.flows := by
  obtain ⟨new, newMem, flowMem⟩ := List.mem_flatMap.mp member
  obtain ⟨mft, mftMem, changed⟩ := List.mem_filterMap.mp newMem
  exact ⟨mft, mftMem, new, changed, flowMem⟩

/-- A flow after a non-strict operation. -/
theorem mem_nonStrictLoop
    (member : g ∈ (nonStrictLoop f change tables).flatMap MiniFlowTable.flows) :
    ∃ mft ∈ tables, ∃ h ∈ mft.flows,
      if isFlowNonStrictInMft f.mask mft then change h = some g else g = h := by
  obtain ⟨mft, mftMem, new, kept, flowMem⟩ := mem_entries_filterMap member
  split at kept
  · rename_i selected
    rw [mem_unlessEmpty kept] at flowMem
    obtain ⟨h, hMem, changed⟩ := List.mem_filterMap.mp flowMem
    exact ⟨mft, mftMem, h, hMem, by rwa [if_pos selected]⟩
  · rename_i selected
    cases kept
    exact ⟨mft, mftMem, g, flowMem, by rw [if_neg selected]⟩

theorem mem_nonStrictLoop_of (mftMem : mft ∈ tables)
    (selected : isFlowNonStrictInMft f.mask mft = true) (flowMem : h ∈ mft.flows)
    (changed : change h = some g) :
    g ∈ (nonStrictLoop f change tables).flatMap MiniFlowTable.flows := by
  have kept : g ∈ mft.flows.filterMap change := List.mem_filterMap.mpr ⟨h, flowMem, changed⟩
  have nonempty : (mft.flows.filterMap change).isEmpty = false := by
    rw [List.isEmpty_eq_false_iff_exists_mem]
    exact ⟨g, kept⟩
  apply List.mem_flatMap.mpr
  refine ⟨{ mft with flows := mft.flows.filterMap change }, ?_, kept⟩
  apply List.mem_filterMap.mpr
  refine ⟨mft, mftMem, ?_⟩
  rw [if_pos selected, MiniFlowTable.unlessEmpty, nonempty]
  rfl

/-- Without targets every flow keeps its instructions. -/
theorem rewrites_nil_of_subset {insts : InstructionSet} {new old : List Flow}
    (kept : ∀ g ∈ new, g ∈ old) : Rewrites [] insts new old := by
  intro g member
  refine ⟨g, kept g member, rfl, ?_⟩
  rw [if_neg List.not_mem_nil]

/-- Where each flow after a strict operation comes from, if `act` brings in no others. -/
theorem exists_of_mem_strictLoop {kept : Flow → Flow → Prop} (refl : ∀ g, kept g g)
    {act : MiniFlowTable → Flow → Option MiniFlowTable}
    (acts : ∀ {mft flowFound new}, act mft flowFound = some new →
      ∀ g ∈ new.flows, ∃ h ∈ mft.flows, kept h g)
    (member : g ∈ (strictLoop find f time act tables).flatMap MiniFlowTable.flows) :
    ∃ h ∈ tables.flatMap MiniFlowTable.flows, kept h g := by
  induction tables with
  | nil => cases member
  | cons mft rest ih =>
    rw [strictLoop, List.flatMap_append, List.mem_append] at member
    rw [List.flatMap_cons]
    rcases member with here | later
    · obtain ⟨new, isNew, flowMem⟩ := List.mem_flatMap.mp here
      have body := Option.mem_toList.mp isNew
      unfold strictBody at body
      have inHead : ∃ h ∈ mft.flows, kept h g := by
        split at body
        · cases body
          exact ⟨g, flowMem, refl g⟩
        · split at body
          · split at body
            · exact ⟨g, mem_flowTableDelFlow body flowMem, refl g⟩
            · exact acts body g flowMem
          · cases body
            exact ⟨g, flowMem, refl g⟩
      obtain ⟨h, oldMem, isKept⟩ := inHead
      exact ⟨h, List.mem_append_left _ oldMem, isKept⟩
    · have inRest : ∃ h ∈ rest.flatMap MiniFlowTable.flows, kept h g := by
        split at later
        · exact ⟨g, later, refl g⟩
        · exact ih later
      obtain ⟨h, oldMem, isKept⟩ := inRest
      exact ⟨h, List.mem_append_right _ oldMem, isKept⟩

theorem mem_strictLoop
    (member : g ∈ (strictLoop find f time flowTableDelFlow tables).flatMap MiniFlowTable.flows) :
    g ∈ tables.flatMap MiniFlowTable.flows := by
  have origin : ∃ h ∈ tables.flatMap MiniFlowTable.flows, h = g :=
    exists_of_mem_strictLoop (fun _ => rfl)
      (fun acted g flowMem => ⟨g, mem_flowTableDelFlow acted flowMem, rfl⟩) member
  obtain ⟨h, oldMem, rfl⟩ := origin
  exact oldMem

/-- A deletion brings no flow into the table. -/
theorem mem_deleteFlow {strict : Bool} (member : g ∈ (deleteFlow find ft f time strict).entries) :
    g ∈ ft.entries := by
  cases strict with
  | true => exact mem_strictLoop member
  | false =>
    obtain ⟨mft, mftMem, h, flowMem, changed⟩ := mem_nonStrictLoop member
    have same : g = h := by
      split at changed
      · split at changed
        · cases changed
        · cases changed
          rfl
      · exact changed
    rw [same]
    exact List.mem_flatMap.mpr ⟨mft, mftMem, flowMem⟩

theorem rewrites_deleteFlow (find : HashFind Flow) (ft : FlowTable) (f : Flow) (time : Nat)
    (strict : Bool) (insts : InstructionSet) :
    Rewrites [] insts (deleteFlow find ft f time strict).entries ft.entries :=
  rewrites_nil_of_subset fun _ member => mem_deleteFlow member

/-- A request for statistics brings no flow into the table. -/
theorem mem_flowTableStats {mask : OflFlowKey}
    (member : g ∈ (flowTableStats ft key mask time).2.entries) : g ∈ ft.entries := by
  obtain ⟨mft, mftMem, new, kept, flowMem⟩ := mem_entries_filterMap member
  apply List.mem_flatMap.mpr
  refine ⟨mft, mftMem, ?_⟩
  split at kept
  · rw [mem_unlessEmpty kept] at flowMem
    exact List.mem_of_mem_filter flowMem
  · cases kept
    exact flowMem

theorem rewrites_flowTableStats (ft : FlowTable) (key mask : OflFlowKey) (time : Nat)
    (insts : InstructionSet) :
    Rewrites [] insts (flowTableStats ft key mask time).2.entries ft.entries :=
  rewrites_nil_of_subset fun _ member => mem_flowTableStats member

theorem mem_lookupLoop
    (member : g ∈ (lookupLoop find key time tables).walked.flatMap MiniFlowTable.flows) :
    g ∈ tables.flatMap MiniFlowTable.flows := by
  rw [lookupLoop_walked] at member
  obtain ⟨mft, mftMem, new, kept, flowMem⟩ := mem_entries_filterMap member
  apply List.mem_flatMap.mpr
  refine ⟨mft, mftMem, ?_⟩
  unfold lookupKept at kept
  split at kept
  · cases kept
    exact flowMem
  · split at kept
    · exact mem_flowTableDelFlow kept flowMem
    · cases kept
      exact flowMem

theorem mem_update {change : Flow → Flow} (member : g ∈ (mft.update addr change).flows) :
    ∃ h ∈ mft.flows, g = if h.addr = addr then change h else h := by
  obtain ⟨h, flowMem, changed⟩ := List.mem_map.mp member
  exact ⟨h, flowMem, changed.symm⟩

/-- Changing the flows at one address of every mini table. -/
theorem exists_of_mem_update {change : Flow → Flow}
    (member : g ∈ (tables.map fun mft => mft.update addr change).flatMap MiniFlowTable.flows) :
    ∃ h ∈ tables.flatMap MiniFlowTable.flows, g = if h.addr = addr then change h else h := by
  obtain ⟨new, newMem, flowMem⟩ := List.mem_flatMap.mp member
  obtain ⟨mft, mftMem, rfl⟩ := List.mem_map.mp newMem
  obtain ⟨h, oldMem, changed⟩ := mem_update flowMem
  exact ⟨h, List.mem_flatMap.mpr ⟨mft, mftMem, oldMem⟩, changed⟩

/-- A lookup changes the time of the last use of the flow it returns and nothing else. -/
theorem eq_of_mem_flowTableLookup (member : g ∈ (flowTableLookup find ft key time).2.entries) :
    ∃ h ∈ ft.entries,
      g = if (flowTableLookup find ft key time).1.map Flow.addr = some h.addr then
        { h with lastUsed := time } else h := by
  rw [flowTableLookup_fst]
  unfold flowTableLookup at member
  dsimp only at member
  split at member
  · rename_i kept
    rw [kept]
    exact ⟨g, mem_lookupLoop member, rfl⟩
  · rename_i f kept
    rw [kept]
    obtain ⟨h, walkedMem, changed⟩ := exists_of_mem_update member
    refine ⟨h, mem_lookupLoop walkedMem, changed.trans ?_⟩
    exact if_congr (eq_comm.trans Option.some_inj.symm) rfl rfl

theorem exists_of_mem_flowTableLookup (member : g ∈ (flowTableLookup find ft key time).2.entries) :
    ∃ h ∈ ft.entries, g = h ∨ g = { h with lastUsed := time } := by
  obtain ⟨h, oldMem, rfl⟩ := eq_of_mem_flowTableLookup member
  refine ⟨h, oldMem, ?_⟩
  split
  · exact Or.inr rfl
  · exact Or.inl rfl

theorem rewrites_flowTableLookup (find : HashFind Flow) (ft : FlowTable) (key : OflFlowKey)
    (time : Nat) (insts : InstructionSet) :
    Rewrites [] insts (flowTableLookup find ft key time).2.entries ft.entries := by
  intro g member
  obtain ⟨h, oldMem, same⟩ := exists_of_mem_flowTableLookup member
  refine ⟨h, oldMem, ?_⟩
  rw [if_neg List.not_mem_nil]
  rcases same with rfl | rfl <;> exact ⟨rfl, rfl⟩

/-! ## The instructions of the flows that a modify selects -/

theorem flows_rewriteFlow (f : Flow) (mft : MiniFlowTable) (x : Flow) :
    (rewriteFlow f mft x).toList.flatMap MiniFlowTable.flows =
      mft.flows.filterMap (changeAt x.addr fun e => some (flowAddInstructions e f.insts)) :=
  (List.flatMap_singleton _ _).trans (flows_update mft x.addr _)

/-- The flows after a strict modify, as one walk over all flows. -/
theorem entries_modFlowStrict (installed : ft.Installed) (find : HashFind Flow) (f : Flow)
    (time : Nat) :
    (modFlowStrict find ft f time).entries = ft.entries.filterMap
      (strictChange time (fun e => some (flowAddInstructions e f.insts))
        (strictNamed find f ft.flows)) :=
  entries_strictLoop (fun x _ => flows_rewriteFlow f _ x) installed.distinct

/-- A strict modify replaces the instructions of the flow it acts on, unless it drops it. -/
theorem strictTarget_eq (find : HashFind Flow) (f : Flow) (time : Nat)
    (tables : List MiniFlowTable) :
    strictTarget find f time tables =
      (strictNamed find f tables).filter fun x => !flowExpired x time := by
  induction tables with
  | nil => rfl
  | cons mft rest ih =>
    rw [strictTarget, strictNamed]
    by_cases stop : (matchStrict find f mft).2 = true
    · rw [if_pos stop, if_pos stop, Option.filter_filter]
    · rw [if_neg stop, if_neg stop, ih]

theorem rewrites_modFlowStrict (find : HashFind Flow) (installed : ft.Installed) (f : Flow)
    (time : Nat) :
    Rewrites ((strictTarget find f time ft.flows).map Flow.addr).toList f.insts
      (modFlowStrict find ft f time).entries ft.entries := by
  intro g member
  rw [entries_modFlowStrict installed] at member
  obtain ⟨h, oldMem, changed⟩ := List.mem_filterMap.mp member
  refine ⟨h, oldMem, ?_⟩
  rw [strictTarget_eq]
  cases named : strictNamed find f ft.flows with
  | none =>
    rw [named] at changed
    cases changed
    exact ⟨rfl, (if_neg List.not_mem_nil).symm⟩
  | some x =>
    rw [named, strictChange, changeAt] at changed
    by_cases isAt : h.addr = x.addr
    · rw [if_pos isAt] at changed
      cases expired : flowExpired x time with
      | true => simp [expired] at changed
      | false =>
        have rewritten : flowAddInstructions h f.insts = g := by
          simpa [expired] using changed
        subst rewritten
        exact ⟨rfl, (if_pos (by simp [expired, isAt, flowAddInstructions])).symm⟩
    · rw [if_neg isAt] at changed
      cases changed
      refine ⟨rfl, (if_neg fun target => isAt ?_).symm⟩
      obtain ⟨y, isTarget, sameAddr⟩ :=
        Option.map_eq_some_iff.mp (Option.mem_toList.mp target)
      cases (Option.filter_eq_some_iff.mp isTarget).1
      exact sameAddr.symm

theorem mem_nonStrictTargets :
    addr ∈ nonStrictTargets f time tables ↔
      ∃ mft ∈ tables, isFlowNonStrictInMft f.mask mft = true ∧ ∃ h ∈ mft.flows,
        matchNonStrict f.key f.mask h.key = true ∧ flowExpired h time = false ∧
          h.addr = addr := by
  rw [nonStrictTargets, List.mem_flatMap]
  refine exists_congr fun mft => and_congr_right fun _ => ?_
  by_cases selected : isFlowNonStrictInMft f.mask mft = true
  · simp [selected, and_assoc]
  · simp [selected]

/-- Whether a mini table is searched depends on the mask of its flows alone. -/
theorem FlowTable.WellFormed.selected_iff (wellFormed : ft.WellFormed) {other : MiniFlowTable}
    (mftMem : mft ∈ ft.flows) (flowMem : h ∈ mft.flows) (otherMem : other ∈ ft.flows)
    (inOther : h ∈ other.flows) (fmask : OflFlowKey) :
    isFlowNonStrictInMft fmask mft = isFlowNonStrictInMft fmask other := by
  have sameMask : mft.mask = other.mask := by
    rw [← wellFormed.masked mft mftMem h flowMem, wellFormed.masked other otherMem h inOther]
  rw [isFlowNonStrictInMft, sameMask, isFlowNonStrictInMft]

/-- A flow is a target of a non-strict modify if and only if the walk selects it. -/
theorem FlowTable.Installed.addr_mem_targets_iff (installed : ft.Installed)
    (mftMem : mft ∈ ft.flows) (flowMem : h ∈ mft.flows) :
    h.addr ∈ nonStrictTargets f time ft.flows ↔
      isFlowNonStrictInMft f.mask mft = true ∧
        matchNonStrict f.key f.mask h.key = true ∧ flowExpired h time = false := by
  rw [mem_nonStrictTargets]
  constructor
  · rintro ⟨other, otherMem, selected, target, targetMem, matched, fresh, sameAddr⟩
    have same : target = h :=
      List.inj_on_of_nodup_map installed.distinct
        (List.mem_flatMap.mpr ⟨other, otherMem, targetMem⟩)
        (List.mem_flatMap.mpr ⟨mft, mftMem, flowMem⟩) sameAddr
    subst same
    rw [installed.wellFormed.selected_iff mftMem flowMem otherMem targetMem]
    exact ⟨selected, matched, fresh⟩
  · rintro ⟨selected, matched, fresh⟩
    exact ⟨mft, mftMem, selected, h, flowMem, matched, fresh, rfl⟩

theorem rewrites_modFlowNonStrict (installed : ft.Installed) (f : Flow) (time : Nat) :
    Rewrites (nonStrictTargets f time ft.flows) f.insts (modFlowNonStrict ft f time).entries
      ft.entries := by
  intro g member
  obtain ⟨mft, mftMem, h, flowMem, changed⟩ := mem_nonStrictLoop member
  have targetIff := @FlowTable.Installed.addr_mem_targets_iff ft f time mft h installed mftMem
    flowMem
  refine ⟨h, List.mem_flatMap.mpr ⟨mft, mftMem, flowMem⟩, ?_⟩
  split at changed
  · rename_i selected
    split at changed
    · rename_i matched
      cases expired : flowExpired h time with
      | true => simp [expired] at changed
      | false =>
        simp only [expired, Bool.false_eq_true, if_false, Option.some.injEq] at changed
        subst changed
        exact ⟨rfl, (if_pos (targetIff.mpr ⟨selected, matched, expired⟩)).symm⟩
    · rename_i unmatched
      cases changed
      exact ⟨rfl, (if_neg fun target => unmatched (targetIff.mp target).2.1).symm⟩
  · rename_i skipped
    subst changed
    exact ⟨rfl, (if_neg fun target => skipped (targetIff.mp target).1).symm⟩

theorem rewrites_modifyFlow (find : HashFind Flow) (installed : ft.Installed) (f : Flow)
    (strict : Bool) (time : Nat) :
    Rewrites (modifyTargets find f strict time ft.flows) f.insts
      (modifyFlow find ft f strict time).entries ft.entries := by
  cases strict with
  | true => exact rewrites_modFlowStrict find installed f time
  | false => exact rewrites_modFlowNonStrict installed f time

theorem nonStrictTargets_sublist (f : Flow) (time : Nat) (tables : List MiniFlowTable) :
    (nonStrictTargets f time tables).Sublist
      ((tables.flatMap MiniFlowTable.flows).map Flow.addr) := by
  induction tables with
  | nil => exact List.Sublist.refl _
  | cons mft rest ih =>
    rw [nonStrictTargets, List.flatMap_cons, List.flatMap_cons, List.map_append]
    refine List.Sublist.append ?_ ih
    split
    · exact List.filter_sublist.map Flow.addr
    · exact List.nil_sublist _

/-- The targets of a non-strict modify stay in the table. -/
theorem nonStrictTargets_subset (target : addr ∈ nonStrictTargets f time ft.flows) :
    addr ∈ (modFlowNonStrict ft f time).addrs := by
  obtain ⟨mft, mftMem, selected, h, flowMem, matched, fresh, rfl⟩ :=
    mem_nonStrictTargets.mp target
  apply List.mem_map.mpr
  refine ⟨flowAddInstructions h f.insts, ?_, rfl⟩
  apply mem_nonStrictLoop_of mftMem selected flowMem
  simp [matched, fresh]

end Horse.Net
