import Horse.Container.HashTable
import Horse.Lib.Flow
import Horse.Transition.Run
import Mathlib.Data.BitVec
import Mathlib.Data.List.Forall2
import Mathlib.Data.Nat.Basic

/-!
# Flow tables

A flow table is a list of mini flow tables, one for each mask in use, and a mini
flow table is a hash table of flows keyed by their masked key.  A lookup masks
the packet key once for each mini table and keeps the flow of highest priority
among those the hash tables return.

The hash key does not contain the priority.  Two flows with one mask and one key
stand in the same mini table and a search returns only one of them.  The last
part of the module states the lookup an OpenFlow table is meant to do and says
on which tables the two agree.
-/

namespace Horse.Net

open Horse.Container Horse.Lib Horse.Transition

/-- `struct mini_flow_table`: the flows in insertion order. -/
structure MiniFlowTable where
  flows : List Flow
  mask : OflFlowKey
  deriving DecidableEq, Repr

/-- `struct flow_table`, with the number of flows added to it so far.  The next
flow takes that number as its address. -/
structure FlowTable where
  flows : List MiniFlowTable
  tableId : BitVec 8
  made : Nat
  deriving DecidableEq, Repr

/-- `flow_table_new`. -/
def flowTableNew (tableId : BitVec 8) : FlowTable where
  flows := []
  tableId := tableId
  made := 0

/-- All flows of a table. -/
def FlowTable.entries (ft : FlowTable) : List Flow :=
  ft.flows.flatMap MiniFlowTable.flows

/-! ## Operations -/

/-- Change the flow at one address in place. -/
def MiniFlowTable.update (mft : MiniFlowTable) (addr : Nat) (change : Flow → Flow) :
    MiniFlowTable :=
  { mft with flows := mft.flows.map fun f => if f.addr = addr then change f else f }

/-- A mini flow table is freed with its last flow. -/
def MiniFlowTable.unlessEmpty (mft : MiniFlowTable) : Option MiniFlowTable :=
  if mft.flows.isEmpty then none else some mft

/-- `flow_table_del_flow`; `none` when the mini table is freed as well. -/
def flowTableDelFlow (mft : MiniFlowTable) (f : Flow) : Option MiniFlowTable :=
  MiniFlowTable.unlessEmpty
    { mft with flows := mft.flows.eraseP fun other => other.addr == f.addr }

/-- The test of `flow_table_del_expired`. -/
def flowExpired (f : Flow) (time : Nat) : Bool :=
  (f.hardTimeout != 0 && decide (f.removeAt < time)) ||
    (f.idleTimeout != 0 &&
      decide ((f.lastUsed + f.idleTimeout * 1000000) % 2 ^ 64 < time))

/-- The variables of the loop in `flow_table_lookup`, with the mini tables it
has left behind. -/
structure LookupState where
  retFlow : Option Flow
  curPriority : Int
  walked : List MiniFlowTable

/-- The search of one mini table for the masked packet key. -/
def MiniFlowTable.search (find : HashFind Flow) (key : OflFlowKey) (mft : MiniFlowTable) :
    Option Flow :=
  find.find (fun f => f.key == applyAllMask key mft.mask) mft.flows

/-- The loop body of `flow_table_lookup`. -/
def lookupBody (find : HashFind Flow) (key : OflFlowKey) (time : Nat) (state : LookupState)
    (nxtMft : MiniFlowTable) : LookupState :=
  match nxtMft.search find key with
  | none => { state with walked := state.walked ++ [nxtMft] }
  | some flowFound =>
    if flowExpired flowFound time then
      { state with walked := state.walked ++ (flowTableDelFlow nxtMft flowFound).toList }
    else if state.curPriority < flowFound.priority then
      { retFlow := some flowFound
        curPriority := flowFound.priority
        walked := state.walked ++ [nxtMft] }
    else { state with walked := state.walked ++ [nxtMft] }

/-- The loop of `flow_table_lookup` over all mini tables. -/
def lookupLoop (find : HashFind Flow) (key : OflFlowKey) (time : Nat)
    (tables : List MiniFlowTable) : LookupState :=
  tables.foldl (lookupBody find key time) ⟨none, -1, []⟩

/-- `flow_table_lookup`: the flow returned and the table left behind. -/
def flowTableLookup (find : HashFind Flow) (ft : FlowTable) (key : OflFlowKey) (time : Nat) :
    Option Flow × FlowTable :=
  let final := lookupLoop find key time ft.flows
  match final.retFlow with
  | none => (none, { ft with flows := final.walked })
  | some f =>
    (some { f with lastUsed := time },
      { ft with
        flows := final.walked.map fun mft =>
          mft.update f.addr fun ret => { ret with lastUsed := time } })

/-- A flow as `add_flow` installs it. -/
def FlowTable.stamp (ft : FlowTable) (f : Flow) (time : Nat) : Flow :=
  { f with
    addr := ft.made
    removeAt := (f.hardTimeout * 1000000 + time) % 2 ^ 64
    lastUsed := time }

/-- `mini_flow_table_add_flow` on every mini table with the mask of the flow. -/
def addToEqualMasks (f : Flow) (tables : List MiniFlowTable) : List MiniFlowTable :=
  tables.map fun nxtMft =>
    if flowKeyCmp f.mask nxtMft.mask then { nxtMft with flows := nxtMft.flows ++ [f] }
    else nxtMft

/-- `add_flow`. -/
def addFlow (ft : FlowTable) (f : Flow) (time : Nat) : FlowTable :=
  let added := ft.flows.any fun nxtMft => flowKeyCmp f.mask nxtMft.mask
  let stamped := ft.stamp f time
  { ft with
    flows :=
      if added then addToEqualMasks stamped ft.flows
      else addToEqualMasks stamped ft.flows ++ [⟨[stamped], stamped.mask⟩]
    made := ft.made + 1 }

/-- `match_strict`: the flow found and the flag that stops the walk. -/
def matchStrict (find : HashFind Flow) (f : Flow) (mft : MiniFlowTable) : Option Flow × Bool :=
  if flowKeyCmp f.mask mft.mask then
    (find.find (fun other => other.key == f.key) mft.flows, true)
  else (none, false)

/-- What the two strict operations do to one mini table; `act` is applied to an
unexpired flow of equal priority. -/
def strictBody (f : Flow) (time : Nat) (act : MiniFlowTable → Flow → Option MiniFlowTable)
    (nxtMft : MiniFlowTable) : Option Flow → Option MiniFlowTable
  | none => some nxtMft
  | some flowFound =>
    if flowFound.priority = f.priority then
      if flowExpired flowFound time then flowTableDelFlow nxtMft flowFound
      else act nxtMft flowFound
    else some nxtMft

/-- The walk of the two strict operations. -/
def strictLoop (find : HashFind Flow) (f : Flow) (time : Nat)
    (act : MiniFlowTable → Flow → Option MiniFlowTable) :
    List MiniFlowTable → List MiniFlowTable
  | [] => []
  | nxtMft :: rest =>
    let matched := matchStrict find f nxtMft
    (strictBody f time act nxtMft matched.1).toList ++
      if matched.2 then rest else strictLoop find f time act rest

/-- `mod_flow_strict`. -/
def modFlowStrict (find : HashFind Flow) (ft : FlowTable) (f : Flow) (time : Nat) : FlowTable :=
  let act := fun (mft : MiniFlowTable) (flowFound : Flow) =>
    some (mft.update flowFound.addr fun found => flowAddInstructions found f.insts)
  { ft with flows := strictLoop find f time act ft.flows }

/-- `del_flow_strict`. -/
def delFlowStrict (find : HashFind Flow) (ft : FlowTable) (f : Flow) (time : Nat) : FlowTable :=
  { ft with flows := strictLoop find f time flowTableDelFlow ft.flows }

/-- `is_flow_non_strict_in_mft`. -/
def isFlowNonStrictInMft (fmask : OflFlowKey) (mft : MiniFlowTable) : Bool :=
  flowKeyCmp (applyAllMask mft.mask fmask) fmask

/-- `match_non_strict`. -/
def matchNonStrict (key1 key1Mask key2 : OflFlowKey) : Bool :=
  flowKeyCmp (applyAllMask key2 key1Mask) key1

/-- Walk every mini table that can hold a flow of the request and replace each
of its flows. -/
def nonStrictLoop (f : Flow) (change : Flow → Option Flow) (tables : List MiniFlowTable) :
    List MiniFlowTable :=
  tables.filterMap fun nxtMft =>
    if isFlowNonStrictInMft f.mask nxtMft then
      MiniFlowTable.unlessEmpty { nxtMft with flows := nxtMft.flows.filterMap change }
    else some nxtMft

/-- `mod_flow_non_strict`. -/
def modFlowNonStrict (ft : FlowTable) (f : Flow) (time : Nat) : FlowTable :=
  let change := fun (curFlow : Flow) =>
    if matchNonStrict f.key f.mask curFlow.key then
      if flowExpired curFlow time then none else some (flowAddInstructions curFlow f.insts)
    else some curFlow
  { ft with flows := nonStrictLoop f change ft.flows }

/-- `del_flow_non_strict`, which does not look at the time. -/
def delFlowNonStrict (ft : FlowTable) (f : Flow) : FlowTable :=
  let change := fun (flow : Flow) =>
    if matchNonStrict f.key f.mask flow.key then none else some flow
  { ft with flows := nonStrictLoop f change ft.flows }

/-- `modify_flow`. -/
def modifyFlow (find : HashFind Flow) (ft : FlowTable) (f : Flow) (strict : Bool) (time : Nat) :
    FlowTable :=
  if strict then modFlowStrict find ft f time else modFlowNonStrict ft f time

/-- `delete_flow`. -/
def deleteFlow (find : HashFind Flow) (ft : FlowTable) (f : Flow) (time : Nat) (strict : Bool) :
    FlowTable :=
  if strict then delFlowStrict find ft f time else delFlowNonStrict ft f

/-- The test with which `flow_table_stats` selects a flow. -/
def statsSelects (key mask : OflFlowKey) (mft : MiniFlowTable) (curFlow : Flow) : Bool :=
  isFlowNonStrictInMft mask mft && matchNonStrict key mask curFlow.key

/-- `flow_table_stats`: the flows of a request, and the table without those of
them that have expired. -/
def flowTableStats (ft : FlowTable) (key mask : OflFlowKey) (time : Nat) :
    List Flow × FlowTable :=
  (ft.flows.flatMap fun nxtMft =>
      nxtMft.flows.filter fun f => statsSelects key mask nxtMft f && !flowExpired f time,
    { ft with
      flows := ft.flows.filterMap fun nxtMft =>
        if isFlowNonStrictInMft mask nxtMft then
          MiniFlowTable.unlessEmpty
            { nxtMft with
              flows := nxtMft.flows.filter fun f =>
                !(statsSelects key mask nxtMft f && flowExpired f time) }
        else some nxtMft })

/-- The calls made on a flow table. -/
inductive FlowTableCall
  | add (f : Flow) (time : Nat)
  | modify (f : Flow) (strict : Bool) (time : Nat)
  | delete (f : Flow) (time : Nat) (strict : Bool)
  | lookup (key : OflFlowKey) (time : Nat)

/-- One call, together with the way the hash tables answer during it. -/
def flowTableStep : Step FlowTable (HashFind Flow × FlowTableCall)
  | ft, (_, .add f time) => some (addFlow ft f time)
  | ft, (find, .modify f strict time) => some (modifyFlow find ft f strict time)
  | ft, (find, .delete f time strict) => some (deleteFlow find ft f time strict)
  | ft, (find, .lookup key time) => some (flowTableLookup find ft key time).2

/-! ## The representation invariant -/

/-- The part of a flow that no operation changes. -/
def identity (f : Flow) : Nat × OflFlowKey := (f.addr, f.mask)

/-- A mini table after an operation that adds no flow. -/
structure Trimmed (new old : MiniFlowTable) : Prop where
  mask : new.mask = old.mask
  flows : (new.flows.map identity).Sublist (old.flows.map identity)
  nonempty : old.flows ≠ [] → new.flows ≠ []

/-- The mini tables after an operation that adds no flow: some are gone, the
others are trimmed. -/
abbrev Trims (new old : List MiniFlowTable) : Prop :=
  List.SublistForall₂ Trimmed new old

/-- A table after a call that adds no flow. -/
abbrev TrimsTable (after ft : FlowTable) : Prop :=
  Trims after.flows ft.flows ∧ after.made = ft.made

theorem Trimmed.refl (mft : MiniFlowTable) : Trimmed mft mft :=
  ⟨rfl, List.Sublist.refl _, id⟩

variable {ft : FlowTable} {f : Flow} {find : HashFind Flow} {key : OflFlowKey} {time : Nat}
  {new old mft : MiniFlowTable} {state : LookupState} {seen : List Flow}

theorem Trimmed.trans {middle : MiniFlowTable} (first : Trimmed new middle)
    (second : Trimmed middle old) : Trimmed new old :=
  ⟨first.mask.trans second.mask, first.flows.trans second.flows,
    fun nonempty => first.nonempty (second.nonempty nonempty)⟩

instance : IsTrans MiniFlowTable Trimmed :=
  ⟨fun _ _ _ => Trimmed.trans⟩

instance : Std.Refl Trimmed :=
  ⟨Trimmed.refl⟩

theorem Trimmed.update (mft : MiniFlowTable) (addr : Nat) {change : Flow → Flow}
    (keeps : ∀ f, identity (change f) = identity f) : Trimmed (mft.update addr change) mft where
  mask := rfl
  flows := by
    have same : (mft.update addr change).flows.map identity = mft.flows.map identity := by
      simp only [MiniFlowTable.update, List.map_map]
      apply List.map_congr_left
      intro f _
      by_cases atAddr : f.addr = addr <;> simp [atAddr, keeps]
    rw [same]
  nonempty := by simp [MiniFlowTable.update]

theorem trimmed_of_unlessEmpty {flows : List Flow}
    (kept : MiniFlowTable.unlessEmpty { old with flows := flows } = some new)
    (sublist : (flows.map identity).Sublist (old.flows.map identity)) : Trimmed new old := by
  unfold MiniFlowTable.unlessEmpty at kept
  split at kept
  · cases kept
  · rename_i nonempty
    cases kept
    exact ⟨rfl, sublist, fun _ empty => nonempty (List.isEmpty_iff.mpr empty)⟩

theorem trimmed_of_flowTableDelFlow (kept : flowTableDelFlow old f = some new) : Trimmed new old :=
  trimmed_of_unlessEmpty kept (List.eraseP_sublist.map identity)

/-- Keeping a trimmed mini table, or none, in front of trimmed ones. -/
theorem Trims.cons {kept : Option MiniFlowTable} {rest oldRest : List MiniFlowTable}
    (head : ∀ new, kept = some new → Trimmed new old) (tail : Trims rest oldRest) :
    Trims (kept.toList ++ rest) (old :: oldRest) := by
  cases kept with
  | none => exact List.SublistForall₂.cons_right tail
  | some new => exact List.SublistForall₂.cons (head new rfl) tail

theorem trims_filterMap {change : MiniFlowTable → Option MiniFlowTable}
    (trims : ∀ {old new}, change old = some new → Trimmed new old)
    (tables : List MiniFlowTable) : Trims (tables.filterMap change) tables := by
  induction tables with
  | nil => exact List.SublistForall₂.nil
  | cons old rest ih =>
    cases changed : change old with
    | none =>
      rw [List.filterMap_cons_none changed]
      exact List.SublistForall₂.cons_right ih
    | some new =>
      rw [List.filterMap_cons_some changed]
      exact List.SublistForall₂.cons (trims changed) ih

/-- What a lookup leaves of a mini table: a flow that is found expired is deleted. -/
def lookupKept (find : HashFind Flow) (key : OflFlowKey) (time : Nat) (mft : MiniFlowTable) :
    Option MiniFlowTable :=
  match mft.search find key with
  | none => some mft
  | some found => if flowExpired found time then flowTableDelFlow mft found else some mft

theorem lookupBody_walked :
    (lookupBody find key time state mft).walked =
      state.walked ++ (lookupKept find key time mft).toList := by
  unfold lookupBody lookupKept
  cases mft.search find key with
  | none => rfl
  | some found =>
    dsimp only
    split
    · rfl
    · split <;> rfl

theorem lookupLoop_walked (tables : List MiniFlowTable) :
    (lookupLoop find key time tables).walked = tables.filterMap (lookupKept find key time) := by
  -- Generalised over the state in which the walk enters the remaining tables.
  suffices walk : ∀ state : LookupState,
      (tables.foldl (lookupBody find key time) state).walked =
        state.walked ++ tables.filterMap (lookupKept find key time) from walk ⟨none, -1, []⟩
  induction tables with
  | nil => simp
  | cons mft rest ih =>
    intro state
    rw [List.foldl_cons, ih, lookupBody_walked, List.append_assoc]
    cases kept : lookupKept find key time mft with
    | none => simp [kept]
    | some new => simp [kept]

theorem trimmed_of_lookupKept (kept : lookupKept find key time old = some new) :
    Trimmed new old := by
  unfold lookupKept at kept
  split at kept
  · cases kept
    exact Trimmed.refl _
  · split at kept
    · exact trimmed_of_flowTableDelFlow kept
    · cases kept
      exact Trimmed.refl _

theorem lookupLoop_trims (tables : List MiniFlowTable) :
    Trims (lookupLoop find key time tables).walked tables := by
  rw [lookupLoop_walked]
  exact trims_filterMap trimmed_of_lookupKept tables

theorem flowTableLookup_trims (find : HashFind Flow) (ft : FlowTable) (key : OflFlowKey)
    (time : Nat) : TrimsTable (flowTableLookup find ft key time).2 ft := by
  have walked := @lookupLoop_trims find key time ft.flows
  simp only [flowTableLookup]
  split
  · exact ⟨walked, rfl⟩
  · rename_i f _
    refine ⟨IsTrans.trans _ _ _ ?_ walked, rfl⟩
    rw [← List.filterMap_eq_map]
    apply trims_filterMap
    rintro old new ⟨⟩
    exact Trimmed.update old f.addr fun _ => rfl

variable {act : MiniFlowTable → Flow → Option MiniFlowTable} {after : FlowTable}
  {found returned : Flow}

theorem trimmed_of_strictBody
    (trims : ∀ {old new found}, act old found = some new → Trimmed new old)
    {matched : Option Flow} (kept : strictBody f time act old matched = some new) :
    Trimmed new old := by
  cases matched with
  | none =>
    cases kept
    exact Trimmed.refl _
  | some flowFound =>
    simp only [strictBody] at kept
    split at kept
    · split at kept
      · exact trimmed_of_flowTableDelFlow kept
      · exact trims kept
    · cases kept
      exact Trimmed.refl _

theorem strictLoop_trims (find : HashFind Flow) (f : Flow) (time : Nat)
    (trims : ∀ {old new found}, act old found = some new → Trimmed new old)
    (tables : List MiniFlowTable) : Trims (strictLoop find f time act tables) tables := by
  induction tables with
  | nil => exact List.SublistForall₂.nil
  | cons mft rest ih =>
    rw [strictLoop]
    apply Trims.cons
    · exact fun new kept => trimmed_of_strictBody trims kept
    · by_cases stop : (matchStrict find f mft).2 = true
      · rw [if_pos stop]
        exact refl rest
      · rw [if_neg stop]
        exact ih

theorem nonStrictLoop_trims (f : Flow) {change : Flow → Option Flow}
    (keeps : ∀ {old new}, change old = some new → identity new = identity old)
    (tables : List MiniFlowTable) : Trims (nonStrictLoop f change tables) tables := by
  apply trims_filterMap
  intro old new kept
  split at kept
  · refine trimmed_of_unlessEmpty kept ?_
    clear kept
    induction old.flows with
    | nil => exact List.Sublist.refl _
    | cons flow rest ih =>
      cases changed : change flow with
      | none =>
        rw [List.filterMap_cons_none changed]
        exact ih.cons _
      | some new =>
        rw [List.filterMap_cons_some changed, List.map_cons, List.map_cons, keeps changed]
        exact ih.cons_cons _
  · cases kept
    exact Trimmed.refl old

theorem modifyFlow_trims (find : HashFind Flow) (ft : FlowTable) (f : Flow) (strict : Bool)
    (time : Nat) : TrimsTable (modifyFlow find ft f strict time) ft := by
  cases strict with
  | true =>
    refine ⟨strictLoop_trims find f time ?_ ft.flows, rfl⟩
    rintro old new found ⟨⟩
    exact Trimmed.update old found.addr fun _ => rfl
  | false =>
    refine ⟨nonStrictLoop_trims f ?_ ft.flows, rfl⟩
    intro old new changed
    split at changed
    · split at changed
      · cases changed
      · cases changed
        rfl
    · cases changed
      rfl

theorem deleteFlow_trims (find : HashFind Flow) (ft : FlowTable) (f : Flow) (time : Nat)
    (strict : Bool) : TrimsTable (deleteFlow find ft f time strict) ft := by
  cases strict with
  | true => exact ⟨strictLoop_trims find f time trimmed_of_flowTableDelFlow ft.flows, rfl⟩
  | false =>
    refine ⟨nonStrictLoop_trims f ?_ ft.flows, rfl⟩
    intro old new changed
    split at changed
    · cases changed
    · cases changed
      rfl

/-- What a call does to a table: it adds a flow, or trims the mini tables. -/
theorem flowTableStep_cases {label : HashFind Flow × FlowTableCall}
    (step : flowTableStep ft label = some after) :
    (∃ f time, after = addFlow ft f time) ∨ TrimsTable after ft := by
  obtain ⟨find, call⟩ := label
  cases call with
  | add f time =>
    cases step
    exact Or.inl ⟨f, time, rfl⟩
  | modify f strict time =>
    cases step
    exact Or.inr (modifyFlow_trims find ft f strict time)
  | delete f time strict =>
    cases step
    exact Or.inr (deleteFlow_trims find ft f time strict)
  | lookup key time =>
    cases step
    exact Or.inr (flowTableLookup_trims find ft key time)

/-- What holds of a flow table between calls: one mini table for each mask, none
of them empty, and every flow in the mini table of its own mask. -/
structure FlowTable.WellFormed (ft : FlowTable) : Prop where
  masksDistinct : (ft.flows.map MiniFlowTable.mask).Nodup
  nonempty : ∀ mft ∈ ft.flows, mft.flows ≠ []
  masked : ∀ mft ∈ ft.flows, ∀ f ∈ mft.flows, f.mask = mft.mask

theorem wellFormed_flowTableNew (tableId : BitVec 8) : (flowTableNew tableId).WellFormed where
  masksDistinct := List.nodup_nil
  nonempty := fun _ member => absurd member List.not_mem_nil
  masked := fun _ member => absurd member List.not_mem_nil

theorem Trims.masks_sublist {new old : List MiniFlowTable} (trims : Trims new old) :
    (new.map MiniFlowTable.mask).Sublist (old.map MiniFlowTable.mask) := by
  induction trims with
  | nil => exact List.nil_sublist _
  | cons trimmed _ ih =>
    rw [List.map_cons, List.map_cons, trimmed.mask]
    exact ih.cons_cons _
  | cons_right _ ih => exact ih.cons _

theorem Trims.exists_old {new old : List MiniFlowTable} (trims : Trims new old)
    (member : mft ∈ new) : ∃ source ∈ old, Trimmed mft source := by
  induction trims with
  | nil => exact absurd member List.not_mem_nil
  | cons trimmed _ ih =>
    rcases List.mem_cons.mp member with rfl | member
    · exact ⟨_, List.mem_cons_self, trimmed⟩
    · obtain ⟨source, sourceMem, related⟩ := ih member
      exact ⟨source, List.mem_cons_of_mem _ sourceMem, related⟩
  | cons_right _ ih =>
    obtain ⟨source, sourceMem, related⟩ := ih member
    exact ⟨source, List.mem_cons_of_mem _ sourceMem, related⟩

theorem FlowTable.WellFormed.trimmed (wellFormed : ft.WellFormed)
    (trims : Trims after.flows ft.flows) : after.WellFormed where
  masksDistinct := wellFormed.masksDistinct.sublist trims.masks_sublist
  nonempty := by
    intro mft member
    obtain ⟨source, sourceMem, trimmed⟩ := trims.exists_old member
    exact trimmed.nonempty (wellFormed.nonempty source sourceMem)
  masked := by
    intro mft member f flowMem
    obtain ⟨source, sourceMem, trimmed⟩ := trims.exists_old member
    have kept := trimmed.flows.subset (List.mem_map_of_mem flowMem)
    obtain ⟨old, oldMem, same⟩ := List.mem_map.mp kept
    calc f.mask = old.mask := (congrArg Prod.snd same).symm
      _ = source.mask := wellFormed.masked source sourceMem old oldMem
      _ = mft.mask := trimmed.mask.symm

theorem mem_addToEqualMasks {tables : List MiniFlowTable}
    (member : mft ∈ addToEqualMasks f tables) :
    mft ∈ tables ∨ ∃ old ∈ tables, f.mask = old.mask ∧
      mft = { old with flows := old.flows ++ [f] } := by
  obtain ⟨old, oldMem, rfl⟩ := List.mem_map.mp member
  by_cases equal : flowKeyCmp f.mask old.mask = true
  · rw [if_pos equal]
    exact Or.inr ⟨old, oldMem, flowKeyCmp_iff.mp equal, rfl⟩
  · rw [if_neg equal]
    exact Or.inl oldMem

theorem masks_addToEqualMasks (f : Flow) (tables : List MiniFlowTable) :
    (addToEqualMasks f tables).map MiniFlowTable.mask = tables.map MiniFlowTable.mask := by
  simp only [addToEqualMasks, List.map_map]
  apply List.map_congr_left
  intro mft _
  simp only [Function.comp]
  split <;> rfl

theorem addFlow_flows (ft : FlowTable) (f : Flow) (time : Nat) :
    (addFlow ft f time).flows = addToEqualMasks (ft.stamp f time) ft.flows ∧
        f.mask ∈ ft.flows.map MiniFlowTable.mask ∨
      (addFlow ft f time).flows =
          addToEqualMasks (ft.stamp f time) ft.flows ++ [⟨[ft.stamp f time], f.mask⟩] ∧
        f.mask ∉ ft.flows.map MiniFlowTable.mask := by
  have anyIff : (ft.flows.any fun nxtMft => flowKeyCmp f.mask nxtMft.mask) = true ↔
      f.mask ∈ ft.flows.map MiniFlowTable.mask := by
    simp only [List.any_eq_true, List.mem_map, flowKeyCmp_iff]
    exact exists_congr fun mft => and_congr_right fun _ => eq_comm
  by_cases added : f.mask ∈ ft.flows.map MiniFlowTable.mask
  · left
    exact ⟨if_pos (anyIff.mpr added), added⟩
  · right
    exact ⟨if_neg fun any => added (anyIff.mp any), added⟩

theorem FlowTable.WellFormed.addFlow (wellFormed : ft.WellFormed) (f : Flow) (time : Nat) :
    (addFlow ft f time).WellFormed := by
  have old : ∀ mft ∈ addToEqualMasks (ft.stamp f time) ft.flows,
      mft.flows ≠ [] ∧ ∀ g ∈ mft.flows, g.mask = mft.mask := by
    intro mft member
    rcases mem_addToEqualMasks member with same | ⟨source, sourceMem, maskEq, rfl⟩
    · exact ⟨wellFormed.nonempty mft same, wellFormed.masked mft same⟩
    · constructor
      · simp
      · intro g flowMem
        rcases List.mem_append.mp flowMem with before | new
        · exact wellFormed.masked source sourceMem g before
        · rw [List.mem_singleton.mp new]
          exact maskEq
  rcases addFlow_flows ft f time with ⟨flowsEq, -⟩ | ⟨flowsEq, fresh⟩
  · constructor
    · rw [flowsEq, masks_addToEqualMasks]
      exact wellFormed.masksDistinct
    · rw [flowsEq]
      exact fun mft member => (old mft member).1
    · rw [flowsEq]
      exact fun mft member => (old mft member).2
  · constructor
    · rw [flowsEq, List.map_append, masks_addToEqualMasks, List.map_singleton]
      exact wellFormed.masksDistinct.append (List.nodup_singleton _)
        (List.disjoint_singleton.mpr fresh)
    · intro mft member
      rw [flowsEq, List.mem_append, List.mem_singleton] at member
      rcases member with before | rfl
      · exact (old mft before).1
      · simp
    · intro mft member
      rw [flowsEq, List.mem_append, List.mem_singleton] at member
      rcases member with before | rfl
      · exact (old mft before).2
      · intro g flowMem
        rw [List.mem_singleton.mp flowMem]
        rfl

/-- The representation invariant holds after every sequence of calls. -/
theorem wellFormed_run {tableId : BitVec 8} {calls : List (HashFind Flow × FlowTableCall)}
    (ran : run flowTableStep (flowTableNew tableId) calls = some ft) :
    ft.WellFormed := by
  refine run_invariant ?_ (wellFormed_flowTableNew tableId) (along_true _ _ calls) ran
  intro before label after wellFormed _ step
  rcases flowTableStep_cases step with ⟨f, time, rfl⟩ | ⟨trims, -⟩
  · exact wellFormed.addFlow f time
  · exact wellFormed.trimmed trims

/-! ## What a lookup returns -/

/-- The unexpired flow that the search of a mini table yields. -/
def MiniFlowTable.candidate (find : HashFind Flow) (key : OflFlowKey) (time : Nat)
    (mft : MiniFlowTable) : Option Flow :=
  (mft.search find key).filter fun f => !flowExpired f time

theorem MiniFlowTable.candidate_eq_some_iff :
    mft.candidate find key time = some f ↔
      mft.search find key = some f ∧ flowExpired f time = false := by
  simp [candidate, Option.filter_eq_some_iff]

/-- The loop variables after a walk that met the candidates `seen`: the flow kept
is one of highest priority. -/
def LookupState.Tracks (state : LookupState) (seen : List Flow) : Prop :=
  match state.retFlow with
  | none => seen = [] ∧ state.curPriority = -1
  | some f => f ∈ seen ∧ (∀ g ∈ seen, g.priority ≤ f.priority) ∧
      state.curPriority = f.priority

theorem LookupState.Tracks.lower (tracks : state.Tracks seen)
    (notHigher : ¬state.curPriority < found.priority) :
    state.Tracks (seen ++ [found]) := by
  unfold Tracks at tracks ⊢
  cases kept : state.retFlow with
  | none =>
    rw [kept] at tracks
    have start := tracks.2
    omega
  | some f =>
    rw [kept] at tracks
    obtain ⟨member, highest, current⟩ := tracks
    refine ⟨List.mem_append_left _ member, ?_, current⟩
    intro g gMem
    rcases List.mem_append.mp gMem with before | new
    · exact highest g before
    · rw [List.mem_singleton.mp new]
      omega

theorem LookupState.Tracks.higher {walked : List MiniFlowTable} (tracks : state.Tracks seen)
    (isHigher : state.curPriority < found.priority) :
    LookupState.Tracks ⟨some found, found.priority, walked⟩ (seen ++ [found]) := by
  refine ⟨List.mem_append_right _ (List.mem_singleton.mpr rfl), ?_, rfl⟩
  intro g gMem
  rcases List.mem_append.mp gMem with before | new
  · unfold Tracks at tracks
    cases kept : state.retFlow with
    | none =>
      rw [kept] at tracks
      rw [tracks.1] at before
      exact absurd before List.not_mem_nil
    | some f =>
      rw [kept] at tracks
      obtain ⟨-, highest, current⟩ := tracks
      have below := highest g before
      omega
  · rw [List.mem_singleton.mp new]

/-- One turn of the lookup loop. -/
theorem LookupState.Tracks.body (tracks : state.Tracks seen) (find : HashFind Flow)
    (key : OflFlowKey) (time : Nat) (mft : MiniFlowTable) :
    (lookupBody find key time state mft).Tracks
      (seen ++ (mft.candidate find key time).toList) := by
  unfold lookupBody MiniFlowTable.candidate
  cases mft.search find key with
  | none => simpa [Tracks] using tracks
  | some found =>
    by_cases expired : flowExpired found time = true
    · simpa [expired, Option.filter, Tracks] using tracks
    · simp only [expired, Option.filter, Bool.not_false, if_true]
      by_cases isHigher : state.curPriority < found.priority
      · simpa [isHigher] using tracks.higher isHigher
      · simpa [isHigher, Tracks] using tracks.lower isHigher

theorem lookupLoop_tracks (find : HashFind Flow) (key : OflFlowKey) (time : Nat)
    (tables : List MiniFlowTable) :
    (lookupLoop find key time tables).Tracks
      (tables.filterMap (MiniFlowTable.candidate find key time)) := by
  -- The walk extends what was seen before it by the candidates it meets.
  suffices walk : ∀ (state : LookupState) (seen : List Flow), state.Tracks seen →
      (tables.foldl (lookupBody find key time) state).Tracks
        (seen ++ tables.filterMap (MiniFlowTable.candidate find key time)) from
    walk ⟨none, -1, []⟩ [] ⟨rfl, rfl⟩
  induction tables with
  | nil =>
    intro state seen tracks
    simpa using tracks
  | cons mft rest ih =>
    intro state seen tracks
    have next := ih _ _ (tracks.body find key time mft)
    cases found : mft.candidate find key time with
    | none =>
      rw [List.filterMap_cons_none found]
      simpa [found] using next
    | some f =>
      rw [List.filterMap_cons_some found]
      simpa [found] using next

theorem flowTableLookup_fst (find : HashFind Flow) (ft : FlowTable) (key : OflFlowKey)
    (time : Nat) :
    (flowTableLookup find ft key time).1 =
      (lookupLoop find key time ft.flows).retFlow.map fun f => { f with lastUsed := time } := by
  simp only [flowTableLookup]
  split <;> simp [*]

/-- The flow returned is one that a search has found and that has not expired, marked as
used. -/
theorem flowTableLookup_candidate (result : (flowTableLookup find ft key time).1 = some returned) :
    ∃ f ∈ ft.entries, flowExpired f time = false ∧ returned = { f with lastUsed := time } := by
  rw [flowTableLookup_fst] at result
  obtain ⟨f, kept, rfl⟩ := Option.map_eq_some_iff.mp result
  have tracks := lookupLoop_tracks find key time ft.flows
  rw [LookupState.Tracks, kept] at tracks
  obtain ⟨mft, tableMem, isCandidate⟩ := List.mem_filterMap.mp tracks.1
  obtain ⟨searched, unexpired⟩ := MiniFlowTable.candidate_eq_some_iff.mp isCandidate
  exact ⟨f, List.mem_flatMap.mpr ⟨mft, tableMem, (find.found searched).1⟩, unexpired, rfl⟩

/-- The flow returned is one of the table, marked as used. -/
theorem flowTableLookup_mem (result : (flowTableLookup find ft key time).1 = some returned) :
    ∃ f ∈ ft.entries, returned = { f with lastUsed := time } := by
  obtain ⟨f, member, -, isReturned⟩ := flowTableLookup_candidate result
  exact ⟨f, member, isReturned⟩

/-! ## Agreement with the OpenFlow lookup -/

/-- The packet key reduced by the mask of the flow is the key of the flow. -/
def Matches (key : OflFlowKey) (f : Flow) : Prop :=
  f.key = applyAllMask key f.mask

/-- A flow that may be returned for a packet. -/
def Eligible (key : OflFlowKey) (time : Nat) (f : Flow) : Prop :=
  Matches key f ∧ flowExpired f time = false

/-- The lookup does what an OpenFlow table is meant to do: it returns a flow
exactly if the table holds an unexpired flow that matches, and then one of
highest priority among those. -/
def LookupAgrees (find : HashFind Flow) (ft : FlowTable) (key : OflFlowKey) (time : Nat) :
    Prop :=
  let result := (flowTableLookup find ft key time).1
  (result.isSome = true ↔ ∃ f ∈ ft.entries, Eligible key time f) ∧
    ∀ returned, result = some returned →
      ∃ f ∈ ft.entries, Eligible key time f ∧ returned = { f with lastUsed := time } ∧
        ∀ other ∈ ft.entries, Eligible key time other → other.priority ≤ f.priority

/-- No eligible flow is hidden: for each there is a matching pair of mask and key
under which every flow is unexpired and has at least its priority. -/
def Unshadowed (ft : FlowTable) (key : OflFlowKey) (time : Nat) : Prop :=
  ∀ f ∈ ft.entries, Eligible key time f →
    ∃ g ∈ ft.entries, Matches key g ∧
      ∀ other ∈ ft.entries, other.mask = g.mask → other.key = g.key →
        flowExpired other time = false ∧ f.priority ≤ other.priority

theorem FlowTable.mem_entries :
    f ∈ ft.entries ↔ ∃ mft ∈ ft.flows, f ∈ mft.flows :=
  List.mem_flatMap

/-- A flow lies in the mini table that has its mask. -/
theorem FlowTable.WellFormed.mem_of_mask_eq (wellFormed : ft.WellFormed)
    (tableMem : mft ∈ ft.flows) (member : f ∈ ft.entries) (maskEq : f.mask = mft.mask) :
    f ∈ mft.flows := by
  obtain ⟨home, homeMem, flowMem⟩ := FlowTable.mem_entries.mp member
  have sameMask : home.mask = mft.mask :=
    (wellFormed.masked home homeMem f flowMem).symm.trans maskEq
  rw [List.inj_on_of_nodup_map wellFormed.masksDistinct homeMem tableMem sameMask] at flowMem
  exact flowMem

/-- A search that succeeds yields a flow of the mini table that matches. -/
theorem FlowTable.WellFormed.matches_of_search (wellFormed : ft.WellFormed)
    (tableMem : mft ∈ ft.flows) (searched : mft.search find key = some f) :
    f ∈ mft.flows ∧ f.mask = mft.mask ∧ Matches key f := by
  obtain ⟨flowMem, keyEq⟩ := find.found searched
  have maskEq := wellFormed.masked mft tableMem f flowMem
  refine ⟨flowMem, maskEq, ?_⟩
  rw [Matches, maskEq]
  exact beq_iff_eq.mp keyEq

theorem FlowTable.WellFormed.eligible_of_candidate (wellFormed : ft.WellFormed)
    (found : f ∈ ft.flows.filterMap (MiniFlowTable.candidate find key time)) :
    f ∈ ft.entries ∧ Eligible key time f := by
  obtain ⟨mft, tableMem, isCandidate⟩ := List.mem_filterMap.mp found
  obtain ⟨searched, unexpired⟩ := MiniFlowTable.candidate_eq_some_iff.mp isCandidate
  obtain ⟨flowMem, -, matched⟩ := wellFormed.matches_of_search tableMem searched
  exact ⟨FlowTable.mem_entries.mpr ⟨mft, tableMem, flowMem⟩, matched, unexpired⟩

/-- With one way of searching, the lookup agrees exactly if the candidates it
meets reach the priority of every eligible flow. -/
theorem FlowTable.WellFormed.lookupAgrees_iff_candidates (wellFormed : ft.WellFormed)
    (find : HashFind Flow) (key : OflFlowKey) (time : Nat) :
    LookupAgrees find ft key time ↔
      ∀ f ∈ ft.entries, Eligible key time f →
        ∃ g ∈ ft.flows.filterMap (MiniFlowTable.candidate find key time),
          f.priority ≤ g.priority := by
  have tracks := lookupLoop_tracks find key time ft.flows
  unfold LookupAgrees
  unfold LookupState.Tracks at tracks
  rw [flowTableLookup_fst]
  cases kept : (lookupLoop find key time ft.flows).retFlow with
  | none =>
    rw [kept] at tracks
    rw [tracks.1]
    constructor
    · rintro ⟨isSome, -⟩ f member eligible
      exact absurd (isSome.mpr ⟨f, member, eligible⟩) Bool.false_ne_true
    · intro covered
      constructor
      · constructor
        · rintro ⟨⟩
        · rintro ⟨f, member, eligible⟩
          obtain ⟨g, gMem, -⟩ := covered f member eligible
          exact absurd gMem List.not_mem_nil
      · rintro returned ⟨⟩
  | some ret =>
    rw [kept] at tracks
    obtain ⟨retMem, highest, -⟩ := tracks
    obtain ⟨entry, eligible⟩ := wellFormed.eligible_of_candidate retMem
    constructor
    · rintro ⟨-, best⟩ f member fEligible
      obtain ⟨g, -, -, returnedEq, above⟩ := best _ rfl
      have samePriority : ret.priority = g.priority := by
        simpa using congrArg Flow.priority returnedEq
      refine ⟨ret, retMem, ?_⟩
      rw [samePriority]
      exact above f member fEligible
    · intro covered
      constructor
      · exact ⟨fun _ => ⟨ret, entry, eligible⟩, fun _ => rfl⟩
      · rintro returned ⟨⟩
        refine ⟨ret, entry, eligible, rfl, ?_⟩
        intro other member otherEligible
        obtain ⟨g, gMem, above⟩ := covered other member otherEligible
        exact Nat.le_trans above (highest g gMem)

/-- The lookup agrees with the OpenFlow lookup, however the hash tables answer,
exactly on the tables and packets for which no eligible flow is hidden behind
another flow with its mask and key. -/
theorem lookupAgrees_iff_unshadowed {tableId : BitVec 8}
    {calls : List (HashFind Flow × FlowTableCall)} {ft : FlowTable}
    (ran : run flowTableStep (flowTableNew tableId) calls = some ft)
    (key : OflFlowKey) (time : Nat) :
    (∀ find, LookupAgrees find ft key time) ↔ Unshadowed ft key time := by
  have wellFormed := wellFormed_run ran
  constructor
  · intro agrees f member eligible
    -- Let every search prefer a flow that would make the lookup miss `f`.
    let worse : Flow → Bool := fun other =>
      flowExpired other time || decide (other.priority < f.priority)
    obtain ⟨g, gMem, above⟩ := (wellFormed.lookupAgrees_iff_candidates
      (HashFind.preferring worse) key time).mp (agrees _) f member eligible
    obtain ⟨mft, tableMem, isCandidate⟩ := List.mem_filterMap.mp gMem
    obtain ⟨searched, unexpired⟩ := MiniFlowTable.candidate_eq_some_iff.mp isCandidate
    obtain ⟨gFlow, gMask, gMatches⟩ := wellFormed.matches_of_search tableMem searched
    refine ⟨g, FlowTable.mem_entries.mpr ⟨mft, tableMem, gFlow⟩, gMatches, ?_⟩
    intro other otherMem maskEq keyEq
    have otherFlow := wellFormed.mem_of_mask_eq tableMem otherMem (maskEq.trans gMask)
    have notWorse : worse other = false := by
      by_contra isWorse
      have gWorse : worse g = true := by
        apply HashFind.preferred_of_preferring otherFlow ?_ (by simpa using isWorse) searched
        rw [beq_iff_eq, keyEq, gMatches, gMask]
      simp [worse, unexpired] at gWorse
      omega
    simpa [worse] using notWorse
  · intro unshadowed find
    rw [wellFormed.lookupAgrees_iff_candidates]
    intro f member eligible
    obtain ⟨g, gMem, gMatches, above⟩ := unshadowed f member eligible
    obtain ⟨mft, tableMem, gFlow⟩ := FlowTable.mem_entries.mp gMem
    have gMask := wellFormed.masked mft tableMem g gFlow
    obtain ⟨found, searched⟩ : ∃ found, mft.search find key = some found := by
      apply find.exists_find gFlow
      rw [beq_iff_eq, gMatches, gMask]
    obtain ⟨foundFlow, foundMask, foundMatches⟩ := wellFormed.matches_of_search tableMem searched
    have sameKey : found.key = g.key := by
      rw [foundMatches, gMatches, foundMask, gMask]
    obtain ⟨unexpired, atLeast⟩ := above found
      (FlowTable.mem_entries.mpr ⟨mft, tableMem, foundFlow⟩) (foundMask.trans gMask.symm) sameKey
    refine ⟨found, List.mem_filterMap.mpr ⟨mft, tableMem, ?_⟩, atLeast⟩
    exact MiniFlowTable.candidate_eq_some_iff.mpr ⟨searched, unexpired⟩

/-- A flow for IPv4 packets. -/
def ipFlow (priority : Nat) : Flow :=
  { flowNew with
    key := { OflFlowKey.zero with ethType := 0x800 }
    mask := { OflFlowKey.zero with ethType := 0xffff }
    priority := priority }

/-- The key of an IPv4 packet that arrives on port 1. -/
def ipPacket : OflFlowKey :=
  { OflFlowKey.zero with ethType := 0x800, inPort := 1 }

/-- Two flows with one mask and one key, the second of lower priority. -/
def shadowingCalls : List (HashFind Flow × FlowTableCall) :=
  [(HashFind.latest, .add (ipFlow 10) 0), (HashFind.latest, .add (ipFlow 1) 0)]

/-- The table after the two additions. -/
def shadowingTable : FlowTable where
  flows :=
    [{ flows := [ipFlow 10, { ipFlow 1 with addr := 1 }]
       mask := { OflFlowKey.zero with ethType := 0xffff } }]
  tableId := 0
  made := 2

theorem shadowingCalls_run :
    run flowTableStep (flowTableNew 0) shadowingCalls = some shadowingTable := by
  decide

theorem lookupAgrees_iff_unshadowed_shadowingTable :
    (∀ find, LookupAgrees find shadowingTable ipPacket 5) ↔
      Unshadowed shadowingTable ipPacket 5 :=
  lookupAgrees_iff_unshadowed shadowingCalls_run ipPacket 5

/-- After a flow of priority 10 and one of priority 1 are added with one mask and
one key, the lookup returns the one of priority 1. -/
theorem lookup_returns_shadowing_flow :
    run flowTableStep (flowTableNew 0) shadowingCalls = some shadowingTable ∧
      (flowTableLookup HashFind.latest shadowingTable ipPacket 5).1.map Flow.priority = some 1 ∧
      ¬LookupAgrees HashFind.latest shadowingTable ipPacket 5 := by
  have result : (flowTableLookup HashFind.latest shadowingTable ipPacket 5).1 =
      some { ipFlow 1 with addr := 1, lastUsed := 5 } := by
    decide
  refine ⟨shadowingCalls_run, by rw [result]; rfl, ?_⟩
  rintro ⟨-, best⟩
  obtain ⟨f, -, -, returnedEq, above⟩ := best _ result
  have lowPriority : 1 = f.priority := congrArg Flow.priority returnedEq
  have highPriority : 10 ≤ f.priority :=
    above (ipFlow 10) (by decide) ⟨by unfold Matches; decide, by decide⟩
  omega

end Horse.Net
