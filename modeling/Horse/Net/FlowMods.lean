import Horse.Lib.KeyAlgebra
import Horse.Net.TableIndex
import Horse.Order.Masked

/-!
# Flow modifications

A flow modification names flows by mask, key and priority.  An addition should take the
place of the flow with the same three values; the code adds it beside that flow.  A
non-strict modification or deletion should reach the flows whose packets are all packets
of the request, and this is what the walk over the mini tables selects.
-/

namespace Horse.Net

open Horse.Container Horse.Lib Horse.Order Horse.Transition

/-! ## The calls on a table -/

/-- What happens to a table of a datapath: the calls of the controller and the lookups, a
request for statistics, and the counting of a netflow by the flow it matched. -/
inductive TableCall
  | call (find : HashFind Flow) (call : FlowTableCall)
  | stats (key mask : OflFlowKey) (time : Nat)
  | count (f : Flow) (nf : Netflow)

/-- One call on a table. -/
def tableStep : Step FlowTable TableCall
  | ft, .call find call => flowTableStep ft (find, call)
  | ft, .stats key mask time => some (flowTableStats ft key mask time).2
  | ft, .count f nf => some (ft.count f nf)

/-- The flows that a call adds. -/
def TableCall.added : TableCall → List Flow
  | .call _ (.add f _) => [f]
  | _ => []

variable {ft after : FlowTable} {call : TableCall} {tableId : BitVec 8} {calls : List TableCall}
  {f g : Flow}

theorem installed_tableStep (installed : ft.Installed) (stepped : tableStep ft call = some after) :
    after.Installed := by
  cases call with
  | call find call =>
    rcases flowTableStep_cases stepped with ⟨f, time, rfl⟩ | trims
    · exact installed.addFlow f time
    · exact installed.trimmed trims
  | stats key mask time =>
    cases stepped
    exact installed.trimmed (flowTableStats_trims ft key mask time)
  | count f nf =>
    cases stepped
    exact installed.trimmed (ft.count_trims f nf)

theorem installed_run (ran : run tableStep (flowTableNew tableId) calls = some ft) : ft.Installed :=
  run_invariant (fun installed _ stepped => installed_tableStep installed stepped)
    (installed_flowTableNew tableId) (along_true _ _ _) ran

theorem tableStep_defined (ft : FlowTable) (call : TableCall) :
    ∃ after, tableStep ft call = some after := by
  cases call with
  | call find call => cases call <;> exact ⟨_, rfl⟩
  | stats key mask time => exact ⟨_, rfl⟩
  | count f nf => exact ⟨_, rfl⟩

/-- After every sequence of calls there is one mini table for each mask, none of them is
empty, every flow is in the mini table of its mask, and so is stored exactly once. -/
theorem stored_once_run (tableId : BitVec 8) (calls : List TableCall) :
    ∃ ft, run tableStep (flowTableNew tableId) calls = some ft ∧
      (ft.flows.map MiniFlowTable.mask).Nodup ∧
      (∀ mft ∈ ft.flows, mft.flows ≠ []) ∧
      (∀ mft ∈ ft.flows, ∀ f ∈ mft.flows, f.mask = mft.mask) ∧
      ∀ f ∈ ft.entries, ft.addrs.count f.addr = 1 := by
  have proceeds : ∀ {ft : FlowTable} {call : TableCall}, ft.Installed → True →
      ∃ after, tableStep ft call = some after ∧ after.Installed := by
    intro ft call installed _
    obtain ⟨after, stepped⟩ := tableStep_defined ft call
    exact ⟨after, stepped, installed_tableStep installed stepped⟩
  obtain ⟨ft, ran, installed⟩ :=
    run_defined proceeds (installed_flowTableNew tableId) (along_true tableStep _ calls)
  obtain ⟨masksDistinct, nonempty, masked⟩ := installed.wellFormed
  refine ⟨ft, ran, masksDistinct, nonempty, masked, ?_⟩
  intro f member
  exact List.count_eq_one_of_mem installed.distinct (List.mem_map_of_mem member)

/-! ## What names a flow -/

/-- The values by which a controller names a flow. -/
def pattern (f : Flow) : OflFlowKey × OflFlowKey × Nat :=
  (f.mask, f.key, f.priority)

/-- A modification changes the instructions of a flow at most. -/
theorem exists_of_mem_modifyFlow {find : HashFind Flow} {strict : Bool} {time : Nat}
    (member : g ∈ (modifyFlow find ft f strict time).entries) :
    ∃ h ∈ ft.entries, g = h ∨ g = flowAddInstructions h f.insts := by
  cases strict with
  | true =>
    refine @exists_of_mem_strictLoop _ _ _ _ _
      (fun h g => g = h ∨ g = flowAddInstructions h f.insts) (fun _ => .inl rfl) _ ?_ member
    rintro mft flowFound new ⟨⟩ g flowMem
    obtain ⟨h, oldMem, rfl⟩ := mem_update flowMem
    refine ⟨h, oldMem, ?_⟩
    split
    · exact .inr rfl
    · exact .inl rfl
  | false =>
    obtain ⟨mft, mftMem, h, flowMem, changed⟩ := mem_nonStrictLoop member
    refine ⟨h, List.mem_flatMap.mpr ⟨mft, mftMem, flowMem⟩, ?_⟩
    split at changed
    · split at changed
      · split at changed
        · cases changed
        · cases changed
          exact .inr rfl
      · cases changed
        exact .inl rfl
    · exact .inl changed

/-- The values of a flow that no call changes. -/
def standing (f : Flow) : (OflFlowKey × OflFlowKey × Nat) × BitVec 8 :=
  (pattern f, f.tableId)

/-- The time of the last use of the flow at an address after a call: the time of the call
if it is a lookup that returns the flow. -/
def TableCall.lastUse (call : TableCall) (ft : FlowTable) (addr u : Nat) : Nat :=
  match call with
  | .call find (.lookup key time) =>
    if (flowTableLookup find ft key time).1.map Flow.addr = some addr then time else u
  | _ => u

/-- The part of a flow that its timeouts depend on. -/
def timing (g : Flow) : Nat × Nat × Nat × Nat :=
  (g.hardTimeout, g.idleTimeout, g.removeAt, g.lastUsed)

/-- What a call can do to a flow: the flow is the one that is added, or it was there before
and stands and is timed as before, but for its last use. -/
theorem origin_of_mem_tableStep (wellFormed : ft.WellFormed)
    (stepped : tableStep ft call = some after) (member : g ∈ after.entries) :
    (∃ find f time, call = .call find (.add f time) ∧ g = ft.stamp f time) ∨
      ∃ h ∈ ft.entries, h.addr = g.addr ∧ standing h = standing g ∧
        timing g = timing { h with lastUsed := call.lastUse ft h.addr h.lastUsed } := by
  cases call with
  | call find call =>
    cases call with
    | add f time =>
      cases stepped
      have added := (wellFormed.entries_addFlow f time).mem_iff.mp member
      rcases List.mem_cons.mp added with rfl | before
      · exact .inl ⟨find, f, time, rfl, rfl⟩
      · exact .inr ⟨g, before, rfl, rfl, rfl⟩
    | modify f strict time =>
      cases stepped
      obtain ⟨h, oldMem, same⟩ := exists_of_mem_modifyFlow member
      refine .inr ⟨h, oldMem, ?_⟩
      rcases same with rfl | rfl <;> exact ⟨rfl, rfl, rfl⟩
    | delete f time strict =>
      cases stepped
      exact .inr ⟨g, mem_deleteFlow member, rfl, rfl, rfl⟩
    | lookup key time =>
      cases stepped
      obtain ⟨h, oldMem, rfl⟩ := eq_of_mem_flowTableLookup member
      refine .inr ⟨h, oldMem, ?_⟩
      rw [TableCall.lastUse]
      split <;> exact ⟨rfl, rfl, rfl⟩
  | stats key mask time =>
    cases stepped
    exact .inr ⟨g, mem_flowTableStats member, rfl, rfl, rfl⟩
  | count f nf =>
    cases stepped
    obtain ⟨h, oldMem, rfl⟩ := exists_of_mem_update member
    refine .inr ⟨h, oldMem, ?_⟩
    split <;> exact ⟨rfl, rfl, rfl⟩

/-- A flow after a call is named as a flow before it, or as the one that is added. -/
theorem exists_of_mem_tableStep (wellFormed : ft.WellFormed)
    (stepped : tableStep ft call = some after) (member : g ∈ after.entries) :
    ∃ h ∈ call.added ++ ft.entries, standing h = standing g := by
  rcases origin_of_mem_tableStep wellFormed stepped member with
    ⟨find, f, time, rfl, rfl⟩ | ⟨h, oldMem, -, same, -⟩
  · exact ⟨f, List.mem_cons_self, rfl⟩
  · exact ⟨h, List.mem_append_right _ oldMem, same⟩

/-- What depends on these values and holds of all flows added holds of all flows of the
table. -/
theorem entries_of_run {holds : Flow → Prop}
    (stands : ∀ {h g}, standing h = standing g → holds h → holds g)
    (ran : run tableStep (flowTableNew tableId) calls = some ft)
    (added : ∀ call ∈ calls, ∀ f ∈ call.added, holds f) : ∀ e ∈ ft.entries, holds e := by
  suffices all : ∀ {state : FlowTable}, state.Installed → (∀ e ∈ state.entries, holds e) →
      run tableStep state calls = some ft → ∀ e ∈ ft.entries, holds e from
    all (installed_flowTableNew tableId) (List.forall_mem_nil _) ran
  clear ran
  induction calls with
  | nil =>
    rintro state - old ⟨⟩
    exact old
  | cons call rest ih =>
    intro state installed old ran
    obtain ⟨after, stepped, tail⟩ := (run_cons_eq_some_iff _ _ _ _ _).mp ran
    rw [List.forall_mem_cons] at added
    refine ih added.2 (installed_tableStep installed stepped) ?_ tail
    intro e member
    obtain ⟨h, origin, same⟩ :=
      exists_of_mem_tableStep installed.wellFormed stepped member
    exact stands same ((List.mem_append.mp origin).elim (added.1 h) (old h))

/-- The key of a flow has no bits outside its mask. -/
def Reduced (f : Flow) : Prop :=
  applyAllMask f.key f.mask = f.key

instance (f : Flow) : Decidable (Reduced f) :=
  inferInstanceAs (Decidable (_ = _))

/-- A table to which only reduced flows were added holds only reduced flows. -/
theorem reduced_of_run (ran : run tableStep (flowTableNew tableId) calls = some ft)
    (added : ∀ call ∈ calls, ∀ f ∈ call.added, Reduced f) :
    ∀ e ∈ ft.entries, Reduced e := by
  refine entries_of_run ?_ ran added
  intro h g same isReduced
  have sameMask : h.mask = g.mask := congrArg (fun stands => stands.1.1) same
  have sameKey : h.key = g.key := congrArg (fun stands => stands.1.2.1) same
  rw [Reduced, ← sameMask, ← sameKey]
  exact isReduced

/-! ## Additions -/

/-- What an addition should do: afterwards the new flow is the only one with its mask, key
and priority, and the other flows are as before. -/
structure AddReplaces (ft : FlowTable) (f : Flow) (time : Nat) : Prop where
  only : ((addFlow ft f time).entries.filter fun e => pattern e = pattern f) =
    [ft.stamp f time]
  others : ((addFlow ft f time).entries.filter fun e => pattern e ≠ pattern f).Perm
    (ft.entries.filter fun e => pattern e ≠ pattern f)

/-- An addition takes the place of an identical flow only if there is none. -/
theorem addReplaces_iff_absent {tableId : BitVec 8} {calls : List TableCall} {ft : FlowTable}
    (ran : run tableStep (flowTableNew tableId) calls = some ft) (f : Flow) (time : Nat) :
    AddReplaces ft f time ↔ ∀ e ∈ ft.entries, pattern e ≠ pattern f := by
  have added := (installed_run ran).wellFormed.entries_addFlow f time
  have named : pattern (ft.stamp f time) = pattern f := rfl
  have same := added.filter fun e => pattern e = pattern f
  have others := added.filter fun e => pattern e ≠ pattern f
  simp only [List.filter_cons, named, decide_true, if_true] at same
  simp only [List.filter_cons, named, ne_eq, not_true, decide_false, Bool.false_eq_true,
    if_false] at others
  constructor
  · intro replaces e member isNamed
    rw [replaces.only] at same
    have nothing := List.cons.inj (List.singleton_perm.mp same)
    have listed : e ∈ ft.entries.filter fun e => pattern e = pattern f :=
      List.mem_filter.mpr ⟨member, decide_eq_true isNamed⟩
    rw [← nothing.2] at listed
    cases listed
  · intro absent
    have nothing : (ft.entries.filter fun e => pattern e = pattern f) = [] :=
      List.filter_eq_nil_iff.mpr fun e member => by simp [absent e member]
    rw [nothing] at same
    exact ⟨List.perm_singleton.mp same, others⟩

/-- A flow for IPv4 packets and one for all packets are added. -/
def twoAdditions : List TableCall :=
  [.call HashFind.latest (.add (ipFlow 10) 0), .call HashFind.latest (.add flowNew 2)]

/-- A flow for IPv4 packets with another priority is added to the two. -/
theorem addReplaces_iff_absent_third :
    ∃ ft, run tableStep (flowTableNew 0) twoAdditions = some ft ∧ ft.entries.length = 2 ∧
      AddReplaces ft (ipFlow 1) 5 := by
  refine ⟨_, rfl, by decide +kernel, ?_⟩
  apply (@addReplaces_iff_absent 0 twoAdditions _ rfl (ipFlow 1) 5).mpr
  decide +kernel

/-- After a flow is added twice the table holds it twice. -/
theorem second_addition_leaves_both :
    ∃ ft, run tableStep (flowTableNew 0) [.call HashFind.latest (.add (ipFlow 10) 0)] =
        some ft ∧
      ((addFlow ft (ipFlow 10) 5).entries.map pattern =
        [pattern (ipFlow 10), pattern (ipFlow 10)]) ∧
      ¬AddReplaces ft (ipFlow 10) 5 := by
  refine ⟨_, rfl, by decide +kernel, ?_⟩
  intro replaces
  have one := congrArg List.length replaces.only
  revert one
  decide +kernel

/-! ## Non-strict requests -/

/-- Every packet that the flow `e` matches is matched by the request. -/
def Covers (f e : Flow) : Prop :=
  ∀ key, Matches key e → Matches key f

/-- The two comparisons of a non-strict request decide whether it covers a flow. -/
theorem covers_iff {e : Flow} (reduced : Reduced e) :
    Covers f e ↔ applyAllMask e.mask f.mask = f.mask ∧ applyAllMask e.key f.mask = f.key := by
  have asMatched : ∀ (key : OflFlowKey) (g : Flow), Matches key g ↔ Matched g.mask g.key key :=
    fun _ _ => eq_comm
  unfold Covers
  simp only [asMatched]
  exact forall_matched_iff reduced

/-- The flows left by a non-strict request, as one walk over all flows. -/
theorem entries_nonStrictLoop {change : Flow → Option Flow} {tables : List MiniFlowTable}
    (masked : ∀ mft ∈ tables, ∀ e ∈ mft.flows, e.mask = mft.mask) :
    (nonStrictLoop f change tables).flatMap MiniFlowTable.flows =
      (tables.flatMap MiniFlowTable.flows).filterMap fun e =>
        if flowKeyCmp (applyAllMask e.mask f.mask) f.mask then change e else some e := by
  rw [nonStrictLoop, List.filterMap_eq_flatMap_toList, List.flatMap_assoc,
    List.filterMap_flatMap]
  apply List.flatMap_congr
  intro mft mftMem
  have sameTest : ∀ e ∈ mft.flows,
      (if flowKeyCmp (applyAllMask e.mask f.mask) f.mask then change e else some e) =
        if isFlowNonStrictInMft f.mask mft then change e else some e := by
    intro e member
    rw [masked mft mftMem e member, isFlowNonStrictInMft]
  rw [List.filterMap_congr sameTest]
  by_cases selected : isFlowNonStrictInMft f.mask mft = true
  · simp only [if_pos selected]
    exact flows_unlessEmpty _
  · simp only [if_neg selected]
    rw [List.filterMap_some]
    exact List.flatMap_singleton _ _

section Specification

open Classical

/-- The flows that a non-strict deletion should leave. -/
noncomputable def withoutCovered (f : Flow) (entries : List Flow) : List Flow :=
  entries.filter fun e => ¬Covers f e

/-- The flows that a non-strict modification should leave: of those it covers the expired
ones are gone, and the others have the instructions of the request. -/
noncomputable def withCoveredModified (f : Flow) (time : Nat) (entries : List Flow) :
    List Flow :=
  entries.filterMap fun e =>
    if Covers f e then
      if flowExpired e time then none else some { e with insts := f.insts }
    else some e

/-- The test of the walk on one flow. -/
theorem selected_and_matched_iff {e : Flow} (reduced : Reduced e) :
    (flowKeyCmp (applyAllMask e.mask f.mask) f.mask = true ∧
      matchNonStrict f.key f.mask e.key = true) ↔ Covers f e := by
  rw [covers_iff reduced, matchNonStrict, flowKeyCmp_iff, flowKeyCmp_iff]

section

variable {ft : FlowTable} (wellFormed : ft.WellFormed) (reduced : ∀ e ∈ ft.entries, Reduced e)

include wellFormed reduced

/-- The flows left by a non-strict request are changed where it covers them. -/
theorem entries_covered (f : Flow) (change : Flow → Option Flow) :
    (nonStrictLoop f
        (fun e => if matchNonStrict f.key f.mask e.key then change e else some e)
        ft.flows).flatMap MiniFlowTable.flows =
      ft.entries.filterMap fun e => if Covers f e then change e else some e := by
  refine (entries_nonStrictLoop wellFormed.masked).trans ?_
  apply List.filterMap_congr
  intro e member
  have test := @selected_and_matched_iff f e (reduced e member)
  by_cases covers : Covers f e
  · obtain ⟨selected, isMatch⟩ := test.mpr covers
    rw [if_pos selected, if_pos isMatch, if_pos covers]
  · rw [if_neg covers]
    by_cases selected : flowKeyCmp (applyAllMask e.mask f.mask) f.mask = true
    · have noMatch : ¬matchNonStrict f.key f.mask e.key = true :=
        fun isMatch => covers (test.mp ⟨selected, isMatch⟩)
      rw [if_pos selected, if_neg noMatch]
    · rw [if_neg selected]

theorem entries_deleteFlow_nonStrict (find : HashFind Flow) (f : Flow) (time : Nat) :
    (deleteFlow find ft f time false).entries = withoutCovered f ft.entries := by
  refine (entries_covered wellFormed reduced f fun _ => none).trans ?_
  rw [withoutCovered, ← List.filterMap_eq_filter]
  apply List.filterMap_congr
  intro e _
  by_cases covers : Covers f e <;> simp [Option.guard, covers]

theorem entries_modifyFlow_nonStrict (find : HashFind Flow) (f : Flow) (time : Nat) :
    (modifyFlow find ft f false time).entries = withCoveredModified f time ft.entries :=
  entries_covered wellFormed reduced f fun e =>
    if flowExpired e time then none else some { e with insts := f.insts }

end

end Specification

/-- Non-strict requests reach exactly the flows whose packets they all match. -/
theorem nonStrict_reaches_covered {tableId : BitVec 8} {calls : List TableCall}
    {ft : FlowTable} (ran : run tableStep (flowTableNew tableId) calls = some ft)
    (reduced : ∀ e ∈ ft.entries, Reduced e) (find : HashFind Flow) (f : Flow) (time : Nat) :
    (deleteFlow find ft f time false).entries = withoutCovered f ft.entries ∧
      (modifyFlow find ft f false time).entries = withCoveredModified f time ft.entries := by
  have wellFormed := (installed_run ran).wellFormed
  constructor
  · exact entries_deleteFlow_nonStrict wellFormed reduced find f time
  · exact entries_modifyFlow_nonStrict wellFormed reduced find f time

/-- One of the two flows that were added is covered by a flow for IPv4 packets. -/
theorem nonStrict_reaches_covered_twoAdditions :
    ∃ ft, run tableStep (flowTableNew 0) twoAdditions = some ft ∧
      (deleteFlow HashFind.latest ft (ipFlow 1) 5 false).entries.length = 1 ∧
      (deleteFlow HashFind.latest ft (ipFlow 1) 5 false).entries =
          withoutCovered (ipFlow 1) ft.entries ∧
        (modifyFlow HashFind.latest ft (ipFlow 1) false 5).entries =
          withCoveredModified (ipFlow 1) 5 ft.entries := by
  refine ⟨_, rfl, by decide +kernel, ?_⟩
  exact @nonStrict_reaches_covered 0 twoAdditions _ rfl (by decide +kernel) HashFind.latest
    (ipFlow 1) 5

end Horse.Net
