import Horse.Net.FlowTable

/-!
# The walk of a strict request

A strict modify or delete walks over the mini tables until it meets the one with its mask,
and acts on the flow that the search for its key returns there, if this has its priority.
Where the flows have distinct addresses, the walk comes to changing or dropping one flow
in the list of all flows.
-/

namespace Horse.Net

open Horse.Container Horse.Lib

theorem flows_unlessEmpty (mft : MiniFlowTable) :
    mft.unlessEmpty.toList.flatMap MiniFlowTable.flows = mft.flows := by
  unfold MiniFlowTable.unlessEmpty
  split
  · rename_i empty
    rw [List.isEmpty_iff.mp empty]
    rfl
  · exact List.flatMap_singleton _ _

variable {mft : MiniFlowTable}

theorem mem_of_matchStrict {find : HashFind Flow} {f target : Flow}
    (searched : (matchStrict find f mft).1 = some target) : target ∈ mft.flows := by
  unfold matchStrict at searched
  split at searched
  · exact (find.found searched).1
  · cases searched

/-- The walk goes on at a mini table in which it has found nothing. -/
theorem matchStrict_fst_of_walks_on {find : HashFind Flow} {f : Flow}
    (walksOn : ¬(matchStrict find f mft).2 = true) : (matchStrict find f mft).1 = none := by
  unfold matchStrict at walksOn ⊢
  by_cases equal : flowKeyCmp f.mask mft.mask = true
  · rw [if_pos equal] at walksOn
    exact absurd rfl walksOn
  · rw [if_neg equal]

/-! ## Changing one flow -/

/-- Change or drop the flow at an address. -/
def changeAt (addr : Nat) (change : Flow → Option Flow) (e : Flow) : Option Flow :=
  if e.addr = addr then change e else some e

theorem filterMap_changeAt_of_absent {flows : List Flow} {addr : Nat}
    {change : Flow → Option Flow} (absent : addr ∉ flows.map Flow.addr) :
    flows.filterMap (changeAt addr change) = flows := by
  have same : ∀ e ∈ flows, changeAt addr change e = some e := by
    intro e member
    exact if_neg fun isAt => absent (List.mem_map.mpr ⟨e, member, isAt⟩)
  rw [List.filterMap_congr same, List.filterMap_some]

theorem eraseP_addr {flows : List Flow} (distinct : (flows.map Flow.addr).Nodup) (addr : Nat) :
    flows.eraseP (fun other => other.addr == addr) =
      flows.filterMap (changeAt addr fun _ => none) := by
  induction flows with
  | nil => rfl
  | cons e rest ih =>
    rw [List.map_cons, List.nodup_cons] at distinct
    by_cases isAt : e.addr = addr
    · rw [List.eraseP_cons_of_pos (by simpa using isAt),
        List.filterMap_cons_none (by simp [changeAt, isAt]),
        filterMap_changeAt_of_absent (isAt ▸ distinct.1)]
    · rw [List.eraseP_cons_of_neg (by simpa using isAt),
        List.filterMap_cons_some (by simp [changeAt, isAt] : _ = some e), ih distinct.2]

theorem flows_flowTableDelFlow (distinct : (mft.flows.map Flow.addr).Nodup) (x : Flow) :
    (flowTableDelFlow mft x).toList.flatMap MiniFlowTable.flows =
      mft.flows.filterMap (changeAt x.addr fun _ => none) := by
  rw [flowTableDelFlow, flows_unlessEmpty]
  exact eraseP_addr distinct x.addr

theorem flows_update (mft : MiniFlowTable) (addr : Nat) (change : Flow → Flow) :
    (mft.update addr change).flows =
      mft.flows.filterMap (changeAt addr fun e => some (change e)) := by
  rw [MiniFlowTable.update, ← List.filterMap_eq_map]
  apply List.filterMap_congr
  intro e _
  by_cases isAt : e.addr = addr <;> simp [changeAt, isAt]

/-! ## The walk of a strict request -/

/-- The flow that a strict request acts on: the one that the search returns, if its
priority is that of the request. -/
def strictNamed (find : HashFind Flow) (f : Flow) : List MiniFlowTable → Option Flow
  | [] => none
  | nxtMft :: rest =>
    let matched := matchStrict find f nxtMft
    if matched.2 then matched.1.filter fun flowFound => flowFound.priority = f.priority
    else strictNamed find f rest

/-- What a strict request does to each flow: it changes the flow it acts on, or drops it
if it has expired. -/
def strictChange (time : Nat) (change : Flow → Option Flow) : Option Flow → Flow → Option Flow
  | none => some
  | some x => changeAt x.addr fun e => if flowExpired x time then none else change e

section Walk

variable {find : HashFind Flow} {f : Flow} {time : Nat}
  {act : MiniFlowTable → Flow → Option MiniFlowTable} {change : Flow → Option Flow}

theorem flows_strictBody
    (acts : ∀ {mft : MiniFlowTable} (x : Flow), (mft.flows.map Flow.addr).Nodup →
      (act mft x).toList.flatMap MiniFlowTable.flows =
        mft.flows.filterMap (changeAt x.addr change)) (distinct : (mft.flows.map Flow.addr).Nodup)
    (matched : Option Flow) :
    (strictBody f time act mft matched).toList.flatMap MiniFlowTable.flows =
      mft.flows.filterMap
        (strictChange time change (matched.filter fun found => found.priority = f.priority)) := by
  cases matched with
  | none => simp [strictBody, strictChange]
  | some x =>
    by_cases same : x.priority = f.priority
    · by_cases expired : flowExpired x time = true
      · simpa [strictBody, same, expired, strictChange, Option.filter] using
          flows_flowTableDelFlow distinct x
      · simpa [strictBody, same, expired, strictChange, Option.filter] using acts x distinct
    · simp [strictBody, same, strictChange, Option.filter]

variable {tables : List MiniFlowTable}

theorem addr_mem_of_strictNamed {x : Flow} (named : strictNamed find f tables = some x) :
    x.addr ∈ (tables.flatMap MiniFlowTable.flows).map Flow.addr := by
  apply List.mem_map_of_mem
  induction tables with
  | nil => cases named
  | cons mft rest ih =>
    rw [List.flatMap_cons, List.mem_append]
    unfold strictNamed at named
    dsimp only at named
    split at named
    · exact .inl (mem_of_matchStrict (Option.filter_eq_some_iff.mp named).1)
    · exact .inr (ih named)

/-- The flows after a strict request, as one walk over all flows. -/
theorem entries_strictLoop
    (acts : ∀ {mft : MiniFlowTable} (x : Flow), (mft.flows.map Flow.addr).Nodup →
      (act mft x).toList.flatMap MiniFlowTable.flows =
        mft.flows.filterMap (changeAt x.addr change))
    (distinct : ((tables.flatMap MiniFlowTable.flows).map Flow.addr).Nodup) :
    (strictLoop find f time act tables).flatMap MiniFlowTable.flows =
      (tables.flatMap MiniFlowTable.flows).filterMap
        (strictChange time change (strictNamed find f tables)) := by
  induction tables with
  | nil => rfl
  | cons mft rest ih =>
    rw [List.flatMap_cons, List.map_append, List.nodup_append'] at distinct
    obtain ⟨here, later, apart⟩ := distinct
    have body := @flows_strictBody mft f time act change acts here (matchStrict find f mft).1
    rw [strictLoop, List.flatMap_append, List.flatMap_cons, List.filterMap_append, strictNamed]
    by_cases stop : (matchStrict find f mft).2 = true
    · -- The flow is in this mini table, and none of the others has its address.
      rw [if_pos stop, if_pos stop, body]
      congr 1
      cases named : (matchStrict find f mft).1.filter
          fun found => decide (found.priority = f.priority) with
      | none => simp [strictChange]
      | some x =>
        have inHere := mem_of_matchStrict (Option.filter_eq_some_iff.mp named).1
        exact (filterMap_changeAt_of_absent
          (List.disjoint_left.mp apart (List.mem_map_of_mem inHere))).symm
    · have missed := matchStrict_fst_of_walks_on stop
      rw [if_neg stop, if_neg stop, ih later, missed]
      congr 1
      cases named : strictNamed find f rest with
      | none => simp [strictBody, strictChange]
      | some x =>
        have unchanged := @filterMap_changeAt_of_absent mft.flows x.addr
          (fun e => if flowExpired x time then none else change e)
          (List.disjoint_right.mp apart (addr_mem_of_strictNamed named))
        rw [strictChange, unchanged]
        exact List.flatMap_singleton _ _

end Walk

end Horse.Net
