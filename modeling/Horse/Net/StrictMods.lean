import Horse.Net.FlowMods

/-!
# Strict requests

A strict modification or deletion names flows by mask, key and priority.  The code searches
the mini table of the mask for the key, which does not contain the priority, and looks at
the priority of the one flow that the search returns.  The request therefore reaches a flow
whatever the search returns only if this flow is alone with its mask and key.
-/

namespace Horse.Net

open Horse.Container Horse.Lib Horse.Transition

/-! ## The flow that a request acts on -/

section Named

variable {ft : FlowTable} {f : Flow} {find : HashFind Flow}

/-- The request looks for a flow in the mini table of its mask only. -/
theorem strictNamed_eq {tables : List MiniFlowTable}
    (distinct : (tables.map MiniFlowTable.mask).Nodup) {mft : MiniFlowTable}
    (tableMem : mft ∈ tables) (maskEq : f.mask = mft.mask) :
    strictNamed find f tables =
      (find.find (fun other => other.key == f.key) mft.flows).filter
        fun flowFound => flowFound.priority = f.priority := by
  induction tables with
  | nil => cases tableMem
  | cons first rest ih =>
    rw [List.map_cons, List.nodup_cons] at distinct
    rw [strictNamed, matchStrict]
    by_cases isMask : f.mask = first.mask
    · rw [if_pos (flowKeyCmp_iff.mpr isMask), if_pos rfl]
      rcases List.mem_cons.mp tableMem with rfl | inRest
      · rfl
      · exact absurd (List.mem_map.mpr ⟨mft, inRest, maskEq.symm.trans isMask⟩) distinct.1
    · have different : ¬flowKeyCmp f.mask first.mask = true :=
        fun equal => isMask (flowKeyCmp_iff.mp equal)
      rw [if_neg different, if_neg Bool.false_ne_true]
      rcases List.mem_cons.mp tableMem with rfl | inRest
      · exact absurd maskEq isMask
      · exact ih distinct.2 inRest

/-- A request acts on a flow that it names. -/
theorem pattern_of_strictNamed {tables : List MiniFlowTable}
    (masked : ∀ mft ∈ tables, ∀ e ∈ mft.flows, e.mask = mft.mask) {x : Flow}
    (named : strictNamed find f tables = some x) :
    x ∈ tables.flatMap MiniFlowTable.flows ∧ pattern x = pattern f := by
  induction tables with
  | nil => cases named
  | cons first rest ih =>
    rw [List.forall_mem_cons] at masked
    rw [strictNamed, matchStrict] at named
    rw [List.flatMap_cons, List.mem_append]
    by_cases equal : flowKeyCmp f.mask first.mask = true
    · rw [if_pos equal, if_pos rfl] at named
      obtain ⟨found, samePriority⟩ := Option.filter_eq_some_iff.mp named
      obtain ⟨inFirst, sameKey⟩ := find.found found
      have sameMask := (masked.1 x inFirst).trans (flowKeyCmp_iff.mp equal).symm
      refine ⟨.inl inFirst, ?_⟩
      rw [pattern, pattern, sameMask, beq_iff_eq.mp sameKey, of_decide_eq_true samePriority]
    · rw [if_neg equal, if_neg Bool.false_ne_true] at named
      obtain ⟨inRest, isNamed⟩ := ih masked.2 named
      exact ⟨.inr inRest, isNamed⟩

/-- The flow is the only one with its mask and key. -/
def Sole (ft : FlowTable) (e : Flow) : Prop :=
  ∀ g ∈ ft.entries, g.mask = e.mask → g.key = e.key → g = e

/-- A request acts on a flow whatever the searches return exactly if the flow is the only
one with its mask and key. -/
theorem FlowTable.Installed.forall_find_named_iff (installed : ft.Installed) {e : Flow}
    (member : e ∈ ft.entries) (isNamed : pattern e = pattern f) :
    (∀ find, (strictNamed find f ft.flows).map Flow.addr = some e.addr) ↔ Sole ft e := by
  have sameMask : e.mask = f.mask := congrArg Prod.fst isNamed
  have sameKey : e.key = f.key := congrArg (fun named => named.2.1) isNamed
  have samePriority : e.priority = f.priority := congrArg (fun named => named.2.2) isNamed
  obtain ⟨home, homeMem, inHome⟩ := FlowTable.mem_entries.mp member
  have homeMask := installed.wellFormed.masked home homeMem e inHome
  have searches := fun find => @strictNamed_eq f find ft.flows
    installed.wellFormed.masksDistinct home homeMem (sameMask.symm.trans homeMask)
  constructor
  · intro always g gMem gMask gKey
    -- Let the search prefer the other flow.
    have named := always (HashFind.preferring fun h => h.addr == g.addr)
    rw [searches] at named
    obtain ⟨r, isNamed, atE⟩ := Option.map_eq_some_iff.mp named
    have found := (Option.filter_eq_some_iff.mp isNamed).1
    have gHome := installed.wellFormed.mem_of_mask_eq homeMem gMem (gMask.trans homeMask)
    have gKey : (g.key == f.key) = true := beq_iff_eq.mpr (gKey.trans sameKey)
    have atG := @HashFind.preferred_of_preferring _ (fun h => h.addr == g.addr)
      (fun other => other.key == f.key) _ _ _ gHome gKey (beq_self_eq_true g.addr) found
    exact installed.eq_of_addr gMem member ((beq_iff_eq.mp atG).symm.trans atE)
  · intro sole find
    obtain ⟨r, found⟩ := @HashFind.exists_find _ find (fun other => other.key == f.key) _ _
      inHome (beq_iff_eq.mpr sameKey)
    obtain ⟨inFlows, rKey⟩ := find.found found
    have rMem := FlowTable.mem_entries.mpr ⟨home, homeMem, inFlows⟩
    have rMask := installed.wellFormed.masked home homeMem r inFlows
    have isE : r = e :=
      sole r rMem (rMask.trans homeMask.symm) ((beq_iff_eq.mp rKey).trans sameKey.symm)
    rw [searches, found, isE]
    simp [Option.filter, samePriority]

end Named

/-! ## What strict requests should do -/

/-- A strict deletion leaves the flows that it does not name, as they were. -/
def StrictDeletes (find : HashFind Flow) (ft : FlowTable) (f : Flow) (time : Nat) : Prop :=
  (deleteFlow find ft f time true).entries = ft.entries.filter fun e => pattern e ≠ pattern f

/-- After a strict modification the unexpired flows are as before, but for the instructions
of those that it names. -/
def StrictModifies (find : HashFind Flow) (ft : FlowTable) (f : Flow) (time : Nat) : Prop :=
  ((modifyFlow find ft f true time).entries.filter fun e => !flowExpired e time) =
    (ft.entries.filter fun e => !flowExpired e time).map fun e =>
      if pattern e = pattern f then { e with insts := f.insts } else e

section Exact

variable {ft : FlowTable} (installed : ft.Installed) (find : HashFind Flow) (f : Flow)
  (time : Nat)

include installed

theorem entries_deleteFlow_strict :
    (deleteFlow find ft f time true).entries =
      ft.entries.filter fun e => (strictNamed find f ft.flows).map Flow.addr ≠ some e.addr := by
  refine (entries_strictLoop (fun x distinct => flows_flowTableDelFlow distinct x)
    installed.distinct).trans ?_
  rw [← List.filterMap_eq_filter]
  apply List.filterMap_congr
  intro e _
  cases strictNamed find f ft.flows with
  | none => rfl
  | some x =>
    by_cases isAt : x.addr = e.addr
    · simp [strictChange, changeAt, Option.guard, isAt]
    · have other : e.addr ≠ x.addr := fun same => isAt same.symm
      simp [strictChange, changeAt, Option.guard, isAt, other]

theorem unexpired_modifyFlow_strict :
    ((modifyFlow find ft f true time).entries.filter fun e => !flowExpired e time) =
      (ft.entries.filter fun e => !flowExpired e time).map fun e =>
        if (strictNamed find f ft.flows).map Flow.addr = some e.addr then
          { e with insts := f.insts }
        else e := by
  have entries : (modifyFlow find ft f true time).entries = ft.entries.filterMap
      (strictChange time (fun e => some (flowAddInstructions e f.insts))
        (strictNamed find f ft.flows)) :=
    entries_modFlowStrict installed find f time
  rw [entries, List.filter_filterMap, ← List.filterMap_eq_map, List.filterMap_filter]
  apply List.filterMap_congr
  intro e member
  cases named : strictNamed find f ft.flows with
  | none => by_cases expired : flowExpired e time = true <;> simp [strictChange, expired]
  | some x =>
    obtain ⟨xMem, -⟩ := pattern_of_strictNamed installed.wellFormed.masked named
    by_cases isAt : e.addr = x.addr
    · have isX := installed.eq_of_addr member xMem isAt
      subst isX
      by_cases expired : flowExpired e time = true
      · simp [strictChange, changeAt, expired]
      · have same : flowExpired { e with insts := f.insts } time = false :=
          Bool.eq_false_iff.mpr expired
        simp [strictChange, changeAt, expired, same, flowAddInstructions]
    · have other : x.addr ≠ e.addr := fun same => isAt same.symm
      by_cases expired : flowExpired e time = true <;>
        simp [strictChange, changeAt, isAt, other, expired]

/-- With one way of searching, a deletion does what it should exactly if it acts on every
flow that it names. -/
theorem strictDeletes_iff :
    StrictDeletes find ft f time ↔ ∀ e ∈ ft.entries, pattern e = pattern f →
      (strictNamed find f ft.flows).map Flow.addr = some e.addr := by
  rw [StrictDeletes, entries_deleteFlow_strict installed]
  constructor
  · intro same e member isNamed
    by_contra missed
    have left : e ∈ ft.entries.filter fun e => pattern e ≠ pattern f := by
      rw [← same]
      exact List.mem_filter.mpr ⟨member, decide_eq_true missed⟩
    exact of_decide_eq_true (List.mem_filter.mp left).2 isNamed
  · intro acts
    apply List.filter_congr
    intro e member
    rw [decide_eq_decide]
    refine not_congr ⟨fun isAt => ?_, acts e member⟩
    obtain ⟨x, named, atE⟩ := Option.map_eq_some_iff.mp isAt
    obtain ⟨xMem, isNamed⟩ := pattern_of_strictNamed installed.wellFormed.masked named
    rw [← installed.eq_of_addr xMem member atE]
    exact isNamed

/-- A modification does so exactly if it acts on every unexpired flow that it names and
that has other instructions. -/
theorem strictModifies_iff :
    StrictModifies find ft f time ↔ ∀ e ∈ ft.entries, pattern e = pattern f →
      flowExpired e time = false → e.insts ≠ f.insts →
      (strictNamed find f ft.flows).map Flow.addr = some e.addr := by
  rw [StrictModifies, unexpired_modifyFlow_strict installed, List.map_inj_left]
  constructor
  · intro same e member isNamed unexpired different
    by_contra missed
    have changed := same e (List.mem_filter.mpr ⟨member, by rw [unexpired]; rfl⟩)
    rw [if_neg missed, if_pos isNamed] at changed
    have sameInsts := congrArg Flow.insts changed
    exact different sameInsts
  · intro acts e listed
    obtain ⟨member, unexpired⟩ := List.mem_filter.mp listed
    have unexpired : flowExpired e time = false := by simpa using unexpired
    by_cases isAt : (strictNamed find f ft.flows).map Flow.addr = some e.addr
    · obtain ⟨x, named, atE⟩ := Option.map_eq_some_iff.mp isAt
      obtain ⟨xMem, isNamed⟩ := pattern_of_strictNamed installed.wellFormed.masked named
      rw [installed.eq_of_addr xMem member atE] at isNamed
      rw [if_pos isAt, if_pos isNamed]
    · rw [if_neg isAt]
      by_cases isNamed : pattern e = pattern f
      · have already : e.insts = f.insts :=
          not_not.mp fun different => isAt (acts e member isNamed unexpired different)
        rw [if_pos isNamed, ← already]
      · rw [if_neg isNamed]

end Exact

/-- Whatever the searches return, a strict deletion deletes exactly the flows it names if
and only if each of them is the only flow with its mask and key; and a strict modification
modifies exactly the unexpired flows it names if and only if this holds of those of them
that have other instructions. -/
theorem strict_acts_iff_sole {tableId : BitVec 8} {calls : List TableCall} {ft : FlowTable}
    (ran : run tableStep (flowTableNew tableId) calls = some ft) (f : Flow) (time : Nat) :
    ((∀ find, StrictDeletes find ft f time) ↔
        ∀ e ∈ ft.entries, pattern e = pattern f → Sole ft e) ∧
      ((∀ find, StrictModifies find ft f time) ↔
        ∀ e ∈ ft.entries, pattern e = pattern f → flowExpired e time = false →
          e.insts ≠ f.insts → Sole ft e) := by
  have installed := installed_run ran
  constructor
  · simp only [strictDeletes_iff installed]
    constructor
    · intro acts e member isNamed
      rw [← installed.forall_find_named_iff member isNamed]
      exact fun find => acts find e member isNamed
    · intro soles find e member isNamed
      exact (installed.forall_find_named_iff member isNamed).mpr (soles e member isNamed) find
  · simp only [strictModifies_iff installed]
    constructor
    · intro acts e member isNamed unexpired different
      rw [← installed.forall_find_named_iff member isNamed]
      exact fun find => acts find e member isNamed unexpired different
    · intro soles find e member isNamed unexpired different
      exact (installed.forall_find_named_iff member isNamed).mpr
        (soles e member isNamed unexpired different) find

/-- A flow for IPv4 packets that sends them to table 1. -/
def gotoIpFlow (priority : Nat) : Flow :=
  { ipFlow priority with insts := addGotoTable instructionSetInit 1 }

/-- Two flows with one mask and key, of priorities 10 and 1, are added. -/
def twoPriorities : List TableCall :=
  [.call HashFind.latest (.add (ipFlow 10) 0), .call HashFind.latest (.add (ipFlow 1) 0)]

theorem twoPriorities_run :
    run tableStep (flowTableNew 0) twoPriorities = some shadowingTable := by
  decide

theorem strict_acts_iff_sole_twoPriorities :
    ((∀ find, StrictDeletes find shadowingTable (ipFlow 10) 5) ↔
        ∀ e ∈ shadowingTable.entries, pattern e = pattern (ipFlow 10) →
          Sole shadowingTable e) ∧
      ((∀ find, StrictModifies find shadowingTable (ipFlow 10) 5) ↔
        ∀ e ∈ shadowingTable.entries, pattern e = pattern (ipFlow 10) →
          flowExpired e 5 = false → e.insts ≠ (ipFlow 10).insts → Sole shadowingTable e) :=
  strict_acts_iff_sole twoPriorities_run (ipFlow 10) 5

/-- The flow of priority 10 is neither deleted nor modified by strict requests for it: the
search returns the flow of priority 1. -/
theorem strict_requests_miss_flow :
    run tableStep (flowTableNew 0) twoPriorities = some shadowingTable ∧
      pattern (ipFlow 10) ∈
        (deleteFlow HashFind.latest shadowingTable (ipFlow 10) 5 true).entries.map pattern ∧
      ¬StrictDeletes HashFind.latest shadowingTable (ipFlow 10) 5 ∧
      modifyFlow HashFind.latest shadowingTable (gotoIpFlow 10) true 5 = shadowingTable ∧
      ¬StrictModifies HashFind.latest shadowingTable (gotoIpFlow 10) 5 := by
  refine ⟨twoPriorities_run, by decide +kernel, ?_, by decide +kernel, ?_⟩
  · unfold StrictDeletes
    decide +kernel
  · unfold StrictModifies
    decide +kernel

end Horse.Net
