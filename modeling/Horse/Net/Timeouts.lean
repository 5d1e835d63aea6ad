import Horse.Net.FlowMods

/-!
# Timeouts

A flow is installed with a hard and an idle timeout in seconds.  `add_flow` computes the
time from which the hard timeout counts as passed, a lookup that returns the flow renews
the time of its last use, and each operation that comes across an expired flow deletes it.
The module follows one flow through the calls on its table, together with the time of the
last lookup that returned it, and shows that the two fields of the flow always say what
these times say.
-/

namespace Horse.Net

open Horse.Container Horse.Lib Horse.Transition

/-- A time at which neither timeout of a flow has passed: the flow was installed at `t0`
and last used at `u`. -/
def InTime (f : Flow) (t0 u time : Nat) : Prop :=
  (f.hardTimeout = 0 ∨ time ≤ t0 + f.hardTimeout * 1000000) ∧
    (f.idleTimeout = 0 ∨ time ≤ u + f.idleTimeout * 1000000)

/-! ## The last use of a flow -/

/-- The time of a call. -/
def TableCall.time? : TableCall → Option Nat
  | .call _ (.add _ time) => some time
  | .call _ (.modify _ _ time) => some time
  | .call _ (.delete _ time _) => some time
  | .call _ (.lookup _ time) => some time
  | .stats _ _ time => some time
  | .count _ _ => none

/-- One call on a table, followed by the last use of the flow at an address. -/
def usedStep (addr : Nat) : Step (FlowTable × Nat) TableCall
  | (ft, u), call => (tableStep ft call).map fun after => (after, call.lastUse ft addr u)

variable {ft : FlowTable} {call : TableCall} {e : Flow} {after : FlowTable} {u t0 time : Nat}
  {f : Flow}

/-- After a call, a flow that was there before is timed as before, but for its last use. -/
theorem timing_of_mem_tableStep (wellFormed : ft.WellFormed)
    (stepped : tableStep ft call = some after) {g : Flow} (old : g.addr < ft.made)
    (member : g ∈ after.entries) :
    ∃ h ∈ ft.entries, h.addr = g.addr ∧
      timing g = timing { h with lastUsed := call.lastUse ft h.addr h.lastUsed } := by
  rcases origin_of_mem_tableStep wellFormed stepped member with
    ⟨find, f, time, rfl, rfl⟩ | ⟨h, oldMem, sameAddr, -, timed⟩
  · exact absurd old (Nat.lt_irrefl _)
  · exact ⟨h, oldMem, sameAddr, timed⟩

theorem made_le_of_tableStep (stepped : tableStep ft call = some after) :
    ft.made ≤ after.made := by
  cases call with
  | call find call =>
    rcases flowTableStep_cases stepped with ⟨f, time, rfl⟩ | ⟨-, sameMade⟩
    · exact Nat.le_succ _
    · exact Nat.le_of_eq sameMade.symm
  | stats key mask time =>
    cases stepped
    exact Nat.le_refl _
  | count f nf =>
    cases stepped
    exact Nat.le_refl _

theorem lastUse_lt {addr bound : Nat} (before : u < bound)
    (early : ∀ time ∈ call.time?, time < bound) : call.lastUse ft addr u < bound := by
  unfold TableCall.lastUse
  split
  · split
    · exact early _ rfl
    · exact before
  · exact before

/-! ## The fields of a flow -/

/-- The table holds no flow at the address but the one that was installed at `t0`, with
the fields that this time and the time of its last use give. -/
structure Timed (f : Flow) (t0 addr : Nat) (state : FlowTable × Nat) : Prop where
  installed : state.1.Installed
  made : addr < state.1.made
  used : state.2 < 2 ^ 63
  fields : ∀ e ∈ state.1.entries, e.addr = addr →
    timing e = (f.hardTimeout, f.idleTimeout, t0 + f.hardTimeout * 1000000, state.2)

theorem timed_addFlow (installed : ft.Installed) (hard : f.hardTimeout < 2 ^ 16)
    (start : t0 < 2 ^ 63) :
    Timed f t0 ft.made (addFlow ft f t0, t0) where
  installed := installed.addFlow f t0
  made := Nat.lt_succ_self _
  used := start
  fields := by
    intro e member isNew
    have added := (installed.wellFormed.entries_addFlow f t0).mem_iff.mp member
    rcases List.mem_cons.mp added with rfl | old
    · have small : f.hardTimeout * 1000000 + t0 < 2 ^ 64 := by omega
      rw [timing, FlowTable.stamp, Nat.mod_eq_of_lt small, Nat.add_comm]
    · exact absurd (isNew ▸ List.mem_map_of_mem old) installed.fresh

theorem Timed.step {addr : Nat} {state after : FlowTable × Nat} (timed : Timed f t0 addr state)
    (early : ∀ time ∈ call.time?, time < 2 ^ 63) (stepped : usedStep addr state call = some after) :
    Timed f t0 addr after := by
  obtain ⟨ft, isStep, rfl⟩ := Option.map_eq_some_iff.mp stepped
  constructor
  · exact installed_tableStep timed.installed isStep
  · exact Nat.lt_of_lt_of_le timed.made (made_le_of_tableStep isStep)
  · exact lastUse_lt timed.used early
  · intro e member isAt
    obtain ⟨h, oldMem, sameAddr, same⟩ := timing_of_mem_tableStep
      timed.installed.wellFormed isStep (isAt ▸ timed.made) member
    have fields := timed.fields h oldMem (sameAddr.trans isAt)
    simp only [timing, Prod.mk.injEq] at fields same ⊢
    rw [same.1, same.2.1, same.2.2.1, same.2.2.2, sameAddr.trans isAt]
    exact ⟨fields.1, fields.2.1, fields.2.2.1, by rw [fields.2.2.2]⟩

/-- The flow counts as expired exactly when one of its timeouts has passed. -/
theorem flowExpired_eq_false_iff
    (fields : timing e = (f.hardTimeout, f.idleTimeout, t0 + f.hardTimeout * 1000000, u))
    (used : u < 2 ^ 63) (idle : f.idleTimeout < 2 ^ 16) (time : Nat) :
    flowExpired e time = false ↔ InTime f t0 u time := by
  simp only [timing, Prod.mk.injEq] at fields
  obtain ⟨sameHard, sameIdle, removeAt, lastUsed⟩ := fields
  have small : u + f.idleTimeout * 1000000 < 2 ^ 64 := by omega
  rw [flowExpired, sameHard, sameIdle, removeAt, lastUsed, Nat.mod_eq_of_lt small, InTime]
  by_cases noHard : f.hardTimeout = 0 <;> by_cases noIdle : f.idleTimeout = 0 <;>
    simp [noHard, noIdle]

/-! ## Lookups -/

/-- A lookup deletes no flow that has not expired. -/
theorem FlowTable.Installed.lookupKept_of_unexpired (installed : ft.Installed)
    {mft : MiniFlowTable} (tableMem : mft ∈ ft.flows) (flowMem : e ∈ mft.flows)
    (unexpired : flowExpired e time = false) (find : HashFind Flow) (key : OflFlowKey) :
    ∃ new, lookupKept find key time mft = some new ∧ e ∈ new.flows := by
  unfold lookupKept
  cases searched : mft.search find key with
  | none => exact ⟨mft, rfl, flowMem⟩
  | some found =>
    dsimp only
    by_cases expired : flowExpired found time = true
    · have foundMem := FlowTable.mem_entries.mpr ⟨mft, tableMem, (find.found searched).1⟩
      have apart : e.addr ≠ found.addr := by
        intro sameAddr
        have isFound := installed.eq_of_addr (FlowTable.mem_entries.mpr ⟨mft, tableMem, flowMem⟩)
          foundMem sameAddr
        rw [isFound, expired] at unexpired
        cases unexpired
      have left : e ∈ mft.flows.eraseP fun other => other.addr == found.addr :=
        (List.mem_eraseP_of_neg (by simpa using apart)).mpr flowMem
      rw [if_pos expired, flowTableDelFlow, MiniFlowTable.unlessEmpty, if_neg]
      · exact ⟨_, rfl, left⟩
      · rw [List.isEmpty_iff]
        exact List.ne_nil_of_mem left
    · rw [if_neg expired]
      exact ⟨mft, rfl, flowMem⟩

theorem FlowTable.Installed.mem_addrs_lookup (installed : ft.Installed) (member : e ∈ ft.entries)
    (unexpired : flowExpired e time = false) (find : HashFind Flow) (key : OflFlowKey) :
    e.addr ∈ (flowTableLookup find ft key time).2.addrs := by
  obtain ⟨mft, tableMem, flowMem⟩ := FlowTable.mem_entries.mp member
  obtain ⟨new, kept, inNew⟩ :=
    installed.lookupKept_of_unexpired tableMem flowMem unexpired find key
  have newMem : new ∈ (lookupLoop find key time ft.flows).walked := by
    rw [lookupLoop_walked]
    exact List.mem_filterMap.mpr ⟨mft, tableMem, kept⟩
  unfold flowTableLookup
  dsimp only
  split
  · exact List.mem_map_of_mem (List.mem_flatMap.mpr ⟨new, newMem, inNew⟩)
  · rename_i f _
    refine List.mem_map.mpr ⟨if e.addr = f.addr then { e with lastUsed := time } else e, ?_, ?_⟩
    · exact List.mem_flatMap.mpr ⟨_, List.mem_map_of_mem newMem, List.mem_map_of_mem inNew⟩
    · split <;> rfl

/-! ## Histories -/

/-- A flow is installed at `t0` in a table that calls have led to, other calls follow, and
`u` is the time of the last lookup among them that returned the flow.  Then a lookup
returns the flow only while neither of its timeouts has passed, a lookup at such a time
does not delete it, and a modification does not make it last longer. -/
theorem timeouts_hold_over_histories {tableId : BitVec 8} {before calls : List TableCall}
    {ft0 ft : FlowTable} {f : Flow} {t0 u : Nat}
    (installs : run tableStep (flowTableNew tableId) before = some ft0)
    (hard : f.hardTimeout < 2 ^ 16) (idle : f.idleTimeout < 2 ^ 16) (start : t0 < 2 ^ 63)
    (early : ∀ call ∈ calls, ∀ time ∈ call.time?, time < 2 ^ 63)
    (ran : run (usedStep ft0.made) (addFlow ft0 f t0, t0) calls = some (ft, u)) :
    (∀ find key time returned, (flowTableLookup find ft key time).1 = some returned →
        returned.addr = ft0.made → InTime f t0 u time) ∧
      (∀ find key time, ft0.made ∈ ft.addrs → InTime f t0 u time →
        ft0.made ∈ (flowTableLookup find ft key time).2.addrs) ∧
      ∀ find g strict time, ∀ e ∈ (modifyFlow find ft g strict time).entries,
        e.addr = ft0.made → ∀ later, flowExpired e later = false → InTime f t0 u later := by
  have timed : Timed f t0 ft0.made (ft, u) := by
    refine run_invariant ?_ (timed_addFlow (installed_run installs) hard start)
      (along_of_forall _ _ early) ran
    exact fun timed early stepped => timed.step early stepped
  have expired := fun {e : Flow} (member : e ∈ ft.entries) (isAt : e.addr = ft0.made) =>
    flowExpired_eq_false_iff (timed.fields e member isAt) timed.used idle
  refine ⟨?_, ?_, ?_⟩
  · intro find key time returned result isFlow
    obtain ⟨e, member, unexpired, rfl⟩ := flowTableLookup_candidate result
    exact (expired member isFlow time).mp unexpired
  · intro find key time listed inTime
    obtain ⟨e, member, isAt⟩ := List.mem_map.mp listed
    rw [← isAt]
    exact timed.installed.mem_addrs_lookup member ((expired member isAt time).mpr inTime) find key
  · intro find g strict time e member isAt later unexpired
    obtain ⟨h, oldMem, same⟩ := exists_of_mem_modifyFlow member
    rcases same with rfl | rfl
    · exact (expired oldMem isAt later).mp unexpired
    · exact (expired oldMem isAt later).mp unexpired

/-- A flow with a hard timeout of ten seconds and an idle timeout of three is looked up
after two seconds. -/
def timedFlow : Flow :=
  { ipFlow 1 with hardTimeout := 10, idleTimeout := 3 }

theorem timeouts_hold_over_histories_timedFlow :
    ∃ ft, run (usedStep 0) (addFlow (flowTableNew 0) timedFlow 0, 0)
        [.call HashFind.latest (.lookup ipPacket 2000000)] = some (ft, 2000000) ∧
      (∀ find key time returned, (flowTableLookup find ft key time).1 = some returned →
        returned.addr = 0 → InTime timedFlow 0 2000000 time) ∧
      (∀ find key time, 0 ∈ ft.addrs → InTime timedFlow 0 2000000 time →
        0 ∈ (flowTableLookup find ft key time).2.addrs) ∧
      ∀ find g strict time, ∀ e ∈ (modifyFlow find ft g strict time).entries,
        e.addr = 0 → ∀ later, flowExpired e later = false → InTime timedFlow 0 2000000 later := by
  have ran : run (usedStep 0) (addFlow (flowTableNew 0) timedFlow 0, 0)
      [.call HashFind.latest (.lookup ipPacket 2000000)] =
        some ((flowTableLookup HashFind.latest (addFlow (flowTableNew 0) timedFlow 0)
          ipPacket 2000000).2, 2000000) := by
    decide +kernel
  refine ⟨_, ran, ?_⟩
  exact @timeouts_hold_over_histories 0 [] _ (flowTableNew 0) _ timedFlow 0 2000000 rfl
    (by decide) (by decide) (by decide)
    (by
      intro call member
      rw [List.mem_singleton.mp member]
      rintro _ ⟨⟩
      decide)
    ran

end Horse.Net
