import Horse.Sim.Modes

/-!
# When the simulation clock runs forward

A tick adds to the clock, and `des_mode` sets it to the time of the event that it takes.
A tick leaves the last event in the queue however far it has advanced the clock, and a
receiving thread inserts its event with the time that it read before.  What `des_mode`
then takes may lie behind the clock.  This module states which steps keep every event
of the queue ahead of the clock in DES mode, and that the clock runs forward on the
runs made of them.
-/

namespace Horse.Sim

open Horse.Container Horse.Transition

universe u

variable {E : Type u} (time : E → BitVec 64)

/-- The next event that `des_mode` takes does not set the clock back, whichever it is. -/
def QueueAhead (sim : ModeState E) : Prop :=
  sim.sch.mode = .des → sim.waking = false → sim.finished = false →
    ∀ ev ∈ sim.sch.evQueue, sim.sch.clock ≤ queuedTime time ev

/-- A step that keeps the clock in order: a tick does not overflow it; a tick that
switches to DES mode leaves no event behind the clock in the queue; in DES mode a
handler inserts no event before the one that it handles, unless the timer is woken, and
a receiving thread inserts none before the clock. -/
def KeepsClock (isFti : E → Bool) (idleInterval : Nat) (sim : ModeState E)
    (label : TimedStep E) : Prop :=
  match label.step with
  | .tick => ∀ delta, deltaUs sim.last label.reading = some delta →
      sim.sch.clock + delta < 2 ^ 64
  | .endTick => idleInterval < sub64 sim.sch.clock sim.lastCtrl →
      ∀ ev ∈ sim.sch.evQueue, sim.sch.clock ≤ queuedTime time ev
  | .dispatch inserted => ∀ ev, schedulerRetrieve sim.sch = some (.event ev) →
      isFti ev = false → ∀ new ∈ inserted, (time ev).toNat ≤ (time new).toNat
  | .insertRead _ ev | .insert ev => sim.sch.mode = .des → sim.waking = false →
      sim.sch.clock ≤ (time ev).toNat
  | _ => True

/-! ## What each step does to the clock and the queue -/

/-- A tick runs in FTI mode, and the timer is only woken from DES mode. -/
structure Phased (sim : ModeState E) : Prop where
  ticking : ∀ cur, sim.curEv = some cur → sim.sch.mode = .fti
  awake : sim.sch.mode = .fti → sim.waking = false

theorem queueAhead_of_fti {sim : ModeState E} (isFti : sim.sch.mode = .fti) :
    QueueAhead time sim := by
  intro isDes
  rw [isFti] at isDes
  cases isDes

namespace Phased

variable {time}

theorem simInit (events : List E) (endTime : BitVec 64) (reading : Timespec) :
    Phased (simInit time events endTime reading) where
  ticking := nofun
  awake := fun _ => rfl

variable [DecidableEq E] {isFti : E → Bool} {idleInterval : Nat} {sim after : ModeState E}
  {label : TimedStep E}

theorem step (phased : Phased sim) (notEmpty : sim.sch.evQueue ≠ [])
    (step : modeStep time isFti idleInterval sim label = some after) : Phased after := by
  obtain ⟨reading, action⟩ := label
  obtain ⟨-, change⟩ := modeStep_change step
  cases change with
  | tick atRest fti started =>
    obtain ⟨delta, cur, fault, wrt, -, rfl⟩ := startTick_cases started
    exact ⟨fun _ _ => fti, phased.awake⟩
  | turn isCur turned =>
    obtain ⟨queue, ctrl, stats, cur, fault, rfl⟩ := contTurn_cases turned
    exact ⟨fun _ _ => phased.ticking _ isCur, phased.awake⟩
  | endTick isCur ended =>
    obtain ⟨stats, last, rfl, -⟩ := endTick_cases ended
    have notWaking := phased.awake (phased.ticking _ isCur)
    unfold checkIdle
    split
    · exact ⟨nofun, nofun⟩
    · exact ⟨nofun, fun _ => notWaking⟩
  | dispatch atRest des notWaking dispatched =>
    rcases desMode_cases notEmpty dispatched with
      ⟨finishTime, rest, stats, -, rfl⟩ | ⟨ev, rest, stats, -, rfl⟩
    · exact ⟨phased.ticking, phased.awake⟩
    · constructor
      · intro cur isCur
        rw [atRest] at isCur
        cases isCur
      · simp [insertEvents_mode, des]
  | wake atRest =>
    exact ⟨fun _ _ => rfl, fun _ => rfl⟩
  | readClock | insertRead | insert => exact ⟨phased.ticking, phased.awake⟩

end Phased

/-! ## Steps that keep the clock in order -/

section Exact

variable {time} [DecidableEq E] {isFti : E → Bool} {idleInterval : Nat}
  {sim after : ModeState E}

theorem clock_le_add_mod_iff {clock delta : Nat} (clockLt : clock < 2 ^ 64)
    (deltaLt : delta < 2 ^ 64) :
    clock ≤ (clock + delta) % 2 ^ 64 ↔ clock + delta < 2 ^ 64 := by
  omega

theorem deltaUs_lt {last now : Timespec} {delta : Nat} (elapsed : deltaUs last now = some delta) :
    delta < 2 ^ 64 := by
  unfold deltaUs at elapsed
  obtain ⟨-, ⟨rfl⟩⟩ := Option.ite_none_right_eq_some.mp elapsed
  omega

omit [DecidableEq E] in
/-- A new event keeps the queue ahead of the clock if it is ahead itself. -/
theorem queueAhead_insert_iff (ahead : QueueAhead time sim) (running : sim.finished = false)
    (ev : E) (readings : List Nat) :
    QueueAhead time
        { sim with sch := insertEvent time sim.sch ev, readings := readings } ↔
      (sim.sch.mode = .des → sim.waking = false → sim.sch.clock ≤ (time ev).toNat) := by
  simp only [QueueAhead, insertEvent, schedulerInsert, mem_insertInorder, forall_eq_or_imp,
    queuedTime]
  constructor
  · intro allAhead des notWaking
    exact (allAhead des notWaking running).1
  · intro newAhead des notWaking _
    exact ⟨newAhead des notWaking, ahead des notWaking running⟩

omit [DecidableEq E] in
/-- Switching to DES mode keeps the queue ahead of the clock if it is so already. -/
theorem queueAhead_checkIdle_iff (fti : sim.sch.mode = .fti) (notWaking : sim.waking = false)
    (running : sim.finished = false) :
    QueueAhead time (checkIdle idleInterval sim) ↔
      (idleInterval < sub64 sim.sch.clock sim.lastCtrl →
        ∀ ev ∈ sim.sch.evQueue, sim.sch.clock ≤ queuedTime time ev) := by
  unfold checkIdle
  split
  · rename_i idle
    simp only [QueueAhead, notWaking, running, forall_const, idle]
  · rename_i busy
    simp only [queueAhead_of_fti time fti, busy, false_implies]

omit [DecidableEq E] in
/-- What `des_mode` takes is not behind the clock, and what follows is ahead of the event
taken if what its handler inserts is. -/
theorem dispatch_keepsClock_iff {endTime : BitVec 64} {inserted : List E}
    (holds : HoldsFinish time endTime sim.sch.evQueue) (running : sim.finished = false)
    (ahead : ∀ ev ∈ sim.sch.evQueue, sim.sch.clock ≤ queuedTime time ev)
    (des : sim.sch.mode = .des) (dispatched : desMode time isFti inserted sim = some after) :
    sim.sch.clock ≤ after.sch.clock ∧ QueueAhead time after ↔
      ∀ ev, schedulerRetrieve sim.sch = some (.event ev) → isFti ev = false →
        ∀ new ∈ inserted, (time ev).toNat ≤ (time new).toNat := by
  rcases desMode_cases holds.ne_nil dispatched with
    ⟨finishTime, rest, stats, queueEq, rfl⟩ | ⟨ev, rest, stats, queueEq, rfl⟩
  · have headAhead : sim.sch.clock ≤ finishTime.toNat :=
      ahead (.finish finishTime) (by simp [queueEq])
    simp [QueueAhead, schedulerRetrieve, queueEq, headAhead]
  · have headAhead : sim.sch.clock ≤ (time ev).toNat :=
      ahead (.event ev) (by simp [queueEq])
    rw [queueEq] at holds
    have restAhead := (List.pairwise_cons.mp holds.sorted).1
    simp only [queuedTime] at restAhead
    simp only [insertEvents_clock, headAhead, true_and, QueueAhead, insertEvents_mode, des,
      running, forall_const, mem_insertEvents, schedulerRetrieve, queueEq, List.head?_cons,
      Option.some.injEq, QueuedEvent.event.injEq, forall_eq']
    apply imp_congr_right
    intro _
    constructor
    · intro allAhead new member
      exact allAhead (.event new) (Or.inl (List.mem_map_of_mem member))
    · rintro newAhead item (isNew | isOld)
      · obtain ⟨new, member, rfl⟩ := List.mem_map.mp isNew
        exact newAhead new member
      · exact restAhead item isOld

/-- The steps that keep the clock in order are exactly those that do not set it back and
keep the queue ahead of it. -/
theorem keepsClock_iff {endTime : BitVec 64} {label : TimedStep E}
    (bounded : Bounded time endTime sim) (phased : Phased sim) (ahead : QueueAhead time sim)
    (step : modeStep time isFti idleInterval sim label = some after) :
    sim.sch.clock ≤ after.sch.clock ∧ QueueAhead time after ↔
      KeepsClock time isFti idleInterval sim label := by
  obtain ⟨reading, action⟩ := label
  obtain ⟨running, change⟩ := modeStep_change step
  cases change with
  | tick atRest fti started =>
    obtain ⟨delta, cur, fault, wrt, elapsed, rfl⟩ := startTick_cases started
    simp only [KeepsClock, elapsed, Option.some.injEq, forall_eq',
      ← clock_le_add_mod_iff bounded.clock (deltaUs_lt elapsed)]
    exact and_iff_left (queueAhead_of_fti time fti)
  | turn isCur turned =>
    obtain ⟨queue, ctrl, stats, cur, fault, rfl⟩ := contTurn_cases turned
    have fti := phased.ticking _ isCur
    exact iff_of_true ⟨Nat.le_refl _, queueAhead_of_fti time fti⟩ trivial
  | endTick isCur ended =>
    obtain ⟨stats, last, rfl, -⟩ := endTick_cases ended
    have fti := phased.ticking _ isCur
    rw [checkIdle_clock]
    refine Iff.trans (and_iff_right (Nat.le_refl _)) ?_
    exact queueAhead_checkIdle_iff fti (phased.awake fti) running
  | dispatch atRest des notWaking dispatched =>
    exact dispatch_keepsClock_iff (bounded.queue running) running
      (ahead des notWaking running) des dispatched
  | wake atRest => exact iff_of_true ⟨Nat.le_refl _, queueAhead_of_fti time rfl⟩ trivial
  | readClock => exact iff_of_true ⟨Nat.le_refl _, ahead⟩ trivial
  | insertRead index ev =>
    rw [queueAhead_insert_iff ahead running]
    exact and_iff_right (Nat.le_refl _)
  | insert ev =>
    refine Iff.trans ?_ (queueAhead_insert_iff ahead running ev sim.readings)
    exact and_iff_right (Nat.le_refl _)

end Exact

/-! ## Runs -/

section Runs

variable [DecidableEq E] (isFti : E → Bool) (idleInterval : Nat)

/-- The clock runs forward at every step of a run, and no event that `des_mode` could take
next lies behind it, if and only if every step of the run keeps the clock in order. -/
theorem clock_forward_along_iff (events : List E) (endTime : BitVec 64) (reading : Timespec)
    (labels : List (TimedStep E)) :
    Along (modeStep time isFti idleInterval)
        (fun sim label => ∀ after, modeStep time isFti idleInterval sim label = some after →
          sim.sch.clock ≤ after.sch.clock ∧ QueueAhead time after)
        (simInit time events endTime reading) labels ↔
      Along (modeStep time isFti idleInterval)
        (fun sim label => (modeStep time isFti idleInterval sim label).isSome →
          KeepsClock time isFti idleInterval sim label)
        (simInit time events endTime reading) labels := by
  apply @along_holds_iff _ _ (modeStep time isFti idleInterval)
    (KeepsClock time isFti idleInterval) (QueueAhead time) (fun _ => True)
    (fun sim => Bounded time endTime sim ∧ Phased sim)
    (fun sim _ after => sim.sch.clock ≤ after.sch.clock ∧ QueueAhead time after)
  · rintro sim label after - ⟨bounded, phased⟩ step
    have notEmpty := (bounded.queue (modeStep_change step).1).ne_nil
    exact ⟨bounded.step step, phased.step notEmpty step⟩
  · intro sim label after _ _ kept
    exact kept.2
  · rintro sim label after - ⟨bounded, phased⟩ ahead step
    exact keepsClock_iff bounded phased ahead step
  · exact ⟨bounded_simInit events reading, Phased.simInit events endTime reading⟩
  · exact queueAhead_of_fti time (by simp [simInit, schedulerInsert, insertEvents_mode,
      schedulerNew])
  · exact fun _ _ => trivial

end Runs

/-- A tick passes the end of the run, finds the controller idle and switches. -/
def lateTick : List (TimedStep (Bool × BitVec 64)) :=
  [⟨readingUs 15, .tick⟩, ⟨readingUs 15, .endTick⟩]

/-- The data plane thread then takes the last event and sets the clock from 15 back
to 10. -/
theorem late_finish_sets_clock_back :
    ∃ before after,
      run (modeStep Prod.snd Prod.fst 5) (simInit Prod.snd [] 10 (readingUs 0)) lateTick =
        some before ∧
      modeStep Prod.snd Prod.fst 5 before ⟨readingUs 15, .dispatch []⟩ = some after ∧
      before.sch.clock = 15 ∧ after.sch.clock = 10 ∧ after.finished = true :=
  ⟨_, _, rfl, rfl, rfl, rfl, rfl⟩

end Horse.Sim
