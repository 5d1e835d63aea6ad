import Horse.Sim.Modes

/-!
# Real time in FTI mode

A tick adds to the clock the real time since the reading that is stored in `last`.  The
reading is stored at the end of a tick, after its events have been handled, and not at
all when the tick is left at the last event; the switch back from DES mode stores none.
Each phase in FTI mode is observed here together with the real time at which it was
entered and what its ticks have added, and the ticks after which the two agree are
characterised.
-/

namespace Horse.Sim

open Horse.Transition

universe u

variable {E : Type u}

/-! ## Phases -/

/-- The simulator with its present phase in FTI mode: the reading at which it was
entered, the reading of its latest tick (or of its entry), and the microseconds that its
ticks have added.  `latest` is the reading of the step before. -/
structure PhaseState (E : Type u) where
  sim : ModeState E
  entered : Timespec
  ticked : Timespec
  added : Nat
  latest : Timespec

/-- The first phase is entered by `sim_init`. -/
def phaseInit (time : E → BitVec 64) (events : List E) (endTime : BitVec 64)
    (reading : Timespec) : PhaseState E where
  sim := simInit time events endTime reading
  entered := reading
  ticked := reading
  added := 0
  latest := reading

section Steps

variable (time : E → BitVec 64) (isFti : E → Bool) (idleInterval : Nat) [DecidableEq E]

/-- A step of the simulator, observed; the monotonic clock does not go back. -/
def phaseStep : Step (PhaseState E) (TimedStep E) := fun state label =>
  if label.reading.ns < state.latest.ns then none
  else
    (modeStep time isFti idleInterval state.sim label).map fun after =>
      match label.step with
      | .tick =>
        { state with
          sim := after
          ticked := label.reading
          added := state.added + (deltaUs state.sim.last label.reading).getD 0
          latest := label.reading }
      | .wake =>
        { sim := after
          entered := label.reading
          ticked := label.reading
          added := 0
          latest := label.reading }
      | _ => { state with sim := after, latest := label.reading }

end Steps

/-- A tick after which the phase has advanced the clock by the real time since it was
entered.  The interval that it adds, from `last` on, holds nothing before the phase or
its latest tick. -/
def RealTimeTick (state : PhaseState E) (label : TimedStep E) (after : PhaseState E) : Prop :=
  label.step = .tick →
    (after.added : Int) * 1000 = label.reading.ns - after.entered.ns ∧
      state.ticked.ns ≤ state.sim.last.ns

/-- `last` was read when the phase was entered or ticked last, up to the nanoseconds that
the division by 1000 rounds away. -/
def StoredAtTick (state : PhaseState E) (label : TimedStep E) : Prop :=
  label.step = .tick →
    state.ticked.ns ≤ state.sim.last.ns ∧
      state.sim.last.ns - state.ticked.ns =
        -((label.reading.nsec : Int) - state.sim.last.nsec).tmod 1000

/-! ## Microseconds and readings -/

theorem elapsedUs_mul (last now : Timespec) :
    elapsedUs last now * 1000 =
      now.ns - last.ns - ((now.nsec : Int) - last.nsec).tmod 1000 := by
  have division := Int.tmod_add_mul_tdiv ((now.nsec : Int) - last.nsec) 1000
  unfold elapsedUs Timespec.ns
  omega

theorem elapsedUs_nonneg {last now : Timespec} (ordered : last.ns ≤ now.ns) :
    0 ≤ elapsedUs last now := by
  have product := elapsedUs_mul last now
  have remainder := Int.tmod_lt_of_pos ((now.nsec : Int) - last.nsec) (by decide : (0 : Int) < 1000)
  omega

/-- Readings in order are converted without loss. -/
theorem deltaUs_eq_elapsedUs {last now : Timespec} {delta : Nat} (ordered : last.ns ≤ now.ns)
    (elapsed : deltaUs last now = some delta) : (delta : Int) = elapsedUs last now := by
  have nonneg := elapsedUs_nonneg ordered
  unfold deltaUs at elapsed
  obtain ⟨⟨-, small⟩, ⟨rfl⟩⟩ := Option.ite_none_right_eq_some.mp elapsed
  omega

/-! ## Runs -/

section Runs

variable {time : E → BitVec 64} {isFti : E → Bool} {idleInterval : Nat} [DecidableEq E]
  {label : TimedStep E} {state after : PhaseState E} {endTime : BitVec 64}

/-- `last` holds the reading of some earlier step. -/
theorem modeStep_last {sim after : ModeState E} (bounded : Bounded time endTime sim)
    (step : modeStep time isFti idleInterval sim label = some after) :
    after.last = sim.last ∨ after.last = label.reading := by
  obtain ⟨reading, action⟩ := label
  obtain ⟨running, change⟩ := modeStep_change step
  cases change with
  | tick atRest fti started =>
    obtain ⟨delta, cur, fault, wrt, -, rfl⟩ := startTick_cases started
    exact Or.inl rfl
  | turn isCur turned =>
    obtain ⟨queue, ctrl, stats, cur, fault, rfl⟩ := contTurn_cases turned
    exact Or.inl rfl
  | endTick isCur ended =>
    obtain ⟨stats, last, rfl, lastEq⟩ := endTick_cases ended
    rw [checkIdle_last]
    split at lastEq
    · exact Or.inr lastEq
    · exact Or.inl lastEq
  | dispatch atRest des notWaking dispatched =>
    rcases desMode_cases (bounded.queue running).ne_nil dispatched with
      ⟨finishTime, rest, stats, -, rfl⟩ | ⟨ev, rest, stats, -, rfl⟩
    · exact Or.inl rfl
    · exact Or.inl rfl
  | wake | readClock | insertRead | insert => exact Or.inl rfl

/-- What holds between the steps of a run: the simulator is bounded by its last event,
and `last` is not a reading of the future. -/
structure Observed (time : E → BitVec 64) (endTime : BitVec 64) (state : PhaseState E) :
    Prop where
  bounded : Bounded time endTime state.sim
  past : state.sim.last.ns ≤ state.latest.ns

/-- Up to its latest tick the phase has added the real time since it was entered. -/
def Accounted (state : PhaseState E) : Prop :=
  (state.added : Int) * 1000 = state.ticked.ns - state.entered.ns

theorem phaseStep_cases (step : phaseStep time isFti idleInterval state label = some after) :
    state.latest.ns ≤ label.reading.ns ∧ after.latest = label.reading ∧
      modeStep time isFti idleInterval state.sim label = some after.sim := by
  unfold phaseStep at step
  split at step
  · cases step
  · rename_i inOrder
    obtain ⟨sim, taken, rfl⟩ := Option.map_eq_some_iff.mp step
    refine ⟨Int.not_lt.mp inOrder, ?_, ?_⟩
    · split <;> rfl
    · split <;> exact taken

theorem Observed.step (observed : Observed time endTime state)
    (step : phaseStep time isFti idleInterval state label = some after) :
    Observed time endTime after := by
  obtain ⟨inOrder, latestEq, taken⟩ := phaseStep_cases step
  constructor
  · exact observed.bounded.step taken
  · rw [latestEq]
    rcases modeStep_last observed.bounded taken with kept | stored
    · rw [kept]
      exact Int.le_trans observed.past inOrder
    · exact Int.le_of_eq (congrArg Timespec.ns stored)

/-- What a tick leaves behind. -/
theorem phaseStep_tick (isTick : label.step = .tick)
    (step : phaseStep time isFti idleInterval state label = some after) :
    ∃ delta, deltaUs state.sim.last label.reading = some delta ∧
      after.entered = state.entered ∧ after.ticked = label.reading ∧
      after.added = state.added + delta := by
  obtain ⟨-, -, taken⟩ := phaseStep_cases step
  obtain ⟨reading, action⟩ := label
  cases isTick
  obtain ⟨running, change⟩ := modeStep_change taken
  cases change with
  | tick atRest fti started =>
    obtain ⟨delta, cur, fault, wrt, elapsed, -⟩ := startTick_cases started
    unfold phaseStep at step
    obtain ⟨-, observed⟩ := Option.ite_none_left_eq_some.mp step
    obtain ⟨sim, -, rfl⟩ := Option.map_eq_some_iff.mp observed
    simp only at elapsed
    exact ⟨delta, elapsed, rfl, rfl, by simp [elapsed]⟩

/-- A step that is not a tick leaves the phase alone or enters a new one. -/
theorem Accounted.step_of_not_tick (accounted : Accounted state) (notTick : label.step ≠ .tick)
    (step : phaseStep time isFti idleInterval state label = some after) :
    Accounted after := by
  unfold phaseStep at step
  obtain ⟨-, observed⟩ := Option.ite_none_left_eq_some.mp step
  obtain ⟨sim, -, rfl⟩ := Option.map_eq_some_iff.mp observed
  split
  · contradiction
  · simp [Accounted]
  · exact accounted

/-- A tick is exact if and only if `last` was read at the tick before. -/
theorem realTimeTick_iff (observed : Observed time endTime state) (accounted : Accounted state)
    (step : phaseStep time isFti idleInterval state label = some after) :
    RealTimeTick state label after ↔ StoredAtTick state label := by
  apply imp_congr_right
  intro isTick
  obtain ⟨inOrder, -, -⟩ := phaseStep_cases step
  obtain ⟨delta, elapsed, enteredEq, -, addedEq⟩ := phaseStep_tick isTick step
  have isElapsed := deltaUs_eq_elapsedUs (Int.le_trans observed.past inOrder) elapsed
  have product := elapsedUs_mul state.sim.last label.reading
  rw [enteredEq, addedEq]
  unfold Accounted at accounted
  push_cast
  omega

/-- An exact tick accounts for all of the phase, and no other step spoils that. -/
theorem accounted_of_realTimeTick (accounted : Accounted state)
    (step : phaseStep time isFti idleInterval state label = some after)
    (exactTick : RealTimeTick state label after) : Accounted after := by
  by_cases isTick : label.step = .tick
  · obtain ⟨delta, -, -, tickedEq, -⟩ := phaseStep_tick isTick step
    unfold Accounted
    rw [tickedEq]
    exact (exactTick isTick).1
  · exact accounted.step_of_not_tick isTick step

variable (time) (isFti) (idleInterval)

/-- Every tick of a run leaves its phase advanced by exactly the real time since the phase
was entered, and adds no real time from before the phase or its latest tick, if and only
if at every tick `last` was read at that tick or entry. -/
theorem real_time_along_iff (events : List E) (endTime : BitVec 64) (reading : Timespec)
    (labels : List (TimedStep E)) :
    Along (phaseStep time isFti idleInterval)
        (fun state label => ∀ after, phaseStep time isFti idleInterval state label = some after →
          RealTimeTick state label after)
        (phaseInit time events endTime reading) labels ↔
      Along (phaseStep time isFti idleInterval)
        (fun state label => (phaseStep time isFti idleInterval state label).isSome →
          StoredAtTick state label)
        (phaseInit time events endTime reading) labels := by
  apply @along_holds_iff _ _ (phaseStep time isFti idleInterval) StoredAtTick Accounted
    (fun _ => True) (Observed time endTime) RealTimeTick
  · intro state label after _ observed step
    exact observed.step step
  · intro state label after accounted step exactTick
    exact accounted_of_realTimeTick accounted step exactTick
  · intro state label after _ observed accounted step
    exact realTimeTick_iff observed accounted step
  · exact ⟨bounded_simInit events reading, Int.le_refl _⟩
  · simp [Accounted, phaseInit]
  · exact fun _ _ => trivial

end Runs

/-- A tick after ten microseconds, forty microseconds in DES mode, and a tick ten
microseconds after the timer was woken. -/
def longDes : List (TimedStep (Bool × BitVec 64)) :=
  [⟨readingUs 10, .tick⟩, ⟨readingUs 10, .endTick⟩, ⟨readingUs 50, .dispatch []⟩,
    ⟨readingUs 50, .wake⟩, ⟨readingUs 60, .tick⟩]

/-- The phase was entered at 50 and ticked at 60, and has added 50. -/
theorem des_time_is_added :
    ∃ state,
      run (phaseStep Prod.snd Prod.fst 5) (phaseInit Prod.snd [(true, 12)] 1000 (readingUs 0))
        longDes = some state ∧
      state.entered = readingUs 50 ∧ state.ticked = readingUs 60 ∧ state.added = 50 ∧
      state.sim.sch.clock = 62 :=
  ⟨_, rfl, rfl, rfl, rfl, rfl⟩

end Horse.Sim
