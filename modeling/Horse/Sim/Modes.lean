import Horse.Sim.Scheduler

/-!
# The two modes of the simulator

A timer thread and a data plane thread take turns with the queue.  In FTI mode every
tick of the timer advances the clock by the real time that has passed and handles the
events up to it; when the controller has been idle for some time the tick switches to
DES mode.  In DES mode the data plane thread takes one event after the other and sets
the clock to its time; an event that involves a controller wakes the timer again.  One
event marks the end: a tick leaves it in the queue, and the data plane thread stops
at it.

Events are generic here, and the events that a handler inserts are part of the step
in which it is called.  Threads that receive messages read the clock and insert an
event with that time later.  Every step is stamped with the monotonic clock of the
machine, which the steps of the timer read.
-/

namespace Horse.Sim

open Horse.Container Horse.Transition

universe u

variable {E : Type u}

/-! ## State -/

/-- An event of the queue: the one that `sim_init` inserts, or any other. -/
inductive QueuedEvent (E : Type u)
  | finish (endTime : BitVec 64)
  | event (ev : E)
  deriving DecidableEq, Repr

/-- `struct timespec` as the monotonic clock fills it. -/
structure Timespec where
  sec : Int
  nsec : Nat
  valid : nsec < 1000000000
  deriving DecidableEq, Repr

/-- The real time in nanoseconds. -/
def Timespec.ns (reading : Timespec) : Int :=
  reading.sec * 1000000000 + reading.nsec

/-- The simulator as far as the two threads use it.  `curEv` is the event that a
running tick looks at; `waking` says that the data plane thread has handled an event and
will wake the timer; `fault` that a null event was followed.  The clock values that
receiving threads have read and the queued events that were passed to `handle_event` are
kept on the side. -/
structure ModeState (E : Type u) where
  sch : Scheduler (QueuedEvent E)
  last : Timespec
  lastCtrl : Nat
  lastWrt : Nat
  lastStats : Nat
  curEv : Option (QueuedEvent E)
  waking : Bool
  finished : Bool
  fault : Bool
  readings : List Nat
  passed : List E
  deriving DecidableEq, Repr

/-- The steps of the threads.  A tick of `cont_mode` starts, makes the turns of its loop
and ends with the check for idleness; `des_mode` takes an event and, when it has handled
one that involves a controller, wakes the timer.  A receiving thread reads the clock and
inserts the event of its message later, or both at once. -/
inductive ModeStep (E : Type u)
  | tick
  | turn (inserted : List E)
  | endTick
  | dispatch (inserted : List E)
  | wake
  | readClock
  | insertRead (index : Nat) (ev : E)
  | insert (ev : E)
  deriving DecidableEq, Repr

/-- A step with the real time at which it is taken. -/
structure TimedStep (E : Type u) where
  reading : Timespec
  step : ModeStep E
  deriving DecidableEq, Repr

/-! ## Steps -/

/-- Subtraction of `uint64_t`. -/
def sub64 (a b : Nat) : Nat :=
  (a + (2 ^ 64 - b % 2 ^ 64)) % 2 ^ 64

/-- The microseconds between two readings before the conversion to `uint64_t`. -/
def elapsedUs (last now : Timespec) : Int :=
  (now.sec - last.sec) * 1000000 + ((now.nsec : Int) - last.nsec).tdiv 1000

/-- The microseconds between two readings; undefined when the seconds overflow the
signed product. -/
def deltaUs (last now : Timespec) : Option Nat :=
  if -2 ^ 63 ≤ elapsedUs last now ∧ elapsedUs last now < 2 ^ 63 then
    some (elapsedUs last now % 2 ^ 64).toNat
  else none

/-- Statistics are written when a second has passed since they were written last. -/
def noteStats (sim : ModeState E) (now : Nat) : ModeState E :=
  if sub64 now sim.lastStats / 1000000 ≠ 0 then { sim with lastStats := now } else sim

/-- The time is sent to the controller when ten seconds have passed since it was sent
last. -/
def noteWrite (sim : ModeState E) : ModeState E :=
  if 10000000 < sub64 sim.sch.clock sim.lastWrt then { sim with lastWrt := sim.sch.clock }
  else sim

theorem noteStats_eq (sim : ModeState E) (now : Nat) :
    ∃ stats, noteStats sim now = { sim with lastStats := stats } := by
  unfold noteStats
  split
  · exact ⟨now, rfl⟩
  · exact ⟨sim.lastStats, rfl⟩

theorem noteWrite_eq (sim : ModeState E) :
    ∃ wrt, noteWrite sim = { sim with lastWrt := wrt } := by
  unfold noteWrite
  split
  · exact ⟨sim.sch.clock, rfl⟩
  · exact ⟨sim.lastWrt, rfl⟩

/-- The running tick looks at the first event of the queue; without one it follows a
null event. -/
def retrieveCur (sim : ModeState E) : ModeState E :=
  match schedulerRetrieve sim.sch with
  | none => { sim with fault := true }
  | some cur => { sim with curEv := some cur }

theorem retrieveCur_eq (sim : ModeState E) :
    ∃ cur fault, retrieveCur sim = { sim with curEv := cur, fault := fault } := by
  unfold retrieveCur
  split
  · exact ⟨sim.curEv, true, rfl⟩
  · rename_i cur _
    exact ⟨some cur, sim.fault, rfl⟩

/-- The start of `cont_mode`, up to its loop. -/
def startTick (now : Timespec) (sim : ModeState E) : Option (ModeState E) :=
  (deltaUs sim.last now).map fun delta =>
    noteWrite (retrieveCur
      { sim with sch := { sim.sch with clock := (sim.sch.clock + delta) % 2 ^ 64 } })

/-- The check for idleness at the end of `cont_mode`. -/
def checkIdle (idleInterval : Nat) (sim : ModeState E) : ModeState E :=
  if idleInterval < sub64 sim.sch.clock sim.lastCtrl then
    { sim with sch := { sim.sch with mode := .des } }
  else sim

@[simp]
theorem checkIdle_last (idleInterval : Nat) (sim : ModeState E) :
    (checkIdle idleInterval sim).last = sim.last := by
  unfold checkIdle
  split <;> rfl

@[simp]
theorem checkIdle_clock (idleInterval : Nat) (sim : ModeState E) :
    (checkIdle idleInterval sim).sch.clock = sim.sch.clock := by
  unfold checkIdle
  split <;> rfl

/-- The timer is woken. -/
def wakeTimer (sim : ModeState E) : ModeState E :=
  { sim with
    lastCtrl := sim.sch.clock
    sch := { sim.sch with mode := .fti }
    waking := false }

section Steps

variable (time : E → BitVec 64)

/-- The time of an event in the queue. -/
def queuedTime : QueuedEvent E → Nat
  | .finish endTime => endTime.toNat
  | .event ev => (time ev).toNat

/-- Insert one event. -/
def insertEvent (sch : Scheduler (QueuedEvent E)) (ev : E) : Scheduler (QueuedEvent E) :=
  schedulerInsert (queuedTime time) sch (.event ev)

/-- Insert the events of a handler one after the other. -/
def insertEvents (sch : Scheduler (QueuedEvent E)) (events : List E) :
    Scheduler (QueuedEvent E) :=
  events.foldl (insertEvent time) sch

/-- The state after `sim_init`, where `setup` has inserted some events. -/
def simInit (events : List E) (endTime : BitVec 64) (reading : Timespec) : ModeState E where
  sch := schedulerInsert (queuedTime time)
    (insertEvents time (schedulerNew (QueuedEvent E)) events) (.finish endTime)
  last := reading
  lastCtrl := 0
  lastWrt := 0
  lastStats := 0
  curEv := none
  waking := false
  finished := false
  fault := false
  readings := []
  passed := []

variable (isFti : E → Bool) [DecidableEq E]

/-- One turn of the loop of `cont_mode`: the event is handled, which inserts events, and
deleted. -/
def contTurn (inserted : List E) (ev : E) (sim : ModeState E) : Option (ModeState E) :=
  let sim := noteStats sim (time ev).toNat
  (schedulerDelete (insertEvents time sim.sch inserted) (.event ev)).map fun sch =>
    retrieveCur { sim with
      sch := sch
      lastCtrl := if isFti ev then (time ev).toNat else sim.lastCtrl
      passed := sim.passed ++ [ev] }

omit [DecidableEq E] in
/-- The end of `cont_mode`.  The real time is stored only when the loop ends by its
condition, and not when it is left at the last event. -/
def endTick (idleInterval : Nat) (reading : Timespec) (cur : QueuedEvent E)
    (sim : ModeState E) : Option (ModeState E) :=
  if sim.sch.clock < queuedTime time cur then
    some (checkIdle idleInterval { sim with curEv := none, last := reading })
  else
    match cur with
    | .finish endTime =>
      some (checkIdle idleInterval { noteStats sim endTime.toNat with curEv := none })
    | .event _ => none

omit [DecidableEq E] in
/-- `des_mode` with the next event, up to the point where the timer may be woken. -/
def desMode (inserted : List E) (sim : ModeState E) : Option (ModeState E) :=
  match schedulerDispatch sim.sch with
  | none => if inserted.isEmpty then some { sim with fault := true } else none
  | some (ev, sch) =>
    let now := queuedTime time ev
    let sim := noteStats { sim with sch := { sch with clock := now } } now
    match ev with
    | .finish _ => if inserted.isEmpty then some { sim with finished := true } else none
    | .event ev =>
      some { sim with
        sch := insertEvents time sim.sch inserted
        waking := isFti ev
        passed := sim.passed ++ [ev] }

/-- A step that the threads can take, until the last event has been taken. -/
def modeStep (idleInterval : Nat) : Step (ModeState E) (TimedStep E) :=
  fun sim ⟨reading, step⟩ =>
    if sim.finished || sim.fault then none
    else
      match step, sim.curEv with
      | .tick, none => if sim.sch.mode = .fti then startTick reading sim else none
      | .turn inserted, some (.event ev) =>
        if (time ev).toNat ≤ sim.sch.clock then contTurn time isFti inserted ev sim else none
      | .endTick, some cur => endTick time idleInterval reading cur sim
      | .dispatch inserted, none =>
        if sim.sch.mode = .des ∧ sim.waking = false then desMode time isFti inserted sim
        else none
      | .wake, none => if sim.waking then some (wakeTimer sim) else none
      | .readClock, _ => some { sim with readings := sim.readings ++ [sim.sch.clock] }
      | .insertRead index ev, _ =>
        if sim.readings[index]? = some (time ev).toNat then
          some { sim with
            sch := insertEvent time sim.sch ev
            readings := sim.readings.eraseIdx index }
        else none
      | .insert ev, _ => some { sim with sch := insertEvent time sim.sch ev }
      | _, _ => none

end Steps

/-! ## What the steps change -/

section Changes

variable {time : E → BitVec 64}

theorem insertEvents_clock (events : List E) (sch : Scheduler (QueuedEvent E)) :
    (insertEvents time sch events).clock = sch.clock := by
  induction events generalizing sch with
  | nil => rfl
  | cons ev rest ih => exact ih (insertEvent time sch ev)

theorem insertEvents_mode (events : List E) (sch : Scheduler (QueuedEvent E)) :
    (insertEvents time sch events).mode = sch.mode := by
  induction events generalizing sch with
  | nil => rfl
  | cons ev rest ih => exact ih (insertEvent time sch ev)

variable {events inserted : List E} {sch : Scheduler (QueuedEvent E)} {idleInterval : Nat}

theorem mem_insertEvents {item : QueuedEvent E} :
    item ∈ (insertEvents time sch events).evQueue ↔
      item ∈ events.map .event ∨ item ∈ sch.evQueue := by
  induction events generalizing sch with
  | nil => simp [insertEvents]
  | cons ev rest ih =>
    have inserted := @ih (insertEvent time sch ev)
    simp only [insertEvent, schedulerInsert, mem_insertInorder] at inserted
    simp only [List.map_cons, List.mem_cons]
    exact inserted.trans (or_left_comm.trans or_assoc.symm)

theorem insertEvents_sorted
    (sorted : sch.evQueue.Pairwise fun a b => queuedTime time a ≤ queuedTime time b) :
    (insertEvents time sch events).evQueue.Pairwise
      fun a b => queuedTime time a ≤ queuedTime time b := by
  induction events generalizing sch with
  | nil => exact sorted
  | cons ev rest ih => exact ih (insertInorder_sorted (priocmp_nonneg_iff _) _ sorted)

variable {sim after : ModeState E} {isFti : E → Bool}

/-- A tick adds the real time since `last` to the clock and looks at an event. -/
theorem startTick_cases {now : Timespec} (step : startTick now sim = some after) :
    ∃ delta cur fault wrt, deltaUs sim.last now = some delta ∧
      after = { sim with
        sch := { sim.sch with clock := (sim.sch.clock + delta) % 2 ^ 64 }
        lastWrt := wrt
        curEv := cur
        fault := fault } := by
  obtain ⟨delta, elapsed, rfl⟩ := Option.map_eq_some_iff.mp step
  obtain ⟨cur, fault, curEq⟩ := retrieveCur_eq
    { sim with sch := { sim.sch with clock := (sim.sch.clock + delta) % 2 ^ 64 } }
  rw [curEq]
  obtain ⟨wrt, wrtEq⟩ := noteWrite_eq _
  rw [wrtEq]
  exact ⟨delta, cur, fault, wrt, elapsed, rfl⟩

/-- A turn of the loop leaves the clock and the mode alone. -/
theorem contTurn_cases [DecidableEq E] {ev : E}
    (step : contTurn time isFti inserted ev sim = some after) :
    ∃ queue ctrl stats cur fault,
      after = { sim with
        sch := { sim.sch with evQueue := queue }
        lastCtrl := ctrl
        lastStats := stats
        curEv := cur
        fault := fault
        passed := sim.passed ++ [ev] } := by
  obtain ⟨stats, statsEq⟩ := noteStats_eq sim (time ev).toNat
  simp only [contTurn, statsEq] at step
  obtain ⟨sch, deleted, rfl⟩ := Option.map_eq_some_iff.mp step
  obtain ⟨queue, -, rfl⟩ := Option.map_eq_some_iff.mp deleted
  rw [insertEvents_clock, insertEvents_mode]
  obtain ⟨cur, fault, curEq⟩ := retrieveCur_eq { sim with
    sch := { sim.sch with evQueue := queue }
    lastCtrl := if isFti ev then (time ev).toNat else sim.lastCtrl
    lastStats := stats
    passed := sim.passed ++ [ev] }
  exact ⟨queue, _, stats, cur, fault, curEq⟩

/-- The end of a tick stores the real time, unless it is left at the last event. -/
theorem endTick_cases {reading : Timespec} {cur : QueuedEvent E}
    (step : endTick time idleInterval reading cur sim = some after) :
    ∃ stats last,
      after = checkIdle idleInterval
        { sim with lastStats := stats, curEv := none, last := last } ∧
      last = if sim.sch.clock < queuedTime time cur then reading else sim.last := by
  unfold endTick at step
  split at step
  · rename_i ahead
    cases step
    exact ⟨sim.lastStats, reading, rfl, (if_pos ahead).symm⟩
  · rename_i reached
    cases cur with
    | finish finishTime =>
      cases step
      obtain ⟨stats, statsEq⟩ := noteStats_eq sim finishTime.toNat
      rw [statsEq]
      exact ⟨stats, sim.last, rfl, (if_neg reached).symm⟩
    | event ev => cases step

/-- What `des_mode` does with the first event of a queue. -/
theorem desMode_cases (notEmpty : sim.sch.evQueue ≠ [])
    (step : desMode time isFti inserted sim = some after) :
    (∃ finishTime rest stats, sim.sch.evQueue = .finish finishTime :: rest ∧
      after = { sim with
        sch := { sim.sch with evQueue := rest, clock := finishTime.toNat }
        lastStats := stats
        finished := true }) ∨
      ∃ ev rest stats, sim.sch.evQueue = .event ev :: rest ∧
        after = { sim with
          sch := insertEvents time
            { sim.sch with evQueue := rest, clock := (time ev).toNat } inserted
          lastStats := stats
          waking := isFti ev
          passed := sim.passed ++ [ev] } := by
  simp only [desMode, schedulerDispatch] at step
  cases queueEq : sim.sch.evQueue with
  | nil => exact absurd queueEq notEmpty
  | cons head rest =>
    rw [queueEq] at step
    simp only at step
    obtain ⟨stats, statsEq⟩ := noteStats_eq
      { sim with sch := { sim.sch with evQueue := rest, clock := queuedTime time head } }
      (queuedTime time head)
    rw [statsEq] at step
    cases head with
    | finish finishTime =>
      obtain ⟨-, ⟨rfl⟩⟩ := Option.ite_none_right_eq_some.mp step
      exact Or.inl ⟨finishTime, rest, stats, rfl, rfl⟩
    | event ev =>
      cases step
      exact Or.inr ⟨ev, rest, stats, rfl, rfl⟩

variable (time) in
/-- The steps of `modeStep`, one constructor for each. -/
inductive ModeChange [DecidableEq E] (isFti : E → Bool) (idleInterval : Nat)
    (reading : Timespec) (sim : ModeState E) : ModeStep E → ModeState E → Prop
  | tick {after : ModeState E} (atRest : sim.curEv = none) (fti : sim.sch.mode = .fti)
      (started : startTick reading sim = some after) :
      ModeChange isFti idleInterval reading sim .tick after
  | turn {inserted : List E} {ev : E} {after : ModeState E}
      (isCur : sim.curEv = some (.event ev))
      (turned : contTurn time isFti inserted ev sim = some after) :
      ModeChange isFti idleInterval reading sim (.turn inserted) after
  | endTick {cur : QueuedEvent E} {after : ModeState E} (isCur : sim.curEv = some cur)
      (ended : endTick time idleInterval reading cur sim = some after) :
      ModeChange isFti idleInterval reading sim .endTick after
  | dispatch {inserted : List E} {after : ModeState E} (atRest : sim.curEv = none)
      (des : sim.sch.mode = .des) (notWaking : sim.waking = false)
      (dispatched : desMode time isFti inserted sim = some after) :
      ModeChange isFti idleInterval reading sim (.dispatch inserted) after
  | wake (atRest : sim.curEv = none) :
      ModeChange isFti idleInterval reading sim .wake (wakeTimer sim)
  | readClock :
      ModeChange isFti idleInterval reading sim .readClock
        { sim with readings := sim.readings ++ [sim.sch.clock] }
  | insertRead (index : Nat) (ev : E) :
      ModeChange isFti idleInterval reading sim (.insertRead index ev)
        { sim with
          sch := insertEvent time sim.sch ev
          readings := sim.readings.eraseIdx index }
  | insert (ev : E) :
      ModeChange isFti idleInterval reading sim (.insert ev)
        { sim with sch := insertEvent time sim.sch ev }

theorem modeStep_change [DecidableEq E] {label : TimedStep E}
    (step : modeStep time isFti idleInterval sim label = some after) :
    sim.finished = false ∧
      ModeChange time isFti idleInterval label.reading sim label.step after := by
  obtain ⟨reading, action⟩ := label
  simp only [modeStep] at step
  split at step
  · cases step
  · rename_i running
    rw [Bool.or_eq_true, not_or, Bool.not_eq_true] at running
    refine ⟨running.1, ?_⟩
    split at step
    · rename_i atRest
      obtain ⟨fti, started⟩ := Option.ite_none_right_eq_some.mp step
      exact .tick atRest fti started
    · rename_i isCur
      exact .turn isCur (Option.ite_none_right_eq_some.mp step).2
    · rename_i isCur
      exact .endTick isCur step
    · rename_i atRest
      obtain ⟨⟨des, notWaking⟩, dispatched⟩ := Option.ite_none_right_eq_some.mp step
      exact .dispatch atRest des notWaking dispatched
    · rename_i atRest
      obtain ⟨-, ⟨rfl⟩⟩ := Option.ite_none_right_eq_some.mp step
      exact .wake atRest
    · cases step
      exact .readClock
    · obtain ⟨-, ⟨rfl⟩⟩ := Option.ite_none_right_eq_some.mp step
      exact .insertRead _ _
    · cases step
      exact .insert _
    · cases step

end Changes

/-! ## The queue up to the last event -/

section Bounded

variable (time : E → BitVec 64) (endTime : BitVec 64)

/-- A queue in the order of time that holds the last event. -/
structure HoldsFinish (queue : List (QueuedEvent E)) : Prop where
  sorted : queue.Pairwise fun a b => queuedTime time a ≤ queuedTime time b
  queued : .finish endTime ∈ queue

variable {time} {endTime}

namespace HoldsFinish

variable {sch : Scheduler (QueuedEvent E)}

theorem insertEvents (holds : HoldsFinish time endTime sch.evQueue) (events : List E) :
    HoldsFinish time endTime (insertEvents time sch events).evQueue where
  sorted := insertEvents_sorted holds.sorted
  queued := mem_insertEvents.mpr (Or.inr holds.queued)

theorem insertEvent (holds : HoldsFinish time endTime sch.evQueue) (ev : E) :
    HoldsFinish time endTime (insertEvent time sch ev).evQueue :=
  holds.insertEvents [ev]

variable {queue : List (QueuedEvent E)}

/-- The handled event is not the last one. -/
theorem erase [DecidableEq E] (holds : HoldsFinish time endTime queue) (ev : E) :
    HoldsFinish time endTime (queue.erase (.event ev)) where
  sorted := holds.sorted.sublist List.erase_sublist
  queued := (List.mem_erase_of_ne (by simp)).mpr holds.queued

theorem tail {ev : E} (holds : HoldsFinish time endTime (.event ev :: queue)) :
    HoldsFinish time endTime queue where
  sorted := holds.sorted.of_cons
  queued := List.mem_of_ne_of_mem (by simp) holds.queued

/-- The first event is not later than the last one. -/
theorem head_le {head : QueuedEvent E} (holds : HoldsFinish time endTime (head :: queue)) :
    queuedTime time head ≤ endTime.toNat := by
  rcases List.mem_cons.mp holds.queued with isHead | later
  · rw [← isHead]
    exact Nat.le_refl _
  · exact (List.pairwise_cons.mp holds.sorted).1 _ later

theorem ne_nil (holds : HoldsFinish time endTime queue) :
    queue ≠ [] :=
  List.ne_nil_of_mem holds.queued

end HoldsFinish

variable (time) (endTime)

/-- Until the last event is taken the queue holds it; no event later than it is looked
at by a tick or has been handled, and no null event has been followed. -/
structure Bounded (sim : ModeState E) : Prop where
  queue : sim.finished = false → HoldsFinish time endTime sim.sch.evQueue
  current : ∀ cur, sim.curEv = some cur → queuedTime time cur ≤ endTime.toNat
  passed : ∀ ev ∈ sim.passed, (time ev).toNat ≤ endTime.toNat
  noFault : sim.fault = false
  clock : sim.sch.clock < 2 ^ 64

variable {time} {endTime}

theorem bounded_simInit (events : List E) (reading : Timespec) :
    Bounded time endTime (simInit time events endTime reading) where
  queue := by
    intro _
    constructor
    · exact insertInorder_sorted (priocmp_nonneg_iff _) _
        (insertEvents_sorted List.Pairwise.nil)
    · exact mem_insertInorder.mpr (Or.inl rfl)
  current := by
    intro cur isCur
    cases isCur
  passed := by
    intro ev member
    cases member
  noFault := rfl
  clock := by
    simp only [simInit, schedulerInsert, insertEvents_clock, schedulerNew]
    decide

namespace Bounded

variable {sim : ModeState E}

/-- A tick that looks at the first event finds one, not later than the last. -/
theorem retrieveCur (bounded : Bounded time endTime sim) (running : sim.finished = false) :
    Bounded time endTime (retrieveCur sim) := by
  have holds := bounded.queue running
  unfold Sim.retrieveCur schedulerRetrieve
  cases queueEq : sim.sch.evQueue with
  | nil => exact absurd queueEq holds.ne_nil
  | cons head rest =>
    constructor
    · exact bounded.queue
    · rintro cur ⟨rfl⟩
      rw [queueEq] at holds
      exact holds.head_le
    · exact bounded.passed
    · exact bounded.noFault
    · exact bounded.clock

theorem setClock (bounded : Bounded time endTime sim) {clock : Nat} (small : clock < 2 ^ 64) :
    Bounded time endTime { sim with sch := { sim.sch with clock := clock } } :=
  ⟨bounded.queue, bounded.current, bounded.passed, bounded.noFault, small⟩

variable {after : ModeState E}

section

variable (bounded : Bounded time endTime sim)

include bounded

theorem startTick {now : Timespec} (running : sim.finished = false)
    (step : startTick now sim = some after) :
    Bounded time endTime after := by
  obtain ⟨delta, -, rfl⟩ := Option.map_eq_some_iff.mp step
  have small : (sim.sch.clock + delta) % 2 ^ 64 < 2 ^ 64 := Nat.mod_lt _ (by decide)
  have looked := (bounded.setClock small).retrieveCur running
  obtain ⟨wrt, wrtEq⟩ := noteWrite_eq (Sim.retrieveCur _)
  rw [wrtEq]
  exact ⟨looked.queue, looked.current, looked.passed, looked.noFault, looked.clock⟩

theorem insert (ev : E) :
    Bounded time endTime { sim with sch := insertEvent time sim.sch ev } where
  queue := fun running => (bounded.queue running).insertEvent ev
  current := bounded.current
  passed := bounded.passed
  noFault := bounded.noFault
  clock := bounded.clock

theorem checkIdle (idleInterval : Nat) :
    Bounded time endTime (checkIdle idleInterval sim) := by
  unfold Sim.checkIdle
  split
  · exact ⟨bounded.queue, bounded.current, bounded.passed, bounded.noFault, bounded.clock⟩
  · exact bounded

theorem endTick {idleInterval : Nat} {reading : Timespec} {cur : QueuedEvent E}
    (step : endTick time idleInterval reading cur sim = some after) :
    Bounded time endTime after := by
  obtain ⟨stats, last, rfl, -⟩ := endTick_cases step
  apply Bounded.checkIdle
  exact ⟨bounded.queue, nofun, bounded.passed, bounded.noFault, bounded.clock⟩

end

variable {ev : E} {inserted : List E}

theorem passed_concat (bounded : Bounded time endTime sim)
    (inTime : (time ev).toNat ≤ endTime.toNat) :
    ∀ item ∈ sim.passed ++ [ev], (time item).toNat ≤ endTime.toNat := by
  intro item member
  rcases List.mem_append.mp member with earlier | isLast
  · exact bounded.passed item earlier
  · rw [List.mem_singleton.mp isLast]
    exact inTime

variable [DecidableEq E] {isFti : E → Bool}

theorem contTurn (bounded : Bounded time endTime sim) (running : sim.finished = false)
    (isCur : sim.curEv = some (.event ev))
    (step : contTurn time isFti inserted ev sim = some after) :
    Bounded time endTime after := by
  obtain ⟨stats, statsEq⟩ := noteStats_eq sim (time ev).toNat
  simp only [Sim.contTurn, statsEq] at step
  obtain ⟨sch, deleted, rfl⟩ := Option.map_eq_some_iff.mp step
  obtain ⟨queue, unlinked, rfl⟩ := Option.map_eq_some_iff.mp deleted
  have holds : HoldsFinish time endTime queue := by
    have grown := (bounded.queue running).insertEvents inserted
    cases queueEq : (insertEvents time sim.sch inserted).evQueue with
    | nil => exact absurd queueEq grown.ne_nil
    | cons head rest =>
      rw [queueEq] at unlinked grown
      cases unlinked
      exact grown.erase ev
  apply Bounded.retrieveCur
  · constructor
    · exact fun _ => holds
    · exact bounded.current
    · exact bounded.passed_concat (bounded.current _ isCur)
    · exact bounded.noFault
    · simpa only [insertEvents_clock] using bounded.clock
  · exact running

omit [DecidableEq E] in
theorem desMode (bounded : Bounded time endTime sim) (running : sim.finished = false)
    (step : desMode time isFti inserted sim = some after) :
    Bounded time endTime after := by
  have holds := bounded.queue running
  rcases desMode_cases holds.ne_nil step with
    ⟨finishTime, rest, stats, queueEq, rfl⟩ | ⟨ev, rest, stats, queueEq, rfl⟩
  · exact ⟨nofun, bounded.current, bounded.passed, bounded.noFault, finishTime.isLt⟩
  · rw [queueEq] at holds
    constructor
    · exact fun _ => HoldsFinish.insertEvents holds.tail inserted
    · exact bounded.current
    · exact bounded.passed_concat holds.head_le
    · exact bounded.noFault
    · rw [insertEvents_clock]
      exact (time ev).isLt

/-- Every step keeps the last event in front of the end of the run. -/
theorem step {label : TimedStep E} {idleInterval : Nat} (bounded : Bounded time endTime sim)
    (step : modeStep time isFti idleInterval sim label = some after) :
    Bounded time endTime after := by
  obtain ⟨reading, action⟩ := label
  obtain ⟨running, change⟩ := modeStep_change step
  cases change with
  | tick atRest fti started => exact bounded.startTick running started
  | turn isCur turned => exact bounded.contTurn running isCur turned
  | endTick isCur ended => exact bounded.endTick ended
  | dispatch atRest des notWaking dispatched => exact bounded.desMode running dispatched
  | wake atRest | readClock =>
    exact ⟨bounded.queue, bounded.current, bounded.passed, bounded.noFault, bounded.clock⟩
  | insertRead index ev =>
    exact ⟨(bounded.insert ev).queue, bounded.current, bounded.passed, bounded.noFault,
      bounded.clock⟩
  | insert ev => exact bounded.insert ev

end Bounded

variable [DecidableEq E] {isFti : E → Bool}

theorem bounded_run {events : List E} {reading : Timespec} {idleInterval : Nat}
    {labels : List (TimedStep E)} {sim : ModeState E}
    (ran : run (modeStep time isFti idleInterval) (simInit time events endTime reading) labels =
      some sim) : Bounded time endTime sim :=
  run_invariant (fun bounded _ step => bounded.step step) (bounded_simInit events reading)
    (along_true _ _ _) ran

variable (time) (endTime) (isFti)

/-- Until the last event is dispatched the queue is not empty: retrieving and
dispatching return an event, and no null event has been followed.  No event later than
the last one has been handled in either mode. -/
theorem finish_bounds_run {events : List E} {reading : Timespec} {idleInterval : Nat}
    {labels : List (TimedStep E)} {sim : ModeState E}
    (ran : run (modeStep time isFti idleInterval) (simInit time events endTime reading) labels =
      some sim) :
    (sim.finished = false →
      sim.sch.evQueue ≠ [] ∧ schedulerRetrieve sim.sch ≠ none ∧
        schedulerDispatch sim.sch ≠ none) ∧
      sim.fault = false ∧ ∀ ev ∈ sim.passed, (time ev).toNat ≤ endTime.toNat := by
  have bounded := bounded_run ran
  refine ⟨fun running => ?_, bounded.noFault, bounded.passed⟩
  have notEmpty := (bounded.queue running).ne_nil
  refine ⟨notEmpty, ?_, ?_⟩
  · simpa [schedulerRetrieve] using notEmpty
  · unfold schedulerDispatch
    split
    · contradiction
    · simp

end Bounded

/-! ## A run through both modes -/

/-- A reading of the monotonic clock in whole microseconds. -/
def readingUs (us : Nat) : Timespec where
  sec := us / 1000000
  nsec := us % 1000000 * 1000
  valid := by omega

/-- A tick at six microseconds handles a controller event, which schedules two others;
the data plane thread takes the earlier one and then the last event. -/
def bothModes : List (TimedStep (Bool × BitVec 64)) :=
  [⟨readingUs 6, .tick⟩, ⟨readingUs 6, .turn [(false, 20), (false, 7)]⟩,
    ⟨readingUs 6, .endTick⟩, ⟨readingUs 6, .dispatch []⟩, ⟨readingUs 6, .dispatch []⟩]

theorem finish_bounds_run_bothModes :
    ∃ sim, run (modeStep Prod.snd Prod.fst 0) (simInit Prod.snd [(true, 5)] 10 (readingUs 0))
        bothModes = some sim ∧
      sim.finished = true ∧ sim.passed = [(true, 5), (false, 7)] ∧
      ∀ ev ∈ sim.passed, ev.2.toNat ≤ 10 := by
  refine ⟨_, rfl, rfl, rfl, ?_⟩
  exact (@finish_bounds_run _ Prod.snd 10 _ Prod.fst [(true, 5)] (readingUs 0) 0 bothModes _
    rfl).2.2

end Horse.Sim
