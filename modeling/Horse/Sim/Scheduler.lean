import Horse.Container.LinkedList
import Horse.Transition.Run
import Mathlib.Data.BitVec
import Mathlib.Data.List.Nodup
import Mathlib.Data.Nat.Basic

/-!
# The event scheduler

The scheduler keeps the pending events in one list ordered by time.  Events are
generic here: the queue only reads their time and compares them by identity.
The callback that receives an OpenFlow message stamps a new event with the
current clock and inserts it.
-/

namespace Horse.Sim

open Horse.Container Horse.Transition

universe u

/-- `enum scheduler_mode`. -/
inductive SchedulerMode
  | des
  | fti
  deriving DecidableEq, Repr

/-- `struct scheduler` without its mutex. -/
structure Scheduler (E : Type u) where
  clock : Nat
  evQueue : List E
  mode : SchedulerMode
  deriving DecidableEq, Repr

/-- `scheduler_new`. -/
def schedulerNew (E : Type u) : Scheduler E where
  clock := 0
  evQueue := []
  mode := .fti

section Operations

variable {E : Type u} (time : E → Nat)

/-- Comparison used to order the queue. -/
def priocmp (a b : E) : Int :=
  if time a < time b then -1
  else if time b < time a then 1
  else 0

theorem priocmp_nonneg_iff (a b : E) : 0 ≤ priocmp time a b ↔ time b ≤ time a := by
  unfold priocmp
  split
  · simp; omega
  · split <;> simp <;> omega

/-- `scheduler_insert`. -/
def schedulerInsert (sch : Scheduler E) (ev : E) : Scheduler E :=
  { sch with evQueue := insertInorder (priocmp time) ev sch.evQueue }

/-- `conn_manager_of_message_cb`: the event made from the message carries the
clock read at its arrival. -/
def connManagerOfMessageCb (sch : Scheduler E) (simEventOfMsgInNew : Nat → E) :
    Scheduler E :=
  schedulerInsert time sch (simEventOfMsgInNew sch.clock)

variable [DecidableEq E]

/-- `scheduler_delete`; undefined on an empty queue. -/
def schedulerDelete (sch : Scheduler E) (ev : E) : Option (Scheduler E) :=
  (llDelete ev sch.evQueue).map fun queue => { sch with evQueue := queue }

omit [DecidableEq E] in
/-- `scheduler_retrieve`. -/
def schedulerRetrieve (sch : Scheduler E) : Option E :=
  sch.evQueue.head?

omit [DecidableEq E] in
/-- `scheduler_dispatch`; undefined on an empty queue, where the null head is
dereferenced. -/
def schedulerDispatch (sch : Scheduler E) : Option (E × Scheduler E) :=
  match sch.evQueue with
  | [] => none
  | ev :: rest => some (ev, { sch with evQueue := rest })

omit [DecidableEq E] in
/-- The events in the order in which dispatching until the queue is empty
returns them. -/
def dispatchAll : Nat → Scheduler E → List E
  | 0, _ => []
  | fuel + 1, sch =>
    match schedulerDispatch sch with
    | none => []
    | some (ev, rest) => ev :: dispatchAll fuel rest

omit [DecidableEq E] in
/-- Dispatching returns the events in queue order. -/
theorem dispatchAll_eq_evQueue {fuel : Nat} {sch : Scheduler E}
    (enough : sch.evQueue.length ≤ fuel) : dispatchAll fuel sch = sch.evQueue := by
  induction fuel generalizing sch with
  | zero => exact (List.length_eq_zero_iff.mp (Nat.le_zero.mp enough)).symm
  | succ fuel ih =>
    rcases sch with ⟨clock, queue, mode⟩
    cases queue with
    | nil => rfl
    | cons ev rest =>
      simp only [List.length_cons, Nat.succ_le_succ_iff] at enough
      simp only [dispatchAll, schedulerDispatch]
      exact congrArg (ev :: ·) (ih enough)

end Operations

/-! ## Call sequences -/

/-- The calls made on a scheduler, and the clock changes between them. -/
inductive SchedulerCall (E : Type u)
  | insert (ev : E)
  | ofMessage (simEventOfMsgInNew : Nat → E)
  | delete (ev : E)
  | dispatch
  | setClock (clock : Nat)

/-- A scheduler with the log of the events inserted so far, oldest first.  The
log is only observed. -/
structure LoggedScheduler (E : Type u) where
  sch : Scheduler E
  log : List E

/-- A fresh scheduler, before any call. -/
def LoggedScheduler.new (E : Type u) : LoggedScheduler E where
  sch := schedulerNew E
  log := []

section Calls

variable {E : Type u} (time : E → Nat)

/-- The event a call inserts. -/
def SchedulerCall.inserted (clock : Nat) : SchedulerCall E → Option E
  | .insert ev => some ev
  | .ofMessage simEventOfMsgInNew => some (simEventOfMsgInNew clock)
  | _ => none

/-- A call inserts an event object that was not inserted before: every
constructor of an event allocates it. -/
def SchedulerCall.Fresh (state : LoggedScheduler E) (call : SchedulerCall E) : Prop :=
  ∀ ev, call.inserted state.sch.clock = some ev → ev ∉ state.log

variable [DecidableEq E]

/-- One call. -/
def schedulerStep : Step (LoggedScheduler E) (SchedulerCall E)
  | state, .insert ev =>
    some ⟨schedulerInsert time state.sch ev, state.log ++ [ev]⟩
  | state, .ofMessage simEventOfMsgInNew =>
    some ⟨connManagerOfMessageCb time state.sch simEventOfMsgInNew,
      state.log ++ [simEventOfMsgInNew state.sch.clock]⟩
  | state, .delete ev =>
    (schedulerDelete state.sch ev).map fun sch => ⟨sch, state.log⟩
  | state, .dispatch =>
    (schedulerDispatch state.sch).map fun result => ⟨result.2, state.log⟩
  | state, .setClock clock => some ⟨{ state.sch with clock := clock }, state.log⟩

variable {state after : LoggedScheduler E}

/-- What a call does to the queue: it inserts the event it logs, or removes one
event, or leaves the queue alone. -/
theorem schedulerStep_cases {call : SchedulerCall E}
    (step : schedulerStep time state call = some after) :
    (∃ ev, call.inserted state.sch.clock = some ev ∧
        after.sch.evQueue = insertInorder (priocmp time) ev state.sch.evQueue ∧
        after.log = state.log ++ [ev]) ∨
      (∃ ev, after.sch.evQueue = state.sch.evQueue.erase ev ∧ after.log = state.log) ∨
      (after.sch.evQueue = state.sch.evQueue ∧ after.log = state.log) := by
  cases call with
  | insert ev =>
    cases step
    exact Or.inl ⟨ev, rfl, rfl, rfl⟩
  | ofMessage simEventOfMsgInNew =>
    cases step
    exact Or.inl ⟨_, rfl, rfl, rfl⟩
  | delete ev =>
    obtain ⟨sch, deleted, rfl⟩ := Option.map_eq_some_iff.mp step
    obtain ⟨queue, unlinked, rfl⟩ := Option.map_eq_some_iff.mp deleted
    cases queueEq : state.sch.evQueue with
    | nil =>
      rw [queueEq] at unlinked
      cases unlinked
    | cons head rest =>
      rw [queueEq] at unlinked
      cases unlinked
      exact Or.inr (Or.inl ⟨ev, rfl, rfl⟩)
  | dispatch =>
    obtain ⟨result, dispatched, rfl⟩ := Option.map_eq_some_iff.mp step
    simp only [schedulerDispatch] at dispatched
    cases queueEq : state.sch.evQueue with
    | nil => simp [queueEq] at dispatched
    | cons head rest =>
      simp only [queueEq, Option.some.injEq] at dispatched
      subst result
      exact Or.inr (Or.inl ⟨head, by simp, rfl⟩)
  | setClock clock =>
    cases step
    exact Or.inr (Or.inr ⟨rfl, rfl⟩)

/-- What holds of a scheduler between calls: the queue is ordered by time,
holds each logged event at most once, and keeps events of equal time in the
reverse of the order in which they were inserted. -/
structure QueueInvariant (state : LoggedScheduler E) : Prop where
  logNodup : state.log.Nodup
  queueNodup : state.sch.evQueue.Nodup
  logged : ∀ ev ∈ state.sch.evQueue, ev ∈ state.log
  sorted : state.sch.evQueue.Pairwise fun a b => time a ≤ time b
  reversed : ∀ {a b}, [a, b].Sublist state.log → a ∈ state.sch.evQueue →
    b ∈ state.sch.evQueue → time a = time b → [b, a].Sublist state.sch.evQueue

omit [DecidableEq E] in
theorem queueInvariant_new : QueueInvariant time (LoggedScheduler.new E) where
  logNodup := List.nodup_nil
  queueNodup := List.nodup_nil
  logged := fun _ member => member
  sorted := List.Pairwise.nil
  reversed := fun _ member => absurd member List.not_mem_nil

omit [DecidableEq E] in
theorem QueueInvariant.inserted {ev : E} (inv : QueueInvariant time state)
    (fresh : ev ∉ state.log)
    (queueEq : after.sch.evQueue = insertInorder (priocmp time) ev state.sch.evQueue)
    (logEq : after.log = state.log ++ [ev]) : QueueInvariant time after where
  logNodup := by
    rw [logEq, List.nodup_append]
    refine ⟨inv.logNodup, List.nodup_singleton ev, fun a aMem b bMem => ?_⟩
    rw [List.mem_singleton.mp bMem]
    exact fun aEq => fresh (aEq ▸ aMem)
  queueNodup := by
    rw [queueEq, (insertInorder_perm _ _ _).nodup_iff, List.nodup_cons]
    exact ⟨fun queued => fresh (inv.logged ev queued), inv.queueNodup⟩
  logged := by
    intro item member
    rw [queueEq, mem_insertInorder] at member
    rw [logEq, List.mem_append]
    rcases member with rfl | member
    · exact Or.inr (List.mem_singleton.mpr rfl)
    · exact Or.inl (inv.logged item member)
  sorted := by
    rw [queueEq]
    exact insertInorder_sorted (priocmp_nonneg_iff time) ev inv.sorted
  reversed := by
    intro a b order aMem bMem same
    rw [logEq] at order
    rw [queueEq] at aMem bMem ⊢
    rcases pair_sublist_concat order with old | ⟨aLogged, rfl⟩
    · have aNe : a ≠ ev := fun aEq => fresh (aEq ▸ old.subset (by simp))
      have bNe : b ≠ ev := fun bEq => fresh (bEq ▸ old.subset (by simp))
      have aQueued := (mem_insertInorder.mp aMem).resolve_left aNe
      have bQueued := (mem_insertInorder.mp bMem).resolve_left bNe
      exact (inv.reversed old aQueued bQueued same).trans (sublist_insertInorder _ _ _)
    · have aNe : a ≠ b := fun aEq => fresh (aEq ▸ aLogged)
      have aQueued := (mem_insertInorder.mp aMem).resolve_left aNe
      exact insertInorder_before (priocmp_nonneg_iff time) aQueued same

theorem QueueInvariant.erased {ev : E} (inv : QueueInvariant time state)
    (queueEq : after.sch.evQueue = state.sch.evQueue.erase ev) (logEq : after.log = state.log) :
    QueueInvariant time after where
  logNodup := logEq ▸ inv.logNodup
  queueNodup := queueEq ▸ inv.queueNodup.erase ev
  logged := by
    intro item member
    rw [queueEq] at member
    rw [logEq]
    exact inv.logged item (List.mem_of_mem_erase member)
  sorted := queueEq ▸ inv.sorted.sublist List.erase_sublist
  reversed := by
    intro a b order aMem bMem same
    rw [logEq] at order
    rw [queueEq] at aMem bMem ⊢
    obtain ⟨aNe, aQueued⟩ := inv.queueNodup.mem_erase_iff.mp aMem
    obtain ⟨bNe, bQueued⟩ := inv.queueNodup.mem_erase_iff.mp bMem
    exact pair_sublist_erase inv.queueNodup
      (inv.reversed order aQueued bQueued same) bNe aNe

/-- A call on fresh events keeps the queue invariant. -/
theorem QueueInvariant.step {call : SchedulerCall E} (inv : QueueInvariant time state)
    (fresh : call.Fresh state) (step : schedulerStep time state call = some after) :
    QueueInvariant time after := by
  rcases schedulerStep_cases time step with
    ⟨ev, inserted, queueEq, logEq⟩ | ⟨ev, queueEq, logEq⟩ | ⟨queueEq, logEq⟩
  · exact inv.inserted time (fresh ev inserted) queueEq logEq
  · exact inv.erased time queueEq logEq
  · rcases after with ⟨⟨clock, queue, mode⟩, log⟩
    simp only at queueEq logEq
    subst queueEq logEq
    exact ⟨inv.logNodup, inv.queueNodup, inv.logged, inv.sorted, inv.reversed⟩

/-- The queue invariant holds after every call sequence on fresh events. -/
theorem queueInvariant_run {calls : List (SchedulerCall E)}
    (fresh : Along (schedulerStep time) (fun state call => call.Fresh state)
      (LoggedScheduler.new E) calls)
    (ran : run (schedulerStep time) (LoggedScheduler.new E) calls = some state) :
    QueueInvariant time state :=
  run_invariant (fun inv fresh step => inv.step time fresh step)
    (queueInvariant_new time) fresh ran

/-- Of two queued events of equal time, dispatching returns the one inserted
later first, in every state of every call sequence. -/
theorem simultaneous_dispatched_in_reverse
    {calls : List (SchedulerCall E)} {state : LoggedScheduler E}
    (fresh : Along (schedulerStep time) (fun state call => call.Fresh state)
      (LoggedScheduler.new E) calls)
    (ran : run (schedulerStep time) (LoggedScheduler.new E) calls = some state)
    {first second : E} (order : [first, second].Sublist state.log)
    (firstQueued : first ∈ state.sch.evQueue) (secondQueued : second ∈ state.sch.evQueue)
    (same : time first = time second) :
    [second, first].Sublist (dispatchAll state.sch.evQueue.length state.sch) ∧
      ¬[first, second].Sublist (dispatchAll state.sch.evQueue.length state.sch) := by
  have inv := queueInvariant_run time fresh ran
  rw [dispatchAll_eq_evQueue (Nat.le_refl _)]
  have reversed := inv.reversed order firstQueued secondQueued same
  exact ⟨reversed, not_sublist_swap inv.queueNodup reversed⟩

end Calls

/-! ## Two messages at one clock value -/

/-- Two OpenFlow messages that arrive while the clock does not move; an event
is a message number with its time. -/
def twoMessages : List (SchedulerCall (Nat × Nat)) :=
  [.ofMessage fun clock => (1, clock), .ofMessage fun clock => (2, clock)]

theorem twoMessages_fresh :
    Along (schedulerStep Prod.snd) (fun state call => call.Fresh state)
      (LoggedScheduler.new (Nat × Nat)) twoMessages := by
  refine ⟨?_, fun after step => ⟨?_, fun _ _ => trivial⟩⟩
  · rintro ev -
    exact List.not_mem_nil
  · cases step
    intro ev inserted
    cases inserted
    decide

theorem twoMessages_run :
    run (schedulerStep Prod.snd) (LoggedScheduler.new (Nat × Nat)) twoMessages =
      some ⟨⟨0, [(2, 0), (1, 0)], .fti⟩, [(1, 0), (2, 0)]⟩ :=
  rfl

theorem simultaneous_dispatched_in_reverse_twoMessages :
    [((2, 0) : Nat × Nat), (1, 0)].Sublist
      (dispatchAll 2 (⟨0, [(2, 0), (1, 0)], .fti⟩ : Scheduler (Nat × Nat))) :=
  (simultaneous_dispatched_in_reverse Prod.snd twoMessages_fresh twoMessages_run
    (List.Sublist.refl _) (by decide) (by decide) rfl).1

/-- Messages that arrive at one clock value are not handled in arrival order. -/
theorem simultaneous_not_dispatched_in_order :
    ¬∀ (calls : List (SchedulerCall (Nat × Nat))) (state : LoggedScheduler (Nat × Nat)),
      Along (schedulerStep Prod.snd) (fun state call => call.Fresh state)
        (LoggedScheduler.new (Nat × Nat)) calls →
      run (schedulerStep Prod.snd) (LoggedScheduler.new (Nat × Nat)) calls = some state →
      ∀ first second, [first, second].Sublist state.log →
        first ∈ state.sch.evQueue → second ∈ state.sch.evQueue → first.2 = second.2 →
        [first, second].Sublist (dispatchAll state.sch.evQueue.length state.sch) := by
  intro dispatchedInOrder
  have inOrder := dispatchedInOrder twoMessages _ twoMessages_fresh twoMessages_run (1, 0) (2, 0)
    (List.Sublist.refl _) (by decide) (by decide) rfl
  revert inOrder
  decide

end Horse.Sim
