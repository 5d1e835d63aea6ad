import Horse.Container.LinkedCells
import Horse.Sim.Scheduler

/-!
# The event queue in memory

The scheduler with its queue as it is in memory: `ev_queue` points to the first event, and
the events are linked by their member `next`.  An event is its address.  Each operation
does to the memory what the operation of `Scheduler` does to the list, provided that an
event is not inserted while it is linked already.

From this follows what every sequence of calls on a new scheduler leaves in the queue, and
that the one call that fails is a dispatch from the empty queue.
-/

namespace Horse.Sim

open Horse.Container Horse.Transition

universe u

variable {E : Type u}

/-- `struct scheduler` without its mutex, and the `next` members of all events. -/
structure CellScheduler (E : Type u) where
  clock : Nat
  evQueue : Links E
  mode : SchedulerMode

/-- `scheduler_new`; the members of the events are not initialised. -/
def cellSchedulerNew (memory : E → Option E) : CellScheduler E where
  clock := 0
  evQueue := ⟨none, memory⟩
  mode := .fti

section Operations

variable [DecidableEq E] (time : E → Nat) (turns : Nat)

/-- `scheduler_insert`, with at most the given turns of its loop. -/
def cellInsert (sch : CellScheduler E) (ev : E) : Option (CellScheduler E) :=
  (sch.evQueue.insertInorder (priocmp time) turns ev).map fun queue =>
    { sch with evQueue := queue }

/-- `scheduler_delete`. -/
def cellDelete (sch : CellScheduler E) (ev : E) : Option (CellScheduler E) :=
  (sch.evQueue.delete turns (some ev)).map fun queue => { sch with evQueue := queue }

/-- `scheduler_dispatch`: the pointer that is returned, and the scheduler. -/
def cellDispatch (sch : CellScheduler E) : Option (Option E × CellScheduler E) :=
  (sch.evQueue.delete turns sch.evQueue.head).map fun queue =>
    (sch.evQueue.head, { sch with evQueue := queue })

end Operations

/-! ## Refinement -/

/-- The memory holds the queue of a scheduler. -/
structure Stores (cells : CellScheduler E) (sch : Scheduler E) : Prop where
  clock : cells.clock = sch.clock
  mode : cells.mode = sch.mode
  queue : Linked cells.evQueue.next cells.evQueue.head sch.evQueue

theorem stores_new (memory : E → Option E) : Stores (cellSchedulerNew memory) (schedulerNew E) :=
  ⟨rfl, rfl, .nil⟩

section Refinement

variable [DecidableEq E] {time : E → Nat} {turns : Nat} {cells : CellScheduler E}
  {sch : Scheduler E} {ev : E}

theorem cellInsert_refines (stores : Stores cells sch) (fresh : ev ∉ sch.evQueue)
    (enough : sch.evQueue.length ≤ turns) :
    ∃ after, cellInsert time turns cells ev = some after ∧
      Stores after (schedulerInsert time sch ev) := by
  obtain ⟨queue, inserted, linked⟩ :=
    @Links.insertInorder_refines _ (priocmp time) _ _ _ _ _ stores.queue fresh enough
  refine ⟨{ cells with evQueue := queue }, ?_, stores.clock, stores.mode, linked⟩
  rw [cellInsert, inserted, Option.map_some]

theorem cellDelete_refines (stores : Stores cells sch) (member : ev ∈ sch.evQueue)
    (enough : sch.evQueue.length ≤ turns) :
    ∃ after, cellDelete turns cells ev = some after ∧
      Stores after { sch with evQueue := sch.evQueue.erase ev } := by
  obtain ⟨queue, deleted, linked⟩ := Links.delete_refines stores.queue member enough
  refine ⟨{ cells with evQueue := queue }, ?_, stores.clock, stores.mode, linked⟩
  rw [cellDelete, deleted, Option.map_some]

/-- The first event is unlinked and returned. -/
theorem cellDispatch_refines {after : Scheduler E} (stores : Stores cells sch)
    (dispatched : schedulerDispatch sch = some (ev, after))
    (enough : sch.evQueue.length ≤ turns) :
    ∃ left, cellDispatch turns cells = some (some ev, left) ∧ Stores left after := by
  obtain ⟨clock, queue, mode⟩ := sch
  cases queue with
  | nil => cases dispatched
  | cons first rest =>
    cases dispatched
    have isHead : cells.evQueue.head = some ev := by
      have linked := stores.queue
      generalize cells.evQueue.head = pointer at linked
      cases linked
      rfl
    obtain ⟨left, deleted, linked⟩ :=
      Links.delete_refines stores.queue List.mem_cons_self enough
    rw [List.erase_cons_head] at linked
    refine ⟨{ cells with evQueue := left }, ?_, stores.clock, stores.mode, linked⟩
    rw [cellDispatch, isHead, deleted, Option.map_some]

/-- On the empty queue the null pointer is followed. -/
theorem cellDispatch_empty (empty : cells.evQueue.head = none) :
    cellDispatch turns cells = none := by
  rw [cellDispatch, Links.delete_empty _ empty, Option.map_none]

end Refinement

/-! ## Call sequences -/

/-- A scheduler, with the events inserted so far and those deleted or dispatched, the latest
first. -/
structure QueueHistory (E : Type u) where
  sch : CellScheduler E
  inserted : List E
  removed : List E

/-- A new scheduler, without a history. -/
def QueueHistory.new (memory : E → Option E) : QueueHistory E where
  sch := cellSchedulerNew memory
  inserted := []
  removed := []

/-- The calls on a scheduler. -/
inductive QueueCall (E : Type u)
  | insert (ev : E)
  | delete (ev : E)
  | dispatch

/-- An event is linked in the queue. -/
def Queued (sch : CellScheduler E) (ev : E) : Prop :=
  ∃ queue, Linked sch.evQueue.next sch.evQueue.head queue ∧ ev ∈ queue

/-- An event is inserted only while it is not linked, and deleted only while it is. -/
def QueueCall.Valid (state : QueueHistory E) : QueueCall E → Prop
  | .insert ev => ¬Queued state.sch ev
  | .delete ev => Queued state.sch ev
  | .dispatch => True

section Calls

variable [DecidableEq E] (time : E → Nat)

/-- One call.  A queue of different events is no longer than the events inserted so far, so
the loops need no more turns. -/
def queueStep : Step (QueueHistory E) (QueueCall E)
  | state, .insert ev =>
    (cellInsert time state.inserted.length state.sch ev).map fun sch =>
      { state with sch := sch, inserted := ev :: state.inserted }
  | state, .delete ev =>
    (cellDelete state.inserted.length state.sch ev).map fun sch =>
      { state with sch := sch, removed := ev :: state.removed }
  | state, .dispatch =>
    (cellDispatch state.inserted.length state.sch).map fun (ev, sch) =>
      { state with sch := sch, removed := ev.toList ++ state.removed }

omit [DecidableEq E] in
/-- The memory holds an ordered queue of the events that were not removed again. -/
structure QueueSound (state : QueueHistory E) (sch : Scheduler E) : Prop where
  stores : Stores state.sch sch
  sorted : sch.evQueue.Pairwise fun a b => time a ≤ time b
  exact : state.inserted.Perm (state.removed ++ sch.evQueue)

variable {time} {state after : QueueHistory E} {sch : Scheduler E} {ev : E}

omit [DecidableEq E] in
theorem queueSound_new (memory : E → Option E) :
    QueueSound time (QueueHistory.new memory) (schedulerNew E) :=
  ⟨stores_new memory, List.Pairwise.nil, List.Perm.nil⟩

namespace QueueSound

variable (sound : QueueSound time state sch)
include sound

omit [DecidableEq E] in
theorem queued_iff : Queued state.sch ev ↔ ev ∈ sch.evQueue := by
  constructor
  · rintro ⟨queue, linked, member⟩
    rwa [linked.unique sound.stores.queue] at member
  · exact fun member => ⟨sch.evQueue, sound.stores.queue, member⟩

omit [DecidableEq E] in
/-- The loops have enough turns. -/
theorem enough : sch.evQueue.length ≤ state.inserted.length := by
  rw [sound.exact.length_eq, List.length_append]
  omega

omit [DecidableEq E] in
/-- The head is null where the queue is empty. -/
theorem head_eq_none_iff : state.sch.evQueue.head = none ↔ sch.evQueue = [] := by
  have linked := sound.stores.queue
  generalize state.sch.evQueue.head = pointer, sch.evQueue = queue at linked
  cases linked with
  | nil => exact iff_of_true rfl rfl
  | cons => exact iff_of_false (Option.some_ne_none _) (List.cons_ne_nil _ _)

theorem insert (fresh : ev ∉ sch.evQueue) :
    ∃ after, queueStep time state (.insert ev) = some after ∧
      QueueSound time after (schedulerInsert time sch ev) := by
  obtain ⟨cells, inserted, stores⟩ := cellInsert_refines sound.stores fresh sound.enough
  refine ⟨⟨cells, ev :: state.inserted, state.removed⟩, ?_, stores, ?_, ?_⟩
  · rw [queueStep, inserted, Option.map_some]
  · exact insertInorder_sorted (priocmp_nonneg_iff time) ev sound.sorted
  · refine (sound.exact.cons ev).trans (List.perm_middle.symm.trans ?_)
    exact (insertInorder_perm _ _ _).symm.append_left _

omit [DecidableEq E] in
/-- An event that leaves the queue is among the removed ones. -/
theorem moved {queue : List E}
    (left : sch.evQueue.Perm (ev :: queue)) :
    state.inserted.Perm (ev :: state.removed ++ queue) :=
  sound.exact.trans ((left.append_left _).trans List.perm_middle)

theorem delete (member : ev ∈ sch.evQueue) :
    ∃ after, queueStep time state (.delete ev) = some after ∧
      QueueSound time after { sch with evQueue := sch.evQueue.erase ev } := by
  obtain ⟨cells, deleted, stores⟩ := cellDelete_refines sound.stores member sound.enough
  refine ⟨⟨cells, state.inserted, ev :: state.removed⟩, ?_, stores, ?_, ?_⟩
  · rw [queueStep, deleted, Option.map_some]
  · exact sound.sorted.sublist List.erase_sublist
  · exact sound.moved (List.perm_cons_erase member)

/-- The first event is dispatched, and no event is earlier. -/
theorem dispatch {rest : List E}
    (isQueue : sch.evQueue = ev :: rest) :
    ∃ cells, cellDispatch state.inserted.length state.sch = some (some ev, cells) ∧
      queueStep time state .dispatch = some ⟨cells, state.inserted, ev :: state.removed⟩ ∧
      QueueSound time ⟨cells, state.inserted, ev :: state.removed⟩ { sch with evQueue := rest } ∧
      ∀ other ∈ sch.evQueue, time ev ≤ time other := by
  have dispatched : schedulerDispatch sch = some (ev, { sch with evQueue := rest }) := by
    rw [schedulerDispatch, isQueue]
  obtain ⟨cells, done, stores⟩ := cellDispatch_refines sound.stores dispatched sound.enough
  have sorted := sound.sorted
  rw [isQueue, List.pairwise_cons] at sorted
  refine ⟨cells, done, ?_, ⟨stores, sorted.2, ?_⟩, ?_⟩
  · rw [queueStep, done]
    rfl
  · exact sound.moved (isQueue ▸ List.Perm.refl _)
  · rw [isQueue]
    exact List.forall_mem_cons.mpr ⟨Nat.le_refl _, sorted.1⟩

/-- The calls that are defined, and what they keep. -/
theorem step {call : QueueCall E} (valid : call.Valid state) :
    (call = .dispatch ∧ state.sch.evQueue.head = none ∧ queueStep time state call = none) ∨
      ¬(call = .dispatch ∧ state.sch.evQueue.head = none) ∧
        ∃ after sch', queueStep time state call = some after ∧ QueueSound time after sch' := by
  cases call with
  | insert ev =>
    have fresh : ev ∉ sch.evQueue := fun member => valid (sound.queued_iff.mpr member)
    obtain ⟨after, done, kept⟩ := sound.insert fresh
    exact .inr ⟨by simp, after, _, done, kept⟩
  | delete ev =>
    obtain ⟨after, done, kept⟩ := sound.delete (sound.queued_iff.mp valid)
    exact .inr ⟨by simp, after, _, done, kept⟩
  | dispatch =>
    cases isQueue : sch.evQueue with
    | nil =>
      have empty := sound.head_eq_none_iff.mpr isQueue
      refine .inl ⟨rfl, empty, ?_⟩
      rw [queueStep, cellDispatch_empty empty, Option.map_none]
    | cons ev rest =>
      obtain ⟨cells, -, done, kept, -⟩ := sound.dispatch isQueue
      refine .inr ⟨fun empty => ?_, _, _, done, kept⟩
      exact List.cons_ne_nil _ _ (isQueue.symm.trans (sound.head_eq_none_iff.mp empty.2))

end QueueSound

/-- What the queue in memory should be after some calls. -/
structure QueueCorrect (time : E → Nat) (state : QueueHistory E) (queue : List E) : Prop where
  linked : Linked state.sch.evQueue.next state.sch.evQueue.head queue
  sorted : queue.Pairwise fun a b => time a ≤ time b
  nodup : queue.Nodup
  exact : state.inserted.Perm (state.removed ++ queue)
  dispatch : queue ≠ [] → ∃ ev sch,
    cellDispatch state.inserted.length state.sch = some (some ev, sch) ∧ ev ∈ queue ∧
      ∀ other ∈ queue, time ev ≤ time other

theorem QueueSound.correct (sound : QueueSound time state sch) :
    QueueCorrect time state sch.evQueue where
  linked := sound.stores.queue
  sorted := sound.sorted
  nodup := sound.stores.queue.nodup
  exact := sound.exact
  dispatch := by
    intro nonempty
    obtain ⟨ev, rest, isQueue⟩ := List.exists_cons_of_ne_nil nonempty
    obtain ⟨cells, done, -, -, first⟩ := sound.dispatch isQueue
    exact ⟨ev, cells, done, isQueue ▸ List.mem_cons_self, first⟩

/-- Every call on a new scheduler is defined but a dispatch from the empty queue.  In every
state the queue is ordered by time, has exactly the inserted events that were not deleted or
dispatched, each once, and a dispatch returns one of the earliest. -/
theorem event_queue_correct (time : E → Nat) (memory : E → Option E) (calls : List (QueueCall E))
    (valid : Along (queueStep time) (fun state call => call.Valid state)
      (QueueHistory.new memory) calls) :
    ((run (queueStep time) (QueueHistory.new memory) calls).isSome ↔
      Along (queueStep time)
        (fun state call => ¬(call = .dispatch ∧ state.sch.evQueue.head = none))
        (QueueHistory.new memory) calls) ∧
    ∀ final, run (queueStep time) (QueueHistory.new memory) calls = some final →
      ∃ queue, QueueCorrect time final queue := by
  have start : ∃ sch, QueueSound time (QueueHistory.new memory) sch := ⟨_, queueSound_new memory⟩
  have keeps : ∀ {state after : QueueHistory E} {call : QueueCall E}, call.Valid state →
      (∃ sch, QueueSound time state sch) → queueStep time state call = some after →
      ∃ sch, QueueSound time after sch := by
    rintro state after call valid ⟨sch, sound⟩ done
    rcases sound.step valid with ⟨-, -, failed⟩ | ⟨-, other, sch', same, kept⟩
    · cases failed.symm.trans done
    · cases same.symm.trans done
      exact ⟨sch', kept⟩
  constructor
  · refine run_isSome_iff_of_valid keeps ?_ start valid
    rintro state call valid ⟨sch, sound⟩
    rcases sound.step valid with ⟨isDispatch, empty, failed⟩ | ⟨other, after, -, done, -⟩
    · rw [failed]
      exact iff_of_false Bool.false_ne_true fun other => other ⟨isDispatch, empty⟩
    · rw [done]
      exact iff_of_true rfl other
  · intro final ran
    obtain ⟨sch, sound⟩ := run_invariant (fun sound valid => keeps valid sound) start valid ran
    exact ⟨sch.evQueue, sound.correct⟩

end Calls

/-- Two events, of which the second is the earlier one, and a dispatch. -/
def twoEvents : List (QueueCall (Nat × Nat)) :=
  [.insert (1, 5), .insert (2, 3), .dispatch]

theorem event_queue_correct_twoEvents :
    ∃ final queue, run (queueStep Prod.snd) (QueueHistory.new fun _ => none) twoEvents =
        some final ∧
      final.removed = [(2, 3)] ∧ QueueCorrect Prod.snd final queue := by
  have valid : Along (queueStep Prod.snd) (fun state call => call.Valid state)
      (QueueHistory.new fun _ => none) twoEvents := by
    refine ⟨?_, fun after done => ⟨?_, fun _ _ => ⟨trivial, fun _ _ => trivial⟩⟩⟩
    · rintro ⟨queue, linked, member⟩
      cases linked
      exact List.not_mem_nil member
    · cases done
      rintro ⟨queue, linked, member⟩
      cases linked with
      | cons linked =>
        cases linked
        exact absurd member (by decide)
  obtain ⟨queue, correct⟩ :=
    (event_queue_correct Prod.snd (fun _ => none) twoEvents valid).2 _ rfl
  exact ⟨_, queue, rfl, rfl, correct⟩

end Horse.Sim
