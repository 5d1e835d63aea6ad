import Horse.Sim.Ownership

/-!
# Runs that release no netflow in use

Receiving netflows and starting applications always leave exclusive references behind.
The two handlers that may release an object in use do so exactly if the condition fails.
-/

namespace Horse.Sim

open Horse.Container Horse.Lib Horse.Net Horse.Transition

section Handlers

variable {sum : TimeSum} {find : HashFind Flow} {evh after : EvHandler} {heap : Heap}
  {inserted : List SimEvent} {flowId time nodeId : Nat} {events : List SimEvent} {c : Cell}

theorem SendEffect.flowIds {outPort : BitVec 32}
    (effect : SendEffect sum evh nodeId flowId outPort after inserted) :
    after.flowIds = evh.flowIds := by
  cases effect with
  | ignored missing => rfl
  | lost atNode live isFlow sent loss same => rfl
  | freed atNode live isFlow sent noLoss restarts unlinked => exact flowIds_setFlow _ _ _
  | crossed atNode live isFlow sent noLoss restarts linked crosses => exact flowIds_setFlow _ _ _

theorem Owned.start (owned : Owned heap) (uuid first last : Nat) (move : FlowMove) :
    Owned (heap.start uuid first last move) := by
  cases move with
  | returned =>
    refine Owned.launch owned.heldPlain owned.waitingPlain ?_ (Or.inl rfl)
    apply owned.exclusive.of_count_le (Nat.le_succ _)
    intro obj
    simp only [Heap.objs, Option.toList_none, List.cons_append, List.nil_append, List.count_cons,
      beq_iff_eq]
    split <;> split <;> omega
  | dropped cleared =>
    refine ⟨owned.heldPlain, owned.waitingPlain, ?_⟩
    exact owned.exclusive.of_count_le (Nat.le_succ _) fun obj => Nat.le_add_right _ _
  | requested pushed =>
    refine Owned.launch owned.heldPlain ?_ ?_ (Or.inl rfl)
    · intro entry member
      cases pushed with
      | false => exact owned.waitingPlain entry member
      | true =>
        rcases List.mem_cons.mp member with rfl | old
        · rfl
        · exact owned.waitingPlain entry old
    · apply owned.exclusive.of_count_le (Nat.le_add_right _ 2)
      intro obj
      cases pushed with
      | false =>
        simp only [Heap.objs, Option.toList_none, List.cons_append, List.nil_append,
          List.count_cons, beq_iff_eq, Bool.false_eq_true, if_false]
        split <;> split <;> omega
      | true =>
        simp only [Heap.objs, Option.toList_none, List.cons_append, List.nil_append,
          List.count_cons, List.count_append, List.map_cons, beq_iff_eq, if_true]
        split <;> split <;> split <;> omega
  | released => exact owned

/-- The pointers after an application has started. -/
theorem Synced.start {uuid start : Nat} {node old : TopoNode} {move : FlowMove}
    {out : Option Netflow} (synced : Synced evh heap)
    (atNode : topologyNode evh.topo uuid = some old) (sameUuid : node.uuid = uuid)
    (fits : move.Fits old.base node.base out)
    (noRelease : move ≠ .released) (nothing : out = none → after = evh.setNode node)
    (launches : Launches sum start (evh.setNode node) events after) :
    Synced after (heap.start uuid evh.nextFlowId after.nextFlowId move) := by
  have buffers := buffered_setNode atNode sameUuid
  have length := buffered_of_node atNode
  have sameLength (same : node.base.flowBuff = old.base.flowBuff) :
      Synced (evh.setNode node) { heap with next := heap.next + 1 } := by
    refine ⟨synced.ids, fun other => ?_⟩
    rw [buffers, same, ← length]
    refine (synced.buffers other).trans ?_
    split
    · rename_i isNode
      rw [isNode]
    · rfl
  cases move with
  | returned => exact (Synced.copy launches none (sameLength fits.2)).netflowDestroy _
  | dropped cleared =>
    cases nothing fits.1
    exact sameLength fits.2
  | requested pushed =>
    apply Synced.netflowDestroy
    apply Synced.copy launches
    refine ⟨synced.ids, fun other => ?_⟩
    have old := synced.buffers other
    rw [buffers, fits.2, ← length]
    by_cases isNode : other = uuid
    · subst isNode
      cases pushed <;> simp [old]
    · cases pushed <;> simp [old, isNode, Ne.symm isNode]
  | released => exact absurd rfl noRelease

theorem Synced.ofIn {start : Nat} {middle : EvHandler} (msg : OfMessage)
    (synced : Synced evh heap) (sameMemory : middle.memoryAt = evh.memoryAt)
    (sameFlows : middle.liveFlows = evh.liveFlows)
    (launches : Launches sum start middle events after)
    (sameNext : middle.nextFlowId = evh.nextFlowId) :
    Synced after (heap.ofIn msg evh.nextFlowId after.nextFlowId) := by
  have kept : Synced middle { heap with next := heap.next + 2 } :=
    Synced.quiet ⟨synced.ids, synced.buffers⟩ (congrArg (List.map LiveFlow.flowId) sameFlows)
      sameMemory
  rw [← sameNext]
  exact (Synced.copy launches _ kept).netflowDestroy _

theorem Owned.ofIn (owned : Owned heap) {msg : OfMessage} {first last : Nat}
    (unshared : carriesPayload msg → last ≤ first) : Owned (heap.ofIn msg first last) := by
  refine Owned.launch owned.heldPlain owned.waitingPlain ?_ ?_
  · apply owned.exclusive.of_count_le (Nat.le_add_right _ 2)
    intro obj
    cases carriesPayload msg with
    | false =>
      simp only [Bool.false_eq_true, if_false, Option.toList_none, List.cons_append,
        List.nil_append, List.count_cons, beq_iff_eq, Heap.objs]
      split <;> split <;> omega
    | true =>
      simp only [if_true, Option.toList_some, List.cons_append, List.nil_append,
        List.count_cons, beq_iff_eq, Heap.objs]
      split <;> split <;> split <;> omega
  · cases carries : carriesPayload msg with
    | false => exact Or.inl rfl
    | true => exact Or.inr (unshared carries)

end Handlers

/-! ## Runs -/

variable {sim : SimState} {after : EvHandler} {heap : Heap} {inserted : List SimEvent}
  {find : HashFind Flow} {ev : SimEvent}

end Horse.Sim
