import Horse.Net.ArpRelease
import Horse.Net.Ports

/-!
# The buffer of withheld netflows

A netflow whose next hop is unresolved is pushed on the buffer of its node while an ARP
request goes out, and a reply pops it.  The result of the push is not looked at, so a
netflow that is withheld while the buffer is full is lost.  Here a run of a legacy node is
recorded with the netflows that `resolve_mac` withheld and those that a reply released.
-/

namespace Horse.Net

open Horse.Lib Horse.Transition

/-! ## Calls on a legacy node -/

/-- The calls on a legacy node.  The last one stands for whatever the rest of the program
does to its ports and routes. -/
inductive LegacyCall
  | forward (flow : Netflow) (ecmp : Bool)
  | receive (flow : Netflow)
  | configure (ports : List Port) (rt : RouteTable)
  deriving DecidableEq, Repr

/-- One call on a legacy node. -/
def legacyStep : Step LegacyNode LegacyCall
  | ln, .forward flow ecmp => (findForwardingPorts ln flow ecmp).map Prod.snd
  | ln, .receive flow => some (l2RecvNetflow ln flow).2
  | ln, .configure ports rt => some { ln with base := { ln.base with ports := ports }, rt := rt }

/-- The netflow that `resolve_mac` withholds in a call: its next hop is known but has no
entry in the ARP table, and a request can be made on its output ports. -/
def withheldBy (ln : LegacyNode) : LegacyCall → Option Netflow
  | .forward flow ecmp =>
    let looked := ipLookup ln flow ecmp
    if looked.1 = 0 ∨ (arpTableLookup ln.at_ looked.1).isSome then none
    else
      match craftRequest ln.base arpReqNew looked.2.outPorts with
      | some (some _) => some looked.2
      | _ => none
  | _ => none

/-- The netflow that an ARP reply takes from the buffer in a call. -/
def releasedBy (ln : LegacyNode) : LegacyCall → Option Netflow
  | .receive flow =>
    if acceptsReply ln flow then (nodeFlowPop ln.base).map Prod.fst else none
  | _ => none

/-- A legacy node with the netflows withheld and released so far. -/
structure BufferRun where
  node : LegacyNode
  withheld : List Netflow
  released : List Netflow
  deriving DecidableEq, Repr

/-- A call on the node, and the record of it. -/
def bufferStep : Step BufferRun LegacyCall := fun state call =>
  (legacyStep state.node call).map fun node =>
    ⟨node, (withheldBy state.node call).toList ++ state.withheld,
      (releasedBy state.node call).toList ++ state.released⟩

/-- The record of a node at the start of a run. -/
def BufferRun.start (node : LegacyNode) : BufferRun :=
  ⟨node, node.base.flowBuff.flows, []⟩

/-- Every netflow that was withheld was released or is in the buffer. -/
def NoneLost (state : BufferRun) : Prop :=
  state.withheld.Perm (state.released ++ state.node.base.flowBuff.flows)

/-- A netflow is withheld only while the buffer has room. -/
def HasRoom (state : BufferRun) (call : LegacyCall) : Prop :=
  (withheldBy state.node call).isSome →
    state.node.base.flowBuff.flows.length < bufferMax - 1

/-! ## What a call does to the buffer -/

/-- The buffer after a call. -/
def bufferAfter (ln : LegacyNode) (call : LegacyCall) : List Netflow :=
  match withheldBy ln call with
  | some flow => pushed flow ln.base.flowBuff.flows
  | none =>
    if (releasedBy ln call).isSome then ln.base.flowBuff.flows.tail
    else ln.base.flowBuff.flows

theorem nodeFlowPop_fst (n : Node) :
    (nodeFlowPop n).map Prod.fst = n.flowBuff.flows.head? := by
  unfold nodeFlowPop
  split <;> rename_i flows <;> exact (congrArg List.head? flows).symm

theorem releasedBy_receive (ln : LegacyNode) (flow : Netflow) :
    releasedBy ln (.receive flow) =
      if acceptsReply ln flow then ln.base.flowBuff.flows.head? else none := by
  rw [releasedBy, nodeFlowPop_fst]

variable {ln : LegacyNode} {call : LegacyCall}

theorem forward_flowBuff {after : LegacyNode} {flow : Netflow} {ecmp : Bool}
    (done : legacyStep ln (.forward flow ecmp) = some after) :
    after.base.flowBuff.flows = bufferAfter ln (.forward flow ecmp) := by
  obtain ⟨⟨sent, next⟩, found, rfl⟩ := Option.map_eq_some_iff.mp done
  unfold bufferAfter withheldBy
  dsimp only
  cases forwards_of_findForwardingPorts found with
  | noRoute noHop =>
    rw [if_pos (Or.inl noHop)]
    rfl
  | resolved _ known =>
    rw [known, if_pos (Or.inr Option.isSome_some)]
    rfl
  | abandoned hasHop unknown crafts =>
    rw [unknown, if_neg fun either => either.elim hasHop nofun, crafts]
    rfl
  | asked hasHop unknown crafts =>
    rw [unknown, if_neg fun either => either.elim hasHop nofun, crafts]
    exact nodeFlowPush_flows _ _

theorem receive_flowBuff (ln : LegacyNode) (flow : Netflow) :
    (l2RecvNetflow ln flow).2.base.flowBuff.flows = bufferAfter ln (.receive flow) := by
  unfold bufferAfter
  rw [releasedBy_receive]
  cases accepted : acceptsReply ln flow with
  | true =>
    rw [l2RecvNetflow_of_reply accepted, (recvArpReply_eq ln flow).2.1]
    cases ln.base.flowBuff.flows with
    | nil => rfl
    | cons head rest => rfl
  | false =>
    rw [(l2RecvNetflow_of_not_reply accepted).1]
    rfl

theorem flowBuff_of_legacyStep {after : LegacyNode} (done : legacyStep ln call = some after) :
    after.base.flowBuff.flows = bufferAfter ln call := by
  cases call with
  | forward flow ecmp => exact forward_flowBuff done
  | receive flow =>
    cases done
    exact receive_flowBuff ln flow
  | configure ports rt =>
    cases done
    rfl

theorem releasedBy_of_withheld {flow : Netflow} (withholds : withheldBy ln call = some flow) :
    releasedBy ln call = none := by
  cases call with
  | forward flow ecmp => rfl
  | receive flow => cases withholds
  | configure ports rt => cases withholds

theorem head_of_releasedBy {waiting : Netflow} (releases : releasedBy ln call = some waiting) :
    ln.base.flowBuff.flows.head? = some waiting := by
  cases call with
  | forward flow ecmp => cases releases
  | receive flow =>
    rw [releasedBy_receive] at releases
    split at releases
    · exact releases
    · cases releases
  | configure ports rt => cases releases

/-! ## Runs -/

/-- A step from a state in which nothing is lost loses nothing exactly if it finds room. -/
theorem noneLost_step_iff {state after : BufferRun} (noneLost : NoneLost state)
    (stepped : bufferStep state call = some after) :
    NoneLost after ↔ HasRoom state call := by
  obtain ⟨node, done, rfl⟩ := Option.map_eq_some_iff.mp stepped
  have buffer := flowBuff_of_legacyStep done
  unfold NoneLost at noneLost ⊢
  unfold HasRoom
  dsimp only
  rw [buffer, bufferAfter]
  cases withholds : withheldBy state.node call with
  | some flow =>
    rw [releasedBy_of_withheld withholds]
    by_cases room : state.node.base.flowBuff.flows.length < bufferMax - 1
    · simp only [pushed, if_pos room]
      exact iff_of_true ((noneLost.cons flow).trans List.perm_middle.symm) fun _ => room
    · simp only [pushed, if_neg room]
      refine iff_of_false ?_ fun all => room (all rfl)
      intro kept
      -- One netflow more was withheld than was released or is waiting.
      have longer := kept.length_eq.trans noneLost.length_eq.symm
      exact Nat.succ_ne_self _ longer
  | none =>
    refine iff_of_true ?_ fun withheld => absurd withheld Bool.false_ne_true
    cases releases : releasedBy state.node call with
    | none => exact noneLost
    | some waiting =>
      obtain ⟨rest, flows⟩ := List.head?_eq_some_iff.mp (head_of_releasedBy releases)
      rw [flows] at noneLost ⊢
      exact noneLost.trans List.perm_middle

/-- Over a whole run of a legacy node no withheld netflow is lost exactly if the buffer has
room whenever one is withheld. -/
theorem noneLost_along_iff_hasRoom (node : LegacyNode) (calls : List LegacyCall) :
    Along bufferStep
        (fun state call => ∀ after, bufferStep state call = some after → NoneLost after)
        (BufferRun.start node) calls ↔
      Along bufferStep (fun state call => (bufferStep state call).isSome → HasRoom state call)
        (BufferRun.start node) calls :=
  @along_holds_iff _ _ bufferStep HasRoom NoneLost (fun _ => True) (fun _ => True)
    (fun _ _ after => NoneLost after) (fun _ _ _ => trivial)
    (fun _ _ noneLost => noneLost)
    (fun _ _ noneLost stepped => noneLost_step_iff noneLost stepped)
    _ _ trivial (List.Perm.refl _) fun _ _ => trivial

/-- A netflow to a neighbour of the host `twoPings`. -/
def pingTo (ip : BitVec 32) : LegacyCall :=
  .forward (pingStart 0 ip) false

/-- Three netflows that wait at once are one too many. -/
theorem third_withheld_flow_lost :
    ∃ final, run bufferStep (BufferRun.start twoPings.ep)
        [pingTo 0x0a000002, pingTo 0x0a000003, pingTo 0x0a000004] = some final ∧
      final.withheld.length = 3 ∧ final.released = [] ∧
      final.node.base.flowBuff.flows.length = 2 ∧ ¬NoneLost final := by
  refine ⟨_, rfl, rfl, rfl, rfl, ?_⟩
  intro noneLost
  exact absurd noneLost.length_eq (by decide +kernel)

/-! ## Hosts and routers -/

/-- A legacy node after some calls on it. -/
def LegacyNode.Becomes (ln after : LegacyNode) : Prop :=
  ∃ calls, run legacyStep ln calls = some after

theorem LegacyNode.Becomes.refl (ln : LegacyNode) : ln.Becomes ln :=
  ⟨[], rfl⟩

theorem LegacyNode.Becomes.head {middle after : LegacyNode}
    (first : legacyStep ln call = some middle) (rest : middle.Becomes after) :
    ln.Becomes after := by
  obtain ⟨calls, ran⟩ := rest
  exact ⟨call :: calls, (run_cons_eq_some_iff _ _ _ _ _).mpr ⟨middle, first, ran⟩⟩

theorem LegacyNode.Becomes.single {after : LegacyNode} (done : legacyStep ln call = some after) :
    ln.Becomes after :=
  .head done (.refl after)

section Nodes

variable {flow nf : Netflow} {out : Option Netflow} {h after : Host}

theorem becomes_of_findForwardingPorts {after : LegacyNode} {ecmp : Bool}
    (found : findForwardingPorts ln flow ecmp = some (out, after)) : ln.Becomes after :=
  @LegacyNode.Becomes.single ln (.forward flow ecmp) after
    (Option.map_eq_some_iff.mpr ⟨(out, after), found, rfl⟩)

theorem hostRecvIp_becomes (done : hostRecvIp h nf = some (out, after)) :
    h.ep.Becomes after.ep := by
  rcases hostRecvIp_cases done with ⟨-, rfl⟩ | ⟨app, handled, -, answers⟩
  · exact .refl _
  · rcases hostAnswer_forwards answers with ⟨sent, found, -⟩
    exact becomes_of_findForwardingPorts found

theorem hostRecvNetflow_becomes (done : hostRecvNetflow h flow = some (out, after)) :
    h.ep.Becomes after.ep := by
  refine @LegacyNode.Becomes.head h.ep (.receive flow) (l2RecvNetflow h.ep flow).2 after.ep rfl ?_
  cases receives_of_hostRecvNetflow done with
  | dropped received =>
    rw [received]
    exact .refl _
  | ip _ received answers =>
    rw [received]
    exact hostRecvIp_becomes answers
  | arp _ received sends =>
    rw [received, (hostRecvArp_cases sends).1]
    exact .refl _
  | ignored _ _ received =>
    rw [received]
    exact .refl _

theorem hostExecuteApp_becomes {exec : Exec}
    (done : hostExecuteApp h exec = some (out, after)) : h.ep.Becomes after.ep := by
  rcases hostExecuteApp_cases done with ⟨-, -, rfl⟩ | ⟨-, started, sent, -, found, -⟩
  · exact .refl _
  · exact becomes_of_findForwardingPorts found

theorem routerRecvNetflow_becomes {r next : Router}
    (done : routerRecvNetflow r flow = some (out, next)) : r.ln.Becomes next.ln := by
  have counted : legacyStep r.ln
      (.configure (r.ln.base.countReceived flow flow.key.inPort).ports r.ln.rt) =
        some ((L3Node.router r).arrival flow) := rfl
  refine .head counted ?_
  refine @LegacyNode.Becomes.head _ (.receive flow)
    (l2RecvNetflow ((L3Node.router r).arrival flow) flow).2 _ rfl ?_
  rw [L3Node.arrival]
  cases receives_of_routerRecvNetflow done with
  | dropped received | arp _ received =>
    rw [received]
    exact .refl _
  | consumed _ received | ignored _ _ received =>
    rw [received]
    exact .refl _
  | forwarded _ received _ found =>
    rw [received]
    exact becomes_of_findForwardingPorts found

end Nodes

/-- Hosts and routers work on their legacy node through these calls only. -/
theorem l3Call_becomes {node next : L3Node} {call : L3Call} {out : Option Netflow}
    (done : l3Call node call = some (out, next)) : node.ln.Becomes next.ln := by
  cases node with
  | host h =>
    cases call with
    | recv flow =>
      obtain ⟨⟨sent, h'⟩, received, result⟩ := Option.map_eq_some_iff.mp done
      cases result
      exact hostRecvNetflow_becomes received
    | start addr =>
      obtain ⟨exec, ⟨sent, h'⟩, -, executed, result⟩ := bind_map_eq_some_iff.mp done
      cases result
      exact hostExecuteApp_becomes executed
  | router r =>
    cases call with
    | recv flow =>
      obtain ⟨⟨sent, r'⟩, received, result⟩ := Option.map_eq_some_iff.mp done
      cases result
      exact routerRecvNetflow_becomes received
    | start addr => cases done

/-! ## The ARP table -/

/-- No call changes or removes an entry. -/
theorem legacyStep_entries {after : LegacyNode}
    (done : legacyStep ln call = some after) : ln.at_.entries <:+ after.at_.entries := by
  cases call with
  | forward flow ecmp =>
    obtain ⟨⟨sent, next⟩, found, rfl⟩ := Option.map_eq_some_iff.mp done
    cases forwards_of_findForwardingPorts found <;> exact List.suffix_rfl
  | receive flow =>
    rcases received : l2RecvNetflow ln flow with ⟨out, next⟩
    rw [legacyStep, received, Option.some_inj] at done
    subst done
    cases receives_of_l2RecvNetflow received with
    | dropped | passed => exact List.suffix_rfl
    | request =>
      unfold recvArpRequest
      split
      · exact List.suffix_rfl
      · dsimp only
        split
        · exact List.suffix_rfl
        · exact List.suffix_cons _ _
    | reply =>
      unfold recvArpReply
      split <;> exact List.suffix_cons _ _
  | configure ports rt =>
    cases done
    exact List.suffix_rfl

theorem LegacyNode.Becomes.entries {after : LegacyNode} (becomes : ln.Becomes after) :
    ln.at_.entries <:+ after.at_.entries := by
  obtain ⟨calls, ran⟩ := becomes
  exact @run_invariant _ _ _ (fun _ _ => True) (fun last => ln.at_.entries <:+ last.at_.entries)
    (fun kept _ done => kept.trans (legacyStep_entries done)) _ _ calls List.suffix_rfl
    (along_of_forall _ _ fun _ _ => trivial) ran

/-- One call of a host or router. -/
def l3Step : Step L3Node L3Call := fun node call =>
  (l3Call node call).map Prod.snd

/-- Over any run of a host or router, entries are only put in front of its ARP table: none is
changed or removed, and an address that was resolved once is resolved at the end. -/
theorem arp_entries_kept {node after : L3Node} {calls : List L3Call}
    (ran : run l3Step node calls = some after) :
    node.ln.at_.entries <:+ after.ln.at_.entries ∧
      ∀ ip, (arpTableLookup node.ln.at_ ip).isSome → (arpTableLookup after.ln.at_ ip).isSome := by
  have kept : node.ln.at_.entries <:+ after.ln.at_.entries := by
    refine @run_invariant _ _ _ (fun _ _ => True)
      (fun last => node.ln.at_.entries <:+ last.ln.at_.entries) ?_ _ _ calls List.suffix_rfl
      (along_of_forall _ _ fun _ _ => trivial) ran
    intro state call next kept _ step
    obtain ⟨⟨sent, last⟩, called, rfl⟩ := Option.map_eq_some_iff.mp step
    exact kept.trans (l3Call_becomes called).entries
  refine ⟨kept, fun ip known => ?_⟩
  rw [arpTableLookup, List.find?_isSome] at known ⊢
  obtain ⟨e, member, isIp⟩ := known
  exact ⟨e, kept.subset member, isIp⟩

/-- A host that knows one of the neighbours that it pings. -/
def knownNeighbor : Host :=
  { twoPings with ep := { twoPings.ep with at_ := ⟨[⟨0x0a000003, 0x03, 1⟩]⟩ } }

/-- The host learns the other neighbour between its pings. -/
theorem arp_entries_kept_knownNeighbor : ∃ after,
    run l3Step (.host knownNeighbor) [.start 0, .recv (replyFrom 0x0a000002 0x02), .start 1] =
        some after ∧
      after.ln.at_.entries.length = 2 ∧
      knownNeighbor.ep.at_.entries <:+ after.ln.at_.entries :=
  ⟨_, rfl, rfl, (@arp_entries_kept (.host knownNeighbor) _
    [.start 0, .recv (replyFrom 0x0a000002 0x02), .start 1] rfl).1⟩

end Horse.Net
