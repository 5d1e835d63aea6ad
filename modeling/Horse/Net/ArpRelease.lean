import Horse.Net.Receiving
import Horse.Transition.Run

/-!
# Release of netflows on ARP replies

A host or a router keeps the netflows that wait for an ARP reply on a stack, and
a reply releases the one on top.  The stack stores no next hop.  Here a run of a
node is watched from outside: the requests it sends and the replies it accepts
give a stack of outstanding addresses, and the addresses turn out to be the next
hops of the netflows on the stack of the node.  A reply therefore releases a
netflow that waits for it exactly when it answers the last request outstanding.
-/

namespace Horse.Net

open Horse.Lib Horse.Transition

/-- A node with an ARP table. -/
inductive L3Node
  | host (h : Host)
  | router (r : Router)
  deriving DecidableEq, Repr

namespace L3Node

/-- The part with the ARP table. -/
def ln : L3Node → LegacyNode
  | host h => h.ep
  | router r => r.ln

/-- Whether the node asks for a route by the hash of the netflow. -/
def ecmp : L3Node → Bool
  | host _ => false
  | router r => r.ecmp

/-- The legacy node that `l2_recv_netflow` is called on; a router counts the
netflow before the call. -/
def arrival (flow : Netflow) : L3Node → LegacyNode
  | host h => h.ep
  | router r => { r.ln with base := r.ln.base.countReceived flow flow.key.inPort }

/-- The netflows that wait for a reply, the latest in front. -/
def buffered (node : L3Node) : List Netflow :=
  node.ln.base.flowBuff.flows

/-- The address that a netflow of the node is sent to next. -/
def hop (node : L3Node) (flow : Netflow) : BitVec 32 :=
  nextHop node.ln.rt flow node.ecmp

end L3Node

/-- What can happen to a node: a netflow arrives or an execution starts. -/
inductive L3Call
  | recv (flow : Netflow)
  | start (addr : Nat)
  deriving DecidableEq, Repr

/-- One call of a node, with the netflow that it sends. -/
def l3Call : L3Node → L3Call → Option (Option Netflow × L3Node)
  | .host h, .recv flow => (hostRecvNetflow h flow).map fun out => (out.1, .host out.2)
  | .router r, .recv flow => (routerRecvNetflow r flow).map fun out => (out.1, .router out.2)
  | .host h, .start addr =>
    (h.execAt addr).bind fun exec =>
      (hostExecuteApp h exec).map fun out => (out.1, .host out.2)
  | .router _, .start _ => none

/-! ## Requests and replies -/

/-- A netflow that asks for an address. -/
def isArpRequest (flow : Netflow) : Bool :=
  flow.key.ethType == ethTypeArp && flow.key.arpOp == arpRequest

/-- A netflow that answers such a request. -/
def isArpReply (flow : Netflow) : Bool :=
  flow.key.ethType == ethTypeArp && flow.key.arpOp == arpReply

/-- The node takes the netflow for an ARP reply to itself. -/
def acceptsReply (ln : LegacyNode) (flow : Netflow) : Bool :=
  isArpReply flow &&
    (nodePort ln.base flow.key.inPort).any fun p => isLinkDestination p flow

/-- A node and the addresses it has asked for, the latest in front, without those
whose answer it has accepted. -/
structure ArpRun where
  node : L3Node
  outstanding : List (BitVec 32)
  deriving DecidableEq, Repr

/-- The outstanding addresses after a netflow was sent.  A request that finds the
stack of the node full is for a netflow that is lost. -/
def noteSent (outstanding : List (BitVec 32)) : Option Netflow → List (BitVec 32)
  | none => outstanding
  | some sent =>
    if isArpRequest sent ∧ outstanding.length < bufferMax - 1 then
      sent.key.arpTpa :: outstanding
    else outstanding

/-- The call is an ARP reply that the node accepts. -/
def L3Node.answered (node : L3Node) : L3Call → Bool
  | .recv flow => acceptsReply (node.arrival flow) flow
  | .start _ => false

/-- A call of the node together with the bookkeeping of its requests. -/
def arpStep : Step ArpRun L3Call := fun state call =>
  (l3Call state.node call).map fun out =>
    ⟨out.2,
      if state.node.answered call then state.outstanding.tail
      else noteSent state.outstanding out.1⟩

/-- A netflow that is released on a reply was waiting for the address that the
reply resolves, and is sent to the Ethernet address known for it. -/
def ReleasesWaiting (state : ArpRun) : L3Call → Prop
  | .start _ => True
  | .recv flow =>
    isArpReply flow → ∀ released ln,
      l2RecvNetflow (state.node.arrival flow) flow = (some released, ln) →
        nextHop ln.rt released state.node.ecmp = flow.key.arpSpa ∧
        (arpTableLookup ln.at_ (nextHop ln.rt released state.node.ecmp)).map
          ArpTableEntry.ethAddr = some released.key.ethDst

/-- A reply that the node accepts is for the last address outstanding. -/
def AnswersLatest (state : ArpRun) : L3Call → Prop
  | .start _ => True
  | .recv flow =>
    acceptsReply (state.node.arrival flow) flow →
      ∀ latest ∈ state.outstanding.head?, flow.key.arpSpa = latest

/-! ## What the legacy node does -/

section LegacyNode

variable {ln after : LegacyNode} {flow : Netflow} {out : Option Netflow} {n : Node}
  {ports : List (BitVec 32)} {ecmp : Bool}

theorem craftRequest_ethType {arpReq crafted : Netflow}
    (done : craftRequest n arpReq ports = some (some crafted)) :
    crafted.key.ethType = arpReq.key.ethType := by
  induction ports generalizing arpReq with
  | nil =>
    cases done
    rfl
  | cons port rest ih =>
    rw [craftRequest] at done
    split at done
    · cases done
    · rcases Option.bind_eq_some_iff.mp done with ⟨info, -, later⟩
      exact (ih later).trans rfl

/-- The stack after a push, which a full stack ignores. -/
def pushed (flow : Netflow) (flows : List Netflow) : List Netflow :=
  if flows.length < bufferMax - 1 then flow :: flows else flows

theorem nodeFlowPush_flows (n : Node) (flow : Netflow) :
    (nodeFlowPush n flow).flowBuff.flows = pushed flow n.flowBuff.flows := by
  unfold nodeFlowPush pushed
  split <;> rfl

/-- What a call can do to the legacy node of a node: nothing that matters here,
withhold a netflow and ask for its next hop, or drop the top of the stack on a
reply. -/
inductive LegacyEffect (rt : RouteTable) (flows : List Netflow) (ecmp : Bool) :
    Bool → Option Netflow → LegacyNode → Prop
  | quiet {sent : Option Netflow} {after : LegacyNode} (sameRoutes : after.rt = rt)
      (sameStack : after.base.flowBuff.flows = flows)
      (notAsked : ∀ nf, sent = some nf → isArpRequest nf = false) :
      LegacyEffect rt flows ecmp false sent after
  | asked {request withheld : Netflow} {after : LegacyNode} (sameRoutes : after.rt = rt)
      (grown : after.base.flowBuff.flows = pushed withheld flows)
      (isRequest : isArpRequest request)
      (target : request.key.arpTpa = nextHop rt withheld ecmp) :
      LegacyEffect rt flows ecmp false (some request) after
  | answered {sent : Option Netflow} {after : LegacyNode} (sameRoutes : after.rt = rt)
      (popped : after.base.flowBuff.flows = flows.tail) :
      LegacyEffect rt flows ecmp true sent after

/-- The effect on a legacy node, by its routes and its stack. -/
abbrev LegacyNode.Effect (ln : LegacyNode) (ecmp : Bool) :=
  LegacyEffect ln.rt ln.base.flowBuff.flows ecmp

theorem ipLookup_fst (ln : LegacyNode) (flow : Netflow) (ecmp : Bool) :
    (ipLookup ln flow ecmp).1 = nextHop ln.rt flow ecmp := by
  unfold ipLookup
  split <;> rfl

theorem ipLookup_snd (ln : LegacyNode) (flow : Netflow) (ecmp : Bool) :
    (ipLookup ln flow ecmp).2.key = flow.key := by
  unfold ipLookup
  split <;> rfl

/-- The next hop is a function of the header. -/
theorem nextHop_congr (rt : RouteTable) {first second : Netflow} (ecmp : Bool)
    (sameKey : first.key = second.key) : nextHop rt first ecmp = nextHop rt second ecmp := by
  simp only [nextHop, ecmpHash, netflowCalculateHash, sameKey]

theorem findForwardingPorts_effect (notArp : flow.key.ethType ≠ ethTypeArp)
    (found : findForwardingPorts ln flow ecmp = some (out, after)) :
    ln.Effect ecmp false out after := by
  have sameKey := ipLookup_snd ln flow ecmp
  cases forwards_of_findForwardingPorts found with
  | noRoute | abandoned => exact .quiet rfl rfl (by simp)
  | resolved =>
    apply LegacyEffect.quiet rfl rfl
    rintro nf ⟨rfl⟩
    rw [← sameKey] at notArp
    simp [isArpRequest, setEthDst, notArp]
  | asked _ _ crafts =>
    refine .asked rfl (nodeFlowPush_flows _ _) ?_ ?_
    · simp [isArpRequest, finishRequest, craftRequest_ethType crafts, arpReqNew]
    · exact (ipLookup_fst ln flow ecmp).trans (nextHop_congr _ _ sameKey).symm

/-- A request is dropped or turned into its answer. -/
theorem recvArpRequest_answers (ln : LegacyNode) (p : Port) (flow : Netflow) :
    (recvArpRequest ln p flow).2.base = ln.base ∧ (recvArpRequest ln p flow).2.rt = ln.rt ∧
      ∀ nf, (recvArpRequest ln p flow).1 = some nf → isArpRequest nf = false := by
  unfold recvArpRequest
  split
  · simp
  · refine ⟨?_, ?_, ?_⟩
    · dsimp only
      split <;> rfl
    · dsimp only
      split <;> rfl
    · rintro nf ⟨rfl⟩
      simp [isArpRequest, craftReply, netflowAddOutPort, arpReply, arpRequest]

/-- An accepted reply takes the branch that releases. -/
theorem l2RecvNetflow_of_reply (accepted : acceptsReply ln flow) :
    l2RecvNetflow ln flow = recvArpReply ln flow := by
  simp only [acceptsReply, isArpReply, Bool.and_eq_true, beq_iff_eq, Option.any_eq_true]
    at accepted
  rcases accepted with ⟨⟨isArp, isReply⟩, p, found, destined⟩
  have notRequest : ¬ arpReply = arpRequest := by decide
  simp [l2RecvNetflow, found, destined, isArp, isReply, notRequest]

/-- A reply that is not accepted is dropped. -/
theorem l2RecvNetflow_refuses (isReply : isArpReply flow)
    (refused : acceptsReply ln flow = false) : (l2RecvNetflow ln flow).1 = none := by
  simp only [acceptsReply, isReply, Bool.true_and] at refused
  unfold l2RecvNetflow
  split
  · rfl
  · rename_i p found
    rw [found, Option.any_some] at refused
    simp [refused]

/-- Whatever is not an accepted reply leaves the stack and the routes alone, and
nothing that comes back is an ARP request. -/
theorem l2RecvNetflow_of_not_reply (refused : acceptsReply ln flow = false) :
    (l2RecvNetflow ln flow).2.base = ln.base ∧ (l2RecvNetflow ln flow).2.rt = ln.rt ∧
      ∀ nf, (l2RecvNetflow ln flow).1 = some nf → isArpRequest nf = false := by
  rcases received : l2RecvNetflow ln flow with ⟨out, after⟩
  cases receives_of_l2RecvNetflow received with
  | dropped => simp
  | request => exact recvArpRequest_answers ln _ flow
  | reply found forUs isArp isReply =>
    simp [acceptsReply, isArpReply, isArp, isReply, found, forUs] at refused
  | passed other =>
    refine ⟨rfl, rfl, ?_⟩
    rintro nf ⟨rfl⟩
    simpa [isArpRequest] using fun isArp => (other isArp).1

theorem recvArpReply_eq (ln : LegacyNode) (flow : Netflow) :
    (recvArpReply ln flow).2.rt = ln.rt ∧
    (recvArpReply ln flow).2.base.flowBuff.flows = ln.base.flowBuff.flows.tail ∧
    (recvArpReply ln flow).1 =
      ln.base.flowBuff.flows.head?.map fun waiting => releaseFlow waiting flow := by
  unfold recvArpReply nodeFlowPop
  split <;> rename_i popped <;> split at popped <;> cases popped <;> simp_all

/-- The address of an accepted reply is in the ARP table afterwards. -/
theorem recvArpReply_learns (ln : LegacyNode) (flow : Netflow) :
    (arpTableLookup (recvArpReply ln flow).2.at_ flow.key.arpSpa).map ArpTableEntry.ethAddr =
      some flow.key.arpSha := by
  unfold recvArpReply
  split <;> simp [arpTableLookup, arpTableAddEntry]

/-- The effect of the link layer alone. -/
theorem l2RecvNetflow_effect (ln : LegacyNode) (flow : Netflow) (ecmp : Bool) :
    ln.Effect ecmp (acceptsReply ln flow) (l2RecvNetflow ln flow).1
      (l2RecvNetflow ln flow).2 := by
  cases accepted : acceptsReply ln flow with
  | true =>
    rw [l2RecvNetflow_of_reply accepted]
    exact .answered (recvArpReply_eq ln flow).1 (recvArpReply_eq ln flow).2.1
  | false =>
    rcases l2RecvNetflow_of_not_reply accepted with ⟨sameBase, sameRoutes, returned⟩
    exact .quiet sameRoutes (by rw [sameBase]) returned

theorem acceptsReply_of_not_arp (ln : LegacyNode) (notArp : flow.key.ethType ≠ ethTypeArp) :
    acceptsReply ln flow = false := by
  simp [acceptsReply, isArpReply, notArp]

variable {filled : Netflow} {rt : RouteTable} {flows : List Netflow} {answered : Bool}

/-- Source addresses are no part of what tells an ARP request. -/
theorem fillSource_arp (done : fillSource n ports flow = some filled) :
    isArpRequest filled = isArpRequest flow ∧ filled.key.arpTpa = flow.key.arpTpa :=
  ⟨fillSource_keeps isArpRequest (fun _ _ _ => rfl) done,
    fillSource_keeps (fun nf => nf.key.arpTpa) (fun _ _ _ => rfl) done⟩

theorem LegacyEffect.fillSource (effect : LegacyEffect rt flows ecmp answered (some flow) after)
    (done : fillSource n ports flow = some filled) :
    LegacyEffect rt flows ecmp answered (some filled) after := by
  rcases fillSource_arp done with ⟨sameRequest, sameTarget⟩
  cases effect with
  | quiet routes stack notAsked =>
    apply LegacyEffect.quiet routes stack
    rintro nf ⟨rfl⟩
    rw [sameRequest, notAsked flow rfl]
  | asked routes grown isRequest target =>
    exact .asked routes grown (by rw [sameRequest, isRequest]) (by rw [sameTarget, target])
  | answered routes popped => exact .answered routes popped

theorem LegacyEffect.fills {ports : Netflow → List (BitVec 32)} {sent : Option Netflow}
    (effect : LegacyEffect rt flows ecmp answered sent after)
    (fills : FillsSource n ports sent out) : LegacyEffect rt flows ecmp answered out after := by
  cases fills with
  | nothing => exact effect
  | filled fills => exact effect.fillSource fills

end LegacyNode

/-! ## What a host and a router do -/

section Nodes

variable {flow nf : Netflow} {out : Option Netflow} {h after : Host}

theorem hostRecvIp_effect (notArp : nf.key.ethType ≠ ethTypeArp)
    (done : hostRecvIp h nf = some (out, after)) :
    h.ep.Effect false false out after.ep := by
  rcases hostRecvIp_cases done with ⟨rfl, rfl⟩ | ⟨app, handled, handles, answers⟩
  · exact .quiet rfl rfl (by simp)
  · rcases hostAnswer_forwards answers with ⟨sent, found, fills, -⟩
    rw [← (appHandleNetflow_keeps handles).2.1] at notArp
    exact (findForwardingPorts_effect notArp found).fills fills

/-- The ARP branch of a host touches only the source addresses. -/
theorem hostRecvArp_effect {ln : LegacyNode} {ecmp answered : Bool}
    (effect : ln.Effect ecmp answered (some nf) h.ep)
    (done : hostRecvArp h nf = some (out, after)) :
    ln.Effect ecmp answered out after.ep := by
  rcases hostRecvArp_cases done with ⟨rfl, sent, rfl, ⟨-, fills⟩ | rfl⟩
  · exact effect.fillSource fills
  · exact effect

theorem hostRecvNetflow_effect (done : hostRecvNetflow h flow = some (out, after)) :
    h.ep.Effect false (acceptsReply h.ep flow) out after.ep := by
  have effect := l2RecvNetflow_effect h.ep flow false
  cases receives_of_hostRecvNetflow done with
  | dropped received =>
    rw [received] at effect
    exact effect
  | ip isIp _ answers =>
    have notArp := notArp_of_ip isIp
    rw [acceptsReply_of_not_arp _ notArp]
    exact hostRecvIp_effect notArp answers
  | arp _ received sends =>
    rw [received] at effect
    exact hostRecvArp_effect effect sends
  | ignored _ notArp =>
    rw [acceptsReply_of_not_arp _ notArp]
    exact .quiet rfl rfl (by simp)

theorem hostExecuteApp_effect {exec : Exec} (done : hostExecuteApp h exec = some (out, after)) :
    h.ep.Effect false false out after.ep := by
  rcases hostExecuteApp_cases done with
    ⟨-, rfl, rfl⟩ | ⟨-, started, sent, starts, found, fills, -⟩
  · exact .quiet rfl rfl (by simp)
  · have notArp := (appStart_ip starts).1
    exact (findForwardingPorts_effect (by exact notArp) found).fills fills

theorem routerRecvNetflow_effect {r next : Router}
    (done : routerRecvNetflow r flow = some (out, next)) :
    ((L3Node.router r).arrival flow).Effect r.ecmp
        (acceptsReply ((L3Node.router r).arrival flow) flow) out next.ln ∧
      next.ecmp = r.ecmp := by
  have effect := l2RecvNetflow_effect ((L3Node.router r).arrival flow) flow r.ecmp
  cases receives_of_routerRecvNetflow done with
  | dropped received | arp _ received =>
    rw [L3Node.arrival, received] at effect
    exact ⟨effect, rfl⟩
  | consumed isIp =>
    rw [acceptsReply_of_not_arp _ (notArp_of_ip isIp)]
    exact ⟨.quiet rfl rfl (by simp), rfl⟩
  | forwarded isIp _ _ found =>
    have notArp := notArp_of_ip isIp
    rw [acceptsReply_of_not_arp _ notArp]
    exact ⟨findForwardingPorts_effect notArp found, rfl⟩
  | ignored _ notArp =>
    rw [acceptsReply_of_not_arp _ notArp]
    exact ⟨.quiet rfl rfl (by simp), rfl⟩

/-- The effect of any call on a node. -/
theorem l3Call_effect {node next : L3Node} {call : L3Call}
    (done : l3Call node call = some (out, next)) :
    node.ln.Effect node.ecmp (node.answered call) out next.ln ∧ next.ecmp = node.ecmp := by
  cases node with
  | host h =>
    cases call with
    | recv flow =>
      rcases Option.map_eq_some_iff.mp done with ⟨⟨sent, h'⟩, received, result⟩
      cases result
      exact ⟨hostRecvNetflow_effect received, rfl⟩
    | start id =>
      rcases bind_map_eq_some_iff.mp done with ⟨exec, ⟨sent, h'⟩, -, executed, result⟩
      cases result
      exact ⟨hostExecuteApp_effect executed, rfl⟩
  | router r =>
    cases call with
    | recv flow =>
      rcases Option.map_eq_some_iff.mp done with ⟨⟨sent, r'⟩, received, result⟩
      cases result
      exact routerRecvNetflow_effect received
    | start id => cases done

end Nodes

/-! ## The stack of a node and its outstanding requests -/

/-- The addresses outstanding are the next hops of the netflows that wait. -/
def Tracks (state : ArpRun) : Prop :=
  state.outstanding = state.node.buffered.map state.node.hop

/-- A request is noted exactly if its netflow finds room on the stack. -/
theorem noteSent_request {hop : Netflow → BitVec 32} {request withheld : Netflow}
    (flows : List Netflow) (isRequest : isArpRequest request)
    (target : request.key.arpTpa = hop withheld) :
    noteSent (flows.map hop) (some request) = (pushed withheld flows).map hop := by
  by_cases room : flows.length < bufferMax - 1
  · simp [noteSent, pushed, room, isRequest, target]
  · simp [noteSent, pushed, room]

variable {state : ArpRun} {call : L3Call}

theorem tracks_step {after : ArpRun} (tracked : Tracks state)
    (step : arpStep state call = some after) : Tracks after := by
  rcases Option.map_eq_some_iff.mp step with ⟨⟨sent, node⟩, called, rfl⟩
  rcases l3Call_effect called with ⟨effect, sameEcmp⟩
  have sameHop (sameRoutes : node.ln.rt = state.node.ln.rt) : node.hop = state.node.hop := by
    funext flow
    simp only [L3Node.hop, sameRoutes, sameEcmp]
  unfold Tracks at tracked ⊢
  cases accepted : state.node.answered call with
  | true =>
    rw [accepted] at effect
    cases effect with
    | answered routes popped =>
      simp only [if_true, sameHop routes, L3Node.buffered, popped, tracked, List.map_tail]
  | false =>
    rw [accepted] at effect
    cases effect with
    | quiet routes stack notAsked =>
      have sameBuffer : node.buffered = state.node.buffered := stack
      cases sent with
      | none => simp [sameHop routes, sameBuffer, noteSent, tracked]
      | some nf => simp [sameHop routes, sameBuffer, noteSent, notAsked nf rfl, tracked]
    | asked routes grown isRequest target =>
      have stacked : node.buffered = pushed _ state.node.buffered := grown
      simp only [sameHop routes, stacked, tracked]
      exact noteSent_request _ isRequest target

theorem arrival_rt (node : L3Node) (flow : Netflow) : (node.arrival flow).rt = node.ln.rt := by
  cases node <;> rfl

theorem arrival_flows (node : L3Node) (flow : Netflow) :
    (node.arrival flow).base.flowBuff.flows = node.buffered := by
  cases node <;> rfl

/-- A netflow that is released goes to the next hop it had when it was withheld. -/
theorem nextHop_releaseFlow (rt : RouteTable) (waiting reply : Netflow) (ecmp : Bool) :
    nextHop rt (releaseFlow waiting reply) ecmp = nextHop rt waiting ecmp :=
  rfl

/-- Where the bookkeeping is right, a reply releases a netflow that waits for it
exactly if it answers the last request outstanding. -/
theorem releasesWaiting_iff (tracked : Tracks state) :
    ReleasesWaiting state call ↔ AnswersLatest state call := by
  cases call with
  | start id => rfl
  | recv flow =>
    have released := recvArpReply_eq (state.node.arrival flow) flow
    rw [arrival_rt, arrival_flows] at released
    have latest : state.outstanding.head? = state.node.buffered.head?.map state.node.hop := by
      rw [tracked, List.head?_map]
    constructor
    · intro releases accepted address isLatest
      rw [latest] at isLatest
      rcases Option.map_eq_some_iff.mp isLatest with ⟨waiting, onTop, rfl⟩
      rw [onTop, Option.map_some] at released
      have isReply : isArpReply flow := by
        simp only [acceptsReply, Bool.and_eq_true] at accepted
        exact accepted.1
      have waits := releases isReply _ _
        ((l2RecvNetflow_of_reply accepted).trans (Prod.ext released.2.2 rfl))
      rw [released.1, nextHop_releaseFlow] at waits
      exact waits.1.symm
    · intro answers isReply nf ln received
      cases accepted : acceptsReply (state.node.arrival flow) flow with
      | false =>
        have refused := l2RecvNetflow_refuses isReply accepted
        rw [received] at refused
        cases refused
      | true =>
        have learned := recvArpReply_learns (state.node.arrival flow) flow
        rw [← l2RecvNetflow_of_reply accepted, received] at released learned
        rcases Option.map_eq_some_iff.mp released.2.2.symm with ⟨waiting, onTop, rfl⟩
        have waits : state.node.hop waiting = flow.key.arpSpa := by
          symm
          apply answers accepted
          rw [latest, onTop]
          rfl
        rw [released.1, nextHop_releaseFlow]
        refine ⟨waits, ?_⟩
        rw [show nextHop state.node.ln.rt waiting state.node.ecmp = _ from waits]
        exact learned

/-- Over a whole run of a host or a router that starts with nothing withheld, the
netflows released on ARP replies wait for the addresses that the replies resolve
exactly if every reply answers the last request outstanding. -/
theorem releasesWaiting_iff_answersLatest (node : L3Node) (calls : List L3Call)
    (nothingWaits : node.buffered = []) :
    Along arpStep ReleasesWaiting ⟨node, []⟩ calls ↔
      Along arpStep AnswersLatest ⟨node, []⟩ calls := by
  have tracked : Tracks ⟨node, []⟩ := by
    simp [Tracks, nothingWaits]
  apply @along_iff_of_invariant _ _ arpStep _ Tracks fun _ => True
  · exact tracks_step
  · exact fun _ holds => releasesWaiting_iff holds
  · exact tracked
  · exact fun _ _ => trivial

/-- A host on 10.0.0.0/24 that pings two neighbours. -/
def twoPings : Host :=
  hostAddAppExec (appHost 1 0x01 0x0a000001 (.pingv4 0x0a000002) 0) 2 1 0 (.pingv4 0x0a000003)

/-- The ARP reply of a neighbour to the host above. -/
def replyFrom (ip : BitVec 32) (ethAddr : BitVec 48) : Netflow :=
  { netflowNew with
    key := { OflFlowKey.zero with
      inPort := 1
      ethDst := 0x01
      ethSrc := ethAddr
      ethType := ethTypeArp
      arpOp := arpReply
      arpSpa := ip
      arpSha := ethAddr
      arpTpa := 0x0a000001
      arpTha := 0x01 } }

/-- With the replies in the reverse order of the requests both pings reach their
neighbours. -/
theorem releasesWaiting_iff_answersLatest_lastInFirstOut :
    Along arpStep ReleasesWaiting ⟨.host twoPings, []⟩
      [.start 0, .start 1, .recv (replyFrom 0x0a000003 0x03),
        .recv (replyFrom 0x0a000002 0x02)] := by
  apply (releasesWaiting_iff_answersLatest _ _ rfl).mpr
  refine ⟨trivial, ?_⟩
  rintro _ ⟨rfl⟩
  refine ⟨trivial, ?_⟩
  rintro _ ⟨rfl⟩
  refine ⟨?_, ?_⟩
  · rintro - _ ⟨rfl⟩
    rfl
  · rintro _ ⟨rfl⟩
    refine ⟨?_, fun _ _ => trivial⟩
    rintro - _ ⟨rfl⟩
    rfl

/-- With the replies in the order of the requests the second ping goes to the
neighbour of the first. -/
theorem reply_releases_other_flow :
    ¬ Along arpStep ReleasesWaiting ⟨.host twoPings, []⟩
      [.start 0, .start 1, .recv (replyFrom 0x0a000002 0x02)] := by
  intro along
  have releases := ((along.2 _ rfl).2 _ rfl).1 rfl _ _ rfl
  exact absurd releases.1 (by decide)

end Horse.Net
