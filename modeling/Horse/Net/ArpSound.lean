import Horse.Net.Memory

/-!
# ARP messages that name the right port

A node learns from two messages: the sender of an ARP request, and the answer in an ARP
reply.  A message is honest if the pair that can be learned from it belongs to one port.
Requests that a node sends are honest.  Its replies are honest if the port that received
the request has an IPv4 address; a port without one answers for every address.
-/

namespace Horse.Net

open Horse.Container Horse.Lib

section Honest

variable (owns : BitVec 32 → BitVec 48 → Prop)

/-- The addresses that a node learns from an ARP message belong to one port. -/
def Honest (nf : Netflow) : Prop :=
  nf.key.ethType = ethTypeArp →
    (nf.key.arpOp = arpRequest → owns nf.key.arpSpa nf.key.ethSrc) ∧
    (nf.key.arpOp = arpReply → owns nf.key.arpSpa nf.key.arpSha)

/-- A node whose ports own their addresses, that has learned right pairs, and in whose
buffer no ARP message waits. -/
structure NodeMemory.Truthful (memory : NodeMemory) : Prop where
  ports : ∀ entry ∈ memory.ports, ∀ info, entry.2.2 = some info → owns info.addr entry.2.1
  table : ∀ table, memory.arp = some table → ∀ e ∈ table.entries, owns e.ip e.ethAddr
  buffer : ∀ nf ∈ memory.buffer.flows, nf.key.ethType ≠ ethTypeArp

end Honest

/-- An ARP request is only taken by a port that has an IPv4 address. -/
def TakesRequest (n : Node) (nf : Netflow) : Prop :=
  nf.key.ethType = ethTypeArp → nf.key.arpOp = arpRequest →
    ∀ p, nodePort n nf.key.inPort = some p → isLinkDestination p nf → p.ipv4Addr ≠ none

section Nodes

variable {owns : BitVec 32 → BitVec 48 → Prop}

theorem Honest.of_notArp {nf : Netflow} (notArp : nf.key.ethType ≠ ethTypeArp) :
    Honest owns nf :=
  fun isArp => absurd isArp notArp

/-- A netflow with the same header. -/
theorem Honest.congr {nf out : Netflow} (honest : Honest owns nf) (same : out.key = nf.key) :
    Honest owns out := by
  rw [Honest, same]
  exact honest

theorem sendsNothing {P : Netflow → Prop} : ∀ f, (none : Option Netflow) = some f → P f :=
  fun _ isNone => nomatch isNone

variable {ln : LegacyNode} {n : Node} {p : Port} {ports : List (BitVec 32)}

theorem NodeMemory.Truthful.port (truthful : ln.memory.Truthful owns) {port : BitVec 32}
    {info : Ipv4Info} (found : nodePort ln.base port = some p) (hasAddr : p.ipv4Addr = some info) :
    owns info.addr p.ethAddress := by
  have member : p.addresses ∈ ln.memory.ports :=
    List.mem_map.mpr ⟨p, List.mem_of_find?_eq_some found, rfl⟩
  exact truthful.ports _ member info hasAddr

/-- The ports of a node stay, whatever it learns and buffers. -/
theorem NodeMemory.Truthful.of_keepsPorts {after : LegacyNode}
    (truthful : ln.memory.Truthful owns) (keeps : KeepsPorts after.base ln.base)
    (table : ∀ e ∈ after.at_.entries, owns e.ip e.ethAddr)
    (buffer : ∀ nf ∈ after.base.flowBuff.flows, nf.key.ethType ≠ ethTypeArp) :
    after.memory.Truthful owns where
  ports := by
    intro entry member
    rw [LegacyNode.memory, keeps.addresses] at member
    exact truthful.ports entry member
  table := by
    rintro _ ⟨rfl⟩
    exact table
  buffer := buffer

theorem NodeMemory.Truthful.entries (truthful : ln.memory.Truthful owns) :
    ∀ e ∈ ln.at_.entries, owns e.ip e.ethAddr :=
  truthful.table ln.at_ rfl

/-! ## Forwarding -/

/-- What is sent in place of a netflow that is not ARP: no ARP message either, or a request
with the addresses of the port it leaves through. -/
def SentAs (n : Node) (ports : List (BitVec 32)) (nf : Netflow) : Prop :=
  nf.key.ethType ≠ ethTypeArp ∨
    ∃ port p info, ports = [port] ∧ nf.outPorts = [port] ∧ nodePort n port = some p ∧
      p.ipv4Addr = some info ∧ nf.key.arpOp = arpRequest ∧ nf.key.arpSpa = info.addr ∧
      nf.key.ethSrc = p.ethAddress

theorem SentAs.honest {nf : Netflow} (truthful : ln.memory.Truthful owns)
    (sentAs : SentAs ln.base ports nf) :
    Honest owns nf := by
  rcases sentAs with notArp | ⟨port, p, info, -, -, found, hasAddr, isRequest, spa, src⟩
  · exact .of_notArp notArp
  · intro _
    constructor
    · intro _
      rw [spa, src]
      exact truthful.port found hasAddr
    · intro isReply
      rw [isRequest] at isReply
      exact absurd isReply (by decide)

theorem ipLookup_outPorts (ln : LegacyNode) {flow : Netflow} (ecmp : Bool)
    (noPorts : flow.outPorts = []) :
    (ipLookup ln flow ecmp).1 ≠ 0 → ∃ port, (ipLookup ln flow ecmp).2.outPorts = [port] := by
  unfold ipLookup
  cases looked : ipv4Lookup ln.rt flow.key.ipv4Dst (ecmpHash flow ecmp) with
  | none =>
    intro route
    simp only [nextHop, looked, ne_eq, not_true_eq_false] at route
  | some re =>
    intro _
    exact ⟨re.iface, by simp [netflowAddOutPort, noPorts]⟩

theorem ipLookup_ethType (ln : LegacyNode) (flow : Netflow) (ecmp : Bool) :
    (ipLookup ln flow ecmp).2.key.ethType = flow.key.ethType := by
  unfold ipLookup
  split <;> rfl

theorem mem_nodeFlowPush {flow nf : Netflow} (member : nf ∈ (nodeFlowPush n flow).flowBuff.flows) :
    nf = flow ∨ nf ∈ n.flowBuff.flows := by
  unfold nodeFlowPush at member
  split at member
  · exact List.mem_cons.mp member
  · exact Or.inr member

theorem mem_of_nodeFlowPop {rest : Node} {flow : Netflow}
    (popped : nodeFlowPop n = some (flow, rest)) :
    flow ∈ n.flowBuff.flows ∧ ∀ nf ∈ rest.flowBuff.flows, nf ∈ n.flowBuff.flows := by
  rcases nodeFlowPop_cases popped with ⟨flows, bounded, isFlows, rfl⟩
  rw [isFlows]
  exact ⟨List.mem_cons_self, fun nf member => List.mem_cons_of_mem _ member⟩

/-- A netflow that is not ARP, and has no output ports yet, is forwarded honestly. -/
theorem findForwardingPorts_sentAs {after : LegacyNode} {flow : Netflow} {ecmp : Bool}
    {out : Option Netflow} (truthful : ln.memory.Truthful owns)
    (notArp : flow.key.ethType ≠ ethTypeArp) (noPorts : flow.outPorts = [])
    (found : findForwardingPorts ln flow ecmp = some (out, after)) :
    after.memory.Truthful owns ∧
      ∀ f, out = some f → SentAs ln.base (ipLookup ln flow ecmp).2.outPorts f := by
  have lookedNotArp : (ipLookup ln flow ecmp).2.key.ethType ≠ ethTypeArp := by
    rw [ipLookup_ethType]
    exact notArp
  have keeps := findForwardingPorts_keepsPorts found
  cases forwards_of_findForwardingPorts found with
  | noRoute | abandoned => exact ⟨truthful, sendsNothing⟩
  | resolved =>
    refine ⟨truthful, ?_⟩
    rintro _ ⟨rfl⟩
    exact Or.inl lookedNotArp
  | asked hasHop _ crafts =>
    constructor
    · apply truthful.of_keepsPorts keeps truthful.entries
      intro nf member
      rcases mem_nodeFlowPush member with rfl | old
      · exact lookedNotArp
      · exact truthful.buffer nf old
    · rintro _ ⟨rfl⟩
      obtain ⟨port, isPort⟩ := ipLookup_outPorts ln ecmp noPorts hasHop
      simp only [isPort, craftRequest] at crafts
      split at crafts
      · cases crafts
      · rename_i p isP
        obtain ⟨info, hasAddr, isReq⟩ := Option.bind_eq_some_iff.mp crafts
        cases isReq
        exact Or.inr ⟨port, p, info, isPort, rfl, isP, hasAddr, rfl, rfl, rfl⟩

theorem fillSource_ethType {nf filled : Netflow} (fills : fillSource n ports nf = some filled) :
    filled.key.ethType = nf.key.ethType :=
  fillSource_keeps (fun nf => nf.key.ethType) (fun _ _ _ => rfl) fills

/-- A request keeps the addresses of its port when the source of a netflow is filled in. -/
theorem SentAs.fillSource {next : Node} {nf filled : Netflow} (keeps : KeepsPorts next n)
    (sentAs : SentAs n ports nf) (fills : fillSource next ports nf = some filled) :
    SentAs n ports filled := by
  rcases sentAs with notArp | ⟨port, p, info, isPort, out, found, hasAddr, isRequest, spa, src⟩
  · left
    rw [fillSource_ethType fills]
    exact notArp
  · subst isPort
    obtain ⟨p', found', later⟩ := Option.bind_eq_some_iff.mp fills
    obtain ⟨info', -, last⟩ := Option.bind_eq_some_iff.mp later
    cases last
    have samePort := keeps.nodePort_read port Port.ethAddress fun _ => rfl
    rw [found, found'] at samePort
    exact Or.inr ⟨port, p, info, rfl, out, found, hasAddr, isRequest, spa,
      Option.some.inj samePort⟩

/-! ## Receiving -/

/-- Learning a right pair. -/
theorem NodeMemory.Truthful.learn (truthful : ln.memory.Truthful owns) {entry : ArpTableEntry}
    (right : owns entry.ip entry.ethAddr) :
    (LegacyNode.memory { ln with at_ := arpTableAddEntry ln.at_ entry }).Truthful owns := by
  refine truthful.of_keepsPorts (.refl _) ?_ truthful.buffer
  intro e member
  rcases List.mem_cons.mp member with rfl | old
  · exact right
  · exact truthful.entries e old

theorem craftReply_honest {flow : Netflow} (right : owns flow.key.arpTpa p.ethAddress) :
    Honest owns (craftReply p flow) := by
  intro _
  constructor
  · intro isRequest
    cases isRequest
  · exact fun _ => right

theorem recvArpRequest_truthful {flow : Netflow} (truthful : ln.memory.Truthful owns)
    (sender : owns flow.key.arpSpa flow.key.ethSrc)
    (found : nodePort ln.base flow.key.inPort = some p) (addressed : p.ipv4Addr ≠ none) :
    (recvArpRequest ln p flow).2.memory.Truthful owns ∧
      ∀ out, (recvArpRequest ln p flow).1 = some out → Honest owns out := by
  unfold recvArpRequest
  split
  · exact ⟨truthful, sendsNothing⟩
  · rename_i isTarget
    constructor
    · dsimp only
      split
      · exact truthful
      · exact truthful.learn sender
    · rintro _ ⟨rfl⟩
      apply craftReply_honest
      obtain ⟨info, hasAddr⟩ := Option.ne_none_iff_exists'.mp addressed
      have forPort : flow.key.arpTpa = info.addr := by
        simpa [hasAddr] using isTarget
      rw [forPort]
      exact truthful.port found hasAddr

theorem recvArpReply_truthful {flow : Netflow} (truthful : ln.memory.Truthful owns)
    (answer : owns flow.key.arpSpa flow.key.arpSha) :
    (recvArpReply ln flow).2.memory.Truthful owns ∧
      ∀ out, (recvArpReply ln flow).1 = some out → Honest owns out := by
  have learned := @NodeMemory.Truthful.learn _ _ truthful
    ⟨flow.key.arpSpa, flow.key.arpSha, flow.key.inPort⟩ answer
  unfold recvArpReply
  split
  · exact ⟨learned, sendsNothing⟩
  · rename_i waiting base popped
    obtain ⟨wasThere, rest⟩ := mem_of_nodeFlowPop popped
    constructor
    · refine truthful.of_keepsPorts (.flowPop popped) ?_ ?_
      · exact learned.entries
      · exact fun nf member => truthful.buffer nf (rest nf member)
    · rintro _ ⟨rfl⟩
      exact .of_notArp (truthful.buffer waiting wasThere)

/-- Learning and answering at the link layer. -/
theorem l2RecvNetflow_truthful {flow : Netflow} (truthful : ln.memory.Truthful owns)
    (honest : Honest owns flow) (takes : TakesRequest ln.base flow) :
    (l2RecvNetflow ln flow).2.memory.Truthful owns ∧
      ∀ out, (l2RecvNetflow ln flow).1 = some out → Honest owns out := by
  rcases received : l2RecvNetflow ln flow with ⟨out, after⟩
  cases receives_of_l2RecvNetflow received with
  | dropped => exact ⟨truthful, sendsNothing⟩
  | request found forUs isArp isRequest =>
    exact recvArpRequest_truthful truthful ((honest isArp).1 isRequest) found
      (takes isArp isRequest _ found forUs)
  | reply _ _ isArp isReply => exact recvArpReply_truthful truthful ((honest isArp).2 isReply)
  | passed =>
    refine ⟨truthful, ?_⟩
    rintro _ ⟨rfl⟩
    exact honest

section Host

variable {h after : Host} {flow nf : Netflow} {out : Option Netflow}

theorem hostRecvIp_truthful (truthful : h.ep.memory.Truthful owns)
    (notArp : nf.key.ethType ≠ ethTypeArp) (noPorts : nf.outPorts = [])
    (done : hostRecvIp h nf = some (out, after)) :
    after.ep.memory.Truthful owns ∧ ∀ f, out = some f → Honest owns f := by
  rcases hostRecvIp_cases done with ⟨rfl, rfl⟩ | ⟨app, handled, handles, answers⟩
  · exact ⟨truthful, sendsNothing⟩
  · obtain ⟨-, sameType, samePorts⟩ := appHandleNetflow_keeps handles
    obtain ⟨sent, found, fills, -⟩ := hostAnswer_forwards answers
    obtain ⟨kept, sentAs⟩ := findForwardingPorts_sentAs truthful
      (by rw [sameType]; exact notArp) (samePorts.trans noPorts) found
    refine ⟨kept, ?_⟩
    rintro filled rfl
    cases fills with
    | filled fills =>
      exact ((sentAs _ rfl).fillSource (findForwardingPorts_keepsPorts found) fills).honest
        truthful

theorem hostRecvArp_honest (honest : Honest owns nf)
    (done : hostRecvArp h nf = some (out, after)) : ∀ f, out = some f → Honest owns f := by
  rcases hostRecvArp_cases done with ⟨-, sent, rfl, ⟨isIp, fills⟩ | rfl⟩
  · rintro _ ⟨rfl⟩
    apply Honest.of_notArp
    rw [fillSource_ethType fills]
    exact notArp_of_ip isIp
  · rintro _ ⟨rfl⟩
    exact honest

theorem hostRecvNetflow_truthful (truthful : h.ep.memory.Truthful owns)
    (honest : Honest owns flow) (noPorts : flow.outPorts = [])
    (takes : TakesRequest h.ep.base flow) (done : hostRecvNetflow h flow = some (out, after)) :
    after.ep.memory.Truthful owns ∧ ∀ f, out = some f → Honest owns f := by
  obtain ⟨kept, answers⟩ := l2RecvNetflow_truthful truthful honest takes
  cases receives_of_hostRecvNetflow done with
  | dropped received =>
    rw [received] at kept
    exact ⟨kept, sendsNothing⟩
  | ip isIp _ answers => exact hostRecvIp_truthful truthful (notArp_of_ip isIp) noPorts answers
  | @arp nf _ _ _ _ received sends =>
    rw [received] at kept answers
    rw [(hostRecvArp_cases sends).1]
    exact ⟨kept, hostRecvArp_honest (answers nf rfl) sends⟩
  | ignored => exact ⟨truthful, sendsNothing⟩

theorem hostExecuteApp_truthful {exec : Exec} (truthful : h.ep.memory.Truthful owns)
    (done : hostExecuteApp h exec = some (out, after)) :
    after.ep.memory.Truthful owns ∧ ∀ f, out = some f → Honest owns f := by
  rcases hostExecuteApp_cases done with
    ⟨-, rfl, rfl⟩ | ⟨-, started, sent, starts, found, fills, -⟩
  · exact ⟨truthful, sendsNothing⟩
  · obtain ⟨notArp, noPorts⟩ := appStart_ip starts
    have kept := @findForwardingPorts_sentAs owns _ _ { started with execId := exec.id } _ _
      truthful notArp noPorts found
    refine ⟨kept.1, ?_⟩
    rintro filled rfl
    cases fills with
    | @filled f _ fills =>
      -- the ports of a request are those of the netflow that it stands for
      rcases kept.2 f rfl with isIp | ⟨port, p, info, isPort, out, request⟩
      · apply Honest.of_notArp
        rw [fillSource_ethType fills]
        exact isIp
      · have sentAs : SentAs h.ep.base f.outPorts f :=
          Or.inr ⟨port, p, info, out, out, request⟩
        exact (sentAs.fillSource (findForwardingPorts_keepsPorts found) fills).honest truthful

end Host

/-- Counting a netflow does not change which requests a port takes. -/
theorem TakesRequest.of_keepsPorts {before after : Node} {flow : Netflow}
    (takes : TakesRequest before flow) (keeps : KeepsPorts after before) :
    TakesRequest after flow := by
  intro isArp isRequest p found isDestination
  have sameAddr := keeps.nodePort_read flow.key.inPort Port.addresses fun _ => rfl
  rw [found] at sameAddr
  obtain ⟨old, wasThere, same⟩ := Option.map_eq_some_iff.mp sameAddr.symm
  simp only [Port.addresses, Prod.mk.injEq] at same
  have wasDestination : isLinkDestination old flow := by
    rw [isLinkDestination, same.2.1]
    exact isDestination
  rw [← same.2.2]
  exact takes isArp isRequest old wasThere wasDestination

theorem routerRecvNetflow_truthful {r after : Router} {flow : Netflow} {out : Option Netflow}
    (truthful : r.ln.memory.Truthful owns) (honest : Honest owns flow)
    (noPorts : flow.outPorts = []) (takes : TakesRequest r.ln.base flow)
    (done : routerRecvNetflow r flow = some (out, after)) :
    after.ln.memory.Truthful owns ∧ ∀ f, out = some f → Honest owns f := by
  have counts := KeepsPorts.countReceived r.ln.base flow flow.key.inPort
  have counted : LegacyNode.memory { r.ln with
      base := r.ln.base.countReceived flow flow.key.inPort } = r.ln.memory := by
    simp only [LegacyNode.memory, counts.addresses]
    rfl
  have takesCounted := takes.of_keepsPorts counts
  rw [← counted] at truthful
  obtain ⟨kept, answers⟩ := l2RecvNetflow_truthful truthful honest takesCounted
  cases receives_of_routerRecvNetflow done with
  | dropped received =>
    rw [received] at kept
    exact ⟨kept, sendsNothing⟩
  | consumed | ignored => exact ⟨truthful, sendsNothing⟩
  | forwarded isIp _ _ found =>
    obtain ⟨last, sentAs⟩ :=
      findForwardingPorts_sentAs truthful (notArp_of_ip isIp) noPorts found
    exact ⟨last, fun f isSent => (sentAs f isSent).honest truthful⟩
  | arp _ received =>
    rw [received] at kept answers
    exact ⟨kept, answers⟩

end Nodes

end Horse.Net
