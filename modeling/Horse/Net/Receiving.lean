import Horse.Net.Host

/-!
# What hosts and routers can do with a netflow

The functions of legacy nodes, hosts and routers, read from their results: each relation
has a case for every way in which its function returns.  What a node keeps is proved by
these cases.
-/

namespace Horse.Net

open Horse.Lib

/-! ## Legacy nodes -/

section Legacy

variable {ln after : LegacyNode} {flow : Netflow} {ecmp : Bool} {out : Option Netflow}

/-- The results of `find_forwarding_ports`. -/
inductive LegacyNode.Forwards (ln : LegacyNode) (flow : Netflow) (ecmp : Bool) :
    Option Netflow → LegacyNode → Prop
  | noRoute (noHop : (ipLookup ln flow ecmp).1 = 0) : Forwards ln flow ecmp none ln
  | resolved {entry : ArpTableEntry} (hasHop : (ipLookup ln flow ecmp).1 ≠ 0)
      (known : arpTableLookup ln.at_ (ipLookup ln flow ecmp).1 = some entry) :
      Forwards ln flow ecmp (some (setEthDst (ipLookup ln flow ecmp).2 entry.ethAddr)) ln
  | abandoned (hasHop : (ipLookup ln flow ecmp).1 ≠ 0)
      (unknown : arpTableLookup ln.at_ (ipLookup ln flow ecmp).1 = none)
      (crafts : craftRequest ln.base arpReqNew (ipLookup ln flow ecmp).2.outPorts = some none) :
      Forwards ln flow ecmp none ln
  | asked {arpReq : Netflow} (hasHop : (ipLookup ln flow ecmp).1 ≠ 0)
      (unknown : arpTableLookup ln.at_ (ipLookup ln flow ecmp).1 = none)
      (crafts : craftRequest ln.base arpReqNew (ipLookup ln flow ecmp).2.outPorts =
        some (some arpReq)) :
      Forwards ln flow ecmp
        (some (finishRequest arpReq (ipLookup ln flow ecmp).2 (ipLookup ln flow ecmp).1))
        { ln with base := nodeFlowPush ln.base (ipLookup ln flow ecmp).2 }

theorem forwards_of_findForwardingPorts
    (found : findForwardingPorts ln flow ecmp = some (out, after)) :
    ln.Forwards flow ecmp out after := by
  simp only [findForwardingPorts] at found
  split at found
  · rename_i noHop
    cases found
    exact .noRoute noHop
  · rename_i hasHop
    unfold resolveMac at found
    split at found
    · rename_i known
      cases found
      exact .resolved hasHop known
    · rename_i unknown
      rcases Option.map_eq_some_iff.mp found with ⟨crafted, crafts, result⟩
      cases crafted with
      | none =>
        cases result
        exact .abandoned hasHop unknown crafts
      | some arpReq =>
        cases result
        exact .asked hasHop unknown crafts

/-- The results of `l2_recv_netflow`. -/
inductive LegacyNode.Receives (ln : LegacyNode) (flow : Netflow) :
    Option Netflow → LegacyNode → Prop
  | dropped (notForUs : ∀ p, nodePort ln.base flow.key.inPort = some p →
      isLinkDestination p flow = false) : Receives ln flow none ln
  | request {p : Port} (found : nodePort ln.base flow.key.inPort = some p)
      (forUs : isLinkDestination p flow = true) (isArp : flow.key.ethType = ethTypeArp)
      (isRequest : flow.key.arpOp = arpRequest) :
      Receives ln flow (recvArpRequest ln p flow).1 (recvArpRequest ln p flow).2
  | reply {p : Port} (found : nodePort ln.base flow.key.inPort = some p)
      (forUs : isLinkDestination p flow = true) (isArp : flow.key.ethType = ethTypeArp)
      (isReply : flow.key.arpOp = arpReply) :
      Receives ln flow (recvArpReply ln flow).1 (recvArpReply ln flow).2
  | passed (other : flow.key.ethType = ethTypeArp →
      flow.key.arpOp ≠ arpRequest ∧ flow.key.arpOp ≠ arpReply) : Receives ln flow (some flow) ln

theorem receives_of_l2RecvNetflow (received : l2RecvNetflow ln flow = (out, after)) :
    ln.Receives flow out after := by
  unfold l2RecvNetflow at received
  cases found : nodePort ln.base flow.key.inPort with
  | none =>
    rw [found] at received
    cases received
    exact .dropped (by simp [found])
  | some p =>
    simp only [found] at received
    split at received
    · rename_i forUs
      split at received
      · rename_i isArp
        split at received
        · rename_i isRequest
          have answers := LegacyNode.Receives.request found forUs isArp isRequest
          rwa [received] at answers
        · rename_i notRequest
          split at received
          · rename_i isReply
            have releases := LegacyNode.Receives.reply found forUs isArp isReply
            rwa [received] at releases
          · rename_i notReply
            cases received
            exact .passed fun _ => ⟨notRequest, notReply⟩
      · rename_i notArp
        cases received
        exact .passed fun isArp => absurd isArp notArp
    · rename_i notForUs
      cases received
      apply LegacyNode.Receives.dropped
      rintro other isOther
      cases found.symm.trans isOther
      exact Bool.eq_false_of_not_eq_true notForUs

/-- Only ARP changes a legacy node or the netflow in the link layer. -/
theorem l2RecvNetflow_of_notArp (notArp : flow.key.ethType ≠ ethTypeArp)
    (received : l2RecvNetflow ln flow = (out, after)) :
    after = ln ∧ (out = none ∨ out = some flow) := by
  cases receives_of_l2RecvNetflow received with
  | dropped => exact ⟨rfl, Or.inl rfl⟩
  | request _ _ isArp | reply _ _ isArp => exact absurd isArp notArp
  | passed => exact ⟨rfl, Or.inr rfl⟩

theorem notArp_of_ip (isIp : flow.key.ethType = ethTypeIp ∨ flow.key.ethType = ethTypeIpv6) :
    flow.key.ethType ≠ ethTypeArp := by
  rcases isIp with isIp | isIp <;> rw [isIp] <;> decide

end Legacy

/-! ## Hosts -/

section Host

variable {h after : Host} {flow nf : Netflow} {out : Option Netflow}

/-- What a host sends in place of a netflow: the same with the source addresses of ports. -/
inductive FillsSource (n : Node) (ports : Netflow → List (BitVec 32)) :
    Option Netflow → Option Netflow → Prop
  | nothing : FillsSource n ports none none
  | filled {f filled : Netflow} (fills : fillSource n (ports f) f = some filled) :
      FillsSource n ports (some f) (some filled)

theorem hostAnswer_forwards (done : hostAnswer h nf = some (out, after)) :
    ∃ sent, findForwardingPorts h.ep nf false = some (sent, after.ep) ∧
      FillsSource after.ep.base (fun _ => (ipLookup h.ep nf false).2.outPorts) sent out ∧
      after.execs = h.execs := by
  rcases Option.bind_eq_some_iff.mp done with ⟨⟨sent, ep⟩, found, rest⟩
  cases sent with
  | none =>
    cases rest
    exact ⟨none, found, .nothing, rfl⟩
  | some f =>
    rcases Option.map_eq_some_iff.mp rest with ⟨filled, fills, result⟩
    cases result
    exact ⟨some f, found, .filled fills, rfl⟩

/-- A host that does not answer is left as it was. -/
theorem hostRecvIp_cases (done : hostRecvIp h nf = some (out, after)) :
    (out = none ∧ after = h) ∨ ∃ app handled,
      appHandleNetflow nf app = some (handled, true) ∧
        hostAnswer h handled = some (out, after) := by
  unfold hostRecvIp at done
  split at done
  · split at done
    · cases done
      exact Or.inl ⟨rfl, rfl⟩
    · rename_i app _
      rcases Option.bind_eq_some_iff.mp done with ⟨⟨handled, answer⟩, handles, rest⟩
      cases answer with
      | false =>
        cases rest
        exact Or.inl ⟨rfl, rfl⟩
      | true => exact Or.inr ⟨app, handled, handles, rest⟩
  · cases done
    exact Or.inl ⟨rfl, rfl⟩

/-- An IP netflow gets its source addresses, and any other one is sent as it is. -/
theorem hostRecvArp_cases (done : hostRecvArp h nf = some (out, after)) :
    after = h ∧ ∃ sent, out = some sent ∧
      ((nf.key.ethType = ethTypeIp ∨ nf.key.ethType = ethTypeIpv6) ∧
          fillSource h.ep.base nf.outPorts nf = some sent ∨
        sent = nf) := by
  unfold hostRecvArp at done
  split at done
  · rename_i isIp
    rcases Option.map_eq_some_iff.mp done with ⟨filled, fills, result⟩
    cases result
    exact ⟨rfl, filled, rfl, Or.inl ⟨isIp, fills⟩⟩
  · cases done
    exact ⟨rfl, nf, rfl, Or.inr rfl⟩

/-- The results of `host_recv_netflow`. -/
inductive Host.Receives (h : Host) (flow : Netflow) : Option Netflow → Host → Prop
  | dropped {ep : LegacyNode} (received : l2RecvNetflow h.ep flow = (none, ep)) :
      Receives h flow none { h with ep := ep }
  | ip {out : Option Netflow} {after : Host}
      (isIp : flow.key.ethType = ethTypeIp ∨ flow.key.ethType = ethTypeIpv6)
      (received : l2RecvNetflow h.ep flow = (some flow, h.ep))
      (done : hostRecvIp h flow = some (out, after)) : Receives h flow out after
  | arp {nf : Netflow} {ep : LegacyNode} {out : Option Netflow} {after : Host}
      (isArp : flow.key.ethType = ethTypeArp)
      (received : l2RecvNetflow h.ep flow = (some nf, ep))
      (done : hostRecvArp { h with ep := ep } nf = some (out, after)) : Receives h flow out after
  | ignored (notIp : ¬(flow.key.ethType = ethTypeIp ∨ flow.key.ethType = ethTypeIpv6))
      (notArp : flow.key.ethType ≠ ethTypeArp)
      (received : l2RecvNetflow h.ep flow = (some flow, h.ep)) : Receives h flow none h

theorem receives_of_hostRecvNetflow (done : hostRecvNetflow h flow = some (out, after)) :
    h.Receives flow out after := by
  unfold hostRecvNetflow at done
  split at done
  · rename_i ep received
    cases done
    exact .dropped received
  · rename_i nf ep received
    dsimp only at done
    split at done
    · rename_i isIp
      rcases l2RecvNetflow_of_notArp (notArp_of_ip isIp) received with ⟨rfl, isNone | isFlow⟩
      · cases isNone
      · cases isFlow
        exact .ip isIp received done
    · rename_i notIp
      split at done
      · rename_i isArp
        exact .arp isArp received done
      · rename_i notArp
        cases done
        rcases l2RecvNetflow_of_notArp notArp received with ⟨rfl, isNone | isFlow⟩
        · cases isNone
        · cases isFlow
          exact .ignored notIp notArp received

/-- An application that is not installed sends nothing. -/
theorem hostExecuteApp_cases {exec : Exec} (done : hostExecuteApp h exec = some (out, after)) :
    (exec.args.type ∉ h.apps ∧ out = none ∧ after = h) ∨
      exec.args.type ∈ h.apps ∧ ∃ started sent, appStart exec.startTime exec.args = some started ∧
        findForwardingPorts h.ep { started with execId := exec.id } false =
          some (sent, after.ep) ∧
        FillsSource after.ep.base Netflow.outPorts sent out ∧
        after.execs = (h.updateExec exec.addr (fun execCnt => execCnt - 1) id).execs := by
  unfold hostExecuteApp at done
  split at done
  · rename_i installed
    rcases Option.bind_eq_some_iff.mp done with ⟨started, starts, rest⟩
    rcases Option.bind_eq_some_iff.mp rest with ⟨⟨sent, ep⟩, found, last⟩
    refine Or.inr ⟨installed, started, sent, starts, ?_⟩
    cases sent with
    | none =>
      cases last
      exact ⟨found, .nothing, rfl⟩
    | some f =>
      rcases Option.map_eq_some_iff.mp last with ⟨filled, fills, result⟩
      cases result
      exact ⟨found, .filled fills, rfl⟩
  · rename_i notInstalled
    cases done
    exact Or.inl ⟨notInstalled, rfl, rfl⟩

end Host

/-! ## Routers -/

section Router

variable {r after : Router} {flow : Netflow} {out : Option Netflow}

/-- The node of a router that has counted a netflow. -/
abbrev Router.counted (r : Router) (flow : Netflow) : LegacyNode :=
  { r.ln with base := r.ln.base.countReceived flow flow.key.inPort }

/-- The results of `router_recv_netflow`. -/
inductive Router.Receives (r : Router) (flow : Netflow) : Option Netflow → Router → Prop
  | dropped {ln : LegacyNode} (received : l2RecvNetflow (r.counted flow) flow = (none, ln)) :
      Receives r flow none { r with ln := ln }
  | consumed (isIp : flow.key.ethType = ethTypeIp ∨ flow.key.ethType = ethTypeIpv6)
      (received : l2RecvNetflow (r.counted flow) flow = (some flow, r.counted flow))
      (forUs : isL3Destination (r.counted flow) flow = true) :
      Receives r flow none { r with ln := r.counted flow }
  | forwarded {out : Option Netflow} {ln : LegacyNode}
      (isIp : flow.key.ethType = ethTypeIp ∨ flow.key.ethType = ethTypeIpv6)
      (received : l2RecvNetflow (r.counted flow) flow = (some flow, r.counted flow))
      (notForUs : ¬isL3Destination (r.counted flow) flow = true)
      (found : findForwardingPorts (r.counted flow) flow r.ecmp = some (out, ln)) :
      Receives r flow out { r with ln := ln }
  | arp {nf : Netflow} {ln : LegacyNode} (isArp : flow.key.ethType = ethTypeArp)
      (received : l2RecvNetflow (r.counted flow) flow = (some nf, ln)) :
      Receives r flow (some nf) { r with ln := ln }
  | ignored (notIp : ¬(flow.key.ethType = ethTypeIp ∨ flow.key.ethType = ethTypeIpv6))
      (notArp : flow.key.ethType ≠ ethTypeArp)
      (received : l2RecvNetflow (r.counted flow) flow = (some flow, r.counted flow)) :
      Receives r flow none { r with ln := r.counted flow }

theorem receives_of_routerRecvNetflow (done : routerRecvNetflow r flow = some (out, after)) :
    r.Receives flow out after := by
  simp only [routerRecvNetflow] at done
  split at done
  · rename_i ln received
    cases done
    exact .dropped received
  · rename_i nf ln received
    split at done
    · rename_i isIp
      rcases l2RecvNetflow_of_notArp (notArp_of_ip isIp) received with ⟨rfl, isNone | isFlow⟩
      · cases isNone
      · cases isFlow
        split at done
        · rename_i forUs
          cases done
          exact .consumed isIp received forUs
        · rename_i notForUs
          rcases Option.map_eq_some_iff.mp done with ⟨⟨sent, last⟩, found, result⟩
          cases result
          exact .forwarded isIp received notForUs found
    · rename_i notIp
      split at done
      · rename_i isArp
        cases done
        exact .arp isArp received
      · rename_i notArp
        cases done
        rcases l2RecvNetflow_of_notArp notArp received with ⟨rfl, isNone | isFlow⟩
        · cases isNone
        · cases isFlow
          exact .ignored notIp notArp received

end Router

end Horse.Net
