import Horse.Bgp.FibTransfer
import Horse.Bgp.LocalRib
import Horse.Bgp.Processing

/-!
# Forwarding in the simulator and the routes of the peer

A peer sends the routes it has chosen to the simulator, which adds them to the route
table of the router.  The table only ever grows, while the peer replaces and drops
routes.  The two agree as long as every next hop that the peer gives up is one it
still has, in the sense of `HopsKept`.
-/

namespace Horse.Bgp

open Horse.Net (Router RouteEntryV4 RouteNode RouteTable)
open Horse.Transition

/-! ## Prefixes in the table -/

/-- A node of the route table stands for a prefix. -/
def isNodeOf (dest : IpPrefix) (node : RouteNode) : Bool :=
  decide (node.bitlen = dest.len) && Net.samePrefix node.ip dest.addr dest.len

/-- The gateways that are stored for a prefix. -/
def gatewaysFor (rt : RouteTable) (dest : IpPrefix) : List (BitVec 32) :=
  (rt.nodes.filter (isNodeOf dest)).flatMap fun node => node.nextHops.map RouteEntryV4.gateway

/-- A prefix whose address has no bits beyond its length. -/
def Canonical (dest : IpPrefix) : Prop :=
  dest.len ≤ 32 ∧ (dest.addr >>> (32 - dest.len)) <<< (32 - dest.len) = dest.addr

instance (dest : IpPrefix) : Decidable (Canonical dest) :=
  inferInstanceAs (Decidable (_ ∧ _))

variable {dest : IpPrefix} {gateway : BitVec 32}

theorem mem_gatewaysFor {rt : RouteTable} :
    gateway ∈ gatewaysFor rt dest ↔ ∃ node ∈ rt.nodes, isNodeOf dest node = true ∧
      ∃ e ∈ node.nextHops, e.gateway = gateway := by
  simp only [gatewaysFor, List.mem_flatMap, List.mem_filter, List.mem_map, and_assoc]

variable {bitlen : Nat} {nodes : List RouteNode} {r router installed : Router}
  {peer after : BgpPeer} {message : RouteMessage}

theorem samePrefix_trans {a b c : BitVec 32} (first : Net.samePrefix a b bitlen = true) :
    Net.samePrefix a c bitlen = Net.samePrefix b c bitlen := by
  simp only [Net.samePrefix, beq_iff_eq] at first ⊢
  rw [first]

/-- An entry is stored for the prefix it belongs to. -/
theorem mem_gateways_insertRoute {e : RouteEntryV4} :
    gateway ∈ gatewaysFor ⟨Net.insertRoute e bitlen nodes⟩ dest ↔
      gateway ∈ gatewaysFor ⟨nodes⟩ dest ∨
        (bitlen = dest.len ∧ Net.samePrefix e.ip dest.addr dest.len = true) ∧
          e.gateway = gateway := by
  simp only [mem_gatewaysFor]
  induction nodes with
  | nil =>
    simp [Net.insertRoute, isNodeOf]
  | cons node rest ih =>
    rw [Net.insertRoute]
    split
    · rename_i same
      have isNode : isNodeOf dest node = true ↔
          bitlen = dest.len ∧ Net.samePrefix e.ip dest.addr dest.len = true := by
        rw [isNodeOf, Bool.and_eq_true, decide_eq_true_iff, same.1]
        apply and_congr_right
        rintro rfl
        rw [samePrefix_trans same.2]
      have grown : isNodeOf dest { node with
          nextHops := node.nextHops ++ [e], nonempty := by simp } = isNodeOf dest node := rfl
      simp only [List.mem_cons, exists_eq_or_imp, grown, List.mem_append, isNode, List.not_mem_nil,
        or_false]
      constructor
      · rintro (⟨isDest, entry, old | rfl, isGateway⟩ | later)
        · exact Or.inl (Or.inl ⟨isDest, entry, old, isGateway⟩)
        · exact Or.inr ⟨isDest, isGateway⟩
        · exact Or.inl (Or.inr later)
      · rintro ((⟨isDest, entry, old, isGateway⟩ | later) | ⟨isDest, isGateway⟩)
        · exact Or.inl ⟨isDest, entry, Or.inl old, isGateway⟩
        · exact Or.inr later
        · exact Or.inl ⟨isDest, e, Or.inr rfl, isGateway⟩
    · simp only [List.mem_cons, exists_eq_or_imp, ih, or_assoc]

/-- The masks that are sent have the length of their prefix. -/
theorem maskBitlen_netmask : ∀ len ≤ 32,
    Net.maskBitlen ((cidrToNetmask len).getD 0) = len := by
  decide

theorem samePrefix_netmask : ∀ {len : Nat}, len ≤ 32 → ∀ addr other : BitVec 32,
    Net.samePrefix (addr &&& (cidrToNetmask len).getD 0) other len =
      Net.samePrefix addr other len := by
  intro len short addr other
  have masked : (addr &&& (cidrToNetmask len).getD 0) >>> (32 - len) = addr >>> (32 - len) := by
    rw [cidrToNetmask, if_pos short, Option.getD_some]
    ext bit inside
    simp only [BitVec.getElem_ushiftRight, BitVec.getLsbD_and, BitVec.getLsbD_shiftLeft,
      BitVec.getLsbD_ushiftRight, BitVec.getLsbD_allOnes]
    by_cases outside : 32 ≤ 32 - len + bit
    · rw [BitVec.getLsbD_of_ge _ _ outside, Bool.false_and]
    · rw [decide_eq_true (by omega), decide_eq_false (by omega), decide_eq_true (by omega)]
      simp
  rw [Net.samePrefix, Net.samePrefix, masked]

theorem Canonical.eq_of_samePrefix {other : IpPrefix} (canonical : Canonical dest)
    (otherCanonical : Canonical other) (sameLen : dest.len = other.len)
    (same : Net.samePrefix dest.addr other.addr other.len = true) : dest = other := by
  rcases dest with ⟨addr, len⟩
  rcases other with ⟨otherAddr, otherLen⟩
  obtain rfl : len = otherLen := sameLen
  have shifted : addr >>> (32 - len) = otherAddr >>> (32 - len) := by
    simpa [Net.samePrefix] using same
  have isAddr : addr = otherAddr := by
    calc
      addr = (addr >>> (32 - len)) <<< (32 - len) := canonical.2.symm
      _ = (otherAddr >>> (32 - len)) <<< (32 - len) := by rw [shifted]
      _ = otherAddr := otherCanonical.2
  rw [isAddr]

/-- An installed route adds its next hop to the gateways of its prefix. -/
theorem mem_gateways_installRoute {route : FibRoute} (canonical : Canonical route.dest)
    (destCanonical : Canonical dest) :
    gateway ∈ gatewaysFor (installRoute r route).ln.rt dest ↔
      gateway ∈ gatewaysFor r.ln.rt dest ∨ route.dest = dest ∧ route.nextHop = gateway := by
  have inserted : (installRoute r route).ln.rt = Net.addIpv4Entry r.ln.rt
    (Net.fibRoute r route.dest.addr ((cidrToNetmask route.dest.len).getD 0) route.nextHop) := rfl
  rw [inserted, Net.addIpv4Entry, mem_gateways_insertRoute]
  simp only [Net.fibRoute, maskBitlen_netmask _ canonical.1]
  apply or_congr_right
  apply and_congr_left
  intro _
  constructor
  · rintro ⟨sameLen, same⟩
    rw [← sameLen, samePrefix_netmask canonical.1, sameLen] at same
    exact canonical.eq_of_samePrefix destCanonical sameLen same
  · rintro rfl
    rw [samePrefix_netmask canonical.1]
    exact ⟨rfl, by simp [Net.samePrefix]⟩

theorem mem_gateways_installAll {routes : List FibRoute}
    (canonical : ∀ route ∈ routes, Canonical route.dest) (destCanonical : Canonical dest) :
    gateway ∈ gatewaysFor (routes.foldl installRoute r).ln.rt dest ↔
      gateway ∈ gatewaysFor r.ln.rt dest ∨
        ∃ route ∈ routes, route.dest = dest ∧ route.nextHop = gateway := by
  induction routes generalizing r with
  | nil => simp
  | cons route rest ih =>
    rw [List.forall_mem_cons] at canonical
    rw [List.foldl_cons, ih canonical.2, mem_gateways_installRoute canonical.1 destCanonical]
    simp only [List.mem_cons, exists_eq_or_imp, or_assoc]

/-! ## One message -/

/-- `process_bgp_route`, and `router_handle_control_message` on what was sent. -/
def forwardStep : Step (BgpPeer × Router) RouteMessage := fun (peer, router) message =>
  (peer.processBgpRoute message).bind fun (after, output) =>
    (output.sent.foldlM Net.routerHandleControlMessage router).map fun installed =>
      (after, installed)

/-- The simulator handles everything that a peer sends. -/
theorem processBgpRoute_handled {output : BgpPeer.Output} (router : Router)
    (processed : peer.processBgpRoute message = some (after, output)) :
    ∃ updated updates decided found fib, peer.update message = some (updated, updates) ∧
      updated.decisionLoop updates = some (decided, found) ∧
      found.mapM BgpPeer.fibRoute = some fib ∧ after.localRib = decided.localRib ∧
      output.sent.foldlM Net.routerHandleControlMessage router =
        some (fib.foldl installRoute router) := by
  obtain ⟨updated, updates, decided, found, fib, isUpdated, isDecided, isFib, isAnnounced,
    isSent⟩ := BgpPeer.processBgpRoute_cases processed
  refine ⟨updated, updates, decided, found, fib, isUpdated, isDecided, isFib,
    by rw [BgpPeer.bgpUpdatePeers_frame isAnnounced], ?_⟩
  rcases isSent with ⟨nothing, rfl⟩ | ⟨msg, routerId, isMsg, packed⟩
  · rw [nothing]
    rfl
  · rw [isMsg, List.foldlM_cons, handle_bgpFibPack packed]
    rfl

theorem forwardStep_isSome_iff (state : BgpPeer × Router) (message : RouteMessage) :
    (forwardStep state message).isSome ↔ (state.1.processBgpRoute message).isSome := by
  rw [forwardStep, Option.isSome_bind]
  cases processed : state.1.processBgpRoute message with
  | none => rfl
  | some result =>
    obtain ⟨_, _, _, _, _, -, -, -, -, handled⟩ := processBgpRoute_handled state.2 processed
    simp [handled]

/-- The effect of a message on the two tables: for the prefix of every accepted route
there is a decision, and the table gets the next hop of the route if that is the
result of the decision; for all other prefixes nothing changes. -/
theorem forwardStep_effect (once : AnnouncesOnce message)
    (canonical : ∀ dest ∈ announcedDests message, Canonical dest)
    (stepped : forwardStep (peer, router) message = some (after, installed)) :
    (∀ route ∈ peer.accepted message, ∃ chosen answer,
      Decides peer.conf route (peer.localRib.get route.dest) chosen answer ∧
      after.localRib.get route.dest = some chosen ∧
      (∀ routes, BestRoute.list routes ∉ answer.getD []) ∧
      ∀ gateway, gateway ∈ gatewaysFor installed.ln.rt route.dest ↔
        gateway ∈ gatewaysFor router.ln.rt route.dest ∨
          BestRoute.route route ∈ answer.getD [] ∧ route.nextHop = gateway) ∧
    ∀ dest ∉ (peer.accepted message).map RibTuple.dest,
      after.localRib.get dest = peer.localRib.get dest ∧
      (Canonical dest → ∀ gateway, gateway ∈ gatewaysFor installed.ln.rt dest ↔
        gateway ∈ gatewaysFor router.ln.rt dest) := by
  rcases Option.bind_eq_some_iff.mp stepped with ⟨⟨_, output⟩, processed, handling⟩
  rcases Option.map_eq_some_iff.mp handling with ⟨_, isInstalled, result⟩
  cases result
  rcases processBgpRoute_handled router processed with
    ⟨updated, updates, decided, found, fib, isUpdated, isDecided, isFib, sameLocal, handled⟩
  cases handled.symm.trans isInstalled
  rcases mapM_fibRoute isFib with ⟨noList, members⟩
  rw [sameLocal]
  rcases BgpPeer.update_cases isUpdated with ⟨rfl, rfl⟩ | ⟨dests, none, rfl, rfl⟩
  · have distinct := accepted_distinct peer once
    rcases BgpPeer.decisionLoop_announce distinct isDecided with
      ⟨⟨results, decisions, rfl⟩, -, others⟩
    have fibAccepted : ∀ route ∈ fib, ∃ chosen ∈ peer.accepted message,
        (⟨chosen.dest, chosen.nextHop⟩ : FibRoute) = route := by
      intro route member
      rcases (members route).mp member with ⟨chosen, isFound, same⟩
      exact ⟨chosen, decisions.mem_of_found isFound, same⟩
    have fibCanonical : ∀ route ∈ fib, Canonical route.dest := by
      intro route member
      rcases fibAccepted route member with ⟨chosen, isAccepted, rfl⟩
      exact canonical _ (BgpPeer.accepted_dest (List.mem_map_of_mem isAccepted))
    constructor
    · intro route member
      rcases decisions.answer_of_mem distinct member with
        ⟨chosen, answer, decides, isChosen, all, only⟩
      refine ⟨chosen, answer, decides, isChosen, ?_, ?_⟩
      · intro routes isList
        exact noList routes (all _ isList)
      · intro gateway
        have destCanonical := canonical _ (BgpPeer.accepted_dest (List.mem_map_of_mem member))
        rw [mem_gateways_installAll fibCanonical destCanonical]
        apply or_congr_right
        constructor
        · rintro ⟨fibRoute, isRoute, sameDest, isGateway⟩
          rcases (members fibRoute).mp isRoute with ⟨other, isFound, rfl⟩
          have isAnswer := only other sameDest isFound
          cases decides.eq_of_answer isAnswer
          exact ⟨isAnswer, isGateway⟩
        · rintro ⟨isAnswer, isGateway⟩
          exact ⟨⟨route.dest, route.nextHop⟩, (members _).mpr ⟨route, all _ isAnswer, rfl⟩, rfl,
            isGateway⟩
    · intro dest absent
      refine ⟨others dest absent, ?_⟩
      intro destCanonical gateway
      rw [mem_gateways_installAll fibCanonical destCanonical, or_iff_left]
      rintro ⟨route, member, rfl, -⟩
      rcases fibAccepted route member with ⟨chosen, isAccepted, rfl⟩
      exact absent (List.mem_map_of_mem isAccepted)
  · rcases (BgpPeer.decisionLoop_withdraw_iff fun _ => BgpPeer.withdrawLoop_withdraws).mp
      isDecided with ⟨-, rfl, rfl⟩
    cases isFib
    constructor
    · intro route member
      rw [none] at member
      cases member
    · intro dest _
      exact ⟨rfl, fun _ _ => Iff.rfl⟩

/-! ## Agreement -/

/-- For every prefix of the peer the gateways in the table are the next hops of the
chosen routes, and a lookup that ends at the prefix finds one of those. -/
structure ForwardingAgrees (state : BgpPeer × Router) : Prop where
  gateways : ∀ dest routes, state.1.localRib.get dest = some routes →
    ∀ gateway, gateway ∈ gatewaysFor state.2.ln.rt dest ↔ gateway ∈ routes.map RibTuple.nextHop
  lookup : ∀ dest routes, state.1.localRib.get dest = some routes →
    ∀ ip hash node e, Net.longestMatch ip state.2.ln.rt.nodes = some node →
      isNodeOf dest node = true → Net.ipv4Lookup state.2.ln.rt ip hash = some e →
        e.gateway ∈ routes.map RibTuple.nextHop

theorem mem_of_longestMatch {ip : BitVec 32} {node : RouteNode}
    (found : Net.longestMatch ip nodes = some node) : node ∈ nodes := by
  induction nodes generalizing node with
  | nil => cases found
  | cons first rest ih =>
    rw [Net.longestMatch] at found
    split at found
    · split at found
      · cases found
        exact List.mem_cons_self
      · rename_i other isOther
        split at found
        · cases found
          exact List.mem_cons_of_mem _ (ih isOther)
        · cases found
          exact List.mem_cons_self
    · exact List.mem_cons_of_mem _ (ih found)

/-- The lookups need no attention of their own. -/
theorem forwardingAgrees_iff {state : BgpPeer × Router} :
    ForwardingAgrees state ↔ ∀ dest routes, state.1.localRib.get dest = some routes →
      ∀ gateway, gateway ∈ gatewaysFor state.2.ln.rt dest ↔
        gateway ∈ routes.map RibTuple.nextHop := by
  constructor
  · exact ForwardingAgrees.gateways
  · intro agree
    constructor
    · exact agree
    · intro dest routes chosen ip hash node e isLongest isNode isFound
      rw [Net.ipv4Lookup, isLongest, Option.map_some] at isFound
      cases isFound
      rw [← agree dest routes chosen, mem_gatewaysFor]
      exact ⟨node, mem_of_longestMatch isLongest, isNode, _, List.get_mem _ _, rfl⟩

/-- An announced route makes the peer give up no next hop: if it ties with the first
chosen route and is preferred to it, then without multiple paths all chosen routes
have its next hop, and without room for another path the last one has the next hop of
one that stays. -/
def HopsKept (conf : Conf) (chosen : Option (List RibTuple)) (route : RibTuple) : Prop :=
  match chosen with
  | none | some [] => True
  | some (best :: rest) =>
    ¬ Beats route best → ¬ Beats best route → Preferred route best →
      if conf.maxPaths.getD 0 = 0 then ∀ old ∈ best :: rest, old.nextHop = route.nextHop
      else if (best :: rest).length + 1 ≤ conf.maxPaths.getD 0 then True
      else ∀ last, (best :: rest).getLast? = some last →
        last.nextHop ∈ (route :: (best :: rest).dropLast).map RibTuple.nextHop

/-- The next hops that stay include all old ones exactly under the condition. -/
theorem stay_hops_iff (conf : Conf) (route : RibTuple) {current : List RibTuple}
    (nonempty : current ≠ []) :
    (∀ old ∈ current,
        old.nextHop ∈ (route :: stay conf current).map RibTuple.nextHop) ↔
      if conf.maxPaths.getD 0 = 0 then ∀ old ∈ current, old.nextHop = route.nextHop
      else if current.length + 1 ≤ conf.maxPaths.getD 0 then True
      else ∀ last, current.getLast? = some last →
        last.nextHop ∈ (route :: current.dropLast).map RibTuple.nextHop := by
  simp only [stay]
  split
  · simp
  · split
    · rw [iff_true]
      intro old member
      exact List.mem_map_of_mem (List.mem_cons_of_mem _ member)
    · constructor
      · intro all last isLast
        exact all last (List.mem_of_getLast? isLast)
      · intro lastStays old member
        rw [← List.dropLast_append_getLast nonempty, List.mem_append,
          List.mem_singleton] at member
        rcases member with stays | rfl
        · exact List.mem_map_of_mem (List.mem_cons_of_mem _ stays)
        · exact lastStays _ (List.getLast?_eq_some_getLast nonempty)

/-- A decision keeps the gateways of a prefix equal to the next hops of its chosen
routes exactly under the condition. -/
theorem hops_iff_hopsKept {conf : Conf} {route : RibTuple} {chosen : Option (List RibTuple)}
    {after : List RibTuple} {answer : Option (List BestRoute)} {stored : BitVec 32 → Prop}
    (decides : Decides conf route chosen after answer)
    (noList : ∀ routes, BestRoute.list routes ∉ answer.getD [])
    (agree : ∀ gateway, stored gateway ↔ gateway ∈ (chosen.getD []).map RibTuple.nextHop) :
    (∀ gateway, (stored gateway ∨ BestRoute.route route ∈ answer.getD [] ∧
        route.nextHop = gateway) ↔ gateway ∈ after.map RibTuple.nextHop) ↔
      HopsKept conf chosen route := by
  simp only [agree]
  cases decides with
  | first => simp [HopsKept, eq_comm]
  | better best rest beats different => exact absurd List.mem_cons_self (noList [route])
  | betterEqual best rest beats same => simp [HopsKept, beats]
  | worse best rest beats => simp [HopsKept, beats]
  | preferred best rest ties isPreferred =>
    simp only [HopsKept, ties.not_beats.1, ties.not_beats.2, isPreferred, not_false_eq_true,
      forall_const, ← stay_hops_iff conf route (List.cons_ne_nil best rest)]
    constructor
    · intro same old member
      exact (same old.nextHop).mp (Or.inl (List.mem_map_of_mem member))
    · intro all gateway
      constructor
      · rintro (old | ⟨-, rfl⟩)
        · rcases List.mem_map.mp old with ⟨hop, member, rfl⟩
          exact all hop member
        · exact List.mem_map_of_mem List.mem_cons_self
      · intro member
        rcases List.mem_map.mp member with ⟨hop, isHop, rfl⟩
        rcases List.mem_cons.mp isHop with rfl | stays
        · exact Or.inr ⟨List.mem_cons_self, rfl⟩
        · exact Or.inl (List.mem_map_of_mem (stay_subset stays))
  | append best rest ties notPreferred maxPaths isMax room =>
    simp [HopsKept, notPreferred, or_assoc, eq_comm]
  | ignore best rest ties notPreferred maxPaths isMax full =>
    simp [HopsKept, notPreferred]

/-! ## Runs -/

/-- Every route that a message announces makes the peer give up no next hop. -/
def MessageKeepsHops (state : BgpPeer × Router) (message : RouteMessage) : Prop :=
  ∀ route ∈ state.1.accepted message,
    HopsKept state.1.conf (state.1.localRib.get route.dest) route

section Runs

variable {known : IpPrefix → Prop}

/-- The peer has routes for known prefixes only, and for a known prefix without routes
there are no gateways. -/
structure Tabled (known : IpPrefix → Prop) (state : BgpPeer × Router) : Prop where
  chosen : ∀ dest routes, state.1.localRib.get dest = some routes → known dest
  free : ∀ dest, known dest → state.1.localRib.get dest = none →
    gatewaysFor state.2.ln.rt dest = []

/-- A message announces known prefixes, and none of them twice. -/
structure Announces (known : IpPrefix → Prop) (message : RouteMessage) : Prop where
  once : AnnouncesOnce message
  dests : ∀ dest ∈ announcedDests message, known dest

variable {state : BgpPeer × Router}

section

variable {message : RouteMessage} (canonical : ∀ dest, known dest → Canonical dest)
  (announces : Announces known message) (tabled : Tabled known state)

include canonical announces tabled

theorem tabled_step {after : BgpPeer × Router} (stepped : forwardStep state message = some after) :
    Tabled known after := by
  rcases forwardStep_effect announces.once
    (fun dest member => canonical dest (announces.dests dest member)) stepped with
    ⟨decided, others⟩
  constructor
  · intro dest routes isChosen
    by_cases isDest : dest ∈ (state.1.accepted message).map RibTuple.dest
    · exact announces.dests dest (BgpPeer.accepted_dest isDest)
    · rw [(others dest isDest).1] at isChosen
      exact tabled.chosen dest routes isChosen
  · intro dest isKnown isNone
    by_cases isDest : dest ∈ (state.1.accepted message).map RibTuple.dest
    · rcases List.mem_map.mp isDest with ⟨route, member, rfl⟩
      rcases decided route member with ⟨chosen, answer, -, isChosen, -⟩
      rw [isChosen] at isNone
      cases isNone
    · rcases others dest isDest with ⟨same, sameGateways⟩
      rw [same] at isNone
      apply List.eq_nil_iff_forall_not_mem.mpr
      intro gateway member
      rw [sameGateways (canonical dest isKnown), tabled.free dest isKnown isNone] at member
      cases member

/-- A message keeps the tables in agreement exactly under the condition. -/
theorem forwardingAgrees_step {after : BgpPeer × Router} (agrees : ForwardingAgrees state)
    (stepped : forwardStep state message = some after) :
    ForwardingAgrees after ↔ MessageKeepsHops state message := by
  rcases forwardStep_effect announces.once
    (fun dest member => canonical dest (announces.dests dest member)) stepped with
    ⟨decided, others⟩
  have atRoute : ∀ route ∈ state.1.accepted message,
      ((∀ routes, after.1.localRib.get route.dest = some routes →
          ∀ gateway, gateway ∈ gatewaysFor after.2.ln.rt route.dest ↔
            gateway ∈ routes.map RibTuple.nextHop) ↔
        HopsKept state.1.conf (state.1.localRib.get route.dest) route) := by
    intro route member
    rcases decided route member with ⟨chosen, answer, decides, isChosen, noList, gateways⟩
    have isKnown := announces.dests _ (BgpPeer.accepted_dest (List.mem_map_of_mem member))
    rw [← @hops_iff_hopsKept _ _ _ _ _
      (fun gateway => gateway ∈ gatewaysFor state.2.ln.rt route.dest) decides noList]
    · simp only [isChosen, Option.some.injEq, forall_eq', gateways]
    · intro gateway
      cases before : state.1.localRib.get route.dest with
      | none => simp [tabled.free _ isKnown before]
      | some routes => exact agrees.gateways _ routes before gateway
  rw [forwardingAgrees_iff]
  constructor
  · intro agree route member
    exact (atRoute route member).mp (agree route.dest)
  · intro kept dest routes isChosen
    by_cases isDest : dest ∈ (state.1.accepted message).map RibTuple.dest
    · rcases List.mem_map.mp isDest with ⟨route, member, rfl⟩
      exact (atRoute route member).mpr (kept route member) routes isChosen
    · rcases others dest isDest with ⟨same, sameGateways⟩
      rw [same] at isChosen
      intro gateway
      rw [sameGateways (canonical dest (tabled.chosen dest routes isChosen))]
      exact agrees.gateways dest routes isChosen gateway

end

end Runs

/-- After every message that a peer without routes processes without an exception its
routes and the table of the router agree, exactly if every message makes the peer give
up no next hop. -/
theorem forwarding_along_iff (conf : Conf)
    (up : Container.Dict (BitVec 32) (Nat × BitVec 32)) (router : Router)
    (messages : List RouteMessage) (once : ∀ message ∈ messages, AnnouncesOnce message)
    (canonical : ∀ message ∈ messages, ∀ dest ∈ announcedDests message, Canonical dest)
    (free : ∀ message ∈ messages, ∀ dest ∈ announcedDests message,
      gatewaysFor router.ln.rt dest = []) :
    Along forwardStep
        (fun state message => ∀ after, forwardStep state message = some after →
          ForwardingAgrees after)
        ({ BgpPeer.new conf with neighborsUp := up }, router) messages ↔
      Along forwardStep
        (fun state message => (state.1.processBgpRoute message).isSome →
          MessageKeepsHops state message)
        ({ BgpPeer.new conf with neighborsUp := up }, router) messages := by
  simp only [← forwardStep_isSome_iff]
  let known : IpPrefix → Prop := fun dest => ∃ message ∈ messages, dest ∈ announcedDests message
  have knownCanonical : ∀ dest, known dest → Canonical dest := by
    rintro dest ⟨message, isMessage, member⟩
    exact canonical message isMessage dest member
  apply @along_keeps_iff _ _ forwardStep MessageKeepsHops ForwardingAgrees (Announces known)
    (Tabled known)
  · intro state message after announces tabled stepped
    exact tabled_step knownCanonical announces tabled stepped
  · intro state message after announces tabled agrees stepped
    exact forwardingAgrees_step knownCanonical announces tabled agrees stepped
  · constructor
    · rintro dest routes ⟨⟩
    · rintro dest ⟨message, isMessage, member⟩ -
      exact free message isMessage dest member
  · rw [forwardingAgrees_iff]
    rintro dest routes ⟨⟩
  · intro message isMessage
    constructor
    · exact once message isMessage
    · intro dest member
      exact ⟨message, isMessage, member⟩

/-- A route that ties with the chosen one and has a lower next hop replaces it at the
peer, but the router keeps both gateways. -/
theorem replaced_hop_stays_installed :
    ∃ after, run forwardStep (BgpPeer.new (Sample.conf none), Net.routerNew 1)
        [Sample.announce 3 [3], Sample.announce 2 [2]] = some after ∧
      ¬ ForwardingAgrees after := by
  refine ⟨_, rfl, ?_⟩
  intro agrees
  have same := agrees.gateways Sample.dest _ rfl 0x0A000003
  revert same
  decide +kernel

/-- With two paths allowed the second route is added on both sides. -/
theorem forwarding_along_twoPaths :
    Along forwardStep
        (fun state message => ∀ after, forwardStep state message = some after →
          ForwardingAgrees after)
        (BgpPeer.new (Sample.conf (some 2)), Net.routerNew 1)
        [Sample.announce 3 [3], Sample.announce 2 [2]] := by
  apply (forwarding_along_iff (Sample.conf (some 2)) Container.Dict.empty (Net.routerNew 1) _
    (by decide) (by decide) (by decide)).mpr
  constructor
  · intro _ route member
    cases List.mem_singleton.mp member
    trivial
  · rintro _ ⟨rfl⟩
    constructor
    · intro _ route member
      cases List.mem_singleton.mp member
      intro _ _ _
      trivial
    · rintro _ ⟨rfl⟩
      trivial

end Horse.Bgp
