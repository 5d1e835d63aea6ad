import Horse.Bgp.Decisions
import Horse.Bgp.MsgCodec

/-!
# What processing a message consists of

`process_bgp_route` takes the routes of a message into the input table, decides on each of
them, sends the results to the simulator and announces what has changed to the neighbors.
Here the parts are taken apart for any message, also for one that has a prefix twice.
-/

namespace Horse.Bgp

open Horse.Container Horse.Codec Horse.Transition

/-! ## The decisions on a message -/

namespace BgpPeer

variable {peer after : BgpPeer} {routes : List RibTuple} {found : List BestRoute}

section

variable (decided : peer.decisionLoop (routes.map .announce) = some (after, found))

include decided

/-- Decisions touch the local table only; the first route of a prefix stays, or is one of
the announced routes. -/
theorem decisionLoop_first :
    after = { peer with localRib := after.localRib } ∧
      (∀ dest, after.localRib.first dest = peer.localRib.first dest ∨
        ∃ route ∈ routes, route.dest = dest ∧ after.localRib.first dest = some route) ∧
      ∀ route ∈ routes, (after.localRib.first route.dest).isSome := by
  induction routes generalizing peer found with
  | nil =>
    cases decided
    exact ⟨rfl, fun _ => .inl rfl, nofun⟩
  | cons route rest ih =>
    obtain ⟨middle, answer, others, decidedFirst, looped, rfl⟩ :=
      decisionLoop_cons_eq_some_iff.mp decided
    obtain ⟨chosen, decides, chooses⟩ := decisionProcessLocal_announce decidedFirst
    obtain ⟨frame, firsts, entered⟩ := ih looped
    obtain ⟨best, tail, isChosen, origin⟩ := decides.exists_head
    have middleFirst := chooses.first
    rw [isChosen, List.head?_cons] at middleFirst
    refine ⟨?_, fun dest => ?_, ?_⟩
    · rw [frame, chooses.frame]
    · rcases firsts dest with same | ⟨other, member, isDest, isFirst⟩
      · rw [same, middleFirst]
        by_cases isDest : dest = route.dest
        · rw [if_pos isDest]
          rcases origin with rfl | wasFirst
          · exact .inr ⟨best, List.mem_cons_self, isDest.symm, rfl⟩
          · exact .inl (isDest ▸ wasFirst.symm)
        · rw [if_neg isDest]
          exact .inl rfl
      · exact .inr ⟨other, List.mem_cons_of_mem _ member, isDest, isFirst⟩
    · refine List.forall_mem_cons.mpr ⟨?_, entered⟩
      rcases firsts route.dest with same | ⟨other, _, _, isFirst⟩
      · rw [same, middleFirst, if_pos rfl]
        rfl
      · rw [isFirst]
        rfl

/-- Every result is one of the routes. -/
theorem mem_of_decisionLoop {route : RibTuple} (isFound : BestRoute.route route ∈ found) :
    route ∈ routes := by
  induction routes generalizing peer found with
  | nil =>
    cases decided
    cases isFound
  | cons head rest ih =>
    obtain ⟨middle, answer, others, decidedFirst, looped, rfl⟩ :=
      decisionLoop_cons_eq_some_iff.mp decided
    obtain ⟨chosen, decides, -⟩ := decisionProcessLocal_announce decidedFirst
    rcases List.mem_append.mp isFound with now | inOthers
    · rw [decides.eq_of_answer now]
      exact List.mem_cons_self
    · exact List.mem_cons_of_mem _ (ih looped inOthers)

/-- Each decision has at most one result. -/
theorem decisionLoop_length :
    found.length ≤ routes.length := by
  induction routes generalizing peer found with
  | nil =>
    cases decided
    exact Nat.le_refl 0
  | cons route rest ih =>
    obtain ⟨middle, answer, others, decidedFirst, looped, rfl⟩ :=
      decisionLoop_cons_eq_some_iff.mp decided
    obtain ⟨chosen, decides, -⟩ := decisionProcessLocal_announce decidedFirst
    rw [List.length_append, List.length_cons, Nat.add_comm]
    exact Nat.add_le_add (ih looped) decides.answer_length

end

end BgpPeer

/-! ## The message to the simulator -/

/-- The items that can be packed are routes. -/
theorem mapM_fibRoute {found : List BestRoute} {fib : List FibRoute}
    (packed : found.mapM BgpPeer.fibRoute = some fib) :
    (∀ routes, BestRoute.list routes ∉ found) ∧
      ∀ route, route ∈ fib ↔ ∃ chosen : RibTuple, BestRoute.route chosen ∈ found ∧
        (⟨chosen.dest, chosen.nextHop⟩ : FibRoute) = route := by
  constructor
  · intro routes member
    cases isSome_of_mapM packed _ member
  · intro route
    rw [mem_mapM_iff packed]
    constructor
    · rintro ⟨_ | _, member, isRoute⟩
      · exact ⟨_, member, Option.some.inj isRoute⟩
      · cases isRoute
    · rintro ⟨chosen, member, rfl⟩
      exact ⟨_, member, rfl⟩

theorem bgpFibPack_defined {localId : BitVec 32} {routes : List FibRoute}
    (few : routes.length ≤ maxFibEntries) (inRange : ∀ route ∈ routes, route.dest.len ≤ 32) :
    ∃ msg, bgpFibPack localId routes = some msg := by
  obtain ⟨msg, frame, isMsg, packed, -⟩ := @BgpFibMsg.unpack_pack routes localId few inRange
  obtain ⟨_, -, rfl⟩ := Option.map_eq_some_iff.mp isMsg
  rw [BgpFibMsg.pack_eq_bgpFibPack rfl rfl] at packed
  exact ⟨frame, packed⟩

/-- What the results of the decisions make `process_bgp_route` send. -/
theorem fibMessage_defined {routerId : BitVec 32} {found : List BestRoute}
    (noList : ∀ routes, BestRoute.list routes ∉ found) (few : found.length ≤ maxFibEntries)
    (inRange : ∀ route, BestRoute.route route ∈ found → route.dest.len ≤ 32) :
    ∃ sent, (if found = [] then some []
      else ((found.mapM BgpPeer.fibRoute).bind (bgpFibPack routerId)).map fun msg => [msg]) =
        some sent := by
  split
  · exact ⟨[], rfl⟩
  · obtain ⟨fib, isFib, length⟩ := @mapM_defined _ _ found BgpPeer.fibRoute (by
      rintro (_ | routes) member
      · rfl
      · exact absurd member (noList routes))
    obtain ⟨-, members⟩ := mapM_fibRoute isFib
    obtain ⟨msg, packed⟩ := @bgpFibPack_defined routerId fib (length ▸ few) (by
      intro route member
      obtain ⟨chosen, isFound, rfl⟩ := (members route).mp member
      exact inRange chosen isFound)
    rw [isFib, Option.bind_some, packed]
    exact ⟨_, rfl⟩

/-! ## Announcements to the neighbors -/

namespace BgpPeer

variable {peer after : BgpPeer}

/-- The lines for a changed route, one for each neighbor but the one it came from. -/
def linesFor (peer : BgpPeer) (sender : BitVec 32) (dest : IpPrefix) (best : RibTuple) :
    List Announcement :=
  (peer.neighborsUp.entries.filter fun entry => decide (entry.1 ≠ sender)).map fun entry =>
    { neighbor := entry.1, dest, nextHop := entry.2.2, asPath := peer.conf.asn :: best.asPath }

/-- The first route of a prefix is the one that was announced last. -/
def Synced (peer : BgpPeer) (dest : IpPrefix) : Prop :=
  ∀ best, peer.localRib.first dest = some best →
    (peer.outputRib.first dest).any (bgpRoutesAreEqual best) = true

/-- A turn of `bgp_update_peers` for an announced route. -/
theorem bgpUpdatePeer_announce (peer : BgpPeer) (route : RibTuple) :
    (Synced peer route.dest ∧ peer.bgpUpdatePeer (.announce route) = some (peer, [])) ∨
      ∃ best, peer.localRib.first route.dest = some best ∧ ¬ Synced peer route.dest ∧
        peer.bgpUpdatePeer (.announce route) =
          some ({ peer with outputRib := peer.outputRib.replace best },
            peer.linesFor route.neighbor route.dest best) := by
  unfold bgpUpdatePeer Synced
  dsimp only [Update.route]
  cases stored : peer.localRib.get route.dest with
  | none => exact .inl ⟨by simp [Rib.first, stored], rfl⟩
  | some routes =>
    cases routes with
    | nil => exact .inl ⟨by simp [Rib.first, stored], rfl⟩
    | cons best rest =>
      have isFirst : peer.localRib.first route.dest = some best := by
        rw [Rib.first, stored]
        rfl
      by_cases same : (peer.outputRib.first route.dest).any (bgpRoutesAreEqual best)
      · left
        refine ⟨?_, if_pos same⟩
        intro other isOther
        rw [isFirst] at isOther
        cases isOther
        exact same
      · exact .inr ⟨best, isFirst, fun synced => same (synced best isFirst), if_neg same⟩

variable {lines : List Announcement}

theorem bgpUpdatePeers_cons_eq_some_iff {update : Update} {rest : List Update} :
    peer.bgpUpdatePeers (update :: rest) = some (after, lines) ↔
      ∃ middle turnLines others, peer.bgpUpdatePeer update = some (middle, turnLines) ∧
        middle.bgpUpdatePeers rest = some (after, others) ∧ lines = turnLines ++ others := by
  rw [bgpUpdatePeers]
  constructor
  · intro updated
    obtain ⟨⟨middle, turnLines⟩, ⟨_, others⟩, turn, looped, result⟩ :=
      bind_map_eq_some_iff.mp updated
    cases result
    exact ⟨middle, turnLines, others, turn, looped, rfl⟩
  · rintro ⟨middle, turnLines, others, turn, looped, rfl⟩
    simp only [turn, Option.bind_some, looped, Option.map_some]

/-- Announced routes are always propagated without an exception. -/
theorem bgpUpdatePeers_announce_defined (peer : BgpPeer) (routes : List RibTuple) :
    ∃ after lines, peer.bgpUpdatePeers (routes.map .announce) = some (after, lines) := by
  induction routes generalizing peer with
  | nil => exact ⟨peer, [], rfl⟩
  | cons route rest ih =>
    obtain ⟨middle, lines, turn⟩ : ∃ middle lines,
        peer.bgpUpdatePeer (.announce route) = some (middle, lines) := by
      rcases bgpUpdatePeer_announce peer route with ⟨-, turn⟩ | ⟨_, -, -, turn⟩ <;>
        exact ⟨_, _, turn⟩
    obtain ⟨after, others, looped⟩ := ih middle
    exact ⟨after, lines ++ others, bgpUpdatePeers_cons_eq_some_iff.mpr
      ⟨middle, lines, others, turn, looped, rfl⟩⟩

/-- Propagation touches the output table only. -/
theorem bgpUpdatePeer_frame {update : Update}
    (updated : peer.bgpUpdatePeer update = some (after, lines)) :
    after = { peer with outputRib := after.outputRib } := by
  simp only [bgpUpdatePeer] at updated
  split at updated
  · cases updated
    rfl
  · cases updated
    rfl
  · split at updated
    · cases updated
      rfl
    · obtain ⟨rib, -, announced⟩ := Option.bind_eq_some_iff.mp updated
      split at announced
      · cases announced
        rfl
      · split at announced
        · cases announced
          rfl
        · cases announced

theorem bgpUpdatePeers_frame {updates : List Update}
    (updated : peer.bgpUpdatePeers updates = some (after, lines)) :
    after = { peer with outputRib := after.outputRib } := by
  induction updates generalizing peer lines with
  | nil =>
    cases updated
    rfl
  | cons update rest ih =>
    obtain ⟨middle, turnLines, others, turn, looped, rfl⟩ :=
      bgpUpdatePeers_cons_eq_some_iff.mp updated
    rw [ih looped, bgpUpdatePeer_frame turn]

variable {message : RouteMessage}

/-! ## Withdrawals -/

/-- Nothing is announced about prefixes without chosen routes. -/
theorem bgpUpdatePeers_absent {updates : List Update}
    (absent : ∀ update ∈ updates, peer.localRib.first update.route.dest = none) :
    peer.bgpUpdatePeers updates = some (peer, []) := by
  induction updates with
  | nil => rfl
  | cons update rest ih =>
    rw [List.forall_mem_cons] at absent
    have turn : peer.bgpUpdatePeer update = some (peer, []) := by
      unfold bgpUpdatePeer
      dsimp only
      cases stored : peer.localRib.get update.route.dest with
      | none => rfl
      | some routes =>
        cases routes with
        | nil => rfl
        | cons best others => simp [Rib.first, stored] at absent
    exact bgpUpdatePeers_cons_eq_some_iff.mpr ⟨peer, [], [], turn, ih absent.2, rfl⟩

/-! ## The whole -/

/-- The parts of processing a message: what is sent are the results of the decisions. -/
theorem processBgpRoute_cases {output : Output}
    (processed : peer.processBgpRoute message = some (after, output)) :
    ∃ updated updates decided found fib, peer.update message = some (updated, updates) ∧
      updated.decisionLoop updates = some (decided, found) ∧
      found.mapM fibRoute = some fib ∧
      decided.bgpUpdatePeers updates = some (after, output.announcements) ∧
      (output.sent = [] ∧ fib = [] ∨
        ∃ msg routerId, output.sent = [msg] ∧ bgpFibPack routerId fib = some msg) := by
  obtain ⟨⟨updated, updates⟩, isUpdated, deciding⟩ := Option.bind_eq_some_iff.mp processed
  obtain ⟨⟨decided, found⟩, isDecided, sending⟩ := Option.bind_eq_some_iff.mp deciding
  obtain ⟨sent, ⟨final, lines⟩, isSent, isAnnounced, result⟩ := bind_map_eq_some_iff.mp sending
  cases result
  refine ⟨updated, updates, decided, found, ?_⟩
  split at isSent
  · rename_i nothing
    cases isSent
    exact ⟨[], isUpdated, isDecided, by rw [nothing]; rfl, isAnnounced, .inl ⟨rfl, rfl⟩⟩
  · obtain ⟨routerId, msg, -, isMsg, rfl⟩ := bind_map_eq_some_iff.mp isSent
    obtain ⟨fib, isFib, packed⟩ := Option.bind_eq_some_iff.mp isMsg
    exact ⟨fib, isUpdated, isDecided, isFib, isAnnounced, .inr ⟨msg, routerId, rfl, packed⟩⟩

end BgpPeer

end Horse.Bgp
