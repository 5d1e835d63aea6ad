import Horse.Bgp.LocalRib
import Horse.Bgp.Processing
import Horse.Bgp.Session

/-!
# Split horizon

A peer compares the neighbor of a message with those to which it announces a route, not
the neighbor from which the route came.  The two are the same, since after every message
the first route of a prefix is the one that was announced last: a route that is announced
because of a message has been learned from it.
-/

namespace Horse.Bgp

open Horse.Container Horse.Codec Horse.Transition

namespace BgpPeer

variable {peer after : BgpPeer}

/-- What a peer has emitted, given its state after that: no learned route, which is the
first of its prefix in the output table, is announced to the neighbor it came from, and
every path has the system of the peer in front and nowhere else. -/
structure SplitHorizon (after : BgpPeer) (emitted : Emitted) : Prop where
  learned : ∀ line ∈ emitted.routes, ∃ route, after.outputRib.first line.dest = some route ∧
    line.asPath = after.conf.asn :: route.asPath ∧ line.neighbor ≠ route.neighbor
  paths : ∀ line ∈ emitted.routes ++ emitted.prefixes,
    line.asPath.head? = some after.conf.asn ∧ line.asPath.count after.conf.asn = 1

/-- The first routes of the tables can be announced, and those of the local table have
been. -/
structure Announceable (peer : BgpPeer) : Prop where
  filed : ∀ dest best, peer.localRib.first dest = some best → best.dest = dest
  chosen : ∀ dest best, peer.localRib.first dest = some best → peer.conf.asn ∉ best.asPath
  announced : ∀ dest route, peer.outputRib.first dest = some route →
    peer.conf.asn ∉ route.asPath
  synced : ∀ dest, peer.Synced dest

/-- Every line is for the first route of its prefix in the output table, and not to the
neighbor that this came from. -/
def AnnouncesLearned (after : BgpPeer) (lines : List Announcement) : Prop :=
  ∀ line ∈ lines, ∃ route, after.outputRib.first line.dest = some route ∧
    line.asPath = after.conf.asn :: route.asPath ∧ line.neighbor ≠ route.neighbor

theorem announceable_new (conf : Conf) : Announceable (BgpPeer.new conf) := by
  constructor <;> nofun

variable {emitted : Emitted} {best : RibTuple} {dest : IpPrefix}

/-- A line for a learned route, whose path does not have the system of the peer. -/
theorem splitHorizon_of_routes (learned : AnnouncesLearned after emitted.routes)
    (announced : ∀ dest route, after.outputRib.first dest = some route →
      after.conf.asn ∉ route.asPath)
    (own : ∀ line ∈ emitted.prefixes, line.asPath = [after.conf.asn]) :
    SplitHorizon after emitted := by
  refine ⟨learned, fun line member => ?_⟩
  rcases List.mem_append.mp member with isLearned | isOwn
  · obtain ⟨route, isFirst, isPath, -⟩ := learned line isLearned
    rw [isPath]
    exact ⟨rfl, by rw [List.count_cons_self, List.count_eq_zero.mpr (announced _ _ isFirst)]⟩
  · rw [own line isOwn]
    exact ⟨rfl, List.count_singleton_self⟩

/-! ## Updates -/

theorem synced_replace (isFirst : peer.localRib.first best.dest = some best)
    (synced : peer.Synced dest ∨ dest = best.dest) :
    Synced { peer with outputRib := peer.outputRib.replace best } dest := by
  intro other isOther
  rw [Rib.first_replace]
  split
  · rename_i isDest
    rw [isDest] at isOther
    cases isFirst.symm.trans isOther
    exact bgpRoutesAreEqual_self best
  · rename_i otherDest
    exact synced.resolve_right otherDest other isOther

theorem mem_linesFor {sender : BitVec 32} {line : Announcement}
    (member : line ∈ peer.linesFor sender dest best) :
    line.neighbor ≠ sender ∧ line.dest = dest ∧ line.asPath = peer.conf.asn :: best.asPath := by
  obtain ⟨entry, isEntry, rfl⟩ := List.mem_map.mp member
  exact ⟨of_decide_eq_true (List.mem_filter.mp isEntry).2, rfl, rfl⟩

/-- What `bgp_update_peers` does for routes of one neighbor: the output table gets first
routes of the local one, which for the prefixes of the routes it then agrees with, and
every line is for such a route, which came from the neighbor. -/
structure UpdatesPeers (peer after : BgpPeer) (sender : BitVec 32) (routes : List RibTuple)
    (lines : List Announcement) : Prop where
  frame : after = { peer with outputRib := after.outputRib }
  outputs : ∀ dest, after.outputRib.first dest = peer.outputRib.first dest ∨
    after.outputRib.first dest = peer.localRib.first dest
  keeps : ∀ dest, peer.Synced dest ∨ dest ∈ routes.map RibTuple.dest → after.Synced dest
  isLine : ∀ line ∈ lines, line.neighbor ≠ sender ∧
    ∃ best, peer.localRib.first line.dest = some best ∧ best.neighbor = sender ∧
      after.outputRib.first line.dest = some best ∧
      line.asPath = peer.conf.asn :: best.asPath

theorem updatesPeers_nil (peer : BgpPeer) (sender : BitVec 32) :
    UpdatesPeers peer peer sender [] [] where
  frame := rfl
  outputs := fun _ => .inl rfl
  keeps := by
    rintro dest (synced | member)
    · exact synced
    · cases member
  isLine := nofun

section Turn

variable {sender : BitVec 32} {route : RibTuple} {rest : List RibTuple}
  {others : List Announcement}

/-- Nothing is done for a prefix that is synced. -/
theorem UpdatesPeers.skip (synced : peer.Synced route.dest)
    (later : UpdatesPeers peer after sender rest others) :
    UpdatesPeers peer after sender (route :: rest) others where
  frame := later.frame
  outputs := later.outputs
  keeps := by
    intro dest
    rw [List.map_cons, List.mem_cons]
    rintro (wasSynced | rfl | member)
    · exact later.keeps dest (.inl wasSynced)
    · exact later.keeps _ (.inl synced)
    · exact later.keeps dest (.inr member)
  isLine := later.isLine

/-- The first route of the prefix is announced. -/
theorem UpdatesPeers.announce (isSender : route.neighbor = sender)
    (isFirst : peer.localRib.first route.dest = some best) (isDest : best.dest = route.dest)
    (fromSender : best.neighbor = sender)
    (later : UpdatesPeers { peer with outputRib := peer.outputRib.replace best } after sender rest
      others) :
    UpdatesPeers peer after sender (route :: rest)
      (peer.linesFor route.neighbor route.dest best ++ others) := by
  have isFirstToo : peer.localRib.first best.dest = some best := isDest.symm ▸ isFirst
  have isOutput : after.outputRib.first route.dest = some best := by
    rcases later.outputs route.dest with same | isLocal
    · rw [same, Rib.first_replace, if_pos isDest.symm]
    · rw [isLocal, isFirst]
  refine ⟨later.frame, fun dest => ?_, fun dest => ?_, fun line member => ?_⟩
  · by_cases here : dest = route.dest
    · rw [here, isOutput, isFirst]
      exact .inr rfl
    · have same := later.outputs dest
      rw [Rib.first_replace, if_neg (isDest ▸ here)] at same
      exact same
  · rw [List.map_cons, List.mem_cons]
    rintro (wasSynced | here | member)
    · exact later.keeps dest (.inl (synced_replace isFirstToo (.inl wasSynced)))
    · exact later.keeps dest (.inl (synced_replace isFirstToo (.inr (here.trans isDest.symm))))
    · exact later.keeps dest (.inr member)
  · rcases List.mem_append.mp member with inTurn | inOthers
    · obtain ⟨otherNeighbor, lineDest, isPath⟩ := mem_linesFor inTurn
      rw [isSender] at otherNeighbor
      rw [lineDest]
      exact ⟨otherNeighbor, best, isFirst, fromSender, isOutput, isPath⟩
    · exact later.isLine line inOthers

end Turn

/-- The first routes that have not been announced yet are from the neighbor. -/
theorem bgpUpdatePeers_announce {routes : List RibTuple} {sender : BitVec 32}
    {lines : List Announcement} (senders : ∀ route ∈ routes, route.neighbor = sender)
    (filed : ∀ dest best, peer.localRib.first dest = some best → best.dest = dest)
    (fresh : ∀ dest best, peer.localRib.first dest = some best → ¬ peer.Synced dest →
      best.neighbor = sender)
    (updated : peer.bgpUpdatePeers (routes.map .announce) = some (after, lines)) :
    UpdatesPeers peer after sender routes lines := by
  induction routes generalizing peer lines with
  | nil =>
    cases updated
    exact updatesPeers_nil _ sender
  | cons route rest ih =>
    rw [List.forall_mem_cons] at senders
    obtain ⟨middle, turnLines, others, turn, looped, rfl⟩ :=
      bgpUpdatePeers_cons_eq_some_iff.mp updated
    rcases bgpUpdatePeer_announce peer route with ⟨synced, isTurn⟩ |
      ⟨best, isFirst, notSynced, isTurn⟩
    · cases isTurn.symm.trans turn
      exact (ih senders.2 filed fresh looped).skip synced
    · cases isTurn.symm.trans turn
      have isDest := filed _ _ isFirst
      have isFirstToo : peer.localRib.first best.dest = some best := isDest.symm ▸ isFirst
      have stillFresh : ∀ dest other, peer.localRib.first dest = some other →
          ¬ Synced { peer with outputRib := peer.outputRib.replace best } dest →
          other.neighbor = sender := by
        intro dest other isOther unsynced
        exact fresh dest other isOther fun synced =>
          unsynced (synced_replace isFirstToo (.inl synced))
      have later := @ih { peer with outputRib := peer.outputRib.replace best } others senders.2
        filed stillFresh looped
      exact later.announce senders.1 isFirst isDest (fresh _ _ isFirst notSynced)

variable {message : RouteMessage}

/-- After the decisions on a message the first route of a prefix has been announced
already, or is from this message. -/
theorem Announceable.origin {decided : BgpPeer} {found : List BestRoute}
    (announceable : peer.Announceable)
    (decidedAll : peer.decisionLoop ((peer.accepted message).map .announce) = some (decided, found))
    (isFirst : decided.localRib.first dest = some best) :
    (decided.Synced dest ∧ peer.localRib.first dest = some best) ∨
      best ∈ peer.accepted message ∧ best.dest = dest := by
  obtain ⟨frame, firsts, -⟩ := decisionLoop_first decidedAll
  have sameOutput : decided.outputRib = peer.outputRib := by rw [frame]
  rcases firsts dest with same | ⟨route, member, isDest, isRoute⟩
  · left
    refine ⟨?_, same ▸ isFirst⟩
    intro other isOther
    rw [sameOutput]
    exact announceable.synced dest other (same ▸ isOther)
  · cases isRoute.symm.trans isFirst
    exact .inr ⟨member, isDest⟩

/-- A message whose routes are taken in. -/
theorem announceable_announce {decided : BgpPeer} {found : List BestRoute}
    {lines : List Announcement} (strict : peer.conf.allowasIn = false)
    (announceable : peer.Announceable)
    (decidedAll : peer.decisionLoop ((peer.accepted message).map .announce) =
      some (decided, found))
    (updated : decided.bgpUpdatePeers ((peer.accepted message).map .announce) =
      some (after, lines)) :
    after.conf = peer.conf ∧ after.Announceable ∧ AnnouncesLearned after lines := by
  obtain ⟨frame, -, -⟩ := decisionLoop_first decidedAll
  obtain ⟨asPath, med, attributes⟩ := accepted_attributes peer message
  have sameConf : decided.conf = peer.conf := by rw [frame]
  have sameOutput : decided.outputRib = peer.outputRib := by rw [frame]
  have filed : ∀ dest best, decided.localRib.first dest = some best → best.dest = dest := by
    intro dest best isFirst
    rcases announceable.origin decidedAll isFirst with ⟨-, wasFirst⟩ | ⟨-, isDest⟩
    · exact announceable.filed dest best wasFirst
    · exact isDest
  have chosen : ∀ dest best, decided.localRib.first dest = some best →
      peer.conf.asn ∉ best.asPath := by
    intro dest best isFirst
    rcases announceable.origin decidedAll isFirst with ⟨-, wasFirst⟩ | ⟨member, -⟩
    · exact announceable.chosen dest best wasFirst
    · obtain ⟨-, isPath, -, noLoop⟩ := attributes best member
      exact isPath ▸ noLoop strict
  have fresh : ∀ dest best, decided.localRib.first dest = some best → ¬ decided.Synced dest →
      best.neighbor = message.neighbor := by
    intro dest best isFirst unsynced
    rcases announceable.origin decidedAll isFirst with ⟨synced, -⟩ | ⟨member, -⟩
    · exact absurd synced unsynced
    · exact (attributes best member).1
  have updates := bgpUpdatePeers_announce (fun route member => (attributes route member).1)
    filed fresh updated
  have finalConf : after.conf = peer.conf := by rw [updates.frame, sameConf]
  have finalLocal : after.localRib = decided.localRib := by rw [updates.frame]
  refine ⟨finalConf, ⟨?_, ?_, ?_, ?_⟩, fun line member => ?_⟩
  · rw [finalLocal]
    exact filed
  · rw [finalLocal, finalConf]
    exact chosen
  · intro dest route isFirst
    rw [finalConf]
    rcases updates.outputs dest with same | isLocal
    · rw [same, sameOutput] at isFirst
      exact announceable.announced dest route isFirst
    · rw [isLocal] at isFirst
      exact chosen dest route isFirst
  · intro dest best isFirst
    rw [finalLocal] at isFirst
    have synced : after.Synced dest := by
      rcases announceable.origin decidedAll isFirst with ⟨synced, -⟩ | ⟨member, isDest⟩
      · exact updates.keeps dest (.inl synced)
      · exact updates.keeps dest (.inr (isDest ▸ List.mem_map_of_mem member))
    exact synced best (finalLocal ▸ isFirst)
  · obtain ⟨otherNeighbor, best, -, isNeighbor, isOutput, isPath⟩ :=
      updates.isLine line member
    refine ⟨best, isOutput, ?_, isNeighbor ▸ otherNeighbor⟩
    rw [finalConf, isPath, sameConf]

/-- A message that is processed without an exception. -/
theorem announceable_processBgpRoute {output : Output} (strict : peer.conf.allowasIn = false)
    (announceable : peer.Announceable)
    (processed : peer.processBgpRoute message = some (after, output)) :
    after.conf = peer.conf ∧ after.Announceable ∧ AnnouncesLearned after output.announcements := by
  obtain ⟨updated, updates, decided, found, -, isUpdated, isDecided, -, isAnnounced, -⟩ :=
    processBgpRoute_cases processed
  -- The input table is not looked at when routes are announced.
  have anyInput : ∀ input, Announceable { peer with inputRib := input } := fun input =>
    ⟨announceable.filed, announceable.chosen, announceable.announced, announceable.synced⟩
  rcases update_cases isUpdated with ⟨rfl, rfl⟩ | ⟨dests, -, rfl, rfl⟩
  · exact @announceable_announce
      { peer with inputRib := (peer.accepted message).foldl AdjRibIn.update peer.inputRib }
      after message decided found _ strict (anyInput _) isDecided isAnnounced
  · obtain ⟨absent, rfl, -⟩ := (decisionLoop_withdraw_iff fun _ => withdrawLoop_withdraws).mp
      isDecided
    rw [bgpUpdatePeers_absent absent] at isAnnounced
    obtain ⟨rfl, nothing⟩ := Prod.mk.inj (Option.some.inj isAnnounced)
    rw [← nothing]
    exact ⟨rfl, anyInput _, nofun⟩

/-! ## All inputs -/

theorem announceable_processBgpMessage {message : ExaMessage} {output : Output}
    (strict : peer.conf.allowasIn = false) (announceable : peer.Announceable)
    (processed : peer.processBgpMessage message = some (after, output)) :
    after.conf = peer.conf ∧ after.Announceable ∧ AnnouncesLearned after output.announcements := by
  rcases processBgpMessage_cases processed with
    ⟨update, routeOutput, -, isProcessed, sameLines⟩ | ⟨up, rfl, noLines⟩
  · rw [sameLines]
    exact announceable_processBgpRoute strict announceable isProcessed
  · rw [noLines]
    exact ⟨rfl, ⟨announceable.filed, announceable.chosen, announceable.announced,
      announceable.synced⟩, nofun⟩

/-- A request to announce the routes to a neighbor. -/
theorem splitHorizon_processMessage {msgType : Nat} {data : List (BitVec 8)}
    (announceable : peer.Announceable)
    (processed : peer.processMessage msgType data = some emitted) : SplitHorizon peer emitted := by
  unfold processMessage at processed
  split at processed
  · split at processed
    · cases processed
    · rename_i msg _
      obtain ⟨routes, isRoutes, later⟩ := Option.bind_eq_some_iff.mp processed
      obtain ⟨prefixes, sent, isPrefixes, -, rfl⟩ := bind_map_eq_some_iff.mp later
      refine splitHorizon_of_routes (fun line member => ?_) announceable.announced
        (fun line member => ?_)
      · obtain ⟨lines, isLines, inLines⟩ := List.mem_flatten.mp member
        obtain ⟨⟨dest, stored⟩, isEntry, isTurn⟩ := (mem_mapM_iff isRoutes).mp isLines
        obtain ⟨route, up, isHead, -, rfl⟩ := bind_map_eq_some_iff.mp isTurn
        split at inLines
        · rename_i otherNeighbor
          cases List.mem_singleton.mp inLines
          refine ⟨route, ?_, rfl, otherNeighbor⟩
          rw [Rib.first, Rib.get, (Dict.mem_entries_iff _ _ _).mp isEntry]
          exact isHead
        · cases inLines
      · obtain ⟨dest, -, isTurn⟩ := (mem_mapM_iff isPrefixes).mp member
        obtain ⟨up, -, rfl⟩ := Option.map_eq_some_iff.mp isTurn
        rfl
  · cases processed
    exact ⟨List.forall_mem_nil _, List.forall_mem_nil _⟩

/-- One input keeps the tables and respects split horizon. -/
theorem splitHorizon_handle {input : PeerInput} (strict : peer.conf.allowasIn = false)
    (announceable : peer.Announceable) (handled : peer.handle input = some (after, emitted)) :
    (after.conf = peer.conf ∧ after.Announceable) ∧ SplitHorizon after emitted := by
  cases input with
  | daemon message =>
    obtain ⟨⟨_, output⟩, processed, result⟩ := Option.map_eq_some_iff.mp handled
    cases result
    obtain ⟨sameConf, kept, learned⟩ := announceable_processBgpMessage strict announceable
      processed
    exact ⟨⟨sameConf, kept⟩, splitHorizon_of_routes learned kept.announced nofun⟩
  | simulator msgType data =>
    obtain ⟨_, processed, result⟩ := Option.map_eq_some_iff.mp handled
    cases result
    exact ⟨⟨rfl, announceable⟩, splitHorizon_processMessage announceable processed⟩

end BgpPeer

/-- Whatever a new peer reads, it never announces a route to the neighbor from which it has
learned the route, and puts its system in front of a path in which it is not yet. -/
theorem announcements_respect_split_horizon (conf : Conf) (strict : conf.allowasIn = false)
    (inputs : List PeerInput) :
    Along peerStep (fun peer input => ∀ after emitted,
        peer.handle input = some (after, emitted) → BgpPeer.SplitHorizon after emitted)
      (BgpPeer.new conf) inputs := by
  apply @along_of_invariant _ _ peerStep (fun _ _ => True)
    (fun peer => peer.conf.allowasIn = false ∧ peer.Announceable)
  · rintro peer input after ⟨strictHere, announceable⟩ - stepped
    obtain ⟨⟨_, emitted⟩, handled, rfl⟩ := Option.map_eq_some_iff.mp stepped
    obtain ⟨⟨sameConf, kept⟩, -⟩ := BgpPeer.splitHorizon_handle strictHere announceable handled
    exact ⟨sameConf ▸ strictHere, kept⟩
  · rintro peer input ⟨strictHere, announceable⟩ - after emitted handled
    exact (BgpPeer.splitHorizon_handle strictHere announceable handled).2
  · exact ⟨strict, BgpPeer.announceable_new conf⟩
  · exact along_true _ _ _

/-- The neighbors `10.0.0.2` and `10.0.0.3` come up. -/
def Sample.twoUp : List PeerInput :=
  [.daemon (.state 0x0A000002 2 0x0A000001 .up), .daemon (.state 0x0A000003 3 0x0A000001 .up)]

/-- A route of the first neighbor goes to the second one only. -/
theorem announcements_respect_split_horizon_twoUp :
    ∃ before after emitted,
      run peerStep (BgpPeer.new (Sample.conf none)) Sample.twoUp = some before ∧
        before.handle (.daemon (.update (Sample.announce 2 [2]))) = some (after, emitted) ∧
        emitted.routes = [⟨0x0A000003, Sample.dest, 0x0A000001, [1, 2]⟩] ∧
        BgpPeer.SplitHorizon after emitted := by
  have along := announcements_respect_split_horizon (Sample.conf none) rfl
    (Sample.twoUp ++ [.daemon (.update (Sample.announce 2 [2]))])
  exact ⟨_, _, _, rfl, rfl, rfl, along.at_end rfl _ _ rfl⟩

end Horse.Bgp
