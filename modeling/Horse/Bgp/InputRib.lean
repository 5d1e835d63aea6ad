import Horse.Bgp.Processing
import Horse.Bgp.LocalRib

/-!
# The routes of the neighbors

The input table of a peer should have, for every neighbor and prefix, what the neighbor has
said last about the prefix: the route of its announcement, or nothing after a withdrawal.
An announcement that is rejected because of a loop is not taken as one.  A message that
both withdraws and announces a prefix announces it.
-/

namespace Horse.Bgp

open Horse.Container Horse.Transition

/-- What a neighbor says about a prefix. -/
inductive Mention
  | announced (route : RibTuple)
  | withdrawn (neighbor : BitVec 32) (dest : IpPrefix)
  deriving DecidableEq, Repr

namespace Mention

/-- Who speaks about which prefix. -/
def key : Mention → BitVec 32 × IpPrefix
  | announced route => route.key
  | withdrawn neighbor dest => (neighbor, dest)

/-- The route that there is afterwards. -/
def route? : Mention → Option RibTuple
  | announced route => some route
  | withdrawn _ _ => none

end Mention

/-- The prefixes that a message lists as withdrawn. -/
def listedWithdrawals (message : RouteMessage) : List IpPrefix :=
  (message.body.bind UpdateBody.withdraw).getD []

/-- What a message says: its withdrawals, and its announcements unless they are rejected. -/
def BgpPeer.mentions (peer : BgpPeer) (message : RouteMessage) : List Mention :=
  (listedWithdrawals message).map (.withdrawn message.neighbor) ++
    (peer.accepted message).map .announced

/-- A peer and all that its neighbors have said. -/
structure Heard where
  peer : BgpPeer
  mentions : List Mention

/-- A new peer. -/
def Heard.new (conf : Conf) : Heard where
  peer := BgpPeer.new conf
  mentions := []

/-- `update` on a message from a neighbor. -/
def hear : Step Heard RouteMessage := fun heard message =>
  (heard.peer.update message).map fun (after, _) =>
    ⟨after, heard.mentions ++ heard.peer.mentions message⟩

/-- The input table has the route of the latest mention, if that was an announcement. -/
def Reflects (heard : Heard) : Prop :=
  ∀ neighbor dest, heard.peer.inputRib.get dest neighbor =
    (lastWrite Mention.key heard.mentions (neighbor, dest)).bind Mention.route?

/-- Where a listed prefix is neither withdrawn nor announced, there was no route to
withdraw. -/
def WithdrawsListed (peer : BgpPeer) (message : RouteMessage) : Prop :=
  ∀ dest ∈ listedWithdrawals message, dest ∉ peer.withdrawn message →
    dest ∉ (peer.accepted message).map RibTuple.dest →
      peer.inputRib.get dest message.neighbor = none

instance (peer : BgpPeer) (message : RouteMessage) : Decidable (WithdrawsListed peer message) :=
  inferInstanceAs (Decidable (∀ dest ∈ _, _))

/-! ## The input table -/

theorem get_withdrawLoop (neighbor speaker : BitVec 32) (input : AdjRibIn)
    (dests : List IpPrefix) (dest : IpPrefix) :
    (withdrawLoop neighbor input dests).1.get dest speaker =
      if speaker = neighbor ∧ dest ∈ dests then none else input.get dest speaker := by
  induction dests generalizing input with
  | nil => simp [withdrawLoop]
  | cons first rest ih =>
    have deleted {stored : Option RibTuple} :
        (if speaker = neighbor ∧ dest ∈ rest then none
          else if speaker = neighbor ∧ dest = first then none else stored) =
        if speaker = neighbor ∧ dest ∈ first :: rest then none else stored := by
      rw [← ite_or]
      refine if_congr ?_ rfl rfl
      rw [← and_or_left, or_comm, List.mem_cons]
    unfold withdrawLoop
    cases stored : input.get first neighbor with
    | none =>
      -- There is nothing to delete, but the first prefix has no route either.
      dsimp only
      rw [ih, ← deleted]
      congr 1
      split
      · rename_i isFirst
        rw [isFirst.1, isFirst.2, stored]
      · rfl
    | some route =>
      dsimp only
      rw [ih, AdjRibIn.get_delete, deleted]

/-! ## One message -/

section OneMessage

variable {peer : BgpPeer} {message : RouteMessage}

theorem lastWrite_withdrawn (neighbor speaker : BitVec 32) (dests : List IpPrefix)
    (dest : IpPrefix) :
    lastWrite Mention.key (dests.map (.withdrawn neighbor)) (speaker, dest) =
      if speaker = neighbor ∧ dest ∈ dests then some (.withdrawn neighbor dest) else none := by
  split
  · rename_i listed
    rw [listed.1]
    have member : Mention.withdrawn neighbor dest ∈ dests.map (.withdrawn neighbor) :=
      List.mem_map_of_mem listed.2
    obtain ⟨last, isLast⟩ := @exists_lastWrite _ _ _ Mention.key _ _ member
    obtain ⟨isMember, isKey⟩ := mem_of_lastWrite isLast
    obtain ⟨other, -, rfl⟩ := List.mem_map.mp isMember
    cases isKey
    exact isLast
  · rename_i notListed
    rw [lastWrite_eq_none_iff]
    intro mention isMember isKey
    obtain ⟨other, isListed, rfl⟩ := List.mem_map.mp isMember
    cases isKey
    exact notListed ⟨rfl, isListed⟩

theorem withdrawn_subset (peer : BgpPeer) (message : RouteMessage) :
    peer.withdrawn message ⊆ listedWithdrawals message := by
  unfold BgpPeer.withdrawn listedWithdrawals
  intro dest member
  cases isBody : message.body with
  | none => simp [isBody] at member
  | some body =>
    simp only [isBody] at member
    split at member
    · cases member
    · split at member
      · rename_i isWithdraw
        simpa [isWithdraw] using member
      · cases member

/-- What the code makes of the input table. -/
theorem hear_get (attributed : Attributed message) {heard : Heard} :
    ∃ after, hear heard message = some after ∧
      after.mentions = heard.mentions ++ heard.peer.mentions message ∧
      ∀ neighbor dest, after.peer.inputRib.get dest neighbor =
        (lastWrite RibTuple.key (heard.peer.accepted message) (neighbor, dest)).or
          (if neighbor = message.neighbor ∧ dest ∈ heard.peer.withdrawn message then none
            else heard.peer.inputRib.get dest neighbor) := by
  unfold hear
  rcases heard.peer.update_of_attributed attributed with ⟨noneWithdrawn, updated⟩ |
    ⟨noneAccepted, updated⟩
  · refine ⟨_, by rw [updated]; rfl, rfl, fun neighbor dest => ?_⟩
    rw [noneWithdrawn, if_neg fun both => List.not_mem_nil both.2]
    exact AdjRibIn.get_foldl_update _ _ _ _
  · refine ⟨_, by rw [updated]; rfl, rfl, fun neighbor dest => ?_⟩
    rw [noneAccepted, lastWrite_nil, Option.none_or]
    exact get_withdrawLoop _ _ _ _ _

/-- What the message says about it. -/
theorem latest_mention (peer : BgpPeer) (message : RouteMessage) (earlier : List Mention)
    (neighbor : BitVec 32) (dest : IpPrefix) :
    (lastWrite Mention.key (earlier ++ peer.mentions message) (neighbor, dest)).bind
        Mention.route? =
      (lastWrite RibTuple.key (peer.accepted message) (neighbor, dest)).or
        (if neighbor = message.neighbor ∧ dest ∈ listedWithdrawals message then none
          else (lastWrite Mention.key earlier (neighbor, dest)).bind Mention.route?) := by
  rw [BgpPeer.mentions, lastWrite_append, lastWrite_append, lastWrite_map, lastWrite_withdrawn]
  have key : Mention.key ∘ Mention.announced = RibTuple.key := rfl
  rw [key]
  cases lastWrite RibTuple.key (peer.accepted message) (neighbor, dest) with
  | some route => rfl
  | none => split <;> rfl

theorem lastWrite_accepted_eq_none_iff (peer : BgpPeer) (message : RouteMessage)
    (dest : IpPrefix) :
    lastWrite RibTuple.key (peer.accepted message) (message.neighbor, dest) = none ↔
      dest ∉ (peer.accepted message).map RibTuple.dest := by
  obtain ⟨_, _, attributes⟩ := BgpPeer.accepted_attributes peer message
  rw [lastWrite_eq_none_iff]
  constructor
  · intro unwritten member
    obtain ⟨route, isAccepted, rfl⟩ := List.mem_map.mp member
    apply unwritten route isAccepted
    rw [RibTuple.key, (attributes route isAccepted).1]
  · intro absent route isAccepted isKey
    exact absent (List.mem_map.mpr ⟨route, isAccepted, congrArg Prod.snd isKey⟩)

/-- A message keeps the input table up to date exactly under the condition. -/
theorem reflects_iff_withdrawsListed (attributed : Attributed message)
    {heard after : Heard} (reflects : Reflects heard)
    (step : hear heard message = some after) :
    Reflects after ↔ WithdrawsListed heard.peer message := by
  obtain ⟨_, isAfter, isMentions, table⟩ := @hear_get message attributed heard
  cases step.symm.trans isAfter
  unfold Reflects
  simp only [isMentions, table, latest_mention, ← reflects _ _]
  constructor
  · intro agree dest listed notWithdrawn notAccepted
    have here := agree message.neighbor dest
    rw [(lastWrite_accepted_eq_none_iff _ _ _).mpr notAccepted, Option.none_or, Option.none_or,
      if_neg fun both => notWithdrawn both.2, if_pos ⟨rfl, listed⟩] at here
    exact here
  · intro withdraws neighbor dest
    cases isAnnounced : lastWrite RibTuple.key (heard.peer.accepted message)
        (neighbor, dest) with
    | some route => rfl
    | none =>
      rw [Option.none_or, Option.none_or]
      by_cases listed : neighbor = message.neighbor ∧ dest ∈ listedWithdrawals message
      · rw [if_pos listed]
        obtain ⟨rfl, isListed⟩ := listed
        split
        · rfl
        · rename_i notBoth
          have notWithdrawn := fun withdrawn => notBoth ⟨rfl, withdrawn⟩
          exact withdraws dest isListed notWithdrawn
            ((lastWrite_accepted_eq_none_iff _ _ _).mp isAnnounced)
      · rw [if_neg listed, if_neg fun both =>
          listed ⟨both.1, withdrawn_subset _ _ both.2⟩]

end OneMessage

/-! ## Histories -/

/-- Messages whose announcements have attributes are all processed.  The input table shows
after each of them what the neighbors have said last, exactly if none of them lists a prefix
with a route that it neither withdraws nor announces: a message that also announces
something, or is rejected because of a loop, withdraws nothing. -/
theorem reflects_along_iff (conf : Conf) (messages : List RouteMessage)
    (attributed : ∀ message ∈ messages, Attributed message) :
    (run hear (Heard.new conf) messages).isSome ∧
      (Along hear
          (fun heard message => ∀ after, hear heard message = some after →
            Reflects after)
          (Heard.new conf) messages ↔
        Along hear
          (fun heard message => (hear heard message).isSome →
            WithdrawsListed heard.peer message)
          (Heard.new conf) messages) := by
  constructor
  · have all := along_of_forall hear (Heard.new conf) attributed
    obtain ⟨final, ran, -⟩ := @run_defined _ _ hear (fun _ => Attributed) (fun _ => True)
      (fun _ isAttributed => by
        obtain ⟨after, isAfter, -⟩ := hear_get isAttributed
        exact ⟨after, isAfter, trivial⟩)
      _ _ trivial all
    rw [ran]
    rfl
  · apply @along_keeps_iff _ _ hear (fun heard => WithdrawsListed heard.peer) Reflects
      Attributed (fun _ => True)
    · intro _ _ _ _ _ _
      trivial
    · intro heard message after isAttributed _ reflects step
      exact reflects_iff_withdrawsListed isAttributed reflects step
    · trivial
    · exact fun neighbor dest => rfl
    · exact attributed

/-- The neighbor `10.0.0.2` withdraws the prefix `130.0.0.0/16`. -/
def Sample.withdrawal : RouteMessage where
  neighbor := 0x0A000002
  asn := 2
  body := some { attributes := none, announce := none, withdraw := some [Sample.dest] }

/-- It withdraws the prefix and announces another one. -/
def Sample.mixed : RouteMessage where
  neighbor := 0x0A000002
  asn := 2
  body := some {
    attributes := some {
      origin := some .igp, asPath := [2], med := none, community := [], atomicAggregate := none }
    announce := some [(0x0A000002, [⟨0x83000000, 16⟩])]
    withdraw := some [Sample.dest] }

/-- A route that is announced, and withdrawn by a message that announces nothing. -/
theorem reflects_along_withdrawal :
    Along hear
      (fun heard message => ∀ after, hear heard message = some after →
        Reflects after)
      (Heard.new (Sample.conf none))
      [Sample.announce 2 [2], Sample.withdrawal] := by
  apply (reflects_along_iff (Sample.conf none) _ (by decide)).2.mpr
  decide +kernel

/-- The withdrawal is lost in a message that announces another prefix. -/
theorem mixed_message_withdraws_nothing :
    ∃ after, run hear (Heard.new (Sample.conf none)) [Sample.announce 2 [2], Sample.mixed] =
        some after ∧
      (after.peer.inputRib.get Sample.dest 0x0A000002).isSome ∧ ¬Reflects after := by
  refine ⟨_, rfl, by decide, ?_⟩
  intro reflects
  have latest := reflects 0x0A000002 Sample.dest
  revert latest
  decide

end Horse.Bgp
