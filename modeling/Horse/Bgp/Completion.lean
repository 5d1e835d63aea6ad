import Horse.Bgp.LocalRib
import Horse.Bgp.Processing
import Horse.Bgp.Session

/-!
# When a peer raises no exception

Several things make `process_bgp_route` raise an exception: paths without systems and
discriminators that are missing on one side, when two routes are compared; a number of
paths that is not configured, when a route ties with the first one and is not preferred;
the list that stands for a better route in the results; and the withdrawal of a known
route.  `Completes` says exactly when none of this happens.
-/

namespace Horse.Bgp

open Horse.Container Horse.Codec Horse.Transition

/-! ## One comparison -/

/-- Two routes can be compared: if their paths have the same length, then these are not
empty, and through the same system both discriminators are there or none. -/
def PairComparable (route other : RibTuple) : Prop :=
  aspathLength route.asPath = aspathLength other.asPath →
    route.asPath ≠ [] ∧
      (route.asPath.head? = other.asPath.head? → medComparable route.med other.med)

theorem lowestMed_pair_isSome_iff (route other : RibTuple) :
    (lowestMed [route, other]).isSome ↔ medComparable route.med other.med := by
  rw [lowestMed, Option.isSome_map, lowestMedLoop_isSome_iff, List.forall_mem_singleton]
  exact eq_comm

theorem bestPathSelection_pair_isSome_iff (route other : RibTuple) :
    (bestPathSelection [route, other]).isSome ↔ PairComparable route other := by
  simp only [bestPathSelection, shortestLoop_init, shortest_pair]
  by_cases shorter : aspathLength route.asPath < aspathLength other.asPath
  · rw [if_pos shorter]
    exact iff_of_true rfl fun same => absurd same (Nat.ne_of_lt shorter)
  by_cases longer : aspathLength other.asPath < aspathLength route.asPath
  · rw [if_neg shorter, if_pos longer]
    exact iff_of_true rfl fun same => absurd same (Nat.ne_of_gt longer)
  have sameLength := Nat.le_antisymm (Nat.le_of_not_lt longer) (Nat.le_of_not_lt shorter)
  rw [if_neg shorter, if_neg longer, if_neg (by simp)]
  have isComparable : PairComparable route other ↔ route.asPath ≠ [] ∧
      (route.asPath.head? = other.asPath.head? → medComparable route.med other.med) :=
    ⟨fun comparable => comparable sameLength, fun both _ => both⟩
  rw [isComparable]
  cases routePath : route.asPath with
  | nil => simp [advertisedAsList, getAdvertisedAs, routePath]
  | cons x _ =>
    obtain ⟨y, _, otherPath⟩ := List.exists_cons_of_length_pos
      (Nat.lt_of_lt_of_eq (List.length_pos_iff.mpr (routePath ▸ List.cons_ne_nil x _))
        sameLength)
    have first : route.asPath.head? = some x := by rw [routePath, List.head?_cons]
    have second : other.asPath.head? = some y := by rw [otherPath, List.head?_cons]
    have collected : advertisedAsList [route, other] = some [x, y] := by
      simp only [advertisedAsList, getAdvertisedAs, first, second, Option.bind_some,
        Option.map_some]
    rw [collected, Option.bind_some, Option.isSome_map, ← routePath, first, second,
      Option.some.injEq]
    by_cases same : x = y
    · subst same
      rw [show [x, x].insertionSort (· ≤ ·) = [x, x] by simp,
        medLoop_pair_same first second, lowestMed_pair_isSome_iff]
      simp [routePath]
    · have both := medLoop_pair_different first second same
      have defined : (medLoop [route, other] ([x, y].insertionSort (· ≤ ·))
          ([x, y].insertionSort (· ≤ ·)) 0).isSome := by
        by_cases less : x ≤ y
        · rw [show [x, y].insertionSort (· ≤ ·) = [x, y] by simp [less], both.1]
          rfl
        · rw [show [x, y].insertionSort (· ≤ ·) = [y, x] by simp [less], both.2]
          rfl
      refine iff_of_true defined ⟨?_, fun isSame => absurd isSame same⟩
      rw [routePath]
      exact List.cons_ne_nil x _

/-- A route can be decided on when another one is the first of its prefix: they can be
compared; a better route is the same up to its discriminator; and one that ties and is not
preferred needs a number of paths. -/
structure CanMeet (conf : Conf) (route best : RibTuple) : Prop where
  comparable : PairComparable route best
  noBetter : Beats route best → bgpRoutesAreEqual route best = true
  counted : Ties route best → ¬ Preferred route best → conf.maxPaths.isSome

namespace BgpPeer

variable {peer after : BgpPeer} {route best : RibTuple} {rest : List RibTuple}

section

variable (stored : peer.localRib.get route.dest = some (best :: rest))

include stored

/-- Adding a route to a prefix with chosen routes raises no exception. -/
theorem updateLocal_defined (new front : Bool) : (peer.updateLocal route new front).isSome := by
  rw [updateLocal, Option.isSome_map, Rib.update, Option.isSome_map, stored]
  cases new <;> rfl

theorem installPreferred_defined (current : Nat) :
    (peer.installPreferred route current).isSome := by
  simp only [installPreferred]
  split
  · exact updateLocal_defined stored true true
  · split
    · exact updateLocal_defined stored false true
    · rw [Option.isSome_map]
      exact updateLocal_defined stored false true

/-- A decision raises no exception. -/
theorem decisionProcessLocal_defined (canMeet : CanMeet peer.conf route best) :
    (peer.decisionProcessLocal (.announce route)).isSome := by
  obtain ⟨⟨kept, tie⟩, selected⟩ := Option.isSome_iff_exists.mp
    ((bestPathSelection_pair_isSome_iff route best).mpr canMeet.comparable)
  simp only [decisionProcessLocal, stored, List.head?_cons, Option.bind_some, selected]
  rcases bestPathSelection_pair selected with ⟨beats, rfl, rfl⟩ | ⟨-, rfl, rfl⟩ |
    ⟨ties, rfl, isKept⟩
  · simp [canMeet.noBetter beats]
  · simp [bgpRoutesAreEqual_self]
  · obtain ⟨newBest, isLowest⟩ : ∃ newBest, lowestRouterId kept = some newBest := by
      rw [isKept]
      split <;> exact ⟨_, lowestRouterId_pair _ _⟩
    have preference := lowestRouterId_preferred (isKept ▸ isLowest)
    simp only [Bool.not_true, Bool.false_eq_true, if_false, isLowest, Option.bind_some]
    by_cases same : bgpRoutesAreEqual newBest best
    · rw [if_pos same] at preference
      obtain ⟨maxPaths, isMax⟩ := Option.isSome_iff_exists.mp (canMeet.counted ties preference)
      rw [same, isMax]
      simp only [Bool.not_true, Bool.false_eq_true, if_false, Option.bind_some]
      split
      · rw [Option.isSome_map]
        exact updateLocal_defined stored false false
      · rfl
    · rw [if_neg same] at preference
      obtain ⟨rfl, -⟩ := preference
      rw [if_pos (by simpa using same), Option.isSome_map]
      exact installPreferred_defined stored _

/-- A decision that raises no exception and has no list as its result. -/
theorem canMeet_of_decided {found : Option (List BestRoute)}
    (decided : peer.decisionProcessLocal (.announce route) = some (after, found))
    (noList : ∀ routes, BestRoute.list routes ∉ found.getD []) : CanMeet peer.conf route best := by
  have comparable : PairComparable route best := by
    rw [← bestPathSelection_pair_isSome_iff]
    simp only [decisionProcessLocal, stored, List.head?_cons, Option.bind_some] at decided
    obtain ⟨selection, isSelection, -⟩ := Option.bind_eq_some_iff.mp decided
    exact Option.isSome_iff_exists.mpr ⟨selection, isSelection⟩
  obtain ⟨chosen, decides, -⟩ := decisionProcessLocal_announce decided
  rw [stored] at decides
  refine ⟨comparable, fun beats => ?_, fun ties notPreferred => ?_⟩
  · cases decides with
    | better => exact absurd List.mem_cons_self (noList [route])
    | betterEqual _ _ _ same => exact same
    | worse _ _ beaten => exact absurd beats beaten.asymm
    | preferred _ _ ties => exact absurd beats ties.not_beats.1
    | append _ _ ties => exact absurd beats ties.not_beats.1
    | ignore _ _ ties => exact absurd beats ties.not_beats.1
  · cases decides with
    | better _ _ beats => exact absurd beats ties.not_beats.1
    | betterEqual _ _ beats => exact absurd beats ties.not_beats.1
    | worse _ _ beaten => exact absurd beaten ties.not_beats.2
    | preferred _ _ _ isPreferred => exact absurd isPreferred notPreferred
    | append _ _ _ _ maxPaths isMax => exact Option.isSome_iff_exists.mpr ⟨maxPaths, isMax⟩
    | ignore _ _ _ _ maxPaths isMax => exact Option.isSome_iff_exists.mpr ⟨maxPaths, isMax⟩

end

end BgpPeer

/-! ## The routes of a message -/

section Ties

variable {conf : Conf} {route other best : RibTuple}

/-- Routes that tie meet if the first is preferred or there is a number of paths. -/
theorem Ties.canMeet_iff (ties : Ties route other) :
    CanMeet conf route other ↔ (¬ Preferred route other → conf.maxPaths.isSome) := by
  constructor
  · exact fun canMeet => canMeet.counted ties
  · intro counted
    refine ⟨fun _ => ⟨ties.advertised, fun sameAs => ?_⟩, fun beats => ?_, fun _ => counted⟩
    · rw [ties.med sameAs]
      rfl
    · exact absurd beats ties.not_beats.1

/-- Routes with the same attributes tie with the same routes. -/
theorem Ties.congr (ties : Ties other best) (samePath : route.asPath = other.asPath)
    (sameMed : route.med = other.med) : Ties route best := by
  refine ⟨samePath ▸ ties.length, samePath ▸ ties.advertised, fun sameAs => ?_⟩
  rw [sameMed]
  exact ties.med (samePath ▸ sameAs)

/-- Routes with the same attributes tie if they can be compared. -/
theorem ties_of_same (samePath : route.asPath = other.asPath) (sameMed : route.med = other.med)
    (advertised : route.asPath ≠ []) : Ties route other :=
  ⟨congrArg aspathLength samePath, advertised, fun _ => sameMed⟩

/-- A route that meets one with the same attributes meets those to which that one is
preferred. -/
theorem CanMeet.of_preferred (canMeet : CanMeet conf route other)
    (samePath : route.asPath = other.asPath) (ties : Ties route other) (tiesBest : Ties route best)
    (preferred : Preferred other best) : CanMeet conf route best := by
  rw [tiesBest.canMeet_iff]
  intro notPreferred
  apply canMeet.counted ties
  rintro (lower | ⟨-, different, -⟩)
  · apply notPreferred
    left
    rcases preferred with lowerToo | ⟨same, -⟩
    · exact BitVec.lt_trans lower lowerToo
    · exact same ▸ lower
  · exact different samePath

end Ties

/-- A route of a message can be decided on, given the first route of its prefix before the
message and the routes for this prefix that stand before it in the message.  It is compared
with one of the latter only if they are not worse than the former. -/
def Meets (conf : Conf) (first : Option RibTuple) (earlier : List RibTuple) (route : RibTuple) :
    Prop :=
  match first with
  | none => ∀ other ∈ earlier, CanMeet conf route other
  | some best =>
    CanMeet conf route best ∧ (Ties route best → ∀ other ∈ earlier, CanMeet conf route other)

section Earlier

variable {conf : Conf} {head route best : RibTuple} {earlier : List RibTuple}

section

variable (samePath : route.asPath = head.asPath) (sameMed : route.med = head.med)

include samePath sameMed

/-- An earlier route does not count if it is not like the first one. -/
theorem meets_cons_of_not_ties (notTies : ¬ Ties head best) :
    Meets conf (some best) earlier route ↔ Meets conf (some best) (head :: earlier) route := by
  have routeToo : ¬ Ties route best := fun ties =>
    notTies (ties.congr samePath.symm sameMed.symm)
  simp only [Meets, routeToo, false_imp_iff]

/-- An earlier route does not count if there is a number of paths. -/
theorem meets_cons_of_counted (counted : conf.maxPaths.isSome) :
    Meets conf (some best) earlier route ↔ Meets conf (some best) (head :: earlier) route := by
  refine and_congr_right fun _ => forall_congr' fun ties => ?_
  have tiesHead := ties_of_same samePath sameMed ties.advertised
  rw [List.forall_mem_cons]
  exact (and_iff_right (tiesHead.canMeet_iff.mpr fun _ => counted)).symm

/-- An earlier route takes the place of the first one to which it is preferred. -/
theorem meets_cons_of_preferred (ties : Ties head best) (preferred : Preferred head best) :
    Meets conf (some head) earlier route ↔ Meets conf (some best) (head :: earlier) route := by
  have tiesBest := ties.congr samePath sameMed
  have tiesHead := ties_of_same samePath sameMed tiesBest.advertised
  simp only [Meets, tiesBest, tiesHead, forall_const, List.forall_mem_cons]
  constructor
  · rintro ⟨canMeet, others⟩
    exact ⟨canMeet.of_preferred samePath tiesHead tiesBest preferred, canMeet, others⟩
  · exact And.right

end

/-- The decision on one route stands for its being an earlier route. -/
theorem meets_cons {chosen : Option (List RibTuple)} {after : List RibTuple}
    {answer : Option (List BestRoute)} (decides : Decides conf head chosen after answer)
    (noList : ∀ routes, BestRoute.list routes ∉ answer.getD [])
    (samePath : route.asPath = head.asPath) (sameMed : route.med = head.med) :
    Meets conf after.head? earlier route ↔
      Meets conf (chosen.bind List.head?) (head :: earlier) route := by
  cases decides with
  | first =>
    simp only [Meets, List.head?_cons, Option.bind_none, List.forall_mem_cons]
    refine and_congr_right fun canMeet => ?_
    have advertised := (canMeet.comparable (congrArg aspathLength samePath)).1
    exact forall_prop_of_true (ties_of_same samePath sameMed advertised)
  | better => exact absurd List.mem_cons_self (noList [head])
  | betterEqual best rest beats =>
    exact meets_cons_of_not_ties samePath sameMed fun ties => ties.not_beats.1 beats
  | worse best rest beats =>
    exact meets_cons_of_not_ties samePath sameMed fun ties => ties.not_beats.2 beats
  | preferred best rest ties isPreferred =>
    exact meets_cons_of_preferred samePath sameMed ties isPreferred
  | append best rest ties _ maxPaths isMax =>
    exact meets_cons_of_counted samePath sameMed (isMax ▸ rfl)
  | ignore best rest ties _ maxPaths isMax =>
    exact meets_cons_of_counted samePath sameMed (isMax ▸ rfl)

end Earlier

/-! ## The decisions on a message -/

/-- A statement about all splittings of a list. -/
theorem forall_split_cons {α : Type*} {head : α} {rest : List α}
    {prop : List α → α → List α → Prop} :
    (∀ earlier item later, head :: rest = earlier ++ item :: later → prop earlier item later) ↔
      prop [] head rest ∧ ∀ earlier item later, rest = earlier ++ item :: later →
        prop (head :: earlier) item later := by
  constructor
  · intro all
    refine ⟨all [] head rest rfl, fun earlier item later split => ?_⟩
    exact all (head :: earlier) item later (split ▸ rfl)
  · rintro ⟨atHead, inRest⟩ earlier item later split
    cases earlier with
    | nil =>
      cases split
      exact atHead
    | cons first earlier =>
      cases split
      exact inRest earlier item later rfl

namespace BgpPeer

variable {peer after : BgpPeer} {route : RibTuple}

/-- No prefix has an empty list of chosen routes. -/
def Filled (peer : BgpPeer) : Prop :=
  ∀ dest, peer.localRib.get dest ≠ some []

variable {found : Option (List BestRoute)}

theorem Filled.of_decided (filled : peer.Filled)
    (decided : peer.decisionProcessLocal (.announce route) = some (after, found)) :
    after.Filled := by
  obtain ⟨chosen, decides, chooses⟩ := decisionProcessLocal_announce decided
  obtain ⟨best, rest, rfl, -⟩ := decides.exists_head
  intro dest
  rw [chooses.chosen]
  split
  · nofun
  · exact filled dest

/-- A decision without an exception, and without a list that cannot be sent. -/
theorem decisionProcessLocal_completes_iff (filled : peer.Filled) :
    (∃ after found, peer.decisionProcessLocal (.announce route) = some (after, found) ∧
        ∀ routes, BestRoute.list routes ∉ found.getD []) ↔
      Meets peer.conf (peer.localRib.first route.dest) [] route := by
  cases stored : peer.localRib.get route.dest with
  | none =>
    have isNone : peer.localRib.first route.dest = none := by rw [Rib.first, stored]; rfl
    rw [isNone]
    refine iff_of_true ?_ (List.forall_mem_nil _)
    simp only [decisionProcessLocal, stored]
    exact ⟨_, _, rfl, by simp⟩
  | some routes =>
    cases routes with
    | nil => exact absurd stored (filled _)
    | cons best rest =>
      have isFirst : peer.localRib.first route.dest = some best := by
        rw [Rib.first, stored]
        rfl
      rw [isFirst]
      constructor
      · rintro ⟨after, found, decided, noList⟩
        exact ⟨canMeet_of_decided stored decided noList, fun _ => List.forall_mem_nil _⟩
      · rintro ⟨canMeet, -⟩
        obtain ⟨⟨after, found⟩, decided⟩ := Option.isSome_iff_exists.mp
          (decisionProcessLocal_defined stored canMeet)
        refine ⟨after, found, decided, fun routes member => ?_⟩
        obtain ⟨chosen, decides, -⟩ := decisionProcessLocal_announce decided
        rw [stored] at decides
        cases decides with
        | better _ _ beats different =>
          rw [canMeet.noBetter beats] at different
          cases different
        | betterEqual | worse | preferred | append | ignore => simp at member

/-- After the decision on a route, those behind it meet the new first routes exactly if they
meet the old ones with it as an earlier route. -/
theorem meets_of_decided {head : RibTuple} {earlier : List RibTuple}
    (decided : peer.decisionProcessLocal (.announce head) = some (after, found))
    (noList : ∀ routes, BestRoute.list routes ∉ found.getD [])
    (samePath : route.asPath = head.asPath) (sameMed : route.med = head.med) :
    Meets after.conf (after.localRib.first route.dest)
        (earlier.filter fun other => other.dest = route.dest) route ↔
      Meets peer.conf (peer.localRib.first route.dest)
        ((head :: earlier).filter fun other => other.dest = route.dest) route := by
  obtain ⟨chosen, decides, chooses⟩ := decisionProcessLocal_announce decided
  have sameConf : after.conf = peer.conf := by rw [chooses.frame]
  rw [sameConf, chooses.first]
  by_cases isDest : route.dest = head.dest
  · rw [if_pos isDest, List.filter_cons_of_pos (by simp [isDest]),
      meets_cons decides noList samePath sameMed, isDest]
    rfl
  · rw [if_neg isDest, List.filter_cons_of_neg (by simpa using Ne.symm isDest)]

/-- The decisions on routes with the same attributes complete exactly if each of them meets
the first route of its prefix and those before it. -/
theorem decisionLoop_completes_iff {routes : List RibTuple} {asPath : List Nat} {med : Option Nat}
    (filled : peer.Filled) (uniform : ∀ route ∈ routes, route.asPath = asPath ∧ route.med = med) :
    (∃ after found, peer.decisionLoop (routes.map .announce) = some (after, found) ∧
        ∀ list, BestRoute.list list ∉ found) ↔
      ∀ earlier route later, routes = earlier ++ route :: later →
        Meets peer.conf (peer.localRib.first route.dest)
          (earlier.filter fun other => other.dest = route.dest) route := by
  induction routes generalizing peer with
  | nil =>
    refine iff_of_true ⟨peer, [], rfl, fun _ => List.not_mem_nil⟩ ?_
    intro earlier route later split
    exact absurd split.symm (by simp)
  | cons head rest ih =>
    rw [List.forall_mem_cons] at uniform
    rw [forall_split_cons, List.filter_nil, ← decisionProcessLocal_completes_iff filled]
    have agree {middle : BgpPeer} {answer : Option (List BestRoute)}
        (decided : peer.decisionProcessLocal (.announce head) = some (middle, answer))
        (noList : ∀ list, BestRoute.list list ∉ answer.getD []) :
        (∃ after found, middle.decisionLoop (rest.map .announce) = some (after, found) ∧
            ∀ list, BestRoute.list list ∉ found) ↔
          ∀ earlier route later, rest = earlier ++ route :: later →
            Meets peer.conf (peer.localRib.first route.dest)
              ((head :: earlier).filter fun other => other.dest = route.dest) route := by
      rw [ih (filled.of_decided decided) uniform.2]
      refine forall_congr' fun earlier => forall_congr' fun route => forall_congr' fun later =>
        forall_congr' fun split => ?_
      have member : route ∈ rest := split ▸ List.mem_append_right _ List.mem_cons_self
      obtain ⟨isPath, isMed⟩ := uniform.2 route member
      exact meets_of_decided decided noList (isPath.trans uniform.1.1.symm)
        (isMed.trans uniform.1.2.symm)
    constructor
    · rintro ⟨after, found, decided, noList⟩
      obtain ⟨middle, answer, others, first, looped, rfl⟩ :=
        decisionLoop_cons_eq_some_iff.mp decided
      have noAnswer : ∀ list, BestRoute.list list ∉ answer.getD [] := fun list member =>
        noList list (List.mem_append_left _ member)
      exact ⟨⟨middle, answer, first, noAnswer⟩, (agree first noAnswer).mp
        ⟨_, others, looped, fun list member => noList list (List.mem_append_right _ member)⟩⟩
    · rintro ⟨⟨middle, answer, first, noAnswer⟩, restMeets⟩
      obtain ⟨after, others, looped, noOthers⟩ := (agree first noAnswer).mpr restMeets
      refine ⟨after, answer.getD [] ++ others, decisionLoop_cons_eq_some_iff.mpr
        ⟨middle, answer, others, first, looped, rfl⟩, fun list member => ?_⟩
      exact (List.mem_append.mp member).elim (noAnswer list) (noOthers list)

end BgpPeer

/-! ## One message -/

/-- The largest number of octets in a BGP message. -/
def maxBgpMessage : Nat := 4096

/-- The message is the report of an update message: an announcement has attributes, the
lengths of prefixes are those of IPv4, and each of them takes an octet at least. -/
structure WellFormed (message : RouteMessage) : Prop where
  attributed : Attributed message
  lengths : ∀ dest ∈ announcedDests message, dest.len ≤ 32
  size : (announcedDests message).length ≤ maxBgpMessage

theorem wellFormed_iff (message : RouteMessage) :
    WellFormed message ↔ Attributed message ∧ (∀ dest ∈ announcedDests message, dest.len ≤ 32) ∧
      (announcedDests message).length ≤ maxBgpMessage :=
  ⟨fun formed => ⟨formed.attributed, formed.lengths, formed.size⟩,
    fun ⟨attributed, lengths, size⟩ => ⟨attributed, lengths, size⟩⟩

instance (message : RouteMessage) : Decidable (WellFormed message) :=
  decidable_of_iff' _ (wellFormed_iff message)

namespace BgpPeer

variable {peer after : BgpPeer} {message : RouteMessage}

/-- A message can be processed in the state before it: each route that is taken in meets the
first route of its prefix, and no known route is withdrawn. -/
structure Completes (peer : BgpPeer) (message : RouteMessage) : Prop where
  announced : ∀ earlier route later, peer.accepted message = earlier ++ route :: later →
    Meets peer.conf (peer.localRib.first route.dest)
      (earlier.filter fun other => other.dest = route.dest) route
  withdrawn : ∀ dest ∈ peer.withdrawn message, peer.inputRib.get dest message.neighbor = none

/-- Every prefix of the input table has chosen routes, and no list of them is empty. -/
structure Tracked (peer : BgpPeer) : Prop where
  filled : peer.Filled
  known : ∀ dest neighbor, (peer.inputRib.get dest neighbor).isSome →
    (peer.localRib.first dest).isSome

theorem tracked_new (conf : Conf) : Tracked (BgpPeer.new conf) := by
  constructor <;> nofun

/-- Known routes cannot be withdrawn. -/
theorem Tracked.withdrawn_nil (tracked : peer.Tracked) {dests : List IpPrefix}
    (absent : ∀ update ∈ (withdrawLoop message.neighbor peer.inputRib dests).2,
      peer.localRib.first update.route.dest = none) :
    (withdrawLoop message.neighbor peer.inputRib dests).2 = [] := by
  refine withdrawLoop_nil_of_absent (fun dest route stored => ?_) absent
  exact tracked.known dest route.neighbor
    (Option.isSome_iff_exists.mpr ⟨route, AdjRibIn.mem_getAll.mp stored⟩)

variable {routes : List RibTuple} {output : Output} {line : ExaMessage}

/-- Routes that are sent to the simulator fit in a message. -/
theorem fibMessage_of_decided {found : List BestRoute} {decided : BgpPeer} (routerId : BitVec 32)
    (isDecided : peer.decisionLoop (routes.map .announce) = some (decided, found))
    (noList : ∀ list, BestRoute.list list ∉ found) (few : routes.length ≤ maxBgpMessage)
    (lengths : ∀ route ∈ routes, route.dest.len ≤ 32) :
    ∃ sent, (if found = [] then some []
      else ((found.mapM fibRoute).bind (bgpFibPack routerId)).map fun msg => [msg]) =
        some sent := by
  refine fibMessage_defined noList ?_ fun route isFound => ?_
  · calc
      found.length ≤ routes.length := decisionLoop_length isDecided
      _ ≤ maxBgpMessage := few
      _ ≤ maxFibEntries := by decide
  · exact lengths route (mem_of_decisionLoop isDecided isFound)

theorem accepted_length_le (wellFormed : WellFormed message) :
    (peer.accepted message).length ≤ maxBgpMessage := by
  rcases accepted_dests peer message with nothing | isDests
  · rw [nothing]
    exact Nat.zero_le _
  · rw [← List.length_map RibTuple.dest, isDests]
    exact wellFormed.size

/-- A message is processed without an exception exactly under the condition. -/
theorem processBgpRoute_isSome_iff {routerId : BitVec 32}
    (isRouter : peer.conf.routerId = some routerId) (wellFormed : WellFormed message)
    (tracked : peer.Tracked) : (peer.processBgpRoute message).isSome ↔ peer.Completes message := by
  obtain ⟨asPath, med, attributes⟩ := accepted_attributes peer message
  rcases update_of_attributed peer wellFormed.attributed with ⟨noWithdrawn, isUpdated⟩ |
    ⟨noAccepted, isUpdated⟩
  · have decisions := @decisionLoop_completes_iff
      { peer with inputRib := (peer.accepted message).foldl AdjRibIn.update peer.inputRib }
      (peer.accepted message) asPath med tracked.filled
      fun route member => ⟨(attributes route member).2.1, (attributes route member).2.2.1⟩
    constructor
    · intro processed
      obtain ⟨⟨after, output⟩, processed⟩ := Option.isSome_iff_exists.mp processed
      obtain ⟨_, _, decided, found, fib, isUpdatedToo, isDecided, isFib, -⟩ :=
        processBgpRoute_cases processed
      cases isUpdated.symm.trans isUpdatedToo
      refine ⟨decisions.mp ⟨decided, found, isDecided, (mapM_fibRoute isFib).1⟩, ?_⟩
      rw [noWithdrawn]
      nofun
    · rintro ⟨announced, -⟩
      obtain ⟨decided, found, isDecided, noList⟩ := decisions.mpr announced
      obtain ⟨sent, isSent⟩ := fibMessage_of_decided routerId isDecided noList
        (accepted_length_le wellFormed) fun route member =>
          wellFormed.lengths _ (accepted_dest (List.mem_map_of_mem member))
      obtain ⟨final, lines, isAnnounced⟩ :=
        bgpUpdatePeers_announce_defined decided (peer.accepted message)
      simp only [processBgpRoute, isUpdated, isRouter, Option.bind_some, isDecided, isSent,
        isAnnounced, Option.map_some, Option.isSome_some]
  · constructor
    · intro processed
      obtain ⟨⟨after, output⟩, processed⟩ := Option.isSome_iff_exists.mp processed
      obtain ⟨_, _, decided, found, -, isUpdatedToo, isDecided, -⟩ :=
        processBgpRoute_cases processed
      cases isUpdated.symm.trans isUpdatedToo
      obtain ⟨absent, -⟩ := (decisionLoop_withdraw_iff fun _ => withdrawLoop_withdraws).mp
        isDecided
      refine ⟨fun earlier route later split => ?_,
        withdrawLoop_eq_nil_iff.mp (tracked.withdrawn_nil absent)⟩
      exact absurd (split.symm.trans noAccepted) (by simp)
    · intro completes
      rw [withdrawLoop_eq_nil_iff.mpr completes.withdrawn] at isUpdated
      simp [processBgpRoute, isUpdated, decisionLoop, bgpUpdatePeers]

theorem get_foldl_update {input : AdjRibIn} {dest : IpPrefix} {neighbor : BitVec 32}
    (stored : ((routes.foldl AdjRibIn.update input).get dest neighbor).isSome) :
    (input.get dest neighbor).isSome ∨ dest ∈ routes.map RibTuple.dest := by
  rw [AdjRibIn.get_foldl_update, Option.isSome_or, Bool.or_eq_true] at stored
  rcases stored with written | before
  · rcases Option.isSome_iff_exists.mp written with ⟨route, isRoute⟩
    rcases mem_of_lastWrite isRoute with ⟨member, isKey⟩
    exact .inr (List.mem_map.mpr ⟨route, member, congrArg Prod.snd isKey⟩)
  · exact .inl before

theorem Filled.of_decisionLoop (filled : peer.Filled) {found : List BestRoute}
    (decided : peer.decisionLoop (routes.map .announce) = some (after, found)) : after.Filled := by
  induction routes generalizing peer found with
  | nil =>
    cases decided
    exact filled
  | cons route rest ih =>
    obtain ⟨middle, answer, others, first, looped, rfl⟩ :=
      decisionLoop_cons_eq_some_iff.mp decided
    exact ih (filled.of_decided first) looped

theorem Tracked.of_processBgpRoute (tracked : peer.Tracked)
    (processed : peer.processBgpRoute message = some (after, output)) : after.Tracked := by
  obtain ⟨updated, updates, decided, found, -, isUpdated, isDecided, -, isAnnounced, -⟩ :=
    processBgpRoute_cases processed
  have frame := bgpUpdatePeers_frame isAnnounced
  have sameLocal : after.localRib = decided.localRib := by rw [frame]
  have sameInput : after.inputRib = decided.inputRib := by rw [frame]
  rcases update_cases isUpdated with ⟨rfl, rfl⟩ | ⟨dests, -, rfl, rfl⟩
  · obtain ⟨decidedFrame, firsts, entered⟩ := decisionLoop_first isDecided
    have filled := @Filled.of_decisionLoop
      { peer with inputRib := (peer.accepted message).foldl AdjRibIn.update peer.inputRib }
      decided _ tracked.filled _ isDecided
    refine ⟨fun dest => sameLocal ▸ filled dest, fun dest neighbor stored => ?_⟩
    rw [sameInput, decidedFrame] at stored
    rw [sameLocal]
    rcases get_foldl_update stored with before | member
    · rcases firsts dest with same | ⟨route, -, -, isRoute⟩
      · rw [same]
        exact tracked.known dest neighbor before
      · rw [isRoute]
        rfl
    · obtain ⟨route, isRoute, rfl⟩ := List.mem_map.mp member
      exact entered route isRoute
  · obtain ⟨absent, rfl, -⟩ := (decisionLoop_withdraw_iff fun _ => withdrawLoop_withdraws).mp
      isDecided
    have unchanged := withdrawLoop_nil (tracked.withdrawn_nil absent)
    rw [unchanged] at sameInput
    refine ⟨fun dest => sameLocal ▸ tracked.filled dest, fun dest neighbor stored => ?_⟩
    rw [sameInput] at stored
    rw [sameLocal]
    exact tracked.known dest neighbor stored

/-! ## Runs -/

/-- The condition for a line of the daemon: the peer has a router identifier for all lines but
those that it ignores. -/
def CompletesLine (peer : BgpPeer) (line : ExaMessage) : Prop :=
  (line ≠ .other → peer.conf.routerId.isSome) ∧
    ∀ message, line = .update message → peer.Completes message

/-- A message that can be packed is sent if there is a router identifier. -/
theorem isSome_bind_pack {pack : BitVec 32 → Option (List (BitVec 8))}
    (packs : ∀ routerId, ∃ frame, pack routerId = some frame) (peer : BgpPeer) :
    (peer.conf.routerId.bind pack).isSome = peer.conf.routerId.isSome := by
  cases peer.conf.routerId with
  | none => rfl
  | some routerId =>
    obtain ⟨frame, packed⟩ := packs routerId
    rw [Option.bind_some, packed]
    rfl

theorem activity_packs (routerId : BitVec 32) :
    ∃ frame, (BgpActivity.new routerId).pack = some frame :=
  (BgpActivity.unpack_pack routerId).imp fun _ packed => packed.1

theorem processBgpMessage_isSome_iff
    (wellFormed : ∀ message, line = .update message → WellFormed message) (tracked : peer.Tracked) :
    (peer.processBgpMessage line).isSome ↔ peer.CompletesLine line := by
  cases line with
  | notification | opened =>
    rw [processBgpMessage, Option.isSome_map, activity, isSome_bind_pack activity_packs]
    simp [CompletesLine]
  | state neighbor asn localIp session =>
    rw [processBgpMessage, Option.isSome_map, isSome_bind_pack fun routerId =>
      (BgpStateMsg.unpack_pack routerId neighbor session.reported).imp fun _ packed => packed.1]
    simp [CompletesLine]
  | other => simp [processBgpMessage, CompletesLine]
  | update message =>
    rw [processBgpMessage, CompletesLine]
    cases isRouter : peer.conf.routerId with
    | none =>
      rw [activity, isRouter]
      simp
    | some routerId =>
      obtain ⟨frame, packed⟩ := activity_packs routerId
      rw [activity, isRouter, Option.bind_some, packed, Option.bind_some, Option.isSome_map,
        processBgpRoute_isSome_iff isRouter (wellFormed message rfl) tracked]
      refine ⟨fun completes => ⟨fun _ => rfl, ?_⟩, fun completes => completes.2 message rfl⟩
      rintro _ ⟨⟩
      exact completes

theorem Tracked.of_processBgpMessage (tracked : peer.Tracked)
    (processed : peer.processBgpMessage line = some (after, output)) :
    after.Tracked := by
  rcases processBgpMessage_cases processed with ⟨update, routeOutput, -, isProcessed, -⟩ |
    ⟨up, rfl, -⟩
  · exact tracked.of_processBgpRoute isProcessed
  · exact ⟨tracked.filled, tracked.known⟩

end BgpPeer

/-- A new peer handles the lines of its daemon without an exception exactly if it has a router
identifier for those it does not ignore, and every update message can be processed in the
state before it. -/
theorem daemonRun_isSome_iff (conf : Conf) (lines : List ExaMessage)
    (wellFormed : ∀ message, ExaMessage.update message ∈ lines → WellFormed message) :
    (run daemonStep (BgpPeer.new conf) lines).isSome ↔
      Along daemonStep BgpPeer.CompletesLine (BgpPeer.new conf) lines := by
  apply @run_isSome_iff _ _ daemonStep BgpPeer.CompletesLine BgpPeer.Tracked
    (fun line => ∀ message, line = .update message → WellFormed message)
  · intro peer line after _ tracked stepped
    obtain ⟨⟨_, output⟩, processed, rfl⟩ := Option.map_eq_some_iff.mp stepped
    exact tracked.of_processBgpMessage processed
  · intro peer line formed tracked
    rw [daemonStep, Option.isSome_map, BgpPeer.processBgpMessage_isSome_iff formed tracked]
  · exact BgpPeer.tracked_new conf
  · rintro _ member message rfl
    exact wellFormed message member

/-- With two paths allowed a route that ties with the first one and is not preferred is put
behind it. -/
theorem daemonRun_isSome_iff_twoPaths :
    Along daemonStep BgpPeer.CompletesLine (BgpPeer.new (Sample.conf (some 2)))
      [.update (Sample.announce 2 [2]), .update (Sample.announce 3 [3])] :=
  (daemonRun_isSome_iff (Sample.conf (some 2))
    [.update (Sample.announce 2 [2]), .update (Sample.announce 3 [3])]
    (by
      intro message member
      rcases List.mem_pair.mp member with isMessage | isMessage <;> cases isMessage <;>
        decide)).mp rfl

namespace Sample

/-- The announcement of the neighbor `10.0.0.x` with a discriminator. -/
def announceMed (x : Nat) (asPath : List Nat) (med : Nat) : RouteMessage where
  neighbor := 0x0A000000 + BitVec.ofNat 32 x
  asn := x
  body := some {
    attributes := some {
      origin := some .igp, asPath, med := some med, community := [], atomicAggregate := none }
    announce := some [(0x0A000000 + BitVec.ofNat 32 x, [dest])]
    withdraw := none }

/-- The withdrawal of the prefix by the neighbor `10.0.0.x`. -/
def withdraw (x : Nat) : RouteMessage where
  neighbor := 0x0A000000 + BitVec.ofNat 32 x
  asn := x
  body := some { attributes := none, announce := none, withdraw := some [dest] }

end Sample

/-- A peer without a number of paths raises an exception at a route that ties with the first
one; and any peer at a better route, at a withdrawn one, at routes of which one has a
discriminator, and at routes without paths. -/
theorem well_formed_updates_raise :
    (∀ message ∈ [Sample.announce 2 [2], Sample.announce 3 [3], Sample.announce 3 [3, 4],
        Sample.withdraw 2, Sample.announceMed 3 [2] 0, Sample.announce 2 [],
        Sample.announce 3 []], WellFormed message) ∧
      run daemonStep (BgpPeer.new (Sample.conf none))
        [.update (Sample.announce 2 [2]), .update (Sample.announce 3 [3])] = none ∧
      ∀ maxPaths, ∀ pair ∈ [(Sample.announce 3 [3, 4], Sample.announce 2 [2]),
          (Sample.announce 2 [2], Sample.withdraw 2),
          (Sample.announce 2 [2], Sample.announceMed 3 [2] 0),
          (Sample.announce 2 [], Sample.announce 3 [])],
        run daemonStep (BgpPeer.new (Sample.conf maxPaths))
          [.update pair.1, .update pair.2] = none := by
  refine ⟨by decide, rfl, fun maxPaths => ?_⟩
  simp only [List.forall_mem_cons, List.not_mem_nil, false_imp_iff, implies_true, and_true]
  exact ⟨rfl, rfl, rfl, rfl⟩

end Horse.Bgp
