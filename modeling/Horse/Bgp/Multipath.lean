import Horse.Bgp.BestPaths
import Horse.Bgp.LocalRib

/-!
# Several routes for a prefix

With a number of paths in its configuration a peer keeps several routes for a prefix, as
long as neither their paths nor their discriminators decide between them.  They should be
no more than that number, come from different neighbors, and the one with the lowest next
hop should stand first.
-/

namespace Horse.Bgp

open Horse.Transition

/-- A route is announced, and the peer decides on it. -/
def announceRoute : Step BgpPeer RibTuple := fun peer route =>
  (peer.decisionProcessLocal (.announce route)).map Prod.fst

/-- Between one route and the number of paths, the first of which has the lowest next
hop. -/
structure BestFirst (maxPaths : Nat) (routes : List RibTuple) : Prop where
  nonempty : 1 ≤ routes.length
  bounded : routes.length ≤ maxPaths
  lowest : ∀ best ∈ routes.head?, ∀ route ∈ routes, best.nextHop ≤ route.nextHop

/-- What the chosen routes of a prefix should be. -/
structure Multipath (maxPaths : Nat) (routes : List RibTuple) : Prop extends
    BestFirst maxPaths routes where
  distinct : (routes.map RibTuple.neighbor).Nodup

/-- All prefixes have such routes. -/
def LocalMultipath (maxPaths : Nat) (peer : BgpPeer) : Prop :=
  ∀ dest routes, peer.localRib.get dest = some routes → Multipath maxPaths routes

/-- The chosen routes that an announced one is put beside. -/
def beside (conf : Conf) (route : RibTuple) : List RibTuple → List RibTuple
  | [] => []
  | best :: rest =>
    if Beats route best ∨ Beats best route then []
    else if Preferred route best then stay conf (best :: rest)
    else if (best :: rest).length + 1 ≤ conf.maxPaths.getD 0 then best :: rest
    else []

/-- The neighbor of an announced route has no other one among those that it is put
beside. -/
def NewNeighbor (peer : BgpPeer) (route : RibTuple) : Prop :=
  ∀ other ∈ beside peer.conf route ((peer.localRib.get route.dest).getD []),
    other.neighbor ≠ route.neighbor

instance (peer : BgpPeer) (route : RibTuple) : Decidable (NewNeighbor peer route) :=
  inferInstanceAs (Decidable (∀ other ∈ _, _))

/-! ## One decision -/

section OneDecision

variable {conf : Conf} {maxPaths : Nat} {route best : RibTuple} {rest after : List RibTuple}
  {chosen : Option (List RibTuple)} {found : Option (List BestRoute)}

theorem BestFirst.singleton (positive : 0 < maxPaths) (route : RibTuple) :
    BestFirst maxPaths [route] where
  nonempty := Nat.le_refl 1
  bounded := positive
  lowest := by simp

theorem BestFirst.le (fine : BestFirst maxPaths (best :: rest)) :
    ∀ other ∈ best :: rest, best.nextHop ≤ other.nextHop :=
  fine.lowest best rfl

theorem length_stay_lt (isMax : conf.maxPaths = some maxPaths) (positive : 0 < maxPaths)
    {routes : List RibTuple} (bounded : routes.length ≤ maxPaths) :
    (stay conf routes).length < maxPaths := by
  unfold stay
  simp only [isMax, Option.getD_some]
  split
  · exact positive
  · split
    · rename_i room
      exact room
    · rw [List.length_dropLast]
      omega

theorem Preferred.le (preferred : Preferred route best) : route.nextHop ≤ best.nextHop := by
  rcases preferred with less | ⟨same, -⟩
  · exact BitVec.le_of_lt less
  · exact BitVec.le_of_eq same

/-- A decision keeps the number of routes and their order. -/
theorem Decides.bestFirst (isMax : conf.maxPaths = some maxPaths) (positive : 0 < maxPaths)
    (fine : ∀ routes, chosen = some routes → BestFirst maxPaths routes)
    (decides : Decides conf route chosen after found) : BestFirst maxPaths after := by
  cases decides with
  | first => exact .singleton positive route
  | better best rest beats different => exact .singleton positive route
  | betterEqual best rest beats same => exact fine _ rfl
  | worse best rest beats => exact fine _ rfl
  | preferred best rest ties isPreferred =>
    have before := fine _ rfl
    constructor
    · exact Nat.succ_le_succ (Nat.zero_le _)
    · exact length_stay_lt isMax positive before.bounded
    · rintro _ ⟨rfl⟩ other member
      rcases List.mem_cons.mp member with rfl | stays
      · exact BitVec.le_refl _
      · exact BitVec.le_trans isPreferred.le (before.le other (stay_subset stays))
  | append best rest ties notPreferred max isMax' room =>
    have before := fine _ rfl
    cases isMax.symm.trans isMax'
    constructor
    · simp
    · simpa using room
    · rintro _ ⟨rfl⟩ other member
      rcases List.mem_append.mp member with old | new
      · exact before.le other old
      · rw [List.mem_singleton.mp new, ← BitVec.not_lt]
        exact fun less => notPreferred (Or.inl less)
  | ignore best rest ties notPreferred max isMax' full => exact fine _ rfl

/-- It keeps the neighbors different exactly if the announced route has a new one. -/
theorem Decides.distinct_iff (isMax : conf.maxPaths = some maxPaths)
    (distinct : ∀ routes, chosen = some routes → (routes.map RibTuple.neighbor).Nodup)
    (decides : Decides conf route chosen after found) :
    (after.map RibTuple.neighbor).Nodup ↔
      ∀ other ∈ beside conf route (chosen.getD []), other.neighbor ≠ route.neighbor := by
  have apart : ∀ routes : List RibTuple, route.neighbor ∉ routes.map RibTuple.neighbor ↔
      ∀ other ∈ routes, other.neighbor ≠ route.neighbor := by
    intro routes
    simp
  cases decides with
  | first => simp [beside]
  | better best rest beats different => simp [beside, beats]
  | betterEqual best rest beats same => simpa [beside, beats] using distinct _ rfl
  | worse best rest beats => simpa [beside, beats] using distinct _ rfl
  | preferred best rest ties isPreferred =>
    have stays : ((stay conf (best :: rest)).map RibTuple.neighbor).Nodup :=
      (distinct _ rfl).sublist ((stay_sublist conf _).map _)
    rw [List.map_cons, List.nodup_cons, and_iff_left stays, apart, Option.getD_some, beside,
      if_neg (not_or.mpr ties.not_beats), if_pos isPreferred]
  | append best rest ties notPreferred max isMax' room =>
    cases isMax.symm.trans isMax'
    have room' : (best :: rest).length + 1 ≤ conf.maxPaths.getD 0 := by
      rw [isMax]
      exact room
    rw [List.map_append, List.nodup_append_comm, List.map_singleton, List.singleton_append,
      List.nodup_cons, and_iff_left (distinct _ rfl), apart, Option.getD_some, beside,
      if_neg (not_or.mpr ties.not_beats), if_neg notPreferred, if_pos room']
  | ignore best rest ties notPreferred max isMax' full =>
    have full' : ¬(best :: rest).length + 1 ≤ conf.maxPaths.getD 0 := by
      rw [isMax']
      exact Nat.not_le_of_lt full
    rw [Option.getD_some, beside, if_neg (not_or.mpr ties.not_beats), if_neg notPreferred,
      if_neg full']
    exact iff_of_true (distinct _ rfl) (by simp)

end OneDecision

/-! ## One step -/

section OneStep

variable {maxPaths : Nat} {peer after : BgpPeer} {route : RibTuple}

theorem announceRoute_decides (announced : announceRoute peer route = some after) :
    ∃ routes found, Decides peer.conf route (peer.localRib.get route.dest) routes found ∧
      Chooses peer after route.dest routes := by
  obtain ⟨⟨_, found⟩, decided, rfl⟩ := Option.map_eq_some_iff.mp announced
  obtain ⟨routes, decides, chooses⟩ := BgpPeer.decisionProcessLocal_announce decided
  exact ⟨routes, found, decides, chooses⟩

theorem announceRoute_conf (announced : announceRoute peer route = some after) :
    after.conf = peer.conf := by
  obtain ⟨routes, found, -, chooses⟩ := announceRoute_decides announced
  rw [chooses.frame]

/-- What is to be shown of all prefixes is to be shown of the announced one. -/
theorem Chooses.forall_get_iff {dest : IpPrefix} {routes : List RibTuple}
    {fine : List RibTuple → Prop} (chooses : Chooses peer after dest routes)
    (before : ∀ other old, peer.localRib.get other = some old → fine old) :
    (∀ other new, after.localRib.get other = some new → fine new) ↔ fine routes := by
  constructor
  · intro all
    refine all dest routes ?_
    rw [chooses.chosen, if_pos rfl]
  · intro fineRoutes other new stored
    rw [chooses.chosen] at stored
    split at stored
    · cases stored
      exact fineRoutes
    · exact before other new stored

theorem announceRoute_bestFirst (isMax : peer.conf.maxPaths = some maxPaths)
    (positive : 0 < maxPaths)
    (fine : ∀ dest routes, peer.localRib.get dest = some routes → BestFirst maxPaths routes)
    (announced : announceRoute peer route = some after) :
    ∀ dest routes, after.localRib.get dest = some routes → BestFirst maxPaths routes := by
  obtain ⟨routes, found, decides, chooses⟩ := announceRoute_decides announced
  rw [chooses.forall_get_iff fine]
  exact decides.bestFirst isMax positive (fine route.dest)

theorem announceRoute_multipath_iff (isMax : peer.conf.maxPaths = some maxPaths)
    (positive : 0 < maxPaths) (fine : LocalMultipath maxPaths peer)
    (announced : announceRoute peer route = some after) :
    LocalMultipath maxPaths after ↔ NewNeighbor peer route := by
  obtain ⟨routes, found, decides, chooses⟩ := announceRoute_decides announced
  have bestFirst := decides.bestFirst isMax positive fun old stored =>
    (fine route.dest old stored).toBestFirst
  have distinct := decides.distinct_iff isMax fun old stored =>
    (fine route.dest old stored).distinct
  rw [LocalMultipath, chooses.forall_get_iff fine, NewNeighbor, ← distinct]
  exact ⟨fun multipath => multipath.distinct, fun different => ⟨bestFirst, different⟩⟩

end OneStep

/-! ## Runs -/

/-- In every run from a new peer each prefix has between one route and the number of paths,
the first of which has the lowest next hop.  Their neighbors are different as well after
every step, exactly if no announced route is put beside one of its own neighbor. -/
theorem multipath_along_iff (conf : Conf) (maxPaths : Nat)
    (isMax : conf.maxPaths = some maxPaths) (positive : 0 < maxPaths) (routes : List RibTuple) :
    Along announceRoute
        (fun peer route => ∀ after, announceRoute peer route = some after →
          ∀ dest chosen, after.localRib.get dest = some chosen → BestFirst maxPaths chosen)
        (BgpPeer.new conf) routes ∧
      (Along announceRoute
          (fun peer route => ∀ after, announceRoute peer route = some after →
            LocalMultipath maxPaths after)
          (BgpPeer.new conf) routes ↔
        Along announceRoute
          (fun peer route => (announceRoute peer route).isSome → NewNeighbor peer route)
          (BgpPeer.new conf) routes) := by
  constructor
  · apply @along_of_invariant _ _ announceRoute (fun _ _ => True) fun peer =>
      peer.conf.maxPaths = some maxPaths ∧
        ∀ dest chosen, peer.localRib.get dest = some chosen → BestFirst maxPaths chosen
    · rintro peer route after ⟨isMaxHere, fine⟩ - announced
      rw [announceRoute_conf announced]
      exact ⟨isMaxHere, announceRoute_bestFirst isMaxHere positive fine announced⟩
    · rintro peer route ⟨isMaxHere, fine⟩ - after announced
      exact announceRoute_bestFirst isMaxHere positive fine announced
    · exact ⟨isMax, fun dest chosen stored => nomatch stored⟩
    · exact along_true announceRoute _ routes
  · apply @along_keeps_iff _ _ announceRoute NewNeighbor (LocalMultipath maxPaths) (fun _ => True)
      (fun peer => peer.conf.maxPaths = some maxPaths)
    · intro peer route after _ isMaxHere announced
      rw [announceRoute_conf announced]
      exact isMaxHere
    · intro peer route after _ isMaxHere fine announced
      exact announceRoute_multipath_iff isMaxHere positive fine announced
    · exact isMax
    · exact fun dest chosen stored => nomatch stored
    · exact fun _ _ => trivial

/-- The route for a prefix through the neighbor `10.0.0.x` in system `x`. -/
def Sample.route (x : Nat) (asPath : List Nat) : RibTuple where
  dest := Sample.dest
  neighbor := 0x0A000000 + BitVec.ofNat 32 x
  neighborAs := x
  nextHop := 0x0A000000 + BitVec.ofNat 32 x
  origin := some .igp
  asPath := asPath
  communities := []
  med := none
  atomicAggregate := none

/-- Three neighbors, of which the last has the lowest address and the first is dropped. -/
theorem multipath_along_threeNeighbors :
    Along announceRoute
      (fun peer route => ∀ after, announceRoute peer route = some after →
        LocalMultipath 2 after)
      (BgpPeer.new (Sample.conf (some 2)))
      [Sample.route 4 [4], Sample.route 3 [3], Sample.route 2 [2]] := by
  apply ((multipath_along_iff (Sample.conf (some 2)) 2 rfl (by decide) _).2).mpr
  decide +kernel

/-- The same announcement twice puts a route beside itself. -/
theorem repeated_route_beside_itself :
    ∃ after, run announceRoute (BgpPeer.new (Sample.conf (some 2)))
        [Sample.route 2 [2], Sample.route 2 [2]] = some after ∧ ¬LocalMultipath 2 after := by
  refine ⟨_, rfl, ?_⟩
  intro fine
  have distinct := (fine Sample.dest _ rfl).distinct
  revert distinct
  decide

end Horse.Bgp
