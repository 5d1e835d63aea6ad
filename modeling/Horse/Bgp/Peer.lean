import Horse.Bgp.DecisionProcess
import Horse.Bgp.Msg

/-!
# The routing peer of a router

`BGPPeer` keeps the routes of its neighbors, chooses one or more of them for every
prefix, sends the chosen ones to the simulator and announces them to the other
neighbors.  A result is undefined where the source raises an exception.
-/

namespace Horse.Bgp

open Horse.Container

/-- What a peer reads of its configuration file, which may have no router identifier. -/
structure Conf where
  routerId : Option (BitVec 32)
  asn : Nat
  allowasIn : Bool
  maxPaths : Option Nat
  prefixes : List IpPrefix := []
  deriving DecidableEq, Repr

/-- `BGPPeer`, with the system and the local address of each neighbor that is up. -/
structure BgpPeer where
  conf : Conf
  inputRib : AdjRibIn
  localRib : Rib
  outputRib : Rib
  neighborsUp : Dict (BitVec 32) (Nat × BitVec 32)

/-! ## Messages -/

/-- The attributes of an update message.  A message without a path has an empty one. -/
structure Attributes where
  origin : Option Origin
  asPath : List Nat
  med : Option Nat
  community : List (List Nat)
  atomicAggregate : Option Bool
  deriving DecidableEq, Repr

/-- The parts of an update that a peer reads: for each next hop the announced
prefixes, and the withdrawn ones. -/
structure UpdateBody where
  attributes : Option Attributes
  announce : Option (List (BitVec 32 × List IpPrefix))
  withdraw : Option (List IpPrefix)
  deriving DecidableEq, Repr

/-- A message from a neighbor, which may be something else than an update. -/
structure RouteMessage where
  neighbor : BitVec 32
  asn : Nat
  body : Option UpdateBody
  deriving DecidableEq, Repr

/-- What a message changes for a prefix. -/
inductive Update
  | announce (route : RibTuple)
  | withdraw (route : RibTuple)
  deriving DecidableEq, Repr

namespace Update

/-- The route that an update is about. -/
def route : Update → RibTuple
  | announce route => route
  | withdraw route => route

end Update

/-- The routes that a message announces, in its order. -/
def announcedRoutes (message : RouteMessage) (attributes : Attributes)
    (announce : List (BitVec 32 × List IpPrefix)) : List RibTuple :=
  announce.flatMap fun (nextHop, dests) => dests.map fun dest =>
    { dest, neighbor := message.neighbor, neighborAs := message.asn, nextHop
      origin := attributes.origin, asPath := attributes.asPath
      communities := attributes.community, med := attributes.med
      atomicAggregate := attributes.atomicAggregate }

/-- The loop of `update` over announced prefixes. -/
def announceLoop : AdjRibIn → List RibTuple → AdjRibIn × List Update
  | input, [] => (input, [])
  | input, route :: rest =>
    let stored := input.update route
    let (final, later) := announceLoop stored rest
    match stored.get route.dest route.neighbor with
    | none => (final, later)
    | some announced => (final, .announce announced :: later)

/-- The loop of `update` over withdrawn prefixes. -/
def withdrawLoop (neighbor : BitVec 32) : AdjRibIn → List IpPrefix → AdjRibIn × List Update
  | input, [] => (input, [])
  | input, dest :: rest =>
    match input.get dest neighbor with
    | none => withdrawLoop neighbor input rest
    | some deleted =>
      let (final, later) := withdrawLoop neighbor (input.delete dest neighbor) rest
      (final, .withdraw deleted :: later)

namespace BgpPeer

/-- `__init__`. -/
def new (conf : Conf) : BgpPeer where
  conf := conf
  inputRib := AdjRibIn.new
  localRib := Rib.new
  outputRib := Rib.new
  neighborsUp := Dict.empty

/-- The path of an update goes through the system of the peer already. -/
def loopDetected (peer : BgpPeer) (attributes : Attributes) : Bool :=
  !peer.conf.allowasIn && decide (peer.conf.asn ∈ attributes.asPath)

/-- `update`.  Without attributes there are no communities for a route. -/
def update (peer : BgpPeer) (message : RouteMessage) : Option (BgpPeer × List Update) :=
  match message.body with
  | none => some (peer, [])
  | some body =>
    if body.attributes.any peer.loopDetected then some (peer, [])
    else
      match body.announce, body.withdraw with
      | some announce, _ =>
        match body.attributes with
        | none =>
          if ∀ group ∈ announce, group.2 = [] then some (peer, []) else none
        | some attributes =>
          let (input, updates) :=
            announceLoop peer.inputRib (announcedRoutes message attributes announce)
          some ({ peer with inputRib := input }, updates)
      | none, some dests =>
        let (input, updates) := withdrawLoop message.neighbor peer.inputRib dests
        some ({ peer with inputRib := input }, updates)
      | none, none => some (peer, [])

end BgpPeer

/-! ## Decisions -/

/-- `bgp_routes_are_equal`. -/
def bgpRoutesAreEqual (route1 route2 : RibTuple) : Bool :=
  decide (route1.nextHop = route2.nextHop) && decide (route1.asPath = route2.asPath)

/-- An item of the list of best routes.  After a change of the best route the source
puts the whole list of the prefix there. -/
inductive BestRoute
  | route (route : RibTuple)
  | list (routes : List RibTuple)
  deriving DecidableEq, Repr

namespace BgpPeer

/-- `update_route` on the local table. -/
def updateLocal (peer : BgpPeer) (route : RibTuple) (new best : Bool) : Option BgpPeer :=
  (peer.localRib.update route new best).map fun rib => { peer with localRib := rib }

/-- The announced route is preferred although the paths do not decide.  A missing
number of paths counts as zero. -/
def installPreferred (peer : BgpPeer) (route : RibTuple) (current : Nat) : Option BgpPeer :=
  let maxPaths := peer.conf.maxPaths.getD 0
  if maxPaths = 0 then peer.updateLocal route true true
  else if current + 1 ≤ maxPaths then peer.updateLocal route false true
  else
    (peer.updateLocal route false true).map fun after =>
      { after with localRib := after.localRib.drop route.dest }

/-- `decision_process_local`.  A withdrawn route that is in use raises an exception,
since a route is not read by the names of its fields. -/
def decisionProcessLocal (peer : BgpPeer) :
    Update → Option (BgpPeer × Option (List BestRoute))
  | .announce announced =>
    match peer.localRib.get announced.dest with
    | none =>
      (peer.updateLocal announced true true).map fun after =>
        (after, some [.route announced])
    | some current =>
      current.head?.bind fun best =>
        (bestPathSelection [announced, best]).bind fun (routes, tie) =>
          if !tie then
            routes.getLast?.bind fun newBest =>
              if !bgpRoutesAreEqual newBest best then
                (peer.updateLocal newBest true true).map fun after =>
                  (after, some [.list ((after.localRib.get announced.dest).getD [])])
              else some (peer, none)
          else
            (lowestRouterId routes).bind fun newBest =>
              if !bgpRoutesAreEqual newBest best then
                (peer.installPreferred newBest current.length).map fun after =>
                  (after, some [.route newBest])
              else
                -- A number is not compared with a missing one.
                peer.conf.maxPaths.bind fun maxPaths =>
                  if current.length + 1 ≤ maxPaths then
                    (peer.updateLocal announced false false).map fun after =>
                      (after, some [.route announced])
                  else some (peer, some [])
  | .withdraw deleted =>
    match peer.localRib.get deleted.dest with
    | none | some [] => some (peer, none)
    | some (_ :: _) => none

/-- The loop of `process_bgp_route` over the updates of a message. -/
def decisionLoop : BgpPeer → List Update → Option (BgpPeer × List BestRoute)
  | peer, [] => some (peer, [])
  | peer, update :: rest =>
    (peer.decisionProcessLocal update).bind fun (after, found) =>
      (decisionLoop after rest).map fun (final, later) => (final, found.getD [] ++ later)

/-! ## Announcements -/

/-- The line that `announce_route` writes. -/
structure Announcement where
  neighbor : BitVec 32
  dest : IpPrefix
  nextHop : BitVec 32
  asPath : List Nat
  deriving DecidableEq, Repr

/-- One turn of the loop of `bgp_update_peers`.  The update of a withdrawn route does
not have the name under which its neighbor is looked up. -/
def bgpUpdatePeer (peer : BgpPeer) (update : Update) : Option (BgpPeer × List Announcement) :=
  let dest := update.route.dest
  match peer.localRib.get dest with
  | none | some [] => some (peer, [])
  | some (best :: _) =>
    let previous := (peer.outputRib.get dest).bind List.head?
    if previous.any fun route => bgpRoutesAreEqual best route then some (peer, [])
    else
      (peer.outputRib.update best true true).bind fun rib =>
        let after := { peer with outputRib := rib }
        match update with
        | .announce route =>
          some (after, (peer.neighborsUp.entries.filter fun entry =>
              decide (entry.1 ≠ route.neighbor)).map fun entry =>
            { neighbor := entry.1, dest, nextHop := entry.2.2
              asPath := peer.conf.asn :: best.asPath })
        | .withdraw _ => if peer.neighborsUp.entries = [] then some (after, []) else none

/-- `bgp_update_peers`. -/
def bgpUpdatePeers : BgpPeer → List Update → Option (BgpPeer × List Announcement)
  | peer, [] => some (peer, [])
  | peer, update :: rest =>
    (peer.bgpUpdatePeer update).bind fun (after, lines) =>
      (bgpUpdatePeers after rest).map fun (final, later) => (final, lines ++ later)

/-- The fields of an item that go into a message; a list does not have them. -/
def fibRoute : BestRoute → Option FibRoute
  | .route route => some ⟨route.dest, route.nextHop⟩
  | .list _ => none

/-- What a peer writes while it processes a message. -/
structure Output where
  sent : List (List (BitVec 8))
  announcements : List Announcement
  deriving DecidableEq, Repr

/-- `process_bgp_route`. -/
def processBgpRoute (peer : BgpPeer) (message : RouteMessage) : Option (BgpPeer × Output) :=
  (peer.update message).bind fun (updated, updates) =>
    (updated.decisionLoop updates).bind fun (decided, bestRoutes) =>
      (if bestRoutes = [] then some []
        else peer.conf.routerId.bind fun routerId =>
          ((bestRoutes.mapM fibRoute).bind (bgpFibPack routerId)).map fun msg =>
            [msg]).bind fun sent =>
        (decided.bgpUpdatePeers updates).map fun (final, announcements) =>
          (final, { sent, announcements })

end BgpPeer

end Horse.Bgp
