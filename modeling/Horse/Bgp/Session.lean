import Horse.Bgp.Decisions
import Horse.Bgp.MsgCodec

/-!
# The sessions of a peer

A peer reads lines from the routing daemon, about its sessions and about routes, and
messages from the simulator, which ask it to announce its routes to a neighbor that has
come up.
-/

namespace Horse.Bgp

open Horse.Container Horse.Transition

/-- The states of a session that the daemon reports. -/
inductive SessionState
  | down
  | connected
  | up
  | other
  deriving DecidableEq, Repr

/-- The state that is sent to the simulator; one that the peer does not know counts as up. -/
def SessionState.reported : SessionState → BgpState
  | down => .down
  | connected => .connected
  | up => .up
  | other => .up

/-- A line of the routing daemon, by its type. -/
inductive ExaMessage
  | notification
  | opened
  | state (neighbor : BitVec 32) (asn : Nat) (localIp : BitVec 32) (session : SessionState)
  | update (message : RouteMessage)
  | other
  deriving DecidableEq, Repr

namespace BgpPeer

/-- The activity message of a peer. -/
def activity (peer : BgpPeer) : Option (List (BitVec 8)) :=
  peer.conf.routerId.bind fun routerId => (BgpActivity.new routerId).pack

/-- A neighbor is entered when its session is up and removed when it is down. -/
def sessionChanged (peer : BgpPeer) (neighbor : BitVec 32) (asn : Nat) (localIp : BitVec 32) :
    SessionState → BgpPeer
  | .up => { peer with neighborsUp := peer.neighborsUp.set neighbor (asn, localIp) }
  | .down => { peer with neighborsUp := peer.neighborsUp.erase neighbor }
  | .connected | .other => peer

/-- `process_bgp_message`. -/
def processBgpMessage (peer : BgpPeer) : ExaMessage → Option (BgpPeer × Output)
  | .notification | .opened =>
    peer.activity.map fun frame => (peer, { sent := [frame], announcements := [] })
  | .state neighbor asn localIp session =>
    (peer.conf.routerId.bind fun routerId =>
      (BgpStateMsg.new routerId neighbor session.reported).pack).map fun frame =>
      (peer.sessionChanged neighbor asn localIp session,
        { sent := [frame], announcements := [] })
  | .update message =>
    peer.activity.bind fun frame =>
      (peer.processBgpRoute message).map fun (after, output) =>
        (after, { output with sent := frame :: output.sent })
  | .other => some (peer, { sent := [], announcements := [] })

/-- A line is an update message, or changes the neighbors that are up at most. -/
theorem processBgpMessage_cases {peer after : BgpPeer} {line : ExaMessage} {output : Output}
    (processed : peer.processBgpMessage line = some (after, output)) :
    (∃ message routeOutput, line = .update message ∧
        peer.processBgpRoute message = some (after, routeOutput) ∧
        output.announcements = routeOutput.announcements) ∨
      ∃ up, after = { peer with neighborsUp := up } ∧ output.announcements = [] := by
  cases line with
  | notification | opened =>
    rw [processBgpMessage] at processed
    obtain ⟨frame, -, result⟩ := Option.map_eq_some_iff.mp processed
    cases result
    exact .inr ⟨peer.neighborsUp, rfl, rfl⟩
  | state neighbor asn localIp session =>
    rw [processBgpMessage] at processed
    obtain ⟨frame, -, result⟩ := Option.map_eq_some_iff.mp processed
    cases result
    right
    cases session <;> exact ⟨_, rfl, rfl⟩
  | update message =>
    rw [processBgpMessage] at processed
    obtain ⟨frame, ⟨_, routeOutput⟩, -, isProcessed, result⟩ := bind_map_eq_some_iff.mp processed
    cases result
    exact .inl ⟨message, routeOutput, rfl, isProcessed, rfl⟩
  | other =>
    cases processed
    exact .inr ⟨peer.neighborsUp, rfl, rfl⟩

/-- What a peer writes: frames to the simulator, and announcements to the daemon, of
routes that it has learned and of its own prefixes. -/
structure Emitted where
  sent : List (List (BitVec 8))
  routes : List Announcement
  prefixes : List Announcement
  deriving DecidableEq, Repr

/-- A turn of the first loop of `process_message`.  The neighbor must be up. -/
def requestRoute (peer : BgpPeer) (neighbor : BitVec 32) (entry : IpPrefix × List RibTuple) :
    Option (List Announcement) :=
  entry.2.head?.bind fun route =>
    (peer.neighborsUp.get? neighbor).map fun up =>
      if neighbor ≠ route.neighbor then
        [{ neighbor, dest := entry.1, nextHop := up.2, asPath := peer.conf.asn :: route.asPath }]
      else []

/-- A turn of the second loop of `process_message`. -/
def requestPrefix (peer : BgpPeer) (neighbor : BitVec 32) (dest : IpPrefix) :
    Option Announcement :=
  (peer.neighborsUp.get? neighbor).map fun up =>
    { neighbor, dest, nextHop := up.2, asPath := [peer.conf.asn] }

/-- `process_message`; every announcement is followed by an activity message. -/
def processMessage (peer : BgpPeer) (msgType : Nat) (data : List (BitVec 8)) : Option Emitted :=
  if msgType = MsgType.bgpAnnounce.code then
    match BgpAnnounce.unpack data with
    | .error _ => none
    | .ok msg =>
      (peer.outputRib.table.entries.mapM (peer.requestRoute msg.peerId)).bind fun routes =>
        (peer.conf.prefixes.mapM (peer.requestPrefix msg.peerId)).bind fun prefixes =>
          ((routes.flatten ++ prefixes).mapM fun _ => peer.activity).map fun sent =>
            { sent, routes := routes.flatten, prefixes }
  else some { sent := [], routes := [], prefixes := [] }

end BgpPeer

/-- What a peer reads: lines of the daemon and messages of the simulator. -/
inductive PeerInput
  | daemon (message : ExaMessage)
  | simulator (msgType : Nat) (data : List (BitVec 8))
  deriving DecidableEq, Repr

namespace BgpPeer

/-- A peer handles one input. -/
def handle (peer : BgpPeer) : PeerInput → Option (BgpPeer × Emitted)
  | .daemon message =>
    (peer.processBgpMessage message).map fun (after, output) =>
      (after, { sent := output.sent, routes := output.announcements, prefixes := [] })
  | .simulator msgType data =>
    (peer.processMessage msgType data).map fun emitted => (peer, emitted)

end BgpPeer

/-- The runs of a peer on the lines of the daemon. -/
def daemonStep : Step BgpPeer ExaMessage := fun peer message =>
  (peer.processBgpMessage message).map Prod.fst

/-- The runs of a peer. -/
def peerStep : Step BgpPeer PeerInput := fun peer input =>
  (peer.handle input).map Prod.fst

end Horse.Bgp
