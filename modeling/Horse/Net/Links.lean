import Horse.Container.Pairing
import Horse.Net.Topology

/-!
# Symmetric links

Every link between two ports is stored in both directions, and what is found at a port is
the direction that was added last.  The two directions belong together as long as no port
gets a second link.
-/

namespace Horse.Net

open Horse.Container Horse.Transition

/-- A call of `topology_add_link` with `directed` clear. -/
structure LinkCall where
  node1 : NodePortPair
  node2 : NodePortPair
  bw : BitVec 32
  latency : BitVec 32
  deriving DecidableEq, Repr

/-- A link is added. -/
def addLink : Step Topology LinkCall := fun t call =>
  some (topologyAddLink t call.node1 call.node2 call.bw call.latency)

/-- The nodes of both ends exist. -/
def LinkCall.Existing (t : Topology) (call : LinkCall) : Prop :=
  (topologyNode t call.node1.uuid).isSome ∧ (topologyNode t call.node2.uuid).isSome

instance (t : Topology) (call : LinkCall) : Decidable (call.Existing t) :=
  inferInstanceAs (Decidable (_ ∧ _))

/-- `topology_next_hop` as a function of a node and its port. -/
def hopAt (topo : Topology) (pair : NodePortPair) : Option (NodePortPair × BitVec 32) :=
  topologyNextHop topo pair.uuid pair.port

/-- The link at the other end of a link leads back, with the same latency. -/
def SymmetricLinks (topo : Topology) : Prop :=
  ∀ uuid port uuid2 port2 latency,
    topologyNextHop topo uuid port = some (⟨uuid2, port2⟩, latency) →
      topologyNextHop topo uuid2 port2 = some (⟨uuid, port⟩, latency)

/-- Neither end has a link that leads elsewhere. -/
def FreePorts (topo : Topology) (call : LinkCall) : Prop :=
  ∀ pair ∈ [call.node1, call.node2], ∀ hop ∈ hopAt topo pair,
    hop.1 = call.node1 ∨ hop.1 = call.node2

instance (topo : Topology) (call : LinkCall) : Decidable (FreePorts topo call) :=
  inferInstanceAs (Decidable (∀ pair ∈ _, ∀ hop ∈ _, _))

/-! ## One link -/

section OneLink

variable {t : Topology} {call : LinkCall}

theorem symmetricLinks_iff_paired : SymmetricLinks t ↔ Paired (hopAt t) := by
  constructor
  · rintro symmetric ⟨uuid, port⟩ ⟨uuid2, port2⟩ latency found
    exact symmetric uuid port uuid2 port2 latency found
  · intro paired uuid port uuid2 port2 latency found
    exact paired ⟨uuid, port⟩ ⟨uuid2, port2⟩ latency found

theorem symmetricLinks_of_unlinked (unlinked : t.links = []) : SymmetricLinks t := by
  intro uuid port uuid2 port2 latency found
  rw [topologyNextHop, unlinked] at found
  cases found

theorem LinkCall.Existing.congr {other : Topology} (existing : call.Existing other)
    (sameNodes : t.nodes = other.nodes) : call.Existing t := by
  unfold LinkCall.Existing topologyNode at existing ⊢
  rw [sameNodes]
  exact existing

theorem topologyAddDirectedLink_eq {node1 node2 : NodePortPair}
    (existing1 : (topologyNode t node1.uuid).isSome)
    (existing2 : (topologyNode t node2.uuid).isSome) (bw latency : BitVec 32) :
    topologyAddDirectedLink t node1 node2 bw latency =
      { t with links := ⟨node1, node2, latency, bw⟩ :: t.links } := by
  obtain ⟨_, isNode1⟩ := Option.isSome_iff_exists.mp existing1
  obtain ⟨_, isNode2⟩ := Option.isSome_iff_exists.mp existing2
  rw [topologyAddDirectedLink, isNode1, isNode2]

/-- Both directions of a link between existing nodes are stored. -/
theorem topologyAddLink_eq (existing : call.Existing t) :
    topologyAddLink t call.node1 call.node2 call.bw call.latency =
      { t with links := ⟨call.node2, call.node1, call.latency, call.bw⟩ ::
        ⟨call.node1, call.node2, call.latency, call.bw⟩ :: t.links } := by
  rw [topologyAddLink, topologyAddDirectedLink_eq existing.1 existing.2]
  apply topologyAddDirectedLink_eq
  · exact existing.2
  · exact existing.1

/-- The link that was added last is found at its first end. -/
theorem hopAt_cons (link : Link) (pair : NodePortPair) :
    hopAt { t with links := link :: t.links } pair =
      if pair = link.node1 then some (link.node2, link.latency) else hopAt t pair := by
  unfold hopAt topologyNextHop
  rw [List.find?_cons]
  by_cases isEnd : pair = link.node1
  · simp [isEnd]
  · have notEnd : (link.node1 == pair) = false := by
      simpa using Ne.symm isEnd
    rw [if_neg isEnd, notEnd]

theorem hopAt_addLink (existing : call.Existing t) :
    hopAt (topologyAddLink t call.node1 call.node2 call.bw call.latency) =
      join (hopAt t) call.node1 call.node2 call.latency := by
  funext pair
  rw [topologyAddLink_eq existing, join, ← hopAt_cons ⟨call.node1, call.node2, call.latency,
    call.bw⟩]
  exact @hopAt_cons { t with links := ⟨call.node1, call.node2, call.latency, call.bw⟩ :: t.links }
    ⟨call.node2, call.node1, call.latency, call.bw⟩ pair

theorem freePorts_iff : FreePorts t call ↔
    FreeFor (hopAt t) call.node1 call.node2 call.node1 ∧
      FreeFor (hopAt t) call.node1 call.node2 call.node2 := by
  unfold FreePorts FreeFor
  simp

/-- A link keeps the links symmetric exactly if its ports are free. -/
theorem symmetricLinks_addLink_iff (existing : call.Existing t) (symmetric : SymmetricLinks t) :
    SymmetricLinks (topologyAddLink t call.node1 call.node2 call.bw call.latency) ↔
      FreePorts t call := by
  rw [symmetricLinks_iff_paired] at symmetric ⊢
  rw [hopAt_addLink existing, paired_join_iff symmetric, freePorts_iff]

end OneLink

/-! ## Sequences of calls -/

/-- The links between existing nodes are symmetric after every call, exactly if no call
reuses a port whose link leads elsewhere. -/
theorem symmetricLinks_along_iff (topo : Topology) (unlinked : topo.links = [])
    (calls : List LinkCall) (existing : ∀ call ∈ calls, call.Existing topo) :
    Along addLink (fun t call => ∀ after, addLink t call = some after → SymmetricLinks after)
        topo calls ↔
      Along addLink FreePorts topo calls := by
  have agree := @along_keeps_iff _ _ addLink FreePorts SymmetricLinks
    (fun call => call.Existing topo) (fun t => t.nodes = topo.nodes)
    (fun isFine sameNodes step => by
      cases step
      rw [topologyAddLink_eq (isFine.congr sameNodes)]
      exact sameNodes)
    (fun isFine sameNodes symmetric step => by
      cases step
      exact symmetricLinks_addLink_iff (isFine.congr sameNodes) symmetric)
    topo calls rfl (symmetricLinks_of_unlinked unlinked) existing
  simpa only [addLink, Option.isSome_some, forall_const] using agree

/-- Three datapaths without links. -/
def threeNodes : Topology where
  nodes := [.datapath (dpNew 1 1), .datapath (dpNew 2 2), .datapath (dpNew 3 3)]
  links := []
  dps := []
  routers := []
  distinct := by decide

/-- A path over three nodes. -/
theorem symmetricLinks_along_path :
    Along addLink (fun t call => ∀ after, addLink t call = some after → SymmetricLinks after)
      threeNodes [⟨⟨1, 1⟩, ⟨2, 1⟩, 1000, 5⟩, ⟨⟨2, 2⟩, ⟨3, 1⟩, 1000, 7⟩] := by
  apply (symmetricLinks_along_iff threeNodes rfl _ (by decide)).mpr
  decide

/-- A second link at a port: the first one leads to the port, but not back. -/
theorem reused_port_not_symmetric :
    ∃ after, run addLink threeNodes [⟨⟨1, 1⟩, ⟨2, 1⟩, 1000, 5⟩, ⟨⟨1, 1⟩, ⟨3, 1⟩, 1000, 7⟩] =
        some after ∧
      topologyNextHop after 2 1 = some (⟨1, 1⟩, 5) ∧
      topologyNextHop after 1 1 = some (⟨3, 1⟩, 7) ∧ ¬SymmetricLinks after := by
  refine ⟨_, rfl, by decide, by decide, ?_⟩
  intro symmetric
  have back := symmetric 2 1 1 1 5 (by decide)
  revert back
  decide

end Horse.Net
