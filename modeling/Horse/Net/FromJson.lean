import Horse.Lib.TopologyFiles
import Horse.Net.Links
import Mathlib.Data.Set.Finite.Basic
import Mathlib.Order.WellFounded

/-!
# Topologies from files

`topology_from_ptopo` makes a datapath for every identifier of a parsed file and then adds
the links.  Datapaths are nodes, whose identifiers come from a counter, but the links are
added between the identifiers of the file; and of the two last numbers of a link, the first
is taken as its bandwidth.
-/

namespace Horse.Net

open Horse.Container Horse.Lib

/-! ## The model -/

/-- A topology and the counter `current_uuid`, which is not below any node. -/
structure Numbered where
  topo : Topology
  currentUuid : Nat
  below : ∀ node ∈ topo.nodes, node.uuid ≤ currentUuid

/-- `topology_add_datapath`. -/
def topologyAddDatapath (topo : Topology) (dp : Datapath)
    (fresh : dp.base.uuid ∉ topo.nodes.map TopoNode.uuid) : Topology :=
  { topo with
    nodes := .datapath dp :: topo.nodes
    dps := (dp.dpId, dp.base.uuid) :: topo.dps
    distinct := List.nodup_cons.mpr ⟨fresh, topo.distinct⟩ }

/-- The datapath that is made for an identifier. -/
def ptopoDatapath (uuid : Nat) (dpid : BitVec 64) : Datapath :=
  dpAddPort (dpAddPort (dpNew uuid dpid.toNat) 1 0x000000000001 1000000) 2 0x000000000001 1000000

theorem Numbered.fresh (world : Numbered) :
    world.currentUuid + 1 ∉ world.topo.nodes.map TopoNode.uuid := by
  intro used
  obtain ⟨node, isNode, same⟩ := List.mem_map.mp used
  have bound := world.below node isNode
  omega

/-- One turn of the loop over the datapaths. -/
def addPtopoDatapath (world : Numbered) (dpid : BitVec 64) : Numbered where
  topo := topologyAddDatapath world.topo (ptopoDatapath (world.currentUuid + 1) dpid) world.fresh
  currentUuid := world.currentUuid + 1
  below := by
    intro node isNode
    rcases List.mem_cons.mp isNode with rfl | older
    · exact le_rfl
    · exact (world.below node older).trans (Nat.le_succ _)

/-- One turn of the loop over the links. -/
def addPtopoLink (topo : Topology) (link : LinkSpec) : Topology :=
  topologyAddLink topo ⟨link.switchX.toNat, link.portX⟩ ⟨link.switchY.toNat, link.portY⟩
    link.delay link.bw

/-- `topology_from_ptopo` for a new topology, as `from_json` calls it. -/
def topologyFromPtopo (currentUuid : Nat) (ptopo : ParsedTopology) : Topology :=
  let world := ptopo.dpList.foldl addPtopoDatapath ⟨topologyNew, currentUuid, nofun⟩
  ptopo.linkList.foldl addPtopoLink world.topo

/-! ## The property -/

/-- Another link has an end of this one. -/
def SharesEnd (link other : LinkSpec) : Prop :=
  ((link.switchX, link.portX) = (other.switchX, other.portX) ∨
    (link.switchX, link.portX) = (other.switchY, other.portY)) ∨
  ((link.switchY, link.portY) = (other.switchX, other.portX) ∨
    (link.switchY, link.portY) = (other.switchY, other.portY))

instance (link other : LinkSpec) : Decidable (SharesEnd link other) :=
  inferInstanceAs (Decidable ((_ ∨ _) ∨ (_ ∨ _)))

/-- No other link has an end of this one. -/
def UnsharedAt (ptopo : ParsedTopology) (i : Nat) : Prop :=
  ∀ j < ptopo.nlinks, j ≠ i → ¬SharesEnd (ptopo.links i) (ptopo.links j)

/-- A link leads from one datapath to another and back. -/
def Leads (topo : Topology) (link : LinkSpec) (dpX dpY : Datapath) : Prop :=
  topologyNextHop topo dpX.base.uuid link.portX =
      some (⟨dpY.base.uuid, link.portY⟩, link.delay) ∧
    topologyNextHop topo dpY.base.uuid link.portY =
      some (⟨dpX.base.uuid, link.portX⟩, link.delay)

/-- A stored link joins the ends of a listed one. -/
def Joins (stored : Link) (link : LinkSpec) (dpX dpY : Datapath) : Prop :=
  (stored.node1 = ⟨dpX.base.uuid, link.portX⟩ ∧ stored.node2 = ⟨dpY.base.uuid, link.portY⟩) ∨
    (stored.node1 = ⟨dpY.base.uuid, link.portY⟩ ∧ stored.node2 = ⟨dpX.base.uuid, link.portX⟩)

/-- The topology is the one that was written. -/
structure AsWritten (ptopo : ParsedTopology) (topo : Topology) : Prop where
  found : ∀ dpid ∈ ptopo.dpList, ∃ dp,
    topologyDatapathByDpid topo dpid.toNat = some dp ∧ dp.dpId = dpid.toNat
  linked : ∀ i < ptopo.nlinks, UnsharedAt ptopo i → ∃ dpX dpY,
    topologyDatapathByDpid topo (ptopo.links i).switchX.toNat = some dpX ∧
      topologyDatapathByDpid topo (ptopo.links i).switchY.toNat = some dpY ∧
        Leads topo (ptopo.links i) dpX dpY
  noOthers : ∀ stored ∈ topo.links, ∃ link ∈ ptopo.linkList, ∃ dpX dpY,
    topologyDatapathByDpid topo link.switchX.toNat = some dpX ∧
      topologyDatapathByDpid topo link.switchY.toNat = some dpY ∧ Joins stored link dpX dpY

/-! ## The numbers of the nodes -/

/-- The identifier of the node that is made for a datapath. -/
def nodeNumber (currentUuid : Nat) (dpids : List (BitVec 64)) (dpid : BitVec 64) : Nat :=
  currentUuid + 1 + dpids.idxOf dpid

/-- The nodes after some datapaths. -/
structure Built (currentUuid : Nat) (dpids : List (BitVec 64)) (world : Numbered) : Prop where
  counter : world.currentUuid = currentUuid + dpids.length
  unlinked : world.topo.links = []
  numbered : ∀ uuid, (topologyNode world.topo uuid).isSome ↔
    currentUuid < uuid ∧ uuid ≤ currentUuid + dpids.length
  found : ∀ dpid ∈ dpids, topologyDatapathByDpid world.topo dpid.toNat =
    some (ptopoDatapath (nodeNumber currentUuid dpids dpid) dpid)

variable {other : BitVec 64}

section Datapaths

variable {currentUuid : Nat} {dpids : List (BitVec 64)} {dpid : BitVec 64} {world : Numbered}

theorem topologyNode_addPtopoDatapath (uuid : Nat) :
    topologyNode (addPtopoDatapath world dpid).topo uuid =
      if world.currentUuid + 1 = uuid then
        some (.datapath (ptopoDatapath (world.currentUuid + 1) dpid))
      else topologyNode world.topo uuid := by
  change List.find? _ (_ :: _) = _
  rw [List.find?_cons]
  have number : (TopoNode.datapath (ptopoDatapath (world.currentUuid + 1) dpid)).uuid =
      world.currentUuid + 1 := rfl
  rw [number]
  by_cases same : world.currentUuid + 1 = uuid
  · rw [if_pos same, beq_iff_eq.mpr same]
  · rw [if_neg same, beq_eq_false_iff_ne.mpr same]
    rfl

/-- The datapath that was added is found. -/
theorem topologyDatapathByDpid_added :
    topologyDatapathByDpid (addPtopoDatapath world dpid).topo dpid.toNat =
      some (ptopoDatapath (world.currentUuid + 1) dpid) := by
  have first : (addPtopoDatapath world dpid).topo.dps.find? (fun dn => dn.1 == dpid.toNat) =
      some (dpid.toNat, world.currentUuid + 1) := by
    change List.find? _ ((dpid.toNat, world.currentUuid + 1) :: _) = _
    rw [List.find?_cons, beq_self_eq_true]
  rw [topologyDatapathByDpid, first, Option.bind_some, topologyNode_addPtopoDatapath, if_pos rfl]
  rfl

/-- Datapaths with other identifiers are found as before. -/
theorem topologyDatapathByDpid_of_ne {dp : Datapath} (differs : other ≠ dpid)
    (found : topologyDatapathByDpid world.topo other.toNat = some dp) :
    topologyDatapathByDpid (addPtopoDatapath world dpid).topo other.toNat = some dp := by
  have later : (addPtopoDatapath world dpid).topo.dps.find? (fun dn => dn.1 == other.toNat) =
      world.topo.dps.find? fun dn => dn.1 == other.toNat := by
    change List.find? _ ((dpid.toNat, world.currentUuid + 1) :: _) = _
    have notSame : (dpid.toNat == other.toNat) = false :=
      beq_eq_false_iff_ne.mpr fun same => differs (BitVec.eq_of_toNat_eq same.symm)
    rw [List.find?_cons, notSame]
  rw [topologyDatapathByDpid] at found ⊢
  rw [later]
  obtain ⟨dn, isEntry, isDp⟩ := Option.bind_eq_some_iff.mp found
  obtain ⟨node, isNode, isDatapath⟩ := Option.bind_eq_some_iff.mp isDp
  -- the node of the entry is older than the counter
  have older : world.currentUuid + 1 ≠ dn.2 := by
    rintro same
    have number : node.uuid = dn.2 := by simpa using List.find?_some isNode
    have bound := world.below node (List.mem_of_find?_eq_some isNode)
    omega
  rw [isEntry, Option.bind_some, topologyNode_addPtopoDatapath, if_neg older, isNode]
  exact isDatapath

theorem Built.step (built : Built currentUuid dpids world) (new : dpid ∉ dpids) :
    Built currentUuid (dpids ++ [dpid]) (addPtopoDatapath world dpid) where
  counter := by
    change world.currentUuid + 1 = _
    rw [built.counter, List.length_append]
    rfl
  unlinked := built.unlinked
  numbered := by
    intro uuid
    rw [topologyNode_addPtopoDatapath, built.counter, List.length_append, List.length_singleton]
    by_cases same : currentUuid + dpids.length + 1 = uuid
    · rw [if_pos same]
      simp only [Option.isSome_some, true_iff]
      omega
    · rw [if_neg same, built.numbered uuid]
      omega
  found := by
    intro other isListed
    rcases List.mem_append.mp isListed with older | isNew
    · have number : nodeNumber currentUuid (dpids ++ [dpid]) other =
          nodeNumber currentUuid dpids other := by
        rw [nodeNumber, nodeNumber, List.idxOf_append_of_mem older]
      rw [number]
      apply topologyDatapathByDpid_of_ne
      · rintro rfl
        exact new older
      · exact built.found other older
    · obtain rfl := List.mem_singleton.mp isNew
      have number : nodeNumber currentUuid (dpids ++ [other]) other = world.currentUuid + 1 := by
        rw [nodeNumber, List.idxOf_append_of_notMem new, List.idxOf_cons_self, built.counter]
        omega
      rw [number]
      exact topologyDatapathByDpid_added

theorem built_foldl (distinct : dpids.Nodup) :
    Built currentUuid dpids (dpids.foldl addPtopoDatapath ⟨topologyNew, currentUuid, nofun⟩) := by
  induction dpids using List.reverseRecOn with
  | nil =>
    refine ⟨rfl, rfl, fun uuid => ?_, nofun⟩
    change (none : Option TopoNode).isSome ↔ _
    simp
  | append_singleton dpids dpid ih =>
    rw [List.nodup_append] at distinct
    rw [List.foldl_append]
    exact (ih distinct.1).step fun again =>
      distinct.2.2 dpid again dpid (List.mem_singleton_self dpid) rfl

theorem nodeNumber_range (listed : dpid ∈ dpids) :
    currentUuid < nodeNumber currentUuid dpids dpid ∧
      nodeNumber currentUuid dpids dpid ≤ currentUuid + dpids.length := by
  have inside := List.idxOf_lt_length_of_mem listed
  rw [nodeNumber]
  omega

end Datapaths

/-! ## The links that are stored -/

/-- The ends and the latency with which a link is added. -/
def addedJoin (link : LinkSpec) : NodePortPair × NodePortPair × BitVec 32 :=
  (⟨link.switchX.toNat, link.portX⟩, ⟨link.switchY.toNat, link.portY⟩, link.bw)

/-- Both numbers of a link are numbers of nodes, so that it is not dropped. -/
def IsKept (currentUuid count : Nat) (link : LinkSpec) : Prop :=
  (currentUuid < link.switchX.toNat ∧ link.switchX.toNat ≤ currentUuid + count) ∧
    (currentUuid < link.switchY.toNat ∧ link.switchY.toNat ≤ currentUuid + count)

instance (currentUuid count : Nat) (link : LinkSpec) : Decidable (IsKept currentUuid count link) :=
  inferInstanceAs (Decidable ((_ ∧ _) ∧ (_ ∧ _)))

/-- The links that are not dropped. -/
def keptLinks (currentUuid count : Nat) (links : List LinkSpec) : List LinkSpec :=
  links.filter fun link => decide (IsKept currentUuid count link)

/-- The entries of a link, in both directions. -/
def entries (link : LinkSpec) : List Link :=
  [⟨(addedJoin link).2.1, (addedJoin link).1, link.bw, link.delay⟩,
    ⟨(addedJoin link).1, (addedJoin link).2.1, link.bw, link.delay⟩]

section Links

variable {currentUuid count : Nat} {link : LinkSpec} {links : List LinkSpec} {topo : Topology}

/-- The call with which a link is added. -/
def LinkCall.ofSpec (link : LinkSpec) : LinkCall where
  node1 := ⟨link.switchX.toNat, link.portX⟩
  node2 := ⟨link.switchY.toNat, link.portY⟩
  bw := link.delay
  latency := link.bw

theorem addPtopoLink_of_missing (missing : ¬(LinkCall.ofSpec link).Existing topo) :
    addPtopoLink topo link = topo := by
  -- neither direction finds both of its nodes
  have oneWay (bw latency : BitVec 32) (node1 node2 : NodePortPair)
      (absent : ¬((topologyNode topo node1.uuid).isSome ∧
        (topologyNode topo node2.uuid).isSome)) :
      topologyAddDirectedLink topo node1 node2 bw latency = topo := by
    unfold topologyAddDirectedLink
    split
    · rename_i isNode1 isNode2
      rw [isNode1, isNode2] at absent
      exact absurd ⟨rfl, rfl⟩ absent
    · rfl
  have there := oneWay link.delay link.bw ⟨link.switchX.toNat, link.portX⟩
    ⟨link.switchY.toNat, link.portY⟩ missing
  have back := oneWay link.delay link.bw ⟨link.switchY.toNat, link.portY⟩
    ⟨link.switchX.toNat, link.portX⟩ fun both => missing ⟨both.2, both.1⟩
  rw [addPtopoLink, topologyAddLink, there, back]

theorem addPtopoLink_eq (existing : (LinkCall.ofSpec link).Existing topo) :
    addPtopoLink topo link = { topo with links := entries link ++ topo.links } :=
  topologyAddLink_eq existing

/-- The links between numbers of nodes are added, and the others are dropped. -/
theorem foldl_addPtopoLink
    (numbered : ∀ uuid, (topologyNode topo uuid).isSome ↔
      currentUuid < uuid ∧ uuid ≤ currentUuid + count) :
    links.foldl addPtopoLink topo =
      { topo with links :=
          (keptLinks currentUuid count links).reverse.flatMap entries ++ topo.links } := by
  induction links generalizing topo with
  | nil => rfl
  | cons link links ih =>
    have exists_iff : (LinkCall.ofSpec link).Existing topo ↔ IsKept currentUuid count link :=
      and_congr (numbered _) (numbered _)
    rw [List.foldl_cons]
    by_cases isKept : IsKept currentUuid count link
    · rw [keptLinks, List.filter_cons_of_pos (by simpa using isKept),
        addPtopoLink_eq (exists_iff.mpr isKept),
        @ih { topo with links := entries link ++ topo.links } numbered]
      simp [keptLinks]
    · rw [addPtopoLink_of_missing fun existing => isKept (exists_iff.mp existing), ih numbered,
        keptLinks, keptLinks, List.filter_cons_of_neg (by simpa using isKept)]

/-- The last entry at a port is that of the last join. -/
theorem hopAt_flatMap_entries (kept : List LinkSpec) :
    hopAt { topo with links := kept.reverse.flatMap entries } =
      partnerIn (kept.map addedJoin) := by
  have all : hopAt { topo with links := kept.reverse.flatMap entries } =
      joinAll (fun _ => none) (kept.map addedJoin) := by
    induction kept using List.reverseRecOn with
    | nil => rfl
    | append_singleton before link ih =>
      have joined : joinAll (fun _ => none) ((before ++ [link]).map addedJoin) =
          join (joinAll (fun _ => none) (before.map addedJoin)) (addedJoin link).1
            (addedJoin link).2.1 (addedJoin link).2.2 := by
        rw [List.map_append, joinAll, List.foldl_append]
        rfl
      rw [joined, ← ih, List.reverse_append]
      funext pair
      have back := @hopAt_cons { topo with links := ⟨(addedJoin link).1, (addedJoin link).2.1,
          link.bw, link.delay⟩ :: before.reverse.flatMap entries }
        ⟨(addedJoin link).2.1, (addedJoin link).1, link.bw, link.delay⟩ pair
      rw [@hopAt_cons { topo with links := before.reverse.flatMap entries }] at back
      exact back
  funext pair
  rw [all, joinAll_eq_or, Option.or_none]

end Links

/-! ## Topologies as written -/

/-- The end of a link at the node that was made for its first datapath. -/
def endX (currentUuid : Nat) (ptopo : ParsedTopology) (link : LinkSpec) : NodePortPair :=
  ⟨nodeNumber currentUuid ptopo.dpList link.switchX, link.portX⟩

/-- The end of a link at the node that was made for its second datapath. -/
def endY (currentUuid : Nat) (ptopo : ParsedTopology) (link : LinkSpec) : NodePortPair :=
  ⟨nodeNumber currentUuid ptopo.dpList link.switchY, link.portY⟩

/-- The joins that are made. -/
def keptJoins (currentUuid : Nat) (ptopo : ParsedTopology) :
    List (NodePortPair × NodePortPair × BitVec 32) :=
  (keptLinks currentUuid ptopo.ndps ptopo.linkList).map addedJoin

/-- The numbers of the file line up with those of the nodes: where the ends of a link are, the
last join that was made is that of the link, with its delay; and every join is one of a
link. -/
structure LinesUp (currentUuid : Nat) (ptopo : ParsedTopology) : Prop where
  joined : ∀ i < ptopo.nlinks, UnsharedAt ptopo i →
    partnerIn (keptJoins currentUuid ptopo) (endX currentUuid ptopo (ptopo.links i)) =
        some (endY currentUuid ptopo (ptopo.links i), (ptopo.links i).delay) ∧
      partnerIn (keptJoins currentUuid ptopo) (endY currentUuid ptopo (ptopo.links i)) =
        some (endX currentUuid ptopo (ptopo.links i), (ptopo.links i).delay)
  listed : ∀ made ∈ keptJoins currentUuid ptopo, ∃ link ∈ ptopo.linkList,
    (made.1 = endX currentUuid ptopo link ∧ made.2.1 = endY currentUuid ptopo link) ∨
      (made.1 = endY currentUuid ptopo link ∧ made.2.1 = endX currentUuid ptopo link)

/-- Every datapath that has a link is the node with its own number, and no link has a delay
other than its bandwidth. -/
def Aligned (currentUuid : Nat) (ptopo : ParsedTopology) : Prop :=
  ∀ link ∈ ptopo.linkList,
    nodeNumber currentUuid ptopo.dpList link.switchX = link.switchX.toNat ∧
      nodeNumber currentUuid ptopo.dpList link.switchY = link.switchY.toNat ∧
        link.delay = link.bw

variable {i : Nat}

section Written

variable {currentUuid : Nat} {ptopo : ParsedTopology} {link : LinkSpec}

theorem ParsedTopology.length_dpList : ptopo.dpList.length = ptopo.ndps := by
  rw [ParsedTopology.dpList, List.length_map, List.length_range]

theorem ParsedTopology.links_mem (inside : i < ptopo.nlinks) :
    ptopo.links i ∈ ptopo.linkList :=
  List.mem_map_of_mem (List.mem_range.mpr inside)

/-- What is found in the finished topology. -/
structure Finished (currentUuid : Nat) (ptopo : ParsedTopology) (topo : Topology) : Prop where
  found : ∀ dpid ∈ ptopo.dpList, topologyDatapathByDpid topo dpid.toNat =
    some (ptopoDatapath (nodeNumber currentUuid ptopo.dpList dpid) dpid)
  hops : hopAt topo = partnerIn (keptJoins currentUuid ptopo)
  links : topo.links =
    (keptLinks currentUuid ptopo.ndps ptopo.linkList).reverse.flatMap entries

theorem topologyFromPtopo_finished (distinct : ptopo.dpList.Nodup) :
    Finished currentUuid ptopo (topologyFromPtopo currentUuid ptopo) := by
  have built := @built_foldl currentUuid ptopo.dpList distinct
  have numbered := built.numbered
  rw [ParsedTopology.length_dpList] at numbered
  have linked := @foldl_addPtopoLink _ _ ptopo.linkList _ numbered
  rw [built.unlinked, List.append_nil] at linked
  rw [topologyFromPtopo, linked]
  exact ⟨built.found, hopAt_flatMap_entries _, rfl⟩

/-- The entries are the joins, in both directions. -/
theorem Finished.mem_links_iff {topo : Topology} (finished : Finished currentUuid ptopo topo)
    {node1 node2 : NodePortPair} :
    (∃ stored ∈ topo.links, stored.node1 = node1 ∧ stored.node2 = node2) ↔
      ∃ made ∈ keptJoins currentUuid ptopo,
        (node1 = made.1 ∧ node2 = made.2.1) ∨ (node1 = made.2.1 ∧ node2 = made.1) := by
  rw [finished.links, keptJoins]
  simp only [List.mem_flatMap, List.mem_reverse, entries, List.mem_cons, List.not_mem_nil, or_false,
    List.mem_map]
  constructor
  · rintro ⟨_, ⟨link, isKept, rfl | rfl⟩, rfl, rfl⟩
    · exact ⟨_, ⟨link, isKept, rfl⟩, .inr ⟨rfl, rfl⟩⟩
    · exact ⟨_, ⟨link, isKept, rfl⟩, .inl ⟨rfl, rfl⟩⟩
  · rintro ⟨_, ⟨link, isKept, rfl⟩, ⟨rfl, rfl⟩ | ⟨rfl, rfl⟩⟩
    · exact ⟨_, ⟨link, isKept, .inr rfl⟩, rfl, rfl⟩
    · exact ⟨_, ⟨link, isKept, .inl rfl⟩, rfl, rfl⟩

/-- The topology is as written exactly if the numbers line up. -/
theorem asWritten_iff_linesUp (distinct : ptopo.dpList.Nodup) (names : NamesListed ptopo) :
    AsWritten ptopo (topologyFromPtopo currentUuid ptopo) ↔ LinesUp currentUuid ptopo := by
  have finished := @topologyFromPtopo_finished currentUuid ptopo distinct
  have foundX {link : LinkSpec} (isListed : link ∈ ptopo.linkList) :=
    finished.found link.switchX (names link isListed).1
  have foundY {link : LinkSpec} (isListed : link ∈ ptopo.linkList) :=
    finished.found link.switchY (names link isListed).2
  have hop (pair : NodePortPair) := congrFun finished.hops pair
  constructor
  · intro written
    refine ⟨?_, ?_⟩
    · intro i inside unshared
      obtain ⟨dpX, dpY, isX, isY, there, back⟩ := written.linked i inside unshared
      have isListed := ParsedTopology.links_mem inside
      cases (foundX isListed).symm.trans isX
      cases (foundY isListed).symm.trans isY
      exact ⟨(hop _).symm.trans there, (hop _).symm.trans back⟩
    · intro made isMade
      obtain ⟨stored, isStored, same1, same2⟩ :=
        finished.mem_links_iff.mpr ⟨made, isMade, .inl ⟨rfl, rfl⟩⟩
      obtain ⟨link, isListed, dpX, dpY, isX, isY, joins⟩ := written.noOthers stored isStored
      cases (foundX isListed).symm.trans isX
      cases (foundY isListed).symm.trans isY
      rw [Joins, same1, same2] at joins
      exact ⟨link, isListed, joins⟩
  · intro up
    refine ⟨?_, ?_, ?_⟩
    · intro dpid isListed
      exact ⟨_, finished.found dpid isListed, rfl⟩
    · intro i inside unshared
      obtain ⟨there, back⟩ := up.joined i inside unshared
      have isListed := ParsedTopology.links_mem inside
      exact ⟨_, _, foundX isListed, foundY isListed, (hop _).trans there, (hop _).trans back⟩
    · intro stored isStored
      obtain ⟨made, isMade, ends⟩ := finished.mem_links_iff.mp ⟨stored, isStored, rfl, rfl⟩
      obtain ⟨link, isListed, joins⟩ := up.listed made isMade
      refine ⟨link, isListed, _, _, foundX isListed, foundY isListed, ?_⟩
      rw [Joins]
      rcases ends with ⟨same1, same2⟩ | ⟨same1, same2⟩
      · rw [same1, same2]
        exact joins
      · rw [same1, same2]
        exact joins.symm.imp And.symm And.symm

/-- If the numbers of the datapaths are those of their nodes, no link is dropped. -/
theorem Aligned.keptJoins_eq (aligned : Aligned currentUuid ptopo) (names : NamesListed ptopo) :
    keptJoins currentUuid ptopo = ptopo.linkList.map addedJoin := by
  have allKept : keptLinks currentUuid ptopo.ndps ptopo.linkList = ptopo.linkList := by
    rw [keptLinks, List.filter_eq_self]
    intro link isListed
    obtain ⟨isX, isY, -⟩ := aligned link isListed
    have rangeX := @nodeNumber_range currentUuid _ _ (names link isListed).1
    have rangeY := @nodeNumber_range currentUuid _ _ (names link isListed).2
    rw [isX, ParsedTopology.length_dpList] at rangeX
    rw [isY, ParsedTopology.length_dpList] at rangeY
    exact decide_eq_true ⟨rangeX, rangeY⟩
  rw [keptJoins, allKept]

/-- The links that have an end of an unshared link are that link. -/
theorem UnsharedAt.only (unshared : UnsharedAt ptopo i) {other : LinkSpec}
    (isListed : other ∈ ptopo.linkList) (shares : SharesEnd (ptopo.links i) other) :
    other = ptopo.links i := by
  obtain ⟨j, inside, rfl⟩ := List.mem_map.mp isListed
  by_cases same : j = i
  · rw [same]
  · exact absurd shares (unshared j (List.mem_range.mp inside) same)

/-- Two ends that are added as the same port are the same. -/
theorem end_eq_of_added {switch : BitVec 64} {port otherPort : BitVec 32}
    (same : (⟨switch.toNat, port⟩ : NodePortPair) = ⟨other.toNat, otherPort⟩) :
    (switch, port) = (other, otherPort) := by
  obtain ⟨sameNumber, samePort⟩ := NodePortPair.mk.inj same
  rw [BitVec.eq_of_toNat_eq sameNumber, samePort]

theorem Aligned.linesUp (aligned : Aligned currentUuid ptopo) (names : NamesListed ptopo) :
    LinesUp currentUuid ptopo := by
  have ends {link : LinkSpec} (isListed : link ∈ ptopo.linkList) :
      endX currentUuid ptopo link = (addedJoin link).1 ∧
        endY currentUuid ptopo link = (addedJoin link).2.1 := by
    obtain ⟨isX, isY, -⟩ := aligned link isListed
    rw [endX, endY, isX, isY]
    exact ⟨rfl, rfl⟩
  refine ⟨?_, ?_⟩
  · intro i inside unshared
    have isListed := ParsedTopology.links_mem inside
    have isMade := List.mem_map_of_mem (f := addedJoin) isListed
    rw [(ends isListed).1, (ends isListed).2, aligned.keptJoins_eq names,
      (aligned _ isListed).2.2]
    constructor
    · rw [partnerIn_of_only isMade]
      · exact join_first
      · intro made otherMade touches
        obtain ⟨other, isOther, rfl⟩ := List.mem_map.mp otherMade
        rw [unshared.only isOther (.inl (touches.imp end_eq_of_added end_eq_of_added))]
    · rw [partnerIn_of_only isMade]
      · exact join_second
      · intro made otherMade touches
        obtain ⟨other, isOther, rfl⟩ := List.mem_map.mp otherMade
        rw [unshared.only isOther (.inr (touches.imp end_eq_of_added end_eq_of_added))]
  · intro made isMade
    rw [aligned.keptJoins_eq names] at isMade
    obtain ⟨link, isListed, rfl⟩ := List.mem_map.mp isMade
    exact ⟨link, isListed, .inl ⟨(ends isListed).1.symm, (ends isListed).2.symm⟩⟩

end Written

/-! ## Increasing numbers -/

/-- An increasing map of a finite set to itself moves nothing. -/
theorem eq_self_of_strictMonoOn {α : Type*} [LinearOrder α] {s : Set α} {f : α → α}
    (finite : s.Finite) (strict : StrictMonoOn f s) (closed : Set.MapsTo f s s) {x : α}
    (isIn : x ∈ s) : f x = x := by
  have := finite.to_subtype
  have increasing : StrictMono (closed.restrict f s s) := fun a b less =>
    strict a.property b.property less
  have above := increasing.le_apply (x := ⟨x, isIn⟩)
  have below := increasing.apply_le (x := ⟨x, isIn⟩)
  exact le_antisymm below above

section Increasing

variable {currentUuid : Nat} {ptopo : ParsedTopology} {dpids : List (BitVec 64)}

/-- Sorted datapaths get increasing numbers. -/
theorem nodeNumber_lt (sorted : dpids.Pairwise (· < ·)) {dpid : BitVec 64} (listed : dpid ∈ dpids)
    (otherListed : other ∈ dpids) (less : dpid < other) :
    nodeNumber currentUuid dpids dpid < nodeNumber currentUuid dpids other := by
  have inside := List.idxOf_lt_length_of_mem listed
  have otherInside := List.idxOf_lt_length_of_mem otherListed
  rw [nodeNumber, nodeNumber]
  rcases Nat.lt_trichotomy (dpids.idxOf dpid) (dpids.idxOf other) with before | same | after
  · omega
  · have equal : dpid = other := (List.idxOf_inj listed).mp same
    rw [equal] at less
    exact absurd less (BitVec.lt_irrefl _)
  · have greater := List.pairwise_iff_getElem.mp sorted _ _ otherInside inside after
    rw [List.getElem_idxOf, List.getElem_idxOf] at greater
    exact absurd less (BitVec.lt_asymm greater)

/-- The numbers of the datapaths that have links. -/
def switchNumbers (ptopo : ParsedTopology) : List Nat :=
  ptopo.linkList.flatMap fun link => [link.switchX.toNat, link.switchY.toNat]

theorem mem_switchNumbers {number : Nat} :
    number ∈ switchNumbers ptopo ↔
      ∃ link ∈ ptopo.linkList, number = link.switchX.toNat ∨ number = link.switchY.toNat := by
  simp [switchNumbers]

/-- The join at the ends of an unshared link is one of a listed link. -/
theorem LinesUp.exists_link (up : LinesUp currentUuid ptopo) (inside : i < ptopo.nlinks)
    (unshared : UnsharedAt ptopo i) :
    ∃ link ∈ ptopo.linkList, link.bw = (ptopo.links i).delay ∧
      ((endX currentUuid ptopo (ptopo.links i) = (addedJoin link).1 ∧
          endY currentUuid ptopo (ptopo.links i) = (addedJoin link).2.1) ∨
        (endX currentUuid ptopo (ptopo.links i) = (addedJoin link).2.1 ∧
          endY currentUuid ptopo (ptopo.links i) = (addedJoin link).1)) := by
  have isKept {made : NodePortPair × NodePortPair × BitVec 32}
      (isMade : made ∈ keptJoins currentUuid ptopo) :
      ∃ link ∈ ptopo.linkList, addedJoin link = made := by
    obtain ⟨link, isKept, isAdded⟩ := List.mem_map.mp isMade
    exact ⟨link, (List.mem_filter.mp isKept).1, isAdded⟩
  rcases exists_join_of_partnerIn (up.joined i inside unshared).1 with forward | backward
  · obtain ⟨link, isListed, isAdded⟩ := isKept forward
    refine ⟨link, isListed, congrArg (·.2.2) isAdded, .inl ?_⟩
    rw [isAdded]
    exact ⟨rfl, rfl⟩
  · obtain ⟨link, isListed, isAdded⟩ := isKept backward
    refine ⟨link, isListed, congrArg (·.2.2) isAdded, .inr ?_⟩
    rw [isAdded]
    exact ⟨rfl, rfl⟩

section

variable (up : LinesUp currentUuid ptopo) (names : NamesListed ptopo)
  (sorted : ptopo.dpList.Pairwise (· < ·)) (unshared : ∀ i < ptopo.nlinks, UnsharedAt ptopo i)

include up names sorted unshared

/-- Every datapath that has a link is the node with its own number. -/
theorem LinesUp.nodeNumber_eq {number : Nat} (isSwitch : number ∈ switchNumbers ptopo) :
    nodeNumber currentUuid ptopo.dpList (BitVec.ofNat 64 number) = number := by
  have listed {number : Nat} (isSwitch : number ∈ switchNumbers ptopo) :
      ∃ dpid ∈ ptopo.dpList, number = dpid.toNat := by
    obtain ⟨link, isListed, rfl | rfl⟩ := mem_switchNumbers.mp isSwitch
    · exact ⟨_, (names link isListed).1, rfl⟩
    · exact ⟨_, (names link isListed).2, rfl⟩
  refine @eq_self_of_strictMonoOn _ _ {number | number ∈ switchNumbers ptopo}
    (fun number => nodeNumber currentUuid ptopo.dpList (BitVec.ofNat 64 number))
    (switchNumbers ptopo).finite_toSet ?_ ?_ number isSwitch
  · intro first isFirst second isSecond less
    obtain ⟨dpid, isListed, rfl⟩ := listed isFirst
    obtain ⟨other, otherListed, rfl⟩ := listed isSecond
    simp only [BitVec.ofNat_toNat, BitVec.setWidth_eq]
    exact nodeNumber_lt sorted isListed otherListed (BitVec.lt_def.mpr less)
  · intro number isNumber
    obtain ⟨link, isListed, isEnd⟩ := mem_switchNumbers.mp isNumber
    obtain ⟨i, inRange, rfl⟩ := List.mem_map.mp isListed
    have inside := List.mem_range.mp inRange
    obtain ⟨other, otherListed, -, ends⟩ := up.exists_link inside (unshared i inside)
    apply mem_switchNumbers.mpr
    refine ⟨other, otherListed, ?_⟩
    rcases isEnd with rfl | rfl
    · simp only [BitVec.ofNat_toNat, BitVec.setWidth_eq]
      exact ends.imp (fun same => congrArg NodePortPair.uuid same.1)
        (fun same => congrArg NodePortPair.uuid same.1)
    · simp only [BitVec.ofNat_toNat, BitVec.setWidth_eq]
      exact (ends.imp (fun same => congrArg NodePortPair.uuid same.2)
        (fun same => congrArg NodePortPair.uuid same.2)).symm

/-- Between sorted datapaths with unshared ports, the numbers only line up if they are the
same and each delay is the bandwidth. -/
theorem LinesUp.aligned : Aligned currentUuid ptopo := by
  intro link isListed
  have isX : nodeNumber currentUuid ptopo.dpList link.switchX = link.switchX.toNat := by
    simpa using up.nodeNumber_eq names sorted unshared
      (mem_switchNumbers.mpr ⟨link, isListed, .inl rfl⟩)
  have isY : nodeNumber currentUuid ptopo.dpList link.switchY = link.switchY.toNat := by
    simpa using up.nodeNumber_eq names sorted unshared
      (mem_switchNumbers.mpr ⟨link, isListed, .inr rfl⟩)
  refine ⟨isX, isY, ?_⟩
  obtain ⟨i, inRange, rfl⟩ := List.mem_map.mp isListed
  have inside := List.mem_range.mp inRange
  obtain ⟨other, otherListed, delayed, ends⟩ := up.exists_link inside (unshared i inside)
  -- the join at the ends of the link is its own, since it shares them with no other
  have shares : SharesEnd (ptopo.links i) other := by
    rw [endX, isX] at ends
    exact .inl (ends.imp (fun same => end_eq_of_added same.1) fun same => end_eq_of_added same.1)
  rw [(unshared i inside).only otherListed shares] at delayed
  exact delayed.symm

end

end Increasing

/-- The topology is as written exactly if the numbers line up.  They do if every datapath with
a link has the number of its node and every delay is the bandwidth; and only then, if the
datapaths are sorted and no port has two links. -/
theorem topologyFromPtopo_asWritten_iff (currentUuid : Nat) (ptopo : ParsedTopology)
    (distinct : ptopo.dpList.Nodup) (names : NamesListed ptopo) :
    (AsWritten ptopo (topologyFromPtopo currentUuid ptopo) ↔ LinesUp currentUuid ptopo) ∧
      (Aligned currentUuid ptopo → LinesUp currentUuid ptopo) ∧
        (ptopo.dpList.Pairwise (· ≤ ·) → (∀ i < ptopo.nlinks, UnsharedAt ptopo i) →
          (LinesUp currentUuid ptopo ↔ Aligned currentUuid ptopo)) := by
  refine ⟨asWritten_iff_linesUp distinct names, fun aligned => aligned.linesUp names, ?_⟩
  intro sorted unshared
  have increasing : ptopo.dpList.Pairwise (· < ·) :=
    sorted.imp₂ (fun _ _ le ne => BitVec.lt_of_le_ne le ne) distinct
  exact ⟨fun up => up.aligned names increasing unshared, fun aligned => aligned.linesUp names⟩

/-- Two datapaths with one link between them. -/
def twoSwitches (delay bw : BitVec 32) : ParsedTopology where
  dps := fun i => if i = 0 then 1 else 2
  ndps := 2
  links := fun _ => ⟨1, 2, 2, 1, delay, bw⟩
  nlinks := 1

theorem topologyFromPtopo_asWritten_twoSwitches :
    AsWritten (twoSwitches 10 10) (topologyFromPtopo 0 (twoSwitches 10 10)) := by
  have names : NamesListed (twoSwitches 10 10) := by
    unfold NamesListed
    decide
  have aligned : Aligned 0 (twoSwitches 10 10) := by
    unfold Aligned
    decide
  have exact_iff := topologyFromPtopo_asWritten_iff 0 (twoSwitches 10 10) (by decide) names
  exact exact_iff.1.mpr (exact_iff.2.1 aligned)

/-- The link of a file with delay 16 and bandwidth 256 gets the latency 256. -/
theorem delay_taken_as_bandwidth :
    topologyNextHop (topologyFromPtopo 0 (twoSwitches 16 256)) 1 2 = some (⟨2, 1⟩, 256) ∧
      ¬AsWritten (twoSwitches 16 256) (topologyFromPtopo 0 (twoSwitches 16 256)) := by
  have hop : topologyNextHop (topologyFromPtopo 0 (twoSwitches 16 256)) 1 2 =
      some (⟨2, 1⟩, 256) := by decide +kernel
  refine ⟨hop, fun written => ?_⟩
  have unshared : UnsharedAt (twoSwitches 16 256) 0 := by
    intro j inside notFirst
    exact absurd (Nat.lt_one_iff.mp inside) notFirst
  obtain ⟨dpX, dpY, isX, -, there, -⟩ := written.linked 0 Nat.one_pos unshared
  have number : (topologyDatapathByDpid (topologyFromPtopo 0 (twoSwitches 16 256)) 1).map
      (fun dp => dp.base.uuid) = some 1 := by decide +kernel
  have isOne : dpX.base.uuid = 1 := by
    rw [show topologyDatapathByDpid _ 1 = some dpX from isX] at number
    exact Option.some.inj number
  rw [isOne] at there
  have latency : (256 : BitVec 32) = 16 :=
    congrArg Prod.snd (Option.some.inj (hop.symm.trans there))
  exact absurd latency (by decide)

end Horse.Net
