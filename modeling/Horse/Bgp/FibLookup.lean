import Horse.Bgp.FibTransfer
import Horse.Net.RouteLookup

/-!
# Routes of a peer in the simulator

A peer sends its routes in one message after another, and the router of the simulator
handles each of them.  Together they decide the next hop of every packet, whatever the
messages in which they came.
-/

namespace Horse.Bgp

open Horse.Net (Router RouteEntryV4 ipv4Lookup)

/-- The frame that a peer sends for some routes. -/
def fibFrame (localId : BitVec 32) (routes : List FibRoute) : Option (List (BitVec 8)) :=
  (BgpFibMsg.new localId (routes.map FibRoute.text)).bind BgpFibMsg.pack

/-- One frame after another installs the routes of all. -/
theorem fibFrames_install {localId : BitVec 32} {batches : List (List FibRoute)}
    (few : ∀ routes ∈ batches, routes.length ≤ maxFibEntries)
    (inRange : ∀ routes ∈ batches, ∀ route ∈ routes, route.dest.len ≤ 32) (r : Router) :
    ∃ frames, batches.mapM (fibFrame localId) = some frames ∧
      Transition.run Net.routerHandleControlMessage r frames =
        some (batches.flatten.foldl installRoute r) := by
  induction batches generalizing r with
  | nil => exact ⟨[], rfl, rfl⟩
  | cons routes rest ih =>
    rw [List.forall_mem_cons] at few inRange
    obtain ⟨msg, frame, isMsg, packed, -⟩ := @BgpFibMsg.unpack_pack routes localId few.1 inRange.1
    obtain ⟨frames, areFrames, ran⟩ := ih few.2 inRange.2 (routes.foldl installRoute r)
    refine ⟨frame :: frames, ?_, ?_⟩
    · rw [List.mapM_cons, fibFrame, isMsg, Option.bind_some, packed, areFrames]
      rfl
    · obtain ⟨padded, -, rfl⟩ := Option.map_eq_some_iff.mp isMsg
      rw [BgpFibMsg.pack_eq_bgpFibPack rfl rfl] at packed
      rw [Transition.run_cons_eq_some_iff, List.flatten_cons, List.foldl_append]
      exact ⟨_, handle_bgpFibPack packed r, ran⟩

/-- The entry of a route has a contiguous netmask and an address under it. -/
theorem masked_of_fields {e : RouteEntryV4} {route : FibRoute}
    (isEntry : entryFields e = routeFields route) (inRange : route.dest.len ≤ 32) :
    e.Masked := by
  have isNetmask : ∀ len < 33, cidrToNetmask len = some (Net.netmaskOf len) := by decide +kernel
  have inside := Nat.lt_succ_of_le inRange
  simp only [entryFields, routeFields, isNetmask _ inside, Option.getD_some,
    Prod.mk.injEq] at isEntry
  obtain ⟨isIp, isMask, -⟩ := isEntry
  refine ⟨⟨_, inside, isMask⟩, ?_⟩
  rw [isIp, isMask, BitVec.and_assoc, BitVec.and_self]

/-- After any sequence of messages the table of the router has one entry for each route that
was sent, in this order.  A packet has no route exactly if no entry contains its address, and
otherwise the hash selects one of the next hops that were sent for the longest prefix. -/
theorem sent_routes_decide_next_hop (localId : BitVec 32) (uuid : Nat)
    (batches : List (List FibRoute)) (few : ∀ routes ∈ batches, routes.length ≤ maxFibEntries)
    (inRange : ∀ routes ∈ batches, ∀ route ∈ routes, route.dest.len ≤ 32) :
    ∃ frames after entries, batches.mapM (fibFrame localId) = some frames ∧
      Transition.run Net.routerHandleControlMessage (Net.routerNew uuid) frames = some after ∧
      after.ln.rt = Net.routeTableOf entries ∧
      entries.map entryFields = batches.flatten.map routeFields ∧
      ∀ ip hash, (ipv4Lookup after.ln.rt ip hash = none ↔ ∀ e ∈ entries, ¬e.Contains ip) ∧
        ∀ best ∈ entries, best.Contains ip →
          (∀ e ∈ entries, e.Contains ip → e.netmask ≤ best.netmask) →
            ipv4Lookup after.ln.rt ip hash = (Net.samePrefixEntries entries best)[
              hash.toNat % (Net.samePrefixEntries entries best).length]? := by
  obtain ⟨frames, areFrames, ran⟩ := @fibFrames_install localId _ few inRange (Net.routerNew uuid)
  obtain ⟨entries, sameFields, installed⟩ :=
    exists_entries_foldl_installRoute batches.flatten (Net.routerNew uuid)
  have isTable : (batches.flatten.foldl installRoute (Net.routerNew uuid)).ln.rt =
      Net.routeTableOf entries := by rw [installed]; rfl
  have masked : ∀ e ∈ entries, e.Masked := by
    intro e member
    have isField := List.mem_map_of_mem (f := entryFields) member
    rw [sameFields] at isField
    obtain ⟨route, isRoute, isEntry⟩ := List.mem_map.mp isField
    obtain ⟨routes, isBatch, inBatch⟩ := List.mem_flatten.mp isRoute
    exact masked_of_fields isEntry.symm (inRange routes isBatch route inBatch)
  refine ⟨frames, _, entries, areFrames, ran, isTable, sameFields, fun ip hash => ?_⟩
  rw [isTable]
  exact ⟨Net.ipv4Lookup_eq_none_iff masked hash, fun best member contains longest =>
    (Net.ipv4Lookup_of_longest masked hash member contains longest).2⟩

/-- Two messages with a default route and two next hops for `10.0.0.0/8`. -/
def sentInTwo : List (List FibRoute) :=
  [[⟨⟨0x0a010203, 8⟩, 1⟩, ⟨⟨0, 0⟩, 2⟩], [⟨⟨0x0a000000, 8⟩, 3⟩]]

/-- Every address has a next hop. -/
theorem default_route_found : ∃ frames after, sentInTwo.mapM (fibFrame 7) = some frames ∧
    Transition.run Net.routerHandleControlMessage (Net.routerNew 1) frames = some after ∧
      ∀ ip hash, ipv4Lookup after.ln.rt ip hash ≠ none := by
  obtain ⟨frames, after, entries, areFrames, ran, -, sameFields, decides⟩ :=
    sent_routes_decide_next_hop 7 1 sentInTwo (by decide) (by decide)
  have sent : ((0, 0, 2) : BitVec 32 × BitVec 32 × BitVec 32) ∈ entries.map entryFields := by
    rw [sameFields]
    decide
  obtain ⟨e, member, isEntry⟩ := List.mem_map.mp sent
  simp only [entryFields, Prod.mk.injEq] at isEntry
  refine ⟨frames, after, areFrames, ran, fun ip hash missing => ?_⟩
  apply (decides ip hash).1.mp missing e member
  rw [RouteEntryV4.Contains, isEntry.1, isEntry.2.1]
  exact BitVec.and_zero

end Horse.Bgp
