import Horse.Bgp.MsgCodec
import Horse.Net.RouterControl

/-!
# The transfer of routes to the simulator

The bytes of `BGPFIBMsg.pack`, handled by `router_handle_control_message`, install one
entry for each route, in order.
-/

namespace Horse.Bgp

open Horse.Codec Horse.Transition
open Horse.Net (Router)

/-- Install a route as the simulator does. -/
def installRoute (r : Router) (route : FibRoute) : Router :=
  Net.fibInstall r route.dest.addr ((cidrToNetmask route.dest.len).getD 0) route.nextHop

variable {entries : List (BitVec 8)} {routes : List FibRoute}

theorem fibEntriesPack_cons {route : FibRoute} {rest : List FibRoute}
    (packed : fibEntriesPack (route :: rest) = some entries) :
    ∃ netmask others, cidrToNetmask route.dest.len = some netmask ∧
      fibEntriesPack rest = some others ∧
      entries = packBe 4 route.dest.addr.toNat ++ (packBe 4 netmask.toNat ++
        (packBe 4 route.nextHop.toNat ++ others)) := by
  rcases Option.bind_eq_some_iff.mp packed with ⟨entry, isEntry, later⟩
  rcases Option.map_eq_some_iff.mp isEntry with ⟨netmask, isNetmask, rfl⟩
  rcases Option.map_eq_some_iff.mp later with ⟨others, isOthers, rfl⟩
  exact ⟨netmask, others, isNetmask, isOthers, by simp only [List.append_assoc]⟩

/-- The loop of `fib_add` takes the packed entries one after another. -/
theorem fibAddLoop_packed (packed : fibEntriesPack routes = some entries)
    (before after : List (BitVec 8)) (r : Router) :
    Net.fibAddLoop (before ++ (entries ++ after)) routes.length before.length r =
      some (routes.foldl installRoute r) := by
  induction routes generalizing entries before r with
  | nil => rfl
  | cons route rest ih =>
    rcases fibEntriesPack_cons packed with ⟨netmask, others, isNetmask, isOthers, rfl⟩
    simp only [List.append_assoc]
    have addr := Net.readBe32_packBe before (packBe 4 netmask.toNat ++
      (packBe 4 route.nextHop.toNat ++ (others ++ after))) route.dest.addr
    have mask := Net.readBe32_packBe (before ++ packBe 4 route.dest.addr.toNat)
      (packBe 4 route.nextHop.toNat ++ (others ++ after)) netmask
    have hop := Net.readBe32_packBe (before ++ packBe 4 route.dest.addr.toNat ++
      packBe 4 netmask.toNat) (others ++ after) route.nextHop
    have later := ih isOthers (before ++ packBe 4 route.dest.addr.toNat ++
      packBe 4 netmask.toNat ++ packBe 4 route.nextHop.toNat)
      (Net.fibInstall r route.dest.addr netmask route.nextHop)
    simp only [List.append_assoc, List.length_append, length_packBe] at mask hop later
    rw [List.length_cons, Net.fibAddLoop, addr, Option.bind_some, mask, Option.bind_some, hop,
      Option.bind_some, List.foldl_cons, installRoute, isNetmask, Option.getD_some]
    exact later

/-- The header of a message with routes is read back. -/
theorem routingMsgUnpack_packed {size : Nat} (fits : size ≤ maxMessageSize)
    (localId : BitVec 32) (after : List (BitVec 8)) :
    Net.routingMsgUnpack (packBe 2 MsgType.bgpFib.code ++ packBe 2 size ++
        packBe 4 localId.toNat ++ after) =
      some ⟨Net.RoutingMsgType.routerFib.code, BitVec.ofNat 16 size, localId⟩ := by
  have isSize : (BitVec.ofNat 16 size).toNat = size := by
    rw [BitVec.toNat_ofNat]
    exact Nat.mod_eq_of_lt (Nat.lt_succ_of_le fits)
  obtain ⟨type, sizeField, router⟩ := Net.read_headerBytes
    ⟨Net.RoutingMsgType.routerFib.code, BitVec.ofNat 16 size, localId⟩ after
  have isType : Net.RoutingMsgType.routerFib.code.toNat = MsgType.bgpFib.code := rfl
  simp only [Net.headerBytes, isSize, isType] at type sizeField router
  rw [Net.routingMsgUnpack, type, Option.bind_some, sizeField, Option.bind_some, router,
    Option.bind_some]
  rfl

/-- A packed message installs its routes. -/
theorem handle_bgpFibPack {localId : BitVec 32} {msg : List (BitVec 8)}
    (packed : bgpFibPack localId routes = some msg) (r : Router) :
    Net.routerHandleControlMessage r msg = some (routes.foldl installRoute r) := by
  rcases Option.bind_eq_some_iff.mp packed with ⟨paddedSize, isPadded, withHeader⟩
  rcases bind_map_eq_some_iff.mp withHeader with ⟨header, entries, isHeader, isEntries, rfl⟩
  rcases Option.map_eq_some_iff.mp isHeader with ⟨_, -, rfl⟩
  have fits : headerLen + routes.length * fibEntryLen ≤ maxMessageSize := by
    unfold wireSize at isPadded
    split at isPadded
    · rename_i bounds
      exact bounds.2
    · cases isPadded
  have isSize : (BitVec.ofNat 16 (headerLen + routes.length * fibEntryLen)).toNat =
      headerLen + routes.length * fibEntryLen := by
    rw [BitVec.toNat_ofNat]
    exact Nat.mod_eq_of_lt (Nat.lt_succ_of_le fits)
  have count : (headerLen + routes.length * fibEntryLen - Net.headerLen) / 12 = routes.length := by
    unfold headerLen fibEntryLen Net.headerLen
    omega
  have large : ¬ headerLen + routes.length * fibEntryLen < Net.headerLen := by
    unfold headerLen Net.headerLen
    omega
  have installed := fibAddLoop_packed isEntries []
    (List.replicate (paddedSize - (headerLen + routes.length * fibEntryLen)) 0) r
  rw [List.append_assoc, Net.routerHandleControlMessage, routingMsgUnpack_packed fits,
    Option.bind_some, if_pos rfl, isSize, if_neg large, Net.fibAdd, count,
    List.drop_left' (by simp [Net.headerLen])]
  exact installed

/-! ## The entries of the route table -/

/-- The address, mask and gateway of the entry that a route should become. -/
def routeFields (route : FibRoute) : BitVec 32 × BitVec 32 × BitVec 32 :=
  let netmask := (cidrToNetmask route.dest.len).getD 0
  (route.dest.addr &&& netmask, netmask, route.nextHop)

/-- The address, mask and gateway of an entry. -/
def entryFields (e : Net.RouteEntryV4) : BitVec 32 × BitVec 32 × BitVec 32 :=
  (e.ip, e.netmask, e.gateway)

/-- Installing routes adds one entry for each to the route table. -/
theorem exists_entries_foldl_installRoute (routes : List FibRoute) (r : Router) :
    ∃ entries : List Net.RouteEntryV4, entries.map entryFields = routes.map routeFields ∧
      routes.foldl installRoute r =
        { r with ln := { r.ln with rt := entries.foldl Net.addIpv4Entry r.ln.rt } } := by
  induction routes generalizing r with
  | nil => exact ⟨[], rfl, rfl⟩
  | cons route rest ih =>
    obtain ⟨entries, sameFields, installed⟩ := ih (installRoute r route)
    let entry := Net.fibRoute r route.dest.addr ((cidrToNetmask route.dest.len).getD 0)
      route.nextHop
    refine ⟨entry :: entries, ?_, ?_⟩
    · rw [List.map_cons, List.map_cons, sameFields]
      rfl
    · rw [List.foldl_cons, installed]
      rfl

/-- The bytes of a message with routes install one entry for each route, in order: its
address is that of the route under the mask, its mask that of the prefix length and its
gateway the next hop.  Nothing else of the router changes. -/
theorem fibMsg_installs_routes {localId : BitVec 32} {routes : List FibRoute}
    (few : routes.length ≤ maxFibEntries) (inRange : ∀ route ∈ routes, route.dest.len ≤ 32)
    (r : Router) :
    ∃ msg frame after, ∃ entries : List Net.RouteEntryV4,
      BgpFibMsg.new localId (routes.map FibRoute.text) = some msg ∧ msg.pack = some frame ∧
        Net.routerHandleControlMessage r frame = some after ∧
        entries.map entryFields = routes.map routeFields ∧
        after = { r with ln := { r.ln with rt := entries.foldl Net.addIpv4Entry r.ln.rt } } ∧
        ∀ ip bitlen, after.ln.rt.hopsAt ip bitlen =
          r.ln.rt.hopsAt ip bitlen ++ entries.filter fun e => e.isFor ip bitlen := by
  obtain ⟨msg, frame, isMsg, packed, -⟩ := @BgpFibMsg.unpack_pack routes localId few inRange
  obtain ⟨padded, -, rfl⟩ := Option.map_eq_some_iff.mp isMsg
  obtain ⟨entries, sameFields, installed⟩ := exists_entries_foldl_installRoute routes r
  have numeric := packed
  rw [BgpFibMsg.pack_eq_bgpFibPack rfl rfl] at numeric
  have handled := handle_bgpFibPack numeric r
  rw [installed] at handled
  refine ⟨_, frame, _, entries, isMsg, packed, handled, sameFields, rfl, ?_⟩
  intro ip bitlen
  exact Net.hopsAt_foldl_addIpv4Entry r.ln.rt entries ip bitlen

/-- Two routes, one of them the default route. -/
def sampleRoutes : List FibRoute :=
  [⟨⟨0x0a010203, 8⟩, 0xc0a80001⟩, ⟨⟨0, 0⟩, 0xc0a80002⟩]

theorem fibMsg_installs_routes_sampleRoutes :
    ∃ msg frame after, ∃ entries : List Net.RouteEntryV4,
      BgpFibMsg.new 0x01010101 (sampleRoutes.map FibRoute.text) = some msg ∧
        msg.pack = some frame ∧
        Net.routerHandleControlMessage (Net.routerNew 1) frame = some after ∧
        entries.map entryFields =
          [(0x0a000000, 0xff000000, 0xc0a80001), (0, 0, 0xc0a80002)] := by
  obtain ⟨msg, frame, after, entries, isMsg, packed, handled, sameFields, -⟩ :=
    @fibMsg_installs_routes 0x01010101 sampleRoutes (by decide) (by decide) (Net.routerNew 1)
  exact ⟨msg, frame, after, entries, isMsg, packed, handled, sameFields⟩

end Horse.Bgp
