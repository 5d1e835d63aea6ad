import Horse.Container.Dict
import Horse.Container.LastWrite
import Horse.Transition.Run

/-!
# Routes and routing information bases

The tables in which a peer keeps the routes of its neighbors and those that it has
chosen.  Addresses and prefixes are numbers here; the source keeps the canonical
texts of them.
-/

namespace Horse.Bgp

open Horse.Container

/-- An address prefix, such as `130.0.0.0/16`. -/
structure IpPrefix where
  addr : BitVec 32
  len : Nat
  deriving DecidableEq, Repr

/-- The origin attribute. -/
inductive Origin
  | igp
  | egp
  | incomplete
  deriving DecidableEq, Repr

/-- `RibTuple`.  An attribute that a message does not have is missing; the source has
an empty text in its place. -/
structure RibTuple where
  dest : IpPrefix
  neighbor : BitVec 32
  neighborAs : Nat
  nextHop : BitVec 32
  origin : Option Origin
  asPath : List Nat
  communities : List (List Nat)
  med : Option Nat
  atomicAggregate : Option Bool
  deriving DecidableEq, Repr

/-- The neighbor and the prefix of a route. -/
def RibTuple.key (route : RibTuple) : BitVec 32 × IpPrefix :=
  (route.neighbor, route.dest)

/-! ## Chosen routes -/

/-- `rib`. -/
structure Rib where
  table : Dict IpPrefix (List RibTuple)
  deriving DecidableEq, Repr

namespace Rib

/-- A table without routes. -/
def new : Rib where
  table := Dict.empty

/-- `get`. -/
def get (r : Rib) (dest : IpPrefix) : Option (List RibTuple) :=
  r.table.get? dest

/-- `update`.  Without a new list the prefix must have one. -/
def update (r : Rib) (item : RibTuple) (new best : Bool) : Option Rib :=
  (if new then some [] else r.get item.dest).map fun routes =>
    ⟨r.table.set item.dest (if best then item :: routes else routes ++ [item])⟩

/-- The first route of a prefix. -/
def first (r : Rib) (dest : IpPrefix) : Option RibTuple :=
  (r.get dest).bind List.head?

/-- `update` with a new list: the route is the only one of its prefix. -/
def replace (r : Rib) (item : RibTuple) : Rib :=
  ⟨r.table.set item.dest [item]⟩

/-- `drop`. -/
def drop (r : Rib) (dest : IpPrefix) : Rib :=
  match r.get dest with
  | none => r
  | some routes => ⟨r.table.set dest routes.dropLast⟩

variable {r : Rib}

/-- An update changes the list of its prefix only. -/
theorem get_update {after : Rib} {item : RibTuple} {new best : Bool}
    (updated : r.update item new best = some after) :
    ∃ routes, (if new then some [] else r.get item.dest) = some routes ∧
      ∀ dest, after.get dest = if dest = item.dest
        then some (if best then item :: routes else routes ++ [item]) else r.get dest := by
  rcases Option.map_eq_some_iff.mp updated with ⟨routes, isOld, rfl⟩
  refine ⟨routes, isOld, ?_⟩
  intro dest
  exact Dict.get?_set _ _ _ _

theorem first_replace (r : Rib) (item : RibTuple) (dest : IpPrefix) :
    (r.replace item).first dest = if dest = item.dest then some item else r.first dest := by
  have stored : (r.replace item).get dest = if dest = item.dest then some [item] else r.get dest :=
    Dict.get?_set _ _ _ _
  rw [first, stored]
  split <;> rfl

theorem get_drop {dest : IpPrefix} {routes : List RibTuple} (stored : r.get dest = some routes)
    (other : IpPrefix) :
    (r.drop dest).get other = if other = dest then some routes.dropLast else r.get other := by
  rw [drop, stored]
  exact Dict.get?_set _ _ _ _

end Rib

/-! ## Routes of the neighbors -/

/-- `adj_rib_in`: every route is stored under its neighbor and its prefix. -/
structure AdjRibIn where
  table : Dict (BitVec 32) (Dict IpPrefix RibTuple)
  filed : ∀ neighbor routes, table.get? neighbor = some routes →
    ∀ dest item, routes.get? dest = some item → item.neighbor = neighbor ∧ item.dest = dest

namespace AdjRibIn

/-- A table without routes. -/
def new : AdjRibIn where
  table := Dict.empty
  filed := by simp

/-- The routes of a neighbor. -/
def ofNeighbor (r : AdjRibIn) (neighbor : BitVec 32) : Dict IpPrefix RibTuple :=
  (r.table.get? neighbor).getD Dict.empty

variable {dest : IpPrefix} {item : RibTuple} {neighbor : BitVec 32} {routes : List RibTuple}
  {other : RibTuple}

theorem ofNeighbor_filed {r : AdjRibIn} (stored : (r.ofNeighbor neighbor).get? dest = some item) :
    item.neighbor = neighbor ∧ item.dest = dest := by
  unfold ofNeighbor at stored
  cases known : r.table.get? neighbor with
  | none =>
    rw [known] at stored
    cases stored
  | some routes =>
    rw [known] at stored
    exact r.filed neighbor routes known dest item stored

/-- `update`. -/
def update (r : AdjRibIn) (item : RibTuple) : AdjRibIn where
  table := r.table.set item.neighbor ((r.ofNeighbor item.neighbor).set item.dest item)
  filed := by
    intro neighbor routes known dest other stored
    rw [Dict.get?_set] at known
    split at known
    · rename_i isNeighbor
      cases known
      rw [Dict.get?_set] at stored
      split at stored
      · rename_i isDest
        cases stored
        exact ⟨isNeighbor.symm, isDest.symm⟩
      · rw [isNeighbor]
        exact ofNeighbor_filed stored
    · exact r.filed neighbor routes known dest other stored

/-- `get`. -/
def get (r : AdjRibIn) (dest : IpPrefix) (neighbor : BitVec 32) : Option RibTuple :=
  (r.ofNeighbor neighbor).get? dest

/-- `get_all`, in the order in which the neighbors were first heard of. -/
def getAll (r : AdjRibIn) (dest : IpPrefix) : List RibTuple :=
  r.table.entries.filterMap fun entry => entry.2.get? dest

/-- `delete`. -/
def delete (r : AdjRibIn) (dest : IpPrefix) (neighbor : BitVec 32) : AdjRibIn where
  table :=
    match r.table.get? neighbor with
    | none => r.table
    | some routes => r.table.set neighbor (routes.erase dest)
  filed := by
    intro other routes known wanted item stored
    split at known
    · exact r.filed other routes known wanted item stored
    · rename_i old wasKnown
      rw [Dict.get?_set] at known
      split at known
      · rename_i isNeighbor
        cases known
        rw [Dict.get?_erase] at stored
        split at stored
        · cases stored
        · rw [isNeighbor]
          exact r.filed neighbor old wasKnown wanted item stored
      · exact r.filed other routes known wanted item stored

variable (r : AdjRibIn)

theorem get_filed {r : AdjRibIn} (stored : r.get dest neighbor = some item) :
    item.neighbor = neighbor ∧ item.dest = dest :=
  ofNeighbor_filed stored

/-- The routes for a prefix are those that are stored for it under some neighbor. -/
theorem mem_getAll {r : AdjRibIn} :
    item ∈ r.getAll dest ↔ r.get dest item.neighbor = some item := by
  simp only [getAll, List.mem_filterMap, Prod.exists, Dict.mem_entries_iff]
  constructor
  · rintro ⟨neighbor, routes, known, stored⟩
    have isNeighbor := (r.filed neighbor routes known dest item stored).1
    rw [get, ofNeighbor, isNeighbor, known]
    exact stored
  · intro stored
    unfold get ofNeighbor at stored
    cases known : r.table.get? item.neighbor with
    | none =>
      rw [known] at stored
      cases stored
    | some routes =>
      rw [known] at stored
      exact ⟨item.neighbor, routes, known, stored⟩

theorem get_update (item : RibTuple) (dest : IpPrefix) (neighbor : BitVec 32) :
    (r.update item).get dest neighbor =
      if neighbor = item.neighbor ∧ dest = item.dest then some item else r.get dest neighbor := by
  unfold get ofNeighbor update
  rw [Dict.get?_set]
  by_cases isNeighbor : neighbor = item.neighbor
  · rw [if_pos isNeighbor, Option.getD_some, Dict.get?_set, isNeighbor]
    simp only [true_and]
    rfl
  · rw [if_neg isNeighbor, if_neg fun same => isNeighbor same.1]

theorem get_delete (dest other : IpPrefix) (neighbor speaker : BitVec 32) :
    (r.delete dest neighbor).get other speaker =
      if speaker = neighbor ∧ other = dest then none else r.get other speaker := by
  have table : (r.delete dest neighbor).table =
      match r.table.get? neighbor with
      | none => r.table
      | some routes => r.table.set neighbor (routes.erase dest) := rfl
  unfold get ofNeighbor
  rw [table]
  cases known : r.table.get? neighbor with
  | none =>
    dsimp only
    split
    · rename_i same
      rw [same.1, known]
      rfl
    · rfl
  | some routes =>
    dsimp only
    rw [Dict.get?_set]
    by_cases isNeighbor : speaker = neighbor
    · rw [if_pos isNeighbor, isNeighbor, known, Option.getD_some, Option.getD_some,
        Dict.get?_erase]
      simp only [true_and]
    · rw [if_neg isNeighbor, if_neg fun same => isNeighbor same.1]

/-- Of several routes of a neighbor for a prefix the last one stays. -/
theorem get_foldl_update (routes : List RibTuple) (dest : IpPrefix) (neighbor : BitVec 32) :
    (routes.foldl update r).get dest neighbor =
      (lastWrite RibTuple.key routes (neighbor, dest)).or (r.get dest neighbor) := by
  induction routes generalizing r with
  | nil => rfl
  | cons route rest ih =>
    have key : RibTuple.key route = (neighbor, dest) ↔
        neighbor = route.neighbor ∧ dest = route.dest := by
      rw [RibTuple.key, Prod.mk.injEq, eq_comm, @eq_comm _ route.dest]
    rw [List.foldl_cons, ih, get_update, ← List.singleton_append, lastWrite_append,
      lastWrite_singleton, Option.or_assoc]
    simp only [key]
    split <;> rfl

theorem mem_getAll_foldl_of_notMem (absent : dest ∉ routes.map RibTuple.dest) :
    other ∈ (routes.foldl update r).getAll dest ↔ other ∈ r.getAll dest := by
  have unwritten : lastWrite RibTuple.key routes (other.neighbor, dest) = none := by
    rw [lastWrite_eq_none_iff]
    intro route member isKey
    exact absent (List.mem_map.mpr ⟨route, member, congrArg Prod.snd isKey⟩)
  rw [mem_getAll, mem_getAll, get_foldl_update, unwritten, Option.none_or]

/-- Routes for different prefixes do not replace each other. -/
theorem mem_getAll_foldl {route : RibTuple} (distinct : (routes.map RibTuple.dest).Nodup)
    (member : route ∈ routes) :
    other ∈ (routes.foldl update r).getAll route.dest ↔
      other = route ∨ other ∈ r.getAll route.dest ∧ other.neighbor ≠ route.neighbor := by
  have last : lastWrite RibTuple.key routes (other.neighbor, route.dest) =
      if other.neighbor = route.neighbor then some route else none := by
    have keys : (routes.map RibTuple.key).Nodup := by
      rw [show RibTuple.dest = Prod.snd ∘ RibTuple.key from rfl, ← List.map_map] at distinct
      exact distinct.of_map _
    split
    · rename_i isNeighbor
      exact (lastWrite_eq_some_iff keys).mpr ⟨member, by rw [RibTuple.key, isNeighbor]⟩
    · rename_i notNeighbor
      rw [lastWrite_eq_none_iff]
      intro written isWritten isKey
      have same := List.inj_on_of_nodup_map distinct isWritten member (congrArg Prod.snd isKey)
      rw [← same] at notNeighbor
      exact notNeighbor (congrArg Prod.fst isKey).symm
  rw [mem_getAll, mem_getAll, get_foldl_update, last]
  split
  · rename_i isNeighbor
    simp only [Option.some_or, Option.some.injEq, ne_eq, isNeighbor, not_true, and_false, or_false]
    exact eq_comm
  · rename_i notNeighbor
    have different : other ≠ route := fun same => notNeighbor (congrArg RibTuple.neighbor same)
    simp only [Option.none_or, different, false_or, ne_eq, notNeighbor, not_false_eq_true,
      and_true]

/-- A neighbor has at most one route for a prefix. -/
theorem getAll_nodup (dest : IpPrefix) : (r.getAll dest).Nodup := by
  have distinct : r.table.entries.Pairwise fun first second => first.1 ≠ second.1 :=
    List.pairwise_map.mp r.table.distinct
  apply List.pairwise_filterMap.mpr
  apply distinct.imp_of_mem
  intro first second isFirst isSecond different one inOne other inOther same
  apply different
  have firstKey := (r.filed first.1 first.2 ((r.table.mem_entries_iff _ _).mp isFirst) dest one
    inOne).1
  have secondKey := (r.filed second.1 second.2 ((r.table.mem_entries_iff _ _).mp isSecond) dest
    other inOther).1
  rw [← firstKey, ← secondKey, same]

end AdjRibIn

end Horse.Bgp
