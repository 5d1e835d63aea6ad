import Horse.Bgp.Rib
import Mathlib.Data.List.Sort

/-!
# The decision process

`best_path_selection` keeps the routes with the shortest path, and of those that
came through the same neighboring system the ones with the lowest discriminator.  A
result is undefined where the source raises an exception: a path without a first
system, or a discriminator compared with a missing one.
-/

namespace Horse.Bgp

open Horse.Transition

/-- `get_advertised_as`. -/
def getAdvertisedAs (asPath : List Nat) : Option Nat :=
  asPath.head?

/-- `aspath_length`. -/
def aspathLength (asPath : List Nat) : Nat :=
  asPath.length

/-! ## Selection -/

/-- The loop that looks for the shortest paths. -/
def shortestLoop : List RibTuple → Nat → List RibTuple → List RibTuple
  | [], _, best => best
  | route :: rest, minLength, best =>
    if best = [] then shortestLoop rest (aspathLength route.asPath) [route]
    else if minLength = aspathLength route.asPath then
      shortestLoop rest minLength (best ++ [route])
    else if aspathLength route.asPath < minLength then
      shortestLoop rest (aspathLength route.asPath) [route]
    else shortestLoop rest minLength best

/-- Whether one discriminator is larger than another.  A number cannot be compared
with the empty text that stands for a missing one. -/
def medGt : Option Nat → Option Nat → Option Bool
  | some x, some y => some (decide (y < x))
  | none, none => some false
  | _, _ => none

/-- The loop that looks for the lowest discriminator. -/
def lowestMedLoop : List RibTuple → Option Nat → Option (Option Nat)
  | [], lowest => some lowest
  | route :: rest, lowest =>
    (medGt lowest route.med).bind fun larger =>
      lowestMedLoop rest (if larger then route.med else lowest)

/-- The routes with the lowest discriminator. -/
def lowestMed : List RibTuple → Option (List RibTuple)
  | [] => none
  | first :: rest =>
    (lowestMedLoop rest first.med).map fun lowest =>
      (first :: rest).filter fun route => route.med = lowest

/-- The routes that came through a system. -/
def fromAs (routes : List RibTuple) (as : Nat) : List RibTuple :=
  routes.filter fun route => getAdvertisedAs route.asPath = some as

/-- The routes through a system that are kept, given all systems with repetitions. -/
def medGroup (best : List RibTuple) (asList : List Nat) (as : Nat) : Option (List RibTuple) :=
  if 1 < asList.count as then lowestMed (fromAs best as) else some (fromAs best as)

/-- The loop over the sorted systems, which goes on behind all copies of a system. -/
def medLoop (best : List RibTuple) (asList : List Nat) : List Nat → Nat → Option (List RibTuple)
  | [], _ => some []
  | _ :: rest, skip + 1 => medLoop best asList rest skip
  | as :: rest, 0 =>
    (medGroup best asList as).bind fun group =>
      (medLoop best asList rest (asList.count as - 1)).map fun later => group ++ later

/-- The loop that collects the systems that routes came through. -/
def advertisedAsList : List RibTuple → Option (List Nat)
  | [] => some []
  | route :: rest =>
    (getAdvertisedAs route.asPath).bind fun as =>
      (advertisedAsList rest).map fun systems => as :: systems

/-- `best_path_selection`. -/
def bestPathSelection (routes : List RibTuple) : Option (List RibTuple × Bool) :=
  let best := shortestLoop routes 0 []
  if best.length = 1 then some (best, false)
  else
    (advertisedAsList best).bind fun systems =>
      let asList := systems.insertionSort (· ≤ ·)
      (medLoop best asList asList 0).map fun kept => (kept, decide (kept.length ≠ 1))

/-- `lowest_router_id`. -/
def lowestRouterId : List RibTuple → Option RibTuple
  | [] => none
  | first :: rest =>
    let lowest := rest.foldl
      (fun lowest route => if lowest > route.nextHop then route.nextHop else lowest)
      first.nextHop
    (first :: rest).find? fun route => route.nextHop = lowest

/-! ## The shortest paths -/

/-- The routes with a shortest path. -/
def shortest (routes : List RibTuple) : List RibTuple :=
  routes.filter fun route => decide (∀ other ∈ routes,
    aspathLength route.asPath ≤ aspathLength other.asPath)

variable {routes kept : List RibTuple}

theorem mem_shortest {route : RibTuple} :
    route ∈ shortest routes ↔ route ∈ routes ∧ ∀ other ∈ routes,
      aspathLength route.asPath ≤ aspathLength other.asPath := by
  simp [shortest]

/-- Routes that are longer than another one do not count. -/
theorem shortest_congr {fewer more : List RibTuple} (sublist : fewer.Sublist more)
    (longer : ∀ one ∈ more, one ∈ fewer ∨ ∃ other ∈ fewer,
      aspathLength other.asPath < aspathLength one.asPath) {route : RibTuple} :
    (∀ other ∈ more, aspathLength route.asPath ≤ aspathLength other.asPath) ↔
      ∀ other ∈ fewer, aspathLength route.asPath ≤ aspathLength other.asPath := by
  constructor
  · intro all other member
    exact all other (sublist.subset member)
  · intro all one member
    rcases longer one member with kept | ⟨other, isOther, less⟩
    · exact all one kept
    · exact Nat.le_trans (all other isOther) (Nat.le_of_lt less)

/-- A list of routes that are longer than another one may be left out. -/
theorem shortest_without {before between after : List RibTuple}
    (longer : ∀ one ∈ between, ∃ other ∈ before ++ after,
      aspathLength other.asPath < aspathLength one.asPath) :
    shortest (before ++ between ++ after) = shortest (before ++ after) := by
  have sublist : (before ++ after).Sublist (before ++ between ++ after) :=
    (List.sublist_append_left before between).append_right after
  have agree (route : RibTuple) := @shortest_congr _ _ sublist (by
    intro one member
    simp only [List.mem_append] at member ⊢
    rcases member with (isBefore | isBetween) | isAfter
    · exact Or.inl (Or.inl isBefore)
    · rcases longer one isBetween with ⟨other, isOther, less⟩
      exact Or.inr ⟨other, List.mem_append.mp isOther, less⟩
    · exact Or.inl (Or.inr isAfter)) route
  simp only [shortest, agree]
  rw [List.filter_append, List.filter_append, List.filter_append]
  have none : between.filter (fun route => decide (∀ other ∈ before ++ after,
      aspathLength route.asPath ≤ aspathLength other.asPath)) = [] := by
    rw [List.filter_eq_nil_iff]
    intro one isBetween all
    rcases longer one isBetween with ⟨other, isOther, less⟩
    exact absurd (of_decide_eq_true all other isOther) (Nat.not_le_of_lt less)
  rw [none, List.append_nil]

theorem shortestLoop_eq {rest best : List RibTuple} {minLength : Nat} (nonempty : best ≠ [])
    (same : ∀ route ∈ best, aspathLength route.asPath = minLength) :
    shortestLoop rest minLength best = shortest (best ++ rest) := by
  induction rest generalizing best minLength with
  | nil =>
    rw [shortestLoop, List.append_nil, shortest, List.filter_eq_self.mpr]
    intro route member
    apply decide_eq_true
    intro other isOther
    rw [same route member, same other isOther]
  | cons route rest ih =>
    rcases List.exists_mem_of_ne_nil best nonempty with ⟨first, isFirst⟩
    rw [shortestLoop, if_neg nonempty]
    split
    · rename_i isMin
      rw [ih (by simp) (by
        intro other member
        rcases List.mem_append.mp member with isOld | isNew
        · exact same other isOld
        · rw [List.mem_singleton.mp isNew, isMin]), List.append_assoc]
      rfl
    · rename_i notMin
      split
      · rename_i less
        rw [ih (by simp) (by simp)]
        refine (@shortest_without [] best _ ?_).symm
        intro one isOne
        exact ⟨route, List.mem_cons_self, by rwa [same one isOne]⟩
      · rename_i notLess
        rw [ih nonempty same, List.append_cons]
        refine (shortest_without ?_).symm
        intro one isOne
        refine ⟨first, List.mem_append_left _ isFirst, ?_⟩
        rw [List.mem_singleton.mp isOne, same first isFirst]
        exact Nat.lt_of_le_of_ne (Nat.le_of_not_lt notLess) notMin

theorem shortestLoop_init (routes : List RibTuple) :
    shortestLoop routes 0 [] = shortest routes := by
  cases routes with
  | nil => rfl
  | cons route rest =>
    rw [shortestLoop, if_pos rfl]
    exact shortestLoop_eq (by simp) (by simp)

/-! ## The lowest discriminators -/

/-- A discriminator that is lower than another one. -/
def medLess : Option Nat → Option Nat → Bool
  | some x, some y => decide (x < y)
  | _, _ => false

theorem medLess_irrefl (med : Option Nat) : medLess med med = false := by
  cases med <;> simp [medLess]

/-- Two discriminators can be compared. -/
def medComparable (x y : Option Nat) : Prop :=
  x.isSome = y.isSome

theorem medGt_isSome_iff (x y : Option Nat) : (medGt x y).isSome ↔ medComparable y x := by
  cases x <;> cases y <;> simp [medGt, medComparable]

theorem lowestMedLoop_isSome_iff (rest : List RibTuple) (lowest : Option Nat) :
    (lowestMedLoop rest lowest).isSome ↔ ∀ route ∈ rest, medComparable route.med lowest := by
  induction rest generalizing lowest with
  | nil => simp [lowestMedLoop]
  | cons route rest ih =>
    rw [List.forall_mem_cons, lowestMedLoop]
    have defined := medGt_isSome_iff lowest route.med
    cases compared : medGt lowest route.med with
    | none =>
      have different : ¬ medComparable route.med lowest := by
        rw [← defined, compared]
        exact Bool.false_ne_true
      simp [different]
    | some larger =>
      have same : medComparable route.med lowest := by
        rw [← defined, compared]
        rfl
      have kept : medComparable (if larger then route.med else lowest) lowest := by
        cases larger
        · exact rfl
        · exact same
      rw [Option.bind_some, ih]
      simp only [medComparable] at same kept ⊢
      simp [same, kept]

theorem lowestMedLoop_lowest {rest : List RibTuple} {lowest result : Option Nat}
    (found : lowestMedLoop rest lowest = some result) :
    (result = lowest ∨ ∃ route ∈ rest, route.med = result) ∧
      medLess lowest result = false ∧ ∀ route ∈ rest, medLess route.med result = false := by
  induction rest generalizing lowest with
  | nil =>
    cases found
    exact ⟨Or.inl rfl, medLess_irrefl _, by simp⟩
  | cons route rest ih =>
    rcases Option.bind_eq_some_iff.mp found with ⟨larger, compared, later⟩
    rcases ih later with ⟨isMed, notLess, others⟩
    have bounds : medLess lowest result = false ∧ medLess route.med result = false := by
      cases lowest with
      | none => cases med : route.med <;> simp_all [medLess, medGt]
      | some x =>
        cases med : route.med with
        | none => simp [med, medGt] at compared
        | some y =>
          cases result with
          | none => simp [medLess]
          | some z =>
            rw [med] at compared notLess
            cases compared
            simp only [medLess, decide_eq_false_iff_not] at notLess ⊢
            by_cases larger : y < x
            · simp only [larger, decide_true, if_true, decide_eq_false_iff_not] at notLess
              omega
            · simp only [larger, decide_false, Bool.false_eq_true, if_false,
                decide_eq_false_iff_not] at notLess
              omega
    refine ⟨?_, bounds.1, ?_⟩
    · rcases isMed with isLowest | ⟨other, isOther, isMed⟩
      · cases larger
        · exact Or.inl isLowest
        · exact Or.inr ⟨route, List.mem_cons_self, isLowest.symm⟩
      · exact Or.inr ⟨other, List.mem_cons_of_mem _ isOther, isMed⟩
    · intro other member
      rcases List.mem_cons.mp member with rfl | inRest
      · exact bounds.2
      · exact others other inRest

/-- A list of routes whose discriminators can be compared. -/
def MedsComparable (routes : List RibTuple) : Prop :=
  ∀ route ∈ routes, ∀ other ∈ routes, medComparable route.med other.med

theorem lowestMed_isSome_iff (routes : List RibTuple) :
    (lowestMed routes).isSome ↔ routes ≠ [] ∧ MedsComparable routes := by
  cases routes with
  | nil => simp [lowestMed]
  | cons first rest =>
    rw [lowestMed, Option.isSome_map, lowestMedLoop_isSome_iff]
    constructor
    · intro same
      refine ⟨List.cons_ne_nil _ _, ?_⟩
      have toFirst : ∀ route ∈ first :: rest, medComparable route.med first.med := by
        intro route member
        rcases List.mem_cons.mp member with rfl | inRest
        · rfl
        · exact same route inRest
      intro route member other isOther
      exact (toFirst route member).trans (toFirst other isOther).symm
    · intro ⟨_, same⟩ route member
      exact same route (List.mem_cons_of_mem _ member) first List.mem_cons_self

theorem mem_lowestMed (found : lowestMed routes = some kept) (route : RibTuple) :
    route ∈ kept ↔ route ∈ routes ∧ ∀ other ∈ routes, medLess other.med route.med = false := by
  have same := ((lowestMed_isSome_iff routes).mp (by rw [found]; rfl)).2
  cases routes with
  | nil => cases found
  | cons first rest =>
    rcases Option.map_eq_some_iff.mp found with ⟨lowest, isLowest, rfl⟩
    rcases lowestMedLoop_lowest isLowest with ⟨isMed, notFirst, notRest⟩
    have least : ∀ other ∈ first :: rest, medLess other.med lowest = false := by
      intro other member
      rcases List.mem_cons.mp member with rfl | inRest
      · exact notFirst
      · exact notRest other inRest
    have attained : ∃ other ∈ first :: rest, other.med = lowest := by
      rcases isMed with rfl | ⟨other, isOther, isMed⟩
      · exact ⟨first, List.mem_cons_self, rfl⟩
      · exact ⟨other, List.mem_cons_of_mem _ isOther, isMed⟩
    rw [List.mem_filter, decide_eq_true_iff]
    apply and_congr_right
    intro member
    constructor
    · intro isLow other isOther
      rw [isLow]
      exact least other isOther
    · intro notLess
      rcases attained with ⟨other, isOther, isLow⟩
      have one := notLess other isOther
      have two := least route member
      have comparable := same route member other isOther
      rw [isLow] at one comparable
      cases med : route.med with
      | none => simp_all [medComparable]
      | some x =>
        cases lowest with
        | none => simp_all [medComparable]
        | some y =>
          simp only [med, medLess, decide_eq_false_iff_not] at one two
          rw [show x = y by omega]

/-! ## The loop over the systems -/

theorem eq_of_length_le_one (single : routes.length ≤ 1) {route other : RibTuple}
    (member : route ∈ routes) (isOther : other ∈ routes) :
    other = route := by
  cases routes with
  | nil => cases member
  | cons first rest =>
    have isNil : rest = [] := List.length_eq_zero_iff.mp (by simpa using single)
    subst isNil
    rw [List.mem_singleton.mp member, List.mem_singleton.mp isOther]

section Systems

variable {best : List RibTuple} {asList : List Nat} {systems : List Nat} {as : Nat}
  {route : RibTuple}

theorem mem_fromAs :
    route ∈ fromAs best as ↔ route ∈ best ∧ route.asPath.head? = some as := by
  rw [fromAs, List.mem_filter, decide_eq_true_iff]
  rfl

/-- Each system stands in the list as often as routes came through it. -/
def Counts (best : List RibTuple) (asList : List Nat) : Prop :=
  ∀ as, asList.count as = (fromAs best as).length

theorem medGroup_isSome_iff (counts : Counts best asList) (as : Nat) :
    (medGroup best asList as).isSome ↔ MedsComparable (fromAs best as) := by
  rw [medGroup, counts as]
  split
  · rename_i several
    rw [lowestMed_isSome_iff]
    apply and_iff_right
    rintro isEmpty
    rw [isEmpty] at several
    cases several
  · rename_i single
    simp only [Option.isSome_some, true_iff]
    intro route member other isOther
    rw [eq_of_length_le_one (Nat.le_of_not_lt single) member isOther]
    rfl

theorem mem_medGroup (counts : Counts best asList) {group : List RibTuple}
    (found : medGroup best asList as = some group) (route : RibTuple) :
    route ∈ group ↔ route ∈ fromAs best as ∧
      ∀ other ∈ fromAs best as, medLess other.med route.med = false := by
  rw [medGroup, counts as] at found
  split at found
  · exact mem_lowestMed found route
  · rename_i single
    cases found
    rw [iff_self_and]
    intro member other isOther
    rw [eq_of_length_le_one (Nat.le_of_not_lt single) member isOther]
    exact medLess_irrefl _

/-- The copies of the first system of a sorted list stand at its start. -/
theorem sorted_split (sorted : systems.Pairwise (· ≤ ·)) (least : ∀ other ∈ systems, as ≤ other) :
    ∃ later, systems = List.replicate (systems.count as) as ++ later ∧ as ∉ later := by
  induction systems with
  | nil => exact ⟨[], rfl, List.not_mem_nil⟩
  | cons first rest ih =>
    rw [List.pairwise_cons] at sorted
    by_cases isFirst : first = as
    · subst isFirst
      rcases ih sorted.2 sorted.1 with ⟨later, split, absent⟩
      refine ⟨later, ?_, absent⟩
      rw [List.count_cons_self, List.replicate_succ, List.cons_append, ← split]
    · have absent : as ∉ first :: rest := by
        intro member
        rcases List.mem_cons.mp member with same | inRest
        · exact isFirst same.symm
        · have small := sorted.1 as inRest
          have large := least first List.mem_cons_self
          exact isFirst (Nat.le_antisymm small large)
      exact ⟨first :: rest, by rw [List.count_eq_zero.mpr absent]; rfl, absent⟩

theorem medLoop_skip (as : Nat) (count : Nat) (later : List Nat) :
    medLoop best asList (List.replicate count as ++ later) count =
      medLoop best asList later 0 := by
  induction count with
  | zero => rfl
  | succ count ih =>
    rw [List.replicate_succ, List.cons_append, medLoop]
    exact ih

/-- The loop takes every system of a sorted list once. -/
theorem medLoop_cons (sorted : (as :: systems).Pairwise (· ≤ ·))
    (counted : asList.count as = (as :: systems).count as) :
    ∃ later, as :: systems = List.replicate (asList.count as) as ++ later ∧ as ∉ later ∧
      medLoop best asList (as :: systems) 0 =
        (medGroup best asList as).bind fun group =>
          (medLoop best asList later 0).map fun rest => group ++ rest := by
  rw [List.pairwise_cons] at sorted
  rcases sorted_split sorted.2 sorted.1 with ⟨later, split, absent⟩
  have isCount : asList.count as = systems.count as + 1 := by
    rw [counted, List.count_cons_self]
  refine ⟨later, ?_, absent, ?_⟩
  · rw [isCount, List.replicate_succ, List.cons_append, ← split]
  · rw [medLoop, isCount, Nat.add_sub_cancel]
    have skipped := @medLoop_skip best asList as (systems.count as) later
    rw [← split] at skipped
    rw [skipped]

/-- Behind the copies of the first system the loop goes on with a sorted list of the
others. -/
theorem medLoop_split (sorted : (as :: systems).Pairwise (· ≤ ·))
    (counted : ∀ other ∈ as :: systems, asList.count other = (as :: systems).count other) :
    ∃ later, later.length < (as :: systems).length ∧ later.Pairwise (· ≤ ·) ∧
      (∀ other ∈ later, asList.count other = later.count other) ∧ as ∉ later ∧
      (∀ other, other ∈ as :: systems ↔ other = as ∨ other ∈ later) ∧
      medLoop best asList (as :: systems) 0 =
        (medGroup best asList as).bind fun group =>
          (medLoop best asList later 0).map fun rest => group ++ rest := by
  rcases @medLoop_cons best asList systems as sorted (counted as List.mem_cons_self) with
    ⟨later, split, absent, unfolds⟩
  have sublist : later.Sublist (as :: systems) := by
    rw [split]
    exact List.sublist_append_right _ _
  refine ⟨later, ?_, sorted.sublist sublist, ?_, absent, ?_, unfolds⟩
  · rw [split, List.length_append, List.length_replicate, counted as List.mem_cons_self,
      List.count_cons_self]
    omega
  · intro other isLater
    have different : as ≠ other := fun same => absent (same ▸ isLater)
    rw [counted other (sublist.subset isLater), split, List.count_append,
      List.count_replicate, if_neg (by simpa using different), Nat.zero_add]
  · intro other
    constructor
    · intro member
      rw [split] at member
      rcases List.mem_append.mp member with copy | isLater
      · exact Or.inl (List.eq_of_mem_replicate copy)
      · exact Or.inr isLater
    · rintro (rfl | isLater)
      · exact List.mem_cons_self
      · exact sublist.subset isLater

theorem medLoop_spec (sorted : systems.Pairwise (· ≤ ·))
    (counted : ∀ as ∈ systems, asList.count as = systems.count as) :
    ((medLoop best asList systems 0).isSome ↔
        ∀ as ∈ systems, (medGroup best asList as).isSome) ∧
      ∀ kept, medLoop best asList systems 0 = some kept → ∀ route, route ∈ kept ↔
        ∃ as ∈ systems, ∃ group, medGroup best asList as = some group ∧ route ∈ group := by
  induction length : systems.length using Nat.strong_induction_on generalizing systems with
  | _ bound ih =>
    cases systems with
    | nil => simp [medLoop]
    | cons as rest =>
      rcases @medLoop_split best asList rest as sorted counted with
        ⟨later, shorter, sortedLater, countedLater, -, members, unfolds⟩
      rcases ih later.length (length ▸ shorter) sortedLater countedLater rfl with
        ⟨defined, kept⟩
      rw [unfolds]
      constructor
      · simp only [members, forall_eq_or_imp, ← defined]
        cases medGroup best asList as <;> simp
      · intro all isAll route
        rcases bind_map_eq_some_iff.mp isAll with ⟨group, laterKept, isGroup, isLater, rfl⟩
        simp only [List.mem_append, kept laterKept isLater route, members,
          exists_eq_or_imp, isGroup, Option.some.injEq, exists_eq_left']

theorem advertisedAsList_isSome_iff (routes : List RibTuple) :
    (advertisedAsList routes).isSome ↔ ∀ route ∈ routes, route.asPath ≠ [] := by
  induction routes with
  | nil => simp [advertisedAsList]
  | cons route rest ih =>
    rw [List.forall_mem_cons, ← ih, advertisedAsList, getAdvertisedAs]
    cases route.asPath <;> simp

theorem head_of_collected (member : route ∈ routes)
    (collected : advertisedAsList routes = some systems) :
    ∃ as, route.asPath.head? = some as := by
  have hasAs := (advertisedAsList_isSome_iff routes).mp (by rw [collected]; rfl) route member
  rcases List.exists_cons_of_ne_nil hasAs with ⟨as, path, isPath⟩
  exact ⟨as, by rw [isPath]; rfl⟩

theorem advertisedAsList_count (collected : advertisedAsList routes = some systems) (as : Nat) :
    systems.count as = (fromAs routes as).length := by
  induction routes generalizing systems with
  | nil =>
    cases collected
    rfl
  | cons route rest ih =>
    rcases bind_map_eq_some_iff.mp collected with ⟨first, others, isFirst, isOthers, rfl⟩
    rw [List.count_cons, ih isOthers, fromAs, fromAs, List.filter_cons, isFirst]
    by_cases same : first = as <;> simp [same]

theorem Counts.mem (counts : Counts best asList) (isFrom : route ∈ fromAs best as) :
    as ∈ asList := by
  rw [← List.count_pos_iff, counts as]
  exact List.length_pos_of_mem isFrom

theorem sorted_counts (collected : advertisedAsList best = some systems) :
    Counts best (systems.insertionSort (· ≤ ·)) := by
  intro as
  rw [(List.perm_insertionSort (· ≤ ·) systems).count_eq]
  exact advertisedAsList_count collected as

/-- The whole loop, over all systems that routes came through. -/
theorem sortedLoop_spec (systems : List Nat) :
    let asList := systems.insertionSort (· ≤ ·)
    ((medLoop best asList asList 0).isSome ↔
        ∀ as ∈ asList, (medGroup best asList as).isSome) ∧
      ∀ kept, medLoop best asList asList 0 = some kept → ∀ route, route ∈ kept ↔
        ∃ as ∈ asList, ∃ group, medGroup best asList as = some group ∧ route ∈ group :=
  medLoop_spec (List.pairwise_insertionSort (· ≤ ·) systems) fun _ _ => rfl

end Systems

/-! ## What is selected -/

/-- Two routes whose discriminators are compared: their paths are equally long and
start with the same system. -/
def Compared (route other : RibTuple) : Prop :=
  aspathLength route.asPath = aspathLength other.asPath ∧
    route.asPath ≠ [] ∧ route.asPath.head? = other.asPath.head?

instance (route other : RibTuple) : Decidable (Compared route other) :=
  inferInstanceAs (Decidable (_ ∧ _))

theorem Compared.symm {route other : RibTuple} (compared : Compared route other) :
    Compared other route := by
  rcases compared with ⟨length, advertised, sameAs⟩
  refine ⟨length.symm, ?_, sameAs.symm⟩
  rw [← List.isSome_head?, ← sameAs, List.isSome_head?]
  exact advertised

/-- A route that is preferred to another one: its path is shorter, or its
discriminator is compared and lower. -/
def Beats (route other : RibTuple) : Prop :=
  aspathLength route.asPath < aspathLength other.asPath ∨
    Compared route other ∧ medLess route.med other.med = true

instance (route other : RibTuple) : Decidable (Beats route other) :=
  inferInstanceAs (Decidable (_ ∨ _))

/-- A route to which no other one is preferred. -/
structure Selects (routes : List RibTuple) (route : RibTuple) : Prop where
  member : route ∈ routes
  unbeaten : ∀ other ∈ routes, ¬ Beats other route

theorem selects_def {route : RibTuple} :
    Selects routes route ↔ route ∈ routes ∧ ∀ other ∈ routes, ¬ Beats other route :=
  ⟨fun selects => ⟨selects.member, selects.unbeaten⟩, fun both => ⟨both.1, both.2⟩⟩

theorem Selects.isShortest {route : RibTuple} (selects : Selects routes route) :
    route ∈ shortest routes := by
  rw [mem_shortest]
  refine ⟨selects.member, ?_⟩
  intro other isOther
  exact Nat.le_of_not_lt fun less => selects.unbeaten other isOther (Or.inl less)

/-- Among the shortest paths only the discriminators count. -/
theorem selects_iff {route : RibTuple} (isShortest : route ∈ shortest routes) :
    Selects routes route ↔ ∀ other ∈ shortest routes,
      Compared other route → medLess other.med route.med = false := by
  have least := mem_shortest.mp isShortest
  constructor
  · intro selects other isOther compared
    rw [← Bool.not_eq_true]
    intro less
    exact selects.unbeaten other (mem_shortest.mp isOther).1 (Or.inr ⟨compared, less⟩)
  · intro notLess
    refine ⟨least.1, ?_⟩
    rintro other isOther (shorter | ⟨compared, less⟩)
    · exact absurd (least.2 other isOther) (Nat.not_le_of_lt shorter)
    · have otherShortest : other ∈ shortest routes := by
        rw [mem_shortest]
        refine ⟨isOther, ?_⟩
        rw [compared.1]
        exact least.2
      rw [notLess other otherShortest compared] at less
      cases less

theorem mem_bestPathSelection {tie : Bool} (found : bestPathSelection routes = some (kept, tie))
    (route : RibTuple) :
    route ∈ kept ↔ Selects routes route := by
  simp only [bestPathSelection, shortestLoop_init] at found
  split at found
  · rename_i single
    cases found
    constructor
    · intro member
      rw [selects_iff member]
      intro other isOther _
      rw [eq_of_length_le_one (Nat.le_of_eq single) member isOther]
      exact medLess_irrefl _
    · exact Selects.isShortest
  · rcases bind_map_eq_some_iff.mp found with ⟨systems, all, collected, looped, result⟩
    cases result
    have counts := sorted_counts collected
    have loopDefined := (sortedLoop_spec systems).1.mp (by rw [looped]; rfl)
    rw [(sortedLoop_spec systems).2 _ looped route]
    constructor
    · rintro ⟨as, -, group, isGroup, member⟩
      rcases (mem_medGroup counts isGroup route).mp member with ⟨isFrom, notLess⟩
      rcases mem_fromAs.mp isFrom with ⟨isShortest, isAs⟩
      rw [selects_iff isShortest]
      intro other isOther compared
      exact notLess other (mem_fromAs.mpr ⟨isOther, compared.2.2.trans isAs⟩)
    · intro selects
      have isShortest := selects.isShortest
      rcases head_of_collected isShortest collected with ⟨as, isAs⟩
      have isFrom : route ∈ fromAs (shortest routes) as := mem_fromAs.mpr ⟨isShortest, isAs⟩
      have inList := counts.mem isFrom
      rcases Option.isSome_iff_exists.mp (loopDefined as inList) with ⟨group, isGroup⟩
      refine ⟨as, inList, group, isGroup, ?_⟩
      rw [mem_medGroup counts isGroup]
      refine ⟨isFrom, ?_⟩
      intro other isOther
      rcases mem_fromAs.mp isOther with ⟨otherShortest, otherAs⟩
      have otherLeast := mem_shortest.mp otherShortest
      have least := mem_shortest.mp isShortest
      have advertised : other.asPath ≠ [] := by
        rw [← List.isSome_head?, otherAs]
        rfl
      exact (selects_iff isShortest).mp selects other otherShortest
        ⟨Nat.le_antisymm (otherLeast.2 route least.1) (least.2 other otherLeast.1), advertised,
          otherAs.trans isAs.symm⟩

/-- The selection returns where its comparisons are defined. -/
theorem bestPathSelection_isSome (routes : List RibTuple) :
    (bestPathSelection routes).isSome ↔ (shortest routes).length = 1 ∨
      (∀ route ∈ shortest routes, route.asPath ≠ []) ∧
        ∀ as, MedsComparable (fromAs (shortest routes) as) := by
  simp only [bestPathSelection, shortestLoop_init]
  split
  · rename_i single
    exact iff_of_true rfl (Or.inl single)
  · rename_i several
    rw [or_iff_right several, ← advertisedAsList_isSome_iff]
    cases collected : advertisedAsList (shortest routes) with
    | none => simp
    | some systems =>
      have counts := sorted_counts collected
      rw [Option.bind_some, Option.isSome_map, (sortedLoop_spec systems).1,
        and_iff_right (show (some systems).isSome from rfl)]
      constructor
      · intro defined as route member
        exact (medGroup_isSome_iff counts as).mp (defined as (counts.mem member)) route member
      · intro comparable as _
        exact (medGroup_isSome_iff counts as).mpr (comparable as)

/-- No two of the shortest routes raise an exception when they are compared. -/
def Comparable (routes : List RibTuple) : Prop :=
  ∀ route ∈ shortest routes, ∀ other ∈ shortest routes, route ≠ other →
    route.asPath ≠ [] ∧
      (route.asPath.head? = other.asPath.head? → medComparable route.med other.med)

theorem exists_other (nodup : routes.Nodup) (several : routes.length ≠ 1) {route : RibTuple}
    (member : route ∈ routes) : ∃ other ∈ routes, route ≠ other := by
  by_contra none
  push Not at none
  have copies := List.eq_replicate_of_mem fun other isOther => (none other isOther).symm
  rw [copies, List.nodup_replicate] at nodup
  have positive := List.length_pos_of_mem member
  exact several (Nat.le_antisymm nodup positive)

/-- The process selects routes exactly where their comparisons are defined. -/
theorem bestPathSelection_isSome_iff (nodup : routes.Nodup) :
    (bestPathSelection routes).isSome ↔ Comparable routes := by
  have shortestNodup : (shortest routes).Nodup := nodup.filter _
  rw [bestPathSelection_isSome]
  constructor
  · rintro (single | ⟨advertised, meds⟩) route member other isOther different
    · exact absurd (eq_of_length_le_one (Nat.le_of_eq single) isOther member) different
    · refine ⟨advertised route member, ?_⟩
      intro sameAs
      have hasHead := List.isSome_head?.mpr (advertised route member)
      rcases Option.isSome_iff_exists.mp hasHead with ⟨as, isAs⟩
      exact meds as route (mem_fromAs.mpr ⟨member, isAs⟩) other
        (mem_fromAs.mpr ⟨isOther, sameAs.symm.trans isAs⟩)
  · intro comparable
    by_cases single : (shortest routes).length = 1
    · exact Or.inl single
    · refine Or.inr ⟨?_, ?_⟩
      · intro route member
        rcases exists_other shortestNodup single member with ⟨other, isOther, different⟩
        exact (comparable route member other isOther different).1
      · intro as route member other isOther
        rcases mem_fromAs.mp member with ⟨isShortest, isAs⟩
        rcases mem_fromAs.mp isOther with ⟨otherShortest, otherAs⟩
        by_cases same : route = other
        · rw [same]
          rfl
        · exact (comparable route isShortest other otherShortest same).2
            (isAs.trans otherAs.symm)

/-! ## Two routes -/

/-- Two routes between which neither the paths nor the discriminators decide. -/
structure Ties (route other : RibTuple) : Prop where
  length : aspathLength route.asPath = aspathLength other.asPath
  advertised : route.asPath ≠ []
  med : route.asPath.head? = other.asPath.head? → route.med = other.med

theorem shortest_pair (route other : RibTuple) :
    shortest [route, other] =
      if aspathLength route.asPath < aspathLength other.asPath then [route]
      else if aspathLength other.asPath < aspathLength route.asPath then [other]
      else [route, other] := by
  simp only [shortest, List.filter_cons, List.forall_mem_cons, List.not_mem_nil, false_imp_iff,
    implies_true, and_true, Nat.le_refl, true_and, List.filter_nil, decide_eq_true_eq]
  split_ifs <;> first | rfl | omega

section Pair

variable {route other : RibTuple} {x y : Nat}

/-- Through one system the discriminators decide. -/
theorem medLoop_pair_same (first : route.asPath.head? = some x)
    (second : other.asPath.head? = some x) :
    medLoop [route, other] [x, x] [x, x] 0 = lowestMed [route, other] := by
  simp [medLoop, medGroup, fromAs, getAdvertisedAs, first, second]

/-- Routes through two systems are both kept. -/
theorem medLoop_pair_different (first : route.asPath.head? = some x)
    (second : other.asPath.head? = some y) (different : x ≠ y) :
    medLoop [route, other] [x, y] [x, y] 0 = some [route, other] ∧
      medLoop [route, other] [y, x] [y, x] 0 = some [other, route] := by
  simp [medLoop, medGroup, fromAs, getAdvertisedAs, first, second, different, different.symm]

theorem lowestMed_pair (found : lowestMed [route, other] = some kept) :
    medLess route.med other.med = true ∧ kept = [route] ∨
      medLess other.med route.med = true ∧ kept = [other] ∨
      route.med = other.med ∧ kept = [route, other] := by
  rcases Option.map_eq_some_iff.mp found with ⟨lowest, isLowest, rfl⟩
  rcases Option.bind_eq_some_iff.mp isLowest with ⟨larger, compared, isMed⟩
  cases isMed
  cases first : route.med with
  | none =>
    cases second : other.med with
    | none => simp_all [medGt, medLess]
    | some y => simp [first, second, medGt] at compared
  | some x =>
    cases second : other.med with
    | none => simp [first, second, medGt] at compared
    | some y =>
      simp only [first, second, medGt, Option.some.injEq] at compared
      subst compared
      rcases Nat.lt_trichotomy x y with less | rfl | more
      · simp [first, second, medLess, less, less.ne', less.le]
      · simp [first, second]
      · simp [first, second, medLess, more, more.ne']

end Pair

/-- The selection from two routes. -/
theorem bestPathSelection_pair {route other : RibTuple} {tie : Bool}
    (found : bestPathSelection [route, other] = some (kept, tie)) :
    Beats route other ∧ kept = [route] ∧ tie = false ∨
      Beats other route ∧ kept = [other] ∧ tie = false ∨
      Ties route other ∧ tie = true ∧
        kept = if route.asPath.headD 0 ≤ other.asPath.headD 0 then [route, other]
          else [other, route] := by
  simp only [bestPathSelection, shortestLoop_init, shortest_pair] at found
  by_cases shorter : aspathLength route.asPath < aspathLength other.asPath
  · rw [if_pos shorter] at found
    cases found
    exact Or.inl ⟨Or.inl shorter, rfl, rfl⟩
  by_cases longer : aspathLength other.asPath < aspathLength route.asPath
  · rw [if_neg shorter, if_pos longer] at found
    cases found
    exact Or.inr (Or.inl ⟨Or.inl longer, rfl, rfl⟩)
  have sameLength := Nat.le_antisymm (Nat.le_of_not_lt longer) (Nat.le_of_not_lt shorter)
  rw [if_neg shorter, if_neg longer, if_neg (by simp)] at found
  rcases bind_map_eq_some_iff.mp found with ⟨systems, all, collected, looped, result⟩
  cases result
  rcases head_of_collected (show route ∈ [route, other] by simp) collected with ⟨x, first⟩
  rcases head_of_collected (show other ∈ [route, other] by simp) collected with ⟨y, second⟩
  have isSystems : systems = [x, y] := by
    simp only [advertisedAsList, getAdvertisedAs, first, second] at collected
    cases collected
    rfl
  have advertised : route.asPath ≠ [] := by
    intro isNil
    rw [isNil] at first
    cases first
  rw [isSystems] at looped
  by_cases same : x = y
  · subst same
    have sameAs := first.trans second.symm
    have compared : Compared route other := ⟨sameLength, advertised, sameAs⟩
    rw [show [x, x].insertionSort (· ≤ ·) = [x, x] by simp,
      medLoop_pair_same first second] at looped
    rcases lowestMed_pair looped with ⟨less, rfl⟩ | ⟨less, rfl⟩ | ⟨sameMed, rfl⟩
    · exact Or.inl ⟨Or.inr ⟨compared, less⟩, rfl, rfl⟩
    · exact Or.inr (Or.inl ⟨Or.inr ⟨compared.symm, less⟩, rfl, rfl⟩)
    · refine Or.inr (Or.inr ⟨⟨sameLength, advertised, fun _ => sameMed⟩, rfl, ?_⟩)
      rw [List.headD_eq_head?_getD, List.headD_eq_head?_getD, sameAs, if_pos (Nat.le_refl _)]
  · have ties : Ties route other := by
      refine ⟨sameLength, advertised, ?_⟩
      intro sameAs
      rw [first, second] at sameAs
      exact absurd (Option.some.inj sameAs) same
    have both := medLoop_pair_different first second same
    refine Or.inr (Or.inr ⟨ties, ?_⟩)
    rw [List.headD_eq_head?_getD, List.headD_eq_head?_getD, first, second]
    by_cases less : x ≤ y
    · rw [show [x, y].insertionSort (· ≤ ·) = [x, y] by simp [less], both.1] at looped
      cases looped
      simp [less]
    · rw [show [x, y].insertionSort (· ≤ ·) = [y, x] by simp [less], both.2] at looped
      cases looped
      simp [less]

end Horse.Bgp
