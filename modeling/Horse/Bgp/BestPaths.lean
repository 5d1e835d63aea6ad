import Horse.Bgp.DecisionProcess
import Mathlib.Data.List.MinMax

/-!
# The routes that a selection keeps

`best_path_selection` walks over a sorted list of systems with a stride of its own.  Here
its result is compared with what it is for: the shortest routes whose discriminator is
lowest among those through the same system, each as often as it was given, whatever the
order of the routes.
-/

namespace Horse.Bgp

open Horse.Transition

/-! ## The specified routes -/

/-- One discriminator is at most another one; two missing ones are equal. -/
def medLe : Option Nat → Option Nat → Bool
  | some x, some y => decide (x ≤ y)
  | none, none => true
  | _, _ => false

/-- No path is shorter, and no discriminator lower among the shortest routes through the
same system. -/
def Survives (routes : List RibTuple) (route : RibTuple) : Prop :=
  (∀ other ∈ routes, aspathLength route.asPath ≤ aspathLength other.asPath) ∧
    ∀ other ∈ shortest routes, other.asPath.head? = route.asPath.head? →
      medLe route.med other.med = true

instance (routes : List RibTuple) (route : RibTuple) : Decidable (Survives routes route) :=
  inferInstanceAs (Decidable (_ ∧ _))

/-- The routes that should be kept. -/
def survivors (routes : List RibTuple) : List RibTuple :=
  routes.filter fun route => decide (Survives routes route)

theorem medLe_refl (med : Option Nat) : medLe med med = true := by
  cases med <;> simp [medLe]

theorem medLe_eq_not_medLess {x y : Option Nat} (comparable : medComparable x y) :
    medLe x y = !medLess y x := by
  cases x <;> cases y <;> simp_all [medLe, medLess, medComparable, ← decide_not]

/-- The survivors are found among the shortest routes. -/
theorem survivors_eq (routes : List RibTuple) :
    survivors routes = (shortest routes).filter fun route => decide (∀ other ∈ shortest routes,
      other.asPath.head? = route.asPath.head? → medLe route.med other.med = true) := by
  refine Eq.trans (List.filter_congr fun route _ => ?_) List.filter_filter.symm
  rw [← Bool.decide_and, decide_eq_decide, and_comm]
  rfl

/-! ## One system -/

section OneSystem

variable {routes best kept : List RibTuple} {asList : List Nat} {as : Nat}

/-- The routes with the lowest discriminator, in their order. -/
theorem lowestMed_eq (found : lowestMed routes = some kept) :
    kept = routes.filter fun route => decide (∀ other ∈ routes,
      medLe route.med other.med = true) := by
  have comparable := ((lowestMed_isSome_iff routes).mp (by rw [found]; rfl)).2
  have members := mem_lowestMed found
  cases routes with
  | nil => cases found
  | cons first rest =>
    obtain ⟨lowest, -, rfl⟩ := Option.map_eq_some_iff.mp found
    apply List.filter_congr
    intro route member
    have isKept := members route
    rw [List.mem_filter, and_iff_right member, and_iff_right member] at isKept
    rw [Bool.eq_iff_iff, isKept, decide_eq_true_iff]
    refine forall₂_congr fun other isOther => ?_
    rw [medLe_eq_not_medLess (comparable route member other isOther), Bool.not_eq_true']

theorem lowestMed_ne_nil (found : lowestMed routes = some kept) : kept ≠ [] := by
  cases routes with
  | nil => cases found
  | cons first rest =>
    obtain ⟨lowest, isLowest, rfl⟩ := Option.map_eq_some_iff.mp found
    rcases (lowestMedLoop_lowest isLowest).1 with rfl | ⟨route, isRoute, rfl⟩
    · exact List.ne_nil_of_mem (List.mem_filter.mpr ⟨List.mem_cons_self, by simp⟩)
    · exact List.ne_nil_of_mem
        (List.mem_filter.mpr ⟨List.mem_cons_of_mem _ isRoute, by simp⟩)

theorem medGroup_eq (counts : Counts best asList) (found : medGroup best asList as = some kept) :
    kept = best.filter fun route => decide (route.asPath.head? = some as ∧
      ∀ other ∈ best, other.asPath.head? = route.asPath.head? →
        medLe route.med other.med = true) := by
  have isGroup : kept = (fromAs best as).filter fun route => decide (∀ other ∈ fromAs best as,
      medLe route.med other.med = true) := by
    rw [medGroup, counts as] at found
    split at found
    · exact lowestMed_eq found
    · rename_i single
      cases found
      refine (List.filter_eq_self.mpr fun route member =>
        decide_eq_true fun other isOther => ?_).symm
      rw [eq_of_length_le_one (Nat.le_of_not_lt single) member isOther]
      exact medLe_refl _
  rw [isGroup, fromAs, List.filter_filter]
  apply List.filter_congr
  intro route _
  rw [← Bool.decide_and, decide_eq_decide, and_comm]
  refine and_congr_right fun isAs => forall_congr' fun other => ?_
  rw [getAdvertisedAs] at isAs
  rw [List.mem_filter, decide_eq_true_iff, getAdvertisedAs, isAs, and_imp]

theorem medGroup_ne_nil (counts : Counts best asList) (listed : as ∈ asList)
    (found : medGroup best asList as = some kept) : kept ≠ [] := by
  rw [medGroup] at found
  split at found
  · exact lowestMed_ne_nil found
  · cases found
    rw [← List.length_pos_iff, ← counts as]
    exact List.count_pos_iff.mpr listed

end OneSystem

/-! ## All systems -/

/-- Filters that no element passes both, one after the other. -/
theorem filter_append_filter_perm {α : Type*} (p q : α → Bool) (apart : ∀ a, p a → ¬ q a)
    (list : List α) : (list.filter p ++ list.filter q).Perm (list.filter fun a => p a || q a) := by
  have parts := List.filter_append_perm p (list.filter fun a => p a || q a)
  rw [List.filter_filter, List.filter_filter] at parts
  have first : (list.filter fun a => p a && (p a || q a)) = list.filter p := by
    apply List.filter_congr
    intro a _
    cases p a <;> simp
  have second : (list.filter fun a => !p a && (p a || q a)) = list.filter q := by
    apply List.filter_congr
    intro a _
    have notBoth := apart a
    cases isP : p a <;> cases isQ : q a <;> simp_all
  rwa [first, second] at parts

section AllSystems

variable {best kept : List RibTuple} {asList : List Nat} {systems : List Nat}

/-- The loop keeps the routes with the lowest discriminators through the systems of a
sorted list. -/
theorem medLoop_perm (counts : Counts best asList) (sorted : systems.Pairwise (· ≤ ·))
    (counted : ∀ as ∈ systems, asList.count as = systems.count as)
    (looped : medLoop best asList systems 0 = some kept) :
    kept.Perm (best.filter fun route => decide ((∃ as ∈ systems, route.asPath.head? = some as) ∧
      ∀ other ∈ best, other.asPath.head? = route.asPath.head? →
        medLe route.med other.med = true)) := by
  induction length : systems.length using Nat.strong_induction_on generalizing systems kept with
  | _ bound ih =>
    cases systems with
    | nil =>
      cases looped
      simp
    | cons as rest =>
      obtain ⟨later, shorter, sortedLater, countedLater, absent, members, unfolds⟩ :=
        @medLoop_split best asList rest as sorted counted
      rw [unfolds] at looped
      obtain ⟨group, others, isGroup, isOthers, rfl⟩ := bind_map_eq_some_iff.mp looped
      have ofLater := ih later.length (length ▸ shorter) sortedLater countedLater isOthers rfl
      rw [medGroup_eq counts isGroup]
      refine (ofLater.append_left _).trans ((filter_append_filter_perm _ _ ?_ best).trans ?_)
      · intro route isAs isLater
        obtain ⟨⟨other, otherLater, isOther⟩, -⟩ := of_decide_eq_true isLater
        cases (of_decide_eq_true isAs).1.symm.trans isOther
        exact absent otherLater
      · apply List.Perm.of_eq
        apply List.filter_congr
        intro route _
        simp only [members, exists_eq_or_imp, ← Bool.decide_or, ← or_and_right]

/-- The loop over all systems keeps the routes with the lowest discriminators. -/
theorem sortedLoop_perm (collected : advertisedAsList best = some systems)
    (looped : medLoop best (systems.insertionSort (· ≤ ·)) (systems.insertionSort (· ≤ ·)) 0 =
      some kept) :
    kept.Perm (best.filter fun route => decide (∀ other ∈ best,
      other.asPath.head? = route.asPath.head? → medLe route.med other.med = true)) := by
  have counts := sorted_counts collected
  refine (medLoop_perm counts (List.pairwise_insertionSort (· ≤ ·) systems) (fun _ _ => rfl)
    looped).trans (List.Perm.of_eq (List.filter_congr fun route member => ?_))
  obtain ⟨as, isAs⟩ := head_of_collected member collected
  have listed := counts.mem (mem_fromAs.mpr ⟨member, isAs⟩)
  rw [decide_eq_decide, and_iff_right ⟨as, listed, isAs⟩]

theorem medLoop_ne_nil (counts : Counts best asList) (listed : asList ≠ [])
    (looped : medLoop best asList asList 0 = some kept) : kept ≠ [] := by
  obtain ⟨as, rest, isList⟩ := List.exists_cons_of_ne_nil listed
  have inList : as ∈ asList := by
    rw [isList]
    exact List.mem_cons_self
  nth_rewrite 2 [isList] at looped
  rw [medLoop] at looped
  obtain ⟨group, others, isGroup, -, rfl⟩ := bind_map_eq_some_iff.mp looped
  exact List.append_ne_nil_of_left_ne_nil (medGroup_ne_nil counts inList isGroup) _

end AllSystems

/-! ## The selection -/

section Selection

variable {routes kept : List RibTuple} {tie : Bool}

/-- Some route has a shortest path. -/
theorem shortest_ne_nil (nonempty : routes ≠ []) : shortest routes ≠ [] := by
  obtain ⟨route, isMin⟩ := Option.ne_none_iff_exists'.mp
    (mt (List.argmin_eq_none (f := fun route => aspathLength route.asPath)).mp nonempty)
  have least := fun other isOther => List.le_of_mem_argmin (a := other) isOther isMin
  exact List.ne_nil_of_mem (mem_shortest.mpr ⟨List.argmin_mem isMin, least⟩)

theorem bestPathSelection_perm (found : bestPathSelection routes = some (kept, tie)) :
    kept.Perm (survivors routes) := by
  rw [survivors_eq]
  simp only [bestPathSelection, shortestLoop_init] at found
  split at found
  · rename_i single
    cases found
    apply List.Perm.of_eq
    refine (List.filter_eq_self.mpr fun route member => decide_eq_true ?_).symm
    intro other isOther _
    rw [eq_of_length_le_one (Nat.le_of_eq single) member isOther]
    exact medLe_refl _
  · obtain ⟨systems, all, collected, looped, result⟩ := bind_map_eq_some_iff.mp found
    cases result
    exact sortedLoop_perm collected looped

theorem bestPathSelection_tie (nonempty : routes ≠ [])
    (found : bestPathSelection routes = some (kept, tie)) : tie = true ↔ 1 < kept.length := by
  simp only [bestPathSelection, shortestLoop_init] at found
  split at found
  · rename_i single
    cases found
    simp [single]
  · obtain ⟨systems, all, collected, looped, result⟩ := bind_map_eq_some_iff.mp found
    cases result
    have listed : systems.insertionSort (· ≤ ·) ≠ [] := by
      obtain ⟨route, member⟩ := List.exists_mem_of_ne_nil _ (shortest_ne_nil nonempty)
      obtain ⟨as, isAs⟩ := head_of_collected member collected
      exact List.ne_nil_of_mem ((sorted_counts collected).mem (mem_fromAs.mpr ⟨member, isAs⟩))
    have positive := List.length_pos_iff.mpr
      (medLoop_ne_nil (sorted_counts collected) listed looped)
    rw [decide_eq_true_iff]
    omega

variable {others : List RibTuple}

theorem shortest_perm (perm : routes.Perm others) :
    (shortest routes).Perm (shortest others) := by
  have same : shortest others = others.filter fun route => decide (∀ other ∈ routes,
      aspathLength route.asPath ≤ aspathLength other.asPath) := by
    simp only [shortest, perm.mem_iff]
  rw [same]
  exact perm.filter _

theorem survivors_perm (perm : routes.Perm others) :
    (survivors routes).Perm (survivors others) := by
  have same : survivors others = others.filter fun route => decide (Survives routes route) := by
    refine List.filter_congr fun route _ => decide_eq_decide.mpr ?_
    simp only [Survives, perm.mem_iff, (shortest_perm perm).mem_iff]
  rw [same]
  exact perm.filter _

/-- The order of the routes does not matter for whether the selection returns. -/
theorem bestPathSelection_isSome_perm (perm : routes.Perm others) :
    (bestPathSelection routes).isSome ↔ (bestPathSelection others).isSome := by
  have shortestPerm := shortest_perm perm
  have sameFrom : ∀ as route, route ∈ fromAs (shortest routes) as ↔
      route ∈ fromAs (shortest others) as := by
    intro as route
    rw [mem_fromAs, mem_fromAs, shortestPerm.mem_iff]
  rw [bestPathSelection_isSome, bestPathSelection_isSome, shortestPerm.length_eq]
  simp only [MedsComparable, sameFrom, shortestPerm.mem_iff]

/-- Where the selection returns, it keeps each of the specified routes as often as it was
given; it reports a tie exactly if more than one is left; and on the same routes in another
order it keeps the same ones. -/
theorem bestPathSelection_exact (nonempty : routes ≠ [])
    (found : bestPathSelection routes = some (kept, tie)) :
    kept.Perm (survivors routes) ∧ (tie = true ↔ 1 < kept.length) ∧
      ∀ others, routes.Perm others →
        ∃ keptOthers, bestPathSelection others = some (keptOthers, tie) ∧
          keptOthers.Perm kept := by
  refine ⟨bestPathSelection_perm found, bestPathSelection_tie nonempty found, ?_⟩
  intro others perm
  have defined := (bestPathSelection_isSome_perm perm).mp (by rw [found]; rfl)
  obtain ⟨⟨keptOthers, tieOthers⟩, foundOthers⟩ := Option.isSome_iff_exists.mp defined
  have sameKept : keptOthers.Perm kept :=
    (bestPathSelection_perm foundOthers).trans
      ((survivors_perm perm).symm.trans (bestPathSelection_perm found).symm)
  have othersNonempty : others ≠ [] := fun isNil => nonempty (perm.trans (.of_eq isNil)).eq_nil
  have sameTie : tieOthers = tie := by
    rw [Bool.eq_iff_iff, bestPathSelection_tie othersNonempty foundOthers,
      bestPathSelection_tie nonempty found, sameKept.length_eq]
  exact ⟨keptOthers, sameTie ▸ foundOthers, sameKept⟩

end Selection

/-- A route of the neighbor `10.0.0.2` with a path and a discriminator. -/
def pathWithMed (asPath : List Nat) (med : Option Nat) : RibTuple where
  dest := ⟨0x82000000, 16⟩
  neighbor := 0x0A000002
  neighborAs := 2
  nextHop := 0x0A000002
  origin := some .igp
  asPath := asPath
  communities := []
  med := med
  atomicAggregate := none

/-- Two routes through one system, one through another system and without a discriminator,
and a longer one. -/
def fourRoutes : List RibTuple :=
  [pathWithMed [3, 9] none, pathWithMed [2, 9] (some 10), pathWithMed [2, 9] (some 5),
    pathWithMed [2, 7, 9] (some 0)]

theorem bestPathSelection_exact_fourRoutes :
    bestPathSelection fourRoutes =
        some ([pathWithMed [2, 9] (some 5), pathWithMed [3, 9] none], true) ∧
      [pathWithMed [2, 9] (some 5), pathWithMed [3, 9] none].Perm (survivors fourRoutes) := by
  have found : bestPathSelection fourRoutes =
      some ([pathWithMed [2, 9] (some 5), pathWithMed [3, 9] none], true) := by decide
  exact ⟨found, (bestPathSelection_exact (by decide) found).1⟩

end Horse.Bgp
