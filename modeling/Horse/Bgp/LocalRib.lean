import Horse.Bgp.Decisions

/-!
# The chosen routes and the decision process

A peer decides incrementally: it compares an announced route with the first chosen
one.  The decision process is meant to select from all routes of the neighbors.  The
two agree as long as every announced route fits to the tables before it, in the sense
of `KeepsAgreement`.
-/

namespace Horse.Bgp

open Horse.Transition

/-! ## Agreement -/

/-- The chosen routes of a prefix agree with the routes of the neighbors. -/
structure AgreesAt (inputs : List RibTuple) (chosen : Option (List RibTuple)) : Prop where
  entry : chosen.isSome ↔ inputs ≠ []
  stored : ∀ routes, chosen = some routes → ∀ route ∈ routes, route ∈ inputs
  selected : ∀ routes, chosen = some routes → ∃ best, routes.head? = some best ∧
    ∃ kept tie, bestPathSelection inputs = some (kept, tie) ∧ best ∈ kept

/-- The local table agrees with the decision process over the input table. -/
def LocalAgrees (peer : BgpPeer) : Prop :=
  ∀ dest, AgreesAt (peer.inputRib.getAll dest) (peer.localRib.get dest)

theorem agreesAt_none_iff {inputs : List RibTuple} : AgreesAt inputs none ↔ inputs = [] := by
  constructor
  · intro agrees
    by_contra nonempty
    exact Bool.false_ne_true (agrees.entry.mpr nonempty)
  · rintro rfl
    constructor
    · simp
    · rintro _ ⟨⟩
    · rintro _ ⟨⟩

variable {rest : List RibTuple} {x y : Option Nat} {message : RouteMessage} {peer after : BgpPeer}

/-- Agreement in terms of the preference between routes. -/
theorem agreesAt_some_iff {inputs : List RibTuple} (nodup : inputs.Nodup) {best : RibTuple} :
    AgreesAt inputs (some (best :: rest)) ↔
      (∀ route ∈ best :: rest, route ∈ inputs) ∧ Comparable inputs ∧ Selects inputs best := by
  constructor
  · intro agrees
    rcases agrees.selected _ rfl with ⟨_, ⟨rfl⟩, kept, tie, selection, member⟩
    have comparable := (bestPathSelection_isSome_iff nodup).mp (by rw [selection]; rfl)
    exact ⟨agrees.stored _ rfl, comparable, (mem_bestPathSelection selection best).mp member⟩
  · rintro ⟨stored, comparable, selects⟩
    have defined := (bestPathSelection_isSome_iff nodup).mpr comparable
    rcases Option.isSome_iff_exists.mp defined with ⟨⟨kept, tie⟩, selection⟩
    constructor
    · rw [Option.isSome_some, eq_self, true_iff]
      exact List.ne_nil_of_mem selects.member
    · rintro _ ⟨rfl⟩
      exact stored
    · rintro _ ⟨rfl⟩
      exact ⟨best, rfl, kept, tie, selection, (mem_bestPathSelection selection best).mpr selects⟩

/-- Only the members of the input list count. -/
theorem agreesAt_congr {inputs others : List RibTuple} (nodup : inputs.Nodup)
    (otherNodup : others.Nodup) (members : ∀ route, route ∈ inputs ↔ route ∈ others)
    {chosen : Option (List RibTuple)} (agrees : AgreesAt inputs chosen) :
    AgreesAt others chosen := by
  cases chosen with
  | none =>
    rw [agreesAt_none_iff] at agrees ⊢
    subst agrees
    apply List.eq_nil_iff_forall_not_mem.mpr
    intro route member
    exact List.not_mem_nil ((members route).mpr member)
  | some routes =>
    rcases agrees.selected routes rfl with ⟨best, isHead, -⟩
    rcases List.head?_eq_some_iff.mp isHead with ⟨rest, rfl⟩
    rw [agreesAt_some_iff nodup] at agrees
    rw [agreesAt_some_iff otherNodup]
    have sameShortest : ∀ route, route ∈ shortest inputs ↔ route ∈ shortest others := by
      intro route
      simp only [mem_shortest, members]
    simpa only [Comparable, selects_def, sameShortest, members] using agrees

/-! ## The condition -/

/-- Of the routes of one neighbor only the announced one is in a list. -/
def OwnOnly (route : RibTuple) (routes : List RibTuple) : Prop :=
  ∀ other ∈ routes, other.neighbor = route.neighbor → other = route

instance (route : RibTuple) (routes : List RibTuple) : Decidable (OwnOnly route routes) :=
  inferInstanceAs (Decidable (∀ _, _))

/-- A route of another neighbor whose discriminator is compared with that of a route. -/
structure Rival (inputs : List RibTuple) (route rival : RibTuple) : Prop where
  member : rival ∈ inputs
  neighbor : rival.neighbor ≠ route.neighbor
  compared : Compared rival route

/-- An announced route keeps the tables in agreement: a better one differs from the
first chosen route in more than the discriminator; no chosen route that stays is
replaced by it; and one that ties can be compared with all its rivals, none of which
is better if it is preferred. -/
def KeepsAgreement (conf : Conf) (inputs : List RibTuple) (chosen : Option (List RibTuple))
    (route : RibTuple) : Prop :=
  match chosen with
  | none | some [] => True
  | some (best :: rest) =>
    if Beats route best then bgpRoutesAreEqual route best = false
    else if Beats best route then OwnOnly route (best :: rest)
    else if Preferred route best then
      OwnOnly route (stay conf (best :: rest)) ∧ ∀ rival, Rival inputs route rival →
        medComparable rival.med route.med ∧ medLess rival.med route.med = false
    else
      OwnOnly route (best :: rest) ∧ ∀ rival, Rival inputs route rival →
        medComparable rival.med route.med

theorem keepsAgreement_of_preferred {conf : Conf} {inputs : List RibTuple} {route best : RibTuple}
    (notBetter : ¬ Beats route best) (notWorse : ¬ Beats best route)
    (preferred : Preferred route best) (own : OwnOnly route (stay conf (best :: rest)))
    (rivals : ∀ rival, Rival inputs route rival →
      medComparable rival.med route.med ∧ medLess rival.med route.med = false) :
    KeepsAgreement conf inputs (some (best :: rest)) route := by
  rw [KeepsAgreement, if_neg notBetter, if_neg notWorse, if_pos preferred]
  exact ⟨own, rivals⟩

/-! ## One prefix -/

/-- The routes of the neighbors after a route has been announced. -/
structure Announced (inputs later : List RibTuple) (route : RibTuple) : Prop where
  nodup : later.Nodup
  members : ∀ other, other ∈ later ↔
    other = route ∨ other ∈ inputs ∧ other.neighbor ≠ route.neighbor

theorem Beats.irrefl (route : RibTuple) : ¬ Beats route route := by
  rintro (shorter | ⟨-, less⟩)
  · exact Nat.lt_irrefl _ shorter
  · rw [medLess_irrefl] at less
    cases less

theorem medComparable_of_less (less : medLess x y = true) :
    medComparable x y := by
  cases x <;> cases y <;> simp_all [medLess, medComparable]

theorem medLess_trans {z : Option Nat} (first : medLess x y = true) (second : medLess y z = true) :
    medLess x z = true := by
  cases x <;> cases y <;> cases z <;> simp_all [medLess]
  omega

theorem Beats.asymm {route other : RibTuple} (beats : Beats route other) :
    ¬ Beats other route := by
  rintro (shorter | ⟨compared, less⟩)
  · rcases beats with otherShorter | ⟨otherCompared, -⟩
    · exact Nat.lt_asymm shorter otherShorter
    · exact Nat.ne_of_gt shorter otherCompared.1
  · rcases beats with otherShorter | ⟨-, otherLess⟩
    · exact Nat.ne_of_gt otherShorter compared.1
    · have both := medLess_trans less otherLess
      rw [medLess_irrefl] at both
      cases both

theorem Ties.not_beats {route other : RibTuple} (ties : Ties route other) :
    ¬ Beats route other ∧ ¬ Beats other route := by
  constructor
  · rintro (shorter | ⟨compared, less⟩)
    · exact Nat.ne_of_lt shorter ties.length
    · rw [ties.med compared.2.2, medLess_irrefl] at less
      cases less
  · rintro (shorter | ⟨compared, less⟩)
    · exact Nat.ne_of_gt shorter ties.length
    · rw [ties.med compared.2.2.symm, medLess_irrefl] at less
      cases less

section OnePrefix

variable {inputs later : List RibTuple} {route best : RibTuple} {other rival : RibTuple}

theorem Selects.le (selects : Selects inputs best) (member : other ∈ inputs) :
    aspathLength best.asPath ≤ aspathLength other.asPath :=
  (mem_shortest.mp selects.isShortest).2 other member

theorem Selects.mem_shortest_of_length (selects : Selects inputs best) (member : other ∈ inputs)
    (same : aspathLength other.asPath = aspathLength best.asPath) :
    other ∈ shortest inputs := by
  rw [mem_shortest, same]
  exact ⟨member, fun _ => selects.le⟩

theorem ne_nil_of_length (same : aspathLength other.asPath = aspathLength route.asPath)
    (advertised : route.asPath ≠ []) : other.asPath ≠ [] := by
  rw [← List.length_pos_iff] at advertised ⊢
  exact Nat.lt_of_lt_of_eq advertised same.symm

theorem Rival.mem_later (announced : Announced inputs later route)
    (isRival : Rival inputs route rival) : rival ∈ later :=
  (announced.members rival).mpr (Or.inr ⟨isRival.member, isRival.neighbor⟩)

namespace Announced

theorem mem_iff_ownOnly (announced : Announced inputs later route) {routes : List RibTuple}
    (stored : ∀ other ∈ routes, other ∈ inputs) :
    (∀ other ∈ routes, other ∈ later) ↔ OwnOnly route routes := by
  constructor
  · intro all other member isNeighbor
    rcases (announced.members other).mp (all other member) with same | ⟨-, different⟩
    · exact same
    · exact absurd isNeighbor different
  · intro own other member
    rw [announced.members]
    by_cases isNeighbor : other.neighbor = route.neighbor
    · exact Or.inl (own other member isNeighbor)
    · exact Or.inr ⟨stored other member, isNeighbor⟩

section

variable (announced : Announced inputs later route) (selects : Selects inputs best)

include announced selects

theorem selects_best (kept : best ∈ later) (unbeaten : ¬ Beats route best) :
    Selects later best := by
  constructor
  · exact kept
  · intro other member
    rcases (announced.members other).mp member with rfl | ⟨isInput, -⟩
    · exact unbeaten
    · exact selects.unbeaten other isInput

theorem selects_route_iff (short : aspathLength route.asPath ≤ aspathLength best.asPath) :
    Selects later route ↔
      ∀ rival, Rival inputs route rival → medLess rival.med route.med = false := by
  constructor
  · intro routeSelects rival isRival
    rw [← Bool.not_eq_true]
    intro less
    exact routeSelects.unbeaten rival (isRival.mem_later announced)
      (Or.inr ⟨isRival.compared, less⟩)
  · intro notLess
    constructor
    · exact (announced.members route).mpr (Or.inl rfl)
    · intro other member
      rcases (announced.members other).mp member with rfl | ⟨isInput, different⟩
      · exact Beats.irrefl other
      · rintro (shorter | ⟨compared, less⟩)
        · exact selects.unbeaten other isInput (Or.inl (Nat.lt_of_lt_of_le shorter short))
        · rw [notLess other ⟨isInput, different, compared⟩] at less
          cases less

theorem comparable_of_shorter (shorter : aspathLength route.asPath < aspathLength best.asPath) :
    Comparable later := by
  have isRoute : ∀ other ∈ shortest later, other = route := by
    intro other isShortest
    rcases mem_shortest.mp isShortest with ⟨member, least⟩
    rcases (announced.members other).mp member with same | ⟨isInput, -⟩
    · exact same
    · have small := least route ((announced.members route).mpr (Or.inl rfl))
      have large := selects.le isInput
      omega
  intro one isOne other isOther different
  exact absurd ((isRoute one isOne).trans (isRoute other isOther).symm) different

theorem comparable_of_longer (comparable : Comparable inputs) (kept : best ∈ later)
    (longer : aspathLength best.asPath < aspathLength route.asPath) : Comparable later := by
  have wasShortest : ∀ other ∈ shortest later, other ∈ shortest inputs := by
    intro other isShortest
    rcases mem_shortest.mp isShortest with ⟨member, least⟩
    have small := least best kept
    rcases (announced.members other).mp member with rfl | ⟨isInput, -⟩
    · omega
    · rw [mem_shortest]
      exact ⟨isInput, fun third isThird => Nat.le_trans small (selects.le isThird)⟩
  intro one isOne other isOther
  exact comparable one (wasShortest one isOne) other (wasShortest other isOther)

end

theorem mem_shortest_iff (announced : Announced inputs later route) (selects : Selects inputs best)
    (same : aspathLength route.asPath = aspathLength best.asPath) {other : RibTuple} :
    other ∈ shortest later ↔
      other ∈ later ∧ aspathLength other.asPath = aspathLength route.asPath := by
  have isLeast : ∀ third ∈ later, aspathLength route.asPath ≤ aspathLength third.asPath := by
    intro third member
    rcases (announced.members third).mp member with rfl | ⟨isInput, -⟩
    · exact Nat.le_refl _
    · rw [same]
      exact selects.le isInput
  rw [mem_shortest]
  apply and_congr_right
  intro member
  constructor
  · intro least
    exact Nat.le_antisymm (least route ((announced.members route).mpr (Or.inl rfl)))
      (isLeast other member)
  · intro isLength
    rw [isLength]
    exact isLeast

theorem comparable_iff (announced : Announced inputs later route)
    (selects : Selects inputs best) (comparable : Comparable inputs)
    (same : aspathLength route.asPath = aspathLength best.asPath)
    (advertised : route.asPath ≠ []) :
    Comparable later ↔
      ∀ rival, Rival inputs route rival → medComparable rival.med route.med := by
  have shortestIff := @announced.mem_shortest_iff _ _ _ _ selects same
  have isLater : route ∈ later := (announced.members route).mpr (Or.inl rfl)
  constructor
  · intro laterComparable rival isRival
    have rivalShortest := shortestIff.mpr ⟨isRival.mem_later announced, isRival.compared.1⟩
    have routeShortest := shortestIff.mpr ⟨isLater, rfl⟩
    have different : rival ≠ route := fun equal =>
      isRival.neighbor (congrArg RibTuple.neighbor equal)
    exact (laterComparable rival rivalShortest route routeShortest different).2
      isRival.compared.2.2
  · intro rivals one oneShortest other otherShortest different
    rcases shortestIff.mp oneShortest with ⟨isOne, oneLength⟩
    rcases shortestIff.mp otherShortest with ⟨isOther, otherLength⟩
    have oneAdvertised := ne_nil_of_length oneLength advertised
    refine ⟨oneAdvertised, ?_⟩
    intro sameAs
    rcases (announced.members one).mp isOne with rfl | ⟨oneInput, oneNeighbor⟩
    · rcases (announced.members other).mp isOther with rfl | ⟨otherInput, otherNeighbor⟩
      · exact absurd rfl different
      · have compared : Compared one other := ⟨otherLength.symm, advertised, sameAs⟩
        exact (rivals other ⟨otherInput, otherNeighbor, compared.symm⟩).symm
    · rcases (announced.members other).mp isOther with rfl | ⟨otherInput, otherNeighbor⟩
      · exact rivals one ⟨oneInput, oneNeighbor, oneLength, oneAdvertised, sameAs⟩
      · have oneInputs := selects.mem_shortest_of_length oneInput (oneLength.trans same)
        have otherInputs := selects.mem_shortest_of_length otherInput (otherLength.trans same)
        exact (comparable one oneInputs other otherInputs different).2 sameAs

end Announced

/-- The rivals of a route that is compared with the selected one. -/
theorem Rival.comparable (selects : Selects inputs best) (comparable : Comparable inputs)
    (compared : Compared route best) (meds : medComparable route.med best.med)
    (isRival : Rival inputs route rival) :
    medComparable rival.med route.med := by
  by_cases isBest : rival = best
  · rw [isBest]
    exact meds.symm
  · have sameLength := isRival.compared.1.trans compared.1
    have rivalShortest := selects.mem_shortest_of_length isRival.member sameLength
    have toBest := (comparable rival rivalShortest best selects.isShortest isBest).2
      (isRival.compared.2.2.trans compared.2.2)
    exact toBest.trans meds.symm

theorem Rival.not_less (selects : Selects inputs best) (compared : Compared route best)
    (less : medLess route.med best.med = true) (isRival : Rival inputs route rival) :
    medLess rival.med route.med = false := by
  rw [← Bool.not_eq_true]
  intro rivalLess
  apply selects.unbeaten rival isRival.member
  have rivalCompared : Compared rival best :=
    ⟨isRival.compared.1.trans compared.1, isRival.compared.2.1,
      isRival.compared.2.2.trans compared.2.2⟩
  exact Or.inr ⟨rivalCompared, medLess_trans rivalLess less⟩

namespace Announced

section

variable (announced : Announced inputs later route) (selects : Selects inputs best)
  (comparable : Comparable inputs)

include announced selects comparable

theorem comparable_of_beats (beats : Beats route best) :
    Comparable later ∧ Selects later route := by
  rcases beats with shorter | ⟨compared, less⟩
  · constructor
    · exact announced.comparable_of_shorter selects shorter
    · rw [announced.selects_route_iff selects (Nat.le_of_lt shorter)]
      intro rival isRival
      have least := selects.le isRival.member
      rw [isRival.compared.1] at least
      exact absurd shorter (Nat.not_lt_of_le least)
  · constructor
    · rw [announced.comparable_iff selects comparable compared.1 compared.2.1]
      intro rival isRival
      exact isRival.comparable selects comparable compared (medComparable_of_less less)
    · rw [announced.selects_route_iff selects (Nat.le_of_eq compared.1)]
      intro rival isRival
      exact isRival.not_less selects compared less

theorem comparable_of_beaten (kept : best ∈ later) (beats : Beats best route) :
    Comparable later := by
  rcases beats with longer | ⟨compared, less⟩
  · exact announced.comparable_of_longer selects comparable kept longer
  · have back := compared.symm
    rw [announced.comparable_iff selects comparable back.1 back.2.1]
    intro rival isRival
    exact isRival.comparable selects comparable back (medComparable_of_less less).symm

/-- The first chosen route stays although it ties with the announced one. -/
theorem agreesAt_iff_of_ties (ties : Ties route best) {tail : List RibTuple}
    (stored : (∀ other ∈ best :: tail, other ∈ later) ↔ OwnOnly route (best :: rest)) :
    AgreesAt later (some (best :: tail)) ↔ OwnOnly route (best :: rest) ∧
      ∀ rival, Rival inputs route rival → medComparable rival.med route.med := by
  rw [agreesAt_some_iff announced.nodup,
    announced.comparable_iff selects comparable ties.length ties.advertised, stored]
  constructor
  · rintro ⟨own, meds, -⟩
    exact ⟨own, meds⟩
  · rintro ⟨own, meds⟩
    have kept := stored.mpr own best List.mem_cons_self
    exact ⟨own, meds, announced.selects_best selects kept ties.not_beats.1⟩

end

end Announced

theorem stay_sublist (conf : Conf) (routes : List RibTuple) :
    (stay conf routes).Sublist routes := by
  unfold stay
  simp only
  split
  · exact List.nil_sublist routes
  · split
    · exact List.Sublist.refl routes
    · exact List.dropLast_sublist routes

variable {conf : Conf}

theorem stay_subset {routes : List RibTuple} : stay conf routes ⊆ routes :=
  (stay_sublist conf routes).subset

/-- An announced route keeps a prefix in agreement exactly under the condition. -/
theorem agreesAt_iff_keepsAgreement {chosen : Option (List RibTuple)} {after : List RibTuple}
    {found : Option (List BestRoute)} (nodup : inputs.Nodup)
    (announced : Announced inputs later route) (agrees : AgreesAt inputs chosen)
    (decides : Decides conf route chosen after found) :
    AgreesAt later (some after) ↔ KeepsAgreement conf inputs chosen route := by
  have isLater : route ∈ later := (announced.members route).mpr (Or.inl rfl)
  cases decides with
  | first =>
    rw [agreesAt_none_iff] at agrees
    subst agrees
    have isRoute : ∀ other ∈ later, other = route := by
      intro other member
      rcases (announced.members other).mp member with same | ⟨isInput, -⟩
      · exact same
      · cases isInput
    rw [agreesAt_some_iff announced.nodup, KeepsAgreement, iff_true, List.forall_mem_singleton]
    refine ⟨isLater, ?_, isLater, ?_⟩
    · intro one isOne other isOther different
      have oneRoute := isRoute one (mem_shortest.mp isOne).1
      have otherRoute := isRoute other (mem_shortest.mp isOther).1
      exact absurd (oneRoute.trans otherRoute.symm) different
    · intro other member
      rw [isRoute other member]
      exact Beats.irrefl route
  | better best rest beats different =>
    rcases (agreesAt_some_iff nodup).mp agrees with ⟨stored, comparable, selects⟩
    rw [agreesAt_some_iff announced.nodup, KeepsAgreement, if_pos beats]
    simp only [different, iff_true, List.mem_singleton, forall_eq]
    exact ⟨isLater, announced.comparable_of_beats selects comparable beats⟩
  | betterEqual best rest beats same =>
    rw [KeepsAgreement, if_pos beats, same]
    simp only [Bool.true_eq_false, iff_false]
    intro laterAgrees
    rw [agreesAt_some_iff announced.nodup] at laterAgrees
    exact laterAgrees.2.2.unbeaten route isLater beats
  | worse best rest beats =>
    rcases (agreesAt_some_iff nodup).mp agrees with ⟨stored, comparable, selects⟩
    rw [agreesAt_some_iff announced.nodup, KeepsAgreement, if_neg beats.asymm, if_pos beats,
      announced.mem_iff_ownOnly stored]
    constructor
    · exact And.left
    · intro own
      have kept := (announced.mem_iff_ownOnly stored).mpr own best List.mem_cons_self
      exact ⟨own, announced.comparable_of_beaten selects comparable kept beats,
        announced.selects_best selects kept beats.asymm⟩
  | preferred best rest ties isPreferred =>
    rcases (agreesAt_some_iff nodup).mp agrees with ⟨stored, comparable, selects⟩
    have staysStored : ∀ other ∈ stay conf (best :: rest), other ∈ inputs := by
      intro other member
      exact stored other (stay_subset member)
    rw [agreesAt_some_iff announced.nodup, KeepsAgreement, if_neg ties.not_beats.1,
      if_neg ties.not_beats.2, if_pos isPreferred, List.forall_mem_cons,
      announced.mem_iff_ownOnly staysStored,
      announced.comparable_iff selects comparable ties.length ties.advertised,
      announced.selects_route_iff selects (Nat.le_of_eq ties.length)]
    constructor
    · rintro ⟨⟨-, own⟩, meds, notLess⟩
      exact ⟨own, fun rival isRival => ⟨meds rival isRival, notLess rival isRival⟩⟩
    · rintro ⟨own, both⟩
      exact ⟨⟨isLater, own⟩, fun rival isRival => (both rival isRival).1,
        fun rival isRival => (both rival isRival).2⟩
  | append best rest ties notPreferred maxPaths isMax room =>
    rcases (agreesAt_some_iff nodup).mp agrees with ⟨stored, comparable, selects⟩
    rw [KeepsAgreement, if_neg ties.not_beats.1, if_neg ties.not_beats.2, if_neg notPreferred,
      List.cons_append]
    apply announced.agreesAt_iff_of_ties selects comparable ties
    rw [← List.cons_append, List.forall_mem_append, List.forall_mem_singleton,
      announced.mem_iff_ownOnly stored]
    exact and_iff_left isLater
  | ignore best rest ties notPreferred maxPaths isMax full =>
    rcases (agreesAt_some_iff nodup).mp agrees with ⟨stored, comparable, selects⟩
    rw [KeepsAgreement, if_neg ties.not_beats.1, if_neg ties.not_beats.2, if_neg notPreferred]
    apply announced.agreesAt_iff_of_ties selects comparable ties
    exact announced.mem_iff_ownOnly stored

end OnePrefix

/-! ## One message -/

/-- `update` followed by the decisions on its results. -/
def handleUpdate : Step BgpPeer RouteMessage := fun peer message =>
  (peer.update message).bind fun (updated, updates) =>
    (updated.decisionLoop updates).map Prod.fst

/-- Every route that a message announces keeps the tables in agreement. -/
def MessageKeeps (peer : BgpPeer) (message : RouteMessage) : Prop :=
  ∀ route ∈ peer.accepted message,
    KeepsAgreement peer.conf (peer.inputRib.getAll route.dest) (peer.localRib.get route.dest) route

/-- A message announces no prefix twice. -/
def AnnouncesOnce (message : RouteMessage) : Prop :=
  ∀ body ∈ message.body, ∀ groups ∈ body.announce, (groups.flatMap Prod.snd).Nodup

instance (message : RouteMessage) : Decidable (AnnouncesOnce message) :=
  inferInstanceAs (Decidable (∀ _, _))

theorem accepted_distinct (peer : BgpPeer) (once : AnnouncesOnce message) :
    ((peer.accepted message).map RibTuple.dest).Nodup := by
  rcases peer.accepted_cases message with nothing |
    ⟨body, isBody, announce, isAnnounce, _, -, isAccepted⟩
  · rw [nothing]
    exact List.nodup_nil
  · rw [isAccepted, BgpPeer.announcedRoutes_dests]
    exact once body isBody announce isAnnounce

/-- A withdrawal that is handled without an exception has nothing to withdraw. -/
theorem withdrawn_nil {neighbor : BitVec 32} {dests : List IpPrefix} {found : List BestRoute}
    (agrees : LocalAgrees peer)
    (decided : BgpPeer.decisionLoop
      { peer with inputRib := (withdrawLoop neighbor peer.inputRib dests).1 }
      (withdrawLoop neighbor peer.inputRib dests).2 = some (after, found)) :
    (withdrawLoop neighbor peer.inputRib dests).2 = [] := by
  rcases (BgpPeer.decisionLoop_withdraw_iff fun _ => BgpPeer.withdrawLoop_withdraws).mp decided
    with ⟨absent, -⟩
  apply BgpPeer.withdrawLoop_nil_of_absent _ absent
  intro dest route wasInput
  have chosen := (agrees dest).entry.mpr (List.ne_nil_of_mem wasInput)
  rcases Option.isSome_iff_exists.mp chosen with ⟨routes, isRoutes⟩
  rcases (agrees dest).selected routes isRoutes with ⟨best, isHead, -⟩
  rw [Rib.first, isRoutes, Option.bind_some, isHead]
  rfl

/-- A message keeps the tables in agreement exactly under the condition. -/
theorem localAgrees_iff_messageKeeps (once : AnnouncesOnce message) (agrees : LocalAgrees peer)
    (handled : handleUpdate peer message = some after) :
    LocalAgrees after ↔ MessageKeeps peer message := by
  rcases Option.bind_eq_some_iff.mp handled with ⟨⟨updated, updates⟩, isUpdated, decided⟩
  rcases Option.map_eq_some_iff.mp decided with ⟨⟨final, found⟩, isDecided, isAfter⟩
  obtain rfl : final = after := isAfter
  rcases BgpPeer.update_cases isUpdated with ⟨rfl, rfl⟩ | ⟨dests, none, rfl, rfl⟩
  · have distinct := accepted_distinct peer once
    rcases BgpPeer.decisionLoop_announce distinct isDecided with
      ⟨⟨results, decisions, -⟩, frame, others⟩
    have isInput : final.inputRib =
        (peer.accepted message).foldl AdjRibIn.update peer.inputRib := by rw [frame]
    have atRoute : ∀ route ∈ peer.accepted message,
        (AgreesAt (final.inputRib.getAll route.dest) (final.localRib.get route.dest) ↔
          KeepsAgreement peer.conf (peer.inputRib.getAll route.dest)
            (peer.localRib.get route.dest) route) := by
      intro route member
      rcases decisions.of_mem member with ⟨chosen, answer, decides, isChosen⟩
      rw [isChosen]
      apply agreesAt_iff_keepsAgreement (peer.inputRib.getAll_nodup _) _ (agrees _) decides
      constructor
      · exact AdjRibIn.getAll_nodup _ _
      · intro other
        rw [isInput]
        exact AdjRibIn.mem_getAll_foldl _ distinct member
    constructor
    · intro laterAgrees route member
      exact (atRoute route member).mp (laterAgrees route.dest)
    · intro keeps dest
      by_cases isDest : dest ∈ (peer.accepted message).map RibTuple.dest
      · rcases List.mem_map.mp isDest with ⟨route, member, rfl⟩
        exact (atRoute route member).mpr (keeps route member)
      · rw [others dest isDest, isInput]
        apply agreesAt_congr (peer.inputRib.getAll_nodup dest) (AdjRibIn.getAll_nodup _ _) _
          (agrees dest)
        intro route
        exact (AdjRibIn.mem_getAll_foldl_of_notMem _ isDest).symm
  · have nothing := withdrawn_nil agrees isDecided
    rw [nothing, BgpPeer.withdrawLoop_nil nothing] at isDecided
    cases isDecided
    constructor
    · intro _ route member
      rw [none] at member
      cases member
    · intro _
      exact agrees

/-! ## Runs -/

theorem localAgrees_new (conf : Conf) : LocalAgrees (BgpPeer.new conf) := by
  intro dest
  have isNone : (BgpPeer.new conf).localRib.get dest = none := rfl
  rw [isNone, agreesAt_none_iff]
  rfl

/-- After every message that a new peer handles without an exception its tables agree,
exactly if every message keeps them in agreement. -/
theorem agrees_along_iff (conf : Conf) (messages : List RouteMessage)
    (once : ∀ message ∈ messages, AnnouncesOnce message) :
    Along handleUpdate
        (fun peer message => ∀ after, handleUpdate peer message = some after → LocalAgrees after)
        (BgpPeer.new conf) messages ↔
      Along handleUpdate
        (fun peer message => (handleUpdate peer message).isSome → MessageKeeps peer message)
        (BgpPeer.new conf) messages := by
  apply @along_keeps_iff _ _ handleUpdate MessageKeeps LocalAgrees AnnouncesOnce fun _ => True
  · intro _ _ _ _ _ _
    trivial
  · intro peer message after isOnce _ agrees handled
    exact localAgrees_iff_messageKeeps isOnce agrees handled
  · trivial
  · exact localAgrees_new conf
  · exact once

/-! ## Examples -/

namespace Sample

/-- The router `10.0.0.1` in system 1. -/
def conf (maxPaths : Option Nat) : Conf where
  routerId := some 0x0A000001
  asn := 1
  allowasIn := false
  maxPaths := maxPaths

/-- The prefix `130.0.0.0/16`. -/
def dest : IpPrefix where
  addr := 0x82000000
  len := 16

/-- The announcement of the prefix by the neighbor `10.0.0.x` in system `x`, through
itself. -/
def announce (x : Nat) (asPath : List Nat) : RouteMessage where
  neighbor := 0x0A000000 + BitVec.ofNat 32 x
  asn := x
  body := some {
    attributes := some {
      origin := some .igp, asPath, med := none, community := [], atomicAggregate := none }
    announce := some [(0x0A000000 + BitVec.ofNat 32 x, [dest])]
    withdraw := none }

end Sample

/-- A neighbor that announces a longer path replaces its route in the input table, but
the old route stays the chosen one. -/
theorem replaced_route_stays_chosen :
    ∃ after, run handleUpdate (BgpPeer.new (Sample.conf none))
        [Sample.announce 2 [2], Sample.announce 2 [2, 3, 4]] = some after ∧
      ¬ LocalAgrees after := by
  refine ⟨_, rfl, ?_⟩
  intro agrees
  have stored := (agrees Sample.dest).stored _ rfl _ List.mem_cons_self
  revert stored
  decide

/-- Two neighbors in different systems, both of which are chosen. -/
theorem agrees_along_twoNeighbors :
    Along handleUpdate
        (fun peer message => ∀ after, handleUpdate peer message = some after → LocalAgrees after)
        (BgpPeer.new (Sample.conf (some 2))) [Sample.announce 3 [3], Sample.announce 2 [2]] := by
  apply (agrees_along_iff _ _ (by decide)).mpr
  constructor
  · intro _ route member
    cases List.mem_singleton.mp member
    trivial
  · rintro _ ⟨rfl⟩
    constructor
    · intro _ route member
      cases List.mem_singleton.mp member
      apply keepsAgreement_of_preferred (by decide) (by decide) (by decide) (by decide)
      intro rival isRival
      cases List.mem_singleton.mp isRival.member
      exact absurd isRival.compared (by decide)
    · rintro _ ⟨rfl⟩
      trivial

end Horse.Bgp
