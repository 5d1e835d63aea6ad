import Horse.Bgp.Peer

/-!
# What a message does to the tables

The steps of a peer, taken apart: which routes a message puts into the input table,
and what a decision makes of the chosen routes of a prefix.  `Decides` has one case
for every way in which an announced route can be taken.
-/

namespace Horse.Bgp

open Horse.Container

/-! ## One announced route -/

/-- Of two routes between which the paths do not decide the announced one is taken. -/
def Preferred (route best : RibTuple) : Prop :=
  route.nextHop < best.nextHop ∨
    route.nextHop = best.nextHop ∧ route.asPath ≠ best.asPath ∧
      route.asPath.headD 0 ≤ best.asPath.headD 0

instance (route best : RibTuple) : Decidable (Preferred route best) :=
  inferInstanceAs (Decidable (_ ∨ _))

/-- The chosen routes that stay behind one that is put in front of them. -/
def stay (conf : Conf) (routes : List RibTuple) : List RibTuple :=
  let maxPaths := conf.maxPaths.getD 0
  if maxPaths = 0 then []
  else if routes.length + 1 ≤ maxPaths then routes
  else routes.dropLast

/-- What becomes of the chosen routes of a prefix when a route for it is announced,
and which routes are the result. -/
inductive Decides (conf : Conf) (route : RibTuple) :
    Option (List RibTuple) → List RibTuple → Option (List BestRoute) → Prop
  | first : Decides conf route none [route] (some [.route route])
  | better (best : RibTuple) (rest : List RibTuple) (beats : Beats route best)
      (different : bgpRoutesAreEqual route best = false) :
      Decides conf route (some (best :: rest)) [route] (some [.list [route]])
  | betterEqual (best : RibTuple) (rest : List RibTuple) (beats : Beats route best)
      (same : bgpRoutesAreEqual route best = true) :
      Decides conf route (some (best :: rest)) (best :: rest) none
  | worse (best : RibTuple) (rest : List RibTuple) (beats : Beats best route) :
      Decides conf route (some (best :: rest)) (best :: rest) none
  | preferred (best : RibTuple) (rest : List RibTuple) (ties : Ties route best)
      (isPreferred : Preferred route best) :
      Decides conf route (some (best :: rest)) (route :: stay conf (best :: rest))
        (some [.route route])
  | append (best : RibTuple) (rest : List RibTuple) (ties : Ties route best)
      (notPreferred : ¬ Preferred route best) (maxPaths : Nat)
      (isMax : conf.maxPaths = some maxPaths) (room : (best :: rest).length + 1 ≤ maxPaths) :
      Decides conf route (some (best :: rest)) (best :: rest ++ [route]) (some [.route route])
  | ignore (best : RibTuple) (rest : List RibTuple) (ties : Ties route best)
      (notPreferred : ¬ Preferred route best) (maxPaths : Nat)
      (isMax : conf.maxPaths = some maxPaths) (full : maxPaths < (best :: rest).length + 1) :
      Decides conf route (some (best :: rest)) (best :: rest) (some [])

variable {conf : Conf} {before : Option (List RibTuple)} {answer : Option (List BestRoute)}

section

variable {after : List RibTuple} {route : RibTuple}
  (decides : Decides conf route before after answer)

include decides

/-- A decision on a route has no other route as its result. -/
theorem Decides.eq_of_answer {other : RibTuple} (member : BestRoute.route other ∈ answer.getD []) :
    other = route := by
  cases decides <;> simp_all

/-- After a decision there are chosen routes, the first of which is the announced one or the
one that was first. -/
theorem Decides.exists_head :
    ∃ best rest, after = best :: rest ∧ (best = route ∨ before.bind List.head? = some best) := by
  cases decides with
  | first => exact ⟨_, _, rfl, .inl rfl⟩
  | better => exact ⟨_, _, rfl, .inl rfl⟩
  | preferred => exact ⟨_, _, rfl, .inl rfl⟩
  | betterEqual => exact ⟨_, _, rfl, .inr rfl⟩
  | worse => exact ⟨_, _, rfl, .inr rfl⟩
  | append => exact ⟨_, _, rfl, .inr rfl⟩
  | ignore => exact ⟨_, _, rfl, .inr rfl⟩

theorem Decides.answer_length : (answer.getD []).length ≤ 1 := by
  cases decides <;> simp

end

theorem lowestRouterId_pair (route other : RibTuple) :
    lowestRouterId [route, other] =
      some (if other.nextHop < route.nextHop then other else route) := by
  rw [lowestRouterId]
  simp only [List.foldl_cons, List.foldl_nil, gt_iff_lt]
  by_cases lower : other.nextHop < route.nextHop
  · have different : route.nextHop ≠ other.nextHop := fun same => by
      rw [same] at lower
      exact BitVec.lt_irrefl _ lower
    rw [if_pos lower, if_pos lower, List.find?_cons_of_neg (by simpa using different),
      List.find?_cons_of_pos (by simp)]
  · rw [if_neg lower, if_neg lower, List.find?_cons_of_pos (by simp)]

theorem bgpRoutesAreEqual_self (route : RibTuple) : bgpRoutesAreEqual route route = true := by
  simp [bgpRoutesAreEqual]

/-- The choice between two routes that tie. -/
theorem lowestRouterId_preferred {route best chosen : RibTuple}
    (isLowest : lowestRouterId (if route.asPath.headD 0 ≤ best.asPath.headD 0
      then [route, best] else [best, route]) = some chosen) :
    if bgpRoutesAreEqual chosen best then ¬ Preferred route best
      else chosen = route ∧ Preferred route best := by
  by_cases order : route.asPath.headD 0 ≤ best.asPath.headD 0
  · rw [if_pos order, lowestRouterId_pair] at isLowest
    by_cases lower : best.nextHop < route.nextHop
    · rw [if_pos lower] at isLowest
      cases isLowest
      rw [bgpRoutesAreEqual_self, if_pos rfl]
      rintro (less | ⟨same, -⟩)
      · exact BitVec.lt_asymm less lower
      · exact BitVec.ne_of_lt lower same.symm
    · rw [if_neg lower] at isLowest
      cases isLowest
      split
      · rename_i equal
        simp only [bgpRoutesAreEqual, Bool.and_eq_true, decide_eq_true_eq] at equal
        rintro (less | ⟨-, different, -⟩)
        · exact BitVec.ne_of_lt less equal.1
        · exact different equal.2
      · rename_i notEqual
        refine ⟨rfl, ?_⟩
        by_cases same : route.nextHop = best.nextHop
        · simp only [bgpRoutesAreEqual, same, decide_true, Bool.true_and,
            decide_eq_true_eq] at notEqual
          exact Or.inr ⟨same, notEqual, order⟩
        · exact Or.inl (BitVec.lt_of_le_ne (BitVec.not_lt.mp lower) same)
  · rw [if_neg order, lowestRouterId_pair] at isLowest
    by_cases lower : route.nextHop < best.nextHop
    · rw [if_pos lower] at isLowest
      cases isLowest
      have different : route.nextHop ≠ best.nextHop := BitVec.ne_of_lt lower
      rw [if_neg (by simp [bgpRoutesAreEqual, different])]
      exact ⟨rfl, Or.inl lower⟩
    · rw [if_neg lower] at isLowest
      cases isLowest
      rw [bgpRoutesAreEqual_self, if_pos rfl]
      rintro (less | ⟨-, -, first⟩)
      · exact lower less
      · exact order first

/-! ## One decision -/

/-- A step that leaves everything but the chosen routes of one prefix alone. -/
structure Chooses (peer after : BgpPeer) (dest : IpPrefix) (routes : List RibTuple) : Prop where
  frame : after = { peer with localRib := after.localRib }
  chosen : ∀ other, after.localRib.get other =
    if other = dest then some routes else peer.localRib.get other

variable {dest : IpPrefix}

theorem Chooses.first {peer after : BgpPeer} {routes : List RibTuple}
    (chooses : Chooses peer after dest routes) (other : IpPrefix) :
    after.localRib.first other =
      if other = dest then routes.head? else peer.localRib.first other := by
  rw [Rib.first, chooses.chosen]
  split <;> rfl

namespace BgpPeer

variable {peer after : BgpPeer} {route : RibTuple} {routes : List RibTuple} {neighbor : BitVec 32}
  {dests : List IpPrefix} {found : List BestRoute} {input : AdjRibIn} {update : Update}
  {results : List (List RibTuple × Option (List BestRoute))}

theorem chooses_self (stored : peer.localRib.get dest = some routes) :
    Chooses peer peer dest routes := by
  constructor
  · rfl
  · intro other
    split
    · rename_i isDest
      rw [isDest, stored]
    · rfl

theorem chooses_updateLocal {new best : Bool}
    (updated : peer.updateLocal route new best = some after) :
    ∃ routes, (if new then some [] else peer.localRib.get route.dest) = some routes ∧
      Chooses peer after route.dest (if best then route :: routes else routes ++ [route]) := by
  rcases Option.map_eq_some_iff.mp updated with ⟨rib, isRib, rfl⟩
  rcases Rib.get_update isRib with ⟨routes, isOld, chosen⟩
  exact ⟨routes, isOld, rfl, chosen⟩

/-- The route replaces those that were chosen. -/
theorem chooses_replacing (updated : peer.updateLocal route true true = some after) :
    Chooses peer after route.dest [route] := by
  rcases chooses_updateLocal updated with ⟨old, isOld, chooses⟩
  cases isOld
  exact chooses

/-- The route is put in front of those that were chosen, or behind them. -/
theorem chooses_adding {best : Bool} (stored : peer.localRib.get route.dest = some routes)
    (updated : peer.updateLocal route false best = some after) :
    Chooses peer after route.dest (if best then route :: routes else routes ++ [route]) := by
  rcases chooses_updateLocal updated with ⟨old, isOld, chooses⟩
  cases stored.symm.trans isOld
  exact chooses

theorem chooses_installPreferred (stored : peer.localRib.get route.dest = some routes)
    (nonempty : routes ≠ []) (installed : peer.installPreferred route routes.length = some after) :
    Chooses peer after route.dest (route :: stay peer.conf routes) := by
  simp only [installPreferred] at installed
  simp only [stay]
  split at installed
  · rename_i single
    rw [if_pos single]
    exact chooses_replacing installed
  · rename_i several
    rw [if_neg several]
    split at installed
    · rename_i room
      rw [if_pos room]
      exact chooses_adding stored installed
    · rename_i full
      rcases Option.map_eq_some_iff.mp installed with ⟨grown, isGrown, rfl⟩
      have chooses := chooses_adding stored isGrown
      rw [if_neg full, ← List.dropLast_cons_of_ne_nil nonempty]
      constructor
      · rw [chooses.frame]
      · intro other
        have isStored := chooses.chosen route.dest
        rw [if_pos rfl, if_pos rfl] at isStored
        rw [Rib.get_drop isStored]
        split
        · rfl
        · rename_i otherDest
          rw [chooses.chosen, if_neg otherDest]

/-- Every announcement that is decided without an exception is one of the cases. -/
theorem decisionProcessLocal_announce {found : Option (List BestRoute)}
    (decided : peer.decisionProcessLocal (.announce route) = some (after, found)) :
    ∃ routes, Decides peer.conf route (peer.localRib.get route.dest) routes found ∧
      Chooses peer after route.dest routes := by
  unfold decisionProcessLocal at decided
  cases stored : peer.localRib.get route.dest with
  | none =>
    simp only [stored] at decided
    rcases Option.map_eq_some_iff.mp decided with ⟨_, updated, result⟩
    cases result
    exact ⟨[route], Decides.first, chooses_replacing updated⟩
  | some current =>
    simp only [stored] at decided
    rcases Option.bind_eq_some_iff.mp decided with ⟨best, isHead, compared⟩
    rcases Option.bind_eq_some_iff.mp compared with ⟨⟨kept, tie⟩, selected, choice⟩
    rcases List.head?_eq_some_iff.mp isHead with ⟨rest, rfl⟩
    rcases bestPathSelection_pair selected with ⟨beats, rfl, rfl⟩ | ⟨beats, rfl, rfl⟩ |
      ⟨ties, rfl, isKept⟩
    · simp only [Bool.not_false, if_true, List.getLast?_singleton, Option.bind_some,
        Bool.not_eq_true'] at choice
      split at choice
      · rename_i different
        rcases Option.map_eq_some_iff.mp choice with ⟨_, updated, result⟩
        cases result
        have chooses := chooses_replacing updated
        refine ⟨[route], ?_, chooses⟩
        rw [chooses.chosen, if_pos rfl]
        exact Decides.better best rest beats different
      · rename_i same
        cases choice
        rw [Bool.not_eq_false] at same
        exact ⟨best :: rest, Decides.betterEqual best rest beats same, chooses_self stored⟩
    · simp only [Bool.not_false, if_true, List.getLast?_singleton, Option.bind_some,
        bgpRoutesAreEqual_self, Bool.not_true, Bool.false_eq_true, if_false] at choice
      cases choice
      exact ⟨best :: rest, Decides.worse best rest beats, chooses_self stored⟩
    · simp only [Bool.not_true, Bool.false_eq_true, if_false, isKept] at choice
      rcases Option.bind_eq_some_iff.mp choice with ⟨newBest, isLowest, installed⟩
      have preference := lowestRouterId_preferred isLowest
      split at installed
      · rename_i different
        rw [if_neg (by simpa using different)] at preference
        rcases preference with ⟨rfl, isPreferred⟩
        rcases Option.map_eq_some_iff.mp installed with ⟨_, inFront, result⟩
        cases result
        exact ⟨_, Decides.preferred best rest ties isPreferred,
          chooses_installPreferred stored (List.cons_ne_nil _ _) inFront⟩
      · rename_i same
        rw [if_pos (by simpa using same)] at preference
        rcases Option.bind_eq_some_iff.mp installed with ⟨maxPaths, isMax, atEnd⟩
        split at atEnd
        · rename_i room
          rcases Option.map_eq_some_iff.mp atEnd with ⟨_, updated, result⟩
          cases result
          exact ⟨_, Decides.append best rest ties preference maxPaths isMax room,
            chooses_adding stored updated⟩
        · rename_i full
          cases atEnd
          exact ⟨_, Decides.ignore best rest ties preference maxPaths isMax
            (Nat.lt_of_not_le full), chooses_self stored⟩

/-! ## One message -/

theorem decisionLoop_cons_eq_some_iff {rest : List Update} :
    peer.decisionLoop (update :: rest) = some (after, found) ↔
      ∃ middle answer others, peer.decisionProcessLocal update = some (middle, answer) ∧
        middle.decisionLoop rest = some (after, others) ∧ found = answer.getD [] ++ others := by
  rw [decisionLoop]
  constructor
  · intro decided
    obtain ⟨⟨middle, answer⟩, ⟨_, others⟩, first, looped, result⟩ :=
      Transition.bind_map_eq_some_iff.mp decided
    cases result
    exact ⟨middle, answer, others, first, looped, rfl⟩
  · rintro ⟨middle, answer, others, first, looped, rfl⟩
    simp only [first, Option.bind_some, looped, Option.map_some]

/-- The results of the decisions on some routes, each on the choices before all of
them. -/
def Decisions (conf : Conf) (before after : IpPrefix → Option (List RibTuple)) :
    List RibTuple → List (List RibTuple × Option (List BestRoute)) → Prop :=
  List.Forall₂ fun route result =>
    Decides conf route (before route.dest) result.1 result.2 ∧ after route.dest = some result.1

theorem Decisions.of_mem {before after : IpPrefix → Option (List RibTuple)}
    (decisions : Decisions conf before after routes results) (member : route ∈ routes) :
    ∃ chosen answer, Decides conf route (before route.dest) chosen answer ∧
      after route.dest = some chosen := by
  induction decisions with
  | nil => cases member
  | cons first _ ih =>
    rcases List.mem_cons.mp member with rfl | inRest
    · exact ⟨_, _, first⟩
    · exact ih inRest

/-- Every result is one of the decided routes. -/
theorem Decisions.mem_of_found {before after : IpPrefix → Option (List RibTuple)}
    (decisions : Decisions conf before after routes results) {other : RibTuple}
    (found : BestRoute.route other ∈ results.flatMap fun result => result.2.getD []) :
    other ∈ routes := by
  induction decisions with
  | nil => cases found
  | cons first _ ih =>
    rw [List.flatMap_cons, List.mem_append] at found
    rcases found with now | later
    · rw [first.1.eq_of_answer now]
      exact List.mem_cons_self
    · exact List.mem_cons_of_mem _ (ih later)

/-- The results for the prefix of a route are those of the decision on it. -/
theorem Decisions.answer_of_mem {before after : IpPrefix → Option (List RibTuple)}
    (decisions : Decisions conf before after routes results)
    (distinct : (routes.map RibTuple.dest).Nodup) (member : route ∈ routes) :
    ∃ chosen answer, Decides conf route (before route.dest) chosen answer ∧
      after route.dest = some chosen ∧
      (∀ item ∈ answer.getD [], item ∈ results.flatMap fun result => result.2.getD []) ∧
      ∀ other : RibTuple, other.dest = route.dest →
        BestRoute.route other ∈ results.flatMap (fun result => result.2.getD []) →
          BestRoute.route other ∈ answer.getD [] := by
  induction decisions with
  | nil => cases member
  | @cons first result rest later decided decisions ih =>
    rw [List.map_cons, List.nodup_cons] at distinct
    rcases List.mem_cons.mp member with rfl | inRest
    · refine ⟨result.1, result.2, decided.1, decided.2, ?_, ?_⟩
      · intro item isItem
        rw [List.flatMap_cons, List.mem_append]
        exact Or.inl isItem
      · intro other sameDest found
        rw [List.flatMap_cons, List.mem_append] at found
        rcases found with now | inLater
        · exact now
        · have isRest := Decisions.mem_of_found decisions inLater
          exact absurd (sameDest ▸ List.mem_map_of_mem isRest) distinct.1
    · rcases ih distinct.2 inRest with ⟨chosen, answer, decides, isChosen, all, only⟩
      refine ⟨chosen, answer, decides, isChosen, ?_, ?_⟩
      · intro item isItem
        rw [List.flatMap_cons, List.mem_append]
        exact Or.inr (all item isItem)
      · intro other sameDest found
        rw [List.flatMap_cons, List.mem_append] at found
        rcases found with now | inLater
        · rw [decided.1.eq_of_answer now] at sameDest
          exact absurd (sameDest ▸ List.mem_map_of_mem inRest) distinct.1
        · exact only other sameDest inLater

theorem decisionLoop_from {before : IpPrefix → Option (List RibTuple)} (isConf : peer.conf = conf)
    (distinct : (routes.map RibTuple.dest).Nodup)
    (isBefore : ∀ dest ∈ routes.map RibTuple.dest, peer.localRib.get dest = before dest)
    (decided : peer.decisionLoop (routes.map Update.announce) = some (after, found)) :
    (∃ results, Decisions conf before after.localRib.get routes results ∧
        found = results.flatMap fun result => result.2.getD []) ∧
      after = { peer with localRib := after.localRib } ∧
      ∀ dest ∉ routes.map RibTuple.dest, after.localRib.get dest = peer.localRib.get dest := by
  induction routes generalizing peer found with
  | nil =>
    cases decided
    exact ⟨⟨[], List.Forall₂.nil, rfl⟩, rfl, fun _ _ => rfl⟩
  | cons route rest ih =>
    rw [List.map_cons, List.nodup_cons] at distinct
    rw [List.map_cons, List.forall_mem_cons] at isBefore
    rcases decisionLoop_cons_eq_some_iff.mp decided with
      ⟨middle, answer, others, first, looped, rfl⟩
    rcases decisionProcessLocal_announce first with ⟨chosen, decides, chooses⟩
    rw [isConf, isBefore.1] at decides
    have sameConf : middle.conf = conf := by rw [chooses.frame, isConf]
    have isMiddle : ∀ dest ∈ rest.map RibTuple.dest, middle.localRib.get dest = before dest := by
      intro dest member
      have different : dest ≠ route.dest := fun same => distinct.1 (same ▸ member)
      rw [chooses.chosen, if_neg different, isBefore.2 dest member]
    rcases ih sameConf distinct.2 isMiddle looped with ⟨⟨results, all, rfl⟩, frame, same⟩
    refine ⟨⟨(chosen, answer) :: results, ?_, rfl⟩, ?_, ?_⟩
    · apply List.Forall₂.cons _ all
      refine ⟨decides, ?_⟩
      rw [same _ distinct.1, chooses.chosen, if_pos rfl]
    · rw [frame, chooses.frame]
    · intro dest absent
      rw [List.map_cons, List.mem_cons, not_or] at absent
      rw [same dest absent.2, chooses.chosen, if_neg absent.1]

/-- What the decisions on routes for different prefixes do. -/
theorem decisionLoop_announce (distinct : (routes.map RibTuple.dest).Nodup)
    (decided : peer.decisionLoop (routes.map Update.announce) = some (after, found)) :
    (∃ results, Decisions peer.conf peer.localRib.get after.localRib.get routes results ∧
        found = results.flatMap fun result => result.2.getD []) ∧
      after = { peer with localRib := after.localRib } ∧
      ∀ dest ∉ routes.map RibTuple.dest, after.localRib.get dest = peer.localRib.get dest :=
  decisionLoop_from rfl distinct (fun _ _ => rfl) decided

theorem announceLoop_eq (input : AdjRibIn) (routes : List RibTuple) :
    announceLoop input routes = (routes.foldl AdjRibIn.update input, routes.map .announce) := by
  induction routes generalizing input with
  | nil => rfl
  | cons route rest ih =>
    simp only [announceLoop, ih, AdjRibIn.get_update, and_self, if_true, List.foldl_cons,
      List.map_cons]

theorem withdrawLoop_nil (nothing : (withdrawLoop neighbor input dests).2 = []) :
    (withdrawLoop neighbor input dests).1 = input := by
  induction dests with
  | nil => rfl
  | cons dest rest ih =>
    unfold withdrawLoop at nothing ⊢
    cases stored : input.get dest neighbor with
    | none =>
      simp only [stored] at nothing ⊢
      exact ih nothing
    | some deleted => simp [stored] at nothing

/-- The first route that is withdrawn was in the table. -/
theorem withdrawLoop_cons {later : List Update}
    (something : (withdrawLoop neighbor input dests).2 = update :: later) :
    ∃ deleted, update = .withdraw deleted ∧ deleted ∈ input.getAll deleted.dest := by
  induction dests with
  | nil => cases something
  | cons dest rest ih =>
    unfold withdrawLoop at something
    cases stored : input.get dest neighbor with
    | none =>
      simp only [stored] at something
      exact ih something
    | some deleted =>
      simp only [stored, List.cons.injEq] at something
      refine ⟨deleted, something.1.symm, ?_⟩
      rcases AdjRibIn.get_filed stored with ⟨isNeighbor, isDest⟩
      rw [AdjRibIn.mem_getAll, isNeighbor, isDest, stored]

theorem withdrawLoop_withdraws (member : update ∈ (withdrawLoop neighbor input dests).2) :
    ∃ deleted, update = .withdraw deleted := by
  induction dests generalizing input with
  | nil => cases member
  | cons dest rest ih =>
    unfold withdrawLoop at member
    cases stored : input.get dest neighbor with
    | none =>
      simp only [stored] at member
      exact ih member
    | some deleted =>
      simp only [stored] at member
      rcases List.mem_cons.mp member with rfl | later
      · exact ⟨deleted, rfl⟩
      · exact ih later

/-- A decision on a withdrawn route needs a prefix without chosen routes. -/
theorem decisionProcessLocal_withdraw (peer : BgpPeer) (deleted : RibTuple) :
    peer.decisionProcessLocal (.withdraw deleted) =
      if peer.localRib.first deleted.dest = none then some (peer, none) else none := by
  rcases stored : peer.localRib.get deleted.dest with _ | _ | _ <;>
    simp [decisionProcessLocal, Rib.first, stored]

theorem decisionLoop_withdraw_iff {updates : List Update}
    (withdraws : ∀ update ∈ updates, ∃ deleted, update = .withdraw deleted) :
    peer.decisionLoop updates = some (after, found) ↔
      (∀ update ∈ updates, peer.localRib.first update.route.dest = none) ∧
        after = peer ∧ found = [] := by
  induction updates generalizing found with
  | nil =>
    rw [decisionLoop, Option.some.injEq, Prod.mk.injEq]
    constructor
    · rintro ⟨rfl, rfl⟩
      exact ⟨nofun, rfl, rfl⟩
    · rintro ⟨-, rfl, rfl⟩
      exact ⟨rfl, rfl⟩
  | cons update rest ih =>
    rw [List.forall_mem_cons] at withdraws ⊢
    obtain ⟨⟨deleted, rfl⟩, withdraws⟩ := withdraws
    rw [decisionLoop, decisionProcessLocal_withdraw, Update.route]
    by_cases absent : peer.localRib.first deleted.dest = none
    · rw [if_pos absent, Option.bind_some, Option.map_eq_some_iff]
      constructor
      · rintro ⟨⟨final, later⟩, looped, result⟩
        cases result
        obtain ⟨others, rfl, rfl⟩ := (ih withdraws).mp looped
        exact ⟨⟨absent, others⟩, rfl, rfl⟩
      · rintro ⟨⟨-, others⟩, rfl, rfl⟩
        exact ⟨(after, []), (ih withdraws).mpr ⟨others, rfl, rfl⟩, rfl⟩
    · rw [if_neg absent, Option.bind_none]
      constructor
      · nofun
      · rintro ⟨⟨absentToo, -⟩, -⟩
        exact absurd absentToo absent

/-- Nothing is withdrawn exactly if the neighbor has no route for the prefixes. -/
theorem withdrawLoop_eq_nil_iff :
    (withdrawLoop neighbor input dests).2 = [] ↔
      ∀ dest ∈ dests, input.get dest neighbor = none := by
  induction dests with
  | nil => exact iff_of_true rfl nofun
  | cons dest rest ih =>
    rw [withdrawLoop, List.forall_mem_cons]
    cases stored : input.get dest neighbor with
    | none => simp [ih]
    | some deleted => simp

/-- Nothing is withdrawn if the routes of the neighbors have chosen routes beside them, and
the withdrawn ones have not. -/
theorem withdrawLoop_nil_of_absent
    (known : ∀ dest, ∀ route ∈ peer.inputRib.getAll dest, (peer.localRib.first dest).isSome)
    (absent : ∀ update ∈ (withdrawLoop neighbor peer.inputRib dests).2,
      peer.localRib.first update.route.dest = none) :
    (withdrawLoop neighbor peer.inputRib dests).2 = [] := by
  cases isUpdates : (withdrawLoop neighbor peer.inputRib dests).2 with
  | nil => rfl
  | cons update later =>
    obtain ⟨deleted, rfl, stored⟩ := withdrawLoop_cons isUpdates
    have isSome := known deleted.dest deleted stored
    have isNone : peer.localRib.first deleted.dest = none :=
      absent (.withdraw deleted) (isUpdates ▸ List.mem_cons_self)
    rw [isNone] at isSome
    cases isSome

end BgpPeer

/-! ## The routes of a message -/

/-- The prefixes that a message announces. -/
def announcedDests (message : RouteMessage) : List IpPrefix :=
  match message.body.bind UpdateBody.announce with
  | none => []
  | some groups => groups.flatMap Prod.snd

/-- An announcement comes with attributes. -/
def Attributed (message : RouteMessage) : Prop :=
  announcedDests message ≠ [] → (message.body.bind UpdateBody.attributes).isSome

instance (message : RouteMessage) : Decidable (Attributed message) :=
  inferInstanceAs (Decidable (_ → _))

namespace BgpPeer

variable {peer after : BgpPeer} {message : RouteMessage} {updates : List Update}

/-- The routes of a message that the peer takes into its input table. -/
def accepted (peer : BgpPeer) (message : RouteMessage) : List RibTuple :=
  match message.body with
  | none => []
  | some body =>
    if body.attributes.any peer.loopDetected then []
    else
      match body.announce, body.attributes with
      | some announce, some attributes => announcedRoutes message attributes announce
      | _, _ => []

theorem announcedRoutes_dests (message : RouteMessage) (attributes : Attributes)
    (announce : List (BitVec 32 × List IpPrefix)) :
    (announcedRoutes message attributes announce).map RibTuple.dest =
      announce.flatMap Prod.snd := by
  simp [announcedRoutes, List.map_flatMap, Function.comp_def]

/-- The prefixes that a message makes the peer withdraw. -/
def withdrawn (peer : BgpPeer) (message : RouteMessage) : List IpPrefix :=
  match message.body with
  | none => []
  | some body =>
    if body.attributes.any peer.loopDetected then []
    else
      match body.announce, body.withdraw with
      | none, some dests => dests
      | _, _ => []

/-- A message brings no routes, or those that it announces with its attributes. -/
theorem accepted_cases (peer : BgpPeer) (message : RouteMessage) :
    peer.accepted message = [] ∨ ∃ body ∈ message.body, ∃ announce ∈ body.announce,
      ∃ attributes, peer.loopDetected attributes = false ∧
        peer.accepted message = announcedRoutes message attributes announce := by
  unfold accepted
  cases message.body with
  | none => exact .inl rfl
  | some body =>
    dsimp only
    split
    · exact .inl rfl
    · rename_i notLooped
      cases isAnnounce : body.announce with
      | none => exact .inl rfl
      | some announce =>
        cases isAttributes : body.attributes with
        | none => exact .inl rfl
        | some attributes =>
          rw [isAttributes, Option.any_some, Bool.not_eq_true] at notLooped
          exact .inr ⟨body, rfl, announce, isAnnounce, attributes, notLooped, rfl⟩

theorem accepted_dests (peer : BgpPeer) (message : RouteMessage) :
    peer.accepted message = [] ∨
      (peer.accepted message).map RibTuple.dest = announcedDests message := by
  refine (accepted_cases peer message).imp_right ?_
  rintro ⟨body, isBody, announce, isAnnounce, attributes, -, isAccepted⟩
  rw [isAccepted, announcedRoutes_dests, announcedDests, Option.mem_def.mp isBody,
    Option.bind_some, Option.mem_def.mp isAnnounce]

theorem accepted_dest (member : dest ∈ (peer.accepted message).map RibTuple.dest) :
    dest ∈ announcedDests message := by
  rcases accepted_dests peer message with nothing | isDests
  · rw [nothing] at member
    cases member
  · exact isDests ▸ member

/-- The routes of a message have its neighbor and one path and discriminator. -/
theorem accepted_attributes (peer : BgpPeer) (message : RouteMessage) :
    ∃ asPath med, ∀ route ∈ peer.accepted message,
      route.neighbor = message.neighbor ∧ route.asPath = asPath ∧ route.med = med ∧
        (peer.conf.allowasIn = false → peer.conf.asn ∉ asPath) := by
  rcases accepted_cases peer message with nothing |
    ⟨_, -, announce, -, attributes, notLooped, isAccepted⟩
  · exact ⟨[], none, by rw [nothing]; nofun⟩
  · refine ⟨attributes.asPath, attributes.med, fun route member => ?_⟩
    simp only [isAccepted, announcedRoutes, List.mem_flatMap, List.mem_map] at member
    obtain ⟨group, -, dest, -, rfl⟩ := member
    refine ⟨rfl, rfl, rfl, fun strict inPath => ?_⟩
    simp [loopDetected, strict, inPath] at notLooped

/-- `update` on a message with attributes: routes are taken in, or prefixes withdrawn. -/
theorem update_of_attributed (peer : BgpPeer) (attributed : Attributed message) :
    (peer.withdrawn message = [] ∧ peer.update message = some
        ({ peer with inputRib := (peer.accepted message).foldl AdjRibIn.update peer.inputRib },
          (peer.accepted message).map .announce)) ∨
      peer.accepted message = [] ∧ peer.update message = some
        ({ peer with inputRib := (withdrawLoop message.neighbor peer.inputRib
            (peer.withdrawn message)).1 },
          (withdrawLoop message.neighbor peer.inputRib (peer.withdrawn message)).2) := by
  unfold update accepted withdrawn
  cases isBody : message.body with
  | none => exact .inl ⟨rfl, rfl⟩
  | some body =>
    dsimp only
    by_cases looped : body.attributes.any peer.loopDetected
    · rw [if_pos looped, if_pos looped, if_pos looped]
      exact .inl ⟨rfl, rfl⟩
    rw [if_neg looped, if_neg looped, if_neg looped]
    cases isAnnounce : body.announce with
    | none =>
      cases isWithdraw : body.withdraw with
      | none => exact .inl ⟨rfl, rfl⟩
      | some dests => exact .inr ⟨rfl, rfl⟩
    | some announce =>
      cases isAttributes : body.attributes with
      | some attributes =>
        refine .inl ⟨rfl, ?_⟩
        dsimp only
        rw [announceLoop_eq]
      | none =>
        refine .inl ⟨rfl, if_pos ?_⟩
        have nothing : announcedDests message = [] := by
          by_contra something
          have isSome := attributed something
          rw [isBody, Option.bind_some, isAttributes] at isSome
          cases isSome
        rw [announcedDests, isBody, Option.bind_some, isAnnounce] at nothing
        exact List.flatMap_eq_nil_iff.mp nothing

/-- A message that is taken in without an exception has attributes if it needs them. -/
theorem attributed_of_update (updated : (peer.update message).isSome) : Attributed message := by
  intro something
  unfold announcedDests at something
  unfold update at updated
  cases isBody : message.body with
  | none => simp [isBody] at something
  | some body =>
    cases isAttributes : body.attributes with
    | some attributes => simp [isAttributes]
    | none =>
      simp only [isBody, Option.bind_some, isAttributes] at something updated
      cases isAnnounce : body.announce with
      | none => simp [isAnnounce] at something
      | some groups =>
        rw [isAnnounce] at something
        simp [isAnnounce, ← List.flatMap_eq_nil_iff, something] at updated

theorem update_cases (updated : peer.update message = some (after, updates)) :
    (updates = (peer.accepted message).map .announce ∧
      after = { peer with
        inputRib := (peer.accepted message).foldl AdjRibIn.update peer.inputRib }) ∨
    ∃ dests, peer.accepted message = [] ∧
      updates = (withdrawLoop message.neighbor peer.inputRib dests).2 ∧
      after = { peer with
        inputRib := (withdrawLoop message.neighbor peer.inputRib dests).1 } := by
  rcases update_of_attributed peer (attributed_of_update (Option.isSome_of_eq_some updated)) with
    ⟨-, taken⟩ | ⟨noAccepted, withdrew⟩
  · cases taken.symm.trans updated
    exact .inl ⟨rfl, rfl⟩
  · cases withdrew.symm.trans updated
    exact .inr ⟨peer.withdrawn message, noAccepted, rfl, rfl⟩

end BgpPeer

end Horse.Bgp
