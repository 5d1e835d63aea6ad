import Horse.Container.Worklist
import Horse.Net.PortArithmetic
import Horse.Sim.Multicast
import Mathlib.Algebra.Order.BigOperators.Group.List
import Mathlib.Algebra.Order.Ring.Nat

/-!
# Output ports

The loops over the output ports of a netflow take the list from its head, and replace a
flood by the ports of the datapath at the end of the list.  Every entry of the list should
become an event, and every flood an event for each port of the datapath but the one that the
netflow came from.
-/

namespace Horse.Sim

open Horse.Container Horse.Lib Horse.Net Horse.Transition

/-- What an event does with a netflow. -/
inductive Outcome
  | openflow (dpId : Nat)
  | send (uuid : Nat) (port : BitVec 32)
  deriving DecidableEq, Repr

/-- The outcome that an event of the loops stands for. -/
def SimEvent.outcome? : SimEvent → Option Outcome
  | .ofMsgOut _ dpId _ => some (.openflow dpId)
  | .flowSend _ nodeId _ port _ => some (.send nodeId port)
  | _ => none

/-- What a port that is not a flood leads to when a netflow is forwarded. -/
def served (dp : Datapath) (port : BitVec 32) : Outcome :=
  if port = ofppController then .openflow dp.dpId else .send dp.base.uuid port

/-- What an entry of the list of output ports asks for when a netflow is forwarded. -/
def asked (dp : Datapath) (inPort port : BitVec 32) : List Outcome :=
  if port = ofppFlood then (floodPorts dp.base inPort).map (.send dp.base.uuid)
  else [served dp port]

/-- The transmission time on a port is defined. -/
def TxDefined (n : Node) (port : BitVec 32) : Prop :=
  ∀ p ∈ nodePort n port, bitsPerMicrosecond p.currSpeed ≠ 0

instance (n : Node) (port : BitVec 32) : Decidable (TxDefined n port) :=
  inferInstanceAs (Decidable (∀ p ∈ _, _))

/-- The ports that take the place of an output port. -/
def growth (n : Node) (inPort port : BitVec 32) : Option (List (BitVec 32)) :=
  if port = ofppFlood then some (floodPorts n inPort) else none

section Growth

variable (n : Node) (inPort : BitVec 32)

theorem growth_flood : growth n inPort ofppFlood = some (floodPorts n inPort) :=
  if_pos rfl

theorem growth_eq_none_iff {port : BitVec 32} : growth n inPort port = none ↔ port ≠ ofppFlood := by
  simp [growth]

/-- The list of output ports is settled if a flood does not lead to another one. -/
theorem settled_growth_iff (ports : List (BitVec 32)) :
    Settled (growth n inPort) ports ↔ (ofppFlood ∈ ports → ofppFlood ∉ floodPorts n inPort) := by
  constructor
  · intro settled member isPort
    have plain := settled ofppFlood member _ (growth_flood n inPort) ofppFlood isPort
    exact (growth_eq_none_iff n inPort).mp plain rfl
  · intro ends port member more grows other isOther
    have isFlood : port = ofppFlood := by
      by_contra notFlood
      rw [(growth_eq_none_iff n inPort).mpr notFlood] at grows
      cases grows
    rw [isFlood, growth_flood] at grows
    cases grows
    rw [growth_eq_none_iff]
    rintro rfl
    exact ends (isFlood ▸ member) isOther

/-- The loop over a list of output ports ends exactly if the list is settled. -/
theorem drain_growth_iff (ports : List (BitVec 32)) :
    (∃ turns order, drain (growth n inPort) turns ports = some order) ↔
      (ofppFlood ∈ ports → ofppFlood ∉ floodPorts n inPort) := by
  constructor
  · rintro ⟨turns, order, drained⟩ member isPort
    rw [drain_of_self (growth_flood n inPort) isPort member] at drained
    cases drained
  · intro ends
    obtain ⟨order, drained, -⟩ :=
      drain_of_settled ((settled_growth_iff n inPort ports).mpr ends) (Nat.lt_succ_self _)
    exact ⟨_, order, drained⟩

end Growth

theorem SamePorts.growth {n other : Node} (same : SamePorts n other) (inPort : BitVec 32) :
    growth other inPort = growth n inPort := by
  funext port
  rw [Sim.growth, Sim.growth, same.floodPorts]

/-! ## Charging ports -/

section Charging

/-- Charge a port of a node, whose transmission time has to be defined. -/
def chargeStep (rate : Int) : Step Node (BitVec 32) := fun n port =>
  if TxDefined n port then nodeUpdatePortCapacity n rate port else none

variable {n after : Node} {rate : Int} {port : BitVec 32}

theorem txDefined_of_missing (missing : nodePort n port = none) : TxDefined n port := by
  intro p isPort
  rw [missing] at isPort
  cases isPort

variable {p : Port}

theorem txDefined_iff (found : nodePort n port = some p) :
    TxDefined n port ↔ bitsPerMicrosecond p.currSpeed ≠ 0 := by
  rw [TxDefined, found]
  simp

theorem txEnd_wrappingSum (n : Node) (port : BitVec 32) (byteCnt start : Nat) :
    ∃ time, txEnd wrappingSum n port byteCnt start =
      if TxDefined n port then some time else none := by
  unfold txEnd
  cases found : nodePort n port with
  | none =>
    exact ⟨start, (if_pos (txDefined_of_missing found)).symm⟩
  | some p =>
    simp only [Option.map_some, txTime_eq, txDefined_iff found, ite_not]
    split
    · exact ⟨0, rfl⟩
    · exact ⟨_, rfl⟩

/-- `chargePort` on a datapath. -/
theorem chargePort_datapath (dp : Datapath) (nf : Netflow) (port : BitVec 32) :
    ∃ time, chargePort wrappingSum (.datapath dp) nf port =
      (chargeStep (flowRate nf) dp.base port).map fun n =>
        (.datapath { dp with base := n }, { nf with startTime := time }) := by
  obtain ⟨time, isEnd⟩ := txEnd_wrappingSum dp.base port nf.byteCnt nf.startTime
  refine ⟨time, ?_⟩
  unfold chargePort chargeStep
  rw [TopoNode.base]
  cases updated : nodeUpdatePortCapacity dp.base (flowRate nf) port with
  | none =>
    rw [Option.bind_none, ite_self]
    rfl
  | some n =>
    rw [Option.bind_some, nodeAddTxTime_eq_map,
      (nodeUpdatePortCapacity_samePorts updated).txEnd, isEnd]
    split <;> rfl

theorem chargeStep_samePorts (charged : chargeStep rate n port = some after) :
    SamePorts n after := by
  unfold chargeStep at charged
  split at charged
  · exact nodeUpdatePortCapacity_samePorts charged
  · cases charged

theorem chargeStep_uuid (charged : chargeStep rate n port = some after) :
    after.uuid = n.uuid := by
  unfold chargeStep at charged
  split at charged
  · exact nodeUpdatePortCapacity_uuid charged
  · cases charged

theorem nodeUpdatePortCapacity_of_port (rate : Int) (found : nodePort n port = some p) :
    nodeUpdatePortCapacity n rate port =
      (updateLoad p.bufferState rate).map fun ts =>
        n.updatePort port fun p => { p with bufferState := ts } := by
  rw [nodeUpdatePortCapacity, found]
  rfl

end Charging

/-! ## Forwarding -/

section Forwarding

/-- The outcomes of ports that are taken in an order, as long as they can be charged. -/
def outcomesOf (dp : Datapath) (rate : Int) (order : List (BitVec 32)) :
    Option (List (Option Outcome)) :=
  (run (chargeStep rate) dp.base (order.filter (· ≠ ofppController))).map fun _ =>
    order.map fun port => some (served dp port)

variable {dp : Datapath} {nf : Netflow} {rate : Int} {flowId turns : Nat}

theorem outcomesOf_controller (dp : Datapath) (rate : Int) (order : List (BitVec 32)) :
    outcomesOf dp rate (ofppController :: order) =
      (outcomesOf dp rate order).map (some (.openflow dp.dpId) :: ·) := by
  rw [outcomesOf, outcomesOf, Option.map_map, List.filter_cons_of_neg (by simp)]
  rfl

variable {port : BitVec 32} {order ports : List (BitVec 32)}

theorem outcomesOf_of_charged (notController : port ≠ ofppController) {n : Node}
    (charged : chargeStep rate dp.base port = some n) (order : List (BitVec 32)) :
    outcomesOf dp rate (port :: order) =
      (outcomesOf { dp with base := n } rate order).map (some (.send dp.base.uuid port) :: ·) := by
  have sameServed : served { dp with base := n } = served dp := by
    funext other
    rw [served, served, chargeStep_uuid charged]
  rw [outcomesOf, outcomesOf, Option.map_map,
    List.filter_cons_of_pos (by simpa using notController), run, charged, Option.bind_some,
    sameServed, List.map_cons, served, if_neg notController]
  rfl

theorem outcomesOf_of_uncharged (notController : port ≠ ofppController)
    (uncharged : chargeStep rate dp.base port = none) (order : List (BitVec 32)) :
    outcomesOf dp rate (port :: order) = none := by
  rw [outcomesOf, List.filter_cons_of_pos (by simpa using notController), run, uncharged]
  rfl

/-- The outcomes of the loop are those of the ports in the order of the work list. -/
theorem outPortLoop_outcomes (flowId turns : Nat) (dp : Datapath) (nf : Netflow) :
    (outPortLoop wrappingSum flowId turns (.datapath dp) nf).map
        (fun out => out.events.map SimEvent.outcome?) =
      (drain (growth dp.base nf.key.inPort) turns nf.outPorts).bind
        (outcomesOf dp (flowRate nf)) := by
  induction turns generalizing dp nf with
  | zero => rfl
  | succ turns ih =>
    rw [outPortLoop]
    cases ports : nf.outPorts with
    | nil => rfl
    | cons port rest =>
      dsimp only
      by_cases isController : port = ofppController
      · have plain : growth dp.base nf.key.inPort port = none := by
          rw [growth_eq_none_iff, isController]
          decide
        subst isController
        have later := ih dp (setReason { nf with outPorts := rest })
        rw [if_pos rfl, drain_cons_bind plain (outcomesOf_controller dp (flowRate nf)), packetIn,
          Option.bind_some, Option.map_map]
        refine Eq.trans ?_ (congrArg (Option.map (some (.openflow dp.dpId) :: ·)) later)
        rw [Option.map_map]
        rfl
      · rw [if_neg isController]
        by_cases isFlood : port = ofppFlood
        · rw [if_pos isFlood, isFlood, drain_cons_of_grow (growth_flood _ _), dpCreateFlood_eq]
          exact ih dp { nf with outPorts := rest ++ floodPorts dp.base nf.key.inPort }
        · have plain : growth dp.base nf.key.inPort port = none :=
            (growth_eq_none_iff _ _).mpr isFlood
          obtain ⟨time, isCharged⟩ := chargePort_datapath dp { nf with outPorts := rest } port
          have sameRate : flowRate { nf with outPorts := rest } = flowRate nf := rfl
          rw [if_neg isFlood, isCharged, sameRate]
          cases charged : chargeStep (flowRate nf) dp.base port with
          | none =>
            rw [drain_cons_of_plain plain]
            cases drain (growth dp.base nf.key.inPort) turns rest with
            | none => rfl
            | some order => exact (outcomesOf_of_uncharged isController charged order).symm
          | some n =>
            have same := chargeStep_samePorts charged
            have later := ih { dp with base := n }
              { nf with outPorts := rest, startTime := time }
            dsimp only at later
            rw [same.growth] at later
            rw [drain_cons_bind plain (outcomesOf_of_charged isController charged),
              Option.map_some, Option.bind_some, Option.map_map]
            refine Eq.trans ?_ (congrArg
              (Option.map (some (.send dp.base.uuid port) :: ·)) later)
            rw [Option.map_map, ← chargeStep_uuid charged]
            rfl

variable {inPort : BitVec 32}

/-- A loop that ends has taken the ports in an order, and could charge all of them. -/
theorem outPortLoop_order {out : Forwarded}
    (looped : outPortLoop wrappingSum flowId turns (.datapath dp) nf = some out) :
    ∃ order, drain (growth dp.base nf.key.inPort) turns nf.outPorts = some order ∧
      (run (chargeStep (flowRate nf)) dp.base (order.filter (· ≠ ofppController))).isSome ∧
      out.events.map SimEvent.outcome? = (order.map (served dp)).map some := by
  have outcomes := outPortLoop_outcomes flowId turns dp nf
  rw [looped, Option.map_some] at outcomes
  obtain ⟨order, n, drained, charged, same⟩ := bind_map_eq_some_iff.mp outcomes.symm
  refine ⟨order, drained, Option.isSome_iff_exists.mpr ⟨n, charged⟩, ?_⟩
  rw [← same, List.map_map]
  rfl

theorem outPortLoop_of_order (flowId : Nat)
    (drained : drain (growth dp.base nf.key.inPort) turns nf.outPorts = some order)
    (charged : (run (chargeStep (flowRate nf)) dp.base
      (order.filter (· ≠ ofppController))).isSome) :
    ∃ out, outPortLoop wrappingSum flowId turns (.datapath dp) nf = some out ∧
      out.events.map SimEvent.outcome? = (order.map (served dp)).map some := by
  obtain ⟨n, isCharged⟩ := Option.isSome_iff_exists.mp charged
  have outcomes := outPortLoop_outcomes flowId turns dp nf
  rw [drained, Option.bind_some, outcomesOf, isCharged, Option.map_some] at outcomes
  obtain ⟨out, looped, same⟩ := Option.map_eq_some_iff.mp outcomes
  refine ⟨out, looped, ?_⟩
  rw [same, List.map_map]
  rfl

end Forwarding

/-! ## Packets-out -/

section PacketOut

variable {dp : Datapath} {nf : Netflow} {evh : EvHandler} {turns : Nat}

/-- The outcomes of ports that are taken in an order, as long as their transmission times are
defined. -/
def sentOf (dp : Datapath) (order : List (BitVec 32)) : Option (List (Option Outcome)) :=
  if ∀ port ∈ order, TxDefined dp.base port then
    some (order.map fun port => some (.send dp.base.uuid port))
  else none

theorem sentOf_nil (dp : Datapath) : sentOf dp [] = some [] :=
  if_pos nofun

variable {port : BitVec 32}

theorem sentOf_cons (dp : Datapath) (tx : TxDefined dp.base port) (order : List (BitVec 32)) :
    sentOf dp (port :: order) = (sentOf dp order).map (some (.send dp.base.uuid port) :: ·) := by
  simp only [sentOf, List.forall_mem_cons, and_iff_right tx]
  split <;> rfl

theorem sentOf_of_undefined (dp : Datapath) (undefined : ¬TxDefined dp.base port)
    (order : List (BitVec 32)) : sentOf dp (port :: order) = none := by
  rw [sentOf, if_neg fun all => undefined (all port List.mem_cons_self)]

theorem packetOutLoop_outcomes (turns : Nat) (dp : Datapath) (evh : EvHandler) (nf : Netflow) :
    (packetOutLoop wrappingSum dp turns evh nf).map (fun out => out.2.map SimEvent.outcome?) =
      (drain (growth dp.base nf.key.inPort) turns nf.outPorts).bind (sentOf dp) := by
  induction turns generalizing evh nf with
  | zero => rfl
  | succ turns ih =>
    rw [packetOutLoop]
    cases ports : nf.outPorts with
    | nil =>
      rw [drain, Option.bind_some, sentOf_nil]
      rfl
    | cons port rest =>
      dsimp only
      by_cases isFlood : port = ofppFlood
      · rw [if_pos isFlood, isFlood, drain_cons_of_grow (growth_flood _ _), dpCreateFlood_eq]
        exact ih evh { nf with outPorts := rest ++ floodPorts dp.base nf.key.inPort }
      · have plain : growth dp.base nf.key.inPort port = none :=
          (growth_eq_none_iff _ _).mpr isFlood
        obtain ⟨time, isEnd⟩ := txEnd_wrappingSum dp.base port nf.byteCnt nf.startTime
        rw [if_neg isFlood, nodeAddTxTime_eq_map, isEnd]
        by_cases tx : TxDefined dp.base port
        · have later := ih
            (evh.addLiveFlow dp.base.uuid { nf with startTime := time, outPorts := [] })
            { nf with outPorts := rest }
          rw [if_pos tx, Option.map_some, Option.bind_some, Option.map_map,
            drain_cons_bind plain (sentOf_cons dp tx)]
          refine Eq.trans ?_ (congrArg
            (Option.map (some (.send dp.base.uuid port) :: ·)) later)
          rw [Option.map_map]
          rfl
        · rw [if_neg tx, drain_cons_of_plain plain]
          cases drain (growth dp.base nf.key.inPort) turns rest with
          | none => rfl
          | some order =>
            rw [Option.map_some, Option.bind_some, sentOf_of_undefined dp tx]
            rfl

end PacketOut

/-! ## Turns -/

/-- The turns that the model gives to a list of output ports are enough. -/
theorem sum_turnsFor_growth (n : Node) (inPort : BitVec 32) (ports : List (BitVec 32)) :
    (ports.map (turnsFor (growth n inPort))).sum < ports.length * (n.ports.length + 1) + 1 := by
  have few : (floodPorts n inPort).length ≤ n.ports.length := by
    rw [floodPorts, List.length_map]
    refine (List.length_filter_le _ _).trans ?_
    rw [List.length_reverse]
  have bounded : ∀ turns ∈ ports.map (turnsFor (growth n inPort)), turns ≤ n.ports.length + 1 := by
    rintro _ member
    obtain ⟨port, -, rfl⟩ := List.mem_map.mp member
    rw [turnsFor, growth]
    split
    · exact Nat.succ_le_succ few
    · exact Nat.succ_le_succ (Nat.zero_le _)
  have total := List.sum_le_card_nsmul _ _ bounded
  rw [List.length_map] at total
  exact Nat.lt_succ_of_le total

/-- `handle_after_flow_recv` returns if its loop ends after any number of turns. -/
theorem handleAfterFlowRecv_isSome_iff (dp : Datapath) (nf : Netflow) (flowId : Nat) :
    (handleAfterFlowRecv wrappingSum (.datapath dp) nf flowId).isSome ↔
      ∃ turns out, outPortLoop wrappingSum flowId turns (.datapath dp) nf = some out := by
  constructor
  · intro isSome
    obtain ⟨out, looped⟩ := Option.isSome_iff_exists.mp isSome
    exact ⟨_, out, looped⟩
  · rintro ⟨turns, out, looped⟩
    obtain ⟨order, drained, charged, -⟩ := outPortLoop_order looped
    have ends := (drain_growth_iff _ _ _).mp ⟨turns, order, drained⟩
    obtain ⟨other, otherDrained, -⟩ := drain_of_settled ((settled_growth_iff _ _ _).mpr ends)
      (sum_turnsFor_growth dp.base nf.key.inPort nf.outPorts)
    rw [drain_unique drained otherDrained] at charged
    obtain ⟨final, isFinal, -⟩ := outPortLoop_of_order flowId otherDrained charged
    exact Option.isSome_iff_exists.mpr ⟨final, isFinal⟩

/-- A datapath with one port, which has a given number. -/
def onePort (port : BitVec 32) : Datapath :=
  dpAddPort (dpNew 1 1) port 0x41 1000000

end Horse.Sim
