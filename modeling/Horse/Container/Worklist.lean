import Mathlib.Algebra.BigOperators.Group.List.Basic
import Mathlib.Data.BitVec
import Mathlib.Data.List.Basic

/-!
# Work lists

A work list is processed from its head.  Some items are not processed themselves, but
replaced by others, which go to the end of the list.
-/

namespace Horse.Container

universe u

variable {α : Type u} (grow : α → Option (List α))

/-- The items that a work list has processed after a number of turns, in their order. -/
def drain : Nat → List α → Option (List α)
  | 0, _ => none
  | _ + 1, [] => some []
  | turns + 1, item :: rest =>
    match grow item with
    | some more => drain turns (rest ++ more)
    | none => (drain turns rest).map (item :: ·)

/-- The items that one item stands for. -/
def once (item : α) : List α :=
  (grow item).getD [item]

/-- The turns that an item takes together with those that it stands for. -/
def turnsFor (item : α) : Nat :=
  ((grow item).map List.length).getD 0 + 1

/-- Nothing in the list is replaced by something that is replaced again. -/
def Settled (work : List α) : Prop :=
  ∀ item ∈ work, ∀ more, grow item = some more → ∀ other ∈ more, grow other = none

variable {grow} {work order : List α} {turns : Nat}

variable {item : α} {more : List α}

theorem drain_cons_of_grow (grows : grow item = some more) (turns : Nat) (rest : List α) :
    drain grow (turns + 1) (item :: rest) = drain grow turns (rest ++ more) := by
  rw [drain, grows]

theorem drain_cons_of_plain (plain : grow item = none) (turns : Nat) (rest : List α) :
    drain grow (turns + 1) (item :: rest) = (drain grow turns rest).map (item :: ·) := by
  rw [drain, plain]

/-- What is done with an item can be done before the rest of the list is processed. -/
theorem drain_cons_bind {β γ : Type*} (plain : grow item = none) {serve : List α → Option β}
    {later : List α → Option γ} {add : γ → β}
    (served : ∀ order, serve (item :: order) = (later order).map add) (turns : Nat)
    (rest : List α) :
    (drain grow (turns + 1) (item :: rest)).bind serve =
      ((drain grow turns rest).bind later).map add := by
  rw [drain_cons_of_plain plain]
  cases drain grow turns rest with
  | none => rfl
  | some order => exact served order

section

variable (drained : drain grow turns work = some order)

include drained

/-- Only items that are not replaced are processed. -/
theorem plain_of_drain :
    ∀ item ∈ order, grow item = none := by
  induction turns generalizing work order with
  | zero => cases drained
  | succ turns ih =>
    cases work with
    | nil =>
      cases drained
      exact nofun
    | cons item rest =>
      cases grows : grow item with
      | some others =>
        rw [drain_cons_of_grow grows] at drained
        exact ih drained
      | none =>
        rw [drain_cons_of_plain grows] at drained
        obtain ⟨tail, tailDrained, rfl⟩ := Option.map_eq_some_iff.mp drained
        exact List.forall_mem_cons.mpr ⟨grows, ih tailDrained⟩

/-- More turns change nothing. -/
theorem drain_mono {more : Nat} (longer : turns ≤ more) : drain grow more work = some order := by
  induction turns generalizing work order more with
  | zero => cases drained
  | succ turns ih =>
    obtain ⟨more, rfl⟩ : ∃ fewer, more = fewer + 1 := ⟨more - 1, by omega⟩
    have shorter : turns ≤ more := Nat.le_of_succ_le_succ longer
    cases work with
    | nil => exact drained
    | cons item rest =>
      cases grows : grow item with
      | some others =>
        rw [drain_cons_of_grow grows] at drained ⊢
        exact ih drained shorter
      | none =>
        rw [drain_cons_of_plain grows] at drained ⊢
        obtain ⟨tail, tailDrained, rfl⟩ := Option.map_eq_some_iff.mp drained
        rw [ih tailDrained shorter]
        rfl

theorem drain_unique {more : Nat} {other : List α}
    (otherDrained : drain grow more work = some other) : order = other := by
  have here := drain_mono drained (Nat.le_max_left turns more)
  have there := drain_mono otherDrained (Nat.le_max_right turns more)
  exact Option.some.inj (here.symm.trans there)

end

theorem flatMap_once_of_plain (plain : ∀ item ∈ work, grow item = none) :
    work.flatMap (once grow) = work := by
  have single : work.flatMap (once grow) = work.flatMap pure := by
    apply List.flatMap_congr
    intro item member
    rw [once, plain item member]
    rfl
  rw [single]
  exact List.flatMap_singleton' work

theorem sum_turnsFor_of_plain (plain : ∀ item ∈ work, grow item = none) :
    (work.map (turnsFor grow)).sum = work.length := by
  have single : work.map (turnsFor grow) = work.map fun _ => 1 := by
    apply List.map_congr_left
    intro item member
    rw [turnsFor, plain item member]
    rfl
  rw [single]
  simp

/-- A settled list is processed in the turns of its items, and each item once. -/
theorem drain_of_settled (settled : Settled grow work)
    (enough : (work.map (turnsFor grow)).sum < turns) :
    ∃ order, drain grow turns work = some order ∧ order.Perm (work.flatMap (once grow)) := by
  induction turns generalizing work with
  | zero => exact absurd enough (Nat.not_lt_zero _)
  | succ turns ih =>
    cases work with
    | nil => exact ⟨[], rfl, .nil⟩
    | cons item rest =>
      have settledRest : Settled grow rest := fun other member =>
        settled other (List.mem_cons_of_mem _ member)
      rw [List.map_cons, List.sum_cons] at enough
      cases grows : grow item with
      | none =>
        have isOnce : once grow item = [item] := by
          rw [once, grows]
          rfl
        have oneTurn : turnsFor grow item = 1 := by
          rw [turnsFor, grows]
          rfl
        obtain ⟨order, drained, perm⟩ := ih settledRest (by omega)
        refine ⟨item :: order, ?_, ?_⟩
        · rw [drain_cons_of_plain grows, drained]
          rfl
        · rw [List.flatMap_cons, isOnce]
          exact perm.cons item
      | some more =>
        have plain : ∀ other ∈ more, grow other = none :=
          settled item List.mem_cons_self more grows
        have isOnce : once grow item = more := by
          rw [once, grows]
          rfl
        have itsTurns : turnsFor grow item = more.length + 1 := by
          rw [turnsFor, grows]
          rfl
        have settledBoth : Settled grow (rest ++ more) := by
          intro other member others growsToo
          rcases List.mem_append.mp member with inRest | inMore
          · exact settledRest other inRest others growsToo
          · rw [plain other inMore] at growsToo
            cases growsToo
        obtain ⟨order, drained, perm⟩ := ih settledBoth (by
          rw [List.map_append, List.sum_append, sum_turnsFor_of_plain plain]
          omega)
        refine ⟨order, ?_, ?_⟩
        · rw [drain_cons_of_grow grows, drained]
        · rw [List.flatMap_append, flatMap_once_of_plain plain] at perm
          rw [List.flatMap_cons, isOnce]
          exact perm.trans List.perm_append_comm

/-- An item that is among those it stands for is never done. -/
theorem drain_of_self (grows : grow item = some more) (isSelf : item ∈ more)
    (member : item ∈ work) (turns : Nat) : drain grow turns work = none := by
  induction turns generalizing work with
  | zero => rfl
  | succ turns ih =>
    cases work with
    | nil => cases member
    | cons first rest =>
      cases growsFirst : grow first with
      | none =>
        have inRest : item ∈ rest := by
          refine List.mem_of_ne_of_mem ?_ member
          rintro rfl
          rw [grows] at growsFirst
          cases growsFirst
        rw [drain_cons_of_plain growsFirst, ih inRest]
        rfl
      | some others =>
        rw [drain_cons_of_grow growsFirst]
        apply ih
        rcases List.mem_cons.mp member with rfl | inRest
        · cases grows.symm.trans growsFirst
          exact List.mem_append_right _ isSelf
        · exact List.mem_append_left _ inRest

end Horse.Container
