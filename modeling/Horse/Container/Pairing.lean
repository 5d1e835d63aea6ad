/-!
# Pairings

A pairing joins every point with at most one other, with a label on both sides.  Joining two
points that have other partners leaves these with a partner that has given them up.
-/

namespace Horse.Container

universe u v

variable {α : Type u} {β : Type v}

/-- The partner of a point has the point as its partner, with the same label. -/
def Paired (partner : α → Option (α × β)) : Prop :=
  ∀ point other label, partner point = some (other, label) → partner other = some (point, label)

/-- A point without a partner other than these two. -/
def FreeFor (partner : α → Option (α × β)) (first second point : α) : Prop :=
  ∀ other label, partner point = some (other, label) → other = first ∨ other = second

variable [DecidableEq α]

/-- Two points are made each other's partner. -/
def join (partner : α → Option (α × β)) (first second : α) (label : β) : α → Option (α × β) :=
  fun point =>
    if point = second then some (first, label)
    else if point = first then some (second, label)
    else partner point

variable {partner : α → Option (α × β)} {first second : α} {label : β}

theorem join_second : join partner first second label second = some (first, label) :=
  if_pos rfl

theorem join_first : join partner first second label first = some (second, label) := by
  unfold join
  split
  · rename_i same
    rw [same]
  · exact if_pos rfl

variable {point : α} {joins : List (α × α × β)}

theorem join_of_ne (notFirst : point ≠ first) (notSecond : point ≠ second) :
    join partner first second label point = partner point := by
  rw [join, if_neg notSecond, if_neg notFirst]

/-- After two points are joined, an end that had another partner is not its partner. -/
theorem FreeFor.of_paired_join (paired : Paired partner)
    (joined : Paired (join partner first second label)) (isEnd : point = first ∨ point = second) :
    FreeFor partner first second point := by
  intro other old wasPartner
  refine Decidable.byContradiction fun together => ?_
  have apart := not_or.mp together
  have stays : join partner first second label other = some (point, old) := by
    rw [join_of_ne apart.1 apart.2]
    exact paired point other old wasPartner
  have back := joined other point old stays
  rcases isEnd with rfl | rfl
  · rw [join_first] at back
    cases back
    exact apart.2 rfl
  · rw [join_second] at back
    cases back
    exact apart.1 rfl

/-- Two points can be joined exactly if none of them has another partner. -/
theorem paired_join_iff (paired : Paired partner) :
    Paired (join partner first second label) ↔
      FreeFor partner first second first ∧ FreeFor partner first second second := by
  constructor
  · intro joined
    exact ⟨.of_paired_join paired joined (.inl rfl), .of_paired_join paired joined (.inr rfl)⟩
  · rintro ⟨freeFirst, freeSecond⟩ point other found isPartner
    by_cases isSecond : point = second
    · subst isSecond
      rw [join_second] at isPartner
      cases isPartner
      exact join_first
    by_cases isFirst : point = first
    · subst isFirst
      rw [join_first] at isPartner
      cases isPartner
      exact join_second
    rw [join_of_ne isFirst isSecond] at isPartner
    have back := paired point other found isPartner
    rw [join_of_ne, back]
    · rintro rfl
      exact (freeFirst point found back).elim isFirst isSecond
    · rintro rfl
      exact (freeSecond point found back).elim isFirst isSecond

/-! ## Sequences of joins -/

/-- The partner of a point after a sequence of joins, of which the last one decides. -/
def partnerIn : List (α × α × β) → α → Option (α × β)
  | [], _ => none
  | (first, second, label) :: joins, point =>
    (partnerIn joins point).or (join (fun _ => none) first second label point)

/-- Joins that are made one after the other. -/
def joinAll (partner : α → Option (α × β)) (joins : List (α × α × β)) : α → Option (α × β) :=
  joins.foldl (fun partner next => join partner next.1 next.2.1 next.2.2) partner

theorem join_eq_or (point : α) :
    join partner first second label point =
      (join (fun _ => none) first second label point).or (partner point) := by
  unfold join
  split
  · rfl
  split
  · rfl
  · rfl

theorem joinAll_eq_or (joins : List (α × α × β)) (point : α) :
    joinAll partner joins point = (partnerIn joins point).or (partner point) := by
  induction joins generalizing partner with
  | nil => rfl
  | cons next joins ih =>
    obtain ⟨first, second, label⟩ := next
    change joinAll (join partner first second label) joins point = _
    rw [ih, join_eq_or, partnerIn, Option.or_assoc]

/-- A partner comes from one of the joins. -/
theorem exists_join_of_partnerIn {other : α} (found : partnerIn joins point = some (other, label)) :
    (point, other, label) ∈ joins ∨ (other, point, label) ∈ joins := by
  induction joins with
  | nil => cases found
  | cons next joins ih =>
    obtain ⟨first, second, made⟩ := next
    rw [partnerIn, Option.or_eq_some_iff] at found
    rcases found with later | ⟨-, now⟩
    · exact (ih later).imp (List.mem_cons_of_mem _) (List.mem_cons_of_mem _)
    by_cases isSecond : point = second
    · subst isSecond
      rw [join_second] at now
      cases now
      exact .inr List.mem_cons_self
    by_cases isFirst : point = first
    · subst isFirst
      rw [join_first] at now
      cases now
      exact .inl List.mem_cons_self
    rw [join_of_ne isFirst isSecond] at now
    cases now

theorem partnerIn_eq_none (apart : ∀ next ∈ joins, point ≠ next.1 ∧ point ≠ next.2.1) :
    partnerIn joins point = none := by
  cases found : partnerIn joins point with
  | none => rfl
  | some pair =>
    obtain ⟨other, label⟩ := pair
    rcases exists_join_of_partnerIn found with isFirst | isSecond
    · exact absurd rfl (apart _ isFirst).1
    · exact absurd rfl (apart _ isSecond).2

/-- A point that only one join has gets the partner of that join. -/
theorem partnerIn_of_only {next : α × α × β} (made : next ∈ joins)
    (only : ∀ other ∈ joins, point = other.1 ∨ point = other.2.1 → other = next) :
    partnerIn joins point = join (fun _ => none) next.1 next.2.1 next.2.2 point := by
  induction joins with
  | nil => cases made
  | cons head joins ih =>
    rw [List.forall_mem_cons] at only
    by_cases later : next ∈ joins
    · rw [partnerIn, ih later only.2]
      by_cases touched : point = head.1 ∨ point = head.2.1
      · rw [only.1 touched]
        simp
      · rw [not_or] at touched
        rw [join_of_ne touched.1 touched.2]
        simp
    · obtain rfl := (List.mem_cons.mp made).resolve_right later
      have apart : ∀ other ∈ joins, point ≠ other.1 ∧ point ≠ other.2.1 := by
        intro other isLater
        rw [← not_or]
        intro touched
        exact later (only.2 other isLater touched ▸ isLater)
      rw [partnerIn, partnerIn_eq_none apart]
      simp

end Horse.Container
