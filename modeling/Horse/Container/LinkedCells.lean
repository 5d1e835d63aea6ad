import Horse.Container.LinkedList
import Mathlib.Logic.Function.Basic

/-!
# Linked lists in memory

The `utlist` macros as they work on pointers: an element is its address, and a memory has
the `next` member of every element.  The walks of the macros are bounded by a number of
turns, and a null pointer that is followed makes the result undefined.

`Linked` says which list a pointer stands for.  On elements that are linked at most once,
the macros do to the memory what `insertInorder` and `llDelete` do to the list.
-/

namespace Horse.Container

universe u

variable {α : Type u}

/-- The pointer to the first element, and the `next` member of every element. -/
structure Links (α : Type u) where
  head : Option α
  next : α → Option α

/-! ## The macros -/

section Macros

variable [DecidableEq α] (cmp : α → α → Int)

/-- Assign the `next` member of an element. -/
def Links.setNext (links : Links α) (el : α) (target : Option α) : Links α :=
  { links with next := Function.update links.next el target }

omit [DecidableEq α] in
/-- The loop of `LL_LOWER_BOUND`. -/
def lowerBoundFrom (next : α → Option α) (like : α) : Nat → α → Option α
  | 0, _ => none
  | turns + 1, elt =>
    match next elt with
    | none => some elt
    | some after =>
      if 0 ≤ cmp after like then some elt else lowerBoundFrom next like turns after

omit [DecidableEq α] in
/-- `LL_LOWER_BOUND`: the last element that compares smaller, or the null pointer. -/
def Links.lowerBound (links : Links α) (turns : Nat) (like : α) : Option (Option α) :=
  match links.head with
  | none => some none
  | some head =>
    if 0 ≤ cmp head like then some none
    else (lowerBoundFrom cmp links.next like turns head).map some

/-- `LL_PREPEND`. -/
def Links.prepend (links : Links α) (add : α) : Links α :=
  { links.setNext add links.head with head := some add }

/-- `LL_APPEND_ELEM`. -/
def Links.appendElem (links : Links α) (add : α) : Option α → Links α
  | some el => (links.setNext add (links.next el)).setNext el (some add)
  | none => links.prepend add

/-- `LL_INSERT_INORDER`. -/
def Links.insertInorder (links : Links α) (turns : Nat) (add : α) : Option (Links α) :=
  match links.head with
  | some _ => (links.lowerBound cmp turns add).map (links.appendElem add)
  | none => some (Links.setNext { links with head := some add } add none)

/-- The loop of `LL_DELETE`. -/
def deleteFrom (next : α → Option α) (del : Option α) : Nat → α → Option α
  | 0, _ => none
  | turns + 1, tmp =>
    match next tmp with
    | none => some tmp
    | some after => if some after = del then some tmp else deleteFrom next del turns after

/-- `LL_DELETE`. -/
def Links.delete (links : Links α) (turns : Nat) (del : Option α) : Option (Links α) :=
  if links.head = del then
    links.head.map fun head => { links with head := links.next head }
  else
    links.head.bind fun head =>
      (deleteFrom links.next del turns head).bind fun tmp =>
        match links.next tmp with
        | none => some links
        | some _ => del.map fun del => links.setNext tmp (links.next del)

end Macros

/-! ## The list behind a pointer -/

/-- The elements from a pointer on, up to the null pointer. -/
inductive Linked (next : α → Option α) : Option α → List α → Prop
  | nil : Linked next none []
  | cons {first : α} {rest : List α} (linked : Linked next (next first) rest) :
      Linked next (some first) (first :: rest)

namespace Linked

variable {next next' : α → Option α} {pointer : Option α} {list front back : List α} {el : α}

/-- A pointer stands for one list at most. -/
theorem unique (linked : Linked next pointer list) {other : List α}
    (otherLinked : Linked next pointer other) : list = other := by
  induction linked generalizing other with
  | nil =>
    cases otherLinked
    rfl
  | cons _ ih =>
    cases otherLinked with
    | cons linked => rw [ih linked]

theorem behind (linked : Linked next pointer (front ++ el :: back)) :
    Linked next (next el) back := by
  induction front generalizing pointer with
  | nil =>
    cases linked with
    | cons linked => exact linked
  | cons first rest ih =>
    cases linked with
    | cons linked => exact ih linked

/-- No element is linked twice, since the list behind it would be as long as its own tail. -/
theorem nodup (linked : Linked next pointer list) : list.Nodup := by
  induction linked with
  | nil => exact List.nodup_nil
  | @cons first rest linked ih =>
    refine List.nodup_cons.mpr ⟨fun again => ?_, ih⟩
    obtain ⟨front, back, isRest⟩ := List.append_of_mem again
    rw [isRest] at linked
    have same : back = front ++ first :: back := linked.behind.unique linked
    have longer := congrArg List.length same
    rw [List.length_append, List.length_cons] at longer
    omega

/-- Only the `next` members of the elements matter. -/
theorem congr (linked : Linked next pointer list) (same : ∀ a ∈ list, next' a = next a) :
    Linked next' pointer list := by
  induction linked with
  | nil => exact .nil
  | @cons first rest linked ih =>
    rw [List.forall_mem_cons] at same
    refine .cons ?_
    rw [same.1]
    exact ih same.2

/-- Another list is linked in behind an element. -/
theorem splice (linked : Linked next pointer (front ++ el :: back))
    (same : ∀ a ∈ front, next' a = next a) {new : List α} (linkedIn : Linked next' (next' el) new) :
    Linked next' pointer (front ++ el :: new) := by
  induction front generalizing pointer with
  | nil =>
    cases linked
    exact .cons linkedIn
  | cons first rest ih =>
    rw [List.forall_mem_cons] at same
    cases linked with
    | cons linked =>
      refine .cons ?_
      rw [same.1]
      exact ih linked same.2

end Linked

/-! ## What the macros do to the list -/

section Refinement

variable {cmp : α → α → Int} {links : Links α} {list : List α} {turns : Nat} {next : α → Option α}
  {rest : List α} {del : α}

/-- The walk of `LL_LOWER_BOUND` ends where `insertInorder` puts the element. -/
theorem lowerBoundFrom_spec {like elt : α} (linked : Linked next (some elt) (elt :: rest))
    (smaller : ¬0 ≤ cmp elt like) (enough : rest.length < turns) :
    ∃ front last back, elt :: rest = front ++ last :: back ∧
      lowerBoundFrom cmp next like turns elt = some last ∧
      insertInorder cmp like (elt :: rest) = front ++ last :: like :: back := by
  induction rest generalizing elt turns with
  | nil =>
    obtain ⟨turns, rfl⟩ := Nat.exists_eq_add_one_of_ne_zero (Nat.ne_of_gt enough)
    cases linked with
    | cons linked =>
      generalize after : next elt = pointer at linked
      cases linked
      refine ⟨[], elt, [], rfl, ?_, ?_⟩
      · rw [lowerBoundFrom, after]
      · rw [insertInorder, if_neg smaller]
        rfl
  | cons second rest ih =>
    obtain ⟨turns, rfl⟩ :=
      Nat.exists_eq_add_one_of_ne_zero (Nat.ne_of_gt (Nat.zero_lt_of_lt enough))
    cases linked with
    | cons linked =>
      generalize after : next elt = pointer at linked
      cases linked with
      | cons behind =>
        by_cases found : 0 ≤ cmp second like
        · refine ⟨[], elt, second :: rest, rfl, ?_, ?_⟩
          · simp only [lowerBoundFrom, after, found, if_true]
          · simp only [insertInorder, if_neg smaller, if_pos found, List.nil_append]
        · obtain ⟨front, last, back, isList, walked, inserted⟩ :=
            ih (.cons behind) found (Nat.lt_of_succ_lt_succ enough)
          refine ⟨elt :: front, last, back, by rw [isList, List.cons_append], ?_, ?_⟩
          · simp only [lowerBoundFrom, after, found, if_false, walked]
          · rw [insertInorder, if_neg smaller, inserted, List.cons_append]

variable [DecidableEq α]

/-- The walk of `LL_DELETE` ends in front of the element. -/
theorem deleteFrom_spec {tmp : α} (linked : Linked next (some tmp) (tmp :: rest))
    (other : tmp ≠ del) (member : del ∈ rest) (enough : rest.length < turns) :
    ∃ front last back, tmp :: rest = front ++ last :: del :: back ∧
      deleteFrom next (some del) turns tmp = some last ∧
      (tmp :: rest).erase del = front ++ last :: back := by
  induction rest generalizing tmp turns with
  | nil => exact absurd member List.not_mem_nil
  | cons second rest ih =>
    obtain ⟨turns, rfl⟩ :=
      Nat.exists_eq_add_one_of_ne_zero (Nat.ne_of_gt (Nat.zero_lt_of_lt enough))
    have kept : (tmp :: second :: rest).erase del = tmp :: (second :: rest).erase del :=
      List.erase_cons_tail (by simpa using other)
    cases linked with
    | cons linked =>
      generalize after : next tmp = pointer at linked
      cases linked with
      | cons behind =>
        by_cases found : second = del
        · subst found
          refine ⟨[], tmp, rest, rfl, ?_, ?_⟩
          · simp only [deleteFrom, after, if_true]
          · rw [kept, List.erase_cons_head, List.nil_append]
        · have later : del ∈ rest := (List.mem_cons.mp member).resolve_left (Ne.symm found)
          obtain ⟨front, last, back, isList, walked, erased⟩ :=
            ih (.cons behind) found later (Nat.lt_of_succ_lt_succ enough)
          refine ⟨tmp :: front, last, back, by rw [isList, List.cons_append], ?_, ?_⟩
          · simp only [deleteFrom, after, Option.some.injEq, found, if_false, walked]
          · rw [kept, erased, List.cons_append]

@[simp]
theorem Links.setNext_self (links : Links α) (el : α) (target : Option α) :
    (links.setNext el target).next el = target :=
  Function.update_self _ _ _

theorem Links.setNext_other {el other : α} (target : Option α) (ne : other ≠ el) :
    (links.setNext el target).next other = links.next other :=
  Function.update_of_ne ne _ _

/-- An element is linked in front of the list. -/
theorem Links.prepend_linked {add : α} (linked : Linked links.next links.head list)
    (fresh : add ∉ list) :
    Linked (links.prepend add).next (links.prepend add).head (add :: list) := by
  refine .cons ?_
  have first : (links.prepend add).next add = links.head := links.setNext_self add links.head
  rw [first]
  exact linked.congr fun a member => Links.setNext_other _ (ne_of_mem_of_not_mem member fresh)

/-- An element is linked in behind another one. -/
theorem Links.appendElem_linked {add el : α} {front back : List α}
    (linked : Linked links.next links.head (front ++ el :: back))
    (fresh : add ∉ front ++ el :: back) :
    Linked (links.appendElem add (some el)).next (links.appendElem add (some el)).head
      (front ++ el :: add :: back) := by
  have elNe : add ≠ el := (ne_of_mem_of_not_mem (by simp) fresh).symm
  obtain ⟨-, elNodup, apart⟩ := List.nodup_append.mp linked.nodup
  -- the members of all other elements are as before
  have other : ∀ a, a ≠ el → a ≠ add →
      (links.appendElem add (some el)).next a = links.next a := by
    intro a notEl notAdd
    rw [Links.appendElem, Links.setNext_other _ notEl, Links.setNext_other _ notAdd]
  have atEl : (links.appendElem add (some el)).next el = some add := Links.setNext_self _ _ _
  have atAdd : (links.appendElem add (some el)).next add = links.next el := by
    rw [Links.appendElem, Links.setNext_other _ elNe, Links.setNext_self]
  refine linked.splice (fun a member => other a ?_ ?_) ?_
  · exact fun isEl => apart a member el List.mem_cons_self isEl
  · exact ne_of_mem_of_not_mem (List.mem_append_left _ member) fresh
  · rw [atEl]
    refine .cons ?_
    rw [atAdd]
    refine linked.behind.congr fun a member => other a ?_ ?_
    · exact ne_of_mem_of_not_mem member (List.nodup_cons.mp elNodup).1
    · exact ne_of_mem_of_not_mem (by simp [member]) fresh

/-- An element that is not linked yet is put where `insertInorder` puts it. -/
theorem Links.insertInorder_refines {add : α} (linked : Linked links.next links.head list)
    (fresh : add ∉ list) (enough : list.length ≤ turns) :
    ∃ after, links.insertInorder cmp turns add = some after ∧
      Linked after.next after.head (Container.insertInorder cmp add list) := by
  obtain ⟨head, next⟩ := links
  cases linked with
  | nil => exact ⟨_, rfl, .cons (by rw [Links.setNext_self]; exact .nil)⟩
  | @cons first rest behind =>
    have linked : Linked next (some first) (first :: rest) := .cons behind
    by_cases found : 0 ≤ cmp first add
    · refine ⟨Links.prepend ⟨some first, next⟩ add, ?_, ?_⟩
      · simp only [Links.insertInorder, Links.lowerBound, found, if_true, Option.map_some,
          Links.appendElem]
      · rw [Container.insertInorder, if_pos found]
        exact @Links.prepend_linked _ ⟨some first, next⟩ _ _ _ linked fresh
    · obtain ⟨front, last, back, isList, walked, inserted⟩ :=
        lowerBoundFrom_spec linked found enough
      refine ⟨Links.appendElem ⟨some first, next⟩ add (some last), ?_, ?_⟩
      · simp only [Links.insertInorder, Links.lowerBound, found, if_false, walked,
          Option.map_some]
      · rw [inserted]
        rw [isList] at linked fresh
        exact @Links.appendElem_linked _ ⟨some first, next⟩ _ _ _ _ _ linked fresh

/-- An element of the list is unlinked. -/
theorem Links.delete_refines (linked : Linked links.next links.head list) (member : del ∈ list)
    (enough : list.length ≤ turns) :
    ∃ after, links.delete turns (some del) = some after ∧
      Linked after.next after.head (list.erase del) := by
  obtain ⟨head, next⟩ := links
  cases linked with
  | nil => exact absurd member List.not_mem_nil
  | @cons first rest behind =>
    by_cases found : first = del
    · subst found
      refine ⟨⟨next first, next⟩, ?_, ?_⟩
      · simp only [Links.delete, if_true, Option.map_some]
      · rw [List.erase_cons_head]
        exact behind
    · have linked : Linked next (some first) (first :: rest) := .cons behind
      have later : del ∈ rest := (List.mem_cons.mp member).resolve_left (Ne.symm found)
      obtain ⟨front, last, back, isList, walked, erased⟩ :=
        deleteFrom_spec linked found later enough
      rw [isList] at linked
      have atLast : next last = some del := by
        have linkedIn := linked.behind
        generalize next last = pointer at linkedIn
        cases linkedIn
        rfl
      obtain ⟨-, lastNodup, apart⟩ := List.nodup_append.mp linked.nodup
      have lastFresh := (List.nodup_cons.mp lastNodup).1
      refine ⟨Links.setNext ⟨some first, next⟩ last (next del), ?_, ?_⟩
      · simp only [Links.delete, Option.some.injEq, found, if_false, Option.bind_some, walked,
          atLast, Option.map_some]
      · rw [erased]
        refine linked.splice (fun a inFront => Links.setNext_other _ ?_) ?_
        · exact fun isLast => apart a inFront last List.mem_cons_self isLast
        · rw [Links.setNext_self]
          have linkedBack : Linked next (next del) back := @Linked.behind _ _ _ [] _ _ linked.behind
          refine linkedBack.congr fun a inBack => Links.setNext_other _ ?_
          exact ne_of_mem_of_not_mem (List.mem_cons_of_mem _ inBack) lastFresh

/-- The head of an empty list is followed. -/
theorem Links.delete_empty (del : Option α) (empty : links.head = none) :
    links.delete turns del = none := by
  rw [Links.delete, empty]
  split <;> rfl

end Refinement

end Horse.Container
