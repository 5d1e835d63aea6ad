import Mathlib.Data.List.Basic

/-!
# Searching a chained hash table

A `uthash` table links its entries in insertion order and chains the entries of
each bucket.  Adding an entry never looks at the entries already there, so a key
can occur several times; a search then returns one of the entries with that key,
and which one depends on the history of the bucket.  `HashFind` is any such
search.  `latest` is the one of a bucket that was never expanded.

A table whose searches are of this last kind is also kept as a list with the
entry added last in front; `List.find?` searches it and `updateFirst` changes the
entry found in place.
-/

namespace Horse.Container

universe u v

/-- A search for an entry that satisfies a key test. -/
structure HashFind (α : Type u) where
  find : (α → Bool) → List α → Option α
  found : ∀ {test : α → Bool} {entries : List α} {entry : α},
    find test entries = some entry → entry ∈ entries ∧ test entry = true
  missed : ∀ {test : α → Bool} {entries : List α},
    find test entries = none → ∀ entry ∈ entries, test entry = false

namespace HashFind

variable {α : Type u}

/-- The entry added last: additions go to the head of a bucket. -/
def latest : HashFind α where
  find := fun test entries => entries.reverse.find? test
  found := fun {_ _ _} result =>
    ⟨List.mem_reverse.mp (List.mem_of_find?_eq_some result), List.find?_some result⟩
  missed := fun {_ _} result entry member =>
    Bool.eq_false_iff.mpr (List.find?_eq_none.mp result entry (List.mem_reverse.mpr member))

/-- A search that returns a preferred entry whenever there is one. -/
def preferring (preferred : α → Bool) : HashFind α where
  find := fun test entries =>
    (entries.find? fun entry => test entry && preferred entry).or (entries.find? test)
  found := fun {test entries entry} result => by
    rcases Option.or_eq_some_iff.mp result with first | ⟨_, second⟩
    · have holds := List.find?_some first
      exact ⟨List.mem_of_find?_eq_some first, (Bool.and_eq_true_iff.mp holds).1⟩
    · exact ⟨List.mem_of_find?_eq_some second, List.find?_some second⟩
  missed := fun {test entries} result entry member =>
    Bool.eq_false_iff.mpr
      (List.find?_eq_none.mp (Option.or_eq_none_iff.mp result).2 entry member)

theorem exists_find (search : HashFind α) {test : α → Bool} {entries : List α} {entry : α}
    (member : entry ∈ entries) (holds : test entry = true) :
    ∃ result, search.find test entries = some result := by
  cases searched : search.find test entries with
  | some result => exact ⟨result, rfl⟩
  | none => exact absurd holds (Bool.eq_false_iff.mp (search.missed searched entry member))

/-- A preferring search does not return another entry while a preferred one
passes the test. -/
theorem preferred_of_preferring {preferred test : α → Bool} {entries : List α}
    {entry result : α} (member : entry ∈ entries) (holds : test entry = true)
    (isPreferred : preferred entry = true)
    (searched : (preferring preferred).find test entries = some result) :
    preferred result = true := by
  rcases Option.or_eq_some_iff.mp searched with first | ⟨none, _⟩
  · have both := List.find?_some first
    exact (Bool.and_eq_true_iff.mp both).2
  · refine absurd ?_ (List.find?_eq_none.mp none entry member)
    simp [holds, isPreferred]

end HashFind

/-! ## Updates in place -/

section Update

variable {α : Type u} (test : α → Bool) (change : α → α)

/-- Change the first entry that passes the test. -/
def updateFirst : List α → List α
  | [] => []
  | entry :: rest => if test entry then change entry :: rest else entry :: updateFirst rest

theorem map_updateFirst {β : Type v} {read : α → β} (keeps : ∀ entry, test entry →
    read (change entry) = read entry) (entries : List α) :
    (updateFirst test change entries).map read = entries.map read := by
  induction entries with
  | nil => rfl
  | cons entry rest ih =>
    by_cases passes : test entry
    · simp [updateFirst, passes, keeps entry passes]
    · simp [updateFirst, passes, ih]

variable {entries : List α} {entry : α}

variable {test change} in
theorem mem_updateFirst (member : entry ∈ updateFirst test change entries) :
    entry ∈ entries ∨ ∃ old ∈ entries, entry = change old := by
  induction entries with
  | nil => cases member
  | cons first rest ih =>
    by_cases passes : test first
    · simp only [updateFirst, passes, if_true, List.mem_cons] at member
      rcases member with changed | inRest
      · exact Or.inr ⟨first, List.mem_cons_self, changed⟩
      · exact Or.inl (List.mem_cons_of_mem first inRest)
    · simp only [updateFirst, passes, Bool.false_eq_true, if_false, List.mem_cons] at member
      rcases member with rfl | inRest
      · exact Or.inl List.mem_cons_self
      · rcases ih inRest with same | ⟨old, wasThere, changed⟩
        · exact Or.inl (List.mem_cons_of_mem first same)
        · exact Or.inr ⟨old, List.mem_cons_of_mem first wasThere, changed⟩

theorem length_updateFirst (entries : List α) :
    (updateFirst test change entries).length = entries.length := by
  induction entries with
  | nil => rfl
  | cons entry rest ih =>
    by_cases passes : test entry
    · simp [updateFirst, passes]
    · simp [updateFirst, passes, ih]

variable {test} in
/-- The entry that is found comes first, up to order. -/
theorem perm_cons_eraseP (found : entries.find? test = some entry) :
    entries.Perm (entry :: entries.eraseP test) := by
  induction entries with
  | nil => cases found
  | cons first rest ih =>
    by_cases passes : test first
    · rw [List.find?_cons_of_pos passes] at found
      cases found
      rw [List.eraseP_cons_of_pos passes]
    · rw [List.find?_cons_of_neg passes] at found
      rw [List.eraseP_cons_of_neg passes]
      exact ((ih found).cons first).trans (.swap _ _ _)

variable {test} in
/-- An update in place replaces the entry that is found. -/
theorem updateFirst_perm (found : entries.find? test = some entry) :
    (updateFirst test change entries).Perm (change entry :: entries.eraseP test) := by
  induction entries with
  | nil => cases found
  | cons first rest ih =>
    by_cases passes : test first
    · rw [List.find?_cons_of_pos passes] at found
      cases found
      rw [List.eraseP_cons_of_pos passes, updateFirst, if_pos passes]
    · rw [List.find?_cons_of_neg passes] at found
      rw [List.eraseP_cons_of_neg passes, updateFirst, if_neg passes]
      exact ((ih found).cons first).trans (.swap _ _ _)

end Update

/-! ## Tables with a key -/

section Keyed

variable {α : Type u} {κ : Type v} [DecidableEq κ] {key : α → κ}

/-- In a table without two entries of one key, every entry is found by its key. -/
theorem find?_of_mem {entries : List α} (distinct : (entries.map key).Nodup) {entry : α}
    (member : entry ∈ entries) :
    entries.find? (fun other => key other == key entry) = some entry := by
  induction entries with
  | nil => cases member
  | cons first rest ih =>
    rw [List.map_cons, List.nodup_cons] at distinct
    rcases List.mem_cons.mp member with rfl | inRest
    · simp
    · have others : key first ≠ key entry := fun same =>
        distinct.1 (List.mem_map.mpr ⟨entry, inRest, same.symm⟩)
      rw [List.find?_cons_of_neg (by simpa using others)]
      exact ih distinct.2 inRest

/-- An update in place is seen by the searches for its key and by no other. -/
theorem find?_updateFirst {change : α → α} {k : κ}
    (keeps : ∀ entry, key entry = k → key (change entry) = k) (wanted : κ)
    (entries : List α) :
    (updateFirst (fun entry => key entry == k) change entries).find?
        (fun entry => key entry == wanted) =
      if wanted = k then (entries.find? fun entry => key entry == k).map change
      else entries.find? fun entry => key entry == wanted := by
  induction entries with
  | nil => simp [updateFirst]
  | cons entry rest ih =>
    by_cases isKey : key entry = k
    · by_cases isWanted : wanted = k
      · simp [updateFirst, isKey, isWanted, keeps entry isKey]
      · have skips : (k == wanted) = false := by simpa using Ne.symm isWanted
        simp [updateFirst, isKey, isWanted, keeps entry isKey, skips]
    · by_cases isWanted : wanted = k
      · subst isWanted
        simpa [updateFirst, isKey] using ih
      · simp only [updateFirst, isKey, beq_iff_eq, if_false, List.find?_cons, isWanted]
        rw [ih, if_neg isWanted]

/-- An erasure is not seen by the searches for other keys. -/
theorem find?_eraseP {k wanted : κ} (other : wanted ≠ k) (entries : List α) :
    (entries.eraseP fun entry => key entry == k).find? (fun entry => key entry == wanted) =
      entries.find? fun entry => key entry == wanted := by
  induction entries with
  | nil => rfl
  | cons entry rest ih =>
    by_cases isKey : key entry = k
    · have skips : (k == wanted) = false := by simpa using Ne.symm other
      simp [isKey, skips]
    · simp [isKey, List.find?_cons, ih]

/-- In a table without two entries of one key, an erased key is gone. -/
theorem find?_eraseP_self {entries : List α} (distinct : (entries.map key).Nodup) (k : κ) :
    (entries.eraseP fun entry => key entry == k).find? (fun entry => key entry == k) = none := by
  induction entries with
  | nil => rfl
  | cons entry rest ih =>
    rw [List.map_cons, List.nodup_cons] at distinct
    by_cases isKey : key entry = k
    · rw [List.eraseP_cons_of_pos (by simpa using isKey), List.find?_eq_none]
      intro other member
      have others : key other ≠ key entry := fun same =>
        distinct.1 (List.mem_map.mpr ⟨other, member, same⟩)
      simpa [← isKey] using others
    · rw [List.eraseP_cons_of_neg (by simpa using isKey),
        List.find?_cons_of_neg (by simpa using isKey)]
      exact ih distinct.2

end Keyed

end Horse.Container
