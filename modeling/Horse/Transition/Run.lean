import Mathlib.Data.List.Basic

/-!
# Runs of a partial labelled step

A program that reacts to calls, events or messages is a partial step on its
states, one label for each call.  A run follows a list of labels and is
undefined as soon as one of its steps is.  `Along` speaks about the whole of a
run, about every state together with the label that leaves it.

The rules at the end carry an invariant from the start of a run to all of it.
-/

namespace Horse.Transition

universe u v

/-- One labelled step; `none` is a step that does not return. -/
abbrev Step (σ : Type u) (ι : Type v) := σ → ι → Option σ

/-- Two partial computations in turn, and what is made of their results. -/
theorem bind_map_eq_some_iff {α β γ : Type*} {first : Option α} {second : α → Option β}
    {value : α → β → γ} {result : γ} :
    (first.bind fun a => (second a).map (value a)) = some result ↔
      ∃ a b, first = some a ∧ second a = some b ∧ value a b = result := by
  simp only [Option.bind_eq_some_iff, Option.map_eq_some_iff, exists_and_left]

variable {σ : Type u} {ι : Type v}

/-- Follow a list of labels from a state. -/
def run (next : Step σ ι) : σ → List ι → Option σ
  | state, [] => some state
  | state, label :: rest => (next state label).bind fun after => run next after rest

theorem run_cons_eq_some_iff (next : Step σ ι) (state final : σ) (label : ι)
    (rest : List ι) :
    run next state (label :: rest) = some final ↔
      ∃ after, next state label = some after ∧ run next after rest = some final := by
  simp only [run]
  exact Option.bind_eq_some_iff

variable {state middle : σ} {labels : List ι} {label : ι}

/-- A run is continued by a step. -/
theorem run_concat {next : Step σ ι} {final : σ} (ran : run next state labels = some middle)
    (step : next middle label = some final) :
    run next state (labels ++ [label]) = some final := by
  induction labels generalizing state with
  | nil =>
    cases ran
    exact (run_cons_eq_some_iff _ _ _ _ _).mpr ⟨final, step, rfl⟩
  | cons head rest ih =>
    rw [run_cons_eq_some_iff] at ran
    obtain ⟨after, first, tail⟩ := ran
    exact (run_cons_eq_some_iff _ _ _ _ _).mpr ⟨after, first, ih tail⟩

/-- `guard` holds of every state of the run and the label that leaves it. -/
def Along (next : Step σ ι) (guard : σ → ι → Prop) : σ → List ι → Prop
  | _, [] => True
  | state, label :: rest =>
    guard state label ∧
      ∀ after, next state label = some after → Along next guard after rest

instance decidableAlong {next : Step σ ι} {guard : σ → ι → Prop}
    [∀ state label, Decidable (guard state label)] :
    (state : σ) → (labels : List ι) → Decidable (Along next guard state labels)
  | _, [] => inferInstanceAs (Decidable True)
  | state, label :: rest =>
    have (after : σ) := @decidableAlong next guard _ after rest
    inferInstanceAs (Decidable (guard state label ∧
      ∀ after ∈ next state label, Along next guard after rest))

/-- What holds along a run holds where one of its parts ends. -/
theorem Along.at_end {next : Step σ ι} {guard : σ → ι → Prop} {first : List ι} {rest : List ι}
    (along : Along next guard state (first ++ label :: rest))
    (ran : run next state first = some middle) : guard middle label := by
  induction first generalizing state with
  | nil =>
    cases ran
    exact along.1
  | cons head tail ih =>
    rcases (run_cons_eq_some_iff _ _ _ _ _).mp ran with ⟨after, step, later⟩
    exact ih (along.2 after step) later

theorem Along.and {next : Step σ ι} {first second : σ → ι → Prop}
    (along : Along next first state labels) (alongToo : Along next second state labels) :
    Along next (fun state label => first state label ∧ second state label) state labels := by
  induction labels generalizing state with
  | nil => trivial
  | cons label rest ih =>
    exact ⟨⟨along.1, alongToo.1⟩, fun after step => ih (along.2 after step) (alongToo.2 after step)⟩

/-! ## Invariant rules -/

section Invariant

variable {next : Step σ ι} {guard : σ → ι → Prop} {inv : σ → Prop}

/-- An invariant that the guarded steps keep holds at the end of a run. -/
theorem run_invariant
    (keeps : ∀ {state label after}, inv state → guard state label →
      next state label = some after → inv after)
    {state final : σ} {labels : List ι} (start : inv state)
    (guarded : Along next guard state labels)
    (ran : run next state labels = some final) : inv final := by
  induction labels generalizing state with
  | nil =>
    cases ran
    exact start
  | cons label rest ih =>
    obtain ⟨after, step, tail⟩ := (run_cons_eq_some_iff _ _ _ _ _).mp ran
    exact ih (keeps start guarded.1 step) (guarded.2 after step) tail

/-- A run is defined if its guarded steps are, as long as an invariant holds. -/
theorem run_defined
    (proceeds : ∀ {state label}, inv state → guard state label →
      ∃ after, next state label = some after ∧ inv after)
    {state : σ} {labels : List ι} (start : inv state)
    (guarded : Along next guard state labels) :
    ∃ final, run next state labels = some final ∧ inv final := by
  induction labels generalizing state with
  | nil => exact ⟨state, rfl, start⟩
  | cons label rest ih =>
    rcases proceeds start guarded.1 with ⟨after, step, kept⟩
    rcases ih kept (guarded.2 after step) with ⟨final, ran, holds⟩
    exact ⟨final, (run_cons_eq_some_iff _ _ _ _ _).mpr ⟨after, step, ran⟩, holds⟩

/-- What holds of every label holds along the run. -/
theorem along_of_forall {fine : ι → Prop} (next : Step σ ι) (state : σ) {labels : List ι}
    (allFine : ∀ label ∈ labels, fine label) :
    Along next (fun _ label => fine label) state labels := by
  induction labels generalizing state with
  | nil => trivial
  | cons label rest ih =>
    rw [List.forall_mem_cons] at allFine
    exact ⟨allFine.1, fun after _ => ih after allFine.2⟩

/-- Where the guard says exactly which of the valid steps have a property, the property
holds along a run of valid steps if and only if the guard does.  The invariant under which
this is the case has to be kept by the steps with the property only. -/
theorem along_congr {valid prop : σ → ι → Prop}
    (keeps : ∀ {state label after}, valid state label → inv state → prop state label →
      next state label = some after → inv after)
    (agree : ∀ {state label}, valid state label → inv state →
      (prop state label ↔ guard state label))
    {state : σ} {labels : List ι} (start : inv state)
    (allValid : Along next valid state labels) :
    Along next prop state labels ↔ Along next guard state labels := by
  induction labels generalizing state with
  | nil => rfl
  | cons label rest ih =>
    rw [Along, Along, ← agree allValid.1 start]
    apply and_congr_right
    intro holds
    apply forall_congr'
    intro after
    apply forall_congr'
    intro step
    exact ih (keeps allValid.1 start holds step) (allValid.2 after step)

/-- A run is defined if and only if each of its steps is. -/
theorem run_isSome_iff_along (next : Step σ ι) (state : σ) (labels : List ι) :
    (run next state labels).isSome ↔
      Along next (fun state label => (next state label).isSome) state labels := by
  induction labels generalizing state with
  | nil => exact iff_of_true rfl trivial
  | cons label rest ih =>
    rw [run, Along]
    cases step : next state label with
    | none => simp
    | some after =>
      simp only [Option.bind_some, Option.isSome_some, true_and, Option.some.injEq,
        forall_eq']
      exact ih after

/-- Where the guard says exactly which of the valid steps are defined, a run of valid steps
is defined if and only if all its steps are guarded. -/
theorem run_isSome_iff_of_valid {valid : σ → ι → Prop}
    (keeps : ∀ {state label after}, valid state label → inv state →
      next state label = some after → inv after)
    (exact : ∀ {state label}, valid state label → inv state →
      ((next state label).isSome ↔ guard state label))
    {state : σ} {labels : List ι} (start : inv state)
    (allValid : Along next valid state labels) :
    (run next state labels).isSome ↔ Along next guard state labels := by
  rw [run_isSome_iff_along]
  apply @along_congr _ _ next guard inv valid
  · intro state label after isValid holds _ step
    exact keeps isValid holds step
  · exact exact
  · exact start
  · exact allValid

/-- Where the guard says exactly which steps are defined, a run is defined if and only if
all its steps are guarded. -/
theorem run_isSome_iff {fine : ι → Prop}
    (keeps : ∀ {state label after}, fine label → inv state →
      next state label = some after → inv after)
    (exact : ∀ {state label}, fine label → inv state →
      ((next state label).isSome ↔ guard state label))
    {state : σ} {labels : List ι} (start : inv state) (allFine : ∀ label ∈ labels, fine label) :
    (run next state labels).isSome ↔ Along next guard state labels :=
  run_isSome_iff_of_valid keeps exact start (along_of_forall next state allFine)

/-- What an invariant and the guard give of one step holds along the run. -/
theorem along_of_invariant {prop : σ → ι → Prop}
    (keeps : ∀ {state label after}, inv state → guard state label →
      next state label = some after → inv after)
    (gives : ∀ {state label}, inv state → guard state label → prop state label)
    {state : σ} {labels : List ι} (start : inv state)
    (guarded : Along next guard state labels) : Along next prop state labels := by
  induction labels generalizing state with
  | nil => trivial
  | cons label rest ih =>
    refine ⟨gives start guarded.1, fun after step => ?_⟩
    exact ih (keeps start guarded.1 step) (guarded.2 after step)

/-- A step that is unconditionally safe needs no guard. -/
theorem along_true (next : Step σ ι) (state : σ) (labels : List ι) :
    Along next (fun _ _ => True) state labels := by
  induction labels generalizing state with
  | nil => trivial
  | cons label rest ih => exact ⟨trivial, fun after _ => ih after⟩

/-- Where an invariant holds, two pointwise equivalent step predicates hold
along the same runs. -/
theorem along_iff_of_invariant {fine : ι → Prop} {prop : σ → ι → Prop}
    (keeps : ∀ {state label after}, inv state → next state label = some after → inv after)
    (agree : ∀ {state label}, fine label → inv state → (prop state label ↔ guard state label))
    {state : σ} {labels : List ι} (start : inv state) (allFine : ∀ label ∈ labels, fine label) :
    Along next prop state labels ↔ Along next guard state labels := by
  apply @along_congr _ _ next guard inv (fun _ label => fine label)
  · intro state label after _ holds _ step
    exact keeps holds step
  · exact agree
  · exact start
  · exact along_of_forall next state allFine

/-- Where the guard says exactly which steps have a property, and a step with the
property keeps an invariant, the property holds of every step of a run if and only if
all its steps are guarded.  Every step keeps the assumptions under which this is the
case. -/
theorem along_holds_iff {fine : ι → Prop} {base : σ → Prop} {holds : σ → ι → σ → Prop}
    (keepsBase : ∀ {state label after}, fine label → base state →
      next state label = some after → base after)
    (keeps : ∀ {state label after}, inv state → next state label = some after →
      holds state label after → inv after)
    (exact : ∀ {state label after}, fine label → base state → inv state →
      next state label = some after → (holds state label after ↔ guard state label))
    {state : σ} {labels : List ι} (startBase : base state) (start : inv state)
    (allFine : ∀ label ∈ labels, fine label) :
    Along next
        (fun state label => ∀ after, next state label = some after → holds state label after)
        state labels ↔
      Along next (fun state label => (next state label).isSome → guard state label)
        state labels := by
  apply @along_congr _ _ next _ (fun state => base state ∧ inv state) fun _ label => fine label
  · rintro state label after isFine ⟨isBase, isInv⟩ kept step
    exact ⟨keepsBase isFine isBase step, keeps isInv step (kept after step)⟩
  · rintro state label isFine ⟨isBase, isInv⟩
    cases step : next state label with
    | none => simp
    | some after => simpa using exact isFine isBase isInv step
  · exact ⟨startBase, start⟩
  · exact along_of_forall next state allFine

/-- Where the guard says exactly which steps keep an invariant, the invariant holds
after every step of a run if and only if all its steps are guarded. -/
theorem along_keeps_iff {fine : ι → Prop} {base : σ → Prop}
    (keepsBase : ∀ {state label after}, fine label → base state →
      next state label = some after → base after)
    (exact : ∀ {state label after}, fine label → base state → inv state →
      next state label = some after → (inv after ↔ guard state label))
    {state : σ} {labels : List ι} (startBase : base state) (start : inv state)
    (allFine : ∀ label ∈ labels, fine label) :
    Along next (fun state label => ∀ after, next state label = some after → inv after)
        state labels ↔
      Along next (fun state label => (next state label).isSome → guard state label)
        state labels := by
  apply @along_holds_iff _ _ next guard inv fine base (fun _ _ after => inv after)
  · exact keepsBase
  · exact fun _ _ kept => kept
  · exact exact
  · exact startBase
  · exact start
  · exact allFine

end Invariant

end Horse.Transition
