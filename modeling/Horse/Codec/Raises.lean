import Mathlib.Data.List.Basic

/-!
# Computations that raise exceptions

How a computation in `Except` is taken apart, and the rules with which one shows that it
raises a given exception at most, or certain exceptions on certain inputs only; and loops that
collect the results of a partial function.
-/

namespace Horse.Codec

universe u

variable {ε α β : Type u} {first : Except ε α} {result : β}

theorem bind_eq_ok_iff {next : α → Except ε β} :
    first.bind next = .ok result ↔ ∃ value, first = .ok value ∧ next value = .ok result := by
  cases first with
  | error raised => simp [Except.bind]
  | ok value => simp [Except.bind]

theorem map_eq_ok_iff {change : α → β} :
    first.map change = .ok result ↔ ∃ value, first = .ok value ∧ change value = result := by
  cases first with
  | error raised => simp [Except.map]
  | ok value => simp [Except.map]

/-- The computation returns, or raises this exception. -/
def RaisesOnly (allowed : ε) (computation : Except ε α) : Prop :=
  ∀ raised, computation = .error raised → raised = allowed

namespace RaisesOnly

variable {allowed : ε}

theorem ok (value : α) : RaisesOnly allowed (.ok value : Except ε α) :=
  nofun

theorem error : RaisesOnly allowed (.error allowed : Except ε α) := by
  rintro raised ⟨⟩
  rfl

theorem bind {next : α → Except ε β} (head : RaisesOnly allowed first)
    (tail : ∀ value, first = .ok value → RaisesOnly allowed (next value)) :
    RaisesOnly allowed (first.bind next) := by
  cases first with
  | error raised =>
    rintro _ ⟨⟩
    exact head raised rfl
  | ok value => exact tail value rfl

theorem map {change : α → β} (head : RaisesOnly allowed first) :
    RaisesOnly allowed (first.map change) := by
  cases first with
  | error raised =>
    rintro _ ⟨⟩
    exact head raised rfl
  | ok value => exact ok (change value)

end RaisesOnly

/-- How a computation ends that can raise bad exceptions: it raises one just if it is not safe,
and otherwise returns just if its input is accepted, with a value as promised. -/
def Ends (bad : ε → Prop) (safe accepted : Prop) (post : α → Prop) : Except ε α → Prop
  | .ok value => safe ∧ accepted ∧ post value
  | .error raised => (bad raised ↔ ¬safe) ∧ ¬(safe ∧ accepted)

namespace Ends

variable {bad : ε → Prop} {safe accepted nextSafe nextAccepted : Prop} {post : α → Prop}

theorem ok {value : α} (holds : post value) : Ends bad True True post (.ok value) :=
  ⟨trivial, trivial, holds⟩

theorem bind {next : α → Except ε β} {nextPost : β → Prop}
    (head : Ends bad safe accepted post first)
    (tail : ∀ value, safe → accepted → post value →
      Ends bad nextSafe nextAccepted nextPost (next value)) :
    Ends bad (safe ∧ (accepted → nextSafe)) (accepted ∧ nextAccepted) nextPost
      (first.bind next) := by
  cases first with
  | error raised =>
    obtain ⟨isBad, notBoth⟩ := head
    refine ⟨?_, fun both => notBoth ⟨both.1.1, both.2.1⟩⟩
    rw [isBad, not_iff_not]
    exact ⟨fun isSafe => ⟨isSafe, fun isAccepted => absurd ⟨isSafe, isAccepted⟩ notBoth⟩, And.left⟩
  | ok value =>
    obtain ⟨isSafe, isAccepted, holds⟩ := head
    have later := tail value isSafe isAccepted holds
    change Ends _ _ _ _ (next value)
    rwa [and_iff_right isSafe, forall_prop_of_true isAccepted, and_iff_right isAccepted]

theorem imp {otherSafe otherAccepted : Prop} {otherPost : α → Prop}
    (ends : Ends bad safe accepted post first) (sameSafe : safe ↔ otherSafe)
    (sameAccepted : safe → (accepted ↔ otherAccepted))
    (weaker : ∀ value, post value → otherPost value) :
    Ends bad otherSafe otherAccepted otherPost first := by
  cases first with
  | error raised =>
    rw [Ends, ← sameSafe, ← and_congr_right sameAccepted]
    exact ends
  | ok value =>
    obtain ⟨isSafe, isAccepted, holds⟩ := ends
    exact ⟨sameSafe.mp isSafe, (sameAccepted isSafe).mp isAccepted, weaker value holds⟩

end Ends

section MapM

variable {value : α} {values : List α} {results : List β} {f : α → Option β}

theorem mapM_cons_eq_some_iff :
    (value :: values).mapM f = some results ↔
      ∃ first rest, f value = some first ∧ values.mapM f = some rest ∧ results = first :: rest := by
  rw [List.mapM_cons]
  constructor
  · intro mapped
    obtain ⟨first, isFirst, later⟩ := Option.bind_eq_some_iff.mp mapped
    obtain ⟨rest, isRest, collected⟩ := Option.bind_eq_some_iff.mp later
    cases collected
    exact ⟨first, rest, isFirst, isRest, rfl⟩
  · rintro ⟨first, rest, isFirst, isRest, rfl⟩
    rw [isFirst, isRest]
    rfl

/-- The function is defined on all values if the loop is. -/
theorem isSome_of_mapM (mapped : values.mapM f = some results) :
    ∀ value ∈ values, (f value).isSome := by
  induction values generalizing results with
  | nil => exact nofun
  | cons value values ih =>
    obtain ⟨first, rest, isFirst, isRest, rfl⟩ := mapM_cons_eq_some_iff.mp mapped
    exact List.forall_mem_cons.mpr ⟨Option.isSome_iff_exists.mpr ⟨first, isFirst⟩, ih isRest⟩

theorem mem_mapM_iff (mapped : values.mapM f = some results) :
    result ∈ results ↔ ∃ value ∈ values, f value = some result := by
  induction values generalizing results with
  | nil =>
    cases mapped
    simp
  | cons value values ih =>
    obtain ⟨first, rest, isFirst, isRest, rfl⟩ := mapM_cons_eq_some_iff.mp mapped
    simp only [List.mem_cons, ih isRest, exists_eq_or_imp, isFirst, Option.some.injEq]
    rw [eq_comm]

theorem mapM_defined (defined : ∀ value ∈ values, (f value).isSome) :
    ∃ results, values.mapM f = some results ∧ results.length = values.length := by
  induction values with
  | nil => exact ⟨[], rfl, rfl⟩
  | cons value values ih =>
    rw [List.forall_mem_cons] at defined
    obtain ⟨first, isFirst⟩ := Option.isSome_iff_exists.mp defined.1
    obtain ⟨rest, isRest, length⟩ := ih defined.2
    exact ⟨first :: rest, mapM_cons_eq_some_iff.mpr ⟨first, rest, isFirst, isRest, rfl⟩,
      congrArg (· + 1) length⟩

end MapM

end Horse.Codec
