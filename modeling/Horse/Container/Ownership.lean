import Mathlib.Data.List.Nodup

/-!
# Exclusive ownership of heap objects

Objects are numbered in the order in which they are allocated.  A heap is described by
the list of the numbers of its objects, one entry for each reference to an object and
one for each time it was released.  Objects are owned exclusively if no number occurs
twice: no two references share an object, no reference leads to a released object, and
no object was released twice.
-/

namespace Horse.Container

/-- No object occurs twice, and all of them have been allocated. -/
structure Exclusive (next : Nat) (objs : List Nat) : Prop where
  once : objs.Nodup
  allocated : ∀ obj ∈ objs, obj < next

namespace Exclusive

variable {next later : Nat} {objs after : List Nat}

theorem nil : Exclusive 0 [] :=
  ⟨List.nodup_nil, List.forall_mem_nil _⟩

theorem count_le (exclusive : Exclusive next objs) (obj : Nat) :
    objs.count obj ≤ if obj < next then 1 else 0 := by
  split
  · exact List.nodup_iff_count_le_one.mp exclusive.once obj
  · rename_i notYet
    have absent : obj ∉ objs := fun member => notYet (exclusive.allocated obj member)
    exact Nat.le_of_eq (List.count_eq_zero.mpr absent)

/-- Ownership is kept by every operation that moves, drops and releases references and
uses each object allocated meanwhile at most once. -/
theorem of_count_le (exclusive : Exclusive next objs) (more : next ≤ later)
    (few : ∀ obj, after.count obj ≤
      objs.count obj + if next ≤ obj ∧ obj < later then 1 else 0) :
    Exclusive later after := by
  constructor
  · rw [List.nodup_iff_count_le_one]
    intro obj
    have old := exclusive.count_le obj
    have new := few obj
    split at old <;> split at new <;> omega
  · intro obj member
    have old := exclusive.count_le obj
    have new := few obj
    have some_ := List.count_pos_iff.mpr member
    split at old <;> split at new <;> omega

end Exclusive

end Horse.Container
