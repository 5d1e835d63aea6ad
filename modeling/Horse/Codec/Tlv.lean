import Horse.Codec.BigEndian

/-!
# Lists of type-length-value elements

An element on the wire starts with its type and its length, two bytes each; the length
counts the whole element.  A list is nothing but its elements one behind the other.  A
reader walks it by the lengths it finds, and reads at offsets that count from the start
of the list.

The rule at the end replaces a walk over offsets by a walk over the elements that were
written, for a reader that finds in each place what the element there would tell it.
-/

namespace Horse.Codec

universe u v

/-- One element.  Its length fits into two bytes. -/
structure Tlv where
  type : BitVec 16
  body : List (BitVec 8)
  fits : body.length + 4 < 2 ^ 16

namespace Tlv

/-- The bytes of an element. -/
def bytes (elem : Tlv) : List (BitVec 8) :=
  packBe 2 elem.type.toNat ++ (packBe 2 (elem.body.length + 4) ++ elem.body)

@[simp]
theorem length_bytes (elem : Tlv) : elem.bytes.length = elem.body.length + 4 := by
  simp only [bytes, List.length_append, length_packBe]
  omega

theorem readBe_type (elem : Tlv) : readBe elem.bytes 0 2 = some elem.type.toNat := by
  have packed := readBe_packBe [] (packBe 2 (elem.body.length + 4) ++ elem.body) 2 elem.type.toNat
  have small : elem.type.toNat < 256 ^ 2 := elem.type.isLt
  rw [Nat.mod_eq_of_lt small] at packed
  exact packed

theorem readBe_length (elem : Tlv) : readBe elem.bytes 2 2 = some (elem.body.length + 4) := by
  have packed := readBe_packBe (packBe 2 elem.type.toNat) elem.body 2 (elem.body.length + 4)
  have small : elem.body.length + 4 < 256 ^ 2 := elem.fits
  rw [Nat.mod_eq_of_lt small, length_packBe] at packed
  exact packed

/-- The body starts behind the four bytes of type and length. -/
theorem readBe_body (elem : Tlv) (offset count : Nat) :
    readBe elem.bytes (4 + offset) count = readBe elem.body offset count := by
  have behind := readBe_append_right
    (packBe 2 elem.type.toNat ++ packBe 2 (elem.body.length + 4)) elem.body offset count
  rw [List.length_append, length_packBe, length_packBe, List.append_assoc] at behind
  exact behind

end Tlv

/-! ## Walking a list -/

/-- The offsets of the elements from one of them on.  An element of length 0 has no end,
and the walk then none either. -/
def tlvOffsetsFrom (data : List (BitVec 8)) : Nat → Nat → Option (List Nat)
  | 0, _ => none
  | turns + 1, offset =>
    (readBe data (offset + 2) 2).bind fun length =>
      if data.length ≤ offset + length then some [offset]
      else if length = 0 then none
      else (tlvOffsetsFrom data turns (offset + length)).map (offset :: ·)

/-- The offsets of the elements of a list.  Each turn but the last moves on by a byte at
least. -/
def tlvOffsets (data : List (BitVec 8)) : Option (List Nat) :=
  if data = [] then some [] else tlvOffsetsFrom data data.length 0

section Walk

variable {α : Type u} (encode : α → Tlv)

/-- The bytes of a list. -/
def wire (elems : List α) : List (BitVec 8) :=
  elems.flatMap fun elem => (encode elem).bytes

@[simp]
theorem wire_nil : wire encode [] = [] :=
  rfl

theorem wire_cons (elem : α) (rest : List α) :
    wire encode (elem :: rest) = (encode elem).bytes ++ wire encode rest :=
  List.flatMap_cons

theorem wire_append (first second : List α) :
    wire encode (first ++ second) = wire encode first ++ wire encode second :=
  List.flatMap_append

/-- The offsets at which elements stand that start at a given one. -/
def offsetsOf : Nat → List α → List Nat
  | _, [] => []
  | offset, elem :: rest => offset :: offsetsOf (offset + (encode elem).bytes.length) rest

theorem length_le_wire (elems : List α) : elems.length ≤ (wire encode elems).length := by
  induction elems with
  | nil => exact Nat.le_refl 0
  | cons elem rest ih =>
    rw [wire_cons, List.length_append, List.length_cons, Tlv.length_bytes]
    omega

variable {encode}

theorem tlvOffsetsFrom_wire (before : List (BitVec 8)) {elems : List α} (some_ : elems ≠ [])
    {turns : Nat} (enough : elems.length ≤ turns) :
    tlvOffsetsFrom (before ++ wire encode elems) turns before.length =
      some (offsetsOf encode before.length elems) := by
  induction elems generalizing before turns with
  | nil => exact absurd rfl some_
  | cons elem rest ih =>
    obtain ⟨turns, rfl⟩ : ∃ left, turns = left + 1 :=
      ⟨turns - 1, by rw [List.length_cons] at enough; omega⟩
    have length : readBe (before ++ wire encode (elem :: rest)) (before.length + 2) 2 =
        some ((encode elem).body.length + 4) := by
      rw [readBe_append_right, wire_cons, readBe_append_left _ (by simp), Tlv.readBe_length]
    rw [tlvOffsetsFrom, length, Option.bind_some, offsetsOf, Tlv.length_bytes]
    cases rest with
    | nil =>
      rw [if_pos (by simp [wire_cons])]
      rfl
    | cons next later =>
      have longer : before.length + ((encode elem).body.length + 4) <
          (before ++ wire encode (elem :: next :: later)).length := by
        simp only [wire_cons, List.length_append, Tlv.length_bytes]
        omega
      rw [if_neg (Nat.not_le.mpr longer), if_neg (Nat.succ_ne_zero _)]
      have tail := ih (before ++ (encode elem).bytes) (List.cons_ne_nil _ _)
        (Nat.le_of_succ_le_succ enough)
      rw [List.append_assoc, ← wire_cons, List.length_append, Tlv.length_bytes] at tail
      rw [tail]
      rfl

/-- The walk finds the elements that were written. -/
theorem tlvOffsets_wire (elems : List α) :
    tlvOffsets (wire encode elems) = some (offsetsOf encode 0 elems) := by
  cases elems with
  | nil => rfl
  | cons elem rest =>
    have nonempty : wire encode (elem :: rest) ≠ [] := by
      rw [wire_cons]
      intro empty
      have lengths := congrArg List.length (List.append_eq_nil_iff.mp empty).1
      simp at lengths
    rw [tlvOffsets, if_neg nonempty]
    exact tlvOffsetsFrom_wire [] (List.cons_ne_nil _ _) (length_le_wire encode _)

/-- A reader that finds at each offset what the element there tells it reads the list
element by element. -/
theorem foldlM_tlvOffsets {σ : Type v} {elems : List α} {step : σ → Nat → Option σ}
    {act : σ → α → Option σ}
    (agree : ∀ before elem after, elems = before ++ elem :: after → ∀ state,
      step state (wire encode before).length = act state elem) (init : σ) :
    (tlvOffsets (wire encode elems)).bind (fun offsets => offsets.foldlM step init) =
      elems.foldlM act init := by
  rw [tlvOffsets_wire, Option.bind_some]
  -- Generalised over the elements that were already read.
  suffices walk : ∀ before rest, elems = before ++ rest → ∀ state,
      (offsetsOf encode (wire encode before).length rest).foldlM step state =
        rest.foldlM act state from walk [] elems rfl init
  intro before rest
  induction rest generalizing before with
  | nil => exact fun _ _ => rfl
  | cons elem rest ih =>
    intro split state
    rw [offsetsOf, List.foldlM_cons, List.foldlM_cons, agree before elem rest split]
    apply bind_congr
    intro next
    have tail := ih (before ++ [elem]) (by rw [split, List.append_assoc, List.singleton_append])
      next
    rw [wire_append, List.length_append, wire_cons, wire_nil, List.append_nil] at tail
    exact tail

section Split

variable {elems before after : List α} {elem : α} (split : elems = before ++ elem :: after)

include split

variable {offset count : Nat}

/-- Reading inside the element that stands behind some others. -/
theorem readBe_wire (inside : offset + count ≤ (encode elem).bytes.length) :
    readBe (wire encode elems) ((wire encode before).length + offset) count =
      readBe (encode elem).bytes offset count := by
  rw [split, wire_append, wire_cons, readBe_append_right, readBe_append_left _ inside]

/-- Reading in the body of the element that stands behind some others. -/
theorem readBe_wire_body (inside : offset + count ≤ (encode elem).body.length) :
    readBe (wire encode elems) ((wire encode before).length + (4 + offset)) count =
      readBe (encode elem).body offset count := by
  rw [readBe_wire split, Tlv.readBe_body]
  rw [Tlv.length_bytes]
  omega

/-- The type of the element that stands behind some others. -/
theorem readBe_wire_type :
    readBe (wire encode elems) (wire encode before).length 2 = some (encode elem).type.toNat := by
  have inside : 0 + 2 ≤ (encode elem).bytes.length := by
    rw [Tlv.length_bytes]
    omega
  have read := readBe_wire split inside
  rw [Nat.add_zero, Tlv.readBe_type] at read
  exact read

/-- A word of a body that stands behind some other bytes of it. -/
theorem readWord_wire_behind {width : Nat} {word : BitVec width} {lead rest : List (BitVec 8)}
    (whole : 256 ^ (width / 8) = 2 ^ width)
    (body : (encode elem).body = lead ++ (packBe (width / 8) word.toNat ++ rest)) :
    readWord width (wire encode elems) ((wire encode before).length + (4 + lead.length)) =
      some word := by
  have inside : lead.length + width / 8 ≤ (encode elem).body.length := by
    rw [body, List.length_append, List.length_append, length_packBe]
    omega
  rw [readWord, readBe_wire_body split inside, body]
  exact readBe_packBe_word lead rest (width / 8) whole word

/-- The word that a body starts with. -/
theorem readWord_wire_body {width : Nat} {word : BitVec width} {rest : List (BitVec 8)}
    (whole : 256 ^ (width / 8) = 2 ^ width)
    (body : (encode elem).body = packBe (width / 8) word.toNat ++ rest) :
    readWord width (wire encode elems) ((wire encode before).length + 4) = some word :=
  @readWord_wire_behind _ _ _ _ _ _ split _ _ [] rest whole body

/-- Copying from the body of the element that stands behind some others. -/
theorem copyBytes_wire_body (inside : offset + count ≤ (encode elem).body.length) :
    copyBytes (wire encode elems) ((wire encode before).length + (4 + offset)) count =
      copyBytes (encode elem).body offset count := by
  have behind := copyBytes_append_right
    (packBe 2 (encode elem).type.toNat ++ packBe 2 ((encode elem).body.length + 4))
    (encode elem).body offset count
  rw [List.length_append, length_packBe, length_packBe, List.append_assoc] at behind
  rw [split, wire_append, wire_cons, copyBytes_append_right, copyBytes_append_left]
  · exact behind
  · rw [Tlv.length_bytes]
    omega

end Split

end Walk

end Horse.Codec
