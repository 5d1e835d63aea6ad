import Horse.Codec.BigEndian

/-!
# Packed structures

A packed structure lies in memory without gaps, its words in network byte order.  A
format holds how many bytes that are, how they are written and how they are read at an
offset, together with the laws that connect the three.  The formats of structures are
built from those of words and of arrays of bytes by putting formats one behind the other.
-/

namespace Horse.Codec

universe u v

/-- How the values of a type lie in memory. -/
structure Packed (α : Type u) where
  size : Nat
  pack : α → List (BitVec 8)
  load : List (BitVec 8) → Nat → Option α
  length_pack : ∀ value, (pack value).length = size
  load_pack : ∀ before value after,
    load (before ++ (pack value ++ after)) before.length = some value
  load_isSome : ∀ data offset, (load data offset).isSome ↔ offset + size ≤ data.length

theorem readBe_isSome {data : List (BitVec 8)} {offset count : Nat} (positive : 0 < count) :
    (readBe data offset count).isSome ↔ offset + count ≤ data.length := by
  constructor
  · obtain ⟨fewer, rfl⟩ : ∃ fewer, count = fewer + 1 := ⟨count - 1, by omega⟩
    intro isSome
    obtain ⟨value, read⟩ := Option.isSome_iff_exists.mp isSome
    obtain ⟨high, -, rest⟩ := Option.bind_eq_some_iff.mp read
    obtain ⟨byte, isByte, -⟩ := Option.map_eq_some_iff.mp rest
    obtain ⟨inside, -⟩ := List.getElem?_eq_some_iff.mp isByte
    omega
  · intro inside
    exact Option.isSome_iff_exists.mpr (readBe_defined inside)

namespace Packed

variable {α : Type u} {β : Type v}

/-- A word of a whole number of bytes. -/
def word (width : Nat) (whole : 256 ^ (width / 8) = 2 ^ width) (positive : 0 < width / 8) :
    Packed (BitVec width) where
  size := width / 8
  pack value := packBe (width / 8) value.toNat
  load := readWord width
  length_pack value := length_packBe _ _
  load_pack before value after := readBe_packBe_word before after _ whole value
  load_isSome data offset := by
    rw [readWord, Option.isSome_map]
    exact readBe_isSome positive

/-- An array of bytes. -/
def array (count : Nat) : Packed { bytes : List (BitVec 8) // bytes.length = count } where
  size := count
  pack value := value.1
  load data offset :=
    if inside : offset + count ≤ data.length then
      some ⟨(data.drop offset).take count, by
        rw [List.length_take, List.length_drop]
        omega⟩
    else none
  length_pack value := value.2
  load_pack before value after := by
    have inside : before.length + count ≤ (before ++ (value.1 ++ after)).length := by
      rw [List.length_append, List.length_append, value.2]
      omega
    rw [dif_pos inside, Option.some.injEq, Subtype.ext_iff]
    simp only [List.drop_left]
    exact List.take_left' value.2
  load_isSome data offset := by
    split <;> simp_all

/-- One format behind the other. -/
def pair (first : Packed α) (second : Packed β) : Packed (α × β) where
  size := first.size + second.size
  pack value := first.pack value.1 ++ second.pack value.2
  load data offset :=
    (first.load data offset).bind fun a =>
      (second.load data (offset + first.size)).map fun b => (a, b)
  length_pack value := by
    rw [List.length_append, first.length_pack, second.length_pack]
  load_pack before value after := by
    have behind := second.load_pack (before ++ first.pack value.1) value.2 after
    rw [List.length_append, first.length_pack, List.append_assoc] at behind
    rw [List.append_assoc, first.load_pack, Option.bind_some, behind, Option.map_some]
  load_isSome data offset := by
    have isFirst := first.load_isSome data offset
    have isSecond := second.load_isSome data (offset + first.size)
    cases loaded : first.load data offset with
    | none =>
      rw [loaded] at isFirst
      simp only [Option.isSome_none, Bool.false_eq_true, false_iff] at isFirst
      simp only [Option.bind_none, Option.isSome_none, Bool.false_eq_true, false_iff]
      omega
    | some a =>
      rw [Option.bind_some, Option.isSome_map, isSecond]
      omega

/-- The format of a structure, by its members. -/
def via (members : Packed α) (build : α → β) (parts : β → α)
    (inverse : ∀ value, build (parts value) = value) : Packed β where
  size := members.size
  pack value := members.pack (parts value)
  load data offset := (members.load data offset).map build
  length_pack value := members.length_pack _
  load_pack before value after := by rw [members.load_pack, Option.map_some, inverse]
  load_isSome data offset := by rw [Option.isSome_map, members.load_isSome]

variable {format : Packed α} {data : List (BitVec 8)} {offset : Nat}

theorem load_eq_some (inside : offset + format.size ≤ data.length) :
    ∃ value, format.load data offset = some value :=
  Option.isSome_iff_exists.mp ((format.load_isSome data offset).mpr inside)

theorem load_eq_none_iff :
    format.load data offset = none ↔ data.length < offset + format.size := by
  rw [← Option.isNone_iff_eq_none, ← Option.not_isSome, Bool.not_eq_true', ← Bool.not_eq_true,
    format.load_isSome, Nat.not_le]

end Packed

end Horse.Codec
