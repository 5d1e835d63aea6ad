import Horse.Codec.BigEndian

/-!
# Records of fixed layout

A layout is a sequence of unsigned numbers in network byte order and of padding.  Packing
writes zeros for the padding, unpacking skips it.  The operations follow the `struct`
module of Python; they are undefined where that module raises `struct.error`.
-/

namespace Horse.Codec

open Horse.Transition

/-- An item of a layout, with its number of bytes. -/
inductive Item
  | uint (bytes : Nat)
  | pad (bytes : Nat)
  deriving DecidableEq, Repr

/-- The bytes that an item takes. -/
def Item.size : Item → Nat
  | .uint bytes => bytes
  | .pad bytes => bytes

/-- The items of a format, in order. -/
abbrev Layout := List Item

namespace Layout

/-- The number of bytes of a record. -/
def size : Layout → Nat
  | [] => 0
  | item :: rest => item.size + size rest

/-- `Struct.pack`. -/
def pack : Layout → List Nat → Option (List (BitVec 8))
  | [], [] => some []
  | .uint bytes :: rest, value :: values =>
    if value < 256 ^ bytes then (pack rest values).map fun packed => packBe bytes value ++ packed
    else none
  | .pad bytes :: rest, values =>
    (pack rest values).map fun packed => List.replicate bytes 0 ++ packed
  | _, _ => none

/-- `Struct.unpack_from`. -/
def unpackFrom : Layout → List (BitVec 8) → Nat → Option (List Nat)
  | [], _, _ => some []
  | .uint bytes :: rest, data, offset =>
    (readBe data offset bytes).bind fun value =>
      (unpackFrom rest data (offset + bytes)).map fun values => value :: values
  | .pad bytes :: rest, data, offset =>
    if offset + bytes ≤ data.length then unpackFrom rest data (offset + bytes) else none

/-- Some records one behind the other. -/
def unpackMany (layout : Layout) (data : List (BitVec 8)) : Nat → Nat → Option (List (List Nat))
  | _, 0 => some []
  | offset, count + 1 =>
    (layout.unpackFrom data offset).bind fun record =>
      (unpackMany layout data (offset + layout.size) count).map fun records =>
        record :: records

/-- `Struct.iter_unpack`: the records that the data consists of. -/
def iterUnpack (layout : Layout) (data : List (BitVec 8)) : Option (List (List Nat)) :=
  if data.length % layout.size = 0 then
    layout.unpackMany data 0 (data.length / layout.size)
  else none

/-- The bytes of a record with zeros for the padding. -/
def cleared : Layout → List (BitVec 8) → List (BitVec 8)
  | [], _ => []
  | .uint bytes :: rest, data => data.take bytes ++ cleared rest (data.drop bytes)
  | .pad bytes :: rest, data => List.replicate bytes 0 ++ cleared rest (data.drop bytes)

variable {layout : Layout} {values : List Nat}

theorem length_pack {packed : List (BitVec 8)} (isPacked : layout.pack values = some packed) :
    packed.length = layout.size := by
  induction layout generalizing values packed with
  | nil =>
    cases values with
    | nil =>
      cases isPacked
      rfl
    | cons value values => cases isPacked
  | cons item rest ih =>
    cases item with
    | uint bytes =>
      cases values with
      | nil => cases isPacked
      | cons value values =>
        rw [pack] at isPacked
        split at isPacked
        · obtain ⟨others, isOthers, rfl⟩ := Option.map_eq_some_iff.mp isPacked
          rw [List.length_append, length_packBe, ih isOthers]
          rfl
        · cases isPacked
    | pad bytes =>
      rw [pack] at isPacked
      obtain ⟨others, isOthers, rfl⟩ := Option.map_eq_some_iff.mp isPacked
      rw [List.length_append, List.length_replicate, ih isOthers]
      rfl

/-- What was packed is unpacked again, wherever it stands. -/
theorem unpackFrom_pack {packed : List (BitVec 8)} (isPacked : layout.pack values = some packed)
    (before after : List (BitVec 8)) :
    layout.unpackFrom (before ++ (packed ++ after)) before.length = some values := by
  induction layout generalizing values packed before with
  | nil =>
    cases values with
    | nil => rfl
    | cons value values => cases isPacked
  | cons item rest ih =>
    cases item with
    | uint bytes =>
      cases values with
      | nil => cases isPacked
      | cons value values =>
        rw [pack] at isPacked
        split at isPacked
        · rename_i fits
          obtain ⟨others, isOthers, rfl⟩ := Option.map_eq_some_iff.mp isPacked
          have read := readBe_packBe before (others ++ after) bytes value
          have tail := ih isOthers (before ++ packBe bytes value)
          rw [Nat.mod_eq_of_lt fits] at read
          simp only [List.append_assoc, List.length_append, length_packBe] at tail ⊢
          rw [unpackFrom, read, Option.bind_some, tail]
          rfl
        · cases isPacked
    | pad bytes =>
      rw [pack] at isPacked
      obtain ⟨others, isOthers, rfl⟩ := Option.map_eq_some_iff.mp isPacked
      have tail := ih isOthers (before ++ List.replicate bytes 0)
      simp only [List.append_assoc, List.length_append, List.length_replicate] at tail ⊢
      rw [unpackFrom, if_pos (by simp), tail]

/-- What was unpacked is packed again with zeros for the padding. -/
theorem pack_unpackFrom {data : List (BitVec 8)} {offset : Nat}
    (unpacked : layout.unpackFrom data offset = some values) :
    layout.pack values = some (layout.cleared (data.drop offset)) := by
  induction layout generalizing offset values with
  | nil =>
    cases unpacked
    rfl
  | cons item rest ih =>
    cases item with
    | uint bytes =>
      obtain ⟨value, others, read, isOthers, rfl⟩ := bind_map_eq_some_iff.mp unpacked
      rw [pack, if_pos (readBe_lt read), ih isOthers, Option.map_some, packBe_readBe read,
        cleared, List.drop_drop]
    | pad bytes =>
      rw [unpackFrom] at unpacked
      split at unpacked
      · rw [pack, ih unpacked, Option.map_some, cleared, List.drop_drop]
      · cases unpacked

end Layout

end Horse.Codec
