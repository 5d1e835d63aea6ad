import Mathlib.Data.BitVec

/-!
# Word-level helpers

The bit-counting and checksum helpers of the source, on 32-bit words, with the
byte order of the machine the source is written for.
-/

namespace Horse.Lib

/-- `pop`: the number of one bits of a word, by summing ever wider groups. -/
def pop (x : BitVec 32) : Nat :=
  let pairs := x - ((x >>> 1) &&& 0x55555555)
  let nibbles := (pairs &&& 0x33333333) + ((pairs >>> 2) &&& 0x33333333)
  let bytes := (nibbles + (nibbles >>> 4)) &&& 0x0F0F0F0F
  let halves := bytes + (bytes <<< 8)
  let word := halves + (halves <<< 16)
  (word >>> 24).toNat

/-- `ntz`: the number of trailing zero bits. -/
def ntz (x : BitVec 32) : Nat :=
  pop (~~~x &&& (x - 1))

/-- One turn of the loop in `crc32_for_byte`. -/
def crc32Bit (r : BitVec 32) : BitVec 32 :=
  (if r &&& 1 ≠ 0 then 0 else 0xEDB88320) ^^^ (r >>> 1)

/-- `crc32_for_byte`. -/
def crc32ForByte (r : BitVec 32) : BitVec 32 :=
  (Nat.repeat crc32Bit 8 r) ^^^ 0xFF000000

/-- `crc32`: the checksum `crc` continued over more bytes. -/
def crc32 (data : List (BitVec 8)) (crc : BitVec 32) : BitVec 32 :=
  data.foldl (fun crc byte => crc32ForByte ((crc.setWidth 8 ^^^ byte).setWidth 32) ^^^ (crc >>> 8))
    crc

/-- The bytes of a number in memory, least significant first. -/
def hostBytes {w : Nat} (count : Nat) (value : BitVec w) : List (BitVec 8) :=
  (List.range count).map fun i => (value >>> (8 * i)).setWidth 8

end Horse.Lib
