import Mathlib.Data.BitVec
import Mathlib.Data.List.Sort

/-!
# Reading a topology file

The tree of a JSON text, and `parse_topology`, which copies the datapaths and links of a
topology file to two arrays of fixed size.  The loops run over what the file has, and nothing
stops them at the end of an array; the number of links is written only if the file has links.
Texts are C strings, with a character for every byte before the NUL.
-/

namespace Horse.Lib

/-! ## JSON trees -/

/-- Where something stands in the text. -/
structure JsonPlace where
  line : Nat
  row : Nat
  deriving DecidableEq, Repr

/-- `struct json_string_ex_s`, the name of a member. -/
structure JsonKey where
  name : List Char
  place : JsonPlace
  deriving DecidableEq, Repr

/-- `struct json_value_ex_s`.  A literal is `true`, `false` or `null`. -/
inductive JsonValue
  | string (place : JsonPlace) (text : List Char)
  | number (place : JsonPlace) (text : List Char)
  | object (place : JsonPlace) (elements : List (JsonKey × JsonValue))
  | array (place : JsonPlace) (elements : List JsonValue)
  | literal (place : JsonPlace)

namespace JsonValue

/-- The members `line_no` and `row_no`. -/
def place : JsonValue → JsonPlace
  | string place _ | number place _ | object place _ | array place _ | literal place => place

end JsonValue

/-! ## Parsed topologies -/

/-- `DP_LIMIT`. -/
def dpLimit : Nat := 65535

/-- `LINK_LIMIT`. -/
def linkLimit : Nat := 10000

/-- `struct link_spec`. -/
structure LinkSpec where
  switchX : BitVec 64
  switchY : BitVec 64
  portX : BitVec 32
  portY : BitVec 32
  delay : BitVec 32
  bw : BitVec 32
  deriving DecidableEq, Repr

/-- `struct parsed_topology`.  The arrays have `dpLimit` and `linkLimit` slots. -/
structure ParsedTopology where
  dps : Nat → BitVec 64
  ndps : Nat
  links : Nat → LinkSpec
  nlinks : Nat

/-- How `parse_topology` ends other than by its return: the program exits with a message,
reads through a null pointer, writes behind the end of an array, or takes the payload of a
value for one of another layout. -/
inductive ParseFailure
  | exits (message : String)
  | crashes
  | writesOutside
  | misreads
  deriving DecidableEq, Repr

namespace ParsedTopology

/-- Assign `dps[i]`. -/
def storeDp (ptopo : ParsedTopology) (i : Nat) (dpid : BitVec 64) :
    Except ParseFailure ParsedTopology :=
  if i < dpLimit then .ok { ptopo with dps := Function.update ptopo.dps i dpid }
  else .error .writesOutside

/-- The structure with another link in a slot. -/
def setLink (ptopo : ParsedTopology) (i : Nat) (link : LinkSpec) : ParsedTopology :=
  { ptopo with links := Function.update ptopo.links i link }

/-- Assign a member of `links[i]`. -/
def storeLink (ptopo : ParsedTopology) (i : Nat) (change : LinkSpec → LinkSpec) :
    Except ParseFailure ParsedTopology :=
  if i < linkLimit then .ok (ptopo.setLink i (change (ptopo.links i)))
  else .error .writesOutside

/-- The datapaths in use. -/
def dpList (ptopo : ParsedTopology) : List (BitVec 64) :=
  (List.range ptopo.ndps).map ptopo.dps

/-- The links in use. -/
def linkList (ptopo : ParsedTopology) : List LinkSpec :=
  (List.range ptopo.nlinks).map ptopo.links

/-- `qsort` of the first datapaths. -/
def sortDps (ptopo : ParsedTopology) (count : Nat) : ParsedTopology :=
  let sorted := ((List.range count).map ptopo.dps).insertionSort (· ≤ ·)
  { ptopo with dps := fun i => sorted.getD i (ptopo.dps i) }

end ParsedTopology

/-! ## Numbers -/

/-- The value of a hexadecimal digit. -/
def hexDigit (c : Char) : Option Nat :=
  if '0' ≤ c ∧ c ≤ '9' then some (c.toNat - '0'.toNat)
  else if 'a' ≤ c ∧ c ≤ 'f' then some (c.toNat - 'a'.toNat + 10)
  else if 'A' ≤ c ∧ c ≤ 'F' then some (c.toNat - 'A'.toNat + 10)
  else none

/-- What `strtoull` leaves behind: the value, the text from `end` on, and `errno`. -/
structure Strtoull where
  value : Nat
  rest : List Char
  overflows : Bool
  deriving DecidableEq, Repr

/-- `isspace`. -/
def isSpace (c : Char) : Bool :=
  c ∈ [' ', '\t', '\n', '\x0b', '\x0c', '\r']

/-- `strtoull` with base 16. -/
def strtoull (text : List Char) : Strtoull :=
  let unspaced := text.dropWhile isSpace
  let negative := unspaced.head? == some '-'
  let unsigned :=
    match unspaced with
    | '-' :: rest => rest
    | '+' :: rest => rest
    | rest => rest
  let body :=
    match unsigned with
    | '0' :: x :: digit :: rest =>
      if (x = 'x' ∨ x = 'X') ∧ (hexDigit digit).isSome then digit :: rest else unsigned
    | rest => rest
  let digits := body.takeWhile fun c => (hexDigit c).isSome
  let value := digits.foldl (fun value c => 16 * value + (hexDigit c).getD 0) 0
  if digits = [] then ⟨0, text, false⟩
  else if 2 ^ 64 ≤ value then ⟨2 ^ 64 - 1, body.drop digits.length, true⟩
  else ⟨if negative then (2 ^ 64 - value) % 2 ^ 64 else value, body.drop digits.length, false⟩

/-- `parse_number`. -/
def parseNumber (text : List Char) (maximum : Nat) : Except ParseFailure Nat :=
  let result := strtoull text
  if result.overflows ∨ result.rest = text ∨ result.rest ≠ [] ∨ text.head? = some '-' ∨
      maximum < result.value then
    .error (.exits ("Invalid topology number: " ++ String.ofList text ++ "\n"))
  else .ok result.value

/-! ## Members -/

/-- The messages of `json_error` about a key, of which `json_set_error_info` keeps what fits
the ten bytes of its member. -/
def jsonError (what : String) (key : List Char) (place : JsonPlace) (problem : String) :
    ParseFailure :=
  .exits (what ++ " \"" ++ String.ofList (key.take 9) ++ "\" on line:" ++ toString place.line ++
    " column:" ++ toString place.row ++ problem)

/-- `validate_keyword`. -/
def validateKeyword (expected : List Char) (key : JsonKey) : Except ParseFailure Unit :=
  if key.name = expected then .ok ()
  else .error (jsonError "Keyword" key.name key.place " is not allowed.\n")

/-- `validate_link_dp`; the array is sorted, so that `bsearch` finds what it has. -/
def validateLinkDp (dpid : BitVec 64) (ptopo : ParsedTopology) : Bool :=
  ptopo.dpList.contains dpid

/-- The payload of a value, taken as a number.  Strings have the layout of numbers. -/
def numberText : JsonValue → Except ParseFailure (List Char)
  | .string _ text | .number _ text => .ok text
  | .literal _ => .error .crashes
  | .object _ _ | .array _ _ => .error .misreads

/-- The payload of a value, taken as an array. -/
def arrayElements : JsonValue → Except ParseFailure (List JsonValue)
  | .array _ elements => .ok elements
  | .literal _ => .error .crashes
  | _ => .error .misreads

/-- The payload of a value, taken as an object. -/
def objectElements : JsonValue → Except ParseFailure (List (JsonKey × JsonValue))
  | .object _ elements => .ok elements
  | .literal _ => .error .crashes
  | _ => .error .misreads

/-- The members of a link, in the order in which they have to be written. -/
inductive LinkField
  | switchX | switchY | portX | portY | delay | bw
  deriving DecidableEq, Repr

namespace LinkField

/-- All members. -/
def all : List LinkField := [switchX, switchY, portX, portY, delay, bw]

/-- The name of a member in the file. -/
def keyword : LinkField → List Char
  | switchX => "switchX".toList
  | switchY => "switchY".toList
  | portX => "portX".toList
  | portY => "portY".toList
  | delay => "delay".toList
  | bw => "bw".toList

/-- The greatest number that is accepted. -/
def maximum : LinkField → Nat
  | switchX | switchY => 2 ^ 64 - 1
  | _ => 2 ^ 32 - 1

/-- The members that name a datapath. -/
def isSwitch : LinkField → Bool
  | switchX | switchY => true
  | _ => false

/-- Write a number into a member. -/
def assign (number : Nat) (link : LinkSpec) : LinkField → LinkSpec
  | switchX => { link with switchX := BitVec.ofNat 64 number }
  | switchY => { link with switchY := BitVec.ofNat 64 number }
  | portX => { link with portX := BitVec.ofNat 32 number }
  | portY => { link with portY := BitVec.ofNat 32 number }
  | delay => { link with delay := BitVec.ofNat 32 number }
  | bw => { link with bw := BitVec.ofNat 32 number }

end LinkField

/-! ## The file -/

/-- The loop over the datapaths. -/
def parseDps : Nat → List JsonValue → ParsedTopology → Except ParseFailure ParsedTopology
  | _, [], ptopo => .ok ptopo
  | i, value :: rest, ptopo => do
      let text ← numberText value
      let dpid ← parseNumber text (2 ^ 64 - 1)
      let ptopo ← ptopo.storeDp i (BitVec.ofNat 64 dpid)
      parseDps (i + 1) rest ptopo

/-- The members of `links[i]`, one after the other. -/
def parseFields (i : Nat) :
    List LinkField → List (JsonKey × JsonValue) → ParsedTopology →
      Except ParseFailure ParsedTopology
  | [], _, ptopo => .ok ptopo
  | _ :: _, [], _ => .error .crashes
  | field :: fields, (key, value) :: elements, ptopo => do
      validateKeyword field.keyword key
      let text ← numberText value
      let number ← parseNumber text field.maximum
      let ptopo ← ptopo.storeLink i fun link => field.assign number link
      if field.isSwitch ∧ validateLinkDp (BitVec.ofNat 64 number) ptopo = false then
        .error (jsonError "Datapath" text value.place " does not exist.\n")
      else
        parseFields i fields elements ptopo

/-- The loop over the links. -/
def parseLinks : Nat → List JsonValue → ParsedTopology → Except ParseFailure ParsedTopology
  | _, [], ptopo => .ok ptopo
  | i, value :: rest, ptopo => do
      let elements ← objectElements value
      let ptopo ← parseFields i LinkField.all elements ptopo
      parseLinks (i + 1) rest ptopo

/-- `DPS_KEY`. -/
def dpsKey : List Char := "dps".toList

/-- `LINKS_KEY`. -/
def linksKey : List Char := "links".toList

/-- The part of `parse_topology` for the datapaths. -/
def parseDpsMember (key : JsonKey) (value : JsonValue) (ptopo : ParsedTopology) :
    Except ParseFailure ParsedTopology := do
  validateKeyword dpsKey key
  let values ← arrayElements value
  let ptopo ← parseDps 0 values ptopo
  .ok { ptopo.sortDps values.length with ndps := values.length }

/-- The part of `parse_topology` for the links. -/
def parseLinksMember (key : JsonKey) (value : JsonValue) (ptopo : ParsedTopology) :
    Except ParseFailure ParsedTopology := do
  validateKeyword linksKey key
  let values ← arrayElements value
  let ptopo ← parseLinks 0 values ptopo
  .ok { ptopo with nlinks := values.length }

/-- `parse_topology`, from what `json_parse_ex` returns: the root, or where the text stops
being JSON. -/
def parseTopology (root : Except JsonPlace JsonValue) (ptopo : ParsedTopology) :
    Except ParseFailure ParsedTopology :=
  match root with
  | .error place =>
    .error (.exits ("JSON format error before line:" ++ toString place.line ++ " column:" ++
      toString place.row ++ ".\n"))
  | .ok root => do
      match ← objectElements root with
      | [] => .error .crashes
      | (key, value) :: elements =>
        let ptopo ← parseDpsMember key value ptopo
        match elements with
        | [] => .ok ptopo
        | (key, value) :: _ => parseLinksMember key value ptopo

end Horse.Lib
