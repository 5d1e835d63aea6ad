import Horse.Codec.Tlv
import Horse.Lib.Action

/-!
# Actions on the wire

The OpenFlow 1.3 actions as LOCI objects and their layout in a wire buffer.  An action is
an element of a list with a type and a length; a set-field action holds an OXM field, which
has a header of its own.
-/

namespace Horse.Lib

open Horse.Codec

/-! ## The objects -/

/-- `enum ofp_action_type`. -/
inductive OfpActionType
  | output
  | copyTtlOut
  | copyTtlIn
  | setMplsTtl
  | decMplsTtl
  | pushVlan
  | popVlan
  | pushMpls
  | popMpls
  | setQueue
  | group
  | setNwTtl
  | decNwTtl
  | setField
  | pushPbb
  | popPbb
  | experimenter
  deriving DecidableEq, Repr

namespace OfpActionType

/-- The number of an action type. -/
def code : OfpActionType → BitVec 16
  | output => 0
  | copyTtlOut => 11
  | copyTtlIn => 12
  | setMplsTtl => 15
  | decMplsTtl => 16
  | pushVlan => 17
  | popVlan => 18
  | pushMpls => 19
  | popMpls => 20
  | setQueue => 21
  | group => 22
  | setNwTtl => 23
  | decNwTtl => 24
  | setField => 25
  | pushPbb => 26
  | popPbb => 27
  | experimenter => 0xffff

/-- All action types. -/
def all : List OfpActionType :=
  [output, copyTtlOut, copyTtlIn, setMplsTtl, decMplsTtl, pushVlan, popVlan, pushMpls, popMpls,
    setQueue, group, setNwTtl, decNwTtl, setField, pushPbb, popPbb, experimenter]

/-- The action type with a number. -/
def ofCode (number : Nat) : Option OfpActionType :=
  all.find? fun type => type.code.toNat == number

@[simp]
theorem ofCode_code (type : OfpActionType) : ofCode type.code.toNat = some type := by
  cases type <;> rfl

end OfpActionType

/-- `enum oxm_ofb_match_fields`. -/
inductive OxmField
  | inPort
  | inPhyPort
  | metadata
  | ethDst
  | ethSrc
  | ethType
  | vlanVid
  | vlanPcp
  | ipDscp
  | ipEcn
  | ipProto
  | ipv4Src
  | ipv4Dst
  | tcpSrc
  | tcpDst
  | udpSrc
  | udpDst
  | sctpSrc
  | sctpDst
  | icmpv4Type
  | icmpv4Code
  | arpOp
  | arpSpa
  | arpTpa
  | arpSha
  | arpTha
  | ipv6Src
  | ipv6Dst
  | ipv6Flabel
  | icmpv6Type
  | icmpv6Code
  | ipv6NdTarget
  | ipv6NdSll
  | ipv6NdTll
  | mplsLabel
  | mplsTc
  | mplsBos
  | pbbIsid
  | tunnelId
  | ipv6Exthdr
  deriving DecidableEq, Repr

namespace OxmField

/-- All match fields, in the order of their numbers from 0 on. -/
def all : List OxmField :=
  [inPort, inPhyPort, metadata, ethDst, ethSrc, ethType, vlanVid, vlanPcp, ipDscp, ipEcn, ipProto,
    ipv4Src, ipv4Dst, tcpSrc, tcpDst, udpSrc, udpDst, sctpSrc, sctpDst, icmpv4Type, icmpv4Code,
    arpOp, arpSpa, arpTpa, arpSha, arpTha, ipv6Src, ipv6Dst, ipv6Flabel, icmpv6Type, icmpv6Code,
    ipv6NdTarget, ipv6NdSll, ipv6NdTll, mplsLabel, mplsTc, mplsBos, pbbIsid, tunnelId, ipv6Exthdr]

/-- The number of a match field. -/
def code (field : OxmField) : Nat :=
  all.idxOf field

/-- The match field with a number. -/
def ofCode (number : Nat) : Option OxmField :=
  all[number]?

end OxmField

/-- An OXM object: a header of class, field, mask flag and length, and the value. -/
structure Oxm where
  oxmClass : BitVec 16
  field : BitVec 7
  hasMask : Bool
  value : List (BitVec 8)
  fits : value.length < 256

namespace Oxm

/-- The third byte of the header: the field in the upper seven bits, the mask flag in the
lowest. -/
def fieldByte (oxm : Oxm) : BitVec 8 :=
  oxm.field ++ BitVec.ofBool oxm.hasMask

/-- The bytes of an OXM object. -/
def bytes (oxm : Oxm) : List (BitVec 8) :=
  packBe 2 oxm.oxmClass.toNat ++
    (packBe 1 oxm.fieldByte.toNat ++ (packBe 1 oxm.value.length ++ oxm.value))

@[simp]
theorem length_bytes (oxm : Oxm) : oxm.bytes.length = oxm.value.length + 4 := by
  simp only [bytes, List.length_append, length_packBe]
  omega

theorem readBe_fieldByte (oxm : Oxm) : readWord 8 oxm.bytes 2 = some oxm.fieldByte := by
  have packed := readBe_packBe_word (packBe 2 oxm.oxmClass.toNat)
    (packBe 1 oxm.value.length ++ oxm.value) 1 (by decide) oxm.fieldByte
  rw [length_packBe] at packed
  exact packed

theorem readBe_length (oxm : Oxm) (after : List (BitVec 8)) :
    readBe (oxm.bytes ++ after) 3 1 = some oxm.value.length := by
  have packed := readBe_packBe (packBe 2 oxm.oxmClass.toNat ++ packBe 1 oxm.fieldByte.toNat)
    (oxm.value ++ after) 1 oxm.value.length
  have small : oxm.value.length < 256 ^ 1 := oxm.fits
  rw [Nat.mod_eq_of_lt small, List.length_append, length_packBe, length_packBe] at packed
  simp only [bytes, List.append_assoc] at packed ⊢
  exact packed

end Oxm

/-- An OpenFlow action as a LOCI object.  The padding behind the OXM of a set-field
action fills up to eight bytes. -/
inductive OfAction
  | output (port : BitVec 32) (maxLen : BitVec 16)
  | copyTtlOut
  | copyTtlIn
  | setMplsTtl (mplsTtl : BitVec 8)
  | decMplsTtl
  | pushVlan (ethType : BitVec 16)
  | popVlan
  | pushMpls (ethType : BitVec 16)
  | popMpls (ethType : BitVec 16)
  | setQueue (queueId : BitVec 32)
  | group (groupId : BitVec 32)
  | setNwTtl (nwTtl : BitVec 8)
  | decNwTtl
  | setField (field : Oxm) (pad : Fin 8)
  | pushPbb (ethType : BitVec 16)
  | popPbb
  | experimenter (data : { data : List (BitVec 8) // data.length + 4 < 2 ^ 16 })

namespace OfAction

/-- The type of an action. -/
def type : OfAction → OfpActionType
  | output _ _ => .output
  | copyTtlOut => .copyTtlOut
  | copyTtlIn => .copyTtlIn
  | setMplsTtl _ => .setMplsTtl
  | decMplsTtl => .decMplsTtl
  | pushVlan _ => .pushVlan
  | popVlan => .popVlan
  | pushMpls _ => .pushMpls
  | popMpls _ => .popMpls
  | setQueue _ => .setQueue
  | group _ => .group
  | setNwTtl _ => .setNwTtl
  | decNwTtl => .decNwTtl
  | setField _ _ => .setField
  | pushPbb _ => .pushPbb
  | popPbb => .popPbb
  | experimenter _ => .experimenter

/-- What stands behind the type and the length of an action. -/
def body : OfAction → List (BitVec 8)
  | output port maxLen => packBe 4 port.toNat ++ (packBe 2 maxLen.toNat ++ packBe 6 0)
  | copyTtlOut | copyTtlIn | decMplsTtl | popVlan | decNwTtl | popPbb => packBe 4 0
  | setMplsTtl ttl | setNwTtl ttl => packBe 1 ttl.toNat ++ packBe 3 0
  | pushVlan ethType | pushMpls ethType | popMpls ethType | pushPbb ethType =>
    packBe 2 ethType.toNat ++ packBe 2 0
  | setQueue number | group number => packBe 4 number.toNat
  | setField field pad => field.bytes ++ packBe pad 0
  | experimenter data => data

theorem length_body (act : OfAction) : act.body.length + 4 < 2 ^ 16 := by
  cases act
  case setField field pad =>
    have short := field.fits
    have few := pad.isLt
    simp only [body, List.length_append, Oxm.length_bytes, length_packBe]
    omega
  case experimenter data => exact data.2
  all_goals simp [body]

/-- An action as an element of a list. -/
def toTlv (act : OfAction) : Tlv where
  type := act.type.code
  body := act.body
  fits := act.length_body

end OfAction

end Horse.Lib
