import Mathlib.Data.List.Nodup

/-!
# Actions, action sets and instructions

An action is a tagged union in the source.  Here each tag is a constructor with
the payload its tag gives a meaning to.  The value of a set-field action stays
the raw union: sixteen bytes, of which the handlers read the first one, two,
four, eight, six or sixteen.  Multi-byte numbers are stored least significant
byte first.

An action set is a hash table keyed by the tag.  Adding to it replaces an action
of the same tag, so it holds each tag at most once.
-/

namespace Horse.Lib

/-- `enum action_set_order`. -/
inductive ActionSetOrder
  | meter
  | copyTtlInwards
  | popVlan
  | popMpls
  | pushMpls
  | pushVlan
  | copyTtlOutwards
  | decrementTtl
  | setMplsTtl
  | decrementMplsTtl
  | setField
  | qos
  | group
  | output
  deriving DecidableEq, Repr

/-- The tags in the order in which an action set is executed. -/
def ActionSetOrder.all : List ActionSetOrder :=
  [.meter, .copyTtlInwards, .popVlan, .popMpls, .pushMpls, .pushVlan, .copyTtlOutwards,
    .decrementTtl, .setMplsTtl, .decrementMplsTtl, .setField, .qos, .group, .output]

/-- `enum set_field_type`. -/
inductive SetFieldType
  | inPort
  | metadata
  | tunnelId
  | ethType
  | ethDst
  | ethSrc
  | vlanId
  | vlanPcp
  | mplsLabel
  | mplsTc
  | mplsBos
  | ipDscp
  | ipEcn
  | ipProto
  | ipv4Dst
  | ipv4Src
  | icmpv4Type
  | icmpv4Code
  | tcpDst
  | tcpSrc
  | udpDst
  | udpSrc
  | sctpDst
  | sctpSrc
  | arpOp
  | arpSpa
  | arpTpa
  | arpSha
  | arpTha
  | ipv6Dst
  | ipv6Src
  | ipv6Flabel
  | icmpv6Type
  | icmpv6Code
  | ipv6NdTarget
  | ipv6NdSll
  | ipv6NdTll
  deriving DecidableEq, Repr

/-- `struct set_field`: the field and the sixteen bytes of the value union. -/
structure SetField where
  field : SetFieldType
  value : BitVec 128
  deriving DecidableEq, Repr

namespace SetField

/-- The member `u8_field` of the union. -/
def u8Field (set : SetField) : BitVec 8 := set.value.setWidth 8

/-- The member `u16_field`. -/
def u16Field (set : SetField) : BitVec 16 := set.value.setWidth 16

/-- The member `u32_field`. -/
def u32Field (set : SetField) : BitVec 32 := set.value.setWidth 32

/-- The member `u64_field`. -/
def u64Field (set : SetField) : BitVec 64 := set.value.setWidth 64

/-- The member `eth_addr`. -/
def ethAddr (set : SetField) : BitVec 48 := set.value.setWidth 48

/-- The member `ipv6_addr`. -/
def ipv6Addr (set : SetField) : BitVec 128 := set.value

end SetField

/-- `struct action`. -/
inductive Action
  | meter (meterId : BitVec 32)
  | copyTtlInwards
  | popVlan
  | popMpls (ethType : BitVec 16)
  | pushMpls (ethType : BitVec 16)
  | pushVlan (ethType : BitVec 16)
  | copyTtlOutwards
  | decrementTtl
  | setMplsTtl (newTtl : BitVec 8)
  | decrementMplsTtl
  | setField (set : SetField)
  | qos
  | group (groupId : BitVec 32)
  | output (port : BitVec 32)
  deriving DecidableEq, Repr

/-- The tag of an action. -/
def Action.type : Action → ActionSetOrder
  | .meter _ => .meter
  | .copyTtlInwards => .copyTtlInwards
  | .popVlan => .popVlan
  | .popMpls _ => .popMpls
  | .pushMpls _ => .pushMpls
  | .pushVlan _ => .pushVlan
  | .copyTtlOutwards => .copyTtlOutwards
  | .decrementTtl => .decrementTtl
  | .setMplsTtl _ => .setMplsTtl
  | .decrementMplsTtl => .decrementMplsTtl
  | .setField _ => .setField
  | .qos => .qos
  | .group _ => .group
  | .output _ => .output

/-! ## Action sets -/

/-- `struct action_set`, in insertion order. -/
structure ActionSet where
  actions : List Action
  distinct : (actions.map Action.type).Nodup
  deriving DecidableEq, Repr

/-- `action_set_init`, and the set after `action_set_clean`. -/
def actionSetInit : ActionSet where
  actions := []
  distinct := List.nodup_nil

/-- `action_set_add`: an action with the tag of the new one is replaced. -/
def actionSetAdd (as : ActionSet) (act : Action) : ActionSet where
  actions := as.actions.filter (fun orig => orig.type != act.type) ++ [act]
  distinct := by
    rw [List.map_append, List.map_singleton]
    refine List.Nodup.append (as.distinct.sublist (List.filter_sublist.map _))
      (List.nodup_singleton _) ?_
    rw [List.disjoint_singleton]
    intro member
    obtain ⟨orig, kept, sameType⟩ := List.mem_map.mp member
    have differs := (List.mem_filter.mp kept).2
    simp [sameType] at differs

/-- `action_set_merge`. -/
def actionSetMerge (asOrig asMerge : ActionSet) : ActionSet :=
  asMerge.actions.foldl actionSetAdd asOrig

/-- `action_set_action`. -/
def actionSetAction (as : ActionSet) (type : ActionSetOrder) : Option Action :=
  as.actions.find? fun act => act.type == type

/-! ## Instructions -/

/-- `enum instruction_type`. -/
inductive InstructionType
  | applyActions
  | clearActions
  | writeActions
  | writeMetadata
  | gotoTable
  deriving DecidableEq, Repr

/-- The bit that marks an instruction type as active. -/
def InstructionType.bit : InstructionType → BitVec 8
  | .applyActions => 1
  | .clearActions => 2
  | .writeActions => 4
  | .writeMetadata => 8
  | .gotoTable => 16

/-- `struct write_metadata`. -/
structure WriteMetadata where
  metadata : BitVec 64
  metadataMask : BitVec 64
  deriving DecidableEq, Repr

/-- `struct instruction_set`: the bitmap of the active instructions and the
payload of each. -/
structure InstructionSet where
  active : BitVec 8
  applyAct : List Action
  writeAct : ActionSet
  writeMeta : WriteMetadata
  gtTable : BitVec 8
  deriving DecidableEq, Repr

/-- The instruction set of a new flow, all bytes zero. -/
def instructionSetInit : InstructionSet where
  active := 0
  applyAct := []
  writeAct := actionSetInit
  writeMeta := ⟨0, 0⟩
  gtTable := 0

/-- `instruction_is_active`. -/
def instructionIsActive (is : InstructionSet) (type : InstructionType) : Bool :=
  (is.active &&& type.bit) != 0

/-- `add_apply_actions`. -/
def addApplyActions (is : InstructionSet) (actions : List Action) : InstructionSet :=
  { is with active := is.active ||| InstructionType.applyActions.bit, applyAct := actions }

/-- `add_clear_actions`. -/
def addClearActions (is : InstructionSet) : InstructionSet :=
  { is with active := is.active ||| InstructionType.clearActions.bit }

/-- `add_write_actions`. -/
def addWriteActions (is : InstructionSet) (actions : ActionSet) : InstructionSet :=
  { is with active := is.active ||| InstructionType.writeActions.bit, writeAct := actions }

/-- `add_write_metadata`. -/
def addWriteMetadata (is : InstructionSet) (writeMeta : WriteMetadata) : InstructionSet :=
  { is with active := is.active ||| InstructionType.writeMetadata.bit, writeMeta := writeMeta }

/-- `add_goto_table`. -/
def addGotoTable (is : InstructionSet) (tableId : BitVec 8) : InstructionSet :=
  { is with active := is.active ||| InstructionType.gotoTable.bit, gtTable := tableId }

end Horse.Lib
