import Horse.Codec.Masks
import Horse.Lib.ActionCodec
import Horse.Lib.KeyAlgebra
import Horse.Net.Datapath

/-!
# The meaning of actions

An action is built by a constructor of `action.c`, which chooses its tag, and executed by
the handler that `handle_action` has under this tag.  The module states what the call of a
constructor is meant to do to a netflow and says for each of them when the handler does
that, and from which netflows a list of actions does it action by action.
-/

namespace Horse.Lib

open Horse.Codec

/-! ## The calls of the constructors -/

/-- The constructors of set-field actions, by the member of the union they write. -/
inductive SetFieldMember
  | u8
  | u16
  | u32
  | u64
  | ethAddr
  | ipv6Addr

/-- The number of bits that a constructor writes. -/
def SetFieldMember.width : SetFieldMember → Nat
  | .u8 => 8
  | .u16 => 16
  | .u32 => 32
  | .u64 => 64
  | .ethAddr => 48
  | .ipv6Addr => 128

/-- A call of a constructor of `action.c`.  A constructor of set-field actions finds
something in the union and writes a part of it. -/
inductive ActionCall
  | meter (meterId : BitVec 32)
  | copyTtlIn
  | popVlan
  | popMpls (ethType : BitVec 16)
  | pushVlan (ethType : BitVec 16)
  | pushMpls (ethType : BitVec 16)
  | copyTtlOut
  | decTtl
  | decMplsTtl
  | mplsTtl (newTtl : BitVec 8)
  | setField (member : SetFieldMember) (field : SetFieldType) (value : BitVec member.width)
      (stale : BitVec 128)
  | group (groupId : BitVec 32)
  | output (port : BitVec 32)

/-- The action that a call builds. -/
def ActionCall.build : ActionCall → Action
  | .meter meterId => .meter meterId
  | .copyTtlIn => actionCopyTtlIn
  | .popVlan => actionPopVlan
  | .popMpls ethType => actionPopMpls ethType
  | .pushVlan ethType => actionPushVlan ethType
  | .pushMpls ethType => actionPushMpls ethType
  | .copyTtlOut => actionCopyTtlOut
  | .decTtl => .decrementTtl
  | .decMplsTtl => actionDecMplsTtl
  | .mplsTtl newTtl => actionMplsTtl newTtl
  | .setField _ field value stale => .setField ⟨field, overwriteLow stale value⟩
  | .group groupId => actionGroup groupId
  | .output port => actionOutput port

/-! ## What the calls mean -/

/-- The field of the match that a set-field action names. -/
def SetFieldType.keyField : SetFieldType → KeyField
  | .inPort => .inPort
  | .metadata => .metadata
  | .tunnelId => .tunnelId
  | .ethType => .ethType
  | .ethDst => .ethDst
  | .ethSrc => .ethSrc
  | .vlanId => .vlanId
  | .vlanPcp => .vlanPcp
  | .mplsLabel => .mplsLabel
  | .mplsTc => .mplsTc
  | .mplsBos => .mplsBos
  | .ipDscp => .ipDscp
  | .ipEcn => .ipEcn
  | .ipProto => .ipProto
  | .ipv4Dst => .ipv4Dst
  | .ipv4Src => .ipv4Src
  | .icmpv4Type => .icmpv4Type
  | .icmpv4Code => .icmpv4Code
  | .tcpDst => .tcpDst
  | .tcpSrc => .tcpSrc
  | .udpDst => .udpDst
  | .udpSrc => .udpSrc
  | .sctpDst => .sctpDst
  | .sctpSrc => .sctpSrc
  | .arpOp => .arpOp
  | .arpSpa => .arpSpa
  | .arpTpa => .arpTpa
  | .arpSha => .arpSha
  | .arpTha => .arpTha
  | .ipv6Dst => .ipv6Dst
  | .ipv6Src => .ipv6Src
  | .ipv6Flabel => .ipv6Flabel
  | .icmpv6Type => .icmpv6Type
  | .icmpv6Code => .icmpv6Code
  | .ipv6NdTarget => .ipv6NdTarget
  | .ipv6NdSll => .ipv6NdSll
  | .ipv6NdTll => .ipv6NdTll

/-- A tag that has the field, with the bits of the field assigned. -/
def SetFieldType.assignTag (field : SetFieldType) (value : BitVec 128) (t : Tag) : Tag :=
  match field with
  | .vlanId =>
    if t.isVlan then t.setVlanTag (maskedWrite t.vlanTag (value.setWidth 16) vlanVidMask) else t
  | .vlanPcp =>
    if t.isVlan then
      t.setVlanTag (maskedWrite t.vlanTag ((value.setWidth 8).setWidth 16 <<< 13) vlanPcpMask)
    else t
  | .mplsLabel =>
    if t.isMpls then
      { t with word := maskedWrite t.word (value.setWidth 32 <<< 12) mplsLabelMask }
    else t
  | .mplsTc =>
    if t.isMpls then
      { t with word := maskedWrite t.word ((value.setWidth 8).setWidth 32 <<< 9) mplsTcMask }
    else t
  | .mplsBos =>
    if t.isMpls then
      { t with word := maskedWrite t.word ((value.setWidth 8).setWidth 32 <<< 8) mplsSMask }
    else t
  | _ => t

/-- A value is assigned to a field: in the match, and in the outermost tag if it has the
field. -/
def assignField (field : SetFieldType) (value : BitVec 128) (nf : Netflow) : Netflow :=
  { nf with
    key := nf.key.assign field.keyField (value.setWidth field.keyField.width)
    tags := nf.tags.setTop (field.assignTag value) }

/-- What a call is meant to make of a netflow. -/
def ActionCall.meaning (call : ActionCall) (nf : Netflow) : Netflow :=
  match call with
  | .pushVlan ethType => netflowPushVlan nf ethType
  | .pushMpls ethType => netflowPushMpls nf ethType
  | .popVlan => netflowPopVlan nf
  | .popMpls ethType => netflowPopMpls nf ethType
  | .setField _ field value _ => assignField field (value.setWidth 128) nf
  | .output port => netflowAddOutPort nf port
  | .group _ | .meter _ | .copyTtlIn | .copyTtlOut | .decTtl | .decMplsTtl | .mplsTtl _ => nf

end Horse.Lib

namespace Horse.Net

open Horse.Codec Horse.Lib Horse.Transition

/-! ## When the handlers do what is meant -/

/-- The union holds the value as far as the handler of the field reads it. -/
def Held (set : SetField) (value : BitVec 128) : Prop :=
  set.value.setWidth set.field.keyField.width = value.setWidth set.field.keyField.width

/-- The field has the value already. -/
def AlreadyThere (nf : Netflow) (set : SetField) (value : BitVec 128) : Prop :=
  nf.key.get set.field.keyField = value.setWidth set.field.keyField.width

/-- The outermost tag has no bits but those that are written. -/
def OnlyWritten (nf : Netflow) (written : BitVec 32) : Prop :=
  ∀ t ∈ nf.tags.levels.head?, t.word &&& ~~~written = 0

/-- When the handler of a field of a tag assigns a value: without the tag it does
nothing, and with it something else may be asked for. -/
def TagFieldAgrees (nf : Netflow) (set : SetField) (value : BitVec 128) (tagged : Bool)
    (asked : Prop) : Prop :=
  if tagged then Held set value ∧ asked else AlreadyThere nf set value

/-- When `set_field` assigns a value.  Seven fields are ignored, of the neighbour
discovery target the first six bytes are copied, and the fields of a tag need the tag.
The traffic class and the bottom-of-stack bit of an MPLS tag are written with the mask
the wrong way round. -/
def FieldAgrees (nf : Netflow) (set : SetField) (value : BitVec 128) : Prop :=
  match set.field with
  | .icmpv4Type | .icmpv4Code | .sctpDst | .sctpSrc | .ipv6Flabel | .icmpv6Type
  | .icmpv6Code => AlreadyThere nf set value
  | .ipv6NdTarget =>
    nf.key.ipv6NdTarget.extractLsb' 48 80 = value.extractLsb' 48 80 ∧
      set.ethAddr = value.extractLsb' 0 48
  | .vlanId | .vlanPcp => TagFieldAgrees nf set value (netflowIsVlanTagged nf) True
  | .mplsLabel => TagFieldAgrees nf set value (netflowIsOuterMpls nf) True
  | .mplsTc =>
    TagFieldAgrees nf set value (netflowIsOuterMpls nf)
      (OnlyWritten nf (((value.setWidth 8).setWidth 32 <<< 9) &&& mplsTcMask))
  | .mplsBos =>
    TagFieldAgrees nf set value (netflowIsOuterMpls nf)
      (OnlyWritten nf (((value.setWidth 8).setWidth 32 <<< 8) &&& mplsSMask))
  | _ => Held set value

/-- When the handler of an action does what the call that built the action means. -/
def Agrees (nf : Netflow) : ActionCall → Prop
  | .popVlan | .popMpls _ | .group _ | .output _ => True
  -- The handlers of the two pushes are exchanged.
  | .pushVlan ethType =>
    nf.tags.levels.length = maxStackSize ∨
      vlanType ethType = false ∧ mplsType ethType = false
  -- The constructor stores the tag of a pop.
  | .pushMpls ethType => nf.tags.levels = [] ∧ mplsType ethType = false
  | .setField _ field value stale =>
    FieldAgrees nf ⟨field, overwriteLow stale value⟩ (value.setWidth 128)
  -- There is no handler.
  | .meter _ | .copyTtlIn | .copyTtlOut | .decTtl | .decMplsTtl | .mplsTtl _ => False

/-! ## Headers -/

variable {nf : Netflow} {ethType : BitVec 16} {tags : TagStack} {set : SetField}
  {value : BitVec 128}

theorem header_eq_iff {key key' : OflFlowKey} {tags' : TagStack} :
    ({ nf with key := key, tags := tags } : Netflow) = { nf with key := key', tags := tags' } ↔
      key = key' ∧ tags = tags' := by
  simp

theorem setTop_eq_self {change : Tag → Tag} (same : ∀ t ∈ tags.levels.head?, change t = t) :
    tags.setTop change = tags := by
  obtain ⟨levels, bounded⟩ := tags
  cases levels with
  | nil => rfl
  | cons t rest => simp [TagStack.setTop, same t rfl]

/-- Two changes of the outermost tag come to the same just if they change the tag alike. -/
theorem setTop_eq_iff {change change' : Tag → Tag} :
    tags.setTop change = tags.setTop change' ↔
      ∀ t ∈ tags.levels.head?, change t = change' t := by
  obtain ⟨levels, bounded⟩ := tags
  cases levels with
  | nil => simp [TagStack.setTop]
  | cons t rest => simp [TagStack.setTop]

/-- A handler that assigns the union to the field in the match, and changes the outermost
tag in some way. -/
theorem assigned_eq_iff :
    ({ nf with
        key := nf.key.assign set.field.keyField (set.value.setWidth set.field.keyField.width)
        tags := tags } : Netflow) = assignField set.field value nf ↔
      Held set value ∧ tags = nf.tags.setTop (set.field.assignTag value) := by
  rw [assignField, header_eq_iff, OflFlowKey.eq_assign_iff, OflFlowKey.get_assign]
  · rfl
  · intro other apart
    exact OflFlowKey.get_assign_ne _ _ apart

/-- A handler that assigns the union to the field in the match only. -/
theorem copied_eq_iff
    (handler : setField set nf =
      { nf with
        key := nf.key.assign set.field.keyField
          (set.value.setWidth set.field.keyField.width) })
    (noTag : ∀ t ∈ nf.tags.levels.head?, set.field.assignTag value t = t) :
    setField set nf = assignField set.field value nf ↔ Held set value := by
  rw [handler]
  exact assigned_eq_iff.trans (and_iff_left (setTop_eq_self noTag).symm)

/-- A handler that does nothing. -/
theorem unchanged_eq_iff (noTag : ∀ t ∈ nf.tags.levels.head?, set.field.assignTag value t = t) :
    nf = assignField set.field value nf ↔ AlreadyThere nf set value := by
  have kept := setTop_eq_self noTag
  rw [assignField, kept]
  refine header_eq_iff.trans ?_
  rw [OflFlowKey.eq_assign_iff fun _ _ => rfl]
  exact and_iff_left rfl

/-! ## One action -/

theorem any_head_of_top {t : Tag} (kind : Tag → Bool) (top : t ∈ nf.tags.levels.head?) :
    kind t = nf.tags.levels.head?.any kind := by
  rw [Option.mem_def.mp top, Option.any_some]

theorem pcp_within_mask (pcp : BitVec 8) :
    (pcp.setWidth 16 <<< 13) &&& vlanPcpMask = pcp.setWidth 16 <<< 13 := by
  revert pcp
  decide

/-- A handler that assigns the union to the field and changes the outermost tag, if the
tag is of the kind that has the field. -/
theorem tagField_eq_iff {kind : Tag → Bool} {change written : Tag → Tag} {asked : Prop}
    (handler : setField set nf =
      if nf.tags.levels.head?.any kind then
        { nf with
          key := nf.key.assign set.field.keyField
            (set.value.setWidth set.field.keyField.width)
          tags := nf.tags.setTop change }
      else nf)
    (assigns : ∀ t, set.field.assignTag value t = if kind t then written t else t)
    (withTag : Held set value → ((∀ t ∈ nf.tags.levels.head?, change t = written t) ↔ asked)) :
    setField set nf = assignField set.field value nf ↔
      TagFieldAgrees nf set value (nf.tags.levels.head?.any kind) asked := by
  rw [handler, TagFieldAgrees]
  by_cases tagged : nf.tags.levels.head?.any kind = true
  · rw [if_pos tagged, if_pos tagged, assigned_eq_iff, setTop_eq_iff]
    refine and_congr_right fun held => Iff.trans (forall₂_congr fun t top => ?_) (withTag held)
    rw [assigns, if_pos ((any_head_of_top kind top).trans tagged)]
  · rw [if_neg tagged, if_neg tagged]
    refine unchanged_eq_iff fun t top => ?_
    rw [assigns, if_neg (any_head_of_top kind top ▸ tagged)]

/-- Writing a field of an MPLS tag with the mask the wrong way round. -/
theorem keptInside_word_iff (t : Tag) (value mask : BitVec 32) :
    ({ t with word := (t.word &&& mask) ||| (value &&& mask) } : Tag) =
        { t with word := maskedWrite t.word value mask } ↔
      t.word &&& ~~~(value &&& mask) = 0 := by
  rw [← keptInside_eq_maskedWrite_iff, Tag.mk.injEq]
  exact and_iff_right rfl

/-- A handler that does so with the low byte of the union, put in the place `bits`. -/
theorem flippedMask_eq_iff {bits : BitVec 8 → BitVec 32} {mask : BitVec 32}
    (handler : setField set nf =
      if netflowIsOuterMpls nf then
        { nf with
          key := nf.key.assign set.field.keyField
            (set.value.setWidth set.field.keyField.width)
          tags := nf.tags.setTop fun t =>
            { t with word := (t.word &&& mask) ||| (bits (set.value.setWidth 8) &&& mask) } }
      else nf)
    (held : Held set value → set.value.setWidth 8 = value.setWidth 8)
    (assigns : ∀ t, set.field.assignTag value t =
      if t.isMpls then { t with word := maskedWrite t.word (bits (value.setWidth 8)) mask }
      else t) :
    setField set nf = assignField set.field value nf ↔
      TagFieldAgrees nf set value (netflowIsOuterMpls nf)
        (OnlyWritten nf (bits (value.setWidth 8) &&& mask)) := by
  refine tagField_eq_iff handler assigns fun isHeld => forall₂_congr fun t _ => ?_
  rw [held isHeld]
  exact keptInside_word_iff t _ mask

section Handlers

variable (union value : BitVec 128) (nf : Netflow)

/-- The neighbour discovery target: six bytes are copied and ten kept. -/
theorem setNdTarget_eq_iff :
    setField ⟨.ipv6NdTarget, union⟩ nf = assignField .ipv6NdTarget value nf ↔
      FieldAgrees nf ⟨.ipv6NdTarget, union⟩ value := by
  have keepsTags : nf.tags.setTop (SetFieldType.ipv6NdTarget.assignTag value) = nf.tags :=
    setTop_eq_self fun _ _ => rfl
  rw [assignField, keepsTags]
  refine header_eq_iff.trans ?_
  rw [and_iff_left rfl, OflFlowKey.eq_assign_iff]
  · exact append_eq_iff _ _ _
  · intro other apart
    cases other <;> first | rfl | exact absurd rfl apart

theorem setVlanId_eq_iff :
    setField ⟨.vlanId, union⟩ nf = assignField .vlanId value nf ↔
      FieldAgrees nf ⟨.vlanId, union⟩ value := by
  refine @tagField_eq_iff nf ⟨.vlanId, union⟩ value Tag.isVlan _ _ _ rfl (fun _ => rfl) ?_
  intro held
  refine iff_true_intro fun t _ => ?_
  have sameValue : union.setWidth 16 = value.setWidth 16 := held
  rw [← sameValue]
  rfl

theorem setVlanPcp_eq_iff :
    setField ⟨.vlanPcp, union⟩ nf = assignField .vlanPcp value nf ↔
      FieldAgrees nf ⟨.vlanPcp, union⟩ value := by
  refine @tagField_eq_iff nf ⟨.vlanPcp, union⟩ value Tag.isVlan _ _ _ rfl (fun _ => rfl) ?_
  intro held
  refine iff_true_intro fun t _ => ?_
  have sameValue : union.setWidth 8 = value.setWidth 8 := held
  rw [← sameValue, maskedWrite, pcp_within_mask]
  rfl

theorem setMplsLabel_eq_iff :
    setField ⟨.mplsLabel, union⟩ nf = assignField .mplsLabel value nf ↔
      FieldAgrees nf ⟨.mplsLabel, union⟩ value := by
  refine @tagField_eq_iff nf ⟨.mplsLabel, union⟩ value Tag.isMpls _ _ _ rfl (fun _ => rfl) ?_
  intro held
  refine iff_true_intro fun t _ => ?_
  have sameValue : union.setWidth 32 = value.setWidth 32 := held
  rw [← sameValue]
  rfl

theorem setMplsTc_eq_iff :
    setField ⟨.mplsTc, union⟩ nf = assignField .mplsTc value nf ↔
      FieldAgrees nf ⟨.mplsTc, union⟩ value :=
  @flippedMask_eq_iff nf ⟨.mplsTc, union⟩ value (fun tc => tc.setWidth 32 <<< 9) mplsTcMask rfl id
    fun _ => rfl

theorem setMplsBos_eq_iff :
    setField ⟨.mplsBos, union⟩ nf = assignField .mplsBos value nf ↔
      FieldAgrees nf ⟨.mplsBos, union⟩ value :=
  @flippedMask_eq_iff nf ⟨.mplsBos, union⟩ value (fun bos => bos.setWidth 32 <<< 8) mplsSMask rfl
    id fun _ => rfl

end Handlers

/-- `set_field` assigns a value just if `FieldAgrees` says so. -/
theorem setField_eq_iff (set : SetField) (value : BitVec 128) (nf : Netflow) :
    setField set nf = assignField set.field value nf ↔ FieldAgrees nf set value := by
  obtain ⟨field, union⟩ := set
  cases field with
  | icmpv4Type => exact unchanged_eq_iff fun _ _ => rfl
  | icmpv4Code => exact unchanged_eq_iff fun _ _ => rfl
  | sctpDst => exact unchanged_eq_iff fun _ _ => rfl
  | sctpSrc => exact unchanged_eq_iff fun _ _ => rfl
  | ipv6Flabel => exact unchanged_eq_iff fun _ _ => rfl
  | icmpv6Type => exact unchanged_eq_iff fun _ _ => rfl
  | icmpv6Code => exact unchanged_eq_iff fun _ _ => rfl
  | ipv6NdTarget => exact setNdTarget_eq_iff union value nf
  | vlanId => exact setVlanId_eq_iff union value nf
  | vlanPcp => exact setVlanPcp_eq_iff union value nf
  | mplsLabel => exact setMplsLabel_eq_iff union value nf
  | mplsTc => exact setMplsTc_eq_iff union value nf
  | mplsBos => exact setMplsBos_eq_iff union value nf
  | _ => exact copied_eq_iff rfl fun _ _ => rfl

theorem netflowPushVlan_of_full (full : ¬nf.tags.levels.length < maxStackSize) :
    netflowPushVlan nf ethType = nf := by
  rw [netflowPushVlan, dif_neg full]

theorem netflowPushMpls_of_full (full : ¬nf.tags.levels.length < maxStackSize) :
    netflowPushMpls nf ethType = nf := by
  rw [netflowPushMpls, dif_neg full]

/-- How many tags `netflow_push_vlan` leaves. -/
theorem length_netflowPushVlan (room : nf.tags.levels.length < maxStackSize) :
    (netflowPushVlan nf ethType).tags.levels.length =
      nf.tags.levels.length + if vlanType ethType then 1 else 0 := by
  rw [netflowPushVlan, dif_pos room, vlanType]
  split <;> rfl

/-- How many tags `netflow_push_mpls` leaves. -/
theorem length_netflowPushMpls (room : nf.tags.levels.length < maxStackSize) :
    (netflowPushMpls nf ethType).tags.levels.length =
      nf.tags.levels.length + if mplsType ethType then 1 else 0 := by
  rw [netflowPushMpls, dif_pos room, mplsType]
  split <;> rfl

theorem netflowPushVlan_of_other (other : vlanType ethType = false) :
    netflowPushVlan nf ethType = nf := by
  rw [vlanType] at other
  simp [netflowPushVlan, other]

theorem netflowPushMpls_of_other (other : mplsType ethType = false) :
    netflowPushMpls nf ethType = nf := by
  rw [mplsType] at other
  simp [netflowPushMpls, other]

theorem mplsType_of_vlan (isVlan : vlanType ethType = true) :
    mplsType ethType = false := by
  rw [vlanType, Bool.or_eq_true, beq_iff_eq, beq_iff_eq] at isVlan
  rcases isVlan with rfl | rfl
  · decide
  · decide

/-- The two pushes come to the same just if both do nothing. -/
theorem pushMpls_eq_pushVlan_iff :
    netflowPushMpls nf ethType = netflowPushVlan nf ethType ↔
      nf.tags.levels.length = maxStackSize ∨
        vlanType ethType = false ∧ mplsType ethType = false := by
  constructor
  · intro same
    by_cases room : nf.tags.levels.length < maxStackSize
    · right
      have sameLength := congrArg (fun nf => nf.tags.levels.length) same
      rw [length_netflowPushMpls room, length_netflowPushVlan room] at sameLength
      cases isVlan : vlanType ethType with
      | true => simp [isVlan, mplsType_of_vlan isVlan] at sameLength
      | false => simpa [isVlan] using sameLength
    · exact .inl (Nat.le_antisymm nf.tags.bounded (Nat.le_of_not_lt room))
  · rintro (full | ⟨notVlan, notMpls⟩)
    · have noRoom : ¬nf.tags.levels.length < maxStackSize := by omega
      rw [netflowPushMpls_of_full noRoom, netflowPushVlan_of_full noRoom]
    · rw [netflowPushMpls_of_other notMpls, netflowPushVlan_of_other notVlan]

/-- A pop takes one tag off. -/
theorem length_netflowPopMpls :
    (netflowPopMpls nf ethType).tags.levels.length = nf.tags.levels.length - 1 := by
  unfold netflowPopMpls
  split
  · rename_i noTags
    rw [noTags]
    rfl
  · dsimp only
    split <;> exact List.length_tail

/-- A push takes no tag off. -/
theorem le_length_netflowPushMpls :
    nf.tags.levels.length ≤ (netflowPushMpls nf ethType).tags.levels.length := by
  by_cases room : nf.tags.levels.length < maxStackSize
  · rw [length_netflowPushMpls room]
    exact Nat.le_add_right _ _
  · rw [netflowPushMpls_of_full room]

/-- A pop in place of a push comes to the same just if both do nothing. -/
theorem popMpls_eq_pushMpls_iff :
    netflowPopMpls nf ethType = netflowPushMpls nf ethType ↔
      nf.tags.levels = [] ∧ mplsType ethType = false := by
  constructor
  · intro same
    have sameLength := congrArg (fun nf => nf.tags.levels.length) same
    have noTags : nf.tags.levels.length = 0 := by
      have notFewer := @le_length_netflowPushMpls nf ethType
      rw [length_netflowPopMpls] at sameLength
      omega
    refine ⟨List.eq_nil_of_length_eq_zero noTags, ?_⟩
    rw [length_netflowPopMpls, length_netflowPushMpls (by rw [noTags]; decide), noTags]
      at sameLength
    simpa using sameLength
  · rintro ⟨noTags, notMpls⟩
    rw [netflowPushMpls_of_other notMpls, netflowPopMpls, noTags]

/-- A single action does what the call that built it means just if `Agrees` says so. -/
theorem executeAction_build_iff (call : ActionCall) (nf : Netflow) :
    executeAction nf call.build = some (call.meaning nf) ↔ Agrees nf call := by
  cases call with
  | setField member field value stale =>
    exact Option.some_inj.trans
      (setField_eq_iff ⟨field, overwriteLow stale value⟩ (value.setWidth 128) nf)
  | pushVlan ethType => exact Option.some_inj.trans pushMpls_eq_pushVlan_iff
  | pushMpls ethType => exact Option.some_inj.trans popMpls_eq_pushMpls_iff
  | popVlan => exact iff_of_true rfl trivial
  | popMpls ethType => exact iff_of_true rfl trivial
  | group groupId => exact iff_of_true rfl trivial
  | output port => exact iff_of_true rfl trivial
  | _ => exact iff_of_false nofun not_false

/-! ## Lists of actions -/

/-- What a call means, as a step. -/
def meaningStep : Step Netflow ActionCall :=
  fun nf call => some (call.meaning nf)

/-- Executing a list of actions comes, after each of them, to the composition of what
their calls mean just if every handler does what is meant at the netflow it is given. -/
theorem action_lists_mean_iff (calls : List ActionCall) (nf : Netflow) :
    (∀ done, done <+: calls →
      executeActionList (done.map ActionCall.build) nf =
        some (done.foldl (fun nf call => call.meaning nf) nf)) ↔
      Along meaningStep Agrees nf calls := by
  induction calls generalizing nf with
  | nil =>
    refine iff_of_true (fun done isPrefix => ?_) trivial
    rw [List.prefix_nil.mp isPrefix]
    rfl
  | cons call rest ih =>
    have cons : ∀ done, executeActionList ((call :: done).map ActionCall.build) nf =
        (executeAction nf call.build).bind (executeActionList (done.map ActionCall.build)) :=
      fun done => List.foldlM_cons
    constructor
    · intro means
      have single : executeActionList [call.build] nf = executeAction nf call.build := by
        simp [executeActionList]
      have agrees := (executeAction_build_iff call nf).mp
        (single.symm.trans (means [call] (List.prefix_append [call] rest)))
      refine ⟨agrees, ?_⟩
      rintro _ ⟨rfl⟩
      refine (ih (call.meaning nf)).mp fun done isPrefix => ?_
      have next := means (call :: done) (List.cons_prefix_cons.mpr ⟨rfl, isPrefix⟩)
      rw [cons, (executeAction_build_iff call nf).mpr agrees] at next
      exact next
    · rintro ⟨agrees, others⟩ done isPrefix
      cases done with
      | nil => rfl
      | cons first done =>
        obtain ⟨rfl, restPrefix⟩ := List.cons_prefix_cons.mp isPrefix
        rw [cons, (executeAction_build_iff first nf).mpr agrees]
        exact (ih (first.meaning nf)).mpr (others _ rfl) done restPrefix

/-- A push of an MPLS tag takes the tag of a new netflow off, and an action on the TTL has
no handler. -/
theorem actions_mean_something_else :
    executeActionList [ActionCall.build (.pushMpls ethTypeMpls)] netflowNew ≠
        some (ActionCall.meaning (.pushMpls ethTypeMpls) netflowNew) ∧
      executeActionList [ActionCall.build .decMplsTtl] netflowNew = none := by
  decide +kernel

end Horse.Net
