import Horse.Lib.OfAction

/-!
# Packing and unpacking actions

`pack_action_list` and `unpack_actions` with the constructors of `action.c` they go
through.  The value of a set-field action is a union of sixteen bytes: numbers stand in
it least significant byte first, addresses byte by byte.

A LOCI getter reads at a fixed offset from the start of its object.  The assertions that
LOCI makes on the kind of an object are compiled out in a release build and are not part
of the model.
-/

namespace Horse.Lib

open Horse.Codec

/-! ## Memory -/

/-- The first bytes of an object in memory, least significant first. -/
def memBytes {width : Nat} (value : BitVec width) (count : Nat) : List (BitVec 8) :=
  (List.range count).map fun i => value.extractLsb' (8 * i) 8

/-- The number whose bytes in memory these are. -/
def memValue : List (BitVec 8) → Nat
  | [] => 0
  | byte :: rest => byte.toNat + 256 * memValue rest

@[simp]
theorem length_memBytes {width : Nat} (value : BitVec width) (count : Nat) :
    (memBytes value count).length = count := by
  simp [memBytes]

/-! ## The constructors of `action.c` -/

/-- `action_output`. -/
def actionOutput (port : BitVec 32) : Action :=
  .output port

/-- `action_group`. -/
def actionGroup (groupId : BitVec 32) : Action :=
  .group groupId

/-- `action_push_vlan`. -/
def actionPushVlan (ethType : BitVec 16) : Action :=
  .pushVlan ethType

/-- `action_push_mpls`, which stores the type of a pop.  The payloads of the two kinds
lie at one place in the union. -/
def actionPushMpls (ethType : BitVec 16) : Action :=
  .popMpls ethType

/-- `action_pop_vlan`. -/
def actionPopVlan : Action :=
  .popVlan

/-- `action_pop_mpls`. -/
def actionPopMpls (ethType : BitVec 16) : Action :=
  .popMpls ethType

/-- `action_copy_ttl_out`. -/
def actionCopyTtlOut : Action :=
  .copyTtlOutwards

/-- `action_copy_ttl_in`. -/
def actionCopyTtlIn : Action :=
  .copyTtlInwards

/-- `action_dec_mpls_ttl`. -/
def actionDecMplsTtl : Action :=
  .decrementMplsTtl

/-- `action_mpls_ttl`. -/
def actionMplsTtl (newTtl : BitVec 8) : Action :=
  .setMplsTtl newTtl

/-- The functions `action_set_field_u8` to `action_set_field_u64`.  The bytes of the
union that they do not write are taken as zero. -/
def actionSetFieldNumber (width : Nat) (field : SetFieldType) (value : Nat) : Action :=
  .setField ⟨field, (BitVec.ofNat width value).setWidth 128⟩

/-- `action_set_field_u8`. -/
def actionSetFieldU8 : SetFieldType → Nat → Action :=
  actionSetFieldNumber 8

/-- `action_set_field_u16`. -/
def actionSetFieldU16 : SetFieldType → Nat → Action :=
  actionSetFieldNumber 16

/-- `action_set_field_u32`. -/
def actionSetFieldU32 : SetFieldType → Nat → Action :=
  actionSetFieldNumber 32

/-- `action_set_field_eth_addr`. -/
def actionSetFieldEthAddr (field : SetFieldType) (ethAddr : List (BitVec 8)) : Action :=
  .setField ⟨field, BitVec.ofNat 128 (memValue ethAddr)⟩

/-- `action_set_field_ipv6_addr`. -/
def actionSetFieldIpv6Addr (field : SetFieldType) (ipv6Addr : List (BitVec 8)) : Action :=
  .setField ⟨field, BitVec.ofNat 128 (memValue ipv6Addr)⟩

/-! ## Packing -/

/-- A new OXM object with a number as its value. -/
def oxmNumber (field : OxmField) (count : Fin 256) (value : Nat) : Oxm where
  oxmClass := 0x8000
  field := BitVec.ofNat 7 field.code
  hasMask := false
  value := packBe count value
  fits := by simp

/-- A new OXM object with an address as its value. -/
def oxmAddress {width : Nat} (field : OxmField) (count : Fin 256) (value : BitVec width) : Oxm where
  oxmClass := 0x8000
  field := BitVec.ofNat 7 field.code
  hasMask := false
  value := memBytes value count
  fits := by simp

/-- The OXM object of a set-field action that was given none. -/
def oxmNone : Oxm :=
  ⟨0, 0, false, [], by decide⟩

/-- `pack_set_field`.  The IPv6 addresses are copied to a local variable, but only their
first six bytes; `stale` is what else is in it. -/
def packSetField (stale : BitVec 80) (set : SetField) : OfAction :=
  let ipv6Value : BitVec 128 := stale ++ set.ipv6Addr.setWidth 48
  let oxm :=
    match set.field with
    | .metadata => oxmNumber .metadata 8 set.u64Field.toNat
    | .tunnelId => oxmNumber .tunnelId 8 set.u64Field.toNat
    | .ethType => oxmNumber .ethType 2 set.u16Field.toNat
    | .ethDst => oxmAddress .ethDst 6 set.ethAddr
    | .ethSrc => oxmAddress .ethSrc 6 set.ethAddr
    | .vlanId => oxmNumber .vlanVid 2 set.u16Field.toNat
    | .vlanPcp => oxmNumber .vlanPcp 1 set.u8Field.toNat
    | .mplsLabel => oxmNumber .mplsLabel 4 set.u32Field.toNat
    | .mplsTc => oxmNumber .mplsTc 1 set.u8Field.toNat
    | .mplsBos => oxmNumber .mplsBos 1 set.u8Field.toNat
    | .ipDscp => oxmNumber .ipDscp 1 set.u8Field.toNat
    | .ipEcn => oxmNumber .ipEcn 1 set.u8Field.toNat
    | .ipProto => oxmNumber .ipProto 1 set.u8Field.toNat
    | .ipv4Dst => oxmNumber .ipv4Dst 4 set.u32Field.toNat
    | .ipv4Src => oxmNumber .ipv4Src 4 set.u32Field.toNat
    | .icmpv4Type => oxmNumber .icmpv4Type 1 set.u8Field.toNat
    | .icmpv4Code => oxmNumber .icmpv4Code 1 set.u8Field.toNat
    | .tcpDst => oxmNumber .tcpDst 2 set.u16Field.toNat
    | .tcpSrc => oxmNumber .tcpSrc 2 set.u16Field.toNat
    | .udpDst => oxmNumber .udpDst 2 set.u16Field.toNat
    | .udpSrc => oxmNumber .udpSrc 2 set.u16Field.toNat
    | .sctpDst => oxmNumber .sctpDst 2 set.u16Field.toNat
    | .sctpSrc => oxmNumber .sctpSrc 2 set.u16Field.toNat
    | .arpOp => oxmNumber .arpOp 2 set.u16Field.toNat
    | .arpSpa => oxmNumber .arpSpa 4 set.u32Field.toNat
    | .arpTpa => oxmNumber .arpTpa 4 set.u32Field.toNat
    | .arpSha => oxmAddress .arpSha 6 set.ethAddr
    | .arpTha => oxmAddress .arpTha 6 set.ethAddr
    | .ipv6Dst => oxmAddress .ipv6Dst 16 ipv6Value
    | .ipv6Src => oxmAddress .ipv6Src 16 ipv6Value
    | .ipv6Flabel => oxmNumber .ipv6Flabel 4 set.u32Field.toNat
    | .icmpv6Type => oxmNumber .icmpv6Type 1 set.u8Field.toNat
    | .icmpv6Code => oxmNumber .icmpv6Code 1 set.u8Field.toNat
    | .ipv6NdTarget => oxmAddress .ipv6NdTarget 16 ipv6Value
    | .ipv6NdSll => oxmAddress .ipv6NdSll 6 set.ethAddr
    | .ipv6NdTll => oxmAddress .ipv6NdTll 6 set.ethAddr
    | .inPort => oxmNone
  .setField oxm 0

/-- `pack_action`; `none` is a null pointer. -/
def packAction (stale : BitVec 80) : Action → Option OfAction
  | .output port => some (.output port 0)
  | .setField set => some (packSetField stale set)
  | .popVlan => some .popVlan
  | .popMpls ethType => some (.popMpls ethType)
  | .pushMpls ethType => some (.pushMpls ethType)
  | .pushVlan ethType => some (.pushVlan ethType)
  | .group groupId => some (.group groupId)
  | .meter _ => none
  | .copyTtlInwards => none
  | .copyTtlOutwards => none
  | .decrementTtl => none
  | .setMplsTtl _ => none
  | .decrementMplsTtl => none
  | .qos => none

/-- `OF_WIRE_BUFFER_MAX_LENGTH`. -/
def ofWireBufferMaxLength : Nat := 65535

/-- `of_list_action_append`, which fails on a list that would outgrow its buffer.  The
callers do not look at the result. -/
def ofListActionAppend (acts : List OfAction) (act : OfAction) : List OfAction :=
  if (wire OfAction.toTlv acts).length + act.toTlv.bytes.length ≤ ofWireBufferMaxLength then
    acts ++ [act]
  else acts

/-- `pack_action_list`, with the contents of the stack in each turn. -/
def packActionList (stale : Nat → BitVec 80) : List Action → List OfAction → List OfAction
  | [], acts => acts
  | act :: rest, acts =>
    packActionList stale rest <|
      match packAction (stale rest.length) act with
      | some packed => ofListActionAppend acts packed
      | none => acts

/-! ## Unpacking -/

/-- A LOCI getter of a number in an OXM object.  What a getter finds behind the end of
the object is not specified; here it is zero. -/
def oxmValueGet (oxm : List (BitVec 8)) (count : Nat) : Nat :=
  (readBe oxm 4 count).getD 0

/-- A LOCI getter of an address in an OXM object. -/
def oxmAddressGet (oxm : List (BitVec 8)) (count : Nat) : List (BitVec 8) :=
  (oxm.drop 4).take count

/-- `parse_set_field`: the action as it is left behind. -/
def parseSetField (oxmField : List (BitVec 8)) (type : Nat) (act : Action) : Action :=
  match OxmField.ofCode type with
  | some .vlanVid => actionSetFieldU16 .vlanId (oxmValueGet oxmField 2)
  | some .vlanPcp => actionSetFieldU8 .vlanPcp (oxmValueGet oxmField 1)
  | some .ethDst => actionSetFieldEthAddr .ethDst (oxmAddressGet oxmField 6)
  | some .ethSrc => actionSetFieldEthAddr .ethSrc (oxmAddressGet oxmField 6)
  | some .ethType => actionSetFieldU16 .vlanId (oxmValueGet oxmField 2)
  | some .ipDscp => actionSetFieldU8 .ipDscp (oxmValueGet oxmField 1)
  | some .ipEcn => actionSetFieldU8 .ipEcn (oxmValueGet oxmField 1)
  | some .ipProto => actionSetFieldU8 .ipProto (oxmValueGet oxmField 1)
  | some .ipv4Src => actionSetFieldU32 .ipv4Src (oxmValueGet oxmField 4)
  | some .ipv4Dst => actionSetFieldU32 .ipv4Dst (oxmValueGet oxmField 4)
  | some .tcpSrc => actionSetFieldU16 .tcpSrc (oxmValueGet oxmField 2)
  | some .tcpDst => actionSetFieldU16 .tcpDst (oxmValueGet oxmField 2)
  | some .udpSrc => actionSetFieldU16 .udpSrc (oxmValueGet oxmField 2)
  | some .udpDst => actionSetFieldU16 .udpDst (oxmValueGet oxmField 2)
  | some .sctpSrc => actionSetFieldU16 .sctpDst (oxmValueGet oxmField 2)
  | some .sctpDst => actionSetFieldU16 .sctpDst (oxmValueGet oxmField 2)
  | some .icmpv4Type => actionSetFieldU8 .icmpv4Type (oxmValueGet oxmField 1)
  | some .icmpv4Code => actionSetFieldU8 .icmpv4Code (oxmValueGet oxmField 1)
  | some .arpOp => actionSetFieldU16 .arpOp (oxmValueGet oxmField 2)
  | some .arpSpa => actionSetFieldU32 .arpSpa (oxmValueGet oxmField 4)
  | some .arpTpa => actionSetFieldU32 .arpTpa (oxmValueGet oxmField 4)
  | some .arpSha => actionSetFieldEthAddr .arpSha (oxmAddressGet oxmField 6)
  | some .arpTha => actionSetFieldEthAddr .arpTha (oxmAddressGet oxmField 6)
  | some .ipv6Src => actionSetFieldIpv6Addr .ipv6Src (oxmAddressGet oxmField 16)
  | some .ipv6Dst => actionSetFieldIpv6Addr .ipv6Dst (oxmAddressGet oxmField 16)
  | some .ipv6Flabel => actionSetFieldU32 .ipv6Flabel (oxmValueGet oxmField 4)
  | some .icmpv6Type => actionSetFieldU8 .icmpv6Type (oxmValueGet oxmField 1)
  | some .icmpv6Code => actionSetFieldU8 .icmpv6Code (oxmValueGet oxmField 1)
  | some .ipv6NdTarget => actionSetFieldIpv6Addr .ipv6NdTarget (oxmAddressGet oxmField 16)
  | some .ipv6NdSll => actionSetFieldEthAddr .ipv6NdSll (oxmAddressGet oxmField 6)
  | some .ipv6NdTll => actionSetFieldEthAddr .ipv6NdTll (oxmAddressGet oxmField 6)
  | some .mplsLabel => actionSetFieldU32 .mplsLabel (oxmValueGet oxmField 4)
  | some .mplsTc => actionSetFieldU8 .mplsTc (oxmValueGet oxmField 1)
  | some .mplsBos => actionSetFieldU8 .mplsBos (oxmValueGet oxmField 1)
  -- The value of eight bytes is passed to the function for one byte.
  | some .tunnelId => actionSetFieldU8 .tunnelId (oxmValueGet oxmField 8)
  | _ => act

/-- `of_action_set_field_field_get`: a copy of the OXM object at an offset, as long as
its header says. -/
def ofActionSetFieldFieldGet (data : List (BitVec 8)) (offset : Nat) :
    Option (List (BitVec 8)) :=
  (readBe data (offset + 3) 1).bind fun length => copyBytes data offset (length + 4)

section Unpack

variable {σ : Type} (add : σ → Action → σ)

/-- The loop body of `unpack_actions`: what was unpacked so far, and the variable
`gen_act`.  A set-field action is parsed and not added. -/
def unpackAction (data : List (BitVec 8)) (state : σ × Action) (objOffset : Nat) :
    Option (σ × Action) :=
  let added := fun genAct : Action => (add state.1 genAct, genAct)
  (readBe data objOffset 2).bind fun actType =>
    match OfpActionType.ofCode actType with
    | some .output =>
      (readWord 32 data (objOffset + 4)).map fun port => added (actionOutput port)
    | some .setField =>
      (ofActionSetFieldFieldGet data (objOffset + 4)).bind fun oxmField =>
        (readWord 8 oxmField 2).map fun fieldType =>
          (state.1, parseSetField oxmField fieldType.toNat state.2)
    | some .group =>
      (readWord 32 data (objOffset + 4)).map fun groupId => added (actionGroup groupId)
    | some .pushVlan =>
      (readWord 16 data (objOffset + 4)).map fun ethType => added (actionPushVlan ethType)
    | some .pushMpls =>
      (readWord 16 data (objOffset + 4)).map fun ethType => added (actionPushMpls ethType)
    | some .popVlan => some (added actionPopVlan)
    | some .popMpls =>
      (readWord 16 data (objOffset + 4)).map fun ethType => added (actionPopMpls ethType)
    | some .copyTtlOut => some (added actionCopyTtlOut)
    | some .copyTtlIn => some (added actionCopyTtlIn)
    | some .decMplsTtl => some (added actionDecMplsTtl)
    | some .setMplsTtl =>
      (readWord 8 data (objOffset + 4)).map fun mplsTtl => added (actionMplsTtl mplsTtl)
    | _ => some state

/-- `unpack_actions`, for `action_list_add` or `action_set_add`.  The variable `gen_act`
is not initialised. -/
def unpackActions (init : σ) (genAct : Action) (data : List (BitVec 8)) : Option σ :=
  ((tlvOffsets data).bind fun offsets =>
    offsets.foldlM (unpackAction add data) (init, genAct)).map Prod.fst

end Unpack

/-- `action_list_add`. -/
def actionListAdd (al : List Action) (act : Action) : List Action :=
  al ++ [act]

/-! ## What is unpacked -/

/-- The action that `unpack_actions` adds for an object. -/
def OfAction.unpacked : OfAction → Option Action
  | .output port _ => some (actionOutput port)
  | .copyTtlOut => some actionCopyTtlOut
  | .copyTtlIn => some actionCopyTtlIn
  | .setMplsTtl mplsTtl => some (actionMplsTtl mplsTtl)
  | .decMplsTtl => some actionDecMplsTtl
  | .pushVlan ethType => some (actionPushVlan ethType)
  | .popVlan => some actionPopVlan
  | .pushMpls ethType => some (actionPushMpls ethType)
  | .popMpls ethType => some (actionPopMpls ethType)
  | .group groupId => some (actionGroup groupId)
  | .setField _ _ => none
  | .setQueue _ => none
  | .setNwTtl _ => none
  | .decNwTtl => none
  | .pushPbb _ => none
  | .popPbb => none
  | .experimenter _ => none

section Unpacked

variable {σ : Type} {add : σ → Action → σ}

/-- The state of the loop after an object. -/
def OfAction.leaves (add : σ → Action → σ) (state : σ × Action) (act : OfAction) : σ × Action :=
  match act.unpacked with
  | some genAct => (add state.1 genAct, genAct)
  | none =>
    match act with
    | .setField field _ => (state.1, parseSetField field.bytes field.fieldByte.toNat state.2)
    | _ => state

theorem ofActionSetFieldFieldGet_wire {elems before after : List OfAction} {field : Oxm}
    {pad : Fin 8} (split : elems = before ++ .setField field pad :: after) :
    ofActionSetFieldFieldGet (wire OfAction.toTlv elems)
      ((wire OfAction.toTlv before).length + 4) = some field.bytes := by
  have body : (OfAction.toTlv (.setField field pad)).body = field.bytes ++ packBe pad 0 := rfl
  have length : (OfAction.toTlv (.setField field pad)).body.length =
      field.value.length + 4 + pad := by
    rw [body, List.length_append, Oxm.length_bytes, length_packBe]
  have header := @readBe_wire_body _ OfAction.toTlv _ _ _ _ split 3 1 (by omega)
  have copied := @copyBytes_wire_body _ OfAction.toTlv _ _ _ _ split 0 (field.value.length + 4)
    (by omega)
  have whole := copyBytes_left field.bytes (packBe pad 0)
  rw [Oxm.length_bytes] at whole
  rw [ofActionSetFieldFieldGet, Nat.add_assoc, header, body, Oxm.readBe_length,
    Option.bind_some]
  exact copied.trans whole

theorem unpackAction_wire {elems before after : List OfAction} {act : OfAction}
    (split : elems = before ++ act :: after) (state : σ × Action) :
    unpackAction add (wire OfAction.toTlv elems) state (wire OfAction.toTlv before).length =
      some (act.leaves add state) := by
  have type : readBe (wire OfAction.toTlv elems) (wire OfAction.toTlv before).length 2 =
      some act.type.code.toNat :=
    readBe_wire_type split
  rw [unpackAction, type, Option.bind_some, OfpActionType.ofCode_code]
  -- Each kind of action is read at the place its layout gives it.
  cases act
  case setField field pad =>
      dsimp only [OfAction.type]
      rw [ofActionSetFieldFieldGet_wire split, Option.bind_some, Oxm.readBe_fieldByte]
      rfl
  case output port maxLen =>
      dsimp only [OfAction.type]
      rw [readWord_wire_body split (by decide) rfl]
      rfl
  case group groupId =>
      dsimp only [OfAction.type]
      rw [readWord_wire_body split (by decide) (List.append_nil _).symm]
      rfl
  case pushVlan ethType =>
      dsimp only [OfAction.type]
      rw [readWord_wire_body split (by decide) rfl]
      rfl
  case pushMpls ethType =>
      dsimp only [OfAction.type]
      rw [readWord_wire_body split (by decide) rfl]
      rfl
  case popMpls ethType =>
      dsimp only [OfAction.type]
      rw [readWord_wire_body split (by decide) rfl]
      rfl
  case setMplsTtl ttl =>
      dsimp only [OfAction.type]
      rw [readWord_wire_body split (by decide) rfl]
      rfl
  all_goals rfl

theorem OfAction.fst_leaves (act : OfAction) (state : σ × Action) :
    (act.leaves add state).1 = act.unpacked.elim state.1 (add state.1) := by
  cases act <;> rfl

theorem fst_foldl_leaves (acts : List OfAction) (state : σ × Action) :
    (acts.foldl (OfAction.leaves add) state).1 =
      (acts.filterMap OfAction.unpacked).foldl add state.1 := by
  induction acts generalizing state with
  | nil => rfl
  | cons act rest ih =>
    rw [List.foldl_cons, ih, OfAction.fst_leaves]
    cases unpacked : act.unpacked with
    | some genAct =>
      rw [List.filterMap_cons_some unpacked, List.foldl_cons]
      rfl
    | none =>
      rw [List.filterMap_cons_none unpacked]
      rfl

/-- Unpacking a list adds the actions of its objects in their order. -/
theorem unpackActions_wire (add : σ → Action → σ) (init : σ) (genAct : Action)
    (acts : List OfAction) :
    unpackActions add init genAct (wire OfAction.toTlv acts) =
      some ((acts.filterMap OfAction.unpacked).foldl add init) := by
  have walked := @foldlM_tlvOffsets _ OfAction.toTlv _ acts
    (unpackAction add (wire OfAction.toTlv acts)) (fun state act => some (act.leaves add state))
    (fun before act after split state => unpackAction_wire split state) (init, genAct)
  have total : acts.foldlM (fun state act => some (OfAction.leaves add state act)) (init, genAct) =
      some (acts.foldl (OfAction.leaves add) (init, genAct)) := List.foldlM_pure
  rw [unpackActions, walked, total, Option.map_some, fst_foldl_leaves]

end Unpacked

theorem foldl_actionListAdd (al acts : List Action) : acts.foldl actionListAdd al = al ++ acts := by
  induction acts generalizing al with
  | nil => rw [List.foldl_nil, List.append_nil]
  | cons act rest ih =>
    rw [List.foldl_cons, ih, actionListAdd, List.append_assoc, List.singleton_append]

/-! ## The round trip -/

/-- The kinds of actions that come back as they were. -/
def Action.survives : Action → Bool
  | .output _ => true
  | .group _ => true
  | .pushVlan _ => true
  | .popVlan => true
  | .popMpls _ => true
  | _ => false

/-- The number of bytes that such an action takes. -/
def Action.wireLength : Action → Nat
  | .output _ => 16
  | _ => 8

/-- Whatever its field is, the object of a set-field action is not unpacked. -/
theorem packSetField_unpacked (stale : BitVec 80) (set : SetField) :
    (packSetField stale set).unpacked = none := by
  obtain ⟨oxm, isSetField⟩ : ∃ oxm, packSetField stale set = .setField oxm 0 := by
    unfold packSetField
    exact ⟨_, rfl⟩
  rw [isSetField]
  rfl

theorem unpacked_packAction_iff {stale : BitVec 80} {act : Action} :
    (packAction stale act).bind OfAction.unpacked = some act ↔ act.survives = true := by
  cases act
  case setField set =>
    have dropped : (packAction stale (.setField set)).bind OfAction.unpacked = none :=
      packSetField_unpacked stale set
    rw [dropped]
    exact iff_of_false (by nofun) (by nofun)
  case output port => exact iff_of_true rfl rfl
  case group groupId => exact iff_of_true rfl rfl
  case pushVlan ethType => exact iff_of_true rfl rfl
  case popVlan => exact iff_of_true rfl rfl
  case popMpls ethType => exact iff_of_true rfl rfl
  all_goals exact iff_of_false (by nofun) (by nofun)

/-- The objects of a list of actions. -/
def packedActions (stale : Nat → BitVec 80) : List Action → List OfAction
  | [] => []
  | act :: rest => (packAction (stale rest.length) act).toList ++ packedActions stale rest

section Packing

variable (stale : Nat → BitVec 80) (al : List Action)

theorem length_packedActions :
    (packedActions stale al).length ≤ al.length := by
  induction al with
  | nil => exact Nat.le_refl 0
  | cons act rest ih =>
    have one : (packAction (stale rest.length) act).toList.length ≤ 1 := by
      cases packAction (stale rest.length) act <;> simp
    rw [packedActions, List.length_append, List.length_cons]
    omega

theorem unpacked_packedActions_cons (act : Action) (rest : List Action) :
    (packedActions stale (act :: rest)).filterMap OfAction.unpacked =
      ((packAction (stale rest.length) act).bind OfAction.unpacked).toList ++
        (packedActions stale rest).filterMap OfAction.unpacked := by
  rw [packedActions, List.filterMap_append]
  congr 1
  cases packAction (stale rest.length) act with
  | none => rfl
  | some packed => cases unpacked : packed.unpacked <;> simp [unpacked]

/-- The objects of a list are unpacked to the list if and only if each of its actions is
of a kind that survives. -/
theorem unpacked_packedActions_iff :
    (packedActions stale al).filterMap OfAction.unpacked = al ↔
      ∀ act ∈ al, act.survives = true := by
  induction al with
  | nil => simp [packedActions]
  | cons act rest ih =>
    rw [unpacked_packedActions_cons, List.forall_mem_cons, ← ih,
      ← @unpacked_packAction_iff (stale rest.length)]
    cases back : (packAction (stale rest.length) act).bind OfAction.unpacked with
    | none =>
      have short : ((packedActions stale rest).filterMap OfAction.unpacked).length <
          (act :: rest).length := by
        have kept := List.length_filterMap_le OfAction.unpacked (packedActions stale rest)
        have few := length_packedActions stale rest
        rw [List.length_cons]
        omega
      constructor
      · intro same
        have lengths := congrArg List.length same
        simp only [Option.toList_none, List.nil_append] at lengths
        omega
      · rintro ⟨⟨⟩, -⟩
    | some found => simp

/-- What `pack_action_list` appends are objects of the list, and the buffer holds them. -/
theorem packActionList_appends (acts : List OfAction) :
    ∃ kept, packActionList stale al acts = acts ++ kept ∧
      kept.Sublist (packedActions stale al) := by
  induction al generalizing acts with
  | nil => exact ⟨[], (List.append_nil _).symm, List.Sublist.refl _⟩
  | cons act rest ih =>
    rw [packActionList, packedActions]
    cases packAction (stale rest.length) act with
    | none => exact ih acts
    | some packed =>
      dsimp only [Option.toList_some]
      rw [ofListActionAppend]
      split
      · obtain ⟨kept, appended, fewer⟩ := ih (acts ++ [packed])
        refine ⟨packed :: kept, ?_, fewer.cons_cons packed⟩
        rw [appended, List.append_assoc, List.singleton_append]
      · obtain ⟨kept, appended, fewer⟩ := ih acts
        exact ⟨kept, appended, fewer.cons packed⟩

theorem length_packActionList_le {acts : List OfAction}
    (fits : (wire OfAction.toTlv acts).length ≤ ofWireBufferMaxLength) :
    (wire OfAction.toTlv (packActionList stale al acts)).length ≤ ofWireBufferMaxLength := by
  induction al generalizing acts with
  | nil => exact fits
  | cons act rest ih =>
    rw [packActionList]
    apply ih
    split
    · rw [ofListActionAppend]
      split
      · rename_i room
        rw [wire_append, List.length_append, wire_cons, wire_nil, List.append_nil]
        exact room
      · exact fits
    · exact fits

/-- A list that the buffer has room for is packed as a whole. -/
theorem packActionList_of_fits {acts : List OfAction}
    (fits : (wire OfAction.toTlv acts).length +
      (wire OfAction.toTlv (packedActions stale al)).length ≤ ofWireBufferMaxLength) :
    packActionList stale al acts = acts ++ packedActions stale al := by
  induction al generalizing acts with
  | nil => exact (List.append_nil _).symm
  | cons act rest ih =>
    rw [packActionList, packedActions]
    rw [packedActions] at fits
    cases isPacked : packAction (stale rest.length) act with
    | none =>
      rw [isPacked] at fits
      exact ih fits
    | some packed =>
      rw [isPacked, Option.toList_some, wire_append, wire_cons, wire_nil, List.append_nil,
        List.length_append] at fits
      have room : (wire OfAction.toTlv acts).length + packed.toTlv.bytes.length ≤
          ofWireBufferMaxLength := by omega
      dsimp only [Option.toList_some]
      rw [ofListActionAppend, if_pos room, ih, List.append_assoc]
      rw [wire_append, List.length_append, wire_cons, wire_nil, List.append_nil]
      omega

end Packing

theorem length_wire_packedActions {al : List Action} (survive : ∀ act ∈ al, act.survives = true)
    (stale : Nat → BitVec 80) :
    (wire OfAction.toTlv (packedActions stale al)).length =
      (al.map Action.wireLength).sum := by
  induction al with
  | nil => rfl
  | cons act rest ih =>
    rw [List.forall_mem_cons] at survive
    have here : (wire OfAction.toTlv (packAction (stale rest.length) act).toList).length =
        act.wireLength := by
      cases act <;> first | rfl | cases survive.1
    rw [packedActions, wire_append, List.length_append, List.map_cons, List.sum_cons, here,
      ih survive.2]

/-- Unpacking what was packed gives the list back if and only if it has neither set-field
nor push-MPLS actions, nor one of a kind that is not packed at all, and fits into the
buffer. -/
theorem unpackActions_packActionList_iff (stale : Nat → BitVec 80) (genAct : Action)
    (al : List Action) :
    unpackActions actionListAdd [] genAct
        (wire OfAction.toTlv (packActionList stale al [])) = some al ↔
      (∀ act ∈ al, act.survives = true) ∧
        (al.map Action.wireLength).sum ≤ ofWireBufferMaxLength := by
  rw [unpackActions_wire, foldl_actionListAdd, List.nil_append, Option.some.injEq]
  constructor
  · intro back
    obtain ⟨kept, appended, fewer⟩ := packActionList_appends stale al []
    rw [List.nil_append] at appended
    rw [appended] at back
    have all : kept = packedActions stale al := by
      apply fewer.eq_of_length_le
      have many := List.length_filterMap_le OfAction.unpacked kept
      have few := length_packedActions stale al
      rw [back] at many
      omega
    have survive := (unpacked_packedActions_iff stale al).mp (all ▸ back)
    have bounded := @length_packActionList_le stale al [] (Nat.zero_le _)
    rw [appended, all, length_wire_packedActions survive] at bounded
    exact ⟨survive, bounded⟩
  · rintro ⟨survive, short⟩
    have whole : packActionList stale al [] = packedActions stale al := by
      apply packActionList_of_fits
      rw [length_wire_packedActions survive, wire_nil, List.length_nil, Nat.zero_add]
      exact short
    rw [whole]
    exact (unpacked_packedActions_iff stale al).mpr survive

/-- A set-field action is lost, and a push-MPLS action comes back as a pop. -/
theorem packed_actions_come_back_changed :
    unpackActions actionListAdd [] .qos (wire OfAction.toTlv
        (packActionList (fun _ => 0) [.setField ⟨.vlanId, 5⟩, .output 1] [])) =
      some [.output 1] ∧
    unpackActions actionListAdd [] .qos (wire OfAction.toTlv
        (packActionList (fun _ => 0) [.pushMpls 0x8847] [])) =
      some [.popMpls 0x8847] := by
  decide +kernel

end Horse.Lib
