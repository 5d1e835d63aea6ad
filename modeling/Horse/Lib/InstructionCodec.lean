import Horse.Lib.ActionCodec

/-!
# Unpacking instructions

The instructions of a flow mod stand one behind the other in one wire buffer.
`unpack_instructions` walks them with the iterator of LOCI.  The getters it calls read
at offsets from the start of the current instruction, but its type is read at the start
of the buffer, which is the type of the first instruction.
-/

namespace Horse.Lib

open Horse.Codec Horse.Transition

/-! ## Instructions on the wire -/

/-- The number of an instruction type on the wire, `enum ofp_instruction_type`. -/
def InstructionType.code : InstructionType → BitVec 16
  | .gotoTable => 1
  | .writeMetadata => 2
  | .writeActions => 3
  | .applyActions => 4
  | .clearActions => 5

/-- The instruction types that `unpack_instructions` handles. -/
def InstructionType.all : List InstructionType :=
  [.gotoTable, .writeMetadata, .writeActions, .applyActions, .clearActions]

/-- The handled instruction type with a number. -/
def InstructionType.ofCode (number : Nat) : Option InstructionType :=
  InstructionType.all.find? fun type => type.code.toNat == number

@[simp]
theorem InstructionType.ofCode_code (type : InstructionType) :
    InstructionType.ofCode type.code.toNat = some type := by
  cases type <;> rfl

/-- The actions of an instruction, which together with it fit into sixteen bits of
length. -/
structure ActionField where
  actions : List OfAction
  fits : (wire OfAction.toTlv actions).length + 8 < 2 ^ 16

/-- An instruction of one of the handled types as it stands on the wire. -/
inductive WireInstruction
  | gotoTable (tableId : BitVec 8)
  | writeMetadata (metadata : WriteMetadata)
  | writeActions (field : ActionField)
  | applyActions (field : ActionField)
  | clearActions

namespace WireInstruction

/-- The type of an instruction. -/
def type : WireInstruction → InstructionType
  | gotoTable _ => .gotoTable
  | writeMetadata _ => .writeMetadata
  | writeActions _ => .writeActions
  | applyActions _ => .applyActions
  | clearActions => .clearActions

/-- What stands behind the type and the length of an instruction. -/
def body : WireInstruction → List (BitVec 8)
  | gotoTable tableId => packBe 1 tableId.toNat ++ packBe 3 0
  | writeMetadata metadata =>
    packBe 4 0 ++ (packBe 8 metadata.metadata.toNat ++ packBe 8 metadata.metadataMask.toNat)
  | writeActions field => packBe 4 0 ++ wire OfAction.toTlv field.actions
  | applyActions field => packBe 4 0 ++ wire OfAction.toTlv field.actions
  | clearActions => packBe 4 0

theorem length_body (inst : WireInstruction) : inst.body.length + 4 < 2 ^ 16 := by
  have actions : ∀ field : ActionField,
      (packBe 4 0 ++ wire OfAction.toTlv field.actions).length + 4 < 2 ^ 16 := by
    intro field
    have fits := field.fits
    rw [List.length_append, length_packBe]
    omega
  cases inst with
  | gotoTable tableId => simp [body]
  | writeMetadata metadata => simp [body]
  | writeActions field => exact actions field
  | applyActions field => exact actions field
  | clearActions => simp [body]

/-- An instruction as an element of a list. -/
def toTlv (inst : WireInstruction) : Tlv where
  type := inst.type.code
  body := inst.body
  fits := inst.length_body

/-- The table that a goto names. -/
def gotoPayload : WireInstruction → Option (BitVec 8)
  | gotoTable tableId => some tableId
  | _ => none

/-- The metadata that an instruction writes. -/
def metadataPayload : WireInstruction → Option WriteMetadata
  | writeMetadata metadata => some metadata
  | _ => none

/-- The actions that an instruction writes. -/
def writePayload : WireInstruction → Option ActionField
  | writeActions field => some field
  | _ => none

/-- The actions that an instruction applies. -/
def applyPayload : WireInstruction → Option ActionField
  | applyActions field => some field
  | _ => none

end WireInstruction

/-! ## Unpacking -/

/-- `of_instruction_apply_actions_actions_get`: a copy of the actions of the instruction
at an offset. -/
def ofInstructionApplyActionsActionsGet (data : List (BitVec 8)) (objOffset : Nat) :
    Option (List (BitVec 8)) :=
  (readBe data (objOffset + 2) 2).bind fun length =>
    if length < 8 then none else copyBytes data (objOffset + 8) (length - 8)

/-- The loop body of `unpack_instructions`.  The type is read at offset 0 of the buffer
and not at the offset of the instruction. -/
def unpackInstruction (genAct : Action) (data : List (BitVec 8)) (is : InstructionSet)
    (objOffset : Nat) : Option InstructionSet :=
  (readBe data 0 2).bind fun instType =>
    match InstructionType.ofCode instType with
    | some .gotoTable => (readWord 8 data (objOffset + 4)).map (addGotoTable is)
    | some .writeMetadata =>
      (readWord 64 data (objOffset + 8)).bind fun metadata =>
        (readWord 64 data (objOffset + 16)).map fun metadataMask =>
          addWriteMetadata is ⟨metadata, metadataMask⟩
    | some .writeActions =>
      (ofInstructionApplyActionsActionsGet data objOffset).bind fun actionList =>
        (unpackActions actionSetAdd actionSetInit genAct actionList).map (addWriteActions is)
    | some .applyActions =>
      (ofInstructionApplyActionsActionsGet data objOffset).bind fun actionList =>
        (unpackActions actionListAdd [] genAct actionList).map (addApplyActions is)
    | some .clearActions => some (addClearActions is)
    | none => some is

/-- `unpack_instructions`. -/
def unpackInstructions (genAct : Action) (insts : List (BitVec 8)) : Option InstructionSet :=
  (tlvOffsets insts).bind fun offsets =>
    offsets.foldlM (unpackInstruction genAct insts) instructionSetInit

/-- What an instruction set unpacked from a list should be: the active bits are the types
in the list, and the payload of each type is that of its last instruction. -/
structure Decodes (genAct : Action) (insts : List WireInstruction) (is : InstructionSet) :
    Prop where
  active : ∀ type, instructionIsActive is type = true ↔ ∃ inst ∈ insts, inst.type = type
  noOther : is.active &&& 0xe0 = 0
  gotoTable : ∀ tableId, (insts.filterMap WireInstruction.gotoPayload).getLast? = some tableId →
    is.gtTable = tableId
  writeMetadata : ∀ metadata,
    (insts.filterMap WireInstruction.metadataPayload).getLast? = some metadata →
      is.writeMeta = metadata
  writeActions : ∀ field, (insts.filterMap WireInstruction.writePayload).getLast? = some field →
    unpackActions actionSetAdd actionSetInit genAct (wire OfAction.toTlv field.actions) =
      some is.writeAct
  applyActions : ∀ field, (insts.filterMap WireInstruction.applyPayload).getLast? = some field →
    unpackActions actionListAdd [] genAct (wire OfAction.toTlv field.actions) =
      some is.applyAct

/-! ## Adding the instructions one by one -/

/-- The list that the actions of an instruction are unpacked to. -/
def ActionField.list (field : ActionField) : List Action :=
  (field.actions.filterMap OfAction.unpacked).foldl actionListAdd []

/-- The set that the actions of an instruction are unpacked to. -/
def ActionField.set (field : ActionField) : ActionSet :=
  (field.actions.filterMap OfAction.unpacked).foldl actionSetAdd actionSetInit

/-- The instruction set after an instruction whose type was read where it stands. -/
def WireInstruction.addTo (is : InstructionSet) : WireInstruction → InstructionSet
  | gotoTable tableId => addGotoTable is tableId
  | writeMetadata metadata => addWriteMetadata is metadata
  | writeActions field => addWriteActions is field.set
  | applyActions field => addApplyActions is field.list
  | clearActions => addClearActions is

section Payload

variable {β γ : Type} {read : InstructionSet → γ} {payload : WireInstruction → Option β}
  {decode : β → γ}

section

variable
  (writes : ∀ is (inst : WireInstruction),
    read (inst.addTo is) = ((payload inst).map decode).getD (read is))

include writes

/-- A payload after a list of instructions is that of the last instruction that has one. -/
theorem foldl_addTo_payload (insts : List WireInstruction) (init : InstructionSet) :
    read (insts.foldl WireInstruction.addTo init) =
      ((insts.filterMap payload).getLast?.map decode).getD (read init) := by
  induction insts generalizing init with
  | nil => rfl
  | cons inst rest ih =>
    rw [List.foldl_cons, ih, writes]
    cases has : payload inst with
    | none => rw [List.filterMap_cons_none has, Option.map_none, Option.getD_none]
    | some found =>
      rw [List.filterMap_cons_some has, List.getLast?_cons]
      cases (rest.filterMap payload).getLast? <;> rfl

theorem foldl_addTo_last {insts : List WireInstruction} {value : β}
    (last : (insts.filterMap payload).getLast? = some value) (init : InstructionSet) :
    read (insts.foldl WireInstruction.addTo init) = decode value := by
  rw [foldl_addTo_payload writes, last, Option.map_some, Option.getD_some]

end

end Payload

theorem active_addTo (is : InstructionSet) (inst : WireInstruction) :
    (inst.addTo is).active = is.active ||| inst.type.bit := by
  cases inst <;> rfl

/-- Some of the given bits are set after a list of instructions if they were before or
an instruction of the list has one of them. -/
theorem active_foldl_addTo_and_eq_zero (insts : List WireInstruction) (init : InstructionSet)
    (bits : BitVec 8) :
    (insts.foldl WireInstruction.addTo init).active &&& bits = 0#8 ↔
      init.active &&& bits = 0#8 ∧ ∀ inst ∈ insts, inst.type.bit &&& bits = 0#8 := by
  induction insts generalizing init with
  | nil => exact ⟨fun kept => ⟨kept, nofun⟩, And.left⟩
  | cons inst rest ih =>
    rw [List.foldl_cons, ih, active_addTo, BitVec.and_or_distrib_right, BitVec.or_eq_zero_iff,
      List.forall_mem_cons, and_assoc]

theorem bit_and_bit_eq_zero_iff (first second : InstructionType) :
    first.bit &&& second.bit = 0#8 ↔ first ≠ second := by
  cases first <;> cases second <;> decide

theorem instructionIsActive_eq_true_iff (is : InstructionSet) (type : InstructionType) :
    instructionIsActive is type = true ↔ is.active &&& type.bit ≠ 0#8 :=
  bne_iff_ne

/-- Adding the instructions of a list one by one gives the set it should. -/
theorem decodes_foldl_addTo (genAct : Action) (insts : List WireInstruction) :
    Decodes genAct insts (insts.foldl WireInstruction.addTo instructionSetInit) where
  active := by
    intro type
    rw [instructionIsActive_eq_true_iff, Ne, active_foldl_addTo_and_eq_zero]
    simp only [bit_and_bit_eq_zero_iff]
    constructor
    · intro found
      by_contra absent
      apply found
      exact ⟨BitVec.zero_and, fun inst listed same => absent ⟨inst, listed, same⟩⟩
    · rintro ⟨inst, listed, same⟩ none_
      exact none_.2 inst listed same
  noOther := by
    apply (active_foldl_addTo_and_eq_zero insts instructionSetInit 0xe0).mpr
    constructor
    · rfl
    · intro inst _
      cases inst.type <;> decide
  gotoTable tableId last := by
    apply foldl_addTo_last (fun is inst => ?_) last
    cases inst <;> rfl
  writeMetadata metadata last := by
    apply foldl_addTo_last (fun is inst => ?_) last
    cases inst <;> rfl
  writeActions field last := by
    have kept : (insts.foldl WireInstruction.addTo instructionSetInit).writeAct = field.set := by
      apply foldl_addTo_last (fun is inst => ?_) last
      cases inst <;> rfl
    rw [kept, unpackActions_wire, ActionField.set]
  applyActions field last := by
    have kept : (insts.foldl WireInstruction.addTo instructionSetInit).applyAct = field.list := by
      apply foldl_addTo_last (fun is inst => ?_) last
      cases inst <;> rfl
    rw [kept, unpackActions_wire, ActionField.list]

/-! ## Instructions of one type -/

variable {insts before after : List WireInstruction} {inst : WireInstruction} {genAct : Action}
  {data : List (BitVec 8)} {type : InstructionType} {is : InstructionSet}

theorem ofInstructionApplyActionsActionsGet_wire (split : insts = before ++ inst :: after)
    {field : ActionField}
    (body : inst.toTlv.body = packBe 4 0 ++ wire OfAction.toTlv field.actions) :
    ofInstructionApplyActionsActionsGet (wire WireInstruction.toTlv insts)
      (wire WireInstruction.toTlv before).length = some (wire OfAction.toTlv field.actions) := by
  have bodyLength : inst.toTlv.body.length = 4 + (wire OfAction.toTlv field.actions).length := by
    rw [body, List.length_append, length_packBe]
  have length := @readBe_wire _ WireInstruction.toTlv _ _ _ _ split 2 2 (by simp)
  rw [Tlv.readBe_length, bodyLength] at length
  have copied := @copyBytes_wire_body _ WireInstruction.toTlv _ _ _ _ split 4
    (wire OfAction.toTlv field.actions).length (by omega)
  have behind := copyBytes_append_right (packBe 4 0) (wire OfAction.toTlv field.actions) 0
    (wire OfAction.toTlv field.actions).length
  have whole := copyBytes_left (wire OfAction.toTlv field.actions) []
  rw [List.append_nil] at whole
  rw [ofInstructionApplyActionsActionsGet, length, Option.bind_some, if_neg (by omega)]
  have count : 4 + (wire OfAction.toTlv field.actions).length + 4 - 8 =
      (wire OfAction.toTlv field.actions).length := by
    omega
  rw [count, copied, body]
  exact behind.trans whole

/-- An instruction of the type that stands first is unpacked as what it is. -/
theorem unpackInstruction_wire (split : insts = before ++ inst :: after)
    (first : readBe (wire WireInstruction.toTlv insts) 0 2 = some inst.type.code.toNat)
    (genAct : Action) (is : InstructionSet) :
    unpackInstruction genAct (wire WireInstruction.toTlv insts) is
      (wire WireInstruction.toTlv before).length = some (inst.addTo is) := by
  rw [unpackInstruction, first, Option.bind_some, InstructionType.ofCode_code]
  cases inst with
  | gotoTable tableId =>
    dsimp only [WireInstruction.type]
    rw [readWord_wire_body split (by decide) rfl]
    rfl
  | writeMetadata metadata =>
    dsimp only [WireInstruction.type]
    have value := @readWord_wire_behind _ WireInstruction.toTlv _ _ _ _ split 64
      metadata.metadata (packBe 4 0) (packBe 8 metadata.metadataMask.toNat) (by decide) rfl
    have mask := @readWord_wire_behind _ WireInstruction.toTlv _ _ _ _ split 64
      metadata.metadataMask (packBe 4 0 ++ packBe 8 metadata.metadata.toNat) [] (by decide)
      (by rw [List.append_nil, List.append_assoc]; rfl)
    rw [List.length_append, length_packBe, length_packBe] at mask
    rw [length_packBe] at value
    rw [value, mask]
    rfl
  | writeActions field =>
    dsimp only [WireInstruction.type]
    rw [ofInstructionApplyActionsActionsGet_wire split rfl, Option.bind_some, unpackActions_wire]
    rfl
  | applyActions field =>
    dsimp only [WireInstruction.type]
    rw [ofInstructionApplyActionsActionsGet_wire split rfl, Option.bind_some, unpackActions_wire]
    rfl
  | clearActions => rfl

/-- The type that is read for every instruction of a list. -/
theorem readBe_wire_first (inst : WireInstruction) (rest : List WireInstruction) :
    readBe (wire WireInstruction.toTlv (inst :: rest)) 0 2 = some inst.type.code.toNat :=
  @readBe_wire_type _ WireInstruction.toTlv (inst :: rest) [] rest inst rfl

theorem unpackInstructions_wire (same : ∀ inst ∈ insts, ∀ other ∈ insts, inst.type = other.type)
    (genAct : Action) :
    unpackInstructions genAct (wire WireInstruction.toTlv insts) =
      some (insts.foldl WireInstruction.addTo instructionSetInit) := by
  have walked : unpackInstructions genAct (wire WireInstruction.toTlv insts) =
      insts.foldlM (fun is inst => some (WireInstruction.addTo is inst)) instructionSetInit := by
    apply foldlM_tlvOffsets
    intro before inst after split is
    apply unpackInstruction_wire split
    cases insts with
    | nil => cases before <;> cases split
    | cons first rest =>
      have listed : inst ∈ first :: rest := by
        rw [split]
        exact List.mem_append_right _ List.mem_cons_self
      rw [readBe_wire_first, same first List.mem_cons_self inst listed]
  rw [walked]
  exact List.foldlM_pure

/-! ## Instructions of several types -/

/-- Whatever is unpacked, only the bit of the type that stands first is set. -/
theorem active_unpackInstruction (first : readBe data 0 2 = some type.code.toNat)
    {next : InstructionSet} {objOffset : Nat}
    (unpacked : unpackInstruction genAct data is objOffset = some next) :
    next.active = is.active ||| type.bit := by
  rw [unpackInstruction, first, Option.bind_some, InstructionType.ofCode_code] at unpacked
  cases type with
  | gotoTable =>
    obtain ⟨tableId, _, rfl⟩ := Option.map_eq_some_iff.mp unpacked
    rfl
  | writeMetadata =>
    obtain ⟨metadata, metadataMask, _, _, rfl⟩ := bind_map_eq_some_iff.mp unpacked
    rfl
  | writeActions =>
    obtain ⟨actionList, actions, _, _, rfl⟩ := bind_map_eq_some_iff.mp unpacked
    rfl
  | applyActions =>
    obtain ⟨actionList, actions, _, _, rfl⟩ := bind_map_eq_some_iff.mp unpacked
    rfl
  | clearActions =>
    cases unpacked
    rfl

theorem active_foldlM_unpackInstruction (first : readBe data 0 2 = some type.code.toNat)
    {other : InstructionType} (different : type ≠ other) {offsets : List Nat}
    {final : InstructionSet} (absent : is.active &&& other.bit = 0#8)
    (unpacked : offsets.foldlM (unpackInstruction genAct data) is = some final) :
    final.active &&& other.bit = 0#8 := by
  induction offsets generalizing is with
  | nil =>
    cases unpacked
    exact absent
  | cons offset rest ih =>
    rw [List.foldlM_cons] at unpacked
    obtain ⟨next, stepped, walked⟩ := Option.bind_eq_some_iff.mp unpacked
    apply ih _ walked
    rw [active_unpackInstruction first stepped, BitVec.and_or_distrib_right,
      BitVec.or_eq_zero_iff]
    exact ⟨absent, (bit_and_bit_eq_zero_iff type other).mpr different⟩

/-- The instructions of a list are unpacked as they should be just when they are all of
one type. -/
theorem unpackInstructions_decodes_iff (genAct : Action) (insts : List WireInstruction) :
    (∃ is, unpackInstructions genAct (wire WireInstruction.toTlv insts) = some is ∧
        Decodes genAct insts is) ↔
      ∀ inst ∈ insts, ∀ other ∈ insts, inst.type = other.type := by
  constructor
  · rintro ⟨is, unpacked, decodes⟩
    cases insts with
    | nil => exact fun _ listed => nomatch listed
    | cons first rest =>
      have all : ∀ inst ∈ first :: rest, first.type = inst.type := by
        intro inst listed
        by_contra different
        obtain ⟨offsets, _, walked⟩ := Option.bind_eq_some_iff.mp unpacked
        have absent := active_foldlM_unpackInstruction (readBe_wire_first first rest) different
          BitVec.zero_and walked
        have present := (decodes.active inst.type).mpr ⟨inst, listed, rfl⟩
        exact (instructionIsActive_eq_true_iff is inst.type).mp present absent
      intro inst listed other otherListed
      rw [← all inst listed, all other otherListed]
  · intro same
    exact ⟨_, unpackInstructions_wire same genAct, decodes_foldl_addTo genAct insts⟩

/-- An output to port 1, as the actions of an instruction. -/
def outputField : ActionField where
  actions := [.output 1 0]
  fits := by decide

/-- An instruction that applies an output and a goto behind it are both read as
instructions that apply actions.  The goto is lost, and the output with it. -/
theorem goto_unpacked_as_apply :
    let insts := [.applyActions outputField, .gotoTable 1]
    let is := { instructionSetInit with active := InstructionType.applyActions.bit }
    unpackInstructions .popVlan (wire WireInstruction.toTlv insts) = some is ∧
      ¬ Decodes .popVlan insts is := by
  constructor
  · decide +kernel
  · intro decodes
    have present := (decodes.active .gotoTable).mpr
      ⟨.gotoTable 1, List.mem_cons_of_mem _ List.mem_cons_self, rfl⟩
    cases present

end Horse.Lib
