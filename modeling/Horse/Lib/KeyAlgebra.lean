import Horse.Lib.Flow
import Mathlib.Order.BooleanAlgebra.Basic

/-!
# Flow keys as a Boolean algebra

A flow key is a family of bit vectors, one for each field, and so a set of bits.
`apply_all_mask` is the meet of that algebra.
-/

namespace Horse.Lib

/-- The fields of `struct ofl_flow_key`. -/
inductive KeyField
  | inPort | inPhyPort | metadata | tunnelId | ethDst | ethSrc | ethType | vlanId | vlanPcp
  | ipDscp | ipEcn | ipProto | ipv4Src | ipv4Dst | tcpSrc | tcpDst | udpSrc | udpDst
  | sctpSrc | sctpDst | icmpv4Type | icmpv4Code | arpOp | arpSpa | arpTpa | arpSha | arpTha
  | ipv6Src | ipv6Dst | ipv6Flabel | icmpv6Type | icmpv6Code | ipv6NdTarget | ipv6NdSll
  | ipv6NdTll | mplsLabel | mplsTc | mplsBos
  deriving DecidableEq

/-- The number of bits of a field. -/
def KeyField.width : KeyField → Nat
  | .ethType | .vlanId | .tcpSrc | .tcpDst | .udpSrc | .udpDst | .sctpSrc | .sctpDst
  | .arpOp => 16
  | .inPort | .inPhyPort | .ipv4Src | .ipv4Dst | .arpSpa | .arpTpa | .ipv6Flabel
  | .mplsLabel => 32
  | .ethDst | .ethSrc | .arpSha | .arpTha | .ipv6NdSll | .ipv6NdTll => 48
  | .metadata | .tunnelId => 64
  | .ipv6Src | .ipv6Dst | .ipv6NdTarget => 128
  | _ => 8

/-- The value of a field. -/
def OflFlowKey.get (key : OflFlowKey) : (field : KeyField) → BitVec field.width
  | .inPort => key.inPort
  | .inPhyPort => key.inPhyPort
  | .metadata => key.metadata
  | .tunnelId => key.tunnelId
  | .ethDst => key.ethDst
  | .ethSrc => key.ethSrc
  | .ethType => key.ethType
  | .vlanId => key.vlanId
  | .vlanPcp => key.vlanPcp
  | .ipDscp => key.ipDscp
  | .ipEcn => key.ipEcn
  | .ipProto => key.ipProto
  | .ipv4Src => key.ipv4Src
  | .ipv4Dst => key.ipv4Dst
  | .tcpSrc => key.tcpSrc
  | .tcpDst => key.tcpDst
  | .udpSrc => key.udpSrc
  | .udpDst => key.udpDst
  | .sctpSrc => key.sctpSrc
  | .sctpDst => key.sctpDst
  | .icmpv4Type => key.icmpv4Type
  | .icmpv4Code => key.icmpv4Code
  | .arpOp => key.arpOp
  | .arpSpa => key.arpSpa
  | .arpTpa => key.arpTpa
  | .arpSha => key.arpSha
  | .arpTha => key.arpTha
  | .ipv6Src => key.ipv6Src
  | .ipv6Dst => key.ipv6Dst
  | .ipv6Flabel => key.ipv6Flabel
  | .icmpv6Type => key.icmpv6Type
  | .icmpv6Code => key.icmpv6Code
  | .ipv6NdTarget => key.ipv6NdTarget
  | .ipv6NdSll => key.ipv6NdSll
  | .ipv6NdTll => key.ipv6NdTll
  | .mplsLabel => key.mplsLabel
  | .mplsTc => key.mplsTc
  | .mplsBos => key.mplsBos

/-- The key with the given field values. -/
def OflFlowKey.ofFields (get : (field : KeyField) → BitVec field.width) : OflFlowKey where
  inPort := get .inPort
  inPhyPort := get .inPhyPort
  metadata := get .metadata
  tunnelId := get .tunnelId
  ethDst := get .ethDst
  ethSrc := get .ethSrc
  ethType := get .ethType
  vlanId := get .vlanId
  vlanPcp := get .vlanPcp
  ipDscp := get .ipDscp
  ipEcn := get .ipEcn
  ipProto := get .ipProto
  ipv4Src := get .ipv4Src
  ipv4Dst := get .ipv4Dst
  tcpSrc := get .tcpSrc
  tcpDst := get .tcpDst
  udpSrc := get .udpSrc
  udpDst := get .udpDst
  sctpSrc := get .sctpSrc
  sctpDst := get .sctpDst
  icmpv4Type := get .icmpv4Type
  icmpv4Code := get .icmpv4Code
  arpOp := get .arpOp
  arpSpa := get .arpSpa
  arpTpa := get .arpTpa
  arpSha := get .arpSha
  arpTha := get .arpTha
  ipv6Src := get .ipv6Src
  ipv6Dst := get .ipv6Dst
  ipv6Flabel := get .ipv6Flabel
  icmpv6Type := get .icmpv6Type
  icmpv6Code := get .icmpv6Code
  ipv6NdTarget := get .ipv6NdTarget
  ipv6NdSll := get .ipv6NdSll
  ipv6NdTll := get .ipv6NdTll
  mplsLabel := get .mplsLabel
  mplsTc := get .mplsTc
  mplsBos := get .mplsBos

@[simp]
theorem OflFlowKey.get_ofFields (get : (field : KeyField) → BitVec field.width)
    (field : KeyField) : (OflFlowKey.ofFields get).get field = get field := by
  cases field <;> rfl

@[simp]
theorem OflFlowKey.get_zero (field : KeyField) : OflFlowKey.zero.get field = 0 := by
  cases field <;> rfl

/-- Masking goes field by field. -/
@[simp]
theorem get_applyAllMask (key mask : OflFlowKey) (field : KeyField) :
    (applyAllMask key mask).get field = key.get field &&& mask.get field := by
  cases field <;> rfl

theorem OflFlowKey.eq_of_get_eq {a b : OflFlowKey} (same : ∀ field, a.get field = b.get field) :
    a = b :=
  calc a = OflFlowKey.ofFields a.get := rfl
    _ = OflFlowKey.ofFields b.get := by rw [funext same]
    _ = b := rfl

/-! ## Assignment -/

/-- The key with one field assigned. -/
def OflFlowKey.assign (key : OflFlowKey) (field : KeyField) (value : BitVec field.width) :
    OflFlowKey :=
  OflFlowKey.ofFields fun other =>
    if same : other = field then value.cast (by rw [same]) else key.get other

@[simp]
theorem OflFlowKey.get_assign (key : OflFlowKey) (field : KeyField)
    (value : BitVec field.width) : (key.assign field value).get field = value := by
  rw [OflFlowKey.assign, OflFlowKey.get_ofFields, dif_pos rfl]
  rfl

variable {field : KeyField}

theorem OflFlowKey.get_assign_ne (key : OflFlowKey) {other : KeyField} (value : BitVec field.width)
    (apart : other ≠ field) :
    (key.assign field value).get other = key.get other := by
  rw [OflFlowKey.assign, OflFlowKey.get_ofFields, dif_neg apart]

/-- A key with one field assigned is another key that has the value in this field and
the same values in all others. -/
theorem OflFlowKey.eq_assign_iff {key after : OflFlowKey} {value : BitVec field.width}
    (others : ∀ other, other ≠ field → after.get other = key.get other) :
    after = key.assign field value ↔ after.get field = value := by
  constructor
  · rintro rfl
    exact key.get_assign field value
  · intro here
    apply OflFlowKey.eq_of_get_eq
    intro other
    by_cases same : other = field
    · subst same
      rw [OflFlowKey.get_assign, here]
    · rw [OflFlowKey.get_assign_ne _ _ same, others other same]

theorem OflFlowKey.assign_eq_self_iff {key : OflFlowKey} {value : BitVec field.width} :
    key.assign field value = key ↔ key.get field = value := by
  rw [eq_comm]
  exact OflFlowKey.eq_assign_iff fun _ _ => rfl

/-! ## The bits of a key -/

/-- The bits of every field of a key. -/
def OflFlowKey.bits (key : OflFlowKey) (field : KeyField) (index : Nat) : Bool :=
  (key.get field).getLsbD index

theorem OflFlowKey.bits_injective : Function.Injective OflFlowKey.bits := by
  intro a b same
  apply OflFlowKey.eq_of_get_eq
  intro field
  apply BitVec.eq_of_getLsbD_eq
  intro index _
  exact congrFun (congrFun same field) index

instance : Min OflFlowKey :=
  ⟨applyAllMask⟩

instance : Max OflFlowKey :=
  ⟨fun a b => OflFlowKey.ofFields fun field => a.get field ||| b.get field⟩

instance : SDiff OflFlowKey :=
  ⟨fun a b => OflFlowKey.ofFields fun field => a.get field &&& ~~~b.get field⟩

instance : Bot OflFlowKey :=
  ⟨OflFlowKey.zero⟩

instance : LE OflFlowKey :=
  ⟨fun a b => a.bits ≤ b.bits⟩

instance : LT OflFlowKey :=
  ⟨fun a b => a.bits < b.bits⟩

theorem OflFlowKey.bits_sup (a b : OflFlowKey) : (a ⊔ b).bits = a.bits ⊔ b.bits := by
  funext field index
  change ((OflFlowKey.ofFields _).get field).getLsbD index = _
  rw [OflFlowKey.get_ofFields, BitVec.getLsbD_or]
  rfl

theorem OflFlowKey.bits_inf (a b : OflFlowKey) : (a ⊓ b).bits = a.bits ⊓ b.bits := by
  funext field index
  change ((applyAllMask a b).get field).getLsbD index = _
  rw [get_applyAllMask, BitVec.getLsbD_and]
  rfl

theorem OflFlowKey.bits_bot : (⊥ : OflFlowKey).bits = ⊥ := by
  funext field index
  change (OflFlowKey.zero.get field).getLsbD index = _
  rw [OflFlowKey.get_zero, BitVec.ofNat_eq_ofNat, BitVec.getLsbD_zero]
  rfl

theorem OflFlowKey.bits_sdiff (a b : OflFlowKey) : (a \ b).bits = a.bits \ b.bits := by
  funext field index
  change ((OflFlowKey.ofFields _).get field).getLsbD index = _
  rw [OflFlowKey.get_ofFields, BitVec.getLsbD_and, BitVec.getLsbD_not]
  by_cases inside : index < field.width
  · rw [decide_eq_true inside, Bool.true_and]
    rfl
  · have outside : (a.get field).getLsbD index = false :=
      BitVec.getLsbD_of_ge _ _ (Nat.le_of_not_lt inside)
    change _ = ((a.get field).getLsbD index && !(b.get field).getLsbD index)
    rw [outside, Bool.false_and, Bool.false_and]

instance : GeneralizedBooleanAlgebra OflFlowKey :=
  OflFlowKey.bits_injective.generalizedBooleanAlgebra OflFlowKey.bits Iff.rfl Iff.rfl
    OflFlowKey.bits_sup OflFlowKey.bits_inf OflFlowKey.bits_bot OflFlowKey.bits_sdiff

end Horse.Lib
