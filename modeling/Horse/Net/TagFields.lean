import Horse.Net.ActionMeaning

/-!
# The outermost tag and its copy in the match

The fields of a tag exist twice: packed in the word of the outermost tag, and one by one
in the match.  Pushing, popping and set-field actions write both, with masks and shifts of
their own.  This module says for every sequence of these operations when the two agree
after each of them, and which MPLS tags of a stack carry the bottom-of-stack bit.
-/

namespace Horse.Net

open Horse.Codec Horse.Lib Horse.Transition

theorem head_setTop (tags : TagStack) (change : Tag → Tag) :
    (tags.setTop change).levels.head? = tags.levels.head?.map change := by
  obtain ⟨levels, bounded⟩ := tags
  cases levels <;> rfl

@[simp]
theorem vlanTag_setVlanTag (t : Tag) (tag : BitVec 16) : (t.setVlanTag tag).vlanTag = tag :=
  BitVec.extractLsb'_append_eq_left

@[simp]
theorem vlanTag_setVlanEthertype (t : Tag) (ethertype : BitVec 16) :
    (t.setVlanEthertype ethertype).vlanTag = t.vlanTag :=
  BitVec.extractLsb'_append_eq_left

/-! ## VLAN -/

/-- The operations on VLAN tags. -/
inductive VlanCall
  | push (ethType : BitVec 16)
  | pop
  | setId (value : BitVec 16)
  | setPcp (value : BitVec 8)

/-- The netflow after an operation. -/
def VlanCall.apply (nf : Netflow) : VlanCall → Netflow
  | .push ethType => netflowPushVlan nf ethType
  | .pop => netflowPopVlan nf
  | .setId value => setField ⟨.vlanId, value.setWidth 128⟩ nf
  | .setPcp value => setField ⟨.vlanPcp, value.setWidth 128⟩ nf

/-- An operation as a step. -/
def vlanStep : Step Netflow VlanCall := fun nf call => some (call.apply nf)

/-- The id and the priority of a tag, 0 without a VLAN tag. -/
def vlanFields : Option Tag → BitVec 16 × BitVec 8
  | some t =>
    if t.isVlan then
      (t.vlanTag &&& vlanVidMask, ((t.vlanTag &&& vlanPcpMask) >>> 13).setWidth 8)
    else (0, 0)
  | none => (0, 0)

/-- The match has the fields of the outermost tag, and zeros if that is no VLAN tag. -/
def VlanMirror (nf : Netflow) : Prop :=
  (nf.key.vlanId, nf.key.vlanPcp) = vlanFields nf.tags.levels.head?

instance (nf : Netflow) : Decidable (VlanMirror nf) :=
  inferInstanceAs (Decidable (_ = _))

/-- A value that its field can hold. -/
def VlanCall.InRange : VlanCall → Prop
  | .setId value => value < 4096
  | .setPcp value => value < 8
  | _ => True

variable {ethType : BitVec 16} {change : BitVec 32 → BitVec 32}

theorem pushedVlanTag_isVlan
    (valid : (ethType == ethTypeVlan || ethType == ethTypeVlanQinQ) = true) (prev : Option Tag) :
    (pushedVlanTag ethType prev).isVlan = true := by
  cases prev with
  | none => exact valid
  | some prev =>
    simp only [pushedVlanTag]
    split <;> exact valid

/-- A new tag has the fields of the one below it. -/
theorem vlanFields_pushed (valid : (ethType == ethTypeVlan || ethType == ethTypeVlanQinQ) = true)
    (prev : Option Tag) : vlanFields (some (pushedVlanTag ethType prev)) = vlanFields prev := by
  have isVlan := pushedVlanTag_isVlan valid prev
  have zeros : vlanFields none = ((0 : BitVec 16) &&& vlanVidMask,
      (((0 : BitVec 16) &&& vlanPcpMask) >>> 13).setWidth 8) := by decide
  rw [vlanFields, if_pos isVlan]
  cases prev with
  | none => simp only [pushedVlanTag, vlanTag_setVlanEthertype, vlanTag_setVlanTag, zeros]
  | some prev =>
    rw [vlanFields]
    by_cases tagged : prev.isVlan
    · simp only [pushedVlanTag, tagged, if_true, vlanTag_setVlanEthertype, vlanTag_setVlanTag]
    · have blank : (Tag.mk ethType Tag.blank.word).vlanTag = 0 := by
        change (0 : BitVec 32).extractLsb' 16 16 = 0
        decide
      simp only [pushedVlanTag, tagged, vlanTag_setVlanEthertype, Bool.false_eq_true, if_false,
        blank]
      exact zeros.symm

variable {nf : Netflow} {levels : List Tag} {t : Tag} {key : OflFlowKey}

theorem push_vlanMirror (mirror : VlanMirror nf) (ethType : BitVec 16) :
    VlanMirror (netflowPushVlan nf ethType) := by
  rw [netflowPushVlan]
  split
  · split
    · rename_i room valid
      exact mirror.trans (vlanFields_pushed valid _).symm
    · exact mirror
  · exact mirror

theorem pop_vlanMirror (mirror : VlanMirror nf) :
    VlanMirror (netflowPopVlan nf) := by
  simp only [netflowPopVlan]
  split
  · split
    · rename_i t below
      split
      · rename_i tagged
        simp only [VlanMirror, below, vlanFields, tagged, if_true]
      · rename_i untagged
        simp only [VlanMirror, below, vlanFields, untagged, Bool.false_eq_true, if_false]
    · rename_i below
      simp only [VlanMirror, below, vlanFields]
  · exact mirror

theorem vid_disjoint_pcp : vlanVidMask &&& vlanPcpMask = 0 := by decide

theorem pcp_disjoint_vid : vlanPcpMask &&& vlanVidMask = 0 := by decide

theorem and_vid_eq_iff (value : BitVec 16) : value = value &&& vlanVidMask ↔ value < 4096 := by
  have cut : (value &&& vlanVidMask).toNat = value.toNat % 2 ^ 12 := by
    rw [BitVec.toNat_and]
    exact Nat.and_two_pow_sub_one_eq_mod _ 12
  rw [← BitVec.toNat_inj, cut]
  exact eq_comm.trans (Nat.mod_eq_iff_lt (by decide))

theorem pcp_field_eq_iff (value : BitVec 8) :
    value = (((value.setWidth 16 <<< 13) &&& vlanPcpMask) >>> 13).setWidth 8 ↔ value < 8 := by
  revert value
  decide

theorem setId_eq (tagged : netflowIsVlanTagged nf = true) (value : BitVec 16) :
    setField ⟨.vlanId, value.setWidth 128⟩ nf =
      { nf with
        key := { nf.key with vlanId := value }
        tags := nf.tags.setTop fun t =>
          t.setVlanTag (maskedWrite t.vlanTag value vlanVidMask) } := by
  have carried : (value.setWidth 128).setWidth 16 = value := by simp
  simp only [setField, tagged, if_true, SetField.u16Field, carried]
  rfl

theorem setPcp_eq (tagged : netflowIsVlanTagged nf = true) (value : BitVec 8) :
    setField ⟨.vlanPcp, value.setWidth 128⟩ nf =
      { nf with
        key := { nf.key with vlanPcp := value }
        tags := nf.tags.setTop fun t =>
          t.setVlanTag (maskedWrite t.vlanTag (value.setWidth 16 <<< 13) vlanPcpMask) } := by
  have carried : (value.setWidth 128).setWidth 8 = value := by simp
  simp only [setField, tagged, if_true, SetField.u8Field, carried, maskedWrite, pcp_within_mask]

/-- The fields of a VLAN tag after its tag word was written. -/
theorem vlanFields_setVlanTag (isVlan : t.isVlan = true) (tag : BitVec 16) :
    vlanFields (some (t.setVlanTag tag)) =
      (tag &&& vlanVidMask, ((tag &&& vlanPcpMask) >>> 13).setWidth 8) := by
  have stillVlan : (t.setVlanTag tag).isVlan = true := isVlan
  rw [vlanFields, if_pos stillVlan, vlanTag_setVlanTag]

theorem tagged_head (tagged : netflowIsVlanTagged nf = true) :
    ∃ t, nf.tags.levels.head? = some t ∧ t.isVlan = true :=
  (Option.any_eq_true_iff_get _ _).mp tagged |> fun ⟨isSome, isVlan⟩ =>
    ⟨_, (Option.some_get isSome).symm, isVlan⟩

theorem setId_vlanMirror_iff (mirror : VlanMirror nf) (tagged : netflowIsVlanTagged nf = true)
    (value : BitVec 16) :
    VlanMirror (setField ⟨.vlanId, value.setWidth 128⟩ nf) ↔ value < 4096 := by
  obtain ⟨t, head, isVlan⟩ := tagged_head tagged
  rw [VlanMirror, head, vlanFields, if_pos isVlan, Prod.mk.injEq] at mirror
  rw [setId_eq tagged, VlanMirror, head_setTop, head, Option.map_some,
    vlanFields_setVlanTag isVlan, maskedWrite_inside, maskedWrite_beside _ _ pcp_disjoint_vid,
    Prod.mk.injEq, ← and_vid_eq_iff]
  exact and_iff_left mirror.2

theorem setPcp_vlanMirror_iff (mirror : VlanMirror nf) (tagged : netflowIsVlanTagged nf = true)
    (value : BitVec 8) :
    VlanMirror (setField ⟨.vlanPcp, value.setWidth 128⟩ nf) ↔ value < 8 := by
  obtain ⟨t, head, isVlan⟩ := tagged_head tagged
  rw [VlanMirror, head, vlanFields, if_pos isVlan, Prod.mk.injEq] at mirror
  rw [setPcp_eq tagged, VlanMirror, head_setTop, head, Option.map_some,
    vlanFields_setVlanTag isVlan, maskedWrite_inside, maskedWrite_beside _ _ vid_disjoint_pcp,
    Prod.mk.injEq, ← pcp_field_eq_iff]
  exact and_iff_right mirror.1

/-- Which operations keep the copy of the VLAN fields. -/
theorem vlanCall_mirror_iff (mirror : VlanMirror nf) (call : VlanCall) :
    VlanMirror (call.apply nf) ↔ (netflowIsVlanTagged nf = true → call.InRange) := by
  by_cases tagged : netflowIsVlanTagged nf = true
  · rw [forall_prop_of_true tagged]
    cases call with
    | push ethType => exact iff_of_true (push_vlanMirror mirror ethType) trivial
    | pop => exact iff_of_true (pop_vlanMirror mirror) trivial
    | setId value => exact setId_vlanMirror_iff mirror tagged value
    | setPcp value => exact setPcp_vlanMirror_iff mirror tagged value
  · refine iff_of_true ?_ fun isTagged => absurd isTagged tagged
    cases call with
    | push ethType => exact push_vlanMirror mirror ethType
    | pop => exact pop_vlanMirror mirror
    | setId value =>
      have ignored : setField ⟨.vlanId, value.setWidth 128⟩ nf = nf := if_neg tagged
      rwa [VlanCall.apply, ignored]
    | setPcp value =>
      have ignored : setField ⟨.vlanPcp, value.setWidth 128⟩ nf = nf := if_neg tagged
      rwa [VlanCall.apply, ignored]

/-- Along any operations on a new netflow, the match has the id and the priority of the
outermost VLAN tag if and only if every value that is set fits into its field. -/
theorem vlan_mirror_iff (calls : List VlanCall) :
    Along vlanStep (fun nf call => VlanMirror (call.apply nf)) netflowNew calls ↔
      Along vlanStep (fun nf call => netflowIsVlanTagged nf = true → call.InRange)
        netflowNew calls := by
  have start : VlanMirror netflowNew := rfl
  have agree := @along_keeps_iff _ _ vlanStep
    (fun nf call => netflowIsVlanTagged nf = true → call.InRange) VlanMirror (fun _ => True)
    (fun _ => True) (fun _ _ _ => trivial)
    (fun _ _ mirror step => by
      cases step
      exact vlanCall_mirror_iff mirror _)
    netflowNew calls trivial start (fun _ _ => trivial)
  simpa only [vlanStep, Option.some.injEq, forall_eq', Option.isSome_some, forall_const] using agree

/-- An id of 13 bits is cut down in the tag, but not in the match. -/
theorem vlan_mirror_breaks :
    ¬VlanMirror (VlanCall.apply (VlanCall.apply netflowNew (.push ethTypeVlan)) (.setId 4096)) := by
  decide +kernel

/-! ## MPLS -/

/-- The operations on MPLS tags. -/
inductive MplsCall
  | push (ethType : BitVec 16)
  | pop (ethType : BitVec 16)
  | setLabel (value : BitVec 20)
  | setTc (value : BitVec 3)
  | setBos (value : BitVec 1)

/-- The netflow after an operation. -/
def MplsCall.apply (nf : Netflow) : MplsCall → Netflow
  | .push ethType => netflowPushMpls nf ethType
  | .pop ethType => netflowPopMpls nf ethType
  | .setLabel value => setField ⟨.mplsLabel, value.setWidth 128⟩ nf
  | .setTc value => setField ⟨.mplsTc, value.setWidth 128⟩ nf
  | .setBos value => setField ⟨.mplsBos, value.setWidth 128⟩ nf

/-- An operation as a step. -/
def mplsStep : Step Netflow MplsCall := fun nf call => some (call.apply nf)

/-- Label, traffic class and bottom-of-stack bit of a tag. -/
def mplsFields (word : BitVec 32) : BitVec 32 × BitVec 8 × BitVec 8 :=
  ((word &&& mplsLabelMask) >>> 12, ((word &&& mplsTcMask) >>> 9).setWidth 8,
    ((word &&& mplsSMask) >>> 8).setWidth 8)

/-- Label, traffic class and bottom-of-stack bit in the match. -/
def matchFields (key : OflFlowKey) : BitVec 32 × BitVec 8 × BitVec 8 :=
  (key.mplsLabel, key.mplsTc, key.mplsBos)

/-- The match has the fields of the outermost tag, if that is an MPLS tag. -/
def MplsMirror (nf : Netflow) : Prop :=
  ∀ t ∈ nf.tags.levels.head?, t.isMpls = true → matchFields nf.key = mplsFields t.word

/-- The bits of the outermost tag that an operation may change. -/
def MplsCall.mask : MplsCall → BitVec 32
  | .push _ => BitVec.allOnes 32
  | .pop _ => BitVec.allOnes 32
  | .setLabel _ => mplsLabelMask
  | .setTc _ => mplsTcMask
  | .setBos _ => mplsSMask

/-- An operation changes the outermost tag in its own field only. -/
def OwnFieldOnly (nf : Netflow) (call : MplsCall) (after : Netflow) : Prop :=
  ∀ t ∈ nf.tags.levels.head?, ∀ t' ∈ after.tags.levels.head?,
    t'.word &&& ~~~call.mask = t.word &&& ~~~call.mask

/-- Without an MPLS tag the fields of the match are zero. -/
def MplsCleared (nf : Netflow) : Prop :=
  netflowIsOuterMpls nf = false → matchFields nf.key = (0, 0, 0)

/-- When an operation keeps the copy of the MPLS fields. -/
def MplsCall.Keeps (nf : Netflow) : MplsCall → Prop
  | .push _ => True
  | .pop _ =>
    ∀ t ∈ nf.tags.levels.tail.head?, t.isMpls = true → mplsFields t.word = (0, 0, 0)
  | .setLabel _ => True
  | .setTc value =>
    netflowIsOuterMpls nf = true →
      OnlyWritten nf (((value.setWidth 8).setWidth 32 <<< 9) &&& mplsTcMask)
  | .setBos value =>
    netflowIsOuterMpls nf = true →
      OnlyWritten nf (((value.setWidth 8).setWidth 32 <<< 8) &&& mplsSMask)

theorem mplsLabelMask_eq : mplsLabelMask = fieldMask 32 12 20 := by decide

theorem mplsTcMask_eq : mplsTcMask = fieldMask 32 9 3 := by decide

theorem mplsSMask_eq : mplsSMask = fieldMask 32 8 1 := by decide

/-- A new tag above an MPLS tag has its fields but for the bottom-of-stack bit. -/
theorem mplsFields_pushed (word : BitVec 32) :
    mplsFields (word &&& ~~~mplsSMask) =
      ((mplsFields word).1, (mplsFields word).2.1, 0) := by
  have cleared : word &&& ~~~mplsSMask = maskedWrite word 0 mplsSMask := by
    simp [maskedWrite]
  rw [cleared, mplsFields, maskedWrite_inside, maskedWrite_beside _ _ (by decide),
    maskedWrite_beside _ _ (by decide)]
  simp only [mplsFields, Prod.mk.injEq, true_and]
  decide

theorem outer_head (outer : netflowIsOuterMpls nf = true) :
    ∃ t, nf.tags.levels.head? = some t ∧ t.isMpls = true :=
  (Option.any_eq_true_iff_get _ _).mp outer |> fun ⟨isSome, isMpls⟩ =>
    ⟨_, (Option.some_get isSome).symm, isMpls⟩

/-- What a push leaves in the new tag and in the match. -/
theorem pushedMpls_mirror (cleared : MplsCleared nf) (mirror : MplsMirror nf) :
    (nf.key.mplsLabel, nf.key.mplsTc,
        (pushedMpls nf.key.mplsBos nf.tags.levels.head?).2) =
      mplsFields (pushedMpls nf.key.mplsBos nf.tags.levels.head?).1 := by
  cases head : nf.tags.levels.head? with
  | none =>
    have zero := cleared (by rw [netflowIsOuterMpls, head]; rfl)
    simp only [matchFields, Prod.mk.injEq] at zero
    simp only [zero, pushedMpls]
    decide
  | some prev =>
    by_cases isMpls : prev.isMpls = true
    · have same := mirror prev head isMpls
      simp only [matchFields, Prod.ext_iff] at same
      simp only [pushedMpls, isMpls, if_true, mplsFields_pushed, same]
    · have zero := cleared (by
        rw [netflowIsOuterMpls, head, Option.any_some]
        exact Bool.eq_false_of_not_eq_true isMpls)
      simp only [matchFields, Prod.mk.injEq] at zero
      simp only [pushedMpls, isMpls, Bool.false_eq_true, if_false, zero]
      decide

theorem push_mplsMirror (cleared : MplsCleared nf) (mirror : MplsMirror nf) (ethType : BitVec 16) :
    MplsMirror (netflowPushMpls nf ethType) := by
  rw [netflowPushMpls]
  split
  · split
    · rintro t ⟨⟩ -
      exact pushedMpls_mirror cleared mirror
    · exact mirror
  · exact mirror

theorem pop_of_empty (empty : nf.tags.levels = []) (ethType : BitVec 16) :
    netflowPopMpls nf ethType = nf := by
  simp only [netflowPopMpls, empty]

/-- After a pop all fields of the match are zero. -/
theorem pop_matchFields {first : Tag} {rest : List Tag}
    (isLevels : nf.tags.levels = first :: rest) (ethType : BitVec 16) :
    matchFields (netflowPopMpls nf ethType).key = (0, 0, 0) ∧
      (netflowPopMpls nf ethType).tags.levels = rest := by
  have popped : nf.tags.pop.levels = rest := congrArg List.tail isLevels
  have blank : mplsFields Tag.blank.word = (0, 0, 0) := by decide
  simp only [netflowPopMpls, isLevels]
  split
  · exact ⟨blank, popped⟩
  · exact ⟨rfl, popped⟩

theorem pop_mplsMirror_iff (mirror : MplsMirror nf) (ethType : BitVec 16) :
    MplsMirror (netflowPopMpls nf ethType) ↔ (MplsCall.pop ethType).Keeps nf := by
  cases isLevels : nf.tags.levels with
  | nil =>
    rw [pop_of_empty isLevels, MplsCall.Keeps, isLevels]
    exact iff_of_true mirror (by rintro t ⟨⟩)
  | cons first rest =>
    obtain ⟨zero, levels⟩ := pop_matchFields isLevels ethType
    rw [MplsMirror, MplsCall.Keeps, zero, levels, isLevels, List.tail_cons]
    exact forall₃_congr fun _ _ _ => eq_comm

/-- A netflow with another match and another word in its outermost tag. -/
def rewritten (nf : Netflow) (key : OflFlowKey) (change : BitVec 32 → BitVec 32) : Netflow :=
  { nf with key := key, tags := nf.tags.setTop fun t => { t with word := change t.word } }

theorem setLabel_eq (outer : netflowIsOuterMpls nf = true) (value : BitVec 20) :
    setField ⟨.mplsLabel, value.setWidth 128⟩ nf =
      rewritten nf { nf.key with mplsLabel := value.setWidth 32 } fun word =>
        maskedWrite word (value.setWidth 32 <<< 12) mplsLabelMask := by
  have carried : (value.setWidth 128).setWidth 32 = value.setWidth 32 := by simp
  simp only [setField, outer, if_true, SetField.u32Field, carried]
  rfl

theorem setTc_eq (outer : netflowIsOuterMpls nf = true) (value : BitVec 3) :
    setField ⟨.mplsTc, value.setWidth 128⟩ nf =
      rewritten nf { nf.key with mplsTc := value.setWidth 8 } fun word =>
        (word &&& mplsTcMask) ||| (((value.setWidth 8).setWidth 32 <<< 9) &&& mplsTcMask) := by
  have carried : (value.setWidth 128).setWidth 8 = value.setWidth 8 := by simp
  simp only [setField, outer, if_true, SetField.u8Field, carried]
  rfl

theorem setBos_eq (outer : netflowIsOuterMpls nf = true) (value : BitVec 1) :
    setField ⟨.mplsBos, value.setWidth 128⟩ nf =
      rewritten nf { nf.key with mplsBos := value.setWidth 8 } fun word =>
        (word &&& mplsSMask) ||| (((value.setWidth 8).setWidth 32 <<< 8) &&& mplsSMask) := by
  have carried : (value.setWidth 128).setWidth 8 = value.setWidth 8 := by simp
  simp only [setField, outer, if_true, SetField.u8Field, carried]
  rfl

/-- What an operation should do. -/
abbrev MplsHolds (nf : Netflow) (call : MplsCall) (after : Netflow) : Prop :=
  MplsMirror after ∧ OwnFieldOnly nf call after

/-- The copy after the word of the outermost tag was replaced. -/
theorem rewritten_holds_iff (call : MplsCall) (head : nf.tags.levels.head? = some t)
    (isMpls : t.isMpls = true) :
    MplsHolds nf call (rewritten nf key change) ↔
      change t.word &&& ~~~call.mask = t.word &&& ~~~call.mask ∧
        matchFields key = mplsFields (change t.word) := by
  have after : (rewritten nf key change).tags.levels.head? =
      some { t with word := change t.word } := by
    rw [rewritten, head_setTop, head]
    rfl
  have stillMpls : ({ t with word := change t.word } : Tag).isMpls = true := isMpls
  simp only [MplsHolds, MplsMirror, OwnFieldOnly, after, head, Option.mem_def, Option.some.injEq,
    forall_eq']
  rw [and_comm]
  exact and_congr_right fun _ => forall_prop_of_true stillMpls

/-- A field that is written with the wrong mask: the old bits inside the mask are kept in
place of those outside. -/
theorem flippedField_holds_iff {low count : Nat} {value : BitVec 8} (call : MplsCall)
    (head : nf.tags.levels.head? = some t) (isMpls : t.isMpls = true)
    (isMask : call.mask = fieldMask 32 low count) (narrow : count ≤ 8)
    (holds : (((value.setWidth 32 <<< low) &&& call.mask) >>> low).setWidth 8 = value)
    (copies : ∀ word, word &&& ~~~call.mask = t.word &&& ~~~call.mask →
      (matchFields key = mplsFields word ↔
        value = ((word &&& call.mask) >>> low).setWidth 8)) :
    MplsHolds nf call (rewritten nf key fun word =>
        (word &&& call.mask) ||| ((value.setWidth 32 <<< low) &&& call.mask)) ↔
      OnlyWritten nf ((value.setWidth 32 <<< low) &&& call.mask) := by
  have written : OnlyWritten nf ((value.setWidth 32 <<< low) &&& call.mask) ↔
      t.word &&& ~~~((value.setWidth 32 <<< low) &&& call.mask) = 0 := by
    simp only [OnlyWritten, head, Option.mem_def, Option.some.injEq, forall_eq']
  rw [written, ← keptInside_eq_maskedWrite_iff, rewritten_holds_iff call head isMpls]
  rw [isMask] at holds copies ⊢
  rw [eq_fieldWrite_iff narrow _ _ holds]
  exact and_congr_right fun outside => copies _ outside

section Set

variable (mirror : MplsMirror nf) (outer : netflowIsOuterMpls nf = true)

include mirror outer

theorem setLabel_holds (value : BitVec 20) :
    MplsHolds nf (.setLabel value) (MplsCall.apply nf (.setLabel value)) := by
  obtain ⟨t, head, isMpls⟩ := outer_head outer
  have same := mirror t head isMpls
  have read : (((value.setWidth 32 <<< 12) &&& mplsLabelMask) >>> 12) = value.setWidth 32 := by
    have field := @field_of_shift 32 12 20 32 value (by decide)
    rwa [← mplsLabelMask_eq, BitVec.setWidth_eq] at field
  rw [MplsCall.apply, setLabel_eq outer, rewritten_holds_iff _ head isMpls]
  have own : ~~~mplsLabelMask &&& mplsLabelMask = 0 := by decide
  refine ⟨maskedWrite_beside _ _ own, ?_⟩
  rw [mplsFields, maskedWrite_inside, maskedWrite_beside _ _ (by decide),
    maskedWrite_beside _ _ (by decide), read]
  simp only [matchFields, mplsFields, Prod.mk.injEq] at same ⊢
  exact ⟨trivial, same.2⟩

theorem setTc_holds_iff (value : BitVec 3) :
    MplsHolds nf (.setTc value) (MplsCall.apply nf (.setTc value)) ↔
      OnlyWritten nf (((value.setWidth 8).setWidth 32 <<< 9) &&& mplsTcMask) := by
  obtain ⟨t, head, isMpls⟩ := outer_head outer
  have same := mirror t head isMpls
  have read : ∀ v : BitVec 3,
      ((((v.setWidth 8).setWidth 32 <<< 9) &&& mplsTcMask) >>> 9).setWidth 8 =
        v.setWidth 8 := by decide
  rw [MplsCall.apply, setTc_eq outer]
  refine flippedField_holds_iff (.setTc value) head isMpls mplsTcMask_eq (by decide) (read value)
    fun word outside => ?_
  have label := and_eq_of_outside outside (show mplsLabelMask &&& mplsTcMask = 0 by decide)
  have bos := and_eq_of_outside outside (show mplsSMask &&& mplsTcMask = 0 by decide)
  simp only [matchFields, mplsFields, Prod.mk.injEq] at same
  simp only [matchFields, mplsFields, Prod.mk.injEq, label, bos, same, true_and, and_true]
  rfl

theorem setBos_holds_iff (value : BitVec 1) :
    MplsHolds nf (.setBos value) (MplsCall.apply nf (.setBos value)) ↔
      OnlyWritten nf (((value.setWidth 8).setWidth 32 <<< 8) &&& mplsSMask) := by
  obtain ⟨t, head, isMpls⟩ := outer_head outer
  have same := mirror t head isMpls
  have read : ∀ v : BitVec 1,
      ((((v.setWidth 8).setWidth 32 <<< 8) &&& mplsSMask) >>> 8).setWidth 8 =
        v.setWidth 8 := by decide
  rw [MplsCall.apply, setBos_eq outer]
  refine flippedField_holds_iff (.setBos value) head isMpls mplsSMask_eq (by decide) (read value)
    fun word outside => ?_
  have label := and_eq_of_outside outside (show mplsLabelMask &&& mplsSMask = 0 by decide)
  have tc := and_eq_of_outside outside (show mplsTcMask &&& mplsSMask = 0 by decide)
  simp only [matchFields, mplsFields, Prod.mk.injEq] at same
  simp only [matchFields, mplsFields, Prod.mk.injEq, label, tc, same, true_and]
  rfl

end Set

variable {call : MplsCall}

theorem ownFieldOnly_of_all {after : Netflow} (all : call.mask = BitVec.allOnes 32) :
    OwnFieldOnly nf call after := by
  intro t _ t' _
  simp [all]

/-- A set-field action without an MPLS tag is ignored. -/
theorem holds_of_ignored (mirror : MplsMirror nf) (ignored : call.apply nf = nf) :
    MplsHolds nf call (call.apply nf) := by
  rw [ignored]
  refine ⟨mirror, fun t head t' head' => ?_⟩
  rw [Option.mem_unique head' head]

/-- A set-field action is judged by what it does to an MPLS tag. -/
theorem holds_iff_of_outer {asked : Prop} (mirror : MplsMirror nf)
    (ignored : ¬netflowIsOuterMpls nf = true → call.apply nf = nf)
    (onTag : netflowIsOuterMpls nf = true → (MplsHolds nf call (call.apply nf) ↔ asked)) :
    MplsHolds nf call (call.apply nf) ↔
      (netflowIsOuterMpls nf = true → asked) := by
  by_cases outer : netflowIsOuterMpls nf = true
  · rw [forall_prop_of_true outer]
    exact onTag outer
  · exact iff_of_true (holds_of_ignored mirror (ignored outer)) fun isOuter => absurd isOuter outer

/-- Which operations keep the copy of the MPLS fields and leave the other fields alone. -/
theorem mplsCall_holds_iff (cleared : MplsCleared nf) (mirror : MplsMirror nf) (call : MplsCall) :
    MplsHolds nf call (call.apply nf) ↔ call.Keeps nf := by
  cases call with
  | push ethType =>
    exact iff_of_true ⟨push_mplsMirror cleared mirror ethType, ownFieldOnly_of_all rfl⟩ trivial
  | pop ethType =>
    rw [MplsHolds, and_iff_left (ownFieldOnly_of_all rfl)]
    exact pop_mplsMirror_iff mirror ethType
  | setLabel value =>
    refine iff_of_true ?_ trivial
    by_cases outer : netflowIsOuterMpls nf = true
    · exact setLabel_holds mirror outer value
    · exact holds_of_ignored mirror (if_neg outer)
  | setTc value =>
    exact holds_iff_of_outer mirror (fun inner => if_neg inner) fun outer =>
      setTc_holds_iff mirror outer value
  | setBos value =>
    exact holds_iff_of_outer mirror (fun inner => if_neg inner) fun outer =>
      setBos_holds_iff mirror outer value

/-- A set-field action leaves an MPLS tag where there was one. -/
theorem cleared_of_set (cleared : MplsCleared nf)
    (ignored : ¬netflowIsOuterMpls nf = true → call.apply nf = nf)
    (written : netflowIsOuterMpls nf = true → call.apply nf = rewritten nf key change) :
    MplsCleared (call.apply nf) := by
  by_cases outer : netflowIsOuterMpls nf = true
  · obtain ⟨t, head, isMpls⟩ := outer_head outer
    have stillOuter : netflowIsOuterMpls (rewritten nf key change) = true := by
      rw [netflowIsOuterMpls, rewritten, head_setTop, head]
      exact isMpls
    rw [written outer]
    intro notOuter
    exact absurd (stillOuter.symm.trans notOuter) (by decide)
  · rwa [ignored outer]

theorem mplsCall_cleared (cleared : MplsCleared nf) (call : MplsCall) :
    MplsCleared (call.apply nf) := by
  cases call with
  | push ethType =>
    rw [MplsCall.apply, netflowPushMpls]
    split
    · split
      · rename_i room valid
        intro notOuter
        have outer : Tag.isMpls ⟨ethType, (pushedMpls nf.key.mplsBos nf.tags.levels.head?).1⟩ =
            true := valid
        exact absurd (outer.symm.trans notOuter) (by decide)
      · exact cleared
    · exact cleared
  | pop ethType =>
    cases isLevels : nf.tags.levels with
    | nil => rwa [MplsCall.apply, pop_of_empty isLevels]
    | cons first rest => exact fun _ => (pop_matchFields isLevels ethType).1
  | setLabel value =>
    exact cleared_of_set cleared (fun inner => if_neg inner) fun outer => setLabel_eq outer value
  | setTc value =>
    exact cleared_of_set cleared (fun inner => if_neg inner) fun outer => setTc_eq outer value
  | setBos value =>
    exact cleared_of_set cleared (fun inner => if_neg inner) fun outer => setBos_eq outer value

/-- Along any operations on a new netflow, the match has the fields of the outermost MPLS
tag and a set-field action changes no other field of it, if and only if a pop exposes no MPLS
tag but an all-zero one, and the traffic class and the bottom-of-stack bit are set only in
tags that have no bits but those that are written. -/
theorem mpls_mirror_iff (calls : List MplsCall) :
    Along mplsStep
        (fun nf call => MplsMirror (call.apply nf) ∧ OwnFieldOnly nf call (call.apply nf))
        netflowNew calls ↔
      Along mplsStep (fun nf call => call.Keeps nf) netflowNew calls := by
  have startBase : MplsCleared netflowNew := fun _ => rfl
  have start : MplsMirror netflowNew := by
    rintro t ⟨⟩ isMpls
    exact absurd isMpls (by decide)
  have agree := @along_holds_iff _ _ mplsStep (fun nf call => call.Keeps nf) MplsMirror
    (fun _ => True) MplsCleared MplsHolds
    (fun _ cleared step => by
      cases step
      exact mplsCall_cleared cleared _)
    (fun _ _ holds => holds.1)
    (fun _ cleared mirror step => by
      cases step
      exact mplsCall_holds_iff cleared mirror _)
    netflowNew calls startBase start (fun _ _ => trivial)
  simpa only [mplsStep, Option.some.injEq, forall_eq', Option.isSome_some, forall_const] using agree

/-- A pop that exposes a label leaves zeros in the match, and setting the traffic class
erases the label. -/
theorem mpls_mirror_breaks :
    (∃ nf, run mplsStep netflowNew [.push ethTypeMpls, .setLabel 1, .push ethTypeMpls] = some nf ∧
        ¬MplsMirror (MplsCall.apply nf (.pop ethTypeMpls))) ∧
      ∃ nf, run mplsStep netflowNew [.push ethTypeMpls, .setLabel 1] = some nf ∧
        ¬OwnFieldOnly nf (.setTc 1) (MplsCall.apply nf (.setTc 1)) := by
  refine ⟨⟨_, rfl, fun mirror => ?_⟩, ⟨_, rfl, fun own => ?_⟩⟩
  · have same := mirror ⟨ethTypeMpls, 0x1000⟩ rfl rfl
    have zero : (0 : BitVec 32) = 1 := congrArg Prod.fst same
    exact absurd zero (by decide)
  · have same : (0x200 : BitVec 32) &&& ~~~mplsTcMask = 0x1000 &&& ~~~mplsTcMask :=
      own ⟨ethTypeMpls, 0x1000⟩ rfl ⟨ethTypeMpls, 0x200⟩ rfl
    exact absurd same (by decide)

/-! ## The bottom-of-stack bit -/

/-- The operations that change how many labels there are. -/
inductive LabelCall
  | push (ethType : BitVec 16)
  | pop (ethType : BitVec 16)

/-- The netflow after an operation. -/
def LabelCall.apply (nf : Netflow) : LabelCall → Netflow
  | .push ethType => netflowPushMpls nf ethType
  | .pop ethType => netflowPopMpls nf ethType

/-- The S bit of a label. -/
def carriesS (t : Tag) : Bool := t.word &&& mplsSMask != 0

/-- Among the MPLS tags the lowest one has the S bit and the others do not. -/
def OnlyLowestHasS (levels : List Tag) : Prop :=
  ∀ above lowest, levels.filter Tag.isMpls = above ++ [lowest] →
    carriesS lowest = true ∧ ∀ t ∈ above, carriesS t = false

/-- At some point of the sequence there is no tag left. -/
def Emptied (nf : Netflow) (calls : List LabelCall) : Prop :=
  ∃ first, first <+: calls ∧ (first.foldl LabelCall.apply nf).tags.levels = []

theorem emptied_cons {call : LabelCall} {rest : List LabelCall} :
    Emptied nf (call :: rest) ↔ nf.tags.levels = [] ∨ Emptied (call.apply nf) rest := by
  constructor
  · rintro ⟨first, isPrefix, empty⟩
    rcases List.prefix_cons_iff.mp isPrefix with rfl | ⟨first, rfl, below⟩
    · exact .inl empty
    · exact .inr ⟨first, below, empty⟩
  · rintro (empty | ⟨first, isPrefix, empty⟩)
    · exact ⟨[], List.nil_prefix, empty⟩
    · exact ⟨call :: first, List.prefix_cons_iff.mpr (.inr ⟨first, rfl, isPrefix⟩), empty⟩

/-- A pushed label has the S bit only on a stack without any tag. -/
theorem carriesS_pushed (ethType : BitVec 16) (bos : BitVec 8) (levels : List Tag) :
    carriesS ⟨ethType, (pushedMpls bos levels.head?).1⟩ = levels.isEmpty := by
  cases levels with
  | nil =>
    change (mplsSMask &&& mplsSMask != 0) = true
    decide
  | cons prev below =>
    have nothing : ~~~mplsSMask &&& mplsSMask = 0 := by decide
    have erased : prev.word &&& ~~~mplsSMask &&& mplsSMask = 0 := by
      rw [BitVec.and_assoc, nothing]
      exact BitVec.and_zero
    simp only [List.head?_cons, pushedMpls, List.isEmpty_cons, carriesS]
    split
    · simp only [erased, bne_self_eq_false]
    · simp only [BitVec.ofNat_eq_ofNat, BitVec.zero_and, bne_self_eq_false]

/-- What an operation does to the stack. -/
theorem labelCall_levels (nf : Netflow) (call : LabelCall) :
    (call.apply nf).tags.levels = nf.tags.levels ∨
      (call.apply nf).tags.levels = nf.tags.levels.tail ∨
        ∃ t : Tag, t.isMpls = true ∧ carriesS t = nf.tags.levels.isEmpty ∧
          (call.apply nf).tags.levels = t :: nf.tags.levels := by
  cases call with
  | push ethType =>
    rw [LabelCall.apply, netflowPushMpls]
    split
    · split
      · rename_i room valid
        exact .inr (.inr ⟨⟨ethType, _⟩, valid, carriesS_pushed ethType _ _, rfl⟩)
      · exact .inl rfl
    · exact .inl rfl
  | pop ethType =>
    cases isLevels : nf.tags.levels with
    | nil =>
      rw [LabelCall.apply, pop_of_empty isLevels]
      exact .inl isLevels
    | cons first rest => exact .inr (.inl (pop_matchFields isLevels ethType).2)

/-- A stack of labels, of which the lowest alone has the S bit. -/
def Marked : List Tag → Prop
  | [] => True
  | t :: below => t.isMpls = true ∧ carriesS t = below.isEmpty ∧ Marked below

theorem Marked.tail (marked : Marked levels) : Marked levels.tail := by
  cases levels with
  | nil => trivial
  | cons t below => exact marked.2.2

theorem Marked.isMpls (marked : Marked levels) :
    ∀ t ∈ levels, t.isMpls = true := by
  induction levels with
  | nil => exact List.forall_mem_nil _
  | cons t below ih => exact List.forall_mem_cons.mpr ⟨marked.1, ih marked.2.2⟩

theorem Marked.concat {above : List Tag} {lowest : Tag} (marked : Marked (above ++ [lowest])) :
    carriesS lowest = true ∧ ∀ t ∈ above, carriesS t = false := by
  induction above with
  | nil => exact ⟨marked.2.1, List.forall_mem_nil _⟩
  | cons t above ih =>
    obtain ⟨_, cleared, marked⟩ := marked
    obtain ⟨set, others⟩ := ih marked
    refine ⟨set, List.forall_mem_cons.mpr ⟨cleared.trans ?_, others⟩⟩
    simp

theorem Marked.onlyLowestHasS (marked : Marked levels) :
    OnlyLowestHasS levels := by
  intro above lowest isLabels
  rw [List.filter_eq_self.mpr marked.isMpls] at isLabels
  rw [isLabels] at marked
  exact marked.concat

theorem labelCall_marked (marked : Marked nf.tags.levels) (call : LabelCall) :
    Marked (call.apply nf).tags.levels := by
  rcases labelCall_levels nf call with same | popped | ⟨t, isMpls, lowest, pushed⟩
  · rwa [same]
  · rw [popped]
    exact marked.tail
  · rw [pushed]
    exact ⟨isMpls, lowest, marked⟩

theorem labelCalls_marked (marked : Marked nf.tags.levels) (calls : List LabelCall) :
    Marked (calls.foldl LabelCall.apply nf).tags.levels := by
  induction calls generalizing nf with
  | nil => exact marked
  | cons call rest ih => exact ih (labelCall_marked marked call)

/-- A stack of labels without the S bit, on the blank tag of a new netflow. -/
def Unmarked (levels : List Tag) : Prop :=
  ∃ labels, levels = labels ++ [Tag.blank] ∧
    ∀ t ∈ labels, t.isMpls = true ∧ carriesS t = false

theorem Unmarked.onlyLowestHasS_iff (unmarked : Unmarked levels) :
    OnlyLowestHasS levels ↔ ∀ t ∈ levels, t.isMpls = false := by
  obtain ⟨labels, rfl, cleared⟩ := unmarked
  have isLabels : (labels ++ [Tag.blank]).filter Tag.isMpls = labels := by
    rw [List.filter_append, List.filter_eq_self.mpr fun t inside => (cleared t inside).1]
    exact List.append_nil labels
  rw [OnlyLowestHasS, isLabels]
  cases labels using List.reverseRecOn with
  | nil =>
    refine iff_of_true (fun above lowest isNil => ?_) (by decide)
    exact absurd isNil (List.append_ne_nil_of_right_ne_nil _ (List.cons_ne_nil _ _)).symm
  | append_singleton above lowest =>
    have inside : lowest ∈ above ++ [lowest] := List.mem_append_right _ (List.mem_singleton_self _)
    obtain ⟨isMpls, noS⟩ := cleared lowest inside
    refine iff_of_false (fun onlyLowest => ?_) fun noLabel => ?_
    · exact Bool.false_ne_true (noS.symm.trans (onlyLowest above lowest rfl).1)
    · exact Bool.false_ne_true ((noLabel lowest (List.mem_append_left _ inside)).symm.trans isMpls)

theorem labelCall_unmarked (unmarked : Unmarked nf.tags.levels) (call : LabelCall) :
    Unmarked (call.apply nf).tags.levels ∨ (call.apply nf).tags.levels = [] := by
  obtain ⟨labels, isLevels, cleared⟩ := unmarked
  rcases labelCall_levels nf call with same | popped | ⟨t, isMpls, lowest, pushed⟩
  · exact .inl ⟨labels, same.trans isLevels, cleared⟩
  · rw [popped, isLevels]
    cases labels with
    | nil => exact .inr rfl
    | cons t below => exact .inl ⟨below, rfl, (List.forall_mem_cons.mp cleared).2⟩
  · refine .inl ⟨t :: labels, by rw [pushed, isLevels, List.cons_append], ?_⟩
    have noS : carriesS t = false := by rw [lowest, isLevels]; simp
    exact List.forall_mem_cons.mpr ⟨⟨isMpls, noS⟩, cleared⟩

/-- Until the blank tag is popped no label has the S bit, and after that the lowest one. -/
theorem labelCalls_unmarked (unmarked : Unmarked nf.tags.levels) (calls : List LabelCall) :
    Unmarked (calls.foldl LabelCall.apply nf).tags.levels ∧ ¬Emptied nf calls ∨
      Marked (calls.foldl LabelCall.apply nf).tags.levels ∧ Emptied nf calls := by
  have nonempty : nf.tags.levels ≠ [] := by
    obtain ⟨labels, isLevels, _⟩ := unmarked
    rw [isLevels]
    exact List.append_ne_nil_of_right_ne_nil _ (List.cons_ne_nil _ _)
  induction calls generalizing nf with
  | nil =>
    refine .inl ⟨unmarked, ?_⟩
    rintro ⟨first, isPrefix, empty⟩
    cases List.prefix_nil.mp isPrefix
    exact nonempty empty
  | cons call rest ih =>
    rw [List.foldl_cons, emptied_cons, or_iff_right nonempty]
    rcases labelCall_unmarked unmarked call with still | empty
    · refine ih still ?_
      obtain ⟨labels, isLevels, _⟩ := still
      rw [isLevels]
      exact List.append_ne_nil_of_right_ne_nil _ (List.cons_ne_nil _ _)
    · refine .inr ⟨labelCalls_marked ?_ rest, [], List.nil_prefix, empty⟩
      rw [empty]
      trivial

/-- After any pushes and pops on a new netflow, the lowest label alone has the S bit if and
only if there is no label, or the blank tag of the new netflow was popped on the way. -/
theorem lowest_label_has_s_iff (calls : List LabelCall) :
    OnlyLowestHasS (calls.foldl LabelCall.apply netflowNew).tags.levels ↔
      (∀ t ∈ (calls.foldl LabelCall.apply netflowNew).tags.levels, t.isMpls = false) ∨
        Emptied netflowNew calls := by
  have start : Unmarked netflowNew.tags.levels := ⟨[], rfl, List.forall_mem_nil _⟩
  rcases labelCalls_unmarked start calls with ⟨unmarked, notEmptied⟩ | ⟨marked, emptied⟩
  · rw [or_iff_left notEmptied]
    exact unmarked.onlyLowestHasS_iff
  · exact iff_of_true marked.onlyLowestHasS (.inr emptied)

/-- The first label of a new netflow does not have the S bit. -/
theorem first_label_without_s :
    ¬OnlyLowestHasS (netflowPushMpls netflowNew ethTypeMpls).tags.levels := by
  intro onlyLowest
  have set := (onlyLowest [] ⟨ethTypeMpls, 0⟩ rfl).1
  exact absurd set (by decide)

end Horse.Net
