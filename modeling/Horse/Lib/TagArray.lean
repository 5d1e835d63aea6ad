import Horse.Container.SlotArray
import Horse.Lib.PacketReader

/-!
# The array behind the tag stack

`struct tag_stack` is an array of eight tags and the index `top`.  The functions that
push, pop and read tags are repeated here on that array, with every access that they make
to it, undefined outside.  `TagStack` refines the array: it stands for the tags up to
`top`, and all slots above are blank.

The functions that push and pop have tests of `top` that keep it inside.  Those of the
packet reader do not, and the number of tags in a packet decides whether it stays there.
-/

namespace Horse.Lib

open Horse.Codec Horse.Container Horse.Transition

/-- `struct tag_stack`. -/
abbrev TagArray := SlotArray Tag maxStackSize

namespace TagArray

/-- The stack of a zeroed netflow. -/
def zeroed : TagArray := ⟨List.replicate maxStackSize Tag.blank, 0, rfl⟩

/-- A test of the outermost tag, which is not looked at on an empty stack. -/
def outer (test : Tag → Bool) (a : TagArray) : Option Bool :=
  if a.top = -1 then some false else (a.get? a.top).map test

/-- The tag below a new slot, which is not looked at on an empty stack. -/
def previous (a : TagArray) : Option (Option Tag) :=
  if a.top = -1 then some none else (a.get? a.top).map some

/-- Move `top` to a new slot and fill it in, by what is in it and by the tag below. -/
def newSlot (fill : Tag → Option Tag → Tag) (a : TagArray) : Option TagArray :=
  let raised := { a with top := a.top + 1 }
  (raised.get? raised.top).bind fun new =>
    (previous a).bind fun prev => raised.set? raised.top (fill new prev)

/-- A new VLAN tag.  The slot keeps its tag word above a tag of another kind. -/
def fillVlan (ethType : BitVec 16) (new : Tag) (prev : Option Tag) : Tag :=
  let new : Tag := { new with type := ethType }
  let copied :=
    match prev with
    | some prev => if prev.isVlan then new.setVlanTag prev.vlanTag else new
    | none => new.setVlanTag 0
  copied.setVlanEthertype ethType

/-- `netflow_push_vlan`. -/
def pushVlan (a : TagArray) (ethType : BitVec 16) : Option TagArray :=
  if a.top < maxStackSize - 1 ∧ vlanType ethType then newSlot (fillVlan ethType) a else some a

/-- A new MPLS tag.  The slot keeps its fields above a tag of another kind. -/
def fillMpls (ethType : BitVec 16) (new : Tag) (prev : Option Tag) : Tag :=
  let word :=
    match prev with
    | some prev => if prev.isMpls then prev.word &&& ~~~mplsSMask else new.word
    | none => mplsSMask
  ⟨ethType, word⟩

/-- `netflow_push_mpls`. -/
def pushMpls (a : TagArray) (ethType : BitVec 16) : Option TagArray :=
  if a.top < maxStackSize - 1 ∧ mplsType ethType then newSlot (fillMpls ethType) a else some a

/-- Clear the outermost tag and look at the one below. -/
def drop (test : Tag → Bool) (a : TagArray) : Option TagArray :=
  (a.set? a.top Tag.blank).bind fun a =>
    let a := { a with top := a.top - 1 }
    (outer test a).map fun _ => a

/-- `netflow_pop_vlan`. -/
def popVlan (a : TagArray) : Option TagArray :=
  (outer Tag.isVlan a).bind fun tagged =>
    if tagged then drop Tag.isVlan a else some a

/-- `netflow_pop_mpls`. -/
def popMpls (a : TagArray) : Option TagArray :=
  if 0 ≤ a.top then drop Tag.isMpls a else some a

/-- The array as the packet reader uses it. -/
def ops : StackOps TagArray where
  top a := a.top
  grow a tag :=
    let a := { a with top := a.top + 1 }
    a.set? a.top tag

/-- `pkt_to_netflow`, as far as it concerns the array.  A packet that is too short for an
Ethernet header has no tags, whatever is read behind it. -/
def decode (a : TagArray) (packet : List (BitVec 8)) : Option TagArray :=
  match (fetch ethHeader packet 0).bind fun eth =>
      parseTags ops packet packet.length eth.type a with
  | .ok p => some p.tags
  | .error .outsideBuffer => some a
  | .error .outsideStack => none

end TagArray

/-! ## Refinement -/

/-- The array of a tag stack. -/
def TagStack.toArray (tags : TagStack) : TagArray :=
  SlotArray.ofList Tag.blank tags.levels tags.bounded

section Refinement

variable {tags : TagStack}

theorem toArray_zeroed : TagStack.zeroed.toArray = TagArray.zeroed :=
  rfl

theorem toArray_get : tags.toArray.get? tags.toArray.top = tags.levels.head? :=
  @SlotArray.get?_top _ _ Tag.blank tags.levels tags.bounded

theorem toArray_top : tags.toArray.top = (tags.levels.length : Int) - 1 :=
  rfl

theorem outer_toArray (test : Tag → Bool) :
    TagArray.outer test tags.toArray = some (tags.levels.head?.any test) := by
  rw [TagArray.outer, toArray_get, toArray_top]
  cases tags.levels with
  | nil => rfl
  | cons first rest =>
    rw [if_neg (by rw [List.length_cons]; omega)]
    rfl

theorem previous_toArray : TagArray.previous tags.toArray = some tags.levels.head? := by
  rw [TagArray.previous, toArray_get, toArray_top]
  cases tags.levels with
  | nil => rfl
  | cons first rest =>
    rw [if_neg (by rw [List.length_cons]; omega)]
    rfl

theorem toArray_raised : ({ tags.toArray with top := tags.toArray.top + 1 } : TagArray) =
    { tags.toArray with top := tags.levels.length } := by
  rw [toArray_top, Int.sub_add_cancel]

/-- A new slot is blank before it is filled in. -/
theorem newSlot_toArray (fill : Tag → Option Tag → Tag)
    (room : tags.levels.length < maxStackSize) :
    TagArray.newSlot fill tags.toArray =
      some (tags.push (fill Tag.blank tags.levels.head?) room).toArray := by
  have blank : tags.toArray.get? tags.levels.length = some Tag.blank :=
    @SlotArray.get?_next _ _ Tag.blank tags.levels tags.bounded room
  have filled : ({ tags.toArray with top := tags.levels.length } : TagArray).set?
      tags.levels.length (fill Tag.blank tags.levels.head?) =
      some (tags.push (fill Tag.blank tags.levels.head?) room).toArray :=
    SlotArray.set?_next room
  rw [TagArray.newSlot, toArray_raised, previous_toArray]
  exact (congrArg (Option.bind · _) blank).trans filled

theorem toArray_room_iff :
    tags.toArray.top < (maxStackSize : Int) - 1 ↔ tags.levels.length < maxStackSize := by
  rw [toArray_top]
  omega

theorem pushVlan_refines (nf : Netflow) (ethType : BitVec 16) :
    TagArray.pushVlan nf.tags.toArray ethType = some (netflowPushVlan nf ethType).tags.toArray := by
  simp only [TagArray.pushVlan, toArray_room_iff, netflowPushVlan, vlanType]
  by_cases room : nf.tags.levels.length < maxStackSize
  · rw [dif_pos room]
    by_cases valid : (ethType == ethTypeVlan || ethType == ethTypeVlanQinQ) = true
    · rw [if_pos ⟨room, valid⟩, if_pos valid, newSlot_toArray _ room]
      rfl
    · rw [if_neg (fun both => valid both.2), if_neg valid]
  · rw [dif_neg room, if_neg (fun both => room both.1)]

theorem fillMpls_blank (ethType : BitVec 16) (bos : BitVec 8) (prev : Option Tag) :
    TagArray.fillMpls ethType Tag.blank prev = ⟨ethType, (pushedMpls bos prev).1⟩ := by
  cases prev with
  | none => rfl
  | some prev =>
    simp only [TagArray.fillMpls, pushedMpls]
    split <;> rfl

theorem pushMpls_refines (nf : Netflow) (ethType : BitVec 16) :
    TagArray.pushMpls nf.tags.toArray ethType = some (netflowPushMpls nf ethType).tags.toArray := by
  simp only [TagArray.pushMpls, toArray_room_iff, netflowPushMpls, mplsType]
  by_cases room : nf.tags.levels.length < maxStackSize
  · rw [dif_pos room]
    by_cases valid : (ethType == ethTypeMpls || ethType == ethTypeMplsMcast) = true
    · rw [if_pos ⟨room, valid⟩, if_pos valid, newSlot_toArray _ room,
        fillMpls_blank _ nf.key.mplsBos]
    · rw [if_neg (fun both => valid both.2), if_neg valid]
  · rw [dif_neg room, if_neg (fun both => room both.1)]

/-- The outermost tag is dropped. -/
theorem drop_toArray (test : Tag → Bool) (some_tag : tags.levels ≠ []) :
    TagArray.drop test tags.toArray = some tags.pop.toArray := by
  obtain ⟨levels, bounded⟩ := tags
  cases levels with
  | nil => exact absurd rfl some_tag
  | cons first rest =>
    have fewer : rest.length ≤ maxStackSize := Nat.le_of_succ_le bounded
    have top : (TagStack.toArray ⟨first :: rest, bounded⟩).top = rest.length := by
      rw [TagStack.toArray, SlotArray.ofList_top, List.length_cons]
      omega
    have cleared : (TagStack.toArray ⟨first :: rest, bounded⟩).set? rest.length Tag.blank =
        some { TagStack.toArray ⟨rest, fewer⟩ with top := rest.length } :=
      SlotArray.clear_top bounded fewer
    have below : TagArray.outer test (TagStack.toArray ⟨rest, fewer⟩) = some _ :=
      outer_toArray test
    rw [TagArray.drop, top, cleared, Option.bind_some]
    exact congrArg (Option.map fun _ => TagStack.toArray ⟨rest, fewer⟩) below

theorem popVlan_refines (nf : Netflow) :
    TagArray.popVlan nf.tags.toArray = some (netflowPopVlan nf).tags.toArray := by
  rw [TagArray.popVlan, outer_toArray, Option.bind_some]
  by_cases tagged : netflowIsVlanTagged nf
  · have popped : (netflowPopVlan nf).tags = nf.tags.pop := by
      rw [netflowPopVlan, if_pos tagged]
      dsimp only
      split
      · split <;> rfl
      · rfl
    have some_tag : nf.tags.levels ≠ [] := by
      intro empty
      rw [netflowIsVlanTagged, empty] at tagged
      exact absurd tagged (by decide)
    rw [popped]
    exact (if_pos tagged).trans (drop_toArray Tag.isVlan some_tag)
  · have ignored : netflowPopVlan nf = nf := by rw [netflowPopVlan, if_neg tagged]
    rw [ignored]
    exact if_neg tagged

theorem popMpls_refines (nf : Netflow) (ethType : BitVec 16) :
    TagArray.popMpls nf.tags.toArray = some (netflowPopMpls nf ethType).tags.toArray := by
  rw [TagArray.popMpls]
  have top : nf.tags.toArray.top = (nf.tags.levels.length : Int) - 1 := rfl
  cases isLevels : nf.tags.levels with
  | nil =>
    have ignored : netflowPopMpls nf ethType = nf := by
      simp only [netflowPopMpls, isLevels]
    rw [ignored, if_neg]
    rw [top, isLevels]
    decide
  | cons first rest =>
    have popped : (netflowPopMpls nf ethType).tags = nf.tags.pop := by
      simp only [netflowPopMpls, isLevels]
      split <;> rfl
    rw [popped, if_pos, drop_toArray Tag.isMpls (by rw [isLevels]; exact List.cons_ne_nil _ _)]
    rw [top, isLevels, List.length_cons]
    omega

end Refinement

/-! ## The reader on another stack -/

/-- The reader with its stack replaced. -/
def TagParse.map {σ τ : Type} (f : σ → τ) (p : TagParse σ) : TagParse τ :=
  ⟨p.ethType, p.outer, f p.tags, p.offset, p.done⟩

section Simulation

variable {σ τ : Type} {source : StackOps σ} {target : StackOps τ} {f : σ → τ}
  {buffer : List (BitVec 8)} {pktLen : Nat}

theorem add_map (grows : ∀ tags tag, target.grow (f tags) tag = (source.grow tags tag).map f)
    (tags : σ) (tag : Tag) : target.add (f tags) tag = (source.add tags tag).map f := by
  rw [StackOps.add, StackOps.add, grows]
  cases source.grow tags tag <;> rfl

/-- The reader does the same on a stack that simulates another one. -/
theorem parseVlans_map (tops : ∀ tags, target.top (f tags) = source.top tags)
    (grows : ∀ tags tag, target.grow (f tags) tag = (source.grow tags tag).map f)
    (turns : Nat) (p : TagParse σ) :
    parseVlans target buffer pktLen turns (p.map f) =
      (parseVlans source buffer pktLen turns p).map (TagParse.map f) := by
  induction turns generalizing p with
  | zero => rfl
  | succ turns ih =>
    simp only [parseVlans, TagParse.map, tops, add_map grows]
    split
    · split
      · rfl
      · cases fetch vlanHeader buffer p.offset with
        | error fault => rfl
        | ok vlan =>
          simp only [Except.bind]
          split
          · cases source.add p.tags vlan.slot with
            | error fault => rfl
            | ok tags =>
              exact ih ⟨vlan.ethertype, p.outer, tags, p.offset + vlanHeader.size, p.done⟩
          · rfl
    · rfl

theorem parseTags_map (tops : ∀ tags, target.top (f tags) = source.top tags)
    (grows : ∀ tags tag, target.grow (f tags) tag = (source.grow tags tag).map f)
    (ethType : BitVec 16) (tags : σ) :
    parseTags target buffer pktLen ethType (f tags) =
      (parseTags source buffer pktLen ethType tags).map (TagParse.map f) := by
  have first : parseFirstVlan target buffer pktLen
      ⟨ethType, none, f tags, ethHeader.size, false⟩ =
      (parseFirstVlan source buffer pktLen ⟨ethType, none, tags, ethHeader.size, false⟩).map
        (TagParse.map f) := by
    simp only [parseFirstVlan, add_map grows]
    split
    · split
      · rfl
      · cases fetch vlanHeader buffer ethHeader.size with
        | error fault => rfl
        | ok vlan =>
          simp only [Except.bind]
          cases source.add tags vlan.slot <;> rfl
    · rfl
  rw [parseTags, parseTags, first]
  cases parseFirstVlan source buffer pktLen ⟨ethType, none, tags, ethHeader.size, false⟩ with
  | error fault => rfl
  | ok p =>
    simp only [Except.map, Except.bind, TagParse.map]
    split
    · rfl
    · exact parseVlans_map tops grows pktLen p

end Simulation

theorem grow_toArray (tags : TagStack) (tag : Tag) :
    TagArray.ops.grow tags.toArray tag = (tagStackOps.grow tags tag).map TagStack.toArray := by
  have raised : TagArray.ops.grow tags.toArray tag =
      ({ tags.toArray with top := tags.levels.length } : TagArray).set? tags.levels.length tag := by
    simp only [TagArray.ops, toArray_top, Int.sub_add_cancel]
  rw [raised]
  by_cases room : tags.levels.length < maxStackSize
  · simp only [tagStackOps, dif_pos room, Option.map_some]
    exact SlotArray.set?_next room
  · simp only [tagStackOps, dif_neg room, Option.map_none]
    exact SlotArray.set?_full _ (Nat.le_of_not_lt room)

/-! ## Calls -/

/-- The calls that change the tags of a netflow. -/
inductive TagCall
  | pushVlan (ethType : BitVec 16)
  | pushMpls (ethType : BitVec 16)
  | popVlan
  | popMpls (ethType : BitVec 16)
  | decode (packet : List (BitVec 8))

/-- One call on the array. -/
def tagArrayStep : Step TagArray TagCall
  | a, .pushVlan ethType => a.pushVlan ethType
  | a, .pushMpls ethType => a.pushMpls ethType
  | a, .popVlan => a.popVlan
  | a, .popMpls _ => a.popMpls
  | a, .decode packet => a.decode packet

/-- The tags of a packet fit into the stack. -/
def TagsFit (a : TagArray) : TagCall → Prop
  | .decode packet => a.top + (vlanTags packet).length ≤ maxStackSize - 1
  | _ => True

/-- The stack of a netflow after a packet was read into it. -/
def tagsRead (nf : Netflow) : Except ParseFault Netflow → Option TagArray
  | .ok after => some after.tags.toArray
  | .error .outsideBuffer => some nf.tags.toArray
  | .error .outsideStack => none

/-- The reader does to the array what it does to the netflow. -/
theorem decode_refines (nf : Netflow) (packet : List (BitVec 8)) :
    TagArray.decode nf.tags.toArray packet =
      tagsRead nf (pktToNetflow packet nf packet.length) := by
  by_cases long : ethHeader.size ≤ packet.length
  · obtain ⟨eth, loaded, fetched⟩ :=
      @fetch_inside _ ethHeader packet 0 (by rwa [Nat.zero_add])
    have simulated := @parseTags_map _ _ tagStackOps TagArray.ops TagStack.toArray packet
      packet.length (fun _ => rfl) grow_toArray eth.type nf.tags
    rw [TagArray.decode, pktToNetflow, fetched]
    simp only [Except.bind, simulated]
    rcases @parseTags_cases packet eth.type nf.tags with
      ⟨fits, outer, grown, parsed⟩ | ⟨many, parsed⟩
    · obtain ⟨after, read, kept, -⟩ := parseBehindTags_ok nf eth
        (TagParse.passed ⟨eth.type, outer, nf.tags, ethHeader.size, false⟩
          (vlanChain packet packet.length eth.type ethHeader.size) grown)
        (vlanChain_inside long) rfl
      rw [parsed]
      simp only [read, tagsRead, kept.tags]
      rfl
    · rw [parsed]
      rfl
  · rw [pktToNetflow_short nf (Nat.lt_of_not_le long), TagArray.decode,
      fetch_outside (by omega)]
    rfl

/-- The array stands for a tag stack. -/
def Refined (a : TagArray) : Prop :=
  ∃ nf : Netflow, a = nf.tags.toArray

/-- A call on an array that stands for a tag stack. -/
theorem tagArrayStep_refined {a : TagArray} (refined : Refined a) (call : TagCall) :
    (∀ after, tagArrayStep a call = some after → Refined after) ∧
      ((tagArrayStep a call).isSome ↔ TagsFit a call) := by
  obtain ⟨nf, rfl⟩ := refined
  have always : ∀ {result : Option TagArray} {after : Netflow},
      result = some after.tags.toArray →
        (∀ final, result = some final → Refined final) ∧ (result.isSome ↔ True) := by
    rintro result after rfl
    refine ⟨?_, iff_of_true rfl trivial⟩
    rintro final ⟨⟩
    exact ⟨after, rfl⟩
  cases call with
  | pushVlan ethType => exact always (pushVlan_refines nf ethType)
  | pushMpls ethType => exact always (pushMpls_refines nf ethType)
  | popVlan => exact always (popVlan_refines nf)
  | popMpls ethType => exact always (popMpls_refines nf ethType)
  | decode packet =>
    have fit : TagsFit nf.tags.toArray (.decode packet) ↔
        nf.tags.levels.length + (vlanTags packet).length ≤ maxStackSize := by
      rw [TagsFit, toArray_top]
      omega
    have refines := decode_refines nf packet
    rw [fit]
    by_cases long : ethHeader.size ≤ packet.length
    · rcases pktToNetflow_cases nf long with ⟨fits, after, read, -⟩ | ⟨many, failed⟩
      · rw [read] at refines
        exact ⟨(always refines).1, iff_of_true ((always refines).2.mpr trivial) fits⟩
      · rw [failed] at refines
        refine ⟨fun final step => ?_, iff_of_false ?_ (Nat.not_le_of_lt many)⟩
        · cases refines.symm.trans step
        · rw [tagArrayStep, refines]
          exact Bool.false_ne_true
    · rw [pktToNetflow_short nf (Nat.lt_of_not_le long)] at refines
      have noTags : vlanTags packet = [] := by
        rw [vlanTags, Packed.load_eq_none_iff.mpr (by omega)]
      rw [noTags]
      exact ⟨(always refines).1, iff_of_true ((always refines).2.mpr trivial) nf.tags.bounded⟩

/-- Along any calls on a new netflow, `top` stays inside the array, and all accesses with
it, if and only if the tags of every packet that is read fit into the stack. -/
theorem top_in_range_iff (calls : List TagCall) :
    (∃ final, run tagArrayStep TagArray.zeroed calls = some final ∧
      -1 ≤ final.top ∧ final.top ≤ maxStackSize - 1) ↔
    Along tagArrayStep TagsFit TagArray.zeroed calls := by
  have start : Refined TagArray.zeroed := ⟨netflowNew, toArray_zeroed.symm⟩
  have defined := @run_isSome_iff _ _ tagArrayStep TagsFit Refined (fun _ => True)
    (fun _ refined step => (tagArrayStep_refined refined _).1 _ step)
    (fun _ refined => (tagArrayStep_refined refined _).2) TagArray.zeroed calls start
    (fun _ _ => trivial)
  rw [← defined]
  constructor
  · rintro ⟨final, ran, -⟩
    rw [ran]
    rfl
  · intro isSome
    obtain ⟨final, ran⟩ := Option.isSome_iff_exists.mp isSome
    have refined : Refined final :=
      @run_invariant _ _ tagArrayStep (fun _ _ => True) Refined
        (fun refined _ step => (tagArrayStep_refined refined _).1 _ step) _ _ _ start
        (along_true _ _ _) ran
    obtain ⟨nf, rfl⟩ := refined
    exact ⟨_, ran, SlotArray.ofList_top_bounds⟩

/-- A packet of nothing but VLAN tags behind its addresses. -/
def stackedPacket (tags : Nat) : List (BitVec 8) :=
  ethHeader.pack ⟨0, 0, ethTypeVlan⟩ ++
    (List.replicate tags (vlanHeader.pack ⟨ethTypeVlan, 0⟩)).flatten

/-- Eight tags in a packet leave the array of a new netflow. -/
theorem top_out_of_range :
    run tagArrayStep TagArray.zeroed [.decode (stackedPacket 8)] = none := by
  decide +kernel

end Horse.Lib
