import Horse.Bgp.Msg
import Horse.Codec.Raises

/-!
# The codec of the message classes

Each class of message accepts a language of byte strings, which is described here apart
from its `unpack`, and raises `ValueError` on all others.  Packing and unpacking are
inverse to each other up to padding.
-/

namespace Horse.Bgp

open Horse.Codec Horse.Transition

/-! ## Texts -/

theorem readOctet_toDigits (byte : BitVec 8) :
    readOctet (Nat.toDigits 10 byte.toNat) = some byte.toNat := by
  have small : byte.toNat < 256 := byte.isLt
  simp [readOctet, small]

/-- The four parts of an address. -/
def ipParts (addr : BitVec 32) : List (List Char) :=
  [Nat.toDigits 10 (BitVec.ofNat 8 (addr.toNat / 256 / 256 / 256)).toNat,
    Nat.toDigits 10 (BitVec.ofNat 8 (addr.toNat / 256 / 256)).toNat,
    Nat.toDigits 10 (BitVec.ofNat 8 (addr.toNat / 256)).toNat,
    Nat.toDigits 10 (BitVec.ofNat 8 addr.toNat).toNat]

theorem int2ip_eq (addr : BitVec 32) : int2ip addr = ['.'].intercalate (ipParts addr) :=
  rfl

/-- The text of an address is read back. -/
theorem ip2int_int2ip (addr : BitVec 32) : ip2int (int2ip addr) = some addr := by
  have noDot : ∀ value : Nat, '.' ∉ Nat.toDigits 10 value := notMem_toDigits rfl
  have split := @List.splitOn_intercalate Char (ipParts addr) _ _ '.' (by simp [ipParts, noDot])
    (by simp [ipParts])
  have isWord : addr.toNat < 2 ^ 32 := addr.isLt
  rw [ip2int, int2ip_eq, split, ipParts]
  simp only [List.map_cons, List.map_nil, readOctet_toDigits, Option.some.injEq]
  apply BitVec.eq_of_toNat_eq
  simp only [BitVec.toNat_ofNat]
  omega

theorem slash_notMem_int2ip (addr : BitVec 32) : '/' ∉ int2ip addr := by
  have noSlash : ∀ value : Nat, '/' ∉ Nat.toDigits 10 value := notMem_toDigits rfl
  rw [int2ip_eq]
  simp [ipParts, List.intercalate, noSlash]

/-- The texts of a route are read back. -/
theorem FibRoute.read_text (route : FibRoute) : route.text.read = some route := by
  have split := @List.splitOn_intercalate Char
    [int2ip route.dest.addr, Nat.toDigits 10 route.dest.len] _ _ '/'
    (by simp [slash_notMem_int2ip, @notMem_toDigits '/' rfl]) (by simp)
  rw [FibRouteText.read, FibRoute.text, split]
  simp only [ip2int_int2ip, readDecimal_toDigits, Option.bind_some, Option.map_some]

theorem readRoutes_text (routes : List FibRoute) :
    readRoutes (routes.map FibRoute.text) = some routes := by
  induction routes with
  | nil => rfl
  | cons route rest ih =>
    rw [List.map_cons, readRoutes, FibRoute.read_text, Option.bind_some, ih]
    rfl

/-! ## Frames -/

/-- A frame of a type and a size: the header is there, its fields have these values, the
size is in range, and the frame has the size rounded up to a multiple of eight. -/
structure FrameGrammar (type : MsgType) (size : Nat) (frame : List (BitVec 8)) : Prop where
  header : headerLen ≤ frame.length
  isType : readBe frame 0 2 = some type.code
  isSize : readBe frame 2 2 = some size
  atLeast : headerLen ≤ size
  atMost : size ≤ maxMessageSize
  padded : frame.length = (size + 7) / 8 * 8

variable {frame : List (BitVec 8)} {type : MsgType} {size : Nat} {routes : List FibRoute}
  {msg : BgpFibMsg} {α : Type} {header : RouterMsg} {code count : Nat} {route : FibRoute}
  {entry : List (BitVec 8)}

theorem MsgType.ofCode_eq_some_iff :
    MsgType.ofCode code = some type ↔ code = type.code := by
  constructor
  · intro known
    unfold MsgType.ofCode at known
    split at known <;> cases known <;> rfl
  · rintro rfl
    cases type <;> rfl

theorem orValueError_eq_ok_iff {result : Option α} {value : α} :
    orValueError result = .ok value ↔ result = some value := by
  cases result <;> simp [orValueError]

theorem raisesOnly_orValueError (result : Option α) :
    RaisesOnly .valueError (orValueError result) := by
  cases result with
  | none => exact .error
  | some value => exact .ok value

theorem wireSize_eq_some_iff {padded : Nat} :
    wireSize size = some padded ↔
      (headerLen ≤ size ∧ size ≤ maxMessageSize) ∧ padded = (size + 7) / 8 * 8 := by
  unfold wireSize
  split
  · rename_i bounds
    simp [bounds, eq_comm]
  · rename_i bounds
    simp [bounds]

/-- Four bytes are a word. -/
theorem readBe_word {data : List (BitVec 8)} {offset : Nat} (inside : offset + 4 ≤ data.length) :
    ∃ word : BitVec 32, readBe data offset 4 = some word.toNat := by
  obtain ⟨value, read⟩ := readBe_defined inside
  have small : value < 2 ^ 32 := readBe_lt read
  exact ⟨BitVec.ofNat 32 value, by rw [BitVec.toNat_ofNat, Nat.mod_eq_of_lt small, read]⟩

theorem word_unique {read : Option Nat} {word other : BitVec 32} (isWord : read = some word.toNat)
    (isOther : read = some other.toNat) : word = other :=
  BitVec.eq_of_toNat_eq (Option.some.inj (isWord.symm.trans isOther))

/-- The header fields of a byte string that is long enough. -/
theorem headerStruct_unpackFrom (long : headerLen ≤ frame.length) :
    ∃ (type size : Nat) (routerId : BitVec 32),
      headerStruct.unpackFrom frame 0 = some [type, size, routerId.toNat] ∧
      readBe frame 0 2 = some type ∧ readBe frame 2 2 = some size ∧
      readBe frame 4 4 = some routerId.toNat := by
  unfold headerLen at long
  obtain ⟨type, isType⟩ := @readBe_defined 2 0 frame (by omega)
  obtain ⟨size, isSize⟩ := @readBe_defined 2 2 frame (by omega)
  obtain ⟨routerId, isRouter⟩ := @readBe_word frame 4 (by omega)
  refine ⟨type, size, routerId, ?_, isType, isSize, isRouter⟩
  simp only [headerStruct, Layout.unpackFrom, isType, isSize, isRouter, Nat.zero_add,
    Nat.reduceAdd, Option.bind_some, Option.map_some]

theorem RouterMsg.unpack_eq_ok_iff {msg : RouterMsg} :
    RouterMsg.unpack frame = .ok msg ↔
      headerLen ≤ frame.length ∧ readBe frame 0 2 = some msg.type.code ∧
        readBe frame 2 2 = some msg.size ∧ readBe frame 4 4 = some msg.routerId.toNat ∧
        headerLen ≤ msg.size ∧ msg.size ≤ maxMessageSize := by
  unfold RouterMsg.unpack
  by_cases long : headerLen ≤ frame.length
  · obtain ⟨type, size, routerId, unpacked, isType, isSize, isRouter⟩ :=
      headerStruct_unpackFrom long
    rw [if_neg (Nat.not_lt.mpr long), unpacked]
    dsimp only
    simp only [bind_eq_ok_iff, map_eq_ok_iff, orValueError_eq_ok_iff, wireSize_eq_some_iff,
      MsgType.ofCode_eq_some_iff, BitVec.ofNat_toNat, BitVec.setWidth_eq]
    constructor
    · rintro ⟨known, rfl, padded, ⟨bounds, -⟩, rfl⟩
      exact ⟨long, isType, isSize, isRouter, bounds⟩
    · rintro ⟨-, sameType, sameSize, sameRouter, bounds⟩
      rw [isType, Option.some.injEq] at sameType
      rw [isSize, Option.some.injEq] at sameSize
      refine ⟨msg.type, sameType, _, ⟨sameSize ▸ bounds, rfl⟩, ?_⟩
      rw [sameSize, word_unique isRouter sameRouter]
  · rw [if_pos (Nat.lt_of_not_le long)]
    simp [long]

theorem RouterMsg.raisesOnly_unpack (frame : List (BitVec 8)) :
    RaisesOnly .valueError (RouterMsg.unpack frame) := by
  unfold RouterMsg.unpack
  by_cases long : headerLen ≤ frame.length
  · obtain ⟨type, size, routerId, unpacked, -⟩ := headerStruct_unpackFrom long
    rw [if_neg (Nat.not_lt.mpr long), unpacked]
    exact (raisesOnly_orValueError _).bind fun _ _ => (raisesOnly_orValueError _).map
  · rw [if_pos (Nat.lt_of_not_le long)]
    exact .error

/-- `_unpack_frame` accepts the frames of the type, with the expected size if there is one. -/
theorem unpackFrame_eq_ok_iff {expected : Option Nat} :
    unpackFrame frame type expected = .ok header ↔
      FrameGrammar type header.size frame ∧ header.type = type ∧
        readBe frame 4 4 = some header.routerId.toNat ∧
        ∀ size ∈ expected, header.size = size := by
  unfold unpackFrame
  rw [bind_eq_ok_iff]
  simp only [RouterMsg.unpack_eq_ok_iff]
  constructor
  · rintro ⟨read, ⟨long, isType, isSize, isRouter, bounds⟩, rest⟩
    split at rest
    · cases rest
    · rename_i sameType
      split at rest
      · cases rest
      · rename_i sameSize
        obtain ⟨padded, isPadded, rest⟩ := bind_eq_ok_iff.mp rest
        rw [orValueError_eq_ok_iff, wireSize_eq_some_iff] at isPadded
        split at rest
        · cases rest
        · rename_i whole
          cases rest
          have isExpected := not_not.mp sameType
          refine ⟨⟨long, isExpected ▸ isType, isSize, bounds.1, bounds.2, ?_⟩, isExpected,
            isRouter, ?_⟩
          · exact (not_not.mp whole).trans isPadded.2
          · intro size isSome
            rw [isSome] at sameSize
            simpa using sameSize
  · rintro ⟨grammar, rfl, isRouter, sameSize⟩
    refine ⟨header, ⟨grammar.header, grammar.isType, grammar.isSize, isRouter, grammar.atLeast,
      grammar.atMost⟩, ?_⟩
    have noOther : ¬(expected.any fun size => header.size != size) = true := by
      cases expected with
      | none => simp
      | some size => simp [sameSize size rfl]
    have padded : wireSize header.size = some ((header.size + 7) / 8 * 8) :=
      wireSize_eq_some_iff.mpr ⟨⟨grammar.atLeast, grammar.atMost⟩, rfl⟩
    rw [if_neg (not_not.mpr rfl), if_neg noOther, padded]
    exact if_neg (not_not.mpr grammar.padded)

theorem raisesOnly_unpackFrame (frame : List (BitVec 8)) (type : MsgType)
    (expected : Option Nat) : RaisesOnly .valueError (unpackFrame frame type expected) := by
  apply (RouterMsg.raisesOnly_unpack frame).bind
  intro header _
  split
  · exact .error
  · split
    · exact .error
    · apply (raisesOnly_orValueError _).bind
      intro padded _
      split
      · exact .error
      · exact .ok header

/-- The header that is packed again from a frame. -/
theorem FrameGrammar.routerMsgPack (grammar : FrameGrammar type size frame) {routerId : BitVec 32}
    (isRouter : readBe frame 4 4 = some routerId.toNat) :
    routerMsgPack type size routerId = some (frame.take headerLen) := by
  have padded : wireSize size = some ((size + 7) / 8 * 8) :=
    wireSize_eq_some_iff.mpr ⟨⟨grammar.atLeast, grammar.atMost⟩, rfl⟩
  rw [Horse.Bgp.routerMsgPack, padded, Option.map_some, packBe_readBe grammar.isType,
    packBe_readBe grammar.isSize, packBe_readBe isRouter, List.drop_zero, ← List.take_add,
    ← List.take_add]
  rfl

/-- A packed header with as many bytes behind it as its size asks for is a frame. -/
theorem frameGrammar_of_routerMsgPack {routerId : BitVec 32} {header rest : List (BitVec 8)}
    (packed : routerMsgPack type size routerId = some header)
    (whole : headerLen + rest.length = (size + 7) / 8 * 8) :
    FrameGrammar type size (header ++ rest) ∧
      readBe (header ++ rest) 4 4 = some routerId.toNat ∧ header.length = headerLen := by
  obtain ⟨padded, isPadded, rfl⟩ := Option.map_eq_some_iff.mp packed
  obtain ⟨⟨atLeast, atMost⟩, -⟩ := wireSize_eq_some_iff.mp isPadded
  have isType := readBe_packBe [] (packBe 2 size ++ (packBe 4 routerId.toNat ++ rest)) 2 type.code
  have isSize := readBe_packBe (packBe 2 type.code) (packBe 4 routerId.toNat ++ rest) 2 size
  have isRouter := readBe_packBe (packBe 2 type.code ++ packBe 2 size) rest 4 routerId.toNat
  have smallType : type.code < 256 ^ 2 := by cases type <;> decide
  have smallSize : size < 256 ^ 2 := Nat.lt_succ_of_le atMost
  rw [Nat.mod_eq_of_lt smallType] at isType
  rw [Nat.mod_eq_of_lt smallSize] at isSize
  rw [Nat.mod_eq_of_lt (by exact routerId.isLt)] at isRouter
  simp only [List.append_assoc, List.length_append, length_packBe, List.nil_append,
    List.length_nil] at isType isSize isRouter ⊢
  refine ⟨⟨?_, isType, isSize, atLeast, atMost, ?_⟩, isRouter, rfl⟩
  · simp only [List.length_append, length_packBe, headerLen]
    omega
  · simp only [List.length_append, length_packBe]
    rw [← whole, headerLen]
    omega

/-! ## Messages of fixed size -/

theorem BgpState.ofCode_eq_some_iff {state : BgpState} :
    BgpState.ofCode code = some state ↔ code = state.code := by
  constructor
  · intro known
    unfold BgpState.ofCode at known
    split at known <;> cases known <;> rfl
  · rintro rfl
    cases state <;> rfl

/-- A frame of sixteen bytes has eight behind its header. -/
theorem FrameGrammar.length_sixteen (grammar : FrameGrammar type 16 frame) : frame.length = 16 :=
  grammar.padded

theorem stateBody_unpackFrom (whole : frame.length = 16) :
    ∃ (peerId : BitVec 32) (state : Nat),
      stateBody.unpackFrom frame headerLen = some [peerId.toNat, state] ∧
      readBe frame 8 4 = some peerId.toNat ∧ readBe frame 12 1 = some state := by
  obtain ⟨peerId, isPeer⟩ := @readBe_word frame 8 (by omega)
  obtain ⟨state, isState⟩ := @readBe_defined 1 12 frame (by omega)
  refine ⟨peerId, state, ?_, isPeer, isState⟩
  simp only [stateBody, headerLen, Layout.unpackFrom, isPeer, isState, Nat.reduceAdd,
    Option.bind_some, Option.map_some, whole, Nat.le_refl, if_true]

theorem announceBody_unpackFrom (whole : frame.length = 16) :
    ∃ peerId : BitVec 32, announceBody.unpackFrom frame headerLen = some [peerId.toNat] ∧
      readBe frame 8 4 = some peerId.toNat := by
  obtain ⟨peerId, isPeer⟩ := @readBe_word frame 8 (by omega)
  refine ⟨peerId, ?_, isPeer⟩
  simp only [announceBody, headerLen, Layout.unpackFrom, isPeer, Nat.reduceAdd,
    Option.bind_some, Option.map_some, whole, Nat.le_refl, if_true]

theorem BgpStateMsg.unpack_eq_ok_iff {msg : BgpStateMsg} :
    BgpStateMsg.unpack frame = .ok msg ↔
      FrameGrammar .bgpState bgpStateLen frame ∧ msg.type = .bgpState ∧
        msg.size = bgpStateLen ∧ readBe frame 4 4 = some msg.routerId.toNat ∧
        readBe frame 8 4 = some msg.peerId.toNat ∧ readBe frame 12 1 = some msg.state.code := by
  unfold BgpStateMsg.unpack
  rw [bind_eq_ok_iff]
  simp only [unpackFrame_eq_ok_iff, Option.mem_some, forall_eq']
  constructor
  · rintro ⟨header, ⟨grammar, isType, isRouter, isSize⟩, rest⟩
    rw [isSize] at grammar
    obtain ⟨peerId, state, unpacked, isPeer, isState⟩ :=
      stateBody_unpackFrom grammar.length_sixteen
    rw [unpacked] at rest
    obtain ⟨known, isKnown, rfl⟩ := map_eq_ok_iff.mp rest
    rw [orValueError_eq_ok_iff, BgpState.ofCode_eq_some_iff] at isKnown
    rw [BitVec.ofNat_toNat, BitVec.setWidth_eq]
    exact ⟨grammar, isType, isSize, isRouter, isPeer, isKnown ▸ isState⟩
  · rintro ⟨grammar, isType, isSize, isRouter, isPeer, isState⟩
    refine ⟨msg.toRouterMsg, ⟨isSize ▸ grammar, isType, isRouter, isSize⟩, ?_⟩
    obtain ⟨peerId, state, unpacked, samePeer, sameState⟩ :=
      stateBody_unpackFrom grammar.length_sixteen
    rw [isState, Option.some.injEq] at sameState
    rw [unpacked, ← sameState]
    dsimp only
    rw [BitVec.ofNat_toNat, BitVec.setWidth_eq, word_unique samePeer isPeer,
      BgpState.ofCode_eq_some_iff.mpr rfl]
    rfl

theorem BgpStateMsg.raisesOnly_unpack (frame : List (BitVec 8)) :
    RaisesOnly .valueError (BgpStateMsg.unpack frame) := by
  apply (raisesOnly_unpackFrame _ _ _).bind
  intro header accepted
  obtain ⟨grammar, -, -, isSize⟩ := unpackFrame_eq_ok_iff.mp accepted
  rw [isSize _ rfl] at grammar
  obtain ⟨peerId, state, unpacked, -⟩ := stateBody_unpackFrom grammar.length_sixteen
  rw [unpacked]
  exact (raisesOnly_orValueError _).map

theorem BgpAnnounce.unpack_eq_ok_iff {msg : BgpAnnounce} :
    BgpAnnounce.unpack frame = .ok msg ↔
      FrameGrammar .bgpAnnounce bgpAnnounceLen frame ∧ msg.type = .bgpAnnounce ∧
        msg.size = bgpAnnounceLen ∧ readBe frame 4 4 = some msg.routerId.toNat ∧
        readBe frame 8 4 = some msg.peerId.toNat := by
  unfold BgpAnnounce.unpack
  rw [bind_eq_ok_iff]
  simp only [unpackFrame_eq_ok_iff, Option.mem_some, forall_eq']
  constructor
  · rintro ⟨header, ⟨grammar, isType, isRouter, isSize⟩, rest⟩
    rw [isSize] at grammar
    obtain ⟨peerId, unpacked, isPeer⟩ := announceBody_unpackFrom grammar.length_sixteen
    rw [unpacked] at rest
    cases rest
    rw [BitVec.ofNat_toNat, BitVec.setWidth_eq]
    exact ⟨grammar, isType, isSize, isRouter, isPeer⟩
  · rintro ⟨grammar, isType, isSize, isRouter, isPeer⟩
    refine ⟨msg.toRouterMsg, ⟨isSize ▸ grammar, isType, isRouter, isSize⟩, ?_⟩
    obtain ⟨peerId, unpacked, samePeer⟩ := announceBody_unpackFrom grammar.length_sixteen
    rw [unpacked]
    dsimp only
    rw [BitVec.ofNat_toNat, BitVec.setWidth_eq, word_unique samePeer isPeer]

theorem BgpAnnounce.raisesOnly_unpack (frame : List (BitVec 8)) :
    RaisesOnly .valueError (BgpAnnounce.unpack frame) := by
  apply (raisesOnly_unpackFrame _ _ _).bind
  intro header accepted
  obtain ⟨grammar, -, -, isSize⟩ := unpackFrame_eq_ok_iff.mp accepted
  rw [isSize _ rfl] at grammar
  obtain ⟨peerId, unpacked, -⟩ := announceBody_unpackFrom grammar.length_sixteen
  rw [unpacked]
  exact .ok _

theorem BgpActivity.unpack_eq_ok_iff {msg : BgpActivity} :
    BgpActivity.unpack frame = .ok msg ↔
      FrameGrammar .bgpActivity headerLen frame ∧ msg.type = .bgpActivity ∧
        msg.size = headerLen ∧ readBe frame 4 4 = some msg.routerId.toNat := by
  unfold BgpActivity.unpack
  rw [map_eq_ok_iff]
  simp only [unpackFrame_eq_ok_iff, Option.mem_some, forall_eq']
  constructor
  · rintro ⟨header, ⟨grammar, isType, isRouter, isSize⟩, rfl⟩
    exact ⟨isSize ▸ grammar, isType, isSize, isRouter⟩
  · rintro ⟨grammar, isType, isSize, isRouter⟩
    exact ⟨msg.toRouterMsg, ⟨isSize ▸ grammar, isType, isRouter, isSize⟩, rfl⟩

theorem BgpActivity.raisesOnly_unpack (frame : List (BitVec 8)) :
    RaisesOnly .valueError (BgpActivity.unpack frame) :=
  (raisesOnly_unpackFrame _ _ _).map

/-! ## Contiguous masks -/

/-- The ones of a mask stand in front of its zeros. -/
def Contiguous (mask : BitVec 32) : Prop :=
  ∃ len ≤ 32, ∀ index < 32, mask.getLsbD index = decide (32 - len ≤ index)

theorem getLsbD_netmask (len index : Nat) (inside : index < 32) :
    ((BitVec.allOnes 32 >>> (32 - len)) <<< (32 - len)).getLsbD index =
      decide (32 - len ≤ index) := by
  simp only [BitVec.getLsbD_shiftLeft, BitVec.getLsbD_ushiftRight, BitVec.getLsbD_allOnes, inside]
  by_cases below : index < 32 - len
  · simp [below, Nat.not_le.mpr below]
  · simp [below, Nat.not_lt.mp below]
    omega

theorem bitCount_netmask : ∀ len : Fin 33,
    bitCount ((BitVec.allOnes 32 >>> (32 - len.val)) <<< (32 - len.val)) = len.val := by
  decide +kernel

/-- The netmask of the number of ones in a mask is the mask itself if it is contiguous. -/
theorem cidrToNetmask_bitCount_iff {mask : BitVec 32} :
    cidrToNetmask (bitCount mask) = some mask ↔ Contiguous mask := by
  constructor
  · intro isNetmask
    unfold cidrToNetmask at isNetmask
    split at isNetmask
    · rename_i inRange
      rw [Option.some.injEq] at isNetmask
      refine ⟨bitCount mask, inRange, ?_⟩
      intro index inside
      rw [← getLsbD_netmask _ _ inside, isNetmask]
    · cases isNetmask
  · rintro ⟨len, inRange, bits⟩
    have isNetmask : mask = (BitVec.allOnes 32 >>> (32 - len)) <<< (32 - len) := by
      apply BitVec.eq_of_getLsbD_eq
      intro index inside
      rw [bits index inside, getLsbD_netmask _ _ inside]
    have count : bitCount mask = len := by
      rw [isNetmask]
      exact bitCount_netmask ⟨len, Nat.lt_succ_of_le inRange⟩
    rw [count, cidrToNetmask, if_pos inRange, isNetmask]

theorem cidrToNetmask_bitCount {len : Nat} {mask : BitVec 32}
    (isNetmask : cidrToNetmask len = some mask) : bitCount mask = len := by
  unfold cidrToNetmask at isNetmask
  split at isNetmask
  · rename_i inRange
    cases isNetmask
    exact bitCount_netmask ⟨len, Nat.lt_succ_of_le inRange⟩
  · cases isNetmask

/-! ## Messages with routes -/

theorem fibEntryStruct_unpackFrom {data : List (BitVec 8)} {offset : Nat}
    (inside : offset + fibEntryLen ≤ data.length) :
    ∃ ip mask nextHop : BitVec 32, fibEntryStruct.unpackFrom data offset =
        some [ip.toNat, mask.toNat, nextHop.toNat] ∧
      readBe data offset 4 = some ip.toNat ∧ readBe data (offset + 4) 4 = some mask.toNat ∧
      readBe data (offset + 8) 4 = some nextHop.toNat := by
  unfold fibEntryLen at inside
  obtain ⟨ip, isIp⟩ := @readBe_word data offset (by omega)
  obtain ⟨mask, isMask⟩ := @readBe_word data (offset + 4) (by omega)
  obtain ⟨nextHop, isHop⟩ := @readBe_word data (offset + 8) (by omega)
  refine ⟨ip, mask, nextHop, ?_, isIp, isMask, isHop⟩
  simp only [fibEntryStruct, Layout.unpackFrom, isIp, isMask, isHop, Nat.add_assoc,
    Nat.reduceAdd, Option.bind_some, Option.map_some]

section Entry

variable {data : List (BitVec 8)} {offset : Nat} {ip mask nextHop : BitVec 32}

theorem packBe_word_inj {word other : BitVec 32}
    (same : packBe 4 word.toNat = packBe 4 other.toNat) : word = other :=
  BitVec.eq_of_toNat_eq (packBe_inj (by exact word.isLt) (by exact other.isLt) same)

/-- The bytes of an entry, by its fields. -/
theorem entry_bytes (isIp : readBe data offset 4 = some ip.toNat)
    (isMask : readBe data (offset + 4) 4 = some mask.toNat)
    (isHop : readBe data (offset + 8) 4 = some nextHop.toNat) :
    packBe 4 ip.toNat ++ packBe 4 mask.toNat ++ packBe 4 nextHop.toNat =
      (data.drop offset).take fibEntryLen := by
  rw [packBe_readBe isIp, packBe_readBe isMask, packBe_readBe isHop, ← List.drop_drop,
    ← List.take_add, ← List.drop_drop, ← List.take_add]
  rfl

/-- A turn of the loop raises `ValueError` unless the mask is contiguous. -/
theorem fibEntryUnpack_eq (ip mask nextHop : BitVec 32) :
    fibEntryUnpack [ip.toNat, mask.toNat, nextHop.toNat] =
      if cidrToNetmask (bitCount mask) = some mask then .ok ⟨⟨ip, bitCount mask⟩, nextHop⟩
      else .error .valueError := by
  simp only [fibEntryUnpack, BitVec.ofNat_toNat, BitVec.setWidth_eq]
  cases cidrToNetmask (bitCount mask) with
  | none => rfl
  | some netmask =>
    change (if mask ≠ netmask then _ else _) = _
    by_cases same : mask = netmask
    · rw [if_neg (not_not.mpr same), if_pos (by rw [same])]
    · rw [if_pos same, if_neg fun isSome => same (Option.some.inj isSome).symm]

/-- A turn of the loop accepts an entry and makes the route of which it is the packed
form. -/
theorem fibEntryUnpack_eq_ok_iff (isIp : readBe data offset 4 = some ip.toNat)
    (isMask : readBe data (offset + 4) 4 = some mask.toNat)
    (isHop : readBe data (offset + 8) 4 = some nextHop.toNat) :
    fibEntryUnpack [ip.toNat, mask.toNat, nextHop.toNat] = .ok route ↔
      fibEntryPack route = some ((data.drop offset).take fibEntryLen) := by
  rw [← entry_bytes isIp isMask isHop, fibEntryUnpack_eq]
  constructor
  · intro accepted
    split at accepted
    · rename_i isNetmask
      cases accepted
      rw [fibEntryPack, isNetmask, Option.map_some]
    · cases accepted
  · intro packed
    obtain ⟨netmask, isNetmask, bytes⟩ := Option.map_eq_some_iff.mp packed
    obtain ⟨front, sameHop⟩ := List.append_inj bytes (by simp)
    obtain ⟨sameIp, sameMask⟩ := List.append_inj front (by simp)
    rw [← packBe_word_inj sameIp, ← packBe_word_inj sameMask, ← packBe_word_inj sameHop,
      cidrToNetmask_bitCount isNetmask, if_pos isNetmask]

theorem fibEntryUnpack_isOk_iff :
    (∃ route, fibEntryUnpack [ip.toNat, mask.toNat, nextHop.toNat] = .ok route) ↔
      Contiguous mask := by
  rw [← cidrToNetmask_bitCount_iff, fibEntryUnpack_eq]
  split
  · rename_i isNetmask
    exact iff_of_true ⟨_, rfl⟩ isNetmask
  · rename_i notNetmask
    exact iff_of_false nofun notNetmask

theorem raisesOnly_fibEntryUnpack :
    RaisesOnly .valueError (fibEntryUnpack [ip.toNat, mask.toNat, nextHop.toNat]) := by
  rw [fibEntryUnpack_eq]
  split
  · exact .ok _
  · exact .error

end Entry

theorem length_fibEntryPack (packed : fibEntryPack route = some entry) :
    entry.length = fibEntryLen := by
  obtain ⟨netmask, -, rfl⟩ := Option.map_eq_some_iff.mp packed
  simp [fibEntryLen]

theorem length_fibEntriesPack {entries : List (BitVec 8)}
    (packed : fibEntriesPack routes = some entries) :
    entries.length = routes.length * fibEntryLen := by
  induction routes generalizing entries with
  | nil =>
    cases packed
    rfl
  | cons route rest ih =>
    obtain ⟨entry, others, isEntry, isOthers, rfl⟩ := bind_map_eq_some_iff.mp packed
    rw [List.length_append, length_fibEntryPack isEntry, ih isOthers, List.length_cons,
      Nat.succ_mul, Nat.add_comm]

/-- What the loop of `BGPFIBMsg.unpack` makes of some entries. -/
structure FibEntriesRead (data : List (BitVec 8)) (offset count : Nat)
    (entries : List (List Nat)) : Prop where
  unpacked : fibEntryStruct.unpackMany data offset count = some entries
  raises : RaisesOnly .valueError (fibEntriesUnpack entries)
  accepts : (∃ routes, fibEntriesUnpack entries = .ok routes) ↔
    ∀ index < count, ∃ mask, readBe data (offset + index * fibEntryLen + 4) 4 = some mask ∧
      Contiguous (BitVec.ofNat 32 mask)
  packs : ∀ routes, fibEntriesUnpack entries = .ok routes ↔
    fibEntriesPack routes = some ((data.drop offset).take (count * fibEntryLen))

theorem fibEntriesPack_eq_nil_iff :
    fibEntriesPack routes = some [] ↔ routes = [] := by
  constructor
  · intro packed
    have length := length_fibEntriesPack packed
    rw [List.length_nil, fibEntryLen] at length
    exact List.length_eq_zero_iff.mp (by omega)
  · rintro rfl
    rfl

/-- The packed form of a list of routes that starts with one entry. -/
theorem fibEntriesPack_cons_iff {rest : List FibRoute} {others : List (BitVec 8)}
    (length : entry.length = fibEntryLen) :
    fibEntriesPack (route :: rest) = some (entry ++ others) ↔
      fibEntryPack route = some entry ∧ fibEntriesPack rest = some others := by
  constructor
  · intro packed
    obtain ⟨first, remaining, isFirst, isRemaining, same⟩ := bind_map_eq_some_iff.mp packed
    obtain ⟨rfl, rfl⟩ :=
      List.append_inj same ((length_fibEntryPack isFirst).trans length.symm)
    exact ⟨isFirst, isRemaining⟩
  · rintro ⟨isFirst, isRemaining⟩
    rw [fibEntriesPack, isFirst, Option.bind_some, isRemaining]
    rfl

theorem fibEntriesRead {data : List (BitVec 8)} {offset : Nat}
    (inside : offset + count * fibEntryLen ≤ data.length) :
    ∃ entries, FibEntriesRead data offset count entries := by
  induction count generalizing offset with
  | zero =>
    refine ⟨[], rfl, .ok [], ?_, ?_⟩
    · exact iff_of_true ⟨[], rfl⟩ nofun
    · intro routes
      rw [Nat.zero_mul, List.take_zero, fibEntriesPack_eq_nil_iff]
      constructor
      · rintro ⟨⟩
        rfl
      · rintro rfl
        rfl
  | succ count ih =>
    rw [Nat.succ_mul] at inside
    obtain ⟨ip, mask, nextHop, isEntry, isIp, isMask, isHop⟩ :=
      @fibEntryStruct_unpackFrom data offset (by omega)
    obtain ⟨entries, read⟩ := @ih (offset + fibEntryLen) (by omega)
    have accepted := @fibEntryUnpack_isOk_iff ip mask nextHop
    refine ⟨[ip.toNat, mask.toNat, nextHop.toNat] :: entries, ?_, ?_, ?_, ?_⟩
    · have size : fibEntryStruct.size = fibEntryLen := rfl
      rw [Layout.unpackMany, isEntry, Option.bind_some, size, read.unpacked]
      rfl
    · exact raisesOnly_fibEntryUnpack.bind fun _ _ => read.raises.map
    · -- The first entry decides about its own mask, the loop about the others.
      have shift : ∀ index, offset + (index + 1) * fibEntryLen + 4 =
          offset + fibEntryLen + index * fibEntryLen + 4 := by
        intro index
        rw [Nat.succ_mul]
        omega
      simp only [Nat.forall_lt_succ_left, shift, Nat.zero_mul, Nat.add_zero, isMask,
        Option.some.injEq, exists_eq_left', BitVec.ofNat_toNat, BitVec.setWidth_eq,
        ← read.accepts, ← accepted, fibEntriesUnpack, bind_eq_ok_iff, map_eq_ok_iff]
      constructor
      · rintro ⟨_, route, isRoute, rest, isRest, rfl⟩
        exact ⟨⟨route, isRoute⟩, rest, isRest⟩
      · rintro ⟨⟨route, isRoute⟩, rest, isRest⟩
        exact ⟨_, route, isRoute, rest, isRest, rfl⟩
    · intro routes
      have split : (data.drop offset).take ((count + 1) * fibEntryLen) =
          (data.drop offset).take fibEntryLen ++
            (data.drop (offset + fibEntryLen)).take (count * fibEntryLen) := by
        rw [Nat.succ_mul, Nat.add_comm, List.take_add, List.drop_drop]
      have length : ((data.drop offset).take fibEntryLen).length = fibEntryLen := by
        rw [List.length_take, List.length_drop]
        omega
      rw [split]
      cases routes with
      | nil =>
        refine iff_of_false ?_ ?_
        · simp [fibEntriesUnpack, bind_eq_ok_iff, map_eq_ok_iff]
        · intro packed
          have empty := congrArg List.length (Option.some.inj packed)
          rw [List.length_append, length, fibEntryLen] at empty
          simp only [List.length_nil] at empty
          omega
      | cons route rest =>
        rw [fibEntriesPack_cons_iff length, ← read.packs,
          ← fibEntryUnpack_eq_ok_iff isIp isMask isHop]
        simp [fibEntriesUnpack, bind_eq_ok_iff, map_eq_ok_iff]

/-- The part of a frame between the header and the padding. -/
def frameEntries (size : Nat) (frame : List (BitVec 8)) : List (BitVec 8) :=
  (frame.take size).drop headerLen

theorem FrameGrammar.length_frameEntries (grammar : FrameGrammar type size frame) :
    (frameEntries size frame).length = size - headerLen := by
  have padded := grammar.padded
  rw [frameEntries, List.length_drop, List.length_take]
  omega

theorem exists_count_iff (atLeast : headerLen ≤ size) :
    (size - headerLen) % fibEntryLen = 0 ↔ ∃ count, size = headerLen + count * fibEntryLen := by
  constructor
  · intro whole
    refine ⟨(size - headerLen) / fibEntryLen, ?_⟩
    rw [Nat.div_mul_cancel (Nat.dvd_of_mod_eq_zero whole), Nat.add_sub_of_le atLeast]
  · rintro ⟨count, rfl⟩
    rw [Nat.add_sub_cancel_left, Nat.mul_mod_left]

/-- What `BGPFIBMsg.unpack` does behind the header of a frame with whole entries. -/
theorem BgpFibMsg.unpack_of_frame (accepted : unpackFrame frame .bgpFib none = .ok header)
    (isSize : header.size = headerLen + count * fibEntryLen) :
    ∃ entries, FibEntriesRead (frameEntries header.size frame) 0 count entries ∧
      BgpFibMsg.unpack frame =
        (fibEntriesUnpack entries).map fun routes => ⟨header, routes.map FibRoute.text⟩ := by
  have length := (unpackFrame_eq_ok_iff.mp accepted).1.length_frameEntries
  rw [isSize, Nat.add_sub_cancel_left, ← isSize] at length
  obtain ⟨entries, read⟩ := @fibEntriesRead count (frameEntries header.size frame) 0
    (Nat.le_of_eq (by rw [length, Nat.zero_add]))
  have whole : (header.size - headerLen) % fibEntryLen = 0 := by
    rw [isSize, Nat.add_sub_cancel_left, Nat.mul_mod_left]
  have unpacked : fibEntryStruct.iterUnpack (frameEntries header.size frame) = some entries := by
    have recordSize : fibEntryStruct.size = fibEntryLen := rfl
    have positive : 0 < fibEntryLen := Nat.succ_pos 11
    rw [Layout.iterUnpack, length, recordSize, if_pos (Nat.mul_mod_left _ _),
      Nat.mul_div_cancel _ positive]
    exact read.unpacked
  refine ⟨entries, read, ?_⟩
  rw [frameEntries] at unpacked
  rw [BgpFibMsg.unpack, accepted, Except.bind, if_neg (not_not.mpr whole), unpacked]

/-- Without whole entries `BGPFIBMsg.unpack` raises `ValueError`. -/
theorem BgpFibMsg.unpack_refuses (accepted : unpackFrame frame .bgpFib none = .ok header)
    (notWhole : ¬∃ count, header.size = headerLen + count * fibEntryLen) :
    BgpFibMsg.unpack frame = .error .valueError := by
  have atLeast := (unpackFrame_eq_ok_iff.mp accepted).1.atLeast
  rw [← exists_count_iff atLeast] at notWhole
  rw [BgpFibMsg.unpack, accepted, Except.bind, if_pos notWhole]

theorem BgpFibMsg.raisesOnly_unpack (frame : List (BitVec 8)) :
    RaisesOnly .valueError (BgpFibMsg.unpack frame) := by
  cases accepted : unpackFrame frame .bgpFib none with
  | error raised =>
    rw [BgpFibMsg.unpack, accepted, raisesOnly_unpackFrame _ _ _ raised accepted]
    exact .error
  | ok header =>
    by_cases whole : ∃ count, header.size = headerLen + count * fibEntryLen
    · obtain ⟨count, isSize⟩ := whole
      obtain ⟨entries, read, unpacked⟩ := BgpFibMsg.unpack_of_frame accepted isSize
      rw [unpacked]
      exact read.raises.map
    · rw [BgpFibMsg.unpack_refuses accepted whole]
      exact .error

/-- An accepted frame has an accepted header and whole entries. -/
theorem BgpFibMsg.frame_of_unpack (unpacked : BgpFibMsg.unpack frame = .ok msg) :
    ∃ count, unpackFrame frame .bgpFib none = .ok msg.toRouterMsg ∧
      msg.size = headerLen + count * fibEntryLen := by
  obtain ⟨header, accepted, -⟩ := bind_eq_ok_iff.mp unpacked
  by_cases whole : ∃ count, header.size = headerLen + count * fibEntryLen
  · obtain ⟨count, isSize⟩ := whole
    obtain ⟨entries, -, same⟩ := BgpFibMsg.unpack_of_frame accepted isSize
    rw [same] at unpacked
    obtain ⟨routes, -, rfl⟩ := map_eq_ok_iff.mp unpacked
    exact ⟨count, accepted, isSize⟩
  · rw [BgpFibMsg.unpack_refuses accepted whole] at unpacked
    cases unpacked

/-- The frames that `BGPFIBMsg` accepts and the message it makes of each. -/
theorem BgpFibMsg.unpack_eq_ok_iff :
    BgpFibMsg.unpack frame = .ok msg ↔
      FrameGrammar .bgpFib msg.size frame ∧ msg.type = .bgpFib ∧
        readBe frame 4 4 = some msg.routerId.toNat ∧
        ∃ routes, msg.routes = routes.map FibRoute.text ∧
          fibEntriesPack routes = some (frameEntries msg.size frame) := by
  have whole {count : Nat} (grammar : FrameGrammar .bgpFib msg.size frame)
      (isSize : msg.size = headerLen + count * fibEntryLen) :
      ((frameEntries msg.size frame).drop 0).take (count * fibEntryLen) =
        frameEntries msg.size frame := by
    have length := grammar.length_frameEntries
    rw [isSize, Nat.add_sub_cancel_left, ← isSize] at length
    rw [List.drop_zero, List.take_of_length_le (Nat.le_of_eq length)]
  constructor
  · intro unpacked
    obtain ⟨count, accepted, isSize⟩ := BgpFibMsg.frame_of_unpack unpacked
    obtain ⟨grammar, isType, isRouter, -⟩ := unpackFrame_eq_ok_iff.mp accepted
    obtain ⟨entries, read, same⟩ := BgpFibMsg.unpack_of_frame accepted isSize
    rw [same] at unpacked
    obtain ⟨routes, isRoutes, isMsg⟩ := map_eq_ok_iff.mp unpacked
    refine ⟨grammar, isType, isRouter, routes, (congrArg BgpFibMsg.routes isMsg).symm, ?_⟩
    rw [(read.packs routes).mp isRoutes, whole grammar isSize]
  · rintro ⟨grammar, isType, isRouter, routes, isRoutes, packed⟩
    have accepted : unpackFrame frame .bgpFib none = .ok msg.toRouterMsg :=
      unpackFrame_eq_ok_iff.mpr ⟨grammar, isType, isRouter, nofun⟩
    have length := length_fibEntriesPack packed
    rw [grammar.length_frameEntries] at length
    have isSize : msg.size = headerLen + routes.length * fibEntryLen := by
      rw [← length, Nat.add_sub_of_le grammar.atLeast]
    obtain ⟨entries, read, same⟩ := BgpFibMsg.unpack_of_frame accepted isSize
    have isOk : fibEntriesUnpack entries = .ok routes := by
      rw [read.packs, packed, whole grammar isSize]
    rw [same, isOk, Except.map, ← isRoutes]

/-! ## The grammar of each class -/

/-- A class accepts the frames of a language and raises `ValueError` on all others. -/
def AcceptsExactly {α : Type} (unpack : List (BitVec 8) → Except PyError α)
    (grammar : List (BitVec 8) → Prop) : Prop :=
  ∀ frame, (grammar frame → ∃ msg, unpack frame = .ok msg) ∧
    (¬grammar frame → unpack frame = .error .valueError)

/-- The frames of state messages: the state is 0, 1 or 2. -/
def StateGrammar (frame : List (BitVec 8)) : Prop :=
  FrameGrammar .bgpState 16 frame ∧ ∃ state ≤ 2, readBe frame 12 1 = some state

/-- The frames of messages with routes: whole entries with contiguous masks. -/
def FibGrammar (frame : List (BitVec 8)) : Prop :=
  ∃ count, FrameGrammar .bgpFib (8 + count * 12) frame ∧
    ∀ index < count, ∃ mask, readBe frame (8 + index * 12 + 4) 4 = some mask ∧
      Contiguous (BitVec.ofNat 32 mask)

theorem acceptsExactly_of_iff {unpack : List (BitVec 8) → Except PyError α}
    {grammar : List (BitVec 8) → Prop} (raises : ∀ frame, RaisesOnly .valueError (unpack frame))
    (accepts : ∀ frame, (∃ msg, unpack frame = .ok msg) ↔ grammar frame) :
    AcceptsExactly unpack grammar := by
  intro frame
  refine ⟨(accepts frame).mpr, fun refused => ?_⟩
  cases unpacked : unpack frame with
  | ok msg => exact absurd ((accepts frame).mp ⟨msg, unpacked⟩) refused
  | error raised => rw [raises frame raised unpacked]

theorem BgpStateMsg.accepts_iff (frame : List (BitVec 8)) :
    (∃ msg, BgpStateMsg.unpack frame = .ok msg) ↔ StateGrammar frame := by
  simp only [BgpStateMsg.unpack_eq_ok_iff]
  constructor
  · rintro ⟨msg, grammar, -, -, -, -, isState⟩
    refine ⟨grammar, msg.state.code, ?_, isState⟩
    cases msg.state <;> decide
  · rintro ⟨grammar, state, valid, isState⟩
    have header := grammar.header
    have whole := grammar.length_sixteen
    obtain ⟨routerId, isRouter⟩ := @readBe_word frame 4 (by omega)
    obtain ⟨peerId, isPeer⟩ := @readBe_word frame 8 (by omega)
    have known : ∃ known : BgpState, known.code = state := by
      match state, valid with
      | 0, _ => exact ⟨.down, rfl⟩
      | 1, _ => exact ⟨.connected, rfl⟩
      | 2, _ => exact ⟨.up, rfl⟩
    obtain ⟨known, rfl⟩ := known
    exact ⟨⟨⟨.bgpState, bgpStateLen, routerId⟩, peerId, known⟩, grammar, rfl, rfl, isRouter, isPeer,
      isState⟩

theorem BgpAnnounce.accepts_iff (frame : List (BitVec 8)) :
    (∃ msg, BgpAnnounce.unpack frame = .ok msg) ↔ FrameGrammar .bgpAnnounce 16 frame := by
  simp only [BgpAnnounce.unpack_eq_ok_iff]
  constructor
  · rintro ⟨msg, grammar, -⟩
    exact grammar
  · intro grammar
    have whole := grammar.length_sixteen
    obtain ⟨routerId, isRouter⟩ := @readBe_word frame 4 (by omega)
    obtain ⟨peerId, isPeer⟩ := @readBe_word frame 8 (by omega)
    exact ⟨⟨⟨.bgpAnnounce, bgpAnnounceLen, routerId⟩, peerId⟩, grammar, rfl, rfl, isRouter, isPeer⟩

theorem BgpActivity.accepts_iff (frame : List (BitVec 8)) :
    (∃ msg, BgpActivity.unpack frame = .ok msg) ↔ FrameGrammar .bgpActivity 8 frame := by
  simp only [BgpActivity.unpack_eq_ok_iff]
  constructor
  · rintro ⟨msg, grammar, -⟩
    exact grammar
  · intro grammar
    have header : 8 ≤ frame.length := grammar.header
    obtain ⟨routerId, isRouter⟩ := @readBe_word frame 4 (by omega)
    exact ⟨⟨⟨.bgpActivity, headerLen, routerId⟩⟩, grammar, rfl, rfl, isRouter⟩

theorem BgpFibMsg.accepts_iff (frame : List (BitVec 8)) :
    (∃ msg, BgpFibMsg.unpack frame = .ok msg) ↔ FibGrammar frame := by
  -- The masks that the loop reads behind the header, at their places in the frame.
  have places {count : Nat} :
      (∀ index < count, ∃ mask,
        readBe (frameEntries (headerLen + count * fibEntryLen) frame)
          (0 + index * fibEntryLen + 4) 4 = some mask ∧ Contiguous (BitVec.ofNat 32 mask)) ↔
      ∀ index < count, ∃ mask, readBe frame (8 + index * 12 + 4) 4 = some mask ∧
        Contiguous (BitVec.ofNat 32 mask) := by
    refine forall₂_congr fun index below => ?_
    have inside : 8 + (0 + index * 12 + 4) + 4 ≤ 8 + count * 12 := by omega
    rw [frameEntries, readBe_drop, headerLen, fibEntryLen, readBe_take inside, Nat.zero_add,
      Nat.add_assoc]
  constructor
  · rintro ⟨msg, unpacked⟩
    obtain ⟨count, accepted, isSize⟩ := BgpFibMsg.frame_of_unpack unpacked
    obtain ⟨grammar, -⟩ := unpackFrame_eq_ok_iff.mp accepted
    obtain ⟨entries, read, same⟩ := BgpFibMsg.unpack_of_frame accepted isSize
    rw [same] at unpacked
    obtain ⟨routes, isRoutes, -⟩ := map_eq_ok_iff.mp unpacked
    have masks := read.accepts.mp ⟨routes, isRoutes⟩
    rw [isSize] at grammar masks
    exact ⟨count, grammar, places.mp masks⟩
  · rintro ⟨count, grammar, masks⟩
    have header : 8 ≤ frame.length := grammar.header
    obtain ⟨routerId, isRouter⟩ := @readBe_word frame 4 (by omega)
    have accepted : unpackFrame frame .bgpFib none =
        .ok ⟨.bgpFib, headerLen + count * fibEntryLen, routerId⟩ :=
      unpackFrame_eq_ok_iff.mpr ⟨grammar, rfl, isRouter, nofun⟩
    obtain ⟨entries, read, same⟩ := BgpFibMsg.unpack_of_frame accepted rfl
    obtain ⟨routes, isRoutes⟩ := read.accepts.mpr (places.mpr masks)
    rw [isRoutes] at same
    exact ⟨_, same⟩

/-- Each message class accepts exactly the frames of its grammar and raises `ValueError` on
all other byte strings. -/
theorem parsers_accept_wire_grammar :
    AcceptsExactly BgpStateMsg.unpack StateGrammar ∧
      AcceptsExactly BgpAnnounce.unpack (FrameGrammar .bgpAnnounce 16) ∧
      AcceptsExactly BgpActivity.unpack (FrameGrammar .bgpActivity 8) ∧
      AcceptsExactly BgpFibMsg.unpack FibGrammar := by
  refine ⟨?_, ?_, ?_, ?_⟩
  · exact acceptsExactly_of_iff BgpStateMsg.raisesOnly_unpack BgpStateMsg.accepts_iff
  · exact acceptsExactly_of_iff BgpAnnounce.raisesOnly_unpack BgpAnnounce.accepts_iff
  · exact acceptsExactly_of_iff BgpActivity.raisesOnly_unpack BgpActivity.accepts_iff
  · exact acceptsExactly_of_iff BgpFibMsg.raisesOnly_unpack BgpFibMsg.accepts_iff

/-! ## Round trips -/

/-- A frame with zeros from a position on. -/
def zeroFrom (position : Nat) (frame : List (BitVec 8)) : List (BitVec 8) :=
  frame.take position ++ List.replicate (frame.length - position) 0

theorem routerMsgPack_defined (atLeast : headerLen ≤ size) (atMost : size ≤ maxMessageSize)
    (type : MsgType) (routerId : BitVec 32) :
    ∃ header, routerMsgPack type size routerId = some header := by
  rw [routerMsgPack, wireSize, if_pos ⟨atLeast, atMost⟩]
  exact ⟨_, rfl⟩

theorem stateBody_pack (peerId : BitVec 32) (state : BgpState) :
    stateBody.pack [peerId.toNat, state.code] =
      some (packBe 4 peerId.toNat ++ (BitVec.ofNat 8 state.code :: List.replicate 3 0)) := by
  have small : state.code < 256 ^ 1 := by cases state <;> decide
  simp only [stateBody, Layout.pack]
  rw [if_pos (by exact peerId.isLt), if_pos small]
  rfl

theorem announceBody_pack (peerId : BitVec 32) :
    announceBody.pack [peerId.toNat] =
      some (packBe 4 peerId.toNat ++ List.replicate 4 0) := by
  simp only [announceBody, Layout.pack]
  rw [if_pos (by exact peerId.isLt)]
  rfl

/-- A header and a packed body of eight bytes are a frame, from which the body is unpacked
again. -/
theorem frame_of_body {layout : Layout} {values : List Nat} {body : List (BitVec 8)}
    (eight : layout.size = 8) (isBody : layout.pack values = some body) (type : MsgType)
    (localId : BitVec 32) :
    ∃ header, routerMsgPack type 16 localId = some header ∧
      FrameGrammar type 16 (header ++ body) ∧
      readBe (header ++ body) 4 4 = some localId.toNat ∧
      layout.unpackFrom (header ++ body) headerLen = some values := by
  obtain ⟨header, isHeader⟩ := @routerMsgPack_defined 16 (by decide) (by decide) type localId
  have bodyLength : body.length = 8 := (Layout.length_pack isBody).trans eight
  obtain ⟨grammar, isRouter, headerLength⟩ :=
    @frameGrammar_of_routerMsgPack _ _ _ _ body isHeader (by rw [bodyLength]; rfl)
  have again := Layout.unpackFrom_pack isBody header []
  rw [List.append_nil, headerLength] at again
  exact ⟨header, isHeader, grammar, isRouter, again⟩

theorem BgpStateMsg.unpack_pack (localId peerId : BitVec 32) (state : BgpState) :
    ∃ frame, (BgpStateMsg.new localId peerId state).pack = some frame ∧
      BgpStateMsg.unpack frame = .ok (BgpStateMsg.new localId peerId state) := by
  have isBody := stateBody_pack peerId state
  obtain ⟨header, isHeader, grammar, isRouter, again⟩ := frame_of_body rfl isBody .bgpState localId
  obtain ⟨peer, code, unpacked, isPeer, isState⟩ := stateBody_unpackFrom grammar.length_sixteen
  rw [again, Option.some.injEq, List.cons.injEq, List.cons.injEq] at unpacked
  obtain ⟨samePeer, rfl, -⟩ := unpacked
  rw [← samePeer] at isPeer
  refine ⟨_, ?_, BgpStateMsg.unpack_eq_ok_iff.mpr
    ⟨grammar, rfl, rfl, isRouter, isPeer, isState⟩⟩
  have isSize : bgpStateLen = 16 := rfl
  rw [BgpStateMsg.pack, RouterMsg.pack, BgpStateMsg.new, isSize, isHeader, Option.bind_some,
    isBody]
  rfl

theorem BgpStateMsg.pack_unpack {msg : BgpStateMsg}
    (accepted : BgpStateMsg.unpack frame = .ok msg) : msg.pack = some (zeroFrom 13 frame) := by
  obtain ⟨grammar, isType, isSize, isRouter, isPeer, isState⟩ :=
    BgpStateMsg.unpack_eq_ok_iff.mp accepted
  have whole := grammar.length_sixteen
  obtain ⟨peer, code, unpacked, samePeer, sameState⟩ := stateBody_unpackFrom whole
  rw [isPeer, Option.some.injEq] at samePeer
  rw [isState, Option.some.injEq] at sameState
  have body := Layout.pack_unpackFrom unpacked
  rw [← samePeer, ← sameState] at body
  rw [BgpStateMsg.pack, RouterMsg.pack, isType, isSize, grammar.routerMsgPack isRouter,
    Option.bind_some, body, Option.map_some, zeroFrom, whole]
  simp only [stateBody, Layout.cleared, List.drop_drop, headerLen, List.append_nil]
  rw [← List.append_assoc, ← List.append_assoc, ← List.take_add, ← List.take_add]

theorem BgpAnnounce.unpack_pack (localId peerId : BitVec 32) :
    ∃ frame, (BgpAnnounce.new localId peerId).pack = some frame ∧
      BgpAnnounce.unpack frame = .ok (BgpAnnounce.new localId peerId) := by
  have isBody := announceBody_pack peerId
  obtain ⟨header, isHeader, grammar, isRouter, again⟩ :=
    frame_of_body rfl isBody .bgpAnnounce localId
  obtain ⟨peer, unpacked, isPeer⟩ := announceBody_unpackFrom grammar.length_sixteen
  rw [again, Option.some.injEq, List.cons.injEq] at unpacked
  rw [← unpacked.1] at isPeer
  refine ⟨_, ?_, BgpAnnounce.unpack_eq_ok_iff.mpr ⟨grammar, rfl, rfl, isRouter, isPeer⟩⟩
  have isSize : bgpAnnounceLen = 16 := rfl
  rw [BgpAnnounce.pack, RouterMsg.pack, BgpAnnounce.new, isSize, isHeader, Option.bind_some,
    isBody]
  rfl

theorem BgpAnnounce.pack_unpack {msg : BgpAnnounce}
    (accepted : BgpAnnounce.unpack frame = .ok msg) : msg.pack = some (zeroFrom 12 frame) := by
  obtain ⟨grammar, isType, isSize, isRouter, isPeer⟩ := BgpAnnounce.unpack_eq_ok_iff.mp accepted
  have whole := grammar.length_sixteen
  obtain ⟨peer, unpacked, samePeer⟩ := announceBody_unpackFrom whole
  rw [isPeer, Option.some.injEq] at samePeer
  have body := Layout.pack_unpackFrom unpacked
  rw [← samePeer] at body
  rw [BgpAnnounce.pack, RouterMsg.pack, isType, isSize, grammar.routerMsgPack isRouter,
    Option.bind_some, body, Option.map_some, zeroFrom, whole]
  simp only [announceBody, Layout.cleared, headerLen, List.append_nil]
  rw [← List.append_assoc, ← List.take_add]

theorem BgpActivity.unpack_pack (localId : BitVec 32) :
    ∃ frame, (BgpActivity.new localId).pack = some frame ∧
      BgpActivity.unpack frame = .ok (BgpActivity.new localId) := by
  obtain ⟨header, isHeader⟩ := @routerMsgPack_defined headerLen (by decide) (by decide)
    .bgpActivity localId
  obtain ⟨grammar, isRouter, -⟩ :=
    @frameGrammar_of_routerMsgPack _ _ _ _ [] isHeader rfl
  rw [List.append_nil] at grammar isRouter
  exact ⟨header, isHeader, BgpActivity.unpack_eq_ok_iff.mpr ⟨grammar, rfl, rfl, isRouter⟩⟩

theorem BgpActivity.pack_unpack {msg : BgpActivity}
    (accepted : BgpActivity.unpack frame = .ok msg) : msg.pack = some frame := by
  obtain ⟨grammar, isType, isSize, isRouter⟩ := BgpActivity.unpack_eq_ok_iff.mp accepted
  have whole : frame.length = headerLen := grammar.padded
  rw [RouterMsg.pack, isType, isSize, grammar.routerMsgPack isRouter, ← whole, List.take_length]

theorem fibEntriesPack_defined (inRange : ∀ route ∈ routes, route.dest.len ≤ 32) :
    ∃ entries, fibEntriesPack routes = some entries := by
  induction routes with
  | nil => exact ⟨[], rfl⟩
  | cons route rest ih =>
    rw [List.forall_mem_cons] at inRange
    obtain ⟨entries, isEntries⟩ := ih inRange.2
    rw [fibEntriesPack, fibEntryPack, cidrToNetmask, if_pos inRange.1, isEntries]
    exact ⟨_, rfl⟩

/-- A list of at most `MAX_FIB_ENTRIES` routes fits in a message. -/
theorem size_le_of_length_le (few : count ≤ maxFibEntries) :
    headerLen + count * fibEntryLen ≤ maxMessageSize := by
  have bound : maxFibEntries = 5460 := rfl
  rw [headerLen, fibEntryLen, maxMessageSize]
  omega

theorem BgpFibMsg.pack_of_parts {padded : Nat} {header entries : List (BitVec 8)}
    (isSize : headerLen + msg.routes.length * fibEntryLen = size)
    (isPadded : wireSize size = some padded)
    (isHeader : routerMsgPack msg.type size msg.routerId = some header)
    (isRoutes : msg.routes = routes.map FibRoute.text)
    (isEntries : fibEntriesPack routes = some entries) :
    msg.pack = some (header ++ entries ++ List.replicate (padded - size) 0) := by
  have read : readRoutes msg.routes = some routes := by rw [isRoutes, readRoutes_text]
  simp only [BgpFibMsg.pack, isSize, isPadded, isHeader, read, isEntries, Option.bind_some,
    Option.map_some]

/-- The message object packs to the bytes of its routes. -/
theorem BgpFibMsg.pack_eq_bgpFibPack (isType : msg.type = .bgpFib)
    (isRoutes : msg.routes = routes.map FibRoute.text) :
    msg.pack = bgpFibPack msg.routerId routes := by
  simp only [BgpFibMsg.pack, bgpFibPack, isType, isRoutes, List.length_map, readRoutes_text,
    Option.bind_some]

theorem BgpFibMsg.unpack_pack {localId : BitVec 32} (few : routes.length ≤ maxFibEntries)
    (inRange : ∀ route ∈ routes, route.dest.len ≤ 32) :
    ∃ msg frame, BgpFibMsg.new localId (routes.map FibRoute.text) = some msg ∧
      msg.pack = some frame ∧ BgpFibMsg.unpack frame = .ok msg := by
  have atLeast : headerLen ≤ headerLen + routes.length * fibEntryLen := Nat.le_add_right _ _
  have atMost := size_le_of_length_le few
  have isPadded : wireSize (headerLen + routes.length * fibEntryLen) =
      some ((headerLen + routes.length * fibEntryLen + 7) / 8 * 8) :=
    wireSize_eq_some_iff.mpr ⟨⟨atLeast, atMost⟩, rfl⟩
  obtain ⟨header, isHeader⟩ := routerMsgPack_defined atLeast atMost .bgpFib localId
  obtain ⟨entries, isEntries⟩ := fibEntriesPack_defined inRange
  have length := length_fibEntriesPack isEntries
  obtain ⟨grammar, isRouter, headerLength⟩ :=
    @frameGrammar_of_routerMsgPack _ _ _ _ (entries ++ List.replicate
      ((headerLen + routes.length * fibEntryLen + 7) / 8 * 8 -
        (headerLen + routes.length * fibEntryLen)) 0) isHeader (by
      rw [List.length_append, length, List.length_replicate]
      omega)
  have isSize : headerLen + (routes.map FibRoute.text).length * fibEntryLen =
      headerLen + routes.length * fibEntryLen := by
    rw [List.length_map]
  refine ⟨⟨⟨.bgpFib, headerLen + routes.length * fibEntryLen, localId⟩,
    routes.map FibRoute.text⟩, _, ?_,
    BgpFibMsg.pack_of_parts isSize isPadded isHeader rfl isEntries, ?_⟩
  · simp only [BgpFibMsg.new, isSize, isPadded, Option.map_some]
  · rw [List.append_assoc]
    refine BgpFibMsg.unpack_eq_ok_iff.mpr ⟨grammar, rfl, isRouter, routes, rfl, ?_⟩
    have front : (header ++ entries).length = headerLen + routes.length * fibEntryLen := by
      rw [List.length_append, headerLength, length]
    rw [isEntries, frameEntries, ← List.append_assoc, List.take_left' front,
      List.drop_left' headerLength]

theorem BgpFibMsg.pack_unpack (accepted : BgpFibMsg.unpack frame = .ok msg) :
    msg.pack = some (zeroFrom msg.size frame) := by
  obtain ⟨grammar, isType, isRouter, routes, isRoutes, isEntries⟩ :=
    BgpFibMsg.unpack_eq_ok_iff.mp accepted
  have length := length_fibEntriesPack isEntries
  rw [grammar.length_frameEntries] at length
  have isSize : headerLen + msg.routes.length * fibEntryLen = msg.size := by
    rw [isRoutes, List.length_map, ← length, Nat.add_sub_of_le grammar.atLeast]
  have isPadded : wireSize msg.size = some frame.length :=
    wireSize_eq_some_iff.mpr ⟨⟨grammar.atLeast, grammar.atMost⟩, grammar.padded⟩
  have front : frame.take headerLen ++ frameEntries msg.size frame = frame.take msg.size := by
    rw [frameEntries, ← Nat.min_eq_left grammar.atLeast, ← List.take_take,
      Nat.min_eq_left grammar.atLeast, List.take_append_drop]
  have isHeader : routerMsgPack msg.type msg.size msg.routerId = some (frame.take headerLen) := by
    rw [isType, grammar.routerMsgPack isRouter]
  rw [BgpFibMsg.pack_of_parts isSize isPadded isHeader isRoutes isEntries, front, zeroFrom]

/-- Packing a message and unpacking the bytes gives the message back; unpacking accepted
bytes and packing the message gives the bytes back with zeros for the padding. -/
theorem messages_round_trip :
    ((∀ localId peerId state, ∃ frame,
          (BgpStateMsg.new localId peerId state).pack = some frame ∧
            BgpStateMsg.unpack frame = .ok (BgpStateMsg.new localId peerId state)) ∧
        (∀ localId peerId, ∃ frame, (BgpAnnounce.new localId peerId).pack = some frame ∧
          BgpAnnounce.unpack frame = .ok (BgpAnnounce.new localId peerId)) ∧
        (∀ localId, ∃ frame, (BgpActivity.new localId).pack = some frame ∧
          BgpActivity.unpack frame = .ok (BgpActivity.new localId)) ∧
        ∀ localId (routes : List FibRoute), routes.length ≤ maxFibEntries →
          (∀ route ∈ routes, route.dest.len ≤ 32) →
          ∃ msg frame, BgpFibMsg.new localId (routes.map FibRoute.text) = some msg ∧
            msg.pack = some frame ∧ BgpFibMsg.unpack frame = .ok msg) ∧
      ∀ frame,
        (∀ msg, BgpStateMsg.unpack frame = .ok msg → msg.pack = some (zeroFrom 13 frame)) ∧
        (∀ msg, BgpAnnounce.unpack frame = .ok msg → msg.pack = some (zeroFrom 12 frame)) ∧
        (∀ msg, BgpActivity.unpack frame = .ok msg → msg.pack = some frame) ∧
        ∀ msg, BgpFibMsg.unpack frame = .ok msg → msg.pack = some (zeroFrom msg.size frame) := by
  constructor
  · refine ⟨BgpStateMsg.unpack_pack, BgpAnnounce.unpack_pack, BgpActivity.unpack_pack, ?_⟩
    intro localId routes few inRange
    exact BgpFibMsg.unpack_pack few inRange
  · intro frame
    refine ⟨?_, ?_, ?_, ?_⟩
    · exact fun msg accepted => BgpStateMsg.pack_unpack accepted
    · exact fun msg accepted => BgpAnnounce.pack_unpack accepted
    · exact fun msg accepted => BgpActivity.pack_unpack accepted
    · exact fun msg accepted => BgpFibMsg.pack_unpack accepted

end Horse.Bgp
