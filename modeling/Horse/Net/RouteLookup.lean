import Horse.Codec.Masks
import Horse.Net.RoutingMsg

/-!
# Longest prefix match

A route table is a sequence of entries to its users: an address has the entries of the
longest of their prefixes that contains it, and a hash selects one of these in the order in
which they were added.
-/

namespace Horse.Net

open Horse.Codec Horse.Lib

/-- The netmask of a prefix with `len` bits. -/
def netmaskOf (len : Nat) : BitVec 32 :=
  fieldMask 32 (32 - len) len

/-- The entry has a contiguous netmask, and an address that is masked by it. -/
def RouteEntryV4.Masked (e : RouteEntryV4) : Prop :=
  (∃ len < 33, e.netmask = netmaskOf len) ∧ e.ip &&& e.netmask = e.ip

instance (e : RouteEntryV4) : Decidable e.Masked :=
  inferInstanceAs (Decidable (_ ∧ _))

/-- The prefix of the entry contains an address. -/
def RouteEntryV4.Contains (e : RouteEntryV4) (ip : BitVec 32) : Prop :=
  ip &&& e.netmask = e.ip

instance (e : RouteEntryV4) (ip : BitVec 32) : Decidable (e.Contains ip) :=
  inferInstanceAs (Decidable (_ = _))

/-- The entries with the prefix of one of them, in their order. -/
def samePrefixEntries (entries : List RouteEntryV4) (e : RouteEntryV4) : List RouteEntryV4 :=
  entries.filter fun other => other.ip = e.ip ∧ other.netmask = e.netmask

/-! ## Prefix lengths -/

variable {len : Nat}

theorem maskBitlen_netmaskOf (inside : len < 33) : maskBitlen (netmaskOf len) = len := by
  revert len
  decide

theorem netmaskOf_le_iff {other : Nat} (inside : len < 33) (otherInside : other < 33) :
    netmaskOf len ≤ netmaskOf other ↔ len ≤ other := by
  have order : ∀ len < 33, ∀ other < 33, netmaskOf len ≤ netmaskOf other ↔ len ≤ other := by
    decide +kernel
  exact order len inside other otherInside

theorem getElem_netmaskOf {i : Nat} (inside : len < 33) (small : i < 32) :
    (netmaskOf len)[i] = decide (32 - len ≤ i) := by
  rw [netmaskOf, getElem_fieldMask]
  have top : i < 32 - len + len := by omega
  simp [top]

theorem and_netmaskOf_eq_iff (inside : len < 33) (a b : BitVec 32) :
    a &&& netmaskOf len = b &&& netmaskOf len ↔
      ∀ i < 32, 32 - len ≤ i → a.getLsbD i = b.getLsbD i := by
  constructor
  · intro masked i small high
    have bits := congrArg (fun word => word.getLsbD i) masked
    have inMask : (netmaskOf len).getLsbD i = true := by
      rw [BitVec.getLsbD_eq_getElem small, getElem_netmaskOf inside small]
      exact decide_eq_true high
    simpa only [BitVec.getLsbD_and, inMask, Bool.and_true] using bits
  · intro bits
    ext i small
    rw [BitVec.getElem_and, BitVec.getElem_and, getElem_netmaskOf inside small]
    by_cases high : 32 - len ≤ i
    · rw [← BitVec.getLsbD_eq_getElem, ← BitVec.getLsbD_eq_getElem, bits i small high]
    · simp [high]

/-- Addresses have the same first bits if they are the same under the mask of these. -/
theorem samePrefix_iff (inside : len < 33) (a b : BitVec 32) :
    samePrefix a b len ↔ a &&& netmaskOf len = b &&& netmaskOf len := by
  rw [samePrefix, beq_iff_eq, and_netmaskOf_eq_iff inside]
  constructor
  · intro shifted i _ high
    have bits := congrArg (fun word => word.getLsbD (i - (32 - len))) shifted
    simpa only [BitVec.getLsbD_ushiftRight, Nat.add_sub_cancel' high] using bits
  · intro bits
    apply BitVec.eq_of_getLsbD_eq
    intro i _
    rw [BitVec.getLsbD_ushiftRight, BitVec.getLsbD_ushiftRight]
    by_cases within : 32 - len + i < 32
    · exact bits _ within (Nat.le_add_right _ _)
    · rw [BitVec.getLsbD_of_ge _ _ (Nat.not_lt.mp within),
        BitVec.getLsbD_of_ge _ _ (Nat.not_lt.mp within)]

namespace RouteEntryV4

variable {e other : RouteEntryV4}

/-- The prefix length that the table computes is that of the netmask. -/
theorem Masked.netmask_eq (masked : e.Masked) :
    maskBitlen e.netmask < 33 ∧ e.netmask = netmaskOf (maskBitlen e.netmask) := by
  obtain ⟨⟨len, inside, isNetmask⟩, -⟩ := masked
  rw [isNetmask, maskBitlen_netmaskOf inside]
  exact ⟨inside, rfl⟩

theorem Masked.isFor_iff (masked : e.Masked) (ip : BitVec 32) (len : Nat) :
    e.isFor ip len ↔ maskBitlen e.netmask = len ∧ e.Contains ip := by
  obtain ⟨inside, isNetmask⟩ := masked.netmask_eq
  rw [isFor, decide_eq_true_eq]
  refine and_congr_right fun isLen => ?_
  rw [← isLen, samePrefix_iff inside, ← isNetmask, masked.2, Contains, eq_comm]

theorem Masked.netmask_le_iff (masked : e.Masked) (otherMasked : other.Masked) :
    e.netmask ≤ other.netmask ↔ maskBitlen e.netmask ≤ maskBitlen other.netmask := by
  obtain ⟨inside, isNetmask⟩ := masked.netmask_eq
  obtain ⟨otherInside, otherIsNetmask⟩ := otherMasked.netmask_eq
  rw [← netmaskOf_le_iff inside otherInside, ← isNetmask, ← otherIsNetmask]

end RouteEntryV4

/-! ## The tree

The keys of the tree are addresses in network order, whose bits are tested from the highest
one of the first byte on. -/

section Tree

variable {ip : BitVec 32} {nodes : List RouteNode} {node : RouteNode}

theorem hopsAt_cons (first : RouteNode) (len : Nat) :
    (⟨first :: nodes⟩ : RouteTable).hopsAt ip len =
      if first.bitlen = len ∧ samePrefix first.ip ip first.bitlen then first.nextHops
      else (⟨nodes⟩ : RouteTable).hopsAt ip len := by
  unfold RouteTable.hopsAt
  rw [List.find?_cons]
  by_cases isLen : first.bitlen = len
  · subst isLen
    by_cases here : samePrefix first.ip ip first.bitlen <;> simp [here]
  · simp [isLen]

/-- Where no node is found, no prefix of the address has next hops. -/
theorem hopsAt_of_longestMatch_none (missing : longestMatch ip nodes = none) (len : Nat) :
    (⟨nodes⟩ : RouteTable).hopsAt ip len = [] := by
  induction nodes with
  | nil => rfl
  | cons first rest ih =>
    rw [longestMatch] at missing
    split at missing
    · split at missing
      · cases missing
      · split at missing <;> cases missing
    · rename_i notHere
      rw [hopsAt_cons, if_neg fun here => notHere here.2]
      exact ih missing

/-- The node that is found has the next hops of its prefix, and no longer prefix of the
address has any. -/
theorem hopsAt_of_longestMatch (found : longestMatch ip nodes = some node) :
    (⟨nodes⟩ : RouteTable).hopsAt ip node.bitlen = node.nextHops ∧
      ∀ len, node.bitlen < len → (⟨nodes⟩ : RouteTable).hopsAt ip len = [] := by
  induction nodes generalizing node with
  | nil => cases found
  | cons first rest ih =>
    rw [longestMatch] at found
    simp only [hopsAt_cons]
    split at found
    · rename_i here
      split at found
      · rename_i missing
        cases found
        refine ⟨if_pos ⟨rfl, here⟩, fun len longer => ?_⟩
        rw [if_neg fun same => Nat.ne_of_lt longer same.1, hopsAt_of_longestMatch_none missing]
      · rename_i other isOther
        obtain ⟨otherHops, noLonger⟩ := ih isOther
        split at found
        · rename_i otherLonger
          cases found
          refine ⟨?_, fun len longer => ?_⟩
          · rw [if_neg fun same => Nat.ne_of_lt otherLonger same.1, otherHops]
          · have different : first.bitlen ≠ len := by omega
            rw [if_neg fun same => different same.1, noLonger len longer]
        · rename_i notLonger
          cases found
          refine ⟨if_pos ⟨rfl, here⟩, fun len longer => ?_⟩
          rw [if_neg fun same => Nat.ne_of_lt longer same.1, noLonger len (by omega)]
    · rename_i notHere
      obtain ⟨hops, noLonger⟩ := ih found
      refine ⟨?_, fun len longer => ?_⟩
      · rw [if_neg fun same => notHere same.2, hops]
      · rw [if_neg fun same => notHere same.2, noLonger len longer]

end Tree

/-! ## Lookups -/

section Lookup

variable {entries : List RouteEntryV4} {ip : BitVec 32}

/-- The table after a sequence of entries. -/
def routeTableOf (entries : List RouteEntryV4) : RouteTable :=
  entries.foldl addIpv4Entry ⟨[]⟩

variable {best : RouteEntryV4} (masked : ∀ e ∈ entries, e.Masked)

include masked

theorem hopsAt_routeTableOf (ip : BitVec 32) (len : Nat) :
    (routeTableOf entries).hopsAt ip len =
      entries.filter fun e => maskBitlen e.netmask = len ∧ e.Contains ip := by
  rw [routeTableOf, hopsAt_foldl_addIpv4Entry]
  apply List.filter_congr
  intro e member
  rw [Bool.eq_iff_iff, (masked e member).isFor_iff, decide_eq_true_eq]

/-- The entries for the prefix of an entry that contains an address are those of its
length that contain it. -/
theorem samePrefixEntries_eq (member : best ∈ entries) (contains : best.Contains ip) :
    samePrefixEntries entries best =
      entries.filter fun e => maskBitlen e.netmask = maskBitlen best.netmask ∧ e.Contains ip := by
  apply List.filter_congr
  intro e isEntry
  rw [decide_eq_decide]
  constructor
  · rintro ⟨sameIp, sameMask⟩
    rw [RouteEntryV4.Contains, sameMask, sameIp]
    exact ⟨rfl, contains⟩
  · rintro ⟨sameLen, isContained⟩
    have sameMask : e.netmask = best.netmask := by
      rw [(masked e isEntry).netmask_eq.2, sameLen, ← (masked best member).netmask_eq.2]
    rw [RouteEntryV4.Contains, sameMask, contains] at isContained
    exact ⟨isContained.symm, sameMask⟩

/-- A lookup fails exactly if no entry contains the address. -/
theorem ipv4Lookup_eq_none_iff (hash : BitVec 32) :
    ipv4Lookup (routeTableOf entries) ip hash = none ↔ ∀ e ∈ entries, ¬e.Contains ip := by
  rw [ipv4Lookup, Option.map_eq_none_iff]
  constructor
  · intro missing e member contains
    have nothing : (routeTableOf entries).hopsAt ip (maskBitlen e.netmask) = [] :=
      hopsAt_of_longestMatch_none missing _
    rw [hopsAt_routeTableOf masked, List.filter_eq_nil_iff] at nothing
    exact nothing e member (decide_eq_true ⟨rfl, contains⟩)
  · intro notContained
    cases found : longestMatch ip (routeTableOf entries).nodes with
    | none => rfl
    | some node =>
      have hops : (routeTableOf entries).hopsAt ip node.bitlen = node.nextHops :=
        (hopsAt_of_longestMatch found).1
      rw [hopsAt_routeTableOf masked, List.filter_eq_nil_iff.mpr] at hops
      · exact absurd hops.symm node.nonempty
      · intro e member isContained
        exact notContained e member (of_decide_eq_true isContained).2

/-- The node that is found is that of the longest prefix with the address. -/
theorem nextHops_of_longestMatch {node : RouteNode}
    (found : longestMatch ip (routeTableOf entries).nodes = some node) (member : best ∈ entries)
    (contains : best.Contains ip)
    (longest : ∀ e ∈ entries, e.Contains ip → e.netmask ≤ best.netmask) :
    node.nextHops = samePrefixEntries entries best := by
  obtain ⟨hops, noLonger⟩ : (routeTableOf entries).hopsAt ip node.bitlen = node.nextHops ∧
      ∀ len, node.bitlen < len → (routeTableOf entries).hopsAt ip len = [] :=
    hopsAt_of_longestMatch found
  simp only [hopsAt_routeTableOf masked] at hops noLonger
  have atLeast : maskBitlen best.netmask ≤ node.bitlen := by
    refine Nat.not_lt.mp fun longer => ?_
    exact List.filter_eq_nil_iff.mp (noLonger _ longer) best member
      (decide_eq_true ⟨rfl, contains⟩)
  have atMost : node.bitlen ≤ maskBitlen best.netmask := by
    obtain ⟨e, isHop⟩ := List.exists_mem_of_ne_nil _ node.nonempty
    rw [← hops, List.mem_filter, decide_eq_true_eq] at isHop
    obtain ⟨isEntry, isLen, isContained⟩ := isHop
    rw [← isLen, ← (masked e isEntry).netmask_le_iff (masked best member)]
    exact longest e isEntry isContained
  rw [← hops, Nat.le_antisymm atMost atLeast, samePrefixEntries_eq masked member contains]

/-- The hash selects one of the next hops for the longest prefix. -/
theorem ipv4Lookup_of_longest (hash : BitVec 32) (member : best ∈ entries)
    (contains : best.Contains ip)
    (longest : ∀ e ∈ entries, e.Contains ip → e.netmask ≤ best.netmask) :
    1 ≤ (samePrefixEntries entries best).length ∧
      ipv4Lookup (routeTableOf entries) ip hash = (samePrefixEntries entries best)[
        hash.toNat % (samePrefixEntries entries best).length]? := by
  cases found : longestMatch ip (routeTableOf entries).nodes with
  | none =>
    have missing : ipv4Lookup (routeTableOf entries) ip hash = none := by
      rw [ipv4Lookup, found, Option.map_none]
    exact absurd contains ((ipv4Lookup_eq_none_iff masked hash).mp missing best member)
  | some node =>
    rw [← nextHops_of_longestMatch masked found member contains longest, ipv4Lookup, found,
      Option.map_some]
    have inside : hash.toNat % node.nextHops.length < node.nextHops.length :=
      Nat.mod_lt _ (List.length_pos_iff.mpr node.nonempty)
    refine ⟨List.length_pos_iff.mpr node.nonempty, ?_⟩
    rw [List.getElem?_eq_getElem inside]
    rfl

end Lookup

/-- `ipv4_lookup` after any sequence of `add_ipv4_entry` with contiguous netmasks and masked
addresses is longest prefix match.  Of two contiguous netmasks the longer one is the larger
number. -/
theorem ipv4Lookup_longestPrefix (entries : List RouteEntryV4) (masked : ∀ e ∈ entries, e.Masked)
    (ip hash : BitVec 32) :
    (ipv4Lookup (routeTableOf entries) ip hash = none ↔ ∀ e ∈ entries, ¬e.Contains ip) ∧
      ∀ best ∈ entries, best.Contains ip →
        (∀ e ∈ entries, e.Contains ip → e.netmask ≤ best.netmask) →
          1 ≤ (samePrefixEntries entries best).length ∧
            ipv4Lookup (routeTableOf entries) ip hash =
              (samePrefixEntries entries best)[
                hash.toNat % (samePrefixEntries entries best).length]? :=
  ⟨ipv4Lookup_eq_none_iff masked hash, fun _ member contains longest =>
    ipv4Lookup_of_longest masked hash member contains longest⟩

/-- A default route, and two next hops for `10.0.0.0/8`. -/
def threeRoutes : List RouteEntryV4 :=
  [⟨0x0a000000, 0xff000000, 1, 1⟩, ⟨0, 0, 2, 1⟩, ⟨0x0a000000, 0xff000000, 3, 2⟩]

/-- An odd hash selects the second next hop. -/
theorem ipv4Lookup_threeRoutes :
    ipv4Lookup (routeTableOf threeRoutes) 0x0a010203 7 = some ⟨0x0a000000, 0xff000000, 3, 2⟩ := by
  have best := (ipv4Lookup_longestPrefix threeRoutes (by decide) 0x0a010203 7).2
    ⟨0x0a000000, 0xff000000, 1, 1⟩ (by decide) (by decide) (by decide)
  exact best.2.trans (by decide)

end Horse.Net
