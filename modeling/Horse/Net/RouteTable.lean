import Horse.Lib.Util

/-!
# Route tables and ARP tables

The IPv4 route table is a Patricia tree from prefixes to arrays of next hops.
The tree is taken as what it stores: a list of prefixes, each with the entries
added for it, searched for the longest prefix that contains an address.  An array
is created with its first entry, so it is never empty.

The ARP table is a hash table keyed by the address, with the entry added last in
front.
-/

namespace Horse.Net

open Horse.Lib

/-- `struct route_entry_v4` without the two fields that nothing sets. -/
structure RouteEntryV4 where
  ip : BitVec 32
  netmask : BitVec 32
  gateway : BitVec 32
  iface : BitVec 32
  deriving DecidableEq, Repr

/-- A tree node with its prefix and the next hops stored there. -/
structure RouteNode where
  ip : BitVec 32
  bitlen : Nat
  nextHops : List RouteEntryV4
  nonempty : nextHops ≠ []
  deriving DecidableEq, Repr

/-- The IPv4 part of `struct route_table`. -/
structure RouteTable where
  nodes : List RouteNode
  deriving DecidableEq, Repr

/-- Two addresses agree in their first `bitlen` bits. -/
def samePrefix (a b : BitVec 32) (bitlen : Nat) : Bool :=
  a >>> (32 - bitlen) == b >>> (32 - bitlen)

/-- The prefix length that `add_ipv4_entry` reads off a netmask. -/
def maskBitlen (netmask : BitVec 32) : Nat :=
  32 - ntz netmask

/-- Add an entry to the node of its prefix, which is made if it is missing. -/
def insertRoute (e : RouteEntryV4) (bitlen : Nat) : List RouteNode → List RouteNode
  | [] => [⟨e.ip, bitlen, [e], by simp⟩]
  | node :: rest =>
    if node.bitlen = bitlen ∧ samePrefix node.ip e.ip bitlen then
      { node with nextHops := node.nextHops ++ [e], nonempty := by simp } :: rest
    else node :: insertRoute e bitlen rest

/-- `add_ipv4_entry`. -/
def addIpv4Entry (rt : RouteTable) (e : RouteEntryV4) : RouteTable where
  nodes := insertRoute e (maskBitlen e.netmask) rt.nodes

/-- The next hops stored for a prefix, in the order of the array. -/
def RouteTable.hopsAt (rt : RouteTable) (ip : BitVec 32) (bitlen : Nat) : List RouteEntryV4 :=
  ((rt.nodes.find? fun node => node.bitlen = bitlen ∧ samePrefix node.ip ip bitlen).map
    RouteNode.nextHops).getD []

/-- The entry is one for the prefix. -/
def RouteEntryV4.isFor (e : RouteEntryV4) (ip : BitVec 32) (bitlen : Nat) : Bool :=
  maskBitlen e.netmask = bitlen ∧ samePrefix e.ip ip bitlen

/-- Adding an entry appends it to the next hops of its prefix and changes no others. -/
theorem hopsAt_addIpv4Entry (rt : RouteTable) (e : RouteEntryV4) (ip : BitVec 32)
    (bitlen : Nat) :
    (addIpv4Entry rt e).hopsAt ip bitlen =
      rt.hopsAt ip bitlen ++ if e.isFor ip bitlen then [e] else [] := by
  unfold RouteTable.hopsAt addIpv4Entry
  induction rt.nodes with
  | nil =>
    by_cases isFor : maskBitlen e.netmask = bitlen ∧ samePrefix e.ip ip bitlen
    · simp [insertRoute, RouteEntryV4.isFor, isFor]
    · simp [insertRoute, RouteEntryV4.isFor, isFor]
  | cons node rest ih =>
    by_cases here : node.bitlen = maskBitlen e.netmask ∧
        samePrefix node.ip e.ip (maskBitlen e.netmask)
    · rw [insertRoute, if_pos here]
      -- The prefix of the node is that of the entry.
      have sameFor : (node.bitlen = bitlen ∧ samePrefix node.ip ip bitlen) ↔
          e.isFor ip bitlen := by
        rcases here with ⟨sameLen, same⟩
        simp only [samePrefix, beq_iff_eq, RouteEntryV4.isFor, decide_eq_true_eq] at same ⊢
        rw [sameLen]
        refine and_congr_right fun isLen => ?_
        rw [← isLen, same]
      by_cases asked : node.bitlen = bitlen ∧ samePrefix node.ip ip bitlen
      · simp [asked, sameFor.mp asked]
      · simp [asked, mt sameFor.mpr asked]
    · rw [insertRoute, if_neg here]
      by_cases asked : node.bitlen = bitlen ∧ samePrefix node.ip ip bitlen
      · have notFor : ¬e.isFor ip bitlen := by
          intro isFor
          apply here
          simp only [samePrefix, beq_iff_eq, RouteEntryV4.isFor, decide_eq_true_eq]
            at asked isFor ⊢
          rw [isFor.1]
          exact ⟨asked.1, asked.2.trans isFor.2.symm⟩
        simp [asked, notFor]
      · simpa [asked] using ih

/-- Adding entries one after another. -/
theorem hopsAt_foldl_addIpv4Entry (rt : RouteTable) (entries : List RouteEntryV4)
    (ip : BitVec 32) (bitlen : Nat) :
    (entries.foldl addIpv4Entry rt).hopsAt ip bitlen =
      rt.hopsAt ip bitlen ++ entries.filter fun e => e.isFor ip bitlen := by
  induction entries generalizing rt with
  | nil => simp
  | cons e rest ih =>
    rw [List.foldl_cons, ih, hopsAt_addIpv4Entry, List.append_assoc, List.filter_cons]
    split <;> rfl

/-- The node of the longest prefix that contains an address. -/
def longestMatch (ip : BitVec 32) : List RouteNode → Option RouteNode
  | [] => none
  | node :: rest =>
    if samePrefix node.ip ip node.bitlen then
      match longestMatch ip rest with
      | none => some node
      | some other => if node.bitlen < other.bitlen then some other else some node
    else longestMatch ip rest

/-- The next hop with the index that a hash selects. -/
def RouteNode.nextHop (node : RouteNode) (hash : BitVec 32) : RouteEntryV4 :=
  node.nextHops.get ⟨hash.toNat % node.nextHops.length,
    Nat.mod_lt _ (List.length_pos_iff.mpr node.nonempty)⟩

/-- `ipv4_lookup`. -/
def ipv4Lookup (rt : RouteTable) (ip hash : BitVec 32) : Option RouteEntryV4 :=
  (longestMatch ip rt.nodes).map fun node => node.nextHop hash

/-- `struct arp_table_entry`. -/
structure ArpTableEntry where
  ip : BitVec 32
  ethAddr : BitVec 48
  iface : BitVec 32
  deriving DecidableEq, Repr

/-- `struct arp_table`. -/
structure ArpTable where
  entries : List ArpTableEntry
  deriving DecidableEq, Repr

/-- `arp_table_add_entry`, which does not look for an entry with the address. -/
def arpTableAddEntry (at_ : ArpTable) (e : ArpTableEntry) : ArpTable where
  entries := e :: at_.entries

/-- `arp_table_lookup`. -/
def arpTableLookup (at_ : ArpTable) (ip : BitVec 32) : Option ArpTableEntry :=
  at_.entries.find? fun e => e.ip == ip

end Horse.Net
