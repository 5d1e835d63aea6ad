import Horse.Lib.BitCount
import Horse.Net.Node
import Horse.Net.RouteTable

/-!
# Prefix lengths

A prefix length is read off a netmask in two ways: the route table takes the number of bits
above the trailing zeros, and the configuration of a router's port takes the number of one
bits.  For the netmasks in use, whose ones are all at the top, both are the same.
-/

namespace Horse.Net

open Horse.Lib

/-- The variable `mask` of `configure_router_port`. -/
def routerPortMask (info : Ipv4Info) : Nat :=
  (countSetBits info.netmask).toNat

/-- The bit counts are exact for every word, and both prefix lengths of a netmask agree. -/
theorem bitCounts_exact (x : BitVec 32) :
    ntz x = trailingZeros x ∧ nlz x = leadingZeros x ∧ (countSetBits x).toNat = oneBits x ∧
      ∀ addr, TopOnes x → maskBitlen x = routerPortMask ⟨addr, x⟩ := by
  refine ⟨ntz_eq_trailingZeros x, nlz_eq_leadingZeros x, countSetBits_eq_oneBits x, ?_⟩
  intro addr topOnes
  have all := oneBits_add_trailingZeros topOnes
  rw [maskBitlen, routerPortMask, ntz_eq_trailingZeros, countSetBits_eq_oneBits]
  change 32 - trailingZeros x = oneBits x
  omega

/-- A netmask of 24 bits. -/
theorem bitCounts_exact_24 : maskBitlen 0xFFFFFF00 = routerPortMask ⟨0x0A000001, 0xFFFFFF00⟩ := by
  apply (bitCounts_exact 0xFFFFFF00).2.2.2
  have shape : ∀ i < 32, ∀ j < 32, i ≤ j → (0xFFFFFF00#32).getLsbD i = true →
      (0xFFFFFF00#32).getLsbD j = true := by decide +kernel
  intro i j below inside
  exact shape i (by omega) j inside below

end Horse.Net
