import Mathlib.Tactic.ByContra

/-!
# Addresses of routers

Every router that is started gets an address in the internal network, in which the simulator
has one as well.
-/

namespace Horse.Net

/-- `struct internal_net_bytes`, the end of an address that starts with `172.20`. -/
structure InternalNetBytes where
  third : Nat
  fourth : Nat
  deriving DecidableEq, Repr

/-- `gen_internal_ip`.  Nothing is written after the last address. -/
def genInternalIp : InternalNetBytes → Option InternalNetBytes
  | ⟨third, fourth⟩ =>
    if fourth < 254 then some ⟨third, fourth + 1⟩
    else if third = 254 then none
    else some ⟨third + 1, 1⟩

/-- `internal_last_bytes` after some routers were started. -/
def internalLastBytes : Nat → InternalNetBytes
  | 0 => ⟨0, 0⟩
  | routers + 1 => (genInternalIp (internalLastBytes routers)).getD (internalLastBytes routers)

/-- The address of the simulator. -/
def simulatorIp : InternalNetBytes := ⟨254, 254⟩

theorem genInternalIp_eq {earlier : Nat} (few : earlier < 64770) :
    genInternalIp (internalLastBytes earlier) = some ⟨earlier / 254, earlier % 254 + 1⟩ := by
  induction earlier with
  | zero => rfl
  | succ earlier ih =>
    rw [internalLastBytes, ih (by omega), Option.getD_some, genInternalIp]
    split
    · rw [Option.some_inj, InternalNetBytes.mk.injEq]
      omega
    · rw [if_neg (by omega), Option.some_inj, InternalNetBytes.mk.injEq]
      omega

/-- Once the address of the simulator was given out, no other is. -/
theorem internalLastBytes_last (more : Nat) :
    internalLastBytes (64769 + more + 1) = simulatorIp := by
  induction more with
  | zero =>
    rw [internalLastBytes, genInternalIp_eq (by decide)]
    rfl
  | succ more ih =>
    rw [internalLastBytes, ← Nat.add_assoc, ih]
    rfl

/-- Each router that is started gets an address of its own, which is not that of the
simulator, if and only if there are fewer than 64770.  The 64770th address is that of the
simulator, and after it none is written. -/
theorem own_addresses_iff (routers : Nat) :
    ((∀ i < routers, ∃ ip, genInternalIp (internalLastBytes i) = some ip ∧ ip ≠ simulatorIp ∧
        ∀ j < i, genInternalIp (internalLastBytes j) ≠ some ip) ↔ routers < 64770) ∧
      genInternalIp (internalLastBytes 64769) = some simulatorIp ∧
      ∀ i, 64769 < i → genInternalIp (internalLastBytes i) = none := by
  have last : genInternalIp (internalLastBytes 64769) = some simulatorIp :=
    genInternalIp_eq (by decide)
  refine ⟨⟨fun own => ?_, fun few i inside => ?_⟩, last, fun i after => ?_⟩
  · by_contra many
    obtain ⟨ip, isIp, notSimulator, -⟩ := own 64769 (by omega)
    rw [last, Option.some_inj] at isIp
    exact notSimulator isIp.symm
  · refine ⟨_, genInternalIp_eq (by omega), ?_, fun j before => ?_⟩
    · rw [simulatorIp, ne_eq, InternalNetBytes.mk.injEq]
      omega
    · rw [genInternalIp_eq (by omega), ne_eq, Option.some_inj, InternalNetBytes.mk.injEq]
      omega
  · obtain ⟨more, rfl⟩ := Nat.exists_eq_add_of_lt after
    rw [internalLastBytes_last]
    rfl

end Horse.Net
