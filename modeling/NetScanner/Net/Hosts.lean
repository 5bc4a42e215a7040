import NetScanner.Net.Range

/-!
# The hosts of a subnet

`src/core/utils.zig`, what `scanNetwork` makes of a CIDR: `getIpRange` cuts the address at the
mask, `usableHosts` steps over the two ends, and `collectIps` counts from one to the other until
they are equal.

As numbers these are the addresses with one quotient by `2 ^ hostBits`, and all but two of its
remainders; a quotient is the first bits of an address (`sameNetwork_iff_div`), a remainder the
last ones (`allZerosHost_iff_mod`, `allOnesHost_iff_mod`).
-/

namespace NetScanner.Net

open Infra

/-! ## The list of a range -/

/-- The number of the next address, where there is one. -/
theorem incrementIP_toNat {ip last : Ip} (hne : ip ≠ last)
    (hle : (ipToU32 ip).toNat ≤ (ipToU32 last).toNat) :
    (ipToU32 (incrementIP ip)).toNat = (ipToU32 ip).toNat + 1 ∧
      (ipToU32 (incrementIP ip)).toNat ≤ (ipToU32 last).toNat := by
  have hlt := (ipToU32 last).toNat_lt
  have hne' : (ipToU32 ip).toNat ≠ (ipToU32 last).toNat :=
    fun h => hne (ipToU32_injective (UInt32.toNat_inj.mp h))
  rw [ipToU32_incrementIP, UInt32.toNat_add]
  simp only [UInt32.reduceToNat]
  omega

/-- `collectIps` goes up. -/
theorem pairwise_collectIps {first last : Ip}
    (hle : (ipToU32 first).toNat ≤ (ipToU32 last).toNat) :
    (collectIps first last).Pairwise fun a b => ipToU32 a < ipToU32 b := by
  induction first using collectIps.induct last with
  | case1 =>
    rw [collectIps, if_pos rfl]
    exact List.pairwise_singleton _ _
  | case2 first hne ih =>
    obtain ⟨hnext, hle'⟩ := incrementIP_toNat hne hle
    rw [collectIps, if_neg hne, List.pairwise_cons]
    refine ⟨fun ip hip => ?_, ih hle'⟩
    rw [mem_collectIps hle', ipInRange_iff] at hip
    rw [UInt32.lt_iff_toNat_lt]
    omega

theorem length_collectIps {first last : Ip}
    (hle : (ipToU32 first).toNat ≤ (ipToU32 last).toNat) :
    (collectIps first last).length + (ipToU32 first).toNat = (ipToU32 last).toNat + 1 := by
  induction first using collectIps.induct last with
  | case1 =>
    rw [collectIps, if_pos rfl, List.length_singleton, Nat.add_comm]
  | case2 first hne ih =>
    obtain ⟨hnext, hle'⟩ := incrementIP_toNat hne hle
    have hlen := ih hle'
    rw [collectIps, if_neg hne, List.length_cons]
    omega

/-! ## Bits -/

/-- Two addresses agree on their first `n` bits. -/
def SameNetwork (n : Nat) (a b : Ip) : Prop :=
  ∀ i < n, (ipToU32 a).toNat.testBit (31 - i) = (ipToU32 b).toNat.testBit (31 - i)

/-- The bits after the first `n` are all zero. -/
def AllZerosHost (n : Nat) (ip : Ip) : Prop :=
  ∀ i < 32 - n, (ipToU32 ip).toNat.testBit i = false

/-- The bits after the first `n` are all one. -/
def AllOnesHost (n : Nat) (ip : Ip) : Prop :=
  ∀ i < 32 - n, (ipToU32 ip).toNat.testBit i = true

/-- An address has no bit past the 32nd. -/
theorem testBit_ipToU32_of_le (ip : Ip) {i : Nat} (h : 32 ≤ i) :
    (ipToU32 ip).toNat.testBit i = false :=
  Nat.testBit_lt_two_pow
    (Nat.lt_of_lt_of_le (ipToU32 ip).toNat_lt (Nat.pow_le_pow_right (by omega) h))

/-- **The first bits of an address are its quotient.** -/
theorem sameNetwork_iff_div {n : Nat} (hn : n ≤ 32) (a b : Ip) :
    SameNetwork n a b ↔
      (ipToU32 a).toNat / 2 ^ (32 - n) = (ipToU32 b).toNat / 2 ^ (32 - n) := by
  constructor
  · intro h
    apply Nat.eq_of_testBit_eq
    intro i
    rw [Nat.testBit_div_two_pow, Nat.testBit_div_two_pow]
    by_cases hi : i + (32 - n) < 32
    · have hbit := h (31 - (i + (32 - n))) (by omega)
      rwa [show 31 - (31 - (i + (32 - n))) = i + (32 - n) by omega] at hbit
    · rw [testBit_ipToU32_of_le a (by omega), testBit_ipToU32_of_le b (by omega)]
  · intro h i hi
    have hbit := congrArg (fun q => q.testBit (31 - i - (32 - n))) h
    simp only [Nat.testBit_div_two_pow] at hbit
    rwa [show 31 - i - (32 - n) + (32 - n) = 31 - i by omega] at hbit

/-- The last bits are the remainder. -/
theorem allZerosHost_iff_mod (n : Nat) (ip : Ip) :
    AllZerosHost n ip ↔ (ipToU32 ip).toNat % 2 ^ (32 - n) = 0 := by
  constructor
  · intro h
    apply Nat.eq_of_testBit_eq
    intro i
    rw [Nat.testBit_mod_two_pow, Nat.zero_testBit]
    by_cases hi : i < 32 - n
    · rw [h i hi, Bool.and_false]
    · simp [hi]
  · intro h i hi
    have hbit := congrArg (fun r => r.testBit i) h
    simpa [Nat.testBit_mod_two_pow, hi] using hbit

theorem allOnesHost_iff_mod (n : Nat) (ip : Ip) :
    AllOnesHost n ip ↔ (ipToU32 ip).toNat % 2 ^ (32 - n) = 2 ^ (32 - n) - 1 := by
  constructor
  · intro h
    apply Nat.eq_of_testBit_eq
    intro i
    rw [Nat.testBit_mod_two_pow, Nat.testBit_two_pow_sub_one]
    by_cases hi : i < 32 - n
    · rw [h i hi, Bool.and_true]
    · simp [hi]
  · intro h i hi
    have hbit := congrArg (fun r => r.testBit i) h
    simpa [Nat.testBit_mod_two_pow, Nat.testBit_two_pow_sub_one, hi] using hbit

/-! ## The hosts -/

/-- The addresses a scan of a subnet goes through. -/
def Network.ips (network : Network) : List Ip :=
  collectIps (usableHosts network (getIpRange network)).start
    (usableHosts network (getIpRange network)).end

/-- The ends of a subnet's hosts, as numbers. -/
theorem usableHosts_toNat (network : Network) :
    (ipToU32 (usableHosts network (getIpRange network)).start).toNat =
      (ipToU32 (getIpRange network).start).toNat + (if network.prefixLen ≤ 30 then 1 else 0) ∧
    (ipToU32 (usableHosts network (getIpRange network)).end).toNat +
      (if network.prefixLen ≤ 30 then 1 else 0) = (ipToU32 (getIpRange network).end).toNat := by
  have hend := getIpRange_end network
  have hlt := (ipToU32 (getIpRange network).end).toNat_lt
  have hpos : 0 < 2 ^ network.hostBits := Nat.two_pow_pos _
  unfold usableHosts
  by_cases hbits : network.prefixLen ≤ 30
  · rw [if_neg (by omega), if_pos hbits, ipToU32_incrementIP, ipToU32_decrementIP,
      UInt32.toNat_add, UInt32.toNat_sub]
    have hfour : 2 ^ 2 ≤ 2 ^ network.hostBits :=
      Nat.pow_le_pow_right (by omega) (by unfold Network.hostBits; omega)
    simp only [UInt32.reduceToNat]
    omega
  · rw [if_pos (by omega), if_neg hbits]
    exact ⟨rfl, rfl⟩

/--
**A CIDR expands to exactly its hosts**, for every address and every prefix length.
-/
theorem ips_exact (network : Network) :
    network.ips.Pairwise (fun a b => ipToU32 a < ipToU32 b) ∧
      (∀ ip, ip ∈ network.ips ↔ SameNetwork network.prefixLen ip network.address ∧
        (network.prefixLen ≤ 30 →
          ¬AllZerosHost network.prefixLen ip ∧ ¬AllOnesHost network.prefixLen ip)) ∧
      network.ips.length = (if network.prefixLen ≤ 30 then 2 ^ (32 - network.prefixLen) - 2
        else 2 ^ (32 - network.prefixLen)) ∧
      ∀ ip, ipInRange ip (usableHosts network (getIpRange network)).start
        (usableHosts network (getIpRange network)).end = true ↔ ip ∈ network.ips := by
  have hle := usableHosts_le network
  have hstart := getIpRange_start network
  have hend := getIpRange_end network
  obtain ⟨hfirst, hlast⟩ := usableHosts_toNat network
  have hpos : 0 < 2 ^ network.hostBits := Nat.two_pow_pos _
  refine ⟨pairwise_collectIps hle, fun ip => ?_, ?_, fun ip => (mem_collectIps hle ip).symm⟩
  · rw [sameNetwork_iff_div network.prefixLen_le, allZerosHost_iff_mod, allOnesHost_iff_mod]
    show _ ↔ _ / 2 ^ network.hostBits = _ / 2 ^ network.hostBits ∧
      (_ → ¬_ % 2 ^ network.hostBits = 0 ∧ ¬_ % 2 ^ network.hostBits = 2 ^ network.hostBits - 1)
    rw [Network.ips, mem_collectIps hle, ipInRange_iff]
    have hsplit := Nat.div_add_mod (ipToU32 ip).toNat (2 ^ network.hostBits)
    have hmod := Nat.mod_lt (ipToU32 ip).toNat hpos
    by_cases hquot : (ipToU32 ip).toNat / 2 ^ network.hostBits =
        (ipToU32 network.address).toNat / 2 ^ network.hostBits
    · -- in the subnet: the remainder tells
      rw [hquot, ← hstart] at hsplit
      simp only [hquot, true_and]
      split at hfirst
      · next hbits =>
        rw [if_pos hbits] at hlast
        simp only [hbits, true_imp_iff]
        omega
      · next hbits =>
        rw [if_neg hbits] at hlast
        simp only [hbits, false_imp_iff, iff_true]
        omega
    · have houtside : ¬((ipToU32 (getIpRange network).start).toNat ≤ (ipToU32 ip).toNat ∧
          (ipToU32 ip).toNat ≤ (ipToU32 (getIpRange network).end).toNat) := by
        intro hin
        refine hquot (Nat.div_eq_of_lt_le ?_ ?_)
        · rw [Nat.mul_comm, ← hstart]
          exact hin.1
        · rw [Nat.mul_comm, Nat.mul_add, ← hstart, Nat.mul_one]
          omega
      simp only [hquot, false_and, iff_false]
      omega
  · have hlen := length_collectIps hle
    show (collectIps _ _).length = if _ then 2 ^ network.hostBits - 2 else 2 ^ network.hostBits
    split at hfirst
    · next hbits =>
      rw [if_pos hbits] at hlast ⊢
      omega
    · next hbits =>
      rw [if_neg hbits] at hlast ⊢
      omega

end NetScanner.Net
