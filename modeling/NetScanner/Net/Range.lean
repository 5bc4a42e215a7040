import NetScanner.Net.Address
import Mathlib.Data.Nat.Bitwise
import Mathlib.Tactic.Ring

/-!
# Subnets and address ranges

`src/core/utils.zig`: the range of addresses a subnet stands for, the hosts a scan may use of it,
and addresses as 32-bit numbers.

Addresses are counted in octets (`incrementIP`, `decrementIP`) and compared as numbers
(`ipInRange`); `ipToU32_incrementIP` and `ipToU32_decrementIP` say that the two agree.
-/

namespace NetScanner.Net

open Infra

/-- A subnet. `parseCidr` refuses any other prefix length. -/
structure Network where
  address : Ip
  prefixLen : Nat
  prefixLen_le : prefixLen ≤ 32

structure IpRange where
  start : Ip
  «end» : Ip
deriving DecidableEq, Repr

def ipToU32 (ip : Ip) : UInt32 :=
  let (a, b, c, d) := ip
  a.toUInt32 <<< 24 ||| b.toUInt32 <<< 16 ||| c.toUInt32 <<< 8 ||| d.toUInt32

def u32ToIp (value : UInt32) : Ip :=
  ((value >>> 24 &&& 0xFF).toUInt8, (value >>> 16 &&& 0xFF).toUInt8,
    (value >>> 8 &&& 0xFF).toUInt8, (value &&& 0xFF).toUInt8)

def ipInRange (ip first last : Ip) : Bool :=
  decide (ipToU32 ip ≥ ipToU32 first) && decide (ipToU32 ip ≤ ipToU32 last)

def computeMask (prefixLen : Nat) : UInt32 :=
  if prefixLen = 0 then 0
  else if prefixLen = 32 then 0xFFFFFFFF
  else 0xFFFFFFFF <<< UInt32.ofNat (32 - prefixLen)

/-- All the addresses of a subnet. -/
def getIpRange (network : Network) : IpRange :=
  let mask := computeMask network.prefixLen
  let startIp := ipToU32 network.address &&& mask
  let endIp := startIp ||| ~~~mask
  { start := u32ToIp startIp, «end» := u32ToIp endIp }

/-- The next address, octet by octet from the last. -/
def incrementIP (ip : Ip) : Ip :=
  let (a, b, c, d) := ip
  if d + 1 ≠ 0 then (a, b, c, d + 1)
  else if c + 1 ≠ 0 then (a, b, c + 1, d + 1)
  else if b + 1 ≠ 0 then (a, b + 1, c + 1, d + 1)
  else (a + 1, b + 1, c + 1, d + 1)

/-- The address before, octet by octet from the last. -/
def decrementIP (ip : Ip) : Ip :=
  let (a, b, c, d) := ip
  if d ≠ 0 then (a, b, c, d - 1)
  else if c ≠ 0 then (a, b, c - 1, d - 1)
  else if b ≠ 0 then (a, b - 1, c - 1, d - 1)
  else (a - 1, b - 1, c - 1, d - 1)

/-- The first and the last host of a range: all of it up to two addresses, else without the
network and the broadcast address. -/
def usableHosts (network : Network) (range : IpRange) : IpRange :=
  if network.prefixLen ≥ 31 then range
  else { start := incrementIP range.start, «end» := decrementIP range.end }

/-! ## Addresses as numbers -/

theorem ipToU32_toNat (a b c d : UInt8) :
    (ipToU32 (a, b, c, d)).toNat =
      a.toNat * 2 ^ 24 + b.toNat * 2 ^ 16 + c.toNat * 2 ^ 8 + d.toNat := by
  have ha := a.toNat_lt
  have hb := b.toNat_lt
  have hc := c.toNat_lt
  have hd := d.toNat_lt
  have hor : ∀ k hi lo : Nat, lo < 2 ^ k → hi * 2 ^ k ||| lo = hi * 2 ^ k + lo := by
    intro k hi lo hlo
    rw [Nat.mul_comm, Nat.two_pow_add_eq_or_of_lt hlo]
  have h1 : c.toNat * 2 ^ 8 ||| d.toNat = c.toNat * 2 ^ 8 + d.toNat := hor 8 _ _ (by omega)
  have h2 : b.toNat * 2 ^ 16 ||| (c.toNat * 2 ^ 8 + d.toNat) =
      b.toNat * 2 ^ 16 + (c.toNat * 2 ^ 8 + d.toNat) := hor 16 _ _ (by omega)
  have h3 : a.toNat * 2 ^ 24 ||| (b.toNat * 2 ^ 16 + (c.toNat * 2 ^ 8 + d.toNat)) =
      a.toNat * 2 ^ 24 + (b.toNat * 2 ^ 16 + (c.toNat * 2 ^ 8 + d.toNat)) :=
    hor 24 _ _ (by omega)
  simp only [ipToU32, UInt32.toNat_or, UInt32.toNat_shiftLeft, UInt8.toNat_toUInt32,
    Nat.shiftLeft_eq, UInt32.reduceToNat, Nat.reduceMod]
  rw [Nat.mod_eq_of_lt (by omega), Nat.mod_eq_of_lt (by omega), Nat.mod_eq_of_lt (by omega),
    Nat.or_assoc, Nat.or_assoc, h1, h2, h3]
  omega

theorem ipToU32_injective {ip ip' : Ip} (h : ipToU32 ip = ipToU32 ip') : ip = ip' := by
  obtain ⟨a, b, c, d⟩ := ip
  obtain ⟨a', b', c', d'⟩ := ip'
  have hnat := congrArg UInt32.toNat h
  rw [ipToU32_toNat, ipToU32_toNat] at hnat
  have := a.toNat_lt
  have := b.toNat_lt
  have := c.toNat_lt
  have := d.toNat_lt
  have := a'.toNat_lt
  have := b'.toNat_lt
  have := c'.toNat_lt
  have := d'.toNat_lt
  have ha : a = a' := UInt8.toNat_inj.mp (by omega)
  have hb : b = b' := UInt8.toNat_inj.mp (by omega)
  have hc : c = c' := UInt8.toNat_inj.mp (by omega)
  have hd : d = d' := UInt8.toNat_inj.mp (by omega)
  rw [ha, hb, hc, hd]

theorem ipToU32_u32ToIp (value : UInt32) : ipToU32 (u32ToIp value) = value := by
  apply UInt32.toNat_inj.mp
  have hlt := value.toNat_lt
  rw [u32ToIp, ipToU32_toNat]
  simp only [UInt32.toNat_toUInt8, UInt32.toNat_and, UInt32.toNat_shiftRight,
    Nat.shiftRight_eq_div_pow, UInt32.reduceToNat, Nat.reduceMod]
  have hmask : ∀ n : Nat, n &&& 255 = n % 256 := fun n => Nat.and_two_pow_sub_one_eq_mod n 8
  simp only [hmask]
  omega

/-- **Counting octets up is adding one**, around the end too. -/
theorem ipToU32_incrementIP (ip : Ip) : ipToU32 (incrementIP ip) = ipToU32 ip + 1 := by
  obtain ⟨a, b, c, d⟩ := ip
  apply UInt32.toNat_inj.mp
  have := a.toNat_lt
  have := b.toNat_lt
  have := c.toNat_lt
  have := d.toNat_lt
  have hsucc : ∀ x : UInt8, (x + 1).toNat = (x.toNat + 1) % 256 := fun x => UInt8.toNat_add x 1
  have hzero : ∀ x : UInt8, x + 1 = 0 ↔ x.toNat = 255 := by
    intro x
    have := x.toNat_lt
    rw [← UInt8.toNat_inj, hsucc, UInt8.toNat_zero]
    omega
  rw [UInt32.toNat_add, ipToU32_toNat]
  simp only [UInt32.reduceToNat]
  unfold incrementIP
  simp only [ne_eq, hzero]
  split
  · simp only [ipToU32_toNat, hsucc]
    omega
  · split
    · simp only [ipToU32_toNat, hsucc]
      omega
    · split
      · simp only [ipToU32_toNat, hsucc]
        omega
      · simp only [ipToU32_toNat, hsucc]
        omega

/-- **Counting octets down is taking one.** -/
theorem ipToU32_decrementIP (ip : Ip) : ipToU32 (decrementIP ip) = ipToU32 ip - 1 := by
  obtain ⟨a, b, c, d⟩ := ip
  apply UInt32.toNat_inj.mp
  have := a.toNat_lt
  have := b.toNat_lt
  have := c.toNat_lt
  have := d.toNat_lt
  have hpred : ∀ x : UInt8, (x - 1).toNat = (255 + x.toNat) % 256 := fun x => UInt8.toNat_sub x 1
  have hzero : ∀ x : UInt8, x = 0 ↔ x.toNat = 0 := fun x => UInt8.toNat_inj.symm
  rw [UInt32.toNat_sub, ipToU32_toNat]
  simp only [UInt32.reduceToNat]
  unfold decrementIP
  simp only [ne_eq, hzero]
  split
  · simp only [ipToU32_toNat, hpred]
    omega
  · split
    · simp only [ipToU32_toNat, hpred]
      omega
    · split
      · simp only [ipToU32_toNat, hpred]
        omega
      · simp only [ipToU32_toNat, hpred]
        omega

/-! ## The addresses of a range -/

/-- The addresses from `ip` on up to `lastIp`; the loop of `collectIps`. -/
def collectIps (ip lastIp : Ip) : List Ip :=
  if ip = lastIp then [ip] else ip :: collectIps (incrementIP ip) lastIp
termination_by (ipToU32 lastIp - ipToU32 ip).toNat
decreasing_by
  next hne =>
  have hlt := (ipToU32 ip).toNat_lt
  have hlt' := (ipToU32 lastIp).toNat_lt
  have hne' : (ipToU32 ip).toNat ≠ (ipToU32 lastIp).toNat :=
    fun h => hne (ipToU32_injective (UInt32.toNat_inj.mp h))
  rw [ipToU32_incrementIP, UInt32.toNat_sub, UInt32.toNat_sub, UInt32.toNat_add]
  simp only [UInt32.reduceToNat]
  omega

theorem ipInRange_iff {ip first last : Ip} :
    ipInRange ip first last = true ↔
      (ipToU32 first).toNat ≤ (ipToU32 ip).toNat ∧ (ipToU32 ip).toNat ≤ (ipToU32 last).toNat := by
  rw [ipInRange, Bool.and_eq_true, decide_eq_true_eq, decide_eq_true_eq, UInt32.le_iff_toNat_le,
    ge_iff_le, UInt32.le_iff_toNat_le]

/-- **`collectIps` lists the addresses of a range**, and no others. -/
theorem mem_collectIps {first last : Ip} (hle : (ipToU32 first).toNat ≤ (ipToU32 last).toNat)
    (ip : Ip) : ip ∈ collectIps first last ↔ ipInRange ip first last = true := by
  induction first using collectIps.induct last with
  | case1 =>
    rw [collectIps, if_pos rfl, List.mem_singleton, ipInRange_iff]
    constructor
    · rintro rfl
      exact ⟨Nat.le_refl _, Nat.le_refl _⟩
    · rintro ⟨hge, hle⟩
      exact ipToU32_injective (UInt32.toNat_inj.mp (Nat.le_antisymm hle hge))
  | case2 first hne ih =>
    have hlt := (ipToU32 last).toNat_lt
    have hne' : (ipToU32 first).toNat ≠ (ipToU32 last).toNat :=
      fun h => hne (ipToU32_injective (UInt32.toNat_inj.mp h))
    have hnext : (ipToU32 (incrementIP first)).toNat = (ipToU32 first).toNat + 1 := by
      rw [ipToU32_incrementIP, UInt32.toNat_add]
      simp only [UInt32.reduceToNat]
      omega
    rw [collectIps, if_neg hne, List.mem_cons, ih (by omega), ipInRange_iff, ipInRange_iff, hnext]
    constructor
    · rintro (rfl | ⟨hge, hle⟩)
      · exact ⟨Nat.le_refl _, by omega⟩
      · exact ⟨by omega, hle⟩
    · rintro ⟨hge, hle⟩
      by_cases heq : (ipToU32 ip).toNat = (ipToU32 first).toNat
      · exact Or.inl (ipToU32_injective (UInt32.toNat_inj.mp heq))
      · exact Or.inr ⟨by omega, hle⟩

/-! ## The hosts of a subnet -/

/-- The number of bits a subnet leaves to its hosts. -/
def Network.hostBits (network : Network) : Nat := 32 - network.prefixLen

theorem computeMask_toNat {prefixLen : Nat} (h : prefixLen ≤ 32) :
    (computeMask prefixLen).toNat = 2 ^ (32 - prefixLen) * (2 ^ prefixLen - 1) := by
  have hall : ∀ n ≤ 32, (computeMask n).toNat = 2 ^ (32 - n) * (2 ^ n - 1) := by decide
  exact hall prefixLen h

/-- A subnet starts where its host bits are all zero. -/
theorem getIpRange_start (network : Network) :
    (ipToU32 (getIpRange network).start).toNat =
      2 ^ network.hostBits * ((ipToU32 network.address).toNat / 2 ^ network.hostBits) := by
  have hlt := (ipToU32 network.address).toNat_lt
  have hbits : network.prefixLen + network.hostBits = 32 :=
    Nat.add_sub_cancel' network.prefixLen_le
  simp only [getIpRange, ipToU32_u32ToIp, UInt32.toNat_and,
    computeMask_toNat network.prefixLen_le]
  show _ &&& 2 ^ network.hostBits * (2 ^ network.prefixLen - 1) = _
  apply Nat.eq_of_testBit_eq
  intro i
  rw [Nat.testBit_and, Nat.testBit_two_pow_mul, Nat.testBit_two_pow_mul,
    Nat.testBit_two_pow_sub_one, Nat.testBit_div_two_pow]
  by_cases hi : network.hostBits ≤ i
  · simp only [ge_iff_le, hi, decide_true, Bool.true_and, Nat.sub_add_cancel hi]
    by_cases hi' : i < 32
    · simp [show i - network.hostBits < network.prefixLen by omega]
    · have hhigh : (ipToU32 network.address).toNat.testBit i = false :=
        Nat.testBit_lt_two_pow (Nat.lt_of_lt_of_le hlt (Nat.pow_le_pow_right (by omega) (by omega)))
      rw [hhigh, Bool.false_and]
  · simp [hi]

/-- And it ends where they are all one. -/
theorem getIpRange_end (network : Network) :
    (ipToU32 (getIpRange network).end).toNat + 1 =
      (ipToU32 (getIpRange network).start).toNat + 2 ^ network.hostBits := by
  have hpos : 0 < 2 ^ network.hostBits := Nat.two_pow_pos _
  have hmask : (~~~computeMask network.prefixLen).toNat = 2 ^ network.hostBits - 1 := by
    have hall : ∀ n ≤ 32, (~~~computeMask n).toNat = 2 ^ (32 - n) - 1 := by decide
    exact hall network.prefixLen network.prefixLen_le
  have hstart := getIpRange_start network
  simp only [getIpRange, ipToU32_u32ToIp] at hstart ⊢
  rw [UInt32.toNat_or, hmask, hstart, ← Nat.two_pow_add_eq_or_of_lt (by omega)]
  omega

/-- **Every subnet has a host**, and its hosts are a range that does not run around the end. -/
theorem usableHosts_le (network : Network) :
    (ipToU32 (usableHosts network (getIpRange network)).start).toNat ≤
      (ipToU32 (usableHosts network (getIpRange network)).end).toNat := by
  have hend := getIpRange_end network
  unfold usableHosts
  split
  · have hpos : 0 < 2 ^ network.hostBits := Nat.two_pow_pos _
    omega
  · next hbits =>
    have hlt := (ipToU32 (getIpRange network).end).toNat_lt
    have hfour : 2 ^ 2 ≤ 2 ^ network.hostBits :=
      Nat.pow_le_pow_right (by omega) (by unfold Network.hostBits; omega)
    rw [ipToU32_incrementIP, ipToU32_decrementIP, UInt32.toNat_add, UInt32.toNat_sub]
    simp only [UInt32.reduceToNat]
    omega

end NetScanner.Net
