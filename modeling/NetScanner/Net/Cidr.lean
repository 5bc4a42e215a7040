import NetScanner.Net.Quad
import NetScanner.Net.Range

/-!
# Subnets as text

`src/core/utils.zig`, `parseCidr`: an address, a slash and a prefix length. The prefix length is
left to `std.fmt.parseInt`, which also takes a sign and underscores between digits
(`parseCidr_exact`).
-/

namespace NetScanner.Net

open Infra

inductive CidrError
  | invalidCidr
  | invalidIpAddress
  | parseInt (e : ParseIntError)
  | invalidPrefixLength
deriving DecidableEq, Repr

/-- A subnet in CIDR notation. -/
def parseCidr (cidr : Bytes) : Except CidrError Network :=
  match cidr.splitOn 47 with
  | [ipStr, prefixStr] =>
    match ipStringToBytes ipStr with
    | none => .error .invalidIpAddress
    | some address =>
      match parseInt10 255 prefixStr with
      | .error e => .error (.parseInt e)
      | .ok prefixLen =>
        if h : prefixLen ≤ 32 then .ok { address, prefixLen, prefixLen_le := h }
        else .error .invalidPrefixLength
  | _ => .error .invalidCidr

/-- Two parts with one separator between them. -/
theorem splitOn_eq_pair {sep : UInt8} {s a b : Bytes} :
    s.splitOn sep = [a, b] ↔ s = a ++ sep :: b ∧ sep ∉ a ∧ sep ∉ b := by
  constructor
  · intro h
    have hjoin : [sep].intercalate (s.splitOn sep) = s := List.intercalate_splitOn sep
    rw [h] at hjoin
    refine ⟨hjoin.symm.trans (by simp [List.intercalate]), fun hmem => ?_, fun hmem => ?_⟩
    · exact (mem_splitOn (by rw [h]; simp) hmem).2 rfl
    · exact (mem_splitOn (by rw [h]; simp) hmem).2 rfl
  · rintro ⟨rfl, ha, hb⟩
    have hsplit : ([sep].intercalate [a, b]).splitOn sep = [a, b] :=
      List.splitOn_intercalate sep (by simpa using ⟨ha, hb⟩) (by simp)
    simpa [List.intercalate] using hsplit

theorem mem_quad {s : Bytes} {ip : Ip} (h : DottedQuad s ip) {c : UInt8} (hc : c ∈ s) :
    c = 46 ∨ isDigit c :=
  Separated.mem (fun _ _ ho => OctetText.all ho) h c hc

theorem mem_int {most : Nat} {s : Bytes} {n : Nat} (h : IntText most s n) {c : UInt8}
    (hc : c ∈ s) : c = 43 ∨ c = 45 ∨ c = 95 ∨ isDigit c := by
  rcases h with h | ⟨rest, rfl, h⟩ | ⟨rest, rfl, h⟩
  · exact Or.inr (Or.inr (h.all c hc))
  · exact (List.mem_cons.mp hc).imp id fun hc => Or.inr (h.all c hc)
  · exact Or.inr ((List.mem_cons.mp hc).imp id fun hc => h.all c hc)

theorem slash_not_mem_quad {s : Bytes} {ip : Ip} (h : DottedQuad s ip) : 47 ∉ s :=
  fun hmem => absurd (mem_quad h hmem) (by decide)

theorem slash_not_mem_int {most : Nat} {s : Bytes} {n : Nat} (h : IntText most s n) : 47 ∉ s :=
  fun hmem => absurd (mem_int h hmem) (by decide)

/-- An address, a slash and a prefix length. -/
def CidrText (cidr : Bytes) (network : Network) : Prop :=
  ∃ quad digits, cidr = quad ++ 47 :: digits ∧ DottedQuad quad network.address ∧
    IntText 255 digits network.prefixLen

theorem CidrText.ascii {cidr : Bytes} {network : Network} (h : CidrText cidr network) :
    ∀ c ∈ cidr, c < 128 := by
  obtain ⟨quad, digits, rfl, hquad, hint⟩ := h
  have hquadByte : ∀ c : UInt8, c = 46 ∨ isDigit c → c < 128 := forall_byte (by decide +kernel)
  have hintByte : ∀ c : UInt8, c = 43 ∨ c = 45 ∨ c = 95 ∨ isDigit c → c < 128 :=
    forall_byte (by decide +kernel)
  intro c hc
  rcases List.mem_append.mp hc with hc | hc
  · exact hquadByte c (mem_quad hquad hc)
  · rcases List.mem_cons.mp hc with rfl | hc
    · decide
    · exact hintByte c (mem_int hint hc)

theorem parseCidr_iff (cidr : Bytes) (network : Network) :
    parseCidr cidr = .ok network ↔ CidrText cidr network := by
  constructor
  · intro h
    unfold parseCidr at h
    split at h
    · next ipStr prefixStr hsplit =>
      split at h
      · simp at h
      · next address haddress =>
        split at h
        · simp at h
        · next prefixLen hlength =>
          split at h
          · rw [Except.ok.injEq] at h
            subst h
            exact ⟨ipStr, prefixStr, (splitOn_eq_pair.mp hsplit).1,
              (ipStringToBytes_iff _ _).mp haddress, (parseInt10_iff _ _ _).mp hlength⟩
          · simp at h
    · simp at h
  · rintro ⟨quad, digits, rfl, hquad, hint⟩
    have hsplit := splitOn_eq_pair.mpr
      ⟨rfl, slash_not_mem_quad hquad, slash_not_mem_int hint⟩
    unfold parseCidr
    rw [hsplit]
    simp only [(ipStringToBytes_iff _ _).mpr hquad, (parseInt10_iff _ _ _).mpr hint,
      network.prefixLen_le, dite_true]

/-- **The accepted strings are a dotted quad, a slash and an integer** of at most 32, as
`std.fmt.parseInt` reads it. -/
theorem parseCidr_exact (cidr : Bytes) (network : Network) :
    parseCidr cidr = .ok network ↔
      ∃ quad digits, cidr = quad ++ 47 :: digits ∧ DottedQuad quad network.address ∧
        IntText 255 digits network.prefixLen :=
  parseCidr_iff cidr network

/-- A prefix length of digits alone. -/
def PlainPrefix (text : Bytes) (n : Nat) : Prop :=
  text ≠ [] ∧ (∀ c ∈ text, isDigit c) ∧ decimalValue text = n

/-- **A sign in front of the prefix length is accepted.** -/
theorem parseCidr_sign : ¬∀ (cidr : Bytes) (network : Network),
    parseCidr cidr = .ok network ↔
      ∃ quad digits, cidr = quad ++ 47 :: digits ∧ DottedQuad quad network.address ∧
        PlainPrefix digits network.prefixLen := by
  intro h
  have haccepted : parseCidr (ascii "10.0.0.0/+24") = .ok ⟨(10, 0, 0, 0), 24, by decide⟩ := by
    rfl
  obtain ⟨quad, digits, hcidr, hquad, hlength⟩ := (h _ _).mp haccepted
  have hdigits : digits = ascii "+24" := by
    have hsplit := splitOn_eq_pair.mpr ⟨hcidr, slash_not_mem_quad hquad,
      fun hmem => absurd (hlength.2.1 47 hmem) (by decide)⟩
    rw [show (ascii "10.0.0.0/+24").splitOn 47 = [ascii "10.0.0.0", ascii "+24"] by decide +kernel]
      at hsplit
    exact (List.cons.inj (List.cons.inj hsplit).2).1.symm
  rw [hdigits] at hlength
  exact absurd (hlength.2.1 43 (by decide)) (by decide)

end NetScanner.Net
