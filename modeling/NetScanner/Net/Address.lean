import NetScanner.Infra.Text

/-!
# Addresses as text

`src/core/utils.zig`: IPv4 and MAC addresses read from text and written as text. An address
that was written is read back (`ipStringToBytes_formatIp`, `parseMac_formatMacWith`).
-/

namespace NetScanner.Net

open Infra

/-- An IPv4 address, as four octets. -/
abbrev Ip := UInt8 × UInt8 × UInt8 × UInt8

/-- A MAC address. -/
abbrev Mac := Vector UInt8 6

/-- The loop of `ipStringToBytes`: the octets that are complete, the one being read, and whether
it has a digit yet. -/
def readOctets (done : List UInt8) (byte : Nat) (hasDigits : Bool) : Bytes → Option Ip
  | [] =>
    match done with
    | [a, b, c] => if hasDigits then some (a, b, c, UInt8.ofNat byte) else none
    | _ => none
  | char :: rest =>
    if char = 46 then
      if done.length ≥ 4 ∨ hasDigits = false then none
      else readOctets (done ++ [UInt8.ofNat byte]) 0 false rest
    else if char < 48 ∨ char > 57 then none
    else
      let digit := char.toNat - 48
      -- an octet above 255 is rejected before it is computed
      if byte > (255 - digit) / 10 then none
      else readOctets done (byte * 10 + digit) true rest

/-- A dotted IPv4 address; none is `error.InvalidIpAddress`. -/
def ipStringToBytes (ipString : Bytes) : Option Ip := readOctets [] 0 false ipString

/-- The loop of `parseMac`: at most `left` more octets. -/
def readMac (left : Nat) (s : Bytes) : Option (List UInt8) :=
  match nextToken (anyOf ":-") s with
  | none => some []
  | some (token, rest) =>
    match left with
    | 0 => none
    | left + 1 =>
      if token.length < 1 ∨ token.length > 2 then none
      else
        match parseInt token, readMac left rest with
        | some value, some octets => some (value :: octets)
        | _, _ => none

/-- A MAC address in colon or hyphen format. -/
def parseMac (s : Bytes) : Option Mac :=
  match readMac 6 s with
  | some [a, b, c, d, e, f] => some #v[a, b, c, d, e, f]
  | _ => none

/-- The MAC address of six octets. -/
def macOf (a b c d e f : UInt8) : Mac := #v[a, b, c, d, e, f]

/-! ## Writing -/

/-- A byte in decimal. -/
def decimal (b : UInt8) : Bytes := ascii (toString b.toNat)

/-- Dotted IPv4. -/
def formatIp (ip : Ip) : Bytes :=
  let (a, b, c, d) := ip
  decimal a ++ 46 :: (decimal b ++ 46 :: (decimal c ++ 46 :: decimal d))

/-- The hex digit of a number below 16, in either case. -/
def hexChar (upper : Bool) (n : Nat) : UInt8 :=
  if n < 10 then UInt8.ofNat (48 + n) else UInt8.ofNat ((if upper then 55 else 87) + n)

/-- `{x:0>2}`, in either case. -/
def hexOctet (upper : Bool) (b : UInt8) : Bytes :=
  [hexChar upper (b.toNat / 16), hexChar upper (b.toNat % 16)]

/-- A MAC address with separator `sep`, in either case. -/
def formatMacWith (sep : UInt8) (upper : Bool) (mac : Mac) : Bytes :=
  hexOctet upper (mac.get 0) ++ sep :: (hexOctet upper (mac.get 1) ++ sep ::
    (hexOctet upper (mac.get 2) ++ sep :: (hexOctet upper (mac.get 3) ++ sep ::
      (hexOctet upper (mac.get 4) ++ sep :: hexOctet upper (mac.get 5)))))

/-- `"aa:bb:cc:dd:ee:ff"`, lowercase. -/
def formatMac (mac : Mac) : Bytes := formatMacWith 58 false mac

/-! ## What was written is read back -/

/-- One more digit of an octet that still fits. -/
theorem readOctets_digit {done : List UInt8} {byte d : Nat} {hasDigits : Bool} (rest : Bytes)
    (hd : d < 10) (hfits : byte * 10 + d ≤ 255) :
    readOctets done byte hasDigits (UInt8.ofNat (48 + d) :: rest) =
      readOctets done (byte * 10 + d) true rest := by
  have hchar : ∀ d < 10, UInt8.ofNat (48 + d) ≠ 46 ∧
      ¬(UInt8.ofNat (48 + d) < 48 ∨ UInt8.ofNat (48 + d) > 57) ∧
      (UInt8.ofNat (48 + d)).toNat - 48 = d := by decide
  obtain ⟨hdot, hrange, hvalue⟩ := hchar d hd
  rw [readOctets, if_neg hdot, if_neg hrange, hvalue]
  simp only
  rw [if_neg (by omega)]

/-- The digits of a byte. -/
theorem decimal_eq (b : UInt8) : decimal b =
    if b.toNat < 10 then [UInt8.ofNat (48 + b.toNat)]
    else if b.toNat < 100 then
      [UInt8.ofNat (48 + b.toNat / 10), UInt8.ofNat (48 + b.toNat % 10)]
    else
      [UInt8.ofNat (48 + b.toNat / 100), UInt8.ofNat (48 + b.toNat / 10 % 10),
        UInt8.ofNat (48 + b.toNat % 10)] := by
  have hdigit : ∀ d < 10, UInt8.ofNat (Nat.digitChar d).toNat = UInt8.ofNat (48 + d) := by decide
  have hdigits : decimal b =
      (Nat.toDigits 10 b.toNat).map fun c => UInt8.ofNat c.toNat := by
    rw [decimal, ascii, Nat.toString_eq_repr, Nat.toList_repr]
  have hlast := hdigit (b.toNat % 10) (by omega)
  have hlt := b.toNat_lt
  rw [hdigits]
  split
  · next hten =>
    rw [Nat.toDigits_of_lt_base hten, List.map_singleton, hdigit _ hten]
  · next hten =>
    rw [Nat.toDigits_of_base_le (by decide) (Nat.not_lt.mp hten), List.map_append,
      List.map_singleton, hlast]
    split
    · have htens : b.toNat / 10 < 10 := by omega
      rw [Nat.toDigits_of_lt_base htens, List.map_singleton, hdigit _ htens]
      rfl
    · have hhundreds : b.toNat / 10 / 10 < 10 := by omega
      have hdiv : b.toNat / 10 / 10 = b.toNat / 100 := by omega
      rw [Nat.toDigits_of_base_le (by decide) (by omega), Nat.toDigits_of_lt_base hhundreds,
        List.map_append, List.map_singleton, List.map_singleton, hdigit _ hhundreds,
        hdigit (b.toNat / 10 % 10) (by omega), hdiv]
      rfl

/-- **An octet in decimal is read back.** -/
theorem readOctets_decimal (done : List UInt8) (b : UInt8) (rest : Bytes) :
    readOctets done 0 false (decimal b ++ rest) = readOctets done b.toNat true rest := by
  have hlt := b.toNat_lt
  rw [decimal_eq]
  split
  · next hten =>
    rw [List.singleton_append, readOctets_digit _ hten (by omega), Nat.zero_mul, Nat.zero_add]
  · split
    · simp only [List.cons_append, List.nil_append]
      rw [readOctets_digit _ (by omega) (by omega), readOctets_digit _ (by omega) (by omega)]
      congr 1
      omega
    · simp only [List.cons_append, List.nil_append]
      rw [readOctets_digit _ (by omega) (by omega), readOctets_digit _ (by omega) (by omega),
        readOctets_digit _ (by omega) (by omega)]
      congr 1
      omega

/-- A dot ends an octet. -/
theorem readOctets_dot {done : List UInt8} (hdone : done.length < 4) (b : UInt8) (rest : Bytes) :
    readOctets done b.toNat true (46 :: rest) = readOctets (done ++ [b]) 0 false rest := by
  rw [readOctets, if_pos rfl, if_neg (by simp; omega), UInt8.ofNat_toNat]

/-- An address is read only from digits and dots. -/
theorem mem_of_readOctets {done : List UInt8} {byte : Nat} {hasDigits : Bool} {s : Bytes} {ip : Ip}
    (h : readOctets done byte hasDigits s = some ip) : ∀ b ∈ s, b = 46 ∨ 48 ≤ b ∧ b ≤ 57 := by
  induction s generalizing done byte hasDigits with
  | nil => simp
  | cons char rest ih =>
    rw [List.forall_mem_cons]
    rw [readOctets] at h
    split at h
    · next hdot =>
      rw [Option.ite_none_left_eq_some] at h
      exact ⟨Or.inl hdot, ih h.2⟩
    · split at h
      · cases h
      · next hdigit =>
        simp only [Option.ite_none_left_eq_some] at h
        rw [not_or, UInt8.not_lt, gt_iff_lt, UInt8.not_lt] at hdigit
        exact ⟨Or.inr hdigit, ih h.2⟩

/-- **An IPv4 address that was written is read back.** -/
theorem ipStringToBytes_formatIp (ip : Ip) : ipStringToBytes (formatIp ip) = some ip := by
  obtain ⟨a, b, c, d⟩ := ip
  have hlast := readOctets_decimal [a, b, c] d []
  rw [List.append_nil] at hlast
  unfold ipStringToBytes formatIp
  rw [readOctets_decimal, readOctets_dot (by simp), readOctets_decimal, readOctets_dot (by simp),
    readOctets_decimal, readOctets_dot (by simp)]
  simp only [List.nil_append, List.cons_append]
  rw [hlast]
  simp [readOctets]

theorem hexDigit_hexChar (upper : Bool) {n : Nat} (h : n < 16) :
    hexDigit (hexChar upper n) = some n := by
  have hall : ∀ upper, ∀ n < 16, hexDigit (hexChar upper n) = some n := by decide
  exact hall upper n h

/-- One octet of a MAC address. -/
theorem readMac_octet (left : Nat) (upper : Bool) (b : UInt8) {rest : Bytes}
    (hrest : ∀ c, rest.head? = some c → anyOf ":-" c = true) :
    readMac (left + 1) (hexOctet upper b ++ rest) = (readMac left rest).map (b :: ·) := by
  have hhigh := hexDigit_hexChar upper (show b.toNat / 16 < 16 by have := b.toNat_lt; omega)
  have hlow := hexDigit_hexChar upper (show b.toNat % 16 < 16 by omega)
  have htoken := nextToken_hexPair (by decide) hhigh hlow hrest
  have hvalue := parseInt_pair hhigh hlow
  rw [show b.toNat / 16 * 16 + b.toNat % 16 = b.toNat by omega, UInt8.ofNat_toNat] at hvalue
  rw [hexOctet, List.cons_append, List.cons_append, List.nil_append, readMac, htoken]
  simp only [List.length_cons, List.length_nil, hvalue]
  cases readMac left rest <;> simp

theorem readMac_sep (left : Nat) {sep : UInt8} (hsep : anyOf ":-" sep = true) (rest : Bytes) :
    readMac left (sep :: rest) = readMac left rest := by
  unfold readMac
  rw [nextToken_cons hsep]

theorem mac_octets (mac : Mac) :
    macOf (mac.get 0) (mac.get 1) (mac.get 2) (mac.get 3) (mac.get 4) (mac.get 5) = mac := by
  apply Vector.ext
  intro i hi
  match i, hi with
  | 0, _ | 1, _ | 2, _ | 3, _ | 4, _ | 5, _ => rfl

/-- **A MAC address that was written is read back**, with either separator and in either
case. -/
theorem parseMac_formatMacWith {sep : UInt8} (hsep : anyOf ":-" sep = true) (upper : Bool)
    (mac : Mac) : parseMac (formatMacWith sep upper mac) = some mac := by
  have hstart : ∀ rest : Bytes, ∀ c, (sep :: rest).head? = some c → anyOf ":-" c = true := by
    intro rest c hc
    rw [List.head?_cons, Option.some.injEq] at hc
    rwa [← hc]
  have hlast : readMac 1 (hexOctet upper (mac.get 5)) = (readMac 0 []).map (mac.get 5 :: ·) := by
    have hend : ∀ c, ([] : Bytes).head? = some c → anyOf ":-" c = true := by simp
    simpa using readMac_octet 0 upper (mac.get 5) hend
  have hread : readMac 6 (formatMacWith sep upper mac) =
      some [mac.get 0, mac.get 1, mac.get 2, mac.get 3, mac.get 4, mac.get 5] := by
    unfold formatMacWith
    simp only [readMac_octet _ upper _ (hstart _), readMac_sep _ hsep, hlast]
    rfl
  rw [parseMac, hread]
  exact congrArg some (mac_octets mac)

end NetScanner.Net
