import NetScanner.Names.HostName

/-!
# Host names from the network

`src/core/resolver.zig`: the name of a host, from its answer to a NetBIOS query, its mDNS name,
or reverse DNS, the first of them that gives one.

What the network supplies is a parameter: the datagrams that came back and the string that
`resolve_ptr` returned. `resolve_ptr` hands on what the resolver of the system gives it.

Two of the three parsers let only printable ASCII through, so that a reply cannot slip terminal
escapes into the output. `safeName_iff` is when the third does no harm.

Allocations succeed here.
-/

namespace NetScanner.Names

open Infra Net

/-! ## NetBIOS -/

/-- The transaction id at the start of `netbios_request`. -/
def netbiosId : Bytes := [0x13, 0x37]

/-- The characters the output may have. -/
def isPrintable (char : UInt8) : Bool := !(char < 32 || char > 126)

/-- `std.mem.trimEnd(u8, name, " ")`. -/
def trimEnd (name : Bytes) : Bytes := (name.reverse.dropWhile (anyOf " ")).reverse

/-- The loop over the name table. -/
def netbiosEntries : Nat → Bytes → Option Bytes
  | 0, _ => none
  | count + 1, entries =>
    let entryLen := 18
    if entries.length < entryLen then none
    else
      let entry := entries.take entryLen
      let entries := entries.drop entryLen
      let suffix := byteAt entry 15
      let group := byteAt entry 16 &&& 0x80 ≠ 0
      if group ∨ (suffix ≠ 0x00 ∧ suffix ≠ 0x20) then netbiosEntries count entries
      else
        let name := trimEnd (entry.take 15)
        if name.length = 0 then netbiosEntries count entries
        else if name.all isPrintable then some name
        else netbiosEntries count entries

/-- The host's own name from a Node Status Response: its first unique workstation or server name,
without the padding. -/
def netbiosName (reply : Bytes) : Option Bytes :=
  let tableStart := 57
  if reply.length < tableStart ∨ reply.take 2 ≠ netbiosId then none
  else netbiosEntries (byteAt reply (tableStart - 1)).toNat (reply.drop tableStart)

/-! ## Reverse DNS -/

/-- Strip trailing domain components: `"myhost.localdomain"` gives `"myhost"`. -/
def cleanDomainName (raw : Bytes) : Bytes :=
  let trimmed := trim (anyOf " \t\r\n") raw
  if trimmed.length = 0 then trimmed
  else
    let cleanName :=
      match trimmed.idxOf? 46 with
      | some d => trimmed.take d
      | none => trimmed
    if cleanName.length > 0 then cleanName else trimmed

/-- `std.mem.endsWith`. -/
def endsWith (bytes suffix : Bytes) : Bool := suffix.isSuffixOf bytes

/-- A reverse DNS answer that says more than the address itself. -/
def ptrIsName (ip : Ip) (ptrName : Bytes) : Bool :=
  ptrName ≠ formatIp ip && !endsWith ptrName (ascii ".in-addr.arpa") &&
    !endsWith ptrName (ascii ".ip6.arpa") && (ipStringToBytes ptrName).isNone

/-! ## The name of a host -/

/-- What came back for one host. -/
structure Answers where
  /-- The NetBIOS reply. -/
  netbios : Option Bytes
  /-- The mDNS reply. -/
  mdns : Option Bytes
  /-- What `resolve_ptr` returned. -/
  ptr : Option Bytes
deriving DecidableEq, Repr

/-- 1. NetBIOS. -/
def fromNetbios (answers : Answers) : Option Bytes := do
  let reply ← answers.netbios
  let name ← netbiosName reply
  let trimmed := trim (anyOf " \t\r\n") name
  if trimmed.length > 0 then some trimmed else none

/-- 2. mDNS: the name heard already, else the one in the reply. -/
def fromMdns (ip : Ip) (mdnsName : Option Bytes) (answers : Answers) (nameBuf ownerBuf : Buffer) :
    Option Bytes := do
  let name ← mdnsName.or (answers.mdns.bind (hostName · ip nameBuf ownerBuf))
  let cleanName := cleanDomainName name
  if cleanName.length > 0 then some cleanName else none

/-- 3. Reverse DNS. -/
def fromPtr (ip : Ip) (answers : Answers) : Option Bytes := do
  let ptrName ← answers.ptr
  if ptrIsName ip ptrName then
    let cleanName := cleanDomainName ptrName
    if cleanName.length > 0 ∧ ipStringToBytes cleanName = none then some cleanName else none
  else none

/-- Resolve a single host's name. `mdnsName` is the host's mDNS name when a multicast reply
already gave it. -/
def resolveHostName (ip : Ip) (mdnsName : Option Bytes) (answers : Answers)
    (nameBuf ownerBuf : Buffer) : Option Bytes :=
  (fromNetbios answers).or ((fromMdns ip mdnsName answers nameBuf ownerBuf).or (fromPtr ip answers))

/-! ## What gets through -/

/-- Nothing a terminal obeys. -/
def SafeName (name : Bytes) : Prop := name ≠ [] ∧ Printable name

theorem isPrintable_iff {b : UInt8} : isPrintable b = true ↔ 32 ≤ b.toNat ∧ b.toNat ≤ 126 := by
  rw [← printable_iff, isPrintable]
  simp

theorem Printable.trim {name : Bytes} (h : Printable name) (space : UInt8 → Bool) :
    Printable (trim space name) := fun b hb => h b (mem_of_mem_trim hb)

/-- A clean name is made of bytes of the name. -/
theorem mem_of_mem_cleanDomainName {raw : Bytes} {b : UInt8} (h : b ∈ cleanDomainName raw) :
    b ∈ raw := by
  unfold cleanDomainName at h
  simp only at h
  split at h
  · exact mem_of_mem_trim h
  · split at h
    · split at h
      · exact mem_of_mem_trim ((List.take_sublist _ _).subset h)
      · exact mem_of_mem_trim h
    · split at h
      · exact mem_of_mem_trim h
      · exact mem_of_mem_trim h

theorem netbiosEntries_printable {count : Nat} {entries name : Bytes}
    (h : netbiosEntries count entries = some name) : Printable name := by
  induction count generalizing entries with
  | zero => simp [netbiosEntries] at h
  | succ count ih =>
    unfold netbiosEntries at h
    simp only at h
    split at h
    · simp at h
    · split at h
      · exact ih h
      · split at h
        · exact ih h
        · split at h
          · next hall =>
            rw [List.all_eq_true] at hall
            rw [Option.some.injEq] at h
            rw [← h]
            exact fun b hb => isPrintable_iff.mp (hall b hb)
          · exact ih h

theorem netbiosName_printable {reply name : Bytes} (h : netbiosName reply = some name) :
    Printable name := by
  unfold netbiosName at h
  simp only at h
  split at h
  · simp at h
  · exact netbiosEntries_printable h

/-- A NetBIOS name is safe. -/
theorem fromNetbios_safe {answers : Answers} {name : Bytes} (h : fromNetbios answers = some name) :
    SafeName name := by
  unfold fromNetbios at h
  simp only [Option.bind_eq_bind, Option.bind_eq_some_iff] at h
  obtain ⟨reply, -, raw, hraw, h⟩ := h
  rw [Option.ite_none_right_eq_some, Option.some.injEq] at h
  obtain ⟨hpos, rfl⟩ := h
  exact ⟨List.length_pos_iff.mp hpos, (netbiosName_printable hraw).trim _⟩

/-- `hostName` gives only printable names. -/
theorem hostName_printable {packet : Bytes} {«from» : Ip} {out ownerBuf : Buffer} {name : Bytes}
    (h : hostName packet «from» out ownerBuf = some name) : Printable name := by
  obtain ⟨records, wellFormed, -, hname⟩ := (hostName_eq_iff packet «from» out ownerBuf _).mp h
  cases hname with
  | reverse hrecords hbefore hr hname => exact ((hname name).mp rfl).printable.2
  | address hnone hwell hrecords hbefore hr hname => exact hname.printable.2

/-- A name that came in a multicast reply. -/
def HeardFrom (mdnsName : Option Bytes) : Prop :=
  ∀ name, mdnsName = some name →
    ∃ packet «from» out ownerBuf, hostName packet «from» out ownerBuf = some name

/-- An mDNS name is safe, heard already or not. -/
theorem fromMdns_safe {ip : Ip} {mdnsName : Option Bytes} {answers : Answers}
    {nameBuf ownerBuf : Buffer} {name : Bytes} (hheard : HeardFrom mdnsName)
    (h : fromMdns ip mdnsName answers nameBuf ownerBuf = some name) : SafeName name := by
  unfold fromMdns at h
  simp only [Option.bind_eq_bind, Option.bind_eq_some_iff] at h
  obtain ⟨raw, hraw, h⟩ := h
  rw [Option.ite_none_right_eq_some, Option.some.injEq] at h
  obtain ⟨hpos, rfl⟩ := h
  have hprint : Printable raw := by
    cases mdnsName with
    | none =>
      rw [Option.none_or, Option.bind_eq_some_iff] at hraw
      obtain ⟨reply, -, hname⟩ := hraw
      exact hostName_printable hname
    | some heard =>
      rw [Option.some_or, Option.some.injEq] at hraw
      obtain ⟨packet, «from», out, ownerBuf', hname⟩ := hheard heard rfl
      rw [← hraw]
      exact hostName_printable hname
  exact ⟨List.length_pos_iff.mp hpos, fun b hb => hprint b (mem_of_mem_cleanDomainName hb)⟩

/-- The name from reverse DNS is used. -/
def PtrUsed (ip : Ip) (ptrName : Bytes) : Prop :=
  ptrIsName ip ptrName = true ∧ cleanDomainName ptrName ≠ [] ∧
    ipStringToBytes (cleanDomainName ptrName) = none

theorem fromPtr_eq_some_iff {ip : Ip} {answers : Answers} {name : Bytes} :
    fromPtr ip answers = some name ↔
      ∃ ptrName, answers.ptr = some ptrName ∧ PtrUsed ip ptrName ∧
        cleanDomainName ptrName = name := by
  unfold fromPtr PtrUsed
  simp only [Option.bind_eq_bind, Option.bind_eq_some_iff, Option.ite_none_right_eq_some,
    Option.some.injEq, gt_iff_lt, List.length_pos_iff]
  constructor
  · rintro ⟨ptrName, hptr, hname, ⟨hne, hip⟩, hclean⟩
    exact ⟨ptrName, hptr, ⟨hname, hne, hip⟩, hclean⟩
  · rintro ⟨ptrName, hptr, ⟨hname, hne, hip⟩, hclean⟩
    exact ⟨ptrName, hptr, hname, ⟨hne, hip⟩, hclean⟩

/-- The part of a reverse DNS answer that would be the name: without the blanks around it, up to
its first dot, or all of it when it begins with one. -/
def ptrLabel (ptrName : Bytes) : Bytes :=
  let trimmed := trim (anyOf " \t\r\n") ptrName
  if trimmed.head? = some 46 then trimmed else trimmed.takeWhile (· ≠ 46)

/-- A name under one of the two domains of reverse lookups. -/
def ReverseDomain (ptrName : Bytes) : Prop :=
  ascii ".in-addr.arpa" <:+ ptrName ∨ ascii ".ip6.arpa" <:+ ptrName

/-- Reverse DNS is not asked for the name, or its answer stands under a reverse domain, or what
would be the name is printable. -/
def PtrHarmless (ip : Ip) (mdnsName : Option Bytes) (answers : Answers)
    (nameBuf ownerBuf : Buffer) : Prop :=
  (fromNetbios answers).isSome ∨ (fromMdns ip mdnsName answers nameBuf ownerBuf).isSome ∨
    ∀ ptrName, answers.ptr = some ptrName → ReverseDomain ptrName ∨ Printable (ptrLabel ptrName)

/-- Up to the first dot. -/
theorem take_idxOf?_eq (bytes : Bytes) :
    (match bytes.idxOf? 46 with
      | some d => bytes.take d
      | none => bytes) = bytes.takeWhile (· ≠ 46) := by
  induction bytes with
  | nil => rfl
  | cons b rest ih =>
    rw [List.idxOf?_cons]
    by_cases hdot : b = 46
    · simp [hdot]
    · rw [if_neg (by simpa using hdot), List.takeWhile_cons_of_pos (by simpa using hdot), ← ih]
      cases rest.idxOf? 46 with
      | none => rfl
      | some d => rfl

theorem cleanDomainName_eq (raw : Bytes) : cleanDomainName raw = ptrLabel raw := by
  unfold cleanDomainName ptrLabel
  simp only []
  generalize trim (anyOf " \t\r\n") raw = trimmed
  rw [take_idxOf?_eq]
  cases trimmed with
  | nil => rfl
  | cons b rest =>
    rw [if_neg (by simp), List.head?_cons]
    by_cases hdot : b = 46
    · simp [hdot]
    · rw [List.takeWhile_cons_of_pos (by simpa using hdot), if_pos (by simp),
        if_neg (by simpa using hdot)]

/-- An address has only digits and dots. -/
theorem printable_of_address {text : Bytes} {ip : Ip} (h : ipStringToBytes text = some ip) :
    Printable text := by
  intro b hb
  rcases mem_of_readOctets h b hb with rfl | ⟨hlow, hhigh⟩
  · decide
  · rw [UInt8.le_iff_toNat_le] at hlow hhigh
    exact ⟨Nat.le_trans (by decide) hlow, Nat.le_trans hhigh (by decide)⟩

theorem ptrIsName_iff (ip : Ip) (ptrName : Bytes) :
    ptrIsName ip ptrName = true ↔
      ptrName ≠ formatIp ip ∧ ¬ReverseDomain ptrName ∧ ipStringToBytes ptrName = none := by
  simp only [ptrIsName, endsWith, ReverseDomain, Bool.and_eq_true, decide_eq_true_eq,
    Bool.not_eq_true', List.isSuffixOf_iff_suffix, Option.isNone_iff_eq_none, not_or, and_assoc,
    ← Bool.not_eq_true]

/-- What the code ignores of reverse DNS is under a reverse domain, or harmless anyway. -/
theorem ptr_cases (ip : Ip) (ptrName : Bytes) :
    ReverseDomain ptrName ∨ Printable (ptrLabel ptrName) ∨ PtrUsed ip ptrName := by
  unfold PtrUsed
  rw [ptrIsName_iff, cleanDomainName_eq]
  have hsub : Printable ptrName → Printable (ptrLabel ptrName) := fun h b hb =>
    h b (mem_of_mem_cleanDomainName (cleanDomainName_eq ptrName ▸ hb))
  cases haddress : ipStringToBytes ptrName with
  | some other => exact Or.inr (Or.inl (hsub (printable_of_address haddress)))
  | none =>
    have hne : ptrName ≠ formatIp ip := by
      rintro rfl
      rw [ipStringToBytes_formatIp] at haddress
      cases haddress
    cases hlabel : ipStringToBytes (ptrLabel ptrName) with
    | some other => exact Or.inr (Or.inl (printable_of_address hlabel))
    | none =>
      by_cases hreverse : ReverseDomain ptrName
      · exact Or.inl hreverse
      · by_cases hnil : ptrLabel ptrName = []
        · right
          left
          rw [hnil]
          simp [Printable]
        · exact Or.inr (Or.inr ⟨⟨hne, hreverse, rfl⟩, hnil, rfl⟩)

/-- **A name that is returned is safe exactly when reverse DNS does no harm.** -/
theorem safeName_iff {ip : Ip} {mdnsName : Option Bytes} (hheard : HeardFrom mdnsName)
    (answers : Answers) (nameBuf ownerBuf : Buffer) :
    (∀ name, resolveHostName ip mdnsName answers nameBuf ownerBuf = some name → SafeName name) ↔
      PtrHarmless ip mdnsName answers nameBuf ownerBuf := by
  unfold resolveHostName PtrHarmless
  cases hnetbios : fromNetbios answers with
  | some name =>
    rw [Option.some_or]
    refine ⟨fun _ => .inl rfl, ?_⟩
    rintro - name' h
    rw [← Option.some.inj h]
    exact fromNetbios_safe hnetbios
  | none =>
    rw [Option.none_or]
    cases hmdns : fromMdns ip mdnsName answers nameBuf ownerBuf with
    | some name =>
      rw [Option.some_or]
      refine ⟨fun _ => .inr (.inl rfl), ?_⟩
      rintro - name' h
      rw [← Option.some.inj h]
      exact fromMdns_safe hheard hmdns
    | none =>
      -- only reverse DNS is left
      rw [Option.none_or]
      simp only [fromPtr_eq_some_iff, Option.isSome_none, Bool.false_eq_true, false_or]
      constructor
      · intro h ptrName hptr
        rcases ptr_cases ip ptrName with hreverse | hprint | hused
        · exact Or.inl hreverse
        · exact Or.inr hprint
        · right
          rw [← cleanDomainName_eq]
          exact (h _ ⟨ptrName, hptr, hused, rfl⟩).2
      · rintro h name ⟨ptrName, hptr, hused, rfl⟩
        refine ⟨hused.2.1, ?_⟩
        rw [cleanDomainName_eq]
        exact (h ptrName hptr).resolve_left ((ptrIsName_iff _ _).mp hused.1).2.1

/-- The answers for a host that only reverse DNS knows. -/
def onlyPtr (ptrName : Bytes) : Answers where
  netbios := none
  mdns := none
  ptr := some ptrName

/-- The bytes that clear a terminal, as the name of a host. -/
def clearScreen : Bytes := 27 :: ascii "[2J"

theorem ptr_escape_gets_through :
    HeardFrom none ∧ 0 ∉ clearScreen ∧
      resolveHostName (10, 0, 0, 1) none (onlyPtr clearScreen) (Vector.replicate 256 0)
        (Vector.replicate 256 0) = some clearScreen ∧ ¬SafeName clearScreen := by
  refine ⟨fun name h => by simp at h, by decide, by decide, ?_⟩
  rintro ⟨-, hprint⟩
  exact absurd (hprint 27 List.mem_cons_self) (by decide)

theorem safeName_ptr_host :
    resolveHostName (10, 0, 0, 1) none (onlyPtr (ascii "nas.lan")) (Vector.replicate 256 0)
      (Vector.replicate 256 0) = some (ascii "nas") ∧ SafeName (ascii "nas") := by
  have hlabel : ptrLabel (ascii "nas.lan") = ascii "nas" := by decide
  have hname : resolveHostName (10, 0, 0, 1) none (onlyPtr (ascii "nas.lan"))
      (Vector.replicate 256 0) (Vector.replicate 256 0) = some (ascii "nas") := by decide
  refine ⟨hname, ?_⟩
  refine (safeName_iff (fun name h => by simp at h) _ _ _).mpr (.inr (.inr ?_)) _ hname
  intro ptrName hptr
  right
  rw [← Option.some.inj hptr, hlabel]
  decide

end NetScanner.Names
