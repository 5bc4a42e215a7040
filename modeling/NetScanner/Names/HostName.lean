import NetScanner.Names.Reference

/-!
# The name a reply gives its sender

What the records of a DNS message are (`Reading`), and what name they give the host that sent
it (`SenderName`). `hostName_iff` says that `hostName` reads just that.

The loop over the records keeps a slice of the output buffer while it goes on, and the buffer is
written again for a later record. `recordLoop_pick` compares it with `pick`, which keeps the
bytes themselves: nothing that is returned was overwritten.
-/

namespace NetScanner.Names

open Infra Net

variable {packet : Bytes} {«from» : Ip}

/-! ## Records -/

/-- A resource record: where its owner's name is, its type, and where its data is. -/
structure Record where
  owner : Nat
  rtype : Nat
  rdata : Nat
  rdlen : Nat
deriving DecidableEq, Repr

/-- A name in place ends there. -/
def NameEnds (packet : Bytes) (pos next : Nat) : Prop :=
  ∃ labels rest, InPlace packet pos labels rest next

/-- A record, and where the next thing starts: its name, its fixed part and its data are in the
packet. -/
inductive RecordAt (packet : Bytes) : Nat → Record → Nat → Prop where
  | intro {pos fixed : Nat} (hname : NameEnds packet pos fixed)
      (hfixed : fixed + 10 ≤ packet.length)
      (hdata : fixed + 10 + readU16 packet (fixed + 8) ≤ packet.length) :
      RecordAt packet pos
        { owner := pos, rtype := readU16 packet fixed, rdata := fixed + 10,
          rdlen := readU16 packet (fixed + 8) }
        (fixed + 10 + readU16 packet (fixed + 8))

/-- So many questions, and where the next thing starts. -/
inductive QuestionsAt (packet : Bytes) : Nat → Nat → Nat → Prop where
  | done {pos : Nat} : QuestionsAt packet 0 pos pos
  | question {count pos fixed next : Nat} (hname : NameEnds packet pos fixed)
      (hfixed : fixed + 4 ≤ packet.length) (more : QuestionsAt packet count (fixed + 4) next) :
      QuestionsAt packet (count + 1) pos next

/-- The records before the first that runs off the packet, and whether there are as many as were
counted. -/
inductive RecordsAt (packet : Bytes) : Nat → Nat → List Record → Bool → Prop where
  | done {pos : Nat} : RecordsAt packet 0 pos [] true
  | broken {count pos : Nat} (h : ∀ r next, ¬RecordAt packet pos r next) :
      RecordsAt packet (count + 1) pos [] false
  | record {count pos next : Nat} {r : Record} {records : List Record} {wellFormed : Bool}
      (h : RecordAt packet pos r next) (more : RecordsAt packet count next records wellFormed) :
      RecordsAt packet (count + 1) pos (r :: records) wellFormed

/-- The records of a message, and whether all of it is well formed. -/
inductive Reading (packet : Bytes) : List Record → Bool → Prop where
  | broken (h : packet.length < dnsHeaderLen ∨
      ∀ start, ¬QuestionsAt packet (readU16 packet 4) dnsHeaderLen start) : Reading packet [] false
  | message {start : Nat} {records : List Record} {wellFormed : Bool}
      (hlen : dnsHeaderLen ≤ packet.length)
      (hquestions : QuestionsAt packet (readU16 packet 4) dnsHeaderLen start)
      (hrecords : RecordsAt packet (readU16 packet 6 + readU16 packet 8 + readU16 packet 10) start
        records wellFormed) : Reading packet records wellFormed

/-- The answer to a reverse query for the sender. -/
def NamesSender (packet : Bytes) («from» : Ip) (r : Record) : Prop :=
  r.rtype = dnsTypePtr ∧
    ∃ owner, Decodes packet r.owner owner ∧ eqlIgnoreCase owner (reverseName «from») = true

/-- An address record of the sender. -/
def IsAddressOf (packet : Bytes) («from» : Ip) (r : Record) : Prop :=
  r.rtype = dnsTypeA ∧ r.rdlen = 4 ∧ slice packet r.rdata (r.rdata + 4) = ipBytes «from»

/-- The name the records give the sender: the target of the first answer to a reverse query for
it; without one, the owner of the first of its address records that has one, when all of the
message is well formed. -/
inductive SenderName (packet : Bytes) («from» : Ip) (records : List Record) (wellFormed : Bool) :
    Option Bytes → Prop where
  | reverse {before after : List Record} {r : Record} {name : Option Bytes}
      (hrecords : records = before ++ r :: after)
      (hbefore : ∀ x ∈ before, ¬NamesSender packet «from» x) (hr : NamesSender packet «from» r)
      (hname : ∀ n, name = some n ↔ Decodes packet r.rdata n) :
      SenderName packet «from» records wellFormed name
  | address {before after : List Record} {r : Record} {name : Bytes}
      (hnone : ∀ x ∈ records, ¬NamesSender packet «from» x) (hwell : wellFormed = true)
      (hrecords : records = before ++ r :: after)
      (hbefore : ∀ x ∈ before, IsAddressOf packet «from» x → ∀ n, ¬Decodes packet x.owner n)
      (hr : IsAddressOf packet «from» r) (hname : Decodes packet r.owner name) :
      SenderName packet «from» records wellFormed (some name)
  | nobody (hnone : ∀ x ∈ records, ¬NamesSender packet «from» x)
      (h : wellFormed = false ∨
        ∀ x ∈ records, IsAddressOf packet «from» x → ∀ n, ¬Decodes packet x.owner n) :
      SenderName packet «from» records wellFormed none

/-! ## What the loop does with the records -/

/-- The name at a position. -/
def nameOf (packet : Bytes) (pos : Nat) : Option Bytes :=
  decoded (decodeName packet pos (Vector.replicate 256 0))

theorem nameOf_iff {pos : Nat} {name : Bytes} :
    nameOf packet pos = some name ↔ Decodes packet pos name := decodeName_iff

theorem decoded_eq_nameOf (pos : Nat) (out : Buffer) :
    decoded (decodeName packet pos out) = nameOf packet pos := decoded_decodeName_eq pos out _

theorem nameOf_eq_none_iff {pos : Nat} :
    nameOf packet pos = none ↔ ∀ name, ¬Decodes packet pos name := by
  rw [Option.eq_none_iff_forall_ne_some]
  exact forall_congr' fun name => not_congr nameOf_iff

/-- The loop over a list of records, with the bytes of the name that was found. -/
def pick (packet : Bytes) («from» : Ip) (wellFormed : Bool) :
    List Record → Option Bytes → Option Bytes
  | [], found => if wellFormed then found else none
  | r :: rest, found =>
    if r.rtype = dnsTypePtr then
      match nameOf packet r.owner with
      | none => pick packet «from» wellFormed rest found
      | some owner =>
        if eqlIgnoreCase owner (reverseName «from») = false then
          pick packet «from» wellFormed rest found
        else nameOf packet r.rdata
    else if r.rtype = dnsTypeA ∧ r.rdlen = 4 ∧ found = none ∧
        slice packet r.rdata (r.rdata + 4) = ipBytes «from» then
      pick packet «from» wellFormed rest (nameOf packet r.owner)
    else pick packet «from» wellFormed rest found

/-- A record that is not there ends the loop. -/
theorem recordLoop_broken {count pos : Nat} (h : ∀ r next, ¬RecordAt packet pos r next)
    (byAddress : Option Nat) (out ownerBuf : Buffer) :
    recordLoop packet «from» (count + 1) pos byAddress out ownerBuf = none := by
  rw [recordLoop]
  by_cases hpos : pos > packet.length
  · rw [if_pos hpos]
  · rw [if_neg hpos]
    cases hskip : skipName packet pos with
    | none => rfl
    | some fixed =>
      have hname := skipName_iff.mp hskip
      simp only
      by_cases hfixed : fixed + 10 > packet.length
      · rw [if_pos hfixed]
      · rw [if_neg hfixed]
        by_cases hdata : fixed + 10 + readU16 packet (fixed + 8) > packet.length
        · rw [if_pos hdata]
        · exact absurd (.intro hname (by omega) (by omega)) (h _ _)

/-- **The loop does with the buffer what `pick` does with the bytes.** -/
theorem recordLoop_pick {count pos : Nat} {records : List Record} {wellFormed : Bool}
    (h : RecordsAt packet count pos records wellFormed) (byAddress : Option Nat)
    (out ownerBuf : Buffer) :
    recordLoop packet «from» count pos byAddress out ownerBuf =
      pick packet «from» wellFormed records (byAddress.map (text out)) := by
  induction h generalizing byAddress out ownerBuf with
  | done => rfl
  | broken h => rw [recordLoop_broken h]; rfl
  | @record count pos next r records wellFormed h more ih =>
    cases h with
    | @intro fixed hname hfixed hdata =>
      have hskip := skipName_iff.mpr hname
      have hlt : pos < packet.length := by
        obtain ⟨labels, rest, hplace⟩ := hname
        exact hplace.lt
      rw [recordLoop, if_neg (by omega), hskip]
      simp only
      rw [if_neg (by omega), if_neg (by omega), pick]
      simp only
      by_cases hptr : readU16 packet fixed = dnsTypePtr
      · rw [if_pos hptr, if_pos hptr, ← decoded_eq_nameOf pos ownerBuf]
        obtain ⟨owner, ownerBuf'⟩ := decodeName packet pos ownerBuf
        cases owner with
        | none => exact ih byAddress out ownerBuf'
        | some len =>
          simp only [decoded, Option.map_some]
          by_cases hrev : eqlIgnoreCase (text ownerBuf' len) (reverseName «from») = false
          · rw [if_pos hrev, if_pos hrev]
            exact ih byAddress out ownerBuf'
          · rw [if_neg hrev, if_neg hrev, ← decoded_eq_nameOf _ out]
            rfl
      · rw [if_neg hptr, if_neg hptr]
        simp only [Option.map_eq_none_iff]
        split
        · rw [ih, ← decoded_eq_nameOf pos out]
          rfl
        · exact ih byAddress out ownerBuf

/-! ## What is picked -/

/-- Whether the record answers a reverse query for the sender. -/
def namesSender (packet : Bytes) («from» : Ip) (r : Record) : Bool :=
  decide (r.rtype = dnsTypePtr) &&
    match nameOf packet r.owner with
    | none => false
    | some owner => eqlIgnoreCase owner (reverseName «from»)

theorem namesSender_iff {r : Record} :
    namesSender packet «from» r = true ↔ NamesSender packet «from» r := by
  unfold namesSender NamesSender
  rw [Bool.and_eq_true, decide_eq_true_eq]
  cases hname : nameOf packet r.owner with
  | none =>
    have hnone := nameOf_eq_none_iff.mp hname
    simp [hnone]
  | some owner =>
    constructor
    · rintro ⟨hptr, hrev⟩
      exact ⟨hptr, owner, nameOf_iff.mp hname, hrev⟩
    · rintro ⟨hptr, other, hother, hrev⟩
      rw [nameOf_iff.mpr hother, Option.some.injEq] at hname
      exact ⟨hptr, by rw [← hname]; exact hrev⟩

instance (r : Record) : Decidable (IsAddressOf packet «from» r) :=
  inferInstanceAs (Decidable (_ ∧ _ ∧ _))

/-- The owner of an address record of the sender. -/
def addressName (packet : Bytes) («from» : Ip) (r : Record) : Option Bytes :=
  if IsAddressOf packet «from» r then nameOf packet r.owner else none

theorem addressName_eq_none_iff {r : Record} :
    addressName packet «from» r = none ↔
      (IsAddressOf packet «from» r → ∀ name, ¬Decodes packet r.owner name) := by
  unfold addressName
  by_cases h : IsAddressOf packet «from» r
  · rw [if_pos h, nameOf_eq_none_iff]
    exact ⟨fun hnone _ => hnone, fun hnone => hnone h⟩
  · rw [if_neg h]
    exact ⟨fun _ haddr => absurd haddr h, fun _ => rfl⟩

/-- **What `pick` finds**: the target of the first answer to a reverse query; without one, what
was found before or the first address name. -/
theorem pick_eq (wellFormed : Bool) (records : List Record) (found : Option Bytes) :
    pick packet «from» wellFormed records found =
      match records.find? (namesSender packet «from») with
      | some r => nameOf packet r.rdata
      | none =>
        if wellFormed then found.or (records.findSome? (addressName packet «from»)) else none := by
  induction records generalizing found with
  | nil => simp [pick]
  | cons r rest ih =>
    rw [pick, List.find?_cons, List.findSome?_cons]
    by_cases hptr : r.rtype = dnsTypePtr
    · have haddr : addressName packet «from» r = none := by
        refine if_neg ?_
        rintro ⟨ha, -⟩
        rw [hptr] at ha
        revert ha
        decide
      rw [if_pos hptr, haddr]
      cases hname : nameOf packet r.owner with
      | none =>
        have hnot : namesSender packet «from» r = false := by simp [namesSender, hname]
        rw [hnot]
        exact ih found
      | some owner =>
        by_cases hrev : eqlIgnoreCase owner (reverseName «from») = false
        · have hnot : namesSender packet «from» r = false := by simp [namesSender, hname, hrev]
          simp only [hrev, hnot, if_true]
          exact ih found
        · have hyes : namesSender packet «from» r = true := by
            simpa [namesSender, hname, hptr] using hrev
          simp only [hrev, hyes]
          rfl
    · have hnot : namesSender packet «from» r = false := by simp [namesSender, hptr]
      rw [if_neg hptr, hnot]
      by_cases haddr : IsAddressOf packet «from» r
      · have hname : addressName packet «from» r = nameOf packet r.owner := if_pos haddr
        obtain ⟨ha, hlen, hdata⟩ := haddr
        cases found with
        | none =>
          rw [if_pos ⟨ha, hlen, rfl, hdata⟩, ih, hname, Option.none_or]
          cases nameOf packet r.owner with
          | none => rw [Option.none_or]
          | some name => rw [Option.some_or]
        | some name =>
          rw [if_neg (by simp), ih, Option.some_or, Option.some_or]
      · have hname : addressName packet «from» r = none := if_neg haddr
        rw [if_neg, ih, hname]
        rintro ⟨ha, hlen, -, hdata⟩
        exact haddr ⟨ha, hlen, hdata⟩

theorem find_namesSender_iff {records : List Record} {r : Record} :
    records.find? (namesSender packet «from») = some r ↔
      ∃ before after, records = before ++ r :: after ∧
        (∀ x ∈ before, ¬NamesSender packet «from» x) ∧ NamesSender packet «from» r := by
  rw [List.find?_eq_some_iff_append]
  constructor
  · rintro ⟨hr, before, after, rfl, hbefore⟩
    refine ⟨before, after, rfl, ?_, namesSender_iff.mp hr⟩
    intro x hx hnames
    have := hbefore x hx
    rw [namesSender_iff.mpr hnames] at this
    simp at this
  · rintro ⟨before, after, rfl, hbefore, hr⟩
    refine ⟨namesSender_iff.mpr hr, before, after, rfl, ?_⟩
    intro x hx
    rw [Bool.not_eq_true', ← Bool.not_eq_true, namesSender_iff]
    exact hbefore x hx

theorem find_namesSender_none_iff {records : List Record} :
    records.find? (namesSender packet «from») = none ↔
      ∀ x ∈ records, ¬NamesSender packet «from» x := by
  rw [List.find?_eq_none]
  exact forall₂_congr fun x _ => not_congr namesSender_iff

theorem findSome_addressName_iff {records : List Record} {name : Bytes} :
    records.findSome? (addressName packet «from») = some name ↔
      ∃ before r after, records = before ++ r :: after ∧
        (IsAddressOf packet «from» r ∧ Decodes packet r.owner name) ∧
        ∀ x ∈ before, IsAddressOf packet «from» x → ∀ n, ¬Decodes packet x.owner n := by
  rw [List.findSome?_eq_some_iff]
  have hsome : ∀ r, addressName packet «from» r = some name ↔
      IsAddressOf packet «from» r ∧ Decodes packet r.owner name := by
    intro r
    rw [addressName, Option.ite_none_right_eq_some, nameOf_iff]
  simp only [hsome, addressName_eq_none_iff]

/-- **`SenderName` is what is picked.** -/
theorem senderName_iff {records : List Record} {wellFormed : Bool} {name : Option Bytes} :
    SenderName packet «from» records wellFormed name ↔
      pick packet «from» wellFormed records none = name := by
  rw [pick_eq, Option.none_or]
  constructor
  · intro h
    cases h with
    | @reverse before after r _ hrecords hbefore hr hname =>
      rw [find_namesSender_iff.mpr ⟨before, after, hrecords, hbefore, hr⟩]
      apply Option.ext
      intro n
      rw [nameOf_iff, hname]
    | @address before after r name hnone hwell hrecords hbefore hr hname =>
      rw [find_namesSender_none_iff.mpr hnone]
      simp only [hwell, if_true]
      exact findSome_addressName_iff.mpr ⟨before, r, after, hrecords, ⟨hr, hname⟩, hbefore⟩
    | nobody hnone h =>
      rw [find_namesSender_none_iff.mpr hnone]
      rcases h with hwell | haddress
      · rw [hwell]
        rfl
      · have : records.findSome? (addressName packet «from») = none :=
          List.findSome?_eq_none_iff.mpr fun x hx => addressName_eq_none_iff.mpr (haddress x hx)
        simp only [this, ite_self]
  · rintro rfl
    cases hfind : records.find? (namesSender packet «from») with
    | some r =>
      obtain ⟨before, after, hrecords, hbefore, hr⟩ := find_namesSender_iff.mp hfind
      exact .reverse hrecords hbefore hr fun n => nameOf_iff
    | none =>
      have hnone := find_namesSender_none_iff.mp hfind
      cases wellFormed with
      | false => exact .nobody hnone (.inl rfl)
      | true =>
        cases haddress : records.findSome? (addressName packet «from») with
        | none =>
          refine .nobody hnone (.inr ?_)
          intro x hx
          exact addressName_eq_none_iff.mp (List.findSome?_eq_none_iff.mp haddress x hx)
        | some name =>
          obtain ⟨before, r, after, hrecords, ⟨hr, hname⟩, hbefore⟩ :=
            findSome_addressName_iff.mp haddress
          exact .address hnone rfl hrecords hbefore hr hname

/-! ## The whole message -/

theorem skipQuestions_of_questionsAt {count pos next : Nat}
    (h : QuestionsAt packet count pos next) (hpos : pos ≤ packet.length) :
    skipQuestions packet count pos = some next ∧ next ≤ packet.length := by
  induction h with
  | done => exact ⟨rfl, hpos⟩
  | question hname hfixed more ih =>
    obtain ⟨hskip, hnext⟩ := ih hfixed
    rw [skipQuestions, skipName_iff.mpr hname]
    exact ⟨hskip, hnext⟩

/-- Questions that end in the packet are all in it: each but the last is followed by a name. -/
theorem questionsAt_of_skipQuestions {count pos next : Nat}
    (h : skipQuestions packet count pos = some next) (hnext : next ≤ packet.length) :
    pos ≤ packet.length ∧ QuestionsAt packet count pos next := by
  induction count generalizing pos with
  | zero =>
    obtain rfl := Option.some.inj h
    exact ⟨hnext, .done⟩
  | succ count ih =>
    rw [skipQuestions] at h
    cases hskip : skipName packet pos with
    | none => simp [hskip] at h
    | some fixed =>
      rw [hskip] at h
      have hname := skipName_iff.mp hskip
      obtain ⟨hfixed, hmore⟩ := ih h
      obtain ⟨labels, rest, hplace⟩ := hname
      exact ⟨Nat.le_of_lt hplace.lt, .question ⟨labels, rest, hplace⟩ hfixed hmore⟩

theorem exists_recordsAt (packet : Bytes) (count pos : Nat) :
    ∃ records wellFormed, RecordsAt packet count pos records wellFormed := by
  induction count generalizing pos with
  | zero => exact ⟨[], true, .done⟩
  | succ count ih =>
    by_cases h : ∃ r next, RecordAt packet pos r next
    · obtain ⟨r, next, hr⟩ := h
      obtain ⟨records, wellFormed, hmore⟩ := ih next
      exact ⟨r :: records, wellFormed, .record hr hmore⟩
    · exact ⟨[], false, .broken fun r next hr => h ⟨r, next, hr⟩⟩

/-- Every message has a reading. -/
theorem exists_reading (packet : Bytes) :
    ∃ records wellFormed, Reading packet records wellFormed := by
  by_cases hlen : packet.length < dnsHeaderLen
  · exact ⟨[], false, .broken (.inl hlen)⟩
  · by_cases h : ∃ start, QuestionsAt packet (readU16 packet 4) dnsHeaderLen start
    · obtain ⟨start, hstart⟩ := h
      obtain ⟨records, wellFormed, hrecords⟩ := exists_recordsAt packet _ start
      exact ⟨records, wellFormed, .message (by omega) hstart hrecords⟩
    · exact ⟨[], false, .broken (.inr fun start hstart => h ⟨start, hstart⟩)⟩

/-- Records that start past the end of the packet name nobody. -/
theorem recordLoop_past {count pos : Nat} (h : packet.length < pos) (out ownerBuf : Buffer) :
    recordLoop packet «from» count pos none out ownerBuf = none := by
  cases count with
  | zero => rfl
  | succ count => rw [recordLoop, if_pos h]

theorem hostName_eq_pick {records : List Record} {wellFormed : Bool}
    (h : Reading packet records wellFormed) (out ownerBuf : Buffer) :
    hostName packet «from» out ownerBuf = pick packet «from» wellFormed records none := by
  cases h with
  | broken h =>
    unfold hostName
    by_cases hlen : packet.length < dnsHeaderLen
    · rw [if_pos hlen]
      rfl
    · rw [if_neg hlen]
      have hquestions := h.resolve_left hlen
      simp only
      cases hskip : skipQuestions packet (readU16 packet 4) dnsHeaderLen with
      | none => rfl
      | some start =>
        have hpast : packet.length < start := by
          by_contra hle
          exact hquestions start (questionsAt_of_skipQuestions hskip (by omega)).2
        exact recordLoop_past hpast out ownerBuf
  | message hlen hquestions hrecords =>
    unfold hostName
    rw [if_neg (Nat.not_lt.mpr hlen)]
    simp only
    rw [(skipQuestions_of_questionsAt hquestions hlen).1]
    exact recordLoop_pick hrecords none out ownerBuf

theorem hostName_eq_iff (packet : Bytes) («from» : Ip) (out ownerBuf : Buffer)
    (name : Option Bytes) :
    hostName packet «from» out ownerBuf = name ↔
      ∃ records wellFormed, Reading packet records wellFormed ∧
        SenderName packet «from» records wellFormed name := by
  constructor
  · rintro rfl
    obtain ⟨records, wellFormed, hreading⟩ := exists_reading packet
    refine ⟨records, wellFormed, hreading, ?_⟩
    rw [senderName_iff, hostName_eq_pick hreading]
  · rintro ⟨records, wellFormed, hreading, hname⟩
    rw [hostName_eq_pick hreading, senderName_iff.mp hname]

/-- **`hostName` is the name the records of the message give its sender**, whatever the buffers
hold. -/
theorem hostName_iff (packet : Bytes) («from» : Ip) (out ownerBuf : Buffer)
    (name : Option Bytes) :
    hostName packet «from» out ownerBuf = name ↔
      ∃ records wellFormed, Reading packet records wellFormed ∧
        SenderName packet «from» records wellFormed name :=
  hostName_eq_iff packet «from» out ownerBuf name

end NetScanner.Names
