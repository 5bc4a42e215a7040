import NetScanner.Names.ReverseQuery
import NetScanner.Infra.Checked

/-!
# Reading names inside the packet

`src/core/multicast.zig` once more, with every read of the packet and every write of a buffer
checked, and every loop counted. A name is skipped in as many rounds as the packet has bytes; a
name is decoded in as many for each pointer it may follow. Under `DecodeState.Ready` what was
written fits the buffer (`decodeStep_follows`).
-/

namespace NetScanner.Names

open Infra Net Checked

variable {packet : Bytes}

namespace Machine

/-! ## The readers -/

/-- `packet[pos..][0..2]` as a big-endian number. -/
def readU16 (packet : Bytes) (pos : Nat) : Checked Nat := do
  let pair ← Checked.window packet pos (pos + 2)
  let high ← Checked.get pair 0
  let low ← Checked.get pair 1
  some (high.toNat * 256 + low.toNat)

/-- A round of `skipName`. -/
def skipStep (packet : Bytes) (pos : Nat) : Checked (Round Nat (Option Nat)) :=
  if pos < packet.length then do
    let len ← Checked.get packet pos
    if len = 0 then some (.stop (some (pos + 1)))
    else if len &&& 0xC0 = 0xC0 then
      some (.stop (if pos + 2 ≤ packet.length then some (pos + 2) else none))
    else if len &&& 0xC0 ≠ 0 then some (.stop none)
    else do
      let more ← Checked.add 8 1 len.toNat
      some (.again (pos + more))
  else some (.stop none)

/-- `skipName`. -/
def skipName (packet : Bytes) (start : Nat) : Checked (Option Nat) :=
  rounds (skipStep packet) (packet.length + 1) start

/-- `out[i] = char`. -/
def store (out : Buffer) (i : Nat) (char : UInt8) : Checked Buffer :=
  if i < 256 then some (out.setIfInBounds i char) else none

/-- The loop of `decodeName` over the bytes of a label. -/
def writeLabel (out : Buffer) (len : Nat) : Bytes → Checked (Option Nat × Buffer)
  | [] => some (some len, out)
  | char :: rest =>
    if char < 32 ∨ char > 126 then some (none, out)
    else do
      let out ← store out len char
      writeLabel out (len + 1) rest

/-- The variables of `decodeName`. -/
structure DecodeState where
  pos : Nat
  len : Nat
  jumps : Nat
  out : Buffer

/-- A round of `decodeName`. -/
def decodeStep (packet : Bytes) (s : DecodeState) :
    Checked (Round DecodeState (Option Nat × Buffer)) :=
  if s.pos ≥ packet.length then some (.stop (none, s.out))
  else do
    let labelLen ← Checked.get packet s.pos
    if labelLen = 0 then some (.stop (some s.len, s.out))
    else if labelLen &&& 0xC0 = 0xC0 then
      if s.pos + 1 ≥ packet.length ∨ s.jumps = maxJumps then some (.stop (none, s.out))
      else do
        let low ← Checked.get packet (s.pos + 1)
        some (.again { s with jumps := s.jumps + 1, pos := pointerTarget labelLen low })
    else if labelLen &&& 0xC0 ≠ 0 then some (.stop (none, s.out))
    else
      let labelStart := s.pos + 1
      let labelEnd := labelStart + labelLen.toNat
      if labelEnd > packet.length then some (.stop (none, s.out))
      else
        let dot := if s.len > 0 then 1 else 0
        if s.len + dot + labelLen.toNat > 256 then some (.stop (none, s.out))
        else do
          let out ← (if dot = 1 then store s.out s.len 46 else some s.out)
          let label ← Checked.window packet labelStart labelEnd
          match ← writeLabel out (s.len + dot) label with
          | (none, out) => some (.stop (none, out))
          | (some len, out) => some (.again { s with out, len, pos := labelEnd })

/-- `decodeName`; what it returns is a slice of the buffer. -/
def decodeName (packet : Bytes) (start : Nat) (out : Buffer) : Checked (Option Nat × Buffer) := do
  match ← rounds (decodeStep packet) ((maxJumps + 1) * (packet.length + 1))
    { pos := start, len := 0, jumps := 0, out } with
  | (some len, out) =>
    if len = 0 then some (none, out)
    else if len ≤ 256 then some (some len, out)
    else none
  | (none, out) => some (none, out)

/-- The loop of `hostName` over the questions. -/
def skipQuestions (packet : Bytes) : Nat → Nat → Checked (Option Nat)
  | 0, pos => some (some pos)
  | count + 1, pos => do
    match ← skipName packet pos with
    | none => some none
    | some pos => skipQuestions packet count (pos + 4)

/-- `reverse_buf`: the text of the reverse name, in a buffer of 32 bytes. -/
def reverseBuf («from» : Ip) : Checked Bytes :=
  if (reverseName «from»).length ≤ 32 then some (reverseName «from») else none

/-- The loop of `hostName` over the records. -/
def recordLoop (packet : Bytes) («from» : Ip) (reverse : Bytes) :
    Nat → Nat → Option Nat → Buffer → Buffer → Checked (Option Bytes)
  | 0, _, byAddress, out, _ => some (byAddress.map (text out))
  | count + 1, pos, byAddress, out, ownerBuf =>
    if pos > packet.length then some none
    else do
      let ownerPos := pos
      match ← skipName packet pos with
      | none => some none
      | some pos =>
        if pos + 10 > packet.length then some none
        else do
          let rtype ← readU16 packet pos
          let rdlen ← readU16 packet (pos + 8)
          let rdata := pos + 10
          let pos := rdata + rdlen
          if pos > packet.length then some none
          else if rtype = dnsTypePtr then do
            match ← decodeName packet ownerPos ownerBuf with
            | (none, ownerBuf) => recordLoop packet «from» reverse count pos byAddress out ownerBuf
            | (some len, ownerBuf) =>
              if eqlIgnoreCase (text ownerBuf len) reverse = false then
                recordLoop packet «from» reverse count pos byAddress out ownerBuf
              else do
                let (name, out) ← decodeName packet rdata out
                some (name.map (text out))
          else if rtype = dnsTypeA ∧ rdlen = 4 ∧ byAddress = none then do
            let address ← Checked.window packet rdata (rdata + 4)
            if address = ipBytes «from» then do
              let (name, out) ← decodeName packet ownerPos out
              recordLoop packet «from» reverse count pos name out ownerBuf
            else recordLoop packet «from» reverse count pos byAddress out ownerBuf
          else recordLoop packet «from» reverse count pos byAddress out ownerBuf

/-- `hostName`. -/
def hostName (packet : Bytes) («from» : Ip) (out ownerBuf : Buffer) : Checked (Option Bytes) :=
  if packet.length < dnsHeaderLen then some none
  else do
    let qdcount ← readU16 packet 4
    let answers ← readU16 packet 6
    let authority ← readU16 packet 8
    let additional ← readU16 packet 10
    let reverse ← reverseBuf «from»
    match ← skipQuestions packet qdcount dnsHeaderLen with
    | none => some none
    | some pos =>
      recordLoop packet «from» reverse (answers + authority + additional) pos none out ownerBuf

/-! ## What they read -/

theorem readU16_eq {pos : Nat} (h : pos + 2 ≤ packet.length) :
    readU16 packet pos = some (Names.readU16 packet pos) := by
  have hpair : ∀ i < 2, Checked.get (slice packet pos (pos + 2)) i =
      some (byteAt packet (pos + i)) := by
    intro i hi
    rw [← get_byteAt (by omega), Checked.get, Checked.get, slice,
      List.getElem?_take_of_lt (by omega), List.getElem?_drop]
  rw [readU16, Checked.window_eq (by omega) h, Option.bind_eq_bind, Option.bind_some,
    hpair 0 (by decide), Option.bind_eq_bind, Option.bind_some, hpair 1 (by decide)]
  rfl

theorem skipStep_follows (packet : Bytes) (pos : Nat) :
    ∃ r, skipStep packet pos = some r ∧
      r.Follows (fun _ => True) (fun pos => packet.length - pos) (Names.skipName packet) pos := by
  unfold skipStep
  split
  · next hpos =>
    rw [get_byteAt hpos, Option.bind_eq_bind, Option.bind_some]
    have hskip := Names.skipName.eq_1 packet pos
    rw [if_pos hpos] at hskip
    simp only at hskip
    split
    · next h => exact ⟨_, rfl, by rw [if_pos h] at hskip; exact hskip.symm⟩
    · next hzero =>
      rw [if_neg hzero] at hskip
      split
      · next h => exact ⟨_, rfl, by rw [if_pos h] at hskip; exact hskip.symm⟩
      · next hpointer =>
        rw [if_neg hpointer] at hskip
        split
        · next h => exact ⟨_, rfl, by rw [if_pos h] at hskip; exact hskip.symm⟩
        · next hlabel =>
          rw [if_neg hlabel, Nat.add_assoc] at hskip
          have hlt := not_le.mp (mt (not_label_iff _).mpr hlabel)
          rw [Checked.add_eq (by omega), Option.bind_eq_bind, Option.bind_some]
          refine ⟨_, rfl, trivial, ?_, hskip.symm⟩
          show packet.length - (pos + (1 + (byteAt packet pos).toNat)) < packet.length - pos
          omega
  · next hpos =>
    refine ⟨_, rfl, ?_⟩
    rw [Round.Follows, Names.skipName, if_neg hpos]

/-- **Skipping a name stays inside the packet and ends.** -/
theorem skipName_eq (packet : Bytes) (start : Nat) :
    skipName packet start = some (Names.skipName packet start) :=
  rounds_eq (fun _ => True) (fun pos => packet.length - pos) (Names.skipName packet)
    (fun pos _ => skipStep_follows packet pos) trivial (by omega)

/-- A label that fits the buffer is written inside it. -/
theorem writeLabel_eq (label : Bytes) {len : Nat} (out : Buffer) (h : len + label.length ≤ 256) :
    writeLabel out len label = some (Names.writeLabel out len label) := by
  induction label generalizing len out with
  | nil => rfl
  | cons char rest ih =>
    rw [List.length_cons] at h
    rw [writeLabel, Names.writeLabel]
    split
    · rfl
    · rw [store, if_pos (by omega), Option.bind_eq_bind, Option.bind_some]
      exact ih _ (by omega)

theorem writeLabel_len {label : Bytes} {len n : Nat} {out out' : Buffer}
    (h : Names.writeLabel out len label = (some n, out')) : n = len + label.length := by
  induction label generalizing len out with
  | nil =>
    obtain ⟨hn, -⟩ := Prod.mk.inj h
    rw [List.length_nil, Nat.add_zero, Option.some.inj hn]
  | cons char rest ih =>
    rw [Names.writeLabel] at h
    split at h
    · simp at h
    · rw [ih h, List.length_cons]
      omega

/-! ## Decoding a name -/

/-- What was written fits the buffer, and the pointers that were followed are counted. -/
structure DecodeState.Ready (s : DecodeState) : Prop where
  len : s.len ≤ 256
  jumps : s.jumps ≤ maxJumps

/-- The rounds that are left: a pointer may go back to the start of the packet, but there are only
so many of them. -/
def DecodeState.variant (packet : Bytes) (s : DecodeState) : Nat :=
  (maxJumps - s.jumps) * (packet.length + 1) + (packet.length - s.pos)

/-- What the loop leaves. -/
def DecodeState.result (packet : Bytes) (s : DecodeState) : Option Nat × Buffer :=
  decodeLoop packet (maxJumps - s.jumps) s.pos s.len s.out

theorem decodeStep_follows (packet : Bytes) (s : DecodeState) (h : s.Ready) :
    ∃ r, decodeStep packet s = some r ∧
      r.Follows DecodeState.Ready (DecodeState.variant packet) (DecodeState.result packet) s := by
  have hloop := decodeLoop.eq_1 packet (maxJumps - s.jumps) s.pos s.len s.out
  rw [← DecodeState.result] at hloop
  unfold decodeStep
  split
  · next hpos => exact ⟨_, rfl, by rw [if_pos hpos] at hloop; exact hloop.symm⟩
  · next hpos =>
    rw [if_neg hpos] at hloop
    rw [get_byteAt (Nat.not_le.mp hpos), Option.bind_eq_bind, Option.bind_some]
    simp only at hloop
    split
    · next hend => exact ⟨_, rfl, by rw [if_pos hend] at hloop; exact hloop.symm⟩
    · next hend =>
      rw [if_neg hend] at hloop
      split
      · next hpointer =>
        rw [if_pos hpointer] at hloop
        split
        · next hstop =>
          refine ⟨_, rfl, ?_⟩
          rw [Round.Follows, hloop]
          by_cases hcut : s.pos + 1 ≥ packet.length
          · rw [if_pos hcut]
          · have hjumps : maxJumps - s.jumps = 0 := by
              have := hstop.resolve_left hcut
              omega
            rw [if_neg hcut, hjumps]
        · next hgo =>
          -- a jump goes anywhere in the packet, but there are fewer of them left
          rw [not_or] at hgo
          have hready := h.jumps
          have hleft : maxJumps - s.jumps = maxJumps - (s.jumps + 1) + 1 := by omega
          rw [get_byteAt (Nat.not_le.mp hgo.1), Option.bind_some]
          rw [if_neg hgo.1, hleft] at hloop
          refine ⟨_, rfl, ⟨h.len, show s.jumps + 1 ≤ maxJumps by omega⟩, ?_, hloop.symm⟩
          rw [DecodeState.variant, DecodeState.variant, hleft, Nat.add_mul, Nat.one_mul]
          simp only
          omega
      · next hpointer =>
        rw [if_neg hpointer] at hloop
        split
        · next hlabel => exact ⟨_, rfl, by rw [if_pos hlabel] at hloop; exact hloop.symm⟩
        · next hlabel =>
          rw [if_neg hlabel] at hloop
          simp only
          generalize hdot : (if s.len > 0 then 1 else 0 : Nat) = dot at hloop ⊢
          split
          · next hlong => exact ⟨_, rfl, by rw [if_pos hlong] at hloop; exact hloop.symm⟩
          · next hfits =>
            rw [if_neg hfits] at hloop
            split
            · next hlong => exact ⟨_, rfl, by rw [if_pos hlong] at hloop; exact hloop.symm⟩
            · next hroom =>
              rw [if_neg hroom] at hloop
              -- the dot and the label fit: the checks above count both
              have hstore : (if dot = 1 then store s.out s.len 46 else some s.out) =
                  some (if dot = 1 then s.out.setIfInBounds s.len 46 else s.out) := by
                split
                · next hone => rw [store, if_pos (by omega)]
                · rfl
              have hlength : (slice packet (s.pos + 1)
                  (s.pos + 1 + (byteAt packet s.pos).toNat)).length =
                  (byteAt packet s.pos).toNat := by
                rw [length_slice (Nat.not_lt.mp hfits), Nat.add_sub_cancel_left]
              rw [hstore, Option.bind_eq_bind, Option.bind_some,
                Checked.window_eq (Nat.le_add_right _ _) (Nat.not_lt.mp hfits),
                Option.bind_eq_bind, Option.bind_some, writeLabel_eq _ _ (by omega),
                Option.bind_eq_bind, Option.bind_some]
              split
              · next out hwrite =>
                rw [hwrite] at hloop
                exact ⟨_, rfl, hloop.symm⟩
              · next len out hwrite =>
                have hlen := writeLabel_len hwrite
                rw [hwrite] at hloop
                refine ⟨_, rfl, ⟨by simp only; omega, h.jumps⟩, ?_, hloop.symm⟩
                rw [DecodeState.variant, DecodeState.variant]
                simp only
                omega

/-- **Decoding a name stays inside the packet and the buffer, and ends**, wherever the pointers
point. -/
theorem decodeName_eq (packet : Bytes) (start : Nat) (out : Buffer) :
    decodeName packet start out = some (Names.decodeName packet start out) := by
  have hready : DecodeState.Ready { pos := start, len := 0, jumps := 0, out } :=
    ⟨Nat.zero_le _, Nat.zero_le _⟩
  have hvariant : DecodeState.variant packet { pos := start, len := 0, jumps := 0, out } <
      (maxJumps + 1) * (packet.length + 1) := by
    rw [DecodeState.variant, Nat.add_mul, Nat.one_mul, Nat.sub_zero]
    simp only
    omega
  have hrun : rounds (decodeStep packet) ((maxJumps + 1) * (packet.length + 1))
      { pos := start, len := 0, jumps := 0, out } = some (decodeLoop packet maxJumps start 0 out) :=
    rounds_eq DecodeState.Ready (DecodeState.variant packet) (DecodeState.result packet)
      (decodeStep_follows packet) hready hvariant
  rw [decodeName, Names.decodeName, hrun, Option.bind_eq_bind, Option.bind_some]
  cases hloop : decodeLoop packet maxJumps start 0 out with
  | mk result out' =>
    cases result with
    | none => rfl
    | some len =>
      obtain ⟨-, -, -, -, -, hlen, -⟩ := nameAt_of_decodeLoop (Nat.zero_le _) hloop
      simp only [if_pos hlen]
      split <;> rfl

/-! ## The whole reply -/

theorem skipQuestions_eq (packet : Bytes) (count pos : Nat) :
    skipQuestions packet count pos = some (Names.skipQuestions packet count pos) := by
  induction count generalizing pos with
  | zero => rfl
  | succ count ih =>
    rw [skipQuestions, Names.skipQuestions, skipName_eq, Option.bind_eq_bind, Option.bind_some]
    cases Names.skipName packet pos with
    | none => rfl
    | some pos => exact ih (pos + 4)

theorem reverseBuf_eq («from» : Ip) : reverseBuf «from» = some (reverseName «from») :=
  if_pos (Nat.le_trans (length_reverseName_le «from») (by decide))

theorem recordLoop_eq (packet : Bytes) («from» : Ip) (count pos : Nat) (byAddress : Option Nat)
    (out ownerBuf : Buffer) :
    recordLoop packet «from» (reverseName «from») count pos byAddress out ownerBuf =
      some (Names.recordLoop packet «from» count pos byAddress out ownerBuf) := by
  induction count generalizing pos byAddress out ownerBuf with
  | zero => rfl
  | succ count ih =>
    rw [recordLoop, Names.recordLoop]
    split
    · rfl
    · rw [skipName_eq, Option.bind_eq_bind, Option.bind_some]
      cases Names.skipName packet pos with
      | none => rfl
      | some fixed =>
        simp only
        split
        · rfl
        · next hfixed =>
          simp only [readU16_eq (show fixed + 2 ≤ packet.length by omega),
            readU16_eq (show fixed + 8 + 2 ≤ packet.length by omega), Option.bind_eq_bind,
            Option.bind_some]
          split
          · rfl
          · next hdata =>
            split
            · rw [decodeName_eq, Option.bind_some]
              cases Names.decodeName packet pos ownerBuf with
              | mk owner ownerBuf =>
                cases owner with
                | none => exact ih _ _ _ _
                | some len =>
                  simp only
                  split
                  · exact ih _ _ _ _
                  · rw [decodeName_eq]
                    rfl
            · by_cases hrecord :
                Names.readU16 packet fixed = dnsTypeA ∧ Names.readU16 packet (fixed + 8) = 4 ∧
                  byAddress = none
              · rw [if_pos hrecord, Checked.window_eq (by omega) (by omega), Option.bind_some]
                by_cases haddress :
                  slice packet (fixed + 10) (fixed + 10 + 4) = ipBytes «from»
                · rw [if_pos haddress, if_pos ⟨hrecord.1, hrecord.2.1, hrecord.2.2, haddress⟩,
                    decodeName_eq, Option.bind_some]
                  exact ih _ _ _ _
                · rw [if_neg haddress, if_neg fun h => haddress h.2.2.2]
                  exact ih _ _ _ _
              · rw [if_neg hrecord, if_neg fun h => hrecord ⟨h.1, h.2.1, h.2.2.1⟩]
                exact ih _ _ _ _

/-- **Reading a reply stays inside the packet and the buffers, and ends.** -/
theorem hostName_eq (packet : Bytes) («from» : Ip) (out ownerBuf : Buffer) :
    hostName packet «from» out ownerBuf = some (Names.hostName packet «from» out ownerBuf) := by
  rw [hostName, Names.hostName]
  split
  · rfl
  · next hlen =>
    rw [dnsHeaderLen, Nat.not_lt] at hlen
    simp only [readU16_eq (show 4 + 2 ≤ packet.length by omega),
      readU16_eq (show 6 + 2 ≤ packet.length by omega),
      readU16_eq (show 8 + 2 ≤ packet.length by omega),
      readU16_eq (show 10 + 2 ≤ packet.length by omega), reverseBuf_eq, skipQuestions_eq,
      Option.bind_eq_bind, Option.bind_some]
    cases Names.skipQuestions packet (Names.readU16 packet 4) dnsHeaderLen with
    | none => rfl
    | some pos => exact recordLoop_eq packet «from» _ pos none out ownerBuf

end Machine

/-- A name that is decoded is not empty and fits the buffer. -/
theorem decodeName_len {start len : Nat} {out out' : Buffer}
    (h : decodeName packet start out = (some len, out')) : 1 ≤ len ∧ len ≤ 256 := by
  unfold decodeName at h
  split at h
  · next n out'' hloop =>
    obtain ⟨-, -, -, -, -, hn, -⟩ := nameAt_of_decodeLoop (Nat.zero_le _) hloop
    split at h
    · simp at h
    · next hpos =>
      obtain rfl : n = len := Option.some.inj (Prod.mk.inj h).1
      exact ⟨Nat.pos_of_ne_zero hpos, hn⟩
  · simp at h

/-- **Reading a datagram is safe and ends**, for every datagram and from every position; a name
that is decoded is 1 to 256 printable characters. -/
theorem reading_safe (packet : Bytes) (start : Nat) («from» : Ip) (out ownerBuf : Buffer) :
    (∃ next, Machine.skipName packet start = some next) ∧
    (∃ result, Machine.decodeName packet start out = some result ∧ ∀ len out',
      result = (some len, out') → 1 ≤ len ∧ len ≤ 256 ∧ (text out' len).length = len ∧
        ∀ char ∈ text out' len, 32 ≤ char.toNat ∧ char.toNat ≤ 126) ∧
    ∃ name, Machine.hostName packet «from» out ownerBuf = some name := by
  refine ⟨⟨_, Machine.skipName_eq packet start⟩, ⟨_, Machine.decodeName_eq packet start out, ?_⟩,
    ⟨_, Machine.hostName_eq packet «from» out ownerBuf⟩⟩
  intro len out' hresult
  have hdecodes : Decodes packet start (text out' len) := by
    rw [← @decodeName_iff packet start out, decoded, hresult]
    rfl
  have hprintable := hdecodes.printable.2
  obtain ⟨hpos, hlen⟩ := decodeName_len hresult
  exact ⟨hpos, hlen, length_text out' hlen, hprintable⟩

end NetScanner.Names
