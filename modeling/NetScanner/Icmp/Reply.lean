import NetScanner.Icmp.Echo
import NetScanner.Infra.Checked
import NetScanner.Net.Range

/-!
# Which host a reply is from

`src/c/icmp_ping.c`, `send_echo` and `match_reply`: the packet an echo is, the reply of a host
that answers it (`HonestReply`), and what is read of a datagram (`Machine.matchReply`).

A datagram is an ICMP message, or one behind an IPv4 header of any length: `Framed` is that
decomposition, and `icmpOffset_framed` that the first byte tells the two apart.
-/

namespace NetScanner.Icmp

open Infra Net

/-! ## The packet -/

/-- The sum of the words; an odd byte at the end is the high one. -/
def sumWords (sum : UInt32) : List UInt8 → UInt32
  | a :: b :: rest => sumWords (sum + (a.toUInt32 <<< 8 ||| b.toUInt32)) rest
  | [a] => sum + a.toUInt32 <<< 8
  | [] => sum

/-- The high part is added to the low one, and the sum of the two fits. -/
theorem fold_toNat (sum : UInt32) :
    ((sum &&& (0xFFFF : UInt32)) + (sum >>> 16)).toNat =
      sum.toNat % 2 ^ 16 + sum.toNat / 2 ^ 16 := by
  have hlt := sum.toNat_lt
  have hlow : (sum &&& 0xFFFF).toNat = sum.toNat % 2 ^ 16 := by
    rw [UInt32.toNat_and]
    exact Nat.and_two_pow_sub_one_eq_mod sum.toNat 16
  have hhigh : (sum >>> 16).toNat = sum.toNat / 2 ^ 16 := by
    rw [UInt32.toNat_shiftRight]
    exact Nat.shiftRight_eq_div_pow sum.toNat 16
  rw [UInt32.toNat_add, hlow, hhigh, Nat.mod_eq_of_lt (by omega)]

/-- There is no high part when the number fits into the low one. -/
theorem shiftRight_eq_zero_iff {sum : UInt32} : sum >>> 16 = 0 ↔ sum.toNat < 2 ^ 16 := by
  rw [← UInt32.toNat_inj, UInt32.toNat_shiftRight]
  show sum.toNat >>> 16 = 0 ↔ sum.toNat < 2 ^ 16
  rw [Nat.shiftRight_eq_div_pow]
  omega

theorem fold_lt {sum : UInt32} (h : sum >>> 16 ≠ 0) :
    ((sum &&& (0xFFFF : UInt32)) + (sum >>> 16)).toNat < sum.toNat := by
  rw [Ne, shiftRight_eq_zero_iff] at h
  rw [fold_toNat]
  omega

/-- The carries are added in until there are none. -/
def foldCarries (sum : UInt32) : UInt32 :=
  if sum >>> 16 = 0 then sum else foldCarries ((sum &&& (0xFFFF : UInt32)) + (sum >>> 16))
termination_by sum.toNat
decreasing_by exact fold_lt (by assumption)

/-- The Internet checksum. -/
def checksum (data : List UInt8) : UInt16 := (~~~foldCarries (sumWords 0 data)).toUInt16

/-- A `uint32_t` in memory. -/
def uint32Bytes (x : UInt32) : List UInt8 :=
  [(x &&& 0xFF).toUInt8, (x >>> 8 &&& 0xFF).toUInt8, (x >>> 16 &&& 0xFF).toUInt8,
    (x >>> 24 &&& 0xFF).toUInt8]

def icmpEchoRequestType : UInt8 := 8

/-- `echo_payload`: the token, the index, and padding. -/
def echoPayload (token : UInt32) (index : Nat) : List UInt8 :=
  uint32Bytes token ++ (uint32Bytes (UInt32.ofNat index) ++ List.replicate 24 0)

/-- An ICMP echo with everything behind its checksum. -/
def echoMessage (type high low : UInt8) (ident : UInt16) (token : UInt32) (index : Nat) :
    List UInt8 :=
  [type, 0, high, low, (ident >>> 8).toUInt8, ident.toUInt8, UInt8.ofNat (index / 256),
    UInt8.ofNat index] ++ echoPayload token index

/-- The packet `send_echo` sends. -/
def sendEcho (ident : UInt16) (token : UInt32) (index : Nat) : List UInt8 :=
  let packet := echoMessage icmpEchoRequestType 0 0 ident token index
  let sum := checksum packet
  (packet.set 2 (sum >>> 8).toUInt8).set 3 sum.toUInt8

/-- An IPv4 header of any length. -/
def Ipv4Header (header : List UInt8) : Prop :=
  header ≠ [] ∧ byteAt header 0 >>> 4 = 4 ∧ header.length = (byteAt header 0 &&& 0x0F).toNat * 4

/-- The bytes of a datagram: a message, or one behind an IPv4 header. -/
structure Framed (buf message : List UInt8) : Prop where
  intro ::
  parts : ∃ header, buf = header ++ message ∧ (header = [] ∨ Ipv4Header header)

/-- What a host sends back to the packet: the same bytes with type 0 and a checksum of its
own. -/
def HonestReply (c : SweepConfig) (index : Nat) (buf : List UInt8) : Prop :=
  ∃ high low, Framed buf
    ((((sendEcho c.ident c.token index).set 0 icmpEchoReplyType).set 2 high).set 3 low)

/-- The message is an echo reply to this sweep for host `i`. -/
structure EchoReply (c : SweepConfig) (message : List UInt8) (i : Nat) : Prop where
  length : icmpHeaderLen + payloadLen ≤ message.length
  type : byteAt message 0 = icmpEchoReplyType
  code : byteAt message 1 = 0
  ident : c.linux = false →
    (byteAt message 4).toUInt16 <<< 8 ||| (byteAt message 5).toUInt16 = c.ident
  token : uint32At message icmpHeaderLen = c.token
  index : (uint32At message (icmpHeaderLen + 4)).toNat = i

/-! ## What is read -/

/-- `match_reply` on the bytes that were received. -/
def replyIndex (c : SweepConfig) (buf : List UInt8) (sender : Ip) : Option Nat :=
  let offset := icmpOffset buf
  if buf.length < offset + icmpHeaderLen + payloadLen then none
  else
    let icmp := buf.drop offset
    if byteAt icmp 0 ≠ icmpEchoReplyType ∨ byteAt icmp 1 ≠ 0 then none
    else if c.linux = false ∧
        (byteAt icmp 4).toUInt16 <<< 8 ||| (byteAt icmp 5).toUInt16 ≠ c.ident then none
    else
      let token := uint32At icmp icmpHeaderLen
      let index := (uint32At icmp (icmpHeaderLen + 4)).toNat
      if token ≠ c.token ∨ c.count ≤ index then none
      else if c.ips[index]? ≠ some sender then none
      else some index

/-- The sweep matches what fits its buffer. -/
theorem matchReply_eq (c : SweepConfig) (d : Datagram) :
    matchReply c d = replyIndex c (d.bytes.take recvBufferLen) d.sender := rfl

/-- What `match_reply` returns for it. -/
def returned : Option Nat → Int
  | none => -1
  | some index => index

namespace Machine

/-- `match_reply`: -1 for anything that is not an echo reply to this sweep from its host. -/
def matchReply (c : SweepConfig) (buf : List UInt8) (sender : Ip) : Checked Int := do
  let offset ←
    (if buf.length > 0 then do
      let first ← Checked.get buf 0
      some (if first >>> 4 = 4 then (first &&& 0x0F).toNat * 4 else 0)
    else some 0)
  if buf.length < offset + icmpHeaderLen + payloadLen then some (-1)
  else do
    let type ← Checked.get buf offset
    let code ← Checked.get buf (offset + 1)
    if type ≠ icmpEchoReplyType ∨ code ≠ 0 then some (-1)
    else do
      let high ← Checked.get buf (offset + 4)
      let low ← Checked.get buf (offset + 5)
      if c.linux = false ∧ high.toUInt16 <<< 8 ||| low.toUInt16 ≠ c.ident then some (-1)
      else do
        let payload ← Checked.window buf (offset + icmpHeaderLen)
          (offset + icmpHeaderLen + payloadLen)
        if uint32At payload 0 ≠ c.token ∨ (uint32At payload 4).toNat ≥ c.count then some (-1)
        else do
          let ip ← Checked.get c.ips (uint32At payload 4).toNat
          if ip ≠ sender then some (-1) else some (uint32At payload 4).toNat

/-- A number of the payload, in the copy and in place. -/
theorem uint32At_payload (buf : List UInt8) (offset : Nat) {i : Nat} (h : i + 4 ≤ payloadLen) :
    uint32At (slice buf (offset + icmpHeaderLen) (offset + icmpHeaderLen + payloadLen)) i =
      uint32At (buf.drop offset) (icmpHeaderLen + i) := by
  have hbyte : ∀ k < payloadLen,
      byteAt (slice buf (offset + icmpHeaderLen) (offset + icmpHeaderLen + payloadLen)) k =
        byteAt (buf.drop offset) (icmpHeaderLen + k) := by
    intro k hk
    rw [byteAt, byteAt, List.getD_eq_getElem?_getD, List.getD_eq_getElem?_getD, slice,
      List.getElem?_take_of_lt (by omega), List.getElem?_drop, List.getElem?_drop, Nat.add_assoc]
  rw [uint32At, uint32At, hbyte _ (by omega), hbyte _ (by omega), hbyte _ (by omega),
    hbyte _ (by omega)]
  simp only [Nat.add_assoc]

/-- **No read is past the received length.** -/
theorem matchReply_eq (c : SweepConfig) (buf : List UInt8) (sender : Ip) :
    matchReply c buf sender = some (returned (replyIndex c buf sender)) := by
  have hoffset : (if buf.length > 0 then do
      let first ← Checked.get buf 0
      some (if first >>> 4 = 4 then (first &&& 0x0F).toNat * 4 else 0)
    else some 0) = some (icmpOffset buf) := by
    unfold icmpOffset
    by_cases hlen : 0 < buf.length
    · have hfirst : Checked.get buf 0 = some (byteAt buf 0) := by
        exact (Checked.get_eq hlen).trans (by rw [byteAt, List.getD_eq_getElem _ _ hlen])
      rw [if_pos hlen, hfirst, Option.bind_eq_bind, Option.bind_some]
      simp only [hlen, true_and]
    · rw [if_neg hlen, if_neg fun h => hlen h.1]
  rw [matchReply, hoffset, Option.bind_eq_bind, Option.bind_some, replyIndex]
  simp only
  generalize icmpOffset buf = offset
  split
  · rfl
  · next hlen =>
    have hpayload : icmpHeaderLen = 8 ∧ payloadLen = 32 := ⟨rfl, rfl⟩
    have hread : ∀ i < icmpHeaderLen,
        Checked.get buf (offset + i) = some (byteAt (buf.drop offset) i) :=
      fun i hi => by rw [byteAt_drop, Checked.get_byteAt (by omega)]
    have htype : Checked.get buf offset = some (byteAt (buf.drop offset) 0) :=
      hread 0 (by decide)
    simp only [htype, hread 1 (by decide), hread 4 (by decide), hread 5 (by decide),
      Option.bind_eq_bind, Option.bind_some]
    split
    · rfl
    · split
      · rfl
      · rw [Checked.window_eq (by omega) (by omega), Option.bind_some,
          uint32At_payload _ _ (by decide), uint32At_payload _ _ (by decide), Nat.add_zero]
        split
        · rfl
        · next hindex =>
          rw [not_or, ge_iff_le, Nat.not_le] at hindex
          have hlt : (uint32At (buf.drop offset) (icmpHeaderLen + 4)).toNat < c.ips.length :=
            hindex.2
          have hget : c.ips[(uint32At (buf.drop offset) (icmpHeaderLen + 4)).toNat]? =
              some c.ips[(uint32At (buf.drop offset) (icmpHeaderLen + 4)).toNat] :=
            List.getElem?_eq_getElem hlt
          rw [Checked.get, hget, Option.bind_some]
          simp only [ne_eq, Option.some.injEq]
          split <;> rfl

end Machine

/-! ## The two framings -/

/-- **The first byte tells where the message starts**: no message of type 0 looks like a
header. -/
theorem icmpOffset_framed {header message : List UInt8}
    (hheader : header = [] ∨ Ipv4Header header) (htype : byteAt message 0 = icmpEchoReplyType) :
    icmpOffset (header ++ message) = header.length := by
  unfold icmpOffset
  rcases hheader with rfl | ⟨hne, hversion, hlength⟩
  · rw [List.nil_append, if_neg]
    · rfl
    · rintro ⟨-, hfour⟩
      rw [htype] at hfour
      exact absurd hfour (by decide)
  · have hpos : 0 < header.length := List.length_pos_iff.mpr hne
    rw [byteAt_append_left hpos, if_pos ⟨by rw [List.length_append]; omega, hversion⟩, hlength]

theorem framed_drop {buf : List UInt8} (h : icmpOffset buf ≤ buf.length) :
    Framed buf (buf.drop (icmpOffset buf)) := by
  refine ⟨buf.take (icmpOffset buf), (List.take_append_drop _ _).symm, ?_⟩
  by_cases hzero : icmpOffset buf = 0
  · rw [hzero]
    exact .inl rfl
  · have hfour : 0 < buf.length ∧ byteAt buf 0 >>> 4 = 4 := by
      by_contra hnot
      exact hzero (if_neg hnot)
    have hoffset : icmpOffset buf = (byteAt buf 0 &&& 0x0F).toNat * 4 := if_pos hfour
    have hlength : (buf.take (icmpOffset buf)).length = icmpOffset buf := List.length_take_of_le h
    have hfirst : byteAt (buf.take (icmpOffset buf)) 0 = byteAt buf 0 := by
      rw [← byteAt_append_left (b := buf.drop (icmpOffset buf)) (by omega),
        List.take_append_drop]
    refine .inr ⟨List.length_pos_iff.mp (by omega), ?_, ?_⟩
    · rw [hfirst]
      exact hfour.2
    · rw [hlength, hfirst]
      exact hoffset

/-- **What is matched**: an echo reply to this sweep, in either framing, from the host it was
sent to. -/
theorem replyIndex_iff {c : SweepConfig} {buf : List UInt8} {sender : Ip} {i : Nat} :
    replyIndex c buf sender = some i ↔
      c.ips[i]? = some sender ∧ ∃ message, Framed buf message ∧ EchoReply c message i := by
  constructor
  · intro h
    unfold replyIndex at h
    simp only at h
    split at h
    · simp at h
    · next hlen =>
      split at h
      · simp at h
      · next htype =>
        split at h
        · simp at h
        · next hident =>
          split at h
          · simp at h
          · next htoken =>
            split at h
            · simp at h
            · next hsender =>
              obtain rfl := Option.some.inj h
              rw [not_or, Classical.not_not, Classical.not_not] at htype
              rw [not_or, Classical.not_not] at htoken
              rw [not_and, Classical.not_not] at hident
              refine ⟨Classical.not_not.mp hsender, _, framed_drop (by omega), ?_⟩
              refine ⟨?_, htype.1, htype.2, hident, htoken.1, rfl⟩
              rw [List.length_drop]
              omega
  · rintro ⟨hsender, message, ⟨header, rfl, hheader⟩, hreply⟩
    obtain ⟨hlt, -⟩ := List.getElem?_eq_some_iff.mp hsender
    unfold replyIndex
    rw [icmpOffset_framed hheader hreply.type]
    have hlen := hreply.length
    simp only [List.drop_left]
    rw [if_neg (by rw [List.length_append]; omega),
      if_neg (by rw [hreply.type, hreply.code]; decide),
      if_neg (fun h => h.2 (hreply.ident h.1)), hreply.index, hreply.token,
      if_neg (not_or.mpr ⟨fun h => h rfl, show ¬c.count ≤ i from Nat.not_le.mpr hlt⟩),
      if_neg (fun h => h hsender)]

/-! ## What an honest host sends back -/

/-- The same number with its bytes in the other order. -/
theorem uint32At_cons (a b c d : UInt8) (rest : List UInt8) :
    uint32At (a :: b :: c :: d :: rest) 0 = ipToU32 (d, c, b, a) := by
  show a.toUInt32 ||| b.toUInt32 <<< 8 ||| c.toUInt32 <<< 16 ||| d.toUInt32 <<< 24 =
    d.toUInt32 <<< 24 ||| c.toUInt32 <<< 16 ||| b.toUInt32 <<< 8 ||| a.toUInt32
  generalize a.toUInt32 = w, b.toUInt32 <<< 8 = x, c.toUInt32 <<< 16 = y, d.toUInt32 <<< 24 = z
  ac_rfl

theorem uint32At_uint32Bytes (x : UInt32) (rest : List UInt8) :
    uint32At (uint32Bytes x ++ rest) 0 = x :=
  (uint32At_cons _ _ _ _ rest).trans (ipToU32_u32ToIp x)

theorem toNat_highByte (x : UInt16) : (x >>> 8).toUInt8.toNat = x.toNat / 256 := by
  have hlt := x.toNat_lt
  rw [UInt16.toNat_toUInt8, UInt16.toNat_shiftRight]
  show x.toNat >>> 8 % 256 = x.toNat / 256
  rw [Nat.shiftRight_eq_div_pow]
  omega

theorem ident_bytes (x : UInt16) :
    (x >>> 8).toUInt8.toUInt16 <<< 8 ||| x.toUInt8.toUInt16 = x := by
  have hlt := x.toNat_lt
  have hhigh : ((x >>> 8).toUInt8.toUInt16 <<< 8).toNat = 2 ^ 8 * (x.toNat / 256) := by
    rw [UInt16.toNat_shiftLeft, UInt8.toNat_toUInt16, toNat_highByte]
    show (x.toNat / 256) <<< 8 % 65536 = 256 * (x.toNat / 256)
    rw [Nat.shiftLeft_eq]
    omega
  have hlow : x.toUInt8.toUInt16.toNat = x.toNat % 256 := by
    rw [UInt8.toNat_toUInt16, UInt16.toNat_toUInt8]
  apply UInt16.toNat_inj.mp
  rw [UInt16.toNat_or, hhigh, hlow, ← Nat.two_pow_add_eq_or_of_lt (by omega)]
  omega

/-- The reply is the message of type 0. -/
theorem honest_eq (ident : UInt16) (token : UInt32) (index : Nat) (high low : UInt8) :
    (((sendEcho ident token index).set 0 icmpEchoReplyType).set 2 high).set 3 low =
      echoMessage icmpEchoReplyType high low ident token index := rfl

/-- **The reply of an honest host is an echo reply to the sweep.** -/
theorem echoReply_honest (c : SweepConfig) {index : Nat} (hindex : index < 2 ^ 32)
    (high low : UInt8) :
    EchoReply c (echoMessage icmpEchoReplyType high low c.ident c.token index) index where
  length := by simp [echoMessage, echoPayload, uint32Bytes, icmpHeaderLen, payloadLen]
  type := rfl
  code := rfl
  ident := fun _ => ident_bytes c.ident
  token := uint32At_uint32Bytes c.token
    (uint32Bytes (UInt32.ofNat index) ++ List.replicate 24 0)
  index := by
    have hread : uint32At (echoMessage icmpEchoReplyType high low c.ident c.token index)
        (icmpHeaderLen + 4) = UInt32.ofNat index :=
      uint32At_uint32Bytes (UInt32.ofNat index) (List.replicate 24 0)
    rw [hread, UInt32.toNat_ofNat', Nat.mod_eq_of_lt hindex]

/-- **Echo replies find their host and nothing else does.** -/
theorem reply_finds_host (c : SweepConfig) (hcount : c.count < 2 ^ 32) :
    (∀ index < c.count, ∀ buf sender, HonestReply c index buf → c.ips[index]? = some sender →
      Machine.matchReply c buf sender = some index) ∧
    ∀ buf sender, ∃ r, Machine.matchReply c buf sender = some r ∧
      (r = -1 ∨ ∃ i < c.count, r = i) ∧
      ∀ i : Nat, r = i → c.ips[i]? = some sender ∧ ∃ message, Framed buf message ∧
        EchoReply c message i := by
  constructor
  · rintro index hindex buf sender ⟨high, low, hframed⟩ hsender
    rw [honest_eq] at hframed
    have hmatch := replyIndex_iff.mpr
      ⟨hsender, _, hframed, echoReply_honest c (Nat.lt_trans hindex hcount) high low⟩
    rw [Machine.matchReply_eq, hmatch]
    rfl
  · intro buf sender
    refine ⟨_, Machine.matchReply_eq c buf sender, ?_⟩
    cases hreply : replyIndex c buf sender with
    | none =>
      refine ⟨.inl rfl, fun i hi => ?_⟩
      rw [returned] at hi
      omega
    | some index =>
      have hfound := replyIndex_iff.mp hreply
      obtain ⟨hlt, -⟩ := List.getElem?_eq_some_iff.mp hfound.1
      refine ⟨.inr ⟨index, hlt, rfl⟩, fun i hi => ?_⟩
      obtain rfl : index = i := by
        rw [returned] at hi
        omega
      exact hfound

/-- A sweep of three hosts. -/
def threeHosts : SweepConfig where
  ips := [(10, 0, 0, 1), (10, 0, 0, 2), (10, 0, 0, 3)]
  timeoutMs := 1000
  maxInFlightArg := 3
  ident := 0x1234
  token := 0xCAFE0001
  linux := false
  garbage := fun _ => 0
  count_lt := by decide
  max_lt := by decide

/-- The third host answers, and the kernel hands over the IP header too. -/
theorem reply_finds_host_third :
    Machine.matchReply threeHosts
      ((0x45 :: List.replicate 19 0) ++
        echoMessage icmpEchoReplyType 0xAB 0xCD threeHosts.ident threeHosts.token 2)
      (10, 0, 0, 3) = some 2 :=
  (reply_finds_host threeHosts (by decide)).1 2 (by decide) _ _
    ⟨0xAB, 0xCD, 0x45 :: List.replicate 19 0, rfl, .inr ⟨by decide, by decide, by decide⟩⟩ rfl

end NetScanner.Icmp
