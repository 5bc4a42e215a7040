import NetScanner.Neighbors.Kernel
import NetScanner.Net.Quad
import NetScanner.Infra.Laid
import Mathlib.Algebra.Ring.Int.Defs

/-!
# Netlink replies

`src/c/neighbors.c`, `linux_parse`: the entries of one reply of the kernel, with every read of
the buffer checked, and with the header macros as they are, on an `int` length.

`NLMSG_OK` gets the length as an unsigned number. `NLMSG_NEXT` takes the padding of the last
message off the length too, so where that padding is not there the length goes below zero and
`NLMSG_OK` reads a header behind the end of the buffer (`linuxParse_laid`).

Numbers are little-endian, as on the machines the program is built for.
-/

namespace NetScanner.Neighbors

open Infra Net

/-! ## The macros -/

def nlmsgError : Nat := 2
def nlmsgDone : Nat := 3
def rtmNewNeigh : Nat := 28
def afInet : UInt8 := 2
def ndaDst : Nat := 1
def ndaLladdr : Nat := 2

/-- `NUD_REACHABLE | NUD_DELAY`. -/
def nudReachable : Nat := 0x02 ||| 0x08

/-- `NUD_STALE | NUD_PROBE | NUD_PERMANENT`. -/
def nudStale : Nat := 0x04 ||| 0x10 ||| 0x80

/-- An `int`. -/
def toInt (x : Int) : Int := Int.bmod x (2 ^ 32)

/-- An `int` as an `unsigned`. -/
def toUnsigned (x : Int) : Nat := (x % 2 ^ 32).toNat

/-- `NLMSG_ALIGN` and `RTA_ALIGN`, on an `unsigned`. -/
def align (n : Nat) : Nat := (n + 3) % 2 ^ 32 / 4 * 4

/-- `sizeof(struct nlmsghdr)`, `sizeof(struct ndmsg)` and `sizeof(struct rtattr)`. -/
def nlmsgHdrLen : Nat := 16
def ndmsgLen : Nat := 12
def rtattrLen : Nat := 4

/-- What an `ip neigh` state means, or 0 for dead entries. -/
def linuxState (nud : Nat) : UInt8 :=
  if nud &&& nudReachable ≠ 0 then nsNeighReachable
  else if nud &&& nudStale ≠ 0 then nsNeighStale
  else 0

/-! ## The reader -/

/-- What was found among the attributes. -/
structure Found where
  ip : Option Ip := none
  mac : Option Bytes := none
deriving DecidableEq, Repr

structure AttrState where
  rta : Nat
  attrLen : Int
  found : Found

/-- A round of the loop over the attributes. -/
def attrStep (buf : Bytes) (s : AttrState) : Checked (Checked.Round AttrState Found) :=
  if s.attrLen < rtattrLen then some (.stop s.found)
  else do
    let header ← Checked.window buf s.rta (s.rta + rtattrLen)
    let rtaLen := leNat (slice header 0 2)
    let rtaType := leNat (slice header 2 4)
    if rtaLen < rtattrLen ∨ (rtaLen : Int) > s.attrLen then some (.stop s.found)
    else do
      let data ← Checked.window buf (s.rta + rtattrLen) (s.rta + rtaLen)
      let rest : Found → AttrState := fun found =>
        { rta := s.rta + align rtaLen, attrLen := toInt (s.attrLen - align rtaLen), found }
      if rtaType = ndaDst ∧ rtaLen - rtattrLen = 4 then do
        let ip ← Machine.ipOf data
        some (.again (rest { s.found with ip := some ip }))
      else if rtaType = ndaLladdr then some (.again (rest { s.found with mac := some data }))
      else some (.again (rest s.found))

structure ParseState where
  nh : Nat
  len : Int
  list : List NeighborRow

/-- A round of the loop over the messages. -/
def parseStep (buf : Bytes) (s : ParseState) :
    Checked (Checked.Round ParseState (Int × List NeighborRow)) :=
  if toUnsigned s.len < nlmsgHdrLen then some (.stop (0, s.list))
  else do
    let header ← Checked.window buf s.nh (s.nh + nlmsgHdrLen)
    let nlmsgLen := leNat (slice header 0 4)
    let nlmsgType := leNat (slice header 4 6)
    if nlmsgLen < nlmsgHdrLen ∨ nlmsgLen > toUnsigned s.len then some (.stop (0, s.list))
    else if nlmsgType = nlmsgDone then some (.stop (1, s.list))
    else if nlmsgType = nlmsgError then some (.stop (-1, s.list))
    else
      let next : List NeighborRow → ParseState := fun list =>
        { nh := s.nh + align nlmsgLen, len := toInt (s.len - align nlmsgLen), list }
      if nlmsgType ≠ rtmNewNeigh then some (.again (next s.list))
      else do
        let ndm ← Checked.window buf (s.nh + nlmsgHdrLen) (s.nh + nlmsgHdrLen + ndmsgLen)
        let family ← Checked.get ndm 0
        let state := linuxState (leNat (slice ndm 8 10))
        if family ≠ afInet ∨ state = 0 then some (.again (next s.list))
        else do
          let found ← Checked.rounds (attrStep buf) (buf.length + 1)
            { rta := s.nh + nlmsgHdrLen + ndmsgLen,
              attrLen := (nlmsgLen : Int) - (nlmsgHdrLen + ndmsgLen), found := {} }
          match found.ip with
          | none => some (.again (next s.list))
          | some ip => some (.again (next (listAdd s.list ip found.mac state)))

/-- `linux_parse`, as far as the list can be allocated: 1 once the dump is done, 0 to keep
reading, -1 on error, and the list. -/
def linuxParse (list : List NeighborRow) (buf : Bytes) : Checked (Int × List NeighborRow) :=
  Checked.rounds (parseStep buf) (buf.length + 1) { nh := 0, len := buf.length, list }

/-! ## Messages -/

/-- An attribute of a message. -/
structure RtAttr where
  type : Nat
  payload : Bytes
  type_lt : type < 2 ^ 16
  length_lt : rtattrLen + payload.length < 2 ^ 16

def RtAttr.header (a : RtAttr) : Bytes :=
  leBytes 2 (rtattrLen + a.payload.length) ++ leBytes 2 a.type

def RtAttr.bytes (a : RtAttr) : Bytes := a.header ++ a.payload

/-- `struct ndmsg`: the family, two paddings and the interface, the state, the flags and the
type. -/
structure Ndmsg where
  family : UInt8
  middle : Bytes
  state : Nat
  tail : Bytes
  middle_length : middle.length = 7
  state_lt : state < 2 ^ 16
  tail_length : tail.length = 2

def Ndmsg.bytes (ndm : Ndmsg) : Bytes :=
  (ndm.family :: ndm.middle) ++ (leBytes 2 ndm.state ++ ndm.tail)

/-- What follows the header of a message. -/
inductive NlBody
  | neigh (ndm : Ndmsg) (attrs : List RtAttr) (attrBytes : Bytes)
      (laid : Laid RtAttr.bytes attrs attrBytes)
  | other (type : Nat) (payload : Bytes) (type_lt : type < 2 ^ 16) (type_ne : type ≠ rtmNewNeigh)

def NlBody.type : NlBody → Nat
  | .neigh _ _ _ _ => rtmNewNeigh
  | .other type _ _ _ => type

def NlBody.bytes : NlBody → Bytes
  | .neigh ndm _ attrBytes _ => ndm.bytes ++ attrBytes
  | .other _ payload _ _ => payload

/-- A netlink message: its body, and the flags, the sequence number and the port of its
header. -/
structure NlMessage where
  body : NlBody
  rest : Bytes
  rest_length : rest.length = 10

/-- `nlmsg_len`. -/
def NlMessage.len (m : NlMessage) : Nat := nlmsgHdrLen + m.body.bytes.length

def NlMessage.header (m : NlMessage) : Bytes :=
  leBytes 4 m.len ++ (leBytes 2 m.body.type ++ m.rest)

def NlMessage.bytes (m : NlMessage) : Bytes := m.header ++ m.body.bytes

/-- The dump is over with this message. -/
def NlMessage.Ends (m : NlMessage) : Prop := m.body.type = nlmsgDone ∨ m.body.type = nlmsgError

instance (m : NlMessage) : Decidable m.Ends := inferInstanceAs (Decidable (_ ∨ _))

/-- An attribute that is read. -/
def Found.note (f : Found) (a : RtAttr) : Found :=
  if a.type = ndaDst ∧ a.payload.length = 4 then { f with ip := Machine.ipOf a.payload }
  else if a.type = ndaLladdr then { f with mac := some a.payload }
  else f

/-- The entry of a message, if it is one of a live neighbor that `list_add` keeps. -/
def NlMessage.rows (m : NlMessage) : List NeighborRow :=
  match m.body with
  | .other _ _ _ _ => []
  | .neigh ndm attrs _ _ =>
    if ndm.family ≠ afInet ∨ linuxState ndm.state = 0 then []
    else
      let found := attrs.foldl Found.note {}
      match found.ip with
      | none => []
      | some ip => listAdd [] ip found.mac (linuxState ndm.state)

/-! ## Numbers -/

theorem toUnsigned_natCast {n : Nat} (h : n < 2 ^ 32) : toUnsigned n = n := by
  unfold toUnsigned
  omega

/-- Below zero an `int` is a large `unsigned`. -/
theorem nlmsgHdrLen_le_toUnsigned {x : Int} (h : -4 < x) (hx : x < 0) :
    nlmsgHdrLen ≤ toUnsigned x := by
  unfold toUnsigned nlmsgHdrLen
  omega

theorem toInt_eq {x : Int} (h : -(2 ^ 31) ≤ x) (hx : x < 2 ^ 31) : toInt x = x := by
  unfold toInt
  rw [Int.bmod_eq_of_le (by omega) (by omega)]

theorem align_eq {n : Nat} (h : n < 2 ^ 31) : align n = n + padding n := by
  unfold align padding
  omega

/-! ## The attributes -/

theorem RtAttr.header_length (a : RtAttr) : a.header.length = rtattrLen := rfl

theorem RtAttr.bytes_length (a : RtAttr) : a.bytes.length = rtattrLen + a.payload.length := by
  rw [bytes, List.length_append, header_length]

/-- **One attribute.** -/
theorem attrStep_attr (a : RtAttr) (before after : Bytes) (found : Found) {attrLen : Nat}
    (hlen : rtattrLen + a.payload.length ≤ attrLen) (hint : attrLen < 2 ^ 31) :
    attrStep (before ++ (a.bytes ++ after)) { rta := before.length, attrLen, found } =
      some (.again
        { rta := before.length + (rtattrLen + a.payload.length +
            padding (rtattrLen + a.payload.length))
          attrLen := (attrLen : Int) - (rtattrLen + a.payload.length +
            padding (rtattrLen + a.payload.length) : Nat)
          found := found.note a }) := by
  have htype := a.type_lt
  have hfits := a.length_lt
  have hwhole : before ++ (a.bytes ++ after) = before ++ (a.header ++ (a.payload ++ after)) := by
    rw [RtAttr.bytes, List.append_assoc]
  have hsplit : before ++ (a.bytes ++ after) = (before ++ a.header) ++ (a.payload ++ after) := by
    rw [hwhole, List.append_assoc]
  have hheader : Checked.window (before ++ (a.bytes ++ after)) before.length
      (before.length + rtattrLen) = some a.header := by
    rw [hwhole]
    exact Checked.window_append before a.header _ rfl rfl
  have hdata : Checked.window (before ++ (a.bytes ++ after)) (before.length + rtattrLen)
      (before.length + (rtattrLen + a.payload.length)) = some a.payload := by
    rw [hsplit]
    refine Checked.window_append (before ++ a.header) a.payload after ?_ ?_
    · rw [List.length_append, RtAttr.header_length]
    · rw [List.length_append, RtAttr.header_length, Nat.add_assoc]
  have hrtaLen : leNat (slice a.header 0 2) = rtattrLen + a.payload.length :=
    leNat_slice [] (leBytes 2 a.type)
      (show rtattrLen + a.payload.length < 256 ^ 2 from hfits) rfl rfl
  have hrtaType : leNat (slice a.header 2 4) = a.type := by
    have hread := leNat_slice (leBytes 2 (rtattrLen + a.payload.length)) []
      (show a.type < 256 ^ 2 from htype) rfl rfl
    rwa [List.append_nil] at hread
  have hfour : rtattrLen = 4 := rfl
  have halign : align (rtattrLen + a.payload.length) = rtattrLen + a.payload.length +
      padding (rtattrLen + a.payload.length) := align_eq (by omega)
  have hnext : toInt ((attrLen : Int) - (rtattrLen + a.payload.length +
      padding (rtattrLen + a.payload.length) : Nat)) = (attrLen : Int) -
      (rtattrLen + a.payload.length + padding (rtattrLen + a.payload.length) : Nat) := by
    have hpad : padding (rtattrLen + a.payload.length) < 4 := Nat.mod_lt _ (by decide)
    exact toInt_eq (by omega) (by omega)
  unfold attrStep
  simp only [hheader, hrtaLen, hrtaType, hdata, halign, hnext, Option.bind_eq_bind,
    Option.bind_some, Nat.add_sub_cancel_left]
  rw [if_neg (by omega), if_neg (by omega)]
  unfold Found.note
  by_cases hdst : a.type = ndaDst ∧ a.payload.length = 4
  · obtain ⟨w, x, y, z, hpayload⟩ : ∃ w x y z, a.payload = [w, x, y, z] := by
      rcases ha : a.payload with _ | ⟨w, _ | ⟨x, _ | ⟨y, _ | ⟨z, _ | ⟨v, rest⟩⟩⟩⟩⟩ <;>
        simp [ha] at hdst ⊢
    rw [if_pos hdst, if_pos hdst, hpayload]
    rfl
  · rw [if_neg hdst, if_neg hdst]
    split <;> rfl

/-- No attribute is left. -/
theorem attrStep_end (buf : Bytes) {s : AttrState} (h : s.attrLen < rtattrLen) :
    attrStep buf s = some (.stop s.found) := if_pos h

/-- **All the attributes of a message are read**, and nothing else. -/
theorem attrs_read {attrs : List RtAttr} {attrBytes : Bytes}
    (h : Laid RtAttr.bytes attrs attrBytes) (before after : Bytes) (found : Found) {n : Nat}
    (hn : attrs.length < n) (hint : attrBytes.length < 2 ^ 31) :
    Checked.rounds (attrStep (before ++ (attrBytes ++ after))) n
      { rta := before.length, attrLen := attrBytes.length, found } =
        some (attrs.foldl Found.note found) := by
  induction h generalizing before found n with
  | nil =>
    obtain ⟨n, rfl⟩ := Nat.exists_eq_succ_of_ne_zero (Nat.ne_zero_of_lt hn)
    exact Checked.rounds_stop (attrStep_end _ (show ((0 : Nat) : Int) < rtattrLen by decide)) n
  | last a pad hpad =>
    obtain ⟨n, rfl⟩ := Nat.exists_eq_add_of_le' (show 2 ≤ n from hn)
    rw [List.length_append, a.bytes_length] at hint
    have hstep := attrStep_attr a before (pad ++ after) found
      (Nat.le_add_right _ pad.length) hint
    rw [a.bytes_length] at hpad
    rw [List.append_assoc, List.length_append, a.bytes_length, Checked.rounds_again hstep]
    refine Checked.rounds_stop (attrStep_end _ ?_) n
    simp only [rtattrLen] at hpad ⊢
    omega
  | @more a attrs pad rest hpad hne hrest ih =>
    rw [List.length_cons] at hn
    obtain ⟨n, rfl⟩ := Nat.exists_eq_succ_of_ne_zero (Nat.ne_zero_of_lt hn)
    rw [List.length_append, List.length_append, a.bytes_length] at hint
    rw [a.bytes_length] at hpad
    have hstep := attrStep_attr a before (pad ++ rest ++ after) found
      (Nat.le_add_right _ (pad.length + rest.length)) hint
    have hbuf : before ++ (a.bytes ++ (pad ++ rest) ++ after) =
        before ++ (a.bytes ++ pad) ++ (rest ++ after) := by
      simp only [List.append_assoc]
    have hrta : before.length + (rtattrLen + a.payload.length +
        padding (rtattrLen + a.payload.length)) = (before ++ (a.bytes ++ pad)).length := by
      rw [List.length_append, List.length_append, a.bytes_length, hpad]
    have hlen : ((rtattrLen + a.payload.length + (pad.length + rest.length) : Nat) : Int) -
        (rtattrLen + a.payload.length + padding (rtattrLen + a.payload.length) : Nat) =
          rest.length := by omega
    rw [hrta, hlen] at hstep
    rw [List.append_assoc, List.length_append, List.length_append, a.bytes_length,
      Checked.rounds_again hstep, ← List.append_assoc a.bytes, hbuf]
    exact ih _ _ (by omega) (by omega)

/-! ## The messages -/

theorem listAdd_append (list : List NeighborRow) (ip : Ip) (mac : Option Bytes) (state : UInt8) :
    listAdd list ip mac state = list ++ listAdd [] ip mac state := by
  unfold listAdd
  split
  · rw [List.append_nil]
  · split
    · simp only
      split
      · rw [List.append_nil]
      · rfl
    · rfl

theorem NlMessage.header_length (m : NlMessage) : m.header.length = nlmsgHdrLen := by
  rw [header, List.length_append, List.length_append, length_leBytes, length_leBytes,
    m.rest_length]
  rfl

theorem NlMessage.bytes_length (m : NlMessage) : m.bytes.length = m.len := by
  rw [bytes, List.length_append, header_length, len]

theorem Ndmsg.bytes_length (ndm : Ndmsg) : ndm.bytes.length = ndmsgLen := by
  rw [bytes, List.length_append, List.length_cons, List.length_append, length_leBytes,
    ndm.middle_length, ndm.tail_length]
  rfl

theorem NlBody.type_lt (body : NlBody) : body.type < 256 ^ 2 := by
  cases body with
  | neigh ndm attrs attrBytes laid => exact (by decide : rtmNewNeigh < 256 ^ 2)
  | other type payload type_lt type_ne => exact type_lt

/-- What a round does with a message. -/
def NlMessage.round (m : NlMessage) (s : ParseState) :
    Checked.Round ParseState (Int × List NeighborRow) :=
  if m.body.type = nlmsgDone then .stop (1, s.list)
  else if m.body.type = nlmsgError then .stop (-1, s.list)
  else .again
    { nh := s.nh + (m.len + padding m.len), len := s.len - (m.len + padding m.len : Nat),
      list := s.list ++ m.rows }

/-- What is read of a neighbor message: the `ndmsg`, and the attributes behind it. -/
theorem neigh_reads {m : NlMessage} {ndm : Ndmsg} {attrs : List RtAttr} {attrBytes : Bytes}
    {laid : Laid RtAttr.bytes attrs attrBytes} (hbody : m.body = .neigh ndm attrs attrBytes laid)
    (before after : Bytes) :
    Checked.window (before ++ (m.bytes ++ after)) (before.length + nlmsgHdrLen)
      (before.length + nlmsgHdrLen + ndmsgLen) = some ndm.bytes ∧
    (attrBytes.length < 2 ^ 31 →
      Checked.rounds (attrStep (before ++ (m.bytes ++ after)))
        ((before ++ (m.bytes ++ after)).length + 1)
        { rta := before.length + nlmsgHdrLen + ndmsgLen, attrLen := attrBytes.length,
          found := {} } = some (attrs.foldl Found.note {})) ∧
    attrBytes.length ≤ m.len := by
  have hbytes : before ++ (m.bytes ++ after) =
      (before ++ m.header) ++ (ndm.bytes ++ (attrBytes ++ after)) := by
    rw [NlMessage.bytes, hbody]
    simp only [NlBody.bytes, List.append_assoc]
  have hstart : (before ++ m.header).length = before.length + nlmsgHdrLen := by
    rw [List.length_append, m.header_length]
  have hend : ((before ++ m.header) ++ ndm.bytes).length =
      before.length + nlmsgHdrLen + ndmsgLen := by
    rw [List.length_append, hstart, ndm.bytes_length]
  refine ⟨?_, fun hint => ?_, ?_⟩
  · rw [hbytes]
    exact Checked.window_append _ ndm.bytes _ hstart (by rw [hstart, ndm.bytes_length])
  · have hcount := laid.length_le fun a => by
      rw [a.bytes_length]
      exact Nat.add_pos_left (by decide) _
    rw [hbytes, ← List.append_assoc, ← hend]
    refine attrs_read laid _ after {} ?_ hint
    simp only [List.length_append]
    omega
  · rw [NlMessage.len, hbody, NlBody.bytes, List.length_append]
    omega

/-- **One message.** -/
theorem parseStep_message (m : NlMessage) (before after : Bytes) (list : List NeighborRow)
    {len : Nat} (hlen : m.len ≤ len) (hint : len < 2 ^ 31) :
    parseStep (before ++ (m.bytes ++ after)) { nh := before.length, len, list } =
      some (m.round { nh := before.length, len, list }) := by
  have hmin : nlmsgHdrLen ≤ m.len := Nat.le_add_right _ _
  have hheader : Checked.window (before ++ (m.bytes ++ after)) before.length
      (before.length + nlmsgHdrLen) = some m.header := by
    rw [NlMessage.bytes, List.append_assoc]
    refine Checked.window_append before m.header _ rfl ?_
    rw [m.header_length]
  have hnlmsgLen : leNat (slice m.header 0 4) = m.len :=
    leNat_slice [] (leBytes 2 m.body.type ++ m.rest) (show m.len < 256 ^ 4 by omega) rfl rfl
  have hnlmsgType : leNat (slice m.header 4 6) = m.body.type :=
    leNat_slice (leBytes 4 m.len) m.rest m.body.type_lt rfl rfl
  have halign : align m.len = m.len + padding m.len := align_eq (by omega)
  have hnext : toInt ((len : Int) - (m.len + padding m.len : Nat)) =
      (len : Int) - (m.len + padding m.len : Nat) := by
    have hpad : padding m.len < 4 := Nat.mod_lt _ (by decide)
    exact toInt_eq (by omega) (by omega)
  unfold parseStep NlMessage.round
  simp only [toUnsigned_natCast (show len < 2 ^ 32 by omega), hheader, hnlmsgLen, hnlmsgType,
    halign, hnext, Option.bind_eq_bind, Option.bind_some]
  rw [if_neg (by omega), if_neg (by omega)]
  split
  · rfl
  · split
    · rfl
    · cases hbody : m.body with
      | other type payload type_lt type_ne =>
        rw [if_pos (show NlBody.type (.other type payload type_lt type_ne) ≠ rtmNewNeigh from
          type_ne), NlMessage.rows, hbody, List.append_nil]
      | neigh ndm attrs attrBytes laid =>
        obtain ⟨hndm, hattrs, hcount⟩ := neigh_reads hbody before after
        have hstate : leNat (slice ndm.bytes 8 10) = ndm.state := by
          refine leNat_slice (ndm.family :: ndm.middle) ndm.tail
            (show ndm.state < 256 ^ 2 from ndm.state_lt) ?_ ?_ <;>
            rw [List.length_cons, ndm.middle_length]
        have hfamily : Checked.get ndm.bytes 0 = some ndm.family := rfl
        have hattrLen : (m.len : Int) - (nlmsgHdrLen + ndmsgLen) = attrBytes.length := by
          rw [NlMessage.len, hbody, NlBody.bytes, List.length_append, ndm.bytes_length]
          omega
        rw [if_neg (show ¬NlBody.type (.neigh ndm attrs attrBytes laid) ≠ rtmNewNeigh from
          not_not_intro rfl), hndm, Option.bind_some, hfamily, Option.bind_some, hstate, hattrLen,
          NlMessage.rows, hbody]
        simp only
        by_cases hskip : ndm.family ≠ afInet ∨ linuxState ndm.state = 0
        · rw [if_pos hskip, if_pos hskip, List.append_nil]
        · rw [if_neg hskip, if_neg hskip, hattrs (by omega), Option.bind_some]
          cases hip : (attrs.foldl Found.note {}).ip with
          | none => simp only [List.append_nil]
          | some ip => simp only [listAdd_append list]

/-- The length is used up. -/
theorem parseStep_end (buf : Bytes) {s : ParseState} (h : s.len = 0) :
    parseStep buf s = some (.stop (0, s.list)) := by
  rw [parseStep, h]
  exact if_pos (by decide)

/-- **The length went below zero**: the next header is read behind the end of the buffer. -/
theorem parseStep_behind (buf : Bytes) {s : ParseState} (h : -4 < s.len) (hneg : s.len < 0)
    (hnh : buf.length ≤ s.nh) : parseStep buf s = none := by
  have hlarge := nlmsgHdrLen_le_toUnsigned h hneg
  have hbehind : buf.length < s.nh + nlmsgHdrLen := by
    rw [nlmsgHdrLen]
    omega
  rw [parseStep, if_neg (Nat.not_lt.mpr hlarge), Checked.window_eq_none hbehind]
  rfl

/-- The messages up to the one that ends the dump. -/
def beforeEnd (messages : List NlMessage) : List NlMessage :=
  messages.takeWhile fun m => decide ¬m.Ends

/-- The message that ends the dump, and what is behind it. -/
def behindEnd (messages : List NlMessage) : List NlMessage :=
  messages.dropWhile fun m => decide ¬m.Ends

/-- What `linux_parse` returns for the messages of a reply. -/
def parseCode (messages : List NlMessage) : Int :=
  match behindEnd messages with
  | [] => 0
  | m :: _ => if m.body.type = nlmsgDone then 1 else -1

/-- The reader ends inside the buffer: no padding is missing, or it returns before. -/
def Padded (messages : List NlMessage) (buf : Bytes) : Prop :=
  4 ∣ buf.length ∨ ∃ m ∈ messages, m.Ends

theorem NlMessage.round_of_ends {m : NlMessage} (h : m.Ends) (messages : List NlMessage)
    (s : ParseState) :
    m.round s = .stop (parseCode (m :: messages), s.list) ∧ beforeEnd (m :: messages) = [] := by
  have hnone : (decide ¬m.Ends) = false := by simpa using h
  refine ⟨?_, by rw [beforeEnd, List.takeWhile_cons_of_neg (by simpa using h)]⟩
  rw [parseCode, behindEnd, List.dropWhile_cons_of_neg (by simpa using h)]
  unfold round
  rcases h with h | h
  · simp only [h, if_true]
  · simp only [h]
    rfl

theorem NlMessage.round_of_not_ends {m : NlMessage} (h : ¬m.Ends) (s : ParseState) :
    m.round s = .again
      { nh := s.nh + (m.len + padding m.len), len := s.len - (m.len + padding m.len : Nat),
        list := s.list ++ m.rows } := by
  unfold Ends at h
  rw [not_or] at h
  rw [round, if_neg h.1, if_neg h.2]

theorem beforeEnd_cons {m : NlMessage} (h : ¬m.Ends) (messages : List NlMessage) :
    beforeEnd (m :: messages) = m :: beforeEnd messages ∧
      parseCode (m :: messages) = parseCode messages := by
  constructor
  · rw [beforeEnd, List.takeWhile_cons_of_pos (by simpa using h), ← beforeEnd]
  · rw [parseCode, behindEnd, List.dropWhile_cons_of_pos (by simpa using h), ← behindEnd,
      ← parseCode]

/-- A message that ends the dump ends the reading, whatever is behind it. -/
theorem rounds_of_ends {m : NlMessage} (h : m.Ends) (messages : List NlMessage)
    (before after : Bytes) (list : List NeighborRow) {len : Nat} (hlen : m.len ≤ len)
    (hint : len < 2 ^ 31) (n : Nat) :
    Checked.rounds (parseStep (before ++ (m.bytes ++ after))) (n + 1)
      { nh := before.length, len, list } =
        some (parseCode (m :: messages),
          list ++ (beforeEnd (m :: messages)).flatMap NlMessage.rows) := by
  have hstep := parseStep_message m before after list hlen hint
  obtain ⟨hround, hbefore⟩ := NlMessage.round_of_ends h messages ⟨before.length, len, list⟩
  rw [hround] at hstep
  rw [Checked.rounds_stop hstep, hbefore, List.flatMap_nil, List.append_nil]

/-- A last message that goes on is padded when all of its padding is there. -/
theorem padded_last_iff {m : NlMessage} (h : ¬m.Ends) {pad : Bytes}
    (hpad : pad.length ≤ padding m.len) :
    Padded [m] (m.bytes ++ pad) ↔ pad.length = padding m.len := by
  have hdvd : 4 ∣ m.len + pad.length ↔ pad.length = padding m.len := by
    rw [padding] at hpad ⊢
    omega
  unfold Padded
  rw [List.length_append, m.bytes_length, hdvd]
  simp only [List.mem_singleton, exists_eq_left, h, or_false]

/-- Behind a message that goes on, it is the rest that counts. -/
theorem padded_more_iff {m : NlMessage} (h : ¬m.Ends) (messages : List NlMessage)
    {pad rest : Bytes} (hpad : pad.length = padding m.len) :
    Padded (m :: messages) (m.bytes ++ (pad ++ rest)) ↔ Padded messages rest := by
  have hdvd : 4 ∣ m.len + (padding m.len + rest.length) ↔ 4 ∣ rest.length := by
    rw [padding]
    omega
  unfold Padded
  rw [List.length_append, List.length_append, m.bytes_length, hpad, hdvd]
  simp only [List.mem_cons, exists_eq_or_imp, h, false_or]

/-- **The messages of a reply.** Where padding is missing at the end, and nothing ended the dump,
the reader leaves the buffer. -/
theorem parse_laid {messages : List NlMessage} {rest : Bytes}
    (h : Laid NlMessage.bytes messages rest) (before : Bytes) (list : List NeighborRow) {n : Nat}
    (hn : messages.length < n) (hint : rest.length < 2 ^ 31) :
    (Padded messages rest →
      Checked.rounds (parseStep (before ++ rest)) n
        { nh := before.length, len := rest.length, list } =
          some (parseCode messages, list ++ (beforeEnd messages).flatMap NlMessage.rows)) ∧
    (¬Padded messages rest →
      Checked.rounds (parseStep (before ++ rest)) n
        { nh := before.length, len := rest.length, list } = none) := by
  induction h generalizing before list n with
  | nil =>
    obtain ⟨n, rfl⟩ := Nat.exists_eq_succ_of_ne_zero (Nat.ne_zero_of_lt hn)
    refine ⟨fun _ => ?_, fun hnot => absurd (.inl (by simp)) hnot⟩
    rw [Checked.rounds_stop (parseStep_end _ rfl), beforeEnd, List.takeWhile_nil,
      List.flatMap_nil, List.append_nil]
    rfl
  | last m pad hpad =>
    obtain ⟨n, rfl⟩ := Nat.exists_eq_add_of_le' (show 2 ≤ n from hn)
    rw [m.bytes_length] at hpad
    rw [List.length_append, m.bytes_length] at hint
    have hlength : (m.bytes ++ pad).length = m.len + pad.length := by
      rw [List.length_append, m.bytes_length]
    have hle : m.len ≤ m.len + pad.length := Nat.le_add_right _ _
    rw [hlength]
    by_cases hends : m.Ends
    · refine ⟨fun _ => ?_, fun hnot => absurd (.inr ⟨m, by simp, hends⟩) hnot⟩
      exact rounds_of_ends hends [] before pad list hle hint (n + 1)
    · obtain ⟨hbefore, hcode⟩ := beforeEnd_cons hends []
      have hstep := parseStep_message m before pad list hle hint
      rw [NlMessage.round_of_not_ends hends] at hstep
      rw [padded_last_iff hends hpad, Checked.rounds_again hstep]
      constructor
      · intro hfull
        -- the padding is all there, so the length is down to zero
        rw [Checked.rounds_stop (parseStep_end _ (by simp only [hfull, Int.sub_self])), hbefore,
          hcode, List.flatMap_cons]
        simp [beforeEnd, parseCode, behindEnd]
      · intro hfull
        -- some is missing: the length is below zero, and as an `unsigned` it is large
        have hmissing : padding m.len < 4 := Nat.mod_lt _ (by decide)
        refine Checked.rounds_trap (parseStep_behind _ ?_ ?_ ?_) _
        · simp only
          omega
        · simp only
          omega
        · simp only [List.length_append, m.bytes_length]
          omega
  | @more m messages pad rest hpad hne hrest ih =>
    rw [List.length_cons] at hn
    obtain ⟨n, rfl⟩ := Nat.exists_eq_succ_of_ne_zero (Nat.ne_zero_of_lt hn)
    rw [m.bytes_length] at hpad
    rw [List.length_append, List.length_append, m.bytes_length] at hint
    have hlength : (m.bytes ++ (pad ++ rest)).length = m.len + (pad.length + rest.length) := by
      rw [List.length_append, List.length_append, m.bytes_length]
    have hle : m.len ≤ m.len + (pad.length + rest.length) := Nat.le_add_right _ _
    rw [hlength]
    by_cases hends : m.Ends
    · refine ⟨fun _ => ?_, fun hnot => absurd (.inr ⟨m, by simp, hends⟩) hnot⟩
      exact rounds_of_ends hends messages before (pad ++ rest) list hle hint n
    · obtain ⟨hbefore, hcode⟩ := beforeEnd_cons hends messages
      have hstep := parseStep_message m before (pad ++ rest) list hle hint
      rw [NlMessage.round_of_not_ends hends] at hstep
      have hnh : before.length + (m.len + padding m.len) = (before ++ (m.bytes ++ pad)).length := by
        rw [List.length_append, List.length_append, m.bytes_length, hpad]
      have hlen : ((m.len + (pad.length + rest.length) : Nat) : Int) -
          (m.len + padding m.len : Nat) = rest.length := by omega
      have hbuf : before ++ (m.bytes ++ (pad ++ rest)) = before ++ (m.bytes ++ pad) ++ rest := by
        simp only [List.append_assoc]
      simp only [hnh, hlen] at hstep
      rw [padded_more_iff hends messages hpad, Checked.rounds_again hstep, hbefore, hcode,
        List.flatMap_cons, ← List.append_assoc list, hbuf]
      exact ih _ _ (by omega) (by omega)

/-! ## The whole reply -/

theorem linuxParse_laid {messages : List NlMessage} {buf : Bytes}
    (h : Laid NlMessage.bytes messages buf) (hint : buf.length < 2 ^ 31)
    (list : List NeighborRow) :
    (Padded messages buf → linuxParse list buf =
      some (parseCode messages, list ++ (beforeEnd messages).flatMap NlMessage.rows)) ∧
    (¬Padded messages buf → linuxParse list buf = none) := by
  have hcount := h.length_le fun m => by
    rw [m.bytes_length]
    exact Nat.add_pos_left (by decide) _
  exact parse_laid h [] list (by omega) hint

/-- **The reader stays inside the buffer and adds the entries of all the messages** exactly when
no padding is missing at the end, or the dump is over before, and nothing behind the end of the
dump has an entry. -/
theorem linuxParse_iff {messages : List NlMessage} {buf : Bytes}
    (h : Laid NlMessage.bytes messages buf) (hint : buf.length < 2 ^ 31)
    (list : List NeighborRow) :
    (∃ code, linuxParse list buf = some (code, list ++ messages.flatMap NlMessage.rows)) ↔
      (4 ∣ buf.length ∨ ∃ m ∈ messages, m.Ends) ∧
        (behindEnd messages).flatMap NlMessage.rows = [] := by
  obtain ⟨hinside, houtside⟩ := linuxParse_laid h hint list
  have hsplit : messages.flatMap NlMessage.rows =
      (beforeEnd messages).flatMap NlMessage.rows ++
        (behindEnd messages).flatMap NlMessage.rows := by
    rw [← List.flatMap_append, beforeEnd, behindEnd, List.takeWhile_append_dropWhile]
  by_cases hpadded : Padded messages buf
  · rw [hinside hpadded, hsplit]
    constructor
    · rintro ⟨code, hcode⟩
      have hrows := (Prod.mk.inj (Option.some.inj hcode)).2
      rw [← List.append_assoc, List.self_eq_append_right] at hrows
      exact ⟨hpadded, hrows⟩
    · rintro ⟨-, hnone⟩
      exact ⟨parseCode messages, by rw [hnone, List.append_nil]⟩
  · rw [houtside hpadded]
    constructor
    · rintro ⟨code, hcode⟩
      cases hcode
    · rintro ⟨hyes, -⟩
      exact absurd hyes hpadded

/-- `NDA_DST`, 192.168.1.7. -/
def sampleDst : RtAttr where
  type := ndaDst
  payload := [192, 168, 1, 7]
  type_lt := by decide
  length_lt := by decide

/-- `NDA_LLADDR`, six bytes: two are missing of a multiple of four. -/
def sampleLladdr : RtAttr where
  type := ndaLladdr
  payload := [0x64, 0xFA, 0x2B, 0xB0, 0x93, 0xF2]
  type_lt := by decide
  length_lt := by decide

def sampleNdmsg : Ndmsg where
  family := afInet
  middle := [0, 0, 0, 2, 0, 0, 0]
  state := 0x02
  tail := [0, 1]
  middle_length := rfl
  state_lt := by decide
  tail_length := rfl

/-- A reachable neighbor, in a message of 46 bytes. -/
def sampleNeigh : NlMessage where
  body := .neigh sampleNdmsg [sampleDst, sampleLladdr]
    (sampleDst.bytes ++ ([] ++ (sampleLladdr.bytes ++ [])))
    (.more rfl (by simp) (.last sampleLladdr [] (by decide)))
  rest := [2, 0, 1, 0, 0, 0, 0, 0, 0, 0]
  rest_length := rfl

def sampleRow : NeighborRow where
  ip := (192, 168, 1, 7)
  mac := #v[0x64, 0xFA, 0x2B, 0xB0, 0x93, 0xF2]
  hasMac := 1
  state := nsNeighReachable

/-- **Without the padding of the last message the reader leaves the buffer.** -/
theorem linuxParse_unpadded : ¬∀ (messages : List NlMessage) (buf : Bytes)
    (list : List NeighborRow), Laid NlMessage.bytes messages buf → buf.length < 2 ^ 31 →
      ∃ code, linuxParse list buf = some (code, list ++ messages.flatMap NlMessage.rows) := by
  intro h
  have hlaid : Laid NlMessage.bytes [sampleNeigh] (sampleNeigh.bytes ++ []) :=
    .last sampleNeigh [] (by decide)
  obtain ⟨code, hcode⟩ := h _ _ [] hlaid (by decide)
  have htrap : linuxParse [] (sampleNeigh.bytes ++ []) = none := by decide +kernel
  rw [htrap] at hcode
  cases hcode

/-- The same message with its padding. -/
theorem linuxParse_iff_padded :
    ∃ code, linuxParse [] (sampleNeigh.bytes ++ [0, 0]) = some (code, [sampleRow]) := by
  have hlaid : Laid NlMessage.bytes [sampleNeigh] (sampleNeigh.bytes ++ [0, 0]) :=
    .last sampleNeigh [0, 0] (by decide)
  have hrows : [] ++ [sampleNeigh].flatMap NlMessage.rows = [sampleRow] := by decide +kernel
  obtain ⟨code, hcode⟩ := (linuxParse_iff hlaid (by decide) []).mpr
    ⟨.inl (by decide), by decide +kernel⟩
  rw [hrows] at hcode
  exact ⟨code, hcode⟩

end NetScanner.Neighbors
