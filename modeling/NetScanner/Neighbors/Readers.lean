import NetScanner.Neighbors.Dump

/-!
# The readers of the neighbor table

`src/c/neighbors.c`: `linux_dump`, `windows_dump` and `macos_dump` read the kernel's table each in
its own format, `list_add` collects what they find, and `dump_neighbors` hands it on.

A record of each format has a `row`: the neighbor it tells of, if it is a live one. The three
readers then do the same (`addRow`), so `readers_agree` can say that what the program gets is the
table of these rows, whatever the system: nothing of the formats shows in it.

Allocations succeed here. Numbers are little-endian.
-/

namespace NetScanner.Neighbors

open Infra Net

/-! ## Windows: GetIpNetTable2 -/

/-- `NL_NEIGHBOR_STATE`. -/
inductive NlNeighborState where
  | nlnsUnreachable
  | nlnsIncomplete
  | nlnsProbe
  | nlnsDelay
  | nlnsStale
  | nlnsReachable
  | nlnsPermanent
deriving DecidableEq, Repr

def windowsState : NlNeighborState → UInt8
  | .nlnsReachable | .nlnsDelay => nsNeighReachable
  | .nlnsStale | .nlnsProbe | .nlnsPermanent => nsNeighStale
  -- nobody answered
  | .nlnsUnreachable | .nlnsIncomplete => 0

/-- `MIB_IPNET_ROW2`: the hardware address as long as the row says. -/
structure IpNetRow where
  family : Nat
  ip : Ip
  physicalAddress : Bytes
  state : NlNeighborState

/-- `AF_INET` of `si_family`. -/
def afInetFamily : Nat := 2

/-- `windows_dump`: the result and the list, for what `GetIpNetTable2` gives. -/
def windowsDump : Option (List IpNetRow) → Int × List NeighborRow
  | none => (-1, [])
  | some table =>
    (0, table.foldl (fun list row =>
      if windowsState row.state = 0 ∨ row.family ≠ afInetFamily then list
      else listAdd list row.ip (some row.physicalAddress) (windowsState row.state)) [])

/-! ## macOS: the route dump -/

/-- `sizeof(struct rt_msghdr)`. -/
def rtMsghdrLen : Nat := 92

def afLink : UInt8 := 18

/-- `ARP_SA_ROUNDUP`. -/
def arpSaRoundup (a : Nat) : Nat := if a > 0 then 1 + ((a - 1) ||| 3) else 4

/-- What `sysctl` answers at one attempt: the size it asks for, and then the table, or an error
that is not `ENOMEM`. -/
structure SysctlAttempt where
  needed : Option Nat
  table : Option Bytes

/-- The table can grow between sizing and reading, so it is retried with slack. -/
def macosRaw : Nat → List SysctlAttempt → Option Bytes
  | 0, _ => none
  | _, [] => none
  | left + 1, attempt :: attempts =>
    match attempt.needed, attempt.table with
    | none, _ => none
    | some _, none => none
    | some needed, some table =>
      if table.length ≤ needed + needed / 2 + rtMsghdrLen then some table
      -- `ENOMEM`
      else if left = 0 then none
      else macosRaw left attempts

structure RouteState where
  next : Nat
  list : List NeighborRow

/-- A round of the loop over the messages. -/
def routeStep (raw : Bytes) (s : RouteState) :
    Checked (Checked.Round RouteState (Int × List NeighborRow)) :=
  if raw.length ≤ s.next then some (.stop (0, s.list))
  else do
    let msglen ← Checked.window raw s.next (s.next + 2)
    if leNat msglen = 0 then some (.stop (0, s.list))
    else
      let next := s.next + leNat msglen
      let sin := s.next + rtMsghdrLen
      let sinFamily ← Checked.get raw (sin + 1)
      if sinFamily ≠ afInet then some (.again { next, list := s.list })
      else do
        let sinLen ← Checked.get raw sin
        let sdl := sin + arpSaRoundup sinLen.toNat
        let sdlFamily ← Checked.get raw (sdl + 1)
        if sdlFamily ≠ afLink then some (.again { next, list := s.list })
        else do
          let sdlAlen ← Checked.get raw (sdl + 6)
          -- unresolved entries carry no link-layer address
          if sdlAlen ≠ 6 then some (.again { next, list := s.list })
          else do
            let sinAddr ← Checked.window raw (sin + 4) (sin + 8)
            let ip ← Machine.ipOf sinAddr
            let sdlNlen ← Checked.get raw (sdl + 5)
            let lladdr := sdl + 8 + sdlNlen.toNat
            let mac ← Checked.window raw lladdr (lladdr + 6)
            some (.again { next, list := listAdd s.list ip (some mac) nsNeighStale })

/-- `macos_dump`. -/
def macosDump (attempts : List SysctlAttempt) : Checked (Int × List NeighborRow) :=
  match macosRaw 3 attempts with
  | none => some (-1, [])
  | some raw => Checked.rounds (routeStep raw) (raw.length + 1) { next := 0, list := [] }

/-! ## The rows of a table -/

/-- Six bytes. -/
def mac? : Bytes → Option Mac
  | [a, b, c, d, e, f] => some (macOf a b c d e f)
  | _ => none

/-- What `list_add` makes of a record. -/
def addRow (list : List NeighborRow) : Option KernelRow → List NeighborRow
  | none => list
  | some row => listAdd list row.ip (row.mac.map (·.toList)) (stateCode row.state)

/-- A hardware address that is not six bytes long is none. -/
theorem listAdd_mac? (list : List NeighborRow) (ip : Ip) (mac : Option Bytes) (state : UInt8) :
    listAdd list ip mac state = listAdd list ip ((mac.bind mac?).map (·.toList)) state := by
  rcases mac with _ | mac
  · rfl
  · rcases mac with _ | ⟨a, _ | ⟨b, _ | ⟨c, _ | ⟨d, _ | ⟨e, _ | ⟨f, _ | ⟨g, rest⟩⟩⟩⟩⟩⟩⟩ <;> rfl

theorem dumpNeighbors_addRow (list : List NeighborRow) (row : Option KernelRow) :
    dumpNeighbors (addRow list row) =
      dumpNeighbors list ++ (row.bind KernelRow.neighbor).toList := by
  cases row with
  | none => exact (List.append_nil _).symm
  | some row => exact dumpNeighbors_listAdd list row

/-- **The table of the rows**, in their order. -/
theorem dumpNeighbors_addRows {α : Type} (row : α → Option KernelRow) (records : List α)
    (list : List NeighborRow) :
    dumpNeighbors (records.foldl (fun list record => addRow list (row record)) list) =
      dumpNeighbors list ++ (records.filterMap row).filterMap KernelRow.neighbor := by
  induction records generalizing list with
  | nil => exact (List.append_nil _).symm
  | cons record records ih =>
    rw [List.foldl_cons, ih, dumpNeighbors_addRow, List.append_assoc, List.filterMap_cons]
    cases row record with
    | none => rfl
    | some row =>
      dsimp only [Option.bind_some]
      rw [List.filterMap_cons]
      cases row.neighbor <;> rfl

/-! ## Linux -/

/-- The state a code stands for. -/
def kernelState (state : UInt8) : NeighborState :=
  if state = nsNeighReachable then .reachable else .stale

/-- The neighbor a netlink message tells of. -/
def NlMessage.row (m : NlMessage) : Option KernelRow :=
  match m.body with
  | .other _ _ _ _ => none
  | .neigh ndm attrs _ _ =>
    if ndm.family ≠ afInet ∨ linuxState ndm.state = 0 then none
    else
      let found := attrs.foldl Found.note {}
      found.ip.map fun ip =>
        { ip, mac := found.mac.bind mac?, state := kernelState (linuxState ndm.state) }

theorem linuxState_cases (nud : Nat) :
    linuxState nud = nsNeighReachable ∨ linuxState nud = nsNeighStale ∨ linuxState nud = 0 := by
  unfold linuxState
  split
  · exact Or.inl rfl
  · split
    · exact Or.inr (Or.inl rfl)
    · exact Or.inr (Or.inr rfl)

theorem stateCode_kernelState {nud : Nat} (h : linuxState nud ≠ 0) :
    stateCode (kernelState (linuxState nud)) = linuxState nud := by
  rcases linuxState_cases nud with hstate | hstate | hstate
  · rw [hstate]
    rfl
  · rw [hstate]
    rfl
  · exact absurd hstate h

theorem NlMessage.addRow_row (m : NlMessage) (list : List NeighborRow) :
    addRow list m.row = list ++ m.rows := by
  unfold NlMessage.row NlMessage.rows
  cases m.body with
  | other => exact (List.append_nil _).symm
  | neigh ndm attrs attrBytes laid =>
    dsimp only
    split
    · exact (List.append_nil _).symm
    · next hlive =>
      rw [not_or] at hlive
      cases hip : (attrs.foldl Found.note {}).ip with
      | none => exact (List.append_nil _).symm
      | some ip =>
        rw [← listAdd_append, listAdd_mac?]
        show listAdd _ _ _ (stateCode (kernelState (linuxState ndm.state))) = _
        rw [stateCode_kernelState hlive.2]

theorem foldl_addRow_netlink (messages : List NlMessage) (list : List NeighborRow) :
    messages.foldl (fun list m => addRow list m.row) list =
      list ++ messages.flatMap NlMessage.rows := by
  induction messages generalizing list with
  | nil => exact (List.append_nil _).symm
  | cons m messages ih =>
    rw [List.foldl_cons, ih, m.addRow_row, List.flatMap_cons, List.append_assoc]

/-! ## Windows -/

/-- The neighbor a row of `GetIpNetTable2` tells of. -/
def IpNetRow.row (r : IpNetRow) : Option KernelRow :=
  if windowsState r.state = 0 ∨ r.family ≠ afInetFamily then none
  else
    some { ip := r.ip, mac := mac? r.physicalAddress, state := kernelState (windowsState r.state) }

theorem IpNetRow.addRow_row (r : IpNetRow) (list : List NeighborRow) :
    addRow list r.row =
      if windowsState r.state = 0 ∨ r.family ≠ afInetFamily then list
      else listAdd list r.ip (some r.physicalAddress) (windowsState r.state) := by
  unfold IpNetRow.row
  split
  · rfl
  · next hlive =>
    rw [not_or] at hlive
    have hstate : stateCode (kernelState (windowsState r.state)) = windowsState r.state := by
      cases hnln : r.state with
      | nlnsUnreachable | nlnsIncomplete => exact absurd (by rw [hnln]; rfl) hlive.1
      | _ => rfl
    rw [listAdd_mac?]
    show listAdd _ _ _ (stateCode (kernelState (windowsState r.state))) = _
    rw [hstate]
    rfl

theorem windowsDump_rows (table : List IpNetRow) :
    windowsDump (some table) =
      (0, table.foldl (fun list r => addRow list r.row) []) := by
  simp only [windowsDump, IpNetRow.addRow_row]

/-! ## macOS -/

/-- `struct sockaddr_dl`: the length and the family, the interface, the type, the lengths of the
name, of the address and of the selector, and the name and the address. -/
structure LinkAddr where
  len : UInt8
  family : UInt8
  index : Bytes
  type : UInt8
  name : Bytes
  addr : Bytes
  slen : UInt8
  index_length : index.length = 2
  name_lt : name.length < 256
  addr_lt : addr.length < 256

def LinkAddr.header (l : LinkAddr) : Bytes :=
  l.len :: l.family :: (l.index ++
    [l.type, UInt8.ofNat l.name.length, UInt8.ofNat l.addr.length, l.slen])

def LinkAddr.bytes (l : LinkAddr) : Bytes := l.header ++ (l.name ++ l.addr)

def ipBytes (ip : Ip) : Bytes := [ip.1, ip.2.1, ip.2.2.1, ip.2.2.2]

/-- A message of the route dump: the rest of its header, the address (`struct sockaddr_in`, padded
as `ARP_SA_ROUNDUP` says), its link-layer address, and what follows. -/
structure RouteMessage where
  head : Bytes
  sinLen : UInt8
  sinFamily : UInt8
  sinPort : Bytes
  sinAddr : Ip
  sinZero : Bytes
  link : LinkAddr
  rest : Bytes
  head_length : 2 + head.length = rtMsghdrLen
  port_length : sinPort.length = 2
  sin_length : 8 + sinZero.length = arpSaRoundup sinLen.toNat
  size_lt : rtMsghdrLen + arpSaRoundup sinLen.toNat + link.bytes.length + rest.length < 2 ^ 16

/-- `rtm_msglen`. -/
def RouteMessage.len (m : RouteMessage) : Nat :=
  rtMsghdrLen + arpSaRoundup m.sinLen.toNat + m.link.bytes.length + m.rest.length

def RouteMessage.sin (m : RouteMessage) : Bytes :=
  m.sinLen :: m.sinFamily :: (m.sinPort ++ (ipBytes m.sinAddr ++ m.sinZero))

def RouteMessage.bytes (m : RouteMessage) : Bytes :=
  leBytes 2 m.len ++ (m.head ++ (m.sin ++ (m.link.bytes ++ m.rest)))

/-- The neighbor a message of the route dump tells of: macOS keeps no state there. -/
def RouteMessage.row (m : RouteMessage) : Option KernelRow :=
  if m.sinFamily = afInet ∧ m.link.family = afLink ∧ m.link.addr.length = 6 then
    some { ip := m.sinAddr, mac := mac? m.link.addr, state := .stale }
  else none

theorem LinkAddr.header_length (l : LinkAddr) : l.header.length = 8 := by
  simp [header, l.index_length]

theorem RouteMessage.sin_bytes_length (m : RouteMessage) :
    m.sin.length = arpSaRoundup m.sinLen.toNat := by
  rw [← m.sin_length]
  simp [sin, m.port_length, ipBytes]
  omega

theorem RouteMessage.bytes_length (m : RouteMessage) : m.bytes.length = m.len := by
  have hhead := m.head_length
  simp only [bytes, len, List.length_append, length_leBytes, m.sin_bytes_length]
  omega

/-- One element in the middle. -/
theorem get_middle {before after : Bytes} {b : UInt8} {i : Nat} (h : before.length = i) :
    Checked.get (before ++ b :: after) i = some b := by
  subst h
  simp [Checked.get]

/-- What is read of a message, behind whatever was before it. -/
theorem RouteMessage.reads (m : RouteMessage) (before after : Bytes) :
    let raw := before ++ (m.bytes ++ after)
    let sin := before.length + rtMsghdrLen
    let sdl := sin + arpSaRoundup m.sinLen.toNat
    (Checked.window raw before.length (before.length + 2) = some (leBytes 2 m.len) ∧
      Checked.get raw (sin + 1) = some m.sinFamily ∧ Checked.get raw sin = some m.sinLen) ∧
    (Checked.window raw (sin + 4) (sin + 8) = some (ipBytes m.sinAddr) ∧
      Checked.get raw (sdl + 1) = some m.link.family) ∧
    Checked.get raw (sdl + 6) = some (UInt8.ofNat m.link.addr.length) ∧
    Checked.get raw (sdl + 5) = some (UInt8.ofNat m.link.name.length) ∧
    Checked.window raw (sdl + 8 + m.link.name.length)
      (sdl + 8 + m.link.name.length + m.link.addr.length) = some m.link.addr := by
  intro raw sin sdl
  have hhead := m.head_length
  have hport := m.port_length
  have hindex := m.link.index_length
  -- what is before the address, and before the link-layer address
  have hsin : (before ++ leBytes 2 m.len ++ m.head).length = sin := by
    simp only [List.length_append, length_leBytes]
    omega
  have hsdl : (before ++ leBytes 2 m.len ++ m.head ++ m.sin).length = sdl := by
    rw [List.length_append, hsin, m.sin_bytes_length]
  have hraw : raw = before ++ leBytes 2 m.len ++ m.head ++
      (m.sin ++ (m.link.bytes ++ (m.rest ++ after))) := by
    simp only [raw, bytes, List.append_assoc]
  have hrawLink : raw = before ++ leBytes 2 m.len ++ m.head ++ m.sin ++
      (m.link.header ++ (m.link.name ++ (m.link.addr ++ (m.rest ++ after)))) := by
    simp only [raw, bytes, LinkAddr.bytes, List.append_assoc]
  refine ⟨⟨?_, ?_, ?_⟩, ⟨?_, ?_⟩, ?_, ?_, ?_⟩
  · have hfirst : raw = before ++ (leBytes 2 m.len ++
        (m.head ++ (m.sin ++ (m.link.bytes ++ (m.rest ++ after))))) := by
      rw [hraw]
      simp only [List.append_assoc]
    rw [hfirst]
    exact Checked.window_append before _ _ rfl (by rw [length_leBytes])
  · have hfamily : raw = (before ++ leBytes 2 m.len ++ m.head ++ [m.sinLen]) ++ m.sinFamily ::
        (m.sinPort ++ (ipBytes m.sinAddr ++ m.sinZero) ++
          (m.link.bytes ++ (m.rest ++ after))) := by
      rw [hraw, RouteMessage.sin]
      simp
    rw [hfamily]
    exact get_middle (by rw [List.length_append, hsin]; rfl)
  · rw [hraw, RouteMessage.sin]
    exact get_middle hsin
  · have haddr : raw = (before ++ leBytes 2 m.len ++ m.head ++
        (m.sinLen :: m.sinFamily :: m.sinPort)) ++ (ipBytes m.sinAddr ++
          (m.sinZero ++ (m.link.bytes ++ (m.rest ++ after)))) := by
      rw [hraw, RouteMessage.sin]
      simp
    have hlen : (before ++ leBytes 2 m.len ++ m.head ++
        (m.sinLen :: m.sinFamily :: m.sinPort)).length = sin + 4 := by
      rw [List.length_append, hsin, List.length_cons, List.length_cons, hport]
    rw [haddr]
    exact Checked.window_append _ _ _ hlen (by rw [hlen]; rfl)
  · have hfamily : raw = (before ++ leBytes 2 m.len ++ m.head ++ m.sin ++ [m.link.len]) ++
        m.link.family :: (m.link.index ++ [m.link.type, UInt8.ofNat m.link.name.length,
          UInt8.ofNat m.link.addr.length, m.link.slen] ++
          (m.link.name ++ (m.link.addr ++ (m.rest ++ after)))) := by
      rw [hrawLink, LinkAddr.header]
      simp
    rw [hfamily]
    exact get_middle (by rw [List.length_append, hsdl]; rfl)
  · have halen : raw = (before ++ leBytes 2 m.len ++ m.head ++ m.sin ++ (m.link.len ::
        m.link.family :: (m.link.index ++ [m.link.type, UInt8.ofNat m.link.name.length]))) ++
        UInt8.ofNat m.link.addr.length :: (m.link.slen ::
          (m.link.name ++ (m.link.addr ++ (m.rest ++ after)))) := by
      rw [hrawLink, LinkAddr.header]
      simp
    rw [halen]
    refine get_middle ?_
    rw [List.length_append, hsdl]
    simp [hindex]
  · have hnlen : raw = (before ++ leBytes 2 m.len ++ m.head ++ m.sin ++ (m.link.len ::
        m.link.family :: (m.link.index ++ [m.link.type]))) ++
        UInt8.ofNat m.link.name.length :: (UInt8.ofNat m.link.addr.length :: m.link.slen ::
          (m.link.name ++ (m.link.addr ++ (m.rest ++ after)))) := by
      rw [hrawLink, LinkAddr.header]
      simp
    rw [hnlen]
    refine get_middle ?_
    rw [List.length_append, hsdl]
    simp [hindex]
  · have hlink : raw = (before ++ leBytes 2 m.len ++ m.head ++ m.sin ++
        (m.link.header ++ m.link.name)) ++ (m.link.addr ++ (m.rest ++ after)) := by
      rw [hrawLink]
      simp only [List.append_assoc]
    have hlen : (before ++ leBytes 2 m.len ++ m.head ++ m.sin ++
        (m.link.header ++ m.link.name)).length = sdl + 8 + m.link.name.length := by
      rw [List.length_append, hsdl, List.length_append, m.link.header_length]
      omega
    rw [hlink]
    exact Checked.window_append _ _ _ hlen (by rw [hlen])

theorem mac?_length {addr : Bytes} (h : addr.length = 6) : ∃ mac, mac? addr = some mac := by
  rcases addr with _ | ⟨a, _ | ⟨b, _ | ⟨c, _ | ⟨d, _ | ⟨e, _ | ⟨f, _ | ⟨g, rest⟩⟩⟩⟩⟩⟩⟩ <;>
    simp at h
  exact ⟨macOf a b c d e f, rfl⟩

/-- **One message of the route dump.** -/
theorem routeStep_message (m : RouteMessage) (before after : Bytes) (list : List NeighborRow) :
    routeStep (before ++ (m.bytes ++ after)) { next := before.length, list } =
      some (.again { next := (before ++ m.bytes).length, list := addRow list m.row }) := by
  obtain ⟨⟨hmsglen, hsinFamily, hsinLen⟩, ⟨hsinAddr, hsdlFamily⟩, hsdlAlen, hsdlNlen, hlladdr⟩ :=
    m.reads before after
  have hpos : 0 < m.len := by
    rw [RouteMessage.len, rtMsghdrLen]
    omega
  have hlen : leNat (leBytes 2 m.len) = m.len := leNat_leBytes (show m.len < 256 ^ 2 from m.size_lt)
  have hin : ¬(before ++ (m.bytes ++ after)).length ≤ before.length := by
    simp only [List.length_append, m.bytes_length]
    omega
  have halen : UInt8.ofNat m.link.addr.length = 6 ↔ m.link.addr.length = 6 := by
    have hlt := m.link.addr_lt
    rw [← UInt8.toNat_inj, UInt8.toNat_ofNat', Nat.mod_eq_of_lt hlt]
    rfl
  have hnlen : (UInt8.ofNat m.link.name.length).toNat = m.link.name.length := by
    rw [UInt8.toNat_ofNat', Nat.mod_eq_of_lt m.link.name_lt]
  have hip : Machine.ipOf (ipBytes m.sinAddr) = some m.sinAddr := rfl
  have hnext : (before ++ m.bytes).length = before.length + m.len := by
    rw [List.length_append, m.bytes_length]
  unfold routeStep
  rw [hnext, if_neg hin]
  simp only [hmsglen, hlen, hsinFamily, hsinLen, hsinAddr, hip, hsdlFamily, hsdlAlen, hsdlNlen,
    hnlen, Option.bind_eq_bind, Option.bind_some, if_neg (Nat.ne_of_gt hpos), ne_eq, halen]
  unfold RouteMessage.row
  by_cases hinet : m.sinFamily = afInet
  · by_cases hlink : m.link.family = afLink
    · by_cases hsix : m.link.addr.length = 6
      · obtain ⟨mac, hmac⟩ := mac?_length hsix
        rw [hsix] at hlladdr
        rw [if_neg (not_not_intro hinet), if_neg (not_not_intro hlink),
          if_neg (not_not_intro hsix), hlladdr, Option.bind_some, if_pos ⟨hinet, hlink, hsix⟩,
          listAdd_mac?]
        rfl
      · rw [if_neg (not_not_intro hinet), if_neg (not_not_intro hlink), if_pos hsix,
          if_neg fun h => hsix h.2.2]
        rfl
    · rw [if_neg (not_not_intro hinet), if_pos hlink, if_neg fun h => hlink h.2.1]
      rfl
  · rw [if_pos hinet, if_neg fun h => hinet h.1]
    rfl

/-- The end of the dump, or of what is filled in of it. -/
theorem routeStep_end {before behind : Bytes} (h : behind = [] ∨ ∃ rest, behind = 0 :: 0 :: rest)
    (list : List NeighborRow) :
    routeStep (before ++ behind) { next := before.length, list } = some (.stop (0, list)) := by
  unfold routeStep
  rcases h with rfl | ⟨rest, rfl⟩
  · rw [if_pos (by simp)]
  · have hwindow : Checked.window (before ++ ([0, 0] ++ rest)) before.length (before.length + 2) =
        some [0, 0] := Checked.window_append before [0, 0] rest rfl rfl
    have hzero : leNat [0, 0] = 0 := rfl
    rw [List.cons_append, List.cons_append, List.nil_append] at hwindow
    simp only [hwindow, Option.bind_eq_bind, Option.bind_some, hzero, if_true]
    rw [if_neg (by simp)]

/-- **All the messages of the route dump are read**, and nothing outside of it. -/
theorem routes_read (messages : List RouteMessage) (before : Bytes) {behind : Bytes}
    (h : behind = [] ∨ ∃ rest, behind = 0 :: 0 :: rest) (list : List NeighborRow) {n : Nat}
    (hn : messages.length < n) :
    Checked.rounds (routeStep (before ++ (messages.flatMap RouteMessage.bytes ++ behind))) n
      { next := before.length, list } =
        some (0, messages.foldl (fun list m => addRow list m.row) list) := by
  induction messages generalizing before list n with
  | nil =>
    obtain ⟨n, rfl⟩ := Nat.exists_eq_succ_of_ne_zero (Nat.ne_zero_of_lt hn)
    exact Checked.rounds_stop (routeStep_end h list) n
  | cons m messages ih =>
    rw [List.length_cons] at hn
    obtain ⟨n, rfl⟩ := Nat.exists_eq_succ_of_ne_zero (Nat.ne_zero_of_lt hn)
    have hraw : before ++ ((m :: messages).flatMap RouteMessage.bytes ++ behind) =
        before ++ (m.bytes ++ (messages.flatMap RouteMessage.bytes ++ behind)) := by
      rw [List.flatMap_cons, List.append_assoc]
    have hstep := routeStep_message m before (messages.flatMap RouteMessage.bytes ++ behind) list
    rw [hraw, Checked.rounds_again hstep, ← List.append_assoc before]
    exact ih (before ++ m.bytes) _ (by omega)

/-- The table did not fit what was allocated for it: it has grown since it was sized. -/
def SysctlAttempt.Outgrown (a : SysctlAttempt) : Prop :=
  ∃ needed table, a.needed = some needed ∧ a.table = some table ∧
    needed + needed / 2 + rtMsghdrLen < table.length

/-- The table that an attempt reads. -/
def SysctlAttempt.Reads (a : SysctlAttempt) (raw : Bytes) : Prop :=
  ∃ needed, a.needed = some needed ∧ a.table = some raw ∧
    raw.length ≤ needed + needed / 2 + rtMsghdrLen

/-- **A table that outgrows its buffer is read again**, as long as attempts are left. -/
theorem macosRaw_outgrown {early : List SysctlAttempt} (hearly : ∀ a ∈ early, a.Outgrown)
    {attempt : SysctlAttempt} {raw : Bytes} (h : attempt.Reads raw) (later : List SysctlAttempt)
    {left : Nat} (hleft : early.length < left) :
    macosRaw left (early ++ attempt :: later) = some raw := by
  induction early generalizing left with
  | nil =>
    obtain ⟨left, rfl⟩ := Nat.exists_eq_succ_of_ne_zero (Nat.ne_zero_of_lt hleft)
    obtain ⟨needed, hneeded, htable, hfits⟩ := h
    rw [List.nil_append, macosRaw, hneeded, htable]
    exact if_pos hfits
  | cons a early ih =>
    rw [List.length_cons] at hleft
    obtain ⟨left, rfl⟩ := Nat.exists_eq_succ_of_ne_zero (Nat.ne_zero_of_lt hleft)
    obtain ⟨needed, table, hneeded, htable, hgrown⟩ := hearly a List.mem_cons_self
    rw [List.cons_append, macosRaw, hneeded, htable]
    dsimp only
    rw [if_neg (Nat.not_le.mpr hgrown), if_neg (by omega)]
    exact ih (fun b hb => hearly b (List.mem_cons_of_mem a hb)) (by omega)

/-- There are no more messages than bytes. -/
theorem length_routes (messages : List RouteMessage) :
    messages.length ≤ (messages.flatMap RouteMessage.bytes).length := by
  induction messages with
  | nil => exact Nat.le_refl 0
  | cons m messages ih =>
    rw [List.flatMap_cons, List.length_append, List.length_cons, m.bytes_length,
      RouteMessage.len, rtMsghdrLen]
    omega

theorem macosDump_rows {early : List SysctlAttempt} (hearly : ∀ a ∈ early, a.Outgrown)
    (hthree : early.length < 3) {attempt : SysctlAttempt} {messages : List RouteMessage}
    {behind : Bytes} (hbehind : behind = [] ∨ ∃ rest, behind = 0 :: 0 :: rest)
    (h : attempt.Reads (messages.flatMap RouteMessage.bytes ++ behind))
    (later : List SysctlAttempt) :
    macosDump (early ++ attempt :: later) =
      some (0, messages.foldl (fun list m => addRow list m.row) []) := by
  have hcount := length_routes messages
  rw [macosDump, macosRaw_outgrown hearly h later hthree]
  refine routes_read messages [] hbehind [] ?_
  rw [List.length_append]
  omega

/-! ## The same table everywhere -/

/-- `dump_neighbors` and `dumpNeighbors`, over what the system's reader returns. -/
def handOn : Int × List NeighborRow → Option (List Neighbor)
  | (result, list) => if result ≠ 0 then none else some (dumpNeighbors list)

/--
**What the program gets does not depend on the system.** Let the kernel's table be `rows`, as a
complete netlink dump, in any number of datagrams and with any interruptions, as a table of
`GetIpNetTable2`, or as a route dump that a growing table may have outgrown twice: each reader
stays inside what it was given, and hands on the rows that are real hosts, in order.
-/
theorem readers_agree (rows : List KernelRow) :
    (∀ (recvs later : List Recv) (messages behind : List NlMessage) (last : NlMessage),
      Carried recvs (messages ++ last :: behind) → (∀ m ∈ messages, ¬m.Ends) →
      last.body.type = nlmsgDone → messages.filterMap NlMessage.row = rows →
      (linuxDump true true (recvs ++ later)).bind Dump.neighbors =
        some (some (rows.filterMap KernelRow.neighbor))) ∧
    (∀ table : List IpNetRow, table.filterMap IpNetRow.row = rows →
      handOn (windowsDump (some table)) = some (rows.filterMap KernelRow.neighbor)) ∧
    (∀ (early later : List SysctlAttempt) (attempt : SysctlAttempt)
      (messages : List RouteMessage) (behind : Bytes),
      (∀ a ∈ early, a.Outgrown) → early.length < 3 →
      (behind = [] ∨ ∃ rest, behind = 0 :: 0 :: rest) →
      attempt.Reads (messages.flatMap RouteMessage.bytes ++ behind) →
      messages.filterMap RouteMessage.row = rows →
      (macosDump (early ++ attempt :: later)).map handOn =
        some (some (rows.filterMap KernelRow.neighbor))) := by
  refine ⟨?_, ?_, ?_⟩
  · rintro recvs later messages behind last hcarried hgo hdone rfl
    have hlist : messages.flatMap NlMessage.rows =
        messages.foldl (fun list m => addRow list m.row) [] := by
      rw [foldl_addRow_netlink, List.nil_append]
    have hread := linux_dump_ended hcarried hgo (.inl hdone) later
    rw [hread, if_pos hdone, hlist, dumpNeighbors_addRows]
    rfl
  · rintro table rfl
    rw [windowsDump_rows, handOn, if_neg (not_not_intro rfl), dumpNeighbors_addRows]
    rfl
  · rintro early later attempt messages behind hearly hthree hbehind hreads rfl
    rw [macosDump_rows hearly hthree hbehind hreads later, Option.map_some, handOn,
      if_neg (not_not_intro rfl), dumpNeighbors_addRows]
    rfl

theorem ndaDst_lt : ndaDst < 2 ^ 16 := by decide

theorem ndaLladdr_lt : ndaLladdr < 2 ^ 16 := by decide

/-! ### A stale neighbor, 10.0.0.7, in each of the formats -/

def staleDst : RtAttr where
  type := ndaDst
  payload := [10, 0, 0, 7]
  type_lt := ndaDst_lt
  length_lt := by decide

def staleLladdr : RtAttr where
  type := ndaLladdr
  payload := [2, 0, 0, 0, 0, 7]
  type_lt := ndaLladdr_lt
  length_lt := by decide

def staleNdmsg : Ndmsg where
  family := afInet
  middle := [0, 0, 0, 3, 0, 0, 0]
  state := 0x04
  tail := [128, 1]
  middle_length := rfl
  state_lt := by decide
  tail_length := rfl

def staleNeigh : NlMessage where
  body := .neigh staleNdmsg [staleDst, staleLladdr]
    (staleDst.bytes ++ ([] ++ (staleLladdr.bytes ++ [0, 0])))
    (.more rfl (by simp) (.last staleLladdr [0, 0] (by decide)))
  rest := [2, 0, 2, 0, 0, 0, 0, 0, 0, 0]
  rest_length := rfl

def staleIpNetRow : IpNetRow where
  family := afInetFamily
  ip := (10, 0, 0, 7)
  physicalAddress := [2, 0, 0, 0, 0, 7]
  state := .nlnsProbe

/-- The address has a length of 16, and the link-layer address a name. -/
def staleRoute : RouteMessage where
  head := List.replicate 90 0
  sinLen := 16
  sinFamily := afInet
  sinPort := [0, 0]
  sinAddr := (10, 0, 0, 7)
  sinZero := List.replicate 8 0
  link :=
    { len := 20
      family := afLink
      index := [4, 0]
      type := 6
      name := ascii "en0"
      addr := [2, 0, 0, 0, 0, 7]
      slen := 0
      index_length := by decide
      name_lt := by decide
      addr_lt := by decide }
  rest := []
  head_length := by decide
  port_length := by decide
  sin_length := by decide
  size_lt := by decide

def doneMessage : NlMessage where
  body := .other nlmsgDone [0, 0, 0, 0] (by decide) (by decide)
  rest := List.replicate 10 0
  rest_length := by decide

def staleRow : KernelRow where
  ip := (10, 0, 0, 7)
  mac := some #v[2, 0, 0, 0, 0, 7]
  state := .stale

/-- The dump comes in two datagrams, and the route dump has outgrown its buffer once. -/
theorem readers_agree_stale :
    (linuxDump true true [.interrupted, .data (staleNeigh.bytes ++ []), .interrupted,
      .data (doneMessage.bytes ++ []), .failed]).bind Dump.neighbors =
        some (some ([staleRow].filterMap KernelRow.neighbor)) ∧
    handOn (windowsDump (some [staleIpNetRow])) =
      some ([staleRow].filterMap KernelRow.neighbor) ∧
    (macosDump [{ needed := some 4, table := some (List.replicate 120 1) },
      { needed := some 120, table := some ([staleRoute].flatMap RouteMessage.bytes ++ []) }]).map
        handOn = some (some ([staleRow].filterMap KernelRow.neighbor)) := by
  obtain ⟨hlinux, hwindows, hmacos⟩ := readers_agree [staleRow]
  refine ⟨?_, ?_, ?_⟩
  · have hcarried : Carried [.interrupted, .data (staleNeigh.bytes ++ []), .interrupted,
        .data (doneMessage.bytes ++ [])] ([staleNeigh] ++ doneMessage :: []) := by
      have hdone : Carried [.data (doneMessage.bytes ++ [])] ([doneMessage] ++ []) :=
        .data (.last doneMessage [] (by decide)) (by simp) (by decide) (by decide) .nil
      exact .interrupted (.data (.last staleNeigh [] (by decide)) (by simp) (by decide) (by decide)
        (.interrupted hdone))
    exact hlinux _ [.failed] _ _ _ hcarried (by simp [NlMessage.Ends, NlBody.type, staleNeigh,
      rtmNewNeigh, nlmsgDone, nlmsgError]) rfl (by decide)
  · exact hwindows _ (by decide)
  · refine hmacos [{ needed := some 4, table := some (List.replicate 120 1) }] [] _ [staleRoute] []
      ?_ (by decide) (.inl rfl) ?_ (by decide)
    · intro a ha
      obtain rfl := List.mem_singleton.mp ha
      exact ⟨4, _, rfl, rfl, by decide +kernel⟩
    · exact ⟨120, rfl, rfl, by decide +kernel⟩

end NetScanner.Neighbors
