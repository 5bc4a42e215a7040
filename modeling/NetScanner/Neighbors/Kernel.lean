import NetScanner.Neighbors.Parent
import Mathlib.Data.List.Induction
import Mathlib.Tactic.Tauto

/-!
# The kernel's own neighbor table

`src/c/neighbors.c` and `src/c/c_bindings.zig`: the rows the kernel reports, filtered and
collected by `list_add` and handed on by `dumpNeighbors`.

With `--neighbor-table=parent` the same rows come as text, and the filter is written a second
time, in `parseReply`. `parent_table_eq_kernel` says that both ways give the same table: a row
that is written as an entry of a reply is read back as the neighbor the kernel reader makes of
it, or dropped by both (`readEntry_writes`).

Allocations succeed here.
-/

namespace NetScanner.Neighbors

open Infra Net

/-- `NS_NEIGH_REACHABLE`; any other state is stale. -/
def nsNeighReachable : UInt8 := 1
def nsNeighStale : UInt8 := 2

/-- `ns_neighbor`. -/
structure NeighborRow where
  ip : Ip
  mac : Mac
  hasMac : UInt8
  state : UInt8
deriving DecidableEq, Repr

/-- Append one entry, unless it is not a real host: multicast and limited broadcast addresses,
or a broadcast MAC. `mac` is the hardware address the row carries, of whatever length. -/
def listAdd (list : List NeighborRow) (ip : Ip) (mac : Option Bytes) (state : UInt8) :
    List NeighborRow :=
  if ip.1 ≥ 224 ∨ ip.1 = 0 then list
  else
    match mac with
    | some [a, b, c, d, e, f] =>
      let mac := macOf a b c d e f
      if mac = broadcastMac then list else list ++ [{ ip, mac, hasMac := 1, state }]
    -- `memset` to zero, and no six bytes to copy
    | _ => list ++ [{ ip, mac := #v[0, 0, 0, 0, 0, 0], hasMac := 0, state }]

/-- One row of the C reader, as the program sees it. -/
def NeighborRow.neighbor (row : NeighborRow) : Neighbor where
  ip := row.ip
  mac := if row.hasMac ≠ 0 then some row.mac else none
  state := if row.state = nsNeighReachable then .reachable else .stale

def dumpNeighbors (rows : List NeighborRow) : List Neighbor := rows.map NeighborRow.neighbor

/-! ## One row, both ways -/

/-- A row of the kernel's table: an address, a 6-byte MAC if there is one, and a state. -/
structure KernelRow where
  ip : Ip
  mac : Option Mac
  state : NeighborState
deriving DecidableEq, Repr

def stateCode : NeighborState → UInt8
  | .reachable => nsNeighReachable
  | .stale => nsNeighStale

def stateText : NeighborState → Bytes
  | .reachable => ascii "reachable"
  | .stale => ascii "stale"

/-- The rows, one `list_add` after the other. -/
def listRows (rows : List KernelRow) : List NeighborRow :=
  rows.foldl (fun list row => listAdd list row.ip (row.mac.map (·.toList)) (stateCode row.state)) []

/-- `Writes row entry`: the entry is the row as text, the MAC with either separator and in
either case. -/
structure Writes (row : KernelRow) (entry : Entry) : Prop where
  ip : entry.ip = formatIp row.ip
  mac : match row.mac with
    | none => entry.mac = none
    | some mac => ∃ sep upper, anyOf ":-" sep = true ∧
        entry.mac = some (formatMacWith sep upper mac)
  state : entry.state = some (stateText row.state)

/-- What both readers make of a row. -/
def KernelRow.neighbor (row : KernelRow) : Option Neighbor :=
  if row.ip.1 = 0 ∨ row.ip.1 ≥ 224 ∨ row.mac = some broadcastMac then none
  else some { ip := row.ip, mac := row.mac, state := row.state }

theorem KernelRow.neighbor_of_drop {row : KernelRow} (h : row.ip.1 = 0 ∨ row.ip.1 ≥ 224) :
    row.neighbor = none := by
  rw [KernelRow.neighbor, if_pos (by tauto)]

theorem KernelRow.neighbor_of_broadcast {row : KernelRow} (h : row.mac = some broadcastMac) :
    row.neighbor = none := by
  rw [KernelRow.neighbor, if_pos (by tauto)]

theorem KernelRow.neighbor_of_keep {row : KernelRow} (hip : ¬(row.ip.1 = 0 ∨ row.ip.1 ≥ 224))
    (hmac : row.mac ≠ some broadcastMac) :
    row.neighbor = some { ip := row.ip, mac := row.mac, state := row.state } := by
  rw [KernelRow.neighbor, if_neg (by tauto)]

/-- **The parent's entry for a row is read back as the row.** -/
theorem readEntry_writes {row : KernelRow} {entry : Entry} (h : Writes row entry) :
    readEntry entry = row.neighbor := by
  obtain ⟨ip, mac, state⟩ := row
  obtain ⟨ipText, macText, stateText'⟩ := entry
  obtain ⟨rfl, hmac, rfl⟩ := h
  have hstate : (if some (stateText state) = some (ascii "reachable") then NeighborState.reachable
      else .stale) = state := by cases state <;> decide
  simp only [readEntry, ipStringToBytes_formatIp, Option.bind_eq_bind, Option.bind_some]
  by_cases hip : ip.1 = 0 ∨ ip.1 ≥ 224
  · rw [if_pos hip, KernelRow.neighbor_of_drop hip]
  · rw [if_neg hip]
    cases mac with
    | none =>
      simp only at hmac
      subst hmac
      rw [KernelRow.neighbor_of_keep hip (by simp)]
      simp only [reduceCtorEq, if_false, hstate]
      rfl
    | some mac =>
      obtain ⟨sep, upper, hsep, rfl⟩ := hmac
      simp only [parseMac_formatMacWith hsep, Option.map_some, Option.bind_some, hstate]
      by_cases hbroadcast : some mac = some broadcastMac
      · rw [if_pos hbroadcast, KernelRow.neighbor_of_broadcast hbroadcast]
      · rw [if_neg hbroadcast, KernelRow.neighbor_of_keep hip hbroadcast]
        rfl

/-- **The kernel reader hands on the row.** -/
theorem dumpNeighbors_listAdd (list : List NeighborRow) (row : KernelRow) :
    dumpNeighbors (listAdd list row.ip (row.mac.map (·.toList)) (stateCode row.state)) =
      dumpNeighbors list ++ row.neighbor.toList := by
  obtain ⟨ip, mac, state⟩ := row
  have hstate : (if stateCode state = nsNeighReachable then NeighborState.reachable else .stale) =
      state := by cases state <;> decide
  simp only [listAdd]
  by_cases hip : ip.1 = 0 ∨ ip.1 ≥ 224
  · rw [if_pos hip.symm, KernelRow.neighbor_of_drop hip]
    simp
  · rw [if_neg (fun h => hip h.symm)]
    cases mac with
    | none =>
      rw [KernelRow.neighbor_of_keep hip (by simp)]
      simp [dumpNeighbors, NeighborRow.neighbor, hstate]
    | some mac =>
      have hlist : mac.toList =
          [mac.get 0, mac.get 1, mac.get 2, mac.get 3, mac.get 4, mac.get 5] :=
        (congrArg Vector.toList (mac_octets mac)).symm
      simp only [Option.map_some, hlist, mac_octets]
      by_cases hbroadcast : mac = broadcastMac
      · rw [if_pos hbroadcast, KernelRow.neighbor_of_broadcast (by rw [hbroadcast])]
        simp
      · rw [if_neg hbroadcast, KernelRow.neighbor_of_keep hip (by simpa using hbroadcast)]
        simp [dumpNeighbors, NeighborRow.neighbor, hstate]

/-! ## The whole table -/

theorem dumpNeighbors_listRows (rows : List KernelRow) :
    dumpNeighbors (listRows rows) = rows.filterMap KernelRow.neighbor := by
  induction rows using List.reverseRecOn with
  | nil => rfl
  | append_singleton rows row ih =>
    rw [listRows, List.foldl_append, List.foldl_cons, List.foldl_nil, dumpNeighbors_listAdd,
      List.filterMap_append, ← ih]
    cases hrow : row.neighbor <;> simp [listRows, hrow]

theorem readEntries_writes {rows : List KernelRow} {entries : List Entry}
    (h : List.Forall₂ Writes rows entries) :
    entries.filterMap readEntry = rows.filterMap KernelRow.neighbor := by
  induction h with
  | nil => rfl
  | cons hrow _ ih => rw [List.filterMap_cons, List.filterMap_cons, readEntry_writes hrow, ih]

/--
**A table sent by the parent is handled as the kernel's own.** The rows written as the entries
of a reply, in order, are read as the table that `list_add` and `dumpNeighbors` make of them.
-/
theorem parent_table_eq_kernel {decode : Bytes → Option Message} {line : Bytes} {id : Nat}
    {rows : List KernelRow} {entries : List Entry} (hwritten : List.Forall₂ Writes rows entries)
    (hdecode : decode line = some { type := ascii "neighbors", id, entries := some entries }) :
    parseReply decode line id = .ok (.table (dumpNeighbors (listRows rows))) := by
  unfold parseReply
  rw [hdecode]
  simp [readEntries_writes hwritten, dumpNeighbors_listRows]

/-- A multicast row, a broadcast row and a host, the host's MAC with hyphens in upper case. -/
def sampleRows : List KernelRow :=
  [{ ip := (224, 0, 0, 251), mac := none, state := .reachable },
    { ip := (192, 168, 1, 255), mac := some broadcastMac, state := .stale },
    { ip := (192, 168, 1, 7), mac := some #v[0x64, 0xFA, 0x2B, 0xB0, 0x93, 0xF1],
      state := .reachable }]

def sampleEntries : List Entry :=
  [{ ip := ascii "224.0.0.251", state := some (ascii "reachable") },
    { ip := ascii "192.168.1.255", mac := some (ascii "ff:ff:ff:ff:ff:ff"),
      state := some (ascii "stale") },
    { ip := ascii "192.168.1.7", mac := some (ascii "64-FA-2B-B0-93-F1"),
      state := some (ascii "reachable") }]

def sampleHost : Neighbor where
  ip := (192, 168, 1, 7)
  mac := some #v[0x64, 0xFA, 0x2B, 0xB0, 0x93, 0xF1]
  state := .reachable

def sampleMessage : Message where
  type := ascii "neighbors"
  id := 1
  entries := some sampleEntries

theorem parent_table_eq_kernel_sample :
    List.Forall₂ Writes sampleRows sampleEntries ∧
      parseReply (fun _ => some sampleMessage) [] 1 =
        .ok (.table [sampleHost]) := by
  have hwritten : List.Forall₂ Writes sampleRows sampleEntries := by
    refine .cons ⟨by decide, rfl, rfl⟩ (.cons ⟨by decide, ?_, rfl⟩
      (.cons ⟨by decide, ?_, rfl⟩ .nil))
    · exact ⟨58, false, by decide, by decide⟩
    · exact ⟨45, true, by decide, by decide⟩
  refine ⟨hwritten, ?_⟩
  rw [parent_table_eq_kernel hwritten rfl]
  decide

end NetScanner.Neighbors
