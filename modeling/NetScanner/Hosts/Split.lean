import NetScanner.Hosts.Scan
import Mathlib.Logic.Basic

/-!
# How `harvestArp` splits the neighbor table

`src/core/scanner.zig`, the loop of `harvestArp`. Each row of the table read after the sweep is
judged by itself: a row that proves its host is up has it reported at once, any other has its
address queued for a ping, and a row of a host already found is passed over.

An address may have several rows. It is reported if any of them proves it
(`Harvest.reported_iff`), but queued if the first of them does not (`Harvest.queued_iff`), so an
address with rows of both kinds depends on their order.
-/

namespace NetScanner.Hosts

open Infra Names Neighbors Net Progress

/-- What `harvestArp` is given, besides the table it reads. -/
structure Harvest where
  firstIp : Ip
  lastIp : Ip
  knownBefore : Option (List Neighbor)
  stream : Bool := false

/-- The MAC of a row of the table is kept. -/
def Discovery.recordEntry (d : Discovery) (entry : Neighbor) : Discovery :=
  match entry.mac with
  | none => d
  | some mac => d.recordMac entry.ip mac true

namespace Harvest

variable (x : Harvest)

def inRange (ip : Ip) : Bool := ipInRange ip x.firstIp x.lastIp

/-- Whether a row of the table proves that its host is up. -/
def proves (table : List Neighbor) (entry : Neighbor) : Bool :=
  decide (entry.state = .reachable) ||
    resolvedDuringScan x.knownBefore table entry x.firstIp x.lastIp

/-- One row of the table, with memory for what it adds: the hosts found and the candidates. -/
def row (table : List Neighbor) (acc : Discovery × List Ip) (entry : Neighbor) :
    Discovery × List Ip :=
  let d := acc.1.recordEntry entry
  if x.inRange entry.ip = false then (d, acc.2)
  else if d.isFound entry.ip then (d, acc.2)
  else if x.proves table entry then
    (d.reportHost x.stream { ip := entry.ip, source := .arp, stored := true }, acc.2)
  else if containsIp acc.2 entry.ip then (d, acc.2)
  else (d, acc.2 ++ [entry.ip])

/-- The loop over the table: what it has found, and the candidates for a ping. -/
def harvest (table : List Neighbor) (d : Discovery) : Discovery × List Ip :=
  table.foldl (x.row table) (d, [])

end Harvest

/-! ## One row -/

section Row

variable {x : Harvest} {table : List Neighbor} {d : Discovery} {queue : List Ip}
  {entry : Neighbor} {ip : Ip}

@[simp] theorem Discovery.found_recordEntry (d : Discovery) (entry : Neighbor) :
    (d.recordEntry entry).found = d.found := by
  unfold Discovery.recordEntry
  split
  · rfl
  · unfold Discovery.recordMac
    rfl

@[simp] theorem Discovery.isFound_recordEntry (d : Discovery) (entry : Neighbor) (ip : Ip) :
    (d.recordEntry entry).isFound ip = decide (ip ∈ d.found) := by
  rw [Discovery.isFound, Discovery.found_recordEntry]

theorem Discovery.mem_found_reportHost (d : Discovery) (stream : Bool) (source : HostSource) :
    ip ∈ (d.reportHost stream { ip := entry.ip, source := source, stored := true }).found ↔
      ip ∈ d.found ∨ ip = entry.ip := by
  unfold Discovery.reportHost
  by_cases hfound : entry.ip ∈ d.found
  · rw [if_pos hfound]
    constructor
    · exact Or.inl
    · rintro (h | rfl)
      · exact h
      · exact hfound
  · rw [if_neg hfound, if_neg (by simp)]
    simp

/-- A row has its address reported if it proves it. -/
theorem Harvest.mem_found_row :
    ip ∈ (x.row table (d, queue) entry).1.found ↔
      ip ∈ d.found ∨ ip = entry.ip ∧ x.inRange ip = true ∧ x.proves table entry = true := by
  unfold Harvest.row
  simp only [Discovery.isFound_recordEntry, decide_eq_true_eq]
  split
  · next hrange =>
    rw [Discovery.found_recordEntry]
    constructor
    · exact Or.inl
    · rintro (h | ⟨rfl, hr, _⟩)
      · exact h
      · simp [hrange] at hr
  · next hrange =>
    split
    · next hfound =>
      rw [Discovery.found_recordEntry]
      constructor
      · exact Or.inl
      · rintro (h | ⟨rfl, _, _⟩)
        · exact h
        · exact hfound
    · split
      · next hproves =>
        rw [Discovery.mem_found_reportHost, Discovery.found_recordEntry]
        constructor
        · rintro (h | rfl)
          · exact Or.inl h
          · exact Or.inr ⟨rfl, by simpa using hrange, hproves⟩
        · rintro (h | ⟨rfl, _, _⟩)
          · exact Or.inl h
          · exact Or.inr rfl
      · next hproves =>
        have hnot : ¬(ip = entry.ip ∧ x.inRange ip = true ∧ x.proves table entry = true) :=
          fun h => hproves h.2.2
        split <;> simp [hnot]

/-- It has its address queued if it does not, and the host is not known yet. -/
theorem Harvest.mem_queue_row :
    ip ∈ (x.row table (d, queue) entry).2 ↔
      ip ∈ queue ∨ ip = entry.ip ∧ x.inRange ip = true ∧ ip ∉ d.found ∧
        x.proves table entry = false := by
  unfold Harvest.row
  simp only [Discovery.isFound_recordEntry, decide_eq_true_eq]
  split
  · next hrange =>
    constructor
    · exact Or.inl
    · rintro (h | ⟨rfl, hr, _⟩)
      · exact h
      · simp [hrange] at hr
  · next hrange =>
    split
    · next hfound =>
      constructor
      · exact Or.inl
      · rintro (h | ⟨rfl, _, hnot, _⟩)
        · exact h
        · exact absurd hfound hnot
    · next hfound =>
      split
      · next hproves => simp [hproves]
      · next hproves =>
        split
        · next hqueued =>
          rw [containsIp, List.contains_iff_mem] at hqueued
          constructor
          · exact Or.inl
          · rintro (h | ⟨rfl, _⟩)
            · exact h
            · exact hqueued
        · rw [List.mem_append, List.mem_singleton]
          constructor
          · rintro (h | rfl)
            · exact Or.inl h
            · exact Or.inr ⟨rfl, by simpa using hrange, hfound, by simpa using hproves⟩
          · rintro (h | ⟨rfl, _⟩)
            · exact Or.inl h
            · exact Or.inr rfl

/-- No address is queued twice. -/
theorem Harvest.nodup_row (h : queue.Nodup) : (x.row table (d, queue) entry).2.Nodup := by
  unfold Harvest.row
  simp only []
  split
  · exact h
  · split
    · exact h
    · split
      · exact h
      · split
        · exact h
        · next hnew =>
          rw [containsIp, List.contains_iff_mem] at hnew
          exact List.nodup_append.mpr ⟨h, List.nodup_singleton _, by
            rintro a ha b hb rfl
            rw [List.mem_singleton] at hb
            exact hnew (hb ▸ ha)⟩

end Row

/-! ## The loop -/

section Loop

variable {x : Harvest} {table : List Neighbor} {ip : Ip}

/-- An address is found if some row proves it. -/
theorem Harvest.mem_found_rows (rows : List Neighbor) (d : Discovery) (queue : List Ip) :
    ip ∈ (rows.foldl (x.row table) (d, queue)).1.found ↔
      ip ∈ d.found ∨ x.inRange ip = true ∧ ∃ e ∈ rows, e.ip = ip ∧ x.proves table e = true := by
  induction rows generalizing d queue with
  | nil => simp
  | cons e rows ih =>
    rw [List.foldl_cons, ih, Harvest.mem_found_row]
    constructor
    · rintro ((h | ⟨rfl, hrange, hproves⟩) | ⟨hrange, e', he', heq, hproves⟩)
      · exact Or.inl h
      · exact Or.inr ⟨hrange, e, List.mem_cons_self, rfl, hproves⟩
      · exact Or.inr ⟨hrange, e', List.mem_cons_of_mem _ he', heq, hproves⟩
    · rintro (h | ⟨hrange, e', he', heq, hproves⟩)
      · exact Or.inl (Or.inl h)
      · rcases List.mem_cons.mp he' with rfl | he'
        · exact Or.inl (Or.inr ⟨heq.symm, hrange, hproves⟩)
        · exact Or.inr ⟨hrange, e', he', heq, hproves⟩

/-- An address is queued if its first row does not prove it. -/
theorem Harvest.mem_queue_rows (rows : List Neighbor) (d : Discovery) (queue : List Ip) :
    ip ∈ (rows.foldl (x.row table) (d, queue)).2 ↔
      ip ∈ queue ∨ x.inRange ip = true ∧ ip ∉ d.found ∧
        ∃ e, rows.find? (fun e => decide (e.ip = ip)) = some e ∧ x.proves table e = false := by
  induction rows generalizing d queue with
  | nil => simp
  | cons e rows ih =>
    rw [List.foldl_cons, ih, Harvest.mem_queue_row, Harvest.mem_found_row]
    by_cases heq : e.ip = ip
    · -- this row decides
      rw [List.find?_cons_of_pos (by simpa using heq)]
      subst heq
      cases hproves : x.proves table e <;> cases hrange : x.inRange e.ip <;>
        simp [hproves]
      tauto
    · rw [List.find?_cons_of_neg (by simpa using heq)]
      have hne : ip ≠ e.ip := Ne.symm heq
      simp [hne]

theorem Harvest.nodup_rows (rows : List Neighbor) (d : Discovery) {queue : List Ip}
    (h : queue.Nodup) : (rows.foldl (x.row table) (d, queue)).2.Nodup := by
  induction rows generalizing d queue with
  | nil => exact h
  | cons e rows ih =>
    rw [List.foldl_cons]
    exact ih _ (Harvest.nodup_row h)

end Loop

/-! ## The order of the rows -/

section Order

variable {x : Harvest} {table table' : List Neighbor} {d : Discovery} {ip : Ip}

/-- The addresses reported at once. -/
def Harvest.Reported (x : Harvest) (d : Discovery) (table : List Neighbor) (ip : Ip) : Prop :=
  ip ∈ (x.harvest table d).1.found ∧ ip ∉ d.found

/-- The addresses queued for a ping. -/
def Harvest.Queued (x : Harvest) (d : Discovery) (table : List Neighbor) (ip : Ip) : Prop :=
  ip ∈ (x.harvest table d).2

theorem Harvest.reported_iff :
    x.Reported d table ip ↔ x.inRange ip = true ∧ ip ∉ d.found ∧
      ∃ e ∈ table, e.ip = ip ∧ x.proves table e = true := by
  unfold Harvest.Reported Harvest.harvest
  rw [Harvest.mem_found_rows]
  tauto

theorem Harvest.queued_iff :
    x.Queued d table ip ↔ x.inRange ip = true ∧ ip ∉ d.found ∧
      ∃ e, table.find? (fun e => decide (e.ip = ip)) = some e ∧ x.proves table e = false := by
  unfold Harvest.Queued Harvest.harvest
  rw [Harvest.mem_queue_rows]
  simp

/-- What a row proves is the same in every order of the rows. -/
theorem Harvest.proves_perm (h : table'.Perm table) (entry : Neighbor) :
    x.proves table' entry = x.proves table entry := by
  have hshares : sharesMac table' entry x.firstIp x.lastIp =
      sharesMac table entry x.firstIp x.lastIp := by
    unfold sharesMac
    split
    · rfl
    · exact h.any_eq
  unfold Harvest.proves resolvedDuringScan
  rw [hshares]

/-- So the hosts reported at once do not depend on it. -/
theorem Harvest.reported_perm (h : table'.Perm table) :
    x.Reported d table' ip ↔ x.Reported d table ip := by
  simp only [Harvest.reported_iff, h.mem_iff, Harvest.proves_perm h]

/-- What the two sets are to be, for the rows of a table in any order. -/
structure Harvest.Splits (x : Harvest) (d : Discovery) (table : List Neighbor) : Prop where
  disjoint : ∀ ip, x.Reported d table ip → ¬x.Queued d table ip
  once : (x.harvest table d).2.Nodup
  one : ∀ e ∈ table, x.inRange e.ip = true → e.ip ∉ d.found →
    (x.Reported d table e.ip ∧ ¬x.Queued d table e.ip) ∨
      (¬x.Reported d table e.ip ∧ x.Queued d table e.ip)
  order : ∀ table', table'.Perm table → ∀ ip,
    (x.Reported d table' ip ↔ x.Reported d table ip) ∧
      (x.Queued d table' ip ↔ x.Queued d table ip)

/-- The rows of an address in question agree on whether it is up. -/
def Harvest.Agrees (x : Harvest) (d : Discovery) (table : List Neighbor) : Prop :=
  ∀ a ∈ table, ∀ b ∈ table, a.ip = b.ip → x.inRange a.ip = true → a.ip ∉ d.found →
    x.proves table a = x.proves table b

theorem Harvest.Agrees.perm (h : x.Agrees d table) (hperm : table'.Perm table) :
    x.Agrees d table' := by
  intro a ha b hb
  rw [Harvest.proves_perm hperm, Harvest.proves_perm hperm]
  exact h a (hperm.mem_iff.mp ha) b (hperm.mem_iff.mp hb)

/-- Where they agree, an address is queued exactly if it is not reported. -/
theorem Harvest.Agrees.queued_iff (h : x.Agrees d table) :
    x.Queued d table ip ↔ x.inRange ip = true ∧ ip ∉ d.found ∧
      ∃ e ∈ table, e.ip = ip ∧ x.proves table e = false := by
  rw [Harvest.queued_iff]
  refine and_congr_right fun hrange => and_congr_right fun hnew => ?_
  constructor
  · rintro ⟨e, hfind, hproves⟩
    exact ⟨e, List.mem_of_find?_eq_some hfind, by simpa using List.find?_some hfind, hproves⟩
  · rintro ⟨e, he, rfl, hproves⟩
    obtain ⟨first, hfind⟩ := Option.isSome_iff_exists.mp
      (List.find?_isSome.mpr ⟨e, he, decide_eq_true rfl⟩ :
        (table.find? fun e' => decide (e'.ip = e.ip)).isSome = true)
    have heq : first.ip = e.ip := by simpa using List.find?_some hfind
    refine ⟨first, hfind, ?_⟩
    rw [← h e he first (List.mem_of_find?_eq_some hfind) heq.symm hrange hnew]
    exact hproves

/-- A table whose rows agree is split as it is to be. -/
theorem Harvest.Agrees.splits (h : x.Agrees d table) : x.Splits d table where
  disjoint ip hreported hqueued := by
    obtain ⟨hrange, hnew, a, ha, rfl, hproves⟩ := Harvest.reported_iff.mp hreported
    obtain ⟨_, _, b, hb, heq, hnot⟩ := h.queued_iff.mp hqueued
    rw [← h a ha b hb heq.symm hrange hnew, hproves] at hnot
    simp at hnot
  once := Harvest.nodup_rows table d List.nodup_nil
  one e he hrange hnew := by
    cases hproves : x.proves table e with
    | true =>
      left
      refine ⟨Harvest.reported_iff.mpr ⟨hrange, hnew, e, he, rfl, hproves⟩, fun hqueued => ?_⟩
      obtain ⟨_, _, b, hb, heq, hnot⟩ := h.queued_iff.mp hqueued
      rw [← h e he b hb heq.symm hrange hnew, hproves] at hnot
      simp at hnot
    | false =>
      right
      refine ⟨fun hreported => ?_, h.queued_iff.mpr ⟨hrange, hnew, e, he, rfl, hproves⟩⟩
      obtain ⟨_, _, a, ha, heq, hyes⟩ := Harvest.reported_iff.mp hreported
      rw [← h e he a ha heq.symm hrange hnew, hproves] at hyes
      simp at hyes
  order table' hperm ip := by
    refine ⟨Harvest.reported_perm hperm, ?_⟩
    rw [(h.perm hperm).queued_iff, h.queued_iff]
    simp only [hperm.mem_iff, Harvest.proves_perm hperm]

/-- With the row that does not prove it in front, an address is queued. -/
theorem Harvest.queued_first {e : Neighbor} (he : e ∈ table) (hrange : x.inRange e.ip = true)
    (hnew : e.ip ∉ d.found) (hnot : x.proves table e = false) :
    x.Queued d (e :: table.erase e) e.ip := by
  rw [Harvest.queued_iff]
  refine ⟨hrange, hnew, e, by simp, ?_⟩
  rw [Harvest.proves_perm (List.perm_cons_erase he).symm]
  exact hnot

/--
**The split does not depend on the order of the rows exactly if they agree**: no address of the
range that is not found yet has one row that proves its host is up and another that does not.
-/
theorem harvest_splits_iff (x : Harvest) (d : Discovery) (table : List Neighbor) :
    x.Splits d table ↔ x.Agrees d table := by
  constructor
  · intro h a ha b hb heq hrange hnew
    -- a row of each kind: put the one that proves nothing in front
    have hboth : ∀ a ∈ table, ∀ b ∈ table, a.ip = b.ip → x.inRange a.ip = true →
        a.ip ∉ d.found → x.proves table a = true → x.proves table b = false → False := by
      intro a ha b hb heq hrange hnew hyes hnot
      rw [heq] at hrange hnew
      have hreported := Harvest.reported_iff.mpr ⟨hrange, hnew, a, ha, heq, hyes⟩
      have hfirst := Harvest.queued_first hb hrange hnew hnot
      exact h.disjoint b.ip hreported
        ((h.order _ (List.perm_cons_erase hb).symm b.ip).2.mp hfirst)
    cases hpa : x.proves table a with
    | true =>
      cases hpb : x.proves table b with
      | true => rfl
      | false => exact (hboth a ha b hb heq hrange hnew hpa hpb).elim
    | false =>
      cases hpb : x.proves table b with
      | false => rfl
      | true =>
        rw [heq] at hrange hnew
        exact (hboth b hb a ha heq.symm hrange hnew hpb hpa).elim
  · exact Harvest.Agrees.splits

/-- An address on two interfaces, stale on the first and reachable on the second: its host is
reported at once, and pinged as well. -/
theorem harvest_splits_two_interfaces :
    let wifi : Neighbor :=
      { ip := (192, 168, 1, 20)
        mac := some #v[2, 2, 2, 2, 2, 2]
        state := .stale }
    let cable : Neighbor := { wifi with state := .reachable }
    let x : Harvest :=
      { firstIp := (192, 168, 1, 1)
        lastIp := (192, 168, 1, 254)
        knownBefore := some [wifi] }
    x.Reported {} [wifi, cable] wifi.ip ∧ x.Queued {} [wifi, cable] wifi.ip ∧
      x.Reported {} [cable, wifi] wifi.ip ∧ ¬x.Queued {} [cable, wifi] wifi.ip ∧
      ¬x.Splits {} [wifi, cable] := by
  intro wifi cable x
  have hboth : x.Reported {} [wifi, cable] wifi.ip ∧ x.Queued {} [wifi, cable] wifi.ip := by
    unfold Harvest.Reported Harvest.Queued
    decide +kernel
  have hone : x.Reported {} [cable, wifi] wifi.ip ∧ ¬x.Queued {} [cable, wifi] wifi.ip := by
    unfold Harvest.Reported Harvest.Queued
    decide +kernel
  exact ⟨hboth.1, hboth.2, hone.1, hone.2, fun h => h.disjoint _ hboth.1 hboth.2⟩

end Order

/-! ## The scan's own loop -/

section Steps

variable {o : SubnetScan}

/-- The loop of a scan that has read `table`. -/
def SubnetScan.harvest (o : SubnetScan) (knownBefore : Option (List Neighbor)) : Harvest where
  firstIp := o.hosts.start
  lastIp := o.hosts.end
  knownBefore := knownBefore
  stream := o.output.stream

/-- A row out of range, or of a host already found, is passed over in one step. -/
theorem Scan.step_entries {s : Scan} {table rest : List Neighbor} {e : Neighbor} {queue : List Ip}
    (hstage : s.stage = .entries table (e :: rest) queue) :
    (scanNetwork o).step s (.main {}) = some { s with
      toDiscovery := s.toDiscovery.recordEntry e
      stage := if o.usable e.ip = false ∨ e.ip ∈ s.found then .entries table rest queue
        else .entry table e rest queue } := by
  have hfound : (s.toDiscovery.recordEntry e).isFound e.ip = true ↔ e.ip ∈ s.found := by simp
  unfold Discovery.recordEntry at hfound ⊢
  simp only [scanNetwork, Scan.move, Scan.mainMove, hstage, Scan.entryMove, Option.map_some]
  by_cases hpassed : o.usable e.ip = false ∨ e.ip ∈ s.found
  · rw [if_pos hpassed]
    cases hmac : e.mac <;> simp only [hmac] at hfound ⊢ <;>
      rw [if_pos (hpassed.imp_right hfound.mpr)] <;> rfl
  · rw [if_neg hpassed]
    cases hmac : e.mac <;> simp only [hmac] at hfound ⊢ <;>
      rw [if_neg fun h => hpassed (h.imp_right hfound.mp)] <;> rfl

/-- Any other is judged in the next. -/
theorem Scan.step_entry {s : Scan} {table rest : List Neighbor} {e : Neighbor} {queue : List Ip}
    (hstage : s.stage = .entry table e rest queue) :
    (scanNetwork o).step s (.main {}) =
      some (if (o.harvest s.knownBefore).proves table e then { s with
          toDiscovery := s.toDiscovery.reportHost o.output.stream
            { ip := e.ip, source := .arp, stored := true }
          stage := .entries table rest queue }
        else if containsIp queue e.ip then { s with stage := .entries table rest queue }
        else { s with stage := .entries table rest (queue ++ [e.ip]) }) := by
  have hproves : (o.harvest s.knownBefore).proves table e = true ↔ e.state = .reachable ∨
      resolvedDuringScan s.knownBefore table e o.hosts.start o.hosts.end = true := by
    unfold Harvest.proves
    rw [Bool.or_eq_true, decide_eq_true_eq]
    rfl
  simp only [scanNetwork, Scan.move, Scan.mainMove, hstage, Scan.splitMove, Option.map_some,
    hproves]
  split
  · rfl
  · simp only [Bool.true_eq_false, or_false]
    split <;> rfl

/-- The steps of the main thread for one row. -/
theorem Scan.exec_row {s : Scan} {table rest : List Neighbor} {e : Neighbor} {queue : List Ip}
    (hstage : s.stage = .entries table (e :: rest) queue) :
    ∃ n, (scanNetwork o).exec s (List.replicate n (.main {})) = some { s with
      toDiscovery := ((o.harvest s.knownBefore).row table (s.toDiscovery, queue) e).1
      stage := .entries table rest
        ((o.harvest s.knownBefore).row table (s.toDiscovery, queue) e).2 } := by
  have hentries := Scan.step_entries (o := o) hstage
  have husable : (o.harvest s.knownBefore).inRange e.ip = o.usable e.ip := rfl
  unfold Harvest.row
  rw [husable]
  simp only [Discovery.isFound_recordEntry, decide_eq_true_eq]
  by_cases hpassed : o.usable e.ip = false ∨ e.ip ∈ s.found
  · refine ⟨1, ?_⟩
    rw [if_pos hpassed] at hentries
    rw [List.replicate_one, Lts.exec_cons, hentries]
    rcases hpassed with hrange | hfound
    · rw [if_pos hrange]
      rfl
    · rw [if_pos hfound]
      split <;> rfl
  · refine ⟨2, ?_⟩
    rw [if_neg hpassed] at hentries
    rw [not_or] at hpassed
    rw [List.replicate_succ, List.replicate_one, Lts.exec_cons, hentries, Option.bind_some,
      Lts.exec_cons, Scan.step_entry rfl, Option.bind_some, Lts.exec_nil, if_neg hpassed.1,
      if_neg hpassed.2]
    split
    · rfl
    · split <;> rfl

/--
**The loop is the one the main thread runs**, when nothing else moves and there is memory: it
ends with the hosts found and the candidates that `harvest` gives.
-/
theorem Scan.exec_entries (table : List Neighbor) :
    ∀ (rows : List Neighbor) (queue : List Ip) (s : Scan), s.stage = .entries table rows queue →
      ∃ n, (scanNetwork o).exec s (List.replicate n (.main {})) = some { s with
        toDiscovery := (rows.foldl ((o.harvest s.knownBefore).row table) (s.toDiscovery, queue)).1
        stage := .entries table []
          (rows.foldl ((o.harvest s.knownBefore).row table) (s.toDiscovery, queue)).2 } := by
  intro rows
  induction rows with
  | nil =>
    intro queue s hstage
    refine ⟨0, ?_⟩
    rw [List.replicate_zero, Lts.exec_nil, List.foldl_nil, ← hstage]
  | cons e rows ih =>
    intro queue s hstage
    obtain ⟨n, hrow⟩ := Scan.exec_row (o := o) hstage
    obtain ⟨m, hrows⟩ := ih _ { s with
      toDiscovery := ((o.harvest s.knownBefore).row table (s.toDiscovery, queue) e).1
      stage := .entries table rows
        ((o.harvest s.knownBefore).row table (s.toDiscovery, queue) e).2 } rfl
    refine ⟨n + m, ?_⟩
    rw [List.replicate_add, Lts.exec_append, hrow, Option.bind_some, List.foldl_cons]
    exact hrows

/-- From the moment a scan has read the table. -/
theorem scanNetwork_harvest {s : Scan} {table : List Neighbor} (hstage : s.stage = .readAfter) :
    ∃ n, (scanNetwork o).exec s (.main { table := some table } :: List.replicate n (.main {})) =
      some { s with
        toDiscovery := ((o.harvest s.knownBefore).harvest table s.toDiscovery).1
        stage := .entries table []
          ((o.harvest s.knownBefore).harvest table s.toDiscovery).2 } := by
  have hread : (scanNetwork o).step s (.main { table := some table }) =
      some { s with stage := .entries table table [] } := by
    simp [scanNetwork, Scan.move, Scan.mainMove, hstage, Move.done]
  obtain ⟨n, hrows⟩ := Scan.exec_entries (o := o) table table []
    { s with stage := .entries table table [] } rfl
  refine ⟨n, ?_⟩
  rw [Lts.exec_cons, hread]
  exact hrows

end Steps

end NetScanner.Hosts
