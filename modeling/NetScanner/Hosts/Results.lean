import NetScanner.Hosts.Once

/-!
# The results of a subnet scan

The hosts found are sorted and printed once the sweep, the pings and the workers are over and the
listener has stopped (`Closed`), so the listing is the accounts of the whole scan. It depends on
the reports that were made, not on their order.
-/

namespace NetScanner.Hosts

open Connects Infra Names Neighbors Net Progress

variable {o : SubnetScan}

/-- The hosts of a scan, sorted, and the lines that tell of them. -/
structure Listing (o : SubnetScan) (found : List Ip) (lines : List ResultLine) : Prop where
  ascending : found.Pairwise fun a b => (ipToU32 a).toNat ≤ (ipToU32 b).toNat
  /-- Only the plain recap of `--json` does not list them again. -/
  lists : listed lines = found ∨ o.output.json = true ∧ listed lines = []
  counts : counts lines = [found.length]

theorem listing_printSummary {found : List Ip}
    (h : found.Pairwise fun a b => (ipToU32 a).toNat ≤ (ipToU32 b).toNat) :
    Listing o found (printSummary o found) := by
  unfold printSummary
  split
  · next hjson => exact ⟨h, Or.inr ⟨hjson, rfl⟩, rfl⟩
  · refine ⟨h, Or.inl ?_, ?_⟩
    · simp [listed, List.filterMap_map]
    · simp [counts, List.filterMap_map]

theorem listing_printDetails {d : Discovery} {lookups : Lookups}
    (h : d.found.Pairwise fun a b => (ipToU32 a).toNat ≤ (ipToU32 b).toNat) :
    Listing o d.found (printDetails (collectDetails d o lookups)) := by
  refine ⟨h, Or.inl ?_, ?_⟩
  · simp [printDetails, collectDetails, listed, List.filterMap_map, Function.comp_def]
  · simp [printDetails, collectDetails, counts, List.filterMap_map, Function.comp_def]

theorem reportResults_listing (d : Discovery) (lookups : Lookups) (allocated : Bool) :
    Listing o (reportResults d o lookups allocated).1.found
      (reportResults d o lookups allocated).2 := by
  have hsorted : (stableSort ipLessThan d.found).Pairwise
      fun a b => (ipToU32 a).toNat ≤ (ipToU32 b).toNat :=
    stableSort_sorted (fun a b => by simp [ipLessThan, UInt32.lt_iff_toNat_lt]) d.found
  unfold reportResults
  simp only []
  split
  · exact listing_printSummary hsorted
  · split
    · exact listing_printSummary hsorted
    · exact listing_printDetails hsorted

/-- The stages in which nobody reports any more. -/
def Stage.closing : Stage → Bool
  | .results => true
  | .returned _ => true
  | _ => false

/-- When the results are made, the listener is not there any more. -/
structure Scan.Closed (o : SubnetScan) (s : Scan) : Prop where
  silent : s.stage.closing = true → s.listener = .off ∨ s.listener = .ended
  listing : ∀ lines, s.stage = .returned lines → Listing o s.found lines

theorem Scan.closed_of_not_closing {s : Scan} (h : s.stage.closing = false) : s.Closed o := by
  constructor
  · intro hclosing
    rw [h] at hclosing
    simp at hclosing
  · intro lines hlines
    rw [hlines] at h
    simp [Stage.closing] at h

section Moves

variable {s : Scan} {m : Move}

theorem Scan.listenerMove_stage {env : ListenerEnv} (hm : s.listenerMove o env = some m) :
    m.scan.stage = s.stage := by
  unfold Scan.listenerMove at hm
  split at hm
  · simp at hm
  · cases hm
    rfl
  · split at hm
    · cases hm
      rfl
    · cases hm
      rfl
    · split at hm
      · cases hm
        rfl
      · split at hm <;> cases hm <;> rfl
  · cases hm
    rfl
  · split at hm <;> cases hm <;> rfl
  · simp at hm

/-- A scan that is over has no more reports, and nothing but counting left to do. -/
theorem Scan.Closed.other {label : ScanLabel} (h : s.Closed o) (hm : s.move o label = some m)
    (hmain : ∀ env, label ≠ .main env) :
    m.scan.stage.closing = false ∨
      m.scan.stage = s.stage ∧ m.scan.listener = s.listener ∧ m.scan.found = s.found ∧
        m.report = none := by
  cases label with
  | main env => exact absurd rfl (hmain env)
  | listener env =>
    left
    rw [Scan.listenerMove_stage hm, Bool.eq_false_iff]
    intro hclosing
    rcases h.silent hclosing with hoff | hended
    · simp [Scan.move, Scan.listenerMove, hoff] at hm
    · simp [Scan.move, Scan.listenerMove, hended] at hm
  | next stop =>
    left
    simp only [Scan.move] at hm
    unfold Scan.nextMove at hm
    split at hm
    · split at hm <;> cases hm <;> rfl
    · simp at hm
  | verdict probe outcome stored =>
    left
    simp only [Scan.move] at hm
    unfold Scan.verdictMove at hm
    split at hm
    · split at hm
      · cases hm
        rfl
      · simp at hm
    · simp at hm
  | pinged index answered stored =>
    left
    simp only [Scan.move] at hm
    unfold Scan.pingedMove at hm
    split at hm
    · split at hm
      · cases hm
        rfl
      · simp at hm
    · simp at hm
  | worker i env =>
    left
    simp only [Scan.move] at hm
    unfold Scan.workerMove at hm
    split at hm
    · split at hm
      · simp at hm
      · split at hm
        · cases hm
          rfl
        · split at hm <;> cases hm <;> rfl
      · split at hm <;> cases hm <;> rfl
      · cases hm
        rfl
      · simp at hm
    · simp at hm
  | count =>
    right
    simp only [Scan.move] at hm
    unfold Scan.countMove at hm
    split at hm
    · simp at hm
    · cases hm
      exact ⟨rfl, rfl, rfl, rfl⟩
  | claim =>
    right
    simp only [Scan.move] at hm
    unfold Scan.claimMove at hm
    split at hm
    · simp at hm
    · cases hm
      exact ⟨rfl, rfl, rfl, rfl⟩

/-- The main thread makes the results after the listener has stopped. -/
theorem Scan.Closed.main {env : MainEnv} (h : s.Closed o) (hm : s.mainMove o env = some m) :
    (m.done o).Closed o := by
  unfold Scan.mainMove at hm
  split at hm
  · cases hm
    refine Scan.closed_of_not_closing ?_
    rw [Move.done_stage]
    show (if env.stored = true then Stage.listen else Stage.failed).closing = false
    split <;> rfl
  · cases hm
    exact Scan.closed_of_not_closing rfl
  · cases hm
    exact Scan.closed_of_not_closing rfl
  · split at hm
    · cases hm
      exact Scan.closed_of_not_closing rfl
    · simp at hm
  · cases hm
    exact Scan.closed_of_not_closing rfl
  · split at hm <;> cases hm <;> exact Scan.closed_of_not_closing rfl
  · next table entry rest candidates _ =>
    cases hm
    refine Scan.closed_of_not_closing ?_
    rw [Move.done_stage]
    unfold Scan.entryMove
    cases entry.mac with
    | none =>
      simp only []
      split <;> rfl
    | some mac =>
      simp only []
      split <;> rfl
  · split at hm <;> cases hm <;> exact Scan.closed_of_not_closing rfl
  · next table entry rest candidates _ =>
    cases hm
    refine Scan.closed_of_not_closing ?_
    rw [Move.done_stage]
    unfold Scan.splitMove
    split
    · rfl
    · split <;> rfl
  · next candidates waiting alive _ =>
    split at hm
    · cases hm
      refine Scan.closed_of_not_closing ?_
      rw [Move.done_stage]
      unfold Scan.pingedAll
      simp only []
      split <;> rfl
    · simp at hm
  · split at hm
    · cases hm
      exact Scan.closed_of_not_closing rfl
    · simp at hm
  · cases hm
    cases s.listener with
    | off => exact ⟨fun _ => Or.inl rfl, by simp [Move.done]⟩
    | _ => exact Scan.closed_of_not_closing rfl
  · split at hm
    · next hended =>
      cases hm
      exact ⟨fun _ => Or.inr hended, by simp [Move.done]⟩
    · simp at hm
  · next hstage =>
    cases hm
    refine ⟨fun _ => h.silent (by rw [hstage]; rfl), ?_⟩
    intro lines hlines
    cases hlines
    exact reportResults_listing _ _ _
  · simp at hm
  · simp at hm

theorem Scan.Closed.done {label : ScanLabel} (h : s.Closed o) (hm : s.move o label = some m) :
    (m.done o).Closed o := by
  by_cases hmain : ∃ env, label = .main env
  · obtain ⟨env, rfl⟩ := hmain
    exact h.main hm
  · rcases h.other hm (fun env heq => hmain ⟨env, heq⟩) with
      hclosing | ⟨hstage, hlistener, hfound, hnone⟩
    · refine Scan.closed_of_not_closing ?_
      rw [Move.done_stage]
      exact hclosing
    · rw [Move.done_of_none hnone]
      refine ⟨?_, ?_⟩
      · rw [hstage, hlistener]
        exact h.silent
      · rw [hstage, hfound]
        exact h.listing

end Moves

theorem Scan.closed {s : Scan} (h : (scanNetwork o).Reachable s) : s.Closed o := by
  refine h.invariant (I := Scan.Closed o) ?_ ?_
  · rintro s rfl
    exact Scan.closed_of_not_closing rfl
  · intro s label s' _ hclosed hs
    obtain ⟨m, hm, rfl⟩ := scanNetwork_step hs
    exact hclosed.done hm

/-- What a scan has told of the hosts, at any moment. -/
structure ReportedOnce (o : SubnetScan) (s : Scan) : Prop where
  usable : ∀ ip ∈ hostEvents s.events, o.usable ip = true
  once : (hostEvents s.events).Nodup
  /-- With `stream_results` off there are no `host` events. -/
  counted : o.output.stream = true → s.tracker.found = (hostEvents s.events).length
  summary : ∀ lines, s.stage = .returned lines → counts lines = [s.tracker.found]
  ascending : ∀ lines, s.stage = .returned lines →
    s.found.Pairwise fun a b => ipToU32 a < ipToU32 b
  listing : ∀ lines, s.stage = .returned lines →
    listed lines = s.found ∨ o.output.json = true ∧ listed lines = []

theorem Scan.ascending {s : Scan} {reports : List Report} {lines : List ResultLine}
    (htallied : s.Tallied o reports) (hlisting : Listing o s.found lines) :
    s.found.Pairwise fun a b => ipToU32 a < ipToU32 b := by
  refine (hlisting.ascending.and htallied.nodup).imp ?_
  rintro a b ⟨hle, hne⟩
  rw [UInt32.lt_iff_toNat_lt]
  refine Nat.lt_of_le_of_ne hle fun heq => hne ?_
  exact ipToU32_injective (UInt32.toNat_inj.mp heq)

/-- Two sorted lists of the same addresses are the same list. -/
theorem eq_of_ascending {as bs : List Ip} (has : as.Pairwise fun a b => ipToU32 a < ipToU32 b)
    (hbs : bs.Pairwise fun a b => ipToU32 a < ipToU32 b) (hmem : ∀ ip, ip ∈ as ↔ ip ∈ bs) :
    as = bs := by
  have hnodup : ∀ {l : List Ip}, (l.Pairwise fun a b => ipToU32 a < ipToU32 b) → l.Nodup := by
    intro l hl
    refine hl.imp ?_
    rintro a b hlt rfl
    simp at hlt
  have hperm : as.Perm bs := (List.perm_ext_iff_of_nodup (hnodup has) (hnodup hbs)).mpr hmem
  refine hperm.eq_of_pairwise ?_ has hbs
  intro a b _ _ hab hba
  rw [UInt32.lt_iff_toNat_lt] at hab hba
  omega

/--
**Subnet discovery reports each host once, in range, whatever the race**: in every state of every
run, and two scans of a subnet that made the same reports, in any order, list the same hosts.
-/
theorem hosts_reported_once (o : SubnetScan) :
    (∀ s, (scanNetwork o).Reachable s → ReportedOnce o s) ∧
    ∀ s s' reports reports' lines lines',
      ((scanNetwork o).watch [] (noteReport o)).Reachable (s, reports) →
      ((scanNetwork o).watch [] (noteReport o)).Reachable (s', reports') →
      s.stage = .returned lines → s'.stage = .returned lines' → reports.Perm reports' →
      s.found = s'.found := by
  constructor
  · intro s h
    obtain ⟨reports, hwatched⟩ := h.watched [] (noteReport o)
    obtain ⟨_, htallied⟩ := Scan.tallied hwatched
    have hclosed := Scan.closed h
    have hevents : ∀ ip ∈ hostEvents s.events, ip ∈ s.found := by
      intro ip hip
      have hmem := htallied.streamed.subset hip
      split at hmem
      · exact hmem
      · simp at hmem
    refine ⟨fun ip hip => htallied.usable ip (hevents ip hip), ?_, ?_, ?_, ?_, ?_⟩
    · refine htallied.streamed.nodup_iff.mpr ?_
      split
      · exact htallied.nodup
      · exact List.nodup_nil
    · intro hstream
      rw [htallied.counted, htallied.streamed.length_eq, if_pos hstream]
    · intro lines hlines
      rw [(hclosed.listing lines hlines).counts, htallied.counted]
    · exact fun lines hlines => Scan.ascending htallied (hclosed.listing lines hlines)
    · exact fun lines hlines => (hclosed.listing lines hlines).lists
  · intro s s' reports reports' lines lines' h h' hlines hlines' hperm
    obtain ⟨_, htallied⟩ := Scan.tallied h
    obtain ⟨_, htallied'⟩ := Scan.tallied h'
    refine eq_of_ascending (Scan.ascending htallied ((Scan.closed h.unwatch).listing lines hlines))
      (Scan.ascending htallied' ((Scan.closed h'.unwatch).listing lines' hlines')) fun ip => ?_
    rw [htallied.reported, htallied'.reported]
    constructor
    · rintro ⟨r, hr, hip⟩
      exact ⟨r, hperm.subset hr, hip⟩
    · rintro ⟨r, hr, hip⟩
      exact ⟨r, hperm.symm.subset hr, hip⟩

/-- The results of a scan that has returned. -/
def Stage.lines? : Stage → Option (List ResultLine)
  | .returned lines => some lines
  | _ => none

theorem Stage.of_lines? {stage : Stage} {lines : List ResultLine}
    (h : stage.lines? = some lines) : stage = .returned lines := by
  cases stage <;> simp_all [Stage.lines?]

/-- Two scans of a subnet with two hosts. In one the listener hears a host before the sweep reaches
it, in the other after; both list the two hosts in order. -/
theorem hosts_reported_once_pair :
    let o : SubnetScan :=
      { network :=
          { address := (10, 0, 0, 0)
            prefixLen := 30
            prefixLen_le := by decide }
        output :=
          { stream := true
            json := false } }
    ∃ s s' reports reports' lines lines',
      ((scanNetwork o).watch [] (noteReport o)).Reachable (s, reports) ∧
      ((scanNetwork o).watch [] (noteReport o)).Reachable (s', reports') ∧
      s.stage = .returned lines ∧ s'.stage = .returned lines' ∧
      reports.Perm reports' ∧ reports ≠ reports' ∧
      listed lines = [(10, 0, 0, 1), (10, 0, 0, 2)] ∧ ReportedOnce o s ∧ s.found = s'.found := by
  intro o
  let start : List ScanLabel := [.main {}, .main {}, .main {}]
  let hear : List ScanLabel := [.listener {},
    .listener { received := .datagram (10, 0, 0, 2) (ascii "HTTP/1.1 200 OK") }, .listener {}]
  let sweep : List ScanLabel := [.next false, .next false,
    .verdict (hostProbe (10, 0, 0, 2)) .refused true,
    .verdict (hostProbe (10, 0, 0, 1)) .open true, .count, .count, .next false]
  let finish : List ScanLabel := [.main {}, .main {}, .main {}, .main {}, .listener {},
    .main {}, .main {}]
  have hend : (((scanNetwork o).watch [] (noteReport o)).exec ({}, [])
      (start ++ hear ++ sweep ++ finish)).map
      (fun w => (w.1.stage.lines?, w.2)) =
        some (some [.host (10, 0, 0, 1), .host (10, 0, 0, 2), .summary 2],
          [⟨(10, 0, 0, 2), .ssdp, true⟩, ⟨(10, 0, 0, 2), .tcp, true⟩,
            ⟨(10, 0, 0, 1), .tcp, true⟩]) := by
    decide +kernel
  have hend' : (((scanNetwork o).watch [] (noteReport o)).exec ({}, [])
      (start ++ sweep ++ hear ++ finish)).map
      (fun w => (w.1.stage.lines?, w.2)) =
        some (some [.host (10, 0, 0, 1), .host (10, 0, 0, 2), .summary 2],
          [⟨(10, 0, 0, 2), .tcp, true⟩, ⟨(10, 0, 0, 1), .tcp, true⟩,
            ⟨(10, 0, 0, 2), .ssdp, true⟩]) := by
    decide +kernel
  obtain ⟨⟨s, reports⟩, hexec, hval⟩ := Option.map_eq_some_iff.mp hend
  obtain ⟨⟨s', reports'⟩, hexec', hval'⟩ := Option.map_eq_some_iff.mp hend'
  obtain ⟨hlines, hreports⟩ := Prod.mk.inj hval
  obtain ⟨hlines', hreports'⟩ := Prod.mk.inj hval'
  have hrun : ((scanNetwork o).watch [] (noteReport o)).Reachable (s, reports) :=
    ⟨({}, []), _, ⟨rfl, rfl⟩, hexec⟩
  have hrun' : ((scanNetwork o).watch [] (noteReport o)).Reachable (s', reports') :=
    ⟨({}, []), _, ⟨rfl, rfl⟩, hexec'⟩
  have hperm : reports.Perm reports' := by
    simp only [] at hreports hreports'
    rw [hreports, hreports']
    decide
  have hne : reports ≠ reports' := by
    simp only [] at hreports hreports'
    rw [hreports, hreports']
    decide
  obtain ⟨honce, hsame⟩ := hosts_reported_once o
  exact ⟨s, s', reports, reports', _, _, hrun, hrun', Stage.of_lines? hlines,
    Stage.of_lines? hlines', hperm, hne, rfl, honce s hrun.unwatch,
    hsame s s' reports reports' _ _ hrun hrun' (Stage.of_lines? hlines)
      (Stage.of_lines? hlines') hperm⟩

end NetScanner.Hosts
