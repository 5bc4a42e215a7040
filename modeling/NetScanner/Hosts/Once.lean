import NetScanner.Hosts.Scan
import Mathlib.Data.List.Perm.Subperm

/-!
# Each host is reported once

Whatever the order in which the TCP sweep, the multicast listener, the ARP harvest and its
confirmations report hosts: what they are about to report is a host of the subnet (`Aimed`), the
steps around the reports leave the hosts found alone (`Steady`), and `reportHost` keeps the
accounts (`Tallied`). The results are made when nobody reports any more (`Closed`).
-/

namespace NetScanner.Hosts

open Connects Infra Names Neighbors Net Progress

variable {o : SubnetScan}

@[simp] theorem hostEvents_append (as bs : List DiscoveryEvent) :
    hostEvents (as ++ bs) = hostEvents as ++ hostEvents bs := List.filterMap_append

theorem hostEvents_progress (events : List ProgressEvent) :
    hostEvents (events.map .progress) = [] := by
  simp [hostEvents, List.filterMap_map]

/-! ## One report -/

/-- The accounts of a discovery, after some reports. -/
structure Discovery.Tallied (o : SubnetScan) (d : Discovery) (reports : List Report) : Prop where
  usable : ∀ ip ∈ d.found, o.usable ip = true
  nodup : d.found.Nodup
  counted : d.tracker.found = d.found.length
  streamed : (hostEvents d.events).Perm (if o.output.stream then d.found else [])
  reported : ∀ ip, ip ∈ d.found ↔ ∃ r ∈ reports, r.ip = ip ∧ r.stored = true

theorem Discovery.Tallied.start (o : SubnetScan) : Discovery.Tallied o {} [] where
  usable := by simp
  nodup := List.nodup_nil
  counted := rfl
  streamed := by simp [hostEvents]
  reported := by simp

/-- **`reportHost` keeps the accounts.** -/
theorem Discovery.Tallied.reportHost {d : Discovery} {reports : List Report}
    (h : d.Tallied o reports) {r : Report} (husable : o.usable r.ip = true) :
    (d.reportHost o.output.stream r).Tallied o (reports ++ [r]) := by
  have hsame : (∀ ip, r.ip = ip ∧ r.stored = true → ip ∈ d.found) →
      d.Tallied o (reports ++ [r]) := by
    intro hknown
    refine ⟨h.usable, h.nodup, h.counted, h.streamed, fun ip => ?_⟩
    rw [h.reported]
    constructor
    · rintro ⟨r', hr', hip⟩
      exact ⟨r', List.mem_append_left _ hr', hip⟩
    · rintro ⟨r', hr', hip⟩
      rcases List.mem_append.mp hr' with hr' | hr'
      · exact ⟨r', hr', hip⟩
      · rw [List.mem_singleton] at hr'
        subst hr'
        exact (h.reported ip).mp (hknown ip hip)
  unfold Discovery.reportHost
  split
  · next hfound =>
    refine hsame fun ip hip => ?_
    rw [← hip.1]
    exact hfound
  · next hnew =>
    split
    · next hfull =>
      refine hsame fun ip hip => ?_
      simp [hfull] at hip
    · next hstored =>
      refine ⟨?_, ?_, ?_, ?_, fun ip => ?_⟩
      · intro ip hip
        rcases List.mem_append.mp hip with hip | hip
        · exact h.usable ip hip
        · rw [List.mem_singleton.mp hip]
          exact husable
      · refine h.nodup.append (List.nodup_singleton _) ?_
        intro ip hip hip'
        rw [List.mem_singleton.mp hip'] at hip
        exact hnew hip
      · show d.tracker.found + 1 = _
        rw [h.counted, List.length_append, List.length_singleton]
      · have hstreamed := h.streamed
        show (hostEvents (if o.output.stream then _ else _)).Perm _
        cases hstream : o.output.stream with
        | false => simpa [hstream] using hstreamed
        | true =>
          simp only [hstream, if_true, hostEvents_append] at hstreamed ⊢
          exact hstreamed.append_right [r.ip]
      · rw [List.mem_append, h.reported, List.mem_singleton]
        simp only [List.mem_append, List.mem_singleton]
        constructor
        · rintro (⟨r', hr', hip⟩ | rfl)
          · exact ⟨r', Or.inl hr', hip⟩
          · exact ⟨r, Or.inr rfl, rfl, by simpa using hstored⟩
        · rintro ⟨r', hr' | rfl, hip⟩
          · exact Or.inl ⟨r', hr', hip⟩
          · exact Or.inr hip.1.symm

/-- What leaves the hosts found alone. -/
structure Discovery.Steady (d d' : Discovery) : Prop where
  found : d'.found.Perm d.found
  counted : d'.tracker.found = d.tracker.found
  events : hostEvents d'.events = hostEvents d.events

theorem Discovery.Steady.refl (d : Discovery) : d.Steady d := ⟨List.Perm.refl _, rfl, rfl⟩

theorem Discovery.Tallied.steady {d d' : Discovery} {reports : List Report}
    (h : d.Tallied o reports) (hsteady : d.Steady d') : d'.Tallied o reports where
  usable ip hip := h.usable ip (hsteady.found.subset hip)
  nodup := hsteady.found.nodup_iff.mpr h.nodup
  counted := by rw [hsteady.counted, h.counted, hsteady.found.length_eq]
  streamed := by
    rw [hsteady.events]
    refine h.streamed.trans ?_
    split
    · exact hsteady.found.symm
    · exact List.Perm.refl _
  reported ip := by rw [hsteady.found.mem_iff, h.reported]

theorem Discovery.recordMac_steady (d : Discovery) (ip : Ip) (mac : Mac) (stored : Bool) :
    d.Steady (d.recordMac ip mac stored) := by
  unfold Discovery.recordMac
  split <;> exact ⟨List.Perm.refl _, rfl, rfl⟩

theorem Discovery.putName_steady (d : Discovery) (ip : Ip) (name : Bytes) (stored : Bool) :
    d.Steady (d.putName ip name stored) := by
  unfold Discovery.putName
  split <;> exact ⟨List.Perm.refl _, rfl, rfl⟩

theorem reportResults_steady (d : Discovery) (lookups : Lookups) (allocated : Bool) :
    d.Steady (reportResults d o lookups allocated).1 := by
  have hsorted : d.Steady { d with found := stableSort ipLessThan d.found } :=
    ⟨stableSort_perm _, rfl, rfl⟩
  unfold reportResults
  simp only []
  split
  · exact hsorted
  · split <;> exact hsorted

/-! ## What is about to be reported -/

/-- An address the main thread, `connects.run` or a worker may still report. -/
def Stage.About (ip : Ip) : Stage → Prop
  | .sweep _ out _ => ∃ probe ∈ out, probe.ip = ip
  | .entries _ _ candidates => ip ∈ candidates
  | .entry _ e _ candidates => ip = e.ip ∨ ip ∈ candidates
  | .ping candidates _ _ => ip ∈ candidates
  | .sendArp targets _ workers =>
    ip ∈ targets ∨ ArpWorker.asking ip ∈ workers ∨ ArpWorker.reporting ip ∈ workers
  | _ => False

/-- An address the listener is about to report. -/
def Listener.About (ip : Ip) : Listener → Prop
  | .heard «from» _ _ => ip = «from»
  | _ => False

/-- Whatever may still be reported is a host of the subnet. -/
structure Scan.Aimed (o : SubnetScan) (s : Scan) : Prop where
  stage : ∀ ip, s.stage.About ip → o.usable ip = true
  listener : ∀ ip, s.listener.About ip → o.usable ip = true

/-- A step that reports nothing but hosts of the subnet, and leaves the hosts found alone. -/
structure Move.Sound (o : SubnetScan) (s : Scan) (m : Move) : Prop where
  steady : s.Steady m.scan.toDiscovery
  aimed : m.scan.Aimed o
  report : ∀ r, m.report = some r → o.usable r.ip = true

/-- **The addresses of the sweep are hosts of the subnet.** -/
theorem usable_of_mem_targets {ip : Ip} (h : ip ∈ o.targets) : o.usable ip = true :=
  (mem_collectIps (usableHosts_le o.network) ip).mp h

section Moves

variable {s : Scan} {m : Move}

theorem Scan.listenerMove_sound {env : ListenerEnv} (h : s.Aimed o)
    (hm : s.listenerMove o env = some m) : m.Sound o s := by
  have hquiet : ∀ listener : Listener, (∀ ip, ¬listener.About ip) →
      Move.Sound o s { scan := { s with listener := listener } } := by
    intro listener hnone
    exact ⟨Discovery.Steady.refl _, ⟨h.stage, fun ip hip => absurd hip (hnone ip)⟩, by simp⟩
  unfold Scan.listenerMove at hm
  split at hm
  · simp at hm
  · cases hm
    exact hquiet _ fun ip => by split <;> exact id
  · next hlistener =>
    split at hm
    · cases hm
      exact hquiet _ fun _ => id
    · cases hm
      exact hquiet _ fun _ => id
    · next «from» data _ =>
      split at hm
      · cases hm
        exact hquiet _ fun _ => id
      · next husable =>
        split at hm
        · cases hm
          exact hquiet _ fun _ => id
        · cases hm
          refine ⟨Discovery.Steady.refl _, ⟨h.stage, ?_⟩, by simp⟩
          intro ip hip
          rw [show ip = «from» from hip]
          simpa using husable
  · next «from» kind data hlistener =>
    cases hm
    refine ⟨Discovery.Steady.refl _, ⟨h.stage, ?_⟩, ?_⟩
    · intro ip hip
      cases kind <;> exact absurd hip id
    · intro r hr
      cases hr
      exact h.listener «from» (by rw [hlistener]; rfl)
  · next «from» data hlistener =>
    split at hm
    · cases hm
      exact hquiet _ fun _ => id
    · next name _ =>
      cases hm
      exact ⟨s.putName_steady «from» name env.stored, ⟨h.stage, by simp [Listener.About]⟩, by simp⟩
  · simp at hm

theorem Scan.nextMove_sound {stop : Bool} (h : s.Aimed o) (hm : s.nextMove o stop = some m) :
    m.Sound o s := by
  unfold Scan.nextMove at hm
  split at hm
  · next index out dry hstage =>
    have hout : ∀ ip, (∃ probe ∈ out, probe.ip = ip) → o.usable ip = true := by
      intro ip hip
      exact h.stage ip (by rw [hstage]; exact hip)
    split at hm
    · cases hm
      exact ⟨Discovery.Steady.refl _, ⟨hout, h.listener⟩, by simp⟩
    · next probe index' hnext =>
      cases hm
      refine ⟨Discovery.Steady.refl _, ⟨?_, h.listener⟩, by simp⟩
      rintro ip ⟨probe', hmem, hip⟩
      rcases Multiset.mem_cons.mp hmem with rfl | hmem
      · unfold sweepNext at hnext
        split at hnext
        · simp at hnext
        · next target htarget =>
          split at hnext
          · simp at hnext
          · cases hnext
            rw [← hip]
            exact usable_of_mem_targets (List.mem_of_getElem? htarget)
      · exact hout ip ⟨probe', hmem, hip⟩
  · simp at hm

theorem Scan.verdictMove_sound {probe : Target} {outcome : Outcome} {stored : Bool}
    (h : s.Aimed o) (hm : s.verdictMove probe outcome stored = some m) : m.Sound o s := by
  unfold Scan.verdictMove at hm
  split at hm
  · next index out dry hstage =>
    have hout : ∀ ip, (∃ probe ∈ out, probe.ip = ip) → o.usable ip = true := by
      intro ip hip
      exact h.stage ip (by rw [hstage]; exact hip)
    split at hm
    · next hmem =>
      cases hm
      refine ⟨Discovery.Steady.refl _, ⟨?_, h.listener⟩, ?_⟩
      · rintro ip ⟨probe', hmem', hip⟩
        exact hout ip ⟨probe', Multiset.mem_of_mem_erase hmem', hip⟩
      · intro r hr
        simp only [Option.ite_none_right_eq_some] at hr
        cases hr.2
        exact hout probe.ip ⟨probe, hmem, rfl⟩
    · simp at hm
  · simp at hm

theorem Scan.pingedMove_sound {index : Nat} {answered stored : Bool} (h : s.Aimed o)
    (hm : s.pingedMove o index answered stored = some m) : m.Sound o s := by
  unfold Scan.pingedMove at hm
  split at hm
  · next candidates waiting alive hstage =>
    have hcandidates : ∀ ip ∈ candidates, o.usable ip = true := by
      intro ip hip
      exact h.stage ip (by rw [hstage]; exact hip)
    split at hm
    · cases hm
      refine ⟨Discovery.Steady.refl _, ⟨hcandidates, h.listener⟩, ?_⟩
      intro r hr
      simp only [Option.ite_none_right_eq_some, Option.map_eq_some_iff] at hr
      obtain ⟨_, ip, hip, rfl⟩ := hr
      exact hcandidates ip (List.mem_of_getElem? hip)
    · simp at hm
  · simp at hm

theorem Scan.workerMove_sound {i : Nat} {env : WorkerEnv} (h : s.Aimed o)
    (hm : s.workerMove i env = some m) : m.Sound o s := by
  unfold Scan.workerMove at hm
  split at hm
  · next targets next workers hstage =>
    have habout : ∀ ip, (Stage.sendArp targets next workers).About ip → o.usable ip = true := by
      rw [← hstage]
      exact h.stage
    -- a worker goes on to an address only from the targets or from where it was
    have hset : ∀ next' worker, (∀ ip, worker = .asking ip ∨ worker = .reporting ip →
        o.usable ip = true) → ∀ ip,
        (Stage.sendArp targets next' (workers.set i worker)).About ip → o.usable ip = true := by
      rintro next' worker hworker ip (hip | hip | hip)
      · exact habout ip (Or.inl hip)
      · rcases List.mem_or_eq_of_mem_set hip with hip | hip
        · exact habout ip (Or.inr (Or.inl hip))
        · exact hworker ip (Or.inl hip.symm)
      · rcases List.mem_or_eq_of_mem_set hip with hip | hip
        · exact habout ip (Or.inr (Or.inr hip))
        · exact hworker ip (Or.inr hip.symm)
    split at hm
    · simp at hm
    · split at hm
      · cases hm
        exact ⟨Discovery.Steady.refl _, ⟨hset _ _ (by simp), h.listener⟩, by simp⟩
      · split at hm
        · cases hm
          exact ⟨Discovery.Steady.refl _, ⟨hset _ _ (by simp), h.listener⟩, by simp⟩
        · next ip htarget =>
          cases hm
          refine ⟨Discovery.Steady.refl _, ⟨hset _ _ ?_, h.listener⟩, by simp⟩
          rintro ip' (hip | hip)
          · cases hip
            exact habout ip (Or.inl (List.mem_of_getElem? htarget))
          · simp at hip
    · next ip hworker =>
      have hip : o.usable ip = true := habout ip (Or.inr (Or.inl (List.mem_of_getElem? hworker)))
      split at hm
      · cases hm
        exact ⟨Discovery.Steady.refl _, ⟨hset _ _ (by simp), h.listener⟩, by simp⟩
      · next mac _ =>
        cases hm
        refine ⟨s.recordMac_steady ip mac env.recorded, ⟨hset _ _ ?_, h.listener⟩, by simp⟩
        rintro ip' (hip' | hip')
        · simp at hip'
        · cases hip'
          exact hip
    · next ip hworker =>
      cases hm
      refine ⟨Discovery.Steady.refl _, ⟨hset _ _ (by simp), h.listener⟩, ?_⟩
      intro r hr
      cases hr
      exact habout ip (Or.inr (Or.inr (List.mem_of_getElem? hworker)))
    · simp at hm
  · simp at hm

theorem Scan.entryMove_sound {env : MainEnv} {table rest : List Neighbor} {entry : Neighbor}
    {candidates : List Ip} (h : s.Aimed o) (hcandidates : ∀ ip ∈ candidates, o.usable ip = true) :
    Move.Sound o s { scan := s.entryMove o env table entry rest candidates } := by
  unfold Scan.entryMove
  cases entry.mac with
  | none =>
    simp only []
    split
    · exact ⟨Discovery.Steady.refl _, ⟨hcandidates, h.listener⟩, by simp⟩
    · next hin =>
      refine ⟨Discovery.Steady.refl _, ⟨?_, h.listener⟩, by simp⟩
      rintro ip (rfl | hip)
      · simpa using (not_or.mp hin).1
      · exact hcandidates ip hip
  | some mac =>
    simp only []
    split
    · exact ⟨s.recordMac_steady entry.ip mac env.recorded, ⟨hcandidates, h.listener⟩, by simp⟩
    · next hin =>
      refine ⟨s.recordMac_steady entry.ip mac env.recorded, ⟨?_, h.listener⟩, by simp⟩
      rintro ip (rfl | hip)
      · simpa using (not_or.mp hin).1
      · exact hcandidates ip hip

theorem Scan.splitMove_sound {env : MainEnv} {table rest : List Neighbor} {entry : Neighbor}
    {candidates : List Ip} (h : s.Aimed o) (hentry : o.usable entry.ip = true)
    (hcandidates : ∀ ip ∈ candidates, o.usable ip = true) :
    (s.splitMove o env table entry rest candidates).Sound o s := by
  unfold Scan.splitMove
  split
  · refine ⟨Discovery.Steady.refl _, ⟨hcandidates, h.listener⟩, ?_⟩
    intro r hr
    cases hr
    exact hentry
  · split
    · exact ⟨Discovery.Steady.refl _, ⟨hcandidates, h.listener⟩, by simp⟩
    · refine ⟨Discovery.Steady.refl _, ⟨?_, h.listener⟩, by simp⟩
      intro ip hip
      rcases List.mem_append.mp hip with hip | hip
      · exact hcandidates ip hip
      · rw [List.mem_singleton.mp hip]
        exact hentry

theorem Scan.pingedAll_sound {env : MainEnv} {candidates : List Ip} {alive : Nat → Bool}
    (h : s.Aimed o) (hcandidates : ∀ ip ∈ candidates, o.usable ip = true) :
    Move.Sound o s { scan := s.pingedAll o env candidates alive } := by
  unfold Scan.pingedAll
  simp only []
  split
  · exact ⟨Discovery.Steady.refl _, ⟨fun _ hip => absurd hip id, h.listener⟩, by simp⟩
  · refine ⟨Discovery.Steady.refl _, ⟨?_, h.listener⟩, by simp⟩
    rintro ip (hip | hip | hip)
    · obtain ⟨⟨ip', i⟩, hmem, hip⟩ := List.mem_filterMap.mp hip
      simp only [Option.ite_none_right_eq_some, Option.some.injEq] at hip
      rw [← hip.2]
      exact hcandidates ip' (List.fst_mem_of_mem_zipIdx hmem)
    · simp [List.mem_replicate] at hip
    · simp [List.mem_replicate] at hip

theorem Scan.mainMove_sound {env : MainEnv} (h : s.Aimed o)
    (hm : s.mainMove o env = some m) : m.Sound o s := by
  have hquiet : ∀ s' : Scan, s.Steady s'.toDiscovery → (∀ ip, ¬s'.stage.About ip) →
      (∀ ip, ¬s'.listener.About ip) ∨ s'.listener = s.listener → Move.Sound o s { scan := s' } := by
    intro s' hsteady hstage hlistener
    refine ⟨hsteady, ⟨fun ip hip => absurd hip (hstage ip), ?_⟩, by simp⟩
    intro ip hip
    rcases hlistener with hnone | heq
    · exact absurd hip (hnone ip)
    · exact h.listener ip (heq ▸ hip)
  have hrefl := Discovery.Steady.refl s.toDiscovery
  unfold Scan.mainMove at hm
  split at hm
  · cases hm
    exact hquiet _ hrefl (fun ip => by split <;> exact id) (Or.inr rfl)
  · cases hm
    exact hquiet _ hrefl (fun _ => id) (Or.inl fun ip => by split <;> exact id)
  · cases hm
    refine hquiet _ ⟨List.Perm.refl _, rfl, rfl⟩ ?_ (Or.inr rfl)
    rintro ip ⟨probe, hmem, _⟩
    exact Multiset.notMem_zero _ hmem
  · split at hm
    · cases hm
      exact hquiet _ hrefl (fun _ => id) (Or.inr rfl)
    · simp at hm
  · cases hm
    exact hquiet _ ⟨List.Perm.refl _, rfl, rfl⟩ (fun _ => id) (Or.inr rfl)
  · split at hm
    · cases hm
      exact hquiet _ hrefl (fun _ => id) (Or.inr rfl)
    · cases hm
      exact hquiet _ hrefl (fun ip => List.not_mem_nil) (Or.inr rfl)
  · next table entry rest candidates hstage =>
    cases hm
    refine Scan.entryMove_sound h fun ip hip => h.stage ip ?_
    rw [hstage]
    exact hip
  · next table candidates hstage =>
    split at hm
    · cases hm
      exact hquiet _ hrefl (fun _ => id) (Or.inr rfl)
    · cases hm
      refine ⟨⟨List.Perm.refl _, rfl, rfl⟩, ⟨fun ip hip => h.stage ip ?_, h.listener⟩, by simp⟩
      rw [hstage]
      exact hip
  · next table entry rest candidates hstage =>
    cases hm
    refine Scan.splitMove_sound h (h.stage entry.ip ?_) fun ip hip => h.stage ip ?_
    · rw [hstage]
      exact Or.inl rfl
    · rw [hstage]
      exact Or.inr hip
  · next candidates waiting alive hstage =>
    split at hm
    · cases hm
      refine Scan.pingedAll_sound h fun ip hip => h.stage ip ?_
      rw [hstage]
      exact hip
    · simp at hm
  · split at hm
    · cases hm
      exact hquiet _ hrefl (fun _ => id) (Or.inr rfl)
    · simp at hm
  · cases hm
    split
    · exact hquiet _ hrefl (fun _ => id) (Or.inr rfl)
    · exact hquiet _ hrefl (fun _ => id) (Or.inr rfl)
  · split at hm
    · cases hm
      exact hquiet _ hrefl (fun _ => id) (Or.inr rfl)
    · simp at hm
  · cases hm
    exact hquiet _ (reportResults_steady _ env.lookups env.stored) (fun _ => id) (Or.inr rfl)
  · simp at hm
  · simp at hm

theorem Scan.countMove_sound (h : s.Aimed o) (hm : s.countMove o = some m) : m.Sound o s := by
  unfold Scan.countMove at hm
  split at hm
  · simp at hm
  · cases hm
    exact ⟨⟨List.Perm.refl _, rfl, rfl⟩, ⟨h.stage, h.listener⟩, by simp⟩

theorem Scan.claimMove_sound (h : s.Aimed o) (hm : s.claimMove = some m) : m.Sound o s := by
  unfold Scan.claimMove at hm
  split at hm
  · simp at hm
  · cases hm
    obtain ⟨claimed, hclaimed⟩ := claimAndPrint_frame s.tracker
    refine ⟨⟨List.Perm.refl _, ?_, ?_⟩, ⟨h.stage, h.listener⟩, by simp⟩
    · show (claimAndPrint s.tracker).2.found = _
      rw [hclaimed]
    · rw [hostEvents_append, hostEvents_progress, List.append_nil]

/-- **Every step of a scan is sound.** -/
theorem Scan.move_sound {label : ScanLabel} (h : s.Aimed o) (hm : s.move o label = some m) :
    m.Sound o s := by
  cases label with
  | main env => exact Scan.mainMove_sound h hm
  | listener env => exact Scan.listenerMove_sound h hm
  | next stop => exact Scan.nextMove_sound h hm
  | verdict probe outcome stored => exact Scan.verdictMove_sound h hm
  | pinged index answered stored => exact Scan.pingedMove_sound h hm
  | worker i env => exact Scan.workerMove_sound h hm
  | count => exact Scan.countMove_sound h hm
  | claim => exact Scan.claimMove_sound h hm

end Moves

/-! ## Whole runs -/

/-- A watcher who notes every call of `reportHost`. -/
def noteReport (o : SubnetScan) (reports : List Report) (s : Scan) (label : ScanLabel) :
    List Report :=
  reports ++ ((s.move o label).bind Move.report).toList

section Runs

@[simp] theorem Move.done_stage (m : Move) : (m.done o).stage = m.scan.stage := by
  unfold Move.done
  split <;> rfl

@[simp] theorem Move.done_listener (m : Move) : (m.done o).listener = m.scan.listener := by
  unfold Move.done
  split <;> rfl

theorem Move.done_of_none {m : Move} (h : m.report = none) : m.done o = m.scan := by
  simp [Move.done, h]

theorem scanNetwork_step {s s' : Scan} {label : ScanLabel}
    (h : (scanNetwork o).step s label = some s') :
    ∃ m, s.move o label = some m ∧ s' = m.done o := by
  obtain ⟨m, hm, rfl⟩ := Option.map_eq_some_iff.mp h
  exact ⟨m, hm, rfl⟩

theorem Move.Sound.done {s : Scan} {m : Move} {reports : List Report} (h : m.Sound o s)
    (htallied : s.Tallied o reports) :
    (m.done o).Aimed o ∧ (m.done o).Tallied o (reports ++ m.report.toList) := by
  have hkept := htallied.steady h.steady
  constructor
  · refine ⟨?_, ?_⟩
    · rw [Move.done_stage]
      exact h.aimed.stage
    · rw [Move.done_listener]
      exact h.aimed.listener
  · cases hreport : m.report with
    | none =>
      rw [Move.done_of_none hreport, Option.toList_none, List.append_nil]
      exact hkept
    | some r =>
      simp only [Move.done, hreport, Option.toList_some]
      exact hkept.reportHost (h.report r hreport)

/-- **The accounts of a scan are right after every step.** -/
theorem Scan.tallied {w : Scan × List Report}
    (h : ((scanNetwork o).watch [] (noteReport o)).Reachable w) :
    w.1.Aimed o ∧ w.1.Tallied o w.2 := by
  refine h.invariant (I := fun w => w.1.Aimed o ∧ w.1.Tallied o w.2) ?_ ?_
  · rintro ⟨s, reports⟩ ⟨hs, hreports⟩
    simp only [scanNetwork] at hs hreports
    subst hs hreports
    exact ⟨⟨fun _ hip => absurd hip id, fun _ hip => absurd hip id⟩, Discovery.Tallied.start o⟩
  · rintro ⟨s, reports⟩ label ⟨s', reports'⟩ _ ⟨haimed, htallied⟩ hs
    obtain ⟨hstep, hreports⟩ := Lts.watch_step hs
    obtain ⟨m, hm, rfl⟩ := scanNetwork_step hstep
    simp only [noteReport, hm, Option.bind_some] at hreports
    subst hreports
    exact (Scan.move_sound haimed hm).done htallied

end Runs

end NetScanner.Hosts
