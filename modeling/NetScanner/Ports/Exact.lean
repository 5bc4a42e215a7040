import NetScanner.Ports.Passes

/-!
# `scanPorts` tries every port as often as it should

The invariants of the three passes put together: which ports each pass hands out, that the
in-place compaction of the retries is safe, and what the scan returns.

`Passes.of_engine` ties this to `connects.run`: whatever its loops do, three runs of it that
end well are the three passes this is about.
-/

namespace NetScanner.Ports

open Connects Net

/-! ## From one pass to the next -/

theorem reportedAs_subset (o : Outcome) (calls : List (Call PortProbe)) :
    reportedAs o calls ⊆ ports (reported calls) := by
  intro port hport
  rw [(reportedAs_perm calls).mem_iff, List.mem_append, List.mem_append]
  cases o with
  | «open» => exact Or.inl hport
  | refused => exact Or.inr (Or.inl hport)
  | filtered => exact Or.inr (Or.inr hport)

theorem ports_perm_of_pass {t : PortTable} {s₀ s : PortScan} {calls : List (Call PortProbe)}
    (h : Pass (source t) s₀ calls s) : (ports (reported calls)).Perm (ports (handed calls)) :=
  h.served.perm.map _

theorem PortScan.needsThirdPass_snd (s : PortScan) :
    s.needsThirdPass.2 = { s with looks := s.looks + 1 } := by
  unfold needsThirdPass stopRequested
  cases s.run.cancel s.looks with
  | true => rfl
  | false =>
    simp only []
    split <;> rfl

/-- A moment of a scan: some calls into one of its passes. -/
inductive Moment (t : PortTable) (s₀ s₁ s₂ : PortScan) (s : PortScan) : Prop
  | first {calls out} : Serving (source t) s₀ calls s out → Moment t s₀ s₁ s₂ s
  | retry {calls out} : Serving (source t) s₁.second calls s out → Moment t s₀ s₁ s₂ s
  | third {calls out} : s₂.needsThirdPass.1 = true → Serving (source t) s₂.third calls s out →
      Moment t s₀ s₁ s₂ s

/-- What the second pass does to the retries the first one left in `s₁`, seen at a moment
where the probes `out` are out. -/
structure Compacts (s₁ s : PortScan) (out : Multiset PortProbe) : Prop where
  /-- Verdicts overwrite; the list keeps its length. -/
  length : s.retries.length = s₁.retries.length
  next_le : s.nextRetry ≤ s.retries.length
  /-- The slot the next verdict may overwrite was handed out before. -/
  front_lt : out ≠ 0 → s.silentTwice < s.nextRetry
  /-- What is not handed out yet is still there. -/
  untouched : s.retries.drop s.nextRetry = s₁.retries.drop s.nextRetry

/-- What three passes over the ports `lo..hi` come to. -/
structure ExactScan (t : PortTable) (lo hi : Nat) (timeoutMs : Option Nat)
    (memory : Nat → Bool) (s₀ s₁ s₂ s₃ : PortScan)
    (calls₁ calls₂ calls₃ : List (Call PortProbe)) : Prop where
  /-- The first pass hands out every port of the range exactly once. -/
  first : (ports (handed calls₁)).Perm (List.range' lo (hi + 1 - lo))
  /-- The second hands out exactly the ports the first deferred, once each. -/
  retry : ports (handed calls₂) = s₁.retries.map Deferred.port ∧
    (s₁.retries.map Deferred.port).Nodup
  /-- The compaction never overwrites a port not yet handed out. -/
  compacts : ∀ {calls s out}, Serving (source t) s₁.second calls s out → Compacts s₁ s out
  /-- The retries never outgrow the room made for them. -/
  capacity : ∀ {s}, Moment t s₀ s₁ s₂ s → s.retries.length ≤ hi + 1 - lo
  /-- The third pass hands out exactly the ports unanswered on both tries, once each. -/
  third : s₂.needsThirdPass.1 = true → (ports (handed calls₃)).Nodup ∧
    ∀ port, port ∈ ports (handed calls₃) ↔
      port ∈ reportedAs .filtered calls₁ ∧ port ∈ reportedAs .filtered calls₂
  /-- With `--timeout` nothing is ever deferred. -/
  fixed : timeoutMs.isSome → ∀ {s}, Moment t s₀ s₁ s₂ s → s.retries = []
  /-- The list returned rises, and every port on it was reported open. -/
  ascending : s₃.result.Pairwise (· < ·)
  sound : ∀ port ∈ s₃.result, port ∈ reportedAs .open (calls₁ ++ calls₂ ++ calls₃)
  /-- No open port is missing, as long as there is memory for it. -/
  complete : (∀ k, memory k = true) →
    ∀ port, port ∈ s₃.result ↔ port ∈ reportedAs .open (calls₁ ++ calls₂ ++ calls₃)

section Scan

variable {t : PortTable} {run : Run} {ip : Ip} {lo hi : Nat} {timeoutMs : Option Nat}
  {tracker : Progress.Tracker} {s₀ s₁ s₂ s₃ : PortScan}
  {calls₁ calls₂ calls₃ : List (Call PortProbe)}
  (hinit : s₀ = PortScan.init run ip lo hi timeoutMs tracker)
  (hstop : ∀ k, run.cancel k = false) (h : Passes t s₀ s₁ s₂ s₃ calls₁ calls₂ calls₃)
include hinit hstop h

/-! ## The passes, one after the other -/

theorem Passes.first_handed :
    (ports (handed calls₁)).Perm (List.range' lo (hi + 1 - lo)) := by
  have hinv := Serving.firstInv hinit hstop h.first.served
  have hleft := hinv.left
  rw [hinv.dry h.first.dry, List.append_nil] at hleft
  rw [hleft]
  subst hinit
  exact PortScan.firstLeft_perm_range t rfl rfl

theorem Passes.retryInv {s : PortScan} {calls : List (Call PortProbe)} {out : Multiset PortProbe}
    (hs : Serving (source t) s₁.second calls s out) : RetryInv s₁.second calls s out := by
  have hinv := Serving.firstInv hinit hstop h.first.served
  obtain ⟨h1, h2, h3, _⟩ := hinv.cursors
  have hrun : s₁.run = run := by rw [hinv.opened.run, hinit]; rfl
  refine Serving.retryInv rfl ⟨h1, h2, h3⟩ ?_ hs
  intro k
  rw [PortScan.second, hrun]
  exact hstop k

theorem Passes.thirdInv {s : PortScan} {calls : List (Call PortProbe)} {out : Multiset PortProbe}
    (hs : Serving (source t) s₂.third calls s out) : ThirdInv s₂.third calls s := by
  have hinv₁ := Serving.firstInv hinit hstop h.first.served
  have hinv₂ := h.retryInv hinit hstop h.retry.served
  have hrun : s₂.run = run := by
    rw [hinv₂.opened.run, PortScan.second, hinv₁.opened.run, hinit]
    rfl
  have hbalance := hinv₂.balance
  have hle := hinv₂.next_le
  refine Serving.thirdInv rfl ?_ ?_ ?_ hs
  · rw [PortScan.third, s₂.needsThirdPass_snd]
    exact hinv₂.nextThird.trans hinv₁.cursors.2.2.2
  · rw [PortScan.third, s₂.needsThirdPass_snd]
    show s₂.silentTwice ≤ s₂.retries.length
    omega
  · intro k
    rw [PortScan.third, s₂.needsThirdPass_snd]
    show s₂.run.cancel k = false
    rw [hrun]
    exact hstop k

/-- The front of the retries after the second pass: the ports unanswered twice. -/
theorem Passes.third_handed (hneeds : s₂.needsThirdPass.1 = true) :
    ports (handed calls₃) = reportedAs .filtered calls₂ := by
  have hthird := h.third
  rw [if_pos hneeds] at hthird
  have hinv := h.thirdInv hinit hstop hthird.served
  have hdry := hinv.dry hthird.dry
  rw [hinv.silentTwice] at hdry
  have hfront := (h.retryInv hinit hstop h.retry.served).front
  rw [hinv.handed, List.take_take, Nat.min_eq_right hdry, PortScan.third, s₂.needsThirdPass_snd]
  exact hfront

theorem Passes.second_handed :
    ports (handed calls₂) = s₁.retries.map Deferred.port := by
  have hinv := h.retryInv hinit hstop h.retry.served
  rw [hinv.handed, hinv.dry h.retry.dry, hinv.length, List.take_length]
  rfl

/-! ## What the verdicts of the passes have to do with each other -/

theorem Passes.first_nodup :
    (ports (reported calls₁)).Nodup :=
  ((ports_perm_of_pass h.first).trans (h.first_handed hinit hstop)).nodup_iff.mpr List.nodup_range'

theorem Passes.retries_sublist :
    (s₁.retries.map Deferred.port).Sublist (reportedAs .filtered calls₁) :=
  (Serving.firstInv hinit hstop h.first.served).deferred

theorem Passes.second_nodup :
    (ports (reported calls₂)).Nodup := by
  rw [(ports_perm_of_pass h.retry).nodup_iff, h.second_handed hinit hstop]
  exact (reportedAs_disjoint (h.first_nodup hinit hstop)).2.1.sublist
    (h.retries_sublist hinit hstop)

/-- A port of the second pass was unanswered in the first. -/
theorem Passes.second_subset :
    ports (reported calls₂) ⊆ reportedAs .filtered calls₁ := by
  intro port hport
  rw [(ports_perm_of_pass h.retry).mem_iff, h.second_handed hinit hstop] at hport
  exact (h.retries_sublist hinit hstop).subset hport

/-- A port of the third pass was unanswered in the second. -/
theorem Passes.third_subset :
    (ports (reported calls₃)).Nodup ∧
      ports (reported calls₃) ⊆ reportedAs .filtered calls₂ := by
  have hthird := h.third
  split at hthird
  · next hneeds =>
    have hhanded := h.third_handed hinit hstop hneeds
    constructor
    · rw [(ports_perm_of_pass hthird).nodup_iff, hhanded]
      exact (reportedAs_disjoint (h.second_nodup hinit hstop)).2.1
    · intro port hport
      rw [(ports_perm_of_pass hthird).mem_iff, hhanded] at hport
      exact hport
  · rw [hthird.1]
    exact ⟨List.nodup_nil, List.nil_subset _⟩

/-- **No port is reported open twice.** -/
theorem Passes.open_nodup :
    (reportedAs .open (calls₁ ++ calls₂ ++ calls₃)).Nodup := by
  obtain ⟨hopen₁, _, hdis₁⟩ := reportedAs_disjoint (h.first_nodup hinit hstop)
  obtain ⟨hopen₂, _, hdis₂⟩ := reportedAs_disjoint (h.second_nodup hinit hstop)
  obtain ⟨hnodup₃, hsub₃⟩ := h.third_subset hinit hstop
  have hopen₃ := (reportedAs_disjoint hnodup₃).1
  have hsub₂ := h.second_subset hinit hstop
  rw [reportedAs_append, reportedAs_append, List.nodup_append', List.nodup_append']
  refine ⟨⟨hopen₁, hopen₂, ?_⟩, hopen₃, ?_⟩
  · intro port h1 h2
    exact hdis₁ h1 (hsub₂ (reportedAs_subset _ _ h2))
  · intro port h12 h3
    have hfiltered₂ := hsub₃ (reportedAs_subset _ _ h3)
    rcases List.mem_append.mp h12 with h1 | h2
    · exact hdis₁ h1 (hsub₂ (reportedAs_subset _ _ hfiltered₂))
    · exact hdis₂ h2 hfiltered₂

/-- The open ports of a whole scan. -/
theorem Passes.openPorts :
    s₃.openPorts = recorded run.memory 0 (reportedAs .open (calls₁ ++ calls₂ ++ calls₃)) := by
  have h1 := (Serving.firstInv hinit hstop h.first.served).opened
  have h2 := (h.retryInv hinit hstop h.retry.served).opened
  have hrun₁ : s₁.run = run := by rw [h1.run, hinit]; rfl
  have hrun₂ : s₂.run = run := by rw [h2.run]; exact hrun₁
  have hopen₁ : s₁.openPorts = recorded run.memory 0 (reportedAs .open calls₁) := by
    rw [h1.openPorts, hinit]
    rfl
  have happ₁ : s₁.appends = (reportedAs .open calls₁).length := by
    rw [h1.appends, hinit]
    exact Nat.zero_add _
  have hopen₂ : s₂.openPorts = recorded run.memory 0 (reportedAs .open (calls₁ ++ calls₂)) := by
    rw [h2.openPorts, reportedAs_append, recorded_append, Nat.zero_add]
    show s₁.openPorts ++ recorded s₁.run.memory s₁.appends _ = _
    rw [hopen₁, hrun₁, happ₁]
  have happ₂ : s₂.appends = (reportedAs .open (calls₁ ++ calls₂)).length := by
    rw [h2.appends, reportedAs_append, List.length_append]
    show s₁.appends + _ = _
    rw [happ₁]
  have hthird := h.third
  split at hthird
  · have h3 := (h.thirdInv hinit hstop hthird.served).opened
    rw [h3.openPorts, reportedAs_append, recorded_append, Nat.zero_add, PortScan.third,
      s₂.needsThirdPass_snd]
    show s₂.openPorts ++ recorded s₂.run.memory s₂.appends _ = _
    rw [hopen₂, hrun₂, happ₂]
  · rw [hthird.1, hthird.2, List.append_nil, s₂.needsThirdPass_snd]
    exact hopen₂

theorem Passes.capacity {s : PortScan} (hm : Moment t s₀ s₁ s₂ s) :
    s.retries.length ≤ hi + 1 - lo := by
  -- at every moment of the first pass, a deferred port is one handed out
  have hfirst : ∀ {calls s out}, Serving (source t) s₀ calls s out →
      s.retries.length ≤ hi + 1 - lo := by
    intro calls s out hs
    have hinv := Serving.firstInv hinit hstop hs
    have hdeferred := hinv.deferred.length_le
    have hperm := (reportedAs_perm calls).length_eq
    have hsub := hs.subperm.length_le
    have hleft := congrArg List.length hinv.left
    have htotal : (s₀.firstLeft t).length = hi + 1 - lo := by
      subst hinit
      rw [(PortScan.firstLeft_perm_range t rfl rfl).length_eq, List.length_range']
      rfl
    simp only [ports, List.length_map, List.length_append] at hdeferred hperm hleft
    omega
  have hs₁ := hfirst h.first.served
  cases hm with
  | first hs => exact hfirst hs
  | retry hs =>
    rw [(h.retryInv hinit hstop hs).length]
    exact hs₁
  | third _ hs =>
    rw [(h.thirdInv hinit hstop hs).retries, PortScan.third, s₂.needsThirdPass_snd]
    show s₂.retries.length ≤ _
    rw [(h.retryInv hinit hstop h.retry.served).length]
    exact hs₁

theorem Passes.fixed {s : PortScan} (htimeout : timeoutMs.isSome)
    (hm : Moment t s₀ s₁ s₂ s) : s.retries = [] := by
  have hfixed : s₀.fixedMs.isSome := by
    rw [hinit]
    exact htimeout
  have hs₁ := ((Serving.firstInv hinit hstop h.first.served).fixed hfixed).1
  cases hm with
  | first hs => exact ((Serving.firstInv hinit hstop hs).fixed hfixed).1
  | retry hs =>
    rw [← List.length_eq_zero_iff, (h.retryInv hinit hstop hs).length]
    exact List.length_eq_zero_iff.mpr hs₁
  | third _ hs =>
    rw [(h.thirdInv hinit hstop hs).retries, PortScan.third, s₂.needsThirdPass_snd]
    show s₂.retries = []
    rw [← List.length_eq_zero_iff, (h.retryInv hinit hstop h.retry.served).length]
    exact List.length_eq_zero_iff.mpr hs₁

end Scan

theorem Passes.exact {t : PortTable} {run : Run} {ip : Ip} {lo hi : Nat}
    {timeoutMs : Option Nat} {tracker : Progress.Tracker} {s₁ s₂ s₃ : PortScan}
    {calls₁ calls₂ calls₃ : List (Call PortProbe)}
    (h : Passes t (PortScan.init run ip lo hi timeoutMs tracker) s₁ s₂ s₃ calls₁ calls₂ calls₃)
    (hstop : ∀ k, run.cancel k = false) :
    ExactScan t lo hi timeoutMs run.memory (PortScan.init run ip lo hi timeoutMs tracker)
      s₁ s₂ s₃ calls₁ calls₂ calls₃ := by
  have hdisjoint := reportedAs_disjoint (h.first_nodup rfl hstop)
  have hopen := h.openPorts rfl hstop
  have hnodup : s₃.openPorts.Nodup := by
    rw [hopen]
    exact (h.open_nodup rfl hstop).sublist (recorded_sublist _ _ _)
  have hsorted : s₃.result.Perm s₃.openPorts := List.mergeSort_perm _ _
  refine ⟨h.first_handed rfl hstop, ⟨h.second_handed rfl hstop, ?_⟩, ?_,
    fun hm => h.capacity rfl hstop hm, ?_, fun ht _ hm => h.fixed rfl hstop ht hm, ?_, ?_, ?_⟩
  · exact hdisjoint.2.1.sublist (h.retries_sublist rfl hstop)
  · intro calls s out hs
    have hinv := h.retryInv rfl hstop hs
    exact ⟨hinv.length, hinv.next_le, hinv.front_lt, hinv.untouched⟩
  · intro hneeds
    rw [h.third_handed rfl hstop hneeds]
    refine ⟨(reportedAs_disjoint (h.second_nodup rfl hstop)).2.1, fun port => ?_⟩
    constructor
    · intro hport
      exact ⟨h.second_subset rfl hstop (reportedAs_subset _ _ hport), hport⟩
    · exact And.right
  · have hle : s₃.result.Pairwise (· ≤ ·) := by
      have hsort : s₃.result.Pairwise fun a b => decide (a ≤ b) = true :=
        List.pairwise_mergeSort (by intro a b c; simp; omega) (by intro a b; simp; omega) _
      exact hsort.imp (by simp)
    have hne : s₃.result.Pairwise (· ≠ ·) := hsorted.nodup_iff.mpr hnodup
    exact (hle.and hne).imp fun ⟨h1, h2⟩ => Nat.lt_of_le_of_ne h1 h2
  · intro port hport
    rw [hsorted.mem_iff, hopen] at hport
    exact (recorded_sublist _ _ _).subset hport
  · intro hmemory port
    rw [hsorted.mem_iff, hopen, recorded_of_memory hmemory]

/--
**The three passes of `scanPorts` are exact**, for every range, with or without
`--timeout`, and every order in which `connects.run` can ask for ports and report them.
-/
theorem scanPorts_exact {t : PortTable} {run : Run} {ip : Ip} {lo hi : Nat}
    {timeoutMs : Option Nat} {tracker : Progress.Tracker} {s₁ s₂ s₃ : PortScan}
    {calls₁ calls₂ calls₃ : List (Call PortProbe)} (hstop : ∀ k, run.cancel k = false)
    (h : Passes t (PortScan.init run ip lo hi timeoutMs tracker) s₁ s₂ s₃ calls₁ calls₂ calls₃) :
    ExactScan t lo hi timeoutMs run.memory (PortScan.init run ip lo hi timeoutMs tracker)
      s₁ s₂ s₃ calls₁ calls₂ calls₃ :=
  h.exact hstop

/-! ## Replaying a scan -/

/-- Replay the calls of one pass; none when they are not one. -/
def replayPass (t : PortTable) (s : PortScan) (calls : List (Call PortProbe)) : Option PortScan :=
  match replay (source t) s [] calls with
  | some (s', []) => if Call.next none ∈ calls then some s' else none
  | _ => none

theorem pass_of_replay {t : PortTable} {s s' : PortScan} {calls : List (Call PortProbe)}
    (h : replayPass t s calls = some s') : Pass (source t) s calls s' := by
  unfold replayPass at h
  split at h
  · next hreplay =>
    split at h
    · next hdry =>
      cases h
      exact ⟨Serving.start.replay hreplay, hdry⟩
    · simp at h
  · simp at h

/-- Replay the passes of a scan; none when the calls are not those of one. -/
def replayPasses (t : PortTable) (s₀ : PortScan) (calls₁ calls₂ calls₃ : List (Call PortProbe)) :
    Option (PortScan × PortScan × PortScan) :=
  (replayPass t s₀ calls₁).bind fun s₁ =>
    (replayPass t s₁.second calls₂).bind fun s₂ =>
      if s₂.needsThirdPass.1 then
        (replayPass t s₂.third calls₃).bind fun s₃ => some (s₁, s₂, s₃)
      else if calls₃ = [] then some (s₁, s₂, s₂.needsThirdPass.2) else none

theorem passes_of_replay {t : PortTable} {s₀ s₁ s₂ s₃ : PortScan}
    {calls₁ calls₂ calls₃ : List (Call PortProbe)}
    (h : replayPasses t s₀ calls₁ calls₂ calls₃ = some (s₁, s₂, s₃)) :
    Passes t s₀ s₁ s₂ s₃ calls₁ calls₂ calls₃ := by
  obtain ⟨s₁', h1, h⟩ := Option.bind_eq_some_iff.mp h
  obtain ⟨s₂', h2, h⟩ := Option.bind_eq_some_iff.mp h
  split at h
  · next hneeds =>
    obtain ⟨s₃', h3, h⟩ := Option.bind_eq_some_iff.mp h
    cases h
    exact ⟨pass_of_replay h1, pass_of_replay h2, by rw [if_pos hneeds]; exact pass_of_replay h3⟩
  · next hneeds =>
    split at h
    · next hnil =>
      cases h
      exact ⟨pass_of_replay h1, pass_of_replay h2, by rw [if_neg hneeds]; exact ⟨hnil, rfl⟩⟩
    · simp at h

/-- A scan of two ports, one of them ranked: it is tried first and found open; the other is
silent on both its tries. -/
theorem scanPorts_exact_two_ports :
    let t : PortTable :=
      { entries := [⟨22, 1⟩, ⟨80, 2⟩]
        byRank := [22, 80]
        ascending := by decide
        port_pos := by decide
        built := by decide }
    let run : Run :=
      { output := { stream := true, json := true }
        cancel := fun _ => false
        memory := fun _ => true }
    let s₀ := PortScan.init run (10, 0, 0, 1) 79 80 none {}
    ∃ s₁ s₂ s₃ calls₁ calls₂ calls₃, Passes t s₀ s₁ s₂ s₃ calls₁ calls₂ calls₃ ∧
      ports (handed calls₁) = [80, 79] ∧ ports (handed calls₂) = [79] ∧ s₃.result = [80] ∧
      ExactScan t 79 80 none run.memory s₀ s₁ s₂ s₃ calls₁ calls₂ calls₃ := by
  intro t run s₀
  let blind (port : Nat) : PortProbe :=
    { target :=
        { ip := (10, 0, 0, 1)
          port := port
          timeoutMs := 500
          cutFloorMs := some 100 }
      deferrable := false
      blind := true }
  let again : PortProbe :=
    { target :=
        { ip := (10, 0, 0, 1)
          port := 79
          timeoutMs := 100 }
      deferrable := false }
  let calls₁ : List (Call PortProbe) := [.next (some (blind 80)), .next (some (blind 79)),
    .done (blind 80) .open 1000, .next none, .done (blind 79) .filtered 500000]
  let calls₂ : List (Call PortProbe) :=
    [.next (some again), .next none, .done again .filtered 100000]
  have hreplay : (replayPasses t s₀ calls₁ calls₂ []).map (fun r => r.2.2.openPorts) =
      some [80] := by decide +kernel
  obtain ⟨⟨s₁, s₂, s₃⟩, hpasses, hopen⟩ := Option.map_eq_some_iff.mp hreplay
  have hscan := passes_of_replay hpasses
  have hresult : s₃.result = [80] := by
    rw [PortScan.result, show s₃.openPorts = [80] from hopen, List.mergeSort_singleton]
  exact ⟨s₁, s₂, s₃, calls₁, calls₂, [], hscan, rfl, rfl, hresult,
    scanPorts_exact (fun _ => rfl) hscan⟩

/-! ## The passes are runs of the engine -/

/-- **Three runs of `connects.run` that end well are the passes of a scan**, whatever their
loops, their interleaving, the network and the machine did. -/
theorem Passes.of_engine {t : PortTable} {s₀ : PortScan} {u₁ u₂ u₃ : Setup}
    {e₁ : Engine PortProbe PortScan u₁.loops} {e₂ : Engine PortProbe PortScan u₂.loops}
    {e₃ : Engine PortProbe PortScan u₃.loops}
    (h₁ : (engine (source t) PortProbe.target u₁ s₀).Reachable e₁)
    (hok₁ : e₁.main = .returned .ok)
    (h₂ : (engine (source t) PortProbe.target u₂ e₁.shared.source.second).Reachable e₂)
    (hok₂ : e₂.main = .returned .ok)
    (hneeds : e₂.shared.source.needsThirdPass.1 = true)
    (h₃ : (engine (source t) PortProbe.target u₃ e₂.shared.source.third).Reachable e₃)
    (hok₃ : e₃.main = .returned .ok) :
    Passes t s₀ e₁.shared.source e₂.shared.source e₃.shared.source e₁.shared.calls
      e₂.shared.calls e₃.shared.calls where
  first := Engine.pass_of_ok h₁ hok₁
  retry := Engine.pass_of_ok h₂ hok₂
  third := by
    rw [if_pos hneeds]
    exact Engine.pass_of_ok h₃ hok₃

/-- The same for a scan that needs no third pass. -/
theorem Passes.of_engine_two {t : PortTable} {s₀ : PortScan} {u₁ u₂ : Setup}
    {e₁ : Engine PortProbe PortScan u₁.loops} {e₂ : Engine PortProbe PortScan u₂.loops}
    (h₁ : (engine (source t) PortProbe.target u₁ s₀).Reachable e₁)
    (hok₁ : e₁.main = .returned .ok)
    (h₂ : (engine (source t) PortProbe.target u₂ e₁.shared.source.second).Reachable e₂)
    (hok₂ : e₂.main = .returned .ok)
    (hneeds : e₂.shared.source.needsThirdPass.1 = false) :
    Passes t s₀ e₁.shared.source e₂.shared.source e₂.shared.source.needsThirdPass.2
      e₁.shared.calls e₂.shared.calls [] where
  first := Engine.pass_of_ok h₁ hok₁
  retry := Engine.pass_of_ok h₂ hok₂
  third := by
    rw [if_neg (by simp [hneeds])]
    exact ⟨rfl, rfl⟩

end NetScanner.Ports
