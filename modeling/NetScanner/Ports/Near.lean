import NetScanner.Ports.Passes

/-!
# Which hosts get a second try

`PortScan.firstTry` promises a second try to a blind probe left unanswered *once the host
has turned out near*; a far host gets none. `done` decides it from the learned wait, or from
`cutShort`, which takes every verdict that came before the probe's own wait ended for a cut
by the engine.

The engine cuts only on a near host, but it also reports connects unanswered early for
other reasons (an error other than a refusal, a suspect). `defersOnlyNear_iff` says exactly
which sequences of verdicts keep the promise, and `immediate_error_deferred_unanswered` is a
run of the engine that does not.
-/

namespace NetScanner.Ports

open Connects Net

/-- Some probe was answered within the floor. -/
def NearAnswered (calls : List (Call PortProbe)) : Prop :=
  ∃ p o e, Call.done p o e ∈ calls ∧ o ≠ .filtered ∧ e ≤ portTimeoutFloorMs * usPerMs

/-- Whenever a verdict adds to the retries, the host had turned out near before it. -/
def DefersOnlyNear (t : PortTable) (s₀ : PortScan) (calls : List (Call PortProbe)) : Prop :=
  ∀ before p o e s out, before ++ [.done p o e] <+: calls →
    Serving (source t) s₀ before s (p ::ₘ out) → (s.done p o e).retries ≠ s.retries →
    NearAnswered before

/-- Until the host has turned out near, no blind try is reported unanswered before its own
wait ended. -/
def BlindWaitsOut (calls : List (Call PortProbe)) : Prop :=
  ∀ before p e, before ++ [.done p .filtered e] <+: calls → p.blind = true →
    ¬NearAnswered before → p.target.timeoutMs * usPerMs ≤ e

theorem NearAnswered.append {calls : List (Call PortProbe)} (h : NearAnswered calls)
    (more : List (Call PortProbe)) : NearAnswered (calls ++ more) := by
  obtain ⟨p, o, e, hmem, ho, he⟩ := h
  exact ⟨p, o, e, List.mem_append_left _ hmem, ho, he⟩

/-! ## What the scan knows of its host -/

/-- The invariant of the first pass: what the scan takes for a near host is one. -/
structure NearInv (calls : List (Call PortProbe)) (s : PortScan) (out : Multiset PortProbe) :
    Prop where
  pass : s.pass = .first
  fastest : s.fastestAnswerUs ≤ portTimeoutFloorMs * usPerMs → NearAnswered calls
  deferrable : ∀ p ∈ out, p.deferrable = true → NearAnswered calls

theorem PortScan.near_of_learnedWait {s : PortScan} (h : s.learnedWait.isSome) :
    s.fastestAnswerUs ≤ portTimeoutFloorMs * usPerMs := by
  unfold PortScan.learnedWait at h
  simp only [] at h
  split at h
  · simp at h
  · next hnear => omega

theorem PortScan.near_of_deferrable {s : PortScan} {port : Nat}
    (h : (s.firstTry port).deferrable = true) :
    s.fastestAnswerUs ≤ portTimeoutFloorMs * usPerMs := by
  unfold PortScan.firstTry at h
  split at h
  · simp [PortScan.probe] at h
  · split at h
    · simp [PortScan.probe] at h
    · split at h
      · next learnedMs heq => exact PortScan.near_of_learnedWait (by rw [heq]; rfl)
      · simp [PortScan.probe] at h

theorem NearInv.hand {t : PortTable} {calls : List (Call PortProbe)} {s s' : PortScan}
    {out : Multiset PortProbe} {job : PortProbe} (h : NearInv calls s out)
    (hnext : s.next t = (some job, s')) :
    NearInv (calls ++ [.next (some job)]) s' (job ::ₘ out) := by
  obtain ⟨nr, np, port, hs', _, hjob⟩ := PortScan.next_first_some h.pass hnext
  have hfastest : s'.fastestAnswerUs = s.fastestAnswerUs := by rw [hs']
  refine ⟨by rw [hs']; exact h.pass, ?_, ?_⟩
  · intro hle
    rw [hfastest] at hle
    exact (h.fastest hle).append _
  · intro p hp hd
    rcases Multiset.mem_cons.mp hp with rfl | hp
    · rw [hjob] at hd
      have hle := PortScan.near_of_deferrable hd
      rw [hfastest] at hle
      exact (h.fastest hle).append _
    · exact (h.deferrable p hp hd).append _

theorem NearInv.report {calls : List (Call PortProbe)} {s : PortScan} {out : Multiset PortProbe}
    {job : PortProbe} (h : NearInv calls s (job ::ₘ out)) (o : Outcome) (e : Nat) :
    NearInv (calls ++ [.done job o e]) (s.done job o e) out := by
  obtain ⟨tr, ev, hu, hdone⟩ := PortScan.done_first h.pass job o e
  refine ⟨?_, ?_, fun p hp hd => (h.deferrable p (Multiset.mem_cons_of_mem hp) hd).append _⟩
  · obtain ⟨est, fast, hlearn⟩ := s.learn_frame o e
    rw [hdone, hlearn]
    exact h.pass
  · intro hle
    rw [hdone] at hle
    replace hle : (s.learn o e).fastestAnswerUs ≤ portTimeoutFloorMs * usPerMs := hle
    unfold PortScan.learn at hle
    by_cases ho : o = .filtered
    · rw [if_neg (fun hne => hne ho)] at hle
      exact (h.fastest hle).append _
    · rw [if_pos ho] at hle
      replace hle : min s.fastestAnswerUs e ≤ portTimeoutFloorMs * usPerMs := hle
      rcases Nat.le_total s.fastestAnswerUs e with hmin | hmin
      · rw [Nat.min_eq_left hmin] at hle
        exact (h.fastest hle).append _
      · rw [Nat.min_eq_right hmin] at hle
        exact ⟨job, o, e, by simp, ho, hle⟩

theorem Serving.nearInv {t : PortTable} {run : Run} {ip : Ip} {lo hi : Nat}
    {timeoutMs : Option Nat} {tracker : Progress.Tracker} {s₀ s : PortScan}
    {calls : List (Call PortProbe)} {out : Multiset PortProbe}
    (hinit : s₀ = PortScan.init run ip lo hi timeoutMs tracker)
    (h : Serving (source t) s₀ calls s out) : NearInv calls s out := by
  subst hinit
  induction h with
  | start =>
    refine ⟨rfl, fun hle => ?_, by simp⟩
    have hfar : ¬(noAnswerUs ≤ portTimeoutFloorMs * usPerMs) := by decide
    exact absurd hle hfar
  | hand _ hnext ih => exact ih.hand hnext
  | dry _ hnext ih =>
    obtain ⟨nr, np, hs', _⟩ := PortScan.next_first_none ih.pass hnext
    rw [hs']
    exact ⟨ih.pass, fun hle => (ih.fastest hle).append _,
      fun p hp hd => (ih.deferrable p hp hd).append _⟩
  | report o e _ ih => exact ih.report o e

/-! ## When a verdict adds to the retries -/

/-- A verdict of the first pass adds to the retries exactly when it is an unanswered try
that earned a second. -/
theorem PortScan.retries_done_ne_iff {s : PortScan} (hpass : s.pass = .first) (p : PortProbe)
    (o : Outcome) (e : Nat) :
    (s.done p o e).retries ≠ s.retries ↔ o = .filtered ∧ s.earnsRetry p e = true := by
  obtain ⟨tr, ev, hu, hdone⟩ := PortScan.done_first hpass p o e
  rw [hdone]
  show s.deferred p o e ≠ s.retries ↔ _
  unfold PortScan.deferred
  split
  · next hearn => simp [hearn]
  · next hearn => simpa using hearn

/--
**A port is deferred only on a near host exactly when no blind try ends early before the
host has turned out near**, in every first pass of a scan without `--timeout`.
-/
theorem defersOnlyNear_iff {t : PortTable} {run : Run} {ip : Ip} {lo hi : Nat}
    {tracker : Progress.Tracker} {s : PortScan} {calls : List (Call PortProbe)}
    {out : Multiset PortProbe}
    (h : Serving (source t) (PortScan.init run ip lo hi none tracker) calls s out) :
    DefersOnlyNear t (PortScan.init run ip lo hi none tracker) calls ↔ BlindWaitsOut calls := by
  constructor
  · intro hnear before p e hpre hblind hfar
    obtain ⟨s₂, out₂, hserved⟩ := h.of_prefix hpre
    obtain ⟨s₁, -, hbefore⟩ := hserved.of_report
    by_contra hearly
    refine hfar (hnear before p .filtered e s₁ out₂ hpre hbefore ?_)
    rw [PortScan.retries_done_ne_iff (Serving.nearInv rfl hbefore).pass]
    refine ⟨rfl, ?_⟩
    simp only [PortScan.earnsRetry, PortScan.cutShort, hblind]
    simp [Nat.lt_of_not_le hearly]
  · intro hwaits before p o e s₁ out₁ hpre hbefore hdeferred
    have hinv := Serving.nearInv rfl hbefore
    obtain ⟨rfl, hearn⟩ := (PortScan.retries_done_ne_iff hinv.pass p o e).mp hdeferred
    simp only [PortScan.earnsRetry, Bool.or_eq_true, Bool.and_eq_true] at hearn
    rcases hearn with hdeferrable | ⟨hblind, hlearned | hcut⟩
    · exact hinv.deferrable p (Multiset.mem_cons_self p out₁) hdeferrable
    · exact hinv.fastest (PortScan.near_of_learnedWait hlearned)
    · -- cut short: then the host had turned out near, or the wait would have ended
      by_contra hfar
      have hle := hwaits before p e hpre hblind hfar
      have hlt : e < p.target.timeoutMs * usPerMs := by simpa [PortScan.cutShort] using hcut
      omega

/-- Two blind tries at a near host: one is answered in a millisecond, the other waits its
time out and is deferred. -/
theorem defersOnlyNear_near_host :
    let t : PortTable :=
      { entries := []
        byRank := []
        ascending := by decide
        port_pos := by decide
        built := by decide }
    let run : Run :=
      { output := { stream := true, json := true }
        cancel := fun _ => false
        memory := fun _ => true }
    let s₀ := PortScan.init run (10, 0, 0, 1) 79 80 none {}
    ∃ calls s out, Serving (source t) s₀ calls s out ∧ s.retries.map Deferred.port = [79] ∧
      DefersOnlyNear t s₀ calls := by
  intro t run s₀
  let blind (port : Nat) : PortProbe :=
    { target :=
        { ip := (10, 0, 0, 1)
          port := port
          timeoutMs := 500
          cutFloorMs := some 100 }
      deferrable := false
      blind := true }
  let calls : List (Call PortProbe) := [.next (some (blind 79)), .next (some (blind 80)),
    .done (blind 80) .open 1000, .done (blind 79) .filtered 500000]
  have hreplay : (replay (source t) s₀ [] calls).map (fun r => r.1.retries.map Deferred.port) =
      some [79] := by decide +kernel
  obtain ⟨⟨s, out⟩, hserved, hretries⟩ := Option.map_eq_some_iff.mp hreplay
  have hserving : Serving (source t) s₀ calls s (out : Multiset PortProbe) :=
    Serving.start.replay hserved
  refine ⟨calls, s, out, hserving, hretries, (defersOnlyNear_iff hserving).mpr ?_⟩
  -- the only try left unanswered had its full wait
  intro before p e hpre _ _
  have hmem : Call.done p .filtered e ∈ calls := hpre.subset (by simp)
  simp only [calls, List.mem_cons, reduceCtorEq, Call.done.injEq, List.not_mem_nil, false_or,
    or_false, false_and, and_false, true_and] at hmem
  obtain ⟨rfl, rfl⟩ := hmem
  decide

/-- A run of the engine over one port: the connect fails at once with an error that is not
a refusal, so it is reported unanswered after no time at all. Nothing was ever answered, yet
the port is deferred. -/
theorem immediate_error_deferred_unanswered :
    let t : PortTable :=
      { entries := []
        byRank := []
        ascending := by decide
        port_pos := by decide
        built := by decide }
    let run : Run :=
      { output := { stream := true, json := true }
        cancel := fun _ => false
        memory := fun _ => true }
    let s₀ := PortScan.init run (10, 0, 0, 1) 22 22 none {}
    let u : Setup :=
      { limit := 4
        loops := 1
        poolPace := 4
        pace := .adaptive
        loops_pos := by decide
        loops_le := by decide }
    ∃ e, (engine (source t) PortProbe.target u s₀).Reachable e ∧
      e.shared.source.retries.map Deferred.port = [22] ∧
      ¬DefersOnlyNear t s₀ e.shared.calls := by
  intro t run s₀ u
  let p : PortProbe :=
    { target :=
        { ip := (10, 0, 0, 1)
          port := 22
          timeoutMs := 500
          cutFloorMs := some 100 }
      deferrable := false
      blind := true }
  let before : List (Call PortProbe) := [.next (some p), .next none]
  let loop (env : LoopEnv) : EngineLabel u.loops := .loop ⟨0, by decide⟩ env
  let labels : List (EngineLabel u.loops) := [loop {}, loop {}, loop {}, loop {},
    loop { attempt := .done .filtered }, loop {}, loop {}, loop {}, loop {}, loop {}, loop {}]
  have hend : ((engine (source t) PortProbe.target u s₀).exec (Engine.start u s₀) labels).map
      (fun e => (e.shared.calls, e.shared.source.retries.map Deferred.port)) =
        some (before ++ [.done p .filtered 0], [22]) := by decide +kernel
  obtain ⟨e, hexec, hval⟩ := Option.map_eq_some_iff.mp hend
  obtain ⟨hcalls, hretries⟩ := Prod.mk.inj hval
  refine ⟨e, ⟨_, labels, rfl, hexec⟩, hretries, ?_⟩
  rw [hcalls]
  intro hnear
  have hreplay : (replay (source t) s₀ [] before).map
      (fun r => (r.2, decide ((r.1.done p .filtered 0).retries = r.1.retries))) =
        some ([p], false) := by decide +kernel
  obtain ⟨⟨s, out⟩, hserved, hsval⟩ := Option.map_eq_some_iff.mp hreplay
  obtain ⟨hout, hdeferred⟩ := Prod.mk.inj hsval
  have hserving : Serving (source t) s₀ before s (p ::ₘ 0) := by
    have := Serving.start.replay hserved
    rw [show out = [p] from hout] at this
    exact this
  obtain ⟨_, _, _, hmem, _⟩ := hnear before p .filtered 0 s 0 List.prefix_rfl hserving
    (of_decide_eq_false hdeferred)
  simp [before] at hmem

end NetScanner.Ports
