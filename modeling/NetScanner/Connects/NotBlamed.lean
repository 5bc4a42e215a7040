import NetScanner.Connects.Unprobed
import NetScanner.Connects.Relabel

/-!
# A connect that never went out is not the target's silence

What an honest log says of the connects that did not go out (`NotBlamed`), for every run of
`connects.run`. A source may hand out jobs that look alike, and the log would not tell them
apart; `Source.numbered` gives each its number, and a run over numbered jobs is the same run.
-/

namespace NetScanner.Connects

open Infra

variable {Job σ : Type*} {n : Nat}

/-! ## What an honest log says -/

/-- What a run does with the connects that did not go out. -/
structure NotBlamed (log : Log n Job) : Prop where
  /-- A connect that never went out is reported unanswered at most; its latest try failed for want
  of an address while its loop was short of nothing, and right after it another connect of the
  loop went out, or the source had no more. -/
  never_out : ∀ before i job outcome after, log = before ++ (i, .reported job outcome) :: after →
    NeverOut before job →
    outcome = .filtered ∧
      ((∃ job' attempt, SuspectSince before i job [(job', attempt)] ∧
        attempt.wentOut = true ∧ job' ≠ job) ∨
      (SuspectSince before i job [] ∧ (i, .dry) ∈ before))
  /-- A connect that found no socket, or that failed while its loop was short, is not reported
  until it has been tried again, and that try went out or made it a suspect. -/
  held_back : ∀ before i job shortage short since j outcome after,
    log = before ++ (i, .tried job (.unprobed shortage) short) :: (since ++
      (j, .reported job outcome) :: after) →
    shortage = .socket ∨ short = true →
    ∃ k attempt short', (k, .tried job attempt short') ∈ since ∧
      (attempt.wentOut = true ∨ attempt = .unprobed .address ∧ short' = false)

/-- In an honest log a connect that went out is not tried again. -/
theorem Honest.notBlamed {log : Log n Job} (h : Honest log) : NotBlamed log := by
  constructor
  · rintro before i job outcome after rfl
    exact h.get
  · rintro before i job shortage short since j outcome after rfl hheld
    have hreported := h
    rw [← List.cons_append, ← List.append_assoc] at hreported
    by_cases hnever : NeverOut (before ++ (i, .tried job (.unprobed shortage) short) :: since) job
    · -- its latest try made it a suspect, and that was not this one
      obtain ⟨tries, earlier, later, hsplit, hlatest, _⟩ : ∃ tries, SuspectSince
          (before ++ (i, .tried job (.unprobed shortage) short) :: since) j job tries := by
        rcases (hreported.get hnever).2 with ⟨job', attempt, hsince, _⟩ | ⟨hsince, _⟩
        · exact ⟨_, hsince⟩
        · exact ⟨_, hsince⟩
      rcases place_cases hsplit with hsame | hafter | hbefore
      · simp only [Prod.mk.injEq, Note.tried.injEq, Started.unprobed.injEq] at hsame
        rcases hheld with hs | hs <;> simp_all
      · exact ⟨j, .unprobed .address, false, hafter, Or.inr ⟨rfl, rfl⟩⟩
      · exact absurd hbefore (hlatest i (.unprobed shortage) short)
    · -- a try that went out came after this one, for nothing comes after that
      simp only [NeverOut, not_forall] at hnever
      obtain ⟨k, attempt, short', hmem, hout⟩ := hnever
      rcases List.mem_append.mp hmem with hmem | hmem
      · exact absurd (h.get k attempt short' hmem) hout
      · rcases List.mem_cons.mp hmem with hmem | hmem
        · simp only [Prod.mk.injEq, Note.tried.injEq] at hmem
          rw [hmem.2.2.1] at hout
          exact absurd rfl hout
        · exact ⟨k, attempt, short', hmem, Or.inl (by simpa using hout)⟩

/-! ## Numbered jobs -/

/-- The source, with every job it hands out numbered. -/
def Source.numbered (S : Source Job σ) : Source (Nat × Job) (Nat × σ) where
  next s := ((S.next s.2).1.map (s.1, ·), (s.1 + 1, (S.next s.2).2))
  done s job outcome elapsedUs := (s.1, S.done s.2 job.2 outcome elapsedUs)
  waitCap := S.waitCap.map fun cap s => cap s.2

theorem Source.numbered_relabels (S : Source Job σ) :
    S.numbered.Relabels S Prod.snd Prod.snd where
  next s := by
    cases hnext : (S.next s.2).1 <;> simp [Source.numbered, hnext, Prod.ext_iff]
  done s job o e := rfl
  waitCap s := by simp [Source.numbered, Function.comp_def]

/-- No two jobs have the same number. -/
theorem Source.numbered_nodup {S : Source Job σ} {s₀ s : Nat × σ} {calls : List (Call (Nat × Job))}
    {out : Multiset (Nat × Job)} (h : Serving S.numbered s₀ calls s out) :
    (handed calls).Nodup ∧ ∀ job ∈ handed calls, job.1 < s.1 := by
  induction h with
  | start => simp
  | hand _ hnext ih =>
    obtain ⟨hnodup, hbelow⟩ := ih
    simp only [Source.numbered, Prod.mk.injEq, Option.map_eq_some_iff] at hnext
    obtain ⟨⟨job, _, rfl⟩, rfl⟩ := hnext
    rw [handed_append, handed_next_some]
    refine ⟨hnodup.append (List.nodup_singleton _) ?_, ?_⟩
    · intro job' hmem hnew
      have hlt := hbelow job' hmem
      simp [List.mem_singleton.mp hnew] at hlt
    · intro job' hmem
      rcases List.mem_append.mp hmem with hmem | hmem
      · exact Nat.lt_succ_of_lt (hbelow job' hmem)
      · simp [List.mem_singleton.mp hmem]
  | dry _ hnext ih =>
    obtain ⟨hnodup, hbelow⟩ := ih
    simp only [Source.numbered, Prod.mk.injEq] at hnext
    obtain ⟨_, rfl⟩ := hnext
    rw [handed_append, handed_next_none, List.append_nil]
    exact ⟨hnodup, fun job' hmem => Nat.lt_succ_of_lt (hbelow job' hmem)⟩
  | report o e _ ih =>
    rw [handed_append, handed_done, List.append_nil]
    exact ih

/-! ## Every run -/

/--
**A connect that never went out is not reported as the target's silence**, unless it is a suspect
that something told apart from a shortage: whatever the source, the starts and the interleaving of
the loops. The run is told over numbered jobs, so that every connect has a name of its own.
-/
theorem unprobed_not_blamed (S : Source Job σ) (target : Job → Target) (u : Setup) (source : σ)
    {labels : List (EngineLabel u.loops)} {e : Engine Job σ u.loops}
    (h : (engine S target u source).exec (Engine.start u source) labels = some e) :
    ∃ e' log, ((engine S.numbered (target ∘ Prod.snd) u (0, source)).watch []
        (writeDown S.numbered (target ∘ Prod.snd) u)).exec (Engine.start u (0, source), []) labels =
          some (e', log) ∧
      e'.relabel Prod.snd Prod.snd = e ∧ NotBlamed log := by
  have hstart : (Engine.start u source : Engine Job σ u.loops) =
      (Engine.start u (0, source) : Engine (Nat × Job) (Nat × σ) u.loops).relabel
        Prod.snd Prod.snd := rfl
  rw [hstart, exec_relabel target S.numbered_relabels source (0, source)] at h
  obtain ⟨e', hexec, hsame⟩ := Option.map_eq_some_iff.mp h
  obtain ⟨log, hwatch⟩ := Lts.exec_watch hexec []
  refine ⟨e', log, hwatch, hsame, ?_⟩
  obtain ⟨lost, hout, _⟩ := (Engine.accounted ⟨_, _, rfl, hexec⟩).out
  have hnodup := (Source.numbered_nodup hout).1
  have hreach : ((engine S.numbered (target ∘ Prod.snd) u (0, source)).watch []
      (writeDown S.numbered (target ∘ Prod.snd) u)).Reachable (e', log) :=
    ⟨(Engine.start u (0, source), []), labels, ⟨rfl, rfl⟩, hwatch⟩
  exact (Engine.traced hreach hnodup).honest.notBlamed

/-- A suspect is reported once the connect after it went out. -/
theorem unprobed_not_blamed_suspect :
    let S : Source Nat (List Nat) :=
      { next := fun s => (s.head?, s.tail)
        done := fun s _ _ _ => s }
    let target : Nat → Target := fun _ =>
      { ip := (10, 0, 0, 1)
        port := 80
        timeoutMs := 500 }
    let u : Setup :=
      { limit := 4
        loops := 1
        poolPace := 256
        pace := .adaptive
        loops_pos := by decide
        loops_le := by decide }
    let labels : List (EngineLabel u.loops) := ([{}, {}, {}, {},
      { attempt := .unprobed .address }, {}, {}, { attempt := .pending 3 }, {}] :
        List LoopEnv).map (.loop ⟨0, by decide⟩)
    ∃ e, (engine S target u [7, 8]).exec (Engine.start u [7, 8]) labels = some e ∧
      reported e.shared.calls = [7] ∧
      ∃ e' log, ((engine S.numbered (target ∘ Prod.snd) u (0, [7, 8])).watch []
          (writeDown S.numbered (target ∘ Prod.snd) u)).exec
            (Engine.start u (0, [7, 8]), []) labels = some (e', log) ∧
        e'.relabel Prod.snd Prod.snd = e ∧ NotBlamed log := by
  intro S target u labels
  have hend : ((engine S target u [7, 8]).exec (Engine.start u [7, 8]) labels).map
      (fun e => reported e.shared.calls) = some [7] := by
    decide +kernel
  obtain ⟨e, hexec, hreported⟩ := Option.map_eq_some_iff.mp hend
  exact ⟨e, hexec, hreported, unprobed_not_blamed S target u [7, 8] hexec⟩

/--
**A connect that found no socket is reported without having gone out.** The second connect finds
none while the first is a suspect, so both wait; the first then goes out and the loop is short of
nothing, and when the second finds no address it is a suspect like any other: the third goes out,
and the second counts as unanswered.
-/
theorem reported_after_no_socket :
    let S : Source Nat (List Nat) :=
      { next := fun s => (s.head?, s.tail)
        done := fun s _ _ _ => s }
    let target : Nat → Target := fun _ =>
      { ip := (10, 0, 0, 1)
        port := 80
        timeoutMs := 500 }
    let u : Setup :=
      { limit := 4
        loops := 1
        poolPace := 256
        pace := .adaptive
        loops_pos := by decide
        loops_le := by decide }
    ∃ e log, ((engine S target u [1, 2, 3]).watch [] (writeDown S target u)).Reachable (e, log) ∧
      ¬∀ before i job shortage short since j outcome after,
        log = before ++ (i, .tried job (.unprobed shortage) short) :: (since ++
          (j, .reported job outcome) :: after) →
        shortage = .socket ∨ short = true →
        ∃ k attempt short', (k, .tried job attempt short') ∈ since ∧ attempt.wentOut = true := by
  intro S target u
  let loop : Fin u.loops := ⟨0, by decide⟩
  let labels : List (EngineLabel u.loops) := ([{}, {}, {}, {},
    { attempt := .unprobed .address }, {}, {}, { attempt := .unprobed .socket },
    { now := 2000000 }, { attempt := .pending 3 }, {}, {},
    { now := 2000000 }, { attempt := .unprobed .address },
    {}, {}, { attempt := .pending 4 }, {}] : List LoopEnv).map (.loop loop)
  have hend : (((engine S target u [1, 2, 3]).watch [] (writeDown S target u)).exec
      (Engine.start u [1, 2, 3], []) labels).map Prod.snd =
        some ([(loop, .tried 1 (.unprobed .address) false)] ++
          (loop, .tried 2 (.unprobed .socket) false) ::
            ([(loop, .tried 1 (.pending 3) true), (loop, .tried 2 (.unprobed .address) false),
              (loop, .tried 3 (.pending 4) false)] ++ (loop, .reported 2 .filtered) :: [])) := by
    decide +kernel
  obtain ⟨⟨e, log⟩, hexec, rfl⟩ := Option.map_eq_some_iff.mp hend
  refine ⟨e, _, ⟨(Engine.start u [1, 2, 3], []), labels, ⟨rfl, rfl⟩, hexec⟩, fun hall => ?_⟩
  obtain ⟨k, attempt, short', hmem, hout⟩ := hall _ _ _ _ _ _ _ _ _ rfl (Or.inl rfl)
  simp only [List.mem_cons, Prod.mk.injEq, Note.tried.injEq] at hmem
  rcases hmem with hmem | hmem | hmem | hmem
  · simp at hmem
  · simp [hmem.2.2.1, Started.wentOut] at hout
  · simp at hmem
  · simp at hmem

end NetScanner.Connects
