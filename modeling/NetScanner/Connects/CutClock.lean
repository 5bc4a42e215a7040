import NetScanner.Infra.History
import NetScanner.Connects.Run
import Mathlib.Order.Bounds.Defs

/-!
# When a connect may be cut short

`src/core/connects.zig`, `Shared.done` and `Flight.deadline`: a connect with a cut floor gives up
early only once the learned wait has passed since it started *and since such a connect last got an
answer*. That last answer's time is stored by the loop that reports it.

A loop takes the time of a batch before it waits for the lock, so batches may be reported in
another order than their times, and the time stored is that of the last batch. `cutClock_iff` says
that all is well in the runs where the batches that count are reported in the order of their times,
and in no others.
-/

namespace NetScanner.Connects

open Infra

variable {Job σ : Type*}

/-! ## The answers that count -/

/-- A call of `Shared.done`. -/
structure Batch (Job : Type*) where
  settled : List (Settled Job)
  now : Int
  stored : Nat → Bool

/-- The verdict tells of an answer to a connect that may be cut short. An unconfirmed one that is
held back tells nothing yet. -/
def Settled.answersCuttable (target : Job → Target) (s : Settled Job) (stored : Bool) : Bool :=
  !(decide (s.verdict = .unconfirmed) && stored) && decide (s.verdict.alone ≠ .filtered) &&
    (target s.job).cutFloorMs.isSome

/-- When the batch was settled, if it tells of such an answer. -/
def Batch.answer (target : Job → Target) (b : Batch Job) : Option Int :=
  if b.settled.zipIdx.any fun p => p.1.answersCuttable target (b.stored p.2) then some b.now
  else none

/-- The batch of a suspect whose failure turned out to be its own target's. -/
def Batch.unanswered (job : Job) (now : Int) : Batch Job where
  settled := [{ job := job, verdict := .filtered, elapsedUs := 0 }]
  now := now
  stored _ := true

/-- What a loop reports at its next step. -/
def LoopState.batch? (l : LoopState Job) (env : LoopEnv) : Option (Batch Job) :=
  match l.pc with
  | .noTarget started => l.held.dropSuspect.1.map fun job => .unanswered job started
  | .wentOut _ started _ => l.held.started.1.map fun job => .unanswered job started
  | .report => some { settled := l.settled, now := env.now, stored := env.stored }
  | .reportSettled after => some { settled := l.settled, now := after, stored := env.stored }
  | _ => none

/-- The time of the answer that a step reports, if it reports one. -/
def Engine.answer (target : Job → Target) {n : Nat} (e : Engine Job σ n) :
    EngineLabel n → Option Int
  | .loop i env => ((e.loops i).batch? env).bind (Batch.answer target)
  | .main _ => none

/-- The times of the answers reported, in the order they were reported. -/
def noteAnswer (target : Job → Target) {n : Nat} (times : List Int) (e : Engine Job σ n)
    (label : EngineLabel n) : List Int :=
  times ++ (e.answer target label).toList

/-! ## What is stored -/

theorem Settled.answersCuttable_iff {target : Job → Target} {s : Settled Job} {stored : Bool} :
    s.answersCuttable target stored = true ↔ ¬(s.verdict = .unconfirmed ∧ stored = true) ∧
      s.verdict.alone ≠ .filtered ∧ (target s.job).cutFloorMs.isSome := by
  simp only [answersCuttable, Bool.and_eq_true, Bool.not_eq_true', Bool.and_eq_false_iff,
    decide_eq_true_eq, decide_eq_false_iff_not, not_and_or, Bool.not_eq_true, and_assoc]

section Stored

variable (S : Source Job σ) (target : Job → Target)

theorem Shared.doneOne_lastCuttable (sh : Shared Job σ) (s : Settled Job) (now : Int)
    (stored : Bool) : (sh.doneOne S target s now stored).lastCuttableAnswerNs =
      if s.answersCuttable target stored then now else sh.lastCuttableAnswerNs := by
  unfold Shared.doneOne
  split
  · next hheld => rw [if_neg fun h => (Settled.answersCuttable_iff.mp h).1 hheld]
  · next hheld =>
    simp only []
    split
    · next hcounts => rw [if_pos (Settled.answersCuttable_iff.mpr ⟨hheld, hcounts⟩)]
    · next hcounts =>
      rw [if_neg fun h => hcounts (Settled.answersCuttable_iff.mp h).2]
      rfl

theorem Shared.doneEach_lastCuttable (now : Int) (stored : Nat → Bool)
    (settled : List (Settled Job)) (k : Nat) (sh : Shared Job σ) :
    (Shared.doneEach S target now stored k sh settled).lastCuttableAnswerNs =
      if (settled.zipIdx k).any fun p => p.1.answersCuttable target (stored p.2) then now
      else sh.lastCuttableAnswerNs := by
  induction settled generalizing k sh with
  | nil => rfl
  | cons s rest ih =>
    rw [Shared.doneEach, ih, Shared.doneOne_lastCuttable, List.zipIdx_cons, List.any_cons]
    cases s.answersCuttable target (stored k) with
    | true => simp
    | false => rfl

/-- **A batch that tells of an answer stores its own time**, whatever was stored before. -/
theorem Shared.done_lastCuttable (sh : Shared Job σ) (b : Batch Job) :
    (sh.done S target b.settled b.now b.stored).lastCuttableAnswerNs =
      (b.answer target).getD sh.lastCuttableAnswerNs := by
  have heach := Shared.doneEach_lastCuttable S target b.now b.stored b.settled 0 sh
  have hanswer : (b.answer target).getD sh.lastCuttableAnswerNs =
      (Shared.doneEach S target b.now b.stored 0 sh b.settled).lastCuttableAnswerNs := by
    rw [heach, Batch.answer]
    split <;> rfl
  rw [hanswer]
  unfold Shared.done
  split
  · next hnone =>
    rw [List.length_eq_zero_iff.mp hnone]
    rfl
  · cases S.waitCap with
    | none => rfl
    | some waitCap => rfl

theorem Shared.take_lastCuttable (sh : Shared Job σ) (loops inFlight : Nat) :
    (sh.take S loops inFlight).2.lastCuttableAnswerNs = sh.lastCuttableAnswerNs := by
  unfold Shared.take
  split
  · rfl
  · split <;> rfl

variable {S target}

/-- What one step of a loop does to the stored time. -/
theorem LoopState.step_lastCuttable {loops : Nat} {env : LoopEnv} {sh sh' : Shared Job σ}
    {l l' : LoopState Job} (hs : l.step S target loops env sh = some (sh', l')) :
    sh'.lastCuttableAnswerNs =
      ((l.batch? env).bind (Batch.answer target)).getD sh.lastCuttableAnswerNs := by
  cases LoopState.step_moves hs with
  | takeJob hpc htake | takeFull hpc htake | takeDry hpc htake =>
    have hsame := sh.take_lastCuttable S loops l.flight.len
    rw [htake] at hsame
    rw [LoopState.batch?, hpc]
    exact hsame
  | @dropSuspect started suspect held hpc hdrop =>
    rw [LoopState.batch?, hpc]
    simp only [hdrop]
    exact Shared.done_lastCuttable S target sh (.unanswered suspect started)
  | noSuspect hpc hdrop =>
    rw [LoopState.batch?, hpc]
    simp only [hdrop]
    rfl
  | @clearSuspect job suspect started attempt held hpc hclear =>
    rw [LoopState.batch?, hpc]
    simp only [hclear]
    exact Shared.done_lastCuttable S target sh (.unanswered suspect started)
  | clear hpc hclear =>
    rw [LoopState.batch?, hpc]
    simp only [hclear]
    rfl
  | report hpc =>
    rw [LoopState.batch?, hpc]
    exact Shared.done_lastCuttable S target sh ⟨l.settled, env.now, env.stored⟩
  | @reportSettled after hpc =>
    rw [LoopState.batch?, hpc]
    exact Shared.done_lastCuttable S target sh ⟨l.settled, after, env.stored⟩
  | _ hpc =>
    rw [LoopState.batch?, hpc]
    rfl

theorem Engine.step_lastCuttable {u : Setup} {e e' : Engine Job σ u.loops}
    {label : EngineLabel u.loops} (hs : e.step S target u label = some e') :
    e'.shared.lastCuttableAnswerNs =
      (e.answer target label).getD e.shared.lastCuttableAnswerNs := by
  cases label with
  | loop i env =>
    simp only [Engine.step] at hs
    split at hs
    · cases hs
    · next sh l hstep =>
      cases hs
      exact LoopState.step_lastCuttable hstep
  | main env =>
    -- `run` confirms on the source itself, past `Shared.done`
    have hsame : e'.shared.lastCuttableAnswerNs = e.shared.lastCuttableAnswerNs := by
      simp only [Engine.step, Engine.mainStep] at hs
      split at hs
      · split at hs
        · split at hs
          · cases hs
            rfl
          · split at hs <;> cases hs <;> rfl
        · cases hs
      · cases hs
        rfl
      · split at hs
        · cases hs
        · cases hs
          rfl
      · cases hs
    exact hsame

end Stored

/-! ## Who is given up -/

/-- **The walk keeps whatever still has time.** -/
theorem Flight.mem_takeSettled (target : Job → Target) {after : Int} {cut : Cut} {slot : Slot Job}
    (hsilent : slot.settled = false) (htime : after < slotDeadline target slot cut)
    (verdict : Nat → Verdict) : ∀ (i : Nat) (f : Flight Job) (settled : List (Settled Job)),
      slot ∈ f.slots → slot ∈ (takeSettled target after cut verdict i f settled).1.slots := by
  intro i
  induction i with
  | zero => exact fun _ _ hm => hm
  | succ i ih =>
    intro f settled hm
    unfold takeSettled
    split
    · exact ih f settled hm
    · next out hout =>
      split
      · exact ih f settled hm
      · next hgone =>
        -- what the walk takes out here has run out of time, so it is another slot
        refine ih _ _ ?_
        obtain ⟨hi, hget⟩ := List.getElem?_eq_some_iff.mp hout
        have hne : slot ≠ out := by
          rintro rfl
          exact hgone (by simp [hsilent, htime])
        have hperm := cons_swapRemove_perm hi
        rw [hget] at hperm
        rcases List.mem_cons.mp (hperm.mem_iff.mpr hm) with heq | hm
        · exact absurd heq hne
        · exact hm

/-- What a cut that lets a connect give up before its own deadline is made of. -/
theorem Flight.early_of_slotDeadline_le {target : Job → Target} {slot : Slot Job} {cap : Nat}
    {last after : Int} (hearly : after < slot.deadline)
    (hover : slotDeadline target slot (cutOf cap last) ≤ after) :
    ∃ floor, (target slot.job).cutFloorMs = some floor ∧ cap ≠ 0 ∧
      max slot.started last + (max cap floor : Nat) * nsPerMs ≤ after := by
  unfold slotDeadline cutOf at hover
  split at hover
  · next floor waitMs hfloor hwait =>
    simp only [] at hwait hover
    split at hwait
    · cases hwait
    · next hcap =>
      cases hwait
      refine ⟨floor, hfloor, hcap, ?_⟩
      rcases min_le_iff.mp hover with hown | hcut
      · exact absurd hown (Int.not_le.mpr hearly)
      · exact hcut
  · exact absurd hover (Int.not_le.mpr hearly)

/-- A connect that a loop has in flight is given up before its own deadline, at `after`. -/
structure GivenUp (l l' : LoopState Job) (slot : Slot Job) (after : Int) : Prop where
  inFlight : slot ∈ l.flight.slots
  silent : slot.settled = false
  early : after < slot.deadline
  gone : slot ∉ l'.flight.slots

/-- The wait cap, never below the connect's floor, has passed since a time. -/
def Waited (after : Int) (cap floor : Nat) (since : Int) : Prop :=
  since + (max cap floor : Nat) * nsPerMs ≤ after

theorem LoopState.waited_of_givenUp {S : Source Job σ} {target : Job → Target} {loops : Nat}
    {env : LoopEnv} {sh sh' : Shared Job σ} {l l' : LoopState Job} {after : Int} {cap : Nat}
    (hpc : l.pc = .cutAnswer after cap) (hs : l.step S target loops env sh = some (sh', l'))
    {slot : Slot Job} (h : GivenUp l l' slot after) :
    ∃ floor, (target slot.job).cutFloorMs = some floor ∧ cap ≠ 0 ∧
      Waited after cap floor slot.started ∧ Waited after cap floor sh.lastCuttableAnswerNs := by
  simp only [LoopState.step, hpc] at hs
  cases hs
  have hover : Flight.slotDeadline target slot (cutOf cap sh.lastCuttableAnswerNs) ≤ after := by
    by_contra htime
    exact h.gone (Flight.mem_takeSettled target h.silent (Int.not_le.mp htime) env.verdict _ _ _
      h.inFlight)
  obtain ⟨floor, hfloor, hcap, hwaited⟩ := Flight.early_of_slotDeadline_le h.early hover
  refine ⟨floor, hfloor, hcap, ?_, ?_⟩
  · exact (Int.add_le_add_right (le_max_left _ _) _).trans hwaited
  · exact (Int.add_le_add_right (le_max_right _ _) _).trans hwaited

/-! ## Whole runs -/

section Run

variable {S : Source Job σ} {target : Job → Target} {u : Setup} {source : σ}

/-- A run, with the times of the answers it reports. -/
def cutClock (S : Source Job σ) (target : Job → Target) (u : Setup) (source : σ) :
    Lts (Engine Job σ u.loops × List Int) (EngineLabel u.loops) :=
  (engine S target u source).watch [] (noteAnswer target)

/-- The time that is stored is that of the last batch reported. -/
theorem stored_eq_getLast {w : Engine Job σ u.loops × List Int}
    (h : (cutClock S target u source).Reachable w) :
    w.1.shared.lastCuttableAnswerNs = w.2.getLast?.getD 0 := by
  refine h.invariant (I := fun w => w.1.shared.lastCuttableAnswerNs = w.2.getLast?.getD 0) ?_ ?_
  · rintro w ⟨hstart, hnone⟩
    rw [hstart, hnone]
    rfl
  · intro w label w' _ ih hs
    obtain ⟨hstep, hnote⟩ := Lts.watch_step hs
    rw [Engine.step_lastCuttable hstep, hnote, noteAnswer]
    cases w.1.answer target label with
    | none =>
      rw [Option.toList_none, List.append_nil]
      exact ih
    | some now =>
      rw [Option.toList_some, List.getLast?_concat]
      rfl

/-- The times only grow at their end. -/
theorem times_grow {labels : List (EngineLabel u.loops)}
    {w w' : Engine Job σ u.loops × List Int}
    (h : (cutClock S target u source).exec w labels = some w') : w.2 <+: w'.2 := by
  induction labels generalizing w with
  | nil =>
    cases h
    exact List.prefix_rfl
  | cons label labels ih =>
    rw [Lts.exec_cons, Option.bind_eq_some_iff] at h
    obtain ⟨w₁, hs, h⟩ := h
    obtain ⟨-, hnote⟩ := Lts.watch_step hs
    exact List.IsPrefix.trans ⟨_, hnote.symm⟩ (ih h)

/-- The cut clock in a state of a run: it has the latest answer, and a connect is given up early
only once the wait has passed since it started and since every such answer. -/
structure CutClock (S : Source Job σ) (target : Job → Target) (u : Setup)
    (e : Engine Job σ u.loops) (times : List Int) : Prop where
  latest : times ≠ [] → IsGreatest {t | t ∈ times} e.shared.lastCuttableAnswerNs
  givenUp : ∀ i env e' after cap slot, (e.loops i).pc = .cutAnswer after cap →
    e.step S target u (.loop i env) = some e' →
    GivenUp (e.loops i) (e'.loops i) slot after →
    ∃ floor, (target slot.job).cutFloorMs = some floor ∧ cap ≠ 0 ∧
      Waited after cap floor slot.started ∧ ∀ t ∈ times, Waited after cap floor t

theorem cutClock_of_pairwise {e : Engine Job σ u.loops} {times : List Int}
    (h : (cutClock S target u source).Reachable (e, times)) (hsorted : times.Pairwise (· ≤ ·)) :
    CutClock S target u e times := by
  have hstored : e.shared.lastCuttableAnswerNs = times.getLast?.getD 0 := stored_eq_getLast h
  -- what is stored is the last of the times, and they are sorted
  have hle : ∀ t ∈ times, t ≤ e.shared.lastCuttableAnswerNs := by
    rcases List.eq_nil_or_concat' times with rfl | ⟨front, last, rfl⟩
    · simp
    · rw [hstored, List.getLast?_concat, Option.getD_some]
      intro t ht
      rcases List.mem_append.mp ht with ht | ht
      · exact (List.pairwise_append.mp hsorted).2.2 t ht last (List.mem_singleton_self _)
      · exact Int.le_of_eq (List.mem_singleton.mp ht)
  constructor
  · intro hne
    refine ⟨?_, hle⟩
    rw [hstored, List.getLast?_eq_some_getLast hne]
    exact List.getLast_mem hne
  · intro i env e' after cap slot hpc hs hgiven
    simp only [Engine.step] at hs
    split at hs
    · cases hs
    · next sh l hstep =>
      cases hs
      simp only [Function.update_self] at hgiven
      obtain ⟨floor, hfloor, hcap, hstarted, hlast⟩ :=
        LoopState.waited_of_givenUp hpc hstep hgiven
      refine ⟨floor, hfloor, hcap, hstarted, fun t ht => ?_⟩
      exact (Int.add_le_add_right (hle t ht) _).trans hlast

/-- A clock that is right in every state had its answers reported in order. -/
theorem pairwise_of_latest {labels : List (EngineLabel u.loops)}
    {w : Engine Job σ u.loops × List Int}
    (hrun : (cutClock S target u source).exec (Engine.start u source, []) labels = some w) :
    (∀ before w', before <+: labels →
      (cutClock S target u source).exec (Engine.start u source, []) before = some w' →
      w'.2 ≠ [] → IsGreatest {t | t ∈ w'.2} w'.1.shared.lastCuttableAnswerNs) →
    w.2.Pairwise (· ≤ ·) := by
  refine Lts.exec_induction (T := cutClock S target u source) (P := fun labels w =>
    (∀ before w', before <+: labels →
      (cutClock S target u source).exec (Engine.start u source, []) before = some w' →
      w'.2 ≠ [] → IsGreatest {t | t ∈ w'.2} w'.1.shared.lastCuttableAnswerNs) →
    w.2.Pairwise (· ≤ ·)) ?_ ?_ hrun
  · intro _
    exact List.Pairwise.nil
  · intro labels label w w' hr ih hs hlatest
    have hbefore := ih fun before w₁ hpre => hlatest before w₁ (hpre.trans ⟨[label], rfl⟩)
    have hnow := hlatest _ w' List.prefix_rfl (Lts.exec_concat_eq_some.mpr ⟨w, hr, hs⟩)
    obtain ⟨hstep, hnote⟩ := Lts.watch_step hs
    rw [noteAnswer] at hnote
    rw [Engine.step_lastCuttable hstep] at hnow
    rw [hnote] at hnow ⊢
    cases ha : w.1.answer target label with
    | none =>
      rw [Option.toList_none, List.append_nil]
      exact hbefore
    | some now =>
      -- this batch's time is what is stored now, and that is the greatest of all
      rw [ha] at hnow
      refine List.pairwise_append.mpr ⟨hbefore, List.pairwise_singleton _ _, ?_⟩
      intro t ht t' hlast
      rw [List.mem_singleton.mp hlast]
      exact (hnow (by simp)).2 (List.mem_append_left _ ht)

/-- **The clock is right in a whole run exactly when the answers are reported in the order of
their times.** -/
theorem cutClock_iff {labels : List (EngineLabel u.loops)} {e : Engine Job σ u.loops}
    {times : List Int}
    (hrun : (cutClock S target u source).exec (Engine.start u source, []) labels =
      some (e, times)) :
    (∀ before e' times', before <+: labels →
      (cutClock S target u source).exec (Engine.start u source, []) before = some (e', times') →
      CutClock S target u e' times') ↔ times.Pairwise (· ≤ ·) := by
  constructor
  · intro h
    exact pairwise_of_latest hrun fun before w' hpre hexec => (h before _ _ hpre hexec).latest
  · rintro hsorted before e' times' ⟨after, rfl⟩ hbefore
    rw [Lts.exec_append, hbefore, Option.bind_some] at hrun
    have hreach : (cutClock S target u source).Reachable (e', times') :=
      ⟨(Engine.start u source, []), before, ⟨rfl, rfl⟩, hbefore⟩
    exact cutClock_of_pairwise hreach (hsorted.sublist (times_grow hrun).sublist)

end Run

/-- Two connects that may be cut short, on two loops. -/
def sampleSource : Source Nat (List Nat) where
  next s := (s.head?, s.tail)
  done s _ _ _ := s

def sampleTarget (_job : Nat) : Target where
  ip := (10, 0, 0, 1)
  port := 80
  timeoutMs := 500
  cutFloorMs := some 40

def sampleSetup : Setup where
  limit := 2
  loops := 2
  poolPace := 256
  pace := .adaptive
  loops_pos := by decide
  loops_le := by decide

/-- A loop takes a connect, hears its answer at `after` and is about to report it. -/
def sampleLoop (i : Fin sampleSetup.loops) (after : Int) : List (EngineLabel sampleSetup.loops) :=
  ([{}, {}, {}, {}, { attempt := .pending 3 }, {}, {}, {}, {}, {}, {},
    { now := after, ready := fun _ => true }, {}, { verdict := fun _ => .refused }] :
    List LoopEnv).map (.loop i)

/-- The first loop's answer is the earlier one; `order` is how the loops get the lock. -/
def sampleRun (order : List (Fin sampleSetup.loops)) : List (EngineLabel sampleSetup.loops) :=
  sampleLoop ⟨0, by decide⟩ 10 ++ sampleLoop ⟨1, by decide⟩ 20 ++ order.map (.loop · {})

/-- The loops report in the order of their times. -/
theorem cutClock_iff_in_order :
    ∃ e, (cutClock sampleSource sampleTarget sampleSetup [1, 2]).exec
        (Engine.start sampleSetup [1, 2], []) (sampleRun [⟨0, by decide⟩, ⟨1, by decide⟩]) =
          some (e, [10, 20]) ∧
      CutClock sampleSource sampleTarget sampleSetup e [10, 20] := by
  have hend : ((cutClock sampleSource sampleTarget sampleSetup [1, 2]).exec
      (Engine.start sampleSetup [1, 2], []) (sampleRun [⟨0, by decide⟩, ⟨1, by decide⟩])).map
      Prod.snd = some [10, 20] := by
    decide +kernel
  obtain ⟨⟨e, times⟩, hexec, htimes⟩ := Option.map_eq_some_iff.mp hend
  simp only [] at htimes
  subst htimes
  exact ⟨e, hexec, (cutClock_iff hexec).mpr (by decide) _ e _ List.prefix_rfl hexec⟩

/-- **The clock goes back**: the loop with the later answer reports first, and the time that stays
is the earlier one. -/
theorem cutClock_goes_back : ¬∀ labels e times,
    (cutClock sampleSource sampleTarget sampleSetup [1, 2]).exec
      (Engine.start sampleSetup [1, 2], []) labels = some (e, times) →
    CutClock sampleSource sampleTarget sampleSetup e times := by
  intro h
  have hend : ((cutClock sampleSource sampleTarget sampleSetup [1, 2]).exec
      (Engine.start sampleSetup [1, 2], []) (sampleRun [⟨1, by decide⟩, ⟨0, by decide⟩])).map
      (fun w => (w.1.shared.lastCuttableAnswerNs, w.2)) = some (10, [20, 10]) := by
    decide +kernel
  obtain ⟨⟨e, times⟩, hexec, hval⟩ := Option.map_eq_some_iff.mp hend
  obtain ⟨hlast, htimes⟩ := Prod.mk.inj hval
  simp only [] at hlast htimes
  subst htimes
  have hgreatest := (h _ e _ hexec).latest (by simp)
  -- loop 1 reported its answer at 20, and 10 is stored
  rw [hlast] at hgreatest
  have hle : (20 : Int) ≤ 10 := hgreatest.2 (by simp)
  exact absurd hle (by decide)

end NetScanner.Connects
