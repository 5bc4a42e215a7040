import NetScanner.Connects.Run
import Mathlib.Algebra.BigOperators.Group.Finset.Basic
import Mathlib.Data.Fintype.Basic
import Mathlib.Tactic.Abel

/-!
# A run reports every connect exactly once

A job travels through four containers: the held connects of a loop with their suspect, its
slots in flight, its settled batch, and the list of unconfirmed connects; on the way it is
in the hands of a step. `inside` counts all of them, over all loops.

The invariant `Accounted` says that the connects the source has out (`Serving`) are those
inside the run, plus the ones dropped when a loop starved; nothing is dropped otherwise.
It is proved per loop first (`LoopState.step_accounts`): one step changes what the source
has out exactly as it changes what the loop holds, whatever the other loops hold.
-/

namespace NetScanner.Connects

open Infra

variable {Job σ : Type*}

/-! ## What is inside a loop -/

/-- The job in the hands of a loop's next step. -/
def Pc.inHand : Pc Job → List Job
  | .start job _ => [job]
  | .wentOut job _ _ => [job]
  | .record job _ _ => [job]
  | _ => []

/-- Every job a loop holds. -/
def LoopState.jobs (l : LoopState Job) : Multiset Job :=
  (l.pc.inHand : Multiset Job) + (l.held.jobs : Multiset Job) + (l.flight.jobs : Multiset Job) +
    (l.settled.map Settled.job : Multiset Job)

/-- Only the containers and the job in hand count. -/
theorem LoopState.jobs_congr {l l' : LoopState Job} (hpc : l'.pc.inHand = l.pc.inHand)
    (hheld : l'.held.jobs = l.held.jobs) (hflight : l'.flight.jobs = l.flight.jobs)
    (hsettled : l'.settled = l.settled) : l'.jobs = l.jobs := by
  simp only [LoopState.jobs, hpc, hheld, hflight, hsettled]

/-! ## The shared steps -/

section Shared

variable {S : Source Job σ} {target : Job → Target} {s₀ : σ}

/-- The source of a run, with the connects it has out. -/
def Shared.Out (S : Source Job σ) (s₀ : σ) (sh : Shared Job σ) (out : Multiset Job) : Prop :=
  Serving S s₀ sh.calls sh.source out

theorem Shared.Out.sourceDone {sh : Shared Job σ} {job : Job} {out : Multiset Job}
    (h : sh.Out S s₀ (job ::ₘ out)) (o : Outcome) (e : Nat) :
    (sh.sourceDone S job o e).Out S s₀ out :=
  Serving.report o e h

/-- One verdict goes to the source or to the unconfirmed connects. -/
theorem Shared.Out.doneOne (target : Job → Target) {sh : Shared Job σ} {s : Settled Job}
    {out : Multiset Job} (h : sh.Out S s₀ ((sh.unconfirmed : Multiset Job) + s.job ::ₘ out))
    (now : Int) (stored : Bool) :
    (sh.doneOne S target s now stored).Out S s₀
      (((sh.doneOne S target s now stored).unconfirmed : Multiset Job) + out) ∧
      (sh.doneOne S target s now stored).starved = sh.starved := by
  unfold Shared.doneOne
  split
  · refine ⟨?_, rfl⟩
    show sh.Out S s₀ (((sh.unconfirmed ++ [s.job] : List Job) : Multiset Job) + out)
    rw [← Multiset.coe_add, Multiset.coe_singleton, add_assoc, Multiset.singleton_add]
    exact h
  · rw [Multiset.add_cons] at h
    have hobserved : ({ sh with window := sh.window.observe s.verdict.alone s.elapsedUs now } :
        Shared Job σ).Out S s₀ (s.job ::ₘ ((sh.unconfirmed : Multiset Job) + out)) := h
    have hd := hobserved.sourceDone s.verdict.alone s.elapsedUs
    simp only []
    split
    · exact ⟨hd, rfl⟩
    · exact ⟨hd, rfl⟩

theorem Shared.Out.doneEach (target : Job → Target) (now : Int) (stored : Nat → Bool)
    (out : Multiset Job) :
    ∀ (settled : List (Settled Job)) (k : Nat) (sh : Shared Job σ),
      sh.Out S s₀ ((sh.unconfirmed : Multiset Job) +
        ((settled.map Settled.job : Multiset Job) + out)) →
      (Shared.doneEach S target now stored k sh settled).Out S s₀
        (((Shared.doneEach S target now stored k sh settled).unconfirmed : Multiset Job) + out) ∧
        (Shared.doneEach S target now stored k sh settled).starved = sh.starved := by
  intro settled
  induction settled with
  | nil =>
    intro k sh h
    rw [List.map_nil, Multiset.coe_nil, zero_add] at h
    exact ⟨h, rfl⟩
  | cons s rest ih =>
    intro k sh h
    rw [List.map_cons, ← Multiset.cons_coe, Multiset.cons_add] at h
    obtain ⟨hone, hstarved⟩ := h.doneOne target now (stored k)
    obtain ⟨hrest, hstarved'⟩ := ih (k + 1) _ hone
    exact ⟨hrest, hstarved'.trans hstarved⟩

/-- **A reported batch leaves the loop for the source or for the unconfirmed connects.** -/
theorem Shared.Out.done {sh : Shared Job σ} {settled : List (Settled Job)} {out : Multiset Job}
    (h : sh.Out S s₀ ((sh.unconfirmed : Multiset Job) +
      ((settled.map Settled.job : Multiset Job) + out))) (now : Int) (stored : Nat → Bool) :
    (sh.done S target settled now stored).Out S s₀
      (((sh.done S target settled now stored).unconfirmed : Multiset Job) + out) ∧
      (sh.done S target settled now stored).starved = sh.starved := by
  unfold Shared.done
  split
  · next hlen =>
    rw [List.length_eq_zero_iff.mp hlen, List.map_nil, Multiset.coe_nil, zero_add] at h
    exact ⟨h, rfl⟩
  · have hd := Shared.Out.doneEach target now stored out settled 0 sh h
    cases S.waitCap with
    | none => exact hd
    | some waitCap => exact hd

theorem Shared.Out.unanswered {sh : Shared Job σ} {job : Job} {out : Multiset Job}
    (h : sh.Out S s₀ ((sh.unconfirmed : Multiset Job) + job ::ₘ out)) (now : Int) :
    (sh.unanswered S target job now).Out S s₀
      (((sh.unanswered S target job now).unconfirmed : Multiset Job) + out) ∧
      (sh.unanswered S target job now).starved = sh.starved := by
  have hbatch : sh.Out S s₀ ((sh.unconfirmed : Multiset Job) +
      ((([⟨job, .filtered, 0⟩] : List (Settled Job)).map Settled.job : Multiset Job) + out)) := by
    rw [List.map_cons, List.map_nil, Multiset.coe_singleton, Multiset.singleton_add]
    exact h
  exact hbatch.done now fun _ => true

/-- Asking for a connect: what comes out of the source is the job taken. -/
theorem Shared.Out.take {sh : Shared Job σ} {out : Multiset Job} (h : sh.Out S s₀ out)
    (loops inFlight : Nat) :
    (∃ job, (sh.take S loops inFlight).1 = .job job ∧
      (sh.take S loops inFlight).2.Out S s₀ (job ::ₘ out)) ∨
    (((sh.take S loops inFlight).1 = .full ∨ (sh.take S loops inFlight).1 = .dry) ∧
      (sh.take S loops inFlight).2.Out S s₀ out) := by
  unfold Shared.take
  split
  · exact Or.inr ⟨Or.inl rfl, h⟩
  · split
    · next job source hnext => exact Or.inl ⟨job, rfl, Serving.hand h hnext⟩
    · next source hnext => exact Or.inr ⟨Or.inr rfl, Serving.dry h hnext⟩

/-- A loop is told that the source is dry only after the source said so. -/
theorem Shared.take_dry {sh sh' : Shared Job σ} {loops inFlight : Nat}
    (h : sh.take S loops inFlight = (.dry, sh')) : Call.next none ∈ sh'.calls := by
  unfold Shared.take at h
  split at h
  · simp at h
  · split at h
    · simp at h
    · simp only [Prod.mk.injEq, true_and] at h
      subst h
      simp

@[simp] theorem Shared.take_unconfirmed (sh : Shared Job σ) (loops inFlight : Nat) :
    (sh.take S loops inFlight).2.unconfirmed = sh.unconfirmed := by
  unfold Shared.take
  split
  · rfl
  · split <;> rfl

@[simp] theorem Shared.take_starved (sh : Shared Job σ) (loops inFlight : Nat) :
    (sh.take S loops inFlight).2.starved = sh.starved := by
  unfold Shared.take
  split
  · rfl
  · split <;> rfl

end Shared

/-! ## One loop -/

section Loop

variable {S : Source Job σ} {target : Job → Target} {s₀ : σ}

/-- What a step of a loop does to the accounts, whatever the rest `r` of the run holds: the
connects out are still those inside, and jobs are dropped only in a run that starved. -/
def StepAccounts (S : Source Job σ) (s₀ : σ) (sh : Shared Job σ) (l : LoopState Job)
    (sh' : Shared Job σ) (l' : LoopState Job) : Prop :=
  ∀ r, sh.Out S s₀ ((sh.unconfirmed : Multiset Job) + (l.jobs + r)) →
    ∃ lost, sh'.Out S s₀ ((sh'.unconfirmed : Multiset Job) + (l'.jobs + (lost + r))) ∧
      (sh'.starved = false → lost = 0) ∧ (sh.starved = true → sh'.starved = true)

/-- A step that moves jobs only within the loop. -/
theorem StepAccounts.of_jobs_eq {sh : Shared Job σ} {l l' : LoopState Job}
    (h : l'.jobs = l.jobs) : StepAccounts S s₀ sh l sh l' := by
  intro r hr
  refine ⟨0, ?_, fun _ => rfl, id⟩
  rw [h, zero_add]
  exact hr

/-- A step that reports part `out` of what the loop held. -/
theorem StepAccounts.of_done {sh sh' : Shared Job σ} {l l' : LoopState Job}
    (h : ∀ r, sh.Out S s₀ ((sh.unconfirmed : Multiset Job) + (l.jobs + r)) →
      sh'.Out S s₀ ((sh'.unconfirmed : Multiset Job) + (l'.jobs + r)) ∧
        sh'.starved = sh.starved) : StepAccounts S s₀ sh l sh' l' := by
  intro r hr
  obtain ⟨hout, hstarved⟩ := h r hr
  refine ⟨0, ?_, fun _ => rfl, fun hs => by rw [hstarved]; exact hs⟩
  rw [zero_add]
  exact hout

theorem LoopState.jobs_topUp (l : LoopState Job) (now : Int) (hpc : l.pc.inHand = []) :
    (l.topUp now).jobs = l.jobs := by
  unfold LoopState.topUp
  split
  · split
    · exact LoopState.jobs_congr hpc.symm rfl rfl rfl
    · split
      · split
        · next job held hpop =>
          have hjobs := Held.jobs_of_pop hpop
          rw [LoopState.jobs, LoopState.jobs, hpc]
          simp only [Pc.inHand, hjobs, ← Multiset.cons_coe, Multiset.coe_nil,
            ← Multiset.singleton_add]
          abel
        · exact LoopState.jobs_congr hpc.symm rfl rfl rfl
      · split
        · exact LoopState.jobs_congr hpc.symm rfl rfl rfl
        · split <;> exact LoopState.jobs_congr hpc.symm rfl rfl rfl
  · exact LoopState.jobs_congr hpc.symm rfl rfl rfl

theorem LoopState.jobs_attempted (l : LoopState Job) (job : Job) (started : Int)
    (attempt : Started) (hpc : l.pc.inHand = [job]) :
    (l.attempted job started attempt).jobs = l.jobs := by
  cases attempt with
  | done verdict => exact LoopState.jobs_congr hpc.symm rfl rfl rfl
  | pending sock => exact LoopState.jobs_congr hpc.symm rfl rfl rfl
  | unprobed shortage =>
    have hjobs := Held.jobs_hold l.held job shortage started
    rw [LoopState.attempted, LoopState.jobs.eq_def l, hpc]
    cases hhold : l.held.hold job shortage started with
    | mk kept held =>
    rw [hhold] at hjobs
    replace hjobs : held.jobs = l.held.jobs ++ [job] := hjobs
    cases kept
    all_goals
      simp only [LoopState.jobs, Pc.inHand, hjobs, ← Multiset.coe_add, Multiset.coe_nil,
        Multiset.coe_singleton]
      abel

theorem LoopState.jobs_recordStart (l : LoopState Job) (job : Job) (started now : Int)
    (attempt : Started) (hpc : l.pc.inHand = [job]) :
    (l.recordStart target job started now attempt).jobs = l.jobs := by
  cases attempt with
  | done verdict =>
    rw [LoopState.jobs, LoopState.jobs, hpc]
    simp only [LoopState.recordStart, Pc.inHand, List.map_append, List.map_cons, List.map_nil,
      ← Multiset.coe_add, Multiset.coe_nil, Multiset.coe_singleton]
    abel
  | pending sock =>
    rw [LoopState.jobs, LoopState.jobs, hpc]
    simp only [LoopState.recordStart, Pc.inHand, Flight.jobs_add, ← Multiset.coe_add,
      Multiset.coe_nil, Multiset.coe_singleton]
    abel
  | unprobed shortage => rfl

theorem LoopState.jobs_idle (l : LoopState Job) (hpc : l.pc.inHand = []) :
    l.idle.jobs = l.jobs := by
  unfold LoopState.idle
  split
  · split
    · exact LoopState.jobs_congr hpc.symm rfl rfl rfl
    · split <;> exact LoopState.jobs_congr hpc.symm rfl rfl rfl
  · exact LoopState.jobs_congr hpc.symm rfl rfl rfl

/-- A suspect that is reported leaves the held jobs for the source. -/
theorem stepAccounts_suspect {sh : Shared Job σ} {l l' : LoopState Job} {suspect : Job}
    (started : Int) (hjobs : l.jobs = suspect ::ₘ l'.jobs) :
    StepAccounts S s₀ sh l (sh.unanswered S target suspect started) l' := by
  refine StepAccounts.of_done ?_
  intro r hr
  rw [hjobs, Multiset.cons_add] at hr
  exact Shared.Out.unanswered hr started

/-- A reported batch leaves the loop. -/
theorem stepAccounts_done {sh : Shared Job σ} {l l' : LoopState Job} (now : Int)
    (stored : Nat → Bool)
    (hjobs : l.jobs = (l.settled.map Settled.job : Multiset Job) + l'.jobs) :
    StepAccounts S s₀ sh l (sh.done S target l.settled now stored) l' := by
  refine StepAccounts.of_done ?_
  intro r hr
  rw [hjobs, add_assoc] at hr
  exact Shared.Out.done hr now stored

/-- Held connects are dropped in a run that starved, and only there. -/
theorem stepAccounts_drop {sh sh' : Shared Job σ} {l l' : LoopState Job}
    (hsource : sh'.source = sh.source ∧ sh'.calls = sh.calls ∧ sh'.unconfirmed = sh.unconfirmed)
    (hstarved : sh'.starved = true) (hjobs : l.jobs = l'.jobs + (l.held.jobs : Multiset Job)) :
    StepAccounts S s₀ sh l sh' l' := by
  intro r hr
  refine ⟨(l.held.jobs : Multiset Job), ?_, fun hf => ?_, fun _ => hstarved⟩
  · rw [hjobs, add_assoc] at hr
    rw [Shared.Out, hsource.1, hsource.2.1, hsource.2.2]
    exact hr
  · rw [hstarved] at hf
    simp at hf

/-- A job the source hands out is in the loop's hands. -/
theorem stepAccounts_take {loops : Nat} {env : LoopEnv} {sh sh' : Shared Job σ}
    {l l' : LoopState Job} {started : Int} (hpc : l.pc = .take started)
    (hs : l.step S target loops env sh = some (sh', l')) : StepAccounts S s₀ sh l sh' l' := by
  intro r hr
  rcases Shared.Out.take hr loops l.flight.len with ⟨job, htake, hout⟩ | ⟨htake, hout⟩
  · simp only [LoopState.step, hpc] at hs
    split at hs
    · next job' sh'' heq =>
      rw [heq] at htake hout
      cases htake
      simp only [Option.some.injEq, Prod.mk.injEq] at hs
      obtain ⟨rfl, rfl⟩ := hs
      have hun : sh''.unconfirmed = sh.unconfirmed := by
        have := Shared.take_unconfirmed (S := S) sh loops l.flight.len
        rwa [heq] at this
      have hst : sh''.starved = sh.starved := by
        have := Shared.take_starved (S := S) sh loops l.flight.len
        rwa [heq] at this
      refine ⟨0, ?_, fun _ => rfl, fun h => by rw [hst]; exact h⟩
      rw [hun, zero_add]
      simp only [LoopState.jobs, hpc, Pc.inHand, Multiset.coe_nil, Multiset.coe_singleton,
        ← Multiset.singleton_add] at hout ⊢
      convert hout using 1
      abel
    · next heq => rw [heq] at htake; cases htake
    · next heq => rw [heq] at htake; cases htake
  · have hun := Shared.take_unconfirmed (S := S) sh loops l.flight.len
    have hst := Shared.take_starved (S := S) sh loops l.flight.len
    simp only [LoopState.step, hpc] at hs
    split at hs
    · next heq => rw [heq] at htake; simp at htake
    all_goals
      next heq =>
      rw [heq] at hout hun hst
      simp only [Option.some.injEq, Prod.mk.injEq] at hs
      obtain ⟨rfl, rfl⟩ := hs
      refine ⟨0, ?_, fun _ => rfl, fun h => by rw [hst]; exact h⟩
      rw [hun, zero_add]
      simp only [LoopState.jobs, hpc, Pc.inHand] at hout ⊢
      exact hout

/-- **Every step of a loop keeps the accounts.** One case for each place of the loop; the
jobs move between its containers, to the source, or to the unconfirmed connects. -/
theorem LoopState.step_accounts {loops : Nat} {env : LoopEnv} {sh sh' : Shared Job σ}
    {l l' : LoopState Job} (hs : l.step S target loops env sh = some (sh', l')) :
    StepAccounts S s₀ sh l sh' l' := by
  cases LoopState.step_moves hs with
  | begin hpc =>
    refine StepAccounts.of_jobs_eq ?_
    cases env.allocated <;> simp [LoopState.jobs, Pc.inHand, hpc]
  | head hpc =>
    cases hst : sh.starved with
    | false => exact StepAccounts.of_jobs_eq (by simp [LoopState.jobs, Pc.inHand, hpc])
    | true =>
      refine stepAccounts_drop ⟨rfl, rfl, rfl⟩ hst ?_
      simp only [LoopState.jobs, Pc.inHand, hpc, if_true, Multiset.coe_nil]
      abel
  | topUp hpc => exact StepAccounts.of_jobs_eq (LoopState.jobs_topUp _ _ (by rw [hpc]; rfl))
  | takeJob hpc | takeFull hpc | takeDry hpc => exact stepAccounts_take hpc hs
  | dropSuspect hpc hdrop =>
    have hjobs := Held.jobs_dropSuspect l.held
    rw [hdrop] at hjobs
    refine stepAccounts_suspect _ ?_
    simp only [LoopState.jobs, Pc.inHand, hpc, hjobs, Option.toList_some, ← Multiset.coe_add,
      Multiset.coe_singleton, ← Multiset.singleton_add]
    abel
  | noSuspect hpc hdrop =>
    have hjobs := Held.jobs_dropSuspect l.held
    rw [hdrop] at hjobs
    exact StepAccounts.of_jobs_eq (LoopState.jobs_congr (by rw [hpc]; rfl) hjobs.symm rfl rfl)
  | start hpc => exact StepAccounts.of_jobs_eq (LoopState.jobs_attempted _ _ _ _ (by rw [hpc]; rfl))
  | starving hpc =>
    refine stepAccounts_drop ⟨rfl, rfl, rfl⟩ rfl ?_
    simp only [LoopState.jobs, Pc.inHand, hpc, Multiset.coe_nil]
    abel
  | clearSuspect hpc hclear =>
    have hjobs := Held.jobs_started l.held
    rw [hclear] at hjobs
    refine stepAccounts_suspect _ ?_
    simp only [LoopState.jobs, Pc.inHand, hpc, hjobs, Option.toList_some, ← Multiset.coe_add,
      Multiset.coe_singleton, ← Multiset.singleton_add]
    abel
  | clear hpc hclear =>
    have hjobs := Held.jobs_started l.held
    rw [hclear] at hjobs
    exact StepAccounts.of_jobs_eq (LoopState.jobs_congr (by rw [hpc]; rfl) hjobs.symm rfl rfl)
  | record hpc =>
    exact StepAccounts.of_jobs_eq (LoopState.jobs_recordStart _ _ _ _ _ (by rw [hpc]; rfl))
  | report hpc | reportSettled hpc =>
    refine stepAccounts_done _ _ ?_
    simp only [LoopState.jobs, Pc.inHand, hpc, List.map_nil, Multiset.coe_nil]
    abel
  | idle hpc => exact StepAccounts.of_jobs_eq (LoopState.jobs_idle _ (by rw [hpc]; rfl))
  | wait hpc | cutWait hpc =>
    exact StepAccounts.of_jobs_eq (LoopState.jobs_congr (by rw [hpc]; rfl) rfl rfl rfl)
  | poll hpc => exact StepAccounts.of_jobs_eq (by simp [LoopState.jobs, Pc.inHand, hpc])
  | @cutAnswer after cap hpc =>
    refine StepAccounts.of_jobs_eq ?_
    have hperm := Multiset.coe_eq_coe.mpr (Flight.takeSettled_perm target after
      (cutOf cap sh.lastCuttableAnswerNs) env.verdict l.flight.len l.flight l.settled)
    rw [← Multiset.coe_add, ← Multiset.coe_add] at hperm
    simp only [LoopState.jobs, Pc.inHand, hpc, add_assoc]
    rw [hperm]

/-! ## What the shared state keeps -/

/-- Calls are only ever added, and a run that starved stays starved. -/
structure Shared.Grows (sh sh' : Shared Job σ) : Prop where
  calls : sh.calls <+: sh'.calls
  starved : sh.starved = true → sh'.starved = true

theorem Shared.Grows.refl (sh : Shared Job σ) : sh.Grows sh := ⟨List.prefix_rfl, id⟩

theorem Shared.Grows.trans {a b c : Shared Job σ} (h : a.Grows b) (h' : b.Grows c) : a.Grows c :=
  ⟨h.calls.trans h'.calls, fun hs => h'.starved (h.starved hs)⟩

theorem Shared.grows_doneOne (sh : Shared Job σ) (s : Settled Job) (now : Int) (stored : Bool) :
    sh.Grows (sh.doneOne S target s now stored) := by
  unfold Shared.doneOne
  split
  · exact ⟨List.prefix_rfl, id⟩
  · simp only [Shared.sourceDone]
    split <;> exact ⟨List.prefix_append _ _, id⟩

theorem Shared.grows_doneEach (S : Source Job σ) (target : Job → Target) (now : Int)
    (stored : Nat → Bool) :
    ∀ (settled : List (Settled Job)) (k : Nat) (sh : Shared Job σ),
      sh.Grows (Shared.doneEach S target now stored k sh settled) := by
  intro settled
  induction settled with
  | nil => intro k sh; exact Shared.Grows.refl sh
  | cons s rest ih =>
    intro k sh
    exact (sh.grows_doneOne s now (stored k)).trans (ih (k + 1) _)

theorem Shared.grows_done (sh : Shared Job σ) (settled : List (Settled Job)) (now : Int)
    (stored : Nat → Bool) : sh.Grows (sh.done S target settled now stored) := by
  have heach := Shared.grows_doneEach S target now stored settled 0 sh
  unfold Shared.done
  split
  · exact Shared.Grows.refl sh
  · cases S.waitCap with
    | none => exact heach
    | some waitCap => exact ⟨heach.calls, heach.starved⟩

theorem Shared.grows_take (sh : Shared Job σ) (loops inFlight : Nat) :
    sh.Grows (sh.take S loops inFlight).2 := by
  unfold Shared.take
  split
  · exact Shared.Grows.refl sh
  · split <;> exact ⟨List.prefix_append _ _, id⟩

theorem LoopState.step_grows {loops : Nat} {env : LoopEnv} {sh sh' : Shared Job σ}
    {l l' : LoopState Job} (hs : l.step S target loops env sh = some (sh', l')) :
    sh.Grows sh' := by
  rcases LoopState.step_shared hs with rfl | rfl | ⟨settled, now, stored, rfl⟩ | ⟨-, rfl⟩
  · exact Shared.Grows.refl _
  · exact sh.grows_take loops l.flight.len
  · exact sh.grows_done settled now stored
  · exact ⟨List.prefix_rfl, fun _ => rfl⟩

/-! ## A loop that is over holds nothing -/

/-- What a loop leaves behind: it ends with empty hands, and only once the source had no
more (or the run starved). -/
structure LoopState.Tidy (sh : Shared Job σ) (l : LoopState Job) : Prop where
  fresh : l.pc = .begin → l.jobs = 0
  reported : l.pc = .idle → l.settled = []
  failed : l.pc = .failed → l.jobs = 0
  returned : l.pc = .returned → l.jobs = 0 ∧ l.dry = true
  dry : l.dry = true → sh.starved = true ∨ Call.next none ∈ sh.calls

theorem LoopState.Tidy.grows {sh sh' : Shared Job σ} {l : LoopState Job} (h : l.Tidy sh)
    (hg : sh.Grows sh') : l.Tidy sh' where
  fresh := h.fresh
  reported := h.reported
  failed := h.failed
  returned := h.returned
  dry := by
    intro hd
    rcases h.dry hd with hs | hc
    · exact Or.inl (hg.starved hs)
    · exact Or.inr (hg.calls.subset hc)

/-- A step to a place that promises nothing, with `dry` still accounted for. -/
theorem LoopState.Tidy.of_busy {sh : Shared Job σ} {l : LoopState Job}
    (hpc : l.pc ≠ .begin ∧ l.pc ≠ .idle ∧ l.pc ≠ .failed ∧ l.pc ≠ .returned)
    (hdry : l.dry = true → sh.starved = true ∨ Call.next none ∈ sh.calls) : l.Tidy sh where
  fresh h := absurd h hpc.1
  reported h := absurd h hpc.2.1
  failed h := absurd h hpc.2.2.1
  returned h := absurd h hpc.2.2.2
  dry := hdry

/-- `dry` is set only where the source had no more, or where the run starved. -/
theorem LoopState.topUp_dry (l : LoopState Job) (now : Int) : (l.topUp now).dry = l.dry := by
  unfold LoopState.topUp
  split
  · split
    · rfl
    · split
      · split <;> rfl
      · split
        · rfl
        · split <;> rfl
  · rfl

theorem LoopState.topUp_busy (l : LoopState Job) (now : Int) :
    (l.topUp now).pc ≠ .begin ∧ (l.topUp now).pc ≠ .idle ∧ (l.topUp now).pc ≠ .failed ∧
      (l.topUp now).pc ≠ .returned := by
  unfold LoopState.topUp
  split
  · split
    · simp
    · split
      · split <;> simp
      · split
        · simp
        · split <;> simp
  · simp

/-- A loop that finds nothing left to do has empty hands. -/
theorem LoopState.tidy_idle {sh : Shared Job σ} {l : LoopState Job} (h : l.Tidy sh)
    (hpc : l.pc = .idle) : l.idle.Tidy sh := by
  have hsettled := h.reported hpc
  unfold LoopState.idle
  split
  · next hlen =>
    split
    · exact LoopState.Tidy.of_busy (by simp) h.dry
    · split
      · next hdry =>
        have hheld : l.held.jobs = [] := List.length_eq_zero_iff.mp hdry.2
        have hslots : l.flight.slots = [] := List.length_eq_zero_iff.mp hlen
        refine ⟨by simp, by simp, by simp, fun _ => ⟨?_, hdry.1⟩, h.dry⟩
        simp [LoopState.jobs, Pc.inHand, Flight.jobs, hheld, hslots, hsettled]
      · exact LoopState.Tidy.of_busy (by simp) h.dry
  · exact LoopState.Tidy.of_busy (by simp) h.dry

/-- **Every step of a loop leaves it tidy.** -/
theorem LoopState.step_tidy {loops : Nat} {env : LoopEnv} {sh sh' : Shared Job σ}
    {l l' : LoopState Job} (h : l.Tidy sh) (hs : l.step S target loops env sh = some (sh', l')) :
    l'.Tidy sh' := by
  have hgrown := h.grows (LoopState.step_grows hs)
  cases LoopState.step_moves hs with
  | begin hpc =>
    cases env.allocated with
    | true => exact LoopState.Tidy.of_busy (by simp) h.dry
    | false =>
      refine ⟨by simp, by simp, fun _ => ?_, by simp, h.dry⟩
      rw [← h.fresh hpc]
      exact LoopState.jobs_congr (by rw [hpc]; rfl) rfl rfl rfl
  | head =>
    refine LoopState.Tidy.of_busy (by simp) ?_
    cases hst : sh.starved with
    | false => simpa [hst] using h.dry
    | true => exact fun _ => Or.inl rfl
  | topUp =>
    refine LoopState.Tidy.of_busy (LoopState.topUp_busy _ _) ?_
    rw [LoopState.topUp_dry]
    exact h.dry
  | takeDry hpc htake =>
    -- the source just said so
    exact LoopState.Tidy.of_busy (by simp) fun _ => Or.inr (Shared.take_dry htake)
  | start =>
    unfold LoopState.attempted
    split
    · split <;> exact LoopState.Tidy.of_busy (by simp) h.dry
    · exact LoopState.Tidy.of_busy (by simp) h.dry
  | starving => exact LoopState.Tidy.of_busy (by simp) fun _ => Or.inl rfl
  | record hpc =>
    unfold LoopState.recordStart
    split
    · exact LoopState.Tidy.of_busy (by simp) h.dry
    · exact LoopState.Tidy.of_busy (by simp) h.dry
    · exact LoopState.Tidy.of_busy (by simp [hpc]) h.dry
  | report => exact ⟨by simp, fun _ => rfl, by simp, by simp, hgrown.dry⟩
  | idle hpc => exact LoopState.tidy_idle h hpc
  | _ => exact LoopState.Tidy.of_busy (by simp) hgrown.dry

end Loop

/-! ## The whole run -/

section Run

variable {S : Source Job σ} {target : Job → Target} {u : Setup} {source : σ}

/-- The connects `run` itself still has to report. -/
def Engine.owed {n : Nat} (e : Engine Job σ n) : List Job :=
  match e.main with
  | .joining => e.shared.unconfirmed
  | .confirming todo => todo
  | .returned .ok => []
  | .returned _ => e.shared.unconfirmed

/-- Whether the run got past its loops without an error. -/
def Main.well : Main Job → Bool
  | .joining => false
  | .confirming _ => true
  | .returned result => result = .ok

/-- The invariant of a run. -/
structure Engine.Accounted (S : Source Job σ) (source : σ) {n : Nat} (e : Engine Job σ n) :
    Prop where
  /-- What the source has out is inside the run, or was dropped when a loop starved. -/
  out : ∃ lost, e.shared.Out S source ((e.owed : Multiset Job) + (∑ i, (e.loops i).jobs + lost)) ∧
    (e.shared.starved = false → lost = 0)
  tidy : ∀ i, (e.loops i).Tidy e.shared
  /-- `run` goes on only once all its loops are over. -/
  joined : e.main ≠ .joining → ∀ i, (e.loops i).pc.finished = true
  /-- It confirms what is left only after the source ran dry and no loop starved. -/
  well : e.main.well = true → e.shared.starved = false ∧ Call.next none ∈ e.shared.calls

theorem Engine.accounted_start (source : σ) :
    (Engine.start u source : Engine Job σ u.loops).Accounted S source where
  out := by
    refine ⟨0, ?_, fun _ => rfl⟩
    have hjobs : ∀ i, ((Engine.start u source : Engine Job σ u.loops).loops i).jobs = 0 :=
      fun _ => rfl
    rw [Finset.sum_congr rfl fun i _ => hjobs i, Finset.sum_const_zero]
    exact Serving.start
  tidy i := ⟨fun _ => rfl, by simp [Engine.start], by simp [Engine.start],
    by simp [Engine.start], by simp [Engine.start]⟩
  joined h := absurd rfl h
  well h := by simp [Engine.start, Main.well] at h

/-- A loop that is over holds nothing. -/
theorem LoopState.jobs_of_finished {sh : Shared Job σ} {l : LoopState Job} (h : l.Tidy sh)
    (hf : l.pc.finished = true) : l.jobs = 0 := by
  cases hpc : l.pc with
  | returned => exact (h.returned hpc).1
  | failed => exact h.failed hpc
  | _ => simp [hpc, Pc.finished] at hf

theorem Engine.Accounted.loop {e : Engine Job σ u.loops} (h : e.Accounted S source)
    {i : Fin u.loops} {env : LoopEnv} {sh : Shared Job σ} {l : LoopState Job}
    (hs : (e.loops i).step S target u.loops env e.shared = some (sh, l)) :
    Engine.Accounted S source
      { e with shared := sh, loops := Function.update e.loops i l } := by
  have hjoining : e.main = .joining := by
    by_contra hne
    have hf := h.joined hne i
    cases hpc : (e.loops i).pc with
    | returned => simp [LoopState.step, hpc] at hs
    | failed => simp [LoopState.step, hpc] at hs
    | _ => simp [hpc, Pc.finished] at hf
  have howed : e.owed = e.shared.unconfirmed := by rw [Engine.owed, hjoining]
  obtain ⟨lost, hout, hlost⟩ := h.out
  refine ⟨?_, ?_, fun hne => absurd hjoining hne, ?_⟩
  · -- the rest of the run holds what the other loops hold, and what was lost before
    rw [howed, ← Finset.add_sum_erase _ _ (Finset.mem_univ i), add_assoc] at hout
    obtain ⟨lost', hout', hlost', hgrows⟩ := LoopState.step_accounts hs _ hout
    refine ⟨lost' + lost, ?_, ?_⟩
    · have hrest : ∑ j ∈ Finset.univ.erase i, (Function.update e.loops i l j).jobs =
          ∑ j ∈ Finset.univ.erase i, (e.loops j).jobs := by
        refine Finset.sum_congr rfl fun j hj => ?_
        rw [Function.update_of_ne (Finset.ne_of_mem_erase hj)]
      have howed' : Engine.owed { e with shared := sh, loops := Function.update e.loops i l } =
          sh.unconfirmed := by simp [Engine.owed, hjoining]
      rw [howed', ← Finset.add_sum_erase _ _ (Finset.mem_univ i), hrest]
      simp only [Function.update_self]
      convert hout' using 1
      abel
    · intro hf
      have hbefore : e.shared.starved = false := by
        cases hst : e.shared.starved with
        | false => rfl
        | true => rw [hgrows hst] at hf; simp at hf
      rw [hlost' hf, hlost hbefore, add_zero]
  · intro j
    by_cases hij : j = i
    · subst hij
      simp only [Function.update_self]
      exact LoopState.step_tidy (h.tidy j) hs
    · simp only [Function.update_of_ne hij]
      exact (h.tidy j).grows (LoopState.step_grows hs)
  · intro hw
    simp [hjoining, Main.well] at hw

/-- What the calling thread does leaves the loops, the window and what was handed out alone. -/
theorem Engine.mainStep_keeps {e e' : Engine Job σ u.loops} {env : MainEnv}
    (hs : e.mainStep S u env = some e') :
    e'.loops = e.loops ∧ e'.shared.window = e.shared.window ∧
      handed e'.shared.calls = handed e.shared.calls := by
  unfold Engine.mainStep at hs
  split at hs
  · split at hs
    · split at hs
      · rw [← Option.some.inj hs]
        exact ⟨rfl, rfl, rfl⟩
      · split at hs <;> rw [← Option.some.inj hs] <;> exact ⟨rfl, rfl, rfl⟩
    · simp at hs
  · rw [← Option.some.inj hs]
    exact ⟨rfl, rfl, rfl⟩
  · split at hs
    · simp at hs
    · rw [← Option.some.inj hs]
      exact ⟨rfl, rfl, by simp [Shared.sourceDone]⟩
  · simp at hs

theorem Engine.Accounted.main {e e' : Engine Job σ u.loops} (h : e.Accounted S source)
    {env : MainEnv} (hs : e.mainStep S u env = some e') : e'.Accounted S source := by
  obtain ⟨lost, hout, hlost⟩ := h.out
  unfold Engine.mainStep at hs
  split at hs
  · next hmain =>
    rw [Engine.owed, hmain] at hout
    split at hs
    · next hfin =>
      split at hs
      · cases hs
        exact ⟨⟨lost, hout, hlost⟩, h.tidy, fun _ => hfin, by simp [Main.well]⟩
      · next hpc =>
        split at hs
        · cases hs
          exact ⟨⟨lost, hout, hlost⟩, h.tidy, fun _ => hfin, by simp [Main.well]⟩
        · next hstarved =>
          cases hs
          refine ⟨⟨lost, hout, hlost⟩, h.tidy, fun _ => hfin, fun _ => ?_⟩
          have hst : e.shared.starved = false := by simpa using hstarved
          -- the loop of the calling thread ended well, so it ran dry
          have hreturned : (e.loops ⟨0, u.loops_pos⟩).pc = .returned := by
            have hf := hfin ⟨0, u.loops_pos⟩
            cases hp : (e.loops ⟨0, u.loops_pos⟩).pc with
            | returned => rfl
            | failed => exact absurd hp hpc
            | _ => simp [hp, Pc.finished] at hf
          have htidy := h.tidy ⟨0, u.loops_pos⟩
          rcases htidy.dry (htidy.returned hreturned).2 with hs | hc
          · rw [hst] at hs
            simp at hs
          · exact ⟨hst, hc⟩
    · simp at hs
  · next hmain =>
    cases hs
    rw [Engine.owed, hmain] at hout
    exact ⟨⟨lost, hout, hlost⟩, h.tidy, fun _ => h.joined (by simp [hmain]),
      fun _ => h.well (by simp [hmain, Main.well])⟩
  · next job todo hmain =>
    rw [Engine.owed, hmain] at hout
    split at hs
    · simp at hs
    · next outcome _ =>
      cases hs
      have hgrows : e.shared.Grows (e.shared.sourceDone S job outcome
          (elapsedUs env.started env.finished)) := ⟨List.prefix_append _ _, id⟩
      refine ⟨⟨lost, ?_, hlost⟩, fun i => (h.tidy i).grows hgrows,
        fun _ => h.joined (by simp [hmain]), fun _ => ?_⟩
      · rw [← Multiset.cons_coe, Multiset.cons_add] at hout
        exact hout.sourceDone _ _
      · obtain ⟨hst, hc⟩ := h.well (by simp [hmain, Main.well])
        exact ⟨hst, hgrows.calls.subset hc⟩
  · simp at hs

/-- **The accounts of a run balance in every reachable state**, whatever the interleaving
of its loops and whatever the machine and the network answer. -/
theorem Engine.accounted {e : Engine Job σ u.loops}
    (h : (engine S target u source).Reachable e) : e.Accounted S source := by
  refine h.invariant ?_ ?_
  · rintro e rfl
    exact Engine.accounted_start source
  · intro e label e' _ hacc hs
    cases label with
    | loop i env =>
      simp only [engine, Engine.step] at hs
      split at hs
      · simp at hs
      · next hstep =>
        cases hs
        exact hacc.loop hstep
    | main env => exact hacc.main hs

/-- **A run that returns well is one pass over its source**: the source had no more, and
nothing it handed out is left unreported. -/
theorem Engine.pass_of_ok {e : Engine Job σ u.loops}
    (h : (engine S target u source).Reachable e) (hok : e.main = .returned .ok) :
    Pass S source e.shared.calls e.shared.source := by
  have hacc := Engine.accounted h
  obtain ⟨lost, hout, hlost⟩ := hacc.out
  obtain ⟨hstarved, hdry⟩ := hacc.well (by simp [hok, Main.well])
  have hjobs : ∀ i, (e.loops i).jobs = 0 := fun i =>
    LoopState.jobs_of_finished (hacc.tidy i) (hacc.joined (by simp [hok]) i)
  rw [Engine.owed, hok, hlost hstarved, Finset.sum_congr rfl fun i _ => hjobs i,
    Finset.sum_const_zero] at hout
  exact ⟨hout, hdry⟩

/--
**`connects.run` reports every connect exactly once.**

When `run` returns without an error, the jobs `done` was called with are exactly those
`next` handed out, each as often as it was handed out. When it fails for want of sockets,
none was reported more often than it was handed out.
-/
theorem run_reports_once (S : Source Job σ) (target : Job → Target) (u : Setup) (source : σ)
    {e : Engine Job σ u.loops} (h : (engine S target u source).Reachable e) :
    (e.main = .returned .ok → (reported e.shared.calls).Perm (handed e.shared.calls)) ∧
    (e.main = .returned .outOfSockets →
      (reported e.shared.calls).Subperm (handed e.shared.calls)) := by
  refine ⟨fun hok => (Engine.pass_of_ok h hok).served.perm, fun _ => ?_⟩
  obtain ⟨lost, hout, _⟩ := (Engine.accounted h).out
  exact hout.subperm

/-- A run over two connects to the machine itself, on one loop: the first is short of an
address and becomes a suspect, the second goes out, so the suspect is reported unanswered;
the second connects, and is confirmed at the end. -/
theorem run_reports_once_suspect_and_unconfirmed :
    let S : Source Nat (List Nat) :=
      { next := fun s => (s.head?, s.tail)
        done := fun s _ _ _ => s }
    let target : Nat → Target := fun _ =>
      { ip := (127, 0, 0, 1)
        port := 80
        timeoutMs := 500 }
    let u : Setup :=
      { limit := 4
        loops := 1
        poolPace := 4
        pace := .fixed
        loops_pos := by decide
        loops_le := by decide }
    ∃ e, (engine S target u [7, 8]).Reachable e ∧ e.main = .returned .ok ∧
      handed e.shared.calls = [7, 8] ∧
      (reported e.shared.calls).Perm (handed e.shared.calls) := by
  intro S target u
  let loop (env : LoopEnv) : EngineLabel u.loops := .loop ⟨0, by decide⟩ env
  let labels : List (EngineLabel u.loops) := [
    loop {}, loop {}, loop {}, loop {},
    loop { attempt := .unprobed .address }, loop {}, loop {},
    loop { attempt := .pending 3 }, loop {}, loop {},
    loop {}, loop {}, loop {}, loop {}, loop {}, loop {},
    loop { ready := fun _ => true }, loop {}, loop { verdict := fun _ => .unconfirmed },
    loop {}, loop {}, loop {}, loop {}, loop {}, loop {},
    .main {}, .main { attempts := [(0, .done .open)] }, .main {}]
  have hend : ((engine S target u [7, 8]).exec (Engine.start u [7, 8]) labels).map
      (fun e => (e.main, handed e.shared.calls)) = some (.returned .ok, [7, 8]) := by
    decide +kernel
  obtain ⟨e, hexec, hval⟩ := Option.map_eq_some_iff.mp hend
  obtain ⟨hok, hhanded⟩ := Prod.mk.inj hval
  have hrun : (engine S target u [7, 8]).Reachable e := ⟨_, labels, rfl, hexec⟩
  exact ⟨e, hrun, hok, hhanded, (run_reports_once S target u [7, 8] hrun).1 hok⟩

end Run

end NetScanner.Connects
