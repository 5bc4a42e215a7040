import NetScanner.Connects.Once
import NetScanner.Infra.History
import Mathlib.Algebra.Order.BigOperators.Group.Finset

/-!
# What happens to a connect that never went out

A connect that could not start never asked its target anything, so it must not count as the
target's silence; except that a lone `.address` failure may be the target's own (`Held.suspect`).

`Note` is what a watcher of the loops writes down: every try at a connect, what it gave and
whether the loop was short of something then, and every verdict the source heard. `Honest` says
what such a log may look like, and every step of a run keeps it: what a loop holds, what it has in
hand and what is in flight have left their traces in the log (`LoopState.Traced`).
-/

namespace NetScanner.Connects

open Infra

variable {Job σ : Type*} {n : Nat}

/-- Whether a connect went out. -/
def Started.wentOut : Started → Bool
  | .unprobed _ => false
  | _ => true

/-- What a loop did, as a watcher of the run writes it down. -/
inductive Note (Job : Type*) where
  /-- A try at starting a connect; `short` is whether the loop was short of something then. -/
  | tried (job : Job) (attempt : Started) (short : Bool)
  /-- The source had no more connects for the loop. -/
  | dry
  /-- The source heard a verdict. -/
  | reported (job : Job) (outcome : Outcome)
deriving DecidableEq, Repr

/-- The notes of a run, each with the loop it is about. -/
abbrev Log (n : Nat) (Job : Type*) := List (Fin n × Note Job)

/-- What a call on the source leaves in the log. -/
def Call.note : Call Job → Option (Note Job)
  | .next none => some .dry
  | .next (some _) => none
  | .done job outcome _ => some (.reported job outcome)

/-- The try a loop is about to make. -/
def LoopState.tries (l : LoopState Job) (env : LoopEnv) : List (Note Job) :=
  match l.pc with
  | .start job _ => [.tried job env.attempt l.held.short]
  | _ => []

/-- What is written down of a step of loop `i`: the try it makes, and the calls on the source. -/
def LoopState.notes (l : LoopState Job) (env : LoopEnv) (sh sh' : Shared Job σ) (i : Fin n) :
    Log n Job :=
  (l.tries env ++ (sh'.calls.drop sh.calls.length).filterMap Call.note).map (i, ·)

/-- A watcher of the loops, who writes down what each step of theirs did. -/
def writeDown (S : Source Job σ) (target : Job → Target) (u : Setup) (log : Log u.loops Job)
    (e : Engine Job σ u.loops) : EngineLabel u.loops → Log u.loops Job
  | .loop i env =>
    match (e.loops i).step S target u.loops env e.shared with
    | none => log
    | some (sh, _) => log ++ (e.loops i).notes env e.shared sh i
  | .main _ => log

/-! ## Reading the log -/

/-- None of the tries at `job` went out. -/
def NeverOut (log : Log n Job) (job : Job) : Prop :=
  ∀ i attempt short, (i, .tried job attempt short) ∈ log → attempt.wentOut = false

/-- The tries of one loop. -/
def triedBy (i : Fin n) (log : Log n Job) : List (Job × Started) :=
  log.filterMap fun
    | (j, .tried job attempt _) => if j = i then some (job, attempt) else none
    | _ => none

/-- The latest try at `job` was in loop `i` and failed for want of an address, while the loop was
not short of anything; since then the loop has made the tries `since`. -/
def SuspectSince (log : Log n Job) (i : Fin n) (job : Job) (since : List (Job × Started)) : Prop :=
  ∃ before after, log = before ++ (i, .tried job (.unprobed .address) false) :: after ∧
    (∀ j attempt short, (j, .tried job attempt short) ∉ after) ∧ triedBy i after = since

/-- What may be written down after `before`. -/
def Justified (before : Log n Job) : Fin n × Note Job → Prop
  | (_, .tried job _ _) => NeverOut before job
  | (_, .dry) => True
  | (i, .reported job outcome) => NeverOut before job →
    outcome = .filtered ∧
      ((∃ job' attempt, SuspectSince before i job [(job', attempt)] ∧
        attempt.wentOut = true ∧ job' ≠ job) ∨
      (SuspectSince before i job [] ∧ (i, .dry) ∈ before))

/-- A log whose every note was justified when it was written. -/
def Honest (log : Log n Job) : Prop := Each Justified log

@[simp] theorem triedBy_nil (i : Fin n) : triedBy i ([] : Log n Job) = [] := rfl

@[simp] theorem triedBy_append (i : Fin n) (log more : Log n Job) :
    triedBy i (log ++ more) = triedBy i log ++ triedBy i more := List.filterMap_append

theorem triedBy_of_not_tried {i : Fin n} {log : Log n Job}
    (h : ∀ j job attempt short, (j, .tried job attempt short) ∈ log → j ≠ i) :
    triedBy i log = [] := by
  rw [triedBy, List.filterMap_eq_nil_iff]
  rintro ⟨j, note⟩ hmem
  cases note with
  | tried job attempt short => simp [h j job attempt short hmem]
  | dry => rfl
  | reported job outcome => rfl

theorem NeverOut.append {log more : Log n Job} {job : Job} (h : NeverOut log job)
    (hmore : NeverOut more job) : NeverOut (log ++ more) job := by
  intro i attempt short hmem
  rcases List.mem_append.mp hmem with hmem | hmem
  · exact h i attempt short hmem
  · exact hmore i attempt short hmem

/-- A job that went out is found in every longer log. -/
theorem NeverOut.of_append {log more : Log n Job} {job : Job} (h : NeverOut (log ++ more) job) :
    NeverOut log job :=
  fun i attempt short hmem => h i attempt short (List.mem_append_left _ hmem)

theorem SuspectSince.append {log more : Log n Job} {i : Fin n} {job : Job}
    {since : List (Job × Started)} (h : SuspectSince log i job since)
    (hmore : ∀ j attempt short, (j, .tried job attempt short) ∉ more) :
    SuspectSince (log ++ more) i job (since ++ triedBy i more) := by
  obtain ⟨before, after, rfl, hlatest, rfl⟩ := h
  refine ⟨before, after ++ more, by simp, ?_, by simp⟩
  intro j attempt short hmem
  rcases List.mem_append.mp hmem with hmem | hmem
  · exact hlatest j attempt short hmem
  · exact hmore j attempt short hmem

theorem Honest.append {log : Log n Job} {note : Fin n × Note Job} (h : Honest log)
    (hnote : Justified log note) : Honest (log ++ [note]) :=
  each_concat_iff.mpr ⟨h, hnote⟩

/-! ## The calls a step makes -/

section Calls

variable (S : Source Job σ) (target : Job → Target) (sh : Shared Job σ)

theorem Shared.done_calls (settled : List (Settled Job)) (now : Int) (stored : Nat → Bool) :
    ∃ new, (sh.done S target settled now stored).calls = sh.calls ++ new ∧
      ∀ call ∈ new, ∃ s ∈ settled, call = .done s.job s.verdict.alone s.elapsedUs := by
  have heach : ∀ (settled : List (Settled Job)) (k : Nat) (sh : Shared Job σ),
      ∃ new, (Shared.doneEach S target now stored k sh settled).calls = sh.calls ++ new ∧
        ∀ call ∈ new, ∃ s ∈ settled, call = .done s.job s.verdict.alone s.elapsedUs := by
    intro settled
    induction settled with
    | nil => exact fun k sh => ⟨[], by simp [Shared.doneEach], by simp⟩
    | cons s rest ih =>
      intro k sh
      obtain ⟨new, hcalls, hnew⟩ := ih (k + 1) (sh.doneOne S target s now (stored k))
      have hone : ∃ one, (sh.doneOne S target s now (stored k)).calls = sh.calls ++ one ∧
          ∀ call ∈ one, call = .done s.job s.verdict.alone s.elapsedUs := by
        unfold Shared.doneOne
        split
        · exact ⟨[], by simp, by simp⟩
        · simp only [Shared.sourceDone]
          split <;> exact ⟨[.done s.job s.verdict.alone s.elapsedUs], rfl, by simp⟩
      obtain ⟨one, hcall, hone⟩ := hone
      refine ⟨one ++ new, ?_, ?_⟩
      · rw [Shared.doneEach, hcalls, hcall, List.append_assoc]
      · intro call hmem
        rcases List.mem_append.mp hmem with hmem | hmem
        · exact ⟨s, by simp, hone call hmem⟩
        · obtain ⟨s', hs', hcall⟩ := hnew call hmem
          exact ⟨s', by simp [hs'], hcall⟩
  unfold Shared.done
  split
  · exact ⟨[], by simp, by simp⟩
  · cases S.waitCap with
    | none => exact heach settled 0 sh
    | some waitCap => exact heach settled 0 sh

theorem Shared.unanswered_calls (job : Job) (now : Int) :
    (sh.unanswered S target job now).calls = sh.calls ++ [.done job .filtered 0] := by
  unfold Shared.unanswered Shared.done
  cases S.waitCap <;> simp [Shared.doneEach, Shared.doneOne, Shared.sourceDone, Verdict.alone]

theorem Shared.take_cases (loops inFlight : Nat) :
    sh.take S loops inFlight = (.full, sh) ∨
    (∃ job source, sh.take S loops inFlight = (.job job,
      { sh with source := source, calls := sh.calls ++ [.next (some job)] })) ∨
    ∃ source, sh.take S loops inFlight = (.dry,
      { sh with source := source, calls := sh.calls ++ [.next none] }) := by
  unfold Shared.take
  split
  · exact Or.inl rfl
  · split
    · next job source _ => exact Or.inr (Or.inl ⟨job, source, rfl⟩)
    · next source _ => exact Or.inr (Or.inr ⟨source, rfl⟩)

end Calls

/-! ## The traces a loop has left -/

/-- Some try at `job` went out. -/
def WasOut (log : Log n Job) (job : Job) : Prop :=
  ∃ i attempt short, (i, .tried job attempt short) ∈ log ∧ attempt.wentOut = true

theorem WasOut.append {log : Log n Job} {job : Job} (h : WasOut log job) (more : Log n Job) :
    WasOut (log ++ more) job := by
  obtain ⟨i, attempt, short, hmem, hout⟩ := h
  exact ⟨i, attempt, short, List.mem_append_left _ hmem, hout⟩

theorem WasOut.not_neverOut {log : Log n Job} {job : Job} (h : WasOut log job) :
    ¬NeverOut log job := by
  obtain ⟨i, attempt, short, hmem, hout⟩ := h
  intro hnever
  simp [hnever i attempt short hmem] at hout

/-- The tries a loop has made since its suspect's. -/
def Pc.sinceSuspect : Pc Job → List (Job × Started)
  | .wentOut job _ attempt => [(job, attempt)]
  | _ => []

/-- The loop has nothing, and will take nothing more. -/
structure LoopState.Spent (l : LoopState Job) : Prop where
  held : l.held.jobs = []
  inHand : l.pc.inHand = []
  take : ∀ started, l.pc ≠ .take started

/-- What the log knows of the jobs of loop `i`. -/
structure LoopState.Traced (log : Log n Job) (i : Fin n) (l : LoopState Job) : Prop where
  held : ∀ job ∈ l.held.jobs, NeverOut log job
  start : ∀ job started, l.pc = .start job started → NeverOut log job
  wentOut : ∀ job started attempt, l.pc = .wentOut job started attempt →
    attempt.wentOut = true ∧ WasOut log job
  record : ∀ job started attempt, l.pc = .record job started attempt → WasOut log job
  flight : ∀ job ∈ l.flight.jobs, WasOut log job
  settled : ∀ s ∈ l.settled, WasOut log s.job
  suspect : l.held.suspect = true →
    ∃ job, l.held.jobs = [job] ∧ SuspectSince log i job l.pc.sinceSuspect
  noTarget : ∀ started, l.pc = .noTarget started → l.dry = true
  dry : l.dry = true → (i, .dry) ∈ log ∨ l.Spent

/-- What others do, and what the source hears, leaves a loop's traces as they are. -/
theorem LoopState.Traced.append {log : Log n Job} {i : Fin n} {l : LoopState Job}
    (h : l.Traced log i) {more : Log n Job}
    (hmore : ∀ j job attempt short, (j, .tried job attempt short) ∈ more →
      j ≠ i ∧ job ∉ l.jobs) : l.Traced (log ++ more) i := by
  have hheld : ∀ job ∈ l.held.jobs, ∀ j attempt short, (j, .tried job attempt short) ∉ more := by
    intro job hjob j attempt short hmem
    refine (hmore j job attempt short hmem).2 ?_
    simp [LoopState.jobs, hjob]
  refine ⟨?_, ?_, ?_, ?_, ?_, ?_, ?_, h.noTarget, ?_⟩
  · intro job hjob
    exact (h.held job hjob).append fun j attempt short hmem =>
      absurd hmem (hheld job hjob j attempt short)
  · intro job started hpc
    refine (h.start job started hpc).append fun j attempt short hmem => ?_
    refine absurd ?_ (hmore j job attempt short hmem).2
    simp [LoopState.jobs, hpc, Pc.inHand]
  · intro job started attempt hpc
    obtain ⟨hout, hwas⟩ := h.wentOut job started attempt hpc
    exact ⟨hout, hwas.append more⟩
  · exact fun job started attempt hpc => (h.record job started attempt hpc).append more
  · exact fun job hjob => (h.flight job hjob).append more
  · exact fun s hs => (h.settled s hs).append more
  · intro hsuspect
    obtain ⟨job, hjobs, hsince⟩ := h.suspect hsuspect
    refine ⟨job, hjobs, ?_⟩
    have happend := hsince.append (hheld job (by simp [hjobs]))
    rwa [triedBy_of_not_tried fun j job attempt short hmem => (hmore j job attempt short hmem).1,
      List.append_nil] at happend
  · intro hdry
    rcases h.dry hdry with hmem | hspent
    · exact Or.inl (List.mem_append_left _ hmem)
    · exact Or.inr hspent

/-! ## One loop -/

namespace LoopState.Traced

variable {log : Log n Job} {i : Fin n} {l : LoopState Job}

/-- A loop that starts nothing keeps what it holds. -/
theorem move (h : l.Traced log i) (hsince : l.pc.sinceSuspect = []) {l' : LoopState Job}
    (hheld : l'.held = l.held) (hdry : l'.dry = l.dry) (hpc : l'.pc.inHand = [])
    (htake : ∀ started, l'.pc = .take started → l'.dry = false)
    (hnoTarget : ∀ started, l'.pc = .noTarget started → l'.dry = true)
    (hflight : ∀ job ∈ l'.flight.jobs, WasOut log job)
    (hsettled : ∀ s ∈ l'.settled, WasOut log s.job) : l'.Traced log i := by
  have hsince' : l'.pc.sinceSuspect = [] := by
    cases hp : l'.pc <;> simp [hp, Pc.inHand, Pc.sinceSuspect] at hpc ⊢
  refine ⟨?_, ?_, ?_, ?_, hflight, hsettled, ?_, hnoTarget, ?_⟩
  · rw [hheld]
    exact h.held
  · intro job started hp
    simp [hp, Pc.inHand] at hpc
  · intro job started attempt hp
    simp [hp, Pc.inHand] at hpc
  · intro job started attempt hp
    simp [hp, Pc.inHand] at hpc
  · rw [hheld, hsince', ← hsince]
    exact h.suspect
  · intro hd
    rcases h.dry (hdry ▸ hd) with hmem | hspent
    · exact Or.inl hmem
    · refine Or.inr ⟨by rw [hheld]; exact hspent.held, hpc, ?_⟩
      intro started hp
      simp [htake started hp] at hd

/-- Nor does one that is over: its connects in flight still settle. -/
theorem starved (h : l.Traced log i) {l' : LoopState Job} (hheld : l'.held = {})
    (hpc : l'.pc = .topUp) (hflight : l'.flight = l.flight)
    (hsettled : l'.settled = l.settled) : l'.Traced log i := by
  refine ⟨by simp [hheld], by simp [hpc], by simp [hpc], by simp [hpc], ?_, ?_, by simp [hheld],
    by simp [hpc], fun _ => Or.inr ⟨by rw [hheld], by rw [hpc]; rfl, by simp [hpc]⟩⟩
  · rw [hflight]
    exact h.flight
  · rw [hsettled]
    exact h.settled

theorem topUp (h : l.Traced log i) (hpc : l.pc = .topUp) (now : Int) :
    (l.topUp now).Traced log i := by
  have hsince : l.pc.sinceSuspect = [] := by rw [hpc]; rfl
  unfold LoopState.topUp
  split
  · split
    · exact h.move hsince rfl rfl rfl (by simp) (by simp) h.flight h.settled
    · split
      · next hdue =>
        split
        · next job held hpop =>
          -- the oldest held connect is tried again; it is no suspect
          have hjobs := Held.jobs_of_pop hpop
          have hsuspect : held.suspect = false := by
            unfold Held.pop at hpop
            rw [hjobs] at hpop
            simp only [Option.some.injEq, Prod.mk.injEq, true_and] at hpop
            rw [← hpop]
            simp only [Held.due, Bool.and_eq_true, Bool.not_eq_true'] at hdue
            exact hdue.1.2
          refine ⟨?_, ?_, by simp, by simp, h.flight, h.settled, by simp [hsuspect], by simp, ?_⟩
          · intro job' hmem
            exact h.held job' (by rw [hjobs]; exact List.mem_cons_of_mem _ hmem)
          · intro job' started hp
            cases hp
            exact h.held job (by rw [hjobs]; simp)
          · intro hd
            rcases h.dry hd with hmem | hspent
            · exact Or.inl hmem
            · simp [hspent.held] at hjobs
        · exact h.move hsince rfl rfl rfl (by simp) (by simp) h.flight h.settled
      · split
        · exact h.move hsince rfl rfl rfl (by simp) (by simp) h.flight h.settled
        · split
          · next hdry =>
            exact h.move hsince rfl rfl rfl (fun _ _ => by simpa using hdry) (by simp) h.flight
              h.settled
          · next hdry =>
            exact h.move hsince rfl rfl rfl (by simp) (fun _ _ => by simpa using hdry) h.flight
              h.settled
  · exact h.move hsince rfl rfl rfl (by simp) (by simp) h.flight h.settled

/-- A connect that could not start is held, and may be a suspect. -/
theorem hold (h : l.Traced log i) {job : Job} {started : Int} (hpc : l.pc = .start job started)
    (shortage : Shortage) (batch : Nat) {pc : Pc Job} (hpc' : pc = .topUp ∨ pc = .starving) :
    LoopState.Traced (log ++ [(i, .tried job (.unprobed shortage) l.held.short)]) i
      { l with held := (l.held.hold job shortage started).2, batch := batch, pc := pc } := by
  have hnever : ∀ job', NeverOut log job' →
      NeverOut (log ++ [(i, .tried job (.unprobed shortage) l.held.short)]) job' := by
    intro job' hjob'
    refine hjob'.append fun j attempt short hmem => ?_
    simp only [List.mem_singleton, Prod.mk.injEq, Note.tried.injEq] at hmem
    rw [hmem.2.2.1]
    rfl
  have hplain : ∀ job' st a, pc ≠ .start job' st ∧ pc ≠ .wentOut job' st a ∧
      pc ≠ .record job' st a ∧ pc ≠ .noTarget st := by
    rcases hpc' with rfl | rfl <;> simp
  refine ⟨?_, fun job' st hp => absurd hp (hplain job' st (.done .open)).1,
    fun job' st a hp => absurd hp (hplain job' st a).2.1,
    fun job' st a hp => absurd hp (hplain job' st a).2.2.1,
    fun job' hjob' => (h.flight job' hjob').append _, fun s hs => (h.settled s hs).append _, ?_,
    fun st hp => absurd hp (hplain job st (.done .open)).2.2.2, ?_⟩
  · intro job' hmem
    rw [Held.jobs_hold] at hmem
    rcases List.mem_append.mp hmem with hmem | hmem
    · exact hnever job' (h.held job' hmem)
    · rw [List.mem_singleton] at hmem
      rw [hmem]
      exact hnever job (h.start job started hpc)
  · intro hsuspect
    have hjobs := l.held.jobs_hold job shortage started
    have hsince : pc.sinceSuspect = [] := by rcases hpc' with rfl | rfl <;> rfl
    -- only a lone `.address` failure, while nothing was short, makes a suspect
    have hlone : shortage = .address ∧ l.held.short = false ∧ l.held.jobs = [] := by
      simp only [Held.hold] at hsuspect
      split at hsuspect
      · next hcond =>
        refine ⟨hcond.1, hcond.2.1, ?_⟩
        simpa using hcond.2.2
      · split at hsuspect <;> simp at hsuspect
    obtain ⟨rfl, hshort, hnil⟩ := hlone
    refine ⟨job, by simp only [hjobs, hnil, List.nil_append], ?_⟩
    rw [hsince, hshort]
    exact ⟨log, [], rfl, by simp, rfl⟩
  · intro hd
    rcases h.dry hd with hmem | hspent
    · exact Or.inl (List.mem_append_left _ hmem)
    · have hhand := hspent.inHand
      simp [hpc, Pc.inHand] at hhand

/-- A connect that went out is neither of those the loop still holds. -/
theorem goOut (h : l.Traced log i) {job : Job} {started : Int} (hpc : l.pc = .start job started)
    (hnew : job ∉ l.held.jobs) {attempt : Started} (hout : attempt.wentOut = true) :
    LoopState.Traced (log ++ [(i, .tried job attempt l.held.short)]) i
      { l with pc := .wentOut job started attempt } := by
  have hothers : ∀ job' ∈ l.held.jobs, ∀ j a short,
      (j, .tried job' a short) ∉ [(i, Note.tried job attempt l.held.short)] := by
    intro job' hmem j a short hnote
    simp only [List.mem_singleton, Prod.mk.injEq, Note.tried.injEq] at hnote
    rw [hnote.2.1] at hmem
    exact hnew hmem
  have hwas : WasOut (log ++ [(i, .tried job attempt l.held.short)]) job :=
    ⟨i, attempt, l.held.short, by simp, hout⟩
  refine ⟨?_, by simp, ?_, by simp, fun job' hjob' => (h.flight job' hjob').append _,
    fun s hs => (h.settled s hs).append _, ?_, by simp, ?_⟩
  · intro job' hmem
    exact (h.held job' hmem).append fun j a short hnote =>
      absurd hnote (hothers job' hmem j a short)
  · intro job' st a hp
    cases hp
    exact ⟨hout, hwas⟩
  · intro hsuspect
    obtain ⟨suspect, hjobs, hsince⟩ := h.suspect hsuspect
    refine ⟨suspect, hjobs, ?_⟩
    have happend := hsince.append (hothers suspect (by simp [hjobs]))
    rw [hpc] at happend
    simpa [triedBy, Pc.sinceSuspect] using happend
  · intro hd
    rcases h.dry hd with hmem | hspent
    · exact Or.inl (List.mem_append_left _ hmem)
    · have hhand := hspent.inHand
      simp [hpc, Pc.inHand] at hhand

/-- Once a suspect is cleared or reported, none is left. -/
theorem clear (h : l.Traced log i) {held : Held Job} (hjobs : held.jobs ⊆ l.held.jobs)
    (hsuspect : held.suspect = false) {pc : Pc Job}
    (hpc : pc = .report ∨ ∃ job started attempt, pc = .record job started attempt ∧
      l.pc = .wentOut job started attempt) :
    LoopState.Traced log i { l with held := held, pc := pc } := by
  have hplain : ∀ job st a, pc ≠ .start job st ∧ pc ≠ .wentOut job st a ∧ pc ≠ .take st ∧
      pc ≠ .noTarget st := by
    rcases hpc with rfl | ⟨job, started, attempt, rfl, _⟩ <;> simp
  refine ⟨fun job hmem => h.held job (hjobs hmem),
    fun job st hp => absurd hp (hplain job st (.done .open)).1,
    fun job st a hp => absurd hp (hplain job st a).2.1, ?_, h.flight, h.settled,
    by simp [hsuspect], ?_, ?_⟩
  · intro job st a hp
    rcases hpc with rfl | ⟨job', started, attempt, rfl, hout⟩
    · simp at hp
    · cases hp
      exact (h.wentOut job st a hout).2
  · intro st hp
    rcases hpc with rfl | ⟨job', started, attempt, rfl, _⟩ <;> simp at hp
  · intro hd
    rcases h.dry hd with hmem | hspent
    · exact Or.inl hmem
    · rcases hpc with rfl | ⟨job, started, attempt, rfl, hout⟩
      · refine Or.inr ⟨?_, rfl, by simp⟩
        exact List.eq_nil_of_subset_nil (hspent.held ▸ hjobs)
      · have hhand := hspent.inHand
        simp [hout, Pc.inHand] at hhand

/-- The walk moves connects from the flight to the batch. -/
theorem walk (target : Job → Target) (h : l.Traced log i) (hsince : l.pc.sinceSuspect = [])
    (after : Int) (cut : Cut) (verdict : Nat → Verdict) :
    LoopState.Traced log i { l with
      flight := (Flight.takeSettled target after cut verdict l.flight.len l.flight l.settled).1
      settled := (Flight.takeSettled target after cut verdict l.flight.len l.flight l.settled).2
      pc := .reportSettled after } := by
  have hperm := Flight.takeSettled_perm target after cut verdict l.flight.len l.flight l.settled
  have hall : ∀ job ∈ l.flight.jobs ++ l.settled.map Settled.job, WasOut log job := by
    intro job hmem
    rcases List.mem_append.mp hmem with hmem | hmem
    · exact h.flight job hmem
    · obtain ⟨s, hs, rfl⟩ := List.mem_map.mp hmem
      exact h.settled s hs
  refine h.move hsince rfl rfl rfl (by simp) (by simp) ?_ ?_
  · intro job hmem
    exact hall job (hperm.subset (List.mem_append_left _ hmem))
  · intro s hs
    exact hall s.job (hperm.subset (List.mem_append_right _ (List.mem_map_of_mem hs)))

theorem recordStart (target : Job → Target) (h : l.Traced log i) {job : Job} {started : Int}
    {attempt : Started} (hpc : l.pc = .record job started attempt) (now : Int) :
    (l.recordStart target job started now attempt).Traced log i := by
  have hwas := h.record job started attempt hpc
  have hsince : l.pc.sinceSuspect = [] := by rw [hpc]; rfl
  unfold LoopState.recordStart
  split
  · refine h.move hsince rfl rfl rfl (by simp) (by simp) h.flight ?_
    intro s hs
    rcases List.mem_append.mp hs with hs | hs
    · exact h.settled s hs
    · rw [List.mem_singleton] at hs
      rw [hs]
      exact hwas
  · refine h.move hsince rfl rfl rfl (by simp) (by simp) ?_ h.settled
    intro job' hmem
    rw [Flight.jobs_add] at hmem
    rcases List.mem_append.mp hmem with hmem | hmem
    · exact h.flight job' hmem
    · rw [List.mem_singleton] at hmem
      rw [hmem]
      exact hwas
  · exact h

end LoopState.Traced

theorem LoopState.notes_eq {l : LoopState Job} {env : LoopEnv} {sh sh' : Shared Job σ}
    {i : Fin n} {new : List (Call Job)} (htries : l.tries env = [])
    (hcalls : sh'.calls = sh.calls ++ new) :
    l.notes env sh sh' i = (new.filterMap Call.note).map (i, ·) := by
  rw [LoopState.notes, htries, hcalls, List.drop_left, List.nil_append]

theorem LoopState.notes_nil {l : LoopState Job} {env : LoopEnv} {sh sh' : Shared Job σ}
    {i : Fin n} (htries : l.tries env = []) (hcalls : sh'.calls = sh.calls) :
    l.notes env sh sh' i = [] := by
  rw [LoopState.notes_eq htries (by rw [hcalls, List.append_nil] : sh'.calls = sh.calls ++ [])]
  rfl

section Step

variable {S : Source Job σ} {target : Job → Target} {loops : Nat} {env : LoopEnv}
  {sh sh' : Shared Job σ} {l l' : LoopState Job} {log : Log n Job} {i : Fin n}

variable (S target sh) in
/-- The batch a loop reports is of connects that went out. -/
theorem LoopState.Traced.reportBatch (h : l.Traced log i) (hhonest : Honest log)
    (htries : l.tries env = []) (now : Int) :
    Honest (log ++ l.notes env sh (sh.done S target l.settled now env.stored) i) ∧
      l.Traced (log ++ l.notes env sh (sh.done S target l.settled now env.stored) i) i := by
  obtain ⟨new, hcalls, hnew⟩ := sh.done_calls S target l.settled now env.stored
  rw [LoopState.notes_eq htries hcalls]
  have hnotes : ∀ note ∈ (new.filterMap Call.note).map (Prod.mk i),
      ∃ s ∈ l.settled, note = (i, .reported s.job s.verdict.alone) := by
    intro note hmem
    obtain ⟨what, hwhat, rfl⟩ := List.mem_map.mp hmem
    obtain ⟨call, hcall, hsome⟩ := List.mem_filterMap.mp hwhat
    obtain ⟨s, hs, rfl⟩ := hnew call hcall
    simp only [Call.note, Option.some.injEq] at hsome
    exact ⟨s, hs, by rw [hsome]⟩
  constructor
  · refine each_append_iff.mpr ⟨hhonest, fun before note hpre => ?_⟩
    obtain ⟨s, hs, rfl⟩ := hnotes note (hpre.subset (by simp))
    intro hnever
    exact absurd hnever.of_append (h.settled s hs).not_neverOut
  · refine h.append fun j job attempt short hmem => ?_
    obtain ⟨s, _, heq⟩ := hnotes _ hmem
    simp at heq

variable (S target sh) in
/-- A suspect is reported for a reason. -/
theorem LoopState.Traced.reportSuspect (h : l.Traced log i) (hhonest : Honest log)
    (htries : l.tries env = []) (suspect : Job) (now : Int)
    (hjustified : Justified log (i, .reported suspect .filtered)) :
    Honest (log ++ l.notes env sh (sh.unanswered S target suspect now) i) ∧
      l.Traced (log ++ l.notes env sh (sh.unanswered S target suspect now) i) i := by
  rw [LoopState.notes_eq htries (sh.unanswered_calls S target suspect now)]
  refine ⟨hhonest.append hjustified, h.append fun j job attempt short hmem => ?_⟩
  simp [Call.note] at hmem

theorem Held.dropSuspect_cases (held : Held Job) :
    (held.suspect = false ∧ held.dropSuspect = (none, held)) ∨
    (held.suspect = true ∧ held.jobs = []) ∨
    ∃ job rest, held.suspect = true ∧ held.jobs = job :: rest ∧
      held.dropSuspect = (some job, { held with suspect := false, jobs := rest }) := by
  unfold Held.dropSuspect
  cases hsuspect : held.suspect with
  | false => exact Or.inl ⟨rfl, by simp⟩
  | true =>
    cases hjobs : held.jobs with
    | nil => exact Or.inr (Or.inl ⟨rfl, rfl⟩)
    | cons job rest => exact Or.inr (Or.inr ⟨job, rest, rfl, rfl, by simp [Held.pop]⟩)

/-- The connect in hand is not one of those held. -/
theorem LoopState.not_held_of_inHand {job : Job} (hnodup : l.jobs.Nodup)
    (hhand : l.pc.inHand = [job]) : job ∉ l.held.jobs := by
  unfold LoopState.jobs at hnodup
  rw [hhand] at hnodup
  have hboth := (Multiset.nodup_add.mp (Multiset.nodup_add.mp hnodup).1).1
  have hdisjoint := (Multiset.nodup_add.mp hboth).2.2
  intro hmem
  exact Multiset.disjoint_left.mp hdisjoint (Multiset.mem_singleton_self job) hmem

/-- A step that neither tries a connect nor calls the source is not written down. -/
theorem LoopState.Traced.quiet (h : l'.Traced log i) (hhonest : Honest log)
    (htries : l.tries env = []) (hcalls : sh'.calls = sh.calls) :
    Honest (log ++ l.notes env sh sh' i) ∧ l'.Traced (log ++ l.notes env sh sh' i) i := by
  rw [LoopState.notes_nil htries hcalls, List.append_nil]
  exact ⟨hhonest, h⟩

/-- Asking the source: a connect it hands out is new, and that it has none is written down. -/
theorem LoopState.Traced.take (h : l.Traced log i) (hhonest : Honest log) {started : Int}
    (hpc : l.pc = .take started)
    (hfresh : ∀ j job attempt short, (j, .tried job attempt short) ∈ log → job ∈ handed sh.calls)
    (hhanded : (handed sh'.calls).Nodup) (hs : l.step S target loops env sh = some (sh', l')) :
    Honest (log ++ l.notes env sh sh' i) ∧ l'.Traced (log ++ l.notes env sh sh' i) i := by
  have htries : l.tries env = [] := by simp [LoopState.tries, hpc]
  have hsince : l.pc.sinceSuspect = [] := by rw [hpc]; rfl
  have hdry : l.dry = true → (i, .dry) ∈ log := by
    intro hd
    rcases h.dry hd with hmem | hspent
    · exact hmem
    · exact absurd hpc (hspent.take started)
  simp only [LoopState.step, hpc] at hs
  rcases sh.take_cases S loops l.flight.len with heq | ⟨job, source, heq⟩ | ⟨source, heq⟩
  · rw [heq] at hs
    cases hs
    exact LoopState.Traced.quiet
      (h.move hsince rfl rfl rfl (by simp) (by simp) h.flight h.settled) hhonest htries rfl
  · rw [heq] at hs
    cases hs
    rw [LoopState.notes_eq htries rfl]
    simp only [List.filterMap_cons, Call.note, List.filterMap_nil, List.map_nil, List.append_nil]
    refine ⟨hhonest, h.held, ?_, by simp, by simp, h.flight, h.settled, ?_, by simp, ?_⟩
    · intro job' st hp
      cases hp
      intro j attempt short hmem
      have hbefore := hfresh j job attempt short hmem
      rw [handed_append, handed_next_some, List.nodup_append] at hhanded
      exact absurd rfl (hhanded.2.2 job hbefore job (by simp))
    · have hsuspect := h.suspect
      rw [hsince] at hsuspect
      exact hsuspect
    · exact fun hd => Or.inl (hdry hd)
  · rw [heq] at hs
    cases hs
    rw [LoopState.notes_eq htries rfl]
    have htraced : l.Traced (log ++ [(i, .dry)]) i := h.append (by simp)
    refine ⟨hhonest.append trivial, htraced.held, by simp, by simp, by simp, htraced.flight,
      htraced.settled, ?_, by simp, fun _ => Or.inl (by simp [Call.note])⟩
    have hsuspect := htraced.suspect
    rw [hsince] at hsuspect
    exact hsuspect

/-- With no target left to tell, a suspect counts as unanswered. -/
theorem LoopState.Traced.giveUp (h : l.Traced log i) (hhonest : Honest log) {started : Int}
    (hpc : l.pc = .noTarget started) (hs : l.step S target loops env sh = some (sh', l')) :
    Honest (log ++ l.notes env sh sh' i) ∧ l'.Traced (log ++ l.notes env sh sh' i) i := by
  have htries : l.tries env = [] := by simp [LoopState.tries, hpc]
  simp only [LoopState.step, hpc] at hs
  rcases l.held.dropSuspect_cases with
    ⟨hnone, heq⟩ | ⟨hsuspect, hnil⟩ | ⟨job, rest, hsuspect, hjobs, heq⟩
  · rw [heq] at hs
    cases hs
    exact LoopState.Traced.quiet (h.clear (List.Subset.refl _) hnone (Or.inl rfl)) hhonest htries
      rfl
  · obtain ⟨job, hjobs, _⟩ := h.suspect hsuspect
    simp [hnil] at hjobs
  · obtain ⟨job', hjobs', hsince⟩ := h.suspect hsuspect
    rw [hjobs] at hjobs'
    simp only [List.cons.injEq] at hjobs'
    obtain ⟨rfl, rfl⟩ := hjobs'
    rw [heq] at hs
    cases hs
    have hdry : (i, .dry) ∈ log := by
      rcases h.dry (h.noTarget started hpc) with hmem | hspent
      · exact hmem
      · simp [hspent.held] at hjobs
    rw [hpc] at hsince
    obtain ⟨hhonest', htraced⟩ := h.reportSuspect S target sh hhonest htries job started
      fun _ => ⟨rfl, Or.inr ⟨hsince, hdry⟩⟩
    exact ⟨hhonest', htraced.clear (List.nil_subset _) rfl (Or.inl rfl)⟩

/-- When another connect has gone out, the suspect's failure was its own target's. -/
theorem LoopState.Traced.exonerate (h : l.Traced log i) (hhonest : Honest log)
    (hnodup : l.jobs.Nodup) {job : Job} {started : Int} {attempt : Started}
    (hpc : l.pc = .wentOut job started attempt)
    (hs : l.step S target loops env sh = some (sh', l')) :
    Honest (log ++ l.notes env sh sh' i) ∧ l'.Traced (log ++ l.notes env sh sh' i) i := by
  have htries : l.tries env = [] := by simp [LoopState.tries, hpc]
  simp only [LoopState.step, hpc, Held.started] at hs
  rcases ({ l.held with short := false } : Held Job).dropSuspect_cases with
    ⟨hnone, heq⟩ | ⟨hsuspect, hnil⟩ | ⟨suspect, rest, hsuspect, hjobs, heq⟩
  · rw [heq] at hs
    cases hs
    refine LoopState.Traced.quiet ?_ hhonest htries rfl
    refine h.clear ?_ ?_ (Or.inr ⟨job, started, attempt, rfl, hpc⟩)
    · exact List.Subset.refl l.held.jobs
    · exact hnone
  · obtain ⟨suspect, hjobs, _⟩ := h.suspect hsuspect
    simp only [] at hnil
    simp [hnil] at hjobs
  · obtain ⟨suspect', hjobs', hsince⟩ := h.suspect hsuspect
    simp only [] at hjobs
    rw [hjobs] at hjobs'
    simp only [List.cons.injEq] at hjobs'
    obtain ⟨rfl, rfl⟩ := hjobs'
    rw [heq] at hs
    cases hs
    have hother : job ≠ suspect := by
      rintro rfl
      exact LoopState.not_held_of_inHand hnodup (by rw [hpc]; rfl) (by simp [hjobs])
    rw [hpc] at hsince
    obtain ⟨hhonest', htraced⟩ := h.reportSuspect S target sh hhonest htries suspect started
      fun _ => ⟨rfl, Or.inl ⟨job, attempt, hsince, (h.wentOut job started attempt hpc).1, hother⟩⟩
    exact ⟨hhonest', htraced.clear (List.nil_subset _) rfl
      (Or.inr ⟨job, started, attempt, rfl, hpc⟩)⟩

/-- A try is written down, whatever comes of it. -/
theorem LoopState.Traced.try (h : l.Traced log i) (hhonest : Honest log) (hnodup : l.jobs.Nodup)
    {job : Job} {started : Int} (hpc : l.pc = .start job started)
    (hs : l.step S target loops env sh = some (sh', l')) :
    Honest (log ++ l.notes env sh sh' i) ∧ l'.Traced (log ++ l.notes env sh sh' i) i := by
  have hnew : job ∉ l.held.jobs := LoopState.not_held_of_inHand hnodup (by rw [hpc]; rfl)
  simp only [LoopState.step, hpc] at hs
  cases hs
  have hnotes : l.notes env sh sh i = [(i, .tried job env.attempt l.held.short)] := by
    simp [LoopState.notes, LoopState.tries, hpc]
  rw [hnotes]
  refine ⟨hhonest.append (h.start job started hpc), ?_⟩
  unfold LoopState.attempted
  split
  · next shortage heq =>
    rw [heq]
    have hheld := h.hold hpc shortage (l.batch + 1) (Or.inl rfl)
    have hstarved := h.hold hpc shortage l.batch (Or.inr rfl)
    split
    · next held hhold =>
      rw [hhold] at hheld
      exact hheld
    · next held hhold =>
      rw [hhold] at hstarved
      exact hstarved
  · next hout =>
    refine h.goOut hpc hnew ?_
    cases hattempt : env.attempt with
    | unprobed shortage => exact absurd hattempt (hout shortage)
    | done verdict => rfl
    | pending sock => rfl

/-- **Every step of a loop leaves its traces, and writes down nothing it should not.** -/
theorem LoopState.step_traced (h : l.Traced log i) (hhonest : Honest log) (hnodup : l.jobs.Nodup)
    (hfresh : ∀ j job attempt short, (j, .tried job attempt short) ∈ log → job ∈ handed sh.calls)
    (hhanded : (handed sh'.calls).Nodup) (hs : l.step S target loops env sh = some (sh', l')) :
    Honest (log ++ l.notes env sh sh' i) ∧ l'.Traced (log ++ l.notes env sh sh' i) i := by
  cases LoopState.step_moves hs with
  | takeJob hpc | takeFull hpc | takeDry hpc => exact h.take hhonest hpc hfresh hhanded hs
  | dropSuspect hpc | noSuspect hpc => exact h.giveUp hhonest hpc hs
  | start hpc => exact h.try hhonest hnodup hpc hs
  | clearSuspect hpc | clear hpc => exact h.exonerate hhonest hnodup hpc hs
  | begin hpc =>
    refine LoopState.Traced.quiet (h.move (by rw [hpc]; rfl) rfl rfl ?_ ?_ ?_ h.flight h.settled)
      hhonest (by simp [LoopState.tries, hpc]) rfl <;>
      cases env.allocated <;> simp [Pc.inHand]
  | head hpc =>
    refine LoopState.Traced.quiet ?_ hhonest (by simp [LoopState.tries, hpc]) rfl
    cases sh.starved with
    | true => exact h.starved rfl rfl rfl rfl
    | false => exact h.move (by rw [hpc]; rfl) rfl rfl rfl (by simp) (by simp) h.flight h.settled
  | topUp hpc => exact (h.topUp hpc env.now).quiet hhonest (by simp [LoopState.tries, hpc]) rfl
  | starving hpc =>
    exact LoopState.Traced.quiet (h.starved rfl rfl rfl rfl) hhonest
      (by simp [LoopState.tries, hpc]) rfl
  | record hpc =>
    exact (h.recordStart target hpc env.now).quiet hhonest (by simp [LoopState.tries, hpc]) rfl
  | report hpc | reportSettled hpc =>
    obtain ⟨hhonest', htraced⟩ := h.reportBatch S target sh hhonest
      (by simp [LoopState.tries, hpc]) _
    exact ⟨hhonest', htraced.move (by rw [hpc]; rfl) rfl rfl rfl (by simp) (by simp)
      htraced.flight (by simp)⟩
  | idle hpc =>
    have hsince : l.pc.sinceSuspect = [] := by rw [hpc]; rfl
    refine LoopState.Traced.quiet ?_ hhonest (by simp [LoopState.tries, hpc]) rfl
    unfold LoopState.idle
    split
    · split
      · exact h.move hsince rfl rfl rfl (by simp) (by simp) h.flight h.settled
      · split <;> exact h.move hsince rfl rfl rfl (by simp) (by simp) h.flight h.settled
    · exact h.move hsince rfl rfl rfl (by simp) (by simp) h.flight h.settled
  | poll hpc =>
    refine LoopState.Traced.quiet (h.move (by rw [hpc]; rfl) rfl rfl rfl (by simp) (by simp) ?_
      h.settled) hhonest (by simp [LoopState.tries, hpc]) rfl
    rw [Flight.jobs_markSettled]
    exact h.flight
  | cutAnswer hpc =>
    exact LoopState.Traced.quiet (h.walk target (by rw [hpc]; rfl) _ _ _) hhonest
      (by simp [LoopState.tries, hpc]) rfl
  | _ hpc =>
    exact LoopState.Traced.quiet (h.move (by rw [hpc]; rfl) rfl rfl rfl (by simp) (by simp)
      h.flight h.settled) hhonest (by simp [LoopState.tries, hpc]) rfl

end Step

/-- A try that is written down is one at the connect in hand. -/
theorem LoopState.inHand_of_notes {l : LoopState Job} {env : LoopEnv} {sh sh' : Shared Job σ}
    {i j : Fin n} {job : Job} {attempt : Started} {short : Bool}
    (h : (j, .tried job attempt short) ∈ l.notes env sh sh' i) : j = i ∧ job ∈ l.pc.inHand := by
  unfold LoopState.notes at h
  obtain ⟨note, hmem, heq⟩ := List.mem_map.mp h
  simp only [Prod.mk.injEq] at heq
  obtain ⟨rfl, rfl⟩ := heq
  refine ⟨rfl, ?_⟩
  rcases List.mem_append.mp hmem with hmem | hmem
  · unfold LoopState.tries at hmem
    split at hmem
    · next hpc =>
      simp only [List.mem_singleton, Note.tried.injEq] at hmem
      simp [hpc, Pc.inHand, hmem.1]
    · simp at hmem
  · obtain ⟨call, _, hcall⟩ := List.mem_filterMap.mp hmem
    unfold Call.note at hcall
    split at hcall <;> simp at hcall

/-! ## The whole run -/

section Run

variable {S : Source Job σ} {target : Job → Target} {u : Setup} {source : σ}

theorem Engine.jobs_le_sum (e : Engine Job σ u.loops) {loops : Finset (Fin u.loops)}
    {i : Fin u.loops} (hi : i ∈ loops) : (e.loops i).jobs ≤ ∑ k ∈ loops, (e.loops k).jobs :=
  Finset.single_le_sum (f := fun k => (e.loops k).jobs) (fun _ _ => Multiset.zero_le _) hi

/-- What is inside the loops was handed out, and as long as the source handed out no job twice,
no two places hold the same one. -/
theorem Engine.inside_of_handed {e : Engine Job σ u.loops}
    (h : (engine S target u source).Reachable e) :
    (∀ i, ∀ job ∈ (e.loops i).jobs, job ∈ handed e.shared.calls) ∧
    ((handed e.shared.calls).Nodup → (∑ i, (e.loops i).jobs).Nodup) := by
  obtain ⟨lost, hout, _⟩ := (Engine.accounted h).out
  have hhanded := Serving.handed_eq hout
  have hle : ∑ i, (e.loops i).jobs ≤ (handed e.shared.calls : Multiset Job) := by
    rw [hhanded]
    calc ∑ i, (e.loops i).jobs
        ≤ ∑ i, (e.loops i).jobs + lost := Multiset.le_add_right _ _
      _ ≤ (e.owed : Multiset Job) + (∑ i, (e.loops i).jobs + lost) := Multiset.le_add_left _ _
      _ ≤ _ := Multiset.le_add_left _ _
  constructor
  · intro i job hjob
    have hsum := e.jobs_le_sum (Finset.mem_univ i)
    exact Multiset.mem_coe.mp (Multiset.mem_of_le (hsum.trans hle) hjob)
  · intro hnodup
    exact Multiset.nodup_of_le hle (Multiset.coe_nodup.mpr hnodup)

/-- No two loops have the same job. -/
theorem Engine.disjoint_of_nodup {e : Engine Job σ u.loops}
    (hnodup : (∑ i, (e.loops i).jobs).Nodup) {i j : Fin u.loops} {job : Job}
    (hi : job ∈ (e.loops i).jobs) (hj : job ∈ (e.loops j).jobs) : i = j := by
  by_contra hne
  rw [← Finset.add_sum_erase _ _ (Finset.mem_univ i)] at hnodup
  have hdisjoint := (Multiset.nodup_add.mp hnodup).2.2
  refine Multiset.disjoint_left.mp hdisjoint hi ?_
  have hle := e.jobs_le_sum (Finset.mem_erase.mpr ⟨fun h => hne h.symm, Finset.mem_univ j⟩)
  exact Multiset.mem_of_le hle hj

/-- What the log of a run knows. -/
structure Engine.Traced (w : Engine Job σ u.loops × Log u.loops Job) : Prop where
  honest : Honest w.2
  loops : ∀ i, (w.1.loops i).Traced w.2 i
  known : ∀ j job attempt short, (j, .tried job attempt short) ∈ w.2 →
    job ∈ handed w.1.shared.calls

theorem Engine.traced_start (source : σ) :
    Engine.Traced ((Engine.start u source : Engine Job σ u.loops), []) where
  honest := each_nil _
  loops i := ⟨by simp [Engine.start], by simp [Engine.start], by simp [Engine.start],
    by simp [Engine.start], by simp [Engine.start, Flight.jobs], by simp [Engine.start],
    by simp [Engine.start], by simp [Engine.start], by simp [Engine.start]⟩
  known := by simp

theorem Engine.Traced.loop {w : Engine Job σ u.loops × Log u.loops Job}
    (h : Engine.Traced w) (hreach : (engine S target u source).Reachable w.1)
    {i : Fin u.loops} {env : LoopEnv} {sh : Shared Job σ} {l : LoopState Job}
    (hs : (w.1.loops i).step S target u.loops env w.1.shared = some (sh, l))
    (hhanded : (handed sh.calls).Nodup) :
    Engine.Traced ({ w.1 with shared := sh, loops := Function.update w.1.loops i l },
      w.2 ++ (w.1.loops i).notes env w.1.shared sh i) := by
  have hgrows := (LoopState.step_grows hs).calls.sublist.filterMap Call.handed?
  obtain ⟨hinside, hnodup⟩ := Engine.inside_of_handed hreach
  have hdistinct := hnodup (hhanded.sublist hgrows)
  have hown : (w.1.loops i).jobs.Nodup :=
    Multiset.nodup_of_le (w.1.jobs_le_sum (Finset.mem_univ i)) hdistinct
  have hinHand : ∀ job ∈ (w.1.loops i).pc.inHand, job ∈ (w.1.loops i).jobs := by
    intro job hmem
    simp [LoopState.jobs, hmem]
  obtain ⟨hhonest, htraced⟩ :=
    LoopState.step_traced (h.loops i) h.honest hown h.known hhanded hs
  refine ⟨hhonest, ?_, ?_⟩
  · intro j
    by_cases hij : j = i
    · subst hij
      simp only [Function.update_self]
      exact htraced
    · simp only [Function.update_of_ne hij]
      refine (h.loops j).append fun k job attempt short hmem => ?_
      obtain ⟨rfl, hhand⟩ := LoopState.inHand_of_notes hmem
      refine ⟨fun hk => hij hk.symm, fun hjob => hij ?_⟩
      exact Engine.disjoint_of_nodup hdistinct hjob (hinHand job hhand)
  · intro j job attempt short hmem
    refine hgrows.subset ?_
    rcases List.mem_append.mp hmem with hmem | hmem
    · exact h.known j job attempt short hmem
    · exact hinside i job (hinHand job (LoopState.inHand_of_notes hmem).2)

/-- **The log of a run is honest**, as long as the source hands out no job twice. -/
theorem Engine.traced {w : Engine Job σ u.loops × Log u.loops Job}
    (h : ((engine S target u source).watch [] (writeDown S target u)).Reachable w)
    (hhanded : (handed w.1.shared.calls).Nodup) : Engine.Traced w := by
  refine h.invariant (I := fun w => (handed w.1.shared.calls).Nodup → Engine.Traced w) ?_ ?_ hhanded
  · rintro ⟨e, log⟩ ⟨he, hlog⟩ _
    simp only [engine] at he hlog
    subst he hlog
    exact Engine.traced_start source
  · rintro ⟨e, log⟩ label ⟨e', log'⟩ hreach hw hs hnodup
    obtain ⟨hstep, hlog⟩ := Lts.watch_step hs
    simp only [engine] at hstep hlog
    cases label with
    | loop i env =>
      simp only [Engine.step] at hstep
      simp only [writeDown] at hlog
      split at hstep
      · simp at hstep
      · next sh l hloop =>
        cases hstep
        rw [hloop] at hlog
        subst hlog
        have hgrows := (LoopState.step_grows hloop).calls.sublist.filterMap Call.handed?
        exact (hw (hnodup.sublist hgrows)).loop hreach.unwatch hloop hnodup
    | main env =>
      subst hlog
      obtain ⟨hloops, _, hsame⟩ := Engine.mainStep_keeps hstep
      simp only [] at hnodup
      rw [hsame] at hnodup
      obtain ⟨hhonest, htraced, hknown⟩ := hw hnodup
      refine ⟨hhonest, ?_, ?_⟩
      · simp only [hloops]
        exact htraced
      · simp only [hsame]
        exact hknown

end Run

end NetScanner.Connects
