import NetScanner.Connects.Once

/-!
# A run does not look into its jobs

`Job` is any struct with a `target`, and it *comes back unchanged*: a run that is handed jobs with
more in them takes the same steps. `exec_relabel` says so for every relabelling `f` of the jobs
that keeps their targets, and `Source.numbered` uses it to tell jobs apart that look alike: every
run of `connects.run` is one over numbered jobs, with the numbers forgotten.
-/

namespace NetScanner.Connects

open Infra

variable {Job Job' σ σ' : Type*}

/-! ## The data of a loop -/

section Data

variable (f : Job' → Job) (target : Job → Target)

/-- What is held, with the jobs of the other kind; everything else stays. -/
def Held.relabel (h : Held Job') : Held Job where
  jobs := h.jobs.map f
  suspect := h.suspect
  short := h.short
  since := h.since
  retryAt := h.retryAt
  pause := h.pause

def Slot.relabel (s : Slot Job') : Slot Job where
  job := f s.job
  sock := s.sock
  started := s.started
  deadline := s.deadline
  settled := s.settled

/-- The sockets and the deadlines are not the job's. -/
def Flight.relabel (fl : Flight Job') : Flight Job where
  capacity := fl.capacity
  slots := fl.slots.map (Slot.relabel f)

def Settled.relabel (s : Settled Job') : Settled Job where
  job := f s.job
  verdict := s.verdict
  elapsedUs := s.elapsedUs

/-- A call of the source, as the other source sees it. -/
def Call.relabel : Call Job' → Call Job
  | .next job => .next (job.map f)
  | .done job outcome elapsedUs => .done (f job) outcome elapsedUs

def Take.relabel : Take Job' → Take Job
  | .job j => .job (f j)
  | .full => .full
  | .dry => .dry

/-- A loop is at the same place; three places have a job in them. -/
def Pc.relabel : Pc Job' → Pc Job
  | .begin => .begin
  | .head => .head
  | .topUp => .topUp
  | .take started => .take started
  | .noTarget started => .noTarget started
  | .start job started => .start (f job) started
  | .starving => .starving
  | .wentOut job started attempt => .wentOut (f job) started attempt
  | .record job started attempt => .record (f job) started attempt
  | .report => .report
  | .idle => .idle
  | .wait => .wait
  | .poll waitMs => .poll waitMs
  | .cutWait after => .cutWait after
  | .cutAnswer after cap => .cutAnswer after cap
  | .reportSettled after => .reportSettled after
  | .returned => .returned
  | .failed => .failed

def LoopState.relabel (l : LoopState Job') : LoopState Job where
  pc := l.pc.relabel f
  flight := l.flight.relabel f
  settled := l.settled.map (Settled.relabel f)
  held := l.held.relabel f
  dry := l.dry
  roomLeft := l.roomLeft
  batch := l.batch

/-! ## Held connects -/

/-- Whether a retry is due is a matter of the clock and of whether anything is held. -/
@[simp] theorem Held.due_relabel (h : Held Job') (now : Int) :
    (h.relabel f).due now = h.due now := by
  cases hjobs : h.jobs <;> simp [Held.due, Held.relabel, hjobs]

@[simp] theorem Held.open_relabel (h : Held Job') : (h.relabel f).open = h.open := by
  cases hjobs : h.jobs <;> simp [Held.open, Held.relabel, hjobs]

/-- The oldest connect comes out first, whatever else is in it. -/
theorem Held.pop_relabel (h : Held Job') :
    (h.relabel f).pop = h.pop.map (Prod.map f (Held.relabel f)) := by
  unfold Held.pop
  cases hjobs : h.jobs with
  | nil => simp [Held.relabel, hjobs]
  | cons job rest => simp [Held.relabel, hjobs]

/-- What a shortage makes of what is held depends on how many connects are held, not on which. -/
theorem Held.hold_relabel (h : Held Job') (job : Job') (shortage : Shortage) (now : Int) :
    (h.relabel f).hold (f job) shortage now =
      ((h.hold job shortage now).1, (h.hold job shortage now).2.relabel f) := by
  obtain ⟨jobs, suspect, short, since, retryAt, pause⟩ := h
  cases short with
  | false =>
    by_cases hlone : shortage = .address ∧ jobs = [] <;>
      simp [Held.hold, Held.relabel, hlone]
  | true => simp [Held.hold, Held.relabel]

/-- The same connect is suspected. -/
theorem Held.dropSuspect_relabel (h : Held Job') :
    (h.relabel f).dropSuspect = (h.dropSuspect.1.map f, h.dropSuspect.2.relabel f) := by
  unfold Held.dropSuspect
  cases hsuspect : h.suspect with
  | false => simp [Held.relabel, hsuspect]
  | true =>
    cases hjobs : h.jobs with
    | nil => simp [Held.pop, Held.relabel, hsuspect, hjobs]
    | cons job rest => simp [Held.pop, Held.relabel, hsuspect, hjobs]

theorem Held.started_relabel (h : Held Job') :
    (h.relabel f).started = (h.started.1.map f, h.started.2.relabel f) :=
  Held.dropSuspect_relabel f { h with short := false }

/-! ## Connects in flight -/

@[simp] theorem Flight.len_relabel (fl : Flight Job') : (fl.relabel f).len = fl.len := by
  simp [Flight.len, Flight.relabel]

/-- A deadline comes from the target, which is the same. -/
theorem Flight.add_relabel (fl : Flight Job') (job : Job') (sock : Socket) (started : Int) :
    (fl.relabel f).add target (f job) sock started =
      (fl.add (target ∘ f) job sock started).relabel f := by
  simp [Flight.add, Flight.relabel, Slot.relabel]

theorem Flight.markSettled_relabel (fl : Flight Job') (ready : Nat → Bool) :
    (fl.relabel f).markSettled ready = (fl.markSettled ready).relabel f := by
  have hslots : ((fl.relabel f).markSettled ready).slots =
      ((fl.markSettled ready).relabel f).slots := by
    refine List.ext_getElem (by simp [Flight.markSettled, Flight.relabel]) ?_
    intro i h1 h2
    simp [Flight.markSettled, Flight.relabel, Slot.relabel]
  exact congrArg (Flight.mk fl.capacity) hslots

theorem Flight.slotWake_relabel (slot : Slot Job') (cut : Cut) (now : Int) :
    Flight.slotWake target (slot.relabel f) cut now = Flight.slotWake (target ∘ f) slot cut now :=
  rfl

/-- A loop sleeps equally long. -/
theorem Flight.earliestWake_relabel (fl : Flight Job') (cut : Cut) (now : Int) :
    (fl.relabel f).earliestWake target cut now = fl.earliestWake (target ∘ f) cut now := by
  simp only [Flight.earliestWake, Flight.relabel, List.foldl_map, Flight.slotWake_relabel]

/-- **The walk over the slots takes the same ones**, in the same order. -/
theorem Flight.takeSettled_relabel (after : Int) (cut : Cut) (verdict : Nat → Verdict) :
    ∀ (i : Nat) (fl : Flight Job') (settled : List (Settled Job')),
      Flight.takeSettled target after cut verdict i (fl.relabel f)
          (settled.map (Settled.relabel f)) =
        ((Flight.takeSettled (target ∘ f) after cut verdict i fl settled).1.relabel f,
          (Flight.takeSettled (target ∘ f) after cut verdict i fl settled).2.map
            (Settled.relabel f)) := by
  intro i
  induction i with
  | zero => exact fun _ _ => rfl
  | succ i ih =>
    intro fl settled
    have hget : (fl.relabel f).slots[i]? = fl.slots[i]?.map (Slot.relabel f) := List.getElem?_map
    unfold Flight.takeSettled
    cases hslot : fl.slots[i]? with
    | none =>
      rw [hget, hslot]
      exact ih fl settled
    | some slot =>
      rw [hget, hslot]
      have hremove : (fl.relabel f).remove i = (fl.remove i).relabel f :=
        congrArg (Flight.mk fl.capacity) (swapRemove_map _ _ _)
      have hsettled : ∀ s : Settled Job', settled.map (Settled.relabel f) ++ [s.relabel f] =
          (settled ++ [s]).map (Settled.relabel f) := by
        intro s
        simp
      by_cases hwait : (!slot.settled &&
          decide (after < Flight.slotDeadline (target ∘ f) slot cut)) = true
      · simp only [if_pos hwait]
        exact (if_pos hwait).trans (ih fl settled)
      · simp only [if_neg hwait]
        refine (if_neg hwait).trans ?_
        rw [hremove, ← ih, ← hsettled]
        rfl

end Data

/-! ## What the loops share -/

/-- One source hands out the jobs of another, with more in them. -/
structure Source.Relabels (S' : Source Job' σ') (S : Source Job σ) (f : Job' → Job) (g : σ' → σ) :
    Prop where
  next : ∀ s, S.next (g s) = ((S'.next s).1.map f, g (S'.next s).2)
  done : ∀ s job o e, S.done (g s) (f job) o e = g (S'.done s job o e)
  waitCap : ∀ s, S.waitCap.map (fun cap => cap (g s)) = S'.waitCap.map (fun cap => cap s)

/-- What the loops share, with the calls that were made. -/
def Shared.relabel (f : Job' → Job) (g : σ' → σ) (sh : Shared Job' σ') : Shared Job σ where
  source := g sh.source
  window := sh.window
  waitCapMs := sh.waitCapMs
  lastCuttableAnswerNs := sh.lastCuttableAnswerNs
  unconfirmed := sh.unconfirmed.map f
  starved := sh.starved
  calls := sh.calls.map (Call.relabel f)

section Shared

variable {S' : Source Job' σ'} {S : Source Job σ} {f : Job' → Job} {g : σ' → σ}
  (hS : S'.Relabels S f g) (target : Job → Target)
include hS

/-- The window decides whether there is room, and it knows of no jobs. -/
theorem Shared.take_relabel (sh : Shared Job' σ') (loops inFlight : Nat) :
    (sh.relabel f g).take S loops inFlight =
      ((sh.take S' loops inFlight).1.relabel f, (sh.take S' loops inFlight).2.relabel f g) := by
  unfold Shared.take
  show (if max 1 (sh.window.size / loops) ≤ inFlight then _ else _) = _
  split
  · rfl
  · have hnext := hS.next sh.source
    rcases heq : S'.next sh.source with ⟨job, source⟩
    rw [heq] at hnext
    have hsource : (sh.relabel f g).source = g sh.source := rfl
    rw [hsource, hnext]
    cases job with
    | none => simp [Shared.relabel, Take.relabel, Call.relabel]
    | some job => simp [Shared.relabel, Take.relabel, Call.relabel]

theorem Shared.sourceDone_relabel (sh : Shared Job' σ') (job : Job') (o : Outcome) (e : Nat) :
    (sh.relabel f g).sourceDone S (f job) o e = (sh.sourceDone S' job o e).relabel f g := by
  simp [Shared.sourceDone, Shared.relabel, hS.done, Call.relabel]

/-- One settled connect is reported, or kept to be confirmed. -/
theorem Shared.doneOne_relabel (sh : Shared Job' σ') (s : Settled Job') (now : Int)
    (stored : Bool) :
    (sh.relabel f g).doneOne S target (s.relabel f) now stored =
      (sh.doneOne S' (target ∘ f) s now stored).relabel f g := by
  unfold Shared.doneOne
  by_cases hstored : s.verdict = .unconfirmed ∧ stored = true
  · rw [if_pos hstored]
    refine (if_pos hstored).trans ?_
    simp [Shared.relabel, Settled.relabel]
  · rw [if_neg hstored]
    refine (if_neg hstored).trans ?_
    have hdone := Shared.sourceDone_relabel hS
      { sh with window := sh.window.observe s.verdict.alone s.elapsedUs now } s.job
      s.verdict.alone s.elapsedUs
    by_cases hcut : s.verdict.alone ≠ .filtered ∧ (target (f s.job)).cutFloorMs.isSome
    · simp only [Function.comp_apply, if_pos hcut]
      refine (if_pos hcut).trans ?_
      exact congrArg (fun sh : Shared Job σ => { sh with lastCuttableAnswerNs := now }) hdone
    · simp only [Function.comp_apply, if_neg hcut]
      exact (if_neg hcut).trans hdone

theorem Shared.doneEach_relabel (now : Int) (stored : Nat → Bool) :
    ∀ (settled : List (Settled Job')) (k : Nat) (sh : Shared Job' σ'),
      Shared.doneEach S target now stored k (sh.relabel f g) (settled.map (Settled.relabel f)) =
        (Shared.doneEach S' (target ∘ f) now stored k sh settled).relabel f g := by
  intro settled
  induction settled with
  | nil => exact fun _ _ => rfl
  | cons s rest ih =>
    intro k sh
    rw [List.map_cons, Shared.doneEach, Shared.doneEach, Shared.doneOne_relabel hS, ih]

/-- **A batch is reported alike**, and the wait is capped alike after it. -/
theorem Shared.done_relabel (sh : Shared Job' σ') (settled : List (Settled Job')) (now : Int)
    (stored : Nat → Bool) :
    (sh.relabel f g).done S target (settled.map (Settled.relabel f)) now stored =
      (sh.done S' (target ∘ f) settled now stored).relabel f g := by
  unfold Shared.done
  rw [List.length_map]
  split
  · rfl
  · have hcap := hS.waitCap (Shared.doneEach S' (target ∘ f) now stored 0 sh settled).source
    rw [Shared.doneEach_relabel hS]
    cases hS' : S'.waitCap with
    | none =>
      rw [hS', Option.map_none, Option.map_eq_none_iff] at hcap
      rw [hcap]
    | some cap' =>
      rw [hS', Option.map_some] at hcap
      obtain ⟨cap, hcap, heq⟩ := Option.map_eq_some_iff.mp hcap
      rw [hcap]
      simp only [Shared.relabel, heq]

theorem Shared.unanswered_relabel (sh : Shared Job' σ') (job : Job') (now : Int) :
    (sh.relabel f g).unanswered S target (f job) now =
      (sh.unanswered S' (target ∘ f) job now).relabel f g :=
  Shared.done_relabel hS target sh [{ job := job, verdict := .filtered, elapsedUs := 0 }] now
    fun _ => true

end Shared

/-! ## One loop -/

section Loop

variable (f : Job' → Job) (target : Job → Target)

/-- Whether a loop retries, takes or waits depends on how much is held and in flight. -/
theorem LoopState.topUp_relabel (l : LoopState Job') (now : Int) :
    (l.relabel f).topUp now = (l.topUp now).relabel f := by
  obtain ⟨pc, flight, settled, held, dry, roomLeft, batch⟩ := l
  have hpop := held.pop_relabel f
  unfold LoopState.topUp
  simp only [LoopState.relabel, Flight.len_relabel, Held.due_relabel, Held.open_relabel, hpop]
  by_cases hlen : flight.len < flight.capacity
  · rw [if_pos hlen]
    refine (if_pos hlen).trans ?_
    split
    · rfl
    · split
      · cases held.pop with
        | none => rfl
        | some popped => rfl
      · split
        · rfl
        · cases dry <;> rfl
  · rw [if_neg hlen]
    exact if_neg hlen

/-- What comes of a try is up to the system. -/
theorem LoopState.attempted_relabel (l : LoopState Job') (job : Job') (started : Int)
    (attempt : Started) :
    (l.relabel f).attempted (f job) started attempt =
      (l.attempted job started attempt).relabel f := by
  cases attempt with
  | done verdict => rfl
  | pending sock => rfl
  | unprobed shortage =>
    have hhold := l.held.hold_relabel f job shortage started
    rcases heq : l.held.hold job shortage started with ⟨ok, held⟩
    rw [heq] at hhold
    unfold LoopState.attempted
    simp only [LoopState.relabel, hhold, heq]
    cases ok <;> rfl

theorem LoopState.recordStart_relabel (l : LoopState Job') (job : Job') (started now : Int)
    (attempt : Started) :
    (l.relabel f).recordStart target (f job) started now attempt =
      (l.recordStart (target ∘ f) job started now attempt).relabel f := by
  cases attempt with
  | done verdict => simp [LoopState.recordStart, LoopState.relabel, Settled.relabel, Pc.relabel]
  | pending sock =>
    simp only [LoopState.recordStart, LoopState.relabel, Flight.add_relabel]
    rfl
  | unprobed shortage => rfl

/-- A loop with nothing to do knows it from the lengths of its lists. -/
theorem LoopState.idle_relabel (l : LoopState Job') :
    (l.relabel f).idle = l.idle.relabel f := by
  have hheld : (l.held.relabel f).jobs.length = l.held.jobs.length := List.length_map _
  unfold LoopState.idle
  simp only [LoopState.relabel, Flight.len_relabel, hheld]
  split
  · show (if l.held.short = true then _ else _) = _
    split
    · rfl
    · split <;> rfl
  · rfl

theorem LoopState.waitMs_relabel (l : LoopState Job') (cut : Cut) (now : Int) :
    (l.relabel f).waitMs target cut now = l.waitMs (target ∘ f) cut now := by
  unfold LoopState.waitMs
  simp only [LoopState.relabel, Flight.earliestWake_relabel]
  rfl

variable {f} {S' : Source Job' σ'} {S : Source Job σ} {g : σ' → σ}

/-- **A loop takes the same steps whatever else is in its jobs.** -/
theorem LoopState.step_relabel (hS : S'.Relabels S f g) (loops : Nat) (env : LoopEnv)
    (sh : Shared Job' σ') (l : LoopState Job') :
    (l.relabel f).step S target loops env (sh.relabel f g) =
      (l.step S' (target ∘ f) loops env sh).map (Prod.map (Shared.relabel f g)
        (LoopState.relabel f)) := by
  obtain ⟨pc, flight, settled, held, dry, roomLeft, batch⟩ := l
  cases pc with
  | begin =>
    simp only [LoopState.step, LoopState.relabel, Pc.relabel, Option.map_some, Prod.map_apply]
    cases env.allocated <;> rfl
  | head =>
    simp only [LoopState.step, LoopState.relabel, Pc.relabel, Option.map_some, Prod.map_apply]
    show some (sh.relabel f g, _) = _
    cases hstarved : sh.starved <;> simp [Shared.relabel, hstarved, Held.relabel]
  | topUp => exact congrArg (fun l => some (sh.relabel f g, l)) (LoopState.topUp_relabel f _ _)
  | take started =>
    have htake := Shared.take_relabel hS sh loops flight.len
    rcases heq : sh.take S' loops flight.len with ⟨taken, sh'⟩
    rw [heq] at htake
    simp only [LoopState.step, LoopState.relabel, Pc.relabel, Flight.len_relabel, htake, heq]
    cases taken <;> rfl
  | noTarget started =>
    have hdrop := held.dropSuspect_relabel f
    rcases heq : held.dropSuspect with ⟨suspect, held'⟩
    rw [heq] at hdrop
    simp only [LoopState.step, LoopState.relabel, Pc.relabel, hdrop, heq]
    cases suspect with
    | none => rfl
    | some job => simp [Shared.unanswered_relabel hS, LoopState.relabel, Pc.relabel]
  | start job started =>
    exact congrArg (fun l => some (sh.relabel f g, l)) (LoopState.attempted_relabel f _ _ _ _)
  | starving => rfl
  | wentOut job started attempt =>
    have hstarted := held.started_relabel f
    rcases heq : held.started with ⟨suspect, held'⟩
    rw [heq] at hstarted
    simp only [LoopState.step, LoopState.relabel, Pc.relabel, hstarted, heq]
    cases suspect with
    | none => rfl
    | some job => simp [Shared.unanswered_relabel hS, LoopState.relabel, Pc.relabel]
  | record job started attempt =>
    exact congrArg (fun l => some (sh.relabel f g, l))
      (LoopState.recordStart_relabel f target _ _ _ _ _)
  | report =>
    simp only [LoopState.step, LoopState.relabel, Pc.relabel, Shared.done_relabel hS]
    rfl
  | idle => exact congrArg (fun l => some (sh.relabel f g, l)) (LoopState.idle_relabel f _)
  | wait =>
    have hwait := LoopState.waitMs_relabel f target
      { pc := .wait, flight, settled, held, dry, roomLeft, batch }
      (cutOf sh.waitCapMs sh.lastCuttableAnswerNs) env.now
    exact congrArg (fun ms => some (sh.relabel f g, LoopState.relabel f
      { pc := .poll ms, flight, settled, held, dry, roomLeft, batch })) hwait
  | poll waitMs =>
    simp only [LoopState.step, LoopState.relabel, Pc.relabel, Flight.markSettled_relabel]
    rfl
  | cutWait after => rfl
  | cutAnswer after cap =>
    have hwalk := Flight.takeSettled_relabel f target after (cutOf cap sh.lastCuttableAnswerNs)
      env.verdict flight.len flight settled
    simp only [LoopState.step, LoopState.relabel, Pc.relabel, Flight.len_relabel]
    show some (sh.relabel f g, _) = _
    rw [show (sh.relabel f g).lastCuttableAnswerNs = sh.lastCuttableAnswerNs from rfl, hwalk]
    rfl
  | reportSettled after =>
    simp only [LoopState.step, LoopState.relabel, Pc.relabel, Shared.done_relabel hS]
    rfl
  | returned => rfl
  | failed => rfl

end Loop

/-! ## The whole run -/

section Run

variable (f : Job' → Job) (g : σ' → σ) (target : Job → Target) {u : Setup}

def Main.relabel : Main Job' → Main Job
  | .joining => .joining
  | .confirming todo => .confirming (todo.map f)
  | .returned result => .returned result

/-- The whole engine, over jobs with less in them. -/
def Engine.relabel {n : Nat} (e : Engine Job' σ' n) : Engine Job σ n where
  shared := e.shared.relabel f g
  loops i := (e.loops i).relabel f
  main := e.main.relabel f

theorem Pc.finished_relabel (pc : Pc Job') : (pc.relabel f).finished = pc.finished := by
  cases pc <;> rfl

variable {f g} {S' : Source Job' σ'} {S : Source Job σ}

/-- The main thread confirms the same targets. -/
theorem Engine.mainStep_relabel (hS : S'.Relabels S f g) (env : MainEnv)
    (e : Engine Job' σ' u.loops) :
    (e.relabel f g).mainStep S u env = (e.mainStep S' u env).map (Engine.relabel f g) := by
  obtain ⟨shared, loops, main⟩ := e
  cases main with
  | joining =>
    obtain ⟨source, window, waitCapMs, lastAnswer, unconfirmed, starved, calls⟩ := shared
    simp only [Engine.mainStep, Engine.relabel, Main.relabel, LoopState.relabel,
      Pc.finished_relabel]
    split
    · cases (loops ⟨0, u.loops_pos⟩).pc with
      | failed => rfl
      | _ => cases starved <;> rfl
    · rfl
  | confirming todo =>
    cases todo with
    | nil => rfl
    | cons job todo =>
      simp only [Engine.mainStep, Engine.relabel, Main.relabel, List.map_cons,
        Shared.sourceDone_relabel hS]
      cases connectOnce env <;> rfl
  | returned result => rfl

/-- **One step of the engine**, of the main thread or of a loop. -/
theorem Engine.step_relabel (hS : S'.Relabels S f g) (e : Engine Job' σ' u.loops)
    (label : EngineLabel u.loops) :
    (e.relabel f g).step S target u label =
      (e.step S' (target ∘ f) u label).map (Engine.relabel f g) := by
  cases label with
  | main env => exact Engine.mainStep_relabel hS env e
  | loop i env =>
    have hstep : ((e.relabel f g).loops i).step S target u.loops env (e.relabel f g).shared =
        ((e.loops i).step S' (target ∘ f) u.loops env e.shared).map
          (Prod.map (Shared.relabel f g) (LoopState.relabel f)) :=
      LoopState.step_relabel target hS u.loops env e.shared (e.loops i)
    simp only [Engine.step]
    rw [hstep]
    cases hs : (e.loops i).step S' (target ∘ f) u.loops env e.shared with
    | none => rfl
    | some next =>
      simp only [Option.map_some, Prod.map, Engine.relabel, Option.some.injEq, Engine.mk.injEq,
        true_and, and_true]
      funext j
      by_cases hij : j = i
      · subst hij
        simp
      · simp [Function.update_of_ne hij]

/-- **A run over jobs with more in them is the same run.** -/
theorem exec_relabel (hS : S'.Relabels S f g) (source : σ) (s' : σ')
    (labels : List (EngineLabel u.loops)) (e : Engine Job' σ' u.loops) :
    (engine S target u source).exec (e.relabel f g) labels =
      ((engine S' (target ∘ f) u s').exec e labels).map (Engine.relabel f g) := by
  induction labels generalizing e with
  | nil => rfl
  | cons label labels ih =>
    rw [Lts.exec_cons, Lts.exec_cons]
    show ((e.relabel f g).step S target u label).bind _ = _
    rw [Engine.step_relabel target hS]
    show _ = (((e.step S' (target ∘ f) u label).bind _).map _)
    cases e.step S' (target ∘ f) u label with
    | none => rfl
    | some next => exact ih next

end Run

end NetScanner.Connects
