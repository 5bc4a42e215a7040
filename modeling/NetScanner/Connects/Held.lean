import NetScanner.Connects.Window

/-!
# Connects a loop could not start

`src/core/connects.zig`, `Held`: the connects a loop took from its source but could not
start, for want of something on this machine. The loop tries them again before anything
new, after a pause that doubles while the shortage lasts, and gives up on the run once it
has lasted `stallLimitNs`.

A lone `.address` failure while connects were starting fine is only a suspect: the target
itself may be one no connect can reach, and the next target tells.

The array `jobs: [2]Job` with its `len` is the list of the jobs held, oldest first.
-/

namespace NetScanner.Connects

/-- What a connect that could not start was short of. -/
inductive Shortage where
  | socket
  | address
deriving DecidableEq, Repr

/-- A connect in flight: a file descriptor, or a Winsock socket. -/
abbrev Socket := Int

/-- What `start` made of a connect. -/
inductive Started where
  /-- Settled at once. -/
  | done (verdict : Verdict)
  /-- In flight: wait on it, then finish it. -/
  | pending (sock : Socket)
  /-- Never sent, for want of something on this machine. -/
  | unprobed (shortage : Shortage)
deriving DecidableEq, Repr

def stallLimitNs : Int := 5 * 1000000000
def firstPauseNs : Int := 1 * nsPerMs
def maxPauseNs : Int := 100 * nsPerMs

/-- The connects a loop holds back, and the shortage it is in. -/
structure Held (Job : Type*) where
  jobs : List Job := []
  suspect : Bool := false
  short : Bool := false
  since : Int := 0
  retryAt : Int := 0
  pause : Int := firstPauseNs

namespace Held

variable {Job : Type*}

/-- Whether the oldest held job is to be tried again now. -/
def due (h : Held Job) (now : Int) : Bool :=
  decide (0 < h.jobs.length) && !h.suspect && (!h.short || decide (h.retryAt ≤ now))

/-- Whether the loop may take new connects from its source. -/
def «open» (h : Held Job) : Bool := decide (h.jobs.length = 0) || h.suspect

/-- The oldest held job, and the rest. -/
def pop (h : Held Job) : Option (Job × Held Job) :=
  match h.jobs with
  | [] => none
  | job :: rest => some (job, { h with jobs := rest })

/-- A connect could not start at `now`. False once the shortage has lasted
`stallLimitNs`. -/
def hold (h : Held Job) (job : Job) (shortage : Shortage) (now : Int) : Bool × Held Job :=
  let h := { h with jobs := h.jobs ++ [job] }
  if shortage = .address ∧ h.short = false ∧ h.jobs.length = 1 then
    (true, { h with suspect := true })
  else
    let h := { h with suspect := false }
    let h := if h.short then h
      else { h with short := true, since := now, pause := firstPauseNs }
    let h := { h with
      retryAt := now + h.pause
      pause := min (2 * h.pause) maxPauseNs }
    (decide (now - h.since < stallLimitNs), h)

/-- The suspect, if any, dropped from the held jobs. -/
def dropSuspect (h : Held Job) : Option Job × Held Job :=
  if h.suspect then
    match ({ h with suspect := false } : Held Job).pop with
    | none => (none, { h with suspect := false })
    | some (job, h') => (some job, h')
  else (none, h)

/-- A connect started, so nothing is short any more. Returns the suspect, if any: its
failure was its target's own. -/
def started (h : Held Job) : Option Job × Held Job :=
  ({ h with short := false } : Held Job).dropSuspect

/-! ## No held job is lost -/

theorem jobs_of_pop {h h' : Held Job} {job : Job} (hp : h.pop = some (job, h')) :
    h.jobs = job :: h'.jobs := by
  unfold pop at hp
  cases hj : h.jobs with
  | nil => simp [hj] at hp
  | cons x rest =>
    simp only [hj, Option.some.injEq, Prod.mk.injEq] at hp
    obtain ⟨rfl, rfl⟩ := hp
    rfl

theorem jobs_hold (h : Held Job) (job : Job) (shortage : Shortage) (now : Int) :
    (h.hold job shortage now).2.jobs = h.jobs ++ [job] := by
  simp only [hold]
  split
  · rfl
  · split <;> rfl

theorem jobs_dropSuspect (h : Held Job) :
    h.jobs = h.dropSuspect.1.toList ++ h.dropSuspect.2.jobs := by
  unfold dropSuspect
  split
  · cases hj : h.jobs with
    | nil => simp [pop]
    | cons job rest => simp [pop]
  · simp

theorem jobs_started (h : Held Job) :
    h.jobs = h.started.1.toList ++ h.started.2.jobs :=
  jobs_dropSuspect { h with short := false }

end Held

end NetScanner.Connects
