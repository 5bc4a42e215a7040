import NetScanner.Infra.SwapRemove
import NetScanner.Connects.Held
import Mathlib.Algebra.Ring.Int.Defs

/-!
# The connects in flight

`src/core/connects.zig`, `Flight`: parallel arrays of equal length in the source, one list
of slots here. Removal swaps the last slot in, and the walk that reports what settled or
ran out of time goes backwards, so the swap never skips a slot.
-/

namespace NetScanner.Connects

open Infra

/-- Milliseconds from `now` until `deadline`, rounded up; zero once it has passed. -/
def msUntil (now deadline : Int) : Int :=
  if deadline ≤ now then 0
  else min ((deadline - now + nsPerMs - 1) / nsPerMs) (2 ^ 31 - 1)

/-- Whole microseconds from `started` to `finished`, never negative. -/
def elapsedUs (started finished : Int) : Nat :=
  (Int.tdiv (finished - started) nsPerUs).toNat

/-- How soon a connect with a cut floor may give up. -/
structure Cut where
  waitMs : Option Nat
  lastAnswerNs : Int

/-- One connect's verdict, on its way back to the source. -/
structure Settled (Job : Type*) where
  job : Job
  verdict : Verdict
  elapsedUs : Nat

/-- One connect in flight. -/
structure Slot (Job : Type*) where
  job : Job
  sock : Socket
  started : Int
  deadline : Int
  settled : Bool := false

/-- The connects in flight: at most `capacity` (`jobs.len` in the source). -/
structure Flight (Job : Type*) where
  capacity : Nat
  slots : List (Slot Job) := []

namespace Flight

variable {Job : Type*} (target : Job → Target)

def len (f : Flight Job) : Nat := f.slots.length

/-- The jobs in flight. -/
def jobs (f : Flight Job) : List Job := f.slots.map Slot.job

def add (f : Flight Job) (job : Job) (sock : Socket) (started : Int) : Flight Job :=
  { f with
    slots := f.slots ++ [{
      job := job
      sock := sock
      started := started
      deadline := started + (target job).timeoutMs * nsPerMs }] }

def remove (f : Flight Job) (i : Nat) : Flight Job :=
  { f with slots := swapRemove f.slots i }

/-- Mark the slots `waitSettled` found settled. -/
def markSettled (f : Flight Job) (ready : Nat → Bool) : Flight Job :=
  { f with slots := f.slots.mapIdx fun i slot => { slot with settled := ready i } }

/-- When a connect runs out of time: its own deadline, or sooner as `cut` allows. -/
def slotDeadline (slot : Slot Job) (cut : Cut) : Int :=
  match (target slot.job).cutFloorMs, cut.waitMs with
  | some floor, some waitMs =>
    min slot.deadline
      (max slot.started cut.lastAnswerNs + (max waitMs floor : Nat) * nsPerMs)
  | _, _ => slot.deadline

/-- When one connect is to be looked at again: at its deadline, or once its cut floor has
passed while there is no wait to cut it to yet. -/
def slotWake (slot : Slot Job) (cut : Cut) (now : Int) : Int :=
  let wake := slotDeadline target slot cut
  match cut.waitMs, (target slot.job).cutFloorMs with
  | none, some floor =>
    let check := slot.started + floor * nsPerMs
    if now < check then min wake check else wake
  | _, _ => wake

/-- When to look at the connects again, at the latest (`maxInt(i96)` with none). -/
def earliestWake (f : Flight Job) (cut : Cut) (now : Int) : Int :=
  f.slots.foldl (fun earliest slot => min earliest (slotWake target slot cut now)) (2 ^ 95 - 1)

/-- Report everything that settled or ran out of time by `after`, walking backwards from
slot `i - 1`. `verdict i` is what `finish` makes of slot `i`'s socket. -/
def takeSettled (after : Int) (cut : Cut) (verdict : Nat → Verdict) :
    Nat → Flight Job → List (Settled Job) → Flight Job × List (Settled Job)
  | 0, f, settled => (f, settled)
  | i + 1, f, settled =>
    match f.slots[i]? with
    | none => takeSettled after cut verdict i f settled
    | some slot =>
      if !slot.settled && decide (after < slotDeadline target slot cut) then
        takeSettled after cut verdict i f settled
      else
        takeSettled after cut verdict i (f.remove i)
          (settled ++ [{
            job := slot.job
            verdict := verdict i
            elapsedUs := elapsedUs slot.started after }])

/-! ## No connect in flight is lost -/

@[simp] theorem jobs_add (f : Flight Job) (job : Job) (sock : Socket) (started : Int) :
    (f.add target job sock started).jobs = f.jobs ++ [job] := by
  simp [add, jobs]

@[simp] theorem jobs_markSettled (f : Flight Job) (ready : Nat → Bool) :
    (f.markSettled ready).jobs = f.jobs := by
  refine List.ext_getElem (by simp [markSettled, jobs]) ?_
  intro i h1 h2
  simp [markSettled, jobs]

theorem jobs_remove_perm {f : Flight Job} {i : Nat} {slot : Slot Job}
    (h : f.slots[i]? = some slot) : (slot.job :: (f.remove i).jobs).Perm f.jobs := by
  obtain ⟨hi, hslot⟩ := List.getElem?_eq_some_iff.mp h
  have hperm := (cons_swapRemove_perm hi).map Slot.job
  rw [hslot] at hperm
  exact hperm

/-- **The walk hands every connect on**: what was in flight is still in flight or in the
settled batch. -/
theorem takeSettled_perm (after : Int) (cut : Cut) (verdict : Nat → Verdict) :
    ∀ (i : Nat) (f : Flight Job) (settled : List (Settled Job)),
      ((takeSettled target after cut verdict i f settled).1.jobs ++
        (takeSettled target after cut verdict i f settled).2.map Settled.job).Perm
        (f.jobs ++ settled.map Settled.job) := by
  intro i
  induction i with
  | zero => intro f settled; exact List.Perm.refl _
  | succ i ih =>
    intro f settled
    unfold takeSettled
    split
    · exact ih f settled
    · next slot hslot =>
      split
      · exact ih f settled
      · refine (ih _ _).trans ?_
        have hperm := jobs_remove_perm hslot
        rw [List.map_append, ← List.append_assoc]
        refine (List.perm_append_singleton _ _).trans ?_
        exact hperm.append_right _

end Flight

end NetScanner.Connects
