import NetScanner.Infra.Lts
import NetScanner.Progress.Tracker
import Mathlib.Data.Finset.Card

/-!
# The progress events of a phase, under any race

`Run.advance` (`src/core/scanner.zig`) runs on every worker of a phase: an atomic
increment, and, when that moved the percentage, one claim-and-print behind the output
lock. Workers reach the lock out of order.

`Workers` is that race: any number of workers, told apart by a number, each between two
units or on its way to the lock. The label of a step is the worker that moves and what it
does, so a list of labels is one interleaving.

The invariant `Ordered` says what has been printed against what has been counted:

* printed counts rise, and the last one is `lastClaimed`;
* a printed event or a worker on its way to the lock pays for one crossing, and crossings
  are bounded by the units and by the percentage;
* once the last unit is counted, either its event is out or a worker is still on its way.
-/

namespace NetScanner.Progress

open Infra

/-- The workers of a phase: those on their way to the output lock, and what is printed. -/
structure Workers where
  tracker : Tracker
  due : Finset Nat
  printed : List ProgressEvent

/-- What one worker does next. -/
inductive Move where
  | advance
  | claim
deriving DecidableEq, Repr

/-- One atomic step of worker `w`. -/
def Workers.step (o : Output) (s : Workers) : Nat × Move → Option Workers
  | (w, .advance) =>
    if w ∈ s.due then none
    else
      let (crossed, t) := s.tracker.advance
      some { s with
        tracker := t
        due := if crossed && o.events then insert w s.due else s.due }
  | (w, .claim) =>
    if w ∈ s.due then
      let (events, t) := claimAndPrint s.tracker
      some { tracker := t, due := s.due.erase w, printed := s.printed ++ events }
    else none

/-- A phase of `total` units that starts on a tracker left by an earlier one. -/
def Workers.start (t : Tracker) (phase : Phase) (total : Nat) : Workers :=
  { tracker := t.startPhase phase total, due := ∅, printed := [] }

/-- The phase as a transition system. -/
def workers (o : Output) (t : Tracker) (phase : Phase) (total : Nat) :
    Lts Workers (Nat × Move) where
  init s := s = Workers.start t phase total
  step := Workers.step o

/-- The printed counts, oldest first. -/
def Workers.counts (s : Workers) : List Nat := s.printed.map ProgressEvent.done

/-- How many units a list of steps counted. -/
def advances (labels : List (Nat × Move)) : Nat := labels.countP (fun l => l.2 == .advance)

/-! ## One step -/

theorem step_advance {o : Output} {s s' : Workers} {w : Nat}
    (h : s.step o (w, .advance) = some s') :
    w ∉ s.due ∧ s' = { s with
      tracker := { s.tracker with done := s.tracker.done + 1 }
      due := if crossesPercent (s.tracker.done + 1) s.tracker.total && o.events
        then insert w s.due else s.due } := by
  simp only [Workers.step] at h
  split at h
  · simp at h
  · next hw => exact ⟨hw, (Option.some.inj h).symm⟩

theorem step_claim {o : Output} {s s' : Workers} {w : Nat}
    (h : s.step o (w, .claim) = some s') :
    w ∈ s.due ∧ s' = {
      tracker := (claimAndPrint s.tracker).2
      due := s.due.erase w
      printed := s.printed ++ (claimAndPrint s.tracker).1 } := by
  simp only [Workers.step] at h
  split at h
  · next hw => exact ⟨hw, (Option.some.inj h).symm⟩
  · simp at h

/-! ## The invariant -/

/-- The printed counts against the counted units of a phase. -/
structure Ordered (phase : Phase) (total : Nat) (s : Workers) : Prop where
  phase_eq : s.tracker.phase = some phase
  total_eq : s.tracker.total = total
  events : ∀ e ∈ s.printed, e.phase = phase ∧ e.total = total
  rising : s.counts.Pairwise (· < ·)
  last : s.counts = [] ∧ s.tracker.lastClaimed = 0 ∨
    s.counts.getLast? = some s.tracker.lastClaimed
  claimed_le : s.tracker.lastClaimed ≤ min s.tracker.done total
  paid_units : s.printed.length + s.due.card ≤ min s.tracker.done total
  paid_percent : s.printed.length + s.due.card ≤ min s.tracker.done total * 100 / total
  closing : total ≤ s.tracker.done → s.tracker.lastClaimed = total ∨ s.due.Nonempty

theorem ordered_start (t : Tracker) (phase : Phase) {total : Nat} (h : 1 ≤ total) :
    Ordered phase total (Workers.start t phase total) where
  phase_eq := rfl
  total_eq := rfl
  events := by simp [Workers.start]
  rising := by simp [Workers.start, Workers.counts]
  last := Or.inl ⟨rfl, rfl⟩
  claimed_le := Nat.zero_le _
  paid_units := by simp [Workers.start]
  paid_percent := by simp [Workers.start]
  closing := by
    intro hle
    simp only [Workers.start, Tracker.startPhase] at hle
    omega

/-- No printed count is above the last one. -/
theorem Ordered.le_lastClaimed {phase : Phase} {total : Nat} {s : Workers}
    (h : Ordered phase total s) : ∀ c ∈ s.counts, c ≤ s.tracker.lastClaimed := by
  intro c hc
  rcases h.last with ⟨hnil, _⟩ | hlast
  · rw [hnil] at hc
    simp at hc
  · obtain ⟨front, hfront⟩ := List.getLast?_eq_some_iff.mp hlast
    rw [hfront] at hc
    rcases List.mem_append.mp hc with hc | hc
    · have hlt : c < s.tracker.lastClaimed :=
        (List.pairwise_append.mp (hfront ▸ h.rising)).2.2 c hc _ (by simp)
      exact Nat.le_of_lt hlt
    · simp only [List.mem_singleton] at hc
      omega

/-- Counting a unit keeps the invariant: a crossing pays for the worker it sends to the
lock. -/
theorem Ordered.advance {o : Output} {phase : Phase} {total : Nat} {s s' : Workers} {w : Nat}
    (ho : o.events = true) (h : Ordered phase total s)
    (hs : s.step o (w, .advance) = some s') : Ordered phase total s' := by
  obtain ⟨hw, rfl⟩ := step_advance hs
  have htot := h.total_eq
  have hcl := h.claimed_le
  have hu := h.paid_units
  have hp := h.paid_percent
  by_cases hc : crossesPercent (s.tracker.done + 1) total = true
  · have hlt : s.tracker.done < total := lt_total_of_crosses hc
    have hup := percent_lt_of_crosses hc
    have hcard : (insert w s.due).card = s.due.card + 1 := Finset.card_insert_of_notMem hw
    rw [Nat.min_eq_left (by omega)] at hu hp hcl
    simp only [htot, hc, ho, Bool.and_self, if_true]
    refine ⟨h.phase_eq, rfl, h.events, h.rising, h.last, ?_, ?_, ?_, ?_⟩
    · show s.tracker.lastClaimed ≤ min (s.tracker.done + 1) total
      omega
    · show s.printed.length + (insert w s.due).card ≤ min (s.tracker.done + 1) total
      omega
    · show s.printed.length + (insert w s.due).card ≤ min (s.tracker.done + 1) total * 100 / total
      rw [Nat.min_eq_left (by omega)]
      omega
    · intro _
      exact Or.inr ⟨w, Finset.mem_insert_self w s.due⟩
  · have hc' : crossesPercent (s.tracker.done + 1) total = false := by simpa using hc
    have hmono : min s.tracker.done total * 100 / total
        ≤ min (s.tracker.done + 1) total * 100 / total :=
      Nat.div_le_div_right (by omega)
    simp only [htot, hc', Bool.false_and, Bool.false_eq_true, if_false]
    refine ⟨h.phase_eq, rfl, h.events, h.rising, h.last, ?_, ?_, ?_, ?_⟩
    · show s.tracker.lastClaimed ≤ min (s.tracker.done + 1) total
      omega
    · show s.printed.length + s.due.card ≤ min (s.tracker.done + 1) total
      omega
    · exact Nat.le_trans hp hmono
    · intro hle
      replace hle : total ≤ s.tracker.done + 1 := hle
      -- the unit that fills the phase crosses, so it was counted before this one
      have hne : s.tracker.done + 1 ≠ total := by
        intro he
        rw [he] at hc'
        rw [crossesPercent_total (by omega)] at hc'
        simp at hc'
      exact h.closing (by omega)

/-- The step behind the lock keeps the invariant. -/
theorem Ordered.claim {o : Output} {phase : Phase} {total : Nat} {s s' : Workers} {w : Nat}
    (h : Ordered phase total s) (hs : s.step o (w, .claim) = some s') :
    Ordered phase total s' := by
  obtain ⟨hw, rfl⟩ := step_claim hs
  have hcl := h.claimed_le
  have hu := h.paid_units
  have hp := h.paid_percent
  have hcard : (s.due.erase w).card + 1 = s.due.card := Finset.card_erase_add_one hw
  rcases claimAndPrint_cases h.phase_eq with ⟨hle, heq⟩ | ⟨hlt, heq⟩
  · rw [h.total_eq] at hle
    simp only [heq, List.append_nil]
    refine ⟨h.phase_eq, h.total_eq, h.events, h.rising, h.last, h.claimed_le, ?_, ?_, ?_⟩
    · show s.printed.length + (s.due.erase w).card ≤ min s.tracker.done total
      omega
    · show s.printed.length + (s.due.erase w).card ≤ min s.tracker.done total * 100 / total
      omega
    · intro hd
      replace hd : total ≤ s.tracker.done := hd
      exact Or.inl (by show s.tracker.lastClaimed = total; omega)
  · rw [h.total_eq] at hlt heq
    simp only [heq]
    have hcounts : ∀ t due, Workers.counts {
        tracker := t
        due := due
        printed := s.printed ++ [⟨phase, min s.tracker.done total, total⟩] }
        = s.counts ++ [min s.tracker.done total] := by
      intro t due
      simp [Workers.counts]
    refine ⟨h.phase_eq, rfl, ?_, ?_, ?_, ?_, ?_, ?_, ?_⟩
    · intro e he
      rcases List.mem_append.mp he with he | he
      · exact h.events e he
      · simp only [List.mem_singleton] at he
        subst he
        exact ⟨rfl, rfl⟩
    · rw [hcounts, List.pairwise_append]
      refine ⟨h.rising, by simp, ?_⟩
      intro c hc d hd
      simp only [List.mem_singleton] at hd
      have hcle := h.le_lastClaimed c hc
      omega
    · rw [hcounts]
      exact Or.inr (by simp)
    · exact Nat.le_refl _
    · simp only [List.length_append, List.length_singleton]
      omega
    · simp only [List.length_append, List.length_singleton]
      omega
    · intro hd
      replace hd : total ≤ s.tracker.done := hd
      exact Or.inl (by show min s.tracker.done total = total; omega)

/-! ## Whole phases -/

/-- The invariant holds after every interleaving, and `done` counts its advances. -/
theorem ordered_exec {o : Output} (ho : o.events = true) (t : Tracker) (phase : Phase)
    {total : Nat} (ht : 1 ≤ total) {labels : List (Nat × Move)} {s : Workers}
    (h : (workers o t phase total).exec (Workers.start t phase total) labels = some s) :
    Ordered phase total s ∧ s.tracker.done = advances labels := by
  refine Lts.exec_induction (P := fun labels s => Ordered phase total s ∧
    s.tracker.done = advances labels) ⟨ordered_start t phase ht, rfl⟩ ?_ h
  rintro labels ⟨w, move⟩ s s' - ⟨hinv, hdone⟩ hs
  replace hs : s.step o (w, move) = some s' := hs
  cases move with
  | advance =>
    refine ⟨hinv.advance ho hs, ?_⟩
    obtain ⟨-, rfl⟩ := step_advance hs
    simp [advances, hdone]
  | claim =>
    refine ⟨hinv.claim hs, ?_⟩
    obtain ⟨-, rfl⟩ := step_claim hs
    rcases claimAndPrint_cases hinv.phase_eq with ⟨_, heq⟩ | ⟨_, heq⟩ <;>
      simp [heq, advances, hdone]

/--
**The events of a phase are ordered and complete.**

A phase of `total` units, counted by any workers in any interleaving, with every worker
that owes an event back from the lock: the printed counts rise strictly, there are at most
100 of them and at most one per unit, exactly one is `total`, and it is the last.
-/
theorem progress_events_ordered_complete (o : Output) (ho : o.json = true ∧ o.stream = true)
    (t : Tracker) (phase : Phase) (total : Nat) (ht : 1 ≤ total) (labels : List (Nat × Move))
    (s : Workers)
    (h : (workers o t phase total).exec (Workers.start t phase total) labels = some s)
    (hadv : advances labels = total) (hdue : s.due = ∅) :
    s.counts.Pairwise (· < ·) ∧
      s.counts.length ≤ min total 100 ∧
      s.counts.count total = 1 ∧
      s.counts.getLast? = some total ∧
      ∀ e ∈ s.printed, e.phase = phase ∧ e.total = total := by
  obtain ⟨hinv, hdone⟩ := ordered_exec (o := o) (by simp [Output.events, ho]) t phase ht h
  rw [hadv] at hdone
  have hclaimed : s.tracker.lastClaimed = total := by
    rcases hinv.closing (by omega) with hc | hc
    · exact hc
    · rw [hdue] at hc
      simp at hc
  have hlast : s.counts.getLast? = some total := by
    rcases hinv.last with ⟨_, hz⟩ | hl
    · omega
    · rw [hl, hclaimed]
  have hu := hinv.paid_units
  have hp := hinv.paid_percent
  rw [hdone, Nat.min_self, hdue, Finset.card_empty] at hu hp
  rw [Nat.mul_div_cancel_left 100 (by omega)] at hp
  have hlen : s.counts.length = s.printed.length := by simp [Workers.counts]
  refine ⟨hinv.rising, by omega, ?_, hlast, hinv.events⟩
  obtain ⟨front, hfront⟩ := List.getLast?_eq_some_iff.mp hlast
  have hnot : total ∉ front := by
    intro hm
    have hlt := (List.pairwise_append.mp (hfront ▸ hinv.rising)).2.2 total hm total (by simp)
    omega
  rw [hfront, List.count_append, List.count_eq_zero.mpr hnot]
  simp

/-- Two workers count two units and reach the lock in the other order: the first to claim
prints the newest count, the second finds nothing left to print. -/
theorem progress_events_two_workers :
    ∃ s, (workers ⟨true, true⟩ {} .ports 2).exec (Workers.start {} .ports 2)
        [(0, .advance), (1, .advance), (0, .claim), (1, .claim)] = some s ∧
      s.counts = [2] ∧ s.counts.getLast? = some 2 := by
  refine ⟨_, rfl, rfl, ?_⟩
  exact (progress_events_ordered_complete ⟨true, true⟩ ⟨rfl, rfl⟩ {} .ports 2 (by decide)
    [(0, .advance), (1, .advance), (0, .claim), (1, .claim)] _ rfl (by decide) (by decide)).2.2.2.1

end NetScanner.Progress
