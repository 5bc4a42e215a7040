import NetScanner.Connects.InFlight

/-!
# Descriptors are left

`src/core/connects.zig`, `inFlightLimit`, `loopCount` and the beginning of `run`: how many connects
a run may keep in flight, given the limits that the process has on open files.

Under a shortage a run may pass that number, since a loop has room for its share rounded up. That
comes to less than one connect for each loop, and the reserve is larger. `descriptors_left` says
what that leaves in every reachable state of a run: above twice the reserve nearly all of it, and of
the few descriptors below that at least one.
-/

namespace NetScanner.Connects

open Infra

/-! ## The limits of the process -/

/-- `MAX_IN_FLIGHT` -/
def maxInFlight : Nat := 1024

/-- `RESERVED_FDS` -/
def reservedFds : Nat := 64

/-- The limits on open files; none is no limit. -/
structure Rlimit where
  cur : Option Nat
  max : Option Nat
deriving DecidableEq, Repr

/-- The soft limit does not pass the hard one. -/
def Rlimit.Ordered (r : Rlimit) : Prop :=
  ∀ hard, r.max = some hard → ∃ soft ≤ hard, r.cur = some soft

/-- What `setrlimit` is asked for: the soft limit raised as far as a run needs. -/
def Rlimit.raised (r : Rlimit) : Rlimit :=
  let wanted := maxInFlight + reservedFds
  { r with cur := some (match r.max with
    | none => wanted
    | some hard => min wanted hard) }

/-- The limits after `inFlightLimit`; `granted` is what `setrlimit` says. -/
def Rlimit.settled (r : Rlimit) (granted : Bool) : Rlimit :=
  match r.cur with
  | none => r
  | some cur => if cur < maxInFlight + reservedFds ∧ granted = true then r.raised else r

/-- `inFlightLimit`, where there are limits on open files; none when they cannot be read. -/
def inFlightLimit (limits : Option Rlimit) (granted : Bool) : Nat :=
  match limits with
  | none => maxInFlight / 8
  | some r =>
    match (r.settled granted).cur with
    | none => maxInFlight
    | some cur =>
      if maxInFlight + reservedFds ≤ cur then maxInFlight
      else if cur ≤ 2 * reservedFds then max 1 (cur / 2)
      else cur - reservedFds

inductive Os where
  | linux
  | macos
  | windows
deriving DecidableEq, Repr

/-- `MAX_LOOPS`, on each system. -/
def maxLoops : Os → Nat
  | .linux => 8
  | .macos => 3
  | .windows => 4

/-- `POOL_PACE` -/
def poolPace : Os → Nat
  | .macos => 128
  | _ => 256

/-- `loopCount`; none when the processors cannot be counted. -/
def loopCount (os : Os) (cpus : Option Nat) : Nat := min (maxLoops os) (max 1 (cpus.getD 1 / 2))

theorem loopCount_bounds (os : Os) (cpus : Option Nat) :
    1 ≤ loopCount os cpus ∧ loopCount os cpus ≤ 8 := by
  have hmost : 1 ≤ maxLoops os ∧ maxLoops os ≤ 8 := by cases os <;> decide
  unfold loopCount
  omega

theorem inFlightLimit_bounds (limits : Option Rlimit) (granted : Bool) :
    1 ≤ inFlightLimit limits granted ∧ inFlightLimit limits granted ≤ maxInFlight := by
  unfold inFlightLimit maxInFlight reservedFds
  split
  · decide
  · split
    · decide
    · split
      · decide
      · split <;> omega

/-- What `run` settles, from what the machine says. -/
def Setup.ofSystem (os : Os) (limits : Option Rlimit) (granted : Bool) (cpus : Option Nat)
    (pace : Pace) : Setup where
  limit := if os = .windows then maxInFlight else inFlightLimit limits granted
  loops := min (loopCount os cpus)
    (if os = .windows then maxInFlight else inFlightLimit limits granted)
  poolPace := Connects.poolPace os
  pace := pace
  loops_pos := by
    have hloops := (loopCount_bounds os cpus).1
    have hlimit := (inFlightLimit_bounds limits granted).1
    split
    · exact le_min hloops (by decide)
    · exact le_min hloops hlimit
  loops_le := min_le_right _ _

/-! ## What a run has open -/

variable {Job σ : Type*}

/-- A loop has at most what it has room for in flight. -/
theorem LoopState.Room.inFlight_le {capacity : Nat} {l : LoopState Job} (h : l.Room capacity) :
    l.inFlight ≤ capacity := by
  have hle := h.len_le
  have hstarting := h.starting
  unfold LoopState.inFlight
  split
  · next hpc => exact (hstarting (by rw [hpc]; rfl)).1
  · next hpc => exact (hstarting (by rw [hpc]; rfl)).1
  · exact hle

/-- **A run passes its limit by less than one connect for each loop.** -/
theorem inFlight_lt_limit_add_loops {S : Source Job σ} {target : Job → Target} {u : Setup}
    {source : σ} {e : Engine Job σ u.loops} (h : (engine S target u source).Reachable e) :
    ∑ i, (e.loops i).inFlight < u.limit + u.loops := by
  obtain ⟨seen, hwatched⟩ := h.watched false (sawFullRetry u)
  have hroom := (Engine.bounded hwatched).room
  have hpos := u.loops_pos
  have hshare : u.loops * u.capacity < u.limit + u.loops := by
    have hdiv : u.loops * u.capacity ≤ u.limit + u.loops - 1 := Nat.mul_div_le _ _
    omega
  calc ∑ i, (e.loops i).inFlight
      ≤ ∑ _i : Fin u.loops, u.capacity := Finset.sum_le_sum fun i _ => (hroom i).inFlight_le
    _ = u.loops * u.capacity := by simp
    _ < u.limit + u.loops := hshare

/-- The soft limit is never lowered, and does not pass the hard one. -/
theorem Rlimit.Ordered.settled {r : Rlimit} (h : r.Ordered) (granted : Bool) :
    (r.settled granted).Ordered ∧
      ∀ soft, (r.settled granted).cur = some soft → ∃ cur ≤ soft, r.cur = some cur := by
  obtain ⟨cur, max⟩ := r
  unfold Rlimit.settled
  cases cur with
  | none =>
    refine ⟨h, fun soft hsoft => ?_⟩
    cases hsoft
  | some cur =>
    simp only
    split
    · next hraise =>
      cases max with
      | none =>
        refine ⟨fun hard hhard => (by cases hhard), fun soft hsoft => ?_⟩
        cases hsoft
        exact ⟨cur, Nat.le_of_lt hraise.1, rfl⟩
      | some hard =>
        obtain ⟨soft, hle, hsoft⟩ := h hard rfl
        cases hsoft
        refine ⟨fun hard' hhard => ?_, fun soft hsoft => ?_⟩
        · cases hhard
          exact ⟨_, Nat.min_le_right _ _, rfl⟩
        · cases hsoft
          exact ⟨cur, Nat.le_min.mpr ⟨Nat.le_of_lt hraise.1, hle⟩, rfl⟩
    · exact ⟨h, fun soft hsoft => ⟨soft, Nat.le_refl _, hsoft⟩⟩

/-- What is left of the limits in a state of a run. -/
structure DescriptorsLeft (r after : Rlimit) (inFlight : Nat) : Prop where
  /-- The soft limit was not lowered, and does not pass the hard one. -/
  ordered : after.Ordered
  raised : ∀ soft, after.cur = some soft → ∃ cur ≤ soft, r.cur = some cur
  /-- Above twice the reserve nearly all of it is free. -/
  reserve : ∀ soft, after.cur = some soft → 2 * reservedFds < soft →
    inFlight + (reservedFds - 7) ≤ soft
  /-- A process with fewer does not run out of them either. -/
  few : ∀ soft, after.cur = some soft → 2 ≤ soft → inFlight < soft

/--
**A run leaves descriptors to the rest of the process.** On a system with a limit on open files,
whatever the limit and whether or not it could be raised, the soft limit is only raised, as far as
the hard one. In every reachable state of a run, shortages and retries included, the connects in
flight stay below a soft limit above twice the reserve by the reserve, but for the seven that the
loops may round up, and from two descriptors up there are fewer of them than the soft limit allows.
-/
theorem descriptors_left {S : Source Job σ} {target : Job → Target} {os : Os} (hos : os ≠ .windows)
    {r : Rlimit} (hr : r.Ordered) (granted : Bool) (cpus : Option Nat) (pace : Pace) {source : σ}
    {e : Engine Job σ (Setup.ofSystem os (some r) granted cpus pace).loops}
    (h : (engine S target (Setup.ofSystem os (some r) granted cpus pace) source).Reachable e) :
    DescriptorsLeft r (r.settled granted) (∑ i, (e.loops i).inFlight) := by
  obtain ⟨hordered, hraised⟩ := hr.settled granted
  have hsum := inFlight_lt_limit_add_loops h
  have hloops : (Setup.ofSystem os (some r) granted cpus pace).loops ≤ 8 :=
    Nat.le_trans (Nat.min_le_left _ _) (loopCount_bounds os cpus).2
  have hle := (Setup.ofSystem os (some r) granted cpus pace).loops_le
  have hlimit : (Setup.ofSystem os (some r) granted cpus pace).limit =
      inFlightLimit (some r) granted := if_neg hos
  rw [hlimit] at hsum hle
  have hcases : ∀ soft, (r.settled granted).cur = some soft →
      inFlightLimit (some r) granted =
        if maxInFlight + reservedFds ≤ soft then maxInFlight
        else if soft ≤ 2 * reservedFds then max 1 (soft / 2)
        else soft - reservedFds := by
    intro soft hsoft
    simp only [inFlightLimit, hsoft]
  refine ⟨hordered, hraised, fun soft hsoft hmany => ?_, fun soft hsoft htwo => ?_⟩
  · have hvalue := hcases soft hsoft
    unfold maxInFlight reservedFds at *
    split at hvalue
    · omega
    · rw [if_neg (by omega)] at hvalue
      omega
  · have hvalue := hcases soft hsoft
    unfold maxInFlight reservedFds at *
    split at hvalue
    · omega
    · split at hvalue <;> omega

/-- A process with six descriptors: a run of two loops is allowed three connects, and a shortage of
addresses brings it to four. -/
theorem descriptors_left_six :
    let S : Source Nat (List Nat) :=
      { next := fun s => (s.head?, s.tail)
        done := fun s _ _ _ => s }
    let target : Nat → Target := fun n =>
      { ip := (192, 0, 2, 33)
        port := n
        timeoutMs := 250 }
    let r : Rlimit :=
      { cur := some 6
        max := some 6 }
    let u := Setup.ofSystem .linux (some r) true (some 4) .adaptive
    ∃ e, (engine S target u [22, 80, 443, 631]).Reachable e ∧
      ∑ i, (e.loops i).inFlight = 4 ∧
      DescriptorsLeft r (r.settled true) (∑ i, (e.loops i).inFlight) := by
  intro S target r u
  let loop (i : Fin u.loops) : List (EngineLabel u.loops) := [
    .loop i {}, .loop i {}, .loop i {}, .loop i {}, .loop i { attempt := .unprobed .address },
    .loop i {}, .loop i {}, .loop i { attempt := .unprobed .address },
    .loop i { now := 1500000 }, .loop i { attempt := .pending 9 }, .loop i {}, .loop i {},
    .loop i { now := 1500000 }, .loop i { attempt := .pending 11 }, .loop i {}, .loop i {}]
  have hend : ((engine S target u [22, 80, 443, 631]).exec (Engine.start u [22, 80, 443, 631])
      (loop ⟨0, by decide⟩ ++ loop ⟨1, by decide⟩)).map
      (fun e => ∑ i, (e.loops i).inFlight) = some 4 := by
    decide +kernel
  obtain ⟨e, hexec, hfour⟩ := Option.map_eq_some_iff.mp hend
  have hrun : (engine S target u [22, 80, 443, 631]).Reachable e := ⟨_, _, rfl, hexec⟩
  have hordered : r.Ordered := by
    rintro hard hhard
    cases hhard
    exact ⟨6, le_refl _, rfl⟩
  exact ⟨e, hrun, hfour, descriptors_left (by decide) hordered true (some 4) .adaptive hrun⟩

end NetScanner.Connects
