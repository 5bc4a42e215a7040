import NetScanner.Connects.Once
import NetScanner.Connects.Pacing
import Mathlib.Algebra.Order.BigOperators.Group.Finset

/-!
# How many connects are in flight

A run keeps its connects *never past `inFlightLimit()`*. What a loop takes from the source passes
the window (`Shared.take`), and the window's even share, rounded down, adds up to the limit at
most. A connect that is held and tried again does not: it only needs room in the loop's `Flight`,
whose capacity is the share rounded up.

`inFlight_le_limit` says that the limit holds as long as no loop tries a held connect again while
it has its share of the limit in flight, and that no loop ever writes past its buffers. The former
cannot happen when the loops divide the limit (`never_full_retry_of_dvd`);
`held_connects_pass_the_limit` is a run where it does.
-/

namespace NetScanner.Connects

open Infra

variable {Job σ : Type*}

/-! ## The window stays below the limit -/

/-- Every size the window can take is one the limit allows. -/
structure Window.Within (limit : Nat) (w : Window) : Prop where
  size : w.size ≤ limit
  min : w.min ≤ limit
  max : w.max ≤ limit

theorem Setup.window_within (u : Setup) : u.window.Within u.limit := by
  have hmin : max u.loops (min u.poolPace u.limit) ≤ u.limit :=
    Nat.max_le.mpr ⟨u.loops_le, Nat.min_le_right _ _⟩
  unfold Setup.window Window.init
  refine ⟨?_, hmin, ?_⟩
  · show (if u.pace = .fixed then u.limit else max u.loops (min u.poolPace u.limit)) ≤ u.limit
    split
    · exact le_refl _
    · exact hmin
  · show (if u.pace = .pool then max u.loops (min u.poolPace u.limit) else u.limit) ≤ u.limit
    split
    · exact hmin
    · exact le_refl _

theorem Window.Within.grow {limit : Nat} {w : Window} (h : w.Within limit) (now : Int) :
    (w.grow now).Within limit := by
  unfold Window.grow
  split
  · exact h
  · exact ⟨(Nat.min_le_left _ _).trans h.max, h.min, h.max⟩

theorem Window.Within.observe {limit : Nat} {w : Window} (h : w.Within limit) (o : Outcome)
    (rttUs : Nat) (now : Int) : (w.observe o rttUs now).Within limit := by
  have hobserved := w.observe_observed ⟨o, rttUs, now⟩
  simp only at hobserved
  generalize w.observe o rttUs now = w' at hobserved
  cases hobserved with
  | still => exact h
  | cut => exact ⟨Nat.max_le.mpr ⟨h.min, (Nat.div_le_self _ _).trans h.size⟩, h.min, h.max⟩
  | slow | dark => exact ⟨h.size, h.min, h.max⟩
  | quick =>
    refine Window.Within.grow ?_ now
    exact ⟨h.size, h.min, h.max⟩
  | silent =>
    refine Window.Within.grow ?_ now
    exact ⟨h.size, h.min, h.max⟩
  | goesDark => exact ⟨h.min, h.min, h.max⟩

section Shared

variable (S : Source Job σ) (target : Job → Target) {limit : Nat} {sh : Shared Job σ}

theorem Shared.within_done (h : sh.window.Within limit) (settled : List (Settled Job)) (now : Int)
    (stored : Nat → Bool) : (sh.done S target settled now stored).window.Within limit := by
  have heach : ∀ (settled : List (Settled Job)) (k : Nat) (sh : Shared Job σ),
      sh.window.Within limit →
      (Shared.doneEach S target now stored k sh settled).window.Within limit := by
    intro settled
    induction settled with
    | nil => exact fun _ _ h => h
    | cons s rest ih =>
      intro k sh h
      refine ih (k + 1) _ ?_
      unfold Shared.doneOne
      split
      · exact h
      · simp only [Shared.sourceDone]
        split <;> exact h.observe _ _ _
  unfold Shared.done
  split
  · exact h
  · cases S.waitCap with
    | none => exact heach settled 0 sh h
    | some waitCap => exact heach settled 0 sh h

theorem Shared.within_take (h : sh.window.Within limit) (loops inFlight : Nat) :
    (sh.take S loops inFlight).2.window.Within limit := by
  unfold Shared.take
  split
  · exact h
  · split <;> exact h

/-- A connect taken passes the window. -/
theorem Shared.take_job {loops inFlight : Nat} {job : Job} {sh' : Shared Job σ}
    (h : sh.take S loops inFlight = (.job job, sh')) :
    inFlight < max 1 (sh.window.size / loops) := by
  unfold Shared.take at h
  split at h
  · simp at h
  · omega

end Shared

/-! ## What a loop has room for -/

/-- The walk over the connects in flight only takes some out. -/
theorem Flight.takeSettled_le (target : Job → Target) (after : Int) (cut : Cut)
    (verdict : Nat → Verdict) :
    ∀ (i : Nat) (f : Flight Job) (settled : List (Settled Job)),
      (takeSettled target after cut verdict i f settled).1.capacity = f.capacity ∧
        (takeSettled target after cut verdict i f settled).1.len ≤ f.len := by
  intro i
  induction i with
  | zero => exact fun _ _ => ⟨rfl, le_refl _⟩
  | succ i ih =>
    intro f settled
    unfold takeSettled
    split
    · exact ih f settled
    · next slot hslot =>
      split
      · exact ih f settled
      · obtain ⟨hcapacity, hle⟩ := ih (f.remove i) (settled ++ [{
          job := slot.job
          verdict := verdict i
          elapsedUs := elapsedUs slot.started after }])
        have hremoved : (f.remove i).len + 1 = f.len := by
          have hlen := (jobs_remove_perm hslot).length_eq
          simpa [jobs, len] using hlen
        exact ⟨hcapacity, by omega⟩

/-- The loop is in its top-up `while`, or about to report what settled there. -/
def Pc.topping : Pc Job → Bool
  | .topUp => true
  | .take _ => true
  | .noTarget _ => true
  | .start _ _ => true
  | .starving => true
  | .wentOut _ _ _ => true
  | .record _ _ _ => true
  | .report => true
  | _ => false

/-- The loop is past the checks at the head of the top-up `while`. -/
def Pc.starting : Pc Job → Bool
  | .take _ => true
  | .start _ _ => true
  | .starving => true
  | .wentOut _ _ _ => true
  | .record _ _ _ => true
  | _ => false

/-- The loop has walked its connects in flight. -/
def Pc.walked : Pc Job → Bool
  | .reportSettled _ => true
  | _ => false

/-- What a loop's buffers hold, against what they have room for. -/
structure LoopState.Room (capacity : Nat) (l : LoopState Job) : Prop where
  capacity_eq : l.flight.capacity = capacity
  len_le : l.flight.len ≤ capacity
  starting : l.pc.starting = true → l.flight.len < capacity ∧ l.batch < startBatch
  topping : l.pc.topping = true → l.settled.length ≤ l.batch ∧ l.batch ≤ startBatch
  walked : l.pc.walked = true → l.settled.length ≤ capacity
  empty : l.pc.topping = false → l.pc.walked = false → l.settled = []

namespace LoopState.Room

variable {capacity : Nat} {l : LoopState Job}

/-- Within the top-up `while` a loop may go anywhere it has room for. -/
theorem keep (h : l.Room capacity) (hpc : l.pc.topping = true) {l' : LoopState Job}
    (hpc' : l'.pc.topping = true)
    (hroom : l'.pc.starting = true → l.flight.len < capacity ∧ l.batch < startBatch)
    (hflight : l'.flight = l.flight) (hsettled : l'.settled = l.settled)
    (hbatch : l'.batch = l.batch) : l'.Room capacity := by
  refine ⟨by rw [hflight]; exact h.capacity_eq, by rw [hflight]; exact h.len_le, ?_, ?_, ?_, ?_⟩
  · rw [hflight, hbatch]
    exact hroom
  · rw [hsettled, hbatch]
    exact fun _ => h.topping hpc
  · intro hw
    cases hp : l'.pc <;> simp [hp, Pc.walked, Pc.topping] at hw hpc'
  · intro ht
    simp [hpc'] at ht

/-- A loop that has reported everything may go anywhere outside it. -/
theorem leave (h : l.Room capacity) {l' : LoopState Job} (hpc' : l'.pc.topping = false)
    (hflight : l'.flight = l.flight) (hsettled : l'.settled = []) : l'.Room capacity := by
  refine ⟨by rw [hflight]; exact h.capacity_eq, by rw [hflight]; exact h.len_le, ?_, ?_, ?_, ?_⟩
  · intro hs
    cases hp : l'.pc <;> simp [hp, Pc.starting, Pc.topping] at hs hpc'
  · intro ht
    simp [hpc'] at ht
  · simp [hsettled]
  · simp [hsettled]

theorem topUp (h : l.Room capacity) (hpc : l.pc = .topUp) (now : Int) :
    (l.topUp now).Room capacity := by
  have htop : l.pc.topping = true := by rw [hpc]; rfl
  obtain ⟨hsettled, hbatch⟩ := h.topping htop
  unfold LoopState.topUp
  split
  · next hlen =>
    rw [h.capacity_eq] at hlen
    split
    · exact h.keep htop rfl (by simp [Pc.starting]) rfl rfl rfl
    · next hne =>
      have hroom : l.flight.len < capacity ∧ l.batch < startBatch := ⟨hlen, by omega⟩
      split
      · split
        · exact h.keep htop rfl (fun _ => hroom) rfl rfl rfl
        · exact h.keep htop rfl (by simp [Pc.starting]) rfl rfl rfl
      · split
        · exact h.keep htop rfl (by simp [Pc.starting]) rfl rfl rfl
        · split
          · exact h.keep htop rfl (fun _ => hroom) rfl rfl rfl
          · exact h.keep htop rfl (by simp [Pc.starting]) rfl rfl rfl
  · exact h.keep htop rfl (by simp [Pc.starting]) rfl rfl rfl

/-- The next round of the top-up `while`. -/
theorem again (h : l.Room capacity) (hpc : l.pc.starting = true) (htop : l.pc.topping = true)
    {l' : LoopState Job} (hpc' : l'.pc = .topUp) (hflight : l'.flight = l.flight)
    (hsettled : l'.settled = l.settled) (hbatch : l'.batch = l.batch + 1) :
    l'.Room capacity := by
  obtain ⟨hlen, hlt⟩ := h.starting hpc
  obtain ⟨hle, _⟩ := h.topping htop
  refine ⟨by rw [hflight]; exact h.capacity_eq, by rw [hflight]; exact h.len_le, ?_, ?_, ?_, ?_⟩
  · simp [hpc', Pc.starting]
  · rw [hsettled, hbatch]
    intro _
    exact ⟨by omega, by omega⟩
  · simp [hpc', Pc.walked]
  · simp [hpc', Pc.topping]

theorem recordStart (target : Job → Target) (h : l.Room capacity) {job : Job} {started : Int}
    {attempt : Started} (hpc : l.pc = .record job started attempt) (now : Int) :
    (l.recordStart target job started now attempt).Room capacity := by
  obtain ⟨hlen, hlt⟩ := h.starting (by rw [hpc]; rfl)
  obtain ⟨hle, _⟩ := h.topping (by rw [hpc]; rfl)
  unfold LoopState.recordStart
  split
  · refine ⟨h.capacity_eq, h.len_le, by simp [Pc.starting], fun _ => ?_, by simp [Pc.walked],
      by simp [Pc.topping]⟩
    simp only [List.length_append, List.length_singleton]
    omega
  · refine ⟨h.capacity_eq, ?_, by simp [Pc.starting], fun _ => ⟨?_, ?_⟩, by simp [Pc.walked],
      by simp [Pc.topping]⟩
    · simpa [Flight.add, Flight.len, Nat.succ_le_iff] using hlen
    · exact Nat.le_succ_of_le hle
    · exact hlt
  · exact h

/-- The walk writes down at most what was in flight. -/
theorem walk (target : Job → Target) (h : l.Room capacity) (hpc : l.settled = []) (after : Int)
    (cut : Cut) (verdict : Nat → Verdict) :
    LoopState.Room capacity { l with
      flight := (Flight.takeSettled target after cut verdict l.flight.len l.flight l.settled).1
      settled := (Flight.takeSettled target after cut verdict l.flight.len l.flight l.settled).2
      pc := .reportSettled after } := by
  have hperm := (Flight.takeSettled_perm target after cut verdict l.flight.len l.flight
    l.settled).length_eq
  obtain ⟨hcapacity, _⟩ :=
    Flight.takeSettled_le target after cut verdict l.flight.len l.flight l.settled
  have hle := h.len_le
  simp only [List.length_append, List.length_map, Flight.jobs, hpc, List.length_nil] at hperm
  simp only [Flight.len, hpc] at hle hperm hcapacity ⊢
  refine ⟨hcapacity.trans h.capacity_eq, ?_, by simp [Pc.starting], by simp [Pc.topping],
    fun _ => ?_, by simp [Pc.walked]⟩
  · simp only [Flight.len]
    omega
  · simp only []
    omega

end LoopState.Room

section Loop

variable {S : Source Job σ} {target : Job → Target} {capacity : Nat}

/-- **Every step of a loop stays within its buffers.** -/
theorem LoopState.step_room {loops : Nat} {env : LoopEnv} {sh sh' : Shared Job σ}
    {l l' : LoopState Job} (h : l.Room capacity)
    (hs : l.step S target loops env sh = some (sh', l')) : l'.Room capacity := by
  cases LoopState.step_moves hs with
  | begin hpc =>
    refine h.leave ?_ rfl (h.empty (by rw [hpc]; rfl) (by rw [hpc]; rfl))
    cases env.allocated <;> rfl
  | head hpc =>
    have hempty := h.empty (by rw [hpc]; rfl) (by rw [hpc]; rfl)
    refine ⟨?_, ?_, by simp [Pc.starting], fun _ => ⟨?_, Nat.zero_le _⟩, by simp [Pc.walked],
      by simp [Pc.topping]⟩
    · split <;> exact h.capacity_eq
    · split <;> exact h.len_le
    · simp only []
      split <;> simp [hempty]
  | topUp hpc => exact h.topUp hpc env.now
  | takeJob hpc =>
    exact h.keep (by rw [hpc]; rfl) rfl (fun _ => h.starting (by rw [hpc]; rfl)) rfl rfl rfl
  | takeFull hpc | takeDry hpc =>
    exact h.keep (by rw [hpc]; rfl) rfl (by simp [Pc.starting]) rfl rfl rfl
  | dropSuspect hpc | noSuspect hpc =>
    exact h.keep (by rw [hpc]; rfl) rfl (by simp [Pc.starting]) rfl rfl rfl
  | start hpc =>
    have hroom := h.starting (by rw [hpc]; rfl)
    unfold LoopState.attempted
    split
    · split
      · exact h.again (by rw [hpc]; rfl) (by rw [hpc]; rfl) rfl rfl rfl rfl
      · exact h.keep (by rw [hpc]; rfl) rfl (fun _ => hroom) rfl rfl rfl
    · exact h.keep (by rw [hpc]; rfl) rfl (fun _ => hroom) rfl rfl rfl
  | starving hpc => exact h.again (by rw [hpc]; rfl) (by rw [hpc]; rfl) rfl rfl rfl rfl
  | clearSuspect hpc | clear hpc =>
    exact h.keep (by rw [hpc]; rfl) rfl (fun _ => h.starting (by rw [hpc]; rfl)) rfl rfl rfl
  | record hpc => exact h.recordStart target hpc env.now
  | report | reportSettled => exact h.leave rfl rfl rfl
  | idle hpc =>
    have hempty := h.empty (by rw [hpc]; rfl) (by rw [hpc]; rfl)
    unfold LoopState.idle
    split
    · split
      · exact h.leave rfl rfl hempty
      · split <;> exact h.leave rfl rfl hempty
    · exact h.leave rfl rfl hempty
  | wait hpc => exact h.leave rfl rfl (h.empty (by rw [hpc]; rfl) (by rw [hpc]; rfl))
  | poll hpc =>
    have hempty := h.empty (by rw [hpc]; rfl) (by rw [hpc]; rfl)
    refine ⟨h.capacity_eq, ?_, by simp [Pc.starting], by simp [Pc.topping], by simp [Pc.walked],
      fun _ _ => hempty⟩
    simpa [Flight.markSettled, Flight.len] using h.len_le
  | cutWait hpc => exact h.leave rfl rfl (h.empty (by rw [hpc]; rfl) (by rw [hpc]; rfl))
  | cutAnswer hpc => exact h.walk target (h.empty (by rw [hpc]; rfl) (by rw [hpc]; rfl)) _ _ _

theorem LoopState.step_within {limit loops : Nat} {env : LoopEnv} {sh sh' : Shared Job σ}
    {l l' : LoopState Job} (h : sh.window.Within limit)
    (hs : l.step S target loops env sh = some (sh', l')) : sh'.window.Within limit := by
  rcases LoopState.step_shared hs with rfl | rfl | ⟨settled, now, stored, rfl⟩ | ⟨-, rfl⟩
  · exact h
  · exact sh.within_take S h loops l.flight.len
  · exact Shared.within_done S target h settled now stored
  · exact h

/-! ## A loop's share of the limit -/

/-- The connects a loop has in flight: those in its slots, and one that has just gone out. -/
def LoopState.inFlight (l : LoopState Job) : Nat :=
  l.flight.len +
    match l.pc with
    | .wentOut _ _ (.pending _) => 1
    | .record _ _ (.pending _) => 1
    | _ => 0

/-- Whether a step at `now` tries a held connect again. -/
def LoopState.retriesHeld (l : LoopState Job) (now : Int) : Bool :=
  match l.pc with
  | .topUp =>
    decide (l.flight.len < l.flight.capacity) && decide (l.batch ≠ startBatch) && l.held.due now
  | _ => false

/-- A loop stays within its share, with the connect it is about to start. -/
structure LoopState.Shares (share : Nat) (l : LoopState Job) : Prop where
  len_le : l.flight.len ≤ share
  inHand : l.pc.inHand ≠ [] → l.flight.len < share

theorem LoopState.Shares.inFlight_le {share : Nat} {l : LoopState Job} (h : l.Shares share) :
    l.inFlight ≤ share := by
  have hle := h.len_le
  have hhand := h.inHand
  unfold LoopState.inFlight
  split
  · next hpc => exact hhand (by simp [hpc, Pc.inHand])
  · next hpc => exact hhand (by simp [hpc, Pc.inHand])
  · exact hle

theorem LoopState.Shares.keep {share : Nat} {l l' : LoopState Job} (h : l.Shares share)
    (hpc : l'.pc.inHand ≠ [] → l.flight.len < share) (hlen : l'.flight.len = l.flight.len) :
    l'.Shares share :=
  ⟨by rw [hlen]; exact h.len_le, by rw [hlen]; exact hpc⟩

theorem LoopState.Shares.topUp {share : Nat} {l : LoopState Job} (h : l.Shares share)
    (hpc : l.pc = .topUp) {now : Int}
    (hfits : l.retriesHeld now = true → l.flight.len < share) : (l.topUp now).Shares share := by
  unfold LoopState.topUp
  split
  · next hlen =>
    split
    · exact h.keep (by simp [Pc.inHand]) rfl
    · next hne =>
      split
      · next hdue =>
        split
        · refine h.keep (fun _ => hfits ?_) rfl
          simp [LoopState.retriesHeld, hpc, hlen, hne, hdue]
        · exact h.keep (by simp [Pc.inHand]) rfl
      · split
        · exact h.keep (by simp [Pc.inHand]) rfl
        · split <;> exact h.keep (by simp [Pc.inHand]) rfl
  · exact h.keep (by simp [Pc.inHand]) rfl

/-- **A step that does not try a held connect over its share keeps the loop within it.** -/
theorem LoopState.step_shares {u : Setup} {env : LoopEnv} {sh sh' : Shared Job σ}
    {l l' : LoopState Job} (h : l.Shares (u.limit / u.loops)) (hw : sh.window.Within u.limit)
    (hfits : l.retriesHeld env.now = true → l.flight.len < u.limit / u.loops)
    (hs : l.step S target u.loops env sh = some (sh', l')) :
    l'.Shares (u.limit / u.loops) := by
  cases LoopState.step_moves hs with
  | topUp hpc => exact h.topUp hpc hfits
  | takeJob hpc htake =>
    refine h.keep (fun _ => ?_) rfl
    -- the window's share is one of the limit's
    have hlt := Shared.take_job S htake
    have hsize : sh.window.size / u.loops ≤ u.limit / u.loops := Nat.div_le_div_right hw.size
    have hpos : 1 ≤ u.limit / u.loops := Nat.div_pos u.loops_le u.loops_pos
    omega
  | start hpc =>
    have hlt := h.inHand (by simp [hpc, Pc.inHand])
    unfold LoopState.attempted
    split
    · split <;> exact h.keep (fun _ => hlt) rfl
    · exact h.keep (fun _ => hlt) rfl
  | clearSuspect hpc | clear hpc =>
    have hlt := h.inHand (by simp [hpc, Pc.inHand])
    exact h.keep (fun _ => hlt) rfl
  | record hpc =>
    have hlt := h.inHand (by simp [hpc, Pc.inHand])
    unfold LoopState.recordStart
    split
    · exact h.keep (fun _ => hlt) rfl
    · refine ⟨?_, by simp [Pc.inHand]⟩
      simpa [Flight.add, Flight.len, Nat.succ_le_iff] using hlt
    · exact h
  | poll => exact h.keep (by simp [Pc.inHand]) (by simp [Flight.markSettled, Flight.len])
  | @cutAnswer after cap =>
    obtain ⟨_, hle⟩ := Flight.takeSettled_le target after (cutOf cap sh.lastCuttableAnswerNs)
      env.verdict l.flight.len l.flight l.settled
    exact ⟨hle.trans h.len_le, by simp [Pc.inHand]⟩
  | idle =>
    unfold LoopState.idle
    split
    · split
      · exact h.keep (by simp [Pc.inHand]) rfl
      · split <;> exact h.keep (by simp [Pc.inHand]) rfl
    · exact h.keep (by simp [Pc.inHand]) rfl
  | head => exact h.keep (by simp [Pc.inHand]) (by simp only []; split <;> rfl)
  | begin =>
    refine h.keep ?_ rfl
    cases env.allocated <;> simp [Pc.inHand]
  | _ => exact h.keep (by simp [Pc.inHand]) rfl

end Loop

/-! ## The whole run -/

section Run

variable {S : Source Job σ} {target : Job → Target} {u : Setup} {source : σ}

/-- What a watcher of the run notes: whether a loop tried a held connect again while it had its
share of the limit in flight. -/
def sawFullRetry (u : Setup) (seen : Bool) (e : Engine Job σ u.loops) : EngineLabel u.loops → Bool
  | .loop i env =>
    seen || ((e.loops i).retriesHeld env.now &&
      decide (u.limit / u.loops ≤ (e.loops i).flight.len))
  | .main _ => seen

/-- The invariant of a run and its watcher. -/
structure Engine.Bounded (u : Setup) (w : Engine Job σ u.loops × Bool) : Prop where
  within : w.1.shared.window.Within u.limit
  room : ∀ i, (w.1.loops i).Room u.capacity
  shares : w.2 = false → ∀ i, (w.1.loops i).Shares (u.limit / u.loops)

theorem Engine.bounded_start (source : σ) :
    Engine.Bounded u ((Engine.start u source : Engine Job σ u.loops), false) where
  within := u.window_within
  room _ := ⟨rfl, Nat.zero_le _, by simp [Engine.start, Pc.starting],
    by simp [Engine.start, Pc.topping], by simp [Engine.start, Pc.walked], fun _ _ => rfl⟩
  shares _ _ := ⟨Nat.zero_le _, by simp [Engine.start, Pc.inHand]⟩

theorem Engine.Bounded.loop {w w' : Engine Job σ u.loops × Bool} (h : Engine.Bounded u w)
    {i : Fin u.loops} {env : LoopEnv} (hs : w.1.step S target u (.loop i env) = some w'.1)
    (hseen : w'.2 = sawFullRetry u w.2 w.1 (.loop i env)) : Engine.Bounded u w' := by
  simp only [Engine.step] at hs
  split at hs
  · simp at hs
  · next sh l hstep =>
    have hw' := (Option.some.inj hs).symm
    refine ⟨?_, ?_, ?_⟩
    · rw [hw']
      exact LoopState.step_within h.within hstep
    · intro j
      rw [hw']
      by_cases hij : j = i
      · subst hij
        simp only [Function.update_self]
        exact LoopState.step_room (h.room j) hstep
      · simp only [Function.update_of_ne hij]
        exact h.room j
    · intro hnone j
      rw [hnone, sawFullRetry, eq_comm, Bool.or_eq_false_iff, Bool.and_eq_false_iff,
        decide_eq_false_iff_not] at hseen
      obtain ⟨hbefore, hfits⟩ := hseen
      rw [hw']
      by_cases hij : j = i
      · subst hij
        simp only [Function.update_self]
        refine LoopState.step_shares (h.shares hbefore j) h.within ?_ hstep
        intro hretries
        rcases hfits with hf | hf
        · simp [hretries] at hf
        · omega
      · simp only [Function.update_of_ne hij]
        exact h.shares hbefore j

theorem Engine.Bounded.main {w w' : Engine Job σ u.loops × Bool} (h : Engine.Bounded u w)
    {env : MainEnv} (hs : w.1.mainStep S u env = some w'.1) (hseen : w'.2 = w.2) :
    Engine.Bounded u w' := by
  obtain ⟨hloops, hwindow, _⟩ := Engine.mainStep_keeps hs
  refine ⟨?_, ?_, ?_⟩
  · rw [hwindow]
    exact h.within
  · rw [hloops]
    exact h.room
  · rw [hloops, hseen]
    exact h.shares

theorem Engine.bounded {w : Engine Job σ u.loops × Bool}
    (h : ((engine S target u source).watch false (sawFullRetry u)).Reachable w) :
    Engine.Bounded u w := by
  refine h.invariant (I := Engine.Bounded u) ?_ ?_
  · rintro ⟨e, seen⟩ ⟨he, hseen⟩
    simp only [engine] at he hseen
    subst he hseen
    exact Engine.bounded_start source
  · intro w label w' _ hw hs
    obtain ⟨hstep, hseen⟩ := Lts.watch_step hs
    cases label with
    | loop i env => exact hw.loop hstep hseen
    | main env => exact hw.main hstep hseen

/-- A loop about to file a connect has room for it. -/
structure LoopState.InBounds (capacity : Nat) (l : LoopState Job) : Prop where
  /-- The arrays of its `Flight` are as long as `run` made them, and never overrun. -/
  flight : l.flight.capacity = capacity ∧ l.flight.len ≤ capacity
  add : ∀ job started sock, l.pc = .record job started (.pending sock) → l.flight.len < capacity
  /-- So is the batch of verdicts, of `@max(capacity, START_BATCH)`. -/
  settled : l.settled.length ≤ max capacity startBatch
  settle : ∀ job started verdict, l.pc = .record job started (.done verdict) →
    l.settled.length < max capacity startBatch
  walk : ∀ after cap, l.pc = .cutAnswer after cap →
    l.settled.length + l.flight.len ≤ max capacity startBatch

theorem LoopState.Room.inBounds {capacity : Nat} {l : LoopState Job} (h : l.Room capacity) :
    l.InBounds capacity where
  flight := ⟨h.capacity_eq, h.len_le⟩
  add job started sock hpc := (h.starting (by rw [hpc]; rfl)).1
  settled := by
    cases htop : l.pc.topping with
    | true =>
      obtain ⟨h1, h2⟩ := h.topping htop
      omega
    | false =>
      cases hwalked : l.pc.walked with
      | true =>
        have hle := h.walked hwalked
        omega
      | false => simp [h.empty htop hwalked]
  settle job started verdict hpc := by
    have h1 := (h.starting (by rw [hpc]; rfl)).2
    have h2 := (h.topping (by rw [hpc]; rfl)).1
    omega
  walk after cap hpc := by
    have hlen := h.len_le
    rw [h.empty (by rw [hpc]; rfl) (by rw [hpc]; rfl), List.length_nil]
    omega

/--
**A run stays within `inFlightLimit()`** as long as no loop tries a held connect again while it
has its share of the limit in flight; and no loop ever writes past its buffers, whatever the
interleaving of the loops, the window and the results of `start`.
-/
theorem inFlight_le_limit (S : Source Job σ) (target : Job → Target) (u : Setup) (source : σ)
    {e : Engine Job σ u.loops} {seen : Bool}
    (h : ((engine S target u source).watch false (sawFullRetry u)).Reachable (e, seen)) :
    (∀ i, (e.loops i).InBounds u.capacity) ∧
      (seen = false → ∑ i, (e.loops i).inFlight ≤ u.limit) := by
  have hbounded := Engine.bounded h
  refine ⟨fun i => (hbounded.room i).inBounds, fun hnone => ?_⟩
  calc ∑ i, (e.loops i).inFlight
      ≤ ∑ _i : Fin u.loops, u.limit / u.loops :=
        Finset.sum_le_sum fun i _ => (hbounded.shares hnone i).inFlight_le
    _ = u.loops * (u.limit / u.loops) := by simp
    _ ≤ u.limit := Nat.mul_div_le u.limit u.loops

/-- A run of one loop that holds a connect back and tries it again, with room for it. -/
theorem inFlight_le_limit_held :
    let S : Source Nat (List Nat) :=
      { next := fun s => (s.head?, s.tail)
        done := fun s _ _ _ => s }
    let target : Nat → Target := fun _ =>
      { ip := (10, 0, 0, 1)
        port := 80
        timeoutMs := 500 }
    let u : Setup :=
      { limit := 4
        loops := 1
        poolPace := 256
        pace := .adaptive
        loops_pos := by decide
        loops_le := by decide }
    ∃ e, ((engine S target u [7, 8]).watch false (sawFullRetry u)).Reachable (e, false) ∧
      ∑ i, (e.loops i).inFlight = 1 ∧
      (∀ i, (e.loops i).InBounds u.capacity) ∧
      (false = false → ∑ i, (e.loops i).inFlight ≤ u.limit) := by
  intro S target u
  let loop (env : LoopEnv) : EngineLabel u.loops := .loop ⟨0, by decide⟩ env
  let labels : List (EngineLabel u.loops) := [
    loop {}, loop {}, loop {}, loop {}, loop { attempt := .unprobed .socket },
    loop { now := 2000000 }, loop { attempt := .pending 3 }, loop {}]
  have hend : (((engine S target u [7, 8]).watch false (sawFullRetry u)).exec
      (Engine.start u [7, 8], false) labels).map
      (fun w => (∑ i, (w.1.loops i).inFlight, w.2)) = some (1, false) := by
    decide +kernel
  obtain ⟨⟨e, seen⟩, hexec, hval⟩ := Option.map_eq_some_iff.mp hend
  obtain ⟨hone, hseen⟩ := Prod.mk.inj hval
  simp only [] at hone hseen
  subst hseen
  have hrun : ((engine S target u [7, 8]).watch false (sawFullRetry u)).Reachable (e, false) :=
    ⟨(Engine.start u [7, 8], false), labels, ⟨rfl, rfl⟩, hexec⟩
  exact ⟨e, hrun, hone, inFlight_le_limit S target u [7, 8] hrun⟩

/-- When the loops divide the limit, the room a loop has is its share, and a held connect is never
tried again over it. -/
theorem never_full_retry_of_dvd (hdvd : u.loops ∣ u.limit) {e : Engine Job σ u.loops} {seen : Bool}
    (h : ((engine S target u source).watch false (sawFullRetry u)).Reachable (e, seen)) :
    seen = false := by
  have hcapacity : u.capacity = u.limit / u.loops := by
    obtain ⟨k, hk⟩ := hdvd
    have hpos := u.loops_pos
    unfold Setup.capacity
    rw [hk, Nat.mul_div_cancel_left k hpos, Nat.add_sub_assoc hpos, Nat.mul_add_div hpos,
      Nat.div_eq_of_lt (by omega), Nat.add_zero]
  refine h.invariant (I := fun w => w.2 = false) ?_ ?_
  · rintro w ⟨_, hseen⟩
    exact hseen
  · intro w label w' hreach hnone hs
    obtain ⟨_, hseen⟩ := Lts.watch_step hs
    rw [hseen, hnone]
    cases label with
    | main env => rfl
    | loop i env =>
      have hroom := ((Engine.bounded hreach).room i).capacity_eq
      simp only [sawFullRetry, Bool.false_or, Bool.and_eq_false_iff, decide_eq_false_iff_not]
      by_cases hretries : (w.1.loops i).retriesHeld env.now = true
      · right
        unfold LoopState.retriesHeld at hretries
        split at hretries
        · simp only [Bool.and_eq_true, decide_eq_true_eq, hroom, hcapacity] at hretries
          omega
        · simp at hretries
      · left
        simpa using hretries

/--
**A run past its limit**: three connects are allowed and two loops share them, so each loop may
take one at a time and has room for two. Each takes a connect that finds no address, and another
to test the first against, which finds none either; when there are addresses again, each starts
both.
-/
theorem held_connects_pass_the_limit :
    let S : Source Nat (List Nat) :=
      { next := fun s => (s.head?, s.tail)
        done := fun s _ _ _ => s }
    let target : Nat → Target := fun _ =>
      { ip := (10, 0, 0, 1)
        port := 80
        timeoutMs := 500 }
    let u : Setup :=
      { limit := 3
        loops := 2
        poolPace := 256
        pace := .adaptive
        loops_pos := by decide
        loops_le := by decide }
    ∃ e, (engine S target u [1, 2, 3, 4]).Reachable e ∧ ¬∑ i, (e.loops i).inFlight ≤ u.limit := by
  intro S target u
  let loop (i : Fin u.loops) : List (EngineLabel u.loops) := [
    .loop i {}, .loop i {}, .loop i {}, .loop i {}, .loop i { attempt := .unprobed .address },
    .loop i {}, .loop i {}, .loop i { attempt := .unprobed .address },
    .loop i { now := 2000000 }, .loop i { attempt := .pending 3 }, .loop i {}, .loop i {},
    .loop i { now := 2000000 }, .loop i { attempt := .pending 4 }, .loop i {}, .loop i {}]
  have hend : ((engine S target u [1, 2, 3, 4]).exec (Engine.start u [1, 2, 3, 4])
      (loop ⟨0, by decide⟩ ++ loop ⟨1, by decide⟩)).map
      (fun e => ∑ i, (e.loops i).inFlight) = some 4 := by
    decide +kernel
  obtain ⟨e, hexec, hfour⟩ := Option.map_eq_some_iff.mp hend
  refine ⟨e, ⟨_, _, rfl, hexec⟩, ?_⟩
  rw [hfour]
  decide

end Run

end NetScanner.Connects
