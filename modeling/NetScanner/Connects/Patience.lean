import NetScanner.Connects.Once

/-!
# How long a connect is waited for

`src/core/connects.zig`, the second half of `loop`: a loop sleeps until one of its connects has to
be looked at, and then walks them backwards and reports *everything that settled or ran out of
time*.

The walk removes as it goes, by swapping the last slot in, and what it removes it reports with the
verdict of a slot *number*. `takeSettled_slots` and `takeSettled_reported` say that no slot is
skipped or met twice and that each verdict goes to the connect whose socket it was asked of.
`connects_waited_for` puts this together with the deadlines that the slots carry in every reachable
state: nobody is given up early, nobody overdue is overlooked, and no loop oversleeps.
-/

namespace NetScanner.Connects

open Infra
open scoped List

variable {Job σ : Type*}

/-! ## The walk -/

/-- The connect settled, or its time is up at `after`. -/
def Slot.leaves (target : Job → Target) (after : Int) (cut : Cut) (slot : Slot Job) : Bool :=
  slot.settled || decide (Flight.slotDeadline target slot cut ≤ after)

/-- What is reported of the connect in slot `p.2`. -/
def Slot.reported (after : Int) (verdict : Nat → Verdict) (p : Slot Job × Nat) : Settled Job where
  job := p.1.job
  verdict := verdict p.2
  elapsedUs := elapsedUs p.1.started after

namespace Flight

variable (target : Job → Target) (after : Int) (cut : Cut) (verdict : Nat → Verdict)

/-- The walk at one slot. -/
theorem takeSettled_succ {i : Nat} {f : Flight Job} (hi : i < f.slots.length)
    (settled : List (Settled Job)) :
    takeSettled target after cut verdict (i + 1) f settled =
      if f.slots[i].leaves target after cut then
        takeSettled target after cut verdict i (f.remove i)
          (settled ++ [Slot.reported after verdict (f.slots[i], i)])
      else takeSettled target after cut verdict i f settled := by
  rw [takeSettled, List.getElem?_eq_getElem hi]
  cases hsettled : f.slots[i].settled with
  | true =>
    have hleaves : f.slots[i].leaves target after cut = true := by simp [Slot.leaves, hsettled]
    simp only [hsettled, hleaves, Bool.not_true, Bool.false_and, Bool.false_eq_true, if_false,
      if_true]
    rfl
  | false =>
    by_cases hdue : after < slotDeadline target f.slots[i] cut
    · have hstays : f.slots[i].leaves target after cut = false := by
        simp [Slot.leaves, hsettled, hdue]
      simp [hsettled, hstays, hdue]
    · have hleaves : f.slots[i].leaves target after cut = true := by
        simp [Slot.leaves, hsettled, Int.not_lt.mp hdue]
      simp only [hsettled, hleaves, hdue, Bool.not_false, Bool.true_and, decide_false,
        Bool.false_eq_true, if_false, if_true]
      rfl

/-- **Swapping the last slot in never skips one**: those that stay are those that have no reason
to leave. -/
theorem takeSettled_slots {i : Nat} {f : Flight Job} (hi : i ≤ f.slots.length)
    (settled : List (Settled Job)) :
    (takeSettled target after cut verdict i f settled).1.slots ~
      (f.slots.take i).filter (fun slot => !slot.leaves target after cut) ++ f.slots.drop i := by
  induction i generalizing f settled with
  | zero => exact List.Perm.refl _
  | succ i ih =>
    have hslot : i < f.slots.length := hi
    have htake : f.slots.take (i + 1) = f.slots.take i ++ [f.slots[i]] :=
      List.take_succ_eq_append_getElem hslot
    rw [takeSettled_succ target after cut verdict hslot, htake, List.filter_append]
    cases hleaves : f.slots[i].leaves target after cut with
    | true =>
      have hlen : i ≤ (f.remove i).slots.length := by
        have hperm := (cons_swapRemove_perm hslot).length_eq
        rw [List.length_cons] at hperm
        show i ≤ (swapRemove f.slots i).length
        omega
      rw [if_pos rfl]
      refine (ih hlen _).trans ?_
      show ((swapRemove f.slots i).take i).filter _ ++ (swapRemove f.slots i).drop i ~ _
      rw [take_swapRemove hslot, List.filter_cons_of_neg (by simp [hleaves]), List.filter_nil,
        List.append_nil]
      exact (drop_swapRemove_perm hslot).append_left _
    | false =>
      rw [if_neg (by simp)]
      refine (ih (Nat.le_of_lt hslot) settled).trans (List.Perm.of_eq ?_)
      rw [List.filter_cons_of_pos (by simp [hleaves]), List.filter_nil, List.append_assoc,
        List.singleton_append, List.getElem_cons_drop]

/-- **Each verdict goes to the connect it was asked for**: the slots that leave are reported from
the last to the first, each with the verdict of the number it had before the walk. -/
theorem takeSettled_reported {i : Nat} {f : Flight Job} (hi : i ≤ f.slots.length)
    (settled : List (Settled Job)) :
    (takeSettled target after cut verdict i f settled).2 = settled ++
      (((f.slots.take i).zipIdx.filter fun p => p.1.leaves target after cut).map
        (Slot.reported after verdict)).reverse := by
  induction i generalizing f settled with
  | zero => exact (List.append_nil _).symm
  | succ i ih =>
    have hslot : i < f.slots.length := hi
    have htake : f.slots.take (i + 1) = f.slots.take i ++ [f.slots[i]] :=
      List.take_succ_eq_append_getElem hslot
    have hlast : (f.slots.take (i + 1)).zipIdx = (f.slots.take i).zipIdx ++ [(f.slots[i], i)] := by
      rw [htake, List.zipIdx_append, List.length_take, Nat.min_eq_left (Nat.le_of_lt hslot),
        Nat.zero_add]
      rfl
    rw [takeSettled_succ target after cut verdict hslot, hlast, List.filter_append,
      List.map_append, List.reverse_append]
    cases hleaves : f.slots[i].leaves target after cut with
    | true =>
      have hlen : i ≤ (f.remove i).slots.length := by
        have hperm := (cons_swapRemove_perm hslot).length_eq
        rw [List.length_cons] at hperm
        show i ≤ (swapRemove f.slots i).length
        omega
      rw [if_pos rfl, ih hlen]
      show _ ++ ((((swapRemove f.slots i).take i).zipIdx.filter _).map _).reverse = _
      rw [take_swapRemove hslot, List.filter_cons_of_pos (by simp [hleaves]), List.filter_nil,
        List.append_assoc]
      rfl
    | false =>
      rw [if_neg (by simp), ih (Nat.le_of_lt hslot), List.filter_cons_of_neg (by simp [hleaves])]
      rfl

end Flight

/-! ## What a loop's slots carry -/

/-- Nothing waits to be reported while a loop is here. -/
def Pc.batchless : Pc Job → Bool
  | .begin | .head | .idle | .wait | .poll _ | .cutWait _ | .cutAnswer _ _ => true
  | _ => false

/-- What holds of a loop's connects in every reachable state. -/
structure LoopState.Timed (target : Job → Target) (l : LoopState Job) : Prop where
  deadline : ∀ slot ∈ l.flight.slots,
    slot.deadline = slot.started + (target slot.job).timeoutMs * nsPerMs
  batchless : l.pc.batchless → l.settled = []
  inFlight : l.pc = .wait → l.flight.slots ≠ []

theorem Flight.mem_markSettled {f : Flight Job} {ready : Nat → Bool} {slot : Slot Job}
    (h : slot ∈ (f.markSettled ready).slots) : ∃ slot' ∈ f.slots, slot.job = slot'.job ∧
      slot.started = slot'.started ∧ slot.deadline = slot'.deadline := by
  obtain ⟨i, hi, rfl⟩ := List.mem_mapIdx.mp h
  exact ⟨f.slots[i], List.getElem_mem hi, rfl, rfl, rfl⟩

theorem Flight.of_mem_takeSettled {target : Job → Target} {after : Int} {cut : Cut}
    {verdict : Nat → Verdict} {f : Flight Job} {settled : List (Settled Job)} {slot : Slot Job}
    (h : slot ∈ (takeSettled target after cut verdict f.len f settled).1.slots) :
    slot ∈ f.slots := by
  have hperm := takeSettled_slots target after cut verdict (Nat.le_refl f.slots.length) settled
  rcases List.mem_append.mp (hperm.mem_iff.mp h) with hstays | hbehind
  · exact List.mem_of_mem_take (List.mem_of_mem_filter hstays)
  · exact List.mem_of_mem_drop hbehind

namespace LoopState.Timed

variable {S : Source Job σ} {target : Job → Target} {loops : Nat} {env : LoopEnv}
  {sh sh' : Shared Job σ} {l l' : LoopState Job}

/-- A loop that goes elsewhere with the connects it has. -/
theorem moved (h : l.Timed target) (hflight : l'.flight = l.flight)
    (hbatch : l'.pc.batchless → l'.settled = []) (hwait : l'.pc ≠ .wait) : l'.Timed target where
  deadline := by
    rw [hflight]
    exact h.deadline
  batchless := hbatch
  inFlight hpc := absurd hpc hwait

theorem topUp (h : l.Timed target) (now : Int) : (l.topUp now).Timed target := by
  unfold LoopState.topUp
  split
  · split
    · exact h.moved rfl (fun hpc => by cases hpc) (by simp)
    · split
      · split <;> exact h.moved rfl (fun hpc => by cases hpc) (by simp)
      · split
        · exact h.moved rfl (fun hpc => by cases hpc) (by simp)
        · split <;> exact h.moved rfl (fun hpc => by cases hpc) (by simp)
  · exact h.moved rfl (fun hpc => by cases hpc) (by simp)

theorem attempted (h : l.Timed target) (job : Job) (started : Int) (attempt : Started) :
    (l.attempted job started attempt).Timed target := by
  unfold LoopState.attempted
  split
  · split <;> exact h.moved rfl (fun hpc => by cases hpc) (by simp)
  · exact h.moved rfl (fun hpc => by cases hpc) (by simp)

theorem recordStart (h : l.Timed target) {job : Job} {started : Int} (now : Int)
    (attempt : Started) : (l.recordStart target job started now attempt).Timed target := by
  unfold LoopState.recordStart
  split
  · exact h.moved rfl (fun hpc => by cases hpc) (by simp)
  · next sock =>
    refine ⟨?_, fun hpc => (by cases hpc), fun hpc => (by cases hpc)⟩
    intro slot hslot
    rcases List.mem_append.mp hslot with hold | hnew
    · exact h.deadline slot hold
    · obtain rfl := List.mem_singleton.mp hnew
      rfl
  · exact h

theorem idle (h : l.Timed target) (hpc : l.pc = .idle) : l.idle.Timed target := by
  have hnone : l.settled = [] := h.batchless (by rw [hpc]; rfl)
  unfold LoopState.idle
  split
  · split
    · exact h.moved rfl (fun _ => hnone) (by simp)
    · split
      · exact h.moved rfl (fun hpc => by cases hpc) (by simp)
      · exact h.moved rfl (fun _ => hnone) (by simp)
  · next hsome =>
    exact ⟨h.deadline, fun _ => hnone, fun _ hnil => hsome (List.length_eq_zero_iff.mpr hnil)⟩

/-- **A step keeps the time of every connect in flight.** -/
theorem step (h : l.Timed target) (hs : l.step S target loops env sh = some (sh', l')) :
    l'.Timed target := by
  cases LoopState.step_moves hs with
  | begin hpc =>
    have hnone : l.settled = [] := h.batchless (by rw [hpc]; rfl)
    exact h.moved rfl (fun _ => hnone) (by split <;> simp)
  | head hpc =>
    refine h.moved ?_ (fun hpc => by cases hpc) (by simp)
    split <;> rfl
  | topUp => exact h.topUp env.now
  | start => exact h.attempted _ _ _
  | record => exact h.recordStart _ _
  | report => exact h.moved rfl (fun _ => rfl) (by simp)
  | idle hpc => exact h.idle hpc
  | wait hpc =>
    exact h.moved rfl (fun _ => h.batchless (by rw [hpc]; rfl)) (by simp)
  | poll hpc =>
    refine ⟨?_, fun _ => h.batchless (by rw [hpc]; rfl), fun hpc => by cases hpc⟩
    intro slot hslot
    obtain ⟨slot', hmem, hjob, hstarted, hdeadline⟩ := Flight.mem_markSettled hslot
    rw [hdeadline, hstarted, hjob]
    exact h.deadline slot' hmem
  | cutWait hpc =>
    exact h.moved rfl (fun _ => h.batchless (by rw [hpc]; rfl)) (by simp)
  | cutAnswer =>
    refine ⟨?_, fun hpc => (by cases hpc), fun hpc => (by cases hpc)⟩
    intro slot hslot
    exact h.deadline slot (Flight.of_mem_takeSettled hslot)
  | reportSettled => exact h.moved rfl (fun _ => rfl) (by simp)
  | _ => exact h.moved rfl (fun hpc => by cases hpc) (by simp)

end LoopState.Timed

/-- **Every slot of every loop carries its own deadline**, in every reachable state. -/
theorem Engine.timed {S : Source Job σ} {target : Job → Target} {u : Setup} {source : σ}
    {e : Engine Job σ u.loops} (h : (engine S target u source).Reachable e) (i : Fin u.loops) :
    (e.loops i).Timed target := by
  refine h.invariant (I := fun e => ∀ i, (e.loops i).Timed target) ?_ ?_ i
  · rintro e rfl i
    exact ⟨fun slot hslot => (by cases hslot), fun _ => rfl, fun hpc => (by cases hpc)⟩
  · intro e label e' _ hi hs i
    cases label with
    | loop j env =>
      simp only [engine, Engine.step] at hs
      split at hs
      · cases hs
      · next sh l hstep =>
        cases hs
        by_cases hij : i = j
        · subst hij
          show (Function.update e.loops i l i).Timed target
          rw [Function.update_self]
          exact (hi i).step hstep
        · show (Function.update e.loops j l i).Timed target
          rw [Function.update_of_ne hij]
          exact hi i
    | main env =>
      obtain ⟨hloops, _⟩ := Engine.mainStep_keeps hs
      rw [hloops]
      exact hi i

/-! ## How long a loop sleeps -/

theorem msUntil_nonneg (now deadline : Int) : 0 ≤ msUntil now deadline := by
  unfold msUntil nsPerMs
  split <;> omega

/-- A sleep ends before the millisecond after the deadline is over. -/
theorem msUntil_inTime {now deadline : Int} (h : 0 < msUntil now deadline) :
    now + msUntil now deadline * nsPerMs < deadline + nsPerMs := by
  unfold msUntil nsPerMs at *
  split at h
  · omega
  · next hahead =>
    rw [if_neg hahead]
    omega

/-- A sleep that is not cut to what fits its type reaches the deadline. -/
theorem msUntil_reaches {now deadline : Int} (h : msUntil now deadline < 2 ^ 31 - 1) :
    deadline ≤ now + msUntil now deadline * nsPerMs := by
  unfold msUntil nsPerMs at *
  split at h
  · next hpast =>
    rw [if_pos hpast]
    omega
  · next hahead =>
    rw [if_neg hahead]
    omega

theorem Flight.slotWake_le_deadline (target : Job → Target) (slot : Slot Job) (cut : Cut)
    (now : Int) : slotWake target slot cut now ≤ slotDeadline target slot cut := by
  unfold slotWake
  split
  · dsimp only
    split
    · exact min_le_left _ _
    · exact le_refl _
  · exact le_refl _

/-- With nothing to cut to yet, a connect is looked at once its cut floor has passed. -/
theorem Flight.slotWake_le_check {target : Job → Target} {slot : Slot Job} {cut : Cut} {now : Int}
    {floor : Nat} (hfloor : (target slot.job).cutFloorMs = some floor) (hwait : cut.waitMs = none)
    (hahead : now < slot.started + floor * nsPerMs) :
    slotWake target slot cut now ≤ slot.started + floor * nsPerMs := by
  unfold slotWake
  rw [hfloor, hwait]
  dsimp only
  rw [if_pos hahead]
  exact min_le_right _ _

/-- The least of some numbers and a bound: at most each, and one of them. -/
theorem foldl_min_spec {α : Type*} (f : α → Int) (l : List α) (bound : Int) :
    (l.foldl (fun least a => min least (f a)) bound ≤ bound ∧
        ∀ a ∈ l, l.foldl (fun least a => min least (f a)) bound ≤ f a) ∧
      (l.foldl (fun least a => min least (f a)) bound = bound ∨
        ∃ a ∈ l, l.foldl (fun least a => min least (f a)) bound = f a) := by
  induction l generalizing bound with
  | nil => exact ⟨⟨le_refl _, fun a ha => (by cases ha)⟩, Or.inl rfl⟩
  | cons a l ih =>
    obtain ⟨⟨hbound, hall⟩, hone⟩ := ih (min bound (f a))
    refine ⟨⟨hbound.trans (min_le_left _ _), ?_⟩, ?_⟩
    · intro b hb
      rcases List.mem_cons.mp hb with rfl | hb
      · exact hbound.trans (min_le_right _ _)
      · exact hall b hb
    · rcases hone with heq | ⟨b, hb, heq⟩
      · rcases min_choice bound (f a) with hmin | hmin
        · exact Or.inl (heq.trans hmin)
        · exact Or.inr ⟨a, List.mem_cons_self, heq.trans hmin⟩
      · exact Or.inr ⟨b, List.mem_cons_of_mem a hb, heq⟩

/-- A loop sleeps as it should when it has the connects of `l` in flight. -/
structure LoopState.Sleeps (target : Job → Target) (l : LoopState Job) (cut : Cut) (now : Int)
    (waitMs : Int) : Prop where
  nonneg : 0 ≤ waitMs
  /-- Less than a millisecond past the time a connect in flight runs out of. -/
  inTime : 0 < waitMs → ∀ slot ∈ l.flight.slots,
    now + waitMs * nsPerMs <
      slot.started + (target slot.job).timeoutMs * nsPerMs + nsPerMs
  /-- The same where the connect may be cut short. -/
  cutInTime : 0 < waitMs → ∀ slot ∈ l.flight.slots, ∀ floor cap : Nat,
    (target slot.job).cutFloorMs = some floor → cut.waitMs = some cap →
      now + waitMs * nsPerMs <
        max slot.started cut.lastAnswerNs + (max cap floor : Nat) * nsPerMs + nsPerMs
  /-- A connect that may be cut short later is looked at once its floor has passed. -/
  checks : 0 < waitMs → ∀ slot ∈ l.flight.slots, ∀ floor : Nat,
    (target slot.job).cutFloorMs = some floor → cut.waitMs = none →
      now < slot.started + floor * nsPerMs →
        now + waitMs * nsPerMs < slot.started + floor * nsPerMs + nsPerMs
  /-- So is a connect that could not start. -/
  retries : 0 < waitMs → l.held.short = true →
    now + waitMs * nsPerMs < l.held.retryAt + nsPerMs
  /-- A batch that stopped short of the window goes on at once. -/
  hurries : l.roomLeft = true → waitMs = 0
  /-- It does not come back with nothing to look at: a sleep that nothing ends goes on to the time
  of a connect in flight or of a held one, or to the end of the clock. -/
  restful : l.roomLeft = false → waitMs < 2 ^ 31 - 1 →
    (∃ slot ∈ l.flight.slots,
      Flight.slotWake target slot cut now ≤ now + waitMs * nsPerMs) ∨
    (l.held.short = true ∧ l.held.retryAt ≤ now + waitMs * nsPerMs) ∨
    2 ^ 95 - 1 ≤ now + waitMs * nsPerMs

theorem Flight.slotDeadline_le (target : Job → Target) (slot : Slot Job) (cut : Cut) :
    slotDeadline target slot cut ≤ slot.deadline := by
  unfold slotDeadline
  split
  · exact min_le_left _ _
  · exact le_refl _

/-- When a connect runs out of time: its whole timeout has passed, or its cut floor and the wait
to cut it to have passed since it started and since the last answer. -/
theorem Flight.slotDeadline_le_iff {target : Job → Target} {slot : Slot Job} {cut : Cut}
    {after : Int} : slotDeadline target slot cut ≤ after ↔
      slot.deadline ≤ after ∨ ∃ floor cap : Nat, (target slot.job).cutFloorMs = some floor ∧
        cut.waitMs = some cap ∧ slot.started + (max cap floor : Nat) * nsPerMs ≤ after ∧
        cut.lastAnswerNs + (max cap floor : Nat) * nsPerMs ≤ after := by
  unfold slotDeadline
  split
  · next floor cap hfloor hcap =>
    constructor
    · intro h
      rcases min_le_iff.mp h with h | h
      · exact Or.inl h
      · exact Or.inr ⟨floor, cap, hfloor, hcap, by omega, by omega⟩
    · rintro (h | ⟨floor', cap', hf, hc, hstarted, hanswer⟩)
      · exact min_le_iff.mpr (Or.inl h)
      · obtain rfl := Option.some.inj (hfloor.symm.trans hf)
        obtain rfl := Option.some.inj (hcap.symm.trans hc)
        exact min_le_iff.mpr (Or.inr (by omega))
  · next hnone =>
    constructor
    · exact Or.inl
    · rintro (h | ⟨floor, cap, hf, hc, _⟩)
      · exact h
      · exact (hnone floor cap hf hc).elim

/-- **A loop sleeps as it should.** -/
theorem LoopState.Timed.sleeps {target : Job → Target} {l : LoopState Job} (h : l.Timed target)
    (cut : Cut) (now : Int) : l.Sleeps target cut now (l.waitMs target cut now) := by
  obtain ⟨⟨_, hleast⟩, hone⟩ :=
    foldl_min_spec (fun slot => Flight.slotWake target slot cut now) l.flight.slots (2 ^ 95 - 1)
  change ∀ slot ∈ l.flight.slots, l.flight.earliestWake target cut now ≤ _ at hleast
  change l.flight.earliestWake target cut now = _ ∨
    ∃ slot ∈ l.flight.slots, l.flight.earliestWake target cut now = _ at hone
  -- what the loop sleeps until
  obtain ⟨until_, huntil⟩ : ∃ until_, until_ = if l.held.short = true then
      min l.held.retryAt (l.flight.earliestWake target cut now)
    else l.flight.earliestWake target cut now := ⟨_, rfl⟩
  have hwait : l.waitMs target cut now = if l.roomLeft = true then 0 else msUntil now until_ := by
    rw [huntil]
    rfl
  have hwake : until_ ≤ l.flight.earliestWake target cut now := by
    rw [huntil]
    split
    · exact min_le_right _ _
    · exact le_refl _
  have hends : 0 < l.waitMs target cut now →
      now + l.waitMs target cut now * nsPerMs < until_ + nsPerMs := by
    intro hpos
    rw [hwait] at hpos ⊢
    split at hpos
    · omega
    · next hroom =>
      rw [if_neg hroom]
      exact msUntil_inTime hpos
  have hslot : 0 < l.waitMs target cut now → ∀ slot ∈ l.flight.slots,
      now + l.waitMs target cut now * nsPerMs <
        Flight.slotWake target slot cut now + nsPerMs := by
    intro hpos slot hmem
    have hle := hwake.trans (hleast slot hmem)
    have hend := hends hpos
    omega
  constructor
  · rw [hwait]
    split
    · exact le_refl _
    · exact msUntil_nonneg _ _
  · intro hpos slot hmem
    have hend := hslot hpos slot hmem
    have hwake := Flight.slotWake_le_deadline target slot cut now
    have hdeadline := Flight.slotDeadline_le target slot cut
    rw [h.deadline slot hmem] at hdeadline
    omega
  · intro hpos slot hmem floor cap hfloor hcap
    have hend := hslot hpos slot hmem
    have hwake := Flight.slotWake_le_deadline target slot cut now
    have hdeadline : Flight.slotDeadline target slot cut ≤
        max slot.started cut.lastAnswerNs + (max cap floor : Nat) * nsPerMs := by
      unfold Flight.slotDeadline
      rw [hfloor, hcap]
      exact min_le_right _ _
    omega
  · intro hpos slot hmem floor hfloor hcap hahead
    have hend := hslot hpos slot hmem
    have hcheck := Flight.slotWake_le_check hfloor hcap hahead
    omega
  · intro hpos hshort
    have hend := hends hpos
    rw [if_pos hshort] at huntil
    have hretry : until_ ≤ l.held.retryAt := huntil ▸ min_le_left _ _
    omega
  · intro hroom
    rw [hwait, if_pos hroom]
  · intro hroom hlt
    have hreach : until_ ≤ now + l.waitMs target cut now * nsPerMs := by
      rw [hwait, if_neg (by simp [hroom])] at hlt ⊢
      exact msUntil_reaches hlt
    have hslots : l.flight.earliestWake target cut now ≤
        now + l.waitMs target cut now * nsPerMs →
        (∃ slot ∈ l.flight.slots,
          Flight.slotWake target slot cut now ≤ now + l.waitMs target cut now * nsPerMs) ∨
        2 ^ 95 - 1 ≤ now + l.waitMs target cut now * nsPerMs := by
      intro hle
      rcases hone with heq | ⟨slot, hmem, heq⟩
      · exact Or.inr (heq ▸ hle)
      · exact Or.inl ⟨slot, hmem, heq ▸ hle⟩
    by_cases hshort : l.held.short = true
    · rw [if_pos hshort] at huntil
      rcases min_choice l.held.retryAt (l.flight.earliestWake target cut now) with hmin | hmin
      · exact Or.inr (Or.inl ⟨hshort, by rw [← hmin, ← huntil]; exact hreach⟩)
      · rcases hslots (by rw [← hmin, ← huntil]; exact hreach) with hsome | hclock
        · exact Or.inl hsome
        · exact Or.inr (Or.inr hclock)
    · rw [if_neg hshort] at huntil
      rcases hslots (huntil ▸ hreach) with hsome | hclock
      · exact Or.inl hsome
      · exact Or.inr (Or.inr hclock)

/-! ## The result -/

/-- What a walk at `after` makes of the connects in flight before it. -/
structure Flight.Walked (target : Job → Target) (after : Int) (cut : Cut)
    (verdict : Nat → Verdict) (before behind : Flight Job) (settled : List (Settled Job)) :
    Prop where
  /-- Those that stay are those with no reason to leave. -/
  stay : behind.slots ~ before.slots.filter fun slot => !slot.leaves target after cut
  /-- The others are reported, each once, with its own verdict and its own time. -/
  reported : settled = ((before.slots.zipIdx.filter fun p => p.1.leaves target after cut).map
    (Slot.reported after verdict)).reverse
  /-- A connect that nothing was heard of leaves when its whole timeout has passed, or when the
  wait it may be cut to has passed since it started and since the last answer, and not before. -/
  patient : ∀ slot ∈ before.slots, slot.settled = false →
    (slot.leaves target after cut = true ↔
      slot.started + (target slot.job).timeoutMs * nsPerMs ≤ after ∨
      ∃ floor cap : Nat, (target slot.job).cutFloorMs = some floor ∧ cut.waitMs = some cap ∧
        slot.started + (max cap floor : Nat) * nsPerMs ≤ after ∧
        cut.lastAnswerNs + (max cap floor : Nat) * nsPerMs ≤ after)
  /-- A connect that was heard of leaves. -/
  heard : ∀ slot ∈ before.slots, slot.settled = true → slot.leaves target after cut = true

theorem LoopState.Timed.walked {target : Job → Target} {l : LoopState Job} (h : l.Timed target)
    (hbatch : l.settled = []) (after : Int) (cut : Cut) (verdict : Nat → Verdict) :
    Flight.Walked target after cut verdict l.flight
      (Flight.takeSettled target after cut verdict l.flight.len l.flight l.settled).1
      (Flight.takeSettled target after cut verdict l.flight.len l.flight l.settled).2 where
  stay := by
    have hperm := Flight.takeSettled_slots target after cut verdict
      (Nat.le_refl l.flight.slots.length) l.settled
    rw [List.take_length, List.drop_length, List.append_nil] at hperm
    exact hperm
  reported := by
    have heq := Flight.takeSettled_reported target after cut verdict
      (Nat.le_refl l.flight.slots.length) l.settled
    rw [List.take_length, hbatch, List.nil_append] at heq
    rw [hbatch]
    exact heq
  patient := by
    intro slot hmem hunheard
    have hdeadline := h.deadline slot hmem
    rw [Slot.leaves, hunheard, Bool.false_or, decide_eq_true_iff, Flight.slotDeadline_le_iff,
      hdeadline]
  heard := by
    intro slot _ hheard
    rw [Slot.leaves, hheard, Bool.true_or]

/--
**Every connect is waited for as long as it should be, in every run.**

In every reachable state, whatever the other loops do: a loop's walk over its connects takes out
those that were heard of and those whose time is up, each with its own verdict, and no others; and
the sleep before the walk ends in the millisecond in which the first of them has to be looked at.
-/
theorem connects_waited_for {S : Source Job σ} {target : Job → Target} {u : Setup} {source : σ}
    {e e' : Engine Job σ u.loops} (h : (engine S target u source).Reachable e) {i : Fin u.loops}
    {env : LoopEnv} (hs : (engine S target u source).step e (.loop i env) = some e') :
    (∀ after cap, (e.loops i).pc = .cutAnswer after cap →
      (e'.loops i).pc = .reportSettled after ∧
      Flight.Walked target after (cutOf cap e.shared.lastCuttableAnswerNs) env.verdict
        (e.loops i).flight (e'.loops i).flight (e'.loops i).settled) ∧
    ((e.loops i).pc = .wait → (e.loops i).flight.slots ≠ [] ∧ ∃ waitMs,
      (e'.loops i).pc = .poll waitMs ∧ (e.loops i).Sleeps target
        (cutOf e.shared.waitCapMs e.shared.lastCuttableAnswerNs) env.now waitMs) := by
  have htimed := Engine.timed h i
  simp only [engine, Engine.step] at hs
  split at hs
  · cases hs
  · next sh l hstep =>
    cases hs
    constructor
    · intro after cap hpc
      have hbatch : (e.loops i).settled = [] := htimed.batchless (by rw [hpc]; rfl)
      simp only [LoopState.step, hpc, Option.some.injEq, Prod.mk.injEq] at hstep
      obtain ⟨-, rfl⟩ := hstep
      simp only [Function.update_self]
      exact ⟨trivial, htimed.walked hbatch after _ env.verdict⟩
    · intro hpc
      simp only [LoopState.step, hpc, Option.some.injEq, Prod.mk.injEq] at hstep
      obtain ⟨-, rfl⟩ := hstep
      simp only [Function.update_self]
      exact ⟨htimed.inFlight hpc, _, rfl, htimed.sleeps _ env.now⟩

/-- Three connects in flight: the first has had its 500 ms, the second was answered. -/
theorem connects_waited_for_three :
    let S : Source Nat (List Nat) :=
      { next := fun s => (s.head?, s.tail)
        done := fun s _ _ _ => s }
    let target : Nat → Target := fun job =>
      { ip := (10, 0, 0, 9)
        port := 443
        timeoutMs := if job = 1 then 500 else 2000 }
    let u : Setup :=
      { limit := 3
        loops := 1
        poolPace := 256
        pace := .fixed
        loops_pos := by omega
        loops_le := by omega }
    let loop : Fin u.loops := ⟨0, Nat.one_pos⟩
    let verdict : Nat → Verdict := fun i => if i = 1 then .open else .filtered
    ∃ e e' : Engine Nat (List Nat) u.loops, (engine S target u [1, 2, 3]).Reachable e ∧
      (e.loops loop).flight.jobs = [1, 2, 3] ∧ (e'.loops loop).flight.jobs = [3] ∧
      Flight.Walked target 600000000 (cutOf 0 e.shared.lastCuttableAnswerNs) verdict
        (e.loops loop).flight (e'.loops loop).flight (e'.loops loop).settled := by
  intro S target u loop verdict
  let quiet : LoopEnv := {}
  let taken (sock : Socket) : List LoopEnv :=
    [quiet, quiet, { attempt := .pending sock }, quiet, quiet]
  let slept : LoopEnv := { now := 600000000, ready := fun i => i = 1 }
  let before : List (EngineLabel u.loops) :=
    ([quiet, quiet] ++ taken 5 ++ taken 6 ++ taken 7 ++
      [quiet, quiet, quiet, quiet, slept, quiet]).map (.loop loop)
  let walk : EngineLabel u.loops := .loop loop { verdict := verdict }
  have hend : (((engine S target u [1, 2, 3]).exec (Engine.start u [1, 2, 3]) before).bind fun e =>
      ((engine S target u [1, 2, 3]).step e walk).map fun e' =>
        ((e.loops loop).flight.jobs, (e'.loops loop).flight.jobs,
          decide ((e.loops loop).pc matches .cutAnswer 600000000 0))) =
      some ([1, 2, 3], [3], true) := by
    decide +kernel
  obtain ⟨e, hexec, hstep⟩ := Option.bind_eq_some_iff.mp hend
  obtain ⟨e', hstep, hjobs⟩ := Option.map_eq_some_iff.mp hstep
  simp only [Prod.mk.injEq] at hjobs
  obtain ⟨hbefore, hbehind, hpc⟩ := hjobs
  have hat : (e.loops loop).pc = .cutAnswer 600000000 0 := by
    simp only [decide_eq_true_eq] at hpc
    split at hpc
    · next heq => exact heq
    · cases hpc
  have hreach : (engine S target u [1, 2, 3]).Reachable e := ⟨_, before, rfl, hexec⟩
  exact ⟨e, e', hreach, hbefore, hbehind,
    ((connects_waited_for hreach hstep).1 600000000 0 hat).2⟩

end NetScanner.Connects
