import NetScanner.Connects.Window
import Mathlib.Data.List.Induction

/-!
# The window over a whole run

`src/core/connects.zig`, `Window`: what a history of observations does to the window. The window
halves at a delay cut and drops to its minimum when the host goes dark; otherwise it grows by one
at a time, but not while a cut holds it.

`Observed` says what one observation can do. Everything else about a history is an induction over
it.
-/

namespace NetScanner.Connects

/-- One call of `observe`. -/
structure Observation where
  outcome : Outcome
  rttUs : Nat
  nowNs : Int
deriving DecidableEq, Repr

/-- Whether the connect was answered. -/
def Observation.answered (o : Observation) : Bool := o.outcome != .filtered

namespace Window

/-- The window after a history of observations. -/
def after (w : Window) (history : List Observation) : Window :=
  history.foldl (fun w o => w.observe o.outcome o.rttUs o.nowNs) w

/-- The fastest answer, once this one is counted. -/
def fastestWith (w : Window) (o : Observation) : Nat :=
  Nat.min (w.fastestUs.getD o.rttUs) o.rttUs

/-- An answer that counts as queueing. -/
def Slow (w : Window) (o : Observation) : Prop :=
  o.answered = true ∧ 2 * w.fastestWith o + slackUs < o.rttUs

/-- A delay cut: an adaptive window that no cut holds meets a slow answer. -/
def Cuts (w : Window) (o : Observation) : Prop :=
  w.adaptive = true ∧ w.Slow o ∧ w.holdUntilNs ≤ o.nowNs

instance (w : Window) (o : Observation) : Decidable (w.Slow o) :=
  inferInstanceAs (Decidable (_ ∧ _))

instance (w : Window) (o : Observation) : Decidable (w.Cuts o) :=
  inferInstanceAs (Decidable (_ ∧ _ ∧ _))

/-- Until when a cut holds the window. -/
def holdAfter (o : Observation) : Int := o.nowNs + o.rttUs * nsPerUs

/-! ## What one observation does -/

/-- The window once an answer is counted. -/
def countAnswer (w : Window) (o : Observation) : Window :=
  { w with
    settled := w.settled + 1
    answered := w.answered + 1
    lastAnswerNs := o.nowNs
    dark := false
    fastestUs := some (w.fastestWith o) }

/-- The window once an unanswered connect is counted. -/
def countSilence (w : Window) : Window := { w with settled := w.settled + 1 }

/-- What the first unanswered connect of a host that went dark finds. -/
def Darkens (w : Window) (o : Observation) : Prop :=
  w.answered ≠ 0 ∧ w.settled + 1 ≤ 2 * w.answered ∧ darkNs ≤ o.nowNs - w.lastAnswerNs

/-- What an observation makes of a window. -/
inductive Observed (w : Window) (o : Observation) : Window → Prop
  | still (h : w.adaptive = false) : Observed w o w
  | cut (h : w.Cuts o) :
      Observed w o { w.countAnswer o with
        size := Nat.max w.min (w.size / 2)
        holdUntilNs := holdAfter o }
  | slow (h : w.adaptive = true) (hslow : w.Slow o) (hheld : o.nowNs < w.holdUntilNs) :
      Observed w o (w.countAnswer o)
  | quick (h : w.adaptive = true) (hanswered : o.answered = true) (hquick : ¬w.Slow o) :
      Observed w o ((w.countAnswer o).grow o.nowNs)
  | dark (h : w.adaptive = true) (hsilent : o.answered = false) (hdark : w.dark = true) :
      Observed w o w.countSilence
  | goesDark (h : w.adaptive = true) (hsilent : o.answered = false) (hlight : w.dark = false)
      (hdarkens : w.Darkens o) :
      Observed w o { w.countSilence with dark := true, size := w.min }
  | silent (h : w.adaptive = true) (hsilent : o.answered = false) (hlight : w.dark = false) :
      Observed w o (w.countSilence.grow o.nowNs)

theorem goneDark_cases (w : Window) (nowNs : Int) :
    w.dark = true ∧ w.goneDark nowNs = (true, w) ∨
      w.dark = false ∧ (w.goneDark nowNs = (false, w) ∨
        (w.answered ≠ 0 ∧ w.settled ≤ 2 * w.answered ∧ darkNs ≤ nowNs - w.lastAnswerNs) ∧
          w.goneDark nowNs = (true, { w with dark := true, size := w.min })) := by
  unfold goneDark
  split
  · next hdark => exact Or.inl ⟨hdark, rfl⟩
  · next hdark =>
    refine Or.inr ⟨Bool.eq_false_iff.mpr hdark, ?_⟩
    split
    · exact Or.inl rfl
    · next hrare =>
      rw [not_or, Nat.not_lt] at hrare
      split
      · exact Or.inl rfl
      · next hrecent => exact Or.inr ⟨⟨hrare.1, hrare.2, Int.not_lt.mp hrecent⟩, rfl⟩

theorem observe_observed (w : Window) (o : Observation) :
    Observed w o (w.observe o.outcome o.rttUs o.nowNs) := by
  unfold observe
  by_cases hadaptive : w.adaptive = true
  · rw [if_neg (by simp [hadaptive])]
    simp only []
    split
    · next hanswer =>
      have hanswered : o.answered = true := by simpa [Observation.answered] using hanswer
      split
      · next hslow =>
        split
        · next hfree => exact .cut ⟨hadaptive, ⟨hanswered, hslow⟩, hfree⟩
        · next hheld => exact .slow hadaptive ⟨hanswered, hslow⟩ (Int.not_le.mp hheld)
      · next hquick => exact .quick hadaptive hanswered fun hslow => hquick hslow.2
    · next hanswer =>
      have hsilent : o.answered = false := by simpa [Observation.answered] using hanswer
      rcases w.countSilence.goneDark_cases o.nowNs with
        ⟨hdark, hgone⟩ | ⟨hlight, hgone | ⟨hlong, hgone⟩⟩
      · simp only [countSilence] at hgone
        rw [hgone]
        exact .dark hadaptive hsilent hdark
      · simp only [countSilence] at hgone
        rw [hgone]
        exact .silent hadaptive hsilent hlight
      · simp only [countSilence] at hgone
        rw [hgone]
        exact .goesDark hadaptive hsilent hlight hlong
  · rw [if_pos (by simp [hadaptive])]
    exact .still (Bool.eq_false_iff.mpr hadaptive)

/-! ## What a history keeps -/

theorem grow_size (w : Window) (nowNs : Int) :
    (w.grow nowNs).size = if nowNs < w.holdUntilNs then w.size else Nat.min w.max (w.size + 1) := by
  unfold grow
  split <;> rfl

/-- Growing touches the size alone. -/
theorem grow_frame (w : Window) (nowNs : Int) :
    ∃ size, w.grow nowNs = { w with size } ∧ size = (w.grow nowNs).size := by
  unfold grow
  split
  · exact ⟨w.size, rfl, rfl⟩
  · exact ⟨_, rfl, rfl⟩

@[simp] theorem after_nil (w : Window) : w.after [] = w := rfl

theorem after_concat (w : Window) (history : List Observation) (o : Observation) :
    w.after (history ++ [o]) = (w.after history).observe o.outcome o.rttUs o.nowNs := by
  simp [after]

/-- What is true of a window at first and stays true is true after every history. -/
theorem after_invariant {I : List Observation → Window → Prop} {w : Window} (hinit : I [] w)
    (hstep : ∀ history w w' o, I history w → Observed w o w' → I (history ++ [o]) w')
    (history : List Observation) : I history (w.after history) := by
  induction history using List.reverseRecOn with
  | nil => exact hinit
  | append_singleton history o ih =>
    rw [after_concat]
    exact hstep _ _ _ _ ih (observe_observed _ _)

/-- The bounds of the window, and what its pace leaves of its freedom. -/
structure Bounded (min max : Nat) (pace : Pace) (w : Window) : Prop where
  min_eq : w.min = min
  max_eq : w.max = if pace = .pool then min else max
  adaptive_eq : w.adaptive = decide (pace = .adaptive)
  min_le : min ≤ w.size
  le_max : w.size ≤ w.max
  fixed : pace = .fixed → w.size = max
  dark : w.dark = true → w.size = min

theorem bounded_init {min max : Nat} (h : min ≤ max) (pace : Pace) :
    Bounded min max pace (init min max pace) := by
  cases pace <;> constructor <;> simp [init, h]

theorem Bounded.step {min max : Nat} {pace : Pace} {w w' : Window} {o : Observation}
    (h : Bounded min max pace w) (hobs : Observed w o w') : Bounded min max pace w' := by
  obtain ⟨hmin, hmax, hadapt, hle, hge, hfixed, hdark⟩ := h
  have hpace : w.adaptive = true → pace ≠ .fixed := by
    rintro hadaptive rfl
    rw [hadapt] at hadaptive
    simp at hadaptive
  have hgrow : ∀ w' : Window, w'.size = w.size → w'.min = w.min → w'.max = w.max →
      w'.adaptive = w.adaptive → w'.dark = false → w.adaptive = true →
      Bounded min max pace (w'.grow o.nowNs) := by
    intro w' hsize hmin' hmax' hadapt' hlight hadaptive
    obtain ⟨size, heq, hnew⟩ := w'.grow_frame o.nowNs
    rw [grow_size, hsize] at hnew
    have hsize' : w.size ≤ size ∧ size ≤ w.max := by
      rw [hnew, hmax']
      split
      · exact ⟨Nat.le_refl _, hge⟩
      · exact ⟨Nat.le_min.mpr ⟨hge, Nat.le_succ _⟩, Nat.min_le_left _ _⟩
    rw [heq]
    refine ⟨hmin'.trans hmin, hmax'.trans hmax, hadapt'.trans hadapt, Nat.le_trans hle hsize'.1, ?_,
      fun hp => absurd hp (hpace hadaptive), fun hd => ?_⟩
    · show size ≤ w'.max
      rw [hmax']
      exact hsize'.2
    · rw [show w'.dark = false from hlight] at hd
      simp at hd
  cases hobs with
  | still => exact ⟨hmin, hmax, hadapt, hle, hge, hfixed, hdark⟩
  | cut hcut =>
    refine ⟨hmin, hmax, hadapt, ?_, ?_, fun hp => absurd hp (hpace hcut.1), by simp [countAnswer]⟩
    · show min ≤ Nat.max w.min (w.size / 2)
      rw [hmin]
      exact Nat.le_max_left _ _
    · show Nat.max w.min (w.size / 2) ≤ w.max
      refine Nat.max_le.mpr ⟨?_, Nat.le_trans (Nat.div_le_self _ _) hge⟩
      rw [hmin]
      exact Nat.le_trans hle hge
  | slow hadaptive =>
    exact ⟨hmin, hmax, hadapt, hle, hge, fun hp => absurd hp (hpace hadaptive),
      by simp [countAnswer]⟩
  | quick hadaptive => exact hgrow _ rfl rfl rfl rfl rfl hadaptive
  | dark hadaptive => exact ⟨hmin, hmax, hadapt, hle, hge, hfixed, hdark⟩
  | goesDark hadaptive =>
    refine ⟨hmin, hmax, hadapt, Nat.le_of_eq hmin.symm, ?_,
      fun hp => absurd hp (hpace hadaptive), fun _ => hmin⟩
    show w.min ≤ w.max
    rw [hmin]
    exact Nat.le_trans hle hge
  | silent hadaptive hsilent hlight => exact hgrow _ rfl rfl rfl rfl hlight hadaptive

theorem Bounded.size_le {min max : Nat} {pace : Pace} {w : Window} (hw : Bounded min max pace w)
    (h : min ≤ max) : w.size ≤ max := by
  refine Nat.le_trans hw.le_max ?_
  rw [hw.max_eq]
  split
  · exact h
  · exact Nat.le_refl _

/-- A cut's hold is never shortened. -/
theorem Observed.hold_le {w w' : Window} {o : Observation} (h : Observed w o w') :
    w.holdUntilNs ≤ w'.holdUntilNs := by
  have hgrow : ∀ w' : Window, (w'.grow o.nowNs).holdUntilNs = w'.holdUntilNs := by
    intro w'
    obtain ⟨size, heq, -⟩ := w'.grow_frame o.nowNs
    rw [heq]
  cases h with
  | cut hcut =>
    refine Int.le_trans hcut.2.2 ?_
    exact Int.le_add_of_nonneg_right (Int.mul_nonneg (Int.natCast_nonneg _) (by decide))
  | quick =>
    rw [hgrow]
    exact Int.le_refl _
  | silent =>
    rw [hgrow]
    exact Int.le_refl _
  | _ => exact Int.le_refl _

/-- What the counters of an adaptive window count. -/
structure Counted (history : List Observation) (w : Window) : Prop where
  settled : w.adaptive = true → w.settled = history.length
  answered : w.adaptive = true → w.answered = history.countP Observation.answered
  last : w.adaptive = true → w.answered ≠ 0 → ∃ before a since, history = before ++ a :: since ∧
    a.answered = true ∧ (∀ x ∈ since, x.answered = false) ∧ w.lastAnswerNs = a.nowNs

theorem Counted.answer {history : List Observation} {w w' : Window} {o : Observation}
    (h : Counted history w) (hadapt : w'.adaptive = w.adaptive) (hanswered : o.answered = true)
    (hcounts : w'.settled = w.settled + 1 ∧ w'.answered = w.answered + 1)
    (hlast : w'.lastAnswerNs = o.nowNs) : Counted (history ++ [o]) w' := by
  constructor
  · intro hadaptive
    rw [hcounts.1, h.settled (hadapt ▸ hadaptive)]
    simp
  · intro hadaptive
    rw [hcounts.2, h.answered (hadapt ▸ hadaptive)]
    simp [hanswered]
  · intro _ _
    exact ⟨history, o, [], rfl, hanswered, by simp, hlast⟩

theorem Counted.silence {history : List Observation} {w w' : Window} {o : Observation}
    (h : Counted history w) (hadapt : w'.adaptive = w.adaptive) (hsilent : o.answered = false)
    (hcounts : w'.settled = w.settled + 1 ∧ w'.answered = w.answered)
    (hlast : w'.lastAnswerNs = w.lastAnswerNs) : Counted (history ++ [o]) w' := by
  constructor
  · intro hadaptive
    rw [hcounts.1, h.settled (hadapt ▸ hadaptive)]
    simp
  · intro hadaptive
    rw [hcounts.2, h.answered (hadapt ▸ hadaptive)]
    simp [hsilent]
  · intro hadaptive hne
    obtain ⟨before, a, since, rfl, hanswered, hsince, ha⟩ :=
      h.last (hadapt ▸ hadaptive) (hcounts.2 ▸ hne)
    refine ⟨before, a, since ++ [o], by simp, hanswered, ?_, hlast.trans ha⟩
    intro x hx
    rcases List.mem_append.mp hx with hx | hx
    · exact hsince x hx
    · rw [List.mem_singleton.mp hx]
      exact hsilent

theorem Counted.step {history : List Observation} {w w' : Window} {o : Observation}
    (h : Counted history w) (hobs : Observed w o w') : Counted (history ++ [o]) w' := by
  have hgrow : ∀ w' : Window, ∃ size, w'.grow o.nowNs = { w' with size } := fun w' =>
    (w'.grow_frame o.nowNs).imp fun _ h => h.1
  cases hobs with
  | still hfixed =>
    constructor <;> intro hadaptive <;> rw [hfixed] at hadaptive <;> simp at hadaptive
  | cut hcut => exact h.answer rfl hcut.2.1.1 ⟨rfl, rfl⟩ rfl
  | slow _ hslow => exact h.answer rfl hslow.1 ⟨rfl, rfl⟩ rfl
  | quick _ hanswered =>
    obtain ⟨size, heq⟩ := hgrow (w.countAnswer o)
    rw [heq]
    exact h.answer rfl hanswered ⟨rfl, rfl⟩ rfl
  | dark _ hsilent => exact h.silence rfl hsilent ⟨rfl, rfl⟩ rfl
  | goesDark _ hsilent => exact h.silence rfl hsilent ⟨rfl, rfl⟩ rfl
  | silent _ hsilent =>
    obtain ⟨size, heq⟩ := hgrow w.countSilence
    rw [heq]
    exact h.silence rfl hsilent ⟨rfl, rfl⟩ rfl

/-- The host goes dark at this observation. -/
def GoesDark (w : Window) (o : Observation) : Prop :=
  w.dark = false ∧ (w.observe o.outcome o.rttUs o.nowNs).dark = true

/-- **How an observation moves the size.** -/
theorem Observed.size_cases {w w' : Window} {o : Observation} (h : Observed w o w') :
    (w.Cuts o ∧ w'.size = Nat.max w.min (w.size / 2)) ∨
      ((w.dark = false ∧ w'.dark = true) ∧ w'.size = w.min) ∨ w'.size = w.size ∨
        (w.holdUntilNs ≤ o.nowNs ∧ w'.size = Nat.min w.max (w.size + 1)) := by
  have hgrow : ∀ w' : Window, w'.size = w.size → w'.max = w.max →
      w'.holdUntilNs = w.holdUntilNs → (w'.grow o.nowNs).size = w.size ∨
        (w.holdUntilNs ≤ o.nowNs ∧ (w'.grow o.nowNs).size = Nat.min w.max (w.size + 1)) := by
    intro w' hsize hmax hhold
    rw [grow_size, hsize, hmax, hhold]
    split
    · exact Or.inl rfl
    · next hfree => exact Or.inr ⟨Int.not_lt.mp hfree, rfl⟩
  cases h with
  | cut hcut => exact Or.inl ⟨hcut, rfl⟩
  | goesDark _ _ hlight => exact Or.inr (Or.inl ⟨⟨hlight, rfl⟩, rfl⟩)
  | quick => exact Or.inr (Or.inr (hgrow _ rfl rfl rfl))
  | silent => exact Or.inr (Or.inr (hgrow _ rfl rfl rfl))
  | _ => exact Or.inr (Or.inr (Or.inl rfl))

/-- A cut is all that an observation does. -/
theorem Observed.of_cuts {w w' : Window} {o : Observation} (h : Observed w o w') (hcut : w.Cuts o) :
    w'.size = Nat.max w.min (w.size / 2) ∧ w'.holdUntilNs = holdAfter o := by
  obtain ⟨hadaptive, hslow, hfree⟩ := hcut
  cases h with
  | cut => exact ⟨rfl, rfl⟩
  | still h => simp [h] at hadaptive
  | slow _ _ hheld => exact absurd hfree (Int.not_le.mpr hheld)
  | quick _ _ hquick => exact absurd hslow hquick
  | dark _ hsilent => simp [hslow.1] at hsilent
  | goesDark _ hsilent => simp [hslow.1] at hsilent
  | silent _ hsilent => simp [hslow.1] at hsilent

/-- The size grows by one at most. -/
theorem Observed.size_le_succ {w w' : Window} {o : Observation} (h : Observed w o w')
    (hmin : w.min ≤ w.size) : w'.size ≤ w.size + 1 := by
  rcases h.size_cases with ⟨_, hsize⟩ | ⟨_, hsize⟩ | hsize | ⟨_, hsize⟩
  · rw [hsize]
    exact Nat.max_le.mpr ⟨by omega, by omega⟩
  · omega
  · omega
  · rw [hsize]
    exact Nat.min_le_right _ _

/-- It drops at a cut, or when the host goes dark. -/
theorem Observed.drops {w w' : Window} {o : Observation} (h : Observed w o w')
    (hmax : w.size ≤ w.max) (hlt : w'.size < w.size) :
    w.Cuts o ∨ w.dark = false ∧ w'.dark = true := by
  rcases h.size_cases with ⟨hcut, _⟩ | ⟨hdark, _⟩ | hsize | ⟨_, hsize⟩
  · exact Or.inl hcut
  · exact Or.inr hdark
  · omega
  · rw [hsize] at hlt
    exact absurd (Nat.le_min.mpr ⟨hmax, Nat.le_succ _⟩) (Nat.not_le.mpr hlt)

/-- While a cut holds the window, it is not cut again and does not grow. -/
theorem Observed.held {w w' : Window} {o : Observation} (h : Observed w o w')
    (hmin : w.min ≤ w.size) (hearly : o.nowNs < w.holdUntilNs) :
    ¬w.Cuts o ∧ w'.size ≤ w.size := by
  have hno : ¬w.Cuts o := fun hcut => absurd hcut.2.2 (Int.not_le.mpr hearly)
  refine ⟨hno, ?_⟩
  rcases h.size_cases with ⟨hcut, _⟩ | ⟨_, hsize⟩ | hsize | ⟨hfree, _⟩
  · exact absurd hcut hno
  · rw [hsize]
    exact hmin
  · exact Nat.le_of_eq hsize
  · exact absurd hfree (Int.not_le.mpr hearly)

/-- A dark host's window stays at its minimum until the host answers. -/
theorem Observed.stays_dark {w w' : Window} {o : Observation} (h : Observed w o w')
    (hdark : w.dark = true) (hsilent : o.answered = false) (hsize : w.size = w.min) :
    w'.size = w.min := by
  cases h with
  | still | dark => exact hsize
  | goesDark => rfl
  | cut hcut => simp [hcut.2.1.1] at hsilent
  | slow _ hslow => simp [hslow.1] at hsilent
  | quick _ hanswered => simp [hanswered] at hsilent
  | silent _ _ hlight => simp [hdark] at hlight

/-- Who goes dark was silent for long, after answering most. -/
theorem Observed.darkens {w w' : Window} {o : Observation} (h : Observed w o w')
    (hlight : w.dark = false) (hdark : w'.dark = true) :
    w.adaptive = true ∧ o.answered = false ∧ w.Darkens o := by
  have hgrow : ∀ w' : Window, (w'.grow o.nowNs).dark = w'.dark := by
    intro w'
    obtain ⟨size, heq, -⟩ := w'.grow_frame o.nowNs
    rw [heq]
  cases h with
  | goesDark hadaptive hsilent _ hdarkens => exact ⟨hadaptive, hsilent, hdarkens⟩
  | still => simp [hlight] at hdark
  | cut => simp [countAnswer] at hdark
  | slow => simp [countAnswer] at hdark
  | quick => simp [hgrow, countAnswer] at hdark
  | dark _ _ hdark' => simp [hlight] at hdark'
  | silent => simp [hgrow, countSilence, hlight] at hdark

/-! ## The window as described -/

/-- What is promised of a window, over every history. -/
structure Steers (min max : Nat) (pace : Pace) (w₀ : Window) : Prop where
  within : ∀ history, min ≤ (w₀.after history).size ∧ (w₀.after history).size ≤ max
  fixed : pace = .fixed → ∀ history, (w₀.after history).size = max
  pool : pace = .pool → ∀ history, (w₀.after history).size = min
  grows : ∀ history o, (w₀.after (history ++ [o])).size ≤ (w₀.after history).size + 1
  drops : ∀ history o, (w₀.after (history ++ [o])).size < (w₀.after history).size →
    (w₀.after history).Cuts o ∨ (w₀.after history).GoesDark o
  halves : ∀ history o, (w₀.after history).Cuts o →
    (w₀.after (history ++ [o])).size = Nat.max min ((w₀.after history).size / 2)
  held : ∀ before cut since o, (w₀.after before).Cuts cut → o.nowNs < holdAfter cut →
    ¬(w₀.after (before ++ cut :: since)).Cuts o ∧
      (w₀.after (before ++ cut :: since ++ [o])).size ≤ (w₀.after (before ++ cut :: since)).size
  dark : ∀ history, (w₀.after history).dark = true → (w₀.after history).size = min ∧
    ∀ o, o.answered = false → (w₀.after (history ++ [o])).size = min
  darkens : ∀ history o, (w₀.after history).GoesDark o → o.answered = false ∧
    (∃ before a since, history = before ++ a :: since ∧ a.answered = true ∧
      (∀ x ∈ since, x.answered = false) ∧ darkNs ≤ o.nowNs - a.nowNs) ∧
    (history ++ [o]).length ≤ 2 * (history ++ [o]).countP Observation.answered

theorem bounded_after {min max : Nat} (h : min ≤ max) (pace : Pace)
    (history : List Observation) : Bounded min max pace ((init min max pace).after history) :=
  after_invariant (I := fun _ w => Bounded min max pace w) (bounded_init h pace)
    (fun _ _ _ _ hw hobs => hw.step hobs) history

theorem counted_after (min max : Nat) (pace : Pace) (history : List Observation) :
    Counted history ((init min max pace).after history) :=
  after_invariant ⟨fun _ => rfl, fun _ => rfl, fun _ h => absurd rfl h⟩
    (fun _ _ _ _ hw hobs => hw.step hobs) history

/-- After a cut the hold lasts at least as long as the cut asked for. -/
theorem hold_after (w₀ : Window) (before since : List Observation) {cut : Observation}
    (hcut : (w₀.after before).Cuts cut) :
    holdAfter cut ≤ (w₀.after (before ++ cut :: since)).holdUntilNs := by
  induction since using List.reverseRecOn with
  | nil =>
    rw [after_concat]
    exact Int.le_of_eq ((observe_observed _ cut).of_cuts hcut).2.symm
  | append_singleton since o ih =>
    rw [← List.cons_append, ← List.append_assoc, after_concat]
    exact Int.le_trans ih (observe_observed _ o).hold_le

/--
**The window behaves as described for every history**: whatever the outcomes, the round trips
and the times, in order or not.
-/
theorem window_steers {min max : Nat} (h : min ≤ max) (pace : Pace) :
    Steers min max pace (init min max pace) := by
  have hbounded := bounded_after h pace
  have hobs : ∀ history o, Observed ((init min max pace).after history) o
      ((init min max pace).after (history ++ [o])) := by
    intro history o
    rw [after_concat]
    exact observe_observed _ o
  have hmin : ∀ history, ((init min max pace).after history).min ≤
      ((init min max pace).after history).size := by
    intro history
    rw [(hbounded history).min_eq]
    exact (hbounded history).min_le
  constructor
  · exact fun history => ⟨(hbounded history).min_le, (hbounded history).size_le h⟩
  · exact fun hfixed history => (hbounded history).fixed hfixed
  · intro hpool history
    have hmax := (hbounded history).le_max
    rw [(hbounded history).max_eq, if_pos hpool] at hmax
    exact Nat.le_antisymm hmax (hbounded history).min_le
  · exact fun history o => (hobs history o).size_le_succ (hmin history)
  · intro history o hlt
    have hdrops := (hobs history o).drops (hbounded history).le_max hlt
    rwa [after_concat] at hdrops
  · intro history o hcut
    rw [((hobs history o).of_cuts hcut).1, (hbounded history).min_eq]
  · intro before cut since o hcut hearly
    have hhold := Int.lt_of_lt_of_le hearly (hold_after _ before since hcut)
    exact (hobs (before ++ cut :: since) o).held (hmin _) hhold
  · intro history hdark
    have hsize := (hbounded history).dark hdark
    refine ⟨hsize, fun o hsilent => ?_⟩
    have hstays := (hobs history o).stays_dark hdark hsilent (by rw [hsize, (hbounded _).min_eq])
    rw [hstays, (hbounded history).min_eq]
  · rintro history o ⟨hlight, hdark⟩
    rw [← after_concat] at hdark
    obtain ⟨hadaptive, hsilent, hsome, hmost, hlong⟩ := (hobs history o).darkens hlight hdark
    have hcounted := counted_after min max pace history
    obtain ⟨before, a, since, hhistory, hanswered, hsince, hlast⟩ := hcounted.last hadaptive hsome
    rw [hlast] at hlong
    refine ⟨hsilent, ⟨before, a, since, hhistory, hanswered, hsince, hlong⟩, ?_⟩
    rw [hcounted.settled hadaptive, hcounted.answered hadaptive] at hmost
    rw [List.countP_append, List.countP_singleton, hsilent, List.length_append,
      List.length_singleton]
    simpa using hmost

/-- Quick answers, a slow one that cuts the window, and a host that goes dark. -/
theorem window_steers_cut_and_dark :
    let w := init 2 8 .adaptive
    let quick : List Observation := (List.range 4).map fun k : Nat =>
      { outcome := .refused
        rttUs := 1000
        nowNs := k * nsPerMs }
    let slow : Observation :=
      { outcome := .open
        rttUs := 90000
        nowNs := 10 * nsPerMs }
    let silent : Observation :=
      { outcome := .filtered
        rttUs := 500000
        nowNs := 600 * nsPerMs }
    Steers 2 8 .adaptive w ∧ (w.after quick).size = 6 ∧ (w.after (quick ++ [slow])).size = 3 ∧
      (w.after (quick ++ [slow])).GoesDark silent ∧
      (w.after (quick ++ [slow] ++ [silent])).size = 2 := by
  intro w quick slow silent
  have hsteers : Steers 2 8 .adaptive w := window_steers (by decide) .adaptive
  have hsize : (w.after quick).size = 6 := by decide +kernel
  have hcuts : (w.after quick).Cuts slow := by decide +kernel
  have hhalf := hsteers.halves quick slow hcuts
  rw [hsize] at hhalf
  have hdarkens : (w.after (quick ++ [slow])).GoesDark silent :=
    ⟨by decide +kernel, by decide +kernel⟩
  have hdark := (hsteers.dark (quick ++ [slow] ++ [silent]) (by decide +kernel)).1
  exact ⟨hsteers, hsize, hhalf, hdarkens, hdark⟩

end Window

end NetScanner.Connects
