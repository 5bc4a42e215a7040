import NetScanner.Ports.Rtt
import NetScanner.Infra.Checked

/-!
# The estimator and its samples

`src/core/rtt.zig` once more, in 64 bits. `Within` is the invariant of a run: the smoothed round
trip lies between any two bounds of the samples, and its variation below the upper one. Under it
no step overflows (`Machine.observe_eq`, `Machine.timeoutMs_eq`).
-/

namespace NetScanner.Ports

open Infra

/-! ## In 64 bits -/

namespace Machine

/-- `RttEstimator.observe`. -/
def observe (e : RttEstimator) (rttUs : Nat) : Checked RttEstimator :=
  match e.srttUs with
  | none => do
    let half ← Checked.div rttUs 2
    some { e with srttUs := some rttUs, rttvarUs := half }
  | some srtt => do
    let deviation ← (if srtt > rttUs then Checked.sub srtt rttUs else Checked.sub rttUs srtt)
    let three ← Checked.mul 64 3 e.rttvarUs
    let spread ← Checked.add 64 three deviation
    let rttvarUs ← Checked.div spread 4
    let seven ← Checked.mul 64 7 srtt
    let sum ← Checked.add 64 seven rttUs
    let smoothed ← Checked.div sum 8
    some { e with rttvarUs, srttUs := some smoothed }

/-- `std.math.divCeil`. -/
def divCeil (n d : Nat) : Checked Nat :=
  if n > 0 ∧ d > 0 then do
    let less ← Checked.sub n 1
    let whole ← Checked.div less d
    Checked.add 64 whole 1
  else Checked.div n d

/-- `RttEstimator.timeoutMs`. -/
def timeoutMs (e : RttEstimator) : Checked Nat :=
  match e.srttUs with
  | none => some e.ceilingMs
  | some srtt => do
    let four ← Checked.mul 64 4 e.rttvarUs
    let headroom ← Checked.mul 64 e.headroomMs usPerMs
    let total ← Checked.add 64 srtt (max four headroom)
    let waitMs ← divCeil total usPerMs
    Checked.cast 32 (max e.floorMs (min waitMs e.ceilingMs))

end Machine

namespace RttEstimator

/-- `RttEstimator.init`. -/
def init (floorMs headroomMs ceilingMs : Nat) : RttEstimator := { floorMs, headroomMs, ceilingMs }

/-- An estimator that has seen some samples more. -/
def observeAll (e : RttEstimator) (samples : List Nat) : RttEstimator := samples.foldl observe e

/-- Microseconds rounded up to whole milliseconds. -/
def wholeMs (us : Nat) : Nat := (us + usPerMs - 1) / usPerMs

/-! ## Between the samples -/

/-- The configuration of an estimator: three numbers of 32 bits, the floor not above the
ceiling. -/
structure Config (e : RttEstimator) : Prop where
  floor_le : e.floorMs ≤ e.ceilingMs
  headroom : e.headroomMs < 2 ^ 32
  ceiling : e.ceilingMs < 2 ^ 32

/-- Every sample was between `lo` and `hi`. -/
structure Within (lo hi : Nat) (e : RttEstimator) : Prop where
  srtt : ∀ srtt, e.srttUs = some srtt → lo ≤ srtt ∧ srtt ≤ hi
  rttvar : e.rttvarUs ≤ hi

variable {e : RttEstimator} {lo hi rttUs : Nat}

theorem Config.observe (h : e.Config) (rttUs : Nat) : (e.observe rttUs).Config := by
  unfold RttEstimator.observe
  split <;> exact ⟨h.floor_le, h.headroom, h.ceiling⟩

/-- **One more sample between the bounds.** -/
theorem Within.observe (h : e.Within lo hi) (hlo : lo ≤ rttUs) (hhi : rttUs ≤ hi) :
    (e.observe rttUs).Within lo hi := by
  have hvar := h.rttvar
  unfold RttEstimator.observe
  split
  · refine ⟨?_, ?_⟩
    · rintro srtt hsrtt
      obtain rfl := Option.some.inj hsrtt
      exact ⟨hlo, hhi⟩
    · exact Nat.le_trans (Nat.div_le_self rttUs 2) hhi
  · next srtt hsrtt =>
    obtain ⟨hbelow, habove⟩ := h.srtt srtt hsrtt
    refine ⟨?_, ?_⟩
    · rintro smoothed hsmoothed
      obtain rfl := Option.some.inj hsmoothed
      omega
    · simp only []
      split <;> omega

theorem within_init (floorMs headroomMs ceilingMs lo hi : Nat) :
    (init floorMs headroomMs ceilingMs).Within lo hi := ⟨by simp [init], Nat.zero_le _⟩

end RttEstimator

/-! ## No step overflows -/

namespace Machine

variable {e : RttEstimator} {lo hi rttUs : Nat}

theorem observe_eq (h : e.Within lo hi) (hfits : 8 * hi < 2 ^ 64) (hhi : rttUs ≤ hi) :
    observe e rttUs = some (e.observe rttUs) := by
  have hvar := h.rttvar
  unfold observe RttEstimator.observe
  cases hsrtt : e.srttUs with
  | none => rfl
  | some srtt =>
    obtain ⟨-, habove⟩ := h.srtt srtt hsrtt
    have hdeviation : (if srtt > rttUs then Checked.sub srtt rttUs else Checked.sub rttUs srtt) =
        some (if rttUs < srtt then srtt - rttUs else rttUs - srtt) := by
      split
      · next hlt => exact Checked.sub_eq (Nat.le_of_lt hlt)
      · next hge => exact Checked.sub_eq (Nat.not_lt.mp hge)
    have hspread : (if rttUs < srtt then srtt - rttUs else rttUs - srtt) ≤ hi := by
      split <;> omega
    simp only [hdeviation, Option.bind_eq_bind, Option.bind_some]
    rw [Checked.mul_eq (by omega), Option.bind_some, Checked.add_eq (by omega), Option.bind_some,
      Checked.div_eq (by decide), Option.bind_some, Checked.mul_eq (by omega), Option.bind_some,
      Checked.add_eq (by omega), Option.bind_some, Checked.div_eq (by decide), Option.bind_some]

theorem divCeil_eq {n : Nat} (h : n < 2 ^ 64) :
    divCeil n usPerMs = some (RttEstimator.wholeMs n) := by
  unfold divCeil RttEstimator.wholeMs usPerMs
  split
  · next hpos =>
    rw [Checked.sub_eq (by omega), Option.bind_eq_bind, Option.bind_some,
      Checked.div_eq (by decide), Option.bind_some, Checked.add_eq (by omega)]
    congr 1
    omega
  · rw [Checked.div_eq (by decide)]
    congr 1
    omega

theorem timeoutMs_eq (h : e.Within lo hi) (hconfig : e.Config) (hfits : 8 * hi < 2 ^ 64) :
    timeoutMs e = some e.timeoutMs := by
  have hvar := h.rttvar
  have hheadroom := hconfig.headroom
  have hceiling := hconfig.ceiling
  have hfloor := hconfig.floor_le
  unfold timeoutMs RttEstimator.timeoutMs
  cases hsrtt : e.srttUs with
  | none => rfl
  | some srtt =>
    obtain ⟨-, habove⟩ := h.srtt srtt hsrtt
    have hus : e.headroomMs * usPerMs < 2 ^ 42 := by
      unfold usPerMs
      omega
    simp only [Option.bind_eq_bind]
    rw [Checked.mul_eq (by omega), Option.bind_some, Checked.mul_eq (by omega), Option.bind_some,
      Checked.add_eq (by omega), Option.bind_some, divCeil_eq (by omega), Option.bind_some,
      Checked.cast_eq (by omega)]
    rfl

/-- **No sample overflows**, and every one keeps the estimator between the bounds. -/
theorem observeAll_eq (h : e.Within lo hi) (hconfig : e.Config) (hfits : 8 * hi < 2 ^ 64)
    (samples : List Nat) (hsamples : ∀ s ∈ samples, lo ≤ s ∧ s ≤ hi) :
    samples.foldlM observe e = some (e.observeAll samples) ∧
      (e.observeAll samples).Within lo hi ∧ (e.observeAll samples).Config := by
  refine Checked.foldlM_eq (fun e : RttEstimator => e.Within lo hi ∧ e.Config) ?_ ?_ samples
    ⟨h, hconfig⟩ hsamples
  · exact fun e s he hs => observe_eq he.1 hfits hs.2
  · exact fun e s he hs => ⟨he.1.observe hs.1 hs.2, he.2.observe s⟩

end Machine

/-! ## The wait -/

namespace RttEstimator

variable {e : RttEstimator}

/-- The configuration stays, and there is a smoothed round trip after the first sample. -/
theorem observeAll_config (e : RttEstimator) (samples : List Nat) :
    (e.observeAll samples).floorMs = e.floorMs ∧
      (e.observeAll samples).headroomMs = e.headroomMs ∧
      (e.observeAll samples).ceilingMs = e.ceilingMs ∧
      (samples ≠ [] → (e.observeAll samples).srttUs ≠ none) := by
  induction samples generalizing e with
  | nil => exact ⟨rfl, rfl, rfl, fun h => absurd rfl h⟩
  | cons s samples ih =>
    have hstep : (e.observe s).floorMs = e.floorMs ∧ (e.observe s).headroomMs = e.headroomMs ∧
        (e.observe s).ceilingMs = e.ceilingMs ∧ (e.observe s).srttUs ≠ none := by
      unfold RttEstimator.observe
      split <;> exact ⟨rfl, rfl, rfl, by simp⟩
    obtain ⟨hfloor, hheadroom, hceiling, hsome⟩ := ih (e.observe s)
    refine ⟨hfloor.trans hstep.1, hheadroom.trans hstep.2.1, hceiling.trans hstep.2.2.1, ?_⟩
    rintro -
    cases samples with
    | nil => exact hstep.2.2.2
    | cons s' samples => exact hsome (by simp)

/-- Below the ceiling the wait leaves room above the smoothed round trip. -/
theorem wholeMs_le_timeoutMs {srtt : Nat} (hsrtt : e.srttUs = some srtt)
    (hlt : e.timeoutMs < e.ceilingMs) :
    wholeMs (srtt + e.headroomMs * usPerMs) ≤ e.timeoutMs := by
  unfold RttEstimator.timeoutMs at hlt ⊢
  rw [hsrtt] at hlt ⊢
  simp only [] at hlt ⊢
  have hle : wholeMs (srtt + e.headroomMs * usPerMs) ≤
      (srtt + max (4 * e.rttvarUs) (e.headroomMs * usPerMs) + usPerMs - 1) / usPerMs :=
    Nat.div_le_div_right (by omega)
  omega

/-! ## A steady link -/

/-- The smoothed round trip is `r`, and its variation at most `v`. -/
def Steady (r v : Nat) (e : RttEstimator) : Prop := e.srttUs = some r ∧ e.rttvarUs ≤ v

/-- Truncation takes the variation down by one at least. -/
theorem Steady.observe {r v : Nat} (h : e.Steady r v) : (e.observe r).Steady r (v - 1) := by
  have hvar := h.2
  unfold RttEstimator.observe Steady
  rw [h.1]
  simp only [Nat.lt_irrefl, if_false, Option.some.injEq]
  omega

theorem steady_replicate {r v : Nat} (h : e.Steady r v) (n : Nat) :
    (e.observeAll (List.replicate n r)).Steady r (v - n) := by
  induction n generalizing e v with
  | zero => exact h
  | succ n ih =>
    have hnext := ih h.observe
    rwa [Nat.sub_sub, Nat.add_comm] at hnext

theorem steady_first {r : Nat} (h : e.srttUs = none) : (e.observe r).Steady r (r / 2) := by
  unfold RttEstimator.observe Steady
  rw [h]
  exact ⟨rfl, Nat.le_refl _⟩

theorem Steady.timeoutMs {r : Nat} (h : e.Steady r 0) :
    e.timeoutMs = max e.floorMs (min (wholeMs (r + e.headroomMs * usPerMs)) e.ceilingMs) := by
  unfold RttEstimator.timeoutMs
  rw [h.1, Nat.le_zero.mp h.2, Nat.mul_zero, Nat.zero_max]
  rfl

end RttEstimator

/-! ## The main result -/

theorem exists_extremes {samples : List Nat} (h : samples ≠ []) :
    ∃ lo ∈ samples, ∃ hi ∈ samples, ∀ s ∈ samples, lo ≤ s ∧ s ≤ hi := by
  obtain ⟨lo, hlo⟩ := Option.isSome_iff_exists.mp (List.isSome_min?_of_ne_nil h)
  obtain ⟨hi, hhi⟩ := Option.isSome_iff_exists.mp (List.isSome_max?_of_ne_nil h)
  rw [List.min?_eq_some_iff] at hlo
  rw [List.max?_eq_some_iff] at hhi
  exact ⟨lo, hlo.1, hi, hhi.1, fun s hs => ⟨hlo.2 s hs, hhi.2 s hs⟩⟩

open RttEstimator in
/-- **The estimator stays within its samples and the wait within its clamps.** -/
theorem estimator_bounds (floorMs headroomMs ceilingMs most : Nat) (hfloor : floorMs ≤ ceilingMs)
    (hheadroom : headroomMs < 2 ^ 32) (hceiling : ceilingMs < 2 ^ 32) (hmost : 8 * most < 2 ^ 64) :
    (∀ samples : List Nat, (∀ s ∈ samples, s ≤ most) →
      ∃ e wait, samples.foldlM Machine.observe (init floorMs headroomMs ceilingMs) = some e ∧
        Machine.timeoutMs e = some wait ∧ floorMs ≤ wait ∧ wait ≤ ceilingMs ∧
        (samples = [] → wait = ceilingMs) ∧
        (samples ≠ [] → ∃ srtt, e.srttUs = some srtt ∧
          (∃ lo ∈ samples, ∃ hi ∈ samples, (∀ s ∈ samples, lo ≤ s ∧ s ≤ hi) ∧
            lo ≤ srtt ∧ srtt ≤ hi ∧ e.rttvarUs ≤ hi) ∧
          (wait < ceilingMs → wholeMs (srtt + headroomMs * usPerMs) ≤ wait))) ∧
      ∀ r ≤ most, ∃ n₀, ∀ n, ∃ e,
        (List.replicate n r).foldlM Machine.observe (init floorMs headroomMs ceilingMs) = some e ∧
        (0 < n → e.srttUs = some r) ∧
        (n₀ ≤ n → Machine.timeoutMs e = some
          (max floorMs (min (wholeMs (r + headroomMs * usPerMs)) ceilingMs))) := by
  have hconfig : (init floorMs headroomMs ceilingMs).Config := ⟨hfloor, hheadroom, hceiling⟩
  constructor
  · intro samples hsamples
    obtain ⟨hrun, hwithin, hconfig'⟩ := Machine.observeAll_eq
      (within_init _ _ _ 0 most) hconfig hmost samples fun s hs => ⟨Nat.zero_le s, hsamples s hs⟩
    obtain ⟨hf, hh, hc, hsome⟩ := (init floorMs headroomMs ceilingMs).observeAll_config samples
    have hmem := timeoutMs_mem hconfig'.floor_le
    rw [hf, hc] at hmem
    refine ⟨_, _, hrun, Machine.timeoutMs_eq hwithin hconfig' hmost, hmem.1, hmem.2, ?_, ?_⟩
    · rintro rfl
      rfl
    · intro hne
      obtain ⟨srtt, hsrtt⟩ := Option.ne_none_iff_exists'.mp (hsome hne)
      obtain ⟨lo, hlo, hi, hhi, hbounds⟩ := exists_extremes hne
      have hbetween := (Machine.observeAll_eq (within_init floorMs headroomMs ceilingMs lo hi)
        hconfig (by have := hsamples hi hhi; omega) samples hbounds).2.1
      refine ⟨srtt, hsrtt, ⟨lo, hlo, hi, hhi, hbounds, (hbetween.srtt srtt hsrtt).1,
        (hbetween.srtt srtt hsrtt).2, hbetween.rttvar⟩, fun hlt => ?_⟩
      have hle := wholeMs_le_timeoutMs hsrtt (hc.symm ▸ hlt)
      rwa [hh] at hle
  · intro r hr
    refine ⟨r / 2 + 1, fun n => ?_⟩
    obtain ⟨hrun, hwithin, hconfig'⟩ := Machine.observeAll_eq
      (within_init _ _ _ 0 most) hconfig hmost (List.replicate n r) fun s hs =>
        ⟨Nat.zero_le s, by rw [List.eq_of_mem_replicate hs]; exact hr⟩
    have hsteady : ∀ k, ((init floorMs headroomMs ceilingMs).observeAll
        (List.replicate (k + 1) r)).Steady r (r / 2 - k) :=
      fun k => steady_replicate (steady_first rfl) k
    refine ⟨_, hrun, fun hpos => ?_, fun hn => ?_⟩
    · obtain ⟨k, rfl⟩ := Nat.exists_eq_succ_of_ne_zero (Nat.pos_iff_ne_zero.mp hpos)
      exact (hsteady k).1
    · obtain ⟨k, rfl⟩ := Nat.exists_eq_succ_of_ne_zero (show n ≠ 0 by omega)
      obtain ⟨hf, hh, hc, -⟩ :=
        (init floorMs headroomMs ceilingMs).observeAll_config (List.replicate (k + 1) r)
      have hzero := hsteady k
      rw [show r / 2 - k = 0 by omega] at hzero
      rw [Machine.timeoutMs_eq hwithin hconfig' hmost, hzero.timeoutMs, hf, hh, hc]
      rfl

/-- The estimator of a port scan: four answers, one of them late, and then a host that always
answers after 1.5 ms. -/
theorem estimator_bounds_ports :
    let samples := [62000, 81500, 240000, 70250]
    (∃ e srtt, samples.foldlM Machine.observe (RttEstimator.init 100 40 500) = some e ∧
      Machine.timeoutMs e = some 296 ∧ e.srttUs = some srtt ∧
      (∃ lo ∈ samples, ∃ hi ∈ samples, lo ≤ srtt ∧ srtt ≤ hi ∧ e.rttvarUs ≤ hi) ∧
      RttEstimator.wholeMs (srtt + 40 * usPerMs) ≤ 296) ∧
    ∃ n₀, ∀ n, n₀ ≤ n → ∃ e, (List.replicate n 1500).foldlM Machine.observe
      (RttEstimator.init 100 40 500) = some e ∧ Machine.timeoutMs e = some 100 := by
  intro samples
  obtain ⟨hall, hsteady⟩ :=
    estimator_bounds 100 40 500 1000000 (by decide) (by decide) (by decide) (by decide)
  constructor
  · obtain ⟨e, wait, hrun, hwait, -, -, -, hsome⟩ := hall samples (by decide)
    have hends : (samples.foldlM Machine.observe (RttEstimator.init 100 40 500)).bind
        Machine.timeoutMs = some 296 := by decide +kernel
    rw [hrun, Option.bind_some, hwait] at hends
    obtain rfl := Option.some.inj hends
    obtain ⟨srtt, hsrtt, ⟨lo, hlo, hi, hhi, -, hbelow, habove, hvar⟩, hlong⟩ :=
      hsome (List.cons_ne_nil _ _)
    exact ⟨e, srtt, hrun, hwait, hsrtt, ⟨lo, hlo, hi, hhi, hbelow, habove, hvar⟩,
      hlong (by decide)⟩
  · obtain ⟨n₀, h⟩ := hsteady 1500 (by decide)
    refine ⟨n₀, fun n hn => ?_⟩
    obtain ⟨e, hrun, -, hwait⟩ := h n
    exact ⟨e, hrun, hwait hn⟩

end NetScanner.Ports
