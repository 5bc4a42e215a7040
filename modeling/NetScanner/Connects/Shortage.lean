import NetScanner.Connects.Once
import Mathlib.Data.List.DropRight
import Mathlib.Tactic.Ring

/-!
# When a run gives up for want of sockets

A loop that cannot start a connect holds it and tries again, and gives the run up once that has
gone on for `stallLimitNs` (`Held`). Three flags and a few times say where it stands.

They only depend on the starts that failed since the last one that succeeded (`Clock`): the first
of those is a suspect if it failed for want of an address, and the others are counted, the first
of them as the beginning of the shortage. So a start that succeeds sets everything back, and
`OutOfSockets` means that some loop started nothing for the whole of `stallLimitNs`.
-/

namespace NetScanner.Connects

open Infra

variable {Job σ : Type*}

/-- The start attempts of a loop: when each was made, and what it gave. -/
abbrev StartLog := List (Int × Started)

/-- Whether a connect could not start. -/
def Started.failed : Started → Bool
  | .unprobed _ => true
  | _ => false

namespace StartLog

/-- The failed starts since the last that succeeded. -/
def failures (log : StartLog) : StartLog := log.rtakeWhile (·.2.failed)

/-- Those that count as a shortage: a first one that only failed for want of an address is a
suspect. -/
def counted : StartLog → StartLog
  | (_, .unprobed .address) :: rest => rest
  | fails => fails

/-- Starts that all failed, over `stallLimitNs` at least. -/
def Stalled (log : StartLog) : Prop :=
  ∃ before first between last, log = before ++ first :: (between ++ [last]) ∧
    (∀ x ∈ first :: (between ++ [last]), x.2.failed = true) ∧ stallLimitNs ≤ last.1 - first.1

theorem failures_failed {log : StartLog} {t : Int} {shortage : Shortage} :
    failures (log ++ [(t, .unprobed shortage)]) = failures log ++ [(t, .unprobed shortage)] :=
  List.rtakeWhile_concat_pos _ _ _ rfl

theorem failures_started {log : StartLog} {t : Int} {attempt : Started}
    (h : attempt.failed = false) : failures (log ++ [(t, attempt)]) = [] :=
  List.rtakeWhile_concat_neg _ _ _ (by simp [h])

theorem counted_append {fails : StartLog} (h : fails ≠ []) (more : StartLog) :
    counted (fails ++ more) = counted fails ++ more := by
  cases fails with
  | nil => exact absurd rfl h
  | cons x rest =>
    rw [List.cons_append]
    unfold counted
    split <;> simp_all

/-- Only a lone failure for want of an address does not count. -/
theorem counted_eq_nil {fails : StartLog} (h : counted fails = []) :
    fails = [] ∨ ∃ t, fails = [(t, .unprobed .address)] := by
  unfold counted at h
  split at h
  · next t rest =>
    right
    rw [h]
    exact ⟨t, rfl⟩
  · exact Or.inl h

theorem counted_sublist (fails : StartLog) : ∃ before, fails = before ++ counted fails := by
  unfold counted
  split
  · exact ⟨[_], rfl⟩
  · exact ⟨[], rfl⟩

end StartLog

/-! ## What the flags say -/

/-- The pause after so many failures that count. -/
def pauseAfter (failures : Nat) : Int := min (2 ^ failures * firstPauseNs) maxPauseNs

theorem pauseAfter_zero : pauseAfter 0 = firstPauseNs := by decide

theorem pauseAfter_succ (n : Nat) : min (2 * pauseAfter n) maxPauseNs = pauseAfter (n + 1) := by
  have hpos : 0 < maxPauseNs := by decide
  have hpow : (2 : Int) ^ (n + 1) * firstPauseNs = 2 * (2 ^ n * firstPauseNs) := by
    rw [pow_succ]
    ring
  unfold pauseAfter
  rw [hpow]
  omega

namespace Held

/-- **The flags and times of a loop's held connects, from its failed starts.** -/
structure Clock (fails : StartLog) (h : Held Job) : Prop where
  started : fails = [] → h.short = false ∧ h.suspect = false
  suspect : ∀ t, fails = [(t, .unprobed .address)] → h.short = false ∧ h.suspect = true
  short : ∀ first rest, StartLog.counted fails = first :: rest →
    (h.short = true ∧ h.suspect = false) ∧ h.since = first.1 ∧
      h.retryAt = (rest.getLastD first).1 + pauseAfter rest.length ∧
      h.pause = pauseAfter (rest.length + 1)

/-- Between two start attempts. -/
structure Between (h : Held Job) : Prop where
  len_le : h.jobs.length ≤ 2
  suspect : h.suspect = true → h.jobs.length = 1 ∧ h.short = false
  short : h.short = true → 1 ≤ h.jobs.length
  full : h.jobs.length = 2 → h.short = true

/-- While a connect is being started. -/
structure Trying (h : Held Job) : Prop where
  len_le : h.jobs.length ≤ 1
  suspect : h.suspect = true → h.jobs.length = 1
  fresh : h.short = false → h.suspect = false → h.jobs = []

/-- A connect that is tried again leaves the held ones. -/
theorem Between.pop {h h' : Held Job} {now : Int} {job : Job} (hb : h.Between)
    (hdue : h.due now = true) (hp : h.pop = some (job, h')) :
    h'.Trying ∧ h'.suspect = h.suspect ∧ h'.short = h.short ∧ h'.since = h.since ∧
      h'.retryAt = h.retryAt ∧ h'.pause = h.pause := by
  have hjobs := jobs_of_pop hp
  have hsuspect : h.suspect = false := by
    unfold due at hdue
    simp only [Bool.and_eq_true, Bool.not_eq_true'] at hdue
    exact hdue.1.2
  have hh' : h' = { h with jobs := h'.jobs } := by
    unfold Held.pop at hp
    rw [hjobs] at hp
    exact (Prod.mk.inj (Option.some.inj hp)).2.symm
  have hlen := hb.len_le
  rw [hjobs, List.length_cons] at hlen
  rw [hh']
  refine ⟨⟨by simpa using hlen, fun hs => ?_, fun hshort _ => ?_⟩, rfl, rfl, rfl, rfl, rfl⟩
  · rw [show h.suspect = true from hs] at hsuspect
    simp at hsuspect
  · have hfull := mt hb.full (by rw [show h.short = false from hshort]; simp)
    rw [hjobs, List.length_cons] at hfull
    exact List.length_eq_zero_iff.mp (by show h'.jobs.length = 0; omega)

/-- A new connect is only asked for when nothing is held, or to test a suspect. -/
theorem Between.trying {h : Held Job} (hb : h.Between) (hopen : h.open = true) : h.Trying := by
  unfold Held.open at hopen
  rw [Bool.or_eq_true, decide_eq_true_eq] at hopen
  rcases hopen with hnone | hsuspect
  · refine ⟨by omega, fun hs => ?_, fun _ _ => List.length_eq_zero_iff.mp hnone⟩
    have := (hb.suspect hs).1
    omega
  · refine ⟨(hb.suspect hsuspect).1.le, fun hs => (hb.suspect hs).1, fun _ hs => ?_⟩
    rw [hsuspect] at hs
    simp at hs

/-- The connects held once one more could not start. -/
theorem Trying.hold {h : Held Job} (ht : h.Trying) (job : Job) (shortage : Shortage)
    (now : Int) : (h.hold job shortage now).2.Between := by
  have hlen := ht.len_le
  have hsuspect := ht.suspect
  have hfresh := ht.fresh
  have hjobs := jobs_hold h job shortage now
  have hlength : (h.hold job shortage now).2.jobs.length = h.jobs.length + 1 := by
    rw [hjobs, List.length_append, List.length_singleton]
  unfold Held.hold at hlength ⊢
  simp only [List.length_append, List.length_singleton] at hlength ⊢
  split
  · next hlone =>
    refine ⟨?_, fun _ => ⟨?_, hlone.2.1⟩, fun hs => ?_, fun h2 => ?_⟩
    · simpa using hlen
    · simpa using hlone.2.2
    · simp
    · simp only [List.length_append, List.length_singleton] at h2
      omega
  · split <;>
      exact ⟨by simpa using hlen, by simp, by simp, by simp [*]⟩

/-- A shortage begins with the first failure that counts. -/
theorem Clock.begins {h : Held Job} {fails : StartLog} {now : Int} {shortage : Shortage}
    (hflags : h.short = true ∧ h.suspect = false) (hsince : h.since = now)
    (hretry : h.retryAt = now + firstPauseNs) (hpause : h.pause = min (2 * firstPauseNs) maxPauseNs)
    (hcounted : StartLog.counted fails = [(now, .unprobed shortage)]) (hne : fails ≠ [])
    (haddress : ∀ t, fails ≠ [(t, .unprobed .address)]) : h.Clock fails := by
  have hone : min (2 * firstPauseNs) maxPauseNs = pauseAfter 1 := by decide
  refine ⟨fun hnil => absurd hnil hne, fun t heq => absurd heq (haddress t), ?_⟩
  intro first rest heq
  rw [hcounted, List.cons.injEq] at heq
  obtain ⟨rfl, rfl⟩ := heq
  exact ⟨hflags, hsince, by simpa [pauseAfter_zero] using hretry, hpause.trans hone⟩

/-- One more failure of a shortage. -/
theorem Clock.goesOn {fails : StartLog} {h : Held Job} (hc : h.Clock fails)
    {first : Int × Started} {rest : StartLog} (hcounted : StartLog.counted fails = first :: rest)
    (job : Job) (shortage : Shortage) (now : Int) :
    (h.hold job shortage now).2.Clock (fails ++ [(now, .unprobed shortage)]) ∧
      ((h.hold job shortage now).1 = false → stallLimitNs ≤ now - first.1) := by
  obtain ⟨⟨hshort, hsuspect⟩, hsince, hretry, hp⟩ := hc.short first rest hcounted
  have hne : fails ≠ [] := by
    rintro rfl
    simp [StartLog.counted] at hcounted
  have hhold : h.hold job shortage now = (decide (now - h.since < stallLimitNs), { h with
      jobs := h.jobs ++ [job], suspect := false, retryAt := now + h.pause
      pause := min (2 * h.pause) maxPauseNs }) := by
    simp [Held.hold, hshort]
  rw [hhold]
  refine ⟨⟨by simp, fun t heq => ?_, ?_⟩, ?_⟩
  · have hlen := congrArg List.length heq
    rw [List.length_append, List.length_singleton, List.length_singleton] at hlen
    exact absurd (List.length_eq_zero_iff.mp (Nat.succ.inj hlen)) hne
  · intro first' rest' heq
    rw [StartLog.counted_append hne, hcounted, List.cons_append, List.cons.injEq] at heq
    obtain ⟨rfl, rfl⟩ := heq
    refine ⟨⟨hshort, rfl⟩, hsince, ?_, ?_⟩
    · simp [hp]
    · show min (2 * h.pause) maxPauseNs = _
      rw [hp, pauseAfter_succ]
      simp
  · intro hgive
    rw [decide_eq_false_iff_not, Int.not_lt, hsince] at hgive
    exact hgive

/-- **One more failure moves the clock on**, and `hold` gives up only when the first failure that
counts is `stallLimitNs` ago. -/
theorem Clock.hold {fails : StartLog} {h : Held Job} (hc : h.Clock fails) (ht : h.Trying)
    (job : Job) (shortage : Shortage) (now : Int) :
    (h.hold job shortage now).2.Clock (fails ++ [(now, .unprobed shortage)]) ∧
      ((h.hold job shortage now).1 = false → ∃ first rest, StartLog.counted fails = first :: rest ∧
        stallLimitNs ≤ now - first.1) := by
  cases hcounted : StartLog.counted fails with
  | nil =>
    rcases StartLog.counted_eq_nil hcounted with rfl | ⟨t, rfl⟩
    · -- nothing was held
      obtain ⟨hshort, hsuspect⟩ := hc.started rfl
      have hjobs := ht.fresh hshort hsuspect
      cases shortage with
      | address =>
        have hhold : h.hold job .address now =
            (true, { h with jobs := [job], suspect := true }) := by
          simp [Held.hold, hshort, hjobs]
        rw [hhold]
        refine ⟨⟨by simp, fun t _ => ⟨hshort, rfl⟩, ?_⟩, by simp⟩
        intro first rest heq
        simp [StartLog.counted] at heq
      | socket =>
        have hhold : h.hold job .socket now = (true, { h with
            jobs := [job], suspect := false, short := true, since := now
            retryAt := now + firstPauseNs, pause := min (2 * firstPauseNs) maxPauseNs }) := by
          simp [Held.hold, hshort, hjobs, stallLimitNs]
        rw [hhold]
        exact ⟨Clock.begins ⟨rfl, rfl⟩ rfl rfl rfl rfl (by simp) (by simp), by simp⟩
    · -- a suspect was: the shortage is real
      obtain ⟨hshort, hsuspect⟩ := hc.suspect t rfl
      have hjobs := ht.suspect hsuspect
      have hhold : h.hold job shortage now = (true, { h with
          jobs := h.jobs ++ [job], suspect := false, short := true, since := now
          retryAt := now + firstPauseNs, pause := min (2 * firstPauseNs) maxPauseNs }) := by
        simp [Held.hold, hshort, hjobs, stallLimitNs]
      rw [hhold]
      exact ⟨Clock.begins ⟨rfl, rfl⟩ rfl rfl rfl rfl (by simp) (by simp), by simp⟩
  | cons first rest =>
    obtain ⟨hclock, hgive⟩ := hc.goesOn hcounted job shortage now
    exact ⟨hclock, fun h => ⟨first, rest, rfl, hgive h⟩⟩

/-- So a loop gives up only after it started nothing for that long. -/
theorem Clock.stalled {log : StartLog} {h : Held Job} (hc : h.Clock log.failures) (ht : h.Trying)
    (job : Job) (shortage : Shortage) (now : Int) (hgive : (h.hold job shortage now).1 = false) :
    StartLog.Stalled (log ++ [(now, .unprobed shortage)]) := by
  obtain ⟨first, rest, hcounted, hlong⟩ := (hc.hold ht job shortage now).2 hgive
  obtain ⟨before, hbefore⟩ := StartLog.counted_sublist log.failures
  obtain ⟨early, hearly⟩ := List.rtakeWhile_suffix (·.2.failed) log
  refine ⟨early ++ before, first, rest, (now, .unprobed shortage), ?_, ?_, hlong⟩
  · rw [← List.cons_append, ← hcounted, ← List.append_assoc, List.append_assoc early, ← hbefore]
    exact congrArg (· ++ _) hearly.symm
  · intro x hx
    rw [← List.cons_append, ← hcounted, List.mem_append, List.mem_singleton] at hx
    rcases hx with hx | rfl
    · refine List.mem_rtakeWhile_imp (l := log) (p := (·.2.failed)) ?_
      show x ∈ log.failures
      rw [hbefore]
      exact List.mem_append_right _ hx
    · rfl

/-- A start that succeeds sets everything back. -/
theorem Trying.started {h : Held Job} (ht : h.Trying) :
    h.started.2.Between ∧ h.started.2.Clock [] := by
  have hlen := ht.len_le
  unfold Held.started Held.dropSuspect
  cases hsuspect : h.suspect with
  | false =>
    simp only [Bool.false_eq_true, if_false]
    refine ⟨⟨by show h.jobs.length ≤ 2; omega, by simp, by simp, fun h2 => ?_⟩,
      ⟨fun _ => ⟨rfl, rfl⟩, by simp, by simp [StartLog.counted]⟩⟩
    simp only at h2
    omega
  | true =>
    have hone := ht.suspect hsuspect
    obtain ⟨job, hjobs⟩ := List.length_eq_one_iff.mp hone
    simp only [if_true, Held.pop, hjobs]
    exact ⟨⟨by simp, by simp, by simp, by simp⟩,
      ⟨fun _ => ⟨rfl, rfl⟩, by simp, by simp [StartLog.counted]⟩⟩

/-- Nothing is held, and nothing short. -/
structure Released (h : Held Job) : Prop where
  jobs : h.jobs = []
  suspect : h.suspect = false
  short : h.short = false

theorem Released.between {h : Held Job} (hr : h.Released) : h.Between := by
  refine ⟨by simp [hr.jobs], fun hs => ?_, fun hs => ?_, by simp [hr.jobs]⟩
  · simp [hr.suspect] at hs
  · simp [hr.short] at hs

theorem Between.dropSuspect {h : Held Job} (hb : h.Between) (hopen : h.open = true) :
    h.dropSuspect.2.Released := by
  unfold Held.dropSuspect
  cases hsuspect : h.suspect with
  | false =>
    have hjobs : h.jobs = [] := by simpa [Held.open, hsuspect] using hopen
    refine ⟨hjobs, hsuspect, Bool.eq_false_iff.mpr fun hshort => ?_⟩
    have := hb.short hshort
    simp [hjobs] at this
  | true =>
    obtain ⟨hone, hshort⟩ := hb.suspect hsuspect
    obtain ⟨job, hjobs⟩ := List.length_eq_one_iff.mp hone
    simp only [if_true, Held.pop, hjobs]
    exact ⟨rfl, rfl, hshort⟩

end Held

/-! ## A loop and its starts -/

namespace LoopState

variable {S : Source Job σ} {target : Job → Target}

/-- What a watcher of the loop notes. -/
def noteStart (l : LoopState Job) (env : LoopEnv) (log : StartLog) : StartLog :=
  match l.pc with
  | .start _ started => log ++ [(started, env.attempt)]
  | _ => log

/-- What a loop holds, at each place: what its starts so far say, until it has nothing left to
start. -/
def Holds (log : StartLog) (l : LoopState Job) : Prop :=
  match l.pc with
  | .take _ => l.held.Between ∧ l.held.open = true ∧ l.held.Clock log.failures
  | .noTarget _ => l.held.Between ∧ l.held.open = true ∧ l.dry = true
  | .start _ _ => l.held.Trying ∧ l.held.Clock log.failures
  | .starving => l.held.Between ∧ l.held.Clock log.failures ∧ log.Stalled
  | .wentOut _ _ _ => l.held.Trying ∧ log.failures = []
  | .record _ _ _ => l.held.Between ∧ log.failures = [] ∧ l.held.Clock log.failures
  | _ => l.held.Between ∧ (l.held.Clock log.failures ∨ l.dry = true ∧ l.held.Released)

theorem Holds.topUp {log : StartLog} {l : LoopState Job} (now : Int) (hb : l.held.Between)
    (hc : l.held.Clock log.failures ∨ l.dry = true ∧ l.held.Released) :
    (l.topUp now).Holds log := by
  unfold LoopState.topUp
  split
  · split
    · exact ⟨hb, hc⟩
    · split
      · next hdue =>
        split
        · next job held hpop =>
          obtain ⟨htrying, hsuspect, hshort, hsince, hretry, hpause⟩ := hb.pop hdue hpop
          refine ⟨htrying, ?_⟩
          have hclock := hc.resolve_right fun hr => by
            have := Held.jobs_of_pop hpop
            rw [hr.2.jobs] at this
            simp at this
          refine ⟨fun hnil => ?_, fun t heq => ?_, fun first rest heq => ?_⟩
          · rw [show held.short = l.held.short from hshort, hsuspect]
            exact hclock.started hnil
          · rw [show held.short = l.held.short from hshort, hsuspect]
            exact hclock.suspect t heq
          · rw [show held.short = l.held.short from hshort, hsuspect, hsince, hretry, hpause]
            exact hclock.short first rest heq
        · exact ⟨hb, hc⟩
      · split
        · exact ⟨hb, hc⟩
        · next hopen =>
          have hopen' : l.held.open = true := by simpa using hopen
          split
          · next hdry =>
            refine ⟨hb, hopen', hc.resolve_right fun hr => ?_⟩
            simp [hr.1] at hdry
          · next hdry => exact ⟨hb, hopen', by simpa using hdry⟩
  · exact ⟨hb, hc⟩

/-- A start that failed is held, and one that succeeded clears what was short. -/
theorem Holds.attempted {log : StartLog} {l : LoopState Job} (job : Job) (started : Int)
    (attempt : Started) (ht : l.held.Trying) (hc : l.held.Clock log.failures) :
    (l.attempted job started attempt).Holds (log ++ [(started, attempt)]) := by
  cases attempt with
  | unprobed shortage =>
    have hbetween := ht.hold job shortage started
    have hclock := (hc.hold ht job shortage started).1
    have hgive := hc.stalled ht job shortage started
    rw [← StartLog.failures_failed] at hclock
    obtain ⟨goOn, held, hheld⟩ : ∃ goOn held, l.held.hold job shortage started = (goOn, held) :=
      ⟨_, _, rfl⟩
    unfold LoopState.attempted
    rw [hheld] at hbetween hclock hgive
    simp only [hheld]
    cases goOn with
    | true => exact ⟨hbetween, Or.inl hclock⟩
    | false => exact ⟨hbetween, hclock, hgive rfl⟩
  | done verdict => exact ⟨ht, StartLog.failures_started rfl⟩
  | pending sock => exact ⟨ht, StartLog.failures_started rfl⟩

/-- **Every step of a loop keeps what it holds in line with its starts.** -/
theorem step_holds {loops : Nat} {env : LoopEnv} {sh sh' : Shared Job σ} {l l' : LoopState Job}
    {log : StartLog} (h : l.Holds log) (hs : l.step S target loops env sh = some (sh', l')) :
    l'.Holds (l.noteStart env log) := by
  unfold Holds at h
  unfold noteStart
  cases LoopState.step_moves hs with
  | begin hpc =>
    rw [hpc] at h ⊢
    cases env.allocated <;> exact h
  | head hpc =>
    rw [hpc] at h ⊢
    cases hstarved : sh.starved with
    | true =>
      have hr : ({} : Held Job).Released := ⟨rfl, rfl, rfl⟩
      exact ⟨hr.between, Or.inr ⟨rfl, hr⟩⟩
    | false => exact h
  | topUp hpc =>
    rw [hpc] at h ⊢
    exact Holds.topUp env.now h.1 h.2
  | takeJob hpc =>
    rw [hpc] at h ⊢
    obtain ⟨hb, hopen, hc⟩ := h
    exact ⟨hb.trying hopen, hc⟩
  | takeFull hpc =>
    rw [hpc] at h ⊢
    exact ⟨h.1, Or.inl h.2.2⟩
  | takeDry hpc =>
    rw [hpc] at h ⊢
    exact ⟨h.1, h.2.1, rfl⟩
  | dropSuspect hpc hdrop | noSuspect hpc hdrop =>
    rw [hpc] at h ⊢
    obtain ⟨hb, hopen, hdry⟩ := h
    have hr := hb.dropSuspect hopen
    rw [hdrop] at hr
    exact ⟨hr.between, Or.inr ⟨hdry, hr⟩⟩
  | @start job started hpc =>
    rw [hpc] at h ⊢
    exact Holds.attempted job started env.attempt h.1 h.2
  | starving hpc =>
    rw [hpc]
    have hr : ({} : Held Job).Released := ⟨rfl, rfl, rfl⟩
    exact ⟨hr.between, Or.inr ⟨rfl, hr⟩⟩
  | clearSuspect hpc hclear | clear hpc hclear =>
    rw [hpc] at h ⊢
    obtain ⟨ht, hfailures⟩ := h
    have hheld := ht.started
    rw [hclear] at hheld
    refine ⟨hheld.1, hfailures, ?_⟩
    simp only [hfailures]
    exact hheld.2
  | @record job started attempt hpc =>
    rw [hpc] at h ⊢
    unfold recordStart
    cases attempt with
    | unprobed shortage =>
      unfold Holds
      rw [hpc]
      exact h
    | _ => exact ⟨h.1, Or.inl h.2.2⟩
  | idle hpc =>
    rw [hpc] at h ⊢
    show l.idle.Holds log
    unfold idle
    split
    · split
      · exact h
      · split <;> exact h
    · exact h
  | _ hpc =>
    rw [hpc] at h ⊢
    exact h

end LoopState

/-! ## Who says that a run starved -/

section Starved

variable {S : Source Job σ} {target : Job → Target}

theorem Shared.starved_doneOne (sh : Shared Job σ) (s : Settled Job) (now : Int) (stored : Bool) :
    (sh.doneOne S target s now stored).starved = sh.starved := by
  unfold Shared.doneOne
  split
  · rfl
  · simp only [Shared.sourceDone]
    split <;> rfl

theorem Shared.starved_doneEach (now : Int) (stored : Nat → Bool) :
    ∀ (settled : List (Settled Job)) (k : Nat) (sh : Shared Job σ),
      (Shared.doneEach S target now stored k sh settled).starved = sh.starved := by
  intro settled
  induction settled with
  | nil => intro k sh; rfl
  | cons s rest ih =>
    intro k sh
    exact (ih (k + 1) _).trans (sh.starved_doneOne s now (stored k))

theorem Shared.starved_done (sh : Shared Job σ) (settled : List (Settled Job)) (now : Int)
    (stored : Nat → Bool) : (sh.done S target settled now stored).starved = sh.starved := by
  have heach : (Shared.doneEach S target now stored 0 sh settled).starved = sh.starved :=
    Shared.starved_doneEach now stored settled 0 sh
  unfold Shared.done
  split
  · rfl
  · cases S.waitCap with
    | none => exact heach
    | some waitCap => exact heach

/-- Only a loop that gave up says so. -/
theorem LoopState.step_starved {loops : Nat} {env : LoopEnv} {sh sh' : Shared Job σ}
    {l l' : LoopState Job} (hs : l.step S target loops env sh = some (sh', l'))
    (hpc : l.pc ≠ .starving) : sh'.starved = sh.starved := by
  rcases LoopState.step_shared hs with rfl | rfl | ⟨settled, now, stored, rfl⟩ | ⟨hstarving, -⟩
  · rfl
  · exact Shared.take_starved sh loops l.flight.len
  · exact Shared.starved_done sh settled now stored
  · exact absurd hstarving hpc

theorem Engine.mainStep_starved {u : Setup} {e e' : Engine Job σ u.loops} {env : MainEnv}
    (hs : e.mainStep S u env = some e') :
    e'.shared.starved = e.shared.starved ∧
      (e'.main = .returned .outOfSockets → e.shared.starved = true) := by
  unfold Engine.mainStep at hs
  split at hs
  · split at hs
    · split at hs
      · rw [← Option.some.inj hs]
        simp
      · split at hs
        · next hstarved =>
          rw [← Option.some.inj hs]
          exact ⟨rfl, fun _ => hstarved⟩
        · rw [← Option.some.inj hs]
          simp
    · simp at hs
  · rw [← Option.some.inj hs]
    simp
  · split at hs
    · simp at hs
    · rw [← Option.some.inj hs]
      simp [Shared.sourceDone]
  · simp at hs

end Starved

/-! ## The whole run -/

section Run

variable {S : Source Job σ} {target : Job → Target} {u : Setup} {source : σ}

/-- What a watcher of the run notes: the start attempts of each loop. -/
def sawStart (u : Setup) (logs : Fin u.loops → StartLog) (e : Engine Job σ u.loops) :
    EngineLabel u.loops → Fin u.loops → StartLog
  | .loop i env => Function.update logs i ((e.loops i).noteStart env (logs i))
  | .main _ => logs

/-- The invariant of a run and its watcher. -/
structure Engine.Explained (u : Setup) (w : Engine Job σ u.loops × (Fin u.loops → StartLog)) :
    Prop where
  holds : ∀ i, (w.1.loops i).Holds (w.2 i)
  starved : w.1.shared.starved = true → ∃ i, ∃ log : StartLog, log <+: w.2 i ∧ log.Stalled
  result : w.1.main = .returned .outOfSockets → w.1.shared.starved = true

theorem LoopState.prefix_noteStart (l : LoopState Job) (env : LoopEnv) (log : StartLog) :
    log <+: l.noteStart env log := by
  unfold LoopState.noteStart
  split
  · exact List.prefix_append _ _
  · exact List.prefix_rfl

theorem Engine.Explained.loop {w w' : Engine Job σ u.loops × (Fin u.loops → StartLog)}
    (h : Engine.Explained u w) {i : Fin u.loops} {env : LoopEnv}
    (hs : w.1.step S target u (.loop i env) = some w'.1)
    (hlogs : w'.2 = sawStart u w.2 w.1 (.loop i env)) : Engine.Explained u w' := by
  have hgrown : ∀ j, w.2 j <+: w'.2 j := by
    intro j
    rw [hlogs, sawStart]
    by_cases hij : j = i
    · subst hij
      rw [Function.update_self]
      exact LoopState.prefix_noteStart _ _ _
    · rw [Function.update_of_ne hij]
  simp only [Engine.step] at hs
  split at hs
  · simp at hs
  · next sh l hstep =>
    have hw' := (Option.some.inj hs).symm
    refine ⟨fun j => ?_, fun hstarved => ?_, fun hmain => ?_⟩
    · rw [hw', hlogs, sawStart]
      by_cases hij : j = i
      · subst hij
        simp only [Function.update_self]
        exact LoopState.step_holds (h.holds j) hstep
      · simp only [Function.update_of_ne hij]
        exact h.holds j
    · by_cases hpc : (w.1.loops i).pc = .starving
      · have hi := h.holds i
        rw [LoopState.Holds, hpc] at hi
        exact ⟨i, w.2 i, hgrown i, hi.2.2⟩
      · rw [hw', LoopState.step_starved hstep hpc] at hstarved
        obtain ⟨j, log, hlog, hstalled⟩ := h.starved hstarved
        exact ⟨j, log, hlog.trans (hgrown j), hstalled⟩
    · rw [hw'] at hmain ⊢
      exact (LoopState.step_grows hstep).starved (h.result hmain)

theorem Engine.Explained.main {w w' : Engine Job σ u.loops × (Fin u.loops → StartLog)}
    (h : Engine.Explained u w) {env : MainEnv} (hs : w.1.mainStep S u env = some w'.1)
    (hlogs : w'.2 = w.2) : Engine.Explained u w' := by
  obtain ⟨hloops, _, _⟩ := Engine.mainStep_keeps hs
  obtain ⟨hstarved, hresult⟩ := Engine.mainStep_starved hs
  refine ⟨?_, ?_, fun hmain => ?_⟩
  · rw [hloops, hlogs]
    exact h.holds
  · rw [hstarved, hlogs]
    exact h.starved
  · rw [hstarved]
    exact hresult hmain

theorem Engine.explained {w : Engine Job σ u.loops × (Fin u.loops → StartLog)}
    (h : ((engine S target u source).watch (fun _ => []) (sawStart u)).Reachable w) :
    Engine.Explained u w := by
  refine h.invariant (I := Engine.Explained u) ?_ ?_
  · rintro ⟨e, logs⟩ ⟨he, hlogs⟩
    simp only [engine] at he hlogs
    subst he hlogs
    refine ⟨fun i => ?_, by simp [Engine.start], by simp [Engine.start]⟩
    have hr : ({} : Held Job).Released := ⟨rfl, rfl, rfl⟩
    exact ⟨hr.between, Or.inl ⟨fun _ => ⟨rfl, rfl⟩, by simp [StartLog.failures],
      by simp [StartLog.failures, StartLog.counted]⟩⟩
  · intro w label w' _ hw hs
    obtain ⟨hstep, hlogs⟩ := Lts.watch_step hs
    cases label with
    | loop i env => exact hw.loop hstep hlogs
    | main env => exact hw.main hstep hlogs

/-- The loop is at a start attempt, and has not yet dealt with what it gave. -/
def Pc.attempting : Pc Job → Bool
  | .start _ _ => true
  | .wentOut _ _ _ => true
  | _ => false

/-- What a loop's held connects say of the starts it has made. -/
structure LoopState.MatchesStarts (log : StartLog) (l : LoopState Job) : Prop where
  /-- Between two start attempts. -/
  between : l.pc.attempting = false → l.held.jobs.length ≤ 2 ∧
    (l.held.suspect = true → l.held.jobs.length = 1 ∧ l.held.short = false) ∧
    (l.held.short = true → 1 ≤ l.held.jobs.length)
  /-- The assertion in `hold`. -/
  room : ∀ job started, l.pc = .start job started → l.held.jobs.length < 2
  gaveUp : ∀ job started shortage, l.pc = .start job started →
    (l.held.hold job shortage started).1 = false →
    StartLog.Stalled (log ++ [(started, .unprobed shortage)])
  /-- The times of a shortage are those of the failed starts since the last that succeeded. -/
  times : l.pc.attempting = false → l.held.short = true →
    ∃ first rest, StartLog.counted log.failures = first :: rest ∧ l.held.since = first.1 ∧
      l.held.retryAt = (rest.getLastD first).1 + pauseAfter rest.length ∧
      l.held.pause = pauseAfter (rest.length + 1)
  reset : ∀ job started attempt, l.pc = .record job started attempt →
    log.failures = [] ∧ l.held.short = false ∧ l.held.suspect = false

/-- Held connects that let a new one be taken are not short. -/
theorem Held.Between.not_short {h : Held Job} (hb : h.Between) (hopen : h.open = true) :
    h.short = false := by
  rw [Bool.eq_false_iff]
  intro hshort
  have hlen := hb.short hshort
  unfold Held.open at hopen
  rw [Bool.or_eq_true, decide_eq_true_eq] at hopen
  rcases hopen with hnone | hsuspect
  · omega
  · have := (hb.suspect hsuspect).2
    simp [hshort] at this

/-- A shortage began with the first of the failures that count. -/
theorem Held.Clock.times {fails : StartLog} {h : Held Job} (hc : h.Clock fails)
    (hshort : h.short = true) :
    ∃ first rest, StartLog.counted fails = first :: rest ∧ h.since = first.1 ∧
      h.retryAt = (rest.getLastD first).1 + pauseAfter rest.length ∧
      h.pause = pauseAfter (rest.length + 1) := by
  cases hcounted : StartLog.counted fails with
  | cons first rest => exact ⟨first, rest, rfl, (hc.short first rest hcounted).2⟩
  | nil =>
    rcases StartLog.counted_eq_nil hcounted with hnil | ⟨t, hlone⟩
    · simp [(hc.started hnil).1] at hshort
    · simp [(hc.suspect t hlone).1] at hshort

theorem LoopState.Holds.matchesStarts {log : StartLog} {l : LoopState Job} (h : l.Holds log) :
    l.MatchesStarts log := by
  have hbetween : l.pc.attempting = false → l.held.Between := by
    intro hpc
    unfold LoopState.Holds at h
    cases hl : l.pc <;> rw [hl] at h <;> first | exact h.1 | simp [hl, Pc.attempting] at hpc
  refine ⟨fun hpc => ?_, fun job started hpc => ?_, fun job started shortage hpc hgive => ?_,
    fun hpc hshort => ?_, fun job started attempt hpc => ?_⟩
  · have hb := hbetween hpc
    exact ⟨hb.len_le, hb.suspect, hb.short⟩
  · rw [LoopState.Holds, hpc] at h
    exact Nat.lt_succ_of_le h.1.len_le
  · rw [LoopState.Holds, hpc] at h
    exact h.2.stalled h.1 job shortage started hgive
  · have hb := hbetween hpc
    unfold LoopState.Holds at h
    split at h
    · simp [hb.not_short h.2.1] at hshort
    · simp [hb.not_short h.2.1] at hshort
    · next hl => simp [hl, Pc.attempting] at hpc
    · exact h.2.1.times hshort
    · next hl => simp [hl, Pc.attempting] at hpc
    · exact h.2.2.times hshort
    · rcases h.2 with hc | ⟨_, hr⟩
      · exact hc.times hshort
      · simp [hr.short] at hshort
  · rw [LoopState.Holds, hpc] at h
    exact ⟨h.2.1, h.2.2.started h.2.1⟩

/--
**A run that gives up for want of sockets saw a shortage without a break.** In every state of a
run, whatever the interleaving, the times and the results of `start`, each loop's held connects
are honest about its starts; and `OutOfSockets` is returned only if some loop, over
`stallLimitNs` at least, made start attempts that all failed.
-/
theorem outOfSockets_stalled (S : Source Job σ) (target : Job → Target) (u : Setup) (source : σ)
    {e : Engine Job σ u.loops} {logs : Fin u.loops → StartLog}
    (h : ((engine S target u source).watch (fun _ => []) (sawStart u)).Reachable (e, logs)) :
    (∀ i, (e.loops i).MatchesStarts (logs i)) ∧
      (e.main = .returned .outOfSockets →
        ∃ i, ∃ log : StartLog, log <+: logs i ∧ log.Stalled) := by
  have hexplained := Engine.explained h
  exact ⟨fun i => (hexplained.holds i).matchesStarts,
    fun hmain => hexplained.starved (hexplained.result hmain)⟩

/-- A run of one loop that finds no socket for its only connect, and none five seconds later. -/
theorem outOfSockets_stalled_one :
    let S : Source Nat (List Nat) :=
      { next := fun s => (s.head?, s.tail)
        done := fun s _ _ _ => s }
    let target : Nat → Target := fun _ =>
      { ip := (10, 0, 0, 1)
        port := 80
        timeoutMs := 500 }
    let u : Setup :=
      { limit := 4
        loops := 1
        poolPace := 256
        pace := .adaptive
        loops_pos := by decide
        loops_le := by decide }
    ∃ e logs, ((engine S target u [7]).watch (fun _ => []) (sawStart u)).Reachable (e, logs) ∧
      e.main = .returned .outOfSockets ∧ (∀ i, (e.loops i).MatchesStarts (logs i)) ∧
      (e.main = .returned .outOfSockets →
        ∃ i, ∃ log : StartLog, log <+: logs i ∧ log.Stalled) := by
  intro S target u
  let loop (env : LoopEnv) : EngineLabel u.loops := .loop ⟨0, by decide⟩ env
  let labels : List (EngineLabel u.loops) := [
    loop {}, loop {}, loop {}, loop {}, loop { attempt := .unprobed .socket }, loop {}, loop {},
    loop {}, loop {}, loop { now := 5000000000 }, loop { attempt := .unprobed .socket }, loop {},
    loop {}, loop {}, loop {}, loop {}, .main {}]
  have hend : (((engine S target u [7]).watch (fun _ => []) (sawStart u)).exec
      (Engine.start u [7], fun _ => []) labels).map (fun w => w.1.main) =
        some (.returned .outOfSockets) := by
    decide +kernel
  obtain ⟨⟨e, logs⟩, hexec, hmain⟩ := Option.map_eq_some_iff.mp hend
  have hrun : ((engine S target u [7]).watch (fun _ => []) (sawStart u)).Reachable (e, logs) :=
    ⟨(Engine.start u [7], fun _ => []), labels, ⟨rfl, rfl⟩, hexec⟩
  obtain ⟨hhonest, hstalled⟩ := outOfSockets_stalled S target u [7] hrun
  exact ⟨e, logs, hrun, hmain, hhonest, hstalled⟩

end Run

end NetScanner.Connects
