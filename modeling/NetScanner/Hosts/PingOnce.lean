import NetScanner.Hosts.Ping
import Mathlib.Data.List.Nodup

/-!
# `pingSweep` accounts for every host and every process

Whichever way the hosts are pinged, each is reported at most once and `alive` is what was
reported (`Told`). In a wave the waiters are those of consecutive hosts, and one of them is
through when its host is reported (`InWave`); the next wave starts behind the last host of this
one. So the array of waiters is never left while a thread still points into it.
-/

namespace NetScanner.Hosts

open Icmp Infra

/-! ## What was reported -/

/-- The hosts that were reported. -/
def told (pinged : List (Nat × Bool)) : List Nat := pinged.map Prod.fst

@[simp] theorem told_append (as bs : List (Nat × Bool)) :
    told (as ++ bs) = told as ++ told bs := List.map_append

@[simp] theorem told_singleton (p : Nat × Bool) : told [p] = [p.1] := rfl

/-- `alive` against the calls of `observer.pinged`. -/
structure Told (count : Nat) (alive : List Bool) (pinged : List (Nat × Bool)) : Prop where
  length : alive.length = count
  nodup : (told pinged).Nodup
  lt : ∀ i ∈ told pinged, i < count
  kept : ∀ p ∈ pinged, alive[p.1]? = some p.2
  rest : ∀ i < count, i ∉ told pinged → alive[i]? = some false

theorem Told.start (count : Nat) : Told count (List.replicate count false) [] where
  length := List.length_replicate
  nodup := List.nodup_nil
  lt := by simp [told]
  kept := by simp
  rest i hi _ := by simp [hi]

theorem Told.note {count : Nat} {alive : List Bool} {pinged : List (Nat × Bool)}
    (h : Told count alive pinged) {p : Nat × Bool} (hnew : p.1 ∉ told pinged) (hlt : p.1 < count) :
    Told count (alive.set p.1 p.2) (pinged ++ [p]) where
  length := by rw [List.length_set, h.length]
  nodup := by
    rw [told_append, told_singleton]
    refine h.nodup.append (List.nodup_singleton _) fun i hi hi' => ?_
    rw [List.mem_singleton.mp hi'] at hi
    exact hnew hi
  lt i hi := by
    rw [told_append, told_singleton] at hi
    rcases List.mem_append.mp hi with hi | hi
    · exact h.lt i hi
    · rw [List.mem_singleton.mp hi]
      exact hlt
  kept q hq := by
    rcases List.mem_append.mp hq with hq | hq
    · have hne : p.1 ≠ q.1 := by
        intro heq
        exact hnew (heq ▸ List.mem_map_of_mem hq)
      rw [List.getElem?_set_ne hne]
      exact h.kept q hq
    · rw [List.mem_singleton.mp hq, List.getElem?_set_self (by rw [h.length]; exact hlt)]
  rest i hi hnot := by
    rw [told_append, told_singleton, List.mem_append, List.mem_singleton, not_or] at hnot
    rw [List.getElem?_set_ne fun heq => hnot.2 heq.symm]
    exact h.rest i hi hnot.1

section Sweeping

variable {count : Nat} {P : Pinger count}

namespace PingSweep

/-- The observer's calls of one step of `icmp_ping_sweep`. -/
theorem foldl_note (new : List (Nat × Bool)) (s : PingSweep P)
    (h : Told count s.alive s.pinged) (hnodup : (told (s.pinged ++ new)).Nodup)
    (hlt : ∀ i ∈ told new, i < count) :
    ∃ alive, new.foldl note s = { s with alive := alive, pinged := s.pinged ++ new } ∧
      Told count alive (s.pinged ++ new) := by
  induction new generalizing s with
  | nil => exact ⟨s.alive, by simp, by simpa using h⟩
  | cons p new ih =>
    have hsplit : s.pinged ++ p :: new = s.pinged ++ [p] ++ new := by simp
    rw [hsplit] at hnodup ⊢
    have hp : p.1 ∉ told s.pinged := by
      rw [told_append, told_append, told_singleton] at hnodup
      intro hmem
      have hpre := (List.nodup_append.mp hnodup).1
      exact (List.nodup_append.mp hpre).2.2 _ hmem _ (List.mem_singleton_self _) rfl
    have hnote := h.note hp (hlt p.1 (by simp [told]))
    obtain ⟨alive, heq, htold⟩ := ih (s.note p) hnote hnodup
      fun i hi => hlt i (List.mem_cons_of_mem _ hi)
    exact ⟨alive, heq, htold⟩

/-- The hosts reported so far. -/
def reported (s : PingSweep P) : List Nat := told s.pinged

/-- A wave from its first process to its last waiter. -/
structure InWave (s : PingSweep P) : Prop where
  last_le : s.waveLast ≤ count
  size : s.waveLast ≤ s.waveFirst + maxPingProcesses
  spawned : s.waveFirst + s.waiters.length ≤ s.waveLast
  index : ∀ k w, s.waiters[k]? = some w → w.index = s.waveFirst + k
  heard : ∀ w ∈ s.waiters, w.state = .reported ↔ w.index ∈ s.reported
  below : ∀ i ∈ s.reported, i < s.waveFirst + s.waiters.length
  before : s.stopSeen = false → ∀ i < s.waveFirst, i ∈ s.reported

/-- Every process of the last wave was waited for and reported. -/
def Joined (s : PingSweep P) : Prop := ∀ w ∈ s.waiters, w.state = .reported

/-- What a wave starts all its processes for. -/
def Full (s : PingSweep P) : Prop :=
  s.stopSeen = false → s.spawnError = false → s.waveFirst + s.waiters.length = s.waveLast

/-- What holds at a place of `pingSweep`. -/
def Placed (s : PingSweep P) : Prop :=
  match s.pc with
  | .begin => s.pinged = [] ∧ s.waiters = [] ∧ s.first = 0 ∧ s.stopSeen = false
  | .icmp sweep => P.lts.Reachable sweep ∧ s.pinged = P.reports sweep ∧
      s.stopSeen = P.stopped sweep ∧ s.waiters = [] ∧ s.first = 0
  | .waves => s.Joined ∧ s.first ≤ count ∧ (∀ i ∈ s.reported, i < s.first) ∧
      (s.stopSeen = false → ∀ i < s.first, i ∈ s.reported)
  | .spawn index => s.InWave ∧ index = s.waveFirst + s.waiters.length ∧
      s.spawnError = false ∧ ∀ w ∈ s.waiters, w.threaded = false
  | .start _ => s.InWave ∧ s.Full
  | .join k => s.InWave ∧ s.Full ∧ ∀ j < k, ∀ w, s.waiters[j]? = some w → w.state = .reported
  | .returned r => s.Joined ∧ (r = .alive → s.stopSeen = false → ∀ i < count, i ∈ s.reported)

/-- The invariant of `pingSweep`. -/
structure Sound (s : PingSweep P) : Prop where
  book : Told count s.alive s.pinged
  placed : s.Placed

/-- The waiter at one place changes, without its index. -/
theorem getElem?_set_waiter {ws : List Waiter} {k : Nat} {w w' : Waiter} (hw : ws[k]? = some w)
    {j : Nat} {v : Waiter} (hv : (ws.set k w')[j]? = some v) :
    j = k ∧ v = w' ∨ j ≠ k ∧ ws[j]? = some v := by
  obtain ⟨hk, _⟩ := List.getElem?_eq_some_iff.mp hw
  by_cases hj : j = k
  · subst hj
    rw [List.getElem?_set_self hk] at hv
    exact Or.inl ⟨rfl, (Option.some.inj hv).symm⟩
  · rw [List.getElem?_set_ne fun e => hj e.symm] at hv
    exact Or.inr ⟨hj, hv⟩

theorem InWave.waiter {s s' : PingSweep P} (h : s.InWave) {k : Nat} {w w' : Waiter}
    (hw : s.waiters[k]? = some w) (hindex : w'.index = w.index)
    (hs : s'.waveFirst = s.waveFirst ∧ s'.waveLast = s.waveLast ∧ s'.stopSeen = s.stopSeen)
    (hwaiters : s'.waiters = s.waiters.set k w')
    (hreported : ∀ i, i ∈ s'.reported ↔ i ∈ s.reported ∨ i = w.index ∧ w'.state = .reported)
    (hstate : w.state = .reported → w'.state = .reported) : s'.InWave := by
  obtain ⟨hfirst, hlast, hstop⟩ := hs
  have hk := h.index k w hw
  have hlen := (List.getElem?_eq_some_iff.mp hw).1
  refine ⟨by rw [hlast]; exact h.last_le, by rw [hfirst, hlast]; exact h.size, ?_, ?_, ?_, ?_, ?_⟩
  · rw [hfirst, hlast, hwaiters, List.length_set]
    exact h.spawned
  · intro j v hv
    rw [hwaiters] at hv
    rw [hfirst]
    rcases getElem?_set_waiter hw hv with ⟨rfl, rfl⟩ | ⟨_, hv⟩
    · rw [hindex, hk]
    · exact h.index j v hv
  · intro v hv
    obtain ⟨j, hj⟩ := List.mem_iff_getElem?.mp hv
    rw [hwaiters] at hj
    rw [hreported]
    rcases getElem?_set_waiter hw hj with ⟨rfl, rfl⟩ | ⟨hne, hj⟩
    · rw [hindex, ← h.heard w (List.mem_of_getElem? hw)]
      exact ⟨fun hr => Or.inr ⟨rfl, hr⟩, fun hr => hr.elim hstate And.right⟩
    · rw [h.heard v (List.mem_of_getElem? hj)]
      have hother : v.index ≠ w.index := by
        rw [h.index j v hj, hk]
        omega
      exact ⟨Or.inl, fun hr => hr.elim id fun he => absurd he.1 hother⟩
  · intro i hi
    rw [hfirst, hwaiters, List.length_set]
    rcases (hreported i).mp hi with hi | ⟨rfl, _⟩
    · exact h.below i hi
    · omega
  · intro hs i hi
    rw [hstop] at hs
    rw [hfirst] at hi
    exact (hreported i).mpr (Or.inl (h.before hs i hi))

theorem InWave.congr {s s' : PingSweep P} (h : s.InWave)
    (hs : s'.waveFirst = s.waveFirst ∧ s'.waveLast = s.waveLast ∧ s'.waiters = s.waiters ∧
      s'.pinged = s.pinged) (hstop : s'.stopSeen = false → s.stopSeen = false) : s'.InWave := by
  obtain ⟨hfirst, hlast, hwaiters, hpinged⟩ := hs
  have hreported : s'.reported = s.reported := by rw [reported, hpinged, reported]
  refine ⟨by rw [hlast]; exact h.last_le, by rw [hfirst, hlast]; exact h.size,
    by rw [hfirst, hlast, hwaiters]; exact h.spawned, by rw [hwaiters, hfirst]; exact h.index,
    by rw [hwaiters, hreported]; exact h.heard, by rw [hreported, hfirst, hwaiters]; exact h.below,
    fun hs => ?_⟩
  rw [hfirst, hreported]
  exact h.before (hstop hs)

/-- One more process. -/
theorem InWave.spawn {s : PingSweep P} (h : s.InWave)
    (hlt : s.waveFirst + s.waiters.length < s.waveLast) {pc : PingPc P.State} {index : Nat}
    (hindex : index = s.waveFirst + s.waiters.length) :
    ({ s with pc := pc, waiters := s.waiters ++ [{ index := index }] } : PingSweep P).InWave where
  last_le := h.last_le
  size := h.size
  spawned := by
    show s.waveFirst + (s.waiters ++ [_]).length ≤ s.waveLast
    rw [List.length_append, List.length_singleton]
    omega
  index k w hw := by
    by_cases hk : k < s.waiters.length
    · rw [List.getElem?_append_left hk] at hw
      exact h.index k w hw
    · rw [List.getElem?_append_right (by omega), List.getElem?_singleton] at hw
      split at hw
      · cases hw
        show index = s.waveFirst + k
        omega
      · cases hw
  heard w hw := by
    rcases List.mem_append.mp hw with hw | hw
    · exact h.heard w hw
    · rw [List.mem_singleton.mp hw]
      refine ⟨fun hr => (by cases hr), fun hi => ?_⟩
      exact absurd (h.below _ hi) (by rw [hindex]; exact Nat.lt_irrefl _)
  below i hi := by
    have hlt := h.below i hi
    show i < s.waveFirst + (s.waiters ++ [_]).length
    rw [List.length_append]
    omega
  before := h.before

/-! ## The steps -/

/-- A step of the main thread. -/
theorem Sound.main {s s' : PingSweep P} {env : PingEnv} (h : s.Sound)
    (hs : s.mainStep env = some s') : s'.Sound := by
  obtain ⟨htold, hplaced⟩ := h
  unfold mainStep at hs
  split at hs
  · next hpc =>
    simp only [Placed, hpc] at hplaced
    obtain ⟨hpinged, hwaiters, hfirst, hstop⟩ := hplaced
    split at hs
    · cases hs
      exact ⟨htold, Lts.Reachable.of_init (P.call_init _),
        hpinged.trans (P.call_reports _).symm, hstop.trans (P.call_stopped _).symm, hwaiters,
        hfirst⟩
    · cases hs
      exact ⟨htold, by simp [Placed, Joined, hwaiters]⟩
  · next sweep hpc =>
    simp only [Placed, hpc] at hplaced
    obtain ⟨hreach, hpinged, hstop, hwaiters, hfirst⟩ := hplaced
    split at hs
    · cases hs
    · next hres =>
      cases hs
      refine ⟨htold, by simp [Joined, hwaiters], fun _ hstop' i hi => ?_⟩
      show i ∈ s.reported
      rw [reported, hpinged]
      exact P.complete hreach hres (by rw [← hstop]; exact hstop') i hi
    · next hres =>
      cases hs
      have hnone : s.pinged = [] := by
        rw [hpinged]
        exact P.silent hreach hres (by simp)
      refine ⟨htold, ?_⟩
      simp [Placed, Joined, hwaiters, hfirst, reported, hnone, told]
    · cases hs
      exact ⟨htold, by simp [Placed, Joined, hwaiters]⟩
  · next hpc =>
    simp only [Placed, hpc] at hplaced
    obtain ⟨hjoined, hle, hbelow, hbefore⟩ := hplaced
    split at hs
    · next hlt =>
      split at hs
      · cases hs
        exact ⟨htold, hjoined, fun _ hstop => by cases hstop⟩
      · cases hs
        refine ⟨htold, ⟨Nat.min_le_right _ _, Nat.min_le_left _ _, ?_, ?_, ?_, hbelow, hbefore⟩,
          rfl, rfl, ?_⟩
        · show s.first + 0 ≤ min (s.first + maxPingProcesses) count
          unfold maxPingProcesses
          omega
        · simp
        · simp
        · simp
    · next hge =>
      cases hs
      refine ⟨htold, hjoined, fun _ hstop i hi => ?_⟩
      exact hbefore hstop i (by omega)
  · next index hpc =>
    simp only [Placed, hpc] at hplaced
    obtain ⟨hwave, hindex, herror, hthreads⟩ := hplaced
    split at hs
    · next hlt =>
      split at hs
      · cases hs
        refine ⟨htold, hwave.congr ⟨rfl, rfl, rfl, rfl⟩ (by simp), ?_⟩
        simp [Full]
      · split at hs
        · cases hs
          refine ⟨htold, hwave.congr ⟨rfl, rfl, rfl, rfl⟩ id, ?_⟩
          simp [Full]
        · cases hs
          refine ⟨htold, hwave.spawn (by omega) hindex, ?_, herror, ?_⟩
          · show index + 1 = s.waveFirst + (s.waiters ++ [_]).length
            rw [List.length_append, List.length_singleton, hindex, Nat.add_assoc]
          · intro w hw
            rcases List.mem_append.mp hw with hw | hw
            · exact hthreads w hw
            · rw [List.mem_singleton.mp hw]
    · next hge =>
      cases hs
      refine ⟨htold, hwave.congr ⟨rfl, rfl, rfl, rfl⟩ id, fun _ _ => ?_⟩
      have hspawned := hwave.spawned
      show s.waveFirst + s.waiters.length = s.waveLast
      omega
  · next k hpc =>
    simp only [Placed, hpc] at hplaced
    obtain ⟨hwave, hfull⟩ := hplaced
    split at hs
    · cases hs
      exact ⟨htold, hwave.congr ⟨rfl, rfl, rfl, rfl⟩ id, hfull, by simp⟩
    · next w hw =>
      cases hs
      have hindex : { w with threaded := env.threaded }.index = w.index := rfl
      refine ⟨htold, hwave.waiter hw hindex ⟨rfl, rfl, rfl⟩ rfl ?_ id, ?_⟩
      · intro i
        refine ⟨Or.inl, fun hi => hi.elim id ?_⟩
        rintro ⟨rfl, hstate⟩
        exact (hwave.heard w (List.mem_of_getElem? hw)).mp hstate
      · intro hstop herror
        show s.waveFirst + (s.waiters.set k _).length = s.waveLast
        rw [List.length_set]
        exact hfull hstop herror
  · next k hpc =>
    simp only [Placed, hpc] at hplaced
    obtain ⟨hwave, hfull, hjoined⟩ := hplaced
    split at hs
    · next hnone =>
      have hall : s.Joined := by
        intro w hw
        obtain ⟨j, hj⟩ := List.mem_iff_getElem?.mp hw
        have hlt := (List.getElem?_eq_some_iff.mp hj).1
        have hge := List.getElem?_eq_none_iff.mp hnone
        exact hjoined j (by omega) w hj
      split at hs
      · cases hs
        exact ⟨htold, hall, by simp⟩
      · next herror =>
        cases hs
        have hspawned := hwave.spawned
        refine ⟨htold, hall, hwave.last_le, ?_, ?_⟩
        · intro i hi
          have hlt := hwave.below i hi
          show i < s.waveLast
          omega
        · intro hstop i hi
          have hlast := hfull hstop (by simpa using herror)
          by_cases hfirst : i < s.waveFirst
          · exact hwave.before hstop i hfirst
          · -- the waiter of host `i` is through
            have hi : i < s.waveLast := hi
            have hk : i - s.waveFirst < s.waiters.length := by omega
            have hget := List.getElem?_eq_getElem hk
            have hmem := List.getElem_mem hk
            have hidx := hwave.index _ _ hget
            rw [show i = (s.waiters[i - s.waveFirst]).index by omega]
            exact (hwave.heard _ hmem).mp (hall _ hmem)
    · next w hw =>
      split at hs
      · next hstate =>
        cases hs
        refine ⟨htold, hwave.congr ⟨rfl, rfl, rfl, rfl⟩ id, hfull, fun j hj v hv => ?_⟩
        rcases Nat.lt_or_eq_of_le (Nat.le_of_lt_succ hj) with hj | rfl
        · exact hjoined j hj v hv
        · rw [hw] at hv
          cases hv
          exact hstate
      · cases hs
  · cases hs

/-- A step of `icmp_ping_sweep`. -/
theorem Sound.icmp {s s' : PingSweep P} {l : P.Label} (h : s.Sound)
    (hs : s.icmpStep l = some s') : s'.Sound := by
  obtain ⟨htold, hplaced⟩ := h
  unfold icmpStep at hs
  split at hs
  · next sweep hpc =>
    simp only [Placed, hpc] at hplaced
    obtain ⟨hreach, hpinged, hstop, hwaiters, hfirst⟩ := hplaced
    obtain ⟨sweep', hstep, rfl⟩ := Option.map_eq_some_iff.mp hs
    have hreach' := hreach.step hstep
    obtain ⟨new, hnew⟩ := P.grows hstep
    have hdrop : (P.reports sweep').drop (P.reports sweep).length = new := by
      rw [← hnew, List.drop_left]
    have hreports : s.pinged ++ new = P.reports sweep' := by rw [hpinged, hnew]
    obtain ⟨alive, heq, htold'⟩ := foldl_note new s htold
      (by rw [hreports]; exact P.nodup hreach')
      (fun i hi => P.lt hreach' i (by
        rw [← hnew, List.map_append]
        exact List.mem_append_right _ hi))
    rw [hdrop, heq]
    exact ⟨htold', hreach', hreports, rfl, hwaiters, hfirst⟩
  · cases hs

/-- The waiter that a step is of, and where the sweep then is. -/
theorem Sound.waiting {s : PingSweep P} (h : s.Sound) {k : Nat} {w : Waiter}
    (hw : s.waiters[k]? = some w) (hruns : s.runs k w = true) (hstate : w.state ≠ .reported) :
    s.InWave ∧ s.Full ∧ ((∃ j, s.pc = .start j) ∨ ∃ j, s.pc = .join j ∧
      ∀ i < j, ∀ v, s.waiters[i]? = some v → v.state = .reported) := by
  have hmem := List.mem_of_getElem? hw
  have hplaced := h.placed
  unfold Placed at hplaced
  split at hplaced
  · simp [hplaced.2.1] at hmem
  · simp [hplaced.2.2.2.1] at hmem
  · exact absurd (hplaced.1 w hmem) hstate
  · next hpc => simp [runs, hpc, hplaced.2.2.2 w hmem] at hruns
  · next j hpc => exact ⟨hplaced.1, hplaced.2, Or.inl ⟨j, hpc⟩⟩
  · next j hpc => exact ⟨hplaced.1, hplaced.2.1, Or.inr ⟨j, hpc, hplaced.2.2⟩⟩
  · exact absurd (hplaced.1 w hmem) hstate

/-- A step of a waiter. -/
theorem Sound.waiter {s s' : PingSweep P} {k : Nat} {term : Option Term} (h : s.Sound)
    (hs : s.waiterStep k term = some s') : s'.Sound := by
  unfold waiterStep at hs
  split at hs
  · cases hs
  · next w hw =>
    have hmem := List.mem_of_getElem? hw
    split at hs
    · next hruns =>
      have hwaiting : w.state ≠ .reported → s.InWave ∧ s.Full ∧ _ := h.waiting hw hruns
      -- where the main thread is, once this waiter moved on
      have hplaced : ∀ w' : Waiter, w'.index = w.index → w.state ≠ .reported → s'.pc = s.pc →
          s'.waiters = s.waiters.set k w' → s'.spawnError = s.spawnError →
          s'.stopSeen = s.stopSeen → s'.waveFirst = s.waveFirst → s'.waveLast = s.waveLast →
          (∀ i, i ∈ s'.reported ↔ i ∈ s.reported ∨ i = w.index ∧ w'.state = .reported) →
          s'.Placed := by
        intro w' hindex hstate hpc hwaiters herror hstop hfirst hlast hreported
        obtain ⟨hwave, hfull, hplace⟩ := hwaiting hstate
        have hwave' : s'.InWave := hwave.waiter hw hindex ⟨hfirst, hlast, hstop⟩ hwaiters hreported
          fun hr => absurd hr hstate
        have hfull' : s'.Full := by
          intro hs he
          rw [hfirst, hwaiters, List.length_set, hlast]
          exact hfull (hstop ▸ hs) (herror ▸ he)
        rcases hplace with ⟨j, hj⟩ | ⟨j, hj, hjoined⟩
        · rw [hj] at hpc
          simp only [Placed, hpc]
          exact ⟨hwave', hfull'⟩
        · rw [hj] at hpc
          simp only [Placed, hpc]
          refine ⟨hwave', hfull', fun i hi v hv => ?_⟩
          rw [hwaiters] at hv
          rcases getElem?_set_waiter hw hv with ⟨rfl, rfl⟩ | ⟨_, hv⟩
          · exact absurd (hjoined i hi w hw) hstate
          · exact hjoined i hi v hv
      split at hs
      · next hstate =>
        cases hs
        refine ⟨h.book, hplaced { w with state := .ended (term == some (.exited 0)) } rfl
          (by simp [hstate]) rfl rfl rfl rfl rfl rfl fun i => ?_⟩
        simp [reported]
      · next answered hstate =>
        cases hs
        have hwave := (hwaiting (by simp [hstate])).1
        have hnew : w.index ∉ told s.pinged := by
          intro hin
          have hr := (hwave.heard w hmem).mpr hin
          rw [hstate] at hr
          cases hr
        have hlt : w.index < count := by
          have hk := (List.getElem?_eq_some_iff.mp hw).1
          have hidx := hwave.index k w hw
          have hspawned := hwave.spawned
          have hle := hwave.last_le
          omega
        refine ⟨h.book.note (p := (w.index, answered)) hnew hlt,
          hplaced { w with state := .reported } rfl (by simp [hstate]) rfl rfl rfl rfl rfl rfl
            fun i => ?_⟩
        simp [reported, note]
      · cases hs
    · cases hs

end PingSweep

/-! ## Whole runs -/

/-- **The invariant holds in every reachable state.** -/
theorem pingSweep_sound {s : PingSweep P} (h : (pingSweep P).Reachable s) : s.Sound := by
  refine h.invariant (I := PingSweep.Sound) ?_ ?_
  · rintro s rfl
    exact ⟨Told.start count, rfl, rfl, rfl, rfl⟩
  · intro s l s' _ hs hstep
    cases l with
    | main env => exact hs.main hstep
    | icmp l => exact hs.icmp hstep
    | waiter k term => exact hs.waiter hstep

/-- The processes of a sweep that have not been heard of. -/
def PingSweep.running (s : PingSweep P) : List Waiter :=
  s.waiters.filter fun w => w.state ≠ .reported

/-- What `pingSweep` owes its observer and its caller, at any moment. -/
structure PingAccounts (s : PingSweep P) : Prop where
  /-- `pinged` is called at most once per host, and for the hosts asked for only. -/
  once : s.reported.Nodup ∧ ∀ i ∈ s.reported, i < count
  /-- `alive` is what was reported, and `false` of the rest. -/
  alive : s.alive.length = count ∧
    ∀ i < count, s.alive[i]? = some (decide ((i, true) ∈ s.pinged))
  /-- Never more processes than a wave has. -/
  wave : s.running.length ≤ maxPingProcesses
  /-- No process and no thread is left behind, whatever `pingSweep` returns. -/
  joined : ∀ r, s.pc = .returned r → s.running = []
  /-- Without a stop, a sweep that succeeds has reported every host. -/
  complete : s.pc = .returned .alive → s.stopSeen = false → ∀ i < count, i ∈ s.reported

/-- The waiters of a wave fit its array. -/
theorem PingSweep.Sound.length_le {s : PingSweep P} (h : s.Sound) :
    s.running.length ≤ maxPingProcesses := by
  have hplaced := h.placed
  have hzero : s.Joined → s.running.length ≤ maxPingProcesses := by
    intro hjoined
    have hnil : s.running = [] := by
      refine List.filter_eq_nil_iff.mpr fun w hw => ?_
      simp [hjoined w hw]
    rw [hnil]
    exact Nat.zero_le _
  have hwaves : s.InWave → s.running.length ≤ maxPingProcesses := by
    intro hwave
    have hspawned := hwave.spawned
    have hsize := hwave.size
    have hle : s.running.length ≤ s.waiters.length := List.length_filter_le _ _
    omega
  have hnone : s.waiters = [] → s.Joined := by
    intro hnil w hw
    simp [hnil] at hw
  unfold PingSweep.Placed at hplaced
  split at hplaced
  · exact hzero (hnone hplaced.2.1)
  · exact hzero (hnone hplaced.2.2.2.1)
  · exact hzero hplaced.1
  · exact hwaves hplaced.1
  · exact hwaves hplaced.1
  · exact hwaves hplaced.1
  · exact hzero hplaced.1

/--
**`pingSweep` accounts for every host and every process**, for every list of hosts, whether the
system allows ICMP sockets, in whatever order processes end and threads run, with a stop request
at any moment, and when processes or threads cannot be started.
-/
theorem pingSweep_accounts {s : PingSweep P} (h : (pingSweep P).Reachable s) :
    PingAccounts s := by
  have hsound := pingSweep_sound h
  have hbook := hsound.book
  have hplaced := hsound.placed
  refine ⟨⟨hbook.nodup, hbook.lt⟩, ⟨hbook.length, fun i hi => ?_⟩, hsound.length_le, ?_, ?_⟩
  · by_cases hmem : i ∈ told s.pinged
    · obtain ⟨⟨j, a⟩, hp, rfl⟩ := List.mem_map.mp hmem
      rw [hbook.kept _ hp]
      cases a with
      | true => simp [hp]
      | false =>
        -- reported once, and not as alive
        have hnot : (j, true) ∉ s.pinged := by
          intro htrue
          have hsame := hbook.kept _ htrue
          rw [hbook.kept _ hp] at hsame
          cases hsame
        simp [hnot]
    · have hnot : (i, true) ∉ s.pinged := fun htrue => hmem (List.mem_map_of_mem htrue)
      rw [hbook.rest i hi hmem]
      simp [hnot]
  · intro r hr
    simp only [PingSweep.Placed, hr] at hplaced
    refine List.filter_eq_nil_iff.mpr fun w hw => ?_
    simp [hplaced.1 w hw]
  · intro hr hstop
    unfold PingSweep.Placed at hplaced
    rw [hr] at hplaced
    exact hplaced.2 rfl hstop

end Sweeping

/-- Two hosts, no ICMP sockets: the second process ends first, and the first has no thread. -/
theorem pingSweep_accounts_two_hosts :
    let c : SweepConfig :=
      { ips := [(10, 0, 0, 7), (10, 0, 0, 8)]
        timeoutMs := 1000
        maxInFlightArg := 512
        ident := 9
        token := 4
        linux := true
        garbage := fun _ => 0
        count_lt := by decide
        max_lt := by decide }
    ∃ s, (pingSweep (posixPinger c)).Reachable s ∧ s.pinged = [(1, true), (0, false)] ∧
      s.alive = [false, true] ∧ PingAccounts s := by
  intro c
  let go : PingLabel (posixPinger c) := .main {}
  let labels : List (PingLabel (posixPinger c)) := [go, .icmp (.run { opened := 0 }), go, go, go,
    go, go, .main { threaded := false }, .main { threaded := true }, go,
    .waiter 1 (some (.exited 0)), .waiter 1 none, .waiter 0 (some (.exited 1)), .waiter 0 none,
    go, go, go, go]
  have hend : ((pingSweep (posixPinger c)).exec {} labels).map
      (fun s => (s.pinged, s.alive)) = some ([(1, true), (0, false)], [false, true]) := by
    decide +kernel
  obtain ⟨s, hexec, hval⟩ := Option.map_eq_some_iff.mp hend
  obtain ⟨hpinged, halive⟩ := Prod.mk.inj hval
  have hrun : (pingSweep (posixPinger c)).Reachable s := ⟨_, labels, rfl, hexec⟩
  exact ⟨s, hrun, hpinged, halive, pingSweep_accounts hrun⟩

end NetScanner.Hosts
