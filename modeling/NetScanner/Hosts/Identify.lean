import NetScanner.Hosts.Found
import NetScanner.Infra.Handles
import NetScanner.Infra.Lts
import NetScanner.Infra.WorkPool
import NetScanner.Names.Resolver

/-!
# The `identify` phase

`resolveHostnames` of `src/core/scanner.zig`: the names of the hosts found are looked up by up to
16 threads that share a counter (`WorkPool`), or by the main thread when none could be started.
What the network answers to one lookup is in the label of the step that makes it.

The listener is over by then, so the names it heard do not change any more.
-/

namespace NetScanner.Hosts

open Infra Names Net Progress

/-- `NameCache.get`: the name heard for `ip`, cut to the caller's buffer. -/
def cacheGet (names : List (Ip × Bytes)) (ip : Ip) : Option Bytes :=
  (names.lookup ip).map (·.take 256)

/-- Where the main thread is. -/
inductive IdentifyPc where
  /-- About to start thread `k`. -/
  | spawn (k : Nat)
  /-- Waiting for a thread there was no memory to keep. -/
  | orphan (w : Nat)
  /-- About to see whether there is any thread. -/
  | check
  /-- Doing the work itself, as worker `w`. -/
  | alone (w : Nat)
  /-- About to join thread `k`. -/
  | join (k : Nat)
  | returned
deriving DecidableEq, Repr

/-- The phase under way. Thread `k` is worker `k` of the pool. -/
structure Identify where
  pc : IdentifyPc := .spawn 0
  pool : WorkPool
  /-- `threads.items.len` -/
  threads : Nat := 0
  details : List HostDetail
  tracker : Tracker
  uncounted : Nat := 0
  unclaimed : Nat := 0
  printed : List ProgressEvent := []
  /-- The lookups made, in the order they ended, and what each gave. -/
  lookups : List (Nat × Option Bytes) := []

/-- What the phase is called with. -/
structure IdentifySetup where
  output : Output
  /-- What multicast replies gave away, if there was a listener. -/
  names : Option (List (Ip × Bytes))
  details : List HostDetail
  /-- Nothing has a name yet. -/
  unnamed : ∀ d ∈ details, d.hostname = none

/-- What the main thread meets at one step. -/
structure SpawnEnv where
  spawned : Bool := true
  appended : Bool := true

/-- What a worker meets at one step. -/
structure LookupEnv where
  stop : Bool := false
  answers : Answers := ⟨none, none, none⟩
  /-- What the buffers of `hostName` hold at first. -/
  nameBuf : Buffer := Vector.replicate 256 0
  ownerBuf : Buffer := Vector.replicate 256 0

inductive IdentifyLabel where
  | main (env : SpawnEnv)
  | worker (w : Nat) (env : LookupEnv)
  | count
  | claim

namespace Identify

variable (u : IdentifySetup)

def start (tracker : Tracker) : Identify where
  pool := { total := u.details.length }
  details := u.details
  tracker := tracker.startPhase .identify u.details.length

def workerCount : Nat := min u.details.length 16

/-- One lookup. -/
def lookup (ip : Ip) (env : LookupEnv) : Option Bytes :=
  resolveHostName ip (u.names.bind (cacheGet · ip)) env.answers env.nameBuf env.ownerBuf

/-- One step of a worker. -/
def workerStep (w : Nat) (env : LookupEnv) (s : Identify) : Option Identify :=
  match s.pool.workers[w]? with
  | some .head => some { s with pool := s.pool.look w env.stop }
  | some .claim => some { s with pool := s.pool.claim w }
  | some (.work i) =>
    s.details[i]?.map fun detail =>
      let name := lookup u detail.ip env
      { s with
        pool := s.pool.finish w i
        details := s.details.set i { detail with hostname := name }
        uncounted := s.uncounted + 1
        lookups := s.lookups ++ [(i, name)] }
  | some .ended => none
  | none => none

def mainStep (env : SpawnEnv) (s : Identify) : Option Identify :=
  match s.pc with
  | .spawn k =>
    if k < workerCount u then
      if env.spawned then
        if env.appended then
          some { s with pc := .spawn (k + 1), pool := s.pool.join, threads := s.threads + 1 }
        else some { s with pc := .orphan s.pool.workers.length, pool := s.pool.join }
      else some { s with pc := .check }
    else some { s with pc := .check }
  | .orphan w => if s.pool.Gone w then some { s with pc := .check } else none
  | .check =>
    if s.threads = 0 then
      some { s with pc := .alone s.pool.workers.length, pool := s.pool.join }
    else some { s with pc := .join 0 }
  | .alone w => if s.pool.Gone w then some { s with pc := .join 0 } else none
  | .join k =>
    if k < s.threads then
      if s.pool.Gone k then some { s with pc := .join (k + 1) } else none
    else if s.uncounted = 0 ∧ s.unclaimed = 0 then some { s with pc := .returned }
    else none
  | .returned => none

def countStep (s : Identify) : Option Identify :=
  match s.uncounted with
  | 0 => none
  | uncounted + 1 =>
    let (due, tracker) := s.tracker.advance
    some { s with
      tracker := tracker
      uncounted := uncounted
      unclaimed := if due ∧ u.output.events then s.unclaimed + 1 else s.unclaimed }

def claimStep (s : Identify) : Option Identify :=
  match s.unclaimed with
  | 0 => none
  | unclaimed + 1 =>
    let (events, tracker) := claimAndPrint s.tracker
    some { s with
      tracker := tracker
      printed := s.printed ++ events
      unclaimed := unclaimed }

def step (s : Identify) : IdentifyLabel → Option Identify
  | .main env => s.mainStep u env
  | .worker w env => s.workerStep u w env
  | .count => s.countStep u
  | .claim => s.claimStep

end Identify

/-- `resolveHostnames` as a transition system. -/
def resolveHostnames (u : IdentifySetup) : Lts Identify IdentifyLabel where
  init s := ∃ tracker, s = Identify.start u tracker
  step s l := s.step u l

/-! ## The names against the lookups -/

variable {u : IdentifySetup}

/-- The details that the lookups made so far have led to. -/
structure Identify.Named (u : IdentifySetup) (s : Identify) : Prop where
  finished : s.lookups.map Prod.fst = s.pool.finished
  length : s.details.length = u.details.length
  total : s.pool.total = u.details.length
  found : ∀ p ∈ s.lookups, ∃ detail, u.details[p.1]? = some detail ∧
    s.details[p.1]? = some { detail with hostname := p.2 } ∧
    ∃ env, p.2 = Identify.lookup u detail.ip env
  rest : ∀ i, i ∉ s.pool.finished → s.details[i]? = u.details[i]?
  counted : s.tracker.done + s.uncounted = s.lookups.length
  phase : s.tracker.total = u.details.length

/-- Where the main thread is, against the workers it has started. -/
def Identify.Placed (u : IdentifySetup) (s : Identify) : Prop :=
  match s.pc with
  | .spawn k => k ≤ Identify.workerCount u ∧ s.threads = k ∧ s.pool.workers.length = k
  | .orphan w => w < Identify.workerCount u ∧ s.threads = w ∧ s.pool.workers.length = w + 1
  | .check => s.pool.workers.length ≤ Identify.workerCount u ∧
      s.threads ≤ s.pool.workers.length ∧ s.pool.workers.length ≤ s.threads + 1 ∧
      ∀ w, s.threads ≤ w → w < s.pool.workers.length → s.pool.Gone w
  | .alone w => s.threads = 0 ∧ s.pool.workers.length = w + 1 ∧ w < 16 ∧ ∀ v < w, s.pool.Gone v
  | .join k => s.pool.workers ≠ [] ∧ s.pool.workers.length ≤ 16 ∧
      ∀ w < s.pool.workers.length, (w < k ∨ s.threads ≤ w) → s.pool.Gone w
  | .returned => s.pool.workers ≠ [] ∧ s.pool.workers.length ≤ 16 ∧ s.uncounted = 0 ∧
      ∀ w < s.pool.workers.length, s.pool.Gone w

/-- The invariant of the phase. -/
structure Identify.Sound (u : IdentifySetup) (s : Identify) : Prop where
  shared : s.pool.Shared
  named : s.Named u
  placed : s.Placed u

namespace Identify

theorem workerCount_le (u : IdentifySetup) : workerCount u ≤ 16 := Nat.min_le_right _ _

theorem Sound.start (u : IdentifySetup) (tracker : Tracker) :
    (Identify.start u tracker).Sound u where
  shared := WorkPool.Shared.start _
  named := ⟨rfl, rfl, rfl, by simp [Identify.start], fun _ _ => rfl, rfl, rfl⟩
  placed := ⟨Nat.zero_le _, rfl, rfl⟩

/-- A worker moves: nobody who has ended is changed, and nobody comes or goes. -/
theorem Placed.worker {s s' : Identify} (h : s.Placed u) {w : Nat} {old new : WorkerAt}
    (hw : s.pool.workers[w]? = some old) (hold : old ≠ .ended)
    (hworkers : s'.pool.workers = s.pool.workers.set w new) (hpc : s'.pc = s.pc)
    (hthreads : s'.threads = s.threads) : s'.Placed u := by
  have hgone : ∀ v, s.pool.Gone v → s'.pool.Gone v := by
    intro v hv
    unfold WorkPool.Gone at hv ⊢
    rw [hworkers, WorkPool.getElem?_set_worker hw, if_neg]
    · exact hv
    · rintro rfl
      rw [hw] at hv
      exact hold (Option.some.inj hv)
  have hlen : s'.pool.workers.length = s.pool.workers.length := by
    rw [hworkers, List.length_set]
  have hnil : s.pool.workers ≠ [] → s'.pool.workers ≠ [] := by
    intro hne hnil
    rw [hnil] at hlen
    exact hne (List.length_eq_zero_iff.mp hlen.symm)
  unfold Placed at h ⊢
  rw [hpc]
  cases hs : s.pc with
  | spawn k =>
    rw [hs] at h
    simp only [hlen, hthreads]
    exact h
  | orphan v =>
    rw [hs] at h
    simp only [hlen, hthreads]
    exact h
  | check =>
    rw [hs] at h
    simp only [hlen, hthreads]
    exact ⟨h.1, h.2.1, h.2.2.1, fun v hv hlt => hgone v (h.2.2.2 v hv hlt)⟩
  | alone v =>
    rw [hs] at h
    simp only [hlen, hthreads]
    exact ⟨h.1, h.2.1, h.2.2.1, fun j hj => hgone j (h.2.2.2 j hj)⟩
  | join k =>
    rw [hs] at h
    simp only [hlen, hthreads]
    exact ⟨hnil h.1, h.2.1, fun v hv hk => hgone v (h.2.2 v hv hk)⟩
  | returned =>
    -- everyone has ended
    rw [hs] at h
    have hwlt := (List.getElem?_eq_some_iff.mp hw).1
    have hended := h.2.2.2 w hwlt
    unfold WorkPool.Gone at hended
    rw [hw] at hended
    exact absurd (Option.some.inj hended) hold

/-- Only the workers and the main thread matter. -/
theorem Placed.congr {s s' : Identify} (h : s.Placed u) (hpc : s'.pc = s.pc)
    (hpool : s'.pool = s.pool) (hthreads : s'.threads = s.threads)
    (hzero : s.uncounted = 0 → s'.uncounted = 0) : s'.Placed u := by
  unfold Placed at h ⊢
  rw [hpc, hpool, hthreads]
  cases hs : s.pc with
  | returned =>
    rw [hs] at h
    exact ⟨h.1, h.2.1, hzero h.2.2.1, h.2.2.2⟩
  | _ =>
    rw [hs] at h
    exact h

theorem Sound.worker {s s' : Identify} (h : s.Sound u) {w : Nat} {env : LookupEnv}
    (hs : s.workerStep u w env = some s') : s'.Sound u := by
  obtain ⟨hshared, ⟨hfin, hlen, htotal, hfound, hrest, hcount, hphase⟩, hplaced⟩ := h
  unfold workerStep at hs
  split at hs
  · next hw =>
    cases hs
    exact ⟨hshared.look hw _, ⟨hfin, hlen, htotal, hfound, hrest, hcount, hphase⟩,
      hplaced.worker hw (by simp) rfl rfl rfl⟩
  · next hw =>
    cases hs
    exact ⟨hshared.claim hw, ⟨hfin, hlen, htotal, hfound, hrest, hcount, hphase⟩,
      hplaced.worker hw (by simp) rfl rfl rfl⟩
  · next i hw =>
    obtain ⟨detail, hdetail, rfl⟩ := Option.map_eq_some_iff.mp hs
    obtain ⟨_, hi, hnew⟩ := hshared.working w i hw
    have horig : u.details[i]? = some detail := by rw [← hrest i hnew, hdetail]
    have hlt := (List.getElem?_eq_some_iff.mp hdetail).1
    refine ⟨hshared.finish hw, ⟨?_, ?_, htotal, ?_, ?_, ?_, hphase⟩,
      hplaced.worker hw (by simp) rfl rfl rfl⟩
    · show (s.lookups ++ [(i, _)]).map Prod.fst = s.pool.finished ++ [i]
      rw [List.map_append, hfin]
      rfl
    · show (s.details.set i _).length = _
      rw [List.length_set, hlen]
    · intro p hp
      have hp : p ∈ s.lookups ++ [(i, lookup u detail.ip env)] := hp
      rcases List.mem_append.mp hp with hp | hp
      · obtain ⟨d, hd, hd', henv⟩ := hfound p hp
        refine ⟨d, hd, ?_, henv⟩
        have hne : i ≠ p.1 := by
          intro heq
          exact hnew (heq ▸ hfin ▸ List.mem_map_of_mem hp)
        show (s.details.set i _)[p.1]? = _
        rw [List.getElem?_set_ne hne]
        exact hd'
      · rw [List.mem_singleton] at hp
        subst hp
        refine ⟨detail, horig, ?_, env, rfl⟩
        show (s.details.set i _)[i]? = _
        rw [List.getElem?_set_self hlt]
    · intro j hj
      have hj : j ∉ s.pool.finished ++ [i] := hj
      rw [List.mem_append, List.mem_singleton, not_or] at hj
      show (s.details.set i _)[j]? = _
      rw [List.getElem?_set_ne fun e => hj.2 e.symm]
      exact hrest j hj.1
    · show s.tracker.done + (s.uncounted + 1) = (s.lookups ++ [_]).length
      rw [List.length_append, List.length_singleton]
      omega
  · cases hs
  · cases hs

theorem Sound.main {s s' : Identify} (h : s.Sound u) {env : SpawnEnv}
    (hs : s.mainStep u env = some s') : s'.Sound u := by
  obtain ⟨hshared, hnamed, hplaced⟩ := h
  have hsame := hnamed
  obtain ⟨hfin, hlen, htotal, hfound, hrest, hcount, hphase⟩ := hsame
  have hmax := workerCount_le u
  have hjoin : ∀ n, s.pool.workers.length = n → s.pool.join.workers.length = n + 1 := by
    intro n hn
    show (s.pool.workers ++ [WorkerAt.head]).length = n + 1
    rw [List.length_append, List.length_singleton, hn]
  unfold mainStep at hs
  split at hs
  · next k hpc =>
    simp only [Placed, hpc] at hplaced
    obtain ⟨hk, hthreads, hworkers⟩ := hplaced
    have hstop : s.pool.workers.length ≤ workerCount u ∧ s.threads ≤ s.pool.workers.length ∧
        s.pool.workers.length ≤ s.threads + 1 ∧
        ∀ w, s.threads ≤ w → w < s.pool.workers.length → s.pool.Gone w :=
      ⟨by omega, by omega, by omega, fun w h1 h2 => by omega⟩
    split at hs
    · next hlt =>
      split at hs
      · split at hs
        · cases hs
          exact ⟨hshared.join, ⟨hfin, hlen, htotal, hfound, hrest, hcount, hphase⟩, by omega,
            by show s.threads + 1 = k + 1; omega, hjoin k hworkers⟩
        · cases hs
          exact ⟨hshared.join, ⟨hfin, hlen, htotal, hfound, hrest, hcount, hphase⟩, by omega,
            by show s.threads = s.pool.workers.length; omega, hjoin _ rfl⟩
      · cases hs
        exact ⟨hshared, ⟨hfin, hlen, htotal, hfound, hrest, hcount, hphase⟩, hstop⟩
    · cases hs
      exact ⟨hshared, ⟨hfin, hlen, htotal, hfound, hrest, hcount, hphase⟩, hstop⟩
  · next w hpc =>
    simp only [Placed, hpc] at hplaced
    obtain ⟨hw, hthreads, hworkers⟩ := hplaced
    split at hs
    · next hended =>
      cases hs
      refine ⟨hshared, ⟨hfin, hlen, htotal, hfound, hrest, hcount, hphase⟩, ?_, ?_, ?_, ?_⟩
      · show s.pool.workers.length ≤ workerCount u
        omega
      · show s.threads ≤ s.pool.workers.length
        omega
      · show s.pool.workers.length ≤ s.threads + 1
        omega
      · intro v hv hlt
        have hv : s.threads ≤ v := hv
        have hlt : v < s.pool.workers.length := hlt
        have heq : v = w := by omega
        rw [heq]
        exact hended
    · cases hs
  · next hpc =>
    simp only [Placed, hpc] at hplaced
    obtain ⟨hle, hthreads, hone, hgone⟩ := hplaced
    split at hs
    · next hzero =>
      cases hs
      refine ⟨hshared.join, ⟨hfin, hlen, htotal, hfound, hrest, hcount, hphase⟩, hzero,
        hjoin _ rfl, by omega, fun v hv => ?_⟩
      exact (hgone v (by omega) hv).join
    · next hsome =>
      cases hs
      refine ⟨hshared, ⟨hfin, hlen, htotal, hfound, hrest, hcount, hphase⟩, ?_, ?_, ?_⟩
      · intro hnil
        have hnil : s.pool.workers = [] := hnil
        rw [hnil, List.length_nil] at hthreads
        omega
      · show s.pool.workers.length ≤ 16
        omega
      · rintro w hlt (hk | hge)
        · exact absurd hk (Nat.not_lt_zero w)
        · exact hgone w hge hlt
  · next w hpc =>
    simp only [Placed, hpc] at hplaced
    obtain ⟨hthreads, hworkers, hw, hgone⟩ := hplaced
    split at hs
    · next hended =>
      cases hs
      refine ⟨hshared, ⟨hfin, hlen, htotal, hfound, hrest, hcount, hphase⟩, ?_, ?_, ?_⟩
      · intro hnil
        have hnil : s.pool.workers = [] := hnil
        rw [hnil] at hworkers
        cases hworkers
      · show s.pool.workers.length ≤ 16
        omega
      · intro v hlt _
        have hlt : v < s.pool.workers.length := hlt
        rcases Nat.lt_or_eq_of_le (show v ≤ w by omega) with hv | rfl
        · exact hgone v hv
        · exact hended
    · cases hs
  · next k hpc =>
    simp only [Placed, hpc] at hplaced
    obtain ⟨hne, hle, hgone⟩ := hplaced
    split at hs
    · next hlt =>
      split at hs
      · next hended =>
        cases hs
        refine ⟨hshared, ⟨hfin, hlen, htotal, hfound, hrest, hcount, hphase⟩, hne, hle, ?_⟩
        rintro w hw (hk | hge)
        · rcases Nat.lt_or_eq_of_le (Nat.le_of_lt_succ hk) with hk | rfl
          · exact hgone w hw (Or.inl hk)
          · exact hended
        · exact hgone w hw (Or.inr hge)
      · cases hs
    · next hge =>
      split at hs
      · next hcounted =>
        cases hs
        refine ⟨hshared, ⟨hfin, hlen, htotal, hfound, hrest, hcount, hphase⟩, hne, hle,
          hcounted.1, fun w hw => ?_⟩
        exact hgone w hw (by omega)
      · cases hs
  · cases hs

theorem Sound.count {s s' : Identify} (h : s.Sound u) (hs : s.countStep u = some s') :
    s'.Sound u := by
  obtain ⟨hshared, ⟨hfin, hlen, htotal, hfound, hrest, hcount, hphase⟩, hplaced⟩ := h
  unfold countStep at hs
  split at hs
  · cases hs
  · next k hk =>
    cases hs
    refine ⟨hshared, ⟨hfin, hlen, htotal, hfound, hrest, ?_, hphase⟩, ?_⟩
    · show s.tracker.done + 1 + k = s.lookups.length
      omega
    · exact hplaced.congr rfl rfl rfl fun hzero => by omega

theorem Sound.claim {s s' : Identify} (h : s.Sound u) (hs : s.claimStep = some s') :
    s'.Sound u := by
  obtain ⟨hshared, ⟨hfin, hlen, htotal, hfound, hrest, hcount, hphase⟩, hplaced⟩ := h
  unfold claimStep at hs
  split at hs
  · cases hs
  · cases hs
    obtain ⟨claimed, hclaimed⟩ := claimAndPrint_frame s.tracker
    refine ⟨hshared, ⟨hfin, hlen, htotal, hfound, hrest, ?_, ?_⟩,
      hplaced.congr rfl rfl rfl id⟩
    · show (claimAndPrint s.tracker).2.done + s.uncounted = s.lookups.length
      rw [hclaimed]
      exact hcount
    · show (claimAndPrint s.tracker).2.total = u.details.length
      rw [hclaimed]
      exact hphase

end Identify

/-! ## Whole runs -/

/-- **The invariant holds in every reachable state.** -/
theorem resolveHostnames_sound {s : Identify} (h : (resolveHostnames u).Reachable s) :
    s.Sound u := by
  refine h.invariant (I := Identify.Sound u) ?_ ?_
  · rintro s ⟨tracker, rfl⟩
    exact Identify.Sound.start u tracker
  · intro s l s' _ hs hstep
    cases l with
    | main env => exact hs.main hstep
    | worker w env => exact hs.worker hstep
    | count => exact hs.count hstep
    | claim => exact hs.claim hstep

/-- What the phase owes its caller, at any moment. -/
structure Identified (u : IdentifySetup) (s : Identify) : Prop where
  /-- Each host is looked up at most once, -/
  once : (s.lookups.map Prod.fst).Nodup
  /-- and the name it gets is what the lookup of its own address gave; nothing else changes. -/
  own : ∀ i detail, u.details[i]? = some detail →
    s.details[i]? = some { detail with hostname := (s.lookups.lookup i).join } ∧
      ∀ name, (i, name) ∈ s.lookups → ∃ env, name = Identify.lookup u detail.ip env
  length : s.details.length = u.details.length
  /-- Never more than 16 workers, so never more than 16 lookups at once. -/
  workers : s.pool.workers.length ≤ 16
  /-- When the phase is over every thread has been joined and every lookup counted. -/
  joined : s.pc = .returned →
    (∀ w < s.pool.workers.length, s.pool.Gone w) ∧ s.tracker.done = s.lookups.length
  /-- Without a stop it was one lookup for each host. -/
  complete : s.pc = .returned → s.pool.stopSeen = false →
    ∀ i < u.details.length, i ∈ s.lookups.map Prod.fst
  /-- So the threads come to what looking the hosts up one after the other comes to. -/
  agrees : s.pc = .returned → s.pool.stopSeen = false → ∀ hostname : Ip → Option Bytes,
    (∀ i detail name, u.details[i]? = some detail → (i, name) ∈ s.lookups →
      name = hostname detail.ip) →
    s.details = u.details.map fun detail => { detail with hostname := hostname detail.ip }

/--
**The `identify` phase looks every host up once, and gives it its own name**, however its threads
interleave, how many of them could be started, and with a stop request at any moment.
-/
theorem hosts_identified (u : IdentifySetup) {s : Identify}
    (h : (resolveHostnames u).Reachable s) : Identified u s := by
  obtain ⟨hshared, hnamed, hplaced⟩ := resolveHostnames_sound h
  have hnodup : (s.lookups.map Prod.fst).Nodup := by
    rw [hnamed.finished]
    exact hshared.nodup
  have hcomplete : s.pc = .returned → s.pool.stopSeen = false →
      ∀ i < u.details.length, i ∈ s.lookups.map Prod.fst := by
    intro hpc hstop i hi
    simp only [Identify.Placed, hpc] at hplaced
    rw [hnamed.finished]
    exact hshared.complete hplaced.2.2.2 hplaced.1 hstop i (by rw [hnamed.total]; exact hi)
  refine ⟨hnodup, ?_, hnamed.length, ?_, ?_, hcomplete, ?_⟩
  · intro i detail hdetail
    constructor
    · by_cases hi : i ∈ s.lookups.map Prod.fst
      · obtain ⟨p, hp, rfl⟩ := List.mem_map.mp hi
        obtain ⟨d, hd, hd', _⟩ := hnamed.found p hp
        rw [hdetail] at hd
        cases hd
        have hlookup : s.lookups.lookup p.1 = some p.2 := Handles.find_of_mem hnodup hp
        rw [hd', hlookup]
        rfl
      · have hlookup : s.lookups.lookup i = none := by
          rw [List.lookup_eq_none_iff]
          intro p hp
          have hne : i ≠ p.1 := fun heq => hi (heq ▸ List.mem_map_of_mem hp)
          exact bne_iff_ne.mpr hne
        rw [hnamed.rest i (hnamed.finished ▸ hi), hdetail, hlookup, Option.join_none,
          ← u.unnamed detail (List.mem_of_getElem? hdetail)]
    · intro name hname
      obtain ⟨d, hd, _, henv⟩ := hnamed.found _ hname
      rw [hdetail] at hd
      cases hd
      exact henv
  · have hmax := Identify.workerCount_le u
    unfold Identify.Placed at hplaced
    split at hplaced <;> omega
  · intro hpc
    simp only [Identify.Placed, hpc] at hplaced
    have hcounted := hnamed.counted
    exact ⟨hplaced.2.2.2, by omega⟩
  · intro hpc hstop hostname hgiven
    refine List.ext_getElem? fun i => ?_
    rw [List.getElem?_map]
    cases hdetail : u.details[i]? with
    | none =>
      have hge := List.getElem?_eq_none_iff.mp hdetail
      rw [List.getElem?_eq_none_iff.mpr (by rw [hnamed.length]; exact hge)]
      rfl
    | some detail =>
      have hi := (List.getElem?_eq_some_iff.mp hdetail).1
      obtain ⟨p, hp, rfl⟩ := List.mem_map.mp (hcomplete hpc hstop i hi)
      obtain ⟨d, hd, hd', _⟩ := hnamed.found p hp
      rw [hdetail] at hd
      cases hd
      rw [hd', hgiven p.1 detail p.2 hdetail hp]
      rfl

/-- Three hosts and two threads. The second thread looks up two of them, and one thread finds
nothing left to do. -/
theorem hosts_identified_three :
    let u : IdentifySetup :=
      { output :=
          { stream := true
            json := true }
        names := some [((10, 0, 0, 3), ascii "tv.local")]
        details := [{ ip := (10, 0, 0, 1) }, { ip := (10, 0, 0, 2) }, { ip := (10, 0, 0, 3) }]
        unnamed := by simp }
    ∃ s, (resolveHostnames u).Reachable s ∧ s.pc = .returned ∧
      s.details.map HostDetail.hostname = [none, some (ascii "nas"), some (ascii "tv")] ∧
      Identified u s := by
  intro u
  let go : IdentifyLabel := .main {}
  let step (w : Nat) : IdentifyLabel := .worker w {}
  let answer : IdentifyLabel := .worker 1 { answers := ⟨none, none, some (ascii "nas.lan")⟩ }
  let labels : List IdentifyLabel := [go, go, .main { spawned := false }, go,
    step 0, step 0, step 1, step 1, answer, step 1, step 1, step 1, step 0, step 1, step 1,
    step 0, step 0, go, go, .count, .count, .count, .claim, .claim, .claim, go]
  have hend : ((resolveHostnames u).exec (Identify.start u {}) labels).map
      (fun s => (s.pc, s.details.map HostDetail.hostname)) =
        some (.returned, [none, some (ascii "nas"), some (ascii "tv")]) := by
    decide +kernel
  obtain ⟨s, hexec, hval⟩ := Option.map_eq_some_iff.mp hend
  obtain ⟨hpc, hnames⟩ := Prod.mk.inj hval
  have hrun : (resolveHostnames u).Reachable s := ⟨_, labels, ⟨{}, rfl⟩, hexec⟩
  exact ⟨s, hrun, hpc, hnames, hosts_identified u hrun⟩

end NetScanner.Hosts
