import NetScanner.Infra.History
import NetScanner.Icmp.Changes

/-!
# A ping sweep accounts for every host

The invariant of a sweep has three parts, each kept by every kind of `Change`: its cursors
against its hosts (`Cursors`), its hosts against its log (`Logged`), and how it ends
(`Ended`).

A host's state is what the log says about it: waiting until its echo is settled, in flight
after an echo that went out, reported after its one `pinged`.
-/

namespace NetScanner.Icmp

open Infra

variable {c : SweepConfig}

/-! ## Counting the hosts in flight -/

theorem sizeInc_eq {n : Nat} (h : n + 1 < 2 ^ 64) : sizeInc n = n + 1 := Nat.mod_eq_of_lt h

theorem sizeDec_eq {n : Nat} (hpos : 0 < n) (h : n < 2 ^ 64) : sizeDec n = n - 1 := by
  unfold sizeDec
  omega

theorem count_set_inFlight {hosts : List HostState} {i : Nat} {old : HostState}
    (h : hosts[i]? = some old) (new : HostState) :
    (hosts.set i new).count .inFlight + (if old = .inFlight then 1 else 0) =
      hosts.count .inFlight + (if new = .inFlight then 1 else 0) := by
  obtain ⟨hi, hold⟩ := List.getElem?_eq_some_iff.mp h
  have hmem : old = .inFlight → 0 < hosts.count .inFlight := by
    rintro rfl
    exact List.count_pos_iff.mpr (List.mem_of_getElem? h)
  rw [List.count_set hi, hold]
  cases old <;> cases new <;> simp_all

theorem getElem?_set_host {hosts : List HostState} {i : Nat} {old : HostState}
    (h : hosts[i]? = some old) (new : HostState) (j : Nat) :
    (hosts.set i new)[j]? = if j = i then some new else hosts[j]? := by
  obtain ⟨hi, _⟩ := List.getElem?_eq_some_iff.mp h
  by_cases hj : j = i
  · subst hj
    rw [List.getElem?_set_self hi, if_pos rfl]
  · rw [List.getElem?_set_ne (fun e => hj e.symm), if_neg hj]

/-! ## The cursors and the hosts -/

/-- The cursors of a sweep against its hosts. -/
structure Cursors (c : SweepConfig) (k : Core) : Prop where
  length : k.hosts.length = c.count
  oldest_le : k.oldest ≤ k.next
  next_le : k.next ≤ c.count
  below : ∀ i < k.oldest, k.hosts[i]? = some .reported
  above : ∀ i, k.next ≤ i → i < c.count → k.hosts[i]? = some .waiting
  begun : ∀ i < k.next, k.hosts[i]? ≠ some .waiting
  inFlight : k.inFlight = k.hosts.count .inFlight
  bounded : k.inFlight ≤ c.maxInFlight

theorem SweepConfig.maxInFlight_lt (c : SweepConfig) : c.maxInFlight < 2 ^ 64 := by
  have := c.max_lt
  unfold SweepConfig.maxInFlight
  split <;> omega

theorem Cursors.start (c : SweepConfig) (clock : Int) :
    Cursors c (SweepState.init c clock).toCore where
  length := List.length_replicate
  oldest_le := Nat.le_refl 0
  next_le := Nat.zero_le _
  below i h := absurd h (Nat.not_lt_zero i)
  above i _ h := by simp [SweepState.init, h]
  begun i h := absurd h (Nat.not_lt_zero i)
  inFlight := by simp [SweepState.init, List.count_replicate]
  bounded := Nat.zero_le _

/-- A host in flight leaves the count when it is reported. -/
theorem Cursors.settle {k : Core} (h : Cursors c k) {i : Nat} (hin : k.hosts[i]? = some .inFlight) :
    k.oldest ≤ i ∧ i < k.next ∧
      sizeDec k.inFlight = (k.hosts.set i .reported).count .inFlight ∧
      sizeDec k.inFlight ≤ c.maxInFlight := by
  have hcount := count_set_inFlight hin .reported
  simp only [if_true, reduceCtorEq, if_false, Nat.add_zero] at hcount
  have hle := h.bounded
  have heq := h.inFlight
  have hdec := sizeDec_eq (n := k.inFlight) (by omega) (Nat.lt_of_le_of_lt hle c.maxInFlight_lt)
  refine ⟨?_, ?_, by omega, by omega⟩
  · by_contra hlt
    rw [h.below i (by omega)] at hin
    cases hin
  · by_contra hge
    have hi : i < c.count := by
      rw [← h.length]
      exact (List.getElem?_eq_some_iff.mp hin).1
    rw [h.above i (by omega) hi] at hin
    cases hin

/-- One host moves on, and the cursors with it. -/
theorem Cursors.set {k k' : Core} (h : Cursors c k) {i : Nat} {old new : HostState}
    (hold : k.hosts[i]? = some old) (hhosts : k'.hosts = k.hosts.set i new)
    (hnew : new ≠ .waiting) (hle : k'.oldest ≤ k'.next) (hnext : k'.next ≤ c.count)
    (hbelow : ∀ j < k'.oldest, j = i ∧ new = .reported ∨ j ≠ i ∧ j < k.oldest)
    (habove : ∀ j, k'.next ≤ j → j ≠ i ∧ k.next ≤ j)
    (hbegun : ∀ j < k'.next, j = i ∨ j < k.next)
    (hcount : k'.inFlight = (k.hosts.set i new).count .inFlight)
    (hbounded : k'.inFlight ≤ c.maxInFlight) : Cursors c k' := by
  have hget := getElem?_set_host hold new
  refine ⟨?_, hle, hnext, ?_, ?_, ?_, by rw [hhosts]; exact hcount, hbounded⟩
  · rw [hhosts, List.length_set]
    exact h.length
  · intro j hj
    rw [hhosts, hget]
    rcases hbelow j hj with ⟨rfl, rfl⟩ | ⟨hne, hlt⟩
    · rw [if_pos rfl]
    · rw [if_neg hne]
      exact h.below j hlt
  · intro j hge hj
    obtain ⟨hne, hge'⟩ := habove j hge
    rw [hhosts, hget, if_neg hne]
    exact h.above j hge' hj
  · intro j hj
    rw [hhosts, hget]
    split
    · simpa using hnew
    · next hne =>
      rcases hbegun j hj with rfl | hlt
      · exact absurd rfl hne
      · exact h.begun j hlt

theorem Cursors.change {k k' : Core} (h : Cursors c k) (hc : Change c k k') : Cursors c k' := by
  have hle := h.oldest_le
  cases hc with
  | rest => exact h
  | tick ms => exact ⟨h.1, h.2, h.3, h.4, h.5, h.6, h.7, h.8⟩
  | arrive sock d => exact ⟨h.1, h.2, h.3, h.4, h.5, h.6, h.7, h.8⟩
  | stop => exact ⟨h.1, h.2, h.3, h.4, h.5, h.6, h.7, h.8⟩
  | busy => exact ⟨h.1, h.2, h.3, h.4, h.5, h.6, h.7, h.8⟩
  | ignore sock d rest => exact ⟨h.1, h.2, h.3, h.4, h.5, h.6, h.7, h.8⟩
  | drained sock => exact ⟨h.1, h.2, h.3, h.4, h.5, h.6, h.7, h.8⟩
  | quiet n => exact ⟨h.1, h.2, h.3, h.4, h.5, h.6, h.7, h.8⟩
  | skip hlt hin =>
    refine ⟨h.length, hlt, h.next_le, ?_, h.above, h.begun, h.inFlight, h.bounded⟩
    intro i hi
    rcases Nat.lt_or_eq_of_le (Nat.le_of_lt_succ hi) with hi | rfl
    · exact h.below i hi
    · -- begun and not in flight: reported
      have hbegun := h.begun _ hlt
      have hlen : k.oldest < k.hosts.length := by
        rw [h.length]
        exact Nat.lt_of_lt_of_le hlt h.next_le
      rw [List.getElem?_eq_getElem hlen] at hin hbegun ⊢
      cases hs : k.hosts[k.oldest] <;> simp_all
  | expire hlt hin =>
    obtain ⟨_, _, hcount, hmax⟩ := h.settle hin
    refine h.set hin rfl (by simp) hlt h.next_le ?_ ?_ ?_ hcount hmax
    · intro j (hj : j < k.oldest + 1)
      rcases Nat.lt_or_eq_of_le (Nat.le_of_lt_succ hj) with hj | rfl
      · exact Or.inr ⟨by omega, hj⟩
      · exact Or.inl ⟨rfl, rfl⟩
    · intro j (hj : k.next ≤ j)
      exact ⟨by omega, hj⟩
    · intro j hj
      exact Or.inr hj
  | sent hstop hnext hmax =>
    have hwait := h.above k.next (Nat.le_refl _) hnext
    have hcount := count_set_inFlight hwait .inFlight
    simp only [if_true, reduceCtorEq, if_false, Nat.add_zero] at hcount
    have hinc := sizeInc_eq (n := k.inFlight) (Nat.lt_of_le_of_lt hmax c.maxInFlight_lt)
    have hin := h.inFlight
    refine h.set hwait rfl (by simp) (Nat.le_succ_of_le hle) hnext ?_ ?_ ?_ ?_ ?_
    · intro j (hj : j < k.oldest)
      exact Or.inr ⟨by omega, hj⟩
    · intro j (hj : k.next + 1 ≤ j)
      exact ⟨by omega, by omega⟩
    · intro j (hj : j < k.next + 1)
      omega
    · show sizeInc k.inFlight = _
      omega
    · show sizeInc k.inFlight ≤ _
      omega
  | unsent o ho hstop hnext =>
    have hwait := h.above k.next (Nat.le_refl _) hnext
    have hcount := count_set_inFlight hwait .reported
    simp only [reduceCtorEq, if_false, Nat.add_zero] at hcount
    refine h.set hwait rfl (by simp) (Nat.le_succ_of_le hle) hnext ?_ ?_ ?_ ?_ h.bounded
    · intro j (hj : j < k.oldest)
      exact Or.inr ⟨by omega, hj⟩
    · intro j (hj : k.next + 1 ≤ j)
      exact ⟨by omega, by omega⟩
    · intro j (hj : j < k.next + 1)
      omega
    · show k.inFlight = _
      rw [hcount]
      exact h.inFlight
  | answer sock d rest i hqueue hmatch hin =>
    obtain ⟨hge, hlt, hcount, hmax⟩ := h.settle hin
    refine h.set hin rfl (by simp) hle h.next_le ?_ ?_ ?_ hcount hmax
    · intro j (hj : j < k.oldest)
      exact Or.inr ⟨by omega, hj⟩
    · intro j (hj : k.next ≤ j)
      exact ⟨by omega, hj⟩
    · intro j hj
      exact Or.inr hj

/-! ## What the log says about a host -/

/-- An echo to the host went out. -/
def Echoed (i : Nat) (log : List (Int × SweepEvent)) : Prop := ∃ t, (t, .echo i .ok) ∈ log

/-- The host was reported. -/
def Pinged (i : Nat) (log : List (Int × SweepEvent)) : Prop := ∃ t r, (t, .pinged i r) ∈ log

def isPing (i : Nat) : SweepEvent → Bool
  | .pinged j _ => j = i
  | _ => false

/-- How often the host was reported. -/
def pings (i : Nat) (log : List (Int × SweepEvent)) : Nat := log.countP fun e => isPing i e.2

theorem pings_append (i : Nat) (as bs : List (Int × SweepEvent)) :
    pings i (as ++ bs) = pings i as + pings i bs := List.countP_append

theorem pinged_iff {i : Nat} {log : List (Int × SweepEvent)} : Pinged i log ↔ 0 < pings i log := by
  rw [pings, List.countP_pos_iff]
  constructor
  · rintro ⟨t, r, hmem⟩
    exact ⟨_, hmem, by simp [isPing]⟩
  · rintro ⟨⟨t, e⟩, hmem, hping⟩
    cases e with
    | pinged j r =>
      simp only [isPing, decide_eq_true_eq] at hping
      subst hping
      exact ⟨t, r, hmem⟩
    | _ => simp [isPing] at hping

/-- Events that are about no host. -/
def SweepEvent.noise : SweepEvent → Bool
  | .arrived _ _ => true
  | .received _ _ => true
  | .empty _ => true
  | _ => false

/-- No echo goes out once a stop request was seen. -/
def NoEchoAfterStop (before : List (Int × SweepEvent)) (e : Int × SweepEvent) : Prop :=
  ∀ i o, e.2 = .echo i o → ∀ t, (t, .stopSeen) ∉ before

/-- A host is reported answered right after a datagram that answers its echo, which was read
while the host was in flight. -/
def AnsweredByReply (c : SweepConfig) (before : List (Int × SweepEvent)) (e : Int × SweepEvent) :
    Prop :=
  ∀ i, e.2 = .pinged i true → ∃ earlier t sock d, before = earlier ++ [(t, .received sock d)] ∧
    matchReply c d = some i ∧ Echoed i earlier ∧ ¬Pinged i earlier

/-- The log of a sweep against its hosts. -/
structure Logged (c : SweepConfig) (k : Core) : Prop where
  pinged : ∀ i, pings i k.log = if k.hosts[i]? = some .reported then 1 else 0
  echoed : ∀ i, k.hosts[i]? = some .inFlight → Echoed i k.log
  settled : ∀ i, Echoed i k.log → k.hosts[i]? = some .inFlight ∨ k.hosts[i]? = some .reported
  unstopped : k.stopped = false → ∀ t, (t, .stopSeen) ∉ k.log
  quiet : Each NoEchoAfterStop k.log
  answered : Each (AnsweredByReply c) k.log

/-- A host is in flight exactly from its echo to its report. -/
theorem Logged.inFlight_iff {k : Core} (h : Logged c k) (i : Nat) :
    k.hosts[i]? = some .inFlight ↔ Echoed i k.log ∧ ¬Pinged i k.log := by
  rw [pinged_iff, h.pinged]
  constructor
  · intro hin
    exact ⟨h.echoed i hin, by simp [hin]⟩
  · rintro ⟨he, hp⟩
    rcases h.settled i he with hin | hrep
    · exact hin
    · simp [hrep] at hp

theorem Logged.start (c : SweepConfig) (clock : Int) :
    Logged c (SweepState.init c clock).toCore where
  pinged i := by
    rw [if_neg]
    · rfl
    · intro hrep
      simpa [SweepState.init] using List.mem_of_getElem? hrep
  echoed i hin := by simpa [SweepState.init] using List.mem_of_getElem? hin
  settled i he := by
    obtain ⟨t, hmem⟩ := he
    simp [SweepState.init] at hmem
  unstopped _ t hmem := by simp [SweepState.init] at hmem
  quiet := each_nil _
  answered := each_nil _

/-- Events about no host leave everything as it was. -/
theorem Logged.noise {k k' : Core} (h : Logged c k) (events : List SweepEvent)
    (hnoise : ∀ e ∈ events, e.noise = true)
    (hlog : k'.log = k.log ++ events.map fun e => (k.clock, e)) (hhosts : k'.hosts = k.hosts)
    (hstopped : k'.stopped = k.stopped) : Logged c k' := by
  have hnot : ∀ t e, e.noise = false → (t, e) ∉ events.map fun e => (k.clock, e) := by
    intro t e he hmem
    obtain ⟨e', he', heq⟩ := List.mem_map.mp hmem
    cases heq
    rw [hnoise e he'] at he
    cases he
  have hpings : ∀ i, pings i (events.map fun e => (k.clock, e)) = 0 := by
    intro i
    refine Nat.eq_zero_of_not_pos fun hpos => ?_
    obtain ⟨t, r, hmem⟩ := pinged_iff.mpr hpos
    exact hnot t _ rfl hmem
  have hechoed : ∀ i, Echoed i k'.log ↔ Echoed i k.log := by
    intro i
    rw [hlog]
    constructor
    · rintro ⟨t, hmem⟩
      rcases List.mem_append.mp hmem with hmem | hmem
      · exact ⟨t, hmem⟩
      · exact absurd hmem (hnot t _ rfl)
    · rintro ⟨t, hmem⟩
      exact ⟨t, List.mem_append_left _ hmem⟩
  refine ⟨?_, ?_, ?_, ?_, ?_, ?_⟩
  · intro i
    rw [hlog, pings_append, hpings, hhosts]
    exact h.pinged i
  · intro i hin
    rw [hhosts] at hin
    exact (hechoed i).mpr (h.echoed i hin)
  · intro i he
    rw [hhosts]
    exact h.settled i ((hechoed i).mp he)
  · intro hs t hmem
    rw [hlog] at hmem
    rcases List.mem_append.mp hmem with hmem | hmem
    · exact h.unstopped (by rw [← hstopped]; exact hs) t hmem
    · exact hnot t _ rfl hmem
  · rw [hlog, each_append_iff]
    refine ⟨h.quiet, ?_⟩
    rintro before ⟨t, e⟩ hpre i o rfl
    exact absurd (hpre.subset (by simp)) (hnot t (.echo i o) rfl)
  · rw [hlog, each_append_iff]
    refine ⟨h.answered, ?_⟩
    rintro before ⟨t, e⟩ hpre i rfl
    exact absurd (hpre.subset (by simp)) (hnot t (.pinged i true) rfl)

/-- A host that was not reported yet is. -/
theorem Logged.ping {k k' : Core} (h : Logged c k) {i : Nat} {old : HostState} {t : Int} {r : Bool}
    (hold : k.hosts[i]? = some old) (hne : old ≠ .reported)
    (hlog : k'.log = k.log ++ [(t, .pinged i r)]) (hhosts : k'.hosts = k.hosts.set i .reported)
    (hstopped : k'.stopped = k.stopped)
    (hreply : AnsweredByReply c k.log (t, .pinged i r)) : Logged c k' := by
  have hget := getElem?_set_host hold .reported
  have hechoed : ∀ j, Echoed j k'.log ↔ Echoed j k.log := by
    intro j
    simp [Echoed, hlog]
  have hone : ∀ j, pings j [(t, SweepEvent.pinged i r)] = if j = i then 1 else 0 := by
    intro j
    by_cases hj : j = i
    · simp [pings, isPing, hj]
    · have hij : ¬i = j := fun e => hj e.symm
      simp [pings, isPing, hj, hij]
  refine ⟨?_, ?_, ?_, ?_, ?_, ?_⟩
  · intro j
    rw [hlog, pings_append, hone, h.pinged, hhosts, hget]
    by_cases hj : j = i
    · subst hj
      simp [hold, hne]
    · simp [hj]
  · intro j hin
    rw [hhosts, hget] at hin
    split at hin
    · simp at hin
    · exact (hechoed j).mpr (h.echoed j hin)
  · intro j he
    rw [hhosts, hget]
    split
    · exact Or.inr rfl
    · exact h.settled j ((hechoed j).mp he)
  · intro hs t' hmem
    rw [hlog] at hmem
    exact h.unstopped (by rw [← hstopped]; exact hs) t' (by simpa using hmem)
  · rw [hlog, each_concat_iff]
    refine ⟨h.quiet, ?_⟩
    rintro j o heq
    cases heq
  · rw [hlog, each_concat_iff]
    exact ⟨h.answered, hreply⟩

/-- An echo is handed to the sockets; the host is in flight if it went out. -/
theorem Logged.echo {k k' : Core} (h : Logged c k) {i : Nat} {t : Int} {o : SendOutcome}
    (hwait : k.hosts[i]? = some .waiting) (hstop : k.stopped = false)
    (hlog : k'.log = k.log ++ [(t, .echo i o)])
    (hhosts : k'.hosts = if o = .ok then k.hosts.set i .inFlight else k.hosts) :
    Logged c k' := by
  have hget := getElem?_set_host hwait .inFlight
  have hpings : ∀ j, pings j k'.log = pings j k.log := by
    intro j
    rw [hlog, pings_append]
    rfl
  have hechoed : ∀ j, Echoed j k'.log ↔ Echoed j k.log ∨ j = i ∧ o = .ok := by
    intro j
    simp only [Echoed, hlog, List.mem_append, List.mem_singleton, Prod.mk.injEq,
      SweepEvent.echo.injEq, exists_or]
    constructor
    · rintro (he | ⟨_, _, rfl, rfl⟩)
      · exact Or.inl he
      · exact Or.inr ⟨rfl, rfl⟩
    · rintro (he | ⟨rfl, rfl⟩)
      · exact Or.inl he
      · exact Or.inr ⟨t, rfl, rfl, rfl⟩
  have hcase : ∀ j, k'.hosts[j]? = if j = i ∧ o = .ok then some .inFlight else k.hosts[j]? := by
    intro j
    rw [hhosts]
    by_cases ho : o = .ok
    · rw [if_pos ho, hget]
      simp [ho]
    · rw [if_neg ho, if_neg (fun hc => ho hc.2)]
  refine ⟨?_, ?_, ?_, ?_, ?_, ?_⟩
  · intro j
    rw [hpings, h.pinged, hcase]
    by_cases hj : j = i ∧ o = .ok
    · rw [if_pos hj, hj.1, hwait]
      simp
    · rw [if_neg hj]
  · intro j hin
    rw [hcase] at hin
    split at hin
    · next hj => exact (hechoed j).mpr (Or.inr hj)
    · exact (hechoed j).mpr (Or.inl (h.echoed j hin))
  · intro j he
    rw [hcase]
    split
    · exact Or.inl rfl
    · next hj =>
      rcases (hechoed j).mp he with he | hj'
      · exact h.settled j he
      · exact absurd hj' hj
  · intro _ t' hmem
    rw [hlog] at hmem
    exact h.unstopped hstop t' (by simpa using hmem)
  · rw [hlog, each_concat_iff]
    exact ⟨h.quiet, fun _ _ _ => h.unstopped hstop⟩
  · rw [hlog, each_concat_iff]
    refine ⟨h.answered, ?_⟩
    intro j heq
    cases heq

theorem Logged.change {k k' : Core} (hcur : Cursors c k) (h : Logged c k) (hc : Change c k k') :
    Logged c k' := by
  cases hc with
  | rest => exact h
  | tick ms => exact ⟨h.1, h.2, h.3, h.4, h.5, h.6⟩
  | skip _ _ => exact ⟨h.1, h.2, h.3, h.4, h.5, h.6⟩
  | arrive sock d => exact h.noise [.arrived sock d] (by simp [SweepEvent.noise]) rfl rfl rfl
  | drained sock _ => exact h.noise [.empty sock] (by simp [SweepEvent.noise]) rfl rfl rfl
  | quiet n _ => exact h.noise _ (by simp [SweepEvent.noise]) rfl rfl rfl
  | ignore sock d rest _ _ =>
    exact h.noise [.received sock d] (by simp [SweepEvent.noise]) rfl rfl rfl
  | expire hlt hin =>
    exact h.ping hin (by simp) rfl rfl rfl (by intro j heq; cases heq)
  | stop hstop =>
    have hpings : ∀ i, pings i (k.log ++ [(k.clock, .stopSeen)]) = pings i k.log := by
      intro i
      rw [pings_append]
      rfl
    refine ⟨fun i => (hpings i).trans (h.pinged i), ?_, ?_, ?_, ?_, ?_⟩
    · intro i hin
      obtain ⟨t, hmem⟩ := h.echoed i hin
      exact ⟨t, List.mem_append_left _ hmem⟩
    · rintro i ⟨t, hmem⟩
      exact h.settled i ⟨t, by simpa [Core.note] using hmem⟩
    · intro hs
      cases hs
    · refine each_concat_iff.mpr ⟨h.quiet, ?_⟩
      intro i o heq
      cases heq
    · refine each_concat_iff.mpr ⟨h.answered, ?_⟩
      intro i heq
      cases heq
  | busy hstop hnext =>
    exact h.echo (hcur.above _ (Nat.le_refl _) hnext) hstop rfl rfl
  | sent hstop hnext hmax =>
    exact h.echo (hcur.above _ (Nat.le_refl _) hnext) hstop rfl rfl
  | unsent o ho hstop hnext =>
    have hwait := hcur.above _ (Nat.le_refl _) hnext
    have hecho : Logged c (k.note [.echo k.next o]) :=
      h.echo hwait hstop rfl (by rw [if_neg ho]; rfl)
    exact hecho.ping hwait (by simp) rfl rfl rfl (by intro j heq; cases heq)
  | answer sock d rest i hqueue hmatch hin =>
    have hreceived : Logged c { k.note [.received sock d] with
        queues := Function.update k.queues sock rest } :=
      h.noise [.received sock d] (by simp [SweepEvent.noise]) rfl rfl rfl
    refine hreceived.ping hin (by simp) rfl rfl rfl ?_
    intro j heq
    cases heq
    obtain ⟨he, hp⟩ := (h.inFlight_iff i).mp hin
    exact ⟨k.log, k.clock, sock, d, rfl, hmatch, he, hp⟩

/-! ## Whole runs -/

/-- A sweep that is over has nothing in flight, and got to every host or was stopped. -/
def Ended (c : SweepConfig) (s : SweepState) : Prop :=
  s.pc = .returned .done → s.inFlight = 0 ∧ (s.stopped = true ∨ s.next = c.count)

theorem Ended.run {env : SweepEnv} {s s' : SweepState} (hcur : Cursors c s.toCore)
    (h : s.run c env = some s') : Ended c s' := by
  intro hdone
  have hleads := (run_moves h).leads
  rw [hdone] at hleads
  rcases Pc.leadsTo_returned hleads with hpc | hpc
  · simp only [SweepState.run, hpc, Option.some.injEq] at h
    subst h
    unfold SweepState.begin at hdone ⊢
    split at hdone
    · next hcount =>
      rw [if_pos hcount]
      have hnext := hcur.next_le
      have hlen := hcur.length
      rw [hcount] at hnext hlen
      refine ⟨?_, Or.inr (by show s.next = _; omega)⟩
      show s.inFlight = 0
      rw [hcur.inFlight, List.length_eq_zero_iff.mp hlen]
      rfl
    · simp only [] at hdone
      split at hdone
      · simp at hdone
      · split at hdone
        · simp at hdone
        · simp at hdone
  · simp only [SweepState.run, hpc, Option.some.injEq] at h
    subst h
    unfold SweepState.endCheck at hdone ⊢
    split at hdone
    · next hend =>
      rw [if_pos hend]
      exact hend
    · simp at hdone

/-- The invariant of a sweep. -/
structure Sound (c : SweepConfig) (s : SweepState) : Prop where
  cursors : Cursors c s.toCore
  logged : Logged c s.toCore
  ended : Ended c s

/-- **The invariant holds in every reachable state.** -/
theorem sweep_sound {s : SweepState} (h : (sweep c).Reachable s) : Sound c s := by
  refine h.invariant ?_ ?_
  · rintro s ⟨clock, rfl⟩
    exact ⟨Cursors.start c clock, Logged.start c clock, by simp [Ended, SweepState.init]⟩
  · rintro s l s' _ ⟨hcur, hlog, hended⟩ hs
    have hchange := step_change hs
    refine ⟨hcur.change hchange, hlog.change hcur hchange, ?_⟩
    cases l with
    | tick ms =>
      cases hs
      exact hended
    | arrive k d =>
      simp only [sweep, SweepState.step] at hs
      split at hs
      · cases hs
        exact hended
      · simp at hs
    | run env => exact Ended.run hcur hs

/-- What a sweep owes its observer, at any moment. -/
structure Accounts (c : SweepConfig) (s : SweepState) : Prop where
  /-- `pinged` is called at most once per host, and for the hosts asked for only. -/
  once : ∀ i, pings i s.log ≤ 1 ∧ (c.count ≤ i → pings i s.log = 0)
  /-- A sweep that ends without a stop has called it for each. -/
  complete : s.pc = .returned .done → s.stopped = false → ∀ i < c.count, pings i s.log = 1
  below : ∀ i < s.oldest, s.hosts[i]? = some .reported
  above : ∀ i, s.next ≤ i → i < c.count → s.hosts[i]? = some .waiting
  inFlight : s.inFlight = s.hosts.count .inFlight
  bounded : s.inFlight ≤ c.maxInFlight
  /-- Once a stop request was seen, no echo goes out. -/
  quiet : Each NoEchoAfterStop s.log
  /-- The sweep ends only with nothing in flight. -/
  ends : s.pc = .returned .done → s.hosts.count .inFlight = 0
  answered : Each (AnsweredByReply c) s.log

/--
**A ping sweep accounts for every host**, for every list of hosts, every limit and timeout,
every clock, every outcome of its sends, every datagram that comes in and every moment of a
stop request.
-/
theorem sweep_accounts (c : SweepConfig) {s : SweepState} (h : (sweep c).Reachable s) :
    Accounts c s := by
  obtain ⟨hcur, hlog, hended⟩ := sweep_sound h
  refine ⟨?_, ?_, hcur.below, hcur.above, hcur.inFlight, hcur.bounded, hlog.quiet, ?_,
    hlog.answered⟩
  · intro i
    rw [hlog.pinged]
    constructor
    · split <;> omega
    · intro hi
      have hnone : s.hosts[i]? = none := by
        rw [List.getElem?_eq_none_iff, hcur.length]
        exact hi
      simp [hnone]
  · intro hdone hstop i hi
    obtain ⟨hzero, hall⟩ := hended hdone
    have hnext : s.next = c.count := by
      rcases hall with hs | hn
      · rw [hstop] at hs
        cases hs
      · exact hn
    -- begun, and none is in flight
    have hbegun := hcur.begun i (by rw [hnext]; exact hi)
    have hlen : i < s.hosts.length := by
      rw [hcur.length]
      exact hi
    have hnone : s.hosts[i] ≠ .inFlight := by
      intro heq
      have hpos : 0 < s.hosts.count .inFlight :=
        List.count_pos_iff.mpr (heq ▸ List.getElem_mem hlen)
      rw [← hcur.inFlight] at hpos
      omega
    rw [hlog.pinged, List.getElem?_eq_getElem hlen]
    rw [List.getElem?_eq_getElem hlen] at hbegun
    cases hs : s.hosts[i] with
    | waiting => simp [hs] at hbegun
    | inFlight => exact absurd hs hnone
    | reported => rfl
  · intro hdone
    rw [← hcur.inFlight]
    exact (hended hdone).1

/-- A sweep of two hosts. The echo to the first cannot be sent; the second answers after 3 ms. -/
theorem sweep_accounts_failed_send :
    let c : SweepConfig :=
      { ips := [(10, 0, 0, 1), (10, 0, 0, 2)]
        timeoutMs := 1000
        maxInFlightArg := 64
        ident := 7
        token := 5
        linux := true
        garbage := fun _ => 0
        count_lt := by decide
        max_lt := by decide }
    ∃ s, (sweep c).Reachable s ∧ s.pc = .returned .done ∧ s.hosts = [.reported, .reported] ∧
      (0, .pinged 0 false) ∈ s.log ∧ (3, .pinged 1 true) ∈ s.log ∧ pings 0 s.log = 1 ∧
      pings 1 s.log = 1 ∧ Accounts c s := by
  intro c
  let reply : Datagram :=
    { bytes := [0, 0, 0, 0, 0, 0, 0, 0, 5, 0, 0, 0, 1, 0, 0, 0] ++ List.replicate 24 0
      sender := (10, 0, 0, 2) }
  let go : SweepLabel := .run {}
  let labels : List SweepLabel := [go, go, go, go, .run { sends := fun _ => .failed }, go, go, go,
    .tick 3, .arrive 1 reply, .run { polled := .ready }, go, .run { received := .datagram },
    go, go, go, go, go, go, go, go, go]
  have hend : ((sweep c).exec (SweepState.init c 0) labels).map
      (fun s => (decide (s.pc matches .returned .done), s.hosts, s.log)) =
        some (true, [.reported, .reported],
          [(0, .echo 0 .failed), (0, .pinged 0 false), (0, .echo 1 .ok), (3, .arrived 1 reply),
            (3, .received 1 reply), (3, .pinged 1 true), (3, .empty 1)]) := by
    decide +kernel
  obtain ⟨s, hexec, hval⟩ := Option.map_eq_some_iff.mp hend
  obtain ⟨hdone, hval⟩ := Prod.mk.inj hval
  obtain ⟨hhosts, hlog⟩ := Prod.mk.inj hval
  have hpc : s.pc = .returned .done := by
    revert hdone
    split <;> simp_all
  have hrun : (sweep c).Reachable s := ⟨_, labels, ⟨0, rfl⟩, hexec⟩
  exact ⟨s, hrun, hpc, hhosts, by simp [hlog], by simp [hlog], by rw [hlog]; rfl,
    by rw [hlog]; rfl, sweep_accounts c hrun⟩

end NetScanner.Icmp
