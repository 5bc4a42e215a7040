import NetScanner.Ports.Steps
import NetScanner.Connects.Once
import Mathlib.Tactic.Abel

/-!
# The passes of a port scan are exact

Every pass is one `Serving` of the scan as a source: verdicts come in any order, each for a
probe that is out. For each pass an invariant says what the cursors have handed out and
where the verdicts went.

* `FirstInv`: what was handed out and what is left make up the range.
* `RetryInv`: the retries behind `nextRetry` are as the first pass left them, and the front
  of the list holds the ports silent twice. Every port there was handed out before, so the
  front never reaches `nextRetry` while a probe is out.
* `ThirdInv`: the front of the list is only read.
-/

namespace NetScanner.Ports

open Connects Net

/-! ## What a list of calls says about ports -/

/-- The ports that probes are for. -/
def ports (jobs : List PortProbe) : List Nat := jobs.map fun p => p.target.port

/-- The port a call reported with verdict `o`. -/
def portReportedAs? (o : Outcome) : Call PortProbe → Option Nat
  | .next _ => none
  | .done p o' _ => if o' = o then some p.target.port else none

/-- The ports reported with verdict `o`, in order. -/
def reportedAs (o : Outcome) (calls : List (Call PortProbe)) : List Nat :=
  calls.filterMap (portReportedAs? o)

@[simp] theorem ports_nil : ports [] = [] := rfl

@[simp] theorem ports_append (as bs : List PortProbe) : ports (as ++ bs) = ports as ++ ports bs :=
  List.map_append

@[simp] theorem ports_singleton (p : PortProbe) : ports [p] = [p.target.port] := rfl

@[simp] theorem reportedAs_nil (o : Outcome) : reportedAs o [] = [] := rfl

@[simp] theorem reportedAs_append (o : Outcome) (as bs : List (Call PortProbe)) :
    reportedAs o (as ++ bs) = reportedAs o as ++ reportedAs o bs := List.filterMap_append

@[simp] theorem reportedAs_next (o : Outcome) (job : Option PortProbe) :
    reportedAs o [.next job] = [] := rfl

theorem reportedAs_done (o o' : Outcome) (p : PortProbe) (e : Nat) :
    reportedAs o [.done p o' e] = if o' = o then [p.target.port] else [] := by
  unfold reportedAs portReportedAs?
  by_cases h : o' = o
  · simp [h]
  · simp [h]

/-- Every reported port was reported with one verdict or another. -/
theorem reportedAs_perm (calls : List (Call PortProbe)) :
    (ports (reported calls)).Perm
      (reportedAs .open calls ++ (reportedAs .refused calls ++ reportedAs .filtered calls)) := by
  induction calls using List.reverseRecOn with
  | nil => exact List.Perm.refl _
  | append_singleton calls c ih =>
    cases c with
    | next job => simpa using ih
    | done p o e =>
      simp only [reported_append, reported_done, ports_append, ports_singleton, reportedAs_append,
        reportedAs_done]
      refine (ih.append_right _).trans ?_
      rw [← Multiset.coe_eq_coe]
      cases o
      all_goals
        simp only [reduceCtorEq, if_true, if_false, List.append_nil, ← Multiset.coe_add]
        abel

/-- With no port reported twice, a port reported open was not reported unanswered. -/
theorem reportedAs_disjoint {calls : List (Call PortProbe)}
    (h : (ports (reported calls)).Nodup) :
    (reportedAs .open calls).Nodup ∧ (reportedAs .filtered calls).Nodup ∧
      List.Disjoint (reportedAs .open calls) (reportedAs .filtered calls) := by
  rw [(reportedAs_perm calls).nodup_iff, List.nodup_append', List.nodup_append'] at h
  obtain ⟨hopen, ⟨_, hfiltered, _⟩, hdisjoint⟩ := h
  exact ⟨hopen, hfiltered, (List.disjoint_append_right.mp hdisjoint).2⟩

/-! ## The open ports recorded -/

/-- The open ports that found memory, the first of them asking for the `k`-th time. -/
def recorded (memory : Nat → Bool) : Nat → List Nat → List Nat
  | _, [] => []
  | k, port :: rest =>
    if memory k then port :: recorded memory (k + 1) rest else recorded memory (k + 1) rest

/-- Memory is asked for one port after the other. -/
theorem recorded_append (memory : Nat → Bool) (k : Nat) (as bs : List Nat) :
    recorded memory k (as ++ bs) = recorded memory k as ++ recorded memory (k + as.length) bs := by
  induction as generalizing k with
  | nil => rfl
  | cons a as ih =>
    have hk : k + (a :: as).length = k + 1 + as.length := by
      rw [List.length_cons]
      omega
    rw [List.cons_append, recorded, recorded, ih, hk]
    split <;> rfl

theorem recorded_sublist (memory : Nat → Bool) (k : Nat) (as : List Nat) :
    (recorded memory k as).Sublist as := by
  induction as generalizing k with
  | nil => exact List.Sublist.refl _
  | cons a as ih =>
    rw [recorded]
    split
    · exact (ih (k + 1)).cons_cons a
    · exact (ih (k + 1)).cons a

/-- As long as there is memory, none is left out. -/
theorem recorded_of_memory {memory : Nat → Bool} (h : ∀ k, memory k = true) (k : Nat)
    (as : List Nat) : recorded memory k as = as := by
  induction as generalizing k with
  | nil => rfl
  | cons a as ih => rw [recorded, if_pos (h k), ih]

/-- The open ports of a pass are those recorded before it and those it reported open. -/
structure Opened (s₀ : PortScan) (calls : List (Call PortProbe)) (s : PortScan) : Prop where
  run : s.run = s₀.run
  appends : s.appends = s₀.appends + (reportedAs .open calls).length
  openPorts : s.openPorts =
    s₀.openPorts ++ recorded s₀.run.memory s₀.appends (reportedAs .open calls)

theorem Opened.start (s₀ : PortScan) : Opened s₀ [] s₀ :=
  ⟨rfl, rfl, (List.append_nil _).symm⟩

theorem Opened.next {s₀ s s' : PortScan} {calls : List (Call PortProbe)} (h : Opened s₀ calls s)
    (job : Option PortProbe) (hrun : s'.run = s.run) (happends : s'.appends = s.appends)
    (hopen : s'.openPorts = s.openPorts) : Opened s₀ (calls ++ [.next job]) s' where
  run := hrun.trans h.run
  appends := by simpa using happends.trans h.appends
  openPorts := by simpa using hopen.trans h.openPorts

/-- A verdict adds its port if it is open, and asks for memory just then. -/
theorem Opened.done {s₀ s s' : PortScan} {calls : List (Call PortProbe)} (h : Opened s₀ calls s)
    (p : PortProbe) (o : Outcome) (e : Nat) (hrun : s'.run = s.run)
    (happends : s'.appends = if o = .open then s.appends + 1 else s.appends)
    (hopen : s'.openPorts = s.opened p.target.port o) :
    Opened s₀ (calls ++ [.done p o e]) s' := by
  refine ⟨hrun.trans h.run, ?_, ?_⟩
  · rw [happends, h.appends, reportedAs_append, reportedAs_done]
    split
    · rw [List.length_append, List.length_singleton, Nat.add_assoc]
    · rw [List.append_nil]
  · rw [hopen, PortScan.opened, h.openPorts, h.run, h.appends, reportedAs_append, reportedAs_done,
      recorded_append]
    by_cases ho : o = .open
    · rw [if_pos ho]
      by_cases hm : s₀.run.memory (s₀.appends + (reportedAs .open calls).length) = true
      · rw [if_pos ⟨ho, hm⟩, recorded, if_pos hm, List.append_assoc]
        rfl
      · rw [if_neg (fun hc => hm hc.2), recorded, if_neg hm]
        simp [recorded]
    · rw [if_neg (fun hc => ho hc.1), if_neg ho, recorded, List.append_nil]

/-! ## The first pass -/

section First

variable {t : PortTable} {run : Run} {ip : Ip} {lo hi : Nat} {timeoutMs : Option Nat}
  {tracker : Progress.Tracker}

/-- The invariant of the first pass of a scan that starts in `s₀`. -/
structure FirstInv (t : PortTable) (s₀ : PortScan) (calls : List (Call PortProbe))
    (s : PortScan) (out : Multiset PortProbe) : Prop where
  pass : s.pass = .first
  options : s.fixedMs = s₀.fixedMs
  opened : Opened s₀ calls s
  /-- What was handed out, then what is left, is what there was. -/
  left : ports (handed calls) ++ s.firstLeft t = s₀.firstLeft t
  dry : Call.next none ∈ calls → s.firstLeft t = []
  /-- Only unanswered ports are deferred, each as often as it was unanswered. -/
  deferred : (s.retries.map Deferred.port).Sublist (reportedAs .filtered calls)
  cursors : s.nextRetry = 0 ∧ s.silentTwice = 0 ∧ s.answeredTwice = 0 ∧ s.nextThird = 0
  /-- With `--timeout`, nothing is deferred. -/
  fixed : s₀.fixedMs.isSome →
    s.retries = [] ∧ ∀ p ∈ out, p.deferrable = false ∧ p.blind = false

theorem FirstInv.start : FirstInv t (PortScan.init run ip lo hi timeoutMs tracker) []
    (PortScan.init run ip lo hi timeoutMs tracker) 0 where
  pass := rfl
  options := rfl
  opened := Opened.start _
  left := rfl
  dry h := by simp at h
  deferred := List.Sublist.refl _
  cursors := ⟨rfl, rfl, rfl, rfl⟩
  fixed _ := ⟨rfl, by simp⟩

/-- The port handed out is the first that was left. -/
theorem FirstInv.hand {s₀ s s' : PortScan} {calls : List (Call PortProbe)}
    {out : Multiset PortProbe} {job : PortProbe} (h : FirstInv t s₀ calls s out)
    (hnext : s.next t = (some job, s')) :
    FirstInv t s₀ (calls ++ [.next (some job)]) s' (job ::ₘ out) := by
  obtain ⟨nr, np, port, hs', hleft, hjob⟩ := PortScan.next_first_some h.pass hnext
  have hport : job.target.port = port := by rw [hjob, PortScan.firstTry_port]
  refine ⟨?_, ?_, ?_, ?_, ?_, ?_, ?_, ?_⟩
  · rw [hs']
    exact h.pass
  · rw [hs']
    exact h.options
  · exact h.opened.next _ (by rw [hs']) (by rw [hs']) (by rw [hs'])
  · rw [handed_append, handed_next_some, ports_append, ports_singleton, hport, List.append_assoc,
      List.singleton_append, ← hleft, h.left]
  · intro hdry
    have hnil := h.dry (by simpa using hdry)
    rw [hnil] at hleft
    simp at hleft
  · rw [hs']
    simpa using h.deferred
  · rw [hs']
    exact h.cursors
  · intro hfixed
    obtain ⟨hnil, hout⟩ := h.fixed hfixed
    obtain ⟨ms, hms⟩ := Option.isSome_iff_exists.mp hfixed
    refine ⟨by rw [hs']; exact hnil, ?_⟩
    intro p hp
    rcases Multiset.mem_cons.mp hp with rfl | hp
    · rw [hjob]
      refine PortScan.firstTry_plain (?_ : _ = some ms) port
      rw [hs', ← hms]
      exact h.options
    · exact hout p hp

/-- Without a stop the first pass dries up at the end of its range only. -/
theorem FirstInv.dryUp {s₀ s s' : PortScan} {calls : List (Call PortProbe)}
    {out : Multiset PortProbe} (h : FirstInv t s₀ calls s out)
    (hstop : ∀ k, s₀.run.cancel k = false) (hnext : s.next t = (none, s')) :
    FirstInv t s₀ (calls ++ [.next none]) s' out := by
  obtain ⟨nr, np, hs', hsame, hend⟩ := PortScan.next_first_none h.pass hnext
  have hleft := hend (by rw [h.opened.run]; exact hstop _)
  refine ⟨?_, ?_, ?_, ?_, fun _ => hsame.trans hleft, ?_, ?_, ?_⟩
  · rw [hs']
    exact h.pass
  · rw [hs']
    exact h.options
  · exact h.opened.next _ (by rw [hs']) (by rw [hs']) (by rw [hs'])
  · rw [hsame, handed_append, handed_next_none, List.append_nil]
    exact h.left
  · rw [hs']
    simpa using h.deferred
  · rw [hs']
    exact h.cursors
  · rw [hs']
    exact h.fixed

/-- Only a port that did not answer can be deferred. -/
theorem FirstInv.report {s₀ s : PortScan} {calls : List (Call PortProbe)}
    {out : Multiset PortProbe} {job : PortProbe} (h : FirstInv t s₀ calls s (job ::ₘ out))
    (o : Outcome) (e : Nat) :
    FirstInv t s₀ (calls ++ [.done job o e]) (s.done job o e) out := by
  obtain ⟨tr, ev, hu, hdone⟩ := PortScan.done_first h.pass job o e
  obtain ⟨est, fast, hlearn⟩ := s.learn_frame o e
  rw [hlearn] at hdone
  refine ⟨?_, ?_, ?_, ?_, ?_, ?_, ?_, ?_⟩
  · rw [hdone]
    exact h.pass
  · rw [hdone]
    exact h.options
  · exact h.opened.done job o e (by rw [hdone]) (by rw [hdone]) (by rw [hdone])
  · rw [hdone, handed_append, handed_done, List.append_nil]
    exact h.left
  · intro hdry
    rw [hdone]
    exact h.dry (by simpa using hdry)
  · rw [hdone, reportedAs_append, reportedAs_done]
    show ((s.deferred job o e).map Deferred.port).Sublist _
    unfold PortScan.deferred
    split
    · next hearn =>
      rw [if_pos hearn.1, List.map_append]
      exact h.deferred.append (List.Sublist.refl _)
    · exact h.deferred.trans (List.sublist_append_left _ _)
  · rw [hdone]
    exact h.cursors
  · intro hfixed
    obtain ⟨hnil, hout⟩ := h.fixed hfixed
    have hplain := hout job (Multiset.mem_cons_self job out)
    refine ⟨?_, fun p hp => hout p (Multiset.mem_cons_of_mem hp)⟩
    rw [hdone]
    show s.deferred job o e = []
    rw [PortScan.deferred, if_neg (by simp [PortScan.earnsRetry, hplain]), hnil]

/-- **The first pass hands out its range**, in whatever order the verdicts come. -/
theorem Serving.firstInv {s₀ s : PortScan} {calls : List (Call PortProbe)}
    {out : Multiset PortProbe} (hinit : s₀ = PortScan.init run ip lo hi timeoutMs tracker)
    (hstop : ∀ k, run.cancel k = false) (h : Serving (source t) s₀ calls s out) :
    FirstInv t s₀ calls s out := by
  subst hinit
  induction h with
  | start => exact FirstInv.start
  | hand _ hnext ih => exact ih.hand hnext
  | dry _ hnext ih => exact ih.dryUp hstop hnext
  | report o e _ ih => exact ih.report o e

end First

/-! ## The second pass -/

section Retry

variable {t : PortTable}

/-- The invariant of the second pass, from the scan `s₁` the first pass left. -/
structure RetryInv (s₁ : PortScan) (calls : List (Call PortProbe)) (s : PortScan)
    (out : Multiset PortProbe) : Prop where
  pass : s.pass = .retry
  opened : Opened s₁ calls s
  length : s.retries.length = s₁.retries.length
  next_le : s.nextRetry ≤ s.retries.length
  /-- What is not handed out yet is as the first pass left it. -/
  untouched : s.retries.drop s.nextRetry = s₁.retries.drop s.nextRetry
  handed : ports (handed calls) = (s₁.retries.take s.nextRetry).map Deferred.port
  /-- The front of the list is the ports silent twice, in the order of their verdicts. -/
  front : (s.retries.take s.silentTwice).map Deferred.port = reportedAs .filtered calls
  /-- Every probe handed out is out, silent or answered. -/
  balance : s.silentTwice + s.answeredTwice + out.card = s.nextRetry
  plain : ∀ p ∈ out, p.deferrable = false ∧ p.blind = false
  dry : Call.next none ∈ calls → s.nextRetry = s.retries.length
  nextThird : s.nextThird = s₁.nextThird

theorem RetryInv.start {s₁ : PortScan} (hpass : s₁.pass = .retry)
    (hcursors : s₁.nextRetry = 0 ∧ s₁.silentTwice = 0 ∧ s₁.answeredTwice = 0) :
    RetryInv s₁ [] s₁ 0 := by
  obtain ⟨h1, h2, h3⟩ := hcursors
  refine ⟨hpass, Opened.start s₁, rfl, by omega, rfl, ?_, ?_, ?_, by simp, by simp, rfl⟩
  · simp [h1]
  · simp [h2]
  · simp [h1, h2, h3]

/-- The next retry is handed out; the compacted front has not come as far as its slot. -/
theorem RetryInv.hand {s₁ s s' : PortScan} {calls : List (Call PortProbe)}
    {out : Multiset PortProbe} {job : PortProbe} (h : RetryInv s₁ calls s out)
    (hnext : s.next t = (some job, s')) :
    RetryInv s₁ (calls ++ [.next (some job)]) s' (job ::ₘ out) := by
  obtain ⟨deferred, hget, hs', hjob⟩ := PortScan.next_retry_some h.pass hnext
  obtain ⟨hlt, _⟩ := List.getElem?_eq_some_iff.mp hget
  -- the slot handed out is still what the first pass put there
  have hget₁ : s₁.retries[s.nextRetry]? = some deferred := by
    rw [← hget, ← List.head?_drop, ← List.head?_drop, h.untouched]
  have hport : job.target.port = deferred.port := by rw [hjob]; rfl
  refine ⟨?_, ?_, ?_, ?_, ?_, ?_, ?_, ?_, ?_, ?_, ?_⟩
  · rw [hs']
    exact h.pass
  · exact h.opened.next _ (by rw [hs']) (by rw [hs']) (by rw [hs'])
  · rw [hs']
    exact h.length
  · rw [hs']
    exact hlt
  · rw [hs']
    show s.retries.drop (s.nextRetry + 1) = s₁.retries.drop (s.nextRetry + 1)
    rw [← List.drop_drop, ← List.drop_drop, h.untouched]
  · rw [hs', handed_append, handed_next_some, ports_append, ports_singleton, hport, h.handed]
    show _ = (s₁.retries.take (s.nextRetry + 1)).map Deferred.port
    rw [List.take_add_one, hget₁, Option.toList_some, List.map_append]
    rfl
  · rw [hs', reportedAs_append, reportedAs_next, List.append_nil]
    exact h.front
  · have hbalance := h.balance
    rw [hs', Multiset.card_cons]
    show s.silentTwice + s.answeredTwice + (out.card + 1) = s.nextRetry + 1
    omega
  · intro p hp
    rcases Multiset.mem_cons.mp hp with rfl | hp
    · rw [hjob]
      exact ⟨rfl, rfl⟩
    · exact h.plain p hp
  · intro hdry
    have := h.dry (by simpa using hdry)
    omega
  · rw [hs']
    exact h.nextThird

theorem RetryInv.dryUp {s₁ s s' : PortScan} {calls : List (Call PortProbe)}
    {out : Multiset PortProbe} (h : RetryInv s₁ calls s out)
    (hstop : ∀ k, s₁.run.cancel k = false) (hnext : s.next t = (none, s')) :
    RetryInv s₁ (calls ++ [.next none]) s' out := by
  obtain ⟨hs', hend⟩ := PortScan.next_retry_none h.pass hnext
  have hle := hend (by rw [h.opened.run]; exact hstop _)
  refine ⟨?_, ?_, ?_, ?_, ?_, ?_, ?_, ?_, h.plain, ?_, ?_⟩
  · rw [hs']
    exact h.pass
  · exact h.opened.next _ (by rw [hs']) (by rw [hs']) (by rw [hs'])
  · rw [hs']
    exact h.length
  · rw [hs']
    exact h.next_le
  · rw [hs']
    exact h.untouched
  · rw [hs', handed_append, handed_next_none, List.append_nil]
    exact h.handed
  · rw [hs', reportedAs_append, reportedAs_next, List.append_nil]
    exact h.front
  · rw [hs']
    exact h.balance
  · intro _
    rw [hs']
    exact Nat.le_antisymm h.next_le hle
  · rw [hs']
    exact h.nextThird

/-- While a probe is out, the front of the list ends before the next one to hand out. -/
theorem RetryInv.front_lt {s₁ s : PortScan} {calls : List (Call PortProbe)}
    {out : Multiset PortProbe} (h : RetryInv s₁ calls s out) (hout : out ≠ 0) :
    s.silentTwice < s.nextRetry := by
  have hpos := Multiset.card_pos.mpr hout
  have hbalance := h.balance
  omega

/-- A port that is silent again goes to the end of the front, into a slot that was handed out. -/
theorem RetryInv.report {s₁ s : PortScan} {calls : List (Call PortProbe)}
    {out : Multiset PortProbe} {job : PortProbe} (h : RetryInv s₁ calls s (job ::ₘ out))
    (o : Outcome) (e : Nat) :
    RetryInv s₁ (calls ++ [.done job o e]) (s.done job o e) out := by
  have hlt := h.front_lt (Multiset.cons_ne_zero)
  have hlt' : s.silentTwice < s.retries.length := Nat.lt_of_lt_of_le hlt h.next_le
  have hbalance := h.balance
  rw [Multiset.card_cons] at hbalance
  obtain ⟨tr, ev, hu, hdone⟩ := PortScan.done_retry h.pass
    (h.plain job (Multiset.mem_cons_self job out)) o e
  obtain ⟨est, fast, hlearn⟩ := s.learn_frame o e
  rw [hlearn] at hdone
  have hout : ∀ p ∈ out, p.deferrable = false ∧ p.blind = false :=
    fun p hp => h.plain p (Multiset.mem_cons_of_mem hp)
  refine ⟨?_, h.opened.done job o e (by rw [hdone]) (by rw [hdone]) (by rw [hdone]), ?_, ?_, ?_,
    ?_, ?_, ?_, hout, ?_, ?_⟩
  · rw [hdone]
    exact h.pass
  · rw [hdone, ← h.length]
    simp only []
    split
    · exact List.length_set
    · rfl
  · rw [hdone]
    simp only []
    split
    · rw [List.length_set]
      exact h.next_le
    · exact h.next_le
  · rw [hdone]
    simp only []
    split
    · rw [List.drop_set_of_lt hlt]
      exact h.untouched
    · exact h.untouched
  · rw [hdone, handed_append, handed_done, List.append_nil]
    exact h.handed
  · rw [hdone, reportedAs_append, reportedAs_done]
    simp only []
    split
    · -- the port goes right behind the ports silent before it
      rw [List.take_add_one, List.getElem?_set_self hlt', List.take_set_of_le (le_refl _),
        Option.toList_some, List.map_append, h.front]
      rfl
    · rw [List.append_nil]
      exact h.front
  · rw [hdone]
    simp only []
    split <;> omega
  · intro hdry
    rw [hdone]
    simp only []
    have hend := h.dry (by simpa using hdry)
    split
    · rw [List.length_set]
      exact hend
    · exact hend
  · rw [hdone]
    exact h.nextThird

/-- **The second pass retries the list while it compacts it.** -/
theorem Serving.retryInv {s₁ s : PortScan} {calls : List (Call PortProbe)}
    {out : Multiset PortProbe} (hpass : s₁.pass = .retry)
    (hcursors : s₁.nextRetry = 0 ∧ s₁.silentTwice = 0 ∧ s₁.answeredTwice = 0)
    (hstop : ∀ k, s₁.run.cancel k = false) (h : Serving (source t) s₁ calls s out) :
    RetryInv s₁ calls s out := by
  induction h with
  | start => exact RetryInv.start hpass hcursors
  | hand _ hnext ih => exact ih.hand hnext
  | dry _ hnext ih => exact ih.dryUp hstop hnext
  | report o e _ ih => exact ih.report o e

end Retry

/-! ## The third pass -/

section Third

variable {t : PortTable}

/-- The invariant of the third pass, from the scan `s₂` the second pass left. -/
structure ThirdInv (s₂ : PortScan) (calls : List (Call PortProbe)) (s : PortScan) : Prop where
  pass : s.pass = .third
  opened : Opened s₂ calls s
  retries : s.retries = s₂.retries
  silentTwice : s.silentTwice = s₂.silentTwice
  handed : ports (handed calls) =
    ((s₂.retries.take s₂.silentTwice).take s.nextThird).map Deferred.port
  dry : Call.next none ∈ calls → s.silentTwice ≤ s.nextThird

/-- The third pass walks the front that the second left. -/
theorem ThirdInv.hand {s₂ s s' : PortScan} {calls : List (Call PortProbe)} {job : PortProbe}
    (h : ThirdInv s₂ calls s) (hnext : s.next t = (some job, s')) :
    ThirdInv s₂ (calls ++ [.next (some job)]) s' := by
  obtain ⟨deferred, hlt, hget, hs', hport⟩ := PortScan.next_third_some h.pass hnext
  refine ⟨?_, ?_, ?_, ?_, ?_, ?_⟩
  · rw [hs']
    exact h.pass
  · exact h.opened.next _ (by rw [hs']) (by rw [hs']) (by rw [hs'])
  · rw [hs']
    exact h.retries
  · rw [hs']
    exact h.silentTwice
  · rw [h.retries] at hget
    rw [h.silentTwice] at hlt
    rw [hs', handed_append, handed_next_some, ports_append, ports_singleton, hport, h.handed]
    show _ = ((s₂.retries.take s₂.silentTwice).take (s.nextThird + 1)).map Deferred.port
    rw [List.take_add_one, List.getElem?_take_of_lt hlt, hget, Option.toList_some, List.map_append]
    rfl
  · intro hdry
    have := h.dry (by simpa using hdry)
    omega

theorem ThirdInv.dryUp {s₂ s s' : PortScan} {calls : List (Call PortProbe)}
    (h : ThirdInv s₂ calls s) (hstop : ∀ k, s₂.run.cancel k = false)
    (hlen : s₂.silentTwice ≤ s₂.retries.length) (hnext : s.next t = (none, s')) :
    ThirdInv s₂ (calls ++ [.next none]) s' := by
  obtain ⟨hs', hend⟩ := PortScan.next_third_none h.pass hnext
  have hle := hend (by rw [h.opened.run]; exact hstop _)
    (by rw [h.silentTwice, h.retries]; exact hlen)
  refine ⟨?_, ?_, ?_, ?_, ?_, ?_⟩
  · rw [hs']
    exact h.pass
  · exact h.opened.next _ (by rw [hs']) (by rw [hs']) (by rw [hs'])
  · rw [hs']
    exact h.retries
  · rw [hs']
    exact h.silentTwice
  · rw [hs', handed_append, handed_next_none, List.append_nil]
    exact h.handed
  · intro _
    rw [hs']
    exact hle

/-- Whatever the verdict, the list stays as it is. -/
theorem ThirdInv.report {s₂ s : PortScan} {calls : List (Call PortProbe)} (h : ThirdInv s₂ calls s)
    (job : PortProbe) (o : Outcome) (e : Nat) :
    ThirdInv s₂ (calls ++ [.done job o e]) (s.done job o e) := by
  obtain ⟨tr, ev, hdone⟩ := PortScan.done_third h.pass job o e
  obtain ⟨est, fast, hlearn⟩ := s.learn_frame o e
  rw [hlearn] at hdone
  refine ⟨?_, h.opened.done job o e (by rw [hdone]) (by rw [hdone]) (by rw [hdone]), ?_, ?_, ?_, ?_⟩
  · rw [hdone]
    exact h.pass
  · rw [hdone]
    exact h.retries
  · rw [hdone]
    exact h.silentTwice
  · rw [hdone, handed_append, handed_done, List.append_nil]
    exact h.handed
  · intro hdry
    rw [hdone]
    exact h.dry (by simpa using hdry)

/-- **The third pass hands out each port that was silent twice.** -/
theorem Serving.thirdInv {s₂ s : PortScan} {calls : List (Call PortProbe)}
    {out : Multiset PortProbe} (hpass : s₂.pass = .third) (hthird : s₂.nextThird = 0)
    (hlen : s₂.silentTwice ≤ s₂.retries.length) (hstop : ∀ k, s₂.run.cancel k = false)
    (h : Serving (source t) s₂ calls s out) : ThirdInv s₂ calls s := by
  induction h with
  | start =>
    exact ⟨hpass, Opened.start s₂, rfl, rfl, by simp [hthird], by simp⟩
  | hand _ hnext ih => exact ih.hand hnext
  | dry _ hnext ih => exact ih.dryUp hstop hlen hnext
  | report o e _ ih => exact ih.report _ o e

end Third

end NetScanner.Ports
