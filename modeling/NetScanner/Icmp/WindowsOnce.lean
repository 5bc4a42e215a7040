import NetScanner.Infra.History
import NetScanner.Icmp.Pace
import NetScanner.Icmp.Windows

/-!
# A ping sweep on Windows accounts for every host and every slot

Windows keeps a pointer to the slot of every echo it has in hand and writes into it whenever the
answer comes. So a slot must not serve a second echo before the first is through, and none may be
in Windows' hands when the sweep frees the pool.

The invariant (`Lent`) reads everything off the requests: they hold the slots that are not on the
free list, each slot still names the host its echo was sent for, and these hosts are the ones in
flight. `claim` and `settle` are the two moves of a slot.
-/

namespace NetScanner.Icmp

open Infra

variable {c : WinConfig}

/-! ## The log -/

/-- How often `observer.pinged` was called for host `i`. -/
def winPings (i : Nat) (log : List (Int × WinEvent)) : Nat :=
  log.countP fun e => match e.2 with
    | .pinged j _ => j == i
    | _ => false

theorem winPings_append (i : Nat) (as bs : List (Int × WinEvent)) :
    winPings i (as ++ bs) = winPings i as + winPings i bs := List.countP_append

theorem winPings_pinged (i j : Nat) (t : Int) (a : Bool) :
    winPings i [(t, .pinged j a)] = if i = j then 1 else 0 := by
  by_cases h : i = j
  · simp [winPings, h]
  · have hne : ¬ j = i := fun e => h e.symm
    simp [winPings, h, hne]

/-- Whether what Windows gave for host `i` is an echo reply from that host. -/
def answers (c : WinConfig) (i : Nat) : Option IcmpEchoReply → Bool
  | none => false
  | some reply => reply.replies ≠ 0 && reply.status == ipSuccess && c.ips[i]? == some reply.address

/-- A host is reported when Windows is through with its own echo, and as that echo came out. -/
def Credited (c : WinConfig) (before : List (Int × WinEvent)) (e : Int × WinEvent) : Prop :=
  ∀ i a, e.2 = .pinged i a →
    ∃ outcome, before.getLast? = some (e.1, .finished i outcome) ∧ a = answers c i outcome

theorem Credited.of_ne {before : List (Int × WinEvent)} {e : Int × WinEvent}
    (h : ∀ i a, e.2 ≠ .pinged i a) : Credited c before e :=
  fun i a heq => absurd heq (h i a)

/-- Once a stop request was seen, no echo goes out. -/
def NoneAfterStop (before : List (Int × WinEvent)) (e : Int × WinEvent) : Prop :=
  ∀ i sl, e.2 = .echo i sl → ∀ b ∈ before, b.2 ≠ .stopSeen

theorem NoneAfterStop.of_ne {before : List (Int × WinEvent)} {e : Int × WinEvent}
    (h : ∀ i sl, e.2 ≠ .echo i sl) : NoneAfterStop before e :=
  fun i sl heq => absurd heq (h i sl)

/-- No echo goes out before its turn, at `sendsPerMs` a millisecond from the start. -/
def OnTime (started : Int) (e : Int × WinEvent) : Prop :=
  ∀ i sl, e.2 = .echo i sl → (i + 1 : Int) ≤ sendsPerMs * (e.1 - started + 1)

theorem OnTime.of_ne {started : Int} {e : Int × WinEvent} (h : ∀ i sl, e.2 ≠ .echo i sl) :
    OnTime started e :=
  fun i sl heq => absurd heq (h i sl)

/-! ## The pool -/

theorem nextFree_update (slots : Nat → Slot) (sl i : Nat) :
    (fun k => (Function.update slots sl { slots sl with index := i } k).nextFree) =
      fun k => (slots k).nextFree := by
  funext k
  by_cases hk : k = sl
  · subst hk
    simp
  · simp [hk]

theorem nextFree_release (slots : Nat → Slot) (sl : Nat) (head : Option Nat) :
    (fun k => (Function.update slots sl { slots sl with nextFree := head } k).nextFree) =
      Function.update (fun k => (slots k).nextFree) sl head := by
  funext k
  by_cases hk : k = sl
  · subst hk
    simp
  · simp [hk]

theorem linkSlots_chain (n : Nat) :
    Chain (fun k => ((linkSlots n).1 k).nextFree) (linkSlots n).2 (List.range n).reverse := by
  induction n with
  | zero => rfl
  | succ n ih =>
    have hpush := ih.push (n := n) (by simp)
    rw [← nextFree_release] at hpush
    rw [List.range_succ, List.reverse_append, List.reverse_singleton, List.singleton_append]
    exact hpush

theorem WinConfig.maxInFlight_le (c : WinConfig) : c.maxInFlight ≤ c.count := by
  have hle : ∀ m, (if c.count < m then c.count else m) ≤ c.count := by
    intro m
    split <;> omega
  exact hle _

/-! ## The invariant -/

/-- The hosts whose echoes Windows has in hand. -/
def WinSweep.out (s : WinSweep) : List Nat := s.requests.map Request.host

/-- The slots Windows has in hand. -/
def WinSweep.held (s : WinSweep) : List Nat := s.requests.map Request.slot

/-- Where host `i` stands, by what was sent and what is still out. -/
def standing (next : Nat) (out : List Nat) (i : Nat) : HostState :=
  if next ≤ i then .waiting else if i ∈ out then .inFlight else .reported

/-- The pool, the hosts and the log against what Windows has in hand. -/
structure Lent (c : WinConfig) (s : WinSweep) : Prop where
  pool : FreeList (fun k => (s.slots k).nextFree) s.freeSlots (List.range c.maxInFlight) s.held
  inFlight : s.inFlight = s.requests.length
  index : ∀ r ∈ s.requests, (s.slots r.slot).index = r.host
  length : s.hosts.length = c.count
  next_le : s.next ≤ c.count
  nodup : s.out.Nodup
  out_lt : ∀ i ∈ s.out, i < s.next
  hosts : ∀ i < c.count, s.hosts[i]? = some (standing s.next s.out i)
  pinged : ∀ i, winPings i s.log = if i < s.next ∧ i ∉ s.out then 1 else 0
  credited : Each (Credited c) s.log
  unstopped : s.stopped = false → ∀ e ∈ s.log, e.2 ≠ .stopSeen
  quiet : Each NoneAfterStop s.log

namespace Lent

variable {s : WinSweep}

theorem inFlight_le (h : Lent c s) : s.inFlight ≤ c.maxInFlight := by
  have hle := h.pool.length_le
  rw [WinSweep.held, List.length_map, List.length_range] at hle
  rw [h.inFlight]
  exact hle

/-- A stop request is noted; nothing else changes. -/
theorem stop (h : Lent c s) : Lent c { s.note .stopSeen with stopped := true } where
  pool := h.pool
  inFlight := h.inFlight
  index := h.index
  length := h.length
  next_le := h.next_le
  nodup := h.nodup
  out_lt := h.out_lt
  hosts := h.hosts
  pinged i := by
    show winPings i (s.log ++ [(s.clock, .stopSeen)]) = _
    rw [winPings_append]
    exact h.pinged i
  credited := each_concat_iff.mpr ⟨h.credited, Credited.of_ne (by simp)⟩
  unstopped := by simp
  quiet := each_concat_iff.mpr ⟨h.quiet, NoneAfterStop.of_ne (by simp)⟩

/-- **A slot is claimed**: it was nobody's, and goes to Windows with the host that is next. -/
theorem claim (h : Lent c s) {sl : Nat} (hfree : s.freeSlots = some sl)
    (hstop : s.stopped = false) (hnext : s.next < c.count) :
    Lent c { s.claim sl with requests := s.requests ++ [WinSweep.request c s.next sl] } := by
  have hpool := h.pool
  rw [hfree] at hpool
  obtain ⟨hsl, hnew, htaken⟩ := hpool.take List.nodup_range
  have hout : s.next ∉ s.out := fun hmem => Nat.lt_irrefl _ (h.out_lt _ hmem)
  have hmap : (s.requests ++ [WinSweep.request c s.next sl]).map Request.host =
      s.out ++ [s.next] := by
    simp [WinSweep.out, WinSweep.request]
  refine ⟨?_, ?_, ?_, ?_, hnext, ?_, ?_, ?_, ?_, ?_, ?_, ?_⟩
  · show FreeList
      (fun k => (Function.update s.slots sl { s.slots sl with index := s.next } k).nextFree)
      (s.slots sl).nextFree _ ((s.requests ++ [WinSweep.request c s.next sl]).map Request.slot)
    rw [nextFree_update, List.map_append]
    exact htaken
  · show sizeInc s.inFlight = _
    have hlt : s.requests.length < c.maxInFlight := by
      have hle := htaken.length_le
      simp only [WinSweep.held, List.length_append, List.length_map, List.length_range,
        List.length_singleton] at hle
      omega
    have hmax := c.maxInFlight_le
    have hcount := c.count_lt
    rw [h.inFlight, sizeInc_eq (by unfold WinConfig.count at hmax; omega), List.length_append]
    rfl
  · intro r hr
    show (Function.update s.slots sl _ r.slot).index = r.host
    rcases List.mem_append.mp hr with hold | hlast
    · have hne : r.slot ≠ sl := by
        rintro rfl
        exact hnew (List.mem_map_of_mem hold)
      rw [Function.update_of_ne hne]
      exact h.index r hold
    · rw [List.mem_singleton] at hlast
      subst hlast
      show (Function.update s.slots sl { s.slots sl with index := s.next } sl).index = s.next
      rw [Function.update_self]
  · show (s.hosts.set s.next .inFlight).length = c.count
    rw [List.length_set]
    exact h.length
  · show ((s.requests ++ [WinSweep.request c s.next sl]).map Request.host).Nodup
    rw [hmap]
    exact List.nodup_append.mpr ⟨h.nodup, by simp, fun a ha b hb => by
      rw [List.mem_singleton] at hb
      rintro rfl
      exact hout (hb ▸ ha)⟩
  · intro i hi
    show i < s.next + 1
    have hi : i ∈ s.out ++ [s.next] := by rw [← hmap]; exact hi
    rcases List.mem_append.mp hi with hi | hi
    · exact Nat.lt_succ_of_lt (h.out_lt i hi)
    · rw [List.mem_singleton.mp hi]
      exact Nat.lt_succ_self _
  · intro i hi
    show (s.hosts.set s.next .inFlight)[i]? =
      some (standing (s.next + 1) ((s.requests ++ [WinSweep.request c s.next sl]).map _) i)
    rw [hmap, getElem?_set_host (h.hosts s.next hnext)]
    by_cases heq : i = s.next
    · subst heq
      simp [standing]
    · rw [if_neg heq, h.hosts i hi]
      have hle : s.next + 1 ≤ i ↔ s.next ≤ i := by omega
      simp only [standing, hle, List.mem_append, List.mem_singleton, heq, or_false]
  · intro i
    show winPings i (s.log ++ [(s.clock, .echo s.next sl)]) =
      if i < s.next + 1 ∧ i ∉ (s.requests ++ [WinSweep.request c s.next sl]).map _ then 1 else 0
    have hzero : winPings i [(s.clock, .echo s.next sl)] = 0 := rfl
    rw [hmap, winPings_append, h.pinged, hzero, Nat.add_zero]
    refine if_congr ?_ rfl rfl
    simp only [List.mem_append, List.mem_singleton, not_or]
    exact ⟨fun h => ⟨by omega, h.2, by omega⟩, fun h => ⟨by omega, h.2.1⟩⟩
  · exact each_concat_iff.mpr ⟨h.credited, Credited.of_ne (by simp)⟩
  · intro _ e he
    rcases List.mem_append.mp he with he | he
    · exact h.unstopped hstop e he
    · rw [List.mem_singleton.mp he]
      simp
  · exact each_concat_iff.mpr ⟨h.quiet, fun _ _ _ => h.unstopped hstop⟩

/-- **A slot comes back** when Windows is through with its echo, and the host that echo was sent
for is reported. -/
theorem settle (h : Lent c s) {k : Nat} {r : Request} (hr : s.requests[k]? = some r)
    (outcome : Option IcmpEchoReply) {a : Bool} (ha : a = answers c r.host outcome) :
    Lent c ((({ s with requests := s.requests.eraseIdx k }.note (.finished r.host outcome)).report
      (s.slots r.slot).index a).release r.slot) := by
  obtain ⟨hk, rfl⟩ := List.getElem?_eq_some_iff.mp hr
  have hmem : s.requests[k] ∈ s.requests := List.getElem_mem hk
  have hindex := h.index _ hmem
  rw [hindex]
  have hk' : k < s.held.length := by simpa [WinSweep.held] using hk
  have hk'' : k < s.out.length := by simpa [WinSweep.out] using hk
  have hslot : s.held[k] = s.requests[k].slot := by simp [WinSweep.held]
  have hhost : s.out[k] = s.requests[k].host := by simp [WinSweep.out]
  have hin : s.requests[k].host ∈ s.out := hhost ▸ List.getElem_mem hk''
  have hlt := h.out_lt _ hin
  have hcount : s.requests[k].host < c.count := Nat.lt_of_lt_of_le hlt h.next_le
  have hout : (s.requests.eraseIdx k).map Request.host = s.out.eraseIdx k :=
    (List.eraseIdx_map ..).symm
  -- what is out afterwards
  have hperm : s.requests[k].host :: s.out.eraseIdx k |>.Perm s.out :=
    hhost ▸ List.getElem_cons_eraseIdx_perm hk''
  have hnodup := hperm.nodup_iff.mpr h.nodup
  have hiff : ∀ i, i ∈ s.out.eraseIdx k ↔ i ∈ s.out ∧ i ≠ s.requests[k].host := by
    intro i
    rw [← hperm.mem_iff, List.mem_cons]
    constructor
    · intro hi
      refine ⟨Or.inr hi, ?_⟩
      rintro rfl
      exact (List.nodup_cons.mp hnodup).1 hi
    · rintro ⟨rfl | hi, hne⟩
      · exact absurd rfl hne
      · exact hi
  refine ⟨?_, ?_, ?_, ?_, h.next_le, ?_, ?_, ?_, ?_, ?_, ?_, ?_⟩
  · show FreeList (fun j => (Function.update s.slots s.requests[k].slot
      { s.slots s.requests[k].slot with nextFree := s.freeSlots } j).nextFree)
      (some s.requests[k].slot) _ ((s.requests.eraseIdx k).map Request.slot)
    have hgive := h.pool.give List.nodup_range hk'
    rw [nextFree_release, ← hslot, ← List.eraseIdx_map]
    exact hgive
  · show sizeDec s.inFlight = (s.requests.eraseIdx k).length
    have hle := h.inFlight_le
    have hmax := c.maxInFlight_le
    have hcl := c.count_lt
    rw [sizeDec_eq (by rw [h.inFlight]; omega) (by unfold WinConfig.count at hmax; omega),
      List.length_eraseIdx_of_lt hk, h.inFlight]
  · intro r hr
    show (Function.update s.slots s.requests[k].slot _ r.slot).index = r.host
    have hold := h.index r (List.mem_of_mem_eraseIdx hr)
    by_cases heq : r.slot = s.requests[k].slot
    · rw [heq, Function.update_self]
      show (s.slots s.requests[k].slot).index = r.host
      rw [← heq]
      exact hold
    · rw [Function.update_of_ne heq]
      exact hold
  · show (s.hosts.set s.requests[k].host .reported).length = c.count
    rw [List.length_set]
    exact h.length
  · show ((s.requests.eraseIdx k).map Request.host).Nodup
    rw [hout]
    exact (List.nodup_cons.mp hnodup).2
  · intro i hi
    have hi : i ∈ s.out.eraseIdx k := by rw [← hout]; exact hi
    exact h.out_lt i ((hiff i).mp hi).1
  · intro i hi
    show (s.hosts.set s.requests[k].host .reported)[i]? =
      some (standing s.next ((s.requests.eraseIdx k).map Request.host) i)
    rw [hout, getElem?_set_host (h.hosts _ hcount)]
    by_cases heq : i = s.requests[k].host
    · rw [if_pos heq, standing, if_neg (by omega), if_neg (by rw [hiff]; simp [heq])]
    · rw [if_neg heq, h.hosts i hi]
      simp only [standing, hiff, heq, ne_eq, not_false_eq_true, and_true]
  · intro i
    show winPings i (s.log ++ [(s.clock, .finished s.requests[k].host outcome)] ++
      [(s.clock, .pinged s.requests[k].host a)]) =
        if i < s.next ∧ i ∉ (s.requests.eraseIdx k).map Request.host then 1 else 0
    have hzero : winPings i [(s.clock, .finished s.requests[k].host outcome)] = 0 := rfl
    rw [hout, winPings_append, winPings_append, h.pinged, hzero, winPings_pinged]
    by_cases heq : i = s.requests[k].host
    · rw [if_pos heq, if_neg (by rw [heq]; simp [hin]), if_pos ⟨by omega, by rw [hiff]; simp [heq]⟩]
    · rw [if_neg heq]
      simp only [hiff, heq, ne_eq, not_false_eq_true, and_true, Nat.add_zero]
  · refine each_concat_iff.mpr ⟨each_concat_iff.mpr ⟨h.credited, Credited.of_ne (by simp)⟩, ?_⟩
    intro i b heq
    cases heq
    exact ⟨outcome, List.getLast?_concat, ha⟩
  · intro hs e he
    rcases List.mem_append.mp he with he | he
    · rcases List.mem_append.mp he with he | he
      · exact h.unstopped hs e he
      · rw [List.mem_singleton.mp he]
        simp
    · rw [List.mem_singleton.mp he]
      simp
  · have hfinished : Each NoneAfterStop
        (s.log ++ [(s.clock, .finished s.requests[k].host outcome)]) :=
      each_concat_iff.mpr ⟨h.quiet, NoneAfterStop.of_ne (by simp)⟩
    exact each_concat_iff.mpr ⟨hfinished, NoneAfterStop.of_ne (by simp)⟩

/-- What the send `while` does with its one echo. -/
theorem send {env : WinEnv} (h : Lent c s) : Lent c (s.send c env) := by
  unfold WinSweep.send
  split
  · exact ⟨h.1, h.2, h.3, h.4, h.5, h.6, h.7, h.8, h.9, h.10, h.11, h.12⟩
  · next sl hfree =>
    split
    · next hgo =>
      have hclaim := h.claim hfree hgo.1 hgo.2.1
      have hindex : ((s.claim sl).slots sl).index = s.next := by
        show (Function.update s.slots sl { s.slots sl with index := s.next } sl).index = s.next
        rw [Function.update_self]
      split
      · exact hclaim
      · -- on the spot: claimed and settled at once
        have hsettle := hclaim.settle (k := s.requests.length) List.getElem?_concat_length none rfl
        simp only [List.eraseIdx_append_of_length_le (Nat.le_refl _), Nat.sub_self,
          List.eraseIdx_cons_zero, List.append_nil] at hsettle
        exact hsettle
      · next reply _ =>
        have hanswer : (s.claim sl).isAnswer c sl reply = answers c s.next (some reply) := by
          unfold WinSweep.isAnswer
          rw [hindex]
          rfl
        have hsettle := hclaim.settle (k := s.requests.length) List.getElem?_concat_length
          (some reply) hanswer
        simp only [List.eraseIdx_append_of_length_le (Nat.le_refl _), Nat.sub_self,
          List.eraseIdx_cons_zero, List.append_nil] at hsettle
        exact hsettle
    · exact ⟨h.1, h.2, h.3, h.4, h.5, h.6, h.7, h.8, h.9, h.10, h.11, h.12⟩

end Lent

/-! ## The send budget -/

/-- The clock and the send budget of a sweep in its loop. -/
structure OnPace (s : WinSweep) : Prop where
  started_le : s.started ≤ s.clock
  sendsLeft : s.pc = .send → 0 < s.sendsLeft →
    (s.next + s.sendsLeft : Int) ≤ sendsPerMs * (s.clock - s.started + 1)
  log : ∀ e ∈ s.log, OnTime s.started e

theorem OnPace.budget {s : WinSweep} (h : OnPace s) :
    OnPace { s with sendsLeft := sendBudget (s.clock - s.started) s.next, pc := .send } where
  started_le := h.started_le
  sendsLeft _ hpos := by
    have hstart := h.started_le
    have hbudget := sendBudget_le (show 0 ≤ s.clock - s.started by omega) s.next
    show (s.next + (sendBudget (s.clock - s.started) s.next : Nat) : Int) ≤
      sendsPerMs * (s.clock - s.started + 1)
    simp only [] at hpos
    omega
  log := h.log

theorem OnPace.send {env : WinEnv} {s : WinSweep} (h : OnPace s) (hpc : s.pc = .send) :
    OnPace (s.send c env) := by
  have hleft := h.sendsLeft hpc
  unfold WinSweep.send
  split
  · exact ⟨h.started_le, by simp, h.log⟩
  · next sl _ =>
    split
    · next hgo =>
      have hleft := hleft hgo.2.2
      have hecho : OnTime s.started (s.clock, .echo s.next sl) := by
        intro i sl' heq
        cases heq
        show (s.next + 1 : Int) ≤ sendsPerMs * (s.clock - s.started + 1)
        omega
      have hlog : ∀ e ∈ s.log ++ [(s.clock, WinEvent.echo s.next sl)], OnTime s.started e := by
        intro e he
        rcases List.mem_append.mp he with he | he
        · exact h.log e he
        · rw [List.mem_singleton.mp he]
          exact hecho
      have hmore : ∀ (f p : WinEvent), (∀ i sl, f ≠ .echo i sl) → (∀ i sl, p ≠ .echo i sl) →
          ∀ e ∈ s.log ++ [(s.clock, WinEvent.echo s.next sl)] ++ [(s.clock, f)] ++ [(s.clock, p)],
            OnTime s.started e := by
        intro f p hf hp e he
        rcases List.mem_append.mp he with he | he
        · rcases List.mem_append.mp he with he | he
          · exact hlog e he
          · rw [List.mem_singleton.mp he]
            exact OnTime.of_ne hf
        · rw [List.mem_singleton.mp he]
          exact OnTime.of_ne hp
      have hnext : 0 < s.sendsLeft - 1 →
          ((s.next + 1 : Nat) + (s.sendsLeft - 1 : Nat) : Int) ≤
            sendsPerMs * (s.clock - s.started + 1) := by
        omega
      split
      · exact ⟨h.started_le, fun _ => hnext, hlog⟩
      · exact ⟨h.started_le, fun _ => hnext, hmore _ _ (by simp) (by simp)⟩
      · exact ⟨h.started_le, fun _ => hnext, hmore _ _ (by simp) (by simp)⟩
    · exact ⟨h.started_le, by simp, h.log⟩

/-! ## Whole runs -/

/-- A sweep that has not begun, or never got to its loop. -/
structure Unbegun (c : WinConfig) (s : WinSweep) : Prop where
  requests : s.requests = []
  inFlight : s.inFlight = 0
  next : s.next = 0
  log : s.log = []
  hosts : s.hosts = List.replicate c.count .waiting
  stopped : s.stopped = false
  pc : s.pc = .begin ∨ ∃ r, s.pc = .returned r ∧ (r = .done → c.count = 0)

/-- A sweep in its loop, or through with it. -/
structure Begun (c : WinConfig) (s : WinSweep) : Prop where
  lent : Lent c s
  pace : OnPace s
  pc : s.pc ≠ .begin
  ended : ∀ r, s.pc = .returned r →
    r = .done ∧ s.requests = [] ∧ (s.stopped = true ∨ s.next = c.count)

theorem Unbegun.start (c : WinConfig) (clock : Int) : Unbegun c (WinSweep.init c clock) :=
  ⟨rfl, rfl, rfl, rfl, rfl, rfl, Or.inl rfl⟩

/-- The pool is linked up and the loop begins, or the sweep is over before it. -/
theorem Unbegun.begin {env : WinEnv} {s : WinSweep} (h : Unbegun c s) :
    Unbegun c (s.begin c env) ∨ Begun c (s.begin c env) := by
  unfold WinSweep.begin
  split
  · next hcount =>
    exact Or.inl { h with pc := Or.inr ⟨.done, rfl, fun _ => hcount⟩ }
  · split
    · exact Or.inl { h with pc := Or.inr ⟨.unavailable, rfl, by simp⟩ }
    · split
      · exact Or.inl { h with pc := Or.inr ⟨.noMemory, rfl, by simp⟩ }
      · refine Or.inr ⟨?_, ⟨Int.le_refl _, by simp, by simp [h.log]⟩, by simp, by simp⟩
        have hchain := linkSlots_chain c.maxInFlight
        have hreqs := h.requests
        refine ⟨⟨_, hchain, ?_⟩, by simp [h.inFlight, hreqs], by simp [hreqs], by simp [h.hosts],
          by simp [h.next], by simp [WinSweep.out, hreqs], by simp [WinSweep.out, hreqs], ?_,
          by simp [h.log, h.next, winPings], by rw [h.log]; exact each_nil _, by simp [h.log],
          by rw [h.log]; exact each_nil _⟩
        · simp only [WinSweep.held, hreqs, List.map_nil, List.append_nil]
          exact List.reverse_perm _
        · intro i hi
          simp [h.hosts, h.next, hi, standing]

/-- One step of the sweep itself. -/
theorem Begun.run {env : WinEnv} {s s' : WinSweep} (h : Begun c s) (hs : s.run c env = some s') :
    Begun c s' := by
  obtain ⟨hlent, hpace, hpc, hended⟩ := h
  have hsame := hlent
  obtain ⟨h1, h2, h3, h4, h5, h6, h7, h8, h9, h10, h11, h12⟩ := hsame
  unfold WinSweep.run at hs
  split at hs
  · next hbegin => exact absurd hbegin hpc
  · cases hs
    unfold WinSweep.stopCheck
    split
    · refine ⟨?_, ⟨hpace.started_le, by simp, ?_⟩, by simp, by simp⟩
      · obtain ⟨h1, h2, h3, h4, h5, h6, h7, h8, h9, h10, h11, h12⟩ := hlent.stop
        exact ⟨h1, h2, h3, h4, h5, h6, h7, h8, h9, h10, h11, h12⟩
      · intro e he
        rcases List.mem_append.mp he with he | he
        · exact hpace.log e he
        · rw [List.mem_singleton.mp he]
          exact OnTime.of_ne (by simp)
    · exact ⟨⟨h1, h2, h3, h4, h5, h6, h7, h8, h9, h10, h11, h12⟩,
        ⟨hpace.started_le, by simp, hpace.log⟩, by simp, by simp⟩
  · cases hs
    exact ⟨⟨h1, h2, h3, h4, h5, h6, h7, h8, h9, h10, h11, h12⟩, hpace.budget, by simp, by simp⟩
  · next hsend =>
    cases hs
    have hpc' : (s.send c env).pc = .send ∨ (s.send c env).pc = .endCheck := by
      unfold WinSweep.send
      split
      · exact Or.inr rfl
      · split
        · split <;> exact Or.inl hsend
        · exact Or.inr rfl
    refine ⟨hlent.send, hpace.send hsend, ?_, ?_⟩ <;>
      rcases hpc' with hpc' | hpc' <;> simp [hpc']
  · cases hs
    unfold WinSweep.endCheck
    split
    · next hend =>
      refine ⟨⟨h1, h2, h3, h4, h5, h6, h7, h8, h9, h10, h11, h12⟩,
        ⟨hpace.started_le, by simp, hpace.log⟩, by simp, fun r hr => ⟨?_, ?_, hend.2⟩⟩
      · exact (WinPc.returned.inj hr).symm
      · exact List.length_eq_zero_iff.mp (h2.symm.trans hend.1)
    · split <;> exact ⟨⟨h1, h2, h3, h4, h5, h6, h7, h8, h9, h10, h11, h12⟩,
        ⟨hpace.started_le, by simp, hpace.log⟩, by simp, by simp⟩
  · cases hs
    exact ⟨⟨h1, h2, h3, h4, h5, h6, h7, h8, h9, h10, h11, h12⟩,
      ⟨hpace.started_le, by simp, hpace.log⟩, by simp, by simp⟩
  · cases hs

/-- A completion routine runs. -/
theorem Begun.complete {k : Nat} {reply : IcmpEchoReply} {s s' : WinSweep} (h : Begun c s)
    (hs : s.complete c k reply = some s') : Begun c s' := by
  unfold WinSweep.complete at hs
  split at hs
  · next ms r hpc hr =>
    cases hs
    have hanswer : s.isAnswer c r.slot reply = answers c r.host (some reply) := by
      unfold WinSweep.isAnswer
      rw [h.lent.index r (List.mem_of_getElem? hr)]
      rfl
    refine ⟨h.lent.settle hr (some reply) hanswer, ⟨h.pace.started_le, ?_, ?_⟩, ?_, ?_⟩
    · intro hsend
      have hsend : s.pc = .send := hsend
      rw [hpc] at hsend
      cases hsend
    · intro e he
      rcases List.mem_append.mp he with he | he
      · rcases List.mem_append.mp he with he | he
        · exact h.pace.log e he
        · rw [List.mem_singleton.mp he]
          exact OnTime.of_ne (by simp)
      · rw [List.mem_singleton.mp he]
        exact OnTime.of_ne (by simp)
    · exact h.pc
    · intro r' hr'
      have hr' : s.pc = .returned r' := hr'
      rw [hpc] at hr'
      cases hr'
  · cases hs

/-- **The invariant holds in every reachable state.** -/
theorem win_sweep_sound {s : WinSweep} (h : (winSweep c).Reachable s) :
    Unbegun c s ∨ Begun c s := by
  refine h.invariant (I := fun s => Unbegun c s ∨ Begun c s) ?_ ?_
  · rintro s ⟨clock, rfl⟩
    exact Or.inl (Unbegun.start c clock)
  · rintro s l s' _ hs hstep
    cases l with
    | tick ms =>
      cases hstep
      rcases hs with hs | ⟨⟨h1, h2, h3, h4, h5, h6, h7, h8, h9, h10, h11, h12⟩, hp, hpc, hend⟩
      · exact Or.inl { hs with }
      · refine Or.inr ⟨⟨h1, h2, h3, h4, h5, h6, h7, h8, h9, h10, h11, h12⟩, ⟨?_, ?_, hp.log⟩, hpc,
          hend⟩
        · have hle := hp.started_le
          show s.started ≤ s.clock + ms
          omega
        · intro hsend hpos
          have hle := hp.sendsLeft hsend hpos
          show (s.next + s.sendsLeft : Int) ≤ sendsPerMs * (s.clock + ms - s.started + 1)
          unfold sendsPerMs at hle ⊢
          omega
    | complete k reply =>
      rcases hs with hs | hs
      · have hnone : s.complete c k reply = none := by
          unfold WinSweep.complete
          rw [hs.requests]
          split
          · next h => simp at h
          · rfl
        exact absurd (hstep.symm.trans hnone) (by simp)
      · exact Or.inr (hs.complete hstep)
    | run env =>
      rcases hs with hs | hs
      · rcases hs.pc with hpc | ⟨r, hpc, _⟩
        · have hstep : s.run c env = some s' := hstep
          simp only [WinSweep.run, hpc, Option.some.injEq] at hstep
          subst hstep
          exact hs.begin
        · have hstep : s.run c env = some s' := hstep
          simp [WinSweep.run, hpc] at hstep
      · exact Or.inr (hs.run hstep)

end NetScanner.Icmp
