import NetScanner.Icmp.Accounts

/-!
# Replies in time

`icmp_ping_sweep` is to report which hosts sent back an echo reply within the timeout. It
declares waits over at the head of its loop, before it has looked at its sockets again, so a
reply can sit unread in a socket while its host is reported unanswered.

`answeredInTime_iff` says exactly when that does not happen, for every run: whenever the loop head
finds a wait over, what came in for that host since its sockets were last found empty came in too
late. `slow_callback_loses_reply` is a run where it does happen.

The invariant `Read` ties the log to the sockets' queues: what came in and was not read is in
the queue, in order, and a reply read while its host is in flight is reported at once.
-/

namespace NetScanner.Icmp

open Infra

variable {c : SweepConfig}

/-- The log holds a reply of host `i` that came in within the timeout of its echo, while the
host was in flight: where, when, in which socket, and what came after it. -/
structure InTimeReply (c : SweepConfig) (i : Nat) (log earlier later : List (Int × SweepEvent))
    (sock : Nat) (d : Datagram) : Prop where
  split : ∃ arrivedAt, log = earlier ++ (arrivedAt, .arrived sock d) :: later ∧
    ∃ sentAt, (sentAt, .echo i .ok) ∈ earlier ∧ arrivedAt ≤ sentAt + c.timeoutMs
  reply : matchReply c d = some i
  inFlight : ¬Pinged i earlier

/-- A host with a reply in time is reported answered. -/
def AnsweredInTime (c : SweepConfig) (before : List (Int × SweepEvent)) (e : Int × SweepEvent) :
    Prop :=
  ∀ i answered, e.2 = .pinged i answered →
    ∀ earlier later sock d, InTimeReply c i before earlier later sock d → answered = true

/-- The wait of the oldest host is over, by the time that the loop head read. -/
def SweepState.WaitOver (c : SweepConfig) (s : SweepState) : Prop :=
  s.pc = .expire ∧ s.oldest < s.next ∧ s.hosts[s.oldest]? = some .inFlight ∧
    s.sentAt s.oldest + c.timeoutMs ≤ s.now

/-- What answers host `i` and came into a socket since it was last found empty came in later than
the timeout after the host's echo. -/
def LateSinceDrained (c : SweepConfig) (i : Nat) (log : List (Int × SweepEvent)) : Prop :=
  ∀ earlier later arrivedAt sock d, log = earlier ++ (arrivedAt, .arrived sock d) :: later →
    (∀ t, (t, .empty sock) ∉ later) → matchReply c d = some i →
    ∀ sentAt, (sentAt, .echo i .ok) ∈ earlier → sentAt + c.timeoutMs < arrivedAt

/-- When the sweep is about to go on with a wait that is over, no reply in time slipped in between
the last look at its socket and the loop head. -/
def ExpiresLate (c : SweepConfig) (s : SweepState) : SweepLabel → Prop
  | .run _ => s.WaitOver c → LateSinceDrained c s.oldest s.log
  | _ => True

/-! ## The queues against the log -/

def arrivedOn? (sock : Nat) (e : Int × SweepEvent) : Option Datagram :=
  match e.2 with
  | .arrived k d => if k = sock then some d else none
  | _ => none

def receivedOn? (sock : Nat) (e : Int × SweepEvent) : Option Datagram :=
  match e.2 with
  | .received k d => if k = sock then some d else none
  | _ => none

/-- The datagrams that came into a socket, in order. -/
def arrivedOn (sock : Nat) (log : List (Int × SweepEvent)) : List Datagram :=
  log.filterMap (arrivedOn? sock)

/-- The datagrams read from a socket, in order. -/
def receivedOn (sock : Nat) (log : List (Int × SweepEvent)) : List Datagram :=
  log.filterMap (receivedOn? sock)

theorem arrivedOn_append (sock : Nat) (as bs : List (Int × SweepEvent)) :
    arrivedOn sock (as ++ bs) = arrivedOn sock as ++ arrivedOn sock bs := List.filterMap_append

theorem receivedOn_append (sock : Nat) (as bs : List (Int × SweepEvent)) :
    receivedOn sock (as ++ bs) = receivedOn sock as ++ receivedOn sock bs := List.filterMap_append

/-- At every event, datagrams were read in the order they came in, and a socket found empty
had been read to the end. -/
def ReadInOrder (before : List (Int × SweepEvent)) (e : Int × SweepEvent) : Prop :=
  (∀ sock, receivedOn sock before <+: arrivedOn sock before) ∧
    ∀ sock, e.2 = .empty sock → receivedOn sock before = arrivedOn sock before

/-- A reply read while its host is in flight is reported at once. -/
def Heard (c : SweepConfig) (log : List (Int × SweepEvent)) : Prop :=
  ∀ before t sock d i, before ++ [(t, .received sock d)] <+: log → matchReply c d = some i →
    Echoed i before → ¬Pinged i before →
    before ++ [(t, .received sock d)] ++ [(t, .pinged i true)] <+: log

/-- What was read, and what is still to read. -/
structure Read (c : SweepConfig) (log : List (Int × SweepEvent)) (queues : Nat → List Datagram) :
    Prop where
  fifo : ∀ sock, arrivedOn sock log = receivedOn sock log ++ queues sock
  order : Each ReadInOrder log
  heard : Heard c log

/-- Events that are neither `arrived` nor `received`. -/
def SweepEvent.dry : SweepEvent → Bool
  | .arrived _ _ => false
  | .received _ _ => false
  | _ => true

theorem on_dry {events : List (Int × SweepEvent)} (h : ∀ e ∈ events, e.2.dry = true) (sock : Nat) :
    arrivedOn sock events = [] ∧ receivedOn sock events = [] := by
  constructor
  · refine List.filterMap_eq_nil_iff.mpr ?_
    rintro ⟨t, e⟩ hmem
    have := h _ hmem
    cases e <;> simp_all [arrivedOn?, SweepEvent.dry]
  · refine List.filterMap_eq_nil_iff.mpr ?_
    rintro ⟨t, e⟩ hmem
    have := h _ hmem
    cases e <;> simp_all [receivedOn?, SweepEvent.dry]

section Steps

variable {log : List (Int × SweepEvent)} {queues : Nat → List Datagram}

theorem Read.prefix (h : Read c log queues) (sock : Nat) :
    receivedOn sock log <+: arrivedOn sock log := by
  rw [h.fifo]
  exact List.prefix_append _ _

theorem Heard.append {events : List (Int × SweepEvent)} (h : Heard c log)
    (hnew : ∀ t sock d, (t, SweepEvent.received sock d) ∉ events) : Heard c (log ++ events) := by
  intro before t sock d i hpre hmatch he hp
  rcases concat_prefix_append_iff.mp hpre with hold | ⟨b, rfl, hb⟩
  · exact (h before t sock d i hold hmatch he hp).trans (List.prefix_append _ _)
  · exact absurd (hb.subset (List.mem_append_right b List.mem_cons_self)) (hnew t sock d)

/-- Events that touch no queue; a socket noted as empty is. -/
theorem Read.dry (h : Read c log queues) (events : List (Int × SweepEvent))
    (hdry : ∀ e ∈ events, e.2.dry = true)
    (hempty : ∀ t sock, (t, SweepEvent.empty sock) ∈ events → queues sock = []) :
    Read c (log ++ events) queues := by
  refine ⟨?_, each_append_iff.mpr ⟨h.order, ?_⟩, h.heard.append ?_⟩
  · intro sock
    obtain ⟨ha, hr⟩ := on_dry hdry sock
    rw [arrivedOn_append, receivedOn_append, ha, hr, List.append_nil, List.append_nil]
    exact h.fifo sock
  · intro b e hb
    have hon := on_dry fun e he => hdry e (hb.subset (List.mem_append_left _ he))
    constructor
    · intro sock
      rw [receivedOn_append, arrivedOn_append, (hon sock).1, (hon sock).2, List.append_nil,
        List.append_nil]
      exact h.prefix sock
    · intro sock he
      have hmem : (e.1, SweepEvent.empty sock) ∈ events := by
        rw [← he]
        exact hb.subset (List.mem_append_right b List.mem_cons_self)
      rw [receivedOn_append, arrivedOn_append, (hon sock).1, (hon sock).2, List.append_nil,
        List.append_nil, h.fifo, hempty e.1 sock hmem, List.append_nil]
  · intro t sock d hmem
    have := hdry _ hmem
    cases this

/-- One event that touches no queue. -/
theorem Read.dryOne (h : Read c log queues) (t : Int) (e : SweepEvent) (hdry : e.dry = true)
    (hempty : ∀ sock, e = .empty sock → queues sock = []) :
    Read c (log ++ [(t, e)]) queues := by
  refine h.dry _ (by simpa using hdry) ?_
  intro t' sock hmem
  simp only [List.mem_singleton, Prod.mk.injEq] at hmem
  exact hempty sock hmem.2.symm

theorem Read.arrive (h : Read c log queues) (t : Int) (sock : Nat) (d : Datagram) :
    Read c (log ++ [(t, .arrived sock d)])
      (Function.update queues sock (queues sock ++ [d])) := by
  refine ⟨?_, each_concat_iff.mpr ⟨h.order, h.prefix, ?_⟩, h.heard.append (by simp)⟩
  · intro j
    rw [arrivedOn_append, receivedOn_append, h.fifo]
    by_cases hj : j = sock
    · subst hj
      simp [arrivedOn, receivedOn, arrivedOn?, receivedOn?]
    · have hne : ¬sock = j := fun e => hj e.symm
      simp [arrivedOn, receivedOn, arrivedOn?, receivedOn?, hj, hne]
  · intro j heq
    cases heq

/-- Reading a datagram takes the oldest. -/
theorem Read.receive_fifo (h : Read c log queues) (t : Int) {sock : Nat} {d : Datagram}
    {rest : List Datagram} (hqueue : queues sock = d :: rest) (j : Nat) :
    arrivedOn j (log ++ [(t, .received sock d)]) =
      receivedOn j (log ++ [(t, .received sock d)]) ++ Function.update queues sock rest j := by
  rw [arrivedOn_append, receivedOn_append, h.fifo]
  by_cases hj : j = sock
  · subst hj
    simp [arrivedOn, receivedOn, arrivedOn?, receivedOn?, hqueue]
  · have hne : ¬sock = j := fun e => hj e.symm
    simp [arrivedOn, receivedOn, arrivedOn?, receivedOn?, hj, hne]

theorem Read.receive_order (h : Read c log queues) (t : Int) (sock : Nat) (d : Datagram) :
    Each ReadInOrder (log ++ [(t, .received sock d)]) := by
  refine each_concat_iff.mpr ⟨h.order, h.prefix, ?_⟩
  intro j heq
  cases heq

/-- A datagram that answers no host in flight. -/
theorem Read.ignore (h : Read c log queues) (t : Int) {sock : Nat} {d : Datagram}
    {rest : List Datagram} (hqueue : queues sock = d :: rest)
    (hnot : ∀ i, matchReply c d = some i → ¬(Echoed i log ∧ ¬Pinged i log)) :
    Read c (log ++ [(t, .received sock d)]) (Function.update queues sock rest) := by
  refine ⟨h.receive_fifo t hqueue, h.receive_order t sock d, ?_⟩
  intro before t' sock' d' i hpre hmatch he hp
  rcases List.prefix_concat_iff.mp hpre with heq | hold
  · obtain ⟨rfl, hlast⟩ := List.append_inj' heq rfl
    cases hlast
    exact absurd ⟨he, hp⟩ (hnot i hmatch)
  · exact (h.heard before t' sock' d' i hold hmatch he hp).trans (List.prefix_append _ _)

/-- A reply to a host in flight, and its report. -/
theorem Read.answer (h : Read c log queues) (t : Int) {sock : Nat} {d : Datagram}
    {rest : List Datagram} {i : Nat} (hqueue : queues sock = d :: rest)
    (hmatch : matchReply c d = some i) :
    Read c (log ++ [(t, .received sock d)] ++ [(t, .pinged i true)])
      (Function.update queues sock rest) := by
  have hfifo := h.receive_fifo t hqueue
  refine ⟨?_, each_concat_iff.mpr ⟨h.receive_order t sock d, ?_, ?_⟩, ?_⟩
  · intro j
    have hdry : ∀ e ∈ [(t, SweepEvent.pinged i true)], e.2.dry = true := by simp [SweepEvent.dry]
    obtain ⟨ha, hr⟩ := on_dry hdry j
    rw [arrivedOn_append, receivedOn_append _ (log ++ _), ha, hr, List.append_nil, List.append_nil]
    exact hfifo j
  · intro j
    rw [hfifo]
    exact List.prefix_append _ _
  · intro j heq
    cases heq
  · intro before t' sock' d' i' hpre hmatch' he hp
    rcases List.prefix_concat_iff.mp hpre with heq | hpre
    · have hlast := (List.append_inj' heq rfl).2
      cases hlast
    · rcases List.prefix_concat_iff.mp hpre with heq | hold
      · -- the new reply itself: its report follows
        obtain ⟨rfl, hlast⟩ := List.append_inj' heq rfl
        cases hlast
        rw [hmatch] at hmatch'
        cases hmatch'
        exact List.prefix_rfl
      · refine (h.heard before t' sock' d' i' hold hmatch' he hp).trans ?_
        rw [List.append_assoc]
        exact List.prefix_append _ _

end Steps

theorem Read.change {k k' : Core} (h : Read c k.log k.queues) (hlogged : Logged c k)
    (hc : Change c k k') : Read c k'.log k'.queues := by
  cases hc with
  | rest => exact h
  | tick ms => exact h
  | skip _ _ => exact h
  | arrive sock d => exact h.arrive _ sock d
  | expire _ _ => exact h.dryOne _ (.pinged k.oldest false) rfl (by simp)
  | stop _ => exact h.dryOne _ .stopSeen rfl (by simp)
  | busy _ _ => exact h.dryOne _ (.echo k.next .busy) rfl (by simp)
  | sent _ _ _ => exact h.dryOne _ (.echo k.next .ok) rfl (by simp)
  | unsent o _ _ _ =>
    exact (h.dryOne _ (.echo k.next o) rfl (by simp)).dryOne _ (.pinged k.next false) rfl (by simp)
  | ignore sock d rest hqueue hnot =>
    refine h.ignore _ hqueue fun i hmatch hin => ?_
    exact hnot i hmatch ((hlogged.inFlight_iff i).mpr hin)
  | answer sock d rest i hqueue hmatch _ => exact h.answer _ hqueue hmatch
  | drained sock hqueue =>
    refine h.dryOne _ (.empty sock) rfl ?_
    rintro j heq
    cases heq
    exact hqueue
  | quiet n hempty =>
    refine h.dry _ (by simp [SweepEvent.dry]) ?_
    intro t sock hmem
    simp only [List.map_map, List.mem_map, List.mem_range, Function.comp, Prod.mk.injEq,
      SweepEvent.empty.injEq] at hmem
    obtain ⟨j, hj, _, rfl⟩ := hmem
    exact hempty j hj

/-- **The log and the queues agree in every reachable state.** -/
theorem sweep_read {s : SweepState} (h : (sweep c).Reachable s) : Read c s.log s.queues := by
  refine @Lts.Reachable.invariant _ _ _ (fun s => Read c s.log s.queues) ?_ ?_ s h
  · rintro s ⟨clock, rfl⟩
    refine ⟨fun _ => rfl, each_nil _, ?_⟩
    intro before t sock d i hpre
    simp [SweepState.init] at hpre
  · intro s l s' hr hread hs
    exact hread.change (sweep_sound hr).logged (step_change hs)

/-! ## A reply is read before its socket is found empty -/

/-- Between the arrival of a datagram and a moment its socket is found empty, it is read. -/
theorem read_before_empty {log earlier middle : List (Int × SweepEvent)} {arrivedAt t : Int}
    {sock : Nat} {d : Datagram} (h : Each ReadInOrder log)
    (hpre : earlier ++ (arrivedAt, .arrived sock d) :: (middle ++ [(t, .empty sock)]) <+: log) :
    ∃ t', (t', SweepEvent.received sock d) ∈ middle := by
  have hempty := h (earlier ++ (arrivedAt, .arrived sock d) :: middle) (t, .empty sock)
    (by simpa using hpre)
  have hearlier := h earlier (arrivedAt, .arrived sock d) (by
    refine List.IsPrefix.trans ?_ hpre
    exact ⟨middle ++ [(t, .empty sock)], by simp⟩)
  obtain ⟨unread, hunread⟩ := hearlier.1 sock
  have hall := hempty.2 sock rfl
  rw [receivedOn_append, arrivedOn_append, ← hunread] at hall
  have harr : arrivedOn sock ((arrivedAt, SweepEvent.arrived sock d) :: middle) =
      d :: arrivedOn sock middle := by simp [arrivedOn, arrivedOn?]
  have hrec : receivedOn sock ((arrivedAt, SweepEvent.arrived sock d) :: middle) =
      receivedOn sock middle := List.filterMap_cons_none rfl
  rw [harr, hrec, List.append_assoc, List.append_cancel_left_eq] at hall
  have hmem : d ∈ receivedOn sock middle := by
    rw [hall]
    simp
  obtain ⟨⟨t', e⟩, he, hd⟩ := List.mem_filterMap.mp hmem
  refine ⟨t', ?_⟩
  cases e with
  | received k d' =>
    simp only [receivedOn?] at hd
    split at hd
    · next hk =>
      cases hd
      rw [← hk]
      exact he
    · simp at hd
  | _ => simp [receivedOn?] at hd

/-- **A host in flight whose reply was read has been reported.** -/
theorem pinged_of_received {log earlier : List (Int × SweepEvent)} {t : Int} {sock : Nat}
    {d : Datagram} {i : Nat} (h : Heard c log) (hpre : earlier ++ [(t, .received sock d)] <+: log)
    (hmatch : matchReply c d = some i) (hechoed : Echoed i earlier) : Pinged i log := by
  by_cases hp : Pinged i earlier
  · obtain ⟨t', r, hmem⟩ := hp
    exact ⟨t', r, hpre.subset (List.mem_append_left _ hmem)⟩
  · have hping := h earlier t sock d i hpre hmatch hechoed hp
    exact ⟨t, true, hping.subset (by simp)⟩

/-! ## Steps that report a host unanswered -/

/-- A host that came in for a report without an echo had no reply to wait for. -/
theorem answeredInTime_of_not_echoed {before : List (Int × SweepEvent)} {e : Int × SweepEvent}
    (h : ∀ i, e.2 = .pinged i false → ¬Echoed i before) : AnsweredInTime c before e := by
  intro i answered he earlier later sock d hreply
  cases answered with
  | true => rfl
  | false =>
    obtain ⟨⟨arrivedAt, hbefore, sentAt, hsent, _⟩, _, _⟩ := hreply
    refine absurd ⟨sentAt, ?_⟩ (h i he)
    rw [hbefore]
    exact List.mem_append_left _ hsent

/-- Steps that do not find a wait over. -/
theorem each_answeredInTime_change {k k' : Core} (hc : Change c k k') (hcur : Cursors c k)
    (hlogged : Logged c k)
    (hkeeps : k'.oldest = k.oldest ∨ k.hosts[k.oldest]? ≠ some .inFlight)
    (h : Each (AnsweredInTime c) k.log) : Each (AnsweredInTime c) k'.log := by
  have hquiet : ∀ (before : List (Int × SweepEvent)) (t : Int) (e : SweepEvent),
      (∀ i, e ≠ .pinged i false) → AnsweredInTime c before (t, e) :=
    fun before t e he => answeredInTime_of_not_echoed fun i heq => absurd heq (he i)
  have hone : ∀ (t : Int) (e : SweepEvent), (∀ i, e ≠ .pinged i false) →
      Each (AnsweredInTime c) (k.log ++ [(t, e)]) :=
    fun t e he => each_concat_iff.mpr ⟨h, hquiet _ t e he⟩
  cases hc with
  | rest => exact h
  | tick ms => exact h
  | skip _ _ => exact h
  | arrive sock d => exact hone _ (.arrived sock d) (by simp)
  | expire _ hin =>
    rcases hkeeps with hsame | hnot
    · exact absurd hsame (Nat.succ_ne_self _)
    · exact absurd hin hnot
  | stop _ => exact hone _ .stopSeen (by simp)
  | busy _ _ => exact hone _ (.echo k.next .busy) (by simp)
  | sent _ _ _ => exact hone _ (.echo k.next .ok) (by simp)
  | unsent o ho hstop hnext =>
    refine each_concat_iff.mpr ⟨hone _ (.echo k.next o) (by simp), ?_⟩
    refine answeredInTime_of_not_echoed ?_
    rintro i heq ⟨t, hmem⟩
    cases heq
    -- it is still waiting, and this echo did not go out
    have hwait := hcur.above _ (Nat.le_refl _) hnext
    rcases List.mem_append.mp hmem with hold | hnew
    · rcases hlogged.settled _ ⟨t, hold⟩ with hin | hrep
      · simp [hwait] at hin
      · simp [hwait] at hrep
    · simp only [List.map_cons, List.map_nil, List.mem_singleton, Prod.mk.injEq,
        SweepEvent.echo.injEq] at hnew
      exact ho hnew.2.2.symm
  | ignore sock d rest _ _ => exact hone _ (.received sock d) (by simp)
  | answer sock d rest i _ _ _ =>
    exact each_concat_iff.mpr ⟨hone _ (.received sock d) (by simp), hquiet _ _ _ (by simp)⟩
  | drained sock _ => exact hone _ (.empty sock) (by simp)
  | quiet n _ =>
    refine each_append_iff.mpr ⟨h, ?_⟩
    rintro before ⟨t, e⟩ hpre
    refine hquiet _ t e ?_
    rintro i rfl
    have hmem := hpre.subset (List.mem_append_right before List.mem_cons_self)
    simp at hmem

/-- Only the expiry loop moves `oldest`. -/
theorem oldest_run {env : SweepEnv} {s s' : SweepState} (hs : s.run c env = some s')
    (hpc : s.pc ≠ .expire) : s'.oldest = s.oldest := by
  unfold SweepState.run at hs
  split at hs
  · cases hs
    rw [begin_core]
  · cases hs
    rfl
  · next h => exact absurd h hpc
  · cases hs
    unfold SweepState.stopCheck
    simp only []
    split <;> rfl
  · cases hs
    unfold SweepState.send
    simp only []
    split
    · generalize SweepState.sendRound env.sends s.nsocks s.next s.nsocks = outcome
      split <;> split
      · rfl
      · split <;> rfl
      · rfl
      · split <;> rfl
    · rfl
  · cases hs
    rw [endCheck_core]
  · unfold SweepState.poll at hs
    split at hs
    · cases hs
      rfl
    · split at hs <;> cases hs
      rfl
    · cases hs
      rfl
  · split at hs
    · split at hs
      · unfold SweepState.receive at hs
        split at hs
        · cases hs
          rfl
        · cases hs
        · simp only [] at hs
          split at hs
          · cases hs
            rfl
          · split at hs <;> cases hs <;> rfl
        · cases hs
          rfl
        · cases hs
          rfl
      · cases hs
        rfl
    · cases hs
      rfl
  · cases hs

/-- A step that finds no wait over leaves `oldest` where it is, or goes past a host that was
reported. -/
theorem oldest_step {s s' : SweepState} {l : SweepLabel} (hs : s.step c l = some s')
    (hnot : ∀ env, l = .run env → ¬s.WaitOver c) :
    s'.oldest = s.oldest ∨ s.hosts[s.oldest]? ≠ some .inFlight := by
  cases l with
  | tick ms =>
    cases hs
    exact Or.inl rfl
  | arrive k d =>
    simp only [SweepState.step] at hs
    split at hs <;> cases hs
    exact Or.inl rfl
  | run env =>
    by_cases hpc : s.pc = .expire
    · by_cases hin : s.hosts[s.oldest]? = some .inFlight
      · left
        simp only [SweepState.step, SweepState.run, hpc, Option.some.injEq] at hs
        subst hs
        unfold SweepState.expire
        split
        · next hlt =>
          split
          · rfl
          · next hover => exact absurd ⟨hpc, hlt, hin, by omega⟩ (hnot env rfl)
        · rfl
      · exact Or.inr hin
    · exact Or.inl (oldest_run hs hpc)

/-- The turn of the expiry loop that finds a wait over. -/
theorem log_of_waitOver {s s' : SweepState} {env : SweepEnv} (hs : s.run c env = some s')
    (hover : s.WaitOver c) : s'.log = s.log ++ [(s.clock, .pinged s.oldest false)] := by
  obtain ⟨hpc, hlt, hin, hle⟩ := hover
  simp only [SweepState.run, hpc, Option.some.injEq] at hs
  subst hs
  unfold SweepState.expire
  rw [if_pos hlt, if_pos hin, if_neg (by omega)]
  rfl

/-- A host in flight has a reply in time only in what came in since its socket was last found
empty. -/
theorem answeredInTime_unanswered_iff {k : Core} {i : Nat} (hlogged : Logged c k)
    (hread : Read c k.log k.queues) (hin : k.hosts[i]? = some .inFlight) (t : Int) :
    AnsweredInTime c k.log (t, .pinged i false) ↔ LateSinceDrained c i k.log := by
  have hping : ¬Pinged i k.log := ((hlogged.inFlight_iff i).mp hin).2
  constructor
  · intro hanswered earlier later arrivedAt sock d hlog _ hmatch sentAt hsent
    by_contra hle
    have hreply : InTimeReply c i k.log earlier later sock d := by
      refine ⟨⟨arrivedAt, hlog, sentAt, hsent, by omega⟩, hmatch, ?_⟩
      rintro ⟨t', r, hmem⟩
      exact hping ⟨t', r, by rw [hlog]; exact List.mem_append_left _ hmem⟩
    exact Bool.false_ne_true (hanswered i false rfl earlier later sock d hreply)
  · intro hlate i' answered he earlier later sock d hreply
    cases he
    exfalso
    obtain ⟨⟨arrivedAt, hlog, sentAt, hsent, hle⟩, hmatch, _⟩ := hreply
    by_cases hempty : ∃ t', (t', SweepEvent.empty sock) ∈ later
    · -- it was read by then, and reported
      obtain ⟨t', hempty⟩ := hempty
      obtain ⟨middle, after, rfl⟩ := List.append_of_mem hempty
      have hstart : earlier ++ (arrivedAt, .arrived sock d) :: (middle ++ [(t', .empty sock)]) <+:
          k.log := ⟨after, by rw [hlog]; simp⟩
      obtain ⟨at', hreceived⟩ := read_before_empty hread.order hstart
      obtain ⟨x, y, rfl⟩ := List.append_of_mem hreceived
      have hpre : (earlier ++ (arrivedAt, .arrived sock d) :: x) ++ [(at', .received sock d)] <+:
          k.log := ⟨y ++ (t', .empty sock) :: after, by rw [hlog]; simp⟩
      exact hping (pinged_of_received hread.heard hpre hmatch
        ⟨sentAt, List.mem_append_left _ hsent⟩)
    · have := hlate earlier later arrivedAt sock d hlog (fun t' hmem => hempty ⟨t', hmem⟩) hmatch
        sentAt hsent
      omega

/--
**A reply in time is reported as an answer, in every run in which no reply slips in before an
expiry, and in no other.** No host with a reply in time was reported unanswered, exactly when at
every turn of the expiry loop that found a wait over, what had come in for that host since its
sockets were last found empty had come in later than the timeout after its echo.
-/
theorem answeredInTime_iff (c : SweepConfig) {s₀ s : SweepState} {labels : List SweepLabel}
    (hinit : (sweep c).init s₀) (h : (sweep c).exec s₀ labels = some s) :
    Each (AnsweredInTime c) s.log ↔ (sweep c).EachStep (ExpiresLate c) s₀ labels := by
  refine Lts.exec_induction (P := fun labels s => Each (AnsweredInTime c) s.log ↔
    (sweep c).EachStep (ExpiresLate c) s₀ labels) ?_ ?_ h
  · obtain ⟨clock, rfl⟩ := hinit
    exact iff_of_true (each_nil _) (Lts.eachStep_nil _ _)
  · intro labels l s s' hrun ih hs
    have hreach : (sweep c).Reachable s := ⟨s₀, labels, hinit, hrun⟩
    have hsound := sweep_sound hreach
    rw [Lts.eachStep_concat_iff hrun, ← ih]
    by_cases hover : ∃ env, l = .run env ∧ s.WaitOver c
    · obtain ⟨env, rfl, hover⟩ := hover
      rw [log_of_waitOver hs hover, each_concat_iff,
        answeredInTime_unanswered_iff hsound.logged (sweep_read hreach) hover.2.2.1]
      exact and_congr_right fun _ => ⟨fun hlate _ => hlate, fun hlate => hlate hover⟩
    · have hnot : ∀ env, l = .run env → ¬s.WaitOver c := fun env hl ho => hover ⟨env, hl, ho⟩
      have hstep : ExpiresLate c s l := by
        cases l with
        | run env => exact fun ho => absurd ho (hnot env rfl)
        | tick ms => trivial
        | arrive k d => trivial
      have hchange := step_change hs
      constructor
      · intro hall
        exact ⟨hall.of_prefix hchange.log_grows, hstep⟩
      · rintro ⟨hall, _⟩
        exact each_answeredInTime_change hchange hsound.cursors hsound.logged
          (oldest_step hs hnot) hall

/-- Two hosts, two sockets, a timeout of 10 ms: the second answers after 2 ms, the first after 7. -/
theorem answeredInTime_out_of_order :
    let c : SweepConfig :=
      { ips := [(10, 0, 0, 1), (10, 0, 0, 2)]
        timeoutMs := 10
        maxInFlightArg := 64
        ident := 7
        token := 5
        linux := true
        garbage := fun _ => 0
        count_lt := by decide
        max_lt := by decide }
    ∃ labels s, (sweep c).exec (SweepState.init c 0) labels = some s ∧
      (2, .pinged 1 true) ∈ s.log ∧ (7, .pinged 0 true) ∈ s.log ∧
      Each (AnsweredInTime c) s.log ∧
      (sweep c).EachStep (ExpiresLate c) (SweepState.init c 0) labels := by
  intro c
  let reply (i : UInt8) : Datagram :=
    { bytes := [0, 0, 0, 0, 0, 0, 0, 0, 5, 0, 0, 0, i, 0, 0, 0] ++ List.replicate 24 0
      sender := (10, 0, 0, i + 1) }
  let go : SweepLabel := .run {}
  let labels : List SweepLabel := [go, go, go, go, go, go, go, go, .tick 2, .arrive 1 (reply 1),
    .run { polled := .ready }, go, .run { received := .datagram }, go, go, go, go, go, go, go,
    .tick 5, .arrive 0 (reply 0), .run { polled := .ready }, .run { received := .datagram }]
  let log : List (Int × SweepEvent) :=
    [(0, .echo 0 .ok), (0, .echo 1 .ok), (2, .arrived 1 (reply 1)), (2, .received 1 (reply 1)),
      (2, .pinged 1 true), (2, .empty 1), (7, .arrived 0 (reply 0)), (7, .received 0 (reply 0)),
      (7, .pinged 0 true)]
  have hend : ((sweep c).exec (SweepState.init c 0) labels).map (fun s => s.log) = some log := by
    decide +kernel
  obtain ⟨s, hexec, hlog⟩ := Option.map_eq_some_iff.mp hend
  have hanswered : Each (AnsweredInTime c) s.log := by
    rintro before ⟨t, e⟩ hpre
    refine answeredInTime_of_not_echoed ?_
    rintro i rfl
    -- nobody was reported unanswered
    have hmem : (t, SweepEvent.pinged i false) ∈ s.log := hpre.subset (by simp)
    simp [hlog, log] at hmem
  exact ⟨labels, s, hexec, by simp [hlog, log], by simp [hlog, log], hanswered,
    (answeredInTime_iff c ⟨0, rfl⟩ hexec).mp hanswered⟩

/-- Two hosts, two sockets, a timeout of 10 ms. While the sweep's observer takes 20 ms over
host 1's answer, host 0's reply comes into the other socket, 3 ms after its echo; the loop
goes back to its head and reports host 0 unanswered with the reply unread. -/
theorem slow_callback_loses_reply :
    let c : SweepConfig :=
      { ips := [(10, 0, 0, 1), (10, 0, 0, 2)]
        timeoutMs := 10
        maxInFlightArg := 64
        ident := 7
        token := 5
        linux := true
        garbage := fun _ => 0
        count_lt := by decide
        max_lt := by decide }
    ∃ s, (sweep c).Reachable s ∧ (21, .pinged 0 false) ∈ s.log ∧
      ¬Each (AnsweredInTime c) s.log := by
  intro c
  let reply (i : UInt8) : Datagram :=
    { bytes := [0, 0, 0, 0, 0, 0, 0, 0, 5, 0, 0, 0, i, 0, 0, 0] ++ List.replicate 24 0
      sender := (10, 0, 0, i + 1) }
  let go : SweepLabel := .run {}
  let labels : List SweepLabel := [go, go, go, go, go, go, go, go, .tick 1, .arrive 1 (reply 1),
    .run { polled := .ready }, go, .run { received := .datagram }, .tick 2, .arrive 0 (reply 0),
    .tick 18, .run { received := .failed }, go, go, go]
  let earlier : List (Int × SweepEvent) :=
    [(0, .echo 0 .ok), (0, .echo 1 .ok), (1, .arrived 1 (reply 1)), (1, .received 1 (reply 1)),
      (1, .pinged 1 true)]
  let before : List (Int × SweepEvent) :=
    earlier ++ (3, .arrived 0 (reply 0)) :: [(21, .empty 1)]
  have hend : ((sweep c).exec (SweepState.init c 0) labels).map (fun s => s.log) =
      some (before ++ [(21, .pinged 0 false)]) := by decide +kernel
  obtain ⟨s, hexec, hlog⟩ := Option.map_eq_some_iff.mp hend
  refine ⟨s, ⟨_, labels, ⟨0, rfl⟩, hexec⟩, by simp [hlog], ?_⟩
  rw [hlog]
  intro hanswered
  have hmatch : matchReply c (reply 0) = some 0 := by decide +kernel
  have hreply : InTimeReply c 0 before earlier [(21, .empty 1)] 0 (reply 0) := by
    refine ⟨⟨3, rfl, 0, by simp [earlier], by decide⟩, hmatch, ?_⟩
    rintro ⟨t, r, hmem⟩
    simp [earlier] at hmem
  have := hanswered before (21, .pinged 0 false) List.prefix_rfl 0 false rfl _ _ _ _ hreply
  cases this

end NetScanner.Icmp
