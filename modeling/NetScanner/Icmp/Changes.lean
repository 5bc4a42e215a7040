import NetScanner.Icmp.Sweep

/-!
# What a step of a ping sweep can do

`Change` lists everything a step of the sweep or of its environment can do to the hosts, the
cursors, the sockets and the log; `step_change` says that there is nothing else. `Moves` is what
a step of the sweep does to its place in the loop and to its own variables (`run_moves`).
-/

namespace NetScanner.Icmp

/-- What one step changes of the hosts, the cursors, the sockets and the log. -/
inductive Change (c : SweepConfig) : Core → Core → Prop
  | rest (k : Core) : Change c k k
  | tick (k : Core) (ms : Nat) : Change c k { k with clock := k.clock + ms }
  | arrive (k : Core) (sock : Nat) (d : Datagram) :
      Change c k { k.note [.arrived sock d] with
        queues := Function.update k.queues sock (k.queues sock ++ [d]) }
  | skip (k : Core) : k.oldest < k.next → k.hosts[k.oldest]? ≠ some .inFlight →
      Change c k { k with oldest := k.oldest + 1 }
  | expire (k : Core) : k.oldest < k.next → k.hosts[k.oldest]? = some .inFlight →
      Change c k { k.report k.oldest false with
        inFlight := sizeDec k.inFlight
        oldest := k.oldest + 1 }
  | stop (k : Core) : k.stopped = false → Change c k { k.note [.stopSeen] with stopped := true }
  | busy (k : Core) : k.stopped = false → k.next < c.count →
      Change c k (k.note [.echo k.next .busy])
  | sent (k : Core) : k.stopped = false → k.next < c.count → k.inFlight < c.maxInFlight →
      Change c k { (k.note [.echo k.next .ok]).setHost k.next .inFlight with
        inFlight := sizeInc k.inFlight
        next := k.next + 1 }
  | unsent (k : Core) (o : SendOutcome) : o ≠ .ok → k.stopped = false → k.next < c.count →
      Change c k { (k.note [.echo k.next o]).report k.next false with next := k.next + 1 }
  | ignore (k : Core) (sock : Nat) (d : Datagram) (rest : List Datagram) :
      k.queues sock = d :: rest →
      (∀ i, matchReply c d = some i → k.hosts[i]? ≠ some .inFlight) →
      Change c k { k.note [.received sock d] with queues := Function.update k.queues sock rest }
  | answer (k : Core) (sock : Nat) (d : Datagram) (rest : List Datagram) (i : Nat) :
      k.queues sock = d :: rest → matchReply c d = some i → k.hosts[i]? = some .inFlight →
      Change c k { Core.report { k.note [.received sock d] with
          queues := Function.update k.queues sock rest } i true with
        inFlight := sizeDec k.inFlight }
  | drained (k : Core) (sock : Nat) : k.queues sock = [] → Change c k (k.note [.empty sock])
  | quiet (k : Core) (n : Nat) : (∀ j < n, k.queues j = []) →
      Change c k (k.note ((List.range n).map .empty))

variable {c : SweepConfig}

theorem begin_core (env : SweepEnv) (s : SweepState) : (s.begin c env).toCore = s.toCore := by
  unfold SweepState.begin
  split
  · rfl
  · simp only []
    split
    · rfl
    · split <;> rfl

theorem expire_change (s : SweepState) : Change c s.toCore (s.expire c).toCore := by
  unfold SweepState.expire
  split
  · next hlt =>
    split
    · next hin =>
      split
      · exact Change.rest _
      · exact Change.expire _ hlt hin
    · next hin => exact Change.skip _ hlt hin
  · exact Change.rest _

theorem stopCheck_change (env : SweepEnv) (s : SweepState) :
    Change c s.toCore (s.stopCheck env).toCore := by
  unfold SweepState.stopCheck
  simp only []
  split
  · next h => exact Change.stop _ h.1
  · exact Change.rest _

theorem send_change (env : SweepEnv) (s : SweepState) :
    Change c s.toCore (s.send c env).toCore := by
  unfold SweepState.send
  split
  · next h =>
    obtain ⟨hstop, hnext, hmax, _⟩ := h
    simp only []
    generalize SweepState.sendRound env.sends s.nsocks s.next s.nsocks = outcome
    cases outcome with
    | ok =>
      simp only [reduceCtorEq, false_and, if_false, if_true]
      exact Change.sent _ hstop hnext hmax
    | failed =>
      simp only [reduceCtorEq, false_and, if_false]
      exact Change.unsent _ .failed (by simp) hstop hnext
    | busy =>
      simp only [reduceCtorEq, true_and, if_false]
      split
      · next hneg =>
        -- the first time every socket was full: `busy_since` is now
        split
        · exact Change.busy _ hstop hnext
        · exact Change.unsent _ .busy (by simp) hstop hnext
      · split
        · exact Change.busy _ hstop hnext
        · exact Change.unsent _ .busy (by simp) hstop hnext
  · exact Change.rest _

theorem endCheck_core (s : SweepState) : (s.endCheck c).toCore = s.toCore := by
  unfold SweepState.endCheck
  split <;> rfl

theorem poll_change {env : SweepEnv} {s s' : SweepState} (h : s.poll env = some s') :
    Change c s.toCore s'.toCore := by
  unfold SweepState.poll at h
  split at h
  · cases h
    exact Change.rest _
  · split at h
    · next hempty =>
      cases h
      exact Change.quiet _ _ hempty
    · simp at h
  · cases h
    exact Change.rest _

theorem receive_change {env : SweepEnv} {s s' : SweepState} {k : Nat} {readable : Nat → Bool}
    (h : s.receive c env k readable = some s') : Change c s.toCore s'.toCore := by
  unfold SweepState.receive at h
  split at h
  · cases h
    exact Change.rest _
  · simp at h
  · next d rest _ hqueue =>
    simp only [] at h
    split at h
    · next hmatch =>
      cases h
      exact Change.ignore _ k d rest hqueue (by simp [hmatch])
    · next i hmatch =>
      split at h
      · next hin =>
        cases h
        exact Change.answer _ k d rest i hqueue hmatch hin
      · next hin =>
        cases h
        refine Change.ignore _ k d rest hqueue ?_
        intro j hj
        rw [hmatch] at hj
        cases hj
        exact hin
  · next _ hqueue =>
    cases h
    exact Change.drained _ k hqueue
  · cases h
    exact Change.rest _

theorem run_change {env : SweepEnv} {s s' : SweepState} (h : s.run c env = some s') :
    Change c s.toCore s'.toCore := by
  unfold SweepState.run at h
  split at h
  · cases h
    rw [begin_core]
    exact Change.rest _
  · cases h
    exact Change.rest _
  · cases h
    exact expire_change s
  · cases h
    exact stopCheck_change env s
  · cases h
    exact send_change env s
  · cases h
    rw [endCheck_core]
    exact Change.rest _
  · exact poll_change h
  · split at h
    · split at h
      · exact receive_change h
      · cases h
        exact Change.rest _
    · cases h
      exact Change.rest _
  · simp at h

/-- **Every step is one of the changes.** -/
theorem step_change {s s' : SweepState} {l : SweepLabel} (h : s.step c l = some s') :
    Change c s.toCore s'.toCore := by
  cases l with
  | tick ms =>
    cases h
    exact Change.tick _ ms
  | arrive k d =>
    simp only [SweepState.step] at h
    split at h
    · cases h
      exact Change.arrive _ k d
    · simp at h
  | run env => exact run_change h

/-- Nothing is taken out of the log. -/
theorem Change.log_grows {k k' : Core} (h : Change c k k') : k.log <+: k'.log := by
  cases h with
  | rest | tick | skip => exact List.prefix_rfl
  | unsent _ _ _ _ =>
    show k.log <+: k.log ++ _ ++ _
    rw [List.append_assoc]
    exact List.prefix_append _ _
  | answer =>
    show k.log <+: k.log ++ _ ++ _
    rw [List.append_assoc]
    exact List.prefix_append _ _
  | _ => exact List.prefix_append _ _

/-! ## From one place to the next -/

/-- The sweep may go from one place straight to another. -/
def Pc.leadsTo : Pc → Pc → Bool
  | .begin, .head | .begin, .returned _ | .head, .expire => true
  | .expire, .expire | .expire, .stopCheck | .stopCheck, .send => true
  | .send, .send | .send, .endCheck | .endCheck, .returned _ | .endCheck, .poll _ => true
  | .poll _, .head | .poll _, .drain _ _ | .drain _ _, .drain _ _ | .drain _ _, .head => true
  | _, _ => false

/-- What a step of the sweep does to its place, and which of its variables it leaves alone. -/
structure Moves (s s' : SweepState) : Prop where
  leads : s.pc.leadsTo s'.pc = true
  fixed : s.pc ≠ .begin → s'.started = s.started ∧ s'.nsocks = s.nsocks
  now : s.pc ≠ .head → s'.now = s.now
  unsent : s.pc ≠ .send → s'.next = s.next ∧ s'.sentAt = s.sentAt

/-- A step that leaves all of them alone. -/
theorem Moves.quiet {s s' : SweepState} (hleads : s.pc.leadsTo s'.pc = true)
    (hfixed : s'.started = s.started ∧ s'.nsocks = s.nsocks) (hnow : s'.now = s.now)
    (hsent : s'.next = s.next ∧ s'.sentAt = s.sentAt) : Moves s s' :=
  ⟨hleads, fun _ => hfixed, fun _ => hnow, fun _ => hsent⟩

theorem begin_moves {env : SweepEnv} {s : SweepState} (hpc : s.pc = .begin) :
    Moves s (s.begin c env) := by
  have hdone : ∀ r, s.pc.leadsTo (.returned r) = true := fun r => by rw [hpc]; rfl
  have hgo : s.pc.leadsTo .head = true := by rw [hpc]; rfl
  unfold SweepState.begin
  split
  · exact .quiet (hdone _) ⟨rfl, rfl⟩ rfl ⟨rfl, rfl⟩
  · simp only []
    split
    · exact .quiet (hdone _) ⟨rfl, rfl⟩ rfl ⟨rfl, rfl⟩
    · split
      · exact .quiet (hdone _) ⟨rfl, rfl⟩ rfl ⟨rfl, rfl⟩
      · exact ⟨hgo, fun h => absurd hpc h, fun _ => rfl, fun _ => ⟨rfl, rfl⟩⟩

theorem expire_moves {s : SweepState} (hpc : s.pc = .expire) : Moves s (s.expire c) := by
  have hstay : s.pc.leadsTo s.pc = true := by rw [hpc]; rfl
  have hgo : s.pc.leadsTo .stopCheck = true := by rw [hpc]; rfl
  unfold SweepState.expire
  split
  · split
    · split
      · exact .quiet hgo ⟨rfl, rfl⟩ rfl ⟨rfl, rfl⟩
      · exact .quiet hstay ⟨rfl, rfl⟩ rfl ⟨rfl, rfl⟩
    · exact .quiet hstay ⟨rfl, rfl⟩ rfl ⟨rfl, rfl⟩
  · exact .quiet hgo ⟨rfl, rfl⟩ rfl ⟨rfl, rfl⟩

theorem stopCheck_moves {env : SweepEnv} {s : SweepState} (hpc : s.pc = .stopCheck) :
    Moves s (s.stopCheck env) := by
  have hgo : s.pc.leadsTo .send = true := by rw [hpc]; rfl
  unfold SweepState.stopCheck
  simp only []
  split <;> exact .quiet hgo ⟨rfl, rfl⟩ rfl ⟨rfl, rfl⟩

theorem send_moves {env : SweepEnv} {s : SweepState} (hpc : s.pc = .send) :
    Moves s (s.send c env) := by
  have hstay : s.pc.leadsTo s.pc = true := by rw [hpc]; rfl
  have hgo : s.pc.leadsTo .endCheck = true := by rw [hpc]; rfl
  unfold SweepState.send
  split
  · simp only []
    generalize SweepState.sendRound env.sends s.nsocks s.next s.nsocks = outcome
    cases outcome with
    | ok => exact ⟨hstay, fun _ => ⟨rfl, rfl⟩, fun _ => rfl, fun h => absurd hpc h⟩
    | failed => exact ⟨hstay, fun _ => ⟨rfl, rfl⟩, fun _ => rfl, fun h => absurd hpc h⟩
    | busy =>
      simp only [reduceCtorEq, true_and, if_false]
      split
      · split
        · exact .quiet hgo ⟨rfl, rfl⟩ rfl ⟨rfl, rfl⟩
        · exact ⟨hstay, fun _ => ⟨rfl, rfl⟩, fun _ => rfl, fun h => absurd hpc h⟩
      · split
        · exact .quiet hgo ⟨rfl, rfl⟩ rfl ⟨rfl, rfl⟩
        · exact ⟨hstay, fun _ => ⟨rfl, rfl⟩, fun _ => rfl, fun h => absurd hpc h⟩
  · exact .quiet hgo ⟨rfl, rfl⟩ rfl ⟨rfl, rfl⟩

theorem endCheck_moves {s : SweepState} (hpc : s.pc = .endCheck) : Moves s (s.endCheck c) := by
  have hdone : s.pc.leadsTo (.returned .done) = true := by rw [hpc]; rfl
  have hgo : s.pc.leadsTo (.poll (s.waitMs c)) = true := by rw [hpc]; rfl
  unfold SweepState.endCheck
  split
  · exact .quiet hdone ⟨rfl, rfl⟩ rfl ⟨rfl, rfl⟩
  · exact .quiet hgo ⟨rfl, rfl⟩ rfl ⟨rfl, rfl⟩

theorem poll_moves {env : SweepEnv} {s s' : SweepState} {wait : Int} (hpc : s.pc = .poll wait)
    (hs : s.poll env = some s') : Moves s s' := by
  have hback : s.pc.leadsTo .head = true := by rw [hpc]; rfl
  unfold SweepState.poll at hs
  split at hs
  · cases hs
    exact .quiet hback ⟨rfl, rfl⟩ rfl ⟨rfl, rfl⟩
  · split at hs
    · cases hs
      exact .quiet hback ⟨rfl, rfl⟩ rfl ⟨rfl, rfl⟩
    · simp at hs
  · cases hs
    exact .quiet (by rw [hpc]; rfl) ⟨rfl, rfl⟩ rfl ⟨rfl, rfl⟩

theorem receive_moves {env : SweepEnv} {s s' : SweepState} {k : Nat} {readable : Nat → Bool}
    (hpc : s.pc = .drain k readable) (hs : s.receive c env k readable = some s') :
    Moves s s' := by
  have hstay : s.pc.leadsTo s.pc = true := by rw [hpc]; rfl
  have hgo : s.pc.leadsTo (.drain (k + 1) readable) = true := by rw [hpc]; rfl
  unfold SweepState.receive at hs
  split at hs
  · cases hs
    exact .quiet hstay ⟨rfl, rfl⟩ rfl ⟨rfl, rfl⟩
  · simp at hs
  · simp only [] at hs
    split at hs
    · cases hs
      exact .quiet hstay ⟨rfl, rfl⟩ rfl ⟨rfl, rfl⟩
    · split at hs <;> cases hs <;> exact .quiet hstay ⟨rfl, rfl⟩ rfl ⟨rfl, rfl⟩
  · cases hs
    exact .quiet hgo ⟨rfl, rfl⟩ rfl ⟨rfl, rfl⟩
  · cases hs
    exact .quiet hgo ⟨rfl, rfl⟩ rfl ⟨rfl, rfl⟩

/-- **Every step goes one way through the loop**, and reads the clock and sends where it should. -/
theorem run_moves {env : SweepEnv} {s s' : SweepState} (hs : s.run c env = some s') :
    Moves s s' := by
  unfold SweepState.run at hs
  split at hs
  · next hpc =>
    cases hs
    exact begin_moves hpc
  · next hpc =>
    cases hs
    exact ⟨by rw [hpc]; rfl, fun _ => ⟨rfl, rfl⟩, fun h => absurd hpc h, fun _ => ⟨rfl, rfl⟩⟩
  · next hpc =>
    cases hs
    exact expire_moves hpc
  · next hpc =>
    cases hs
    exact stopCheck_moves hpc
  · next hpc =>
    cases hs
    exact send_moves hpc
  · next hpc =>
    cases hs
    exact endCheck_moves hpc
  · next hpc => exact poll_moves hpc hs
  · next hpc =>
    split at hs
    · split at hs
      · exact receive_moves hpc hs
      · cases hs
        exact .quiet (by rw [hpc]; rfl) ⟨rfl, rfl⟩ rfl ⟨rfl, rfl⟩
    · cases hs
      exact .quiet (by rw [hpc]; rfl) ⟨rfl, rfl⟩ rfl ⟨rfl, rfl⟩
  · simp at hs

/-- A sweep returns from the start, or from the end of an iteration. -/
theorem Pc.leadsTo_returned {pc : Pc} {r : SweepResult} (h : pc.leadsTo (.returned r) = true) :
    pc = .begin ∨ pc = .endCheck := by
  cases pc <;> simp_all [Pc.leadsTo]

end NetScanner.Icmp
