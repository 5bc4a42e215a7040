import Mathlib.Data.List.Nodup

/-!
# Workers that share a counter

Any number of workers take units `0, 1, …, total - 1` off one counter. Before each unit a worker
looks at a stop flag; then it adds one to the counter, and what the counter held is its unit, or
past the last one the sign to end. Every look, every addition and every unit done is one atomic
step, and workers may join at any time.

`Shared` is the invariant: units are drawn in order, one that was drawn is done or in the hands
of exactly one worker, and a worker that has ended without a stop has seen the counter past the
last unit.
-/

namespace NetScanner.Infra

/-- Where a worker is. -/
inductive WorkerAt where
  /-- About to look at the stop flag. -/
  | head
  /-- About to add to the counter. -/
  | claim
  | work (unit : Nat)
  | ended
deriving DecidableEq, Repr

/-- The workers and their counter. -/
structure WorkPool where
  total : Nat
  next : Nat := 0
  workers : List WorkerAt := []
  /-- The units done, in the order they were. -/
  finished : List Nat := []
  /-- Whether a worker has seen the stop flag set. -/
  stopSeen : Bool := false
deriving DecidableEq, Repr

namespace WorkPool

/-- One more worker. -/
def join (p : WorkPool) : WorkPool := { p with workers := p.workers ++ [.head] }

/-- Worker `w` looks at the stop flag. -/
def look (p : WorkPool) (w : Nat) (stop : Bool) : WorkPool :=
  { p with
    workers := p.workers.set w (if stop then .ended else .claim)
    stopSeen := p.stopSeen || stop }

/-- Worker `w` adds to the counter. -/
def claim (p : WorkPool) (w : Nat) : WorkPool :=
  { p with
    next := p.next + 1
    workers := p.workers.set w (if p.next < p.total then .work p.next else .ended) }

/-- Worker `w` is done with a unit. -/
def finish (p : WorkPool) (w unit : Nat) : WorkPool :=
  { p with
    workers := p.workers.set w .head
    finished := p.finished ++ [unit] }

/-- The worker at one place moves. -/
theorem getElem?_set_worker {ws : List WorkerAt} {w : Nat} {old : WorkerAt}
    (hw : ws[w]? = some old) (new : WorkerAt) (v : Nat) :
    (ws.set w new)[v]? = if v = w then some new else ws[v]? := by
  obtain ⟨hlt, _⟩ := List.getElem?_eq_some_iff.mp hw
  by_cases hv : v = w
  · subst hv
    rw [List.getElem?_set_self hlt, if_pos rfl]
  · rw [List.getElem?_set_ne (fun e => hv e.symm), if_neg hv]

/-- Worker `w` has ended. -/
def Gone (p : WorkPool) (w : Nat) : Prop := p.workers[w]? = some .ended

instance (p : WorkPool) (w : Nat) : Decidable (p.Gone w) := inferInstanceAs (Decidable (_ = _))

theorem Gone.join {p : WorkPool} {w : Nat} (h : p.Gone w) : p.join.Gone w := by
  show (p.workers ++ [WorkerAt.head])[w]? = some .ended
  rw [List.getElem?_append_left (List.getElem?_eq_some_iff.mp h).1]
  exact h

/-- The units against the counter and the workers. -/
structure Shared (p : WorkPool) : Prop where
  working : ∀ w i : Nat, p.workers[w]? = some (.work i) → i < p.next ∧ i < p.total ∧ i ∉ p.finished
  alone : ∀ w v i : Nat, p.workers[w]? = some (.work i) → p.workers[v]? = some (.work i) → w = v
  nodup : p.finished.Nodup
  drawn : ∀ i ∈ p.finished, i < p.next ∧ i < p.total
  covered : ∀ i < p.next, i < p.total → i ∈ p.finished ∨ ∃ w : Nat, p.workers[w]? = some (.work i)
  spent : p.stopSeen = false → ∀ w : Nat, p.Gone w → p.total ≤ p.next

theorem Shared.start (total : Nat) : Shared { total := total } where
  working := by simp
  alone := by simp
  nodup := List.nodup_nil
  drawn := by simp
  covered := by simp
  spent := by simp [Gone]

variable {p : WorkPool}

theorem Shared.join (h : p.Shared) : p.join.Shared := by
  have hget : ∀ (w : Nat) place, place ≠ .head → (p.workers ++ [.head])[w]? = some place →
      p.workers[w]? = some place := by
    intro w place hne hw
    by_cases hlt : w < p.workers.length
    · rwa [List.getElem?_append_left hlt] at hw
    · rw [List.getElem?_append_right (by omega), List.getElem?_singleton] at hw
      split at hw
      · cases hw
        exact absurd rfl hne
      · cases hw
  refine ⟨fun w i hw => h.working w i (hget w _ (by simp) hw), ?_, h.nodup, h.drawn, ?_,
    fun hs w hw => h.spent hs w (hget w _ (by simp) hw)⟩
  · exact fun w v i hw hv => h.alone w v i (hget w _ (by simp) hw) (hget v _ (by simp) hv)
  · intro i hi hlt
    rcases h.covered i hi hlt with hdone | ⟨w, hw⟩
    · exact Or.inl hdone
    · refine Or.inr ⟨w, ?_⟩
      show (p.workers ++ [.head])[w]? = _
      rw [List.getElem?_append_left (List.getElem?_eq_some_iff.mp hw).1]
      exact hw

/-- A worker looks at the stop flag: it holds no unit before or after. -/
theorem Shared.look (h : p.Shared) {w : Nat} (hw : p.workers[w]? = some .head) (stop : Bool) :
    (p.look w stop).Shared := by
  have hget := fun v => getElem?_set_worker hw (if stop then .ended else .claim) v
  have hwork : ∀ v i : Nat, (p.look w stop).workers[v]? = some (.work i) →
      p.workers[v]? = some (.work i) := by
    intro v i hv
    have hv : (p.workers.set w (if stop then .ended else .claim))[v]? = some (.work i) := hv
    rw [hget] at hv
    split at hv
    · cases stop <;> cases hv
    · exact hv
  refine ⟨fun v i hv => h.working v i (hwork v i hv),
    fun v v' i hv hv' => h.alone v v' i (hwork v i hv) (hwork v' i hv'), h.nodup, h.drawn, ?_, ?_⟩
  · intro i hi hlt
    rcases h.covered i hi hlt with hdone | ⟨v, hv⟩
    · exact Or.inl hdone
    · refine Or.inr ⟨v, ?_⟩
      show (p.workers.set w _)[v]? = _
      rw [hget, if_neg]
      · exact hv
      · rintro rfl
        rw [hw] at hv
        cases hv
  · intro hs v hv
    have hboth : p.stopSeen = false ∧ stop = false := by
      have hs : (p.stopSeen || stop) = false := hs
      simpa using hs
    have hv : (p.workers.set w (if stop then .ended else .claim))[v]? = some .ended := hv
    rw [hget, hboth.2] at hv
    split at hv
    · cases hv
    · exact h.spent hboth.1 v hv

/-- **A unit is drawn once.** -/
theorem Shared.claim (h : p.Shared) {w : Nat} (hw : p.workers[w]? = some .claim) :
    (p.claim w).Shared := by
  have hget := fun v =>
    getElem?_set_worker hw (if p.next < p.total then .work p.next else .ended) v
  have hwork : ∀ v i : Nat, (p.claim w).workers[v]? = some (.work i) →
      v = w ∧ i = p.next ∧ p.next < p.total ∨ v ≠ w ∧ p.workers[v]? = some (.work i) := by
    intro v i hv
    have hv : (p.workers.set w (if p.next < p.total then .work p.next else .ended))[v]? =
      some (.work i) := hv
    rw [hget] at hv
    split at hv
    · next heq =>
      split at hv
      · next hlt =>
        cases hv
        exact Or.inl ⟨heq, rfl, hlt⟩
      · cases hv
    · next hne => exact Or.inr ⟨hne, hv⟩
  -- what others hold was drawn before
  have hold : ∀ v i : Nat, p.workers[v]? = some (.work i) → i < p.next := fun v i hv =>
    (h.working v i hv).1
  refine ⟨?_, ?_, h.nodup, ?_, ?_, ?_⟩
  · intro v i hv
    show i < p.next + 1 ∧ i < p.total ∧ i ∉ p.finished
    rcases hwork v i hv with ⟨_, rfl, hlt⟩ | ⟨_, hv⟩
    · exact ⟨Nat.lt_succ_self _, hlt, fun hmem => Nat.lt_irrefl _ (h.drawn _ hmem).1⟩
    · obtain ⟨h1, h2, h3⟩ := h.working v i hv
      exact ⟨Nat.lt_succ_of_lt h1, h2, h3⟩
  · intro v v' i hv hv'
    rcases hwork v i hv with ⟨rfl, rfl, _⟩ | ⟨_, hv⟩
    · rcases hwork v' _ hv' with ⟨rfl, _, _⟩ | ⟨_, hv'⟩
      · rfl
      · exact absurd (hold v' _ hv') (Nat.lt_irrefl _)
    · rcases hwork v' i hv' with ⟨_, rfl, _⟩ | ⟨_, hv'⟩
      · exact absurd (hold v _ hv) (Nat.lt_irrefl _)
      · exact h.alone v v' i hv hv'
  · intro i hi
    obtain ⟨h1, h2⟩ := h.drawn i hi
    exact ⟨Nat.lt_succ_of_lt h1, h2⟩
  · intro i hi hlt
    have hlt : i < p.total := hlt
    rcases Nat.lt_or_eq_of_le (Nat.le_of_lt_succ hi) with hi | rfl
    · rcases h.covered i hi hlt with hdone | ⟨v, hv⟩
      · exact Or.inl hdone
      · refine Or.inr ⟨v, ?_⟩
        show (p.workers.set w _)[v]? = _
        rw [hget, if_neg]
        · exact hv
        · rintro rfl
          rw [hw] at hv
          cases hv
    · refine Or.inr ⟨w, ?_⟩
      show (p.workers.set w _)[w]? = _
      rw [hget, if_pos rfl, if_pos hlt]
  · intro hs v hv
    show p.total ≤ p.next + 1
    have hv : (p.workers.set w (if p.next < p.total then .work p.next else .ended))[v]? =
      some .ended := hv
    rw [hget] at hv
    split at hv
    · split at hv
      · cases hv
      · omega
    · have := h.spent hs v hv
      omega

/-- **A unit is done once**, by the worker that drew it. -/
theorem Shared.finish (h : p.Shared) {w i : Nat} (hw : p.workers[w]? = some (.work i)) :
    (p.finish w i).Shared := by
  obtain ⟨hdrawn, hlt, hnew⟩ := h.working w i hw
  have hget := fun v => getElem?_set_worker hw .head v
  have hother : ∀ (v : Nat) place, place ≠ .head → (p.finish w i).workers[v]? = some place →
      v ≠ w ∧ p.workers[v]? = some place := by
    intro v place hne hv
    have hv : (p.workers.set w .head)[v]? = some place := hv
    rw [hget] at hv
    split at hv
    · cases hv
      exact absurd rfl hne
    · next hvw => exact ⟨hvw, hv⟩
  refine ⟨?_, ?_, ?_, ?_, ?_, fun hs v hv => h.spent hs v (hother v _ (by simp) hv).2⟩
  · intro v j hv
    obtain ⟨hne, hv⟩ := hother v _ (by simp) hv
    obtain ⟨h1, h2, h3⟩ := h.working v j hv
    refine ⟨h1, h2, fun hmem => ?_⟩
    rcases List.mem_append.mp hmem with hmem | hmem
    · exact h3 hmem
    · rw [List.mem_singleton.mp hmem] at hv
      exact hne (h.alone v w i hv hw)
  · intro v v' j hv hv'
    exact h.alone v v' j (hother v _ (by simp) hv).2 (hother v' _ (by simp) hv').2
  · refine h.nodup.append (List.nodup_singleton _) fun j hj hj' => ?_
    rw [List.mem_singleton.mp hj'] at hj
    exact hnew hj
  · intro j hj
    rcases List.mem_append.mp hj with hj | hj
    · exact h.drawn j hj
    · rw [List.mem_singleton.mp hj]
      exact ⟨hdrawn, hlt⟩
  · intro j hj hjt
    by_cases heq : j = i
    · exact Or.inl (List.mem_append_right _ (by simp [heq]))
    · rcases h.covered j hj hjt with hdone | ⟨v, hv⟩
      · exact Or.inl (List.mem_append_left _ hdone)
      · refine Or.inr ⟨v, ?_⟩
        show (p.workers.set w .head)[v]? = _
        rw [hget, if_neg]
        · exact hv
        · rintro rfl
          rw [hw] at hv
          cases hv
          exact heq rfl

/-- **Once every worker has ended, nothing is left out**: without a stop, and with a worker to do
it. -/
theorem Shared.complete (h : p.Shared) (hended : ∀ w < p.workers.length, p.Gone w)
    (hsome : p.workers ≠ []) (hstop : p.stopSeen = false) : ∀ i < p.total, i ∈ p.finished := by
  intro i hi
  have hspent := h.spent hstop 0 (hended 0 (List.length_pos_of_ne_nil hsome))
  rcases h.covered i (by omega) hi with hdone | ⟨v, hv⟩
  · exact hdone
  · have hv' := hended v (List.getElem?_eq_some_iff.mp hv).1
    unfold Gone at hv'
    rw [hv] at hv'
    cases hv'

end WorkPool

end NetScanner.Infra
