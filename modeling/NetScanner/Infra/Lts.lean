import NetScanner.Infra.History

/-!
# Labelled steps and whole runs

A program that takes step after step is modelled by one executable step function.
The label says who moves and what the environment answers (a clock reading, the result
of a system call, which thread goes next), so a list of labels is one interleaving.

* `exec` runs a list of labels; it is `none` as soon as a step is not enabled.
* `EachStep` says something of every step of a run, in the state it is taken from.
* `Reachable` is the set of states some list of labels leads to.
* `Reachable.invariant` is the only induction over runs: what holds at the start and is
  kept by every step holds in every reachable state. `exec_induction` is the same for
  properties that also look at the labels taken so far.
-/

namespace NetScanner.Infra

/-- A transition system: where runs start, and what each label does. -/
structure Lts (State Label : Type*) where
  init : State → Prop
  step : State → Label → Option State

namespace Lts

variable {State Label : Type*} {T : Lts State Label}

/-- Take the steps of `labels` one after the other. -/
def exec (T : Lts State Label) (s : State) : List Label → Option State
  | [] => some s
  | l :: labels => (T.step s l).bind fun s' => T.exec s' labels

@[simp] theorem exec_nil (s : State) : T.exec s [] = some s := rfl

theorem exec_cons (s : State) (l : Label) (labels : List Label) :
    T.exec s (l :: labels) = (T.step s l).bind fun s' => T.exec s' labels := rfl

theorem exec_append (s : State) (as bs : List Label) :
    T.exec s (as ++ bs) = (T.exec s as).bind fun s' => T.exec s' bs := by
  induction as generalizing s with
  | nil => rfl
  | cons a as ih =>
    rw [List.cons_append, exec_cons, exec_cons]
    cases T.step s a with
    | none => rfl
    | some s' => exact ih s'

/-- A run of one more label ends in a step from the end of the run before it. -/
theorem exec_concat_eq_some {s s'' : State} {labels : List Label} {l : Label} :
    T.exec s (labels ++ [l]) = some s'' ↔
      ∃ s', T.exec s labels = some s' ∧ T.step s' l = some s'' := by
  rw [exec_append, Option.bind_eq_some_iff]
  simp [exec_cons]

/--
**Induction over a run.**

`P labels s` holds after the empty run, and one more step keeps it: then it holds at the
end of every run from `s₀`. The step is handed the run before it, so `P` may be used
there, together with anything known of the labels.
-/
theorem exec_induction {s₀ : State} {P : List Label → State → Prop} (hnil : P [] s₀)
    (hstep : ∀ labels l s s', T.exec s₀ labels = some s → P labels s → T.step s l = some s' →
      P (labels ++ [l]) s') :
    ∀ {labels : List Label} {s : State}, T.exec s₀ labels = some s → P labels s := by
  intro labels
  induction labels using List.reverseRecOn with
  | nil =>
    intro s h
    cases h
    exact hnil
  | append_singleton labels l ih =>
    intro s' h
    obtain ⟨s, hrun, hlast⟩ := exec_concat_eq_some.mp h
    exact hstep labels l s s' hrun (ih hrun) hlast

/-- Every step of a run, in the state it is taken from. -/
def EachStep (T : Lts State Label) (P : State → Label → Prop) (s₀ : State) (labels : List Label) :
    Prop :=
  Each (fun before l => ∀ s, T.exec s₀ before = some s → P s l) labels

theorem eachStep_nil (P : State → Label → Prop) (s₀ : State) : T.EachStep P s₀ [] := each_nil _

/-- One more step. -/
theorem eachStep_concat_iff {P : State → Label → Prop} {s₀ s : State} {labels : List Label}
    {l : Label} (h : T.exec s₀ labels = some s) :
    T.EachStep P s₀ (labels ++ [l]) ↔ T.EachStep P s₀ labels ∧ P s l := by
  rw [EachStep, EachStep, each_concat_iff]
  refine and_congr_right fun _ => ⟨fun hlast => hlast s h, ?_⟩
  intro hs s' h'
  rw [h] at h'
  cases h'
  exact hs

/-- A state some run leads to. -/
def Reachable (T : Lts State Label) (s : State) : Prop :=
  ∃ s₀ labels, T.init s₀ ∧ T.exec s₀ labels = some s

theorem Reachable.of_init {s : State} (h : T.init s) : T.Reachable s :=
  ⟨s, [], h, rfl⟩

theorem Reachable.step {s s' : State} {l : Label} (h : T.Reachable s)
    (hs : T.step s l = some s') : T.Reachable s' := by
  obtain ⟨s₀, labels, hinit, hrun⟩ := h
  exact ⟨s₀, labels ++ [l], hinit, exec_concat_eq_some.mpr ⟨s, hrun, hs⟩⟩

/-- **The invariant rule.** What holds at the start and is kept by every step from a
reachable state holds in every reachable state. -/
theorem Reachable.invariant {I : State → Prop} (hinit : ∀ s, T.init s → I s)
    (hstep : ∀ s l s', T.Reachable s → I s → T.step s l = some s' → I s') {s : State}
    (h : T.Reachable s) : I s := by
  obtain ⟨s₀, labels, h₀, hrun⟩ := h
  refine exec_induction (P := fun _ s => I s) (hinit s₀ h₀) ?_ hrun
  intro labels l s s' hr hi hs
  exact hstep s l s' ⟨s₀, labels, h₀, hr⟩ hi hs

/-! ## Watching a run

`watch` runs beside a system and keeps a note of what it sees, which the system itself does not
look at. -/

section Watch

variable {Note : Type*}

/-- The system with a watcher, who starts with `note₀` and sees each step before it is taken. -/
def watch (T : Lts State Label) (note₀ : Note) (see : Note → State → Label → Note) :
    Lts (State × Note) Label where
  init p := T.init p.1 ∧ p.2 = note₀
  step p l := (T.step p.1 l).map fun s' => (s', see p.2 p.1 l)

variable {note₀ : Note} {see : Note → State → Label → Note}

theorem watch_step {p p' : State × Note} {l : Label} (h : (T.watch note₀ see).step p l = some p') :
    T.step p.1 l = some p'.1 ∧ p'.2 = see p.2 p.1 l := by
  obtain ⟨s', hs, rfl⟩ := Option.map_eq_some_iff.mp h
  exact ⟨hs, rfl⟩

/-- The watcher sees runs of the system only. -/
theorem Reachable.unwatch {p : State × Note} (h : (T.watch note₀ see).Reachable p) :
    T.Reachable p.1 := by
  refine h.invariant (I := fun p => T.Reachable p.1) ?_ ?_
  · intro p hp
    exact Reachable.of_init hp.1
  · intro p l p' _ hp hs
    exact hp.step (watch_step hs).1

/-- The watcher is there from the first step of a run to its last. -/
theorem exec_watch {s s' : State} {labels : List Label} (h : T.exec s labels = some s')
    (note : Note) : ∃ note', (T.watch note₀ see).exec (s, note) labels = some (s', note') := by
  induction labels generalizing s note with
  | nil =>
    cases h
    exact ⟨note, rfl⟩
  | cons l labels ih =>
    rw [exec_cons, Option.bind_eq_some_iff] at h
    obtain ⟨s₁, hs, h⟩ := h
    obtain ⟨note', hrun⟩ := ih h (see note s l)
    refine ⟨note', ?_⟩
    have hstep : (T.watch note₀ see).step (s, note) l = some (s₁, see note s l) := by
      show (T.step s l).map _ = _
      rw [hs]
      rfl
    rw [exec_cons, hstep]
    exact hrun

/-- **The watcher misses no run.** -/
theorem Reachable.watched {s : State} (h : T.Reachable s) (note₀ : Note)
    (see : Note → State → Label → Note) : ∃ note, (T.watch note₀ see).Reachable (s, note) := by
  refine h.invariant (I := fun s => ∃ note, (T.watch note₀ see).Reachable (s, note)) ?_ ?_
  · intro s hs
    exact ⟨note₀, Reachable.of_init ⟨hs, rfl⟩⟩
  · rintro s l s' _ ⟨note, hnote⟩ hs
    refine ⟨see note s l, hnote.step (l := l) ?_⟩
    show (T.step s l).map _ = _
    rw [hs]
    rfl

end Watch

end Lts

end NetScanner.Infra
