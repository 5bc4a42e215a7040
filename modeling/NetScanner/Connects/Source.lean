import NetScanner.Connects.Window
import Mathlib.Algebra.Order.Group.Multiset

/-!
# The source of a run

`connects.run` takes a pointer to anything with `next` and `done` (and perhaps `waitCap`).
`Source` is that interface, and `Call` one call made on it.

`Serving` is what a source can rely on: the calls are made one at a time, every verdict is
about a connect it handed out before and that had no verdict yet, and the job comes back
unchanged. It carries the multiset of the connects still out. A run that ends well ends in
a `Pass`: the source ran dry and nothing is out any more.
-/

namespace NetScanner.Connects

/-- What a run pulls its connects from and reports verdicts to. -/
structure Source (Job σ : Type*) where
  /-- The next connect, or none when there are no more. -/
  next : σ → Option Job × σ
  /-- One connect's verdict, and how long its answer took. -/
  done : σ → Job → Outcome → Nat → σ
  /-- The optional `waitCap` method. -/
  waitCap : Option (σ → Option Nat) := none

/-- One call on a source, with what `next` answered. -/
inductive Call (Job : Type*) where
  | next (job : Option Job)
  | done (job : Job) (outcome : Outcome) (elapsedUs : Nat)
deriving DecidableEq, Repr

variable {Job σ : Type*}

/-- The job a call handed out. -/
def Call.handed? : Call Job → Option Job
  | .next job => job
  | .done _ _ _ => none

/-- The job a call reported. -/
def Call.reported? : Call Job → Option Job
  | .next _ => none
  | .done job _ _ => some job

/-- The jobs the source handed out, in order. -/
def handed (calls : List (Call Job)) : List Job := calls.filterMap Call.handed?

/-- The jobs `done` was called with, in order. -/
def reported (calls : List (Call Job)) : List Job := calls.filterMap Call.reported?

@[simp] theorem handed_nil : handed ([] : List (Call Job)) = [] := rfl

@[simp] theorem reported_nil : reported ([] : List (Call Job)) = [] := rfl

@[simp] theorem handed_append (as bs : List (Call Job)) :
    handed (as ++ bs) = handed as ++ handed bs := List.filterMap_append

@[simp] theorem reported_append (as bs : List (Call Job)) :
    reported (as ++ bs) = reported as ++ reported bs := List.filterMap_append

@[simp] theorem handed_next_some (job : Job) : handed [Call.next (some job)] = [job] := rfl

@[simp] theorem handed_next_none : handed [Call.next (none : Option Job)] = [] := rfl

@[simp] theorem handed_done (job : Job) (o : Outcome) (e : Nat) :
    handed [Call.done job o e] = [] := rfl

@[simp] theorem reported_next (job : Option Job) : reported [Call.next job] = [] := rfl

@[simp] theorem reported_done (job : Job) (o : Outcome) (e : Nat) :
    reported [Call.done job o e] = [job] := rfl

/-- `Serving S s₀ calls s out`: the calls, made on a source that started in `s₀`, leave it
in `s` with the connects `out` handed out and not yet reported. -/
inductive Serving (S : Source Job σ) (s₀ : σ) : List (Call Job) → σ → Multiset Job → Prop
  | start : Serving S s₀ [] s₀ 0
  | hand {calls s s' out job} : Serving S s₀ calls s out → S.next s = (some job, s') →
      Serving S s₀ (calls ++ [.next (some job)]) s' (job ::ₘ out)
  | dry {calls s s' out} : Serving S s₀ calls s out → S.next s = (none, s') →
      Serving S s₀ (calls ++ [.next none]) s' out
  | report {calls s out job} (o : Outcome) (e : Nat) : Serving S s₀ calls s (job ::ₘ out) →
      Serving S s₀ (calls ++ [.done job o e]) (S.done s job o e) out

/-- One run over a source, ended: the source had no more, and every connect it handed out
was reported. -/
structure Pass (S : Source Job σ) (s₀ : σ) (calls : List (Call Job)) (s : σ) : Prop where
  served : Serving S s₀ calls s 0
  dry : Call.next none ∈ calls

/-- **What is out is what was handed out and not reported.** -/
theorem Serving.handed_eq {S : Source Job σ} {s₀ s : σ} {calls : List (Call Job)}
    {out : Multiset Job} (h : Serving S s₀ calls s out) :
    (handed calls : Multiset Job) = (reported calls : Multiset Job) + out := by
  induction h with
  | start => rfl
  | hand _ _ ih =>
    rw [handed_append, handed_next_some, reported_append, reported_next, List.append_nil,
      ← Multiset.coe_add, Multiset.coe_singleton, ih, Multiset.add_cons,
      ← Multiset.singleton_add, add_comm]
  | dry _ _ ih => simpa using ih
  | report o e _ ih =>
    rw [handed_append, handed_done, List.append_nil, reported_append, reported_done, ih,
      ← Multiset.coe_add, Multiset.coe_singleton, ← Multiset.singleton_add, add_assoc]

/-- With nothing out, every job handed out was reported exactly once, unchanged. -/
theorem Serving.perm {S : Source Job σ} {s₀ s : σ} {calls : List (Call Job)}
    (h : Serving S s₀ calls s 0) : (reported calls).Perm (handed calls) := by
  have heq := h.handed_eq
  rw [add_zero] at heq
  exact (Multiset.coe_eq_coe.mp heq).symm

/-- No job is reported more often than it was handed out. -/
theorem Serving.subperm {S : Source Job σ} {s₀ s : σ} {calls : List (Call Job)}
    {out : Multiset Job} (h : Serving S s₀ calls s out) :
    (reported calls).Subperm (handed calls) := by
  rw [← Multiset.coe_le, h.handed_eq]
  exact Multiset.le_add_right _ _

/-- The last call of a run over a source, if it was a verdict. -/
theorem Serving.of_report {S : Source Job σ} {s₀ s' : σ} {before : List (Call Job)}
    {out : Multiset Job} {job : Job} {o : Outcome} {e : Nat}
    (h : Serving S s₀ (before ++ [.done job o e]) s' out) :
    ∃ s, s' = S.done s job o e ∧ Serving S s₀ before s (job ::ₘ out) := by
  generalize hcalls : before ++ [Call.done job o e] = calls at h
  cases h with
  | start => simp at hcalls
  | hand => exact absurd (List.append_inj_right' hcalls rfl) (by simp)
  | dry => exact absurd (List.append_inj_right' hcalls rfl) (by simp)
  | report o' e' h =>
    obtain ⟨rfl, hlast⟩ := List.append_inj' hcalls rfl
    cases hlast
    exact ⟨_, rfl, h⟩

/-- Some of the first calls of a run are a run themselves. -/
theorem Serving.of_prefix {S : Source Job σ} {s₀ s : σ} {before calls : List (Call Job)}
    {out : Multiset Job} (h : Serving S s₀ calls s out) (hpre : before <+: calls) :
    ∃ s' out', Serving S s₀ before s' out' := by
  induction h with
  | start =>
    rw [List.prefix_nil] at hpre
    subst hpre
    exact ⟨_, _, Serving.start⟩
  | hand h hnext ih =>
    rcases List.prefix_concat_iff.mp hpre with rfl | hpre
    · exact ⟨_, _, Serving.hand h hnext⟩
    · exact ih hpre
  | dry h hnext ih =>
    rcases List.prefix_concat_iff.mp hpre with rfl | hpre
    · exact ⟨_, _, Serving.dry h hnext⟩
    · exact ih hpre
  | report o e h ih =>
    rcases List.prefix_concat_iff.mp hpre with rfl | hpre
    · exact ⟨_, _, Serving.report o e h⟩
    · exact ih hpre

/-- Replay calls on a source: the state they leave it in and the jobs still out, or none
when they are not calls a run can make. -/
def replay [DecidableEq Job] (S : Source Job σ) : σ → List Job → List (Call Job) →
    Option (σ × List Job)
  | s, out, [] => some (s, out)
  | s, out, .next job :: rest =>
    if (S.next s).1 = job then replay S (S.next s).2 (job.toList ++ out) rest else none
  | s, out, .done job o e :: rest =>
    if job ∈ out then replay S (S.done s job o e) (out.erase job) rest else none

theorem Serving.replay [DecidableEq Job] {S : Source Job σ} {s₀ s s' : σ}
    {before calls : List (Call Job)} {out out' : List Job}
    (h : Serving S s₀ before s (out : Multiset Job))
    (hr : Connects.replay S s out calls = some (s', out')) :
    Serving S s₀ (before ++ calls) s' (out' : Multiset Job) := by
  induction calls generalizing before s out with
  | nil =>
    cases hr
    rw [List.append_nil]
    exact h
  | cons call calls ih =>
    rw [List.append_cons]
    cases call with
    | next job =>
      unfold Connects.replay at hr
      split at hr
      · next hnext =>
        refine ih ?_ hr
        cases job with
        | none => exact Serving.dry h (Prod.ext hnext rfl)
        | some job => exact Serving.hand h (Prod.ext hnext rfl)
      · simp at hr
    | done job o e =>
      unfold Connects.replay at hr
      split at hr
      · next hmem =>
        refine ih ?_ hr
        refine Serving.report o e ?_
        rw [← Multiset.coe_erase, Multiset.cons_erase (Multiset.mem_coe.mpr hmem)]
        exact h
      · simp at hr

end NetScanner.Connects
