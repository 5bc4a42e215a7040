import Mathlib.Data.List.Induction

/-!
# Every event of a history, with what came before it

A history is a list that only grows at its end. `Each P log` says that every event of `log`
stands in relation `P` to the events before it; `each_append_iff` is what a step that adds
events has to show.
-/

namespace NetScanner.Infra

variable {α : Type*}

/-- Every event, seen with the events before it. -/
def Each (P : List α → α → Prop) (log : List α) : Prop :=
  ∀ before e, before ++ [e] <+: log → P before e

theorem each_nil (P : List α → α → Prop) : Each P [] := by
  intro before e h
  simp at h

theorem Each.of_prefix {P : List α → α → Prop} {before log : List α} (h : Each P log)
    (hpre : before <+: log) : Each P before :=
  fun b e hb => h b e (hb.trans hpre)

/-- One more event. -/
theorem each_concat_iff {P : List α → α → Prop} {log : List α} {e : α} :
    Each P (log ++ [e]) ↔ Each P log ∧ P log e := by
  constructor
  · intro h
    exact ⟨h.of_prefix (List.prefix_append _ _), h log e List.prefix_rfl⟩
  · rintro ⟨h, he⟩ before e' hb
    rcases List.prefix_concat_iff.mp hb with heq | hb
    · obtain ⟨rfl, hlast⟩ := List.append_inj' heq rfl
      cases hlast
      exact he
    · exact h before e' hb

/-- A place in a history that grew is an old one, or one among the new events. -/
theorem concat_prefix_append_iff {before log more : List α} {e : α} :
    before ++ [e] <+: log ++ more ↔
      before ++ [e] <+: log ∨ ∃ b, before = log ++ b ∧ b ++ [e] <+: more := by
  induction more using List.reverseRecOn with
  | nil => simp
  | append_singleton more e' ih =>
    rw [← List.append_assoc, List.prefix_concat_iff, ih]
    constructor
    · rintro (heq | hold | ⟨b, rfl, hb⟩)
      · obtain ⟨rfl, hlast⟩ := List.append_inj' heq rfl
        cases hlast
        exact Or.inr ⟨more, rfl, List.prefix_rfl⟩
      · exact Or.inl hold
      · exact Or.inr ⟨b, rfl, hb.trans (List.prefix_append _ _)⟩
    · rintro (hold | ⟨b, rfl, hb⟩)
      · exact Or.inr (Or.inl hold)
      · rcases List.prefix_concat_iff.mp hb with heq | hb
        · left
          rw [List.append_assoc, heq, List.append_assoc]
        · exact Or.inr (Or.inr ⟨b, rfl, hb⟩)

/-- Some more events. -/
theorem each_append_iff {P : List α → α → Prop} {log more : List α} :
    Each P (log ++ more) ↔ Each P log ∧ Each (fun before e => P (log ++ before) e) more := by
  induction more using List.reverseRecOn with
  | nil => simp [each_nil]
  | append_singleton more e ih =>
    rw [← List.append_assoc, each_concat_iff, each_concat_iff, ih, and_assoc]

/-- The event itself, in the middle of a history. -/
theorem Each.get {P : List α → α → Prop} {before after : List α} {e : α}
    (h : Each P (before ++ e :: after)) : P before e :=
  h before e ⟨after, by rw [List.append_assoc, List.singleton_append]⟩

/-- Two places of a history are the same, or one comes after the other. -/
theorem place_cases {before after before' after' : List α} {e e' : α}
    (h : before ++ e :: after = before' ++ e' :: after') : e = e' ∨ e' ∈ after ∨ e ∈ after' := by
  rcases List.append_eq_append_iff.mp h with ⟨mid, _, hmid⟩ | ⟨mid, _, hmid⟩ <;>
    cases mid with
    | nil =>
      left
      simp only [List.nil_append, List.cons.injEq] at hmid
      simp [hmid.1]
    | cons first mid => simp_all

end NetScanner.Infra
