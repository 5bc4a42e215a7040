import Mathlib.Data.List.Induction

/-!
# Reading options off a list of words

A program takes its options one after the other, each of one word or of a few, and stops at the
first place where none stands. `Grammar` says which words an option is written in and what can go
wrong where none stands. A reader that takes one option at a time is exact (`Reads.ok_iff`,
`Reads.error_iff`): it accepts the words of valid options and nothing else, and complains about the
first place that is not one.
-/

namespace NetScanner.Infra

/-- Options, the words each is written in, and the complaints where none stands. -/
structure Grammar (Word Opt Error : Type*) where
  words : Opt → List Word
  Valid : Opt → Prop
  Bad : List Word → Error → Prop
  words_ne_nil : ∀ o, words o ≠ []
  /-- Where none stands there is a complaint. -/
  complete : ∀ rest ≠ [], (∃ o rest', Valid o ∧ rest = words o ++ rest') ∨ ∃ e, Bad rest e

namespace Grammar

variable {Word Opt Error σ : Type*} (G : Grammar Word Opt Error)

/-- The words of a list of options. -/
def spell (options : List Opt) : List Word := options.flatMap G.words

@[simp] theorem spell_nil : G.spell [] = [] := rfl

@[simp] theorem spell_cons (o : Opt) (options : List Opt) :
    G.spell (o :: options) = G.words o ++ G.spell options := rfl

/-- Valid options, as far as words stand for them, and what is behind. -/
structure Splits (words : List Word) (options : List Opt) (rest : List Word) : Prop where
  words : words = G.spell options ++ rest
  valid : ∀ o ∈ options, G.Valid o

/-- The options of a list of words end in one place: at its end, or at a bad one. -/
theorem splits (words : List Word) :
    ∃ options rest, G.Splits words options rest ∧ (rest = [] ∨ ∃ e, G.Bad rest e) := by
  induction hn : words.length using Nat.strongRecOn generalizing words with
  | ind n ih =>
    by_cases hnil : words = []
    · exact ⟨[], [], ⟨by rw [hnil]; rfl, by simp⟩, .inl rfl⟩
    · rcases G.complete words hnil with ⟨o, rest, ho, rfl⟩ | ⟨e, he⟩
      · have hpos : 0 < (G.words o).length := List.length_pos_iff.mpr (G.words_ne_nil o)
        rw [List.length_append] at hn
        obtain ⟨options, rest', hsplits, hend⟩ := ih rest.length (by omega) rest rfl
        refine ⟨o :: options, rest', ⟨?_, List.forall_mem_cons.mpr ⟨ho, hsplits.valid⟩⟩, hend⟩
        rw [spell_cons, List.append_assoc, ← hsplits.words]
      · exact ⟨[], words, ⟨rfl, by simp⟩, .inr ⟨e, he⟩⟩

/-- `read` takes one option at a time off the words, and `apply` is what each does. -/
structure Reads (apply : σ → Opt → σ) (read : σ → List Word → Except Error σ) : Prop where
  nil : ∀ s, read s [] = .ok s
  option : ∀ s o rest, G.Valid o → read s (G.words o ++ rest) = read (apply s o) rest
  bad : ∀ s rest e, G.Bad rest e → read s rest = .error e

section Reads

variable {G} {apply : σ → Opt → σ} {read : σ → List Word → Except Error σ}

theorem Reads.splits (h : G.Reads apply read) {words : List Word} {options : List Opt}
    {rest : List Word} (hsplits : G.Splits words options rest) (s : σ) :
    read s words = read (options.foldl apply s) rest := by
  obtain ⟨rfl, hvalid⟩ := hsplits
  induction options generalizing s with
  | nil => rfl
  | cons o options ih =>
    rw [spell_cons, List.append_assoc, h.option s o _ (hvalid o List.mem_cons_self)]
    exact ih (apply s o) fun o ho => hvalid o (List.mem_cons_of_mem _ ho)

/-- **What is accepted is the words of valid options**, and each does its part. -/
theorem Reads.ok_iff (h : G.Reads apply read) (s s' : σ) (words : List Word) :
    read s words = .ok s' ↔
      ∃ options, G.Splits words options [] ∧ s' = options.foldl apply s := by
  constructor
  · intro hread
    obtain ⟨options, rest, hsplits, rfl | ⟨e, he⟩⟩ := G.splits words
    · rw [h.splits hsplits, h.nil, Except.ok.injEq] at hread
      exact ⟨options, hsplits, hread.symm⟩
    · rw [h.splits hsplits, h.bad _ _ _ he] at hread
      cases hread
  · rintro ⟨options, hsplits, rfl⟩
    rw [h.splits hsplits, h.nil]

/-- **What is complained about is the first place where no option stands.** -/
theorem Reads.error_iff (h : G.Reads apply read) (s : σ) (words : List Word) (e : Error) :
    read s words = .error e ↔ ∃ options rest, G.Splits words options rest ∧ G.Bad rest e := by
  constructor
  · intro hread
    obtain ⟨options, rest, hsplits, rfl | ⟨e', he⟩⟩ := G.splits words
    · rw [h.splits hsplits, h.nil] at hread
      cases hread
    · rw [h.splits hsplits, h.bad _ _ _ he, Except.error.injEq] at hread
      subst hread
      exact ⟨options, rest, hsplits, he⟩
  · rintro ⟨options, rest, hsplits, he⟩
    rw [h.splits hsplits, h.bad _ _ _ he]

end Reads

end Grammar

end NetScanner.Infra
