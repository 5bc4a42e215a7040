import NetScanner.Infra.Bytes
import Mathlib.Data.List.TakeWhile

/-!
# Numerals and words with separators

`decimalValue` is the value of a run of decimal digits. `parseInt10` reads an integer as Zig's
standard library does, and `IntText` says what that accepts. `Separated` is the grammar of a list:
words of one kind with single separators between them. A reader that goes through the text byte
by byte, with part of a word behind it, follows the grammar by `separated_iff` and
`separated_cons_iff`.
-/

namespace NetScanner.Infra

/-! ## Decimal digits -/

/-- One of the digits `0` to `9`. -/
def isDigit (c : UInt8) : Prop := 48 ≤ c ∧ c ≤ 57

instance (c : UInt8) : Decidable (isDigit c) := inferInstanceAs (Decidable (_ ∧ _))

/-- The number a run of digits writes, after `acc`. -/
def digitsFrom (acc : Nat) (digits : Bytes) : Nat :=
  digits.foldl (fun n c => n * 10 + (c.toNat - 48)) acc

/-- The number a run of digits writes. -/
def decimalValue (digits : Bytes) : Nat := digitsFrom 0 digits

@[simp] theorem decimalValue_nil : decimalValue [] = 0 := rfl

theorem decimalValue_snoc (digits : Bytes) (c : UInt8) :
    decimalValue (digits ++ [c]) = decimalValue digits * 10 + (c.toNat - 48) := by
  rw [decimalValue, digitsFrom, List.foldl_append]
  rfl

theorem le_digitsFrom (acc : Nat) (digits : Bytes) : acc ≤ digitsFrom acc digits := by
  induction digits generalizing acc with
  | nil => exact Nat.le_refl acc
  | cons c rest ih =>
    have h := ih (acc * 10 + (c.toNat - 48))
    rw [digitsFrom, List.foldl_cons]
    rw [digitsFrom] at h
    omega

/-- More digits do not make a number smaller. -/
theorem decimalValue_le_append (digits more : Bytes) :
    decimalValue digits ≤ decimalValue (digits ++ more) := by
  rw [decimalValue, decimalValue, digitsFrom, digitsFrom, List.foldl_append]
  exact le_digitsFrom _ more

theorem isDigit_toNat {c : UInt8} (h : isDigit c) : 48 ≤ c.toNat ∧ c.toNat ≤ 57 :=
  ⟨UInt8.le_iff_toNat_le.mp h.1, UInt8.le_iff_toNat_le.mp h.2⟩

/-- The test a reader makes. -/
theorem not_isDigit_iff {c : UInt8} : ¬isDigit c ↔ c < 48 ∨ c > 57 := by
  unfold isDigit
  rw [not_and_or, UInt8.not_le, UInt8.not_le]

theorem not_mem_of_digits {sep : UInt8} (hsep : ¬isDigit sep) {digits : Bytes}
    (h : ∀ c ∈ digits, isDigit c) : sep ∉ digits :=
  fun hmem => hsep (h sep hmem)

/-! ## A number that is being read -/

/-- `digits` have been read so far, and their number is `n`, at most `most`. -/
structure Reading (most : Nat) (digits : Bytes) (n : Nat) (hasDigits : Bool) : Prop where
  all : ∀ c ∈ digits, isDigit c
  value : decimalValue digits = n
  fits : n ≤ most
  hasDigits : hasDigits = true ↔ digits ≠ []

namespace Reading

variable {most n : Nat} {digits : Bytes} {hasDigits : Bool} {c : UInt8}

theorem nil (most : Nat) : Reading most [] 0 false := ⟨by simp, rfl, Nat.zero_le _, by simp⟩

/-- One more digit. -/
theorem snoc (h : Reading most digits n hasDigits) (hc : isDigit c)
    (hfits : n * 10 + (c.toNat - 48) ≤ most) :
    Reading most (digits ++ [c]) (n * 10 + (c.toNat - 48)) true := by
  refine ⟨?_, by rw [decimalValue_snoc, h.value], hfits, by simp⟩
  intro d hd
  rcases List.mem_append.mp hd with hd | hd
  · exact h.all d hd
  · rwa [List.mem_singleton.mp hd]

/-- A digit too many: no number that goes on from here fits. -/
theorem too_big (h : Reading most digits n hasDigits) (hbig : most < n * 10 + (c.toNat - 48))
    (more : Bytes) : most < decimalValue (digits ++ [c] ++ more) := by
  have hle := decimalValue_le_append (digits ++ [c]) more
  rw [decimalValue_snoc, h.value] at hle
  omega

end Reading

/-! ## Integers with a sign and underscores -/

inductive ParseIntError
  | overflow
  | invalidCharacter
deriving DecidableEq, Repr

/-- The digits of a number of at most `most`, after `acc`; `_` is skipped. -/
def parseDigits10 (most acc : Nat) : Bytes → Except ParseIntError Nat
  | [] => .ok acc
  | c :: rest =>
    if c = 95 then parseDigits10 most acc rest
    else if ¬isDigit c then .error .invalidCharacter
    else if most < acc * 10 + (c.toNat - 48) then .error .overflow
    else parseDigits10 most (acc * 10 + (c.toNat - 48)) rest

/-- Not empty, and no `_` at either end. -/
def parseUnsigned10 (most : Nat) (buf : Bytes) : Except ParseIntError Nat :=
  if buf = [] ∨ buf.head? = some 95 ∨ buf.getLast? = some 95 then .error .invalidCharacter
  else parseDigits10 most 0 buf

/-- An unsigned integer of at most `most`, in decimal: `std.fmt.parseInt(_, buf, 10)`. A negative
one is only accepted when it is zero. -/
def parseInt10 (most : Nat) (buf : Bytes) : Except ParseIntError Nat :=
  match buf with
  | [] => .error .invalidCharacter
  | c :: rest =>
    if c = 43 then parseUnsigned10 most rest
    else if c = 45 then parseUnsigned10 0 rest
    else parseUnsigned10 most buf

/-- Digits with underscores between them. -/
structure UnsignedText (most : Nat) (text : Bytes) (n : Nat) : Prop where
  nonempty : text ≠ []
  head : text.head? ≠ some 95
  last : text.getLast? ≠ some 95
  all : ∀ c ∈ text, c = 95 ∨ isDigit c
  value : decimalValue (text.filter (· ≠ 95)) = n
  fits : n ≤ most

/-- `text` is what `parseInt10` reads as `n`. -/
def IntText (most : Nat) (text : Bytes) (n : Nat) : Prop :=
  UnsignedText most text n ∨ (∃ rest, text = 43 :: rest ∧ UnsignedText most rest n) ∨
    ∃ rest, text = 45 :: rest ∧ UnsignedText 0 rest n

theorem parseDigits10_iff {most acc : Nat} (hacc : acc ≤ most) (text : Bytes) (n : Nat) :
    parseDigits10 most acc text = .ok n ↔
      (∀ c ∈ text, c = 95 ∨ isDigit c) ∧ digitsFrom acc (text.filter (· ≠ 95)) = n ∧ n ≤ most := by
  induction text generalizing acc with
  | nil =>
    simp only [parseDigits10, Except.ok.injEq, List.filter_nil, digitsFrom, List.foldl_nil]
    constructor
    · rintro rfl
      exact ⟨by simp, rfl, hacc⟩
    · exact fun h => h.2.1
  | cons c rest ih =>
    rw [parseDigits10, List.forall_mem_cons]
    by_cases hskip : c = 95
    · rw [if_pos hskip, ih hacc, List.filter_cons_of_neg (by simpa using hskip)]
      exact ⟨fun h => ⟨⟨.inl hskip, h.1⟩, h.2⟩, fun h => ⟨h.1.2, h.2⟩⟩
    · rw [if_neg hskip, List.filter_cons_of_pos (by simpa using hskip), digitsFrom,
        List.foldl_cons, ← digitsFrom]
      by_cases hdigit : isDigit c
      · rw [if_neg (not_not_intro hdigit)]
        split
        · next hbig =>
          have hle := le_digitsFrom (acc * 10 + (c.toNat - 48)) (rest.filter (· ≠ 95))
          constructor
          · simp
          · rintro ⟨-, hvalue, hfits⟩
            omega
        · next hfits =>
          rw [ih (by omega)]
          exact ⟨fun h => ⟨⟨.inr hdigit, h.1⟩, h.2⟩, fun h => ⟨h.1.2, h.2⟩⟩
      · rw [if_pos hdigit]
        constructor
        · simp
        · rintro ⟨⟨hc, -⟩, -⟩
          exact absurd hc (not_or.mpr ⟨hskip, hdigit⟩)

theorem parseUnsigned10_iff (most : Nat) (text : Bytes) (n : Nat) :
    parseUnsigned10 most text = .ok n ↔ UnsignedText most text n := by
  unfold parseUnsigned10
  split
  · next hbad =>
    constructor
    · simp
    · rintro ⟨hne, hhead, hlast, -, -, -⟩
      rcases hbad with h | h | h
      · exact absurd h hne
      · exact absurd h hhead
      · exact absurd h hlast
  · next hgood =>
    rw [not_or, not_or] at hgood
    rw [parseDigits10_iff (Nat.zero_le _)]
    exact ⟨fun h => ⟨hgood.1, hgood.2.1, hgood.2.2, h.1, h.2.1, h.2.2⟩,
      fun h => ⟨h.all, h.value, h.fits⟩⟩

/-- **What is read as an integer.** -/
theorem parseInt10_iff (most : Nat) (text : Bytes) (n : Nat) :
    parseInt10 most text = .ok n ↔ IntText most text n := by
  have hsign : ∀ {most c rest}, ¬isDigit c → c ≠ 95 → ¬UnsignedText most (c :: rest) n := by
    rintro most c rest hdigit hunder htext
    rcases htext.all c List.mem_cons_self with h | h
    · exact hunder h
    · exact hdigit h
  unfold parseInt10 IntText
  cases text with
  | nil =>
    constructor
    · simp
    · rintro (h | ⟨rest, h, -⟩ | ⟨rest, h, -⟩)
      · exact absurd rfl h.nonempty
      · cases h
      · cases h
  | cons c rest =>
    simp only [List.cons.injEq]
    by_cases hplus : c = 43
    · subst hplus
      rw [if_pos rfl, parseUnsigned10_iff]
      constructor
      · exact fun h => .inr (.inl ⟨rest, ⟨rfl, rfl⟩, h⟩)
      · rintro (h | ⟨_, ⟨-, rfl⟩, h⟩ | ⟨_, ⟨hc, -⟩, -⟩)
        · exact absurd h (hsign (by decide) (by decide))
        · exact h
        · exact absurd hc (by decide)
    · rw [if_neg hplus]
      by_cases hminus : c = 45
      · subst hminus
        rw [if_pos rfl, parseUnsigned10_iff]
        constructor
        · exact fun h => .inr (.inr ⟨rest, ⟨rfl, rfl⟩, h⟩)
        · rintro (h | ⟨_, ⟨hc, -⟩, -⟩ | ⟨_, ⟨-, rfl⟩, h⟩)
          · exact absurd h (hsign (by decide) (by decide))
          · exact absurd hc (by decide)
          · exact h
      · rw [if_neg hminus, parseUnsigned10_iff]
        constructor
        · exact .inl
        · rintro (h | ⟨_, ⟨hc, -⟩, -⟩ | ⟨_, ⟨hc, -⟩, -⟩)
          · exact h
          · exact absurd hc hplus
          · exact absurd hc hminus

/-! ## Words with separators -/

/-- Words of one kind, one or more, with single separators between them. -/
inductive Separated {α : Type} (sep : UInt8) (Word : Bytes → α → Prop) : Bytes → List α → Prop
  | last {word : Bytes} {a : α} : Word word a → Separated sep Word word [a]
  | more {word rest : Bytes} {a : α} {as : List α} : Word word a → Separated sep Word rest as →
      Separated sep Word (word ++ sep :: rest) (a :: as)

section Separated

variable {α : Type} {sep : UInt8} {Word : Bytes → α → Prop}

/-- What stands in front of the first separator. -/
theorem append_cons_inj {a b c d : Bytes} (ha : sep ∉ a) (hc : sep ∉ c)
    (h : a ++ sep :: b = c ++ sep :: d) : a = c ∧ b = d := by
  induction a generalizing c with
  | nil =>
    cases c with
    | nil => exact ⟨rfl, (List.cons.inj h).2⟩
    | cons x c => exact absurd ((List.cons.inj h).1 ▸ List.mem_cons_self) hc
  | cons x a ih =>
    cases c with
    | nil => exact absurd ((List.cons.inj h).1 ▸ List.mem_cons_self) ha
    | cons y c =>
      obtain ⟨rfl, htail⟩ := List.cons.inj h
      obtain ⟨rfl, rfl⟩ := ih (fun hmem => ha (List.mem_cons_of_mem _ hmem))
        (fun hmem => hc (List.mem_cons_of_mem _ hmem)) htail
      exact ⟨rfl, rfl⟩

/-- Text without a separator is one word. -/
theorem separated_iff {text : Bytes} {as : List α} (htext : sep ∉ text) :
    Separated sep Word text as ↔ ∃ a, Word text a ∧ as = [a] := by
  constructor
  · rintro (⟨hword⟩ | ⟨hword, hrest⟩)
    · exact ⟨_, hword, rfl⟩
    · simp at htext
  · rintro ⟨a, hword, rfl⟩
    exact .last hword

/-- Text up to the first separator is the first word. -/
theorem separated_cons_iff (hWord : ∀ w a, Word w a → sep ∉ w) {text rest : Bytes} {as : List α}
    (htext : sep ∉ text) :
    Separated sep Word (text ++ sep :: rest) as ↔
      ∃ a tail, Word text a ∧ Separated sep Word rest tail ∧ as = a :: tail := by
  constructor
  · intro h
    generalize hall : text ++ sep :: rest = all at h
    cases h with
    | last hword =>
      rw [← hall] at hword
      exact absurd (by simp) (hWord _ _ hword)
    | more hword hrest =>
      obtain ⟨rfl, rfl⟩ := append_cons_inj htext (hWord _ _ hword) hall
      exact ⟨_, _, hword, hrest, rfl⟩
  · rintro ⟨a, tail, hword, hrest, rfl⟩
    exact .more hword hrest

/-- The first word goes on from what was read of it. -/
theorem Separated.first_word {text rest : Bytes} {as : List α} (htext : sep ∉ text)
    (h : Separated sep Word (text ++ rest) as) : ∃ more a, Word (text ++ more) a := by
  generalize hall : text ++ rest = all at h
  cases h with
  | last hword => exact ⟨rest, _, hall ▸ hword⟩
  | @more word tail a as hword hrest =>
    rcases List.append_eq_append_iff.mp hall with ⟨more, hw, -⟩ | ⟨more, ht, hsep⟩
    · exact ⟨more, a, hw ▸ hword⟩
    · cases more with
      | nil =>
        rw [List.append_nil] at ht
        exact ⟨[], a, by rwa [List.append_nil, ht]⟩
      | cons x more =>
        rw [List.cons_append, List.cons.injEq] at hsep
        rw [ht, ← hsep.1] at htext
        simp at htext

/-- The first word goes on with the character that was read, if that is no separator. -/
theorem Separated.first_word_snoc {text rest : Bytes} {char : UInt8} {as : List α}
    (htext : sep ∉ text) (hchar : char ≠ sep)
    (h : Separated sep Word (text ++ char :: rest) as) :
    ∃ more a, Word (text ++ [char] ++ more) a := by
  rw [← List.singleton_append, ← List.append_assoc] at h
  refine h.first_word ?_
  rw [List.mem_append, List.mem_singleton, not_or]
  exact ⟨htext, fun heq => hchar heq.symm⟩

/-- Every byte is a separator or part of a word. -/
theorem Separated.mem {P : UInt8 → Prop} (hWord : ∀ w a, Word w a → ∀ c ∈ w, P c)
    {text : Bytes} {as : List α} (h : Separated sep Word text as) :
    ∀ c ∈ text, c = sep ∨ P c := by
  induction h with
  | last hword => exact fun c hc => .inr (hWord _ _ hword c hc)
  | more hword hrest ih =>
    intro c hc
    rcases List.mem_append.mp hc with hc | hc
    · exact .inr (hWord _ _ hword c hc)
    · rcases List.mem_cons.mp hc with rfl | hc
      · exact .inl rfl
      · exact ih c hc

end Separated

end NetScanner.Infra
