import NetScanner.Infra.Bytes
import Mathlib.Data.List.TakeWhile

/-!
# Reading text

Trimming, tokens and lines of a byte string. A character class is a predicate on bytes.

`nextToken` is one step of a tokenizer: delimiters are skipped, and the token runs up to the
next one. `splitlines` is the split that leaves no empty line at the end; `List.splitOn` is the
one that does. A reader that skips empty lines reads the same lines of both
(`filterMap_splitlines`).
-/

namespace NetScanner.Infra

variable {space delim : UInt8 → Bool}

/-- Drop the class `space` from both ends. -/
def trim (space : UInt8 → Bool) (bytes : Bytes) : Bytes :=
  ((bytes.dropWhile space).reverse.dropWhile space).reverse

/-- The next token and what follows it; none when only delimiters are left. -/
def nextToken (delim : UInt8 → Bool) (bytes : Bytes) : Option (Bytes × Bytes) :=
  let rest := bytes.dropWhile delim
  if rest = [] then none
  else some (rest.takeWhile (!delim ·), rest.dropWhile (!delim ·))

/-- The class of the characters of a string. -/
def anyOf (chars : String) (b : UInt8) : Bool := (ascii chars).contains b

/-- The value of a hex digit of either case. -/
def hexDigit (b : UInt8) : Option Nat :=
  if 48 ≤ b ∧ b ≤ 57 then some (b.toNat - 48)
  else if 65 ≤ b ∧ b ≤ 70 then some (b.toNat - 55)
  else if 97 ≤ b ∧ b ≤ 102 then some (b.toNat - 87)
  else none

/-! ## Hexadecimal bytes -/

/-- The digits of a byte; `_` between digits is skipped. -/
def parseDigits (acc : Nat) : Bytes → Option Nat
  | [] => some acc
  | c :: rest =>
    if anyOf "_" c then parseDigits acc rest
    else
      match hexDigit c with
      | none => none
      | some digit => if acc * 16 + digit > 255 then none else parseDigits (acc * 16 + digit) rest

/-- Not empty, and no `_` at either end; a negative number is only a byte when it is zero. -/
def parseWithSign (negative : Bool) (buf : Bytes) : Option UInt8 :=
  match buf.head?, buf.getLast? with
  | some first, some last =>
    if anyOf "_" first || anyOf "_" last then none
    else
      match parseDigits 0 buf with
      | none => none
      | some n => if negative && n ≠ 0 then none else some (UInt8.ofNat n)
  | _, _ => none

/-- A byte in hexadecimal, with or without a sign: `std.fmt.parseInt(u8, buf, 16)`. -/
def parseInt (buf : Bytes) : Option UInt8 :=
  match buf with
  | [] => none
  | c :: rest =>
    if anyOf "+" c then parseWithSign false rest
    else if anyOf "-" c then parseWithSign true rest
    else parseWithSign false buf

/-! ## Trimming -/

theorem dropWhile_congr {p q : UInt8 → Bool} {bytes : Bytes} (h : ∀ b ∈ bytes, p b = q b) :
    bytes.dropWhile p = bytes.dropWhile q := by
  induction bytes with
  | nil => rfl
  | cons b rest ih =>
    rw [List.dropWhile_cons, List.dropWhile_cons, h b List.mem_cons_self,
      ih fun x hx => h x (List.mem_cons_of_mem _ hx)]

/-- Two classes that agree on the text trim it alike. -/
theorem trim_congr {p q : UInt8 → Bool} {bytes : Bytes} (h : ∀ b ∈ bytes, p b = q b) :
    trim p bytes = trim q bytes := by
  unfold trim
  rw [dropWhile_congr h, dropWhile_congr (p := p) (q := q)]
  intro b hb
  exact h b ((List.dropWhile_sublist q).subset (List.mem_reverse.mp hb))

theorem mem_of_mem_trim {bytes : Bytes} {b : UInt8} (h : b ∈ trim space bytes) : b ∈ bytes := by
  rw [trim, List.mem_reverse] at h
  have h' := (List.dropWhile_sublist space).subset h
  exact (List.dropWhile_sublist space).subset (List.mem_reverse.mp h')

theorem dropWhile_eq_self {p : UInt8 → Bool} {bytes : Bytes}
    (h : ∀ b, bytes.head? = some b → p b = false) : bytes.dropWhile p = bytes := by
  cases bytes with
  | nil => rfl
  | cons b rest => rw [List.dropWhile_cons_of_neg (by rw [h b rfl]; decide)]

/-- Nothing to trim at either end. -/
theorem trim_eq_self {bytes : Bytes} (hhead : ∀ b, bytes.head? = some b → space b = false)
    (hlast : ∀ b, bytes.getLast? = some b → space b = false) : trim space bytes = bytes := by
  unfold trim
  rw [dropWhile_eq_self hhead, dropWhile_eq_self, List.reverse_reverse]
  intro b hb
  rw [List.head?_reverse] at hb
  exact hlast b hb

theorem head?_dropWhile_not {p : UInt8 → Bool} {bytes : Bytes} {b : UInt8}
    (h : (bytes.dropWhile p).head? = some b) : p b = false := by
  have := List.head?_dropWhile_not p bytes
  rw [h] at this
  simpa using this

theorem trim_head {bytes : Bytes} {b : UInt8} (h : (trim space bytes).head? = some b) :
    space b = false := by
  unfold trim at h
  rw [List.head?_reverse] at h
  generalize hr : bytes.dropWhile space = rest at h
  have hrest : ∀ c, rest.head? = some c → space c = false := by
    rintro c hc
    rw [← hr] at hc
    exact head?_dropWhile_not hc
  -- the last byte of what is left of the reversed text is the first of the text
  have hsuffix := List.dropWhile_suffix space (l := rest.reverse)
  obtain ⟨dropped, hdropped⟩ := hsuffix
  have hlast : (dropped ++ rest.reverse.dropWhile space).getLast? = some b := by
    rw [List.getLast?_append, h]
    rfl
  rw [hdropped, List.getLast?_reverse] at hlast
  exact hrest b hlast

theorem trim_last {bytes : Bytes} {b : UInt8} (h : (trim space bytes).getLast? = some b) :
    space b = false := by
  unfold trim at h
  rw [List.getLast?_reverse] at h
  exact head?_dropWhile_not h

/-- **Trimming twice is trimming once.** -/
@[simp] theorem trim_trim (bytes : Bytes) : trim space (trim space bytes) = trim space bytes :=
  trim_eq_self (fun _ h => trim_head h) (fun _ h => trim_last h)

/-- A text without any byte of the class is left as it is. -/
theorem trim_of_none {bytes : Bytes} (h : ∀ b ∈ bytes, space b = false) :
    trim space bytes = bytes :=
  trim_eq_self (fun _ hb => h _ (List.mem_of_head? hb)) fun _ hb => h _ (List.mem_of_getLast? hb)

/-- **What is trimmed off both ends, and what stays.** -/
theorem trim_parts (space : UInt8 → Bool) (bytes : Bytes) :
    ∃ lead trail, bytes = lead ++ (trim space bytes ++ trail) ∧
      (∀ b ∈ lead, space b = true) ∧ ∀ b ∈ trail, space b = true := by
  refine ⟨bytes.takeWhile space, ((bytes.dropWhile space).reverse.takeWhile space).reverse,
    ?_, fun b hb => List.mem_takeWhile_imp hb, ?_⟩
  · rw [trim, ← List.reverse_append, List.takeWhile_append_dropWhile, List.reverse_reverse,
      List.takeWhile_append_dropWhile]
  · intro b hb
    rw [List.mem_reverse] at hb
    exact List.mem_takeWhile_imp hb

/-- A text between two runs of the class is what is left of it. -/
theorem trim_append {lead mid trail : Bytes} (hlead : ∀ b ∈ lead, space b = true)
    (hhead : ∀ b, mid.head? = some b → space b = false)
    (hlast : ∀ b, mid.getLast? = some b → space b = false) (hne : mid ≠ [])
    (htrail : ∀ b ∈ trail, space b = true) : trim space (lead ++ (mid ++ trail)) = mid := by
  have hstart : (mid ++ trail).dropWhile space = mid ++ trail := by
    apply dropWhile_eq_self
    intro b hb
    rw [List.head?_append_of_ne_nil _ hne] at hb
    exact hhead b hb
  have hend : mid.reverse.dropWhile space = mid.reverse := by
    apply dropWhile_eq_self
    intro b hb
    rw [List.head?_reverse] at hb
    exact hlast b hb
  unfold trim
  rw [List.dropWhile_append_of_pos hlead, hstart, List.reverse_append,
    List.dropWhile_append_of_pos (fun b hb => htrail b (List.mem_reverse.mp hb)), hend,
    List.reverse_reverse]

/-- A run of a class, and what starts with a byte outside it. -/
theorem takeWhile_dropWhile_append {p : UInt8 → Bool} {run rest : Bytes}
    (hrun : ∀ b ∈ run, p b = true) (hrest : ∀ b, rest.head? = some b → p b = false) :
    (run ++ rest).takeWhile p = run ∧ (run ++ rest).dropWhile p = rest := by
  constructor
  · rw [List.takeWhile_append_of_pos hrun]
    cases rest with
    | nil => simp
    | cons b rest => rw [List.takeWhile_cons_of_neg (by rw [hrest b rfl]; decide), List.append_nil]
  · rw [List.dropWhile_append_of_pos hrun, dropWhile_eq_self hrest]

/-! ## Tokens -/

/-- A token that starts at once and ends at a delimiter, or with the text. -/
theorem nextToken_append {token rest : Bytes} (hne : token ≠ [])
    (htoken : ∀ b ∈ token, delim b = false) (hrest : ∀ b, rest.head? = some b → delim b = true) :
    nextToken delim (token ++ rest) = some (token, rest) := by
  have hskip : (token ++ rest).dropWhile delim = token ++ rest := by
    apply dropWhile_eq_self
    intro b hb
    rw [List.head?_append_of_ne_nil _ hne] at hb
    exact htoken b (List.mem_of_head? hb)
  have hall : ∀ b ∈ token, (!delim b) = true := by
    intro b hb
    rw [htoken b hb]
    rfl
  have hstop : ∀ b, rest.head? = some b → (!delim b) = false := by
    intro b hb
    rw [hrest b hb]
    rfl
  obtain ⟨htake, hdrop⟩ := takeWhile_dropWhile_append hall hstop
  unfold nextToken
  simp only [hskip]
  rw [if_neg (by simp [hne]), htake, hdrop]

/-- Delimiters before a token do not count. -/
theorem nextToken_skip {run : Bytes} (h : ∀ b ∈ run, delim b = true) (bytes : Bytes) :
    nextToken delim (run ++ bytes) = nextToken delim bytes := by
  unfold nextToken
  rw [List.dropWhile_append_of_pos h]

theorem nextToken_cons {b : UInt8} (h : delim b = true) (bytes : Bytes) :
    nextToken delim (b :: bytes) = nextToken delim bytes := by
  rw [← List.singleton_append, nextToken_skip (by simpa using h)]

/-! ## Pairs of hex digits -/

/-- A hex digit is none of the other characters. -/
theorem anyOf_of_hexDigit {chars : String} {b : UInt8} {x : Nat}
    (hchars : (ascii chars).all fun c => hexDigit c = none) (h : hexDigit b = some x) :
    anyOf chars b = false := by
  unfold anyOf
  rw [← Bool.not_eq_true, List.contains_iff_mem]
  intro hmem
  have hnone := of_decide_eq_true (List.all_eq_true.mp hchars b hmem)
  rw [hnone] at h
  simp at h

theorem hexDigit_lt {b : UInt8} {x : Nat} (h : hexDigit b = some x) : x < 16 := by
  have hall : ∀ n < 256, (hexDigit (UInt8.ofNat n)).all (· < 16) = true := by decide +kernel
  have := forall_byte (P := fun b => (hexDigit b).all (· < 16) = true) hall b
  rw [h] at this
  simpa using this

/-- **Two hex digits are a byte.** -/
theorem parseInt_pair {a b : UInt8} {x y : Nat} (hx : hexDigit a = some x)
    (hy : hexDigit b = some y) : parseInt [a, b] = some (UInt8.ofNat (x * 16 + y)) := by
  have hx16 := hexDigit_lt hx
  have hy16 := hexDigit_lt hy
  have hplus : anyOf "+" a = false := anyOf_of_hexDigit (by decide) hx
  have hminus : anyOf "-" a = false := anyOf_of_hexDigit (by decide) hx
  have ha : anyOf "_" a = false := anyOf_of_hexDigit (by decide) hx
  have hb : anyOf "_" b = false := anyOf_of_hexDigit (by decide) hy
  have hdigits : parseDigits 0 [a, b] = some (x * 16 + y) := by
    simp only [parseDigits, ha, hb, hx, hy, Nat.zero_mul, Nat.zero_add]
    rw [if_neg (by decide), if_neg (by omega), if_neg (by decide), if_neg (by omega)]
  simp [parseInt, parseWithSign, hplus, hminus, ha, hb, hdigits]

/-- Two hex digits in front of a delimiter are one token. -/
theorem nextToken_hexPair {chars : String} {a b : UInt8} {x y : Nat} {rest : Bytes}
    (hchars : (ascii chars).all fun c => hexDigit c = none) (hx : hexDigit a = some x)
    (hy : hexDigit b = some y) (hrest : ∀ c, rest.head? = some c → anyOf chars c = true) :
    nextToken (anyOf chars) (a :: b :: rest) = some ([a, b], rest) := by
  have hdigits : ∀ c ∈ [a, b], anyOf chars c = false := by
    intro c hc
    rcases List.mem_cons.mp hc with rfl | hc
    · exact anyOf_of_hexDigit hchars hx
    · rw [List.mem_singleton.mp hc]
      exact anyOf_of_hexDigit hchars hy
  exact nextToken_append (by simp) hdigits hrest

/-! ## Lines -/

/-- Where a line ends, besides `"\r\n"`: line feed, vertical tab, form feed, carriage return
and the file, group and record separators. -/
def lineBreak (b : UInt8) : Bool := (10 ≤ b && b ≤ 13) || (28 ≤ b && b ≤ 30)

/-- The lines of a text, without their ends. A text that ends with a line break has no
empty line after it. -/
def splitlines : Bytes → List Bytes
  | [] => []
  | 13 :: 10 :: rest => [] :: splitlines rest
  | b :: rest =>
    if lineBreak b then [] :: splitlines rest
    else
      match splitlines rest with
      | [] => [[b]]
      | line :: lines => (b :: line) :: lines

theorem splitOn_cons (sep b : UInt8) (rest : Bytes) :
    (b :: rest).splitOn sep =
      if b = sep then [] :: rest.splitOn sep else (rest.splitOn sep).modifyHead (List.cons b) := by
  rw [List.splitOn, List.splitOnP_cons_eq_if_modifyHead]
  simp only [beq_iff_eq]
  rfl

theorem splitlines_cons_break {rest : Bytes} : splitlines (10 :: rest) = [] :: splitlines rest := by
  rw [splitlines, if_pos (by decide)]
  simp

theorem splitlines_cons {b : UInt8} {rest : Bytes} (h : lineBreak b = false) :
    splitlines (b :: rest) =
      match splitlines rest with
      | [] => [[b]]
      | line :: lines => (b :: line) :: lines := by
  have h13 : b ≠ 13 := by
    rintro rfl
    revert h
    decide
  rw [splitlines, if_neg (by rw [h]; decide)]
  rintro rest' hb
  exact absurd hb h13

/-- A text whose only line break is the line feed: `splitOn` has the same lines, and one more
empty one when the text is empty or ends with a line feed. -/
theorem splitOn_eq_splitlines {text : Bytes} (h : ∀ b ∈ text, lineBreak b = true → b = 10) :
    ∃ tail, (tail = [] ∨ tail = [[]]) ∧ text.splitOn 10 = splitlines text ++ tail := by
  induction text with
  | nil => exact ⟨[[]], .inr rfl, rfl⟩
  | cons b rest ih =>
    obtain ⟨tail, htail, hrest⟩ := ih fun x hx => h x (List.mem_cons_of_mem _ hx)
    by_cases hb : b = 10
    · subst hb
      refine ⟨tail, htail, ?_⟩
      rw [splitOn_cons, if_pos rfl, splitlines_cons_break, hrest, List.cons_append]
    · have hbreak : lineBreak b = false := by
        by_contra hcon
        exact hb (h b List.mem_cons_self (by simpa using hcon))
      rw [splitOn_cons, if_neg hb, splitlines_cons hbreak, hrest]
      cases hlines : splitlines rest with
      | nil =>
        -- the empty line after the last break becomes the line of `b`
        rcases htail with rfl | rfl
        · rw [hlines] at hrest
          simp [List.splitOn] at hrest
        · exact ⟨[], .inl rfl, rfl⟩
      | cons line lines => exact ⟨tail, htail, rfl⟩

/-- **A reader that skips empty lines reads the same of both splits.** -/
theorem filterMap_splitlines {α : Type} {f : Bytes → Option α} (hf : f [] = none) {text : Bytes}
    (h : ∀ b ∈ text, lineBreak b = true → b = 10) :
    (splitlines text).filterMap f = (text.splitOn 10).filterMap f := by
  obtain ⟨tail, htail, heq⟩ := splitOn_eq_splitlines h
  rw [heq, List.filterMap_append]
  rcases htail with rfl | rfl
  · simp
  · simp [hf]

/-- The bytes of a line are bytes of the text, and none ends a line. -/
theorem mem_splitOn {sep : UInt8} {text line : Bytes} (hline : line ∈ text.splitOn sep) {b : UInt8}
    (hb : b ∈ line) : b ∈ text ∧ b ≠ sep := by
  induction text generalizing line with
  | nil =>
    rw [List.splitOn_nil, List.mem_singleton] at hline
    subst hline
    simp at hb
  | cons c rest ih =>
    rw [splitOn_cons] at hline
    split at hline
    · rcases List.mem_cons.mp hline with rfl | hline
      · simp at hb
      · exact ⟨List.mem_cons_of_mem _ (ih hline hb).1, (ih hline hb).2⟩
    · next hc =>
      cases hsplit : rest.splitOn sep with
      | nil =>
        rw [hsplit] at hline
        simp at hline
      | cons first lines =>
        rw [hsplit, List.modifyHead_cons, List.mem_cons] at hline
        rcases hline with rfl | hline
        · rcases List.mem_cons.mp hb with rfl | hb
          · exact ⟨List.mem_cons_self, hc⟩
          · have := ih (by rw [hsplit]; exact List.mem_cons_self) hb
            exact ⟨List.mem_cons_of_mem _ this.1, this.2⟩
        · have := ih (by rw [hsplit]; exact List.mem_cons_of_mem _ hline) hb
          exact ⟨List.mem_cons_of_mem _ this.1, this.2⟩

end NetScanner.Infra
