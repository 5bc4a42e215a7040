import NetScanner.Infra.JsonString
import NetScanner.Infra.Numerals

/-!
# JSON texts

`value?` reads the JSON value that some bytes start with: any of the seven kinds, with blanks
anywhere between the tokens. Numbers are whole; one with a fraction or an exponent is refused.

A writer need not write what the reader would. `Reads v text` says that `text` is read as `v`,
whatever follows it, and the lemmas below build up such texts from their parts: what a program
prints piece by piece is a JSON text if its pieces fit together.
-/

namespace NetScanner.Infra

open JsonString

/-- A JSON value with whole numbers. -/
inductive Json where
  | null
  | bool (b : Bool)
  | number (n : Int)
  | string (s : Bytes)
  | array (elements : List Json)
  | object (members : List (Bytes × Json))

namespace Json

/-! ## The reader -/

def isSpace (b : UInt8) : Bool := b == 32 || b == 9 || b == 10 || b == 13

def skipSpace (text : Bytes) : Bytes := text.dropWhile isSpace

/-- A run of digits without a zero too many, and no fraction or exponent behind it. -/
def natural? (text : Bytes) : Option (Nat × Bytes) :=
  let digits := text.takeWhile fun b => decide (isDigit b)
  let rest := text.dropWhile fun b => decide (isDigit b)
  if digits = [] ∨ (digits.head? = some 48 ∧ digits.length ≠ 1) then none
  else if rest.head? = some 46 ∨ rest.head? = some 69 ∨ rest.head? = some 101 then none
  else some (decimalValue digits, rest)

def number? : Bytes → Option (Json × Bytes)
  | 45 :: text => (natural? text).map fun (n, rest) => (.number (-n), rest)
  | text => (natural? text).map fun (n, rest) => (.number n, rest)

mutual

/-- The value that a text starts with, and what follows it; `fuel` is longer than the text. -/
def value? : Nat → Bytes → Option (Json × Bytes)
  | 0, _ => none
  | fuel + 1, text =>
    match skipSpace text with
    | 34 :: rest => (string? (34 :: rest)).map fun (s, rest) => (.string s, rest)
    | 91 :: rest =>
      match skipSpace rest with
      | 93 :: rest => some (.array [], rest)
      | rest => (elements? fuel rest).map fun (vs, rest) => (.array vs, rest)
    | 123 :: rest =>
      match skipSpace rest with
      | 125 :: rest => some (.object [], rest)
      | rest => (members? fuel rest).map fun (ms, rest) => (.object ms, rest)
    | 110 :: 117 :: 108 :: 108 :: rest => some (.null, rest)
    | 116 :: 114 :: 117 :: 101 :: rest => some (.bool true, rest)
    | 102 :: 97 :: 108 :: 115 :: 101 :: rest => some (.bool false, rest)
    | rest => number? rest

/-- The elements of an array, up to its bracket. -/
def elements? : Nat → Bytes → Option (List Json × Bytes)
  | 0, _ => none
  | fuel + 1, text =>
    match value? fuel text with
    | none => none
    | some (v, rest) =>
      match skipSpace rest with
      | 44 :: rest => (elements? fuel rest).map fun (vs, rest) => (v :: vs, rest)
      | 93 :: rest => some ([v], rest)
      | _ => none

/-- The members of an object, up to its brace. -/
def members? : Nat → Bytes → Option (List (Bytes × Json) × Bytes)
  | 0, _ => none
  | fuel + 1, text =>
    match string? (skipSpace text) with
    | none => none
    | some (key, rest) =>
      match skipSpace rest with
      | 58 :: rest =>
        match value? fuel rest with
        | none => none
        | some (v, rest) =>
          match skipSpace rest with
          | 44 :: rest => (members? fuel rest).map fun (ms, rest) => ((key, v) :: ms, rest)
          | 125 :: rest => some ([(key, v)], rest)
          | _ => none
      | _ => none

end

/-- The value that a text is, with nothing but blanks around it. -/
def parse? (text : Bytes) : Option Json :=
  match value? (text.length + 1) text with
  | none => none
  | some (v, rest) => if skipSpace rest = [] then some v else none

/-- The value that a text is; JSON is UTF-8, and bytes that are not are no JSON. -/
def parseUtf8? (text : Bytes) : Option Json := if IsUtf8 text then parse? text else none

/-- Every string of the value is UTF-8. -/
inductive IsText : Json → Prop
  | null : IsText .null
  | bool (b : Bool) : IsText (.bool b)
  | number (n : Int) : IsText (.number n)
  | string {s : Bytes} : IsUtf8 s → IsText (.string s)
  | array {vs : List Json} : (∀ v ∈ vs, IsText v) → IsText (.array vs)
  | object {ms : List (Bytes × Json)} : (∀ m ∈ ms, IsUtf8 m.1) → (∀ m ∈ ms, IsText m.2) →
      IsText (.object ms)

@[simp] theorem isText_string_iff {s : Bytes} : IsText (.string s) ↔ IsUtf8 s :=
  ⟨fun | .string h => h, .string⟩

@[simp] theorem isText_number (n : Int) : IsText (.number n) := .number n

@[simp] theorem isText_object_iff {ms : List (Bytes × Json)} :
    IsText (.object ms) ↔ ∀ m ∈ ms, IsUtf8 m.1 ∧ IsText m.2 :=
  ⟨fun | .object hkeys hvalues => fun m hm => ⟨hkeys m hm, hvalues m hm⟩,
    fun h => .object (fun m hm => (h m hm).1) fun m hm => (h m hm).2⟩

/-! ## Numbers in decimal -/

/-- A number as it is printed. -/
def writeNat (n : Nat) : Bytes := ascii (toString n)

def writeInt (n : Int) : Bytes := if n < 0 then 45 :: writeNat n.natAbs else writeNat n.natAbs

/-- The last digit and those before it. -/
theorem writeNat_eq (n : Nat) : writeNat n =
    if n < 10 then [UInt8.ofNat (48 + n)]
    else writeNat (n / 10) ++ [UInt8.ofNat (48 + n % 10)] := by
  have hdigit : ∀ d < 10, UInt8.ofNat (Nat.digitChar d).toNat = UInt8.ofNat (48 + d) := by decide
  have hdigits : ∀ n, writeNat n = (Nat.toDigits 10 n).map fun c => UInt8.ofNat c.toNat := by
    intro n
    rw [writeNat, ascii, Nat.toString_eq_repr, Nat.toList_repr]
  rw [hdigits, hdigits]
  split
  · next hten => rw [Nat.toDigits_of_lt_base hten, List.map_singleton, hdigit n hten]
  · next hten =>
    rw [Nat.toDigits_of_base_le (by decide) (Nat.not_lt.mp hten), List.map_append,
      List.map_singleton, hdigit _ (Nat.mod_lt n (by decide))]

/-- **The digits of a number are digits, one of them zero only if it is the number, and write
it.** -/
theorem writeNat_digits (n : Nat) :
    (∀ b ∈ writeNat n, isDigit b) ∧ decimalValue (writeNat n) = n ∧
      ∃ first more, writeNat n = first :: more ∧ (first = 48 → more = [] ∧ n = 0) := by
  have hdigit : ∀ d < 10, isDigit (UInt8.ofNat (48 + d)) ∧
      (UInt8.ofNat (48 + d)).toNat - 48 = d ∧ (UInt8.ofNat (48 + d) = 48 → d = 0) := by decide
  induction n using Nat.strong_induction_on with
  | h n ih =>
    rw [writeNat_eq]
    split
    · next hten =>
      obtain ⟨hd, hvalue, hzero⟩ := hdigit n hten
      refine ⟨by simpa using hd, ?_, _, _, rfl, fun h => ⟨rfl, hzero h⟩⟩
      simpa [decimalValue, digitsFrom] using hvalue
    · next hten =>
      obtain ⟨hall, hvalue, first, more, hfirst, hzero⟩ := ih (n / 10) (by omega)
      obtain ⟨hd, hlast, -⟩ := hdigit (n % 10) (Nat.mod_lt n (by decide))
      refine ⟨?_, ?_, first, more ++ [UInt8.ofNat (48 + n % 10)], by rw [hfirst]; rfl, ?_⟩
      · intro b hb
        rcases List.mem_append.mp hb with hb | hb
        · exact hall b hb
        · obtain rfl := List.mem_singleton.mp hb
          exact hd
      · rw [decimalValue_snoc, hvalue, hlast]
        omega
      · intro h
        obtain ⟨-, hnone⟩ := hzero h
        omega

theorem isUtf8_writeNat (n : Nat) : IsUtf8 (writeNat n) := by
  refine isUtf8_of_ascii fun b hb => ?_
  have hall : ∀ b : UInt8, isDigit b → b < 128 := forall_byte (by decide +kernel)
  exact hall b ((writeNat_digits n).1 b hb)

theorem isUtf8_writeInt (n : Int) : IsUtf8 (writeInt n) := by
  unfold writeInt
  split
  · exact (isUtf8_cons_iff (by decide)).mpr (isUtf8_writeNat _)
  · exact isUtf8_writeNat _

/-! ## Texts that are read as a value -/

/-- What may follow a number. -/
def Stops (rest : Bytes) : Prop := ∀ b ∈ rest.head?, ¬isDigit b ∧ b ≠ 46 ∧ b ≠ 69 ∧ b ≠ 101

theorem stops_cons {b : UInt8} (h : ¬isDigit b ∧ b ≠ 46 ∧ b ≠ 69 ∧ b ≠ 101) (rest : Bytes) :
    Stops (b :: rest) := by
  intro c hc
  cases hc
  exact h

/-- The text is read as the value, whatever follows it. -/
structure Reads (v : Json) (text : Bytes) : Prop where
  head : ∃ b more, text = b :: more ∧ isSpace b = false ∧ b ≠ 93
  read : ∀ (fuel : Nat) (rest : Bytes), text.length ≤ fuel → Stops rest →
    value? fuel (text ++ rest) = some (v, rest)

/-- The text is read as the string, quotes and all. -/
structure ReadsString (s text : Bytes) : Prop where
  head : ∃ more, text = 34 :: more
  read : ∀ rest, string? (text ++ rest) = some (s, rest)

/-- The values, with a comma between two. -/
inductive ReadsElements : List Json → Bytes → Prop
  | one {v : Json} {text : Bytes} : Reads v text → ReadsElements [v] text
  | cons {v : Json} {vs : List Json} {text texts : Bytes} : Reads v text →
      ReadsElements vs texts → ReadsElements (v :: vs) (text ++ 44 :: texts)

/-- The names and their values, with a comma between two. -/
inductive ReadsMembers : List (Bytes × Json) → Bytes → Prop
  | one {key keyText text : Bytes} {v : Json} : ReadsString key keyText → Reads v text →
      ReadsMembers [(key, v)] (keyText ++ 58 :: text)
  | cons {key keyText text texts : Bytes} {v : Json} {ms : List (Bytes × Json)} :
      ReadsString key keyText → Reads v text → ReadsMembers ms texts →
      ReadsMembers ((key, v) :: ms) (keyText ++ 58 :: (text ++ 44 :: texts))

theorem skipSpace_cons {b : UInt8} (h : isSpace b = false) (rest : Bytes) :
    skipSpace (b :: rest) = b :: rest :=
  List.dropWhile_cons_of_neg (by rw [h]; exact Bool.false_ne_true)

theorem Reads.skipSpace {v : Json} {text : Bytes} (h : Reads v text) (rest : Bytes) :
    Json.skipSpace (text ++ rest) = text ++ rest := by
  obtain ⟨b, more, rfl, hb, -⟩ := h.head
  exact skipSpace_cons hb _

theorem Reads.length_pos {v : Json} {text : Bytes} (h : Reads v text) : 0 < text.length := by
  obtain ⟨b, more, rfl, -⟩ := h.head
  exact Nat.succ_pos _

theorem ReadsString.length_pos {s text : Bytes} (h : ReadsString s text) : 0 < text.length := by
  obtain ⟨more, rfl⟩ := h.head
  exact Nat.succ_pos _

/-! ### Atoms -/

theorem reads_null : Reads .null (ascii "null") where
  head := ⟨110, _, rfl, by decide, by decide⟩
  read fuel rest hfuel _ := by
    obtain ⟨fuel, rfl⟩ := Nat.exists_eq_add_of_le' (Nat.le_trans (by decide : 1 ≤ 4) hfuel)
    rfl

theorem ReadsString.reads {s text : Bytes} (h : ReadsString s text) : Reads (.string s) text where
  head := by
    obtain ⟨more, hmore⟩ := h.head
    exact ⟨34, more, hmore, by decide, by decide⟩
  read fuel rest hfuel _ := by
    have hread := h.read rest
    obtain ⟨fuel, rfl⟩ := Nat.exists_eq_add_of_le' (Nat.le_trans h.length_pos hfuel)
    obtain ⟨more, rfl⟩ := h.head
    rw [List.cons_append] at hread ⊢
    rw [value?, skipSpace_cons (by decide)]
    simp only [hread, Option.map_some]

theorem natural?_writeNat (n : Nat) {rest : Bytes} (h : Stops rest) :
    natural? (writeNat n ++ rest) = some (n, rest) := by
  obtain ⟨hall, hvalue, first, more, hfirst, hzero⟩ := writeNat_digits n
  have hrest : ∀ b ∈ rest.head?, decide (isDigit b) = false :=
    fun b hb => decide_eq_false (h b hb).1
  have hsplit := takeWhile_dropWhile_append (p := fun b => decide (isDigit b))
    (fun b hb => decide_eq_true (hall b hb)) hrest
  have hlong : ¬(writeNat n = [] ∨ (writeNat n).head? = some 48 ∧ (writeNat n).length ≠ 1) := by
    rw [hfirst]
    rintro (hnil | ⟨hhead, hlen⟩)
    · cases hnil
    · obtain ⟨hmore, -⟩ := hzero (Option.some.inj hhead)
      rw [hmore] at hlen
      exact hlen rfl
  have hstop : ¬(rest.head? = some 46 ∨ rest.head? = some 69 ∨ rest.head? = some 101) := by
    rintro (hb | hb | hb)
    · exact (h 46 hb).2.1 rfl
    · exact (h 69 hb).2.2.1 rfl
    · exact (h 101 hb).2.2.2 rfl
  unfold natural?
  simp only [hsplit.1, hsplit.2, hvalue]
  rw [if_neg hlong, if_neg hstop]

theorem digit_cases {b : UInt8} (h : isDigit b) : b = 48 ∨ b = 49 ∨ b = 50 ∨ b = 51 ∨ b = 52 ∨
    b = 53 ∨ b = 54 ∨ b = 55 ∨ b = 56 ∨ b = 57 := by
  have hall : ∀ b : UInt8, isDigit b → b = 48 ∨ b = 49 ∨ b = 50 ∨ b = 51 ∨ b = 52 ∨ b = 53 ∨
      b = 54 ∨ b = 55 ∨ b = 56 ∨ b = 57 := forall_byte (by decide +kernel)
  exact hall b h

/-- A value that starts with a digit is a number. -/
theorem value?_digit {b : UInt8} (h : isDigit b) (fuel : Nat) (rest : Bytes) :
    value? (fuel + 1) (b :: rest) =
      (natural? (b :: rest)).map fun (n, rest) => (.number n, rest) := by
  rcases digit_cases h with rfl | rfl | rfl | rfl | rfl | rfl | rfl | rfl | rfl | rfl <;> rfl

theorem reads_natural (n : Nat) : Reads (.number n) (writeNat n) := by
  obtain ⟨hall, -, first, more, hfirst, -⟩ := writeNat_digits n
  have hd : isDigit first := hall first (by rw [hfirst]; exact List.mem_cons_self)
  constructor
  · refine ⟨first, more, hfirst, ?_⟩
    rcases digit_cases hd with rfl | rfl | rfl | rfl | rfl | rfl | rfl | rfl | rfl | rfl <;> decide
  · intro fuel rest hfuel hrest
    have hread := natural?_writeNat n hrest
    rw [hfirst] at hfuel hread ⊢
    obtain ⟨fuel, rfl⟩ := Nat.exists_eq_add_of_le' (Nat.le_trans (Nat.succ_pos _) hfuel)
    rw [List.cons_append] at hread ⊢
    rw [value?_digit hd, hread]
    rfl

theorem reads_int (n : Int) : Reads (.number n) (writeInt n) := by
  unfold writeInt
  split
  · next hneg =>
    refine ⟨⟨45, _, rfl, by decide, by decide⟩, ?_⟩
    intro fuel rest hfuel hrest
    obtain ⟨fuel, rfl⟩ := Nat.exists_eq_add_of_le' (Nat.le_trans (Nat.succ_pos _) hfuel)
    have habs : -(n.natAbs : Int) = n := by omega
    have hvalue : value? (fuel + 1) (45 :: (writeNat n.natAbs ++ rest)) =
        (natural? (writeNat n.natAbs ++ rest)).map fun (n, rest) => (.number (-n), rest) := rfl
    rw [List.cons_append, hvalue, natural?_writeNat _ hrest]
    show some (Json.number (-(n.natAbs : Int)), rest) = _
    rw [habs]
  · next hpos =>
    have habs : (n.natAbs : Int) = n := by omega
    rw [← habs]
    exact reads_natural n.natAbs

/-! ### Arrays and objects -/

/-- The elements up to the bracket. -/
theorem ReadsElements.read {vs : List Json} {texts : Bytes} (h : ReadsElements vs texts)
    (rest : Bytes) {fuel : Nat} (hfuel : texts.length < fuel) :
    elements? fuel (texts ++ 93 :: rest) = some (vs, rest) := by
  induction h generalizing fuel with
  | @one v text hv =>
    obtain ⟨fuel, rfl⟩ := Nat.exists_eq_succ_of_ne_zero (Nat.ne_zero_of_lt hfuel)
    have hread := hv.read fuel (93 :: rest) (by omega) (stops_cons (by decide) rest)
    rw [elements?, hread]
    rfl
  | @cons v vs text texts hv _ ih =>
    obtain ⟨fuel, rfl⟩ := Nat.exists_eq_succ_of_ne_zero (Nat.ne_zero_of_lt hfuel)
    rw [List.length_append, List.length_cons] at hfuel
    have hpos := hv.length_pos
    have hread := hv.read fuel (44 :: (texts ++ 93 :: rest)) (by omega)
      (stops_cons (by decide) _)
    rw [List.append_assoc, List.cons_append, elements?, hread]
    dsimp only
    rw [skipSpace_cons (by decide)]
    show (elements? fuel (texts ++ 93 :: rest)).map _ = _
    rw [ih (by omega)]
    rfl

/-- The members up to the brace. -/
theorem ReadsMembers.read {ms : List (Bytes × Json)} {texts : Bytes} (h : ReadsMembers ms texts)
    (rest : Bytes) {fuel : Nat} (hfuel : texts.length < fuel) :
    members? fuel (texts ++ 125 :: rest) = some (ms, rest) := by
  induction h generalizing fuel with
  | @one key keyText text v hkey hv =>
    obtain ⟨fuel, rfl⟩ := Nat.exists_eq_succ_of_ne_zero (Nat.ne_zero_of_lt hfuel)
    rw [List.length_append, List.length_cons] at hfuel
    have hstring := hkey.read (58 :: (text ++ 125 :: rest))
    have hread := hv.read fuel (125 :: rest) (by omega) (stops_cons (by decide) rest)
    rw [List.append_assoc, List.cons_append, members?, hkey.reads.skipSpace, hstring]
    dsimp only
    rw [skipSpace_cons (by decide)]
    show (match value? fuel (text ++ 125 :: rest) with
      | none => none
      | some (v, rest) => _) = _
    rw [hread]
    rfl
  | @cons key keyText text texts v ms hkey hv _ ih =>
    obtain ⟨fuel, rfl⟩ := Nat.exists_eq_succ_of_ne_zero (Nat.ne_zero_of_lt hfuel)
    simp only [List.length_append, List.length_cons] at hfuel
    have hstring := hkey.read (58 :: (text ++ 44 :: (texts ++ 125 :: rest)))
    have hread := hv.read fuel (44 :: (texts ++ 125 :: rest)) (by omega)
      (stops_cons (by decide) _)
    have htext : keyText ++ 58 :: (text ++ 44 :: texts) ++ 125 :: rest =
        keyText ++ 58 :: (text ++ 44 :: (texts ++ 125 :: rest)) := by simp
    rw [htext, members?, hkey.reads.skipSpace, hstring]
    dsimp only
    rw [skipSpace_cons (by decide)]
    show (match value? fuel (text ++ 44 :: (texts ++ 125 :: rest)) with
      | none => none
      | some (v, rest) => _) = _
    rw [hread]
    dsimp only
    rw [skipSpace_cons (by decide)]
    show (members? fuel (texts ++ 125 :: rest)).map _ = _
    rw [ih (by omega)]
    rfl

theorem reads_emptyArray : Reads (.array []) [91, 93] where
  head := ⟨91, _, rfl, by decide, by decide⟩
  read fuel rest hfuel _ := by
    obtain ⟨fuel, rfl⟩ := Nat.exists_eq_add_of_le' (Nat.le_trans (by decide : 1 ≤ 2) hfuel)
    rfl

/-- An array whose first byte is not its bracket. -/
theorem value?_array {b : UInt8} (hb : isSpace b = false ∧ b ≠ 93) (fuel : Nat) (rest : Bytes) :
    value? (fuel + 1) (91 :: b :: rest) =
      (elements? fuel (b :: rest)).map fun (vs, rest) => (.array vs, rest) := by
  have hbracket : value? (fuel + 1) (91 :: b :: rest) =
      match skipSpace (b :: rest) with
      | 93 :: rest => some (.array [], rest)
      | rest => (elements? fuel rest).map fun (vs, rest) => (.array vs, rest) := rfl
  rw [hbracket, skipSpace_cons hb.1]
  split
  · next heq =>
    cases heq
    exact absurd rfl hb.2
  · rfl

theorem value?_object {b : UInt8} (hb : isSpace b = false ∧ b ≠ 125) (fuel : Nat) (rest : Bytes) :
    value? (fuel + 1) (123 :: b :: rest) =
      (members? fuel (b :: rest)).map fun (ms, rest) => (.object ms, rest) := by
  have hbrace : value? (fuel + 1) (123 :: b :: rest) =
      match skipSpace (b :: rest) with
      | 125 :: rest => some (.object [], rest)
      | rest => (members? fuel rest).map fun (ms, rest) => (.object ms, rest) := rfl
  rw [hbrace, skipSpace_cons hb.1]
  split
  · next heq =>
    cases heq
    exact absurd rfl hb.2
  · rfl

theorem ReadsElements.reads {vs : List Json} {texts : Bytes} (h : ReadsElements vs texts) :
    Reads (.array vs) (91 :: (texts ++ [93])) := by
  have hhead : ∃ b more, texts = b :: more ∧ isSpace b = false ∧ b ≠ 93 := by
    cases h with
    | one hv => exact hv.head
    | @cons v vs text texts hv _ =>
      obtain ⟨b, more, rfl, hb⟩ := hv.head
      exact ⟨b, _, rfl, hb⟩
  refine ⟨⟨91, _, rfl, by decide, by decide⟩, ?_⟩
  intro fuel rest hfuel _
  rw [List.length_cons, List.length_append, List.length_singleton] at hfuel
  obtain ⟨fuel, rfl⟩ := Nat.exists_eq_add_of_le' (Nat.le_trans (Nat.succ_pos _) hfuel)
  have hread := h.read rest (show texts.length < fuel by omega)
  obtain ⟨b, more, rfl, hb⟩ := hhead
  have htext : 91 :: (b :: more ++ [93]) ++ rest = 91 :: b :: (more ++ 93 :: rest) := by simp
  rw [List.cons_append] at hread
  rw [htext, value?_array hb, hread]
  rfl

theorem ReadsMembers.reads {ms : List (Bytes × Json)} {texts : Bytes} (h : ReadsMembers ms texts) :
    Reads (.object ms) (123 :: (texts ++ [125])) := by
  have hhead : ∃ more, texts = 34 :: more := by
    cases h with
    | one hkey _ | cons hkey _ _ =>
      obtain ⟨more, rfl⟩ := hkey.head
      exact ⟨_, rfl⟩
  refine ⟨⟨123, _, rfl, by decide, by decide⟩, ?_⟩
  intro fuel rest hfuel _
  rw [List.length_cons, List.length_append, List.length_singleton] at hfuel
  obtain ⟨fuel, rfl⟩ := Nat.exists_eq_add_of_le' (Nat.le_trans (Nat.succ_pos _) hfuel)
  have hread := h.read rest (show texts.length < fuel by omega)
  obtain ⟨more, rfl⟩ := hhead
  have htext : 123 :: (34 :: more ++ [125]) ++ rest = 123 :: 34 :: (more ++ 125 :: rest) := by simp
  rw [List.cons_append] at hread
  rw [htext, value?_object (by decide), hread]
  rfl

/-- **A text that is read as a value is that value**, with blanks behind it. -/
theorem Reads.parse? {v : Json} {text : Bytes} (h : Reads v text) {behind : Bytes}
    (hblank : ∀ b ∈ behind, isSpace b = true) : Json.parse? (text ++ behind) = some v := by
  have hstops : Stops behind := by
    intro b hb
    have hspace := hblank b (List.mem_of_mem_head? hb)
    have hall : ∀ b : UInt8, isSpace b = true → ¬isDigit b ∧ b ≠ 46 ∧ b ≠ 69 ∧ b ≠ 101 :=
      forall_byte (by decide +kernel)
    exact hall b hspace
  have hread := h.read ((text ++ behind).length + 1) behind
    (by rw [List.length_append]; omega) hstops
  have hnone : Json.skipSpace behind = [] := List.dropWhile_eq_nil_iff.mpr hblank
  rw [Json.parse?, hread]
  dsimp only
  rw [if_pos hnone]

end Json

end NetScanner.Infra
