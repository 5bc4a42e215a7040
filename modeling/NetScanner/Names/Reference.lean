import NetScanner.Names.Multicast

/-!
# Reading the names of a DNS message

What the names of a packet are, without a walker. A name stands in the packet as a run of
labels that ends with the root or with a pointer to the rest of it (`InPlace`); following the
pointers gives all of its labels (`NameAt`).

Both walkers read this. `skipName` finds the end of the run (`skipName_iff`), and `decodeName`
writes the labels with dots between them, if there is at least one, none has a character outside
printable ASCII, there are at most 16 pointers and the text has at most 256 bytes
(`decodeName_iff`).
-/

namespace NetScanner.Names

open Infra Net

variable {packet : Bytes}

/-! ## Names -/

/-- The labels at a position, up to the root or a pointer, and where the next thing starts. -/
inductive InPlace (packet : Bytes) : Nat → List Bytes → Option Nat → Nat → Prop where
  | root {pos : Nat} (h : packet[pos]? = some 0) : InPlace packet pos [] none (pos + 1)
  | pointer {pos : Nat} {high low : UInt8} (hhigh : packet[pos]? = some high)
      (hpointer : 192 ≤ high.toNat) (hlow : packet[pos + 1]? = some low) :
      InPlace packet pos [] (some ((high.toNat - 192) * 256 + low.toNat)) (pos + 2)
  | label {pos next : Nat} {n : UInt8} {labels : List Bytes} {rest : Option Nat}
      (hn : packet[pos]? = some n) (hpos : 0 < n.toNat) (hlt : n.toNat < 64)
      (more : InPlace packet (pos + 1 + n.toNat) labels rest next) :
      InPlace packet pos (slice packet (pos + 1) (pos + 1 + n.toNat) :: labels) rest next

/-- All labels of the name at a position, over so many pointers. -/
inductive NameAt (packet : Bytes) : Nat → Nat → List Bytes → Prop where
  | whole {pos next : Nat} {labels : List Bytes} (h : InPlace packet pos labels none next) :
      NameAt packet pos 0 labels
  | follow {pos next target jumps : Nat} {labels more : List Bytes}
      (h : InPlace packet pos labels (some target) next) (rest : NameAt packet target jumps more) :
      NameAt packet pos (jumps + 1) (labels ++ more)

/-- Printable ASCII. -/
def Printable (bytes : Bytes) : Prop := ∀ b ∈ bytes, 32 ≤ b.toNat ∧ b.toNat ≤ 126

instance (bytes : Bytes) : Decidable (Printable bytes) := List.decidableBAll _ bytes

/-- Labels with dots between them. -/
def dotted (labels : List Bytes) : Bytes := [46].intercalate labels

/-- The name at a position as text. -/
structure Decodes (packet : Bytes) (pos : Nat) (name : Bytes) : Prop where
  intro ::
  spelled : ∃ jumps labels, NameAt packet pos jumps labels ∧ jumps ≤ maxJumps ∧ labels ≠ [] ∧
    (∀ label ∈ labels, Printable label) ∧ name = dotted labels
  short : name.length ≤ 256

/-! ## The bytes of a name -/

/-- The top two bits tell pointers and labels apart. -/
theorem pointer_iff (b : UInt8) : b &&& 0xC0 = 0xC0 ↔ 192 ≤ b.toNat := by
  revert b
  exact forall_byte (by decide +kernel)

theorem not_label_iff (b : UInt8) : b &&& 0xC0 ≠ 0 ↔ 64 ≤ b.toNat := by
  revert b
  exact forall_byte (by decide +kernel)

theorem eq_zero_iff (b : UInt8) : b = 0 ↔ b.toNat = 0 := by
  rw [← UInt8.toNat_inj]
  rfl

theorem pointerTarget_eq {high : UInt8} (low : UInt8) (h : 192 ≤ high.toNat) :
    pointerTarget high low = (high.toNat - 192) * 256 + low.toNat := by
  have hand : ∀ b : UInt8, 192 ≤ b.toNat → (b &&& 0x3F).toNat = b.toNat - 192 :=
    forall_byte (by decide +kernel)
  unfold pointerTarget
  rw [hand high h, ← Nat.shiftLeft_add_eq_or_of_lt low.toNat_lt, Nat.shiftLeft_eq]

/-! ## Where a name ends -/

theorem skipName_of_inPlace {pos next : Nat} {labels : List Bytes} {rest : Option Nat}
    (h : InPlace packet pos labels rest next) : skipName packet pos = some next := by
  induction h with
  | root h =>
    obtain ⟨hlt, hbyte⟩ := byteAt_of_getElem? h
    rw [skipName, if_pos hlt]
    simp only [hbyte, if_pos]
  | pointer hhigh hpointer hlow =>
    obtain ⟨hlt, hbyte⟩ := byteAt_of_getElem? hhigh
    obtain ⟨hlt', -⟩ := byteAt_of_getElem? hlow
    rw [skipName, if_pos hlt]
    simp only [hbyte]
    rw [if_neg (by rw [eq_zero_iff]; omega), if_pos ((pointer_iff _).mpr hpointer),
      if_pos (by omega)]
  | label hn hpos hlt more ih =>
    obtain ⟨hlt', hbyte⟩ := byteAt_of_getElem? hn
    rw [skipName, if_pos hlt']
    simp only [hbyte]
    rw [if_neg (by rw [eq_zero_iff]; omega), if_neg (by rw [pointer_iff]; omega),
      if_neg (by rw [not_label_iff]; omega)]
    exact ih

theorem inPlace_of_skipName {pos next : Nat} (h : skipName packet pos = some next) :
    ∃ labels rest, InPlace packet pos labels rest next := by
  fun_induction skipName packet pos with
  | case1 pos hlt len hzero =>
    obtain rfl := Option.some.inj h
    refine ⟨[], none, .root ?_⟩
    rw [getElem?_of_lt hlt]
    exact congrArg some hzero
  | case2 pos hlt len hzero hpointer hfits =>
    obtain rfl := Option.some.inj h
    exact ⟨[], _, .pointer (getElem?_of_lt hlt) ((pointer_iff _).mp hpointer)
      (getElem?_of_lt (by omega))⟩
  | case3 => simp at h
  | case4 => simp at h
  | case5 pos hlt len hzero hpointer hlabel ih =>
    obtain ⟨labels, rest, hmore⟩ := ih h
    rw [eq_zero_iff] at hzero
    rw [not_label_iff] at hlabel
    exact ⟨_, rest, .label (n := len) (getElem?_of_lt hlt) (by omega) (by omega) hmore⟩
  | case6 => simp at h

/-- **`skipName` finds where the name in place ends.** -/
theorem skipName_iff {pos next : Nat} :
    skipName packet pos = some next ↔ ∃ labels rest, InPlace packet pos labels rest next := by
  constructor
  · exact inPlace_of_skipName
  · rintro ⟨labels, rest, h⟩
    exact skipName_of_inPlace h

/-! ## Writing a name -/

@[simp] theorem text_zero (out : Buffer) : text out 0 = [] := rfl

theorem length_text (out : Buffer) {len : Nat} (h : len ≤ 256) : (text out len).length = len := by
  rw [text, List.length_take, Vector.length_toList]
  omega

/-- Writing a byte after the text appends it. -/
theorem text_set {out : Buffer} {len : Nat} (h : len < 256) (b : UInt8) :
    text (out.setIfInBounds len b) (len + 1) = text out len ++ [b] := by
  have hlen : len < out.toList.length := by
    rw [Vector.length_toList]
    exact h
  unfold text
  rw [Vector.toList_setIfInBounds, List.take_add_one, List.take_set_of_le (Nat.le_refl _),
    List.getElem?_set_self hlen]
  rfl

theorem printable_iff {b : UInt8} : ¬(b < 32 ∨ b > 126) ↔ 32 ≤ b.toNat ∧ b.toNat ≤ 126 := by
  simp only [gt_iff_lt, UInt8.lt_iff_toNat_lt, not_or, Nat.not_lt]
  rfl

/-- A printable label is written whole. -/
theorem writeLabel_printable {label : Bytes} (hprint : Printable label) (out : Buffer) {len : Nat}
    (hfits : len + label.length ≤ 256) :
    ∃ out', writeLabel out len label = (some (len + label.length), out') ∧
      text out' (len + label.length) = text out len ++ label := by
  induction label generalizing out len with
  | nil => exact ⟨out, rfl, by simp⟩
  | cons b rest ih =>
    rw [List.length_cons] at hfits
    have hb := printable_iff.mpr (hprint b List.mem_cons_self)
    have hfits' : len + 1 + rest.length ≤ 256 := by omega
    obtain ⟨out', hwrite, htext⟩ :=
      ih (fun c hc => hprint c (List.mem_cons_of_mem _ hc)) (out.setIfInBounds len b) hfits'
    have hsum : len + (b :: rest).length = len + 1 + rest.length := by
      rw [List.length_cons]
      omega
    refine ⟨out', ?_, ?_⟩
    · rw [writeLabel, if_neg hb, hwrite, hsum]
    · rw [hsum, htext, text_set (by omega), List.append_assoc]
      rfl

/-- Only a printable label is written. -/
theorem printable_of_writeLabel {label : Bytes} {out out' : Buffer} {len n : Nat}
    (h : writeLabel out len label = (some n, out')) : Printable label := by
  induction label generalizing out len with
  | nil => exact fun b hb => absurd hb List.not_mem_nil
  | cons c rest ih =>
    rw [writeLabel] at h
    split at h
    · simp at h
    · next hc =>
      intro b hb
      rcases List.mem_cons.mp hb with rfl | hb
      · exact printable_iff.mp hc
      · exact ih h b hb

/-- A label after what is written, with a dot between them. -/
def appendLabel (name label : Bytes) : Bytes := if name = [] then label else name ++ 46 :: label

theorem dotted_cons_cons (first second : Bytes) (rest : List Bytes) :
    dotted (first :: second :: rest) = first ++ 46 :: dotted (second :: rest) := by
  simp [dotted, List.intercalate_cons_cons]

/-- The first label may be what is written so far. -/
theorem dotted_append (name label : Bytes) (rest : List Bytes) :
    dotted ((name ++ 46 :: label) :: rest) = name ++ 46 :: dotted (label :: rest) := by
  cases rest with
  | nil => simp [dotted]
  | cons next rest =>
    rw [dotted_cons_cons, dotted_cons_cons, List.append_assoc, List.cons_append]

theorem foldl_appendLabel (labels : List Bytes) {name : Bytes} (hname : name ≠ []) :
    labels.foldl appendLabel name = dotted (name :: labels) := by
  induction labels generalizing name with
  | nil => simp [dotted]
  | cons label rest ih =>
    have happend : appendLabel name label = name ++ 46 :: label := if_neg hname
    rw [List.foldl_cons, happend, ih (by simp), dotted_append, dotted_cons_cons]

theorem length_le_foldl_appendLabel (labels : List Bytes) (name : Bytes) :
    name.length ≤ (labels.foldl appendLabel name).length := by
  induction labels generalizing name with
  | nil => exact Nat.le_refl _
  | cons label rest ih =>
    refine Nat.le_trans ?_ (ih _)
    unfold appendLabel
    split
    · next h => simp [h]
    · simp

theorem InPlace.lt {pos next : Nat} {labels : List Bytes} {rest : Option Nat}
    (h : InPlace packet pos labels rest next) : pos < packet.length := by
  cases h with
  | root h => exact (byteAt_of_getElem? h).1
  | pointer h => exact (byteAt_of_getElem? h).1
  | label h => exact (byteAt_of_getElem? h).1

/-- The dot before a label that is not the first. -/
def dotLen (len : Nat) : Nat := if len > 0 then 1 else 0

/-- The turn of the loop for a label. -/
theorem decodeLoop_step {jumpsLeft pos len : Nat} {n : UInt8} {out : Buffer}
    (hn : packet[pos]? = some n) (hpos : 0 < n.toNat) (hlt : n.toNat < 64)
    (hend : pos + 1 + n.toNat ≤ packet.length) :
    decodeLoop packet jumpsLeft pos len out =
      if len + dotLen len + n.toNat > 256 then (none, out)
      else
        match writeLabel (if dotLen len = 1 then out.setIfInBounds len 46 else out)
            (len + dotLen len) (slice packet (pos + 1) (pos + 1 + n.toNat)) with
        | (none, out) => (none, out)
        | (some len, out) => decodeLoop packet jumpsLeft (pos + 1 + n.toNat) len out := by
  obtain ⟨hlt', hbyte⟩ := byteAt_of_getElem? hn
  rw [decodeLoop]
  simp only [hbyte]
  rw [if_neg (by omega), if_neg (by rw [eq_zero_iff]; omega), if_neg (by rw [pointer_iff]; omega),
    if_neg (by rw [not_label_iff]; omega), if_neg (by omega)]
  rfl

theorem length_appendLabel (out : Buffer) {len : Nat} (hlen : len ≤ 256) (label : Bytes) :
    (appendLabel (text out len) label).length = len + dotLen len + label.length := by
  have htext := length_text out hlen
  unfold appendLabel dotLen
  split
  · next hnil =>
    rw [hnil] at htext
    rw [← htext]
    simp
  · next hne =>
    have hpos : len > 0 := by
      rw [← htext]
      exact List.length_pos_iff.mpr hne
    rw [if_pos hpos, List.length_append, List.length_cons, htext]
    omega

/-- What is written once a label is. -/
theorem writeLabel_append {label : Bytes} (hprint : Printable label) (out : Buffer) {len : Nat}
    (hlen : len ≤ 256) (hfits : len + dotLen len + label.length ≤ 256) :
    ∃ out', text out' (len + dotLen len + label.length) = appendLabel (text out len) label ∧
      writeLabel (if dotLen len = 1 then out.setIfInBounds len 46 else out) (len + dotLen len)
        label = (some (len + dotLen len + label.length), out') := by
  have htext := length_text out hlen
  by_cases hzero : len = 0
  · subst hzero
    obtain ⟨out', hwrite, hout⟩ := writeLabel_printable hprint out hfits
    exact ⟨out', hout, hwrite⟩
  · have hdot : dotLen len = 1 := if_pos (Nat.pos_of_ne_zero hzero)
    have happend : appendLabel (text out len) label = text out len ++ 46 :: label := by
      refine if_neg ?_
      intro hnil
      rw [hnil] at htext
      exact hzero htext.symm
    rw [hdot] at hfits ⊢
    obtain ⟨out', hwrite, hout⟩ :=
      writeLabel_printable hprint (out.setIfInBounds len 46) hfits
    refine ⟨out', ?_, ?_⟩
    · rw [hout, text_set (by omega), happend, List.append_assoc]
      rfl
    · rw [if_pos rfl, hwrite]

/-- The labels in place are written one after the other, and then the loop is at the root or at
the pointer. -/
theorem decodeLoop_inPlace {pos next : Nat} {labels : List Bytes} {rest : Option Nat}
    (h : InPlace packet pos labels rest next) (hprint : ∀ label ∈ labels, Printable label)
    {len : Nat} (out : Buffer) (hlen : len ≤ 256)
    (hfits : (labels.foldl appendLabel (text out len)).length ≤ 256) :
    ∃ out', text out' (labels.foldl appendLabel (text out len)).length =
        labels.foldl appendLabel (text out len) ∧
      match rest with
      | none => ∀ jumpsLeft, decodeLoop packet jumpsLeft pos len out =
          (some (labels.foldl appendLabel (text out len)).length, out')
      | some target => ∀ jumpsLeft, decodeLoop packet (jumpsLeft + 1) pos len out =
          decodeLoop packet jumpsLeft target
            (labels.foldl appendLabel (text out len)).length out' := by
  induction h generalizing len out with
  | root h =>
    obtain ⟨hlt, hbyte⟩ := byteAt_of_getElem? h
    rw [List.foldl_nil, length_text out hlen]
    refine ⟨out, rfl, ?_⟩
    intro jumpsLeft
    rw [decodeLoop, if_neg (by omega)]
    simp only [hbyte, if_pos]
  | pointer hhigh hpointer hlow =>
    obtain ⟨hlt, hbyte⟩ := byteAt_of_getElem? hhigh
    obtain ⟨hlt', hbyte'⟩ := byteAt_of_getElem? hlow
    rw [List.foldl_nil, length_text out hlen]
    refine ⟨out, rfl, ?_⟩
    intro jumpsLeft
    rw [decodeLoop, if_neg (by omega)]
    simp only [hbyte, hbyte']
    rw [if_neg (by rw [eq_zero_iff]; omega), if_pos ((pointer_iff _).mpr hpointer),
      if_neg (by omega), pointerTarget_eq _ hpointer]
  | @label pos next n labels rest hn hpos hlt more ih =>
    have hend : pos + 1 + n.toNat ≤ packet.length := Nat.le_of_lt more.lt
    have hlabel : (slice packet (pos + 1) (pos + 1 + n.toNat)).length = n.toNat := by
      rw [length_slice hend]
      omega
    rw [List.foldl_cons] at hfits ⊢
    have hfirst : (appendLabel (text out len)
        (slice packet (pos + 1) (pos + 1 + n.toNat))).length ≤ 256 :=
      Nat.le_trans (length_le_foldl_appendLabel labels _) hfits
    have hlength := length_appendLabel out hlen (slice packet (pos + 1) (pos + 1 + n.toNat))
    obtain ⟨out₁, htext, hwrite⟩ :=
      writeLabel_append (hprint _ List.mem_cons_self) out hlen (by omega)
    rw [← hlength] at htext hwrite
    rw [← htext] at hfits ⊢
    obtain ⟨out', htext', hrest⟩ :=
      ih (fun l hl => hprint l (List.mem_cons_of_mem _ hl)) out₁ hfirst hfits
    refine ⟨out', htext', ?_⟩
    have hstep : ∀ jumpsLeft, decodeLoop packet jumpsLeft pos len out =
        decodeLoop packet jumpsLeft (pos + 1 + n.toNat) (appendLabel (text out len)
          (slice packet (pos + 1) (pos + 1 + n.toNat))).length out₁ := by
      intro jumpsLeft
      rw [decodeLoop_step hn hpos hlt hend, if_neg (by omega), hwrite]
    cases rest with
    | none =>
      intro jumpsLeft
      rw [hstep, hrest]
    | some target =>
      intro jumpsLeft
      rw [hstep, hrest]

/-- A name with at most so many pointers, whose text fits, is written whole. -/
theorem decodeLoop_nameAt {pos jumps : Nat} {labels : List Bytes}
    (h : NameAt packet pos jumps labels) (hprint : ∀ label ∈ labels, Printable label)
    {jumpsLeft len : Nat} (hjumps : jumps ≤ jumpsLeft) (out : Buffer) (hlen : len ≤ 256)
    (hfits : (labels.foldl appendLabel (text out len)).length ≤ 256) :
    ∃ out', text out' (labels.foldl appendLabel (text out len)).length =
        labels.foldl appendLabel (text out len) ∧
      decodeLoop packet jumpsLeft pos len out =
        (some (labels.foldl appendLabel (text out len)).length, out') := by
  induction h generalizing jumpsLeft len out with
  | whole h =>
    obtain ⟨out', htext, hloop⟩ := decodeLoop_inPlace h hprint out hlen hfits
    exact ⟨out', htext, hloop jumpsLeft⟩
  | @follow pos next target jumps labels more h rest ih =>
    rw [List.foldl_append] at hfits ⊢
    have hfirst := Nat.le_trans (length_le_foldl_appendLabel more _) hfits
    obtain ⟨out₁, htext, hloop⟩ :=
      decodeLoop_inPlace h (fun l hl => hprint l (List.mem_append_left _ hl)) out hlen hfirst
    rw [← htext] at hfits ⊢
    cases jumpsLeft with
    | zero => omega
    | succ jumpsLeft =>
      obtain ⟨out', htext', hloop'⟩ := ih (fun l hl => hprint l (List.mem_append_right _ hl))
        (Nat.le_of_succ_le_succ hjumps) out₁ hfirst hfits
      exact ⟨out', htext', by rw [hloop, hloop']⟩

theorem NameAt.cons {pos jumps : Nat} {n : UInt8} {labels : List Bytes}
    (hn : packet[pos]? = some n) (hpos : 0 < n.toNat) (hlt : n.toNat < 64)
    (h : NameAt packet (pos + 1 + n.toNat) jumps labels) :
    NameAt packet pos jumps (slice packet (pos + 1) (pos + 1 + n.toNat) :: labels) := by
  cases h with
  | whole h => exact .whole (.label hn hpos hlt h)
  | follow h rest => exact .follow (.label hn hpos hlt h) rest

/-- What the loop writes is the name at the position. -/
theorem nameAt_of_decodeLoop {jumpsLeft pos len n : Nat} {out out' : Buffer} (hlen : len ≤ 256)
    (h : decodeLoop packet jumpsLeft pos len out = (some n, out')) :
    ∃ jumps labels, NameAt packet pos jumps labels ∧ jumps ≤ jumpsLeft ∧
      (∀ label ∈ labels, Printable label) ∧ n ≤ 256 ∧
      text out' n = labels.foldl appendLabel (text out len) := by
  fun_induction decodeLoop packet jumpsLeft pos len out with
  | case1 => simp at h
  | case2 jumpsLeft pos len out hlt labelLen hzero =>
    obtain ⟨rfl, rfl⟩ : len = n ∧ out = out' := by simpa using h
    have hroot : packet[pos]? = some 0 := by
      rw [getElem?_of_lt (by omega)]
      exact congrArg some hzero
    exact ⟨0, [], .whole (.root hroot), Nat.zero_le _, by simp, hlen, rfl⟩
  | case3 => simp at h
  | case4 => simp at h
  | case5 pos len out hlt labelLen hzero hpointer hlow jumpsLeft ih =>
    obtain ⟨jumps, labels, hname, hjumps, hprint, hn, htext⟩ := ih hlen h
    have hhigh : 192 ≤ (byteAt packet pos).toNat := (pointer_iff _).mp hpointer
    rw [pointerTarget_eq _ hhigh] at hname
    have hplace : InPlace packet pos [] (some (((byteAt packet pos).toNat - 192) * 256 +
        (byteAt packet (pos + 1)).toNat)) (pos + 2) :=
      .pointer (getElem?_of_lt (by omega)) hhigh (getElem?_of_lt (by omega))
    exact ⟨jumps + 1, [] ++ labels, .follow hplace hname, by omega, hprint, hn, htext⟩
  | case6 => simp at h
  | case7 => simp at h
  | case8 => simp at h
  | case9 => simp at h
  | case10 jumpsLeft pos len out hlt labelLen hzero hpointer hlabel labelStart labelEnd hend dot
      hfits written len₁ out₁ hwrite ih =>
    rw [eq_zero_iff] at hzero
    rw [not_label_iff] at hlabel
    have hn : packet[pos]? = some labelLen := getElem?_of_lt (by omega)
    have hpos : 0 < labelLen.toNat := by omega
    have hlt64 : labelLen.toNat < 64 := by omega
    have hprint := printable_of_writeLabel hwrite
    have hlength : (slice packet labelStart labelEnd).length = labelLen.toNat := by
      rw [length_slice (by omega)]
      omega
    have hfits' : len + dotLen len + (slice packet labelStart labelEnd).length ≤ 256 := by
      rw [hlength]
      exact Nat.not_lt.mp hfits
    obtain ⟨out₂, htext₂, hwrite₂⟩ := writeLabel_append hprint out hlen hfits'
    obtain ⟨hlen₁, rfl⟩ := Prod.mk.inj (hwrite.symm.trans hwrite₂)
    rw [Option.some.injEq] at hlen₁
    obtain ⟨jumps, labels, hname, hjumps, hlabels, hle, htext⟩ := ih (by omega) h
    refine ⟨jumps, slice packet labelStart labelEnd :: labels, hname.cons hn hpos hlt64, hjumps, ?_,
      hle, ?_⟩
    · rintro label (_ | ⟨_, hmem⟩)
      · exact hprint
      · exact hlabels label hmem
    · rw [htext, hlen₁, htext₂, List.foldl_cons]

/-! ## Names as text -/

theorem InPlace.label_ne_nil {pos next : Nat} {labels : List Bytes} {rest : Option Nat}
    (h : InPlace packet pos labels rest next) : ∀ label ∈ labels, label ≠ [] := by
  induction h with
  | root => simp
  | pointer => simp
  | @label pos next n labels rest hn hpos hlt more ih =>
    rintro label (_ | ⟨_, hmem⟩)
    · rw [← List.length_pos_iff, length_slice (Nat.le_of_lt more.lt)]
      omega
    · exact ih label hmem

theorem NameAt.label_ne_nil {pos jumps : Nat} {labels : List Bytes}
    (h : NameAt packet pos jumps labels) : ∀ label ∈ labels, label ≠ [] := by
  induction h with
  | whole h => exact h.label_ne_nil
  | follow h rest ih =>
    intro label hmem
    rcases List.mem_append.mp hmem with hmem | hmem
    · exact h.label_ne_nil label hmem
    · exact ih label hmem

/-- From an empty buffer on, what is written is the labels with dots between them. -/
theorem foldl_appendLabel_nil {labels : List Bytes} (hne : ∀ label ∈ labels, label ≠ []) :
    labels.foldl appendLabel [] = dotted labels := by
  cases labels with
  | nil => rfl
  | cons label rest =>
    rw [List.foldl_cons]
    exact foldl_appendLabel rest (hne label List.mem_cons_self)

theorem dotted_ne_nil {labels : List Bytes} (h : labels ≠ []) (hne : ∀ label ∈ labels, label ≠ []) :
    dotted labels ≠ [] := by
  cases labels with
  | nil => exact absurd rfl h
  | cons label rest =>
    have hlabel := hne label List.mem_cons_self
    rw [← foldl_appendLabel rest hlabel, ← List.length_pos_iff]
    exact Nat.lt_of_lt_of_le (List.length_pos_iff.mpr hlabel)
      (length_le_foldl_appendLabel rest label)

theorem printable_dotted {labels : List Bytes} (h : ∀ label ∈ labels, Printable label) :
    Printable (dotted labels) := by
  induction labels with
  | nil => exact fun b hb => absurd hb List.not_mem_nil
  | cons label rest ih =>
    have hrest := ih fun l hl => h l (List.mem_cons_of_mem _ hl)
    cases rest with
    | nil => simpa [dotted] using h label List.mem_cons_self
    | cons next rest =>
      rw [dotted_cons_cons]
      intro b hb
      rcases List.mem_append.mp hb with hb | hb
      · exact h label List.mem_cons_self b hb
      · rcases List.mem_cons.mp hb with rfl | hb
        · decide
        · exact hrest b hb

/-- The bytes of what `decodeName` returned. -/
def decoded (result : Option Nat × Buffer) : Option Bytes := result.1.map (text result.2)

theorem decodes_of_decodeName {pos : Nat} {out : Buffer} {name : Bytes}
    (h : decoded (decodeName packet pos out) = some name) : Decodes packet pos name := by
  unfold decodeName at h
  split at h
  · next n out' hloop =>
    split at h
    · simp [decoded] at h
    · next hn =>
      obtain rfl := Option.some.inj h
      obtain ⟨jumps, labels, hname, hjumps, hprint, hle, htext⟩ :=
        nameAt_of_decodeLoop (Nat.zero_le _) hloop
      rw [text_zero, foldl_appendLabel_nil hname.label_ne_nil] at htext
      refine ⟨⟨jumps, labels, hname, hjumps, ?_, hprint, htext⟩, ?_⟩
      · rintro rfl
        have hlen := length_text out' hle
        rw [htext] at hlen
        exact hn hlen.symm
      · rw [length_text out' hle]
        exact hle
  · simp [decoded] at h

theorem decodeName_of_decodes {pos : Nat} {name : Bytes} (h : Decodes packet pos name)
    (out : Buffer) : decoded (decodeName packet pos out) = some name := by
  obtain ⟨⟨jumps, labels, hname, hjumps, hne, hprint, rfl⟩, hshort⟩ := h
  have hfold := foldl_appendLabel_nil hname.label_ne_nil
  obtain ⟨out', htext, hloop⟩ := decodeLoop_nameAt hname hprint hjumps out (Nat.zero_le _)
    (by rw [text_zero, hfold]; exact hshort)
  rw [text_zero, hfold] at htext hloop
  have hpos : (dotted labels).length ≠ 0 := fun hzero =>
    dotted_ne_nil hne hname.label_ne_nil (List.length_eq_zero_iff.mp hzero)
  rw [decodeName, hloop]
  simp only [if_neg hpos]
  exact congrArg some htext

/-- **`decodeName` decodes the name at the position**, whatever the buffer held before. -/
theorem decodeName_iff {pos : Nat} {out : Buffer} {name : Bytes} :
    decoded (decodeName packet pos out) = some name ↔ Decodes packet pos name :=
  ⟨decodes_of_decodeName, fun h => decodeName_of_decodes h out⟩

/-- The bytes do not depend on the buffer. -/
theorem decoded_decodeName_eq (pos : Nat) (out out' : Buffer) :
    decoded (decodeName packet pos out) = decoded (decodeName packet pos out') := by
  apply Option.ext
  intro name
  rw [decodeName_iff, decodeName_iff]

/-- What is decoded is not empty, and printable ASCII. -/
theorem Decodes.printable {pos : Nat} {name : Bytes} (h : Decodes packet pos name) :
    name ≠ [] ∧ Printable name := by
  obtain ⟨⟨jumps, labels, hname, -, hne, hprint, rfl⟩, -⟩ := h
  exact ⟨dotted_ne_nil hne hname.label_ne_nil, printable_dotted hprint⟩

end NetScanner.Names
