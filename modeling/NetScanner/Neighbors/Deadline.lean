import NetScanner.Neighbors.Walk

/-!
# The deadline of a request

`awaitReply` gives the parent `timeout_ms` to answer. How much of it is left is worked out once
for each line, in whole milliseconds, and `readLine` then waits that long for each chunk of the
line. So a line that comes a few bytes at a time is waited for again with every chunk, and the
wait goes past the deadline.

`honours_iff` says for which schedules the deadline is kept: a table has come by the deadline, or
the schedule is one on which the request gives up by then. What `Prompt` follows is the input up
to the deadline, with the time of the last chunk and of the last line. An answer that is no table
ends the request too, but it is not what the request gives up for.
-/

namespace NetScanner.Neighbors

open Infra

variable {decode : Bytes → Option Message}

/-- What has come in by the deadline. -/
def arrivedBy (deadline : Nat) (pending : Bytes) (chunks : List Chunk) : Bytes :=
  pending ++ (chunks.takeWhile fun chunk => chunk.time ≤ deadline).flatMap (·.bytes)

/-- When a request that begins now has waited for `timeout_ms`. -/
def deadlineOf (parent : Parent) (input : Input) : Nat :=
  input.now + parent.timeoutMs * nsPerMs

/-- Among the complete lines is a usable reply to request `id`. -/
def Usable (decode : Bytes → Option Message) (id : Nat) (got : Bytes) : Prop :=
  ∃ line ∈ (got.splitOn 10).dropLast, ∃ table, parseReply decode line id = .ok (.table table)

/-- A request keeps its deadline: a table is from a reply whose newline came by then, and when no
usable reply did, the request has given up by then. -/
structure Honours (decode : Bytes → Option Message) (parent : Parent) (input : Input) (id : Nat) :
    Prop where
  table : ∀ table, (awaitReply decode parent input id).1 = some table →
    ∃ rest, walk decode id ((arrivedBy (deadlineOf parent input) parent.pending
      input.chunks).splitOn 10) = some (some table, rest)
  givesUp : ¬Usable decode id (arrivedBy (deadlineOf parent input) parent.pending input.chunks) →
    (awaitReply decode parent input id).1 = none ∧
      (awaitReply decode parent input id).2.1.gaveUp = true ∧
      (awaitReply decode parent input id).2.2.now ≤ deadlineOf parent input

/-! ## Schedules that keep it -/

/-- The line that is not complete yet. -/
def unfinished (got : Bytes) : Bytes := (got.splitOn 10).getLastD []

/-- With what has come in so far the request gives up by the deadline: a line that is not an answer
to an earlier request ends it, and then it has given up only if it had before; else a line is too
long, or it waits. -/
def ByLines (decode : Bytes → Option Message) (id : Nat) (gaveUp : Bool) (got : Bytes)
    (waits : Prop) : Prop :=
  match walk decode id (got.splitOn 10) with
  | some (some _, _) => False
  | some (none, _) => gaveUp = true
  | none => maxReplyBytes < (unfinished got).length ∨ waits

/-- The last chunk completed the last line, a whole number of milliseconds after the request
began. -/
def Whole (started now line : Nat) : Prop := now = line ∧ nsPerMs ∣ line - started

/-- The input up to the deadline: `got` has come in, the last of it at `now` and its last line at
`line`. While the lines leave it open, the stream ends, or the time left is worked out again right
when the last chunk comes. -/
def Prompt (decode : Bytes → Option Message) (id : Nat) (gaveUp : Bool) (started deadline : Nat)
    (ended : Option (Nat × StreamEnd)) : Bytes → Nat → Nat → List Chunk → Prop
  | got, now, line, [] =>
    ByLines decode id gaveUp got ((∃ e ∈ ended, e.1 ≤ deadline) ∨ Whole started now line)
  | got, now, line, chunk :: rest =>
    ByLines decode id gaveUp got
      (if chunk.time ≤ deadline then
        Prompt decode id gaveUp started deadline ended (got ++ chunk.bytes) (max now chunk.time)
          (if 10 ∈ chunk.bytes then max now chunk.time else line) rest
      else Whole started now line)

section Schedule

variable {id started deadline : Nat} {gaveUp : Bool} {ended : Option (Nat × StreamEnd)}
  {got : Bytes} {now line : Nat} {chunks : List Chunk} {waits : Prop}

/-- A line that is not an answer to an earlier request settles it. -/
theorem byLines_walked {result : Option (List Neighbor)} {rest : List Bytes}
    (h : walk decode id (got.splitOn 10) = some (result, rest)) :
    ByLines decode id gaveUp got waits ↔ result = none ∧ gaveUp = true := by
  rw [ByLines, h]
  cases result with
  | none => simp
  | some table => simp

theorem unfinished_eq (h : 10 ∉ got) : unfinished got = got := by
  rw [unfinished, List.splitOn_eq_singleton h]
  rfl

/-- Before the first line is complete. -/
theorem byLines_unfinished (h : 10 ∉ got) :
    ByLines decode id gaveUp got waits ↔ maxReplyBytes < got.length ∨ waits := by
  rw [ByLines, walk_unfinished h, unfinished_eq h]

theorem prompt_walked {result : Option (List Neighbor)} {rest : List Bytes}
    (h : walk decode id (got.splitOn 10) = some (result, rest)) :
    Prompt decode id gaveUp started deadline ended got now line chunks ↔
      result = none ∧ gaveUp = true := by
  cases chunks with
  | nil => exact byLines_walked h
  | cons chunk chunks => exact byLines_walked h

/-- A line that is too long is not read on. -/
theorem Prompt.of_long (h : 10 ∉ got) (hlong : got.length > maxReplyBytes) :
    Prompt decode id gaveUp started deadline ended got now line chunks := by
  cases chunks with
  | nil => exact (byLines_unfinished h).mpr (Or.inl hlong)
  | cons chunk rest => exact (byLines_unfinished h).mpr (Or.inl hlong)

/-- A line of which more can come is waited for. -/
theorem byLines_waits (h : 10 ∉ got) (hshort : ¬got.length > maxReplyBytes) :
    ByLines decode id gaveUp got waits ↔ waits := by
  rw [byLines_unfinished h, or_iff_right hshort]

theorem arrivedBy_cons {chunk : Chunk} {rest : List Chunk} (h : chunk.time ≤ deadline) :
    arrivedBy deadline got (chunk :: rest) = arrivedBy deadline (got ++ chunk.bytes) rest := by
  rw [arrivedBy, arrivedBy, List.takeWhile_cons_of_pos (by simpa using h), List.flatMap_cons,
    List.append_assoc]

theorem arrivedBy_cons_late {chunk : Chunk} {rest : List Chunk} (h : ¬chunk.time ≤ deadline) :
    arrivedBy deadline got (chunk :: rest) = got := by
  rw [arrivedBy, List.takeWhile_cons_of_neg (by simpa using h), List.flatMap_nil, List.append_nil]

/-- What is left of a line is not changed by the lines before it. -/
theorem unfinished_line {text : Bytes} (htext : 10 ∉ text) (after : Bytes) :
    unfinished (text ++ 10 :: after) = unfinished after := by
  rw [unfinished, List.splitOn_append_cons_self_of_not_mem htext]
  exact getLastD_cons_of_ne_nil _ _ (List.splitOn_ne_nil 10 after)

theorem walk_earlier {text : Bytes} (htext : 10 ∉ text)
    (hearlier : parseReply decode text id = .ok .earlier) (after : Bytes) :
    walk decode id ((text ++ 10 :: after).splitOn 10) = walk decode id (after.splitOn 10) := by
  rw [List.splitOn_append_cons_self_of_not_mem htext, walk_cons (List.splitOn_ne_nil _ _),
    hearlier]

theorem byLines_earlier {text : Bytes} (htext : 10 ∉ text)
    (hearlier : parseReply decode text id = .ok .earlier) (after : Bytes) :
    ByLines decode id gaveUp (text ++ 10 :: after) waits =
      ByLines decode id gaveUp after waits := by
  rw [ByLines, ByLines, walk_earlier htext hearlier, unfinished_line htext]

/-- An answer to an earlier request is passed over. -/
theorem prompt_earlier {text after : Bytes} (htext : 10 ∉ text)
    (hearlier : parseReply decode text id = .ok .earlier) :
    Prompt decode id gaveUp started deadline ended (text ++ 10 :: after) now line chunks =
      Prompt decode id gaveUp started deadline ended after now line chunks := by
  induction chunks generalizing after now line with
  | nil => rw [Prompt, Prompt, byLines_earlier htext hearlier]
  | cons chunk rest ih =>
    rw [Prompt, Prompt, byLines_earlier htext hearlier, List.append_assoc, List.cons_append, ih]

end Schedule

/-! ## One line -/

/-- Where the wait for a chunk that came at `now` ends, in a line begun at `line`. -/
theorem window_le_iff {started timeoutMs now line : Nat} (hline : started ≤ line)
    (hnow : line ≤ now) (hdeadline : now ≤ started + timeoutMs * nsPerMs) :
    now + (timeoutMs - (line - started) / nsPerMs) * nsPerMs ≤ started + timeoutMs * nsPerMs ↔
      Whole started now line := by
  have hdiv := Nat.div_mul_le_self (line - started) nsPerMs
  rw [Nat.sub_mul, Whole, Nat.dvd_iff_div_mul_eq]
  omega

/-- Time does not run backwards while a line is read. -/
theorem le_now_readLineLoop (timeoutMs : Nat) (ended : Option (Nat × StreamEnd))
    (pending : Bytes) (searched now : Nat) (chunks : List Chunk) :
    now ≤ (readLineLoop timeoutMs ended pending searched now chunks).2.2.1 := by
  induction chunks generalizing pending searched now with
  | nil =>
    unfold readLineLoop
    split
    · exact Nat.le_refl _
    · split
      · exact Nat.le_refl _
      · simp only []
        split
        · split
          · exact Nat.le_max_left _ _
          · exact Nat.le_add_right _ _
        · exact Nat.le_add_right _ _
  | cons chunk rest ih =>
    unfold readLineLoop
    split
    · exact Nat.le_refl _
    · split
      · exact Nat.le_refl _
      · simp only []
        split
        · exact Nat.le_trans (Nat.le_max_left _ _) (ih _ _ _)
        · exact Nat.le_add_right _ _

/-- How reading a line ends, in a request that began at `started`. -/
inductive ReadBy (decode : Bytes → Option Message) (id : Nat) (gaveUp : Bool)
    (started deadline : Nat) (ended : Option (Nat × StreamEnd)) (got : Bytes) (now line : Nat)
    (chunks : List Chunk) :
    Except ReadError Bytes × Bytes × Nat × List Chunk → Prop
  /-- The line is complete by the deadline. -/
  | inTime (text after : Bytes) (now' : Nat) (chunks' : List Chunk) :
      10 ∉ text → now ≤ now' → now' ≤ deadline →
      got.length + (chunks.flatMap (·.bytes)).length =
        text.length + 1 + (after.length + (chunks'.flatMap (·.bytes)).length) →
      arrivedBy deadline got chunks = text ++ 10 :: arrivedBy deadline after chunks' →
      (Prompt decode id gaveUp started deadline ended got now line chunks ↔
        Prompt decode id gaveUp started deadline ended (text ++ 10 :: after) now' now' chunks') →
      ReadBy decode id gaveUp started deadline ended got now line chunks
        (.ok text, after, now', chunks')
  /-- The line is complete after the deadline. -/
  | late (text after : Bytes) (now' : Nat) (chunks' : List Chunk) :
      deadline < now' → 10 ∉ arrivedBy deadline got chunks →
      ¬Prompt decode id gaveUp started deadline ended got now line chunks →
      ReadBy decode id gaveUp started deadline ended got now line chunks
        (.ok text, after, now', chunks')
  | nothing (error : ReadError) (after : Bytes) (now' : Nat) (chunks' : List Chunk) :
      (now' ≤ deadline ↔ Prompt decode id gaveUp started deadline ended got now line chunks) →
      ReadBy decode id gaveUp started deadline ended got now line chunks
        (.error error, after, now', chunks')

section Read

variable {id started timeoutMs : Nat} {gaveUp : Bool} {ended : Option (Nat × StreamEnd)}

/-- The newline is among what is pending. -/
theorem readBy_found {pending : Bytes} {searched now line : Nat} {chunks : List Chunk} {i : Nat}
    (hsearched : 10 ∉ pending.take searched) (hidx : indexOfScalarPos pending searched 10 = some i)
    (hline : line = now) (hdeadline : now ≤ started + timeoutMs * nsPerMs) (leftMs : Nat) :
    ReadBy decode id gaveUp started (started + timeoutMs * nsPerMs) ended pending now line chunks
      (readLineLoop leftMs ended pending searched now chunks) := by
  have hspec := indexOfScalarPos_spec hsearched
  rw [hidx] at hspec
  obtain ⟨hpending, hnone⟩ := hspec
  rw [readLineLoop_found _ _ hidx]
  refine .inTime _ _ _ _ hnone (Nat.le_refl _) hdeadline ?_ ?_ ?_
  · have hlen := congrArg List.length hpending
    rw [List.length_append, List.length_cons] at hlen
    omega
  · unfold arrivedBy
    rw [← List.cons_append, ← List.append_assoc, ← hpending]
  · rw [← hpending, hline]

/-- What is pending settles it, or more has to come. -/
theorem readBy_pending {pending : Bytes} {searched now line : Nat} {chunks : List Chunk}
    (hsearched : 10 ∉ pending.take searched) (hnewline : 10 ∈ pending → line = now)
    (hdeadline : now ≤ started + timeoutMs * nsPerMs) (leftMs : Nat) :
    ReadBy decode id gaveUp started (started + timeoutMs * nsPerMs) ended pending now line chunks
        (readLineLoop leftMs ended pending searched now chunks) ∨
      indexOfScalarPos pending searched 10 = none ∧ 10 ∉ pending ∧
        ¬pending.length > maxReplyBytes := by
  have hspec := indexOfScalarPos_spec hsearched
  cases hidx : indexOfScalarPos pending searched 10 with
  | some i =>
    rw [hidx] at hspec
    left
    exact readBy_found hsearched hidx (hnewline (by rw [hspec.1]; simp)) hdeadline leftMs
  | none =>
    rw [hidx] at hspec
    by_cases hlong : pending.length > maxReplyBytes
    · left
      unfold readLineLoop
      simp only [hidx, if_pos hlong]
      exact .nothing _ _ _ _ (iff_of_true hdeadline (Prompt.of_long hspec hlong))
    · exact Or.inr ⟨rfl, hspec, hlong⟩

/-- A chunk that comes by the deadline goes to what is pending. -/
theorem ReadBy.chunk {deadline : Nat} {pending : Bytes} {now line : Nat} {chunk : Chunk}
    {rest : List Chunk} {result : Except ReadError Bytes × Bytes × Nat × List Chunk}
    (hpending : 10 ∉ pending) (hshort : ¬pending.length > maxReplyBytes)
    (htime : chunk.time ≤ deadline)
    (h : ReadBy decode id gaveUp started deadline ended (pending ++ chunk.bytes)
      (max now chunk.time) (if 10 ∈ chunk.bytes then max now chunk.time else line) rest result) :
    ReadBy decode id gaveUp started deadline ended pending now line (chunk :: rest) result := by
  have hprompt : Prompt decode id gaveUp started deadline ended pending now line (chunk :: rest) ↔
      Prompt decode id gaveUp started deadline ended (pending ++ chunk.bytes) (max now chunk.time)
        (if 10 ∈ chunk.bytes then max now chunk.time else line) rest := by
    rw [Prompt, byLines_waits hpending hshort, if_pos htime]
  cases h with
  | inTime text after now' chunks' htext hnow hby hlen harrived hnext =>
    refine .inTime text after now' chunks' htext (Nat.le_trans (Nat.le_max_left _ _) hnow) hby ?_ ?_
      (hprompt.trans hnext)
    · rw [List.flatMap_cons, List.length_append, ← hlen, List.length_append]
      omega
    · rw [arrivedBy_cons htime]
      exact harrived
  | late text after now' chunks' hlate hnone hnot =>
    refine .late text after now' chunks' hlate ?_ (fun h => hnot (hprompt.mp h))
    rw [arrivedBy_cons htime]
    exact hnone
  | nothing error after now' chunks' hiff =>
    exact .nothing error after now' chunks' (hiff.trans hprompt.symm)

/-- A line that was still waited for after the deadline. -/
theorem ReadBy.after {deadline : Nat} {pending : Bytes} {now line : Nat} {chunks : List Chunk}
    {result : Except ReadError Bytes × Bytes × Nat × List Chunk} (hlate : deadline < result.2.2.1)
    (hnone : 10 ∉ arrivedBy deadline pending chunks)
    (hnot : ¬Prompt decode id gaveUp started deadline ended pending now line chunks) :
    ReadBy decode id gaveUp started deadline ended pending now line chunks result := by
  obtain ⟨read, after, now', chunks'⟩ := result
  cases read with
  | ok text => exact .late text after now' chunks' hlate hnone hnot
  | error error =>
    exact .nothing error after now' chunks' (iff_of_false (Nat.not_le.mpr hlate) hnot)

/-- **Reading a line**, with the wait that was left when it began. -/
theorem readLineLoop_by {pending : Bytes} {searched now line : Nat} {chunks : List Chunk}
    (hsearched : 10 ∉ pending.take searched) (hnewline : 10 ∈ pending → line = now)
    (hstarted : started ≤ line) (hline : line ≤ now)
    (hdeadline : now ≤ started + timeoutMs * nsPerMs) :
    ReadBy decode id gaveUp started (started + timeoutMs * nsPerMs) ended pending now line chunks
      (readLineLoop (timeoutMs - (line - started) / nsPerMs) ended pending searched now
        chunks) := by
  induction chunks generalizing pending searched now with
  | nil =>
    rcases readBy_pending hsearched hnewline hdeadline
      (timeoutMs - (line - started) / nsPerMs) with h | ⟨hidx, hspec, hlong⟩
    · exact h
    have hwindow := window_le_iff hstarted hline hdeadline
    unfold readLineLoop
    simp only [hidx, if_neg hlong]
    split
    · next time how =>
      have hended : (∃ e ∈ some (time, how), e.1 ≤ started + timeoutMs * nsPerMs) ↔
          time ≤ started + timeoutMs * nsPerMs := by simp
      split
      · next hin =>
        refine .nothing _ _ _ _ ?_
        rw [Prompt, byLines_waits hspec hlong, hended, ← hwindow]
        omega
      · next hout =>
        refine .nothing _ _ _ _ ?_
        rw [Prompt, byLines_waits hspec hlong, hended, ← hwindow]
        omega
    · refine .nothing _ _ _ _ ?_
      rw [Prompt, byLines_waits hspec hlong, ← hwindow]
      simp
  | cons chunk rest ih =>
    rcases readBy_pending hsearched hnewline hdeadline
      (timeoutMs - (line - started) / nsPerMs) with h | ⟨hidx, hspec, hlong⟩
    · exact h
    by_cases htime : chunk.time ≤ started + timeoutMs * nsPerMs
    · -- by the deadline: the line goes on, or its newline is in the chunk
      have hreach : chunk.time ≤ now + (timeoutMs - (line - started) / nsPerMs) * nsPerMs := by
        have := deadline_le timeoutMs hstarted
        omega
      have htake : 10 ∉ (pending ++ chunk.bytes).take pending.length := by
        rw [List.take_left]
        exact hspec
      rw [readLineLoop_chunk _ _ hidx (Nat.not_lt.mp hlong) hreach]
      refine ReadBy.chunk hspec hlong htime ?_
      split
      · next hmem =>
        have hspec' := indexOfScalarPos_spec htake
        cases hidx' : indexOfScalarPos (pending ++ chunk.bytes) pending.length 10 with
        | none =>
          rw [hidx'] at hspec'
          exact absurd (List.mem_append_right _ hmem) hspec'
        | some i => exact readBy_found htake hidx' rfl (Nat.max_le.mpr ⟨hdeadline, htime⟩) _
      · next hmem =>
        refine ih htake ?_ (Nat.le_trans hline (Nat.le_max_left _ _))
          (Nat.max_le.mpr ⟨hdeadline, htime⟩)
        intro hin
        rcases List.mem_append.mp hin with hin | hin
        · exact absurd hin hspec
        · exact absurd hin hmem
    · have hprompt : Prompt decode id gaveUp started (started + timeoutMs * nsPerMs) ended pending
          now line (chunk :: rest) ↔ now + (timeoutMs - (line - started) / nsPerMs) * nsPerMs ≤
            started + timeoutMs * nsPerMs := by
        rw [Prompt, byLines_waits hspec hlong, if_neg htime,
          window_le_iff hstarted hline hdeadline]
      by_cases hreach : chunk.time ≤ now + (timeoutMs - (line - started) / nsPerMs) * nsPerMs
      · -- after the deadline, and still waited for
        rw [readLineLoop_chunk _ _ hidx (Nat.not_lt.mp hlong) hreach]
        refine ReadBy.after ?_ ?_ ?_
        · have hle := le_now_readLineLoop (timeoutMs - (line - started) / nsPerMs) ended
            (pending ++ chunk.bytes) pending.length (max now chunk.time) rest
          omega
        · rw [arrivedBy_cons_late htime]
          exact hspec
        · rw [hprompt]
          omega
      · rw [readLineLoop, hidx]
        simp only [if_neg hlong, if_neg hreach]
        exact .nothing _ _ _ _ hprompt.symm

end Read

/-! ## One request -/

theorem le_now_awaitLoop (decode : Bytes → Option Message) (id started turns : Nat)
    (parent : Parent) (input : Input) :
    input.now ≤ (awaitLoop decode id started turns parent input).2.2.now := by
  induction turns generalizing parent input with
  | zero => exact Nat.le_refl _
  | succ turns ih =>
    have hle := le_now_readLineLoop (parent.timeoutMs - (input.now - started) / nsPerMs)
      input.ended parent.pending 0 input.now input.chunks
    obtain ⟨⟨read, after, now', chunks'⟩, hread⟩ : ∃ result, readLineLoop
        (parent.timeoutMs - (input.now - started) / nsPerMs) input.ended parent.pending 0
        input.now input.chunks = result := ⟨_, rfl⟩
    rw [hread] at hle
    rw [awaitLoop_succ hread]
    cases read with
    | error error => exact hle
    | ok text =>
      simp only []
      split
      · exact hle
      · exact Nat.le_trans hle (ih { parent with pending := after }
          { input with now := now', chunks := chunks' })
      · exact hle
      · exact hle

/-- What a request makes of the input up to its deadline. -/
structure AwaitBy (decode : Bytes → Option Message) (id started deadline : Nat) (parent : Parent)
    (input : Input) (out : Option (List Neighbor) × Parent × Input) : Prop where
  reply : ∀ result rest,
    walk decode id ((arrivedBy deadline parent.pending input.chunks).splitOn 10) =
        some (result, rest) →
      ∀ table, out.1 = some table → result = some table
  gaveUp : (out.1 = none ∧ out.2.1.gaveUp = true ∧ out.2.2.now ≤ deadline) ↔
    Prompt decode id parent.gaveUp started deadline input.ended parent.pending input.now input.now
      input.chunks

/-- **One request**, a line at a time. -/
theorem awaitLoop_by {id started turns : Nat} (parent : Parent) (input : Input)
    (hturns : parent.pending.length + input.bytes.length < turns) (hstarted : started ≤ input.now)
    (hdeadline : input.now ≤ started + parent.timeoutMs * nsPerMs) :
    AwaitBy decode id started (started + parent.timeoutMs * nsPerMs) parent input
      (awaitLoop decode id started turns parent input) := by
  induction turns generalizing parent input with
  | zero => omega
  | succ turns ih =>
    have hby : ReadBy decode id parent.gaveUp started (started + parent.timeoutMs * nsPerMs)
        input.ended parent.pending input.now input.now input.chunks
        (readLineLoop (parent.timeoutMs - (input.now - started) / nsPerMs) input.ended
          parent.pending 0 input.now input.chunks) :=
      readLineLoop_by (by simp) (fun _ => rfl) hstarted (Nat.le_refl _) hdeadline
    obtain ⟨result, hread⟩ : ∃ result, readLineLoop
        (parent.timeoutMs - (input.now - started) / nsPerMs) input.ended parent.pending 0
        input.now input.chunks = result := ⟨_, rfl⟩
    rw [hread] at hby
    cases hby with
    | nothing error after now' chunks' hiff =>
      rw [awaitLoop_succ hread]
      refine ⟨by simp, ?_⟩
      simpa using hiff
    | late text after now' chunks' hlate hnone hnot =>
      refine ⟨?_, iff_of_false ?_ hnot⟩
      · intro result rest hwalk
        rw [walk_unfinished hnone] at hwalk
        cases hwalk
      · rintro ⟨-, -, hnow⟩
        have hle : now' ≤ (awaitLoop decode id started (turns + 1) parent input).2.2.now := by
          rw [awaitLoop_succ hread]
          simp only []
          split
          · exact Nat.le_refl _
          · exact le_now_awaitLoop decode id started turns { parent with pending := after }
              { input with now := now', chunks := chunks' }
          · exact Nat.le_refl _
          · exact Nat.le_refl _
        omega
    | inTime text after now' chunks' htext hnow hend hlen harrived hprompt =>
      rw [awaitLoop_succ hread]
      have hwalk := @walk_cons decode id text _
        (List.splitOn_ne_nil 10 (arrivedBy (started + parent.timeoutMs * nsPerMs) after chunks'))
      have hfirst := @walk_cons decode id text _ (List.splitOn_ne_nil 10 after)
      rw [← List.splitOn_append_cons_self_of_not_mem htext] at hwalk hfirst
      rw [← harrived] at hwalk
      simp only []
      cases hreply : parseReply decode text id with
      | error error =>
        rw [hreply] at hfirst
        refine ⟨by simp, ?_⟩
        rw [hprompt, prompt_walked hfirst]
        simp [hend]
      | ok reply =>
        rw [hreply] at hwalk hfirst
        cases reply with
        | table table =>
          refine ⟨?_, ?_⟩
          · intro result rest hsome table' htable
            rw [hsome] at hwalk
            cases hwalk
            exact htable
          · rw [hprompt, prompt_walked hfirst]
            simp
        | failed =>
          refine ⟨by simp, ?_⟩
          rw [hprompt, prompt_walked hfirst]
          simp [hend]
        | earlier =>
          -- the line is passed over, and the rest of the time is for the next one
          have hrest := ih { parent with pending := after }
            { input with now := now', chunks := chunks' }
            (by simp only [Input.bytes] at hturns ⊢; omega) (Nat.le_trans hstarted hnow) hend
          simp only [] at hwalk
          refine ⟨?_, ?_⟩
          · intro result rest hsome
            rw [hwalk] at hsome
            exact hrest.reply result rest hsome
          · rw [hprompt, prompt_earlier htext hreply]
            exact hrest.gaveUp

/-- Every complete line is passed over, when the walk finds no answer. -/
theorem earlier_of_walk_none {id : Nat} {pieces : List Bytes} (h : walk decode id pieces = none) :
    ∀ line ∈ pieces.dropLast, parseReply decode line id = .ok .earlier := by
  induction pieces with
  | nil => simp
  | cons line pieces ih =>
    cases pieces with
    | nil => simp
    | cons next rest =>
      rw [walk_cons (List.cons_ne_nil _ _)] at h
      rw [List.dropLast_cons_of_ne_nil (List.cons_ne_nil _ _), List.forall_mem_cons]
      split at h
      · next hearlier => exact ⟨hearlier, ih h⟩
      · cases h
      · cases h
      · cases h

/-- Some line ends the walk that has a usable reply ahead. -/
theorem Usable.walk_ne_none {id : Nat} {got : Bytes} (h : Usable decode id got) :
    walk decode id (got.splitOn 10) ≠ none := by
  obtain ⟨line, hmem, table, htable⟩ := h
  intro hnone
  have hearlier := earlier_of_walk_none hnone line hmem
  rw [htable] at hearlier
  simp at hearlier

/--
**A request keeps its deadline exactly when a usable reply has come by then, or on the prompt
schedules**: by the deadline no other answer has ended it, and a line is too long, or the stream
has ended, or the last chunk to come has completed a line a whole number of milliseconds after the
request began, or none has come.
-/
theorem honours_iff (decode : Bytes → Option Message) (parent : Parent) (input : Input)
    (id : Nat) :
    Honours decode parent input id ↔
      Usable decode id (arrivedBy (deadlineOf parent input) parent.pending input.chunks) ∨
        Prompt decode id parent.gaveUp input.now (deadlineOf parent input) input.ended
          parent.pending input.now input.now input.chunks := by
  have hby : AwaitBy decode id input.now (deadlineOf parent input) parent input
      (awaitReply decode parent input id) :=
    awaitLoop_by parent input (by omega) (Nat.le_refl _) (Nat.le_add_right _ _)
  constructor
  · intro h
    by_cases husable : Usable decode id
      (arrivedBy (deadlineOf parent input) parent.pending input.chunks)
    · exact Or.inl husable
    · exact Or.inr (hby.gaveUp.mp (h.givesUp husable))
  · rintro (husable | hprompt)
    · refine ⟨?_, fun hnot => absurd husable hnot⟩
      intro table htable
      obtain ⟨⟨result, rest⟩, hwalk⟩ := Option.ne_none_iff_exists'.mp husable.walk_ne_none
      refine ⟨rest, ?_⟩
      rw [hwalk, hby.reply result rest hwalk table htable]
    · have hgave := hby.gaveUp.mpr hprompt
      refine ⟨?_, fun _ => hgave⟩
      intro table htable
      rw [hgave.1] at htable
      cases htable

/-- The reply comes in two parts, after one second and after two and a half. -/
def drippingInput : Input where
  now := 0
  chunks :=
    [⟨1000000000, routerLine.take 30, by decide, by decide⟩,
      ⟨2500000000, routerLine.drop 30 ++ [10], by decide, by decide⟩]

/-- With a timeout of two seconds, the reply is waited for until its second part comes, and
taken. -/
theorem dripping_reply_is_taken :
    (awaitReply decodeSample {} drippingInput 2).1 =
        some [{ ip := (10, 0, 0, 2), mac := none, state := .stale }] ∧
      (awaitReply decodeSample {} drippingInput 2).2.2.now = 2500000000 ∧
      deadlineOf {} drippingInput = 2000000000 ∧
      ¬Honours decodeSample {} drippingInput 2 := by
  have htable : (awaitReply decodeSample {} drippingInput 2).1 =
      some [{ ip := (10, 0, 0, 2), mac := none, state := .stale }] := by decide +kernel
  refine ⟨htable, by decide +kernel, by decide, ?_⟩
  intro hhonours
  obtain ⟨rest, hwalk⟩ := hhonours.table _ htable
  have hnone : walk decodeSample 2 ((arrivedBy (deadlineOf {} drippingInput) []
      drippingInput.chunks).splitOn 10) = none := by decide +kernel
  rw [hnone] at hwalk
  cases hwalk

end NetScanner.Neighbors
