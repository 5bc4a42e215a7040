import NetScanner.Neighbors.Parent
import NetScanner.Infra.Numerals
import Mathlib.Algebra.Ring.Nat

/-!
# Walking the answers line by line

What the requests of a conversation find does not depend on how the answers were cut into
reads. `walk` is one request over the lines of the whole stream: it takes lines up to and
including the first that is not an answer to an earlier request. `requests_walks` says that the
requests of `Parent` give what the walks give, as long as the input comes in time.

The bytes pending and the bytes still to come are one stream, of which every line is taken off
once: `readLineLoop_line` is one line, `awaitLoop_walk` one request, and `requests_walks` the
conversation.

Input comes in time when each chunk that a request still waits for arrives before the
request's deadline (`InTime`, `Timely`).
-/

namespace NetScanner.Neighbors

open Infra Net

variable {decode : Bytes → Option Message}

/-- One request over the pieces of a stream, the last of which is not a complete line: the
result and the pieces left. None when there is no answer among the lines. -/
def walk (decode : Bytes → Option Message) (id : Nat) :
    List Bytes → Option (Option (List Neighbor) × List Bytes)
  | line :: next :: rest =>
    match parseReply decode line id with
    | .ok .earlier => walk decode id (next :: rest)
    | .ok (.table table) => some (some table, next :: rest)
    | .ok .failed => some (none, next :: rest)
    | .error _ => some (none, next :: rest)
  | _ => none

/-- What the walks of several requests leave. -/
structure Walked where
  tables : List (Option (List Neighbor))
  left : List Bytes
  gaveUp : Bool
deriving DecidableEq, Repr

/-- The requests from `id` on, one walk after the other. After one without an answer, only the
unfinished line is left, and none of the later ones looks at it. -/
def walks (decode : Bytes → Option Message) (id : Nat) : Nat → List Bytes → Walked
  | 0, pieces => { tables := [], left := pieces, gaveUp := false }
  | count + 1, pieces =>
    match walk decode id pieces with
    | none =>
      { tables := List.replicate (count + 1) none, left := [pieces.getLastD []], gaveUp := true }
    | some (table, rest) =>
      let later := walks decode (id + 1) count rest
      { later with tables := table :: later.tables }

/-- Every chunk that comes while request `id` has no answer arrives before the deadline; `got`
is what it has already. -/
def InTime (decode : Bytes → Option Message) (id deadline : Nat) : Bytes → List Chunk → Prop
  | _, [] => True
  | got, chunk :: rest =>
    (walk decode id (got.splitOn 10) = none → chunk.time ≤ deadline) ∧
      InTime decode id deadline (got ++ chunk.bytes) rest

instance decidableInTime (decode : Bytes → Option Message) (id deadline : Nat) :
    (got : Bytes) → (chunks : List Chunk) → Decidable (InTime decode id deadline got chunks)
  | _, [] => isTrue trivial
  | got, chunk :: rest =>
    have := decidableInTime decode id deadline (got ++ chunk.bytes) rest
    inferInstanceAs (Decidable ((_ → chunk.time ≤ deadline) ∧ InTime _ _ _ _ rest))

/-- Every request of the conversation gets its input in time. -/
def Timely (decode : Bytes → Option Message) (c : Conversation) : List Nat → Prop
  | [] => True
  | ns :: waits =>
    (c.parent.gaveUp = false →
      InTime decode c.parent.nextId (c.input.now + ns + c.parent.timeoutMs * nsPerMs)
        c.parent.pending c.input.chunks) ∧
    Timely decode (request decode (c.wait ns)).2 waits

instance decidableTimely (decode : Bytes → Option Message) :
    (c : Conversation) → (waits : List Nat) → Decidable (Timely decode c waits)
  | _, [] => isTrue trivial
  | c, ns :: waits =>
    have := decidableTimely decode (request decode (c.wait ns)).2 waits
    inferInstanceAs (Decidable ((_ → InTime _ _ _ _ _) ∧ Timely _ _ waits))

/-! ## One line -/

/-- Searching from `start` on finds the first newline, when there is none before `start`. -/
theorem indexOfScalarPos_spec {bytes : Bytes} {start : Nat} (h : 10 ∉ bytes.take start) :
    match indexOfScalarPos bytes start 10 with
    | none => 10 ∉ bytes
    | some i => bytes = bytes.take i ++ 10 :: bytes.drop (i + 1) ∧ 10 ∉ bytes.take i := by
  unfold indexOfScalarPos
  cases hidx : (bytes.drop start).idxOf? 10 with
  | none =>
    rw [List.idxOf?_eq_none_iff] at hidx
    intro hmem
    rw [← List.take_append_drop start bytes, List.mem_append] at hmem
    exact hmem.elim h hidx
  | some j =>
    obtain ⟨hj, hget, hfirst⟩ := List.idxOf?_eq_some_iff.mp hidx
    rw [List.length_drop] at hj
    rw [List.getElem_drop] at hget
    simp only [Option.map_some]
    constructor
    · have hdrop := List.drop_eq_getElem_cons (show start + j < bytes.length by omega)
      rw [hget] at hdrop
      rw [← hdrop, List.take_append_drop]
    · intro hmem
      rw [List.take_add, List.mem_append] at hmem
      rcases hmem with hmem | hmem
      · exact h hmem
      · obtain ⟨i, hi, hi'⟩ := List.getElem_of_mem hmem
        rw [List.length_take] at hi
        rw [List.getElem_take] at hi'
        have := hfirst i (by omega)
        simp [hi'] at this

theorem indexOfScalarPos_none {bytes : Bytes} (start : Nat) (h : 10 ∉ bytes) :
    indexOfScalarPos bytes start 10 = none := by
  rw [indexOfScalarPos, Option.map_eq_none_iff, List.idxOf?_eq_none_iff]
  exact fun hmem => h ((List.drop_sublist _ _).subset hmem)

/-- What comes before a newline that is not in it yet is part of the line. -/
theorem length_le_of_append {a b line after : Bytes} (h : a ++ b = line ++ 10 :: after)
    (ha : 10 ∉ a) : a.length ≤ line.length := by
  by_contra hlt
  apply ha
  have hget : (a ++ b)[line.length]? = some 10 := by
    rw [h, List.getElem?_append_right (Nat.le_refl _), Nat.sub_self]
    rfl
  rw [List.getElem?_append_left (by omega)] at hget
  exact List.mem_of_getElem? hget

theorem walk_unfinished {id : Nat} {got : Bytes} (h : 10 ∉ got) :
    walk decode id (got.splitOn 10) = none := by
  rw [List.splitOn_eq_singleton h]
  rfl

section Line

variable {id deadline timeoutMs : Nat} (ended : Option (Nat × StreamEnd)) (searched : Nat)

theorem readLineLoop_found {pending : Bytes} {now i : Nat} {chunks : List Chunk}
    (h : indexOfScalarPos pending searched 10 = some i) :
    readLineLoop timeoutMs ended pending searched now chunks =
      (.ok (pending.take i), pending.drop (i + 1), now, chunks) := by
  unfold readLineLoop
  rw [h]

/-- A chunk that comes in time is added to what is pending. -/
theorem readLineLoop_chunk {pending : Bytes} {now : Nat} {chunk : Chunk}
    {rest : List Chunk} (h : indexOfScalarPos pending searched 10 = none)
    (hlen : pending.length ≤ maxReplyBytes) (htime : chunk.time ≤ now + timeoutMs * nsPerMs) :
    readLineLoop timeoutMs ended pending searched now (chunk :: rest) =
      readLineLoop timeoutMs ended (pending ++ chunk.bytes) pending.length (max now chunk.time)
        rest := by
  rw [readLineLoop, h]
  simp only
  rw [if_neg (Nat.not_lt.mpr hlen), if_pos htime]

/-- **A line of the stream is read, whatever chunks it comes in**, and what follows it is
kept. -/
theorem readLineLoop_line {line after pending : Bytes} {now : Nat} {chunks : List Chunk}
    (hstream : pending ++ chunks.flatMap (·.bytes) = line ++ 10 :: after) (hline : 10 ∉ line)
    (hlen : line.length ≤ maxReplyBytes) (hsearched : 10 ∉ pending.take searched)
    (htime : InTime decode id deadline pending chunks)
    (hdeadline : deadline ≤ now + timeoutMs * nsPerMs) :
    ∃ pending' now' chunks',
      readLineLoop timeoutMs ended pending searched now chunks =
        (.ok line, pending', now', chunks') ∧
      pending' ++ chunks'.flatMap (·.bytes) = after ∧ now ≤ now' ∧
      InTime decode id deadline (line ++ 10 :: pending') chunks' := by
  -- one turn of the loop for each chunk, until the newline is among what is pending
  induction chunks generalizing pending searched now with
  | nil =>
    have hspec := indexOfScalarPos_spec hsearched
    rw [List.flatMap_nil, List.append_nil] at hstream
    cases hidx : indexOfScalarPos pending searched 10 with
    | none =>
      rw [hidx] at hspec
      exact absurd (by rw [hstream]; simp) hspec
    | some i =>
      rw [hidx] at hspec
      obtain ⟨hpending, hnone⟩ := hspec
      obtain ⟨h1, h2⟩ := append_cons_inj hnone hline (hpending.symm.trans hstream)
      refine ⟨pending.drop (i + 1), now, [], ?_, ?_, Nat.le_refl _, trivial⟩
      · rw [readLineLoop_found _ _ hidx, h1]
      · rw [List.flatMap_nil, List.append_nil, h2]
  | cons chunk rest ih =>
    have hspec := indexOfScalarPos_spec hsearched
    cases hidx : indexOfScalarPos pending searched 10 with
    | none =>
      rw [hidx] at hspec
      have hshort := length_le_of_append hstream hspec
      have hchunk := Nat.le_trans (htime.1 (walk_unfinished hspec)) hdeadline
      rw [readLineLoop_chunk _ _ hidx (Nat.le_trans hshort hlen) hchunk]
      rw [List.flatMap_cons, ← List.append_assoc] at hstream
      have htake : 10 ∉ (pending ++ chunk.bytes).take pending.length := by
        rw [List.take_left]
        exact hspec
      have hnow : now ≤ max now chunk.time := Nat.le_max_left _ _
      obtain ⟨pending', now', chunks', hread, hafter, hle, hin⟩ :=
        ih pending.length hstream htake htime.2
          (Nat.le_trans hdeadline (Nat.add_le_add_right hnow _))
      exact ⟨pending', now', chunks', hread, hafter, Nat.le_trans hnow hle, hin⟩
    | some i =>
      rw [hidx] at hspec
      obtain ⟨hpending, hnone⟩ := hspec
      have hstream' := hstream
      rw [hpending, List.append_assoc, List.cons_append] at hstream'
      obtain ⟨h1, h2⟩ := append_cons_inj hnone hline hstream'
      refine ⟨pending.drop (i + 1), now, chunk :: rest, ?_, h2, Nat.le_refl _, ?_⟩
      · rw [readLineLoop_found _ _ hidx, h1]
      · rw [← h1, ← hpending]
        exact htime

/-- Without a newline to come, everything is read and kept, and there is no line. -/
theorem readLineLoop_unfinished {pending : Bytes} {now : Nat} {chunks : List Chunk}
    (hstream : 10 ∉ pending ++ chunks.flatMap (·.bytes))
    (hlen : (pending ++ chunks.flatMap (·.bytes)).length ≤ maxReplyBytes)
    (htime : InTime decode id deadline pending chunks)
    (hdeadline : deadline ≤ now + timeoutMs * nsPerMs) :
    ∃ error now',
      readLineLoop timeoutMs ended pending searched now chunks =
        (.error error, pending ++ chunks.flatMap (·.bytes), now', []) := by
  induction chunks generalizing pending searched now with
  | nil =>
    rw [List.flatMap_nil, List.append_nil] at hstream hlen ⊢
    have hidx := indexOfScalarPos_none searched hstream
    unfold readLineLoop
    rw [hidx]
    simp only [if_neg (Nat.not_lt.mpr hlen)]
    split
    · split
      · exact ⟨_, _, rfl⟩
      · exact ⟨_, _, rfl⟩
    · exact ⟨_, _, rfl⟩
  | cons chunk rest ih =>
    have hpending : 10 ∉ pending := fun h => hstream (List.mem_append_left _ h)
    have hidx := indexOfScalarPos_none searched hpending
    have hshort : pending.length ≤ maxReplyBytes := by
      rw [List.length_append] at hlen
      omega
    have hchunk := Nat.le_trans (htime.1 (walk_unfinished hpending)) hdeadline
    have hnow : now ≤ max now chunk.time := Nat.le_max_left _ _
    rw [readLineLoop_chunk _ _ hidx hshort hchunk]
    rw [List.flatMap_cons, ← List.append_assoc] at hstream hlen ⊢
    exact ih _ hstream hlen htime.2 (Nat.le_trans hdeadline (Nat.add_le_add_right hnow _))

end Line

/-! ## One request -/

/-- The first of the pieces is a complete line when there is another. -/
theorem walk_cons {id : Nat} {line : Bytes} {pieces : List Bytes} (hne : pieces ≠ []) :
    walk decode id (line :: pieces) =
      match parseReply decode line id with
      | .ok .earlier => walk decode id pieces
      | .ok (.table table) => some (some table, pieces)
      | .ok .failed => some (none, pieces)
      | .error _ => some (none, pieces) := by
  cases pieces with
  | nil => exact absurd rfl hne
  | cons next rest => rw [walk]

theorem InTime.earlier {id deadline : Nat} {line got : Bytes} {chunks : List Chunk}
    (hearlier : parseReply decode line id = .ok .earlier) (hline : 10 ∉ line)
    (h : InTime decode id deadline (line ++ 10 :: got) chunks) :
    InTime decode id deadline got chunks := by
  induction chunks generalizing got with
  | nil => trivial
  | cons chunk rest ih =>
    obtain ⟨hchunk, hrest⟩ := h
    constructor
    · intro hwalk
      apply hchunk
      rw [List.splitOn_append_cons_self_of_not_mem hline, walk_cons (List.splitOn_ne_nil _ _),
        hearlier]
      exact hwalk
    · rw [List.append_assoc, List.cons_append] at hrest
      exact ih hrest

/-- The deadline of a request is not before the end of any of its waits. -/
theorem deadline_le {started now : Nat} (timeoutMs : Nat) (h : started ≤ now) :
    started + timeoutMs * nsPerMs ≤ now + (timeoutMs - (now - started) / nsPerMs) * nsPerMs := by
  have hdiv := Nat.div_mul_le_self (now - started) nsPerMs
  rw [Nat.sub_mul]
  omega

/-- The pieces of a stream: its first line, if it has a complete one. -/
theorem splitOn_cases (stream : Bytes) :
    (10 ∉ stream ∧ stream.splitOn 10 = [stream]) ∨
      ∃ line after, stream = line ++ 10 :: after ∧ 10 ∉ line ∧
        stream.splitOn 10 = line :: after.splitOn 10 := by
  by_cases hmem : 10 ∈ stream
  · right
    obtain ⟨line, after, rfl, hline⟩ := List.eq_append_cons_of_mem hmem
    exact ⟨line, after, rfl, hline, List.splitOn_append_cons_self_of_not_mem hline _⟩
  · left
    exact ⟨hmem, List.splitOn_eq_singleton hmem⟩

theorem getLastD_cons_of_ne_nil {pieces : List Bytes} (line default : Bytes) (h : pieces ≠ []) :
    (line :: pieces).getLastD default = pieces.getLastD default := by
  cases pieces with
  | nil => exact absurd rfl h
  | cons next rest => rw [List.getLastD_cons, List.getLastD_cons, List.getLastD_cons]

/-- One turn of the loop, after its line. -/
theorem awaitLoop_succ {id started turns : Nat} {parent : Parent} {input : Input}
    {read : Except ReadError Bytes} {after : Bytes} {now' : Nat} {chunks' : List Chunk} :
    readLineLoop (parent.timeoutMs - (input.now - started) / nsPerMs) input.ended
      parent.pending 0 input.now input.chunks = (read, after, now', chunks') →
    awaitLoop decode id started (turns + 1) parent input =
      match read with
      | .error _ => (none, { parent with pending := after, gaveUp := true },
          { input with now := now', chunks := chunks' })
      | .ok text =>
        match parseReply decode text id with
        | .ok (.table table) => (some table, { parent with pending := after },
            { input with now := now', chunks := chunks' })
        | .ok .earlier => awaitLoop decode id started turns { parent with pending := after }
            { input with now := now', chunks := chunks' }
        | .ok .failed | .error _ => (none, { parent with pending := after },
            { input with now := now', chunks := chunks' }) := by
  intro hread
  simp only [awaitLoop, readLine, hread]
  cases read with
  | error error => rfl
  | ok text =>
    simp only []
    cases hreply : parseReply decode text id with
    | error error => rfl
    | ok reply => cases reply <;> rfl

/-- **One request gives what the walk over the whole stream gives**, and leaves the rest of the
stream for the next. -/
theorem awaitLoop_walk {id started turns : Nat} (parent : Parent) (input : Input)
    (hturns : ((parent.pending ++ input.bytes).splitOn 10).length ≤ turns)
    (hshort : ∀ line ∈ (parent.pending ++ input.bytes).splitOn 10, line.length ≤ maxReplyBytes)
    (htime : InTime decode id (started + parent.timeoutMs * nsPerMs) parent.pending input.chunks)
    (hstarted : started ≤ input.now) :
    ∃ pending' input',
      match walk decode id ((parent.pending ++ input.bytes).splitOn 10) with
      | some (table, rest) =>
        awaitLoop decode id started turns parent input =
          (table, { parent with pending := pending' }, input') ∧
        (pending' ++ input'.bytes).splitOn 10 = rest
      | none =>
        awaitLoop decode id started turns parent input =
          (none, { parent with pending := pending', gaveUp := true }, input') ∧
        (pending' ++ input'.bytes).splitOn 10 =
          [((parent.pending ++ input.bytes).splitOn 10).getLastD []] := by
  induction turns generalizing parent input with
  | zero =>
    have hne := List.splitOn_ne_nil 10 (parent.pending ++ input.bytes)
    rw [← List.length_pos_iff] at hne
    omega
  | succ turns ih =>
    have hdeadline := deadline_le parent.timeoutMs hstarted
    rcases splitOn_cases (parent.pending ++ input.bytes) with
      ⟨hnone, hpieces⟩ | ⟨line, after, hstream, hline, hpieces⟩
    · -- the stream ends in the middle of a line
      rw [hpieces] at hshort ⊢
      obtain ⟨error, now', hread⟩ := readLineLoop_unfinished input.ended 0
        hnone (hshort _ List.mem_cons_self) htime hdeadline
      refine ⟨parent.pending ++ input.bytes, { input with now := now', chunks := [] }, ?_, ?_⟩
      · exact awaitLoop_succ hread
      · simpa [Input.bytes] using hpieces
    · rw [hpieces] at hshort hturns ⊢
      obtain ⟨pending', now', chunks', hread, hafter, hnow, hin⟩ :=
        readLineLoop_line input.ended 0 hstream hline
          (hshort _ List.mem_cons_self) (by simp) htime hdeadline
      have hleft :
          (pending' ++ ({ input with now := now', chunks := chunks' } : Input).bytes).splitOn 10 =
            after.splitOn 10 := by
        rw [← hafter]
        rfl
      rw [walk_cons (List.splitOn_ne_nil 10 after), awaitLoop_succ hread]
      simp only []
      cases hreply : parseReply decode line id with
      | error _ => exact ⟨pending', { input with now := now', chunks := chunks' }, rfl, hleft⟩
      | ok reply =>
        cases reply with
        | table table =>
          exact ⟨pending', { input with now := now', chunks := chunks' }, rfl, hleft⟩
        | failed =>
          exact ⟨pending', { input with now := now', chunks := chunks' }, rfl, hleft⟩
        | earlier =>
          -- the line is gone, and the request goes on with what follows it
          obtain ⟨pending'', input'', hrest⟩ :=
            ih { parent with pending := pending' } { input with now := now', chunks := chunks' }
              (by rw [hleft]; simpa using hturns)
              (by rw [hleft]; exact fun l hl => hshort l (List.mem_cons_of_mem _ hl))
              (hin.earlier hreply hline) (Nat.le_trans hstarted hnow)
          rw [hleft] at hrest
          refine ⟨pending'', input'', ?_⟩
          cases hwalk : walk decode id (after.splitOn 10) with
          | none =>
            rw [hwalk] at hrest
            refine ⟨hrest.1, hrest.2.trans ?_⟩
            rw [getLastD_cons_of_ne_nil _ _ (List.splitOn_ne_nil 10 after)]
          | some result =>
            rw [hwalk] at hrest
            exact hrest

theorem nextId_awaitLoop (decode : Bytes → Option Message) (id started turns : Nat)
    (parent : Parent) (input : Input) :
    (awaitLoop decode id started turns parent input).2.1.nextId = parent.nextId := by
  induction turns generalizing parent input with
  | zero => rfl
  | succ turns ih =>
    obtain ⟨⟨read, after, now', chunks'⟩, hread⟩ : ∃ result, readLineLoop
        (parent.timeoutMs - (input.now - started) / nsPerMs) input.ended parent.pending 0
        input.now input.chunks = result := ⟨_, rfl⟩
    rw [awaitLoop_succ hread]
    cases read with
    | error error => rfl
    | ok text =>
      simp only []
      split
      · rfl
      · exact ih { parent with pending := after } { input with now := now', chunks := chunks' }
      · rfl
      · rfl

/-! ## The conversation -/

/-- Each request has the next number. -/
theorem nextId_request {c : Conversation} (h : c.parent.gaveUp = false) :
    (request decode c).2.parent.nextId = c.parent.nextId + 1 := by
  unfold request
  rw [if_neg (by rw [h]; exact Bool.false_ne_true)]
  exact nextId_awaitLoop decode _ _ _ _ _

/-- What is pending and what is still to come. -/
def Conversation.stream (c : Conversation) : Bytes := c.parent.pending ++ c.input.bytes

@[simp] theorem Conversation.stream_wait (c : Conversation) (ns : Nat) :
    (c.wait ns).stream = c.stream := rfl

/-- There are no more pieces than bytes, and one. -/
theorem length_splitOn_le (stream : Bytes) : (stream.splitOn 10).length ≤ stream.length + 1 := by
  induction stream with
  | nil => simp
  | cons b rest ih =>
    rw [splitOn_cons]
    split
    · simpa using ih
    · rw [List.length_modifyHead, List.length_cons]
      omega

/-- A request of a parent that has not given up. -/
theorem request_walk {c : Conversation} (hgave : c.parent.gaveUp = false)
    (hshort : ∀ line ∈ c.stream.splitOn 10, line.length ≤ maxReplyBytes)
    (htime : InTime decode c.parent.nextId (c.input.now + c.parent.timeoutMs * nsPerMs)
      c.parent.pending c.input.chunks) :
    (request decode c).2.parent.nextId = c.parent.nextId + 1 ∧
      match walk decode c.parent.nextId (c.stream.splitOn 10) with
      | some (table, rest) =>
        (request decode c).1 = table ∧ (request decode c).2.parent.gaveUp = false ∧
          (request decode c).2.stream.splitOn 10 = rest
      | none =>
        (request decode c).1 = none ∧ (request decode c).2.parent.gaveUp = true ∧
          (request decode c).2.stream.splitOn 10 = [(c.stream.splitOn 10).getLastD []] := by
  have hturns : (c.stream.splitOn 10).length ≤
      c.parent.pending.length + c.input.bytes.length + 1 := by
    have := length_splitOn_le c.stream
    rwa [Conversation.stream, List.length_append] at this
  obtain ⟨pending', input', hwalk⟩ := awaitLoop_walk
    { c.parent with nextId := c.parent.nextId + 1 } c.input hturns hshort htime (Nat.le_refl _)
  unfold request awaitReply
  rw [hgave]
  simp only [Bool.false_eq_true, if_false]
  have hstream : c.parent.pending ++ c.input.bytes = c.stream := rfl
  simp only [hstream] at hwalk
  cases hresult : walk decode c.parent.nextId (c.stream.splitOn 10) with
  | none =>
    rw [hresult] at hwalk
    obtain ⟨hawait, hleft⟩ := hwalk
    rw [hawait]
    exact ⟨rfl, rfl, rfl, hleft⟩
  | some result =>
    rw [hresult] at hwalk
    obtain ⟨hawait, hleft⟩ := hwalk
    rw [hawait]
    exact ⟨rfl, rfl, hgave, hleft⟩

/-- Once the parent missed a deadline or closed stdin, a request finds nothing and reads
nothing. -/
theorem requests_gaveUp {c : Conversation} (h : c.parent.gaveUp = true) (waits : List Nat) :
    requests decode c waits = (List.replicate waits.length none, c.wait waits.sum) := by
  induction waits generalizing c with
  | nil => rfl
  | cons ns waits ih =>
    have hrequest : request decode (c.wait ns) = (none, c.wait ns) := if_pos h
    have hwait : (c.wait ns).wait waits.sum = c.wait (ns + waits.sum) := by
      simp only [Conversation.wait, Nat.add_assoc]
    have hlater := ih (c := c.wait ns) h
    simp only [requests, hrequest, hlater, hwait, List.length_cons, List.replicate_succ,
      List.sum_cons]

theorem requests_append (c : Conversation) (before after : List Nat) :
    requests decode c (before ++ after) =
      ((requests decode c before).1 ++ (requests decode (requests decode c before).2 after).1,
        (requests decode (requests decode c before).2 after).2) := by
  induction before generalizing c with
  | nil => rfl
  | cons ns before ih => simp only [List.cons_append, requests, ih]

theorem length_requests (c : Conversation) (waits : List Nat) :
    (requests decode c waits).1.length = waits.length := by
  induction waits generalizing c with
  | nil => rfl
  | cons ns waits ih => simp only [requests, List.length_cons, ih]

/-- A walk leaves the end of the pieces. -/
theorem walk_suffix {id : Nat} {pieces rest : List Bytes} {table : Option (List Neighbor)}
    (h : walk decode id pieces = some (table, rest)) : rest <:+ pieces := by
  induction pieces with
  | nil => simp [walk] at h
  | cons line pieces ih =>
    by_cases hne : pieces = []
    · rw [hne, walk] at h
      · simp at h
      · simp
    · have hstop : ∀ t, some (t, pieces) = some (table, rest) → rest <:+ line :: pieces := by
        intro t heq
        rw [← (Prod.mk.inj (Option.some.inj heq)).2]
        exact List.suffix_cons _ _
      rw [walk_cons hne] at h
      split at h
      · exact (ih h).trans (List.suffix_cons _ _)
      · exact hstop _ h
      · exact hstop _ h
      · exact hstop _ h

/-- A table comes from one of the lines. -/
theorem walk_table {id : Nat} {pieces rest : List Bytes} {table : List Neighbor}
    (h : walk decode id pieces = some (some table, rest)) :
    ∃ line ∈ pieces, parseReply decode line id = .ok (.table table) := by
  induction pieces with
  | nil => simp [walk] at h
  | cons line pieces ih =>
    by_cases hne : pieces = []
    · rw [hne, walk] at h
      · simp at h
      · simp
    · rw [walk_cons hne] at h
      split at h
      · obtain ⟨other, hmem, hparse⟩ := ih h
        exact ⟨other, List.mem_cons_of_mem _ hmem, hparse⟩
      · next hparse =>
        rw [Option.some.injEq, Prod.mk.injEq, Option.some.injEq] at h
        rw [h.1] at hparse
        exact ⟨line, List.mem_cons_self, hparse⟩
      · simp at h
      · simp at h

/-- **A table is read only from a line for the request.** -/
theorem parseReply_table {line : Bytes} {id : Nat} {table : List Neighbor}
    (h : parseReply decode line id = .ok (.table table)) :
    ∃ message entries, decode line = some message ∧ message.id = id ∧
      message.entries = some entries ∧ table = entries.filterMap readEntry := by
  unfold parseReply at h
  split at h
  · simp at h
  · next message hdecode =>
    by_cases htype : message.type ≠ ascii "neighbors"
    · simp [htype] at h
    · by_cases hearlier : message.id < id
      · simp [htype, hearlier] at h
      · by_cases hid : message.id ≠ id
        · simp [htype, hearlier, hid] at h
        · rw [if_neg htype, if_neg hearlier, if_neg hid] at h
          split at h
          · simp at h
          · split at h
            · simp at h
            · next entries hentries =>
              rw [Except.ok.injEq, Reply.table.injEq] at h
              exact ⟨message, entries, hdecode, not_not.mp hid, hentries, h.symm⟩

theorem walks_table {id count i : Nat} {pieces : List Bytes} {table : List Neighbor}
    (h : (walks decode id count pieces).tables[i]? = some (some table)) :
    ∃ line ∈ pieces, parseReply decode line (id + i) = .ok (.table table) := by
  induction count generalizing id i pieces with
  | zero => simp [walks] at h
  | succ count ih =>
    unfold walks at h
    cases hwalk : walk decode id pieces with
    | none =>
      rw [hwalk] at h
      simp only [List.getElem?_replicate] at h
      split at h
      · simp at h
      · simp at h
    | some result =>
      obtain ⟨first, rest⟩ := result
      rw [hwalk] at h
      cases i with
      | zero =>
        simp only [List.getElem?_cons_zero, Option.some.injEq] at h
        rw [h] at hwalk
        exact walk_table hwalk
      | succ i =>
        simp only [List.getElem?_cons_succ] at h
        obtain ⟨line, hmem, hparse⟩ := ih h
        rw [Nat.add_right_comm, Nat.add_assoc] at hparse
        exact ⟨line, (walk_suffix hwalk).subset hmem, hparse⟩

/-- The requests of a conversation give what the walks over the stream give. -/
theorem requests_walks {c : Conversation} {waits : List Nat} (hgave : c.parent.gaveUp = false)
    (hshort : ∀ line ∈ c.stream.splitOn 10, line.length ≤ maxReplyBytes)
    (htimely : Timely decode c waits) :
    (requests decode c waits).1 =
        (walks decode c.parent.nextId waits.length (c.stream.splitOn 10)).tables ∧
      (requests decode c waits).2.stream.splitOn 10 =
        (walks decode c.parent.nextId waits.length (c.stream.splitOn 10)).left ∧
      (requests decode c waits).2.parent.gaveUp =
        (walks decode c.parent.nextId waits.length (c.stream.splitOn 10)).gaveUp := by
  induction waits generalizing c with
  | nil => exact ⟨rfl, rfl, hgave⟩
  | cons ns waits ih =>
    obtain ⟨htime, hlater⟩ := htimely
    have hgave' : (c.wait ns).parent.gaveUp = false := hgave
    obtain ⟨hid, hstep⟩ := request_walk hgave' hshort (htime hgave)
    rw [Conversation.stream_wait] at hstep
    change (request decode (c.wait ns)).2.parent.nextId = c.parent.nextId + 1 at hid
    simp only [requests, List.length_cons, walks]
    cases hwalk : walk decode c.parent.nextId (c.stream.splitOn 10) with
    | none =>
      -- the parent is given up on, and the later requests do not ask
      rw [show (c.wait ns).parent.nextId = c.parent.nextId from rfl, hwalk] at hstep
      obtain ⟨hnone, hgaveUp, hleft⟩ := hstep
      rw [requests_gaveUp hgaveUp, hnone]
      exact ⟨rfl, hleft, hgaveUp⟩
    | some result =>
      obtain ⟨table, rest⟩ := result
      rw [show (c.wait ns).parent.nextId = c.parent.nextId from rfl, hwalk] at hstep
      obtain ⟨htable, hstill, hleft⟩ := hstep
      have hrest : ∀ line ∈ rest, line.length ≤ maxReplyBytes := fun line hmem =>
        hshort line ((walk_suffix hwalk).subset hmem)
      rw [← hleft] at hrest
      obtain ⟨htables, hleft', hgaveUp⟩ := ih hstill hrest hlater
      rw [hid, hleft] at htables hleft' hgaveUp
      exact ⟨by rw [htable, htables], hleft', hgaveUp⟩

/-- **The requests of a conversation find what walking the stream line by line finds**, however
it is cut into reads: the results are those of the walks; a table comes from a line for its own
request; what the walks leave is kept, byte for byte; and once the parent is given up on,
nothing is read any more. -/
theorem requests_walk_stream (timeoutMs : Nat) (input : Input) (waits : List Nat)
    (hshort : ∀ line ∈ input.bytes.splitOn 10, line.length ≤ maxReplyBytes)
    (htimely : Timely decode { parent := { timeoutMs }, input } waits) :
    let c : Conversation := { parent := { timeoutMs }, input }
    let walked := walks decode 1 waits.length (input.bytes.splitOn 10)
    (requests decode c waits).1 = walked.tables ∧
      (∀ i table, (requests decode c waits).1[i]? = some (some table) →
        ∃ line ∈ input.bytes.splitOn 10, ∃ message entries, decode line = some message ∧
          message.id = i + 1 ∧ message.entries = some entries ∧
          table = entries.filterMap readEntry) ∧
      (requests decode c waits).2.parent.pending ++ (requests decode c waits).2.input.bytes =
        [10].intercalate walked.left ∧
      (requests decode c waits).2.parent.gaveUp = walked.gaveUp ∧
      ∀ before after, waits = before ++ after →
        (requests decode c before).2.parent.gaveUp = true →
        (requests decode c waits).1.drop before.length = List.replicate after.length none ∧
          (requests decode c waits).2 = (requests decode c before).2.wait after.sum := by
  intro c walked
  obtain ⟨htables, hleft, hgaveUp⟩ := requests_walks (c := c) rfl hshort htimely
  refine ⟨htables, ?_, ?_, hgaveUp, ?_⟩
  · intro i table h
    rw [htables] at h
    obtain ⟨line, hmem, hparse⟩ := walks_table h
    obtain ⟨message, entries, hdecode, hid, hentries, htable⟩ := parseReply_table hparse
    exact ⟨line, hmem, message, entries, hdecode, by rw [hid, Nat.add_comm], hentries, htable⟩
  · have hstream : (requests decode c waits).2.stream.splitOn 10 = walked.left := hleft
    rw [← hstream, List.intercalate_splitOn]
    rfl
  · rintro before after rfl hgave
    rw [requests_append, requests_gaveUp hgave]
    constructor
    · rw [List.drop_left']
      exact length_requests c before
    · rfl

/-! ## A conversation -/

/-- The parent could not read the table. -/
def noAccessLine : Bytes :=
  ascii "\x7b\"type\":\"neighbors\",\"id\":1,\"error\":\"no access\"\x7d"

/-- It answers the first request once more, after all. -/
def lateLine : Bytes := ascii "\x7b\"type\":\"neighbors\",\"id\":1,\"entries\":[]\x7d"

def routerLine : Bytes :=
  ascii "\x7b\"type\":\"neighbors\",\"id\":2,\"entries\":[\x7b\"ip\":\"10.0.0.2\"\x7d]\x7d"

/-- These lines as JSON. -/
def decodeSample (line : Bytes) : Option Message :=
  if line = noAccessLine then
    some { type := ascii "neighbors", id := 1, error := some (ascii "no access") }
  else if line = lateLine then some { type := ascii "neighbors", id := 1, entries := some [] }
  else if line = routerLine then
    some { type := ascii "neighbors", id := 2, entries := some [{ ip := ascii "10.0.0.2" }] }
  else none

/-- The first read ends within the second line, the second read brings a newline alone, and the
third line is cut in two; then the parent closes the pipe. -/
def sampleInput : Input where
  now := 0
  chunks :=
    [⟨1000000, noAccessLine ++ 10 :: lateLine, by decide, by decide⟩,
      ⟨2000000, [10], by decide, by decide⟩,
      ⟨5000000, routerLine.take 20, by decide, by decide⟩,
      ⟨9000000, routerLine.drop 20 ++ [10], by decide, by decide⟩]
  ended := some (12000000, .closed)

theorem requests_walk_stream_sample :
    Timely decodeSample { input := sampleInput } [0, 0, 0] ∧
      (requests decodeSample { input := sampleInput } [0, 0, 0]).1 =
        [none, some [{ ip := (10, 0, 0, 2), mac := none, state := .stale }], none] ∧
      (requests decodeSample { input := sampleInput } [0, 0, 0]).2.parent.gaveUp = true := by
  have htimely : Timely decodeSample { input := sampleInput } [0, 0, 0] := by decide +kernel
  obtain ⟨htables, -, -, hgaveUp, -⟩ :=
    requests_walk_stream defaultTimeoutMs sampleInput [0, 0, 0] (by decide +kernel) htimely
  exact ⟨htimely, htables.trans (by decide +kernel), hgaveUp.trans (by decide +kernel)⟩

end NetScanner.Neighbors
