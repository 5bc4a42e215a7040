import NetScanner.Neighbors.Netlink

/-!
# The netlink dump

`src/c/neighbors.c`, `linux_dump`: the replies of the kernel, one `recv` after the other, until the
dump is over.

The kernel sends its table in as many datagrams as it likes, and signals interrupt the reading.
`linuxRead_carried` says that none of this shows in the table: it is that of the messages, in order,
up to the one that ends the dump. `linux_dump_ended` and `linux_dump_cut` are the same for the whole
of `dump_neighbors`, which hands a table on only if the kernel said that it was complete.

Allocations succeed here.
-/

namespace NetScanner.Neighbors

open Infra Net

/-- What `recv` answers: `EINTR`, an error (the timeout is one), or a datagram. -/
inductive Recv where
  | interrupted
  | failed
  | data (datagram : Bytes)

/-- `sizeof(buf)`. -/
def recvBufLen : Nat := 32768

/-- How far the reading came by the end of the answers. -/
inductive Dump where
  | waiting (list : List NeighborRow)
  | ended (result : Int) (list : List NeighborRow)
deriving DecidableEq

/-- The loop of `linux_dump`. -/
def linuxRead (list : List NeighborRow) : List Recv → Checked Dump
  | [] => some (.waiting list)
  | .interrupted :: recvs => linuxRead list recvs
  | .failed :: _ => some (.ended (-1) list)
  | .data datagram :: recvs =>
    -- what the buffer does not hold is lost
    let buf := datagram.take recvBufLen
    if buf.length = 0 then some (.ended (-1) list)
    else
      match linuxParse list buf with
      | none => none
      | some (result, list) =>
        if result = 0 then linuxRead list recvs
        else some (.ended (if result < 0 then -1 else 0) list)

/-- `linux_dump`: whether there is a socket, whether the request goes out, and what `recv`
answers. -/
def linuxDump (opened sent : Bool) (recvs : List Recv) : Checked Dump :=
  if opened = false then some (.ended (-1) [])
  else if sent = false then some (.ended (-1) [])
  else linuxRead [] recvs

/-- `dump_neighbors` and `dumpNeighbors` over it, once the reading has ended: the neighbors, or
nothing. -/
def Dump.neighbors : Dump → Option (Option (List Neighbor))
  | .waiting _ => none
  | .ended result list => some (if result ≠ 0 then none else some (dumpNeighbors list))

/-- `Carried recvs messages`: the datagrams hold whole messages, padded, and no more than fits the
buffer, in order. -/
inductive Carried : List Recv → List NlMessage → Prop
  | nil : Carried [] []
  | interrupted {recvs : List Recv} {messages : List NlMessage} : Carried recvs messages →
      Carried (.interrupted :: recvs) messages
  | data {part messages : List NlMessage} {datagram : Bytes} {recvs : List Recv} :
      Laid NlMessage.bytes part datagram → part ≠ [] → 4 ∣ datagram.length →
      datagram.length ≤ recvBufLen → Carried recvs messages →
      Carried (.data datagram :: recvs) (part ++ messages)

/-! ## One datagram -/

/-- A message that ends the dump ends it with what it says. -/
theorem parseCode_eq_zero_iff {messages : List NlMessage} :
    parseCode messages = 0 ↔ behindEnd messages = [] := by
  unfold parseCode
  cases behindEnd messages with
  | nil => simp
  | cons m rest =>
    dsimp only
    split <;> simp

theorem behindEnd_append_of_nil {part : List NlMessage} (h : behindEnd part = [])
    (messages : List NlMessage) : behindEnd (part ++ messages) = behindEnd messages ∧
      beforeEnd (part ++ messages) = part ++ beforeEnd messages := by
  have hall : ∀ m ∈ part, (decide ¬m.Ends) = true := List.dropWhile_eq_nil_iff.mp h
  constructor
  · rw [behindEnd, List.dropWhile_append_of_pos hall, ← behindEnd]
  · rw [beforeEnd, List.takeWhile_append_of_pos hall, ← beforeEnd]

theorem behindEnd_append_of_ne_nil {part : List NlMessage} (h : behindEnd part ≠ [])
    (messages : List NlMessage) : parseCode (part ++ messages) = parseCode part ∧
      beforeEnd (part ++ messages) = beforeEnd part := by
  obtain ⟨m, rest, hbehind⟩ := List.exists_cons_of_ne_nil h
  have hfirst : behindEnd (part ++ messages) = m :: (rest ++ messages) := by
    unfold behindEnd at hbehind ⊢
    rw [List.dropWhile_append, hbehind]
    rfl
  constructor
  · rw [parseCode, parseCode, hfirst, hbehind]
  · have hpart : beforeEnd part ++ behindEnd part = part := List.takeWhile_append_dropWhile
    have hends : (decide ¬m.Ends) = false := by
      have hhead := List.head_dropWhile_not (p := fun m : NlMessage => decide ¬m.Ends) h
      rw [behindEnd] at hbehind
      simpa only [hbehind, List.head_cons] using hhead
    have hbefore : ∀ m ∈ beforeEnd part, (decide ¬m.Ends) = true :=
      fun m hm => List.mem_takeWhile_imp (p := fun m : NlMessage => decide ¬m.Ends) hm
    conv_lhs => rw [← hpart, hbehind]
    rw [List.append_assoc, beforeEnd, List.takeWhile_append_of_pos hbefore, List.cons_append,
      List.takeWhile_cons_of_neg (by rw [hends]; simp), List.append_nil]

/-- A datagram of whole messages. -/
theorem linuxRead_data {part : List NlMessage} {datagram : Bytes}
    (h : Laid NlMessage.bytes part datagram) (hne : part ≠ []) (hpadded : 4 ∣ datagram.length)
    (hfits : datagram.length ≤ recvBufLen) (list : List NeighborRow) (recvs : List Recv) :
    linuxRead list (.data datagram :: recvs) =
      if parseCode part = 0 then linuxRead (list ++ part.flatMap NlMessage.rows) recvs
      else some (.ended (if parseCode part < 0 then -1 else 0)
        (list ++ (beforeEnd part).flatMap NlMessage.rows)) := by
  have hsome : (datagram.take recvBufLen).length ≠ 0 := by
    rw [List.take_of_length_le hfits]
    have hcount := h.length_le fun m => by
      rw [m.bytes_length]
      exact Nat.add_pos_left (by decide) _
    have hpos := List.length_pos_iff.mpr hne
    omega
  have hparse := (linuxParse_laid h (by rw [recvBufLen] at hfits; omega) list).1 (.inl hpadded)
  rw [linuxRead, if_neg hsome, List.take_of_length_le hfits, hparse]
  dsimp only
  by_cases hgoes : parseCode part = 0
  · have hall : beforeEnd part = part := by
      have hnone := parseCode_eq_zero_iff.mp hgoes
      have hsplit : beforeEnd part ++ behindEnd part = part := List.takeWhile_append_dropWhile
      rw [hnone, List.append_nil] at hsplit
      exact hsplit
    rw [if_pos hgoes, if_pos hgoes, hall]
  · rw [if_neg hgoes, if_neg hgoes]

/-! ## The dump -/

/--
**How the kernel splits its messages does not show.** While no message ends the dump, the reading
goes on behind the datagrams with the entries of all the messages; otherwise it has ended with
those of the messages before.
-/
theorem linuxRead_carried {recvs : List Recv} {messages : List NlMessage}
    (h : Carried recvs messages) (list : List NeighborRow) (later : List Recv) :
    linuxRead list (recvs ++ later) =
      if parseCode messages = 0 then linuxRead (list ++ messages.flatMap NlMessage.rows) later
      else some (.ended (if parseCode messages < 0 then -1 else 0)
        (list ++ (beforeEnd messages).flatMap NlMessage.rows)) := by
  induction h generalizing list with
  | nil =>
    rw [if_pos (show parseCode [] = 0 from rfl), List.flatMap_nil, List.append_nil]
    rfl
  | interrupted _ ih =>
    rw [List.cons_append, linuxRead]
    exact ih list
  | @data part messages datagram recvs hlaid hne hpadded hfits hrest ih =>
    rw [List.cons_append, linuxRead_data hlaid hne hpadded hfits]
    by_cases hgoes : parseCode part = 0
    · obtain ⟨hbehind, hbefore⟩ :=
        behindEnd_append_of_nil (parseCode_eq_zero_iff.mp hgoes) messages
      have hcode : parseCode (part ++ messages) = parseCode messages := by
        rw [parseCode, parseCode, hbehind]
      rw [if_pos hgoes, ih, hcode, hbefore, List.flatMap_append, List.flatMap_append,
        List.append_assoc, List.append_assoc]
    · obtain ⟨hcode, hbefore⟩ :=
        behindEnd_append_of_ne_nil (fun hnil => hgoes (parseCode_eq_zero_iff.mpr hnil)) messages
      rw [if_neg hgoes, hcode, hbefore, if_neg hgoes]

/--
**The table is the kernel's, however it comes.** When the datagrams and interruptions of the dump
carry `messages` up to one that ends it, `dump_neighbors` hands on the entries of the messages
before, if that one says that the dump is done, and nothing if it reports an error; whatever else
would follow is not read.
-/
theorem linux_dump_ended {recvs : List Recv} {messages behind : List NlMessage} {last : NlMessage}
    (h : Carried recvs (messages ++ last :: behind)) (hgo : ∀ m ∈ messages, ¬m.Ends)
    (hlast : last.Ends) (later : List Recv) :
    ((linuxDump true true (recvs ++ later)).bind Dump.neighbors) =
      some (if last.body.type = nlmsgDone
        then some (dumpNeighbors (messages.flatMap NlMessage.rows)) else none) := by
  have hmessages : ∀ m ∈ messages, (decide ¬m.Ends) = true := by simpa using hgo
  have hbehind : behindEnd (messages ++ last :: behind) = last :: behind := by
    rw [behindEnd, List.dropWhile_append_of_pos hmessages,
      List.dropWhile_cons_of_neg (by simpa using hlast)]
  have hbefore : beforeEnd (messages ++ last :: behind) = messages := by
    rw [beforeEnd, List.takeWhile_append_of_pos hmessages,
      List.takeWhile_cons_of_neg (by simpa using hlast), List.append_nil]
  have hcode : parseCode (messages ++ last :: behind) =
      if last.body.type = nlmsgDone then 1 else -1 := by
    rw [parseCode, hbehind]
  have hread := linuxRead_carried h [] later
  rw [hcode, hbefore, List.nil_append] at hread
  have hopen : linuxDump true true (recvs ++ later) = linuxRead [] (recvs ++ later) := rfl
  rw [hopen, hread]
  split
  · rfl
  · rfl

/-- **A table that was not read to its end is not handed on**: a dump that fails first yields
nothing, and one that nothing ends is still waited for. -/
theorem linux_dump_cut {recvs : List Recv} {messages : List NlMessage} (h : Carried recvs messages)
    (hgo : ∀ m ∈ messages, ¬m.Ends) (later : List Recv) :
    (linuxDump true true (recvs ++ .failed :: later)).bind Dump.neighbors = some none ∧
      (linuxDump true true recvs).bind Dump.neighbors = none := by
  have hcode : parseCode messages = 0 :=
    parseCode_eq_zero_iff.mpr (List.dropWhile_eq_nil_iff.mpr (by simpa using hgo))
  have hfailed := linuxRead_carried h [] (.failed :: later)
  have hnothing := linuxRead_carried h [] []
  rw [if_pos hcode] at hfailed hnothing
  rw [List.append_nil] at hnothing
  have hopen : ∀ recvs, linuxDump true true recvs = linuxRead [] recvs := fun _ => rfl
  constructor
  · rw [hopen, hfailed]
    rfl
  · rw [hopen, hnothing]
    rfl

end NetScanner.Neighbors
