import NetScanner.Connects.Patience
import NetScanner.Infra.Search
import Mathlib.Data.List.Sort

/-!
# The connects of POSIX and of Windows

`src/core/connects.zig` (`start`, `waitSettled`, `finish`, `connectOnce`) on POSIX, and on Windows
over `src/c/tcp_probe.c`. The two differ in every call: `poll` answers by position and `select`
leaves the sockets that are ready, which are sorted and looked up; the verdicts of the C code pass
through an integer.

`backends_agree` says that the verdicts do not depend on it: what the system answered being the
same, both take the same steps and come to the same outcome.
-/

namespace NetScanner.Connects

open Infra

/-! ## What a system answers -/

/-- An address and a port, of either end of a connect. -/
abbrev Endpoint := Net.Ip × Nat

/-- What `getsockname` and `getpeername` say of a connect that succeeded. -/
structure Ends where
  «local» : Option Endpoint
  peer : Option Endpoint

/-- The verdict on a connect that succeeded, from both of its ends. -/
def connected (ends : Ends) : Verdict :=
  match ends.local, ends.peer with
  | some «local», some peer =>
    if «local».1 ≠ peer.1 then .open
    else if «local».2 = peer.2 then .refused
    else .unconfirmed
  | _, _ => .open

/-! ## POSIX -/

namespace Posix

inductive Errno where
  | inProgress
  | intr
  | noBufs
  | noMem
  | again
  | addrNotAvail
  | connRefused
  | connReset
  | other (code : Nat)
deriving DecidableEq, Repr

/-- What `start` meets: whether there is a socket, whether its flags can be read and written, and
what `connect` gives. -/
structure StartEnv where
  fd : Option Socket
  getFlags : Bool := true
  setFlags : Bool := true
  connect : Except Errno Ends

def classify : Option Errno → Verdict
  | none => .open
  | some .connRefused | some .connReset => .refused
  | some _ => .filtered

def start (env : StartEnv) : Started :=
  match env.fd with
  | none => .unprobed .socket
  | some fd =>
    if env.getFlags = false ∨ env.setFlags = false then .unprobed .socket
    else
      match env.connect with
      | .ok ends => .done (connected ends)
      | .error .inProgress | .error .intr => .pending fd
      | .error .noBufs | .error .noMem | .error .again => .unprobed .socket
      | .error .addrNotAvail => .unprobed .address
      | .error e => .done (classify (some e))

/-- What `poll` gives: its result, and the events of each position. -/
structure PollEnv where
  rc : Int
  revents : Nat → Nat

/-- Mark the sockets that have settled; the rest of the buffer is not looked at. -/
def waitSettled (env : PollEnv) (socks : List Socket) (settled : List Bool) : List Bool :=
  (List.range socks.length).map (fun i => decide (0 < env.rc) && decide (env.revents i ≠ 0)) ++
    settled.drop socks.length

/-- What `finish` meets: the pending error, none when it cannot be read, and the ends. -/
structure FinishEnv where
  soError : Option (Option Errno)
  ends : Ends

def finish (env : FinishEnv) (settled : Bool) : Verdict :=
  match env.soError with
  | none => .filtered
  | some none => if settled then connected env.ends else .filtered
  | some (some e) => classify (some e)

end Posix

/-! ## Windows -/

namespace Windows

inductive WsaError where
  | wouldBlock
  | noBufs
  | addrNotAvail
  | addrInUse
  | connRefused
  | connReset
  | other (code : Nat)
deriving DecidableEq, Repr

/-- `tcp_probe_result`. -/
inductive TcpProbeResult where
  | «open»
  | refused
  | filtered
  | pending
  | unconfirmed
  | noSocket
  | noAddress
deriving DecidableEq, Repr

/-- The integer that a result is in C. -/
def TcpProbeResult.raw : TcpProbeResult → Int
  | .open => 0
  | .refused => 1
  | .filtered => 2
  | .pending => 3
  | .unconfirmed => 4
  | .noSocket => 5
  | .noAddress => 6

/-- Read back from the integer; what it does not know counts as silence. -/
def toTcpProbe (raw : Int) : TcpProbeResult :=
  if raw = 0 then .open
  else if raw = 1 then .refused
  else if raw = 3 then .pending
  else if raw = 4 then .unconfirmed
  else if raw = 5 then .noSocket
  else if raw = 6 then .noAddress
  else .filtered

def classify : Option WsaError → TcpProbeResult
  | none => .open
  | some .connRefused | some .connReset => .refused
  | some _ => .filtered

def ofVerdict : Verdict → TcpProbeResult
  | .open => .open
  | .refused => .refused
  | .filtered => .filtered
  | .unconfirmed => .unconfirmed

/-- `connected` of the C code. -/
def connected (ends : Ends) : TcpProbeResult :=
  match ends.local, ends.peer with
  | some «local», some peer =>
    if «local».1 ≠ peer.1 then .open
    else if «local».2 = peer.2 then .refused else .unconfirmed
  | none, _ => .open
  | some _, none => .open

/-- What `tcp_probe_start` meets: whether there is a socket, whether it can be made non-blocking,
and what `connect` gives. -/
structure StartEnv where
  sock : Option Socket
  nonblocking : Bool := true
  connect : Except WsaError Ends

/-- The result, and the socket when it is pending. -/
def tcpProbeStart (env : StartEnv) : TcpProbeResult × Option Socket :=
  match env.sock with
  | none => (.noSocket, none)
  | some sock =>
    if env.nonblocking = false then (.noSocket, none)
    else
      match env.connect with
      | .ok ends => (connected ends, none)
      | .error .wouldBlock => (.pending, some sock)
      | .error .noBufs => (.noSocket, none)
      | .error .addrNotAvail | .error .addrInUse => (.noAddress, none)
      | .error e => (classify (some e), none)

/-- `start` on Windows; `undefinedSock` is what the socket was before the call. -/
def start (env : StartEnv) (undefinedSock : Socket) : Started :=
  let started := tcpProbeStart env
  match toTcpProbe started.1.raw with
  | .open => .done .open
  | .refused => .done .refused
  | .filtered => .done .filtered
  | .unconfirmed => .done .unconfirmed
  | .pending => .pending (started.2.getD undefinedSock)
  | .noSocket => .unprobed .socket
  | .noAddress => .unprobed .address

/-- `TCP_PROBE_MAX_SOCKETS` -/
def maxSockets : Nat := 4096

/-- What `tcp_probe_wait` meets: whether there is memory for the sets, what `select` gives and
leaves in them, and whether there is memory for the list. -/
structure SelectEnv where
  sets : Bool := true
  ready : Int
  writable : List Nat
  failed : List Nat
  list : Bool := true

/-- `qsort` with `compare_sockets`. -/
def sortSockets (socks : List Nat) : List Nat := socks.mergeSort (· ≤ ·)

/-- `bsearch` with `compare_sockets`. -/
def findSocket (sock : Nat) (sorted : List Nat) : Bool :=
  (binarySearch (fun i => compare sock (sorted.getD i 0)) sorted.length).isSome

/-- How many sockets settled, or -1 on failure, and the marks. -/
def tcpProbeWait (env : SelectEnv) (socks : List Nat) (settled : List Bool) : Int × List Bool :=
  let count := min socks.length maxSockets
  if count = 0 then (0, settled)
  else
    let zeroed := List.replicate count false ++ settled.drop count
    if env.sets = false then (-1, zeroed)
    else if env.ready ≤ 0 then (if env.ready < 0 then -1 else 0, zeroed)
    else if env.list = false then (-1, zeroed)
    else
      let readySocks := sortSockets (env.writable ++ env.failed)
      let marks := (socks.take count).map fun sock => findSocket sock readySocks
      (marks.count true, marks ++ settled.drop count)

/-- `waitSettled` on Windows: a failed wait marks nothing. -/
def waitSettled (env : SelectEnv) (socks : List Nat) (settled : List Bool) : List Bool :=
  let waited := tcpProbeWait env socks settled
  if 0 ≤ waited.1 then waited.2
  else List.replicate socks.length false ++ waited.2.drop socks.length

structure FinishEnv where
  soError : Option (Option WsaError)
  ends : Ends

def tcpProbeFinish (env : FinishEnv) (settled : Bool) : TcpProbeResult :=
  match env.soError with
  | none => .filtered
  | some none => if settled then connected env.ends else .filtered
  | some (some e) => classify (some e)

/-- `finish` on Windows. -/
def finish (env : FinishEnv) (settled : Bool) : Verdict :=
  match toTcpProbe (tcpProbeFinish env settled).raw with
  | .open => .open
  | .refused => .refused
  | .unconfirmed => .unconfirmed
  | .filtered | .pending | .noSocket | .noAddress => .filtered

end Windows

/-! ## The same answers -/

/-- Both systems refuse, or both reset, or both say something else. -/
inductive SameError : Posix.Errno → Windows.WsaError → Prop
  | refused : SameError .connRefused .connRefused
  | reset : SameError .connReset .connReset
  | silent {e : Posix.Errno} {e' : Windows.WsaError} : e ≠ .connRefused → e ≠ .connReset →
      e' ≠ .connRefused → e' ≠ .connReset → SameError e e'

/-- What `connect` gives is the same in the words of either system. -/
inductive SameConnect : Except Posix.Errno Ends → Except Windows.WsaError Ends → Prop
  | ok (ends : Ends) : SameConnect (.ok ends) (.ok ends)
  | pending {e : Posix.Errno} : e = .inProgress ∨ e = .intr →
      SameConnect (.error e) (.error .wouldBlock)
  /-- Windows says the same of buffers and of ports. -/
  | short {e : Posix.Errno} : e = .noBufs ∨ e = .noMem ∨ e = .again →
      SameConnect (.error e) (.error .noBufs)
  | address {e' : Windows.WsaError} : e' = .addrNotAvail ∨ e' = .addrInUse →
      SameConnect (.error .addrNotAvail) (.error e')
  | refused : SameConnect (.error .connRefused) (.error .connRefused)
  | reset : SameConnect (.error .connReset) (.error .connReset)
  | silent (code code' : Nat) : SameConnect (.error (.other code)) (.error (.other code'))

inductive SameStart : Posix.StartEnv → Windows.StartEnv → Prop
  | noSocket {p : Posix.StartEnv} {w : Windows.StartEnv} : p.fd = none → w.sock = none →
      SameStart p w
  | blocking {p : Posix.StartEnv} {w : Windows.StartEnv} :
      p.getFlags = false ∨ p.setFlags = false → w.nonblocking = false → SameStart p w
  | connect {p : Posix.StartEnv} {w : Windows.StartEnv} {sock : Socket} : p.fd = some sock →
      w.sock = some sock → p.getFlags = true → p.setFlags = true → w.nonblocking = true →
      SameConnect p.connect w.connect → SameStart p w

/-- The sockets that `poll` has events for are those that `select` left in a set. -/
inductive SameWait (socks : List Nat) : Posix.PollEnv → Windows.SelectEnv → Prop
  | nothing {p : Posix.PollEnv} {w : Windows.SelectEnv} : p.rc ≤ 0 →
      w.sets = false ∨ w.ready ≤ 0 ∨ w.list = false → SameWait socks p w
  | ready {p : Posix.PollEnv} {w : Windows.SelectEnv} : 0 < p.rc → w.sets = true → 0 < w.ready →
      w.list = true →
      (∀ i (hi : i < socks.length),
        p.revents i ≠ 0 ↔ socks[i] ∈ w.writable ∨ socks[i] ∈ w.failed) →
      SameWait socks p w

inductive SameFinish : Posix.FinishEnv → Windows.FinishEnv → Prop
  | unread (ends ends' : Ends) : SameFinish ⟨none, ends⟩ ⟨none, ends'⟩
  | connected (ends : Ends) : SameFinish ⟨some none, ends⟩ ⟨some none, ends⟩
  | failed {e : Posix.Errno} {e' : Windows.WsaError} (ends ends' : Ends) : SameError e e' →
      SameFinish ⟨some (some e), ends⟩ ⟨some (some e'), ends'⟩

/-! ## One call -/

theorem Windows.toTcpProbe_raw (r : Windows.TcpProbeResult) : Windows.toTcpProbe r.raw = r := by
  cases r <;> rfl

theorem Windows.connected_eq (ends : Ends) :
    Windows.connected ends = Windows.ofVerdict (Connects.connected ends) := by
  obtain ⟨«local», peer⟩ := ends
  cases «local» with
  | none => rfl
  | some «local» =>
    cases peer with
    | none => rfl
    | some peer =>
      simp only [Windows.connected, Connects.connected]
      split
      · rfl
      · split <;> rfl

theorem SameError.classify {e : Posix.Errno} {e' : Windows.WsaError} (h : SameError e e') :
    Windows.classify (some e') = Windows.ofVerdict (Posix.classify (some e)) := by
  cases h with
  | refused => rfl
  | reset => rfl
  | silent h1 h2 h3 h4 =>
    have hposix : Posix.classify (some e) = .filtered := by
      cases e <;> first | rfl | exact absurd rfl h1 | exact absurd rfl h2
    have hwindows : Windows.classify (some e') = .filtered := by
      cases e' <;> first | rfl | exact absurd rfl h3 | exact absurd rfl h4
    rw [hposix, hwindows]
    rfl

/-- **A connect starts alike.** -/
theorem start_agree {p : Posix.StartEnv} {w : Windows.StartEnv} (h : SameStart p w)
    (undefinedSock : Socket) : Windows.start w undefinedSock = Posix.start p := by
  have hnoSocket : Windows.tcpProbeStart w = (.noSocket, none) →
      Windows.start w undefinedSock = .unprobed .socket := by
    intro hstarted
    rw [Windows.start, hstarted]
    rfl
  cases h with
  | noSocket hfd hsock =>
    rw [hnoSocket (by rw [Windows.tcpProbeStart, hsock]), Posix.start, hfd]
  | blocking hflags hnon =>
    have hwindows : Windows.tcpProbeStart w = (.noSocket, none) := by
      rw [Windows.tcpProbeStart]
      cases w.sock with
      | none => rfl
      | some sock => exact if_pos hnon
    rw [hnoSocket hwindows, Posix.start]
    cases p.fd with
    | none => rfl
    | some fd => exact (if_pos hflags).symm
  | @connect sock hfd hsock hget hset hnon hconnect =>
    obtain ⟨fd, getFlags, setFlags, c⟩ := p
    obtain ⟨sock', nonblocking, c'⟩ := w
    simp only at hfd hsock hget hset hnon hconnect
    subst hfd hsock hget hset hnon
    cases hconnect with
    | ok ends =>
      have hwindows : Windows.start ⟨some sock, true, .ok ends⟩ undefinedSock =
          match Windows.toTcpProbe (Windows.connected ends).raw with
          | .open => .done .open
          | .refused => .done .refused
          | .filtered => .done .filtered
          | .unconfirmed => .done .unconfirmed
          | .pending => .pending undefinedSock
          | .noSocket => .unprobed .socket
          | .noAddress => .unprobed .address := rfl
      have hposix : Posix.start ⟨some sock, true, true, .ok ends⟩ = .done (connected ends) := rfl
      rw [hwindows, hposix, Windows.toTcpProbe_raw, Windows.connected_eq]
      cases connected ends <;> rfl
    | pending he => rcases he with rfl | rfl <;> rfl
    | short he => rcases he with rfl | rfl | rfl <;> rfl
    | address he => rcases he with rfl | rfl <;> rfl
    | refused | reset | silent => rfl

/-- The sorted list is searched for what is in it. -/
theorem Windows.findSocket_iff (sock : Nat) (socks : List Nat) :
    Windows.findSocket sock (Windows.sortSockets socks) = true ↔ sock ∈ socks := by
  have hperm : (Windows.sortSockets socks).Perm socks := List.mergeSort_perm _ _
  have hsorted : (Windows.sortSockets socks).Pairwise fun a b => id a ≤ id b := by
    have hsort : (Windows.sortSockets socks).Pairwise fun a b => decide (a ≤ b) = true :=
      List.pairwise_mergeSort (by intro a b c; simp; omega) (by intro a b; simp; omega) _
    exact hsort.imp (by simp)
  have hget : ∀ i (hi : i < (Windows.sortSockets socks).length),
      (Windows.sortSockets socks).getD i 0 = (Windows.sortSockets socks)[i] := by
    intro i hi
    rw [List.getD_eq_getElem?_getD, List.getElem?_eq_getElem hi]
    rfl
  have hcmp : ∀ i (hi : i < (Windows.sortSockets socks).length),
      compare sock ((Windows.sortSockets socks).getD i 0) =
        compare sock (id (Windows.sortSockets socks)[i]) := by
    intro i hi
    rw [hget i hi]
    rfl
  rw [← hperm.mem_iff, Windows.findSocket]
  constructor
  · intro hsome
    obtain ⟨i, hi⟩ := Option.isSome_iff_exists.mp hsome
    obtain ⟨hlt, heq⟩ := binarySearch_sound hi
    rw [hget i hlt, Nat.compare_eq_eq] at heq
    rw [heq]
    exact List.getElem_mem hlt
  · intro hmem
    obtain ⟨i, hi, rfl⟩ := List.getElem_of_mem hmem
    refine binarySearch_isSome (consistent_of_sorted hsorted hcmp) hi ?_
    rw [hget i hi, Nat.compare_eq_eq]

/-- A wait that comes to nothing marks nothing. -/
theorem Windows.waitSettled_nothing {w : Windows.SelectEnv}
    (h : w.sets = false ∨ w.ready ≤ 0 ∨ w.list = false) {socks : List Nat}
    (hcount : socks.length ≤ Windows.maxSockets) (hpos : socks.length ≠ 0) (settled : List Bool) :
    Windows.waitSettled w socks settled =
      List.replicate socks.length false ++ settled.drop socks.length := by
  have hzeroed : ∃ result, Windows.tcpProbeWait w socks settled =
      (result, List.replicate socks.length false ++ settled.drop socks.length) := by
    unfold Windows.tcpProbeWait
    simp only [Nat.min_eq_left hcount]
    rw [if_neg hpos]
    by_cases hsets : w.sets = false
    · exact ⟨-1, if_pos hsets⟩
    · rw [if_neg hsets]
      by_cases hready : w.ready ≤ 0
      · exact ⟨_, if_pos hready⟩
      · rw [if_neg hready]
        exact ⟨-1, if_pos ((h.resolve_left hsets).resolve_left hready)⟩
  obtain ⟨result, hwaited⟩ := hzeroed
  rw [Windows.waitSettled, hwaited]
  split
  · rfl
  · simp

theorem Windows.waitSettled_ready {w : Windows.SelectEnv} (hsets : w.sets = true)
    (hready : 0 < w.ready) (hlist : w.list = true) {socks : List Nat}
    (hcount : socks.length ≤ Windows.maxSockets) (hpos : socks.length ≠ 0) (settled : List Bool) :
    Windows.waitSettled w socks settled =
      socks.map (fun sock => Windows.findSocket sock
        (Windows.sortSockets (w.writable ++ w.failed))) ++ settled.drop socks.length := by
  have hwaited : ∃ n : Nat, Windows.tcpProbeWait w socks settled =
      ((n : Int), socks.map (fun sock => Windows.findSocket sock
        (Windows.sortSockets (w.writable ++ w.failed))) ++ settled.drop socks.length) := by
    unfold Windows.tcpProbeWait
    simp only [Nat.min_eq_left hcount, List.take_length]
    rw [if_neg hpos, if_neg (by simp [hsets]), if_neg (Int.not_le.mpr hready),
      if_neg (by simp [hlist])]
    exact ⟨_, rfl⟩
  obtain ⟨n, hwaited⟩ := hwaited
  rw [Windows.waitSettled, hwaited, if_pos (Int.natCast_nonneg n)]

/-- **The sorted search marks the sockets that are in a set**, as `poll` marks those with events. -/
theorem waitSettled_agree {socks : List Nat} {p : Posix.PollEnv} {w : Windows.SelectEnv}
    (h : SameWait socks p w) (hcount : socks.length ≤ Windows.maxSockets)
    (hpos : socks.length ≠ 0) (settled : List Bool) :
    Windows.waitSettled w socks settled = Posix.waitSettled p (socks.map Int.ofNat) settled := by
  rw [Posix.waitSettled, List.length_map]
  cases h with
  | nothing hrc hnone =>
    rw [Windows.waitSettled_nothing hnone hcount hpos]
    refine congrArg (· ++ _) (List.eq_replicate_iff.mpr ⟨by simp, fun b hb => ?_⟩).symm
    obtain ⟨i, _, rfl⟩ := List.mem_map.mp hb
    rw [decide_eq_false (Int.not_lt.mpr hrc), Bool.false_and]
  | ready hrc hsets hready hlist hsame =>
    rw [Windows.waitSettled_ready hsets hready hlist hcount hpos]
    refine congrArg (· ++ _) (List.ext_getElem (by simp) fun i hi _ => ?_)
    rw [List.length_map] at hi
    rw [List.getElem_map, List.getElem_map, List.getElem_range, decide_eq_true hrc,
      Bool.true_and, Bool.eq_iff_iff, Windows.findSocket_iff, decide_eq_true_iff, hsame i hi,
      List.mem_append]

/-- **A connect ends alike.** -/
theorem finish_agree {p : Posix.FinishEnv} {w : Windows.FinishEnv} (h : SameFinish p w)
    (settled : Bool) : Windows.finish w settled = Posix.finish p settled := by
  have hverdict : ∀ (v : Verdict) (w : Windows.FinishEnv),
      Windows.tcpProbeFinish w settled = Windows.ofVerdict v → Windows.finish w settled = v := by
    intro v w hw
    rw [Windows.finish, Windows.toTcpProbe_raw, hw]
    cases v <;> rfl
  cases h with
  | unread ends ends' => exact hverdict _ _ rfl
  | connected ends =>
    refine hverdict _ _ ?_
    cases settled with
    | true => exact Windows.connected_eq ends
    | false => rfl
  | failed ends ends' herror => exact hverdict _ _ herror.classify

/-! ## One connect, alone -/

/-- What `connectOnce` meets: when it tried to start the connect and what came of it, when it looked
at the clock and whether the wait behind that marked the socket, and what `finish` says. -/
structure OnceEnv where
  tries : List (Int × Started)
  turns : List (Int × Bool)
  verdict : Bool → Verdict

/-- What the tries came to. -/
inductive Tried where
  | settled (outcome : Outcome)
  | pending (started : Int)
deriving DecidableEq, Repr

/-- The loop around `start`; none when the tries given do not bring it to an end. -/
def startLoop (first : Int) : List (Int × Started) → Option Tried
  | [] => none
  | (_, .done v) :: _ => some (.settled v.alone)
  | (started, .pending _) :: _ => some (.pending started)
  | (started, .unprobed shortage) :: rest =>
    if shortage = .address ∨ stallLimitNs ≤ started - first then some (.settled .filtered)
    else startLoop first rest

/-- The loop around `waitSettled`: whether the socket settled. -/
def waitLoop (deadline : Int) : List (Int × Bool) → Option Bool
  | [] => none
  | (now, settled) :: rest =>
    if deadline ≤ now then some false
    else if settled then some true
    else waitLoop deadline rest

/-- `connectOnce`. -/
def connectOnceIn (timeoutMs : Nat) (env : OnceEnv) : Option Outcome :=
  match env.tries with
  | [] => none
  | (first, _) :: _ =>
    match startLoop first env.tries with
    | none => none
    | some (.settled outcome) => some outcome
    | some (.pending started) =>
      (waitLoop (started + timeoutMs * nsPerMs) env.turns).map fun settled =>
        (env.verdict settled).alone

/-- The pause after a try. -/
def retryPause : Nat → Int
  | 0 => firstPauseNs
  | k + 1 => min (2 * retryPause k) maxPauseNs

/-- **It is one of the connects that `run` confirms.** -/
theorem connectOnceIn_refines {timeoutMs : Nat} {env : OnceEnv} {outcome : Outcome}
    (h : connectOnceIn timeoutMs env = some outcome) : ∃ settled,
      connectOnce { attempts := env.tries, verdict := env.verdict settled } = some outcome := by
  obtain ⟨tries, turns, verdict⟩ := env
  unfold connectOnceIn at h
  cases tries with
  | nil => cases h
  | cons first rest =>
    obtain ⟨first, attempt⟩ := first
    simp only at h
    have hsettled : ∀ (tries : List (Int × Started)) (o : Outcome) (v : Verdict),
        startLoop first tries = some (.settled o) → connectTries first v tries = some o := by
      intro tries o v
      induction tries with
      | nil => exact fun h => by cases h
      | cons t tries ih =>
        obtain ⟨started, attempt⟩ := t
        cases attempt with
        | done v' => exact fun h => by cases h; rfl
        | pending sock => exact fun h => by cases h
        | unprobed shortage =>
          rw [startLoop, connectTries]
          split
          · exact fun h => by cases h; rfl
          · exact ih
    have hpending : ∀ (tries : List (Int × Started)) (started : Int) (v : Verdict),
        startLoop first tries = some (.pending started) →
          connectTries first v tries = some v.alone := by
      intro tries started v
      induction tries with
      | nil => exact fun h => by cases h
      | cons t tries ih =>
        obtain ⟨started', attempt⟩ := t
        cases attempt with
        | done v' => exact fun h => by cases h
        | pending sock => exact fun _ => rfl
        | unprobed shortage =>
          rw [startLoop, connectTries]
          split
          · exact fun h => by cases h
          · exact ih
    split at h
    · cases h
    · next o ho =>
      cases h
      exact ⟨false, hsettled _ _ _ ho⟩
    · next started hstarted =>
      obtain ⟨settled, -, hverdict⟩ := Option.map_eq_some_iff.mp h
      refine ⟨settled, ?_⟩
      rw [← hverdict]
      exact hpending _ started _ hstarted

/-! ### It is over in bounded time -/

theorem startLoop_none {first : Int} {tries : List (Int × Started)}
    (h : startLoop first tries = none) : ∀ t ∈ tries, t.1 - first < stallLimitNs := by
  induction tries with
  | nil => exact fun t ht => by cases ht
  | cons t tries ih =>
    obtain ⟨started, attempt⟩ := t
    cases attempt with
    | done v => cases h
    | pending sock => cases h
    | unprobed shortage =>
      rw [startLoop] at h
      split at h
      · cases h
      · next hgoes =>
        rw [not_or, Int.not_le] at hgoes
        exact List.forall_mem_cons.mpr ⟨hgoes.2, ih h⟩

theorem waitLoop_none {deadline : Int} {turns : List (Int × Bool)}
    (h : waitLoop deadline turns = none) : ∀ t ∈ turns, t.1 < deadline ∧ t.2 = false := by
  induction turns with
  | nil => exact fun t ht => by cases ht
  | cons t turns ih =>
    obtain ⟨now, settled⟩ := t
    rw [waitLoop] at h
    split at h
    · cases h
    · next hahead =>
      split at h
      · cases h
      · next hunsettled =>
        exact List.forall_mem_cons.mpr
          ⟨⟨Int.not_le.mp hahead, by simpa using hunsettled⟩, ih h⟩

/-- The tries, each at least its pause after the one before. -/
def Paced (tries : Nat → Int × Started) : Prop :=
  ∀ k, (tries k).1 + retryPause k ≤ (tries (k + 1)).1

theorem Paced.sum_le {tries : Nat → Int × Started} (h : Paced tries) (n : Nat) :
    ((List.range n).map retryPause).sum ≤ (tries n).1 - (tries 0).1 := by
  induction n with
  | zero => simp
  | succ n ih =>
    have hstep := h n
    rw [List.range_succ, List.map_append, List.sum_append, List.map_singleton, List.sum_singleton]
    omega

/-- Seven pauses that double, and then a tenth of a second each: fifty-six outlast the limit. -/
theorem pauses_outlast : stallLimitNs ≤ ((List.range 56).map retryPause).sum := by decide +kernel

/-- **After at most fifty-seven tries the connect is on its way or given up.** -/
theorem Paced.ends {tries : Nat → Int × Started} (h : Paced tries) :
    startLoop (tries 0).1 ((List.range 57).map tries) ≠ none := by
  intro hnone
  have hlast := startLoop_none hnone (tries 56) (List.mem_map.mpr ⟨56, by simp, rfl⟩)
  have hsum := h.sum_le 56
  have hlimit := pauses_outlast
  omega

/-- The turns of a wait up to a deadline: the clock does not go back, and but for interruptions a
wait that marks nothing lasts as long as was asked. -/
structure TurnsLast (started deadline : Int) (turns : Nat → Int × Bool) (interrupted : Finset Nat) :
    Prop where
  first : started ≤ (turns 0).1
  monotone : ∀ i, (turns i).1 ≤ (turns (i + 1)).1
  lasts : ∀ i ∉ interrupted, (turns i).2 = false →
    (turns i).1 + msUntil (turns i).1 deadline * nsPerMs ≤ (turns (i + 1)).1

/-- **A wait ends one turn after the interruptions do.** -/
theorem TurnsLast.ends {started : Int} {timeoutMs : Nat} {turns : Nat → Int × Bool}
    {interrupted : Finset Nat}
    (h : TurnsLast started (started + timeoutMs * nsPerMs) turns interrupted)
    (hfits : timeoutMs < 2 ^ 31 - 1) :
    waitLoop (started + timeoutMs * nsPerMs)
      ((List.range (interrupted.card + 2)).map turns) ≠ none := by
  intro hnone
  have hturn : ∀ i < interrupted.card + 2,
      (turns i).1 < started + timeoutMs * nsPerMs ∧ (turns i).2 = false := fun i hi =>
    waitLoop_none hnone _ (List.mem_map.mpr ⟨i, List.mem_range.mpr hi, rfl⟩)
  have hafter : ∀ i, started ≤ (turns i).1 := by
    intro i
    induction i with
    | zero => exact h.first
    | succ i ih => exact Int.le_trans ih (h.monotone i)
  have hall : Finset.range (interrupted.card + 1) ⊆ interrupted := by
    intro i hi
    rw [Finset.mem_range] at hi
    by_contra hquiet
    have hlasts := h.lasts i hquiet (hturn i (by omega)).2
    have hshort : msUntil (turns i).1 (started + timeoutMs * nsPerMs) < 2 ^ 31 - 1 := by
      have hstart := hafter i
      unfold msUntil nsPerMs
      split <;> omega
    have hreaches := msUntil_reaches hshort
    have hnext := (hturn (i + 1) (by omega)).1
    omega
  have hcard := Finset.card_le_card hall
  rw [Finset.card_range] at hcard
  omega

/-- Nothing is given up before the clock says so. -/
theorem waitLoop_false {deadline : Int} {turns : List (Int × Bool)}
    (h : waitLoop deadline turns = some false) : ∃ t ∈ turns, deadline ≤ t.1 := by
  induction turns with
  | nil => cases h
  | cons t turns ih =>
    obtain ⟨now, settled⟩ := t
    rw [waitLoop] at h
    split at h
    · next hover => exact ⟨_, List.mem_cons_self, hover⟩
    · split at h
      · cases h
      · obtain ⟨t, ht, hover⟩ := ih h
        exact ⟨t, List.mem_cons_of_mem _ ht, hover⟩

/-- The first tries and turns of a connect, as many as it can take. -/
def onceEnv (tries : Nat → Int × Started) (turns : Nat → Int × Bool) (interruptions : Nat)
    (verdict : Bool → Verdict) : OnceEnv where
  tries := (List.range 57).map tries
  turns := (List.range (interruptions + 2)).map turns
  verdict := verdict

/--
**A connect made alone comes to an end, and to an outcome of the run's.** Whatever the network does,
as long as no sleep is cut short but by an interruption: it is tried at most fifty-seven times and
waited for in at most two turns more than there are interruptions, it comes to what the engine's
`connectOnce` reports, and it is not given up before its deadline.
-/
theorem connectOnce_ends {timeoutMs : Nat} (hfits : timeoutMs < 2 ^ 31 - 1)
    {tries : Nat → Int × Started} (hpaced : Paced tries) {turns : Nat → Int × Bool}
    {interrupted : Finset Nat}
    (hwaited : ∀ started, startLoop (tries 0).1 ((List.range 57).map tries) =
      some (.pending started) →
        TurnsLast started (started + timeoutMs * nsPerMs) turns interrupted)
    (verdict : Bool → Verdict) :
    let env := onceEnv tries turns interrupted.card verdict
    ∃ outcome, connectOnceIn timeoutMs env = some outcome ∧
      (∃ settled, connectOnce { attempts := env.tries, verdict := verdict settled } =
        some outcome) ∧
      ∀ started, startLoop (tries 0).1 env.tries = some (.pending started) →
        waitLoop (started + timeoutMs * nsPerMs) env.turns = some false →
          ∃ t ∈ env.turns, started + timeoutMs * nsPerMs ≤ t.1 := by
  intro env
  have hreturns : ∃ outcome, connectOnceIn timeoutMs env = some outcome := by
    obtain ⟨tried, htried⟩ := Option.ne_none_iff_exists'.mp hpaced.ends
    have hhead : ∃ rest, env.tries = tries 0 :: rest := ⟨_, rfl⟩
    obtain ⟨rest, hrest⟩ := hhead
    have hstart : startLoop (tries 0).1 (tries 0 :: rest) = some tried := by
      rw [← hrest]
      exact htried
    unfold connectOnceIn
    rw [hrest]
    simp only [hstart]
    cases tried with
    | settled outcome => exact ⟨outcome, rfl⟩
    | pending started =>
      obtain ⟨settled, hsettled⟩ :=
        Option.ne_none_iff_exists'.mp ((hwaited started htried).ends hfits)
      have hturns : waitLoop (started + timeoutMs * nsPerMs) env.turns = some settled := hsettled
      refine ⟨(verdict settled).alone, ?_⟩
      show (waitLoop (started + timeoutMs * nsPerMs) env.turns).map _ = _
      rw [hturns]
      rfl
  obtain ⟨outcome, houtcome⟩ := hreturns
  exact ⟨outcome, houtcome, connectOnceIn_refines houtcome, fun _ _ hfalse =>
    waitLoop_false hfalse⟩

/-- A connect that is short of a socket twice, and then silent; one wait is interrupted. -/
theorem connectOnce_ends_silent :
    let tries (k : Nat) : Int × Started := (k * maxPauseNs, if k < 2 then .unprobed .socket
      else .pending 7)
    let turns (k : Nat) : Int × Bool := (2 * maxPauseNs + (if k < 2 then 0 else 300 * nsPerMs),
      false)
    ∃ outcome, connectOnceIn 300 (onceEnv tries turns 1 fun _ => .filtered) = some outcome := by
  intro tries turns
  have hpause : ∀ k, retryPause k ≤ maxPauseNs := by
    intro k
    cases k with
    | zero => decide
    | succ k => exact min_le_right _ _
  have hpaced : Paced tries := by
    intro k
    have hk := hpause k
    show (k : Int) * maxPauseNs + retryPause k ≤ ((k + 1 : Nat) : Int) * maxPauseNs
    push_cast
    rw [Int.add_mul, Int.one_mul]
    omega
  have hwaited : ∀ started, startLoop (tries 0).1 ((List.range 57).map tries) =
      some (.pending started) → TurnsLast started (started + (300 : Nat) * nsPerMs) turns {0} := by
    intro started hstarted
    have hsecond : startLoop (tries 0).1 ((List.range 57).map tries) =
        some (.pending (2 * maxPauseNs)) := by decide +kernel
    rw [hsecond] at hstarted
    cases hstarted
    refine ⟨by decide, fun i => ?_, fun i hi _ => ?_⟩
    · show (2 * maxPauseNs + if i < 2 then 0 else 300 * nsPerMs) ≤
        2 * maxPauseNs + if i + 1 < 2 then 0 else 300 * nsPerMs
      unfold nsPerMs
      split <;> split <;> omega
    · rw [Finset.mem_singleton] at hi
      rcases Nat.lt_trichotomy i 1 with hlt | rfl | hgt
      · omega
      · decide
      · show (2 * maxPauseNs + if i < 2 then 0 else 300 * nsPerMs) + msUntil
            (2 * maxPauseNs + if i < 2 then 0 else 300 * nsPerMs) _ * nsPerMs ≤
          2 * maxPauseNs + if i + 1 < 2 then 0 else 300 * nsPerMs
        rw [if_neg (by omega), if_neg (by omega)]
        decide
  obtain ⟨outcome, houtcome, -⟩ :=
    connectOnce_ends (by decide) hpaced hwaited fun _ => Verdict.filtered
  exact ⟨outcome, houtcome⟩

/-! ### On either system -/

namespace Posix

/-- What `connectOnce` meets on POSIX. -/
structure OnceEnv where
  tries : List (Int × StartEnv)
  turns : List (Int × PollEnv)
  finish : FinishEnv

def connectOnce (timeoutMs : Nat) (env : OnceEnv) : Option Outcome :=
  connectOnceIn timeoutMs
    { tries := env.tries.map fun t => (t.1, start t.2)
      turns := env.turns.map fun t => (t.1, (waitSettled t.2 [0] [false]).headD false)
      verdict := finish env.finish }

end Posix

namespace Windows

/-- What it meets on Windows, and its socket. -/
structure OnceEnv where
  sock : Nat
  tries : List (Int × StartEnv)
  turns : List (Int × SelectEnv)
  finish : FinishEnv

def connectOnce (timeoutMs : Nat) (env : OnceEnv) : Option Outcome :=
  connectOnceIn timeoutMs
    { tries := env.tries.map fun t => (t.1, start t.2 0)
      turns := env.turns.map fun t => (t.1, (waitSettled t.2 [env.sock] [false]).headD false)
      verdict := finish env.finish }

end Windows

/-- The clocks read the same, and every call is answered alike. -/
structure SameOnce (p : Posix.OnceEnv) (w : Windows.OnceEnv) : Prop where
  tries : List.Forall₂ (fun t t' => t.1 = t'.1 ∧ SameStart t.2 t'.2) p.tries w.tries
  turns : List.Forall₂ (fun t t' => t.1 = t'.1 ∧ SameWait [w.sock] t.2 t'.2) p.turns w.turns
  finish : SameFinish p.finish w.finish

theorem map_eq_of_forall₂ {α β γ : Type} {r : α → β → Prop} {f : α → γ} {g : β → γ}
    {as : List α} {bs : List β} (h : List.Forall₂ r as bs) (heq : ∀ a b, r a b → f a = g b) :
    as.map f = bs.map g := by
  induction h with
  | nil => rfl
  | cons hab _ ih => rw [List.map_cons, List.map_cons, heq _ _ hab, ih]

/--
**The systems agree.** Answered alike, either marks the same sockets of any number that it waits
for, a connect starts and ends alike, and one made alone takes the same tries and turns to the same
outcome.
-/
theorem backends_agree :
    (∀ p w undefinedSock, SameStart p w → Windows.start w undefinedSock = Posix.start p) ∧
    (∀ socks p w settled, socks ≠ [] → socks.length ≤ Windows.maxSockets → SameWait socks p w →
      Windows.waitSettled w socks settled = Posix.waitSettled p (socks.map Int.ofNat) settled) ∧
    (∀ p w settled, SameFinish p w → Windows.finish w settled = Posix.finish p settled) ∧
    ∀ timeoutMs p w, SameOnce p w →
      Windows.connectOnce timeoutMs w = Posix.connectOnce timeoutMs p := by
  refine ⟨fun p w sock h => start_agree h sock, fun socks p w settled hne hcount h =>
    waitSettled_agree h hcount (fun h0 => hne (List.length_eq_zero_iff.mp h0)) settled,
    fun p w settled h => finish_agree h settled, fun timeoutMs p w h => ?_⟩
  unfold Windows.connectOnce Posix.connectOnce
  have htries := map_eq_of_forall₂ (f := fun t => (t.1, Posix.start t.2))
    (g := fun t => (t.1, Windows.start t.2 0)) h.tries (by
      rintro t t' ⟨htime, hstart⟩
      rw [htime, start_agree hstart])
  have hturns := map_eq_of_forall₂
    (f := fun t => (t.1, (Posix.waitSettled t.2 [0] [false]).headD false))
    (g := fun t => (t.1, (Windows.waitSettled t.2 [w.sock] [false]).headD false)) h.turns (by
      rintro t t' ⟨htime, hwait⟩
      rw [htime, waitSettled_agree hwait (by simp [Windows.maxSockets]) (by simp)]
      rfl)
  rw [htries, hturns, show Windows.finish w.finish = Posix.finish p.finish from
    funext fun settled => finish_agree h.finish settled]

/-- A connect that finds no memory first and is then under way; of three sockets the last can be
written to and the first failed; a connect that was refused; and one made alone that meets all of
these. -/
theorem backends_agree_each_call :
    let short : Posix.StartEnv := { fd := some 312, connect := .error .noMem }
    let short' : Windows.StartEnv := { sock := some 312, connect := .error .noBufs }
    let underWay : Posix.StartEnv := { fd := some 312, connect := .error .intr }
    let underWay' : Windows.StartEnv := { sock := some 312, connect := .error .wouldBlock }
    let ready : Posix.PollEnv := { rc := 2, revents := fun i => if i = 1 then 0 else 4 }
    let ready' : Windows.SelectEnv := { ready := 2, writable := [920], failed := [312] }
    let quiet : Posix.PollEnv := { rc := 0, revents := fun _ => 0 }
    let quiet' : Windows.SelectEnv := { ready := 0, writable := [], failed := [] }
    let refused : Posix.FinishEnv := ⟨some (some .connRefused), ⟨none, none⟩⟩
    let refused' : Windows.FinishEnv := ⟨some (some .connRefused), ⟨none, none⟩⟩
    let once : Posix.OnceEnv :=
      { tries := [(0, short), (2000000, underWay)]
        turns := [(2000000, quiet), (9000000, ready)]
        finish := refused }
    let once' : Windows.OnceEnv :=
      { sock := 312
        tries := [(0, short'), (2000000, underWay')]
        turns := [(2000000, quiet'), (9000000, ready')]
        finish := refused' }
    (Windows.start underWay' 0 = Posix.start underWay ∧ Posix.start underWay = .pending 312) ∧
      (Windows.waitSettled ready' [312, 616, 920] [false, true, false] = [true, false, true] ∧
        Windows.waitSettled ready' [312, 616, 920] [false, true, false] =
          Posix.waitSettled ready [312, 616, 920] [false, true, false]) ∧
      (Windows.finish refused' true = Posix.finish refused true ∧
        Posix.finish refused true = .refused) ∧
      Windows.connectOnce 300 once' = Posix.connectOnce 300 once ∧
        Posix.connectOnce 300 once = some .refused := by
  intro short short' underWay underWay' ready ready' quiet quiet' refused refused' once once'
  obtain ⟨hstart, hwait, hfinish, honce⟩ := backends_agree
  have hunderWay : SameStart underWay underWay' :=
    .connect rfl rfl rfl rfl rfl (.pending (.inr rfl))
  have hshort : SameStart short short' := .connect rfl rfl rfl rfl rfl (.short (.inr (.inl rfl)))
  have hrefused : SameFinish refused refused' := .failed _ _ .refused
  have hready : SameWait [312, 616, 920] ready ready' := by
    refine .ready (by decide) rfl (by decide) rfl fun i hi => ?_
    have hcases : i = 0 ∨ i = 1 ∨ i = 2 := by
      simp only [List.length_cons, List.length_nil] at hi
      omega
    rcases hcases with rfl | rfl | rfl <;> simp [ready, ready']
  have hone : SameWait [312] ready ready' := by
    refine .ready (by decide) rfl (by decide) rfl fun i hi => ?_
    obtain rfl : i = 0 := Nat.lt_one_iff.mp hi
    simp [ready, ready']
  have hquiet : SameWait [312] quiet quiet' := .nothing (by decide) (.inr (.inl (by decide)))
  have hsame : SameOnce once once' :=
    ⟨.cons ⟨rfl, hshort⟩ (.cons ⟨rfl, hunderWay⟩ .nil),
      .cons ⟨rfl, hquiet⟩ (.cons ⟨rfl, hone⟩ .nil), hrefused⟩
  have hmarks := hwait [312, 616, 920] ready ready' [false, true, false] (by decide) (by decide)
    hready
  refine ⟨⟨hstart _ _ 0 hunderWay, rfl⟩, ⟨?_, hmarks⟩, ⟨hfinish _ _ true hrefused, rfl⟩,
    honce 300 _ _ hsame, by decide +kernel⟩
  rw [hmarks]
  decide

end NetScanner.Connects
