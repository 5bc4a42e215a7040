import NetScanner.Infra.Options
import NetScanner.Json.Events
import NetScanner.Net.PortList
import NetScanner.Net.Quad

/-!
# The command line of a port scan

`src/core/main.zig`, `runPortScan` up to the scan: the address, the range in either order and the
options behind them. `port_command_exact` says which command lines start a scan, and of what, and
that every scan has one; each of the others ends in the message of the first thing wrong with it.
-/

namespace NetScanner.Cli

open Infra Infra.Json Net

/-! ## The command -/

/-- The scan that a command line asks for. -/
structure PortRequest where
  ip : Ip
  start : Nat
  «end» : Nat
  timeoutMs : Option Nat
  json : Bool
deriving DecidableEq, Repr

/-- What a command comes to before it scans. -/
inductive Command (Request : Type) where
  | scan (request : Request)
  /-- The usage text and status 1. -/
  | usage
  /-- `fail`, with its format and what it prints; the usage text may stand before it. -/
  | failed (withUsage : Bool) (fmt printed : Bytes)
deriving DecidableEq, Repr

/-- `fail` with a message without holes. -/
def fail {Request : Type} (msg : Bytes) : Command Request := .failed false msg msg

def optionJson : Bytes := ascii "--json"
def optionTimeout : Bytes := ascii "--timeout"

def unknownOption : Bytes := ascii "Unknown option"
def timeoutNeedsValue : Bytes := ascii "--timeout needs a value in milliseconds (1-60000)"
def invalidTimeout : Bytes := ascii "Invalid timeout"
def timeoutRange : Bytes := ascii "Timeout must be 1-60000 ms"

/-- The loop over the options, for the timeout or the message that it fails with. -/
def portOptions (timeoutMs : Option Nat) : List Bytes → Except Bytes (Option Nat)
  | [] => .ok timeoutMs
  | arg :: args =>
    if arg = optionJson then portOptions timeoutMs args
    else if arg ≠ optionTimeout then .error unknownOption
    else
      match args with
      | [] => .error timeoutNeedsValue
      | value :: args =>
        match parseInt10 65535 value with
        | .error _ => .error invalidTimeout
        | .ok parsed =>
          if parsed = 0 ∨ 60000 < parsed then .error timeoutRange
          else portOptions (some parsed) args

/-- The rest of `runPortScan`, up to the scan, when the range was read. -/
def scanRange (ip : Ip) (options : List Bytes) (json : Bool) :
    Option (List Nat) → Command PortRequest
  | none => fail (ascii "Invalid port range")
  | some [first, second] =>
    -- in either order
    let (start, «end») := if first > second then (second, first) else (first, second)
    match portOptions none options with
    | .error msg => fail msg
    | .ok timeoutMs => .scan { ip, start, «end», timeoutMs, json }
  | some _ => fail (ascii "Please provide two ports")

/-- `runPortScan`, up to the scan. -/
def runPortScan (args : List Bytes) (json : Bool) : Checked (Command PortRequest) :=
  match args with
  | _ :: _ :: ip :: range :: options =>
    match ipStringToBytes ip with
    | none => some (fail (ascii "Invalid IP address"))
    | some ip => (splitStringToIntArray range 45).map (scanRange ip options json)
  | _ => some (if json then fail (ascii "Usage: ns -p <ip> <port-range>") else .usage)

/-! ## Its options -/

inductive PortOption where
  | json
  | timeout (value : Bytes) (ms : Nat)

def PortOption.words : PortOption → List Bytes
  | .json => [optionJson]
  | .timeout value _ => [optionTimeout, value]

/-- The value is a number of milliseconds. -/
def PortOption.Valid : PortOption → Prop
  | .json => True
  | .timeout value ms => IntText 65535 value ms ∧ 1 ≤ ms ∧ ms ≤ 60000

/-- The last timeout counts. -/
def PortOption.apply (timeoutMs : Option Nat) : PortOption → Option Nat
  | .json => timeoutMs
  | .timeout _ ms => some ms

/-- Words that no option stands at the front of, and the message. -/
inductive BadPortOption : List Bytes → Bytes → Prop
  | unknown {arg : Bytes} {args : List Bytes} : arg ≠ optionJson → arg ≠ optionTimeout →
      BadPortOption (arg :: args) unknownOption
  | missing : BadPortOption [optionTimeout] timeoutNeedsValue
  | invalid {value : Bytes} {args : List Bytes} : (∀ ms, ¬IntText 65535 value ms) →
      BadPortOption (optionTimeout :: value :: args) invalidTimeout
  | range {value : Bytes} {args : List Bytes} {ms : Nat} : IntText 65535 value ms →
      ms = 0 ∨ 60000 < ms → BadPortOption (optionTimeout :: value :: args) timeoutRange

theorem optionJson_ne : optionJson ≠ optionTimeout := by decide

theorem portOption_complete {rest : List Bytes} (hrest : rest ≠ []) :
    (∃ (o : PortOption) (rest' : List Bytes), o.Valid ∧ rest = o.words ++ rest') ∨
      ∃ e, BadPortOption rest e := by
  obtain ⟨arg, args, rfl⟩ := List.exists_cons_of_ne_nil hrest
  by_cases hjson : arg = optionJson
  · subst hjson
    exact .inl ⟨.json, args, trivial, rfl⟩
  · by_cases htimeout : arg = optionTimeout
    · subst htimeout
      cases args with
      | nil => exact .inr ⟨_, .missing⟩
      | cons value args =>
        by_cases hvalue : ∃ ms, IntText 65535 value ms
        · obtain ⟨ms, hvalue⟩ := hvalue
          by_cases hrange : ms = 0 ∨ 60000 < ms
          · exact .inr ⟨_, .range hvalue hrange⟩
          · exact .inl ⟨.timeout value ms, args, ⟨hvalue, by omega, by omega⟩, rfl⟩
        · exact .inr ⟨_, .invalid (not_exists.mp hvalue)⟩
    · exact .inr ⟨_, .unknown hjson htimeout⟩

/-- The options of a port scan. -/
def portGrammar : Grammar Bytes PortOption Bytes where
  words := PortOption.words
  Valid := PortOption.Valid
  Bad := BadPortOption
  words_ne_nil o := by cases o <;> exact List.cons_ne_nil _ _
  complete _ hrest := portOption_complete hrest

theorem portOptions_json (timeoutMs : Option Nat) (args : List Bytes) :
    portOptions timeoutMs (optionJson :: args) = portOptions timeoutMs args := by
  rw [portOptions.eq_def]
  exact if_pos rfl

theorem portOptions_timeout (timeoutMs : Option Nat) (value : Bytes) (args : List Bytes) :
    portOptions timeoutMs (optionTimeout :: value :: args) =
      match parseInt10 65535 value with
      | .error _ => .error invalidTimeout
      | .ok parsed =>
        if parsed = 0 ∨ 60000 < parsed then .error timeoutRange
        else portOptions (some parsed) args := by
  rw [portOptions.eq_def]
  simp only [if_neg optionJson_ne.symm, ne_eq, not_true_eq_false, if_false]

/-- **The loop reads one option after the other.** -/
theorem portOptions_reads : portGrammar.Reads PortOption.apply portOptions where
  nil _ := rfl
  option timeoutMs o rest ho := by
    cases o with
    | json => exact portOptions_json timeoutMs rest
    | timeout value ms =>
      obtain ⟨hvalue, hpos, hle⟩ := ho
      show portOptions timeoutMs (optionTimeout :: value :: rest) = _
      rw [portOptions_timeout, (parseInt10_iff _ _ _).mpr hvalue]
      exact if_neg (by omega)
  bad timeoutMs rest e he := by
    cases he with
    | unknown hjson htimeout =>
      rw [portOptions.eq_def]
      simp only [if_neg hjson, if_pos htimeout]
    | missing => rfl
    | @invalid value args hvalue =>
      rw [portOptions_timeout]
      cases hparse : parseInt10 65535 value with
      | error _ => rfl
      | ok ms => exact absurd ((parseInt10_iff _ _ _).mp hparse) (hvalue ms)
    | range hvalue hrange =>
      rw [portOptions_timeout, (parseInt10_iff _ _ _).mpr hvalue]
      exact if_pos hrange

/-! ## What is accepted -/

/-- The last timeout among the options. -/
def lastTimeout (options : List PortOption) : Option Nat :=
  (options.filterMap fun
    | .json => none
    | .timeout _ ms => some ms).getLast?

theorem foldl_apply (options : List PortOption) :
    options.foldl PortOption.apply none = lastTimeout options := by
  induction options using List.reverseRecOn with
  | nil => rfl
  | append_singleton options o ih =>
    rw [List.foldl_concat, ih, lastTimeout, lastTimeout, List.filterMap_append]
    cases o with
    | json => exact (congrArg List.getLast? (List.append_nil _)).symm
    | timeout value ms => exact List.getLast?_concat.symm

/-- The command line asks for the scan: the program and the command, an address, two ports and
options. -/
inductive PortCommand (json : Bool) : List Bytes → PortRequest → Prop
  | scan {program command quad range : Bytes} {ip : Ip} {first second : Nat}
      {options : List PortOption} : DottedQuad quad ip → PortTexts 45 range [first, second] →
      (∀ o ∈ options, o.Valid) →
      PortCommand json (program :: command :: quad :: range :: portGrammar.spell options)
        { ip
          start := min first second
          «end» := max first second
          timeoutMs := lastTimeout options
          json }

/-- What is wrong with a command line that asks for none: the first thing. -/
inductive PortComplaint (json : Bool) : List Bytes → Command PortRequest → Prop
  | short {args : List Bytes} : args.length < 4 →
      PortComplaint json args
        (if json then fail (ascii "Usage: ns -p <ip> <port-range>") else .usage)
  | ip {program command quad range : Bytes} {options : List Bytes} :
      (∀ ip, ¬DottedQuad quad ip) →
      PortComplaint json (program :: command :: quad :: range :: options)
        (fail (ascii "Invalid IP address"))
  | range {program command quad range : Bytes} {options : List Bytes} {ip : Ip} :
      DottedQuad quad ip → (∀ ports, ¬PortTexts 45 range ports) →
      PortComplaint json (program :: command :: quad :: range :: options)
        (fail (ascii "Invalid port range"))
  | two {program command quad range : Bytes} {options : List Bytes} {ip : Ip} {ports : List Nat} :
      DottedQuad quad ip → PortTexts 45 range ports → ports.length ≠ 2 →
      PortComplaint json (program :: command :: quad :: range :: options)
        (fail (ascii "Please provide two ports"))
  | option {program command quad range msg : Bytes} {args rest : List Bytes} {ip : Ip}
      {first second : Nat} {options : List PortOption} :
      DottedQuad quad ip → PortTexts 45 range [first, second] →
      portGrammar.Splits args options rest → BadPortOption rest msg →
      PortComplaint json (program :: command :: quad :: range :: args) (fail msg)

/-- What a scan can be asked for. -/
structure PortRequest.Fits (request : PortRequest) : Prop where
  start : 1 ≤ request.start
  ordered : request.start ≤ request.end
  «end» : request.end ≤ 65535
  timeoutMs : ∀ ms, request.timeoutMs = some ms → 1 ≤ ms ∧ ms ≤ 60000

theorem lastTimeout_fits {options : List PortOption} (h : ∀ o ∈ options, o.Valid) {ms : Nat}
    (hms : lastTimeout options = some ms) : 1 ≤ ms ∧ ms ≤ 60000 := by
  obtain ⟨o, ho, hsome⟩ := List.mem_filterMap.mp (List.mem_of_getLast? hms)
  cases o with
  | json => cases hsome
  | timeout value ms' =>
    cases hsome
    exact (h _ ho).2

/-- Options that choose just this. -/
def PortRequest.options (request : PortRequest) : List PortOption :=
  (request.timeoutMs.map fun ms => .timeout (writeNat ms) ms).toList ++
    if request.json then [.json] else []

/-- The words of a scan. -/
def portArgs (program : Bytes) (request : PortRequest) : List Bytes :=
  program :: ascii "-p" :: formatIp request.ip ::
    (writeNat request.start ++ 45 :: writeNat request.end) :: portGrammar.spell request.options

section Words

variable {program command quad range : Bytes} {args : List Bytes} {ip : Ip}

/-- What is read behind an address. -/
theorem runPortScan_range (hquad : DottedQuad quad ip) {result : Option (List Nat)}
    (hrange : ∀ ports, result = some ports ↔ PortTexts 45 range ports) (json : Bool) :
    runPortScan (program :: command :: quad :: range :: args) json =
      some (scanRange ip args json result) := by
  obtain ⟨result', hrun, hports⟩ := splitStringToIntArray_run range
  have hsame : result' = result := by
    refine Option.ext fun ports => ?_
    rw [hports, ← hrange]
  subst hsame
  simp only [runPortScan, (ipStringToBytes_iff _ _).mpr hquad, hrun]
  rfl

theorem scanRange_two (first second : Nat) (json : Bool) :
    scanRange ip args json (some [first, second]) =
      match portOptions none args with
      | .error msg => fail msg
      | .ok timeoutMs =>
        .scan
          { ip
            start := min first second
            «end» := max first second
            timeoutMs
            json } := by
  have horder : (if first > second then (second, first) else (first, second)) =
      (min first second, max first second) := by
    split
    · next hle => rw [Nat.min_eq_right (by omega), Nat.max_eq_left (by omega)]
    · next hle => rw [Nat.min_eq_left (by omega), Nat.max_eq_right (by omega)]
  rw [scanRange, horder]

/-- The range is read in one way. -/
theorem portTexts_result {ports : List Nat} (h : PortTexts 45 range ports) (ports' : List Nat) :
    some ports = some ports' ↔ PortTexts 45 range ports' := by
  obtain ⟨result, -, hports⟩ := splitStringToIntArray_run range
  rw [← hports, (hports ports).mpr h]

end Words

theorem PortCommand.run {args : List Bytes} {json : Bool} {request : PortRequest}
    (h : PortCommand json args request) : runPortScan args json = some (.scan request) := by
  obtain ⟨hquad, hrange, hvalid⟩ := h
  next options =>
  have hread := (portOptions_reads.ok_iff none _ (portGrammar.spell options)).mpr
    ⟨options, ⟨(List.append_nil _).symm, hvalid⟩, rfl⟩
  rw [foldl_apply] at hread
  rw [runPortScan_range hquad (portTexts_result hrange), scanRange_two, hread]

theorem PortComplaint.run {args : List Bytes} {json : Bool} {c : Command PortRequest}
    (h : PortComplaint json args c) : runPortScan args json = some c := by
  cases h with
  | short hshort =>
    rcases args with _ | ⟨program, _ | ⟨command, _ | ⟨quad, _ | ⟨range, args⟩⟩⟩⟩
    · rfl
    · rfl
    · rfl
    · rfl
    · simp at hshort
      omega
  | @ip program command quad range options hquad =>
    have hread : ipStringToBytes quad = none := by
      cases hip : ipStringToBytes quad with
      | none => rfl
      | some ip => exact absurd ((ipStringToBytes_iff _ _).mp hip) (hquad ip)
    simp only [runPortScan, hread]
  | range hquad hrange =>
    have hresult : ∀ ports, none = some ports ↔ PortTexts 45 _ ports :=
      fun ports => ⟨fun h => (by cases h), fun h => absurd h (hrange ports)⟩
    rw [runPortScan_range hquad hresult]
    rfl
  | @two program command quad range options ip ports hquad hrange hlength =>
    rw [runPortScan_range hquad (portTexts_result hrange)]
    rcases ports with _ | ⟨first, _ | ⟨second, _ | ⟨third, ports⟩⟩⟩
    · rfl
    · rfl
    · exact absurd rfl hlength
    · rfl
  | option hquad hrange hsplits hbad =>
    have hread := (portOptions_reads.error_iff none _ _).mpr ⟨_, _, hsplits, hbad⟩
    rw [runPortScan_range hquad (portTexts_result hrange), scanRange_two, hread]

/-- A command line asks for a scan, or something is wrong with it. -/
theorem command_or_complaint (json : Bool) (args : List Bytes) :
    (∃ request, PortCommand json args request) ∨ ∃ c, PortComplaint json args c := by
  rcases args with _ | ⟨program, _ | ⟨command, _ | ⟨quad, _ | ⟨range, args⟩⟩⟩⟩
  · exact .inr ⟨_, .short (by simp)⟩
  · exact .inr ⟨_, .short (by simp)⟩
  · exact .inr ⟨_, .short (by simp)⟩
  · exact .inr ⟨_, .short (by simp)⟩
  · by_cases hquad : ∃ ip, DottedQuad quad ip
    · obtain ⟨ip, hquad⟩ := hquad
      by_cases hrange : ∃ ports, PortTexts 45 range ports
      · obtain ⟨ports, hrange⟩ := hrange
        by_cases hlength : ports.length = 2
        · obtain ⟨first, second, rfl⟩ := List.length_eq_two.mp hlength
          obtain ⟨options, rest, hsplits, rfl | ⟨msg, hbad⟩⟩ := portGrammar.splits args
          · obtain ⟨hwords, hvalid⟩ := hsplits
            rw [List.append_nil] at hwords
            subst hwords
            exact .inl ⟨_, .scan hquad hrange hvalid⟩
          · exact .inr ⟨_, .option hquad hrange hsplits hbad⟩
        · exact .inr ⟨_, .two hquad hrange hlength⟩
      · exact .inr ⟨_, .range hquad (not_exists.mp hrange)⟩
    · exact .inr ⟨_, .ip (not_exists.mp hquad)⟩

/-! ### Every scan can be asked for -/

theorem portText_writeNat {n : Nat} (hpos : 1 ≤ n) (hle : n ≤ 65535) : PortText (writeNat n) n := by
  obtain ⟨hall, hvalue, first, more, hfirst, hzero⟩ := writeNat_digits n
  refine ⟨by rw [hfirst]; exact List.cons_ne_nil _ _, hall, ?_, hvalue, hpos, hle⟩
  rw [hfirst]
  intro hhead
  have hn := (hzero (Option.some.inj hhead)).2
  omega

theorem intText_writeNat {most n : Nat} (h : n ≤ most) : IntText most (writeNat n) n := by
  obtain ⟨hall, hvalue, first, more, hfirst, -⟩ := writeNat_digits n
  have hunder : ∀ b ∈ writeNat n, b ≠ 95 := by
    rintro b hb rfl
    exact absurd (hall 95 hb) (by decide)
  refine .inl ⟨by rw [hfirst]; exact List.cons_ne_nil _ _, ?_, ?_, fun b hb => .inr (hall b hb),
    ?_, h⟩
  · exact fun hhead => hunder 95 (List.mem_of_mem_head? hhead) rfl
  · exact fun hlast => hunder 95 (List.mem_of_getLast? hlast) rfl
  · rw [List.filter_eq_self.mpr (by simpa using hunder), hvalue]

theorem PortRequest.lastTimeout_options (request : PortRequest) :
    lastTimeout request.options = request.timeoutMs := by
  obtain ⟨_, _, _, timeoutMs, json⟩ := request
  cases timeoutMs <;> cases json <;> rfl

theorem PortRequest.options_valid {request : PortRequest}
    (h : ∀ ms, request.timeoutMs = some ms → 1 ≤ ms ∧ ms ≤ 60000) :
    ∀ o ∈ request.options, o.Valid := by
  intro o ho
  rcases List.mem_append.mp ho with ho | ho
  · obtain ⟨ms, hms, rfl⟩ := Option.map_eq_some_iff.mp (Option.mem_toList.mp ho)
    obtain ⟨hpos, hle⟩ := h ms hms
    exact ⟨intText_writeNat (by omega), hpos, hle⟩
  · split at ho
    · rw [List.mem_singleton.mp ho]
      trivial
    · cases ho

theorem portCommand_portArgs (program : Bytes) {request : PortRequest} (h : request.Fits) :
    PortCommand request.json (portArgs program request) request := by
  have hvalid := PortRequest.options_valid h.timeoutMs
  obtain ⟨ip, start, «end», timeoutMs, json⟩ := request
  obtain ⟨hstart, hordered, hend, htimeout⟩ := h
  simp only at hstart hordered hend htimeout
  have hquad : DottedQuad (formatIp ip) ip :=
    (ipStringToBytes_iff _ _).mp (ipStringToBytes_formatIp ip)
  have hrange : PortTexts 45 (writeNat start ++ 45 :: writeNat «end») [start, «end»] :=
    .more (portText_writeNat hstart (by omega)) (.last (portText_writeNat (by omega) hend))
  have hmin : min start «end» = start := Nat.min_eq_left hordered
  have hmax : max start «end» = «end» := Nat.max_eq_right hordered
  have hscan := @PortCommand.scan json program (ascii "-p") _ _ ip start «end» _ hquad hrange
    hvalid
  rwa [hmin, hmax, PortRequest.lastTimeout_options] at hscan

/-- A command line asks for a scan that `scanPorts` takes. -/
theorem PortCommand.fits {json : Bool} {args : List Bytes} {request : PortRequest}
    (h : PortCommand json args request) : request.Fits := by
  obtain ⟨-, hrange, hvalid⟩ := h
  next first second options =>
  obtain ⟨hfirst, hsecond⟩ : (1 ≤ first ∧ first ≤ 65535) ∧ 1 ≤ second ∧ second ≤ 65535 := by
    cases hrange with
    | more hfirst hrest =>
      cases hrest with
      | last hsecond =>
        exact ⟨⟨hfirst.positive, hfirst.fits⟩, hsecond.positive, hsecond.fits⟩
      | more _ hnil => cases hnil
  refine ⟨?_, ?_, ?_, fun ms hms => lastTimeout_fits hvalid hms⟩
  · show 1 ≤ min first second
    omega
  · show min first second ≤ max first second
    omega
  · show max first second ≤ 65535
    omega

/--
**The command line of a port scan is read exactly.** A scan is started by an address, two ports in
either order and options, the last timeout counting, and by nothing else; it always has a range in
order, and every scan has a command line. Any other command line ends in the message of the first
thing wrong with it.
-/
theorem port_command_exact (json : Bool) :
    (∀ args request, runPortScan args json = some (.scan request) ↔
      PortCommand json args request) ∧
    (∀ args request, PortCommand json args request → request.Fits) ∧
    (∀ program request, request.Fits →
      PortCommand request.json (portArgs program request) request) ∧
    ∀ args, (∃ request, PortCommand json args request) ∨
      ∃! c, PortComplaint json args c ∧ runPortScan args json = some c := by
  refine ⟨fun args request => ⟨fun hrun => ?_, PortCommand.run⟩, fun _ _ => PortCommand.fits,
    fun program _ => portCommand_portArgs program, fun args => ?_⟩
  · rcases command_or_complaint json args with ⟨request', h⟩ | ⟨c, h⟩
    · rw [h.run] at hrun
      cases hrun
      exact h
    · rw [h.run] at hrun
      cases h with
      | short => split at hrun <;> cases hrun
      | ip | range | two | option => cases hrun
  · rcases command_or_complaint json args with h | ⟨c, h⟩
    · exact .inl h
    · refine .inr ⟨c, ⟨h, h.run⟩, ?_⟩
      rintro c' ⟨-, hrun⟩
      rw [h.run] at hrun
      cases hrun
      rfl

/-- A range the wrong way round, and two timeouts. -/
theorem port_command_exact_reversed :
    let args := ["ns", "-p", "10.0.0.8", "90-80", "--timeout", "900", "--json", "--timeout",
      "2_50"].map ascii
    let request : PortRequest :=
      { ip := (10, 0, 0, 8)
        start := 80
        «end» := 90
        timeoutMs := some 250
        json := true }
    runPortScan args true = some (.scan request) ∧ PortCommand true args request ∧
      request.Fits ∧ PortCommand true (portArgs (ascii "ns") request) request := by
  intro args request
  obtain ⟨hexact, hfits, hasked, -⟩ := port_command_exact true
  have hrun : runPortScan args true = some (.scan request) := by decide +kernel
  have hcommand := (hexact args request).mp hrun
  exact ⟨hrun, hcommand, hfits _ _ hcommand, hasked _ _ (hfits _ _ hcommand)⟩

end NetScanner.Cli
