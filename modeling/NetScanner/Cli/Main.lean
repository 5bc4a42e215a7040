import NetScanner.Cli.Subnet

/-!
# The program

`src/core/main.zig`, `main` and `fail`. Every scan has a command line from which `main` starts it
(`main_portArgs`, `main_subnetArgs`).

With `--json`, a command that does not scan prints one line with the message. The message is the
program's own but for a word of the command line that may stand in it (`Said`), so it is UTF-8 when
the words are, and a consumer reads it whole when its escapes fit the buffer (`failures_told`).
-/

namespace NetScanner.Cli

open Infra Infra.Json Net

/-! ## `main` -/

/-- How `main` ends, or which scan it goes on with. -/
inductive Ending where
  /-- The usage text, and the status. -/
  | usage (status : Nat)
  | version
  | scanPorts (request : PortRequest)
  | scanNetwork (request : SubnetRequest)
  /-- `fail` with its message and status 1; the usage text may stand before it. -/
  | failed (withUsage : Bool) (msg : Bytes)

def Command.ending {Request : Type} (scan : Request → Ending) : Command Request → Ending
  | .scan request => scan request
  | .usage => .usage 1
  | .failed withUsage fmt printed => .failed withUsage (Json.failMessage fmt printed)

def hasFlag (args : List Bytes) (flag : Bytes) : Bool := args.any fun arg => decide (arg = flag)

def main (windows : Bool) (args : List Bytes) : Checked Ending :=
  match args with
  | _ :: command :: rest =>
    -- anywhere, also where the command reads something else
    let json := hasFlag rest optionJson
    if command = ascii "--help" ∨ command = ascii "-h" then some (.usage 0)
    else if command = ascii "--version" ∨ command = ascii "-v" then some .version
    else if command = ascii "-p" then (runPortScan args json).map (Command.ending .scanPorts)
    else if command = ascii "-s" then
      some ((runSubnetScan windows json args).ending .scanNetwork)
    else some (.usage 1)
  | _ => some (.usage 0)

/-- Whether the scan prints events. -/
def Ending.scans? : Ending → Option Bool
  | .scanPorts request => some request.json
  | .scanNetwork request => some request.json
  | _ => none

/-- What `main` itself prints on stdout; what a scan prints is its own. -/
def Ending.stdout (usageText versionText : Bytes) (json : Bool) : Ending → Bytes
  | .usage _ => usageText
  | .version => versionText
  | .scanPorts _ | .scanNetwork _ => []
  | .failed withUsage msg =>
    (if withUsage then usageText else []) ++ if json then Json.failLine msg else []

/-! ## Every scan can be asked for -/

theorem hasFlag_iff {args : List Bytes} {flag : Bytes} :
    hasFlag args flag = true ↔ flag ∈ args := by
  rw [hasFlag, List.any_eq_true]
  constructor
  · rintro ⟨arg, harg, heq⟩
    rwa [← of_decide_eq_true heq]
  · exact fun hmem => ⟨flag, hmem, decide_eq_true rfl⟩

theorem writeNat_ne_json (n : Nat) : writeNat n ≠ optionJson := by
  intro h
  have hall := (writeNat_digits n).1
  rw [h] at hall
  exact absurd (hall 110 (by decide)) (by decide)

/-- `main` starts a scan of ports from its words. -/
theorem main_portArgs (windows : Bool) (program : Bytes) {request : PortRequest}
    (h : request.Fits) : main windows (portArgs program request) = some (.scanPorts request) := by
  have hip : formatIp request.ip ≠ optionJson := by
    intro heq
    have hread := ipStringToBytes_formatIp request.ip
    rw [heq] at hread
    cases hread
  have hrange : writeNat request.start ++ 45 :: writeNat request.end ≠ optionJson := by
    intro heq
    have hmem : 110 ∈ writeNat request.start ++ 45 :: writeNat request.end := by
      rw [heq]
      decide
    rcases List.mem_append.mp hmem with hmem | hmem
    · exact absurd ((writeNat_digits _).1 110 hmem) (by decide)
    · obtain heq | hmem := List.mem_cons.mp hmem
      · cases heq
      · exact absurd ((writeNat_digits _).1 110 hmem) (by decide)
  have hflag : hasFlag (formatIp request.ip :: (writeNat request.start ++ 45 ::
      writeNat request.end) :: portGrammar.spell request.options) optionJson = request.json := by
    rw [Bool.eq_iff_iff, hasFlag_iff, List.mem_cons, List.mem_cons, or_iff_right hip.symm,
      or_iff_right hrange.symm]
    obtain ⟨_, _, _, timeoutMs, json⟩ := request
    cases timeoutMs with
    | none =>
      cases json <;> simp [PortRequest.options, Grammar.spell, portGrammar, PortOption.words]
    | some ms =>
      have hms := writeNat_ne_json ms
      cases json <;> simp [PortRequest.options, Grammar.spell, portGrammar, PortOption.words,
        optionJson_ne, hms.symm]
  show (runPortScan (portArgs program request) (hasFlag _ optionJson)).map _ = _
  rw [hflag, (portCommand_portArgs program h).run]
  rfl

/-- `main` starts a scan of a subnet from its words, unless a file named `--json` stands there for
the option. -/
theorem main_subnetArgs {windows : Bool} (program : Bytes) {request : SubnetRequest}
    (h : request.Fits windows)
    (hpath : request.json = false → request.options.ouiFile ≠ some optionJson) :
    main windows (subnetArgs windows program request) = some (.scanNetwork request) := by
  have hcidr : request.cidr ≠ optionJson := by
    intro heq
    have hread := (parseCidr_iff _ _).mpr h.cidr
    rw [heq] at hread
    cases hread
  have hflag : hasFlag (request.cidr :: (subnetGrammar windows request.json).spell
      (request.options.toList ++ if request.json then [.json] else [])) optionJson =
        request.json := by
    rw [Bool.eq_iff_iff, hasFlag_iff, List.mem_cons, or_iff_right hcidr.symm]
    cases hjson : request.json with
    | true => simp [Grammar.spell, subnetGrammar, SubnetOption.words]
    | false =>
      rw [if_neg Bool.false_ne_true, List.append_nil]
      refine iff_of_false (fun hmem => ?_) Bool.false_ne_true
      obtain ⟨o, ho, (hword : optionJson ∈ o.words)⟩ := List.mem_flatMap.mp hmem
      cases o with
      | json => simp [SubnetOptions.toList] at ho
      | ouiFile path =>
        obtain heq | hword := List.mem_cons.mp hword
        · exact absurd heq (by decide)
        · have hfile : request.options.ouiFile = some path := by
            simpa [SubnetOptions.toList] using ho
          exact hpath hjson (hfile.trans (congrArg some (List.mem_singleton.mp hword).symm))
      | neighborTable parent => cases parent <;> exact absurd hword (by decide)
      | ping | resolve | hostname | vendor => exact absurd hword (by decide)
  show some ((runSubnetScan windows (hasFlag _ optionJson)
    (subnetArgs windows program request)).ending .scanNetwork) = _
  rw [hflag, (subnetCommand_subnetArgs program h).run]
  rfl

/-! ## The messages -/

/-- A text of the program's own. -/
def ownText (text : Bytes) : Bool := text.all fun b => 32 ≤ b ∧ b < 127

/-- The format and the print of a failure, with at most one of the words in it. -/
structure Said (words : List Bytes) (fmt printed : Bytes) : Prop where
  own : ownText fmt = true
  short : fmt.length ≤ 256
  parts : printed = fmt ∨ ∃ before word after, printed = before ++ word ++ after ∧ word ∈ words ∧
    ownText before = true ∧ ownText after = true

/-- `fail` with a message without holes. -/
theorem said_own {words : List Bytes} {msg : Bytes} (hown : ownText msg = true)
    (hshort : msg.length ≤ 256) : Said words msg msg := ⟨hown, hshort, .inl rfl⟩

theorem printable_own {text : Bytes} (h : ownText text = true) : Json.Printable text := by
  intro b hb
  have hb' := of_decide_eq_true (List.all_eq_true.mp h b hb)
  exact ⟨hb'.1, by rintro rfl; exact absurd hb'.2 (by decide)⟩

theorem isUtf8_own {text : Bytes} (h : ownText text = true) : IsUtf8 text :=
  isUtf8_of_ascii fun b hb =>
    UInt8.lt_trans (of_decide_eq_true (List.all_eq_true.mp h b hb)).2 (by decide)

/-- The message is `fmt` itself, or what is printed when that is short. -/
theorem failMessage_cases (fmt printed : Bytes) :
    Json.failMessage fmt printed = fmt ∨
      Json.failMessage fmt printed = printed ∧ printed.length ≤ 256 := by
  unfold Json.failMessage
  split
  · next hshort => exact .inr ⟨rfl, hshort⟩
  · exact .inl rfl

namespace Said

variable {words : List Bytes} {fmt printed : Bytes}

theorem length_le (h : Said words fmt printed) : (Json.failMessage fmt printed).length ≤ 256 := by
  rcases failMessage_cases fmt printed with hmsg | ⟨hmsg, hshort⟩
  · rw [hmsg]
    exact h.short
  · rw [hmsg]
    exact hshort

/-- What holds of the program's own texts and of the words, and of texts put together, holds of the
message. -/
theorem message {P : Bytes → Prop} (h : Said words fmt printed)
    (hown : ∀ text, ownText text = true → P text) (happend : ∀ a b, P a → P b → P (a ++ b))
    (hwords : ∀ word ∈ words, P word) : P (Json.failMessage fmt printed) := by
  rcases failMessage_cases fmt printed with hmsg | ⟨hmsg, -⟩
  · rw [hmsg]
    exact hown _ h.own
  · rw [hmsg]
    rcases h.parts with rfl | ⟨before, word, after, rfl, hword, hbefore, hafter⟩
    · exact hown _ h.own
    · exact happend _ _ (happend _ _ (hown _ hbefore) (hwords _ hword)) (hown _ hafter)

theorem isUtf8 (h : Said words fmt printed) (hwords : ∀ word ∈ words, IsUtf8 word) :
    IsUtf8 (Json.failMessage fmt printed) :=
  h.message (fun _ => isUtf8_own) (fun _ _ => isUtf8_append) hwords

theorem printable (h : Said words fmt printed) (hwords : ∀ word ∈ words, Json.Printable word) :
    Json.Printable (Json.failMessage fmt printed) :=
  h.message (fun _ => printable_own) (fun _ _ => Json.printable_append) hwords

end Said

/-! ## What is told -/

/-- What a consumer makes of the output of a command that failed. -/
structure FailureTold (words : List Bytes) (msg stdout : Bytes) : Prop where
  /-- It is one line with the message, as far as that fits; what is not UTF-8 then is refused. -/
  line : Json.consumeUtf8 stdout =
    [if IsUtf8 (Json.kept 512 msg) then some (.error (Json.kept 512 msg)) else none]
  /-- With words of UTF-8 a message that fits is read whole. -/
  read : (∀ word ∈ words, IsUtf8 word) → (msg.flatMap Json.piece).length ≤ 512 →
    Json.consumeUtf8 stdout = [some (.error msg)]
  /-- It fits when there is no control character in the words. -/
  fits : (∀ word ∈ words, Json.Printable word) → (msg.flatMap Json.piece).length ≤ 512

/-- What comes of a command line with or without `--json`. -/
structure Told (usageText versionText : Bytes) (json : Bool) (words : List Bytes)
    (ending : Ending) : Prop where
  /-- A program that asked for events is told of a failure in one, and of nothing else. -/
  events : json = true → ending.scans? = some true ∨ ∃ msg, ending = .failed false msg ∧
    FailureTold words msg (ending.stdout usageText versionText json)
  /-- A reader is told on stderr. -/
  text : json = false → ending.scans? = some false ∨
    ending.stdout usageText versionText json = [] ∨
    ending.stdout usageText versionText json = usageText

section Told

variable {usageText versionText : Bytes} {windows json : Bool} {words args : List Bytes}

theorem Said.told {fmt printed : Bytes} (h : Said words fmt printed) :
    FailureTold words (Json.failMessage fmt printed)
      (Json.failLine (Json.failMessage fmt printed)) := by
  have hconsume : Json.consumeUtf8 (Json.failLine (Json.failMessage fmt printed)) =
      [Json.Event.told (.error (Json.failMessage fmt printed))] := by
    have hall := Json.consumeUtf8_output [.error (Json.failMessage fmt printed)]
    rwa [Json.output, List.flatMap_singleton] at hall
  have hreadable : Json.Event.Readable (.error (Json.failMessage fmt printed)) ↔
      IsUtf8 (Json.kept 512 (Json.failMessage fmt printed)) := by
    rw [Json.Event.Readable, Json.Event.texts, List.forall_mem_singleton]
  refine ⟨?_, fun hwords hfits => ?_, fun hwords => ?_⟩
  · rw [hconsume, Json.Event.told]
    simp only [hreadable]
    rfl
  · have hkept := Json.kept_of_fits hfits
    rw [hconsume, Json.Event.told, if_pos (hreadable.mpr (by rw [hkept]; exact h.isUtf8 hwords))]
    exact congrArg (fun msg => [some (Json.Event.error msg)]) hkept
  · exact (Json.length_pieces_le (h.printable hwords)).trans (Nat.mul_le_mul_left 2 h.length_le)

theorem told_failed {usage : Bool} {fmt printed : Bytes} (h : usage = true → json = false)
    (hsaid : Said words fmt printed) :
    Told usageText versionText json words (.failed usage (Json.failMessage fmt printed)) where
  events hjson := by
    subst hjson
    cases usage with
    | true => exact absurd (h rfl) (by decide)
    | false => exact .inr ⟨_, rfl, hsaid.told⟩
  text hjson := by
    subst hjson
    cases usage with
    | true => exact .inr (.inr (List.append_nil _))
    | false => exact .inr (.inl rfl)

theorem told_fail {Request : Type} {scan : Request → Ending} {msg : Bytes}
    (hown : ownText msg = true) (hshort : msg.length ≤ 256) :
    Told usageText versionText json words ((fail msg).ending scan) :=
  told_failed (fun h => absurd h (by decide)) (said_own hown hshort)

theorem PortComplaint.told {c : Command PortRequest} (h : PortComplaint json args c) :
    Told usageText versionText json words (c.ending .scanPorts) := by
  cases h with
  | short =>
    cases json with
    | true => exact told_fail (by decide) (by decide)
    | false => exact ⟨fun h => absurd h (by decide), fun _ => .inr (.inr rfl)⟩
  | ip | range | two => exact told_fail (by decide) (by decide)
  | option _ _ _ hbad => cases hbad <;> exact told_fail (by decide) (by decide)

theorem SubnetComplaint.told {c : Command SubnetRequest} (h : SubnetComplaint windows json args c) :
    Told usageText versionText json (args.drop 2) (c.ending .scanNetwork) := by
  cases h with
  | short =>
    cases json with
    | true => exact told_fail (by decide) (by decide)
    | false => exact ⟨fun h => absurd h (by decide), fun _ => .inr (.inr rfl)⟩
  | option hsplits hbad =>
    cases hbad with
    | unknown =>
      refine told_failed (fun h => by simpa using h)
        ⟨by decide, by decide, .inr ⟨_, _, _, rfl, ?_, by decide, by decide⟩⟩
      rw [hsplits.words]
      simp
    | noPath | noJson | onWindows | source => exact told_fail (by decide) (by decide)
  | subnet =>
    exact told_failed (fun h => absurd h (by decide))
      ⟨by decide, by decide, .inr ⟨_, _, _, rfl, List.mem_cons_self, by decide, by decide⟩⟩

end Told

/--
**A command that does not scan says so where it was asked to.** With `--json` anywhere behind `-p`
or `-s`, whatever else is wrong with the command line: all of stdout is one line with the message,
and the usage text is not in its way. A consumer reads the message from it when the words are UTF-8
and it fits, which it does when they have no control characters. Without `--json` no event is
printed.
-/
theorem failures_told (windows : Bool) (usageText versionText program command : Bytes)
    (rest : List Bytes) (hcommand : command = ascii "-p" ∨ command = ascii "-s") :
    ∃ ending, main windows (program :: command :: rest) = some ending ∧
      Told usageText versionText (hasFlag rest optionJson) rest ending := by
  rcases hcommand with rfl | rfl
  · have hmain : main windows (program :: ascii "-p" :: rest) =
        (runPortScan (program :: ascii "-p" :: rest) (hasFlag rest optionJson)).map
          (Command.ending .scanPorts) := rfl
    rw [hmain]
    generalize hasFlag rest optionJson = json
    rcases command_or_complaint json (program :: ascii "-p" :: rest) with ⟨request, h⟩ | ⟨c, h⟩
    · rw [h.run]
      refine ⟨_, rfl, ?_⟩
      cases h
      exact ⟨fun hjson => .inl (congrArg some hjson), fun hjson => .inl (congrArg some hjson)⟩
    · rw [h.run]
      exact ⟨_, rfl, h.told⟩
  · have hmain : main windows (program :: ascii "-s" :: rest) =
        some ((runSubnetScan windows (hasFlag rest optionJson)
          (program :: ascii "-s" :: rest)).ending .scanNetwork) := rfl
    rw [hmain]
    generalize hasFlag rest optionJson = json
    refine ⟨_, rfl, ?_⟩
    rcases subnet_command_or_complaint windows json (program :: ascii "-s" :: rest) with
      ⟨request, h⟩ | ⟨c, h⟩
    · rw [h.run]
      cases h
      exact ⟨fun hjson => .inl (congrArg some hjson), fun hjson => .inl (congrArg some hjson)⟩
    · rw [h.run]
      exact h.told

/-- A subnet that is none, with a letter that is not ASCII in it, and `--json` behind it. -/
theorem failures_told_subnet :
    let subnet := [49, 48, 46, 0xC3, 0xA9]
    let msg := ascii "Invalid subnet '" ++ subnet ++
      ascii "' (use CIDR like 192.168.1.0/24)"
    ∃ ending, main false [ascii "ns", ascii "-s", subnet, ascii "--json"] = some ending ∧
      Told (ascii "usage") (ascii "v1") true [subnet, ascii "--json"] ending ∧
      ending = .failed false msg ∧
      Json.consumeUtf8 (ending.stdout (ascii "usage") (ascii "v1") true) =
        [some (.error msg)] := by
  intro subnet msg
  obtain ⟨ending, hmain, htold⟩ := failures_told false (ascii "usage") (ascii "v1") (ascii "ns")
    (ascii "-s") [subnet, ascii "--json"] (.inr rfl)
  have hending : ending = .failed false msg := Option.some.inj (hmain.symm.trans rfl)
  refine ⟨ending, hmain, htold, hending, ?_⟩
  obtain hscans | ⟨msg', hfailed, hread⟩ := htold.events rfl
  · rw [hending] at hscans
    cases hscans
  · obtain rfl : msg = msg' := (Ending.failed.inj (hending.symm.trans hfailed)).2
    have hutf8 : ∀ word ∈ [subnet, ascii "--json"], IsUtf8 word :=
      List.forall_mem_cons.mpr ⟨by decide +kernel,
        List.forall_mem_singleton.mpr (isUtf8_ascii (by decide))⟩
    exact hread.read hutf8 (by decide +kernel)

end NetScanner.Cli
