import NetScanner.Hosts.Found
import NetScanner.Infra.JsonText
import NetScanner.Json.Cut

/-!
# The events of `--json`

`src/core/scanner.zig`, `src/core/main.zig` and `src/core/neighbor_table.zig`: every line that a
scan prints with `--json`, piece by piece as the format strings have it. A line is printed in one
piece, behind a lock, so what a consumer sees is lines in some order.

`Event.json` is the object that a line is, and `Event.ofJson?` what a consumer reads off it.
`json_lines_read_back` says that the lines can be told apart and read whatever they say: names come
off the network, and no byte of theirs ends a line, leaves its string or makes one event look like
another.
-/

namespace NetScanner.Json

open Infra Infra.Json Hosts Net Progress

/-! ## What is printed -/

/-- `@tagName`. -/
def phaseName : Phase → Bytes
  | .ports => ascii "ports"
  | .sweep => ascii "sweep"
  | .arp => ascii "arp"
  | .identify => ascii "identify"

def sourceName : HostSource → Bytes
  | .tcp => ascii "tcp"
  | .arp => ascii "arp"
  | .ping => ascii "ping"
  | .mdns => ascii "mdns"
  | .ssdp => ascii "ssdp"

/-- `ports.Service`. -/
structure Service where
  name : Bytes
  iana : Option Bytes := none
  description : Option Bytes := none
  category : Option Bytes := none
deriving DecidableEq, Repr

/-- What `Run.advance` prints. -/
def advanceLine (event : ProgressEvent) : Bytes :=
  ascii "\x7b\"type\":\"progress\",\"phase\":\"" ++ (phaseName event.phase ++
    (ascii "\",\"done\":" ++ (writeNat event.done ++
      (ascii ",\"total\":" ++ (writeNat event.total ++ ascii "\x7d\n")))))

/-- `printOpenPort`, over what the port table says. -/
def printOpenPort (port : Nat) (service : Option Service) : Bytes :=
  ascii "\x7b\"type\":\"port\",\"port\":" ++ (writeNat port ++
    (ascii ",\"service\":" ++ (jsonStringOrNull 768 (service.map Service.name) ++
      (ascii ",\"iana\":" ++ (jsonStringOrNull 768 (service.bind Service.iana) ++
        (ascii ",\"description\":" ++ (jsonStringOrNull 768 (service.bind Service.description) ++
          (ascii ",\"category\":" ++ (jsonStringOrNull 768 (service.bind Service.category) ++
            ascii "\x7d\n")))))))))

def printHost (ip : Ip) (source : HostSource) : Bytes :=
  ascii "\x7b\"type\":\"host\",\"ip\":\"" ++ (formatIp ip ++
    (ascii "\",\"source\":\"" ++ (sourceName source ++ ascii "\"\x7d\n")))

/-- `,"name":"value"`, or `,"name":null`. -/
def optionalText (name : String) : Option Bytes → Bytes
  | some value => ascii (",\"" ++ name ++ "\":\"") ++ (value ++ ascii "\"")
  | none => ascii (",\"" ++ name ++ "\":null")

/-- A `host_detail` of `printDetails`: only what was asked for appears at all. -/
def hostDetailLine (resolveHostname resolveVendor : Bool) (d : HostDetail) : Bytes :=
  ascii "\x7b\"type\":\"host_detail\",\"ip\":\"" ++ (formatIp d.ip ++ (ascii "\"" ++
    ((if resolveHostname then optionalText "hostname" (d.hostname.map (jsonEscape 768)) else []) ++
      ((if resolveVendor then
        optionalText "mac" (d.mac.map formatMac) ++
          optionalText "vendor" (d.vendor.map (jsonEscape 768)) else []) ++ ascii "\x7d\n"))))

/-- `printJsonSummary`. -/
def printJsonSummary (hostCount : Nat) (elapsedMs : Int) : Bytes :=
  ascii "\x7b\"type\":\"summary\",\"hosts\":" ++ (writeNat hostCount ++
    (ascii ",\"elapsed_ms\":" ++ (writeInt elapsedMs ++ ascii "\x7d\n")))

def printScanHeader (cidr : Bytes) (range : IpRange) : Bytes :=
  ascii "\x7b\"type\":\"start\",\"mode\":\"subnet\",\"cidr\":\"" ++ (jsonEscape 128 cidr ++
    (ascii "\",\"first\":\"" ++ (formatIp range.start ++
      (ascii "\",\"last\":\"" ++ (formatIp range.end ++ ascii "\"\x7d\n")))))

/-- The loop over the open ports, a comma before each but the first. -/
def portList : List Nat → Bytes
  | [] => []
  | port :: ports => writeNat port ++ ports.flatMap fun port => 44 :: writeNat port

/-- The end of `runPortScan`. -/
def portSummaryLine (openPorts : List Nat) (elapsedMs : Int) : Bytes :=
  ascii "\x7b\"type\":\"summary\",\"open_ports\":[" ++ (portList openPorts ++
    (ascii "],\"elapsed_ms\":" ++ (writeInt elapsedMs ++ ascii "\x7d\n")))

/-- What `Parent.request` prints. -/
def requestLine (id : Nat) : Bytes :=
  ascii "\x7b\"type\":\"neighbors_request\",\"id\":" ++ (writeNat id ++ ascii "\x7d\n")

/-- The message of `fail`: its format itself if there is no room for more. -/
def failMessage (fmt printed : Bytes) : Bytes := if printed.length ≤ 256 then printed else fmt

/-- `fail`, for its message. -/
def failLine (msg : Bytes) : Bytes :=
  ascii "\x7b\"type\":\"error\",\"message\":\"" ++ (jsonEscape 512 msg ++ ascii "\"\x7d\n")

/-! ## Events -/

/-- What a line tells. -/
inductive Event where
  | start (cidr : Bytes) (range : IpRange)
  | progress (event : ProgressEvent)
  | host (ip : Ip) (source : HostSource)
  | hostDetail (resolveHostname resolveVendor : Bool) (detail : HostDetail)
  | summary (hosts : Nat) (elapsedMs : Int)
  | port (port : Nat) (service : Option Service)
  | portSummary (openPorts : List Nat) (elapsedMs : Int)
  | neighborsRequest (id : Nat)
  | error (message : Bytes)
deriving DecidableEq

def Event.line : Event → Bytes
  | .start cidr range => printScanHeader cidr range
  | .progress event => advanceLine event
  | .host ip source => printHost ip source
  | .hostDetail resolveHostname resolveVendor detail =>
    hostDetailLine resolveHostname resolveVendor detail
  | .summary hosts elapsedMs => printJsonSummary hosts elapsedMs
  | .port n service => printOpenPort n service
  | .portSummary openPorts elapsedMs => portSummaryLine openPorts elapsedMs
  | .neighborsRequest id => requestLine id
  | .error message => failLine message

/-! ## What fits of a text -/

/-- The bytes of a text that are written, when `written` bytes of the buffer are used. -/
def keptFrom (size written : Nat) : Bytes → Bytes
  | [] => []
  | c :: rest =>
    if written + (piece c).length > size then []
    else c :: keptFrom size (written + (piece c).length) rest

/-- What `jsonEscape` keeps of a text. -/
def kept (size : Nat) (s : Bytes) : Bytes := keptFrom size 0 s

theorem escapeInto_kept (size : Nat) (s written : Bytes) :
    escapeInto size written s = written ++ (keptFrom size written.length s).flatMap piece := by
  induction s generalizing written with
  | nil => exact (List.append_nil _).symm
  | cons c s ih =>
    rw [escapeInto, keptFrom]
    split
    · exact (List.append_nil _).symm
    · rw [ih, List.length_append, List.flatMap_cons, List.append_assoc]

theorem jsonEscape_kept (size : Nat) (s : Bytes) :
    jsonEscape size s = (kept size s).flatMap piece :=
  escapeInto_kept size s []

theorem keptFrom_of_fits {size written : Nat} {s : Bytes}
    (h : written + (s.flatMap piece).length ≤ size) : keptFrom size written s = s := by
  induction s generalizing written with
  | nil => rfl
  | cons c s ih =>
    rw [List.flatMap_cons, List.length_append] at h
    rw [keptFrom, if_neg (by omega), ih (by omega)]

/-- **A text that fits is kept whole.** -/
theorem kept_of_fits {size : Nat} {s : Bytes} (h : (s.flatMap piece).length ≤ size) :
    kept size s = s :=
  keptFrom_of_fits (by omega)

/-- **What is kept of a text is a text, where no character is torn.** -/
theorem isUtf8_kept_iff (size : Nat) (text : List Char) :
    IsUtf8 (kept size (utf8 text)) ↔ cutsBetween size text = true := by
  rw [← isUtf8_flatMap_piece_iff, ← jsonEscape_kept, isUtf8_jsonEscape_iff]

def nullOr (size : Nat) : Option Bytes → Json
  | none => .null
  | some s => .string (kept size s)

/-- The object that a line is. -/
def Event.json : Event → Infra.Json
  | .start cidr range => .object [(ascii "type", .string (ascii "start")),
      (ascii "mode", .string (ascii "subnet")), (ascii "cidr", .string (kept 128 cidr)),
      (ascii "first", .string (formatIp range.start)),
      (ascii "last", .string (formatIp range.end))]
  | .progress event => .object [(ascii "type", .string (ascii "progress")),
      (ascii "phase", .string (phaseName event.phase)), (ascii "done", .number event.done),
      (ascii "total", .number event.total)]
  | .host ip source => .object [(ascii "type", .string (ascii "host")),
      (ascii "ip", .string (formatIp ip)), (ascii "source", .string (sourceName source))]
  | .hostDetail resolveHostname resolveVendor d =>
    .object ([(ascii "type", .string (ascii "host_detail")),
      (ascii "ip", .string (formatIp d.ip))] ++
      ((if resolveHostname then [(ascii "hostname", nullOr 768 d.hostname)] else []) ++
        (if resolveVendor then
          [(ascii "mac", (d.mac.map fun mac => Json.string (formatMac mac)).getD .null),
            (ascii "vendor", nullOr 768 d.vendor)] else [])))
  | .summary hosts elapsedMs => .object [(ascii "type", .string (ascii "summary")),
      (ascii "hosts", .number hosts), (ascii "elapsed_ms", .number elapsedMs)]
  | .port n service => .object [(ascii "type", .string (ascii "port")),
      (ascii "port", .number n), (ascii "service", nullOr 766 (service.map Service.name)),
      (ascii "iana", nullOr 766 (service.bind Service.iana)),
      (ascii "description", nullOr 766 (service.bind Service.description)),
      (ascii "category", nullOr 766 (service.bind Service.category))]
  | .portSummary openPorts elapsedMs => .object [(ascii "type", .string (ascii "summary")),
      (ascii "open_ports", .array (openPorts.map fun n : Nat => Json.number n)),
      (ascii "elapsed_ms", .number elapsedMs)]
  | .neighborsRequest id => .object [(ascii "type", .string (ascii "neighbors_request")),
      (ascii "id", .number id)]
  | .error message => .object [(ascii "type", .string (ascii "error")),
      (ascii "message", .string (kept 512 message))]

/-! ## One line, one object -/

/-- No byte of it ends a line or controls a terminal. -/
def Printable (text : Bytes) : Prop := ∀ b ∈ text, 32 ≤ b ∧ b ≠ 0x7f

theorem printable_append {a b : Bytes} (ha : Printable a) (hb : Printable b) :
    Printable (a ++ b) := fun c hc =>
  (List.mem_append.mp hc).elim (ha c) (hb c)

theorem printable_cons {b : UInt8} {text : Bytes} (hb : 32 ≤ b ∧ b ≠ 0x7f) (h : Printable text) :
    Printable (b :: text) := List.forall_mem_cons.mpr ⟨hb, h⟩

theorem printable_nil : Printable [] := fun b hb => (by cases hb)

theorem printable_pieces (s : Bytes) : Printable (s.flatMap piece) := by
  intro b hb
  obtain ⟨c, _, hc⟩ := List.mem_flatMap.mp hb
  exact (piece_printable c).2 b hc

theorem length_pieces_le {s : Bytes} (h : Printable s) :
    (s.flatMap piece).length ≤ 2 * s.length := by
  induction s with
  | nil => exact Nat.le_refl 0
  | cons c s ih =>
    obtain ⟨hc, hs⟩ := List.forall_mem_cons.mp h
    have hpiece := length_piece_le hc
    have hrest := ih hs
    rw [List.flatMap_cons, List.length_append, List.length_cons]
    omega

theorem piece_of_isDigit {b : UInt8} (h : isDigit b) : piece b = [b] := by
  have hall : ∀ b : UInt8, isDigit b → piece b = [b] := forall_byte (by decide +kernel)
  exact hall b h

/-- The text is read as the value, has no control bytes, and is UTF-8 if the value is. -/
structure Shows (v : Infra.Json) (text : Bytes) : Prop where
  reads : Reads v text
  printable : Printable text
  utf8 : IsUtf8 text ↔ IsText v

/-- The same for the members of an object. -/
structure ShowsMembers (ms : List (Bytes × Infra.Json)) (texts : Bytes) : Prop where
  reads : ReadsMembers ms texts
  printable : Printable texts
  utf8 : IsUtf8 texts ↔ ∀ m ∈ ms, IsUtf8 m.1 ∧ IsText m.2

/-- Each byte stands for itself. -/
def plain (s : Bytes) : Bool := s.all fun b => decide (piece b = [b])

theorem flatMap_piece_of_plain {s : Bytes} (h : plain s = true) : s.flatMap piece = s := by
  induction s with
  | nil => rfl
  | cons c s ih =>
    rw [plain, List.all_cons, Bool.and_eq_true, decide_eq_true_iff] at h
    rw [List.flatMap_cons, h.1, ih h.2]
    rfl

theorem plain_append {a b : Bytes} (ha : plain a = true) (hb : plain b = true) :
    plain (a ++ b) = true := by
  rw [plain, List.all_append, Bool.and_eq_true]
  exact ⟨ha, hb⟩

theorem plain_writeNat (n : Nat) : plain (writeNat n) = true :=
  List.all_eq_true.mpr fun b hb => decide_eq_true (piece_of_isDigit ((writeNat_digits n).1 b hb))

theorem plain_cons {b : UInt8} (hb : piece b = [b]) {s : Bytes} (hs : plain s = true) :
    plain (b :: s) = true := by
  rw [plain, List.all_cons, Bool.and_eq_true, decide_eq_true_iff]
  exact ⟨hb, hs⟩

theorem plain_formatIp (ip : Ip) : plain (formatIp ip) = true := by
  have hdecimal : ∀ b : UInt8, plain (decimal b) = true := fun b => plain_writeNat b.toNat
  have hdot : piece 46 = [46] := by decide
  exact plain_append (hdecimal _) (plain_cons hdot (plain_append (hdecimal _)
    (plain_cons hdot (plain_append (hdecimal _) (plain_cons hdot (hdecimal _))))))

theorem plain_formatMac (mac : Mac) : plain (formatMac mac) = true := by
  have hoctet : ∀ b : UInt8, plain (hexOctet false b) = true := forall_byte (by decide +kernel)
  have hcolon : piece 58 = [58] := by decide
  exact plain_append (hoctet _) (plain_cons hcolon (plain_append (hoctet _)
    (plain_cons hcolon (plain_append (hoctet _) (plain_cons hcolon (plain_append (hoctet _)
      (plain_cons hcolon (plain_append (hoctet _) (plain_cons hcolon (hoctet _))))))))))

/-- A text escaped piece by piece, in quotes. -/
theorem readsString_pieces (s : Bytes) : ReadsString s (34 :: (s.flatMap piece ++ [34])) where
  head := ⟨_, rfl⟩
  read rest := by
    rw [List.cons_append, List.append_assoc]
    exact JsonString.string?_flatMap (fun c => (piece_printable c).1) piece?_piece s rest

theorem printable_quoted {text : Bytes} (h : Printable text) : Printable (34 :: (text ++ [34])) :=
  printable_cons (by decide) (printable_append h (printable_cons (by decide) printable_nil))

theorem isUtf8_quoted_iff {text : Bytes} : IsUtf8 (34 :: (text ++ [34])) ↔ IsUtf8 text := by
  rw [isUtf8_cons_iff (by decide), isUtf8_concat_iff (by decide)]

theorem shows_pieces (s : Bytes) : Shows (.string s) (34 :: (s.flatMap piece ++ [34])) where
  reads := (readsString_pieces s).reads
  printable := printable_quoted (printable_pieces s)
  utf8 := by rw [isUtf8_quoted_iff, isUtf8_flatMap_piece_iff, isText_string_iff]

theorem shows_escaped (size : Nat) (s : Bytes) :
    Shows (.string (kept size s)) (34 :: (jsonEscape size s ++ [34])) := by
  rw [jsonEscape_kept]
  exact shows_pieces _

theorem shows_plain {s : Bytes} (h : plain s = true) : Shows (.string s) (34 :: (s ++ [34])) := by
  have hshows := shows_pieces s
  rwa [flatMap_piece_of_plain h] at hshows

theorem printable_of_plain {s : Bytes} (h : plain s = true) : Printable s := by
  rw [← flatMap_piece_of_plain h]
  exact printable_pieces s

theorem shows_null : Shows .null (ascii "null") :=
  ⟨reads_null, printable_of_plain (show plain (ascii "null") = true by decide),
    iff_of_true (isUtf8_of_all (by decide)) .null⟩

theorem shows_nat (n : Nat) : Shows (.number n) (writeNat n) :=
  ⟨reads_natural n, printable_of_plain (plain_writeNat n),
    iff_of_true (isUtf8_writeNat n) (.number n)⟩

theorem shows_int (n : Int) : Shows (.number n) (writeInt n) := by
  refine ⟨reads_int n, ?_, iff_of_true (isUtf8_writeInt n) (.number n)⟩
  unfold writeInt
  split
  · exact printable_cons (by decide) (printable_of_plain (plain_writeNat _))
  · exact printable_of_plain (plain_writeNat _)

theorem shows_stringOrNull (size : Nat) (s : Option Bytes) :
    Shows (nullOr size s) (jsonStringOrNull (size + 2) s) := by
  cases s with
  | none => exact shows_null
  | some s =>
    rw [jsonStringOrNull, if_neg (by omega), Nat.add_sub_cancel]
    exact shows_escaped size s

/-! ### Members -/

/-- `"key":text`. -/
def member (key text : Bytes) : Bytes := 34 :: (key ++ 34 :: 58 :: text)

theorem shows_member (key : Bytes) {text : Bytes} {v : Infra.Json} (hkey : plain key = true)
    (h : Shows v text) : ShowsMembers [(key, v)] (member key text) := by
  have hreads := readsString_pieces key
  rw [flatMap_piece_of_plain hkey] at hreads
  have htext : member key text = 34 :: (key ++ [34]) ++ 58 :: text := by simp [member]
  rw [htext]
  refine ⟨.one hreads h.reads, printable_append (printable_quoted (printable_of_plain hkey))
    (printable_cons (by decide) h.printable), ?_⟩
  rw [isUtf8_append_cons_iff (by decide), isUtf8_quoted_iff, h.utf8, List.forall_mem_singleton]

theorem readsMembers_append {ms ms' : List (Bytes × Infra.Json)} {texts texts' : Bytes}
    (h : ReadsMembers ms texts) (h' : ReadsMembers ms' texts') :
    ReadsMembers (ms ++ ms') (texts ++ 44 :: texts') := by
  induction h with
  | one hkey hv =>
    have hcons := ReadsMembers.cons hkey hv h'
    simpa only [List.append_assoc, List.cons_append, List.nil_append] using hcons
  | cons hkey hv _ ih =>
    have hcons := ReadsMembers.cons hkey hv ih
    simpa only [List.append_assoc, List.cons_append] using hcons

/-- **Members after members.** -/
theorem ShowsMembers.append {ms ms' : List (Bytes × Infra.Json)} {texts texts' : Bytes}
    (h : ShowsMembers ms texts) (h' : ShowsMembers ms' texts') :
    ShowsMembers (ms ++ ms') (texts ++ 44 :: texts') :=
  ⟨readsMembers_append h.reads h'.reads,
    printable_append h.printable (printable_cons (by decide) h'.printable),
    by rw [isUtf8_append_cons_iff (by decide), h.utf8, h'.utf8, List.forall_mem_append]⟩

theorem ShowsMembers.object {ms : List (Bytes × Infra.Json)} {texts : Bytes}
    (h : ShowsMembers ms texts) : Shows (.object ms) (123 :: (texts ++ [125])) :=
  ⟨h.reads.reads, printable_cons (by decide)
    (printable_append h.printable (printable_cons (by decide) printable_nil)),
    by rw [isUtf8_cons_iff (by decide), isUtf8_concat_iff (by decide), h.utf8, isText_object_iff]⟩

/-! ### The lines -/

/-- The line is the object, and nothing else. -/
def LineOf (v : Infra.Json) (line : Bytes) : Prop := ∃ text, line = text ++ [10] ∧ Shows v text

theorem lineOf_members {ms : List (Bytes × Infra.Json)} {texts line : Bytes}
    (h : ShowsMembers ms texts) (hline : line = 123 :: (texts ++ [125, 10])) :
    LineOf (.object ms) line := by
  refine ⟨123 :: (texts ++ [125]), ?_, h.object⟩
  rw [hline, List.cons_append, List.append_assoc]
  rfl

/-- The member that tells what kind of event a line is. -/
theorem shows_type (name : Bytes) (h : plain name = true) :
    ShowsMembers [(ascii "type", .string name)] (member (ascii "type") (34 :: (name ++ [34]))) :=
  shows_member (ascii "type") (by decide) (shows_plain h)

theorem lineOf_start (cidr : Bytes) (range : IpRange) :
    LineOf (Event.start cidr range).json (Event.start cidr range).line := by
  have hmembers := (shows_type (ascii "start") (by decide)).append
    ((shows_member (ascii "mode") (by decide)
        (shows_plain (show plain (ascii "subnet") = true by decide))).append
      ((shows_member (ascii "cidr") (by decide) (shows_escaped 128 cidr)).append
        ((shows_member (ascii "first") (by decide)
            (shows_plain (plain_formatIp range.start))).append
          (shows_member (ascii "last") (by decide) (shows_plain (plain_formatIp range.end))))))
  refine lineOf_members hmembers ?_
  simp only [member, List.append_assoc, List.cons_append, List.nil_append]
  rfl

theorem lineOf_progress (event : ProgressEvent) :
    LineOf (Event.progress event).json (Event.progress event).line := by
  have hphase : plain (phaseName event.phase) = true := by cases event.phase <;> decide
  have hmembers := (shows_type (ascii "progress") (by decide)).append
    ((shows_member (ascii "phase") (by decide) (shows_plain hphase)).append
      ((shows_member (ascii "done") (by decide) (shows_nat event.done)).append
        (shows_member (ascii "total") (by decide) (shows_nat event.total))))
  refine lineOf_members hmembers ?_
  simp only [member, List.append_assoc, List.cons_append, List.nil_append]
  rfl

theorem lineOf_host (ip : Ip) (source : HostSource) :
    LineOf (Event.host ip source).json (Event.host ip source).line := by
  have hsource : plain (sourceName source) = true := by cases source <;> decide
  have hmembers := (shows_type (ascii "host") (by decide)).append
    ((shows_member (ascii "ip") (by decide) (shows_plain (plain_formatIp ip))).append
      (shows_member (ascii "source") (by decide) (shows_plain hsource)))
  refine lineOf_members hmembers ?_
  simp only [member, List.append_assoc, List.cons_append, List.nil_append]
  rfl

theorem lineOf_summary (hosts : Nat) (elapsedMs : Int) :
    LineOf (Event.summary hosts elapsedMs).json (Event.summary hosts elapsedMs).line := by
  have hmembers := (shows_type (ascii "summary") (by decide)).append
    ((shows_member (ascii "hosts") (by decide) (shows_nat hosts)).append
      (shows_member (ascii "elapsed_ms") (by decide) (shows_int elapsedMs)))
  refine lineOf_members hmembers ?_
  simp only [member, List.append_assoc, List.cons_append, List.nil_append]
  rfl

theorem lineOf_port (n : Nat) (service : Option Service) :
    LineOf (Event.port n service).json (Event.port n service).line := by
  have hmembers := (shows_type (ascii "port") (by decide)).append
    ((shows_member (ascii "port") (by decide) (shows_nat n)).append
      ((shows_member (ascii "service") (by decide)
          (shows_stringOrNull 766 (service.map Service.name))).append
        ((shows_member (ascii "iana") (by decide)
            (shows_stringOrNull 766 (service.bind Service.iana))).append
          ((shows_member (ascii "description") (by decide)
              (shows_stringOrNull 766 (service.bind Service.description))).append
            (shows_member (ascii "category") (by decide)
              (shows_stringOrNull 766 (service.bind Service.category)))))))
  refine lineOf_members hmembers ?_
  simp only [member, List.append_assoc, List.cons_append, List.nil_append]
  rfl

theorem lineOf_neighborsRequest (id : Nat) :
    LineOf (Event.neighborsRequest id).json (Event.neighborsRequest id).line := by
  have hmembers := (shows_type (ascii "neighbors_request") (by decide)).append
    (shows_member (ascii "id") (by decide) (shows_nat id))
  refine lineOf_members hmembers ?_
  simp only [member, List.append_assoc, List.cons_append, List.nil_append]
  rfl

theorem lineOf_error (message : Bytes) :
    LineOf (Event.error message).json (Event.error message).line := by
  have hmembers := (shows_type (ascii "error") (by decide)).append
    (shows_member (ascii "message") (by decide) (shows_escaped 512 message))
  refine lineOf_members hmembers ?_
  simp only [member, List.append_assoc, List.cons_append, List.nil_append]
  rfl

/-- The numbers of an array. -/
theorem readsElements_ports (port : Nat) (ports : List Nat) :
    ReadsElements ((port :: ports).map fun n : Nat => Json.number n)
      (portList (port :: ports)) := by
  induction ports generalizing port with
  | nil =>
    rw [portList, List.flatMap_nil, List.append_nil]
    exact .one (reads_natural port)
  | cons next ports ih => exact .cons (reads_natural port) (ih next)

theorem printable_portList (ports : List Nat) : Printable (portList ports) := by
  have hnat : ∀ n, Printable (writeNat n) := fun n => printable_of_plain (plain_writeNat n)
  cases ports with
  | nil => exact printable_nil
  | cons port ports =>
    refine printable_append (hnat port) fun b hb => ?_
    obtain ⟨n, _, hn⟩ := List.mem_flatMap.mp hb
    exact printable_cons (by decide) (hnat n) b hn

theorem isUtf8_portList (ports : List Nat) : IsUtf8 (portList ports) := by
  cases ports with
  | nil => exact isUtf8_nil
  | cons port ports =>
    refine isUtf8_append (isUtf8_writeNat port) (isUtf8_flatten fun text htext => ?_)
    obtain ⟨n, _, rfl⟩ := List.mem_map.mp htext
    exact (isUtf8_cons_iff (by decide)).mpr (isUtf8_writeNat n)

theorem lineOf_portSummary (openPorts : List Nat) (elapsedMs : Int) :
    LineOf (Event.portSummary openPorts elapsedMs).json
      (Event.portSummary openPorts elapsedMs).line := by
  have harray : Shows (.array (openPorts.map fun n : Nat => Json.number n))
      (91 :: (portList openPorts ++ [93])) := by
    refine ⟨?_, printable_cons (by decide) (printable_append (printable_portList openPorts)
      (printable_cons (by decide) printable_nil)), iff_of_true ?_ (.array fun v hv => ?_)⟩
    · cases openPorts with
      | nil => exact reads_emptyArray
      | cons port ports => exact (readsElements_ports port ports).reads
    · rw [isUtf8_cons_iff (by decide), isUtf8_concat_iff (by decide)]
      exact isUtf8_portList openPorts
    · obtain ⟨n, _, rfl⟩ := List.mem_map.mp hv
      exact .number n
  have hmembers := (shows_type (ascii "summary") (by decide)).append
    ((shows_member (ascii "open_ports") (by decide) harray).append
      (shows_member (ascii "elapsed_ms") (by decide) (shows_int elapsedMs)))
  refine lineOf_members hmembers ?_
  simp only [member, List.append_assoc, List.cons_append, List.nil_append]
  rfl

/-- A member that may be null, behind a comma. -/
theorem shows_hostname (name : Option Bytes) :
    ∃ texts, optionalText "hostname" (name.map (jsonEscape 768)) = 44 :: texts ∧
      ShowsMembers [(ascii "hostname", nullOr 768 name)] texts := by
  cases name with
  | none => exact ⟨_, rfl, shows_member (ascii "hostname") (by decide) shows_null⟩
  | some name =>
    exact ⟨_, rfl, shows_member (ascii "hostname") (by decide) (shows_escaped 768 name)⟩

theorem shows_mac (mac : Option Mac) :
    ∃ texts, optionalText "mac" (mac.map formatMac) = 44 :: texts ∧
      ShowsMembers [(ascii "mac", (mac.map fun mac => Json.string (formatMac mac)).getD .null)]
        texts := by
  cases mac with
  | none => exact ⟨_, rfl, shows_member (ascii "mac") (by decide) shows_null⟩
  | some mac =>
    exact ⟨_, rfl, shows_member (ascii "mac") (by decide) (shows_plain (plain_formatMac mac))⟩

theorem shows_vendor (vendor : Option Bytes) :
    ∃ texts, optionalText "vendor" (vendor.map (jsonEscape 768)) = 44 :: texts ∧
      ShowsMembers [(ascii "vendor", nullOr 768 vendor)] texts := by
  cases vendor with
  | none => exact ⟨_, rfl, shows_member (ascii "vendor") (by decide) shows_null⟩
  | some vendor =>
    exact ⟨_, rfl, shows_member (ascii "vendor") (by decide) (shows_escaped 768 vendor)⟩

theorem lineOf_hostDetail (resolveHostname resolveVendor : Bool) (d : HostDetail) :
    LineOf (Event.hostDetail resolveHostname resolveVendor d).json
      (Event.hostDetail resolveHostname resolveVendor d).line := by
  have hfirst := (shows_type (ascii "host_detail") (by decide)).append
    (shows_member (ascii "ip") (by decide) (shows_plain (plain_formatIp d.ip)))
  obtain ⟨nameText, hnameText, hname⟩ := shows_hostname d.hostname
  obtain ⟨macText, hmacText, hmac⟩ := shows_mac d.mac
  obtain ⟨vendorText, hvendorText, hvendor⟩ := shows_vendor d.vendor
  show LineOf _ (hostDetailLine resolveHostname resolveVendor d)
  unfold hostDetailLine
  rw [hnameText, hmacText, hvendorText]
  cases resolveHostname with
  | false =>
    cases resolveVendor with
    | false =>
      refine lineOf_members hfirst ?_
      simp only [member, List.append_assoc, List.cons_append, List.nil_append]
      rfl
    | true =>
      refine lineOf_members (hfirst.append (hmac.append hvendor)) ?_
      simp only [member, if_true, Bool.false_eq_true, if_false, List.append_assoc,
        List.cons_append, List.nil_append]
      rfl
  | true =>
    cases resolveVendor with
    | false =>
      refine lineOf_members (hfirst.append hname) ?_
      simp only [member, if_true, Bool.false_eq_true, if_false, List.append_assoc,
        List.cons_append, List.nil_append]
      rfl
    | true =>
      refine lineOf_members (hfirst.append (hname.append (hmac.append hvendor))) ?_
      simp only [member, if_true, List.append_assoc, List.cons_append, List.nil_append]
      rfl

/-- **Every line is one object.** -/
theorem Event.lineOf (e : Event) : LineOf e.json e.line := by
  cases e with
  | start cidr range => exact lineOf_start cidr range
  | progress event => exact lineOf_progress event
  | host ip source => exact lineOf_host ip source
  | hostDetail resolveHostname resolveVendor d =>
    exact lineOf_hostDetail resolveHostname resolveVendor d
  | summary hosts elapsedMs => exact lineOf_summary hosts elapsedMs
  | port n service => exact lineOf_port n service
  | portSummary openPorts elapsedMs => exact lineOf_portSummary openPorts elapsedMs
  | neighborsRequest id => exact lineOf_neighborsRequest id
  | error message => exact lineOf_error message

/-! ## Lines that are UTF-8 -/

/-- The texts of an event that are not the program's own, each with the room it gets. -/
def Event.texts : Event → List (Nat × Bytes)
  | .start cidr _ => [(128, cidr)]
  | .hostDetail resolveHostname resolveVendor d =>
    (if resolveHostname then d.hostname.toList.map (768, ·) else []) ++
      (if resolveVendor then d.vendor.toList.map (768, ·) else [])
  | .port _ service =>
    (service.toList.flatMap fun s =>
      s.name :: (s.iana.toList ++ (s.description.toList ++ s.category.toList))).map (766, ·)
  | .error message => [(512, message)]
  | _ => []

/-- What is kept of every text is UTF-8: no byte came that is not, and no character is torn. -/
def Event.Readable (e : Event) : Prop := ∀ text ∈ e.texts, IsUtf8 (kept text.1 text.2)

instance (e : Event) : Decidable e.Readable := List.decidableBAll _ _

@[simp] theorem isUtf8_formatIp (ip : Ip) : IsUtf8 (formatIp ip) := by
  have hdecimal : ∀ b : UInt8, IsUtf8 (decimal b) := fun b => isUtf8_writeNat b.toNat
  have hdot {rest : Bytes} : IsUtf8 rest → IsUtf8 (46 :: rest) := (isUtf8_cons_iff (by decide)).mpr
  exact isUtf8_append (hdecimal _) (hdot (isUtf8_append (hdecimal _)
    (hdot (isUtf8_append (hdecimal _) (hdot (hdecimal _))))))

theorem isUtf8_formatMac (mac : Mac) : IsUtf8 (formatMac mac) := by
  have hoctet : ∀ b : UInt8, IsUtf8 (hexOctet false b) := by
    have hall : ∀ b : UInt8, ((hexOctet false b).all fun b => b < 128) = true :=
      forall_byte (by decide +kernel)
    exact fun b => isUtf8_of_all (hall b)
  have hcolon {rest : Bytes} : IsUtf8 rest → IsUtf8 (58 :: rest) :=
    (isUtf8_cons_iff (by decide)).mpr
  exact isUtf8_append (hoctet _) (hcolon (isUtf8_append (hoctet _) (hcolon (isUtf8_append (hoctet _)
    (hcolon (isUtf8_append (hoctet _) (hcolon (isUtf8_append (hoctet _)
      (hcolon (hoctet _))))))))))

@[simp] theorem isText_nullOr_iff {size : Nat} {s : Option Bytes} :
    IsText (nullOr size s) ↔ ∀ text ∈ s, IsUtf8 (kept size text) := by
  cases s with
  | none => exact iff_of_true .null (by simp)
  | some s => simp [nullOr, isText_string_iff]

/-- **The object of an event is UTF-8 when its texts are.** -/
theorem Event.isText_json_iff (e : Event) : IsText e.json ↔ e.Readable := by
  unfold Event.Readable
  cases e with
  | start cidr range =>
    simp (disch := decide) [Event.json, Event.texts, isUtf8_ascii]
  | progress event =>
    have hphase : IsUtf8 (phaseName event.phase) := by
      cases event.phase <;> exact isUtf8_ascii (by decide)
    simp (disch := decide) [Event.json, Event.texts, isUtf8_ascii, hphase]
  | host ip source =>
    have hsource : IsUtf8 (sourceName source) := by
      cases source <;> exact isUtf8_ascii (by decide)
    simp (disch := decide) [Event.json, Event.texts, isUtf8_ascii, hsource]
  | hostDetail resolveHostname resolveVendor d =>
    have hmac : IsText ((d.mac.map fun mac => Json.string (formatMac mac)).getD .null) := by
      cases d.mac with
      | none => exact .null
      | some mac => exact .string (isUtf8_formatMac mac)
    cases resolveHostname <;> cases resolveVendor <;>
      simp (disch := decide) [Event.json, Event.texts, isUtf8_ascii, hmac, or_imp, forall_and]
  | summary hosts elapsedMs =>
    simp (disch := decide) [Event.json, Event.texts, isUtf8_ascii]
  | port n service =>
    cases service with
    | none =>
      simp (disch := decide) [Event.json, Event.texts, isUtf8_ascii]
    | some service =>
      simp (disch := decide) [Event.json, Event.texts, isUtf8_ascii, or_imp, forall_and]
  | portSummary openPorts elapsedMs =>
    have hports : IsText (.array (openPorts.map fun n : Nat => Json.number n)) := by
      refine .array fun v hv => ?_
      obtain ⟨n, _, rfl⟩ := List.mem_map.mp hv
      exact .number n
    simp (disch := decide) [Event.json, Event.texts, isUtf8_ascii, hports]
  | neighborsRequest id =>
    simp (disch := decide) [Event.json, Event.texts, isUtf8_ascii]
  | error message =>
    simp (disch := decide) [Event.json, Event.texts, isUtf8_ascii]

/-! ## A consumer -/

def member? (name : String) : Infra.Json → Option Infra.Json
  | .object ms => ms.lookup (ascii name)
  | _ => none

def text? (name : String) (v : Infra.Json) : Option Bytes :=
  match member? name v with
  | some (.string s) => some s
  | _ => none

/-- A member that may be null. -/
def nullable? (name : String) (v : Infra.Json) : Option (Option Bytes) :=
  match member? name v with
  | some (.string s) => some (some s)
  | some .null => some none
  | _ => none

def count? (name : String) (v : Infra.Json) : Option Nat :=
  match member? name v with
  | some (.number (.ofNat n)) => some n
  | _ => none

def int? (name : String) (v : Infra.Json) : Option Int :=
  match member? name v with
  | some (.number n) => some n
  | _ => none

def ip? (name : String) (v : Infra.Json) : Option Ip := (text? name v).bind ipStringToBytes

def portNumber? : Infra.Json → Option Nat
  | .number (.ofNat n) => some n
  | _ => none

def phase? (name : Bytes) : Option Phase :=
  [Phase.ports, .sweep, .arp, .identify].find? fun phase => phaseName phase == name

def source? (name : Bytes) : Option HostSource :=
  [HostSource.tcp, .arp, .ping, .mdns, .ssdp].find? fun source => sourceName source == name

/-- A MAC address that may be null. -/
def mac? (v : Infra.Json) : Option (Option Mac) := do
  match ← nullable? "mac" v with
  | none => some none
  | some text => (parseMac text).map some

def startOf? (v : Infra.Json) : Option Event := do
  some (.start (← text? "cidr" v) { start := ← ip? "first" v, «end» := ← ip? "last" v })

def progressOf? (v : Infra.Json) : Option Event := do
  let phase ← (text? "phase" v).bind phase?
  some (.progress { phase, done := ← count? "done" v, total := ← count? "total" v })

def hostOf? (v : Infra.Json) : Option Event := do
  some (.host (← ip? "ip" v) (← (text? "source" v).bind source?))

/-- What was not asked for is not there. -/
def hostDetailOf? (v : Infra.Json) : Option Event := do
  let ip ← ip? "ip" v
  let resolveHostname := (member? "hostname" v).isSome
  let resolveVendor := (member? "mac" v).isSome
  let hostname ← if resolveHostname then nullable? "hostname" v else some none
  let mac ← if resolveVendor then mac? v else some none
  let vendor ← if resolveVendor then nullable? "vendor" v else some none
  some (.hostDetail resolveHostname resolveVendor { ip, hostname, mac, vendor })

/-- Both kinds of scan end in a `summary`. -/
def summaryOf? (v : Infra.Json) : Option Event := do
  let elapsedMs ← int? "elapsed_ms" v
  match member? "open_ports" v with
  | some (.array ports) => some (.portSummary (← ports.mapM portNumber?) elapsedMs)
  | _ => some (.summary (← count? "hosts" v) elapsedMs)

def portOf? (v : Infra.Json) : Option Event := do
  let port ← count? "port" v
  match ← nullable? "service" v with
  | none => some (.port port none)
  | some name =>
    some (.port port (some {
      name
      iana := ← nullable? "iana" v
      description := ← nullable? "description" v
      category := ← nullable? "category" v }))

/-- The event that an object tells. -/
def Event.ofJson? (v : Infra.Json) : Option Event := do
  let type ← text? "type" v
  if type = ascii "start" then startOf? v
  else if type = ascii "progress" then progressOf? v
  else if type = ascii "host" then hostOf? v
  else if type = ascii "host_detail" then hostDetailOf? v
  else if type = ascii "summary" then summaryOf? v
  else if type = ascii "port" then portOf? v
  else if type = ascii "neighbors_request" then (count? "id" v).map .neighborsRequest
  else if type = ascii "error" then (text? "message" v).map .error
  else none

/-- The event with its texts cut to what their buffers hold, and without the fields nobody asked
for. -/
def Event.cut : Event → Event
  | .start cidr range => .start (kept 128 cidr) range
  | .hostDetail resolveHostname resolveVendor d =>
    .hostDetail resolveHostname resolveVendor {
      ip := d.ip
      hostname := if resolveHostname then d.hostname.map (kept 768) else none
      mac := if resolveVendor then d.mac else none
      vendor := if resolveVendor then d.vendor.map (kept 768) else none }
  | .port n service =>
    .port n (service.map fun s => {
      name := kept 766 s.name
      iana := s.iana.map (kept 766)
      description := s.description.map (kept 766)
      category := s.category.map (kept 766) })
  | .error message => .error (kept 512 message)
  | e => e

theorem nullable?_nullOr {name : String} {v : Infra.Json} {size : Nat} {s : Option Bytes}
    (h : member? name v = some (nullOr size s)) :
    nullable? name v = some (s.map (kept size)) := by
  rw [nullable?, h]
  cases s <;> rfl

theorem ip?_formatIp {name : String} {v : Infra.Json} {ip : Ip}
    (h : member? name v = some (.string (formatIp ip))) : ip? name v = some ip := by
  rw [ip?, text?, h]
  exact ipStringToBytes_formatIp ip

theorem ofJson?_start (cidr : Bytes) (range : IpRange) :
    Event.ofJson? (Event.start cidr range).json = some (Event.start cidr range).cut := by
  have hof : Event.ofJson? (Event.start cidr range).json =
      startOf? (Event.start cidr range).json := rfl
  have hfirst : ip? "first" (Event.start cidr range).json = some range.start := ip?_formatIp rfl
  have hlast : ip? "last" (Event.start cidr range).json = some range.end := ip?_formatIp rfl
  rw [hof, startOf?, hfirst, hlast]
  rfl

theorem ofJson?_progress (event : ProgressEvent) :
    Event.ofJson? (Event.progress event).json = some (Event.progress event).cut := by
  obtain ⟨phase, done, total⟩ := event
  cases phase <;> rfl

theorem ofJson?_host (ip : Ip) (source : HostSource) :
    Event.ofJson? (Event.host ip source).json = some (Event.host ip source).cut := by
  have hof : Event.ofJson? (Event.host ip source).json = hostOf? (Event.host ip source).json := rfl
  have hip : ip? "ip" (Event.host ip source).json = some ip := ip?_formatIp rfl
  rw [hof, hostOf?, hip]
  cases source <;> rfl

theorem ofJson?_port (n : Nat) (service : Option Service) :
    Event.ofJson? (Event.port n service).json = some (Event.port n service).cut := by
  cases service with
  | none => rfl
  | some s =>
    obtain ⟨name, iana, description, category⟩ := s
    cases iana <;> cases description <;> cases category <;> rfl

theorem ofJson?_portSummary (openPorts : List Nat) (elapsedMs : Int) :
    Event.ofJson? (Event.portSummary openPorts elapsedMs).json =
      some (Event.portSummary openPorts elapsedMs).cut := by
  have hports : (openPorts.map fun n : Nat => Json.number n).mapM portNumber? = some openPorts := by
    induction openPorts with
    | nil => rfl
    | cons port ports ih =>
      rw [List.map_cons, List.mapM_cons, ih]
      rfl
  have hof : Event.ofJson? (Event.portSummary openPorts elapsedMs).json =
      ((openPorts.map fun n : Nat => Json.number n).mapM portNumber?).bind
        fun ports => some (.portSummary ports elapsedMs) := rfl
  rw [hof, hports]
  rfl

/-- A MAC address is read back. -/
theorem mac?_formatMac {v : Infra.Json} {mac : Option Mac}
    (h : member? "mac" v =
      some ((mac.map fun mac => Json.string (formatMac mac)).getD .null)) : mac? v = some mac := by
  have hparse : ∀ mac, parseMac (formatMac mac) = some mac :=
    fun mac => parseMac_formatMacWith (by decide) false mac
  unfold mac? nullable?
  rw [h]
  cases mac with
  | none => rfl
  | some mac =>
    show (parseMac (formatMac mac)).map some = _
    rw [hparse]
    rfl

theorem ofJson?_hostDetail (resolveHostname resolveVendor : Bool) (d : HostDetail) :
    Event.ofJson? (Event.hostDetail resolveHostname resolveVendor d).json =
      some (Event.hostDetail resolveHostname resolveVendor d).cut := by
  have hof : ∀ rh rv, Event.ofJson? (Event.hostDetail rh rv d).json =
      hostDetailOf? (Event.hostDetail rh rv d).json := by
    intro rh rv
    cases rh <;> cases rv <;> rfl
  have hip : ∀ rh rv, ip? "ip" (Event.hostDetail rh rv d).json = some d.ip := by
    intro rh rv
    cases rh <;> cases rv <;> exact ip?_formatIp rfl
  have hname : ∀ rv, nullable? "hostname" (Event.hostDetail true rv d).json =
      some (d.hostname.map (kept 768)) := by
    intro rv
    cases rv <;> exact nullable?_nullOr rfl
  have hmac : ∀ rh, mac? (Event.hostDetail rh true d).json = some d.mac := by
    intro rh
    cases rh <;> exact mac?_formatMac rfl
  have hvendor : ∀ rh, nullable? "vendor" (Event.hostDetail rh true d).json =
      some (d.vendor.map (kept 768)) := by
    intro rh
    cases rh <;> exact nullable?_nullOr rfl
  have hmacThere : ∀ rh, (member? "mac" (Event.hostDetail rh true d).json).isSome = true := by
    intro rh
    cases rh <;> rfl
  rw [hof, hostDetailOf?, hip]
  cases resolveHostname with
  | false =>
    cases resolveVendor with
    | false => rfl
    | true =>
      have hnone : (member? "hostname" (Event.hostDetail false true d).json).isSome = false := rfl
      simp only [Option.bind_eq_bind, Option.bind_some, hnone, hmacThere, hmac, hvendor, if_true,
        Bool.false_eq_true, if_false]
      rfl
  | true =>
    cases resolveVendor with
    | false =>
      have hthere : (member? "hostname" (Event.hostDetail true false d).json).isSome = true := rfl
      have hnone : (member? "mac" (Event.hostDetail true false d).json).isSome = false := rfl
      simp only [Option.bind_eq_bind, Option.bind_some, hthere, hnone, hname, if_true,
        Bool.false_eq_true, if_false]
      rfl
    | true =>
      have hthere : (member? "hostname" (Event.hostDetail true true d).json).isSome = true := rfl
      simp only [Option.bind_eq_bind, Option.bind_some, hthere, hmacThere, hname, hmac, hvendor,
        if_true]
      rfl

/-- **The object tells the event**, as far as its texts fit. -/
theorem Event.ofJson?_json (e : Event) : Event.ofJson? e.json = some e.cut := by
  cases e with
  | start cidr range => exact ofJson?_start cidr range
  | progress event => exact ofJson?_progress event
  | host ip source => exact ofJson?_host ip source
  | hostDetail resolveHostname resolveVendor d =>
    exact ofJson?_hostDetail resolveHostname resolveVendor d
  | port n service => exact ofJson?_port n service
  | portSummary openPorts elapsedMs => exact ofJson?_portSummary openPorts elapsedMs
  | summary | neighborsRequest | error => rfl

/-! ## The whole output -/

/-- What is printed, line by line. -/
def output (events : List Event) : Bytes := events.flatMap Event.line

/-- The lines of an output, without their ends. -/
def outputLines (bytes : Bytes) : List Bytes := (bytes.splitOn 10).dropLast

/-- What a consumer makes of an output, byte for byte: the event of each line, or nothing for a
line that is none of these objects. -/
def consume (bytes : Bytes) : List (Option Event) :=
  (outputLines bytes).map fun line => (Json.parse? line).bind Event.ofJson?

/-- What a consumer makes of it that takes JSON in UTF-8 only, as every other program does. -/
def consumeUtf8 (bytes : Bytes) : List (Option Event) :=
  (outputLines bytes).map fun line => (Json.parseUtf8? line).bind Event.ofJson?

/-- What it is told of an event. -/
def Event.told (e : Event) : Option Event := if e.Readable then some e.cut else none

theorem splitOn_line {text : Bytes} (h : Printable text) (rest : Bytes) :
    (text ++ 10 :: rest).splitOn 10 = text :: rest.splitOn 10 := by
  induction text with
  | nil => rw [List.nil_append, splitOn_cons, if_pos (by decide)]
  | cons b text ih =>
    have hb : b ≠ 10 := by
      rintro rfl
      exact absurd (h 10 List.mem_cons_self).1 (by decide)
    have htext : Printable text := fun c hc => h c (List.mem_cons_of_mem b hc)
    rw [List.cons_append, splitOn_cons, ih htext, if_neg hb]
    rfl

/-- The lines of an output are the objects of its events. -/
theorem outputLines_output (events : List Event) :
    List.Forall₂ (fun text e => Shows (Event.json e) text) (outputLines (output events))
      events := by
  have hsplit : ∃ texts : List Bytes, (output events).splitOn 10 = texts ++ [[]] ∧
      List.Forall₂ (fun text e => Shows (Event.json e) text) texts events := by
    induction events with
    | nil => exact ⟨[], rfl, .nil⟩
    | cons e events ih =>
      obtain ⟨texts, hrest, hshow⟩ := ih
      obtain ⟨text, hline, hshows⟩ := e.lineOf
      refine ⟨text :: texts, ?_, .cons hshows hshow⟩
      rw [output, List.flatMap_cons, hline, List.append_assoc]
      show (text ++ 10 :: output events).splitOn 10 = _
      rw [splitOn_line hshows.printable, hrest]
      rfl
  obtain ⟨texts, hsplit, hshow⟩ := hsplit
  rw [outputLines, hsplit, List.dropLast_concat]
  exact hshow

theorem printable_lines {lines : List Bytes} {events : List Event}
    (h : List.Forall₂ (fun text e => Shows (Event.json e) text) lines events) :
    ∀ line ∈ lines, Printable line := by
  induction h with
  | nil => exact fun line hline => (by cases hline)
  | cons hshows _ ih => exact List.forall_mem_cons.mpr ⟨hshows.printable, ih⟩

theorem Shows.parse? {v : Infra.Json} {text : Bytes} (h : Shows v text) :
    Json.parse? text = some v := by
  have hblank : ∀ b ∈ ([] : Bytes), isSpace b = true := fun b hb => (by cases hb)
  have hparse := h.reads.parse? hblank
  rwa [List.append_nil] at hparse

/-- **A consumer reads the events of an output.** -/
theorem consume_output (events : List Event) :
    consume (output events) = events.map fun e => some e.cut := by
  have hlines := outputLines_output events
  unfold consume
  generalize outputLines (output events) = lines at hlines
  induction hlines with
  | nil => rfl
  | @cons text e lines events hshows _ ih =>
    rw [List.map_cons, List.map_cons, ih, hshows.parse?]
    exact congrArg (· :: _) (Event.ofJson?_json e)

/-- **In UTF-8 it reads those whose texts are.** -/
theorem consumeUtf8_output (events : List Event) :
    consumeUtf8 (output events) = events.map Event.told := by
  have hlines := outputLines_output events
  unfold consumeUtf8
  generalize outputLines (output events) = lines at hlines
  induction hlines with
  | nil => rfl
  | @cons text e lines events hshows _ ih =>
    have hutf8 : IsUtf8 text ↔ e.Readable := hshows.utf8.trans e.isText_json_iff
    rw [List.map_cons, List.map_cons, ih, Event.told, parseUtf8?]
    by_cases hreadable : e.Readable
    · rw [if_pos (hutf8.mpr hreadable), if_pos hreadable, hshows.parse?]
      exact congrArg (· :: _) (Event.ofJson?_json e)
    · rw [if_neg (mt hutf8.mp hreadable), if_neg hreadable]
      rfl

/--
**What a scan tells with `--json` is what a consumer reads.** For every sequence of events, with
whatever bytes came off the network or out of a file: the output splits into one line for each
event, no line has a control byte in it, and each line whose texts are UTF-8 where their buffer ends
is one JSON object, which gives the event back, its texts cut at most there. A line with a text that
is not is no JSON, and is refused.
-/
theorem json_lines_read_back (events : List Event) :
    (outputLines (output events)).length = events.length ∧
      (∀ line ∈ outputLines (output events), Printable line) ∧
      consumeUtf8 (output events) =
        events.map fun e => if e.Readable then some e.cut else none :=
  ⟨(outputLines_output events).length_eq, printable_lines (outputLines_output events),
    consumeUtf8_output events⟩

/-- A message with an escape in it that is one byte too long, and one whose last character is
torn. -/
example : consumeUtf8 (output [.error (34 :: List.replicate 511 97),
    .error (utf8 (List.replicate 511 'a' ++ ['é']))]) =
      [some (.error (34 :: List.replicate 510 97)), none] := by
  have hcut : Event.Readable (.error (34 :: List.replicate 511 97)) := by
    rw [Event.Readable, Event.texts, List.forall_mem_singleton]
    exact isUtf8_of_all (by decide +kernel)
  have htorn : ¬Event.Readable (.error (utf8 (List.replicate 511 'a' ++ ['é']))) := by
    rw [Event.Readable, Event.texts, List.forall_mem_singleton, isUtf8_kept_iff]
    decide +kernel
  rw [consumeUtf8_output, List.map_cons, List.map_singleton, Event.told, if_pos hcut, Event.told,
    if_neg htorn]
  decide +kernel

end NetScanner.Json
