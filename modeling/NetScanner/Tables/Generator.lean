import NetScanner.Infra.Dict
import NetScanner.Tables.PortRoundTrip
import Mathlib.Data.List.Sort

/-!
# What the port table is made from

`parse_iana`, `parse_overlay`, `merge` and `parse_counts` of `scripts/generate_ports.py`: the
registry, the overlay and the counts, and what the script makes of them.

`sources_told` follows them through the packed file into `src/core/ports.zig`: what a lookup says of
a port, and in which order a scan tries the ranked ones.

The rows are those of `csv.DictReader`, and the report is what `json.load` returns. What Python says
of a digit of another script is a parameter (`Python`).
-/

namespace NetScanner.Ports

open Infra

/-! ## Texts -/

/-- `str.isspace`, of one character. -/
def isSpace (c : Char) : Bool :=
  let n := c.toNat
  (9 ≤ n && n ≤ 13) || (28 ≤ n && n ≤ 32) || (0x2000 ≤ n && n ≤ 0x200A) ||
    [0x85, 0xA0, 0x1680, 0x2028, 0x2029, 0x202F, 0x205F, 0x3000].contains n

/-- `str.strip`. -/
def strip (text : List Char) : List Char :=
  ((text.dropWhile isSpace).reverse.dropWhile isSpace).reverse

/-- `" ".join(text.split())`. -/
def joinWords (text : List Char) : List Char :=
  [' '].intercalate ((text.splitOnP isSpace).filter (· ≠ []))

def noteText : List Char :=
  "IANA assigned this well-formed service name as a replacement for \"".toList

/-- `WELL_FORMED_NOTE` matches at the start of the text; what is behind it. -/
def behindNote (text : List Char) : Option (List Char) :=
  let body := text.dropWhile isSpace
  if noteText.isPrefixOf body then
    match (body.drop noteText.length).dropWhile fun c => c.toNat ≠ 34 with
    | [] => none
    | _ :: rest => some (if rest.head? = some '.' then rest.tail else rest)
  else none

/-- `WELL_FORMED_NOTE.sub("", text)`, in at most `fuel` characters. -/
def removeNotes : Nat → List Char → List Char
  | 0, text => text
  | _, [] => []
  | fuel + 1, c :: rest =>
    match behindNote (c :: rest) with
    | some behind => removeNotes fuel behind
    | none => c :: removeNotes fuel rest

/-- `clean_text`: collapse whitespace and drop noise. -/
def cleanText (text : List Char) : List Char :=
  joinWords ((removeNotes text.length text).filter fun c => c.toNat ≠ 0xFFFD)

/-! ## The registry -/

structure Row where
  service : Option (List Char)
  number : Option (List Char)
  transport : Option (List Char)
  description : Option (List Char)

/-- A name and a description. -/
abbrev Assignment := List Char × List Char

abbrev Registry := Dict Nat (List Assignment)

/-- One bucket of a report. -/
structure Bucket where
  isLocked : Bool := false
  key : Option (List Char)
  /-- None when there is no number. -/
  count : Option Int

/-- What Python's texts and values have that is not written out here. -/
structure Python where
  /-- `int`, none when it raises. -/
  int : List Char → Option Int
  isdigit : List Char → Bool
  reprText : Option (List Char) → List Char
  reprBucket : Bucket → List Char

section Sources

variable (py : Python)

/-- `range(start, stop)`. -/
def pyRange (start stop : Int) : List Int :=
  (List.range (stop - start).toNat).map fun (i : Nat) => start + (i : Int)

def Row.assignment (row : Row) : Assignment :=
  (strip (row.service.getD []), cleanText (row.description.getD []))

/-- The ports of a row; none when a number cannot be read. -/
def Row.ports (row : Row) : Option (List Nat) :=
  let number := strip (row.number.getD [])
  if row.transport ≠ some "tcp".toList ∨ row.assignment.1 = [] ∨ number = [] then some []
  else do
    let first := number.takeWhile (· ≠ '-')
    let last := (number.dropWhile (· ≠ '-')).drop 1
    let start ← py.int first
    let stop ← py.int (if last = [] then first else last)
    return ((pyRange start (stop + 1)).filter fun port => 1 ≤ port ∧ port ≤ 65535).map Int.toNat

/-- `ports.setdefault(port, []).append(assignment)`. -/
def appendTo (assignment : Assignment) (ports : Registry) (port : Nat) : Registry :=
  ports.insert port ((ports.get port).getD [] ++ [assignment])

def parseRow (ports : Registry) (row : Row) : Option Registry :=
  (row.ports py).map fun numbers => numbers.foldl (appendTo row.assignment) ports

/-- `parse_iana`, without the newest date, which is only printed. -/
def parseIana (rows : List Row) : Option Registry := rows.foldlM (parseRow py) {}

/-! ## The overlay -/

structure Curated where
  label : List Char := []
  category : List Char := []
  iana : List Char := []
  description : List Char := []

abbrev Overlay := Dict Nat Curated

/-- How the script ends when it does not like its sources. -/
inductive Failure where
  | overlay (lineno : Nat) (msg : List Char)
  | counts (msg : List Char)
  /-- An exception nobody catches. -/
  | raised

def categories : List (List Char) :=
  ["database", "directory", "dns", "file", "home", "mail", "media", "messaging", "network",
    "printing", "proxy", "remote", "voip", "vpn", "web"].map String.toList

def maxLabelLen : Nat := 20

def commas (texts : List (List Char)) : List Char := ", ".toList.intercalate texts

def decimal (n : Nat) : List Char := (toString n).toList

/-- What is wrong with a line of an overlay, if anything is. -/
def complaint (iana : Registry) (overlay : Overlay) (port : Nat) (c : Curated) :
    Option (List Char) :=
  let names := ((iana.get port).getD []).map Prod.fst
  if (overlay.get port).isSome then some ("duplicate port ".toList ++ decimal port)
  else if maxLabelLen < c.label.length then
    some ("label '".toList ++ c.label ++ "' is longer than ".toList ++ decimal maxLabelLen ++
      " characters".toList)
  else if c.category ≠ [] ∧ c.category ∉ categories then
    some ("unknown category '".toList ++ c.category ++ "' (known: ".toList ++ commas categories ++
      ")".toList)
  else if c.iana ≠ [] ∧ c.iana ∉ names then
    some ("'".toList ++ c.iana ++ "' is not an IANA TCP name for port ".toList ++ decimal port ++
      " (IANA has: ".toList ++ (if names = [] then "none".toList else commas names) ++ ")".toList)
  else if c.label = [] ∧ names = [] then
    some ("port ".toList ++ decimal port ++ " is not IANA-assigned, so it needs a label".toList)
  else none

/-- `raw.split("#", 1)[0].strip()`. -/
def lineOf (raw : List Char) : List Char := strip (raw.takeWhile (· ≠ '#'))

def parseOverlayLine (iana : Registry) (overlay : Overlay) (numbered : List Char × Nat) :
    Except Failure Overlay :=
  let fail msg := .error (.overlay numbered.2 msg)
  if lineOf numbered.1 = [] then .ok overlay
  else
    match ((lineOf numbered.1).splitOn '|').map strip with
    | [portStr, label, category, ianaName, description] =>
      let invalid := fail ("invalid port '".toList ++ portStr ++ "'".toList)
      if py.isdigit portStr = false then invalid
      else
        match py.int portStr with
        | none => .error .raised
        | some port =>
          if ¬(1 ≤ port ∧ port ≤ 65535) then invalid
          else
            let c : Curated := { label, category, iana := ianaName, description }
            match complaint iana overlay port.toNat c with
            | some msg => fail msg
            | none => .ok (overlay.insert port.toNat c)
    | fields => fail ("expected 5 '|'-separated fields, got ".toList ++ decimal fields.length)

/-- `parse_overlay`, of the lines of the file. -/
def parseOverlay (iana : Registry) (lines : List (List Char)) : Except Failure Overlay :=
  (lines.zipIdx 1).foldlM (parseOverlayLine py iana) {}

/-! ## The table -/

/-- What the table says of a port with these names, the curated one picking among the others. -/
def fieldsFrom (assignments : List Assignment) (curated : Option Curated) : Fields :=
  let c := curated.getD {}
  let assignment := (assignments.find? fun a => a.1 = c.iana).getD (assignments.headD ([], []))
  { label := c.label
    iana := assignment.1
    description := if c.description ≠ [] then c.description else assignment.2
    category := c.category }

def fieldsOf (iana : Registry) (overlay : Overlay) (port : Nat) : Fields :=
  fieldsFrom ((iana.get port).getD []) (overlay.get port)

/-- `sorted(set(iana) | set(overlay))`. -/
def tablePorts (iana : Registry) (overlay : Overlay) : List Nat :=
  (iana.keys ++ overlay.keys).dedup.insertionSort (· ≤ ·)

def merge (iana : Registry) (overlay : Overlay) : List (Nat × Fields) :=
  (tablePorts iana overlay).map fun port => (port, fieldsOf iana overlay port)

/-! ## The counts -/

structure CountsReport where
  field : Option (List Char)
  query : Option (List Char)
  buckets : List Bucket

abbrev Counts := Dict Nat Int

def countBucket (counts : Counts) (bucket : Bucket) : Except Failure Counts :=
  let key := bucket.key.getD []
  let invalid := .error (.counts ("invalid bucket ".toList ++ py.reprBucket bucket))
  if bucket.isLocked then
    .error (.counts ("port ".toList ++ bucket.key.getD "None".toList ++
      " is locked in this export; its count is missing".toList))
  else if py.isdigit key = false then invalid
  else
    match py.int key, bucket.count with
    | none, _ => .error .raised
    | some _, none => invalid
    | some port, some count =>
      if ¬(0 ≤ port ∧ port ≤ 65535) ∨ count ≤ 0 then invalid
      else if (counts.get port.toNat).isSome then
        .error (.counts ("duplicate port ".toList ++ decimal port.toNat))
      -- port 0 cannot be connected to
      else .ok (if port.toNat ≠ 0 then counts.insert port.toNat count else counts)

/-- The counts of `parse_counts`. -/
def readCounts (report : CountsReport) : Except Failure Counts :=
  if report.field ≠ some "host.services.port".toList then
    .error (.counts ("expected a breakdown by host.services.port, got ".toList ++
      py.reprText report.field))
  else if ¬"TCP".toList <:+: report.query.getD [] then
    .error (.counts ("expected a TCP-only query, got ".toList ++ py.reprText report.query))
  else report.buckets.foldlM (countBucket py) {}

/-- The order of `(-counts[port], port)`: higher count first, ties in port order. -/
def Before (count : Nat → Int) (a b : Nat) : Prop :=
  count b < count a ∨ count a = count b ∧ a ≤ b

instance (count : Nat → Int) : DecidableRel (Before count) :=
  fun _ _ => inferInstanceAs (Decidable (_ ∨ _))

/-- The ports `parse_counts` ranks: those of the table with a count. -/
def named (counts : Counts) (ports : List Nat) : List Nat :=
  (counts.keys.insertionSort (Before fun port => (counts.get port).getD 0)).filter (· ∈ ports)

/-! ## The script -/

structure Sources where
  rows : List Row
  lines : List (List Char)
  report : CountsReport

structure Read where
  iana : Registry
  overlay : Overlay
  counts : Counts

/-- `main`, as far as it reads. -/
def readSources (sources : Sources) : Except Failure Read := do
  let iana ← (parseIana py sources.rows).elim (.error .raised) .ok
  let overlay ← parseOverlay py iana sources.lines
  let counts ← readCounts py sources.report
  return { iana, overlay, counts }

/-- `{port: rank for rank, port in enumerate(named, 1)}`. -/
def Read.ranks (read : Read) (port : Nat) : Option Nat :=
  ((named read.counts (tablePorts read.iana read.overlay)).zipIdx 1).lookup port

/-- `main`, as far as it packs. -/
def Read.pack (read : Read) : Option Bytes :=
  Ports.pack (merge read.iana read.overlay) read.ranks

end Sources

/-! ## What the registry says -/

section Registry

variable {py : Python}

/-- The names and descriptions of a port, in the order of the registry. -/
def assignmentsOf (py : Python) (rows : List Row) (port : Nat) : List Assignment :=
  rows.flatMap fun row => if port ∈ (row.ports py).getD [] then [row.assignment] else []

theorem nodup_pyRange (start stop : Int) : (pyRange start stop).Nodup := by
  refine List.Nodup.map ?_ List.nodup_range
  intro i j h
  have h : start + (i : Int) = start + (j : Int) := h
  omega

/-- A row is about real ports, each once, and has a name for them. -/
theorem Row.ports_spec {row : Row} {ports : List Nat} (h : row.ports py = some ports) :
    (∀ port ∈ ports, 1 ≤ port ∧ port ≤ 65535) ∧ ports.Nodup ∧
      (ports ≠ [] → row.assignment.1 ≠ []) := by
  unfold Row.ports at h
  dsimp only at h
  split at h
  · cases h
    exact ⟨by simp, List.nodup_nil, fun hne => absurd rfl hne⟩
  · next hfull =>
    obtain ⟨start, _, h⟩ := Option.bind_eq_some_iff.mp h
    obtain ⟨stop, _, h⟩ := Option.bind_eq_some_iff.mp h
    cases h
    refine ⟨?_, ?_, fun _ hname => hfull (.inr (.inl hname))⟩
    · intro port hport
      obtain ⟨p, hp, rfl⟩ := List.mem_map.mp hport
      have hrange := (List.mem_filter.mp hp).2
      rw [decide_eq_true_eq] at hrange
      omega
    · refine List.Nodup.map_on ?_ ((nodup_pyRange _ _).filter _)
      intro p hp q hq heq
      have hp := (List.mem_filter.mp hp).2
      have hq := (List.mem_filter.mp hq).2
      rw [decide_eq_true_eq] at hp hq
      omega

theorem get_foldl_appendTo {assignment : Assignment} {numbers : List Nat} (hnodup : numbers.Nodup)
    (ports : Registry) (port : Nat) :
    (numbers.foldl (appendTo assignment) ports).get port =
      if port ∈ numbers then some ((ports.get port).getD [] ++ [assignment])
      else ports.get port := by
  induction numbers generalizing ports with
  | nil => simp
  | cons number rest ih =>
    obtain ⟨hnew, hrest⟩ := List.nodup_cons.mp hnodup
    rw [List.foldl_cons, ih hrest, appendTo, Dict.get_insert]
    by_cases hport : port = number
    · subst hport
      simp [hnew]
    · simp [hport]

/-- **What the registry has of a port is what its rows say of it, in their order.** -/
theorem get_parseIana {rows : List Row} {ports iana : Registry}
    (h : rows.foldlM (parseRow py) ports = some iana) (port : Nat) :
    (iana.get port).getD [] = (ports.get port).getD [] ++ assignmentsOf py rows port ∧
      (port ∈ iana.keys ↔ port ∈ ports.keys ∨ assignmentsOf py rows port ≠ []) := by
  induction rows generalizing ports with
  | nil =>
    cases h
    simp [assignmentsOf]
  | cons row rest ih =>
    rw [List.foldlM_cons] at h
    obtain ⟨ports', hrow, h⟩ := Option.bind_eq_some_iff.mp h
    obtain ⟨numbers, hnumbers, rfl⟩ := Option.map_eq_some_iff.mp hrow
    obtain ⟨_, hnodup, _⟩ := Row.ports_spec hnumbers
    obtain ⟨hget, hkeys⟩ := ih h
    have hmore : assignmentsOf py (row :: rest) port =
        (if port ∈ numbers then [row.assignment] else []) ++ assignmentsOf py rest port := by
      rw [assignmentsOf, List.flatMap_cons, hnumbers, Option.getD_some]
      rfl
    have hold : (numbers.foldl (appendTo row.assignment) ports).get port = _ :=
      get_foldl_appendTo hnodup ports port
    have hkeys' : port ∈ (numbers.foldl (appendTo row.assignment) ports).keys ↔
        port ∈ numbers ∨ port ∈ ports.keys := by
      rw [← not_iff_not, ← Dict.get_eq_none_iff, hold, not_or, ← Dict.get_eq_none_iff]
      split
      · next hmem => simp [hmem]
      · next hmem => simp [hmem]
    rw [hget, hkeys, hkeys', hold, hmore]
    by_cases hmem : port ∈ numbers
    · simp [hmem]
    · simp [hmem]

end Registry

/-! ## What the overlay and the counts say -/

section Dictionaries

variable {py : Python}

/-- What a line of the overlay says; none for a line that is no entry. -/
def curatedIn (py : Python) (raw : List Char) : Option (Nat × Curated) :=
  match ((lineOf raw).splitOn '|').map strip with
  | [portStr, label, category, ianaName, description] =>
    (py.int portStr).map fun port =>
      (port.toNat, { label, category, iana := ianaName, description })
  | _ => none

/-- What the overlay says of a port. -/
def curatedOf (py : Python) (lines : List (List Char)) (port : Nat) : Option Curated :=
  (lines.filterMap (curatedIn py)).lookup port

/-- A curated port that the registry or the overlay names. -/
structure Nameable (iana : Registry) (port : Nat) (c : Curated) : Prop where
  port_range : 1 ≤ port ∧ port ≤ 65535
  named : c.label ≠ [] ∨ (iana.get port).getD [] ≠ []

theorem complaint_eq_none {iana : Registry} {overlay : Overlay} {port : Nat} {c : Curated}
    (h : complaint iana overlay port c = none) :
    overlay.get port = none ∧ (c.label ≠ [] ∨ (iana.get port).getD [] ≠ []) := by
  unfold complaint at h
  dsimp only at h
  split at h
  · cases h
  · next hnew =>
    refine ⟨by simpa using hnew, ?_⟩
    split at h
    · cases h
    split at h
    · cases h
    split at h
    · cases h
    split at h
    · cases h
    · next hnamed =>
      rw [List.map_eq_nil_iff, not_and_or] at hnamed
      exact hnamed

theorem writes_parseOverlayLine (iana : Registry) :
    Dict.Writes (parseOverlayLine py iana) (fun numbered => curatedIn py numbered.1)
      (Nameable iana) := by
  rintro overlay ⟨raw, lineno⟩ overlay' h
  unfold parseOverlayLine at h
  dsimp only at h
  split at h
  · next hblank =>
    cases h
    refine .inl ⟨?_, rfl⟩
    show curatedIn py raw = none
    rw [curatedIn, hblank]
    rfl
  · split at h
    · next portStr label category ianaName description hfields =>
      split at h
      · cases h
      split at h
      · cases h
      · next port hint =>
        split at h
        · cases h
        · next hrange =>
          split at h
          · cases h
          · next hright =>
            cases h
            rw [not_not] at hrange
            obtain ⟨hnew, hnamed⟩ := complaint_eq_none hright
            refine .inr ⟨port.toNat, _, ?_, hnew, ⟨by omega, hnamed⟩, rfl⟩
            show curatedIn py raw = _
            simp only [curatedIn, hfields, hint, Option.map_some]
    · cases h

/-- **The overlay has of a port what its line says.** -/
theorem get_parseOverlay {iana : Registry} {lines : List (List Char)} {overlay : Overlay}
    (h : parseOverlay py iana lines = .ok overlay) :
    (∀ port, overlay.get port = curatedOf py lines port) ∧
      ∀ item ∈ lines.filterMap (curatedIn py), Nameable iana item.1 item.2 := by
  have htold : (lines.zipIdx 1).filterMap (fun numbered => curatedIn py numbered.1) =
      lines.filterMap (curatedIn py) := by
    rw [← List.zipIdx_map_fst 1 lines, List.filterMap_map, List.zipIdx_map_fst]
    rfl
  have hread := Dict.get_foldlM (writes_parseOverlayLine iana) h
  rw [htold] at hread
  exact ⟨fun port => (hread.1 port).trans Option.none_or, hread.2⟩

/-- What a bucket counts; none for port 0. -/
def countedIn (py : Python) (bucket : Bucket) : Option (Nat × Int) :=
  match py.int (bucket.key.getD []), bucket.count with
  | some port, some count => if port.toNat = 0 then none else some (port.toNat, count)
  | _, _ => none

/-- The count of a port, 0 for a port without one. -/
def countOf (py : Python) (buckets : List Bucket) (port : Nat) : Int :=
  ((buckets.filterMap (countedIn py)).lookup port).getD 0

theorem writes_countBucket :
    Dict.Writes (countBucket py) (countedIn py) (fun _ count => 0 < count) := by
  intro counts bucket counts' h
  unfold countBucket at h
  dsimp only at h
  split at h
  · cases h
  split at h
  · cases h
  split at h
  · cases h
  · cases h
  · next port count hint hcount =>
    split at h
    · cases h
    · next hright =>
      split at h
      · cases h
      · next hnew =>
        cases h
        have htold : countedIn py bucket =
            if port.toNat = 0 then none else some (port.toNat, count) := by
          simp only [countedIn, hint, hcount]
        rw [htold]
        by_cases hzero : port.toNat = 0
        · exact .inl ⟨if_pos hzero, if_neg (not_not.mpr hzero)⟩
        · refine .inr ⟨port.toNat, count, if_neg hzero, by simpa using hnew, ?_, if_pos hzero⟩
          exact Int.not_le.mp fun hle => hright (.inr hle)

/-- **The counts have of a port what its bucket says.** -/
theorem get_readCounts {report : CountsReport} {counts : Counts}
    (h : readCounts py report = .ok counts) :
    (∀ port, (counts.get port).getD 0 = countOf py report.buckets port) ∧
      ∀ port, port ∈ counts.keys ↔ 0 < countOf py report.buckets port := by
  unfold readCounts at h
  split at h
  · cases h
  split at h
  · cases h
  obtain ⟨hget, hpos⟩ := Dict.get_foldlM writes_countBucket h
  have hget : ∀ port, counts.get port = (report.buckets.filterMap (countedIn py)).lookup port :=
    fun port => (hget port).trans Option.none_or
  refine ⟨fun port => by rw [hget, countOf], fun port => ?_⟩
  rw [countOf, ← hget, ← not_iff_not, ← Dict.get_eq_none_iff]
  cases hport : counts.get port with
  | none => simp
  | some count =>
    rw [hget] at hport
    have := hpos _ (Dict.mem_of_lookup hport)
    simpa using this

end Dictionaries

/-! ## The table -/

section Table

variable {py : Python}

/-- What the sources say of a port, if they name it. -/
def toldOf (py : Python) (sources : Sources) (port : Nat) : Option Fields :=
  if assignmentsOf py sources.rows port = [] ∧ curatedOf py sources.lines port = none then none
  else some (fieldsFrom (assignmentsOf py sources.rows port) (curatedOf py sources.lines port))

/-- What was read is what the sources say, and the script did not stop. -/
structure Told (py : Python) (sources : Sources) (read : Read) : Prop where
  assignments : ∀ port, (read.iana.get port).getD [] = assignmentsOf py sources.rows port
  assigned : ∀ port, port ∈ read.iana.keys ↔ assignmentsOf py sources.rows port ≠ []
  curated : ∀ port, read.overlay.get port = curatedOf py sources.lines port
  nameable : ∀ item ∈ sources.lines.filterMap (curatedIn py), Nameable read.iana item.1 item.2
  count : ∀ port, (read.counts.get port).getD 0 = countOf py sources.report.buckets port
  counted : ∀ port, port ∈ read.counts.keys ↔ 0 < countOf py sources.report.buckets port

theorem told_of_readSources {sources : Sources} {read : Read}
    (h : readSources py sources = .ok read) : Told py sources read := by
  obtain ⟨iana, hrows, h⟩ := bind_eq_ok h
  obtain ⟨overlay, hlines, h⟩ := bind_eq_ok h
  obtain ⟨counts, hreport, h⟩ := bind_eq_ok h
  cases h
  have hrows : parseIana py sources.rows = some iana := by
    cases hparsed : parseIana py sources.rows with
    | none =>
      rw [hparsed] at hrows
      cases hrows
    | some parsed =>
      rw [hparsed] at hrows
      cases hrows
      rfl
  have hiana := @get_parseIana py sources.rows {} iana hrows
  obtain ⟨hcurated, hnameable⟩ := get_parseOverlay hlines
  obtain ⟨hcount, hcounted⟩ := get_readCounts hreport
  exact {
    assignments := fun port => (hiana port).1
    assigned := fun port => (hiana port).2.trans (or_iff_right List.not_mem_nil)
    curated := hcurated
    nameable := hnameable
    count := hcount
    counted := hcounted }

/-- A port of the registry is a port, and its names are not empty. -/
theorem assigned_right {rows : List Row} {port : Nat} {assignment : Assignment}
    (h : assignment ∈ assignmentsOf py rows port) :
    (1 ≤ port ∧ port ≤ 65535) ∧ assignment.1 ≠ [] := by
  obtain ⟨row, _, hrow⟩ := List.mem_flatMap.mp h
  split at hrow
  · next hport =>
    rw [List.mem_singleton.mp hrow]
    cases hnumbers : row.ports py with
    | none =>
      rw [hnumbers] at hport
      exact absurd hport List.not_mem_nil
    | some numbers =>
      rw [hnumbers, Option.getD_some] at hport
      obtain ⟨hrange, _, hname⟩ := Row.ports_spec hnumbers
      exact ⟨hrange port hport, hname (List.ne_nil_of_mem hport)⟩
  · exact absurd hrow List.not_mem_nil

namespace Told

variable {sources : Sources} {read : Read}

theorem mem_tablePorts (h : Told py sources read) (port : Nat) :
    port ∈ tablePorts read.iana read.overlay ↔ (toldOf py sources port).isSome := by
  have hcurated : port ∈ read.overlay.keys ↔ curatedOf py sources.lines port ≠ none := by
    rw [← h.curated, ne_eq, Dict.get_eq_none_iff, not_not]
  rw [tablePorts, List.mem_insertionSort, List.mem_dedup, List.mem_append, h.assigned, hcurated,
    toldOf]
  split
  · next hnone => simp [hnone]
  · next hsome =>
    rw [not_and_or] at hsome
    simpa using hsome

theorem fieldsOf_eq (h : Told py sources read) {port : Nat}
    (hport : port ∈ tablePorts read.iana read.overlay) :
    toldOf py sources port = some (fieldsOf read.iana read.overlay port) := by
  have hsome := (h.mem_tablePorts port).mp hport
  rw [fieldsOf, h.assignments, h.curated]
  unfold toldOf at hsome ⊢
  split at hsome
  · cases hsome
  · next hne => exact if_neg hne

/-- A curated port is one that its line can name. -/
theorem nameable_of_curated (h : Told py sources read) {port : Nat} {c : Curated}
    (hc : curatedOf py sources.lines port = some c) : Nameable read.iana port c :=
  h.nameable _ (Dict.mem_of_lookup hc)

theorem port_range (h : Told py sources read) {port : Nat}
    (hport : port ∈ tablePorts read.iana read.overlay) : 1 ≤ port ∧ port ≤ 65535 := by
  have hsome := (h.mem_tablePorts port).mp hport
  cases hcurated : curatedOf py sources.lines port with
  | some c => exact (h.nameable_of_curated hcurated).port_range
  | none =>
    cases hassigned : assignmentsOf py sources.rows port with
    | nil => simp [toldOf, hcurated, hassigned] at hsome
    | cons first rest =>
      have hfirst : first ∈ assignmentsOf py sources.rows port := by
        rw [hassigned]
        exact List.mem_cons_self
      exact (assigned_right hfirst).1

/-- The assignment that is shown is one of the port's. -/
theorem picked_mem (first : Assignment) (rest : List Assignment) (p : Assignment → Bool) :
    ((first :: rest).find? p).getD first ∈ first :: rest := by
  cases hfind : (first :: rest).find? p with
  | none => exact List.mem_cons_self
  | some a => exact List.mem_of_find?_eq_some hfind

theorem named (h : Told py sources read) {port : Nat}
    (hport : port ∈ tablePorts read.iana read.overlay) :
    (fieldsOf read.iana read.overlay port).label ≠ [] ∨
      (fieldsOf read.iana read.overlay port).iana ≠ [] := by
  have hsome := (h.mem_tablePorts port).mp hport
  rw [fieldsOf, h.assignments, h.curated]
  cases hassigned : assignmentsOf py sources.rows port with
  | cons first rest =>
    have hpicked := picked_mem first rest fun a =>
      decide (a.1 = ((curatedOf py sources.lines port).getD {}).iana)
    rw [← hassigned] at hpicked
    have hname := (assigned_right hpicked).2
    rw [hassigned] at hname
    exact .inr hname
  | nil =>
    cases hcurated : curatedOf py sources.lines port with
    | none => simp [toldOf, hcurated, hassigned] at hsome
    | some c =>
      have hnamed := (h.nameable_of_curated hcurated).named
      rw [h.assignments, hassigned] at hnamed
      exact .inl (hnamed.resolve_right fun hne => hne rfl)

/-- The table of the sources. -/
def merged (h : Told py sources read) : Merged where
  items := merge read.iana read.overlay
  ascending := by
    have hsorted : (tablePorts read.iana read.overlay).Pairwise (· ≤ ·) :=
      List.pairwise_insertionSort _ _
    have hnodup : (tablePorts read.iana read.overlay).Nodup :=
      (List.perm_insertionSort _ _).nodup_iff.mpr (List.nodup_dedup _)
    refine List.pairwise_map.mpr ((hsorted.and hnodup).imp ?_)
    rintro a b ⟨hle, hne⟩
    exact Nat.lt_of_le_of_ne hle hne
  port_range := by
    intro item hitem
    obtain ⟨port, hport, rfl⟩ := List.mem_map.mp hitem
    exact h.port_range hport
  named := by
    intro item hitem
    obtain ⟨port, hport, rfl⟩ := List.mem_map.mp hitem
    exact h.named hport

theorem ports_merged (h : Told py sources read) :
    h.merged.ports = tablePorts read.iana read.overlay := by
  show (merge read.iana read.overlay).map Prod.fst = _
  rw [merge, List.map_map]
  exact List.map_id _

/-- The ranking of the counts. -/
def ranking (h : Told py sources read) : Ranking h.merged where
  order := Ports.named read.counts (tablePorts read.iana read.overlay)
  nodup := ((List.perm_insertionSort _ _).nodup_iff.mpr read.counts.nodup).filter _
  known := by
    intro port hport
    rw [h.ports_merged]
    simpa using (List.mem_filter.mp hport).2

theorem mem_order (h : Told py sources read) (port : Nat) :
    port ∈ h.ranking.order ↔
      0 < countOf py sources.report.buckets port ∧ (toldOf py sources port).isSome := by
  show port ∈ Ports.named read.counts (tablePorts read.iana read.overlay) ↔ _
  rw [Ports.named, List.mem_filter, List.mem_insertionSort, h.counted, decide_eq_true_eq,
    h.mem_tablePorts]

theorem order_before (h : Told py sources read) :
    h.ranking.order.Pairwise (Before (countOf py sources.report.buckets)) := by
  have hcount : (fun port => (read.counts.get port).getD 0) = countOf py sources.report.buckets :=
    funext h.count
  show (Ports.named read.counts (tablePorts read.iana read.overlay)).Pairwise _
  rw [Ports.named, hcount]
  have : Std.Total (Before (countOf py sources.report.buckets)) := by
    constructor
    intro a b
    unfold Before
    omega
  have : IsTrans Nat (Before (countOf py sources.report.buckets)) := by
    constructor
    intro a b c
    unfold Before
    omega
  exact (List.pairwise_insertionSort _ _).filter _

end Told

/--
**The port table says what the sources say.**

When the script does not stop: it packs a file that the program opens; a lookup of a port gives the
registry's and the overlay's texts for it, cut to 255 bytes (`serviceOf`), and nothing for a port
that neither names; and a scan tries the named ports that have a count first, higher counts first
and equal ones in port order.
-/
theorem sources_told {sources : Sources} {read : Read} (h : readSources py sources = .ok read) :
    ∃ bytes db order, read.pack = some bytes ∧ openPorts bytes = .ok db ∧
      (∀ port, lookup db port = (toldOf py sources port).map serviceOf) ∧
      byRank? ((List.range db.entryCount).map fun i => PortEntry.mk (portAt db i) (rankAt db i)) =
        some order ∧
      order.Nodup ∧ order.Pairwise (Before (countOf py sources.report.buckets)) ∧
      ∀ port, port ∈ order ↔
        0 < countOf py sources.report.buckets port ∧ (toldOf py sources port).isSome := by
  have htold := told_of_readSources h
  obtain ⟨bytes, records, strings, hlayout⟩ := pack_layout htold.merged htold.ranking
  refine ⟨bytes, portDb records strings, htold.ranking.order, hlayout.packed, hlayout.opens, ?_, ?_,
    htold.ranking.nodup, htold.order_before, htold.mem_order⟩
  · intro port
    by_cases hport : port ∈ tablePorts read.iana read.overlay
    · rw [htold.fieldsOf_eq hport]
      have hitem : (port, fieldsOf read.iana read.overlay port) ∈ htold.merged.items :=
        List.mem_map_of_mem hport
      exact lookup_portDb hlayout.right hitem
    · have hnone := hport
      rw [htold.mem_tablePorts, Option.not_isSome_iff_eq_none] at hnone
      rw [hnone]
      rw [← htold.ports_merged] at hport
      exact lookup_portDb_none hlayout.right hport
  · rw [hlayout.portTable]
    exact htold.ranking.byRank?_entries

end Table

/-- Python on texts of ASCII digits. -/
def asciiPython : Python where
  int text := if text ≠ [] ∧ text.all Char.isDigit then
    some (text.foldl (fun n c => 10 * n + (c.toNat - 48)) 0) else none
  isdigit text := text ≠ [] && text.all Char.isDigit
  reprText text := text.elim "None".toList fun t => "'".toList ++ t ++ "'".toList
  reprBucket bucket := "bucket ".toList ++ bucket.key.getD []

/-- Two registered ports and a range, two curated ports, and counts for four. -/
def twoRanks : Sources where
  rows := [
    ⟨some "ssh".toList, some "22".toList, some "tcp".toList, some "The Secure Shell".toList⟩,
    ⟨some "ssh".toList, some "22".toList, some "udp".toList, some "The Secure Shell".toList⟩,
    ⟨some "http".toList, some "80".toList, some "tcp".toList, some "World  Wide Web HTTP".toList⟩,
    ⟨some "x11".toList, some "6000-6001".toList, some "tcp".toList, none⟩]
  lines := ["# port | label".toList, "80 | HTTP | web | | # a comment".toList,
    "25565 | Minecraft | | | Minecraft server".toList]
  report := {
    field := some "host.services.port".toList
    query := some "transport_protocol: TCP".toList
    buckets := [{ key := some "22".toList, count := some 500 },
      { key := some "80".toList, count := some 900 },
      { key := some "7547".toList, count := some 700 },
      { key := some "0".toList, count := some 3 }] }

/-- Web servers are labelled and ranked; 7547 has a count but no name. -/
theorem sources_told_two_ranks : ∃ read bytes db, ∃ order : List Nat,
    readSources asciiPython twoRanks = .ok read ∧ read.pack = some bytes ∧
      openPorts bytes = .ok db ∧
      lookup db 80 = some (serviceOf
        { label := "HTTP".toList
          iana := "http".toList
          description := "World Wide Web HTTP".toList
          category := "web".toList }) ∧
      lookup db 7547 = none ∧ 80 ∈ order ∧ 22 ∈ order ∧ 7547 ∉ order := by
  have hruns : (readSources asciiPython twoRanks).isOk = true := by decide +kernel
  cases hread : readSources asciiPython twoRanks with
  | error failure =>
    rw [hread] at hruns
    cases hruns
  | ok read =>
    obtain ⟨bytes, db, order, hpack, hopen, hlookup, _, _, _, horder⟩ := sources_told hread
    refine ⟨read, bytes, db, order, rfl, hpack, hopen, ?_, ?_, ?_, ?_, ?_⟩
    · have htold : toldOf asciiPython twoRanks 80 = some
          { label := "HTTP".toList
            iana := "http".toList
            description := "World Wide Web HTTP".toList
            category := "web".toList } := by decide +kernel
      rw [hlookup, htold]
      rfl
    · have htold : toldOf asciiPython twoRanks 7547 = none := by decide +kernel
      rw [hlookup, htold]
      rfl
    · exact (horder 80).mpr (by decide +kernel)
    · exact (horder 22).mpr (by decide +kernel)
    · exact fun hmem => absurd ((horder 7547).mp hmem) (by decide +kernel)

end NetScanner.Ports
