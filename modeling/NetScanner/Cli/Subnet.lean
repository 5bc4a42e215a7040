import NetScanner.Cli.Ports
import NetScanner.Net.Cidr

/-!
# The command line of a subnet scan

`src/core/main.zig`, `runSubnetScan` up to the scan. `subnet_command_exact` says which command lines
start a scan, what each option adds wherever it stands, and which is the first thing wrong with any
other.
-/

namespace NetScanner.Cli

open Infra Infra.Json Net

/-! ## The command -/

/-- What the options choose. -/
structure SubnetOptions where
  usePing : Bool := false
  resolveHostname : Bool := false
  resolveVendor : Bool := false
  ouiFile : Option Bytes := none
  /-- `--neighbor-table=parent` -/
  neighborParent : Bool := false
deriving DecidableEq, Repr

structure SubnetRequest where
  cidr : Bytes
  network : Network
  options : SubnetOptions
  json : Bool

def optionPing : Bytes := ascii "--ping"
def optionResolve : Bytes := ascii "--resolve"
def optionHostname : Bytes := ascii "--hostname"
def optionVendor : Bytes := ascii "--vendor"
def optionOuiFile : Bytes := ascii "--oui-file"
def optionNeighborTable : Bytes := ascii "--neighbor-table="

section Command

variable (windows json : Bool)

/-- One turn of the loop over the options: what they choose then, and whether the word behind is
part of the option; or how the command fails. -/
def subnetOption (s : SubnetOptions) (arg : Bytes) (next : Option Bytes) :
    Except (Command SubnetRequest) (SubnetOptions × Bool) :=
  if arg = optionPing then .ok ({ s with usePing := true }, false)
  else if arg = optionJson then .ok (s, false)
  else if arg = optionResolve then
    .ok ({ s with resolveHostname := true, resolveVendor := true }, false)
  else if arg = optionHostname then .ok ({ s with resolveHostname := true }, false)
  else if arg = optionVendor then .ok ({ s with resolveVendor := true }, false)
  else if arg = optionOuiFile then
    match next with
    | none => .error (fail (ascii "--oui-file requires a file path"))
    | some path => .ok ({ s with ouiFile := some path, resolveVendor := true }, true)
  else if optionNeighborTable.isPrefixOf arg then
    let source := arg.drop optionNeighborTable.length
    if source = ascii "parent" then
      if json = false then .error (fail (ascii "--neighbor-table=parent needs --json"))
      else if windows then
        .error (fail (ascii "--neighbor-table=parent is not supported on Windows"))
      else .ok ({ s with neighborParent := true }, false)
    else if source = ascii "kernel" then .ok ({ s with neighborParent := false }, false)
    else .error (fail (ascii "--neighbor-table must be 'kernel' or 'parent'"))
  else
    .error (.failed (!json) (ascii "Unknown option '\x7bs\x7d'")
      (ascii "Unknown option '" ++ arg ++ ascii "'"))

/-- The loop; `taken` when the word in front belongs to the option before it. -/
def optionLoop (s : SubnetOptions) (taken : Bool) :
    List Bytes → Except (Command SubnetRequest) SubnetOptions
  | [] => .ok s
  | arg :: args =>
    if taken then optionLoop s false args
    else
      match subnetOption windows json s arg args.head? with
      | .error c => .error c
      | .ok (s, taken) => optionLoop s taken args

/-- What the options choose, or how the command fails. -/
def subnetOptions (s : SubnetOptions) (args : List Bytes) :
    Except (Command SubnetRequest) SubnetOptions := optionLoop windows json s false args

/-- The failure of a scan that cannot read its subnet. -/
def invalidSubnet (cidr : Bytes) : Command SubnetRequest :=
  .failed false (ascii "Invalid subnet '\x7bs\x7d' (use CIDR like 192.168.1.0/24)")
    (ascii "Invalid subnet '" ++ cidr ++ ascii "' (use CIDR like 192.168.1.0/24)")

/-- `runSubnetScan`, up to the scan; the scan itself begins with the subnet. -/
def runSubnetScan (args : List Bytes) : Command SubnetRequest :=
  match args with
  | _ :: _ :: cidr :: rest =>
    match subnetOptions windows json {} rest with
    | .error c => c
    | .ok options =>
      match parseCidr cidr with
      | .error _ => invalidSubnet cidr
      | .ok network => .scan { cidr, network, options, json }
  | _ => if json then fail (ascii "Usage: ns -s <subnet>") else .usage

end Command

/-! ## Its options -/

inductive SubnetOption where
  | ping
  | json
  | resolve
  | hostname
  | vendor
  | ouiFile (path : Bytes)
  | neighborTable (parent : Bool)

/-- The name of a source of the neighbor table. -/
def neighborSource (parent : Bool) : Bytes := if parent then ascii "parent" else ascii "kernel"

def SubnetOption.words : SubnetOption → List Bytes
  | .ping => [optionPing]
  | .json => [optionJson]
  | .resolve => [optionResolve]
  | .hostname => [optionHostname]
  | .vendor => [optionVendor]
  | .ouiFile path => [optionOuiFile, path]
  | .neighborTable parent => [optionNeighborTable ++ neighborSource parent]

/-- The parent is asked over the pipes of `--json`, and not on Windows. -/
def SubnetOption.Valid (windows json : Bool) : SubnetOption → Prop
  | .neighborTable true => json = true ∧ windows = false
  | _ => True

def SubnetOption.apply (s : SubnetOptions) : SubnetOption → SubnetOptions
  | .ping => { s with usePing := true }
  | .json => s
  | .resolve => { s with resolveHostname := true, resolveVendor := true }
  | .hostname => { s with resolveHostname := true }
  | .vendor => { s with resolveVendor := true }
  | .ouiFile path => { s with ouiFile := some path, resolveVendor := true }
  | .neighborTable parent => { s with neighborParent := parent }

/-- The words that options begin with. -/
def optionWords : List Bytes :=
  [optionPing, optionJson, optionResolve, optionHostname, optionVendor, optionOuiFile]

/-- Words that no option stands at the front of, and how the command fails. -/
inductive BadSubnetOption (windows json : Bool) : List Bytes → Command SubnetRequest → Prop
  | noPath : BadSubnetOption windows json [optionOuiFile]
      (fail (ascii "--oui-file requires a file path"))
  | noJson {args : List Bytes} : json = false →
      BadSubnetOption windows json ((optionNeighborTable ++ ascii "parent") :: args)
        (fail (ascii "--neighbor-table=parent needs --json"))
  | onWindows {args : List Bytes} : json = true → windows = true →
      BadSubnetOption windows json ((optionNeighborTable ++ ascii "parent") :: args)
        (fail (ascii "--neighbor-table=parent is not supported on Windows"))
  | source {source : Bytes} {args : List Bytes} : source ≠ ascii "parent" →
      source ≠ ascii "kernel" →
      BadSubnetOption windows json ((optionNeighborTable ++ source) :: args)
        (fail (ascii "--neighbor-table must be 'kernel' or 'parent'"))
  | unknown {arg : Bytes} {args : List Bytes} : arg ∉ optionWords →
      ¬optionNeighborTable <+: arg →
      BadSubnetOption windows json (arg :: args)
        (.failed (!json) (ascii "Unknown option '\x7bs\x7d'")
          (ascii "Unknown option '" ++ arg ++ ascii "'"))

/-! ### One option at a place -/

section Grammar

variable {windows json : Bool}

theorem not_prefix_optionWords : ∀ w ∈ optionWords, ¬optionNeighborTable <+: w := by decide

/-- A turn that takes one word. -/
theorem subnetOptions_cons {s s' : SubnetOptions} {arg : Bytes} {args : List Bytes}
    (h : subnetOption windows json s arg args.head? = .ok (s', false)) :
    subnetOptions windows json s (arg :: args) = subnetOptions windows json s' args := by
  unfold subnetOptions
  rw [optionLoop, h]
  rfl

theorem subnetOptions_error {s : SubnetOptions} {arg : Bytes} {args : List Bytes}
    {c : Command SubnetRequest} (h : subnetOption windows json s arg args.head? = .error c) :
    subnetOptions windows json s (arg :: args) = .error c := by
  unfold subnetOptions
  rw [optionLoop, h]
  rfl

/-- What is no word of an option is tried as a source of the neighbor table. -/
theorem subnetOption_other {arg : Bytes} (h : arg ∉ optionWords) (s : SubnetOptions)
    (next : Option Bytes) : subnetOption windows json s arg next =
      if optionNeighborTable.isPrefixOf arg then
        let source := arg.drop optionNeighborTable.length
        if source = ascii "parent" then
          if json = false then .error (fail (ascii "--neighbor-table=parent needs --json"))
          else if windows then
            .error (fail (ascii "--neighbor-table=parent is not supported on Windows"))
          else .ok ({ s with neighborParent := true }, false)
        else if source = ascii "kernel" then .ok ({ s with neighborParent := false }, false)
        else .error (fail (ascii "--neighbor-table must be 'kernel' or 'parent'"))
      else
        .error (.failed (!json) (ascii "Unknown option '\x7bs\x7d'")
          (ascii "Unknown option '" ++ arg ++ ascii "'")) := by
  simp only [optionWords, List.mem_cons, List.not_mem_nil, or_false, not_or] at h
  obtain ⟨hping, hjson, hresolve, hhostname, hvendor, houiFile⟩ := h
  unfold subnetOption
  rw [if_neg hping, if_neg hjson, if_neg hresolve, if_neg hhostname, if_neg hvendor,
    if_neg houiFile]

theorem subnetOption_complete {rest : List Bytes} (hrest : rest ≠ []) :
    (∃ (o : SubnetOption) (rest' : List Bytes),
      o.Valid windows json ∧ rest = o.words ++ rest') ∨
      ∃ e, BadSubnetOption windows json rest e := by
  obtain ⟨arg, args, rfl⟩ := List.exists_cons_of_ne_nil hrest
  by_cases hword : arg ∈ optionWords
  · simp only [optionWords, List.mem_cons, List.not_mem_nil, or_false] at hword
    rcases hword with rfl | rfl | rfl | rfl | rfl | rfl
    · exact .inl ⟨.ping, args, trivial, rfl⟩
    · exact .inl ⟨.json, args, trivial, rfl⟩
    · exact .inl ⟨.resolve, args, trivial, rfl⟩
    · exact .inl ⟨.hostname, args, trivial, rfl⟩
    · exact .inl ⟨.vendor, args, trivial, rfl⟩
    · cases args with
      | nil => exact .inr ⟨_, .noPath⟩
      | cons path args => exact .inl ⟨.ouiFile path, args, trivial, rfl⟩
  · by_cases hprefix : optionNeighborTable <+: arg
    · obtain ⟨source, rfl⟩ := hprefix
      by_cases hparent : source = ascii "parent"
      · subst hparent
        cases json with
        | false => exact .inr ⟨_, .noJson rfl⟩
        | true =>
          cases windows with
          | false => exact .inl ⟨.neighborTable true, args, ⟨rfl, rfl⟩, rfl⟩
          | true => exact .inr ⟨_, .onWindows rfl rfl⟩
      · by_cases hkernel : source = ascii "kernel"
        · subst hkernel
          exact .inl ⟨.neighborTable false, args, trivial, rfl⟩
        · exact .inr ⟨_, .source hparent hkernel⟩
    · exact .inr ⟨_, .unknown hword hprefix⟩

/-- The options of a subnet scan. -/
def subnetGrammar (windows json : Bool) :
    Grammar Bytes SubnetOption (Command SubnetRequest) where
  words := SubnetOption.words
  Valid := SubnetOption.Valid windows json
  Bad := BadSubnetOption windows json
  words_ne_nil o := by cases o <;> exact List.cons_ne_nil _ _
  complete _ hrest := subnetOption_complete hrest

/-- **The loop reads one option after the other.** -/
theorem subnetOptions_reads (windows json : Bool) :
    (subnetGrammar windows json).Reads SubnetOption.apply (subnetOptions windows json) where
  nil _ := rfl
  option s o rest ho := by
    rcases o with _ | _ | _ | _ | _ | path | ⟨_ | _⟩
    · exact subnetOptions_cons rfl
    · exact subnetOptions_cons rfl
    · exact subnetOptions_cons rfl
    · exact subnetOptions_cons rfl
    · exact subnetOptions_cons rfl
    · rfl
    · exact subnetOptions_cons rfl
    · obtain ⟨rfl, rfl⟩ := ho
      exact subnetOptions_cons rfl
  bad s rest e he := by
    have hother : ∀ source, optionNeighborTable ++ source ∉ optionWords := fun source hmem =>
      not_prefix_optionWords _ hmem (List.prefix_append _ _)
    cases he with
    | noPath => rfl
    | noJson hjson =>
      subst hjson
      exact subnetOptions_error rfl
    | onWindows hjson hwindows =>
      subst hjson hwindows
      exact subnetOptions_error rfl
    | source hparent hkernel =>
      refine subnetOptions_error ?_
      rw [subnetOption_other (hother _), if_pos (by simp)]
      simp only [List.drop_left, if_neg hparent, if_neg hkernel]
    | unknown hword hprefix =>
      refine subnetOptions_error ?_
      rw [subnetOption_other hword, if_neg (by simpa using hprefix)]

end Grammar

/-! ## What is accepted -/

/-- What a list of options chooses: of most options, whether they are there at all; of a file and
of a source of the neighbor table, the last. -/
def chosen (options : List SubnetOption) : SubnetOptions where
  usePing := options.any fun
    | .ping => true
    | _ => false
  resolveHostname := options.any fun
    | .resolve | .hostname => true
    | _ => false
  resolveVendor := options.any fun
    | .resolve | .vendor | .ouiFile _ => true
    | _ => false
  ouiFile := (options.filterMap fun
    | .ouiFile path => some path
    | _ => none).getLast?
  neighborParent := (options.filterMap fun
    | .neighborTable parent => some parent
    | _ => none).getLast?.getD false

theorem SubnetOption.foldl_apply (options : List SubnetOption) :
    options.foldl SubnetOption.apply {} = chosen options := by
  induction options using List.reverseRecOn with
  | nil => rfl
  | append_singleton options o ih =>
    rw [List.foldl_concat, ih]
    cases o <;> simp [chosen, SubnetOption.apply]

/-- The command line asks for the scan: the program and the command, a subnet and options. -/
inductive SubnetCommand (windows json : Bool) : List Bytes → SubnetRequest → Prop
  | scan {program command cidr : Bytes} {network : Network} {options : List SubnetOption} :
      CidrText cidr network → (∀ o ∈ options, o.Valid windows json) →
      SubnetCommand windows json
        (program :: command :: cidr :: (subnetGrammar windows json).spell options)
        { cidr, network, options := chosen options, json }

/-- What is wrong with a command line that asks for none. The subnet is looked at last. -/
inductive SubnetComplaint (windows json : Bool) : List Bytes → Command SubnetRequest → Prop
  | short {args : List Bytes} : args.length < 3 →
      SubnetComplaint windows json args
        (if json then fail (ascii "Usage: ns -s <subnet>") else .usage)
  | option {program command cidr : Bytes} {args rest : List Bytes}
      {options : List SubnetOption} {c : Command SubnetRequest} :
      (subnetGrammar windows json).Splits args options rest →
      BadSubnetOption windows json rest c →
      SubnetComplaint windows json (program :: command :: cidr :: args) c
  | subnet {program command cidr : Bytes} {options : List SubnetOption} :
      (∀ o ∈ options, o.Valid windows json) → (∀ network, ¬CidrText cidr network) →
      SubnetComplaint windows json
        (program :: command :: cidr :: (subnetGrammar windows json).spell options)
        (invalidSubnet cidr)

/-- What a scan can be asked for. -/
structure SubnetRequest.Fits (windows : Bool) (request : SubnetRequest) : Prop where
  cidr : CidrText request.cidr request.network
  ouiFile : ∀ path, request.options.ouiFile = some path → request.options.resolveVendor = true
  parent : request.options.neighborParent = true → request.json = true ∧ windows = false

/-- Options that choose just this. -/
def SubnetOptions.toList (s : SubnetOptions) : List SubnetOption :=
  (if s.usePing then [.ping] else []) ++ (if s.resolveHostname then [.hostname] else []) ++
    (if s.resolveVendor then [.vendor] else []) ++ (s.ouiFile.map .ouiFile).toList ++
      if s.neighborParent then [.neighborTable true] else []

/-- The words of a scan. -/
def subnetArgs (windows : Bool) (program : Bytes) (request : SubnetRequest) : List Bytes :=
  program :: ascii "-s" :: request.cidr ::
    (subnetGrammar windows request.json).spell
      (request.options.toList ++ if request.json then [.json] else [])

section Exact

variable {windows json : Bool} {args : List Bytes}

theorem SubnetCommand.run {request : SubnetRequest} (h : SubnetCommand windows json args request) :
    runSubnetScan windows json args = .scan request := by
  obtain ⟨hcidr, hvalid⟩ := h
  next options =>
  have hread := ((subnetOptions_reads windows json).ok_iff {} _
    ((subnetGrammar windows json).spell options)).mpr
    ⟨options, ⟨(List.append_nil _).symm, hvalid⟩, rfl⟩
  rw [SubnetOption.foldl_apply] at hread
  simp only [runSubnetScan, hread, (parseCidr_iff _ _).mpr hcidr]

theorem SubnetComplaint.run {c : Command SubnetRequest} (h : SubnetComplaint windows json args c) :
    runSubnetScan windows json args = c := by
  cases h with
  | short hshort =>
    rcases args with _ | ⟨program, _ | ⟨command, _ | ⟨cidr, args⟩⟩⟩
    · rfl
    · rfl
    · rfl
    · simp at hshort
      omega
  | option hsplits hbad =>
    have hread := ((subnetOptions_reads windows json).error_iff {} _ _).mpr
      ⟨_, _, hsplits, hbad⟩
    simp only [runSubnetScan, hread]
  | @subnet program command cidr options hvalid hcidr =>
    have hread := ((subnetOptions_reads windows json).ok_iff {} _
      ((subnetGrammar windows json).spell options)).mpr
      ⟨options, ⟨(List.append_nil _).symm, hvalid⟩, rfl⟩
    simp only [runSubnetScan, hread]
    cases hparse : parseCidr cidr with
    | error _ => rfl
    | ok network => exact absurd ((parseCidr_iff _ _).mp hparse) (hcidr network)

theorem SubnetComplaint.not_scan {c : Command SubnetRequest}
    (h : SubnetComplaint windows json args c) (request : SubnetRequest) : c ≠ .scan request := by
  rintro hc
  cases h with
  | short => split at hc <;> cases hc
  | option _ hbad => cases hbad <;> cases hc
  | subnet => cases hc

theorem subnet_command_or_complaint (windows json : Bool) (args : List Bytes) :
    (∃ request, SubnetCommand windows json args request) ∨
      ∃ c, SubnetComplaint windows json args c := by
  rcases args with _ | ⟨program, _ | ⟨command, _ | ⟨cidr, args⟩⟩⟩
  · exact .inr ⟨_, .short (by simp)⟩
  · exact .inr ⟨_, .short (by simp)⟩
  · exact .inr ⟨_, .short (by simp)⟩
  · obtain ⟨options, rest, hsplits, rfl | ⟨c, hbad⟩⟩ := (subnetGrammar windows json).splits args
    · obtain ⟨hwords, hvalid⟩ := hsplits
      rw [List.append_nil] at hwords
      subst hwords
      by_cases hcidr : ∃ network, CidrText cidr network
      · obtain ⟨network, hcidr⟩ := hcidr
        exact .inl ⟨_, .scan hcidr hvalid⟩
      · exact .inr ⟨_, .subnet hvalid (not_exists.mp hcidr)⟩
    · exact .inr ⟨_, .option hsplits hbad⟩

theorem SubnetCommand.fits {request : SubnetRequest}
    (h : SubnetCommand windows json args request) : request.Fits windows := by
  obtain ⟨hcidr, hvalid⟩ := h
  next options =>
  refine ⟨hcidr, fun path hpath => ?_, fun hparent => ?_⟩
  · obtain ⟨o, ho, hsome⟩ := List.mem_filterMap.mp (List.mem_of_getLast? hpath)
    refine List.any_eq_true.mpr ⟨o, ho, ?_⟩
    cases o <;> first | rfl | cases hsome
  · have hlast : (options.filterMap fun
        | .neighborTable parent => some parent
        | _ => none).getLast? = some true := by
      simp only [chosen] at hparent
      revert hparent
      cases (options.filterMap fun
        | .neighborTable parent => some parent
        | _ => none).getLast? with
      | none => exact fun h => by cases h
      | some parent => exact congrArg some
    obtain ⟨o, ho, hsome⟩ := List.mem_filterMap.mp (List.mem_of_getLast? hlast)
    cases o with
    | neighborTable parent =>
      cases hsome
      exact hvalid _ ho
    | ping | json | resolve | hostname | vendor | ouiFile => cases hsome

theorem chosen_toList {s : SubnetOptions}
    (houi : ∀ path, s.ouiFile = some path → s.resolveVendor = true) : chosen s.toList = s := by
  obtain ⟨usePing, resolveHostname, resolveVendor, ouiFile, neighborParent⟩ := s
  cases ouiFile with
  | none =>
    cases usePing <;> cases resolveHostname <;> cases resolveVendor <;> cases neighborParent <;>
      rfl
  | some path =>
    have hvendor := houi path rfl
    simp only at hvendor
    subst hvendor
    cases usePing <;> cases resolveHostname <;> cases neighborParent <;> rfl

/-- `--json` chooses nothing of these. -/
theorem chosen_json (options : List SubnetOption) (json : Bool) :
    chosen (options ++ if json then [.json] else []) = chosen options := by
  cases json <;> simp [chosen]

theorem subnetCommand_subnetArgs (program : Bytes) {request : SubnetRequest}
    (h : request.Fits windows) :
    SubnetCommand windows request.json (subnetArgs windows program request) request := by
  obtain ⟨hcidr, houi, hparent⟩ := h
  have hvalid : ∀ o ∈ request.options.toList, o.Valid windows request.json := by
    intro o ho
    cases o with
    | neighborTable parent =>
      cases parent with
      | false => trivial
      | true =>
        refine hparent ?_
        by_contra hnot
        revert ho
        simp only [SubnetOptions.toList, Bool.not_eq_true] at hnot ⊢
        rw [hnot]
        cases request.options.usePing <;> cases request.options.resolveHostname <;>
          cases request.options.resolveVendor <;> cases request.options.ouiFile <;> simp
    | ping | json | resolve | hostname | vendor | ouiFile => trivial
  have hall : ∀ o ∈ request.options.toList ++ if request.json then [.json] else [],
      o.Valid windows request.json := by
    refine List.forall_mem_append.mpr ⟨hvalid, fun o ho => ?_⟩
    split at ho
    · rw [List.mem_singleton.mp ho]
      trivial
    · cases ho
  have hscan := @SubnetCommand.scan windows request.json program (ascii "-s") _ _ _ hcidr hall
  rwa [chosen_json, chosen_toList houi] at hscan

end Exact

/--
**The command line of a subnet scan is read exactly.** A scan is started by a subnet and options,
and by nothing else; most options count wherever they stand, of a file and of a source of the
neighbor table the last one counts, and the parent is asked for the table only with `--json` and not
on Windows. Every such scan has a command line. Any other ends in the first thing wrong with its
options, or with its subnet.
-/
theorem subnet_command_exact (windows json : Bool) :
    (∀ args request, runSubnetScan windows json args = .scan request ↔
      SubnetCommand windows json args request) ∧
    (∀ args request, SubnetCommand windows json args request → request.Fits windows) ∧
    (∀ program request, request.Fits windows →
      SubnetCommand windows request.json (subnetArgs windows program request) request) ∧
    ∀ args, (∃ request, SubnetCommand windows json args request) ∨
      SubnetComplaint windows json args (runSubnetScan windows json args) := by
  refine ⟨fun args request => ⟨fun hrun => ?_, SubnetCommand.run⟩, fun _ _ => SubnetCommand.fits,
    fun program _ => subnetCommand_subnetArgs program, fun args => ?_⟩
  · rcases subnet_command_or_complaint windows json args with ⟨request', h⟩ | ⟨c, h⟩
    · rw [h.run] at hrun
      cases hrun
      exact h
    · rw [h.run] at hrun
      exact absurd hrun (h.not_scan request)
  · rcases subnet_command_or_complaint windows json args with h | ⟨c, h⟩
    · exact .inl h
    · rw [h.run]
      exact .inr h

/-- The parent for the neighbor table, then the kernel, then the parent again. -/
theorem subnet_command_exact_parent :
    let args := ["ns", "-s", "10.1.2.0/24", "--neighbor-table=parent", "--oui-file", "--json",
      "--neighbor-table=kernel", "--hostname", "--neighbor-table=parent"].map ascii
    ∃ request, runSubnetScan false true args = .scan request ∧
      request.options =
        { resolveHostname := true
          resolveVendor := true
          ouiFile := some (ascii "--json")
          neighborParent := true } ∧
      SubnetCommand false true args request ∧ request.Fits false ∧
      SubnetCommand false true (subnetArgs false (ascii "ns") request) request := by
  intro args
  obtain ⟨hexact, hfits, hasked, -⟩ := subnet_command_exact false true
  let request : SubnetRequest :=
    { cidr := ascii "10.1.2.0/24"
      network :=
        { address := (10, 1, 2, 0)
          prefixLen := 24
          prefixLen_le := by decide }
      options :=
        { resolveHostname := true
          resolveVendor := true
          ouiFile := some (ascii "--json")
          neighborParent := true }
      json := true }
  have hrun : runSubnetScan false true args = .scan request := by rfl
  have hcommand := (hexact args request).mp hrun
  exact ⟨request, hrun, rfl, hcommand, hfits _ _ hcommand, hasked _ _ (hfits _ _ hcommand)⟩

end NetScanner.Cli
