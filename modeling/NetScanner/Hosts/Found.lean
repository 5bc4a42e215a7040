import NetScanner.Infra.Sort
import NetScanner.Names.Multicast
import NetScanner.Neighbors.Parent
import NetScanner.Net.Range
import NetScanner.Progress.Tracker

/-!
# What a subnet scan finds

`src/core/scanner.zig`: the hosts a discovery has found (`Discovery`), how one more is reported,
what an entry of the neighbor table is worth, and the results.

The locks are in the steps that use these functions: each of them is one critical section. What
the allocator answers is an argument (`stored`).
-/

namespace NetScanner.Hosts

open Infra Names Neighbors Net Progress

/-- How a host was found. -/
inductive HostSource where
  | tcp
  | arp
  | ping
  | mdns
  | ssdp
deriving DecidableEq, Repr

/-- What a scan prints before its results. -/
inductive DiscoveryEvent where
  | host (ip : Ip) (source : HostSource)
  | progress (event : ProgressEvent)
deriving DecidableEq, Repr

/-- The hosts of the `host` events. -/
def hostEvents (events : List DiscoveryEvent) : List Ip :=
  events.filterMap fun
    | .host ip _ => some ip
    | .progress _ => none

/-- What the workers of a discovery share. -/
structure Discovery where
  found : List Ip := []
  /-- The newest entry of an address counts. -/
  ipMac : List (Ip × Mac) := []
  names : List (Ip × Bytes) := []
  tracker : Tracker := {}
  events : List DiscoveryEvent := []

/-- One call of `reportHost`, and whether there is memory for one more host. -/
structure Report where
  ip : Ip
  source : HostSource
  stored : Bool
deriving DecidableEq, Repr

namespace Discovery

/-- Record a host as found, count it and print it. The first report of a host wins. -/
def reportHost (d : Discovery) (stream : Bool) (r : Report) : Discovery :=
  if r.ip ∈ d.found then d
  else if r.stored = false then d
  else
    { d with
      found := d.found ++ [r.ip]
      tracker := d.tracker.addFound
      events := if stream then d.events ++ [.host r.ip r.source] else d.events }

def isFound (d : Discovery) (ip : Ip) : Bool := decide (ip ∈ d.found)

def recordMac (d : Discovery) (ip : Ip) (mac : Mac) (stored : Bool) : Discovery :=
  if stored then { d with ipMac := (ip, mac) :: d.ipMac } else d

/-- Keep the first name heard for `ip`. -/
def putName (d : Discovery) (ip : Ip) (name : Bytes) (stored : Bool) : Discovery :=
  if (d.names.lookup ip).isSome ∨ stored = false then d
  else { d with names := (ip, name) :: d.names }

end Discovery

/-! ## The neighbor table -/

/-- Whether another address of the range has the entry's MAC. -/
def sharesMac (table : List Neighbor) (entry : Neighbor) (firstIp lastIp : Ip) : Bool :=
  match entry.mac with
  | none => false
  | some mac => table.any fun other =>
    decide (other.ip ≠ entry.ip) && ipInRange other.ip firstIp lastIp && other.mac == some mac

/-- Whether the entry proves that its host answered ARP during this scan. -/
def resolvedDuringScan (knownBefore : Option (List Neighbor)) (table : List Neighbor)
    (entry : Neighbor) (firstIp lastIp : Ip) : Bool :=
  match knownBefore with
  | none => false
  | some before =>
    if before.any fun old => decide (old.ip = entry.ip) then false
    else !sharesMac table entry firstIp lastIp

def containsIp (ips : List Ip) (ip : Ip) : Bool := ips.contains ip

/-! ## Results -/

/-- What `scanNetwork` is asked for (`NetworkScanOptions`), and where it runs. -/
structure SubnetScan where
  network : Network
  output : Output
  resolveHostname : Bool := false
  resolveVendor : Bool := false
  /-- `builtin.os.tag == .windows` -/
  windows : Bool := false

/-- The hosts a scan may find. -/
def SubnetScan.hosts (o : SubnetScan) : IpRange :=
  usableHosts o.network (getIpRange o.network)

/-- Whether an address is one of these. -/
def SubnetScan.usable (o : SubnetScan) (ip : Ip) : Bool :=
  ipInRange ip o.hosts.start o.hosts.end

structure HostDetail where
  ip : Ip
  hostname : Option Bytes := none
  mac : Option Mac := none
  vendor : Option Bytes := none
deriving DecidableEq, Repr

/-- A line of the results. -/
inductive ResultLine where
  | host (ip : Ip)
  | detail (detail : HostDetail)
  | summary (hosts : Nat)
deriving DecidableEq, Repr

/-- The hosts the results list. -/
def listed (lines : List ResultLine) : List Ip :=
  lines.filterMap fun
    | .host ip => some ip
    | .detail detail => some detail.ip
    | .summary _ => none

/-- The host counts the results give. -/
def counts (lines : List ResultLine) : List Nat :=
  lines.filterMap fun
    | .summary hosts => some hosts
    | _ => none

def ipLessThan (a b : Ip) : Bool := decide (ipToU32 a < ipToU32 b)

/-- What else the results ask: `SendARP`, the OUI database, and the name lookups. -/
structure Lookups where
  sendArp : Ip → Option Mac := fun _ => none
  vendor : Mac → Option Bytes := fun _ => none
  hostname : Ip → Option Bytes := fun _ => none

def collectDetails (d : Discovery) (o : SubnetScan) (lookups : Lookups) :
    List HostDetail :=
  d.found.map fun ip =>
    let known := d.ipMac.lookup ip
    let mac := if known.isNone ∧ o.resolveVendor then lookups.sendArp ip else known
    { ip := ip
      mac := mac
      vendor := if o.resolveVendor then mac.bind lookups.vendor else none
      hostname := if o.resolveHostname then lookups.hostname ip else none }

/-- The closing recap; with `--json` just its count. -/
def printSummary (o : SubnetScan) (found : List Ip) : List ResultLine :=
  if o.output.json then [.summary found.length]
  else found.map .host ++ [.summary found.length]

/-- The closing table, or one `host_detail` event a host. -/
def printDetails (details : List HostDetail) : List ResultLine :=
  details.map .detail ++ [.summary details.length]

/-- Sort the hosts, then print them, with details when they are asked for and there is memory for
them. -/
def reportResults (d : Discovery) (o : SubnetScan) (lookups : Lookups)
    (allocated : Bool) : Discovery × List ResultLine :=
  let d := { d with found := stableSort ipLessThan d.found }
  if o.resolveHostname = false ∧ o.resolveVendor = false then (d, printSummary o d.found)
  else if allocated = false then (d, printSummary o d.found)
  else (d, printDetails (collectDetails d o lookups))

end NetScanner.Hosts
