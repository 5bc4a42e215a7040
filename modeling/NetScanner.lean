import NetScanner.Infra.Lts
import NetScanner.Progress.Workers
import NetScanner.Connects.InFlight
import NetScanner.Connects.Pacing
import NetScanner.Connects.Shortage
import NetScanner.Connects.NotBlamed
import NetScanner.Infra.Search
import NetScanner.Ports.Exact
import NetScanner.Ports.Near
import NetScanner.Ports.LastHit
import NetScanner.Ports.Order
import NetScanner.Ports.Budget
import NetScanner.Icmp.InTime
import NetScanner.Icmp.Pace
import NetScanner.Icmp.SendTime
import NetScanner.Tables.Agreement
import NetScanner.Neighbors.Deadline
import NetScanner.Names.Resolver
import NetScanner.Names.ReverseQuery
import NetScanner.Tables.Vendors
import NetScanner.Neighbors.Kernel
import NetScanner.Tables.PortRoundTrip
import NetScanner.Hosts.Results
import NetScanner.Hosts.Split
import NetScanner.Net.Hosts
import NetScanner.Json.Cut
import NetScanner.Icmp.Reply
import NetScanner.Tables.Loaded
import NetScanner.Ports.RttBounds
import NetScanner.Net.Cidr
import NetScanner.Net.PortList
import NetScanner.Names.Safety
import NetScanner.Neighbors.Netlink
import NetScanner.Names.Delivery
import NetScanner.Connects.CutClock
import NetScanner.Icmp.Checksum
import NetScanner.Live.Truncate
import NetScanner.Hosts.PingScan
import NetScanner.Hosts.Identify
import NetScanner.Icmp.WindowsOnce
import NetScanner.Connects.Patience
import NetScanner.Connects.Backends
import NetScanner.Connects.Limit
import NetScanner.Neighbors.Readers
import NetScanner.Json.Ports
import NetScanner.Json.Subnet
import NetScanner.Cli.Main
import NetScanner.Live.Interrupt
import NetScanner.Live.Status
import NetScanner.Tables.Generator
