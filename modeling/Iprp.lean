import Iprp.Library.Run
import Iprp.Library.KeyedList
import Iprp.Library.Sweep
import Iprp.Library.Snapshot
import Iprp.Library.Numbered
import Iprp.Library.Bytes
import Iprp.Library.OnesComplement
import Iprp.Library.SkipWindow
import Iprp.Library.CString
import Iprp.Library.Mutex
import Iprp.Library.FileChannel
import Iprp.Library.HeldSet
import Iprp.Library.Ledger
import Iprp.Library.Scanf
import Iprp.Library.Links
import Iprp.Library.Streams
import Iprp.Library.Arrivals
import Iprp.Library.Latch
import Iprp.Basic
import Iprp.Nfqueue
import Iprp.Files
import Iprp.Lists
import Iprp.Isd.Handle
import Iprp.Isd.Packet
import Iprp.Isd.Copies
import Iprp.Isd.Failures
import Iprp.Isd.Cache
import Iprp.Isd.Interleaving
import Iprp.Ird.Handle
import Iprp.Ird.Links
import Iprp.Ird.Sender
import Iprp.Ird.Duplicate
import Iprp.Ird.LossWindow
import Iprp.Ird.Indices
import Iprp.Ird.Isolation
import Iprp.Ird.ClosedForm
import Iprp.Ird.Receiver
import Iprp.Ird.Rebuild
import Iprp.Ird.Lengths
import Iprp.Ird.SenderIfaces
import Iprp.Ird.Memberships
import Iprp.Icd.Message
import Iprp.Icd.Control
import Iprp.Icd.Bases
import Iprp.Icd.ControlLoop
import Iprp.Icd.Indices
import Iprp.Icd.Rounds
import Iprp.Icd.Backoff
import Iprp.Icd.Acks
import Iprp.Icd.Ages
import Iprp.Icd.Peerbase
import Iprp.Icd.Path
import Iprp.Icd.PeerTable
import Iprp.Icd.Announce
import Iprp.Icd.History
import Iprp.Icd.Queues
import Iprp.Icd.Ports
import Iprp.Icd.PortsFile
import Iprp.Icd.Addresses
import Iprp.Icd.Diversion
import Iprp.Icd.Opening
import Iprp.Icd.Lock
import Iprp.Icd.Wire
import Iprp.Icd.Exchange
import Iprp.Imd.Handle
import Iprp.Imd.Sessions
import Iprp.Imd.Timestamps
import Iprp.Snapshots
import Iprp.OpenFiles
import Iprp.Session.Encapsulation
import Iprp.Session.Stream
import Iprp.Session.Flows
import Iprp.Session.Incarnations
import Iprp.Session.KeepAlive
import Iprp.Session.Verdicts
import Iprp.Session.Redundancy
import Iprp.Hosts.Network
import Iprp.Hosts.Startup
import Iprp.Hosts.Owners
import Iprp.Hosts.Opening
import Iprp.Library.CommandLine
import Iprp.Icd.Commands
import Iprp.Icd.Launch
import Iprp.Icd.Refresh
import Iprp.Session.Delivery
import Iprp.Hosts.Origins
