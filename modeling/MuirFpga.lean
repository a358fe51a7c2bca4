import MuirFpga.Sync.Trace
import MuirFpga.Cadr.PhaseGen
import MuirFpga.Cadr.Datapath
import MuirFpga.Cadr.Microcycle
import MuirFpga.Cadr.Busint
import MuirFpga.Cadr.Machine
import MuirFpga.Cadr.Clock
import MuirFpga.Cadr.Cycle
import MuirFpga.Cadr.Timer
import MuirFpga.Cadr.Park
import MuirFpga.Cadr.MdWriters
import MuirFpga.Cadr.Boundary
import MuirFpga.Cadr.MapWrites
import MuirFpga.Cadr.Sequential
import MuirFpga.Packs.Face
import MuirFpga.Packs.Feeder
import MuirFpga.Packs.Rules
import MuirFpga.Packs.Loss
import MuirFpga.Packs.Table
import MuirFpga.Sync.Keeps
import MuirFpga.Sync.Occurs
import MuirFpga.Sync.Ring
import MuirFpga.Sync.Bursts
import MuirFpga.Sync.Pending
import MuirFpga.Sync.BitQueue
import MuirFpga.Files.Image
import MuirFpga.Packs.QuuxDisk
import MuirFpga.Packs.DiskOpen
import MuirFpga.Packs.DiskBlocks
import MuirFpga.Packs.DiskReopen
import MuirFpga.Packs.DiskFormats
import MuirFpga.Packs.DiskPack
import MuirFpga.Packs.Mover
import MuirFpga.Plumbing.Share
import MuirFpga.Plumbing.DbgCable
import MuirFpga.Plumbing.DbgLink
import MuirFpga.Quux.Mmu
import MuirFpga.Quux.Tlb
import MuirFpga.Quux.AxiMaster
import MuirFpga.Quux.Port
import MuirFpga.Quux.BlockWalk
import MuirFpga.Quux.WalkSteps
import MuirFpga.Quux.Interlock
import MuirFpga.Quux.Ethernet
import MuirFpga.Quux.EthernetRings
import MuirFpga.Quux.EthernetEpoch
import MuirFpga.Quux.Keyboard
import MuirFpga.Quux.FileDevice
import MuirFpga.Quux.FileRings
import MuirFpga.Quux.Posted
import MuirFpga.Quux.Answers
import MuirFpga.Quux.Channels
import MuirFpga.Quux.PageCodec
import MuirFpga.Quux.PageQueue
import MuirFpga.Quux.PageMoves
import MuirFpga.Quux.PageTrip
import MuirFpga.Quux.WalkLedger
import MuirFpga.Quux.WalkBooks
import MuirFpga.Quux.WalkFail
import MuirFpga.Chaosnet.Packet
import MuirFpga.Chaosnet.Udp
import MuirFpga.Plumbing.InputCables
import MuirFpga.Plumbing.InputLedger
import MuirFpga.Terminal.Rfb
import MuirFpga.Terminal.Viewer
import MuirFpga.Terminal.Reads
import MuirFpga.Terminal.Drawn
import MuirFpga.Terminal.Answer
import MuirFpga.Terminal.Converge
import MuirFpga.Terminal.KeyWords
import MuirFpga.Terminal.KeyOwners
import MuirFpga.Terminal.Departures
import MuirFpga.Files.Lines
import MuirFpga.Checkpoint.Binding
import MuirFpga.Checkpoint.Sidecar
import MuirFpga.Checkpoint.Values
import MuirFpga.Checkpoint.RoundTrip
import MuirFpga.Folders.Names
import MuirFpga.Posix.Logged
import MuirFpga.Folders.Commands
import MuirFpga.Folders.Contained
import MuirFpga.Serial.Store
import MuirFpga.Serial.Endpoint
import MuirFpga.Serial.Lossless
import MuirFpga.Plumbing.Gate
import MuirFpga.Serial.Pci
import MuirFpga.Serial.Transmit
import MuirFpga.Plumbing.GpRegs
import MuirFpga.Plumbing.Split
import MuirFpga.Plumbing.Answered
import MuirFpga.Chaosnet.Cable
import MuirFpga.Chaosnet.Sent
import MuirFpga.Chaosnet.Check
import MuirFpga.Chaosnet.Received
import MuirFpga.Spy.Masters
import MuirFpga.Spy.Writes
import MuirFpga.Spy.ConsoleReads
import MuirFpga.Disk.Registers
import MuirFpga.Disk.Store
import MuirFpga.Disk.Walk
import MuirFpga.Disk.Controller
import MuirFpga.Packs.Books
import MuirFpga.Packs.Denials
import MuirFpga.Packs.PackFile
import MuirFpga.Packs.Transfer
import MuirFpga.Packs.Moving
import MuirFpga.Packs.Exact
import MuirFpga.Plumbing.DebugWindow
import MuirFpga.Plumbing.DebugRequests
import MuirFpga.Quux.BitRams
import MuirFpga.Arith.Steps
import MuirFpga.Quux.Exec
import MuirFpga.Quux.MulDiv
import MuirFpga.Quux.Division
import MuirFpga.Quux.PackedMemory
import MuirFpga.Quux.PackedRun
import MuirFpga.Quux.PackedProgress
import MuirFpga.Quux.LineClears
import MuirFpga.Quux.WalkTally
import MuirFpga.Quux.WalkRuns
import MuirFpga.Quux.PortCache
import MuirFpga.Folders.Memory
import MuirFpga.Folders.Output
import MuirFpga.Folders.Written
import MuirFpga.Folders.Grammar
import MuirFpga.Chaosnet.Inject
import MuirFpga.Chaosnet.Injected
import MuirFpga.Chaosnet.Link
import MuirFpga.Chaosnet.Routing
import MuirFpga.Arith.OnesSum
import MuirFpga.Ethernet.Offload
import MuirFpga.Ethernet.Checksums
import MuirFpga.Posix.Prefixes
import MuirFpga.Folders.Complete
import MuirFpga.Folders.Packed
import MuirFpga.Quux.Timers
import MuirFpga.Quux.Tables
import MuirFpga.Quux.WriteBack
import MuirFpga.Arith.Feedback
import MuirFpga.Chaosnet.Bursts
import MuirFpga.Arith.Phase
import MuirFpga.Cadr.IoClocks
import MuirFpga.Disk.Spin
import MuirFpga.Arith.Varint
import MuirFpga.Checkpoint.Source
import MuirFpga.Checkpoint.Packed
import MuirFpga.Terminal.Encoded
import MuirFpga.Terminal.ColorMap
import MuirFpga.Quux.AgilexRams
import MuirFpga.Arith.FireCode
import MuirFpga.Disk.Machine
import MuirFpga.Disk.Corrected
import MuirFpga.Plumbing.BusAudit
