import AesdChar.Lib.BlockHeap
import AesdChar.Lib.Ring
import AesdChar.Lib.Rope
import AesdChar.Lib.Run
import AesdChar.Lib.Linked
import AesdChar.Lib.Window
import AesdChar.Lib.Framing
import AesdChar.Lib.Overlay
import AesdChar.Lib.Delivery
import AesdChar.Lib.Critical
import AesdChar.Lib.Fairness
import AesdChar.Lib.Owners
import AesdChar.Lib.Draining
import AesdChar.Kernel
import AesdChar.CircularBuffer
import AesdChar.Driver
import AesdChar.System
import AesdChar.InFlight
import AesdChar.Loading
import AesdChar.Server
import AesdChar.ClientThread
import AesdChar.Threads
import AesdChar.Accesses
import AesdChar.Daemon
import AesdChar.Log
import AesdChar.Proof.RingHistory
import AesdChar.Proof.Representation
import AesdChar.Proof.Write
import AesdChar.Proof.Read
import AesdChar.Proof.Step
import AesdChar.Proof.Slices
import AesdChar.Proof.Llseek
import AesdChar.Proof.Seek
import AesdChar.Proof.SeekRead
import AesdChar.Proof.AllOrNothing
import AesdChar.Proof.Grouping
import AesdChar.Proof.Reader
import AesdChar.Proof.Ownership
import AesdChar.Proof.Answers
import AesdChar.Proof.LeakCount
import AesdChar.Proof.Sections
import AesdChar.Proof.Interleaved
import AesdChar.Proof.Deciding
import AesdChar.Proof.UnderLock
import AesdChar.Proof.Linearizable
import AesdChar.Proof.CallsReturn
import AesdChar.Proof.Loads
import AesdChar.Proof.Reply
import AesdChar.Proof.Client
import AesdChar.Proof.Segmentation
import AesdChar.Proof.SeekReply
import AesdChar.Proof.Holes
import AesdChar.Proof.Scan
import AesdChar.Proof.SeekNumbers
import AesdChar.Proof.Leftovers
import AesdChar.Proof.Faults
import AesdChar.Proof.Connections
import AesdChar.Proof.SystemCalls
import AesdChar.Proof.DriverCalls
import AesdChar.Proof.Serial
import AesdChar.Proof.ThreadList
import AesdChar.Proof.ThreadSteps
import AesdChar.Proof.AccessSteps
import AesdChar.Proof.Uninterrupted
import AesdChar.Proof.Shutdown
import AesdChar.Proof.NodeSafety
import AesdChar.Proof.Joining
import AesdChar.Proof.Holdings
import AesdChar.Proof.DaemonSteps
import AesdChar.Proof.Descriptors
import AesdChar.Proof.Graceful
