import ContainerFS.Lib.BitField
import ContainerFS.Bpf.Instruction
import ContainerFS.Bpf.Interpreter
import ContainerFS.Bpf.Safety
import ContainerFS.Bpf.Classic
import ContainerFS.Bpf.ProgramBuilder
import ContainerFS.Bpf.Labels
import ContainerFS.Seccomp.Build
import ContainerFS.Lib.Varint
import ContainerFS.Zar.Writer
import ContainerFS.Imgfs.Mount
import ContainerFS.Zar.RoundTrip
import ContainerFS.Fs.Union
import ContainerFS.Lock.LockSet
import ContainerFS.Net.IPv4
import ContainerFS.Pipe.Rx
import ContainerFS.Tcp.Sack
import ContainerFS.Tcp.SackBlocks
import ContainerFS.Tcp.Receiver
import ContainerFS.P9.Codec
import ContainerFS.P9.Confinement
import ContainerFS.P9.Transport
import ContainerFS.Zar.Layout
import ContainerFS.Semaphore.Set
import ContainerFS.Stack.Demuxer
import ContainerFS.Loader.Elf
import ContainerFS.Lib.Queues
import ContainerFS.Futex.Manager
import ContainerFS.Futex.Refinement
import ContainerFS.Segment.Lookup
import ContainerFS.Segment.Slices
import ContainerFS.Segment.Denote
import ContainerFS.Auth.IdMap
import ContainerFS.Auth.Translation
import ContainerFS.Usermem.Page
import ContainerFS.Fsutil.FileRangeSet
import ContainerFS.Seccomp.Rules
import ContainerFS.P9.Version
import ContainerFS.Lib.OnesComplement
import ContainerFS.Net.Checksum
import ContainerFS.Tcp.Options
import ContainerFS.Ports.Manager
import ContainerFS.Futex.WakeOp
import ContainerFS.Lib.MachineInt
import ContainerFS.Ktime.Setting
import ContainerFS.Pipe.Kernel
import ContainerFS.Usermem.AddrRangeSeq
import ContainerFS.Safemem.BlockSeq
import ContainerFS.Lib.Utf8
import ContainerFS.Tty.LineDiscipline
import ContainerFS.Time.Parameters
import ContainerFS.Tcp.Cookies
import ContainerFS.Tcp.Conntrack
import ContainerFS.Lib.Fairness
import ContainerFS.Tmutex.Mutex
import ContainerFS.Tmutex.Liveness
import ContainerFS.Segment.Span
import ContainerFS.Mm.Vma
import ContainerFS.Mm.Syscalls
import ContainerFS.Mm.Accounting
import ContainerFS.Mm.BrkTasks
