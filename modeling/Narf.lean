import Narf.Bpf.Packet
import Narf.Bpf.PacketResize
import Narf.Bpf.PointerArith
import Narf.Bpf.Fixpoint
import Narf.Bpf.Lattice
import Narf.Bpf.WideningChain
import Narf.Capabilities.Revocation
import Narf.Net.SackSound
import Narf.Memory.BuddyRange
import Narf.Memory.RegionSession
import Narf.Memory.VmaPressure
import Narf.Memory.AddressSpaceRun
import Narf.Net.CbpfSound
import Narf.Net.IpFragmentRun
import Narf.Net.NatOther
import Narf.Net.NatLifetime
import Narf.Ipc.EndOfStream
import Narf.Ipc.ExactlyOnce
import Narf.Rcu.GracePeriod
import Narf.Net.GroRun
import Narf.Net.Tcp.Cubic
import Narf.Net.Tcp.Integrity
import Narf.Sync.MutexRun
import Narf.Scheduler.Admission
import Narf.Scheduler.Eevdf
import Narf.Time.Clockevent
import Narf.Userspace.RecordLocks
