import RtSmart.Kernel.SchedulerRun
import RtSmart.Ipc.Semaphore
import RtSmart.Ipc.Event
import RtSmart.Ipc.MutexWaiters
import RtSmart.Ipc.MessageQueueConserved
import RtSmart.Kernel.SoftTimer
import RtSmart.Drivers.Ringbuffer
import RtSmart.Lwp.ChannelPairing
import RtSmart.Lwp.AvlRun
import RtSmart.Lwp.PidRun
import RtSmart.Lwp.Signal
import RtSmart.Lwp.Futex
import RtSmart.Lwp.WaitReap
import RtSmart.Lwp.PmutexNormal
import RtSmart.Lwp.PmutexLifetime
import RtSmart.Mm.PageInv
import RtSmart.Lwp.Munmap
import RtSmart.Lwp.Fork
import RtSmart.Lwp.ShmInv
import RtSmart.Lwp.ForkCopy
import RtSmart.Lwp.ShmOps
import RtSmart.Lwp.ShmRefs
import RtSmart.Lwp.ShmObjects
import RtSmart.Dfs.Mount
import RtSmart.Drivers.Completion
import RtSmart.Drivers.Waitqueue
import RtSmart.Drivers.Ringblk
import RtSmart.Drivers.DataqueueRun
import RtSmart.Drivers.Pipe
import RtSmart.Lib.Refs
import RtSmart.Dfs.Fd
import RtSmart.Dfs.FdInv
import RtSmart.Dfs.FdRefs
import RtSmart.Dfs.FdNodes
import RtSmart.Dfs.FdOpen
import RtSmart.Dfs.FnodeCount
import RtSmart.Drivers.Workqueue
import RtSmart.Drivers.WorkqueueInv
import RtSmart.Drivers.WorkqueueRun
import RtSmart.Lib.Search
import RtSmart.Wlan.Command
import RtSmart.Wlan.CommandInv
import RtSmart.Lib.LinkTree
import RtSmart.Dfs.Tmpfs
import RtSmart.Dfs.TmpfsTree
import RtSmart.Dfs.Poll
import RtSmart.Dfs.PollInv
import RtSmart.Lib.Block
import RtSmart.Lib.KeyWrap
import RtSmart.Wlan.Crypto
import RtSmart.Wlan.Eapol
import RtSmart.Wlan.HostapdStation
import RtSmart.Wlan.Hostapd
import RtSmart.Wlan.HostapdInv
import RtSmart.Wlan.HostapdHandshake
import RtSmart.Wlan.HostapdAuthorized
import RtSmart.Wlan.SupplicantFrame
import RtSmart.Wlan.Supplicant
import RtSmart.Wlan.SupplicantHandshake
import RtSmart.Wlan.SupplicantAuthorized
import RtSmart.Wlan.Bus
import RtSmart.Wlan.BusLifecycle
import RtSmart.Lib.Counted
import RtSmart.Wlan.Control
import RtSmart.Wlan.ControlLifetime
import RtSmart.Drivers.MmcsdBlk
import RtSmart.Drivers.MmcsdBlkRemove
import RtSmart.Drivers.Regulator
import RtSmart.Drivers.RegulatorPads
import RtSmart.Wlan.Offload
import RtSmart.Wlan.OffloadStale
import RtSmart.Drivers.NTty
import RtSmart.Drivers.Terminal
import RtSmart.Drivers.TtyFlags
import RtSmart.Drivers.TerminalLines
import RtSmart.Drivers.TerminalRun
import RtSmart.Mm.PageBuddy
import RtSmart.Mm.PageRun
import RtSmart.Mm.PageGroups
import RtSmart.Mm.PageRestore
import RtSmart.Mm.PageRefs
import RtSmart.Drivers.RingbufferForce
import RtSmart.Kernel.TimerCheck
import RtSmart.Mm.PageOrders
import RtSmart.Lwp.FutexTimeout
import RtSmart.Lwp.FutexReason
import RtSmart.Lwp.SignalKill
import RtSmart.Drivers.RingblkQueue
import RtSmart.Drivers.WorkqueueSync
import RtSmart.Drivers.PipeProgress
import RtSmart.Dfs.PathBuffer
import RtSmart.Mm.Mmu
import RtSmart.Lwp.UserCopy
import RtSmart.Dfs.MountLookup
import RtSmart.Dfs.PollTimeout
import RtSmart.Dfs.Select
import RtSmart.Dfs.TmpfsData
import RtSmart.Dfs.TmpfsNames
import RtSmart.Wlan.Hash
import RtSmart.Wlan.HashStream
import RtSmart.Ota.Sha256
import RtSmart.Lib.Limbs
import RtSmart.Wlan.Vli
import RtSmart.Drivers.TtyOutput
import RtSmart.Wlan.Ecc
import RtSmart.Drivers.TerminalRoom
import RtSmart.Usb.HidParser
import RtSmart.Usb.HidLayout
import RtSmart.Usb.HidReport
import RtSmart.Wlan.BssCache
import RtSmart.Drivers.RegulatorCore
import RtSmart.Wlan.KeyData
import RtSmart.Wlan.Handshake
import RtSmart.Lib.ByteMem
import RtSmart.Drivers.GptProbe
import RtSmart.Lwp.ProcessArgs
import RtSmart.Kernel.Vsnprintf
import RtSmart.Wlan.SecurityIe
