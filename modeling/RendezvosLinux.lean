import RendezvosLinux.Base
import RendezvosLinux.Lib.Run
import RendezvosLinux.Lib.Sharing
import RendezvosLinux.Lib.Tally
import RendezvosLinux.Fd.Table
import RendezvosLinux.Lib.Bytes
import RendezvosLinux.Lib.Calendar
import RendezvosLinux.Lib.Tlv
import RendezvosLinux.Lib.Words
import RendezvosLinux.Lib.Pages
import RendezvosLinux.Fd.TablePages
import RendezvosLinux.Fd.TableGrow
import RendezvosLinux.Fd.LowestFd
import RendezvosLinux.Fd.TableBytes
import RendezvosLinux.Fd.Pipe
import RendezvosLinux.Vfs.Handle
import RendezvosLinux.Fd.Syscall
import RendezvosLinux.Fd.Refs
import RendezvosLinux.Fd.Effects
import RendezvosLinux.Fd.HandleRefs
import RendezvosLinux.Fd.PipeRefs
import RendezvosLinux.Fd.Teardown
import RendezvosLinux.Fd.Dup2
import RendezvosLinux.Lib.Ring
import RendezvosLinux.Fd.PipeIO
import RendezvosLinux.Fd.PipeResults
import RendezvosLinux.Vfs.Path
import RendezvosLinux.Vfs.Lexical
import RendezvosLinux.Lib.Chain
import RendezvosLinux.Vfs.Namespace
import RendezvosLinux.Lib.Names
import RendezvosLinux.Vfs.Tree
import RendezvosLinux.Vfs.NsOps
import RendezvosLinux.Vfs.View
import RendezvosLinux.Vfs.NsSystem
import RendezvosLinux.Vfs.TreeShape
import RendezvosLinux.Vfs.Rename
import RendezvosLinux.Vfs.Listing
import RendezvosLinux.Vfs.Ramfs
import RendezvosLinux.Vfs.Coop
import RendezvosLinux.Vfs.CoopMoves
import RendezvosLinux.Vfs.Agree
import RendezvosLinux.Vfs.CpioReach
import RendezvosLinux.Lib.Replica
import RendezvosLinux.Vfs.Sound
import RendezvosLinux.Vfs.OpenCreate
import RendezvosLinux.Vfs.Subtree
import RendezvosLinux.Vfs.RamData
import RendezvosLinux.Vfs.HardLink
import RendezvosLinux.Vfs.PageCache
import RendezvosLinux.Vfs.RamSparse
import RendezvosLinux.Lib.Recency
import RendezvosLinux.Vfs.PcacheLru
import RendezvosLinux.Vfs.OneFile
import RendezvosLinux.Vfs.ReadWrite
import RendezvosLinux.Vfs.Transfer
import RendezvosLinux.Vfs.ReadRun
import RendezvosLinux.Vfs.SliceTable
import RendezvosLinux.Vfs.SliceCap
import RendezvosLinux.Vfs.RwJobs
import RendezvosLinux.Vfs.SharedFile
import RendezvosLinux.Vfs.Isolation
import RendezvosLinux.Vfs.Mount
import RendezvosLinux.Vfs.PathKey
import RendezvosLinux.Vfs.MountRoute
import RendezvosLinux.Vfs.BackendRegistry
import RendezvosLinux.Vfs.CpioRofs
import RendezvosLinux.Vfs.CpioRound
import RendezvosLinux.Vfs.CpioSafe
import RendezvosLinux.Vfs.CpioArchive
import RendezvosLinux.Vfs.Dirent
import RendezvosLinux.Vfs.Covered
import RendezvosLinux.Vfs.InodeNumbers
import RendezvosLinux.Lib.Cursor
import RendezvosLinux.Vfs.Getdents
import RendezvosLinux.Vfs.Scan
import RendezvosLinux.Vfs.ScanOnce
import RendezvosLinux.Vfs.Join
import RendezvosLinux.Fd.AtPaths
import RendezvosLinux.Vfs.Children
import RendezvosLinux.Vfs.GetdentsCall
import RendezvosLinux.Vfs.DirentStream
import RendezvosLinux.Vfs.ListedTypes
import RendezvosLinux.Vfs.Follow
import RendezvosLinux.Vfs.Readlink
import RendezvosLinux.Lib.Keyed
import RendezvosLinux.Ipc.Rpc
import RendezvosLinux.Ipc.PortNames
import RendezvosLinux.Ipc.SendSlot
import RendezvosLinux.Ipc.Protocol
import RendezvosLinux.Ipc.Client
import RendezvosLinux.Ipc.Jobs
import RendezvosLinux.Vfs.CoopJobs
import RendezvosLinux.Vfs.BackendIpc
import RendezvosLinux.Vfs.Blkdev
import RendezvosLinux.Ipc.ReplyPort
import RendezvosLinux.Proc.Registry
import RendezvosLinux.Proc.Reparent
import RendezvosLinux.Proc.Wait
import RendezvosLinux.Proc.WaitSearch
import RendezvosLinux.Proc.Echild
import RendezvosLinux.Proc.WaitFail
import RendezvosLinux.Proc.Clean
import RendezvosLinux.Proc.Once
import RendezvosLinux.Proc.ExitSys
import RendezvosLinux.Proc.Stranded
import RendezvosLinux.Proc.ThreadExit
import RendezvosLinux.Proc.Fork
import RendezvosLinux.Proc.ForkFail
import RendezvosLinux.Lib.PageMap
import RendezvosLinux.Lib.Stores
import RendezvosLinux.Mm.Core
import RendezvosLinux.Mm.Identity
import RendezvosLinux.Mm.Radix
import RendezvosLinux.Mm.Brk
import RendezvosLinux.Mm.Mremap
import RendezvosLinux.Mm.CowSplit
import RendezvosLinux.Mm.Fault
import RendezvosLinux.Mm.Machine
import RendezvosLinux.Mm.Protect
import RendezvosLinux.Mm.Private
import RendezvosLinux.Mm.MmapContent
import RendezvosLinux.Mm.Munmap
import RendezvosLinux.Mm.CString
import RendezvosLinux.Proc.ExecArgs
import RendezvosLinux.Proc.ExecLoad
import RendezvosLinux.Proc.ExecFiles
import RendezvosLinux.Proc.ExecStack
import RendezvosLinux.Proc.Execve
import RendezvosLinux.Proc.BootArgs
import RendezvosLinux.Mm.MmapFile
import RendezvosLinux.Signal.State
import RendezvosLinux.Signal.Deliver
import RendezvosLinux.Signal.Terminate
import RendezvosLinux.Signal.Return
import RendezvosLinux.Signal.Threads
import RendezvosLinux.Time.Ktime
import RendezvosLinux.Time.Sleep
import RendezvosLinux.Time.Poll
import RendezvosLinux.Time.Rtc
import RendezvosLinux.Signal.Entry
import RendezvosLinux.Signal.StaysPending
