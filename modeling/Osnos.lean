import Osnos.Exec.Execve
import Osnos.Fat.Cache
import Osnos.Fat.Create
import Osnos.Fd.Numbers
import Osnos.Fd.Open
import Osnos.Fd.Ready
import Osnos.Ipc.Failed
import Osnos.Ipc.Routing
import Osnos.Irq.Nesting
import Osnos.Libc.Malloc
import Osnos.Libc.Realpath
import Osnos.Libc.Strtol
import Osnos.Libc.Time
import Osnos.Mem.Frames
import Osnos.Mem.Paging
import Osnos.Mem.Shm
import Osnos.Net.Acked
import Osnos.Net.Chunks
import Osnos.Net.Datagrams
import Osnos.Net.Eof
import Osnos.Net.Intact
import Osnos.Net.Refused
import Osnos.Proc.Confined
import Osnos.Proc.Ranges
import Osnos.Proc.WaitStatus
import Osnos.Sched.Fair
import Osnos.Sched.Foreground
import Osnos.Sched.Frame
import Osnos.Sched.Restart
import Osnos.Shell.Args
import Osnos.Shell.Glob
import Osnos.Shell.Pipeline
import Osnos.Tools.Ovi
import Osnos.Unix.Binds
import Osnos.Unix.Slots
import Osnos.Unix.Stream
import Osnos.Vfs.Getdents
import Osnos.Vfs.Move
import Osnos.Tty.Editor
