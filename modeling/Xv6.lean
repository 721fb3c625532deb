import Xv6.Console.Discipline
import Xv6.FileSystem.Capacity
import Xv6.FileSystem.Chunks
import Xv6.FileSystem.Reservation
import Xv6.FileSystem.Resolution
import Xv6.FileSystem.Reuse.Correctness
import Xv6.FileSystem.SharedOffset.Correctness
import Xv6.Grep.Regex
import Xv6.Ide.Refinement
import Xv6.Log.Group.Commit
import Xv6.Log.Group.Reservation
import Xv6.Memmove
import Xv6.Mkfs.ReadBack
import Xv6.Pipe.Wakeup
import Xv6.Process.Account.DivideError
import Xv6.Process.Family.Kill
import Xv6.Process.Family.Reaping
import Xv6.Process.Odds
import Xv6.Process.PassRange
import Xv6.Process.Share
import Xv6.Process.StrideRound
import Xv6.Process.VirtualTime.Correctness
import Xv6.Shell.Strings
import Xv6.Sleeplock.Correctness
import Xv6.Spinlock.Correctness
import Xv6.Vm.Deallocuvm
