import Xv6.Log.Recovery
import Xv6.Log.Reservation
import Xv6.Dir.Dangling
import Xv6.Ptable.Reaping
import Xv6.Ptable.Kill
import Xv6.Pipes.Fifo
import Xv6.Pipes.Sleepers
import Xv6.Fs.Successor
import Xv6.Ptable.Times
import Xv6.Files.Calls
import Xv6.Sys.Lifetime
import Xv6.Ptable.Round
import Xv6.Sys.Transactions
import Xv6.Dir.Operations
import Xv6.Sleep.Lock
import Xv6.Ide.Queue
import Xv6.Console.Lines
import Xv6.Files.Reports
import Xv6.User.Grep
import Xv6.Boot.Mp
import Xv6.User.Shell
import Xv6.Vm.Mapping
import Xv6.User.Memmove
import Xv6.Bio.Cache
