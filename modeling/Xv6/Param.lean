import Xv6.Foundation.Bytes

/-! # Constants of `param.h` and `fs.h` -/

namespace Xv6

abbrev NPROC : Nat := 64

abbrev NINODE : Nat := 50

instance (priority := high) : NeZero NINODE := ⟨by decide⟩

abbrev NDEV : Nat := 10

abbrev MAXOPBLOCKS : Nat := 10

abbrev LOGSIZE : Nat := MAXOPBLOCKS * 3

abbrev NBUF : Nat := MAXOPBLOCKS * 3

abbrev FSSIZE : Nat := 1000

abbrev BSIZE : Nat := 512

abbrev Block := Bytes BSIZE

abbrev Disk := Nat → Block

end Xv6
