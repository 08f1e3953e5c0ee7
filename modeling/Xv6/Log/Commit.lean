import Xv6.Param
import Xv6.Foundation.Crash

/-! # Writing the log

The part of `log.c` that moves blocks between the buffer cache, the log and
their home locations: `read_head`, `write_head`, `write_log`, `install_trans`,
`commit` and `recover_from_log`. Every block write goes through `bwrite`, which
records it, so that the order in which the disk sees the writes can be stated.
-/

namespace Xv6.Log

/-- Where the log lies on disk, as `initlog` reads it from the superblock. There
is room for the header block at least. -/
structure Area where
  start : Nat
  size : Nat
  holdsHeader : 0 < size

def Area.Contains (area : Area) (blockno : Nat) : Prop :=
  area.start ≤ blockno ∧ blockno < area.start + area.size

/-- The disk, the valid buffers of the cache, and the in-memory header
`log.lh`, kept as the list of the `n` block numbers in use. -/
structure Machine where
  disk : Disk
  buffers : Nat → Option Block
  lh : List Nat
  /-- Every block write issued so far, oldest first. -/
  written : List (Nat × Block)

/-- The contents a locked buffer of the block has: those of the cached buffer
if there is one, else those of the disk. -/
def Machine.bread (machine : Machine) (blockno : Nat) : Block :=
  (machine.buffers blockno).getD (machine.disk blockno)

def Machine.bwrite (machine : Machine) (blockno : Nat) (data : Block) : Machine :=
  { machine with
    disk := Function.update machine.disk blockno data
    buffers := Function.update machine.buffers blockno (some data)
    written := machine.written ++ [(blockno, data)] }

/-! ## The header block -/

/-- Field `n` of a header block, a signed 32-bit integer. -/
def headerCount (block : Block) : Int :=
  (BitVec.ofNat 32 (block.getLE 4 0)).toInt

def headerEntry (block : Block) (index : Nat) : Nat :=
  block.getLE 4 (4 + 4 * index)

def headerBlocks (block : Block) : List Nat :=
  (List.range (headerCount block).toNat).map (headerEntry block)

/-- Store `n` and the entries below `n`. Entries at and above `n` keep what the
buffer held. -/
def putHeader (buffer : Block) (lh : List Nat) : Block :=
  (buffer.putLE 4 0 lh.length).putWords 4 (fun index => lh.getD index 0) lh.length

def readHead (area : Area) (machine : Machine) : Machine :=
  { machine with lh := headerBlocks (machine.bread area.start) }

def writeHead (area : Area) (machine : Machine) : Machine :=
  machine.bwrite area.start (putHeader (machine.bread area.start) machine.lh)

/-! ## Moving the data blocks

`write_log` and `install_trans` are the same loop with the roles of the log
block and the home block exchanged. -/

def copyBlocks (source target : Nat → Nat) (count : Nat) (machine : Machine) : Machine :=
  (List.range count).foldl
    (fun machine tail => machine.bwrite (target tail) (machine.bread (source tail)))
    machine

def Area.dataBlock (area : Area) (tail : Nat) : Nat := area.start + tail + 1

def Machine.homeBlock (machine : Machine) (tail : Nat) : Nat := machine.lh.getD tail 0

def writeLog (area : Area) (machine : Machine) : Machine :=
  copyBlocks machine.homeBlock area.dataBlock machine.lh.length machine

def installTrans (area : Area) (machine : Machine) : Machine :=
  copyBlocks area.dataBlock machine.homeBlock machine.lh.length machine

def clearHeader (machine : Machine) : Machine :=
  { machine with lh := [] }

def commit (area : Area) (machine : Machine) : Machine :=
  if 0 < machine.lh.length then
    writeHead area (clearHeader (installTrans area (writeHead area (writeLog area machine))))
  else
    machine

def recoverFromLog (area : Area) (machine : Machine) : Machine :=
  writeHead area (clearHeader (installTrans area (readHead area machine)))

/-- The machine after a reboot: only the disk survives. -/
def boot (disk : Disk) : Machine where
  disk := disk
  buffers := fun _ => none
  lh := []
  written := []

/-! The block writes `commit` performs, and those `recover_from_log` performs on
a disk it finds. -/

def commitWrites (area : Area) (machine : Machine) : List (Nat × Block) :=
  (commit area { machine with written := [] }).written

def recoveryWrites (area : Area) (disk : Disk) : List (Nat × Block) :=
  (recoverFromLog area (boot disk)).written

end Xv6.Log
