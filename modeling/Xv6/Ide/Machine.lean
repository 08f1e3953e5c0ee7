import Xv6.Foundation.Chain
import Xv6.Foundation.Transition
import Xv6.Param

/-! # The disk driver

`ide.c` with the processes that call `iderw`, the interrupt handler and the device. What
happens while `idelock` is held is one step; `sleep` gives the lock up, and the process goes
on with the lock again after it has been woken up. The device takes one command at a time
and raises one interrupt when it has completed it. A panic is no step.
-/

namespace Xv6.Ide

/-- A buffer without its link and its lock. `valid` and `dirty` are the two flags. -/
structure Buf where
  dev : UInt32
  blockno : UInt32
  valid : Bool
  dirty : Bool
  data : Block

abbrev SECTOR_SIZE : Nat := 512

/-- The drive that `idestart` selects. -/
def Buf.drive (buf : Buf) : UInt32 := buf.dev &&& 1

def Buf.sector (buf : Buf) : UInt32 := buf.blockno * UInt32.ofNat (BSIZE / SECTOR_SIZE)

/-- The test with which `iderw` waits for its request. -/
def Buf.Synced (buf : Buf) : Prop := buf.valid = true ∧ buf.dirty = false

instance (buf : Buf) : Decidable buf.Synced := inferInstanceAs (Decidable (_ ∧ _))

inductive Command
  | read (drive sector : UInt32)
  | write (drive sector : UInt32) (data : Block)

/-- The command that `idestart` gives for a buffer. -/
def Buf.command (buf : Buf) : Command :=
  if buf.dirty then .write buf.drive buf.sector buf.data else .read buf.drive buf.sector

/-- After a command the device has raised an interrupt, and its data register has what it
has read. -/
inductive Device
  | idle
  | working (command : Command)
  | finished (command : Command) (register : Block)

/-- Where a process is: outside of `iderw`, or in its loop, asleep or not. -/
inductive Control (nbuf : Nat)
  | outside
  | asleep (b : Fin nbuf)
  | awake (b : Fin nbuf)
  deriving DecidableEq

/-- A call of `iderw`: the buffer, and what was in it. -/
structure Request (nbuf : Nat) where
  b : Fin nbuf
  buf : Buf

/-- The last three fields have the calls of `iderw`, the buffers that `idestart` was called
with, and the requests that `ideintr` has completed, all of them in order. -/
structure State (nbuf nproc : Nat) where
  bufs : Fin nbuf → Buf
  queue : Chain (Fin nbuf)
  device : Device
  disk : UInt32 → UInt32 → Block
  havedisk1 : Bool
  control : Fin nproc → Control nbuf
  calls : List (Request nbuf)
  started : List (Fin nbuf)
  completed : List (Request nbuf)

/-- `wake` is a wakeup that has nothing to do with the request, as by `kill`; `edit` is
whatever the owner of a buffer does with it outside of `iderw`. -/
inductive Action (nbuf nproc : Nat)
  | iderw (p : Fin nproc) (b : Fin nbuf)
  | complete
  | ideintr
  | wake (p : Fin nproc)
  | resume (p : Fin nproc)
  | edit (b : Fin nbuf) (buf : Buf)

variable {nbuf nproc : Nat}

/-- The process is in `iderw` with the buffer. -/
def Control.Uses (control : Control nbuf) (b : Fin nbuf) : Prop :=
  control = .asleep b ∨ control = .awake b

instance (control : Control nbuf) (b : Fin nbuf) : Decidable (control.Uses b) :=
  inferInstanceAs (Decidable (_ ∨ _))

def put (disk : UInt32 → UInt32 → Block) (drive sector : UInt32) (data : Block) :
    UInt32 → UInt32 → Block :=
  Function.update disk drive (Function.update (disk drive) sector data)

/-- What the device does to the disk, and what it leaves in its register. -/
def Command.execute (disk : UInt32 → UInt32 → Block) :
    Command → (UInt32 → UInt32 → Block) × Block
  | .read drive sector => (disk, disk drive sector)
  | .write drive sector data => (put disk drive sector data, data)

namespace State

variable (state : State nbuf nproc)

/-- Some process is in `iderw` with the buffer. -/
def InUse (b : Fin nbuf) : Prop := ∃ p, (state.control p).Uses b

instance (b : Fin nbuf) : Decidable (state.InUse b) :=
  inferInstanceAs (Decidable (∃ _, _))

def setBuf (b : Fin nbuf) (buf : Buf) : State nbuf nproc :=
  { state with bufs := Function.update state.bufs b buf }

def setControl (p : Fin nproc) (control : Control nbuf) : State nbuf nproc :=
  { state with control := Function.update state.control p control }

def idestart (b : Fin nbuf) : Option (State nbuf nproc) :=
  if FSSIZE ≤ (state.bufs b).blockno.toNat then
    none
  else
    some { state with
      device := .working (state.bufs b).command
      started := state.started ++ [b] }

/-- The test of the loop in `iderw`: the process returns, or goes to sleep. -/
def await (p : Fin nproc) (b : Fin nbuf) : State nbuf nproc :=
  if (state.bufs b).Synced then state.setControl p .outside else state.setControl p (.asleep b)

/-- Start the disk if the buffer is the first of the queue. -/
def startFirst (b : Fin nbuf) : Option (State nbuf nproc) :=
  if state.queue.first = some b then state.idestart b else some state

/-- `iderw` up to its first sleep. -/
def iderw (p : Fin nproc) (b : Fin nbuf) : Option (State nbuf nproc) :=
  if (state.bufs b).Synced then
    none
  else if (state.bufs b).dev ≠ 0 ∧ state.havedisk1 = false then
    none
  else
    (state.queue.append (nbuf + 1) b).bind fun queue =>
      let queued : State nbuf nproc :=
        { state with queue := queue, calls := state.calls ++ [⟨b, state.bufs b⟩] }
      (queued.startFirst b).map fun started => started.await p b

/-- `ideintr` up to `wakeup`, for the first buffer of the queue. -/
def finish (b : Fin nbuf) (register : Block) : State nbuf nproc :=
  let buf := state.bufs b
  { state with
    queue := state.queue.unlinkFirst b
    device := .idle
    bufs := Function.update state.bufs b
      { buf with data := if buf.dirty then buf.data else register, valid := true, dirty := false }
    control := fun p => if state.control p = .asleep b then .awake b else state.control p
    completed := state.completed ++ [⟨b, buf⟩] }

def startNext : Option (State nbuf nproc) :=
  match state.queue.first with
  | none => some state
  | some b => state.idestart b

/-- The handler, when the device has left `register`. -/
def ideintr (register : Block) : Option (State nbuf nproc) :=
  match state.queue.first with
  | none => some { state with device := .idle }
  | some b => (state.finish b register).startNext

end State

def step (state : State nbuf nproc) : Action nbuf nproc → Option (State nbuf nproc)
  | .iderw p b =>
      if state.control p = .outside ∧ ¬state.InUse b then state.iderw p b else none
  | .complete =>
      match state.device with
      | .working command =>
          let (disk, register) := command.execute state.disk
          some { state with disk := disk, device := .finished command register }
      | _ => none
  | .ideintr =>
      match state.device with
      | .finished _ register => state.ideintr register
      | _ => none
  | .wake p =>
      match state.control p with
      | .asleep b => some (state.setControl p (.awake b))
      | _ => none
  | .resume p =>
      match state.control p with
      | .awake b => some (state.await p b)
      | _ => none
  | .edit b buf => if state.InUse b then none else some (state.setBuf b buf)

/-- After `ideinit`. -/
def start (nbuf nproc : Nat) (bufs : Fin nbuf → Buf) (disk : UInt32 → UInt32 → Block)
    (havedisk1 : Bool) : State nbuf nproc where
  bufs := bufs
  queue := ⟨none, fun _ => none⟩
  device := .idle
  disk := disk
  havedisk1 := havedisk1
  control := fun _ => .outside
  calls := []
  started := []
  completed := []

end Xv6.Ide
