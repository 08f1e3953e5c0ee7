import Xv6.Foundation.Ring
import Xv6.Foundation.Transition
import Xv6.Ptable.Table

/-! # Pipes

`pipe.c` with any number of processes that read, write and close one pipe. A step is what
a process does to the pipe between two points at which a kill can come in between or the
lock of the pipe changes hands. Processes are those of the process table; which of the
runnable ones run, and what processes outside of the pipe do, is left open. The open files
that refer to the pipe are counted for each process, as an end is closed with the last of
them.
-/

namespace Xv6.Pipes

open Ptable (Table Channel)
open Function (update)

def pipesize : Nat := 512

instance : NeZero pipesize := ⟨by decide⟩

/-- `struct pipe`. -/
structure Pipe where
  data : Fin pipesize → UInt8
  nread : UInt32
  nwrite : UInt32
  readopen : Bool
  writeopen : Bool

namespace Pipe

def ring (pipe : Pipe) : Ring pipesize UInt8 := ⟨pipe.data, pipe.nread, pipe.nwrite⟩

def Empty (pipe : Pipe) : Prop := pipe.nread = pipe.nwrite

def Full (pipe : Pipe) : Prop := pipe.nwrite = pipe.nread + UInt32.ofNat pipesize

instance (pipe : Pipe) : Decidable pipe.Empty := inferInstanceAs (Decidable (_ = _))

instance (pipe : Pipe) : Decidable pipe.Full := inferInstanceAs (Decidable (_ = _))

/-- `p->data[p->nwrite++ % PIPESIZE] = byte`. -/
def store (pipe : Pipe) (byte : UInt8) : Pipe :=
  { pipe with
    data := update pipe.data (Ring.slot pipesize pipe.nwrite) byte
    nwrite := pipe.nwrite + 1 }

/-- `p->data[p->nread++ % PIPESIZE]`. -/
def next (pipe : Pipe) : UInt8 := pipe.data (Ring.slot pipesize pipe.nread)

def take (pipe : Pipe) : Pipe := { pipe with nread := pipe.nread + 1 }

def isOpen (pipe : Pipe) : Bool → Bool
  | false => pipe.readopen
  | true => pipe.writeopen

/-- The assignment of `pipeclose`. -/
def close (pipe : Pipe) : Bool → Pipe
  | false => { pipe with readopen := false }
  | true => { pipe with writeopen := false }

end Pipe

/-- Where a process is in a call on the pipe, with the arguments and local variables of the
call. `since` is the value of `i` when the lock was last acquired. -/
inductive Control
  | outside
  | readStart (n : Int32)
  | readWait (n : Int32)
  | readSleep (n : Int32)
  | readAsleep (n : Int32)
  | readLoop (n : Int32) (i : Nat)
  | writeStart (addr : Nat → UInt8) (n : Int32)
  | writeLoop (addr : Nat → UInt8) (n : Int32) (i since : Nat)
  | writeSleep (addr : Nat → UInt8) (n : Int32) (i : Nat)
  | writeAsleep (addr : Nat → UInt8) (n : Int32) (i : Nat)
  | closing (writable : Bool)

/-- `refs` counts, for the read end and the write end, the open files of each process. -/
structure State (nproc : Nat) where
  pipe : Pipe
  table : Table nproc
  control : Fin nproc → Control
  lock : Option (Fin nproc)
  refs : Bool → Fin nproc → Nat
  freed : Bool

/-- What a running process does. `share` gives an open file to a child, or to the process
itself. -/
inductive Act (nproc : Nat)
  | proceed
  | yield
  | read (n : Int32)
  | write (addr : Nat → UInt8) (n : Int32)
  | close (writable : Bool)
  | share (q : Fin nproc) (writable : Bool)

/-- A step of the system. `other` is whatever else happens to the entry of a process that is
not in a call on the pipe. -/
inductive Action (nproc : Nat)
  | act (p : Fin nproc) (act : Act nproc)
  | run (p : Fin nproc)
  | kill (pid : Int32)
  | other (p : Fin nproc) (entry : Ptable.Proc nproc)

variable {nproc : Nat}

/-- `&p->nread`, on which readers sleep. -/
def readChan : Channel nproc := .other 0

/-- `&p->nwrite`, on which writers sleep. -/
def writeChan : Channel nproc := .other 1

/-- The channel that `pipeclose` wakes up. -/
def closeChan : Bool → Channel nproc
  | false => writeChan
  | true => readChan

namespace State

variable (state : State nproc)

def setControl (p : Fin nproc) (control : Control) : State nproc :=
  { state with control := update state.control p control }

def goto (p : Fin nproc) (control : Control) (lock : Option (Fin nproc)) : State nproc :=
  { state with control := update state.control p control, lock := lock }

/-- `sleep` on a channel of the pipe, which releases the lock of the pipe. -/
def sleepOn (p : Fin nproc) (chan : Channel nproc) (control : Control) : State nproc :=
  { state with
    table := state.table.modify p fun proc => { proc with chan := some chan, state := .sleeping }
    control := update state.control p control
    lock := none }

/-- The end of `sleep`, once the lock of the pipe is free. -/
def reacquire (p : Fin nproc) (control : Control) : State nproc :=
  { state with
    table := state.table.modify p fun proc => { proc with chan := none }
    control := update state.control p control
    lock := some p }

/-- The last steps of a call that ends with a wakeup. -/
def wakeAndLeave (p : Fin nproc) (chan : Channel nproc) : State nproc :=
  { state with
    table := state.table.wakeup1 chan
    control := update state.control p .outside
    lock := none }

def pipeclose (p : Fin nproc) (writable : Bool) : State nproc :=
  { state with
    pipe := state.pipe.close writable
    table := state.table.wakeup1 (closeChan writable)
    control := update state.control p .outside
    freed := state.freed ||
      ((state.pipe.close writable).readopen == false &&
        (state.pipe.close writable).writeopen == false) }

/-- The next step of a process in `piperead`, `pipewrite` or `pipeclose`. -/
def proceed (p : Fin nproc) : Option (State nproc) :=
  match state.control p with
  | .outside => none
  | .readStart n =>
      if state.lock = none then some (state.goto p (.readWait n) (some p)) else none
  | .readWait n =>
      if state.pipe.Empty ∧ state.pipe.writeopen = true then
        if (state.table p).killed = true then some (state.goto p .outside none)
        else some (state.setControl p (.readSleep n))
      else some (state.setControl p (.readLoop n 0))
  | .readSleep n => some (state.sleepOn p readChan (.readAsleep n))
  | .readAsleep n =>
      if state.lock = none then some (state.reacquire p (.readWait n)) else none
  | .readLoop n i =>
      if i < n.toInt ∧ ¬state.pipe.Empty then
        some { state with
          pipe := state.pipe.take
          control := update state.control p (.readLoop n (i + 1)) }
      else some (state.wakeAndLeave p writeChan)
  | .writeStart addr n =>
      if state.lock = none then some (state.goto p (.writeLoop addr n 0 0) (some p)) else none
  | .writeLoop addr n i since =>
      if i < n.toInt then
        if state.pipe.Full then
          if state.pipe.readopen = false ∨ (state.table p).killed = true then
            some (state.goto p .outside none)
          else
            some { state with
              table := state.table.wakeup1 readChan
              control := update state.control p (.writeSleep addr n i) }
        else
          some { state with
            pipe := state.pipe.store (addr i)
            control := update state.control p (.writeLoop addr n (i + 1) since) }
      else some (state.wakeAndLeave p readChan)
  | .writeSleep addr n i => some (state.sleepOn p writeChan (.writeAsleep addr n i))
  | .writeAsleep addr n i =>
      if state.lock = none then some (state.reacquire p (.writeLoop addr n i i)) else none
  | .closing writable => if state.lock = none then some (state.pipeclose p writable) else none

/-- What the call that the process is in returns in its next step. -/
def returns (p : Fin nproc) : Option Int32 :=
  match state.control p with
  | .readWait _ =>
      if (state.pipe.Empty ∧ state.pipe.writeopen = true) ∧ (state.table p).killed = true
      then some (-1) else none
  | .readLoop n i => if i < n.toInt ∧ ¬state.pipe.Empty then none else some (Int32.ofNat i)
  | .writeLoop _ n i _ =>
      if i < n.toInt then
        if state.pipe.Full ∧ (state.pipe.readopen = false ∨ (state.table p).killed = true)
        then some (-1) else none
      else some n
  | _ => none

/-- The step that leaves `piperead` or `pipewrite` is the one that returns. -/
theorem proceed_outside {state next : State nproc} {p : Fin nproc}
    (proceeds : state.proceed p = some next) (notClosing : ∀ writable,
      state.control p ≠ .closing writable) :
    next.control p = .outside ↔ (state.returns p).isSome := by
  rw [proceed] at proceeds
  rw [returns]
  cases isControl : state.control p with
  | closing writable => exact absurd isControl (notClosing writable)
  | _ =>
    simp only [isControl] at proceeds ⊢
    repeat' split at proceeds
    all_goals cases proceeds
    all_goals simp_all [goto, setControl, sleepOn, reacquire, wakeAndLeave, not_lt_of_ge]

/-- `fileclose`: the last open file closes the end of the pipe. -/
def fileclose (p : Fin nproc) (writable : Bool) : State nproc :=
  let refs := update state.refs writable
    (update (state.refs writable) p (state.refs writable p - 1))
  if ∀ q, refs writable q = 0 then
    { state with refs := refs, control := update state.control p (.closing writable) }
  else { state with refs := refs }

def share (q : Fin nproc) (writable : Bool) : State nproc :=
  let refs := update state.refs writable
    (update (state.refs writable) q (state.refs writable q + 1))
  { state with refs := refs }

end State

/-- A step of process `p`, which is running. -/
def processStep (state : State nproc) (p : Fin nproc) (act : Act nproc) : Option (State nproc) :=
  match state.control p, act with
  | _, .proceed => state.proceed p
  | _, .yield =>
      if state.lock = some p then none
      else some { state with table := state.table.modify p fun proc =>
        { proc with state := .runnable } }
  | .outside, .read n =>
      if 0 < state.refs false p then some (state.setControl p (.readStart n)) else none
  | .outside, .write addr n =>
      if 0 < state.refs true p then some (state.setControl p (.writeStart addr n)) else none
  | .outside, .close writable =>
      if 0 < state.refs writable p then some (state.fileclose p writable) else none
  | .outside, .share q writable =>
      match state.control q with
      | .outside => if 0 < state.refs writable p then some (state.share q writable) else none
      | _ => none
  | _, _ => none

def step (state : State nproc) : Action nproc → Option (State nproc)
  | .act p act => if (state.table p).state = .running then processStep state p act else none
  | .run p =>
      if (state.table p).state = .runnable then
        some { state with table := state.table.modify p fun proc => { proc with state := .running } }
      else none
  | .kill pid => some { state with table := (state.table.kill pid).1 }
  | .other p entry =>
      match state.control p with
      | .outside =>
          if entry.chan = some readChan ∨ entry.chan = some writeChan then none
          else some { state with table := update state.table p entry }
      | _ => none

/-- The state after `pipealloc` and `sys_pipe`, in which the process `creator` has both ends
open. What is in the page that was allocated is not known. -/
def created (data : Fin pipesize → UInt8) (table : Table nproc) (creator : Fin nproc) :
    State nproc where
  pipe := ⟨data, 0, 0, true, true⟩
  table := table
  control := fun _ => .outside
  lock := none
  refs := fun _ p => if p = creator then 1 else 0
  freed := false

end Xv6.Pipes
