import Xv6.Log.Commit
import Xv6.Foundation.Transition

/-! # Transactions shared by many operations

`begin_op`, `log_write` and `end_op` as run by any number of processes. The
steps of the system are the critical sections of `log.lock`, the unlocked tests
at the head of `log_write`, and the single block writes of `commit`.
-/

namespace Xv6.Log

/-- The panics, and the store past the end of `lh.block`, which the source does not notice. -/
inductive Panic
  | logCommitting
  | tooBigTransaction
  | logWriteOutsideTransaction
  | blockOverrun
  deriving DecidableEq

/-- How far the committing process has come in `commit`. -/
inductive CommitPoint
  | start
  | writeLog (tail : Nat)
  | writeHead
  | install (tail : Nat)
  | clear
  | writeCleared
  | done
  deriving DecidableEq

/-- What a process is doing to the log. An operation in progress carries its
number and the distinct blocks it has passed to `log_write` so far. -/
inductive Phase
  | idle
  | sleeping
  | woken
  | inOp (op : Nat) (blocks : List Nat)
  | writing (op : Nat) (blocks : List Nat) (blockno : Nat)
  | committing (point : CommitPoint)
  | panicked (cause : Panic)
  deriving DecidableEq

/-- One call of `log_write`: which operation made it, for which block, and
which transaction was open, counting from zero. -/
structure LogEntry where
  op : Nat
  blockno : Nat
  transaction : Nat

/-- The log shared by all processes. The last three fields only record history:
the number for the next operation, the block lists of the transactions whose
header has reached the disk, and all calls of `log_write`. -/
structure State (Process : Type) where
  machine : Machine
  outstanding : Int
  committing : Bool
  phase : Process → Phase
  nextOp : Nat
  committed : List (List Nat)
  logged : List LogEntry

inductive Action (Process : Type)
  | beginOp (process : Process)
  | logWrite (process : Process) (blockno : Nat) (data : Block)
  | logAppend (process : Process)
  | endOp (process : Process)
  | commitStep (process : Process)
  | kill (process : Process)

section

variable {Process : Type} [DecidableEq Process]

def initial (machine : Machine) : State Process where
  machine := { machine with lh := [] }
  outstanding := 0
  committing := false
  phase := fun _ => .idle
  nextOp := 0
  committed := []
  logged := []

namespace State

def setPhase (state : State Process) (process : Process) (phase : Phase) : State Process :=
  { state with phase := Function.update state.phase process phase }

/-- `wakeup(&log)`. -/
def wakeup (state : State Process) : State Process :=
  { state with
    phase := fun process =>
      match state.phase process with
      | .sleeping => .woken
      | phase => phase }

/-- The test of `begin_op` that lets an operation in. -/
def Admits (state : State Process) : Prop :=
  state.committing = false ∧
    (state.machine.lh.length : Int) + (state.outstanding + 1) * MAXOPBLOCKS ≤ LOGSIZE

instance (state : State Process) : Decidable state.Admits :=
  inferInstanceAs (Decidable (_ ∧ _))

/-- One pass through the loop of `begin_op`. -/
def beginOp (state : State Process) (process : Process) : State Process :=
  if state.Admits then
    { state.setPhase process (.inOp state.nextOp []) with
      outstanding := state.outstanding + 1
      nextOp := state.nextOp + 1 }
  else
    state.setPhase process .sleeping

/-- The tests `log_write` makes before it takes the lock. The caller has
modified the buffer by then. -/
def logWrite (area : Area) (state : State Process) (process : Process) (op : Nat)
    (blocks : List Nat) (blockno : Nat) (data : Block) : State Process :=
  if LOGSIZE ≤ state.machine.lh.length ∨
      (area.size : Int) - 1 ≤ state.machine.lh.length then
    state.setPhase process (.panicked .tooBigTransaction)
  else if state.outstanding < 1 then
    state.setPhase process (.panicked .logWriteOutsideTransaction)
  else
    { state.setPhase process (.writing op blocks blockno) with
      machine := { state.machine with
        buffers := Function.update state.machine.buffers blockno (some data) } }

/-- A block that is not in the header is stored past the end of the array. Several processes
can have passed the tests of `log_write` when one entry was left. -/
def Overruns (state : State Process) (blockno : Nat) : Prop :=
  blockno ∉ state.machine.lh ∧ LOGSIZE ≤ state.machine.lh.length

instance (state : State Process) (blockno : Nat) : Decidable (state.Overruns blockno) :=
  inferInstanceAs (Decidable (_ ∧ _))

/-- The locked part of `log_write`: a block already in the header is absorbed. -/
def logAppend (state : State Process) (process : Process) (op : Nat)
    (blocks : List Nat) (blockno : Nat) : State Process :=
  { state.setPhase process (.inOp op (blocks.insert blockno)) with
    machine := { state.machine with
      lh := if blockno ∈ state.machine.lh then state.machine.lh
        else state.machine.lh ++ [blockno] }
    logged := ⟨op, blockno, state.committed.length⟩ :: state.logged }

/-- The first critical section of `end_op`. -/
def endOp (state : State Process) (process : Process) : State Process :=
  let state := { state with outstanding := state.outstanding - 1 }
  if state.committing then
    state.setPhase process (.panicked .logCommitting)
  else if state.outstanding = 0 then
    { state.setPhase process (.committing .start) with committing := true }
  else
    (state.setPhase process .idle).wakeup

/-- One block write of `commit`, or the second critical section of `end_op`. -/
def commitStep (area : Area) (state : State Process) (process : Process) :
    CommitPoint → State Process
  | .start =>
      if 0 < state.machine.lh.length then
        state.setPhase process (.committing (.writeLog 0))
      else
        state.setPhase process (.committing .done)
  | .writeLog tail =>
      if tail < state.machine.lh.length then
        { state.setPhase process (.committing (.writeLog (tail + 1))) with
          machine := state.machine.bwrite (area.dataBlock tail)
            (state.machine.bread (state.machine.homeBlock tail)) }
      else
        state.setPhase process (.committing .writeHead)
  | .writeHead =>
      { state.setPhase process (.committing (.install 0)) with
        machine := Log.writeHead area state.machine
        committed := state.committed ++ [state.machine.lh] }
  | .install tail =>
      if tail < state.machine.lh.length then
        { state.setPhase process (.committing (.install (tail + 1))) with
          machine := state.machine.bwrite (state.machine.homeBlock tail)
            (state.machine.bread (area.dataBlock tail)) }
      else
        state.setPhase process (.committing .clear)
  | .clear =>
      { state.setPhase process (.committing .writeCleared) with
        machine := clearHeader state.machine }
  | .writeCleared =>
      { state.setPhase process (.committing .done) with
        machine := Log.writeHead area state.machine }
  | .done =>
      ({ state.setPhase process .idle with committing := false }).wakeup

end State

/-- One step of the system. `kill` may make a sleeper runnable at any time. -/
def step (area : Area) (state : State Process) : Action Process → Option (State Process)
  | .beginOp process =>
      match state.phase process with
      | .idle | .woken => some (state.beginOp process)
      | _ => none
  | .logWrite process blockno data =>
      match state.phase process with
      | .inOp op blocks => some (state.logWrite area process op blocks blockno data)
      | _ => none
  | .logAppend process =>
      match state.phase process with
      | .writing op blocks blockno =>
          if state.Overruns blockno then some (state.setPhase process (.panicked .blockOverrun))
          else some (state.logAppend process op blocks blockno)
      | _ => none
  | .endOp process =>
      match state.phase process with
      | .inOp _ _ => some (state.endOp process)
      | _ => none
  | .commitStep process =>
      match state.phase process with
      | .committing point => some (state.commitStep area process point)
      | _ => none
  | .kill process =>
      match state.phase process with
      | .sleeping => some (state.setPhase process .woken)
      | _ => none

end

end Xv6.Log
