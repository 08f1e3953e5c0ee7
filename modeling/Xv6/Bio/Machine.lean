import Xv6.Log.Commit
import Xv6.Foundation.Links
import Xv6.Foundation.Transition

/-! # The buffer cache

`bio.c` with the processes that use it and with `log_write`. A step ends where `bcache.lock`,
`log.lock` or the lock of a buffer is taken or released, or where the disk has served a
request. Every device has blocks of its own. A panic is no step.
-/

namespace Xv6.Bio

/-- A buffer without its links and its lock. `valid` and `dirty` are the two flags. -/
structure Buf where
  dev : UInt32
  blockno : UInt32
  valid : Bool
  dirty : Bool
  refcnt : Nat
  data : Block

def Buf.Carries (buf : Buf) (dev blockno : UInt32) : Prop :=
  buf.dev = dev ∧ buf.blockno = blockno

def Buf.Unused (buf : Buf) : Prop :=
  buf.refcnt = 0 ∧ buf.dirty = false

instance (buf : Buf) (dev blockno : UInt32) : Decidable (buf.Carries dev blockno) :=
  inferInstanceAs (Decidable (_ ∧ _))

instance (buf : Buf) : Decidable buf.Unused :=
  inferInstanceAs (Decidable (_ ∧ _))

/-- Where a process is in the calls of `bio.c`: in `bread` before `acquiresleep` and before
the test of the flags, and in `brelse` behind `releasesleep`. -/
inductive Control
  | idle
  | waiting (dev blockno : UInt32) (b : Fin NBUF)
  | locked (dev blockno : UInt32) (b : Fin NBUF)
  | releasing (b : Fin NBUF)
  deriving DecidableEq

/-- The part of `struct log` behind `log.lock`. -/
structure LogState where
  area : Log.Area
  dev : UInt32
  outstanding : Int
  committing : Bool
  lh : List UInt32

structure State (Process : Type) where
  bufs : Fin NBUF → Buf
  locks : Fin NBUF → Option Process
  links : Links (Fin NBUF)
  disk : UInt32 → UInt32 → Block
  havedisk1 : Bool
  log : LogState
  control : Process → Control

/-- `bget`, `acquire` and `fill` are `bread`, `brelse` and `drop` are `brelse`. Before
`logWrite` and `bwrite` the process has put `data` into the buffer. The last three actions
are those parts of `begin_op`, `end_op` and `commit` that do not use buffers. -/
inductive Action (Process : Type)
  | bget (p : Process) (dev blockno : UInt32)
  | acquire (p : Process)
  | fill (p : Process)
  | logWrite (p : Process) (b : Fin NBUF) (data : Block)
  | bwrite (p : Process) (b : Fin NBUF) (data : Block)
  | brelse (p : Process) (b : Fin NBUF)
  | drop (p : Process)
  | beginOp
  | endOp
  | clear
  | committed

variable {Process : Type}

/-- The links after the loop of `binit`. -/
def binitLinks : Links (Fin NBUF) :=
  (List.finRange NBUF).foldl (fun links b => links.pushFront b) .empty

/-- The memory of the kernel is zero before `binit`. -/
def binit (disk : UInt32 → UInt32 → Block) (havedisk1 : Bool) (area : Log.Area) (dev : UInt32) :
    State Process where
  bufs := fun _ =>
    { dev := 0
      blockno := 0
      valid := false
      dirty := false
      refcnt := 0
      data := Bytes.zero BSIZE }
  locks := fun _ => none
  links := binitLinks
  disk := disk
  havedisk1 := havedisk1
  log :=
    { area := area
      dev := dev
      outstanding := 0
      committing := false
      lh := [] }
  control := fun _ => .idle

def put (blocks : UInt32 → UInt32 → Block) (dev blockno : UInt32) (data : Block) :
    UInt32 → UInt32 → Block :=
  Function.update blocks dev (Function.update (blocks dev) blockno data)

theorem put_self (blocks : UInt32 → UInt32 → Block) (dev blockno : UInt32) (data : Block) :
    put blocks dev blockno data dev blockno = data := by
  rw [put, Function.update_self, Function.update_self]

theorem put_of_ne (blocks : UInt32 → UInt32 → Block) {dev blockno otherDev otherBlock : UInt32}
    (different : ¬(otherDev = dev ∧ otherBlock = blockno)) (data : Block) :
    put blocks dev blockno data otherDev otherBlock = blocks otherDev otherBlock := by
  by_cases sameDev : otherDev = dev
  · rw [sameDev, put, Function.update_self, Function.update_of_ne]
    exact fun sameBlock => different ⟨sameDev, sameBlock⟩
  · rw [put, Function.update_of_ne sameDev]

namespace State

variable (state : State Process)

def setBuf (b : Fin NBUF) (buf : Buf) : Fin NBUF → Buf :=
  Function.update state.bufs b buf

/-- The first loop of `bget`. A walk through the list has at most `NBUF + 1` steps. -/
def findCached (dev blockno : UInt32) : Option (Option (Fin NBUF)) :=
  Links.search state.links.next (fun b => decide ((state.bufs b).Carries dev blockno)) (NBUF + 1)
    (state.links.next none)

/-- The second loop of `bget`. -/
def findUnused : Option (Option (Fin NBUF)) :=
  Links.search state.links.prev (fun b => decide (state.bufs b).Unused) (NBUF + 1)
    (state.links.prev none)

/-- `iderw`, as the driver serves the request. The caller has the buffer locked. -/
def iderw (b : Fin NBUF) : Option (State Process) :=
  let buf := state.bufs b
  if buf.valid = true ∧ buf.dirty = false then
    none
  else if buf.dev ≠ 0 ∧ state.havedisk1 = false then
    none
  else if FSSIZE ≤ buf.blockno.toNat then
    none
  else if buf.dirty = true then
    some { state with
      disk := put state.disk buf.dev buf.blockno buf.data
      bufs := state.setBuf b { buf with valid := true, dirty := false } }
  else
    some { state with
      bufs := state.setBuf b { buf with data := state.disk buf.dev buf.blockno, valid := true } }

/-- `log_write`, without the tests on `b`. -/
def logWrite (b : Fin NBUF) : Option (State Process) :=
  let buf := state.bufs b
  let n := state.log.lh.length
  if LOGSIZE ≤ n ∨ (state.log.area.size : Int) - 1 ≤ n then
    none
  else if state.log.outstanding < 1 then
    none
  else
    some { state with
      bufs := state.setBuf b { buf with dirty := true }
      log := { state.log with
        lh := if buf.blockno ∈ state.log.lh then state.log.lh
          else state.log.lh ++ [buf.blockno] } }

def bwrite (b : Fin NBUF) : Option (State Process) :=
  let marked := { state with bufs := state.setBuf b { state.bufs b with dirty := true } }
  marked.iderw b

/-- The process that holds the buffer modifies its contents. -/
def store (b : Fin NBUF) (data : Block) : State Process :=
  { state with bufs := state.setBuf b { state.bufs b with data := data } }

variable [DecidableEq Process]

def setControl (p : Process) (control : Control) : Process → Control :=
  Function.update state.control p control

/-- The section of `bget`. -/
def bget (p : Process) (dev blockno : UInt32) : Option (State Process) :=
  match state.findCached dev blockno with
  | none => none
  | some (some b) =>
      some { state with
        bufs := state.setBuf b { state.bufs b with refcnt := (state.bufs b).refcnt + 1 }
        control := state.setControl p (.waiting dev blockno b) }
  | some none =>
      match state.findUnused with
      | some (some b) =>
          some { state with
            bufs := state.setBuf b { state.bufs b with
              dev := dev
              blockno := blockno
              valid := false
              dirty := false
              refcnt := 1 }
            control := state.setControl p (.waiting dev blockno b) }
      | _ => none

/-- The rest of `bread`, with the buffer locked. -/
def fill (p : Process) (b : Fin NBUF) : Option (State Process) :=
  let returned := { state with control := state.setControl p .idle }
  if (state.bufs b).valid = true then some returned else returned.iderw b

/-- The section of `brelse`. -/
def drop (p : Process) (b : Fin NBUF) : State Process :=
  let refcnt := (state.bufs b).refcnt - 1
  { state with
    bufs := state.setBuf b { state.bufs b with refcnt := refcnt }
    links := if refcnt = 0 then (state.links.remove b).pushFront b else state.links
    control := state.setControl p .idle }

/-- The process has got the buffer from `bread` and makes no other call. -/
def Holds (p : Process) (b : Fin NBUF) : Prop :=
  state.locks b = some p ∧ state.control p = .idle

instance (p : Process) (b : Fin NBUF) : Decidable (state.Holds p b) :=
  inferInstanceAs (Decidable (_ ∧ _))

end State

def step [DecidableEq Process] (state : State Process) : Action Process → Option (State Process)
  | .bget p dev blockno =>
      if state.control p = .idle then state.bget p dev blockno else none
  | .acquire p =>
      match state.control p with
      | .waiting dev blockno b =>
          if state.locks b = none then
            some { state with
              locks := Function.update state.locks b (some p)
              control := state.setControl p (.locked dev blockno b) }
          else none
      | _ => none
  | .fill p =>
      match state.control p with
      | .locked _ _ b => state.fill p b
      | _ => none
  | .logWrite p b data =>
      if state.Holds p b then (state.store b data).logWrite b else none
  | .bwrite p b data =>
      if state.Holds p b then (state.store b data).bwrite b else none
  | .brelse p b =>
      if state.Holds p b then
        some { state with
          locks := Function.update state.locks b none
          control := state.setControl p (.releasing b) }
      else none
  | .drop p =>
      match state.control p with
      | .releasing b => some (state.drop p b)
      | _ => none
  | .beginOp =>
      if state.log.committing = true ∨
          LOGSIZE < state.log.lh.length + (state.log.outstanding + 1) * MAXOPBLOCKS then
        none
      else
        some { state with
          log := { state.log with outstanding := state.log.outstanding + 1 } }
  | .endOp =>
      if state.log.committing = true then
        none
      else
        some { state with
          log := { state.log with
            outstanding := state.log.outstanding - 1
            committing := decide (state.log.outstanding - 1 = 0) } }
  | .clear => some { state with log := { state.log with lh := [] } }
  | .committed => some { state with log := { state.log with committing := false } }

end Xv6.Bio
