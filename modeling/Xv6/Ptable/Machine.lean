import Xv6.Ptable.Table
import Xv6.Foundation.Transition

/-! # Processors and the process table

The functions of `proc.c` as run by any number of processors. A step is what a
processor does between two points at which `ptable.lock` or, with the lock held, the
stack changes hands: `swtch` gives a processor to another thread, and the lock with it.
The parts of `fork` that run without the lock are steps of their own, and so is each store
of `policy`, which takes no lock at all.
-/

namespace Xv6.Ptable

/-- What a processor executes. Behind a `swtch`, on either side, it holds the lock. -/
inductive Control (nproc : Nat)
  | scheduler
  | switchedBack
  | thread (p : Fin nproc) (resumed : Option Resume)
  deriving DecidableEq

/-- `struct cpu`, with the local variable of `scheduler` and the process whose page
directory is loaded; `none` is that of the kernel. -/
structure Cpu (nproc : Nat) where
  proc : Option (Fin nproc)
  control : Control nproc
  cr3 : Option (Fin nproc)
  ntickets : Int32
  deriving DecidableEq

structure State (nproc ncpu : Nat) where
  table : Table nproc
  cpus : Fin ncpu → Cpu nproc
  lock : Option (Fin ncpu)
  initproc : Fin nproc
  nextpid : Int32
  npolicy : Nat
  seed : UInt32
  ticks : UInt32

inductive Action (nproc : Nat)
  | schedule
  | finish
  | resume
  | yield
  | sleep (address : Nat)
  | wakeup (address : Nat)
  | exit (status : Int32)
  | wait (call : WaitCall)
  | allocproc
  | allocStack (available : Bool)
  | copyProcess (available : Bool)
  | publish
  | kill (pid : Int32)
  | fault
  | tick
  | priority (pr : Int32)
  | policy (pl : Nat)
  | visit
  deriving DecidableEq

/-- What a call of `wait` or `wait_stat` returns and stores, and the slot it frees. -/
structure Reaped (nproc : Nat) where
  child : Fin nproc
  pid : Int32
  status : Option Int32
  performance : Option Perf
  deriving DecidableEq

inductive WaitResult (nproc : Nat)
  | failed
  | reaped (reaped : Reaped nproc)
  deriving DecidableEq

variable {nproc ncpu : Nat}

namespace State

variable (state : State nproc ncpu)

def modify (p : Fin nproc) (change : Proc nproc → Proc nproc) : State nproc ncpu :=
  { state with table := state.table.modify p change }

def setCpu (c : Fin ncpu) (cpu : Cpu nproc) : State nproc ncpu :=
  { state with cpus := Function.update state.cpus c cpu }

def acquire (c : Fin ncpu) : State nproc ncpu := { state with lock := some c }

def release : State nproc ncpu := { state with lock := none }

def proceed (c : Fin ncpu) (p : Fin nproc) : State nproc ncpu :=
  (state.setCpu c { state.cpus c with control := .thread p none }).release

/-! ## Giving up the processor -/

/-- `sched`: the context of the process is saved and the processor goes back to its
scheduler. -/
def sched (c : Fin ncpu) (p : Fin nproc) (resume : Resume) : State nproc ncpu :=
  (state.modify p fun proc => { proc with context := some resume }).setCpu c
    { state.cpus c with control := .switchedBack }

def yield (c : Fin ncpu) (p : Fin nproc) : State nproc ncpu :=
  (state.modify p fun proc =>
    { proc with
      state := .runnable
      ntickets := if state.npolicy = 2 ∧ proc.ntickets > 1 then proc.ntickets - 1
        else proc.ntickets }).sched c p .yield

/-- `sleep`, from the point at which `ptable.lock` is held. -/
def sleep (c : Fin ncpu) (p : Fin nproc) (chan : Channel nproc) (resume : Resume) :
    State nproc ncpu :=
  (state.modify p fun proc =>
    { proc with
      chan := some chan
      state := .sleeping
      ntickets := if state.npolicy = 2 ∧ proc.ntickets < 100 then proc.ntickets + 10
        else proc.ntickets }).sched c p resume

/-- `exit`, from the point at which `ptable.lock` is held. -/
def exit (c : Fin ncpu) (p : Fin nproc) (status : Int32) : State nproc ncpu :=
  let table := match (state.table p).parent with
    | some parent => state.table.wakeup1 (.proc parent)
    | none => state.table
  let table := table.passChildren state.initproc p
  ({ state with table := table.modify p fun proc =>
      { proc with
        state := .zombie
        exitStatus := status
        ttime := state.ticks.toInt32 } }).sched c p .exit

/-! ## Waiting -/

/-- What the scan of `wait` ends in; `none` if the process goes to sleep. -/
def waitResult (p : Fin nproc) (call : WaitCall) : Option (WaitResult nproc) :=
  match state.table.zombieChild p with
  | some child =>
      let proc := state.table child
      some (.reaped {
        child := child
        pid := proc.pid
        status := if call.wantsStatus then some proc.exitStatus else none
        performance := if call.wantsPerformance then some proc.perf else none })
  | none =>
      if state.table.havekids p = false ∨ (state.table p).killed = true then some .failed else none

/-- The loop of `wait`, from the scan to the release of the lock or to `sched`. -/
def waitLoop (c : Fin ncpu) (p : Fin nproc) (call : WaitCall) : State nproc ncpu :=
  match state.waitResult p call with
  | some (.reaped reaped) => { state with table := state.table.reap reaped.child }.proceed c p
  | some .failed => state.proceed c p
  | none => state.sleep c p (.proc p) (.wait call)

/-! ## The scheduler -/

/-- The table and the number of tickets with which a round of `scheduler` starts. -/
def tickets (c : Fin ncpu) : Table nproc × Int32 :=
  if (state.cpus c).ntickets = 0 then state.table.uniformTimeDist
  else (state.table, state.table.getTickets)

/-- The process to which the ticket that is drawn belongs. -/
def drawn (c : Fin ncpu) : Option (Fin nproc) :=
  (state.tickets c).1.findTicket (List.finRange nproc) (prng state.seed (state.tickets c).2).1

/-- One round of `scheduler`, up to the release of the lock or to `swtch`. -/
def schedule (c : Fin ncpu) : State nproc ncpu :=
  let (table, ntickets) := state.tickets c
  let cpu := { state.cpus c with ntickets := ntickets }
  let seed := (prng state.seed ntickets).2
  match state.drawn c with
  | some p =>
      { state with
        table := table.modify p fun proc => { proc with state := .running, context := none }
        cpus := Function.update state.cpus c
          { cpu with
            proc := some p
            cr3 := some p
            control := .thread p (table p).context }
        seed := seed
        lock := some c }
  | none =>
      { state with
        table := table
        cpus := Function.update state.cpus c cpu
        seed := seed }

/-- The rest of a round, after the process has come back. -/
def finish (c : Fin ncpu) : State nproc ncpu :=
  (state.setCpu c { state.cpus c with cr3 := none, proc := none, control := .scheduler }).release

/-- A process continues behind the `swtch` that suspended it; `exit` does not. -/
def resume (c : Fin ncpu) (p : Fin nproc) : Resume → Option (State nproc ncpu)
  | .forkret | .yield => some (state.proceed c p)
  | .sleep => some ((state.modify p fun proc => { proc with chan := none }).proceed c p)
  | .wait call =>
      some ((state.modify p fun proc => { proc with chan := none }).waitLoop c p call)
  | .exit => none

/-! ## Creating processes -/

/-- `allocproc` up to the release of the lock. -/
def allocproc (p : Fin nproc) : State nproc ncpu :=
  match state.table.firstUnused with
  | none => state
  | some np =>
      { state with
        table := state.table.fill p np
          (fun proc => { proc with state := .embryo, pid := state.nextpid }) (.allocated np)
        nextpid := state.nextpid + 1 }

/-- The rest of `allocproc`. -/
def allocStack (p np : Fin nproc) (available : Bool) : State nproc ncpu :=
  if available then
    { state with
      table := state.table.fill p np
        (fun proc =>
          { proc with
            kstack := true
            context := some .forkret
            point := .outside
            ctime := state.ticks.toInt32
            stime := 0
            retime := 0
            rutime := 0 })
        (.stacked np) }
  else
    { state with
      table := state.table.fill p np (fun proc => { proc with state := .unused }) .outside }

/-- `fork` from `copyuvm` to the acquisition of the lock. -/
def copyProcess (p np : Fin nproc) (available : Bool) : State nproc ncpu :=
  if available then
    { state with
      table := state.table.fill p np (fun proc => { proc with parent := some p }) (.copied np) }
  else
    { state with
      table := state.table.fill p np (fun proc => { proc with kstack := false, state := .unused })
        .outside }

def publish (p np : Fin nproc) : State nproc ncpu :=
  { state with
    table := state.table.fill p np (fun proc => { proc with state := .runnable }) .outside }

/-! ## The other calls -/

def kill (pid : Int32) : State nproc ncpu := { state with table := (state.table.kill pid).1 }

def wakeup (address : Nat) : State nproc ncpu :=
  { state with table := state.table.wakeup1 (.other address) }

/-- The timer interrupt of the first processor. -/
def tick : State nproc ncpu :=
  { state with ticks := state.ticks + 1, table := state.table.updateTimes }

def priority (p : Fin nproc) (pr : Int32) : State nproc ncpu :=
  if state.npolicy = 1 then state.modify p fun proc => { proc with priority := pr } else state

/-- `policy` up to the loop of its function; a number outside of the table has none. -/
def policy (p : Fin nproc) (pl : Nat) : Option (State nproc ncpu) :=
  match policies[pl]? with
  | some policy => some { state with
      npolicy := pl
      table := state.table.setVisit p (some ⟨policy, List.finRange nproc, .enter⟩) }
  | none => none

def visit (p : Fin nproc) (visit : Visit nproc) : State nproc ncpu :=
  { state with table := state.table.visit p visit }

end State

/-! ## Steps -/

/-- A step of the thread of process `p`, which is neither behind a `swtch` nor in `policy`.
The lock must be free for a step that acquires it. -/
def callStep (state : State nproc ncpu) (c : Fin ncpu) (p : Fin nproc) (action : Action nproc) :
    Option (State nproc ncpu) :=
  match action, (state.table p).point with
  | .fault, .outside => some (state.modify p fun proc => { proc with killed := true })
  | .allocStack available, .allocated np => some (state.allocStack p np available)
  | .copyProcess available, .stacked np => some (state.copyProcess p np available)
  | .priority pr, .outside => some (state.priority p pr)
  | .policy pl, .outside => state.policy p pl
  | .yield, _ => if state.lock = none then some ((state.acquire c).yield c p) else none
  | .publish, .copied np => if state.lock = none then some (state.publish p np) else none
  | .sleep address, .outside =>
      if state.lock = none then some ((state.acquire c).sleep c p (.other address) .sleep) else none
  | .exit status, .outside =>
      if state.lock = none ∧ p ≠ state.initproc then some ((state.acquire c).exit c p status)
      else none
  | .wait call, .outside =>
      if state.lock = none then some ((state.acquire c).waitLoop c p call) else none
  | .allocproc, .outside => if state.lock = none then some (state.allocproc p) else none
  | .kill pid, .outside => if state.lock = none then some (state.kill pid) else none
  | _, _ => none

/-- In `policy`, a process can be interrupted by the timer, and yields. -/
def threadStep (state : State nproc ncpu) (c : Fin ncpu) (p : Fin nproc) (action : Action nproc) :
    Option (State nproc ncpu) :=
  match (state.table p).visit, action with
  | some visit, .visit => some (state.visit p visit)
  | some _, .yield => if state.lock = none then some ((state.acquire c).yield c p) else none
  | some _, _ => none
  | none, action => callStep state c p action

/-- A step of a processor. Interrupts, which wake processes up and count time, come at
any moment at which the processor does not hold the lock. -/
def cpuStep (state : State nproc ncpu) (c : Fin ncpu) (action : Action nproc) :
    Option (State nproc ncpu) :=
  match (state.cpus c).control, action with
  | .scheduler, .schedule => if state.lock = none then some (state.schedule c) else none
  | .switchedBack, .finish => some (state.finish c)
  | .thread p (some resumed), .resume => state.resume c p resumed
  | .scheduler, .wakeup address | .thread _ none, .wakeup address =>
      if state.lock = none then some (state.wakeup address) else none
  | .scheduler, .tick | .thread _ none, .tick =>
      if state.lock = none then some state.tick else none
  | .thread p none, action => threadStep state c p action
  | _, _ => none

def step (state : State nproc ncpu) (action : Fin ncpu × Action nproc) :
    Option (State nproc ncpu) :=
  cpuStep state action.1 action.2

/-- The process that is at the head of the loop of `wait` in the step, and its call. -/
def waitCall (state : State nproc ncpu) (c : Fin ncpu) (action : Action nproc) :
    Option (Fin nproc × WaitCall) :=
  match (state.cpus c).control, action with
  | .thread p none, .wait call => some (p, call)
  | .thread p (some (.wait call)), .resume => some (p, call)
  | _, _ => none

/-- What the call of `wait` that the step ends returns. -/
def waitReturns (state : State nproc ncpu) (c : Fin ncpu) (action : Action nproc) :
    Option (WaitResult nproc) :=
  match waitCall state c action with
  | some (p, call) => state.waitResult p call
  | none => none

/-- The state in which `main` starts the schedulers: `userinit` has made the first
process. -/
def booted (nproc ncpu : Nat) : State (nproc + 1) ncpu where
  table := fun p => if p = 0 then
      { Proc.zero with
        state := .runnable
        pid := 1
        kstack := true
        context := some .forkret }
    else Proc.zero
  cpus := fun _ => ⟨none, .scheduler, none, 0⟩
  lock := none
  initproc := 0
  nextpid := 2
  npolicy := 0
  seed := 5323
  ticks := 0

end Xv6.Ptable
