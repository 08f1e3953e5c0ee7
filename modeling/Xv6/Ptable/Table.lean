import Mathlib

/-! # The process table

The table of `proc.c`, for any number of slots, and the loops over it.
-/

namespace Xv6.Ptable

/-- `enum procstate`. -/
inductive ProcState
  | unused
  | embryo
  | sleeping
  | runnable
  | running
  | zombie
  deriving DecidableEq

/-- What a process sleeps on: an entry of the process table, or any other address. -/
inductive Channel (nproc : Nat)
  | proc (p : Fin nproc)
  | other (address : Nat)
  deriving DecidableEq

/-- A call of `wait` or `wait_stat`, and whether its status pointer is not null. -/
inductive WaitCall
  | wait (status : Bool)
  | waitStat (status : Bool)
  deriving DecidableEq

def WaitCall.wantsStatus : WaitCall → Bool
  | .wait status | .waitStat status => status

def WaitCall.wantsPerformance : WaitCall → Bool
  | .wait _ => false
  | .waitStat _ => true

/-- Where a saved context continues: in `forkret`, or behind the `sched` of one of its
callers. -/
inductive Resume
  | forkret
  | yield
  | sleep
  | wait (call : WaitCall)
  | exit
  deriving DecidableEq

/-- Where a process is in `fork`, if it is there: the slot for its child has been
allocated, it has been given a kernel stack, it has been filled in. -/
inductive Point (nproc : Nat)
  | outside
  | allocated (np : Fin nproc)
  | stacked (np : Fin nproc)
  | copied (np : Fin nproc)
  deriving DecidableEq

/-- The functions in the table `policies`. -/
inductive Policy
  | uniformTimeDist
  | priorityScheduling
  | dynamicTicketsAllc
  deriving DecidableEq

/-- What the loop of a policy function does next with a slot: store, look whether the process
is runnable, or store once more for a runnable process. -/
inductive Stage
  | enter
  | test
  | count
  deriving DecidableEq

/-- Where a process is in the loop of a policy function. -/
structure Visit (nproc : Nat) where
  policy : Policy
  slots : List (Fin nproc)
  stage : Stage
  deriving DecidableEq

/-- `struct proc`. A null pointer is `none`; `point` and `visit` are the parts of the kernel
stack that matter here. -/
structure Proc (nproc : Nat) where
  state : ProcState
  pid : Int32
  parent : Option (Fin nproc)
  chan : Option (Channel nproc)
  killed : Bool
  kstack : Bool
  context : Option Resume
  point : Point nproc
  visit : Option (Visit nproc)
  exitStatus : Int32
  ntickets : Int32
  priority : Int32
  ctime : Int32
  ttime : Int32
  stime : Int32
  retime : Int32
  rutime : Int32
  deriving DecidableEq

/-- `struct perf`. -/
structure Perf where
  ctime : Int32
  ttime : Int32
  stime : Int32
  retime : Int32
  rutime : Int32
  deriving DecidableEq

abbrev Table (nproc : Nat) := Fin nproc → Proc nproc

variable {nproc : Nat}

variable {p proc : Fin nproc} {table : Table nproc}

def Proc.zero : Proc nproc where
  state := .unused
  pid := 0
  parent := none
  chan := none
  killed := false
  kstack := false
  context := none
  point := .outside
  visit := none
  exitStatus := 0
  ntickets := 0
  priority := 0
  ctime := 0
  ttime := 0
  stime := 0
  retime := 0
  rutime := 0

def Proc.perf (proc : Proc nproc) : Perf :=
  ⟨proc.ctime, proc.ttime, proc.stime, proc.retime, proc.rutime⟩

namespace Table

def modify (table : Table nproc) (p : Fin nproc) (change : Proc nproc → Proc nproc) : Table nproc :=
  Function.update table p (change (table p))

theorem modify_self (table : Table nproc) (p : Fin nproc) (change : Proc nproc → Proc nproc) :
    table.modify p change p = change (table p) := Function.update_self ..

theorem modify_of_ne {q : Fin nproc} (different : q ≠ p) (table : Table nproc)
    (change : Proc nproc → Proc nproc) : table.modify p change q = table q :=
  Function.update_of_ne different ..

@[grind =]
theorem modify_apply (table : Table nproc) (p q : Fin nproc)
    (change : Proc nproc → Proc nproc) :
    table.modify p change q = if q = p then change (table q) else table q := by
  by_cases same : q = p
  · rw [if_pos same, same, modify_self]
  · rw [if_neg same, modify_of_ne same]

theorem modify_keeps {Field : Type} (field : Proc nproc → Field) (table : Table nproc)
    (p q : Fin nproc) (change : Proc nproc → Proc nproc)
    (kept : ∀ proc, field (change proc) = field proc) :
    field (table.modify p change q) = field (table q) := by
  rw [modify_apply]
  split
  · exact kept _
  · rfl

/-! ## Waking up -/

def wakeup1 (chan : Channel nproc) (table : Table nproc) : Table nproc := fun p =>
  { table p with
    state := if (table p).state = .sleeping ∧ (table p).chan = some chan then .runnable
      else (table p).state }

/-! ## Allocation -/

/-- The search of `allocproc`. -/
def firstUnused (table : Table nproc) : Option (Fin nproc) :=
  (List.finRange nproc).find? fun p => (table p).state = .unused

theorem unused_of_firstUnused (found : table.firstUnused = some p) : (table p).state = .unused := by
  have holds := List.find?_some found
  exact of_decide_eq_true holds

/-- Process `p` changes the slot of its child and comes to another point of `fork`. -/
def fill (table : Table nproc) (p np : Fin nproc) (change : Proc nproc → Proc nproc)
    (point : Point nproc) : Table nproc :=
  (table.modify np change).modify p fun proc => { proc with point := point }

/-! ## Exit -/

/-- One turn of the loop in which `exit` passes abandoned children to `init`. -/
def passChild (initproc proc : Fin nproc) (table : Table nproc) (p : Fin nproc) : Table nproc :=
  if (table p).parent = some proc then
    let table := table.modify p fun entry => { entry with parent := some initproc }
    if (table p).state = .zombie then table.wakeup1 (.proc initproc) else table
  else table

def passChildren (initproc proc : Fin nproc) (table : Table nproc) : Table nproc :=
  (List.finRange nproc).foldl (passChild initproc proc) table

/-! ## Waiting -/

/-- The first exited child, at which the scan of `wait` stops. -/
def zombieChild (table : Table nproc) (proc : Fin nproc) : Option (Fin nproc) :=
  (List.finRange nproc).find? fun p => (table p).parent = some proc ∧ (table p).state = .zombie

def havekids (table : Table nproc) (proc : Fin nproc) : Bool :=
  (List.finRange nproc).any fun p => (table p).parent = some proc

theorem zombieChild_some (found : table.zombieChild proc = some p) :
    (table p).parent = some proc ∧ (table p).state = .zombie := by
  have holds := List.find?_some found
  exact of_decide_eq_true holds

theorem zombieChild_none (none : table.zombieChild proc = none) (p : Fin nproc)
    (child : (table p).parent = some proc) : (table p).state ≠ .zombie := by
  intro zombie
  have not := List.find?_eq_none.mp none p (List.mem_finRange p)
  exact not (decide_eq_true ⟨child, zombie⟩)

theorem havekids_eq_false :
    table.havekids proc = false ↔ ∀ p, (table p).parent ≠ some proc := by
  rw [havekids, List.any_eq_false]
  constructor
  · intro none p child
    exact none p (List.mem_finRange p) (decide_eq_true child)
  · intro none p _ child
    exact none p (of_decide_eq_true child)

/-- What `wait` does to the slot of the child it returns. -/
def reap (table : Table nproc) (p : Fin nproc) : Table nproc :=
  table.modify p fun entry =>
    { entry with
      kstack := false
      pid := 0
      parent := none
      killed := false
      state := .unused }

@[grind =]
theorem reap_apply (table : Table nproc) (p q : Fin nproc) :
    table.reap p q = if q = p then
        { table q with kstack := false, pid := 0, parent := none, killed := false, state := .unused }
      else table q := by
  rw [reap, modify_apply]

/-! ## Killing -/

def firstPid (table : Table nproc) (pid : Int32) : Option (Fin nproc) :=
  (List.finRange nproc).find? fun p => (table p).pid = pid

theorem firstPid_some {pid : Int32}
    (found : table.firstPid pid = some p) : (table p).pid = pid := by
  have holds := List.find?_some found
  exact of_decide_eq_true holds

theorem firstPid_none {pid : Int32} (none : table.firstPid pid = none)
    (p : Fin nproc) : (table p).pid ≠ pid := by
  intro carries
  have not := List.find?_eq_none.mp none p (List.mem_finRange p)
  exact not (decide_eq_true carries)

/-- `kill`, with its return value. -/
def kill (table : Table nproc) (pid : Int32) : Table nproc × Int32 :=
  match table.firstPid pid with
  | some p =>
      (table.modify p fun entry =>
        { entry with
          killed := true
          state := if entry.state = .sleeping then .runnable else entry.state }, 0)
  | none => (table, -1)

/-! ## Times -/

def updateTimes (table : Table nproc) : Table nproc := fun p =>
  { table p with
    rutime := if (table p).state = .running then (table p).rutime + 1 else (table p).rutime
    retime := if (table p).state = .runnable then (table p).retime + 1 else (table p).retime
    stime := if (table p).state = .sleeping then (table p).stime + 1 else (table p).stime }

/-! ## Tickets -/

/-- A loop that gives out tickets and counts those of the runnable processes. -/
def distribute (assign : Proc nproc → Proc nproc) (table : Table nproc) : Table nproc × Int32 :=
  (fun p => assign (table p),
    (List.finRange nproc).foldl (fun total p =>
      if (table p).state = .runnable then total + (assign (table p)).ntickets else total) 0)

/-- `policies[0].fun`, as `scheduler` calls it with the lock held. -/
def uniformTimeDist : Table nproc → Table nproc × Int32 :=
  distribute fun proc => { proc with ntickets := 10 }

def getTickets (table : Table nproc) : Int32 :=
  (table.distribute id).2

/-- The loop of `scheduler` that looks for the owner of a ticket. -/
def findTicket (table : Table nproc) : List (Fin nproc) → Int32 → Option (Fin nproc)
  | [], _ => none
  | p :: rest, ticket =>
      if (table p).state ≠ .runnable then findTicket table rest ticket
      else if ticket - (table p).ntickets < 0 then some p
      else findTicket table rest (ticket - (table p).ntickets)

theorem runnable_of_findTicket {slots : List (Fin nproc)} :
    ∀ {ticket : Int32}, table.findTicket slots ticket = some p → (table p).state = .runnable := by
  induction slots with
  | nil =>
    intro ticket found
    cases found
  | cons first rest induction =>
    intro ticket found
    rw [findTicket] at found
    split at found
    · exact induction found
    · rename_i runnable
      split at found
      · cases found
        exact not_not.mp runnable
      · exact induction found

end Table

/-- What a policy function stores in every slot. -/
def Policy.enter : Policy → Proc nproc → Proc nproc
  | .uniformTimeDist, proc => { proc with ntickets := 10 }
  | .priorityScheduling, proc => { proc with priority := 10 }
  | .dynamicTicketsAllc, proc => { proc with ntickets := 20 }

/-- What it then stores in the slot of a runnable process. -/
def Policy.count : Policy → Proc nproc → Proc nproc
  | .uniformTimeDist, proc => { proc with ntickets := 10 }
  | .priorityScheduling, proc => { proc with ntickets := proc.priority }
  | .dynamicTicketsAllc, proc => proc

def policies : List Policy := [.uniformTimeDist, .priorityScheduling, .dynamicTicketsAllc]

/-- The store that comes next in the loop of a policy function, if one does. -/
def Visit.stores (table : Table nproc) : Visit nproc → Table nproc
  | ⟨policy, q :: _, .enter⟩ => table.modify q policy.enter
  | ⟨policy, q :: _, .count⟩ => table.modify q policy.count
  | _ => table

def Visit.next (table : Table nproc) : Visit nproc → Option (Visit nproc)
  | ⟨_, [], _⟩ => none
  | ⟨policy, q :: rest, .enter⟩ => some ⟨policy, q :: rest, .test⟩
  | ⟨policy, q :: rest, .test⟩ =>
      if (table q).state = .runnable then some ⟨policy, q :: rest, .count⟩
      else some ⟨policy, rest, .enter⟩
  | ⟨policy, _ :: rest, .count⟩ => some ⟨policy, rest, .enter⟩

namespace Table

def setVisit (table : Table nproc) (p : Fin nproc) (visit : Option (Visit nproc)) : Table nproc :=
  table.modify p fun proc => { proc with visit := visit }

/-- One access to the table in the loop of a policy function, or the return from it. -/
def visit (table : Table nproc) (p : Fin nproc) (visit : Visit nproc) : Table nproc :=
  (visit.stores table).setVisit p (visit.next table)

end Table

/-- `PRNG`: the number drawn and the seed for the next draw. -/
def prng (seed : UInt32) (bound : Int32) : Int32 × UInt32 :=
  if bound = 0 then (0, seed)
  else
    let next := seed * 1103515245 + 12345
    let result := (next / 65536 % 2048).toInt32
    let next := next * 1103515245 + 12345
    let result := (result <<< 10) ^^^ (next / 65536 % 1024).toInt32
    let next := next * 1103515245 + 12345
    let result := (result <<< 10) ^^^ (next / 65536 % 1024).toInt32
    (result % bound, next)

end Xv6.Ptable
