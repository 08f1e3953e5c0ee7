import Xv6.Ptable.Table
import Xv6.Foundation.Transition

/-! # Sleep and wakeup

The protocol between `sleep` and `wakeup`, with every lock operation and every change of a
process as a step of its own. Any process of the table may wait for the condition,

    acquire(lk); while(!cond) sleep(chan, lk); use; release(lk),

or make it true,

    acquire(lk); make cond true; wakeup(chan); release(lk),

any number of times. The lock `lk` is one of its own or `ptable.lock`, in which case
`wakeup1` is called instead of `wakeup`.
-/

namespace Xv6.Sleep

open Function (update)

open Ptable (ProcState Channel Table)

inductive Lock
  | cond
  | ptable
  deriving DecidableEq

/-- What `sleep` and `wakeup` read and write of `struct proc`. -/
structure Entry (nproc : Nat) where
  state : ProcState
  chan : Option (Channel nproc)
  deriving DecidableEq

/-- Where a process is. Each point stands for the operation that comes next. -/
inductive Point (nproc : Nat)
  | idle
  -- the loop around `sleep`
  | test
  | use
  | leave
  -- `sleep`
  | sleep
  | releaseLk
  | setChan
  | setSleeping
  | sched
  -- the scheduler, behind `swtch` and before the next one
  | switched
  | suspended
  | chosen
  -- `sleep`, behind `sched`
  | clearChan
  | releasePtable
  | reacquire
  -- the waker, and the loop of `wakeup1` over the slots that are left
  | produce
  | wakeup
  | scan (slots : List (Fin nproc))
  deriving DecidableEq

structure State (nproc : Nat) where
  table : Fin nproc → Entry nproc
  point : Fin nproc → Point nproc
  holder : Lock → Option (Fin nproc)
  cond : Bool

/-- A process starts one of the two programs, or goes on. The scheduler looks at a process
that is suspended. -/
inductive Action
  | wait
  | wake
  | go
  | use (falsify : Bool)
  | dispatch
  deriving DecidableEq

variable {nproc : Nat}

/-- One turn of the loop of `wakeup1`. -/
def wakeSlot (chan : Channel nproc) (table : Fin nproc → Entry nproc) (q : Fin nproc) :
    Fin nproc → Entry nproc :=
  if (table q).state = .sleeping ∧ (table q).chan = some chan then
    update table q { table q with state := .runnable }
  else table

namespace State

variable (state : State nproc)

def goto (p : Fin nproc) (point : Point nproc) : State nproc :=
  { state with point := update state.point p point }

def setEntry (p : Fin nproc) (entry : Entry nproc) : State nproc :=
  { state with table := update state.table p entry }

/-- `acquire` spins until the lock is free. -/
def acquire (lock : Lock) (p : Fin nproc) (point : Point nproc) : Option (State nproc) :=
  if state.holder lock = none then
    some ({ state with holder := update state.holder lock (some p) }.goto p point)
  else none

def release (lock : Lock) (p : Fin nproc) (point : Point nproc) : State nproc :=
  { state with holder := update state.holder lock none }.goto p point

end State

/-- A step of process `p`, or of the scheduler with `p`. -/
def procStep (lk : Lock) (chan : Channel nproc) (state : State nproc) (p : Fin nproc)
    (action : Action) : Option (State nproc) :=
  match state.point p, action with
  | .idle, .wait => state.acquire lk p .test
  | .idle, .wake => state.acquire lk p .produce
  | .test, .go => some (state.goto p (if state.cond then .use else .sleep))
  | .use, .use falsify => some ({ state with cond := state.cond && !falsify }.goto p .leave)
  | .leave, .go => some (state.release lk p .idle)
  | .sleep, .go =>
      if lk ≠ .ptable then state.acquire .ptable p .releaseLk else some (state.goto p .setChan)
  | .releaseLk, .go => some (state.release lk p .setChan)
  | .setChan, .go =>
      some ((state.setEntry p { state.table p with chan := some chan }).goto p .setSleeping)
  | .setSleeping, .go =>
      some ((state.setEntry p { state.table p with state := .sleeping }).goto p .sched)
  | .sched, .go => some (state.goto p .switched)
  | .switched, .go => some (state.release .ptable p .suspended)
  | .suspended, .dispatch => state.acquire .ptable p .chosen
  | .chosen, .go =>
      if (state.table p).state = .runnable then
        some ((state.setEntry p { state.table p with state := .running }).goto p .clearChan)
      else some (state.release .ptable p .suspended)
  | .clearChan, .go =>
      some ((state.setEntry p { state.table p with chan := none }).goto p .releasePtable)
  | .releasePtable, .go =>
      some (if lk ≠ .ptable then state.release .ptable p .reacquire else state.goto p .test)
  | .reacquire, .go => state.acquire lk p .test
  | .produce, .go => some ({ state with cond := true }.goto p .wakeup)
  | .wakeup, .go =>
      if lk ≠ .ptable then state.acquire .ptable p (.scan (List.finRange nproc))
      else some (state.goto p (.scan (List.finRange nproc)))
  | .scan (q :: rest), .go =>
      some ({ state with table := wakeSlot chan state.table q }.goto p (.scan rest))
  | .scan [], .go =>
      some (if lk ≠ .ptable then state.release .ptable p .leave else state.goto p .leave)
  | _, _ => none

def step (lk : Lock) (chan : Channel nproc) (state : State nproc) (action : Fin nproc × Action) :
    Option (State nproc) :=
  procStep lk chan state action.1 action.2

/-- All processes run, and none has started yet. -/
def start (nproc : Nat) (cond : Bool) : State nproc where
  table := fun _ => ⟨.running, none⟩
  point := fun _ => .idle
  holder := fun _ => none
  cond := cond

/-! ## The loop of `wakeup1` -/

/-- The part of the process table that is used here. -/
def entries (table : Table nproc) (p : Fin nproc) : Entry nproc :=
  ⟨(table p).state, (table p).chan⟩

theorem wakeSlot_apply (chan : Channel nproc) (table : Fin nproc → Entry nproc)
    (q p : Fin nproc) :
    wakeSlot chan table q p =
      if p = q ∧ (table p).state = .sleeping ∧ (table p).chan = some chan then
        { table p with state := .runnable }
      else table p := by
  rw [wakeSlot]
  by_cases same : p = q
  · subst same
    split
    · simp [*]
    · simp [*]
  · split
    · simp [same]
    · simp [same]

theorem foldl_wakeSlot_apply (chan : Channel nproc) (slots : List (Fin nproc)) :
    ∀ (table : Fin nproc → Entry nproc) (p : Fin nproc),
      slots.foldl (wakeSlot chan) table p =
        if p ∈ slots ∧ (table p).state = .sleeping ∧ (table p).chan = some chan then
          { table p with state := .runnable }
        else table p := by
  induction slots with
  | nil => simp
  | cons first rest induction =>
    intro table p
    rw [List.foldl_cons, induction, wakeSlot_apply]
    by_cases asleep : (table p).state = .sleeping ∧ (table p).chan = some chan
    · by_cases same : p = first
      · subst same
        simp [asleep]
      · simp [asleep, same]
    · simp [asleep]

/-- Slot by slot, the loop does what `wakeup1` does to the table in one step. -/
theorem foldl_wakeSlot_eq_wakeup1 (chan : Channel nproc) (table : Table nproc) :
    (List.finRange nproc).foldl (wakeSlot chan) (entries table) =
      entries (table.wakeup1 chan) := by
  funext p
  rw [foldl_wakeSlot_apply]
  simp only [entries, Table.wakeup1, List.mem_finRange, true_and]
  split
  · rfl
  · rfl

/-! ## Inversion -/

/-- What a process does with a lock in a step. -/
inductive Grip
  | keep
  | take (lock : Lock)
  | drop (lock : Lock)

def Grip.holder (grip : Grip) (p : Fin nproc) (holder : Lock → Option (Fin nproc)) :
    Lock → Option (Fin nproc) :=
  match grip with
  | .keep => holder
  | .take lock => update holder lock (some p)
  | .drop lock => update holder lock none

/-- The moves of a process from one point to the next, with what they need and what they do
to the lock. -/
inductive Move (lk : Lock) (state : State nproc) (p : Fin nproc) :
    Point nproc → Grip → Point nproc → Prop
  | wait : Move lk state p .idle (.take lk) .test
  | wake : Move lk state p .idle (.take lk) .produce
  | found (holds : state.cond = true) : Move lk state p .test .keep .use
  | sleep (fails : state.cond = false) : Move lk state p .test .keep .sleep
  | use : Move lk state p .use .keep .leave
  | leave : Move lk state p .leave (.drop lk) .idle
  | takePtable (differs : lk ≠ .ptable) : Move lk state p .sleep (.take .ptable) .releaseLk
  | already (same : lk = .ptable) : Move lk state p .sleep .keep .setChan
  | releaseLk : Move lk state p .releaseLk (.drop lk) .setChan
  | setChan : Move lk state p .setChan .keep .setSleeping
  | setSleeping : Move lk state p .setSleeping .keep .sched
  | sched : Move lk state p .sched .keep .switched
  | switched : Move lk state p .switched (.drop .ptable) .suspended
  | dispatch : Move lk state p .suspended (.take .ptable) .chosen
  | run (runnable : (state.table p).state = .runnable) : Move lk state p .chosen .keep .clearChan
  | passOver (other : (state.table p).state ≠ .runnable) :
      Move lk state p .chosen (.drop .ptable) .suspended
  | clearChan : Move lk state p .clearChan .keep .releasePtable
  | releasePtable (differs : lk ≠ .ptable) :
      Move lk state p .releasePtable (.drop .ptable) .reacquire
  | keepPtable (same : lk = .ptable) : Move lk state p .releasePtable .keep .test
  | reacquire : Move lk state p .reacquire (.take lk) .test
  | produce : Move lk state p .produce .keep .wakeup
  | wakeup (differs : lk ≠ .ptable) :
      Move lk state p .wakeup (.take .ptable) (.scan (List.finRange nproc))
  | wakeup1 (same : lk = .ptable) : Move lk state p .wakeup .keep (.scan (List.finRange nproc))
  | scan (q : Fin nproc) (rest : List (Fin nproc)) :
      Move lk state p (.scan (q :: rest)) .keep (.scan rest)
  | scanned (differs : lk ≠ .ptable) : Move lk state p (.scan []) (.drop .ptable) .leave
  | scanned1 (same : lk = .ptable) : Move lk state p (.scan []) .keep .leave

/-- The table after a move from a point to another. -/
def Point.table (chan : Channel nproc) (table : Fin nproc → Entry nproc) (p : Fin nproc) :
    Point nproc → Point nproc → Fin nproc → Entry nproc
  | .setChan, _ => update table p { table p with chan := some chan }
  | .setSleeping, _ => update table p { table p with state := .sleeping }
  | .chosen, .clearChan => update table p { table p with state := .running }
  | .clearChan, _ => update table p { table p with chan := none }
  | .scan (q :: _), _ => wakeSlot chan table q
  | _, _ => table

/-- What becomes of the condition: one may make it false while using it, and a waker makes it
true. -/
def Point.Cond (point : Point nproc) (before after : Bool) : Prop :=
  match point with
  | .use => after = true → before = true
  | .produce => after = true
  | _ => after = before

structure Stepped (lk : Lock) (chan : Channel nproc) (state : State nproc) (p : Fin nproc)
    (next : State nproc) (grip : Grip) (target : Point nproc) : Prop where
  move : Move lk state p (state.point p) grip target
  free : ∀ lock, grip = .take lock → state.holder lock = none
  holder : next.holder = grip.holder p state.holder
  point : next.point = update state.point p target
  table : next.table = (state.point p).table chan state.table p target
  cond : (state.point p).Cond state.cond next.cond

section

variable {lk lock : Lock} {chan : Channel nproc} {state next : State nproc} {p : Fin nproc}
  {old new : Point nproc}

theorem Stepped.of_acquire (here : state.point p = old)
    (move : Move lk state p old (.take lock) new)
    (table : old.table chan state.table p new = state.table)
    (cond : old.Cond state.cond state.cond)
    (stepped : state.acquire lock p new = some next) :
    Stepped lk chan state p next (.take lock) new := by
  subst here
  rw [State.acquire, Option.ite_none_right_eq_some, Option.some.injEq] at stepped
  rw [← stepped.2]
  refine ⟨move, ?_, rfl, rfl, table.symm, cond⟩
  intro taken same
  cases same
  exact stepped.1

theorem Stepped.of_release (here : state.point p = old)
    (move : Move lk state p old (.drop lock) new)
    (table : old.table chan state.table p new = state.table)
    (cond : old.Cond state.cond state.cond) :
    Stepped lk chan state p (state.release lock p new) (.drop lock) new := by
  subst here
  exact ⟨move, nofun, rfl, rfl, table.symm, cond⟩

theorem Stepped.of_keep {table : Fin nproc → Entry nproc} {cond : Bool}
    (here : state.point p = old) (move : Move lk state p old .keep new)
    (isTable : old.table chan state.table p new = table) (isCond : old.Cond state.cond cond) :
    Stepped lk chan state p ({ state with table := table, cond := cond }.goto p new) .keep new := by
  subst here
  exact ⟨move, nofun, rfl, rfl, isTable.symm, isCond⟩

/-- Every step is one of the moves. -/
theorem step_cases {action : Action} (stepped : step lk chan state (p, action) = some next) :
    ∃ grip target, Stepped lk chan state p next grip target := by
  unfold step procStep at stepped
  dsimp only at stepped
  split at stepped
  · rename_i here
    exact ⟨_, _, .of_acquire here .wait rfl rfl stepped⟩
  · rename_i here
    exact ⟨_, _, .of_acquire here .wake rfl rfl stepped⟩
  · rename_i here
    cases stepped
    cases holds : state.cond with
    | true => exact ⟨_, _, .of_keep here (.found holds) rfl rfl⟩
    | false => exact ⟨_, _, .of_keep here (.sleep holds) rfl rfl⟩
  · rename_i falsify here
    cases stepped
    exact ⟨_, _, .of_keep here .use rfl fun holds => (Bool.and_eq_true_iff.mp holds).1⟩
  · rename_i here
    cases stepped
    exact ⟨_, _, .of_release here .leave rfl rfl⟩
  · rename_i here
    split at stepped
    · rename_i differs
      exact ⟨_, _, .of_acquire here (.takePtable differs) rfl rfl stepped⟩
    · rename_i same
      cases stepped
      exact ⟨_, _, .of_keep here (.already (not_not.mp same)) rfl rfl⟩
  · rename_i here
    cases stepped
    exact ⟨_, _, .of_release here .releaseLk rfl rfl⟩
  · rename_i here
    cases stepped
    exact ⟨_, _, .of_keep here .setChan rfl rfl⟩
  · rename_i here
    cases stepped
    exact ⟨_, _, .of_keep here .setSleeping rfl rfl⟩
  · rename_i here
    cases stepped
    exact ⟨_, _, .of_keep here .sched rfl rfl⟩
  · rename_i here
    cases stepped
    exact ⟨_, _, .of_release here .switched rfl rfl⟩
  · rename_i here
    exact ⟨_, _, .of_acquire here .dispatch rfl rfl stepped⟩
  · rename_i here
    split at stepped
    · rename_i runnable
      cases stepped
      exact ⟨_, _, .of_keep here (.run runnable) rfl rfl⟩
    · rename_i other
      cases stepped
      exact ⟨_, _, .of_release here (.passOver other) rfl rfl⟩
  · rename_i here
    cases stepped
    exact ⟨_, _, .of_keep here .clearChan rfl rfl⟩
  · rename_i here
    cases stepped
    split
    · rename_i differs
      exact ⟨_, _, .of_release here (.releasePtable differs) rfl rfl⟩
    · rename_i same
      exact ⟨_, _, .of_keep here (.keepPtable (not_not.mp same)) rfl rfl⟩
  · rename_i here
    exact ⟨_, _, .of_acquire here .reacquire rfl rfl stepped⟩
  · rename_i here
    cases stepped
    exact ⟨_, _, .of_keep here .produce rfl rfl⟩
  · rename_i here
    split at stepped
    · rename_i differs
      exact ⟨_, _, .of_acquire here (.wakeup differs) rfl rfl stepped⟩
    · rename_i same
      cases stepped
      exact ⟨_, _, .of_keep here (.wakeup1 (not_not.mp same)) rfl rfl⟩
  · rename_i q rest here
    cases stepped
    exact ⟨_, _, .of_keep here (.scan q rest) rfl rfl⟩
  · rename_i here
    cases stepped
    split
    · rename_i differs
      exact ⟨_, _, .of_release here (.scanned differs) rfl rfl⟩
    · rename_i same
      exact ⟨_, _, .of_keep here (.scanned1 (not_not.mp same)) rfl rfl⟩
  · cases stepped

end

end Xv6.Sleep
