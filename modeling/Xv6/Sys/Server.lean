import Xv6.Foundation.Transition
import Xv6.Fs.Slots
import Xv6.Sys.Layer

/-! # The kernel that serves the calls

The calls run on the inode layer of `fs.c` and on the counter of `log.c`. A pointer
to an inode in the cache is represented by the number of the inode, and stands for
the entry in use with that number. The functions of the log are those of a single
call at a time: `begin_op` does not have to wait.
-/

namespace Xv6.Sys

open Interaction Program
open Dir (Tables Fields)

/-! ## State -/

/-- What is recorded about a run, in addition to the events of the inode layer. -/
inductive Mark
  | beginOp
  | endOp
  | fs (event : Fs.Event)
  | ialloc (tables : Tables) (inum : Nat)
  | ifree (before after : Fs.Store) (inum : Nat)

def Mark.isBegin : Mark → Bool
  | .beginOp => true
  | _ => false

/-- How a call ends the run: with a panic, or because it uses a pointer to an inode
that is not in the cache. -/
inductive Failure
  | panic (panic : Dir.Panic)
  | fileread
  | logWriteOutsideOfTrans
  | dangling

/-- `outstanding` is the counter of the log, and the latest mark is the first one. -/
structure State where
  store : Fs.Store
  tables : Tables
  outstanding : Nat
  trace : List Mark

abbrev Kernel (Value : Type) := Program State Failure Value

def State.after (state : State) (next : Fs.State) : State :=
  { state with store := next.toStore, trace := next.events.map .fs ++ state.trace }

def IsLogWrite : Fs.Event → Bool
  | .logWrite _ => true
  | .balloc _ _ => false

namespace Server

variable {Value : Type}

/-! ## Calling the inode layer -/

/-- A function that never calls `log_write`. -/
def unlogged (program : Fs.Kernel Value) : Kernel Value := fun state =>
  match program ⟨state.store, []⟩ with
  | .ok (value, next) => .ok (value, state.after next)
  | .error panic => .error (.panic (.fs panic))

/-- A function that may call `log_write`, which panics if no transaction is open. Of
a function that stops with another panic it is not known whether it has called
`log_write` before: without a transaction it is taken to have done so. -/
def logged (program : Fs.Kernel Value) : Kernel Value := fun state =>
  match program ⟨state.store, []⟩ with
  | .ok (value, next) =>
      if state.outstanding < 1 ∧ next.events.any IsLogWrite then .error .logWriteOutsideOfTrans
      else .ok (value, state.after next)
  | .error panic =>
      if state.outstanding < 1 then .error .logWriteOutsideOfTrans
      else .error (.panic (.fs panic))

def mark (mark : Mark) : Kernel Unit :=
  modify fun state => { state with trace := mark :: state.trace }

/-- The entry that a pointer stands for. -/
def entry (ip : Nat) : Kernel (Fin NINODE) := fun state =>
  match state.store.slot ip with
  | some slot => .ok (slot, state)
  | none => .error .dangling

def iget (inum : Nat) : Kernel Nat := do
  let slot ← unlogged (Fs.iget inum)
  return ((← get).store.icache slot).inum

def idup (ip : Nat) : Kernel Nat := do
  let slot ← unlogged (Fs.idup (← entry ip))
  return ((← get).store.icache slot).inum

def ialloc (type : Int16) : Kernel Nat := do
  let slot ← logged (Fs.ialloc type)
  let state ← get
  let inum := (state.store.icache slot).inum
  mark (.ialloc state.tables inum)
  return inum

def ilock (ip : Nat) : Kernel Unit := do
  unlogged (Fs.ilock (← entry ip))

def iput (ip : Nat) : Kernel Unit := do
  let slot ← entry ip
  let before := (← get).store
  let inode := before.icache slot
  logged (Fs.iput slot)
  if inode.ref = 1 ∧ inode.valid ∧ inode.copy.nlink = 0 then
    mark (.ifree before (← get).store inode.inum)
  else
    return ()

def fields (ip : Nat) : Kernel Fields := do
  let slot ← entry ip
  let copy := ((← get).store.icache slot).copy
  return ⟨copy.type, copy.major, copy.minor, copy.nlink, copy.size.toNat⟩

def update (ip : Nat) (major minor nlink : Int16) : Kernel Unit := do
  let slot ← entry ip
  logged do
    Fs.setInode slot fun inode => { inode with
      copy := { inode.copy with major := major, minor := minor, nlink := nlink } }
    Fs.iupdate slot

def readi (ip : Nat) (off n : UInt32) : Kernel (Int × List UInt8) := do
  logged (Fs.readi (← entry ip) off n)

def writei (ip : Nat) (src : List UInt8) (off : UInt32) : Kernel Int := do
  logged (Fs.writei (← entry ip) (fun index => src.getD index 0) off (UInt32.ofNat src.length))

def serveInode : (request : Dir.Request) → Kernel (Dir.Answer request)
  | .iget inum => iget inum
  | .idup ip => idup ip
  | .ialloc type => ialloc type
  | .ilock ip => ilock ip
  | .iput ip => iput ip
  | .fields ip => fields ip
  | .update ip major minor nlink => update ip major minor nlink
  | .readi ip off n => readi ip off n
  | .writei ip src off => writei ip src off
  | .tables => return (← get).tables
  | .setTables tables => modify fun state => { state with tables := tables }
  | .fail panic => throw (.panic panic)

def beginOp : Kernel Unit :=
  modify fun state => { state with
    outstanding := state.outstanding + 1, trace := .beginOp :: state.trace }

def endOp : Kernel Unit :=
  modify fun state => { state with
    outstanding := state.outstanding - 1, trace := .endOp :: state.trace }

def serve : (request : Request) → Kernel (Answer request)
  | .beginOp => beginOp
  | .endOp => endOp
  | .inode request => serveInode request
  | .fileread => throw .fileread

/-! ## Rules -/

section

variable {state : State} {fails : Failure → Prop}

theorem meets_unlogged {program : Fs.Kernel Value} {post : Value → State → Prop}
    (met : Meets program ⟨state.store, []⟩ (fun panic => fails (.panic (.fs panic)))
      fun value next => post value (state.after next)) :
    Meets (unlogged program) state fails post := by
  unfold Meets unlogged at *
  split at met
  · rename_i ran
    rw [ran]
    exact met
  · rename_i ran
    rw [ran]
    exact met

theorem meets_logged (program : Fs.Kernel Value) (post : Value → State → Prop) :
    Meets (logged program) state fails post ↔
      Meets program ⟨state.store, []⟩
        (fun panic => if state.outstanding < 1 then fails .logWriteOutsideOfTrans
          else fails (.panic (.fs panic)))
        fun value next => if state.outstanding < 1 ∧ next.events.any IsLogWrite then
          fails .logWriteOutsideOfTrans else post value (state.after next) := by
  unfold Meets logged
  cases program ⟨state.store, []⟩ with
  | ok outcome =>
    by_cases refused : state.outstanding < 1 ∧ outcome.2.events.any IsLogWrite
    · simp only [refused, and_self, if_true]
    · simp only [refused, if_false]
  | error panic =>
    by_cases outside : state.outstanding < 1
    · simp only [outside, if_true]
    · simp only [outside, if_false]

theorem meets_logged_open {program : Fs.Kernel Value} {post : Value → State → Prop}
    (isOpen : 0 < state.outstanding)
    (met : Meets program ⟨state.store, []⟩ (fun panic => fails (.panic (.fs panic)))
      fun value next => post value (state.after next)) :
    Meets (logged program) state fails post := by
  have inside : ¬state.outstanding < 1 := by omega
  rw [meets_logged]
  simp only [inside, false_and, if_false]
  exact met

theorem meets_entry {ip : Nat} {slot : Fin NINODE} {post : Fin NINODE → State → Prop}
    (found : state.store.slot ip = some slot) (met : post slot state) :
    Meets (entry ip) state fails post :=
  .intro_ok (by rw [entry, found]) met

@[simp] theorem meets_mark (added : Mark) (post : Unit → State → Prop) :
    Meets (mark added) state fails post ↔
      post () { state with trace := added :: state.trace } :=
  Iff.rfl

end

/-! ## What every request keeps -/

section

variable {related : State → State → Prop}

theorem unlogged_stays (after : ∀ state next, related state (state.after next))
    (program : Fs.Kernel Value) : Stays related (unlogged program) := by
  intro state
  refine meets_unlogged ?_
  unfold Meets
  cases program ⟨state.store, []⟩ with
  | ok outcome => exact after state outcome.2
  | error panic => trivial

theorem logged_stays (after : ∀ state next, related state (state.after next))
    (program : Fs.Kernel Value) : Stays related (logged program) := by
  intro state
  unfold Meets logged
  cases program ⟨state.store, []⟩ with
  | ok outcome =>
    dsimp only
    split
    · rename_i stopped
      split at stopped
      · cases stopped
      · cases stopped
        exact after state outcome.2
    · trivial
  | error panic =>
    dsimp only
    split
    · rename_i stopped
      split at stopped <;> cases stopped
    · trivial

variable [IsPreorder State related]

theorem entry_stays (ip : Nat) : Stays related (entry ip) := by
  intro state
  unfold Meets entry
  cases state.store.slot ip with
  | none => trivial
  | some slot => exact refl_of related state

/-- What is kept by the inode layer and when something other than the beginning of a
transaction is recorded is kept by every request to the inode layer. -/
theorem serve_inode_stays (after : ∀ state next, related state (state.after next))
    (marked : ∀ (state : State) (mark : Mark), mark.isBegin = false →
      related state { state with trace := mark :: state.trace })
    {request : Dir.Request}
    (setTables : ∀ (state : State) (tables : Tables), request = .setTables tables →
      related state { state with tables := tables }) :
    Stays related (serve (.inode request)) := by
  have mark_stays : ∀ mark : Mark, mark.isBegin = false → Stays related (Server.mark mark) :=
    fun mark other => stays_modify fun state => marked state mark other
  cases request with
  | iget inum =>
    exact stays_bind (unlogged_stays after _) fun _ => stays_bind stays_get fun _ => stays_pure _
  | idup ip =>
    exact stays_bind (entry_stays _) fun _ => stays_bind (unlogged_stays after _) fun _ =>
      stays_bind stays_get fun _ => stays_pure _
  | ialloc type =>
    exact stays_bind (logged_stays after _) fun _ => stays_bind stays_get fun _ =>
      stays_bind (mark_stays _ rfl) fun _ => stays_pure _
  | ilock ip => exact stays_bind (entry_stays _) fun _ => unlogged_stays after _
  | iput ip =>
    exact stays_bind (entry_stays _) fun _ => stays_bind stays_get fun _ =>
      stays_bind (logged_stays after _) fun _ => stays_ite _
        (stays_bind stays_get fun _ => mark_stays _ rfl) (stays_pure _)
  | fields ip =>
    exact stays_bind (entry_stays _) fun _ => stays_bind stays_get fun _ => stays_pure _
  | update ip major minor nlink | readi ip off n | writei ip src off =>
    exact stays_bind (entry_stays _) fun _ => logged_stays after _
  | tables => exact stays_bind stays_get fun _ => stays_pure _
  | setTables tables => exact stays_modify fun state => setTables state tables rfl
  | fail panic => exact stays_throw _

end

end Server

/-! ## Steps -/

def execute (p : Nat) (call : Call) : Kernel Outcome :=
  interpret Server.serve (call.program p)

/-- A call by a process that has not exited. -/
def step (state : State) (action : Nat × Call) : Option State :=
  match state.tables.proc action.1 with
  | none => none
  | some _ =>
      match execute action.1 action.2 state with
      | .ok (_, next) => some next
      | .error _ => none

end Xv6.Sys
