import Xv6.Pipes.Machine

/-! # Steps on a pipe

The inversion of `step`, and the lock: a process that has it is not disturbed.
-/

namespace Xv6.Pipes

open Transition
open Function (update update_self update_of_ne update_apply)

variable {nproc : Nat}

/-- The lock of the pipe is held. -/
@[grind]
def Control.InSection : Control → Prop
  | .readWait _ | .readSleep _ | .readLoop _ _ | .writeLoop _ _ _ _ | .writeSleep _ _ _ => True
  | .outside | .readStart _ | .readAsleep _ | .writeStart _ _ | .writeAsleep _ _ _ | .closing _ =>
      False

/-! ## Inversion -/

inductive Proceeds (state : State nproc) (p : Fin nproc) : State nproc → Prop
  | readEnter {n : Int32} (control : state.control p = .readStart n) (free : state.lock = none) :
      Proceeds state p (state.goto p (.readWait n) (some p))
  | readKilled {n : Int32} (control : state.control p = .readWait n) (empty : state.pipe.Empty)
      (isOpen : state.pipe.writeopen = true) (killed : (state.table p).killed = true) :
      Proceeds state p (state.goto p .outside none)
  | readBlocks {n : Int32} (control : state.control p = .readWait n) (empty : state.pipe.Empty)
      (isOpen : state.pipe.writeopen = true) :
      Proceeds state p (state.setControl p (.readSleep n))
  | readReady {n : Int32} (control : state.control p = .readWait n)
      (ready : ¬(state.pipe.Empty ∧ state.pipe.writeopen = true)) :
      Proceeds state p (state.setControl p (.readLoop n 0))
  | readSleeps {n : Int32} (control : state.control p = .readSleep n) :
      Proceeds state p (state.sleepOn p readChan (.readAsleep n))
  | readWakes {n : Int32} (control : state.control p = .readAsleep n) (free : state.lock = none) :
      Proceeds state p (state.reacquire p (.readWait n))
  | take {n : Int32} {i : Nat} (control : state.control p = .readLoop n i) (inside : i < n.toInt)
      (some : ¬state.pipe.Empty) :
      Proceeds state p
        { state with
          pipe := state.pipe.take
          control := update state.control p (.readLoop n (i + 1)) }
  | readReturns {n : Int32} {i : Nat} (control : state.control p = .readLoop n i)
      (done : ¬(i < n.toInt ∧ ¬state.pipe.Empty)) :
      Proceeds state p (state.wakeAndLeave p writeChan)
  | writeEnter {addr : Nat → UInt8} {n : Int32} (control : state.control p = .writeStart addr n)
      (free : state.lock = none) :
      Proceeds state p (state.goto p (.writeLoop addr n 0 0) (some p))
  | writeAborts {addr : Nat → UInt8} {n : Int32} {i since : Nat}
      (control : state.control p = .writeLoop addr n i since) (inside : i < n.toInt)
      (full : state.pipe.Full)
      (stops : state.pipe.readopen = false ∨ (state.table p).killed = true) :
      Proceeds state p (state.goto p .outside none)
  | writeBlocks {addr : Nat → UInt8} {n : Int32} {i since : Nat}
      (control : state.control p = .writeLoop addr n i since) (full : state.pipe.Full)
      (isOpen : state.pipe.readopen = true) :
      Proceeds state p
        { state with
          table := state.table.wakeup1 readChan
          control := update state.control p (.writeSleep addr n i) }
  | store {addr : Nat → UInt8} {n : Int32} {i since : Nat}
      (control : state.control p = .writeLoop addr n i since) (inside : i < n.toInt)
      (space : ¬state.pipe.Full) :
      Proceeds state p
        { state with
          pipe := state.pipe.store (addr i)
          control := update state.control p (.writeLoop addr n (i + 1) since) }
  | writeReturns {addr : Nat → UInt8} {n : Int32} {i since : Nat}
      (control : state.control p = .writeLoop addr n i since) (done : ¬i < n.toInt) :
      Proceeds state p (state.wakeAndLeave p readChan)
  | writeSleeps {addr : Nat → UInt8} {n : Int32} {i : Nat}
      (control : state.control p = .writeSleep addr n i) :
      Proceeds state p (state.sleepOn p writeChan (.writeAsleep addr n i))
  | writeWakes {addr : Nat → UInt8} {n : Int32} {i : Nat}
      (control : state.control p = .writeAsleep addr n i) (free : state.lock = none) :
      Proceeds state p (state.reacquire p (.writeLoop addr n i i))
  | closes {writable : Bool} (control : state.control p = .closing writable)
      (free : state.lock = none) : Proceeds state p (state.pipeclose p writable)

inductive Stepped (state : State nproc) : Action nproc → State nproc → Prop
  | proceeds {p : Fin nproc} {next : State nproc} (running : (state.table p).state = .running)
      (proceeds : Proceeds state p next) : Stepped state (.act p .proceed) next
  | yield {p : Fin nproc} (running : (state.table p).state = .running)
      (unlocked : state.lock ≠ some p) :
      Stepped state (.act p .yield)
        { state with table := state.table.modify p fun proc => { proc with state := .runnable } }
  | read {p : Fin nproc} (n : Int32) (control : state.control p = .outside)
      (held : 0 < state.refs false p) :
      Stepped state (.act p (.read n)) (state.setControl p (.readStart n))
  | write {p : Fin nproc} (addr : Nat → UInt8) (n : Int32) (control : state.control p = .outside)
      (held : 0 < state.refs true p) :
      Stepped state (.act p (.write addr n)) (state.setControl p (.writeStart addr n))
  | close {p : Fin nproc} (writable : Bool) (control : state.control p = .outside)
      (held : 0 < state.refs writable p) :
      Stepped state (.act p (.close writable)) (state.fileclose p writable)
  | share {p q : Fin nproc} (writable : Bool) (control : state.control q = .outside)
      (held : 0 < state.refs writable p) :
      Stepped state (.act p (.share q writable)) (state.share q writable)
  | run {p : Fin nproc} (runnable : (state.table p).state = .runnable) :
      Stepped state (.run p)
        { state with table := state.table.modify p fun proc => { proc with state := .running } }
  | kill (pid : Int32) :
      Stepped state (.kill pid) { state with table := (state.table.kill pid).1 }
  | other {p : Fin nproc} {entry : Ptable.Proc nproc} (control : state.control p = .outside)
      (elsewhere : ¬(entry.chan = some readChan ∨ entry.chan = some writeChan)) :
      Stepped state (.other p entry)
        { state with table := update state.table p entry }

section

variable {state next : State nproc} {p : Fin nproc} {action : Action nproc}

theorem proceed_cases (proceeds : state.proceed p = some next) : Proceeds state p next := by
  unfold State.proceed at proceeds
  split at proceeds
  · cases proceeds
  · rename_i control
    rcases of_guard proceeds with ⟨free, rfl⟩
    exact .readEnter control free
  · rename_i control
    split at proceeds
    · rename_i waits
      split at proceeds
      · rename_i killed
        cases proceeds
        exact .readKilled control waits.1 waits.2 killed
      · cases proceeds
        exact .readBlocks control waits.1 waits.2
    · rename_i ready
      cases proceeds
      exact .readReady control ready
  · rename_i control
    cases proceeds
    exact .readSleeps control
  · rename_i control
    rcases of_guard proceeds with ⟨free, rfl⟩
    exact .readWakes control free
  · rename_i control
    split at proceeds
    · rename_i moves
      cases proceeds
      exact .take control moves.1 moves.2
    · rename_i done
      cases proceeds
      exact .readReturns control done
  · rename_i control
    rcases of_guard proceeds with ⟨free, rfl⟩
    exact .writeEnter control free
  · rename_i control
    split at proceeds
    · rename_i inside
      split at proceeds
      · rename_i full
        split at proceeds
        · rename_i stops
          cases proceeds
          exact .writeAborts control inside full stops
        · rename_i goesOn
          cases proceeds
          exact .writeBlocks control full
            (Bool.not_eq_false _ ▸ fun closed => goesOn (Or.inl closed))
      · rename_i space
        cases proceeds
        exact .store control inside space
    · rename_i done
      cases proceeds
      exact .writeReturns control done
  · rename_i control
    cases proceeds
    exact .writeSleeps control
  · rename_i control
    rcases of_guard proceeds with ⟨free, rfl⟩
    exact .writeWakes control free
  · rename_i control
    rcases of_guard proceeds with ⟨free, rfl⟩
    exact .closes control free

/-- Every step is one of the kinds above. -/
theorem step_cases (stepped : step state action = some next) : Stepped state action next := by
  cases action with
  | act p act =>
    rw [step] at stepped
    split at stepped
    · rename_i running
      unfold processStep at stepped
      split at stepped
      · exact .proceeds running (proceed_cases stepped)
      · split at stepped
        · cases stepped
        · rename_i unlocked
          cases stepped
          exact .yield running unlocked
      · rename_i n control
        rcases of_guard stepped with ⟨held, rfl⟩
        exact .read n control held
      · rename_i addr n control
        rcases of_guard stepped with ⟨held, rfl⟩
        exact .write addr n control held
      · rename_i writable control
        rcases of_guard stepped with ⟨held, rfl⟩
        exact .close writable control held
      · rename_i q writable control
        split at stepped
        · rename_i other
          rcases of_guard stepped with ⟨held, rfl⟩
          exact .share writable other held
        · cases stepped
      · cases stepped
    · cases stepped
  | run p =>
    rw [step] at stepped
    rcases of_guard stepped with ⟨runnable, rfl⟩
    exact .run runnable
  | kill pid =>
    cases stepped
    exact .kill pid
  | other p entry =>
    dsimp only [step] at stepped
    split at stepped
    · rename_i control
      split at stepped
      · cases stepped
      · rename_i elsewhere
        cases stepped
        exact .other control elsewhere
    · cases stepped

end

/-! ## The lock -/

def Locked (control : Fin nproc → Control) (lock : Option (Fin nproc)) : Prop :=
  ∀ p, lock = some p ↔ (control p).InSection

section

variable {state next : State nproc} {control : Fin nproc → Control} {lock : Option (Fin nproc)}
  {p q : Fin nproc} {new : Control} {action : Action nproc}

theorem Locked.free_of_update (locked : Locked control lock) (own : lock = none ∨ lock = some p)
    (outside : ¬new.InSection) : Locked (update control p new) none := by
  grind [Locked, update_apply]

theorem Locked.held_of_update (locked : Locked control lock) (own : lock = none ∨ lock = some p)
    (inside : new.InSection) : Locked (update control p new) (some p) := by
  grind [Locked, update_apply]

theorem Locked.keep (locked : Locked control lock)
    (same : new.InSection ↔ (control p).InSection) :
    Locked (update control p new) lock := by
  grind [Locked, update_apply]

theorem Locked.mine (locked : Locked state.control state.lock)
    (inside : (state.control p).InSection) : state.lock = some p := (locked p).mpr inside

theorem Proceeds.locked (proceeds : Proceeds state p next)
    (locked : Locked state.control state.lock) : Locked next.control next.lock := by
  cases proceeds with
  | readEnter control free | readWakes control free | writeEnter control free
  | writeWakes control free => exact locked.held_of_update (Or.inl free) trivial
  | readKilled control empty isOpen killed | readSleeps control | readReturns control done
  | writeAborts control inside full stops | writeReturns control done | writeSleeps control =>
    exact locked.free_of_update (Or.inr (locked.mine (by rw [control]; trivial))) id
  | readBlocks control empty isOpen | readReady control ready | take control inside some
  | writeBlocks control full isOpen | store control inside space | closes control free =>
    exact locked.keep (by rw [control]; exact Iff.rfl)

theorem Stepped.locked (stepped : Stepped state action next)
    (locked : Locked state.control state.lock) : Locked next.control next.lock := by
  cases stepped with
  | proceeds running proceeds => exact proceeds.locked locked
  | yield running unlocked | share writable control held | run runnable | kill pid
  | other control elsewhere => exact locked
  | read n control held | write addr n control held =>
    exact locked.keep (by rw [control]; exact Iff.rfl)
  | close writable control held =>
    rw [State.fileclose]
    split
    · exact locked.keep (by rw [control]; exact Iff.rfl)
    · exact locked

theorem Proceeds.control_of_ne (proceeds : Proceeds state p next) (different : q ≠ p) :
    next.control q = state.control q := by
  cases proceeds with
  | _ => exact update_of_ne different ..

/-- A process goes on in a call only with the lock, or when the lock is free. -/
theorem Proceeds.own (proceeds : Proceeds state p next)
    (locked : Locked state.control state.lock) : state.lock = none ∨ state.lock = some p := by
  cases proceeds with
  | readEnter control free | readWakes control free | writeEnter control free
  | writeWakes control free | closes control free => exact Or.inl free
  | readKilled control | readBlocks control | readReady control | readSleeps control
  | take control | readReturns control | writeAborts control | writeBlocks control
  | store control | writeReturns control | writeSleeps control =>
    exact Or.inr (locked.mine (by rw [control]; trivial))

theorem Locked.alone (locked : Locked control lock) (own : lock = none ∨ lock = some p)
    (different : q ≠ p) : ¬(control q).InSection := by
  intro inside
  have held := (locked q).mpr inside
  cases own with
  | inl free =>
    rw [free] at held
    cases held
  | inr mine => exact different (Option.some.inj (held.symm.trans mine))

/-- Steps that are not taken in a call leave the pipe and the lock alone. -/
theorem Stepped.pipe_eq (stepped : Stepped state action next)
    (notProceed : ∀ p, action ≠ .act p .proceed) :
    next.pipe = state.pipe ∧ next.lock = state.lock := by
  cases stepped with
  | @proceeds p _ running proceeds => exact absurd rfl (notProceed p)
  | close writable control held =>
    rw [State.fileclose]
    split
    · exact ⟨rfl, rfl⟩
    · exact ⟨rfl, rfl⟩
  | _ => exact ⟨rfl, rfl⟩

def Control.IsStart : Control → Prop
  | .readStart _ | .writeStart _ _ | .closing _ => True
  | _ => False

/-- They do not touch a process that is in a call. -/
theorem Stepped.control_cases (stepped : Stepped state action next)
    (notProceed : ∀ p, action ≠ .act p .proceed) (q : Fin nproc) :
    next.control q = state.control q ∨
      state.control q = .outside ∧ (next.control q).IsStart := by
  have starts : ∀ p new, state.control p = .outside → new.IsStart →
      update state.control p new q = state.control q ∨
        state.control q = .outside ∧ (update state.control p new q).IsStart := by
    intro p new outside isStart
    by_cases same : q = p
    · rw [same, update_self]
      exact Or.inr ⟨outside, isStart⟩
    · exact Or.inl (update_of_ne same ..)
  cases stepped with
  | @proceeds p _ running proceeds => exact absurd rfl (notProceed p)
  | read n control held => exact starts _ _ control trivial
  | write addr n control held => exact starts _ _ control trivial
  | close writable control held =>
    rw [State.fileclose]
    split
    · exact starts _ _ control trivial
    · exact Or.inl rfl
  | _ => exact Or.inl rfl

end

end Xv6.Pipes
