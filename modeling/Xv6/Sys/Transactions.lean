import Xv6.Sys.Runs

/-! # Transactions of the calls

Every call opens and closes its transactions in turn, and writes to the log only
while one of them is open. The calls that open none do not write at all.
-/

namespace Xv6.Sys

open Interaction Program Transition Mark
open Dir (Proc)

variable {Value : Type}

/-! ## Marks -/

def Mark.isEnd : Mark → Bool
  | .endOp => true
  | _ => false

/-- Whether something is written to the log, or an inode is freed. -/
def Mark.isLogged : Mark → Bool
  | .fs event => IsLogWrite event
  | .ifree _ _ _ => true
  | _ => false

section

variable {marks : List Mark} {isOpen : Bool}

theorem Ordered.balanced (ordered : Ordered marks isOpen) :
    marks.countP isBegin = marks.countP isEnd + if isOpen then 1 else 0 := by
  induction marks generalizing isOpen with
  | nil =>
    rw [show isOpen = false from ordered]
    rfl
  | cons mark earlier induction =>
    cases mark with
    | beginOp | endOp =>
      have before := induction ordered.2
      rw [ordered.1]
      simpa [List.countP_cons, isBegin, isEnd] using before
    | fs event =>
      have before : Ordered earlier isOpen := by
        cases event with
        | logWrite blockno => exact ordered.2
        | balloc before block => exact ordered
      simpa [List.countP_cons, isBegin, isEnd] using induction before
    | ialloc tables inum =>
      simpa [List.countP_cons, isBegin, isEnd] using induction ordered
    | ifree before after inum =>
      simpa [List.countP_cons, isBegin, isEnd] using induction ordered.2

theorem Ordered.quiet (ordered : Ordered marks isOpen) (none : marks.countP isBegin = 0) :
    isOpen = false ∧ marks.countP isLogged = 0 := by
  induction marks generalizing isOpen with
  | nil => exact ⟨ordered, rfl⟩
  | cons mark earlier induction =>
    rw [List.countP_cons, Nat.add_eq_zero_iff] at none
    cases mark with
    | beginOp => cases none.2
    | endOp => cases (induction ordered.2 none.1).1
    | fs event =>
      cases event with
      | logWrite blockno => cases ordered.1.symm.trans (induction ordered.2 none.1).1
      | balloc before block =>
        simpa [List.countP_cons, isLogged, IsLogWrite] using induction ordered none.1
    | ialloc tables inum =>
      simpa [List.countP_cons, isLogged] using induction ordered none.1
    | ifree before after inum => cases ordered.1.symm.trans (induction ordered.2 none.1).1

end

/-! ## Calls without transactions -/

/-- The calls that open no transaction around their reads. -/
def Call.isRead : Call → Bool
  | .read _ _ | .fstat _ => true
  | _ => false

/-- The program begins no transaction. -/
abbrev Plain (program : Prog Value) : Prop := Avoids (· = Request.beginOp) program

/-- Whatever has been recorded in between, it is not the beginning of a transaction. -/
def NoneBegun (state next : State) : Prop :=
  ∃ marks, next.trace = marks ++ state.trace ∧ marks.countP Mark.isBegin = 0

instance : IsPreorder State NoneBegun where
  refl := fun _ => ⟨[], rfl, rfl⟩
  trans := by
    rintro state middle next ⟨first, sameFirst, noneFirst⟩ ⟨second, sameSecond, noneSecond⟩
    refine ⟨second ++ first, by rw [sameSecond, sameFirst, List.append_assoc], ?_⟩
    rw [List.countP_append, noneFirst, noneSecond]

section

theorem within_plain (program : Dir.Prog Value) : Plain (liftM program : Prog Value) := by
  refine @avoids_translate _ _ _ _ _ (fun _ => False) _ pass (fun _ _ => avoids_send nofun)
    program ?_
  induction program with
  | done value => trivial
  | ask request next induction => exact ⟨id, induction⟩

theorem fileread_plain (f : Nat) (n : UInt32) : Plain (fileread f n) := by
  refine avoids_bind (within_plain _) fun tables => avoids_ite _ (avoids_pure _) ?_
  cases (tables.file f).kind with
  | none => exact avoids_bind (avoids_send nofun) nofun
  | inode =>
    refine avoids_bind (within_plain _) fun _ => avoids_bind (within_plain _) fun answer => ?_
    dsimp only
    split
    · exact avoids_bind (within_plain _) fun _ => avoids_pure _
    · exact avoids_pure _

theorem filestat_plain (f : Nat) : Plain (filestat f) := by
  refine avoids_bind (within_plain _) fun tables => ?_
  dsimp only
  cases (tables.file f).kind with
  | none => exact avoids_pure _
  | inode =>
    exact avoids_bind (within_plain _) fun _ => avoids_bind (within_plain _) fun _ =>
      avoids_pure _

theorem program_plain (p : Nat) {call : Call} (isRead : call.isRead = true) :
    Plain (call.program p) := by
  cases call with
  | read fd n =>
    refine avoids_bind (within_plain _) fun tables => ?_
    cases (tables.proc p).bind (Proc.file · fd) with
    | none => exact avoids_pure _
    | some f => exact fileread_plain f n
  | fstat fd =>
    refine avoids_bind (avoids_bind (within_plain _) fun tables => ?_) fun _ => avoids_pure _
    cases (tables.proc p).bind (Proc.file · fd) with
    | none => exact avoids_pure _
    | some f => exact avoids_bind (filestat_plain f) fun _ => avoids_pure _
  | _ => cases isRead

theorem serve_noneBegun (request : Request) (other : ¬request = .beginOp) :
    Stays NoneBegun (Server.serve request) := by
  cases request with
  | beginOp => exact absurd rfl other
  | endOp => exact stays_modify fun _ => ⟨[.endOp], rfl, rfl⟩
  | fileread => exact stays_throw _
  | inode request =>
    refine Server.serve_inode_stays (fun state next => ⟨_, rfl, ?_⟩)
      (fun _ mark other => ⟨[mark], rfl, by simp [other]⟩) fun _ _ _ => ⟨[], rfl, rfl⟩
    simp [List.countP_map, Function.comp_def, isBegin]

theorem execute_noneBegun (p : Nat) {call : Call} (isRead : call.isRead = true) :
    Stays NoneBegun (execute p call) :=
  (program_plain p isRead).stays_interpret serve_noneBegun

end

/-! ## Every call -/

/-- In every state that a run reaches from a consistent file system, a call of any
process never panics because it writes to the log outside of a transaction. When it
returns, it has begun and ended equally many transactions, each after the one before
it, with all writes to the log and all frees of inodes inside of them. A call that
reads has begun none and written nothing. -/
theorem calls_keep_transactions (start state : State) (ready : start.Ready)
    (reachable : Reachable step Unrestricted start state) (p : Nat) (proc : Proc)
    (live : state.tables.proc p = some proc) (call : Call) :
    Meets (execute p call) state (fun failure => failure ≠ .logWriteOutsideOfTrans)
      fun _ next => next.outstanding = 0 ∧ ∃ marks, next.trace = marks ++ state.trace ∧
        Ordered marks false ∧ marks.countP Mark.isBegin = marks.countP Mark.isEnd ∧
        (call.isRead = true →
          marks.countP Mark.isBegin = 0 ∧ marks.countP Mark.isLogged = 0) := by
  have between := reachable_ready ready reachable
  have met := execute_meets True between.toReferenced (fun _ => between) live call
  unfold Meets at met ⊢
  cases ran : execute p call state with
  | error failure =>
    rw [ran] at met
    have allowed : Allowed True failure := met
    exact allowed.2 trivial
  | ok result =>
    rw [ran] at met
    rcases met with ⟨after, served, ends, _⟩
    rcases served.recorded with ⟨marks, same, ordered, _⟩
    rw [ends.trans] at ordered
    refine ⟨by rw [served.outstanding, ends.trans]; rfl, marks, same, ordered,
      ordered.balanced, fun isRead => ?_⟩
    rcases (execute_noneBegun p isRead state).of_ok ran with ⟨others, sameOthers, noneBegun⟩
    rw [List.append_cancel_right (sameOthers.symm.trans same)] at noneBegun
    exact ⟨noneBegun, (ordered.quiet noneBegun).2⟩

theorem calls_keep_transactions_sample :
    (execute 0 (.mkdir (some [100])) sampleState).toOption.any (fun result =>
      decide (result.2.trace.countP Mark.isBegin = 1)) = true ∧
    Meets (execute 0 (.mkdir (some [100]))) sampleState
      (fun failure => failure ≠ .logWriteOutsideOfTrans) fun _ next => next.outstanding = 0 := by
  refine ⟨by decide +kernel, ?_⟩
  have kept := calls_keep_transactions sampleState sampleState sampleState_ready .refl 0 _ rfl
  generalize Call.mkdir (some [100]) = call
  exact (kept call).imp fun _ _ facts => facts.1

end Xv6.Sys
