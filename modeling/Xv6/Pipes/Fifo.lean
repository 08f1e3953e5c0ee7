import Xv6.Pipes.Steps

/-! # A pipe is a bounded queue

The bytes handed to readers are those stored by writers, in the same order, however the
calls interleave and however often the counters wrap.
-/

namespace Xv6.Pipes

open Transition
open Ptable (Table)

variable {nproc : Nat}

/-- The bytes that writers have stored, and those that have been handed to readers. -/
structure History where
  stored : List UInt8
  delivered : List UInt8

def History.record (state : State nproc) (action : Action nproc) (_ : State nproc)
    (history : History) : History :=
  match action with
  | .act p .proceed =>
      match state.control p with
      | .writeLoop addr n i _ =>
          if i < n.toInt ∧ ¬state.pipe.Full then
            { history with stored := history.stored ++ [addr i] }
          else history
      | .readLoop n i =>
          if i < n.toInt ∧ ¬state.pipe.Empty then
            { history with delivered := history.delivered ++ [state.pipe.next] }
          else history
      | _ => history
  | _ => history

/-- The bytes in the pipe are those that have been stored and not delivered. -/
def Queued (pipe : Pipe) (history : History) : Prop :=
  ∃ bytes, pipe.ring.Holds bytes ∧ history.stored = history.delivered ++ bytes

/-- A call of `piperead` that has left its first loop has not read more than it was asked
for. If it has not read anything yet, it finds something, or the write end closed. -/
def Copying (pipe : Pipe) (n : Int32) (i : Nat) : Prop :=
  (i = 0 ∨ i ≤ n.toInt) ∧ (i = 0 → ¬(pipe.Empty ∧ pipe.writeopen = true))

def Ready (state : State nproc) : Prop :=
  ∀ p n i, state.control p = .readLoop n i → Copying state.pipe n i

section

variable {pipe : Pipe} {history : History} {state next : State nproc} {p : Fin nproc}
  {action : Action nproc}

theorem pipesize_dvd : pipesize ∣ 2 ^ 32 := by decide

theorem pipesize_lt : pipesize < 2 ^ 32 := by decide

theorem Queued.store (queued : Queued pipe history) (space : ¬pipe.Full) (byte : UInt8) :
    Queued (pipe.store byte) { history with stored := history.stored ++ [byte] } := by
  rcases queued with ⟨bytes, holds, same⟩
  refine ⟨bytes ++ [byte], ?_, ?_⟩
  · apply holds.push pipesize_dvd
    apply Nat.lt_of_le_of_ne holds.bound
    intro full
    exact space ((holds.full_iff pipesize_lt).mpr full)
  · dsimp only
    rw [same, List.append_assoc]

theorem Queued.take (queued : Queued pipe history) (some : ¬pipe.Empty) :
    Queued pipe.take { history with delivered := history.delivered ++ [pipe.next] } := by
  rcases queued with ⟨bytes, holds, same⟩
  cases bytes with
  | nil => exact absurd ((holds.empty_iff pipesize_lt).mpr rfl) some
  | cons byte rest =>
    have front : pipe.next = byte := holds.front
    refine ⟨rest, holds.pop, ?_⟩
    dsimp only
    rw [front, same, List.append_assoc]
    rfl

theorem Queued.close (queued : Queued pipe history) (writable : Bool) :
    Queued (pipe.close writable) history := by
  rcases queued with ⟨bytes, holds, same⟩
  cases writable with
  | false => exact ⟨bytes, holds, same⟩
  | true => exact ⟨bytes, holds, same⟩

theorem Proceeds.queued (proceeds : Proceeds state p next) (queued : Queued state.pipe history) :
    Queued next.pipe (History.record state (.act p .proceed) next history) := by
  dsimp only [History.record]
  cases proceeds with
  | take control inside some =>
    rw [control]
    dsimp only
    rw [if_pos ⟨inside, some⟩]
    exact queued.take some
  | readReturns control done =>
    rw [control]
    dsimp only
    rw [if_neg done]
    exact queued
  | writeAborts control inside full stops =>
    rw [control]
    dsimp only
    rw [if_neg fun both => both.2 full]
    exact queued
  | writeBlocks control full isOpen =>
    rw [control]
    dsimp only
    rw [if_neg fun both => both.2 full]
    exact queued
  | store control inside space =>
    rw [control]
    dsimp only
    rw [if_pos ⟨inside, space⟩]
    exact queued.store space _
  | writeReturns control done =>
    rw [control]
    dsimp only
    rw [if_neg fun both => done both.1]
    exact queued
  | closes control free =>
    rw [control]
    exact queued.close _
  | readEnter control | readKilled control | readBlocks control | readReady control
  | readSleeps control | readWakes control | writeEnter control | writeSleeps control
  | writeWakes control =>
    rw [control]
    exact queued

theorem record_of_not_proceed (notProceed : ∀ p, action ≠ .act p .proceed) :
    History.record state action next history = history := by
  cases action with
  | act p act =>
    cases act with
    | proceed => exact absurd rfl (notProceed p)
    | _ => rfl
  | _ => rfl

theorem Stepped.queued (stepped : Stepped state action next) (queued : Queued state.pipe history) :
    Queued next.pipe (History.record state action next history) := by
  by_cases isProceed : ∃ p, action = .act p .proceed
  · rcases isProceed with ⟨p, isProceed⟩
    subst isProceed
    cases stepped with
    | proceeds running proceeds => exact proceeds.queued queued
  · have notProceed : ∀ p, action ≠ .act p .proceed := fun p same => isProceed ⟨p, same⟩
    rw [record_of_not_proceed notProceed, (stepped.pipe_eq notProceed).1]
    exact queued

/-- A process does not come to the copying loop but from the waiting loop. -/
theorem Proceeds.ready_self (proceeds : Proceeds state p next) {n : Int32} {i : Nat}
    (copies : next.control p = .readLoop n i) : Copying next.pipe n i := by
  cases proceeds with
  | readReady control ready =>
    have new := (Function.update_self ..).symm.trans copies
    cases new
    exact ⟨Or.inl rfl, fun _ => ready⟩
  | take control inside some =>
    have new := (Function.update_self ..).symm.trans copies
    cases new
    refine ⟨Or.inr ?_, nofun⟩
    omega
  | _ =>
    have new := (Function.update_self ..).symm.trans copies
    cases new

theorem Stepped.ready (stepped : Stepped state action next)
    (locked : Locked state.control state.lock) (ready : Ready state) : Ready next := by
  intro q n i copies
  by_cases isProceed : ∃ p, action = .act p .proceed
  · rcases isProceed with ⟨p, isProceed⟩
    subst isProceed
    cases stepped with
    | proceeds running proceeds =>
      by_cases same : q = p
      · subst same
        exact proceeds.ready_self copies
      · have was := (proceeds.control_of_ne same).symm.trans copies
        exact absurd (by rw [was]; trivial) (locked.alone (proceeds.own locked) same)
  · have notProceed : ∀ p, action ≠ .act p .proceed := fun p same => isProceed ⟨p, same⟩
    rw [(stepped.pipe_eq notProceed).1]
    apply ready q n i
    cases stepped.control_cases notProceed q with
    | inl same => exact same.symm.trans copies
    | inr starts =>
      rw [copies] at starts
      exact absurd starts.2 id

end

/-! ## Runs -/

/-- The argument `n` of the call of `piperead` that a process is in. -/
def Control.readLength : Control → Option Int32
  | .readStart n | .readWait n | .readSleep n | .readAsleep n | .readLoop n _ => some n
  | _ => none

/-- Runs of a new pipe, with what is stored and delivered. -/
def PipeRun (data : Fin pipesize → UInt8) (table : Table nproc) (creator : Fin nproc)
    (both : State nproc × History) : Prop :=
  Reachable (recorded step History.record) (fun both => Unrestricted both.1)
    (created data table creator, ⟨[], []⟩) both

theorem PipeRun.invariant {data : Fin pipesize → UInt8} {table : Table nproc}
    {creator : Fin nproc} {both : State nproc × History} (ran : PipeRun data table creator both) :
    Locked both.1.control both.1.lock ∧ Queued both.1.pipe both.2 ∧ Ready both.1 := by
  apply Reachable.invariant (fun both : State nproc × History =>
    Locked both.1.control both.1.lock ∧ Queued both.1.pipe both.2 ∧ Ready both.1) ?_ ?_ ran
  · intro before action after holds _ both
    rcases recorded_eq_some.mp both with ⟨stepped, isRecord⟩
    have kind := step_cases stepped
    rw [isRecord]
    exact ⟨kind.locked holds.1, kind.queued holds.2.1, kind.ready holds.1 holds.2.2⟩
  · refine ⟨?_, ?_, ?_⟩
    · intro p
      exact ⟨nofun, nofun⟩
    · exact ⟨[], .empty 0, rfl⟩
    · exact nofun

/-- In every run, what readers get is a prefix of what writers have stored, at most
`PIPESIZE` bytes are in the pipe, and a call of `piperead` for at least one byte returns 0
only if the write end is closed and everything has been read. -/
theorem pipe_is_bounded_fifo (nproc : Nat) (data : Fin pipesize → UInt8) (table : Table nproc)
    (creator : Fin nproc) (state : State nproc) (history : History)
    (ran : PipeRun data table creator (state, history)) :
    history.delivered <+: history.stored ∧
    (state.pipe.nwrite - state.pipe.nread).toNat =
      history.stored.length - history.delivered.length ∧
    (state.pipe.nwrite - state.pipe.nread).toNat ≤ pipesize ∧
    ∀ p n, (state.control p).readLength = some n → 0 < n.toInt → state.returns p = some 0 →
      state.pipe.writeopen = false ∧ history.delivered = history.stored := by
  rcases ran.invariant with ⟨_, ⟨bytes, holds, same⟩, ready⟩
  have count : (state.pipe.nwrite - state.pipe.nread).toNat = bytes.length :=
    holds.toNat_sub pipesize_lt
  refine ⟨⟨bytes, same.symm⟩, ?_, ?_, ?_⟩
  · dsimp only at same
    rw [count, same, List.length_append, Nat.add_sub_cancel_left]
  · rw [count]
    exact holds.bound
  · intro p n isCall positive returns
    unfold State.returns at returns
    split at returns
    · split at returns
      · cases returns
      · cases returns
    · rename_i n' i control
      have copying := ready p n' i control
      rw [control] at isCall
      cases isCall
      split at returns
      · cases returns
      · rename_i done
        have zero : i = 0 := by
          have value := congrArg Int32.toInt (Option.some.inj returns)
          have bound := n.toInt_lt
          have limit := copying.1
          rw [Int32.toInt_ofNat_of_lt (by omega), Int32.toInt_zero] at value
          omega
        have empty : state.pipe.Empty := by
          apply Decidable.byContradiction
          intro some
          exact done ⟨by omega, some⟩
        have none : bytes = [] := (holds.empty_iff pipesize_lt).mp empty
        constructor
        · exact Bool.eq_false_iff.mpr fun isOpen => copying.2 zero ⟨empty, isOpen⟩
        · rw [none, List.append_nil] at same
          exact same.symm
    · rename_i control
      rw [control] at isCall
      cases isCall
    · cases returns

def twoRunning : Table 2 := fun p =>
  { Ptable.Proc.zero with state := .running, pid := Int32.ofNat (p + 1) }

/-- The second process asks for two bytes and sleeps until the first has written three. -/
def sleepAndRead : List (Action 2) :=
  [.act 0 (.share 1 false), .act 1 (.read 2)] ++ List.replicate 3 (.act 1 .proceed) ++
    .act 0 (.write (fun i => UInt8.ofNat (i + 5)) 3) :: List.replicate 5 (.act 0 .proceed) ++
    .run 1 :: List.replicate 5 (.act 1 .proceed)

theorem pipe_is_bounded_fifo_two_processes :
    ∃ state history, PipeRun (fun _ => 0) twoRunning 0 (state, history) ∧
      history = ⟨[5, 6, 7], [5, 6]⟩ ∧ history.delivered <+: history.stored ∧
      (state.pipe.nwrite - state.pipe.nread).toNat = 1 := by
  rcases exists_reachable (recorded step History.record)
      (fun both : State 2 × History => Unrestricted both.1)
      (created (fun _ => 0) twoRunning 0, ⟨[], []⟩) sleepAndRead
      (fun both => both.2.stored = [5, 6, 7] ∧ both.2.delivered = [5, 6]) (by decide +kernel) with
    ⟨⟨state, history⟩, pipeRun, stored, delivered⟩
  have fifo := pipe_is_bounded_fifo 2 (fun _ => 0) twoRunning 0 state history pipeRun
  refine ⟨state, history, pipeRun, ?_, fifo.1, ?_⟩
  · rw [← stored, ← delivered]
  · rw [fifo.2.1, stored, delivered]
    rfl

end Xv6.Pipes
