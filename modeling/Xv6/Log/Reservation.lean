import Xv6.Log.Transactions

/-! # Room for every admitted operation

`begin_op` reserves `MAXOPBLOCKS` blocks for each operation it lets in, against
`LOGSIZE`. `log_write` refuses to go on at `log.size - 1` blocks, and on the disk
`mkfs` builds this is one less than `LOGSIZE`. The reservation is sufficient
exactly as long as it stays below the smaller of the two limits.
-/

namespace Xv6.Log

open Transition Phase

/-- The log area of the superblock that `mkfs` writes. -/
def mkfsArea : Area := ⟨2, LOGSIZE, by decide⟩

/-- The number of logged blocks at which `log_write` panics. -/
def Area.limit (area : Area) : Nat := min LOGSIZE (area.size - 1)

variable {Process : Type} {area : Area} {state next : State Process} {process : Process}
  {phase : Phase}

/-- No operation passes more than `MAXOPBLOCKS` distinct blocks to `log_write`. -/
def WithinBound (state : State Process) : Action Process → Prop
  | .logWrite process blockno _ =>
      match state.phase process with
      | .inOp _ blocks => (blocks.insert blockno).length ≤ MAXOPBLOCKS
      | _ => True
  | _ => True

instance (state : State Process) : ∀ action, Decidable (WithinBound state action)
  | .logWrite process blockno _ => by
      unfold WithinBound
      dsimp only
      split <;> infer_instance
  | .beginOp _ | .logAppend _ | .endOp _ | .commitStep _ | .kill _ => isTrue trivial

/-- An operation is only let in while the reservation including it stays below
the level at which `log_write` panics. -/
def ReservesBelow (area : Area) (state : State Process) : Action Process → Prop
  | .beginOp _ => state.Admits →
      (state.machine.lh.length : Int) + (state.outstanding + 1) * MAXOPBLOCKS < area.limit
  | _ => True

instance (area : Area) (state : State Process) :
    ∀ action, Decidable (ReservesBelow area state action)
  | .beginOp _ => inferInstanceAs (Decidable (_ → _))
  | .logWrite _ _ _ | .logAppend _ | .endOp _ | .commitStep _ | .kill _ => isTrue trivial

/-- Blocks an operation may still add to the log. -/
def Phase.budget : Phase → Nat
  | .inOp _ blocks | .writing _ blocks _ => MAXOPBLOCKS - blocks.length
  | .idle | .sleeping | .woken | .committing _ | .panicked _ => 0

def Phase.blocks : Phase → List Nat
  | .inOp _ blocks | .writing _ blocks _ => blocks
  | .idle | .sleeping | .woken | .committing _ | .panicked _ => []

theorem Phase.blocks_eq_nil {phase : Phase} (noOp : phase.op = none) : phase.blocks = [] := by
  cases phase <;> first | rfl | cases noOp

theorem Phase.budget_le (phase : Phase) : phase.budget ≤ MAXOPBLOCKS * phase.weight := by
  cases phase <;> simp [budget, weight]

variable [Fintype Process]

def State.reserved (state : State Process) : Nat :=
  ∑ process, (state.phase process).budget

theorem State.reserved_le (state : State Process) :
    state.reserved ≤ MAXOPBLOCKS * state.inProgress := by
  rw [State.reserved, State.inProgress, Finset.mul_sum]
  exact Finset.sum_le_sum fun process _ => budget_le _

structure Reserved (area : Area) (state : State Process) : Prop where
  room : state.machine.lh.length + state.reserved < area.limit
  logged : ∀ process, ∀ blockno ∈ (state.phase process).blocks, blockno ∈ state.machine.lh
  fits : ∀ process op blocks blockno, state.phase process = .writing op blocks blockno →
    (blocks.insert blockno).length ≤ MAXOPBLOCKS
  calm : ∀ process, state.phase process ≠ .panicked .tooBigTransaction

theorem Reserved.wakeup (reserved : Reserved area state) : Reserved area state.wakeup := by
  have sameBudget : state.wakeup.reserved = state.reserved :=
    Finset.sum_congr rfl fun process _ => wakeup_eq budget rfl state process
  refine ⟨?_, ?_, ?_, ?_⟩
  · rw [sameBudget]
    exact reserved.room
  · intro process
    rw [wakeup_eq blocks rfl state process]
    exact reserved.logged process
  · intro process op blocks blockno writing
    exact reserved.fits process op blocks blockno (wakeup_phase_eq (by simp) writing)
  · intro process panicked
    exact reserved.calm process (wakeup_phase_eq (by simp) panicked)

theorem reserved_initial (machine : Machine) :
    Reserved mkfsArea (initial machine : State Process) := by
  refine ⟨?_, ?_, ?_, ?_⟩
  · simp [initial, State.reserved, budget, Area.limit, mkfsArea, LOGSIZE, MAXOPBLOCKS]
  · simp [initial, blocks]
  · simp [initial]
  · simp [initial]

variable [DecidableEq Process]

section

variable (reserved : Reserved area state)
include reserved

theorem Reserved.change (phases : next.phase = Function.update state.phase process phase)
    (room : next.machine.lh.length + (state.reserved + phase.budget) <
      area.limit + (state.phase process).budget)
    (kept : ∀ other, ∀ blockno ∈ (state.phase other).blocks, blockno ∈ next.machine.lh)
    (logged : ∀ blockno ∈ phase.blocks, blockno ∈ next.machine.lh)
    (fits : ∀ op blocks blockno, phase = .writing op blocks blockno →
      (blocks.insert blockno).length ≤ MAXOPBLOCKS)
    (calm : phase ≠ .panicked .tooBigTransaction) : Reserved area next := by
  have total := sum_update budget state.phase process phase
  rw [← phases] at total
  change next.reserved + _ = state.reserved + _ at total
  refine ⟨by omega, ?_, ?_, ?_⟩
  · exact forall_phase phases (fun _ phase => ∀ blockno ∈ phase.blocks, blockno ∈ next.machine.lh)
      logged fun other _ => kept other
  · exact forall_phase phases (fun _ phase => ∀ op blocks blockno,
      phase = .writing op blocks blockno → (blocks.insert blockno).length ≤ MAXOPBLOCKS)
      fits fun other _ => reserved.fits other
  · exact forall_phase phases (fun _ phase => phase ≠ .panicked .tooBigTransaction)
      calm fun other _ => reserved.calm other

/-- A step that ends or does not concern an operation. -/
theorem Reserved.settle (phases : next.phase = Function.update state.phase process phase)
    (lh : next.machine.lh = state.machine.lh) (noOp : phase.op = none)
    (calm : phase ≠ .panicked .tooBigTransaction) : Reserved area next := by
  have budgetZero : phase.budget = 0 := by
    cases phase <;> first | rfl | cases noOp
  have noBlocks := blocks_eq_nil noOp
  have room := reserved.room
  apply reserved.change phases
  · rw [lh, budgetZero]
    omega
  · rw [lh]
    exact reserved.logged
  · rw [noBlocks]
    exact fun _ member => nomatch member
  · intro op blocks blockno writing
    rw [writing] at noOp
    cases noOp
  · exact calm

theorem Reserved.quiet {action : Action Process} (within : WithinBound state action)
    (quiet : Quiet area state process action (state.phase process) phase)
    (moves : Moves state next process phase) : Reserved area next := by
  have room := reserved.room
  generalize before : state.phase process = earlier at quiet
  cases quiet with
  | refused | outside | overruns | commits | killed =>
    exact reserved.settle moves.phases moves.lh rfl (by simp)
  | tooBig full =>
    simp only [Area.limit] at room
    omega
  | writes =>
    simp only [WithinBound, before] at within
    apply reserved.change moves.phases
    · simp only [moves.lh, before, budget]
      omega
    · rw [moves.lh]
      exact reserved.logged
    · intro other member
      rw [moves.lh]
      apply reserved.logged process other
      rw [before]
      exact member
    · intro op blocks blockno equal
      cases equal
      exact within
    · simp

theorem Reserved.begins (control : Control state) (outside : (state.phase process).weight = 0)
    (admits : state.Admits) (below : ReservesBelow area state (.beginOp process)) :
    Reserved area { state.setPhase process (.inOp state.nextOp []) with
      outstanding := state.outstanding + 1
      nextOp := state.nextOp + 1 } := by
  have limit := below admits
  have counted := control.outstanding
  have bound := state.reserved_le
  have budgetZero : (state.phase process).budget = 0 := by
    have := budget_le (state.phase process)
    rw [outside] at this
    omega
  refine reserved.change rfl ?_ reserved.logged (fun _ member => nomatch member)
    (fun _ _ _ impossible => nomatch impossible) (by simp)
  -- The new operation brings its whole budget, which the admission test covers.
  simp only [State.setPhase, budget, List.length_nil]
  simp only [MAXOPBLOCKS] at limit bound ⊢
  omega

theorem Reserved.appends {op blockno : Nat} {blocks : List Nat}
    (writing : state.phase process = .writing op blocks blockno) :
    Reserved area (state.logAppend process op blocks blockno) := by
  have room := reserved.room
  have fits := reserved.fits process op blocks blockno writing
  have ownLogged : ∀ other ∈ blocks, other ∈ state.machine.lh := by
    intro other member
    apply reserved.logged process other
    rw [writing]
    exact member
  have grown : blocks.length ≤ (blocks.insert blockno).length := by
    rw [List.length_insert]
    split <;> omega
  have phases : (state.logAppend process op blocks blockno).phase =
      Function.update state.phase process (.inOp op (blocks.insert blockno)) := rfl
  apply reserved.change phases
  · simp only [State.logAppend, State.setPhase, writing, budget]
    split
    · omega
    · -- A block new to the log is new to the operation, whose budget pays for it.
      rename_i absent
      have fresh : blockno ∉ blocks := fun member => absent (ownLogged _ member)
      rw [List.length_insert, if_neg fresh] at fits ⊢
      rw [List.length_append, List.length_singleton]
      omega
  · exact fun other absorbed member =>
      mem_append_absent blockno (Or.inl (reserved.logged other absorbed member))
  · intro other member
    apply mem_append_absent
    rcases List.mem_insert_iff.mp member with equal | member
    · exact Or.inr equal
    · exact Or.inl (ownLogged other member)
  · intro _ _ _ impossible
    cases impossible
  · simp

theorem Reserved.endOp : Reserved area (state.endOp process) := by
  unfold State.endOp
  dsimp only
  split
  · exact reserved.settle rfl rfl rfl (by simp)
  · split
    · exact reserved.settle rfl rfl rfl (by simp)
    · apply Reserved.wakeup
      exact reserved.settle rfl rfl rfl (by simp)

theorem Reserved.clears (noOp : ∀ process, (state.phase process).op = none) :
    Reserved area (state.commitStep area process .clear) := by
  have room := reserved.room
  have phases : (state.commitStep area process .clear).phase =
      Function.update state.phase process (.committing .writeCleared) := rfl
  apply reserved.change phases
  · simp only [State.commitStep, clearHeader, List.length_nil, budget]
    omega
  · -- No operation is in progress, so nobody relies on the header's blocks.
    intro other blockno member
    rw [blocks_eq_nil (noOp other)] at member
    cases member
  · intro _ member
    cases member
  · intro _ _ _ impossible
    cases impossible
  · simp

theorem Reserved.step {action : Action Process} (control : Control state)
    (within : WithinBound state action) (below : ReservesBelow area state action)
    (effect : Effect area state action next) :
    Reserved area next := by
  cases effect with
  | quiet quiet moves => exact reserved.quiet within quiet moves
  | begins outside admits => exact reserved.begins control outside admits below
  | appends writing => exact reserved.appends writing
  | ends => exact reserved.endOp
  | heads => exact reserved.settle rfl rfl rfl (by simp)
  | clears commits => exact reserved.clears (control.op_eq_none (control.committer _ _ commits))
  | finishes =>
    apply Reserved.wakeup
    exact reserved.settle rfl rfl rfl (by simp)

end

/-- On the disk `mkfs` builds, a transaction never gets too big as long as
`begin_op` lets an operation in only with room to spare. -/
theorem no_too_big_transaction (machine : Machine) (state : State Process)
    (reachable : Reachable (Log.step mkfsArea)
      (fun state action => WithinBound state action ∧ ReservesBelow mkfsArea state action)
      (initial machine) state) :
    ∀ process, state.phase process ≠ .panicked .tooBigTransaction := by
  have both : Control state ∧ Reserved mkfsArea state := by
    refine ⟨(inv_reachable reachable).control, ?_⟩
    have invariant := reachable.invariant (fun state => Inv state ∧ Reserved mkfsArea state)
      (fun _ _ _ holds allowed stepped =>
        ⟨holds.1.step stepped,
          holds.2.step holds.1.control allowed.1 allowed.2 (step_effect stepped)⟩)
      ⟨inv_initial machine, reserved_initial machine⟩
    exact invariant.2
  exact both.2.calm

/-- One process is let in and logs a block. -/
theorem no_too_big_transaction_one_operation :
    let allowed := fun (state : State (Fin 1)) action =>
      WithinBound state action ∧ ReservesBelow mkfsArea state action
    ∃ state, run (Log.step mkfsArea) allowed (initial (boot fun _ => Bytes.zero BSIZE))
        [.beginOp 0, .logWrite 0 60 (Bytes.zero BSIZE), .logAppend 0] = some state ∧
      state.machine.lh = [60] ∧ state.phase 0 ≠ .panicked .tooBigTransaction := by
  intro allowed
  let actions : List (Action (Fin 1)) :=
    [.beginOp 0, .logWrite 0 60 (Bytes.zero BSIZE), .logAppend 0]
  have ends : (run (Log.step mkfsArea) allowed (initial (boot fun _ => Bytes.zero BSIZE))
      actions).map (fun state => state.machine.lh) = some [60] := by
    decide
  rcases Option.map_eq_some_iff.mp ends with ⟨state, ran, logged⟩
  exact ⟨state, ran, logged, no_too_big_transaction _ state (.of_run actions .refl ran) 0⟩

/-- Ten blocks for each of three processes, no block twice. -/
def tenWrites (process : Fin 3) : List (Action (Fin 3)) :=
  (List.range 10).flatMap fun index =>
    [.logWrite process (60 + 10 * process.val + index) (Bytes.zero BSIZE), .logAppend process]

/-- Three operations that keep to their bound fill the log: the last of their
thirty blocks is refused. -/
theorem too_big_transaction_within_bound :
    ¬∀ state : State (Fin 3),
      Reachable (Log.step mkfsArea) WithinBound (initial (boot fun _ => Bytes.zero BSIZE)) state →
        ∀ process, state.phase process ≠ .panicked .tooBigTransaction := by
  intro claimed
  let actions := [.beginOp 0, .beginOp 1, .beginOp 2] ++ tenWrites 0 ++ tenWrites 1 ++
    (tenWrites 2).take 19
  have panics : (run (Log.step mkfsArea) WithinBound (initial (boot fun _ => Bytes.zero BSIZE))
      actions).map (fun state => state.phase 2) = some (.panicked .tooBigTransaction) := by
    decide
  rcases Option.map_eq_some_iff.mp panics with ⟨state, ran, panicked⟩
  exact claimed state (.of_run actions .refl ran) 2 panicked

end Xv6.Log
