import Xv6.Bio.Machine

/-! # What a step does to the cache -/

namespace Xv6.Bio

open Transition

variable {Process : Type} [DecidableEq Process]

/-- The effect of a step. The search results are left as they are, since what they mean
depends on the list being in order. -/
inductive Effect (state : State Process) : Action Process → State Process → Prop
  | hit (p : Process) (dev blockno : UInt32) (b : Fin NBUF) (idle : state.control p = .idle)
      (found : state.findCached dev blockno = some (some b)) :
      Effect state (.bget p dev blockno) { state with
        bufs := state.setBuf b { state.bufs b with refcnt := (state.bufs b).refcnt + 1 }
        control := state.setControl p (.waiting dev blockno b) }
  | recycle (p : Process) (dev blockno : UInt32) (b : Fin NBUF) (idle : state.control p = .idle)
      (missing : state.findCached dev blockno = some none)
      (found : state.findUnused = some (some b)) :
      Effect state (.bget p dev blockno) { state with
        bufs := state.setBuf b { state.bufs b with
          dev := dev
          blockno := blockno
          valid := false
          dirty := false
          refcnt := 1 }
        control := state.setControl p (.waiting dev blockno b) }
  | acquire (p : Process) (dev blockno : UInt32) (b : Fin NBUF)
      (waiting : state.control p = .waiting dev blockno b) (free : state.locks b = none) :
      Effect state (.acquire p) { state with
        locks := Function.update state.locks b (some p)
        control := state.setControl p (.locked dev blockno b) }
  | keep (p : Process) (dev blockno : UInt32) (b : Fin NBUF)
      (locked : state.control p = .locked dev blockno b) (valid : (state.bufs b).valid = true) :
      Effect state (.fill p) { state with control := state.setControl p .idle }
  | load (p : Process) (dev blockno : UInt32) (b : Fin NBUF)
      (locked : state.control p = .locked dev blockno b)
      (invalid : (state.bufs b).valid = false) :
      Effect state (.fill p) { state with
        bufs := state.setBuf b { state.bufs b with
          data := state.disk (state.bufs b).dev (state.bufs b).blockno
          valid := true }
        control := state.setControl p .idle }
  | log (p : Process) (b : Fin NBUF) (data : Block) (log : LogState) (holds : state.Holds p b) :
      Effect state (.logWrite p b data) { state with
        bufs := state.setBuf b { state.bufs b with data := data, dirty := true }
        log := log }
  | write (p : Process) (b : Fin NBUF) (data : Block) (holds : state.Holds p b) :
      Effect state (.bwrite p b data) { state with
        disk := put state.disk (state.bufs b).dev (state.bufs b).blockno data
        bufs := state.setBuf b { state.bufs b with data := data, valid := true, dirty := false } }
  | unlock (p : Process) (b : Fin NBUF) (holds : state.Holds p b) :
      Effect state (.brelse p b) { state with
        locks := Function.update state.locks b none
        control := state.setControl p (.releasing b) }
  | drop (p : Process) (b : Fin NBUF) (releasing : state.control p = .releasing b) :
      Effect state (.drop p) (state.drop p b)
  | other (action : Action Process) (log : LogState)
      (bookkeeping : action = .beginOp ∨ action = .endOp ∨ action = .clear ∨ action = .committed) :
      Effect state action { state with log := log }

omit [DecidableEq Process] in
/-- A request to the disk is served as a write when the buffer is dirty, else as a read. -/
theorem iderw_cases {state next : State Process} {b : Fin NBUF}
    (served : state.iderw b = some next) :
    ((state.bufs b).dirty = true ∧ next = { state with
      disk := put state.disk (state.bufs b).dev (state.bufs b).blockno (state.bufs b).data
      bufs := state.setBuf b { state.bufs b with valid := true, dirty := false } }) ∨
    ((state.bufs b).dirty = false ∧ next = { state with
      bufs := state.setBuf b { state.bufs b with
        data := state.disk (state.bufs b).dev (state.bufs b).blockno
        valid := true } }) := by
  unfold State.iderw at served
  dsimp only at served
  split at served
  · cases served
  · split at served
    · cases served
    · split at served
      · cases served
      · split at served
        · rename_i dirty
          cases served
          exact Or.inl ⟨dirty, rfl⟩
        · rename_i clean
          cases served
          exact Or.inr ⟨Bool.eq_false_of_not_eq_true clean, rfl⟩

section

omit [DecidableEq Process]

variable {state next : State Process} {b : Fin NBUF} {data : Block}

theorem bufs_store (state : State Process) (b : Fin NBUF) (data : Block) :
    (state.store b data).bufs b = { state.bufs b with data := data } :=
  Function.update_self ..

theorem setBuf_store (state : State Process) (b : Fin NBUF) (data : Block) (buf : Buf) :
    (state.store b data).setBuf b buf = state.setBuf b buf :=
  Function.update_idem ..

theorem logWrite_store (logged : (state.store b data).logWrite b = some next) :
    ∃ log, next = { state with
      bufs := state.setBuf b { state.bufs b with data := data, dirty := true }
      log := log } := by
  unfold State.logWrite at logged
  dsimp only at logged
  split at logged
  · cases logged
  · split at logged
    · cases logged
    · cases logged
      rw [setBuf_store, bufs_store]
      exact ⟨_, rfl⟩

theorem bwrite_store (written : (state.store b data).bwrite b = some next) :
    next = { state with
      disk := put state.disk (state.bufs b).dev (state.bufs b).blockno data
      bufs := state.setBuf b
        { state.bufs b with data := data, valid := true, dirty := false } } := by
  unfold State.bwrite at written
  dsimp only at written
  rw [setBuf_store, bufs_store] at written
  have marked : state.setBuf b { state.bufs b with data := data, dirty := true } b =
      { state.bufs b with data := data, dirty := true } := Function.update_self ..
  cases iderw_cases written with
  | inl served =>
    rw [served.2]
    dsimp only [State.setBuf]
    rw [Function.update_self, Function.update_idem]
    rfl
  | inr read =>
    have clean := read.1
    dsimp only at clean
    rw [marked] at clean
    cases clean

end

/-- As long as every dirty buffer is valid, `bread` makes no other request than a read. -/
theorem step_effect {state next : State Process} {action : Action Process}
    (clean : ∀ b, (state.bufs b).dirty = true → (state.bufs b).valid = true)
    (stepped : step state action = some next) : Effect state action next := by
  unfold step at stepped
  cases action with
  | bget p dev blockno =>
    dsimp only at stepped
    split at stepped
    · rename_i idle
      unfold State.bget at stepped
      split at stepped
      · cases stepped
      · rename_i b found
        cases stepped
        exact .hit p dev blockno b idle found
      · rename_i missing
        split at stepped
        · rename_i b found
          cases stepped
          exact .recycle p dev blockno b idle missing found
        · cases stepped
    · cases stepped
  | acquire p =>
    dsimp only at stepped
    split at stepped
    · rename_i dev blockno b waiting
      rcases of_guard stepped with ⟨free, rfl⟩
      exact .acquire p dev blockno b waiting free
    · cases stepped
  | fill p =>
    dsimp only at stepped
    split at stepped
    · rename_i dev blockno b locked
      unfold State.fill at stepped
      dsimp only at stepped
      split at stepped
      · rename_i valid
        cases stepped
        exact .keep p dev blockno b locked valid
      · rename_i invalid
        have isInvalid := Bool.eq_false_of_not_eq_true invalid
        cases iderw_cases stepped with
        | inl written => exact absurd (clean b written.1) invalid
        | inr read =>
          rw [read.2]
          exact .load p dev blockno b locked isInvalid
    · cases stepped
  | logWrite p b data =>
    dsimp only at stepped
    split at stepped
    · rename_i holds
      rcases logWrite_store stepped with ⟨log, isNext⟩
      rw [isNext]
      exact .log p b data log holds
    · cases stepped
  | bwrite p b data =>
    dsimp only at stepped
    split at stepped
    · rename_i holds
      rw [bwrite_store stepped]
      exact .write p b data holds
    · cases stepped
  | brelse p b =>
    dsimp only at stepped
    rcases of_guard stepped with ⟨holds, rfl⟩
    exact .unlock p b holds
  | drop p =>
    dsimp only at stepped
    split at stepped
    · rename_i b releasing
      cases stepped
      exact .drop p b releasing
    · cases stepped
  | beginOp =>
    dsimp only at stepped
    split at stepped
    · cases stepped
    · cases stepped
      exact .other _ _ (Or.inl rfl)
  | endOp =>
    dsimp only at stepped
    split at stepped
    · cases stepped
    · cases stepped
      exact .other _ _ (Or.inr (Or.inl rfl))
  | clear =>
    cases stepped
    exact .other _ _ (Or.inr (Or.inr (Or.inl rfl)))
  | committed =>
    cases stepped
    exact .other _ _ (Or.inr (Or.inr (Or.inr rfl)))

end Xv6.Bio
