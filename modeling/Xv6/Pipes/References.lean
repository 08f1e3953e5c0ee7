import Xv6.Pipes.Steps

/-! # Open ends

An end of the pipe stays open as long as a process has a file open that refers to it, and
nobody uses a pipe that has been freed.
-/

namespace Xv6.Pipes

open Ptable (Table)
open Function (update update_self update_of_ne update_apply)

variable {writable : Bool}

variable {nproc : Nat}

def Control.Uses : Control → Bool → Prop
  | .readStart _, false | .readWait _, false | .readSleep _, false | .readAsleep _, false
  | .readLoop _ _, false => True
  | .writeStart _ _, true | .writeLoop _ _ _ _, true | .writeSleep _ _ _, true
  | .writeAsleep _ _ _, true => True
  | _, _ => False

/-- An end is open as long as a file refers to it, and whoever uses it has such a file. -/
structure Referenced (state : State nproc) : Prop where
  calls : ∀ p writable, (state.control p).Uses writable → 0 < state.refs writable p
  isOpen : ∀ p writable, 0 < state.refs writable p → state.pipe.isOpen writable = true
  closing : ∀ p writable, state.control p = .closing writable →
    state.pipe.isOpen writable = true ∧ (∀ q, state.refs writable q = 0) ∧
      ∀ q, state.control q = .closing writable → q = p
  freed : state.freed = true → state.pipe.readopen = false ∧ state.pipe.writeopen = false

section

variable {state next : State nproc} {p : Fin nproc} {action : Action nproc}

theorem isOpen_close (pipe : Pipe) (writable other : Bool) :
    (pipe.close writable).isOpen other = if other = writable then false else pipe.isOpen other := by
  cases writable with
  | false => cases other with | false => rfl | true => rfl
  | true => cases other with | false => rfl | true => rfl

theorem Referenced.move (referenced : Referenced state) {new : Control}
    (control : next.control = update state.control p new)
    (uses : ∀ writable, new.Uses writable → 0 < state.refs writable p)
    (notClosing : ∀ writable, new ≠ .closing writable)
    (isOpen : next.pipe.isOpen = state.pipe.isOpen)
    (refs : next.refs = state.refs) (freed : next.freed = state.freed) : Referenced next := by
  have closing : ∀ q writable, next.control q = .closing writable →
      state.control q = .closing writable := by
    intro q writable isClosing
    rw [control] at isClosing
    by_cases same : q = p
    · rw [same, update_self] at isClosing
      exact absurd isClosing (notClosing writable)
    · rw [update_of_ne same] at isClosing
      exact isClosing
  constructor
  · intro q writable isUse
    rw [refs]
    rw [control] at isUse
    by_cases same : q = p
    · rw [same, update_self] at isUse
      rw [same]
      exact uses writable isUse
    · rw [update_of_ne same] at isUse
      exact referenced.calls q writable isUse
  · intro q writable held
    rw [refs] at held
    rw [isOpen]
    exact referenced.isOpen q writable held
  · intro q writable isClosing
    have was := referenced.closing q writable (closing q writable isClosing)
    rw [isOpen, refs]
    exact ⟨was.1, was.2.1, fun other also => was.2.2 other (closing other writable also)⟩
  · intro isFreed
    rw [freed] at isFreed
    have closed := referenced.freed isFreed
    have first := congrFun isOpen false
    have second := congrFun isOpen true
    exact ⟨first.trans closed.1, second.trans closed.2⟩

theorem Referenced.pipeclose (referenced : Referenced state)
    (control : state.control p = .closing writable) :
    Referenced (state.pipeclose p writable) := by
  have was := referenced.closing p writable control
  have others : ∀ q other, update state.control p Control.outside q = .closing other →
      state.control q = .closing other ∧ other ≠ writable := by
    grind [update_apply]
  constructor
  · intro q other isUse
    apply referenced.calls
    dsimp only [State.pipeclose] at isUse
    grind [update_apply, Control.Uses]
  · intro q other held
    dsimp only [State.pipeclose] at held ⊢
    rw [isOpen_close, if_neg]
    · exact referenced.isOpen q other held
    · grind
  · intro q other isClosing
    have before := others q other isClosing
    have holds := referenced.closing q other before.1
    dsimp only [State.pipeclose]
    rw [isOpen_close, if_neg before.2]
    exact ⟨holds.1, holds.2.1, fun also isAlso => holds.2.2 also (others also other isAlso).1⟩
  · intro isFreed
    dsimp only [State.pipeclose] at isFreed ⊢
    rw [Bool.or_eq_true] at isFreed
    cases isFreed with
    | inl already =>
      have closed := referenced.freed already
      cases writable with
      | false => exact ⟨rfl, closed.2⟩
      | true => exact ⟨closed.1, rfl⟩
    | inr both =>
      rw [Bool.and_eq_true, beq_iff_eq, beq_iff_eq] at both
      exact both

theorem Proceeds.referenced (proceeds : Proceeds state p next) (referenced : Referenced state) :
    Referenced next := by
  cases proceeds with
  | closes control free => exact referenced.pipeclose control
  | readKilled | readReturns | writeAborts | writeReturns =>
    apply referenced.move (p := p) rfl
    · intro writable isUse
      cases isUse
    · exact nofun
    · rfl
    · rfl
    · rfl
  | readEnter control | readBlocks control | readReady control | readSleeps control
  | readWakes control | take control | writeEnter control | writeBlocks control
  | store control | writeSleeps control | writeWakes control =>
    apply referenced.move (p := p) rfl
    · intro writable isUse
      apply referenced.calls
      rw [control]
      cases writable with
      | false => exact isUse
      | true => exact isUse
    · exact nofun
    · rfl
    · rfl
    · rfl

theorem update_refs (refs : Bool → Fin nproc → Nat) (writable other : Bool) (p q : Fin nproc)
    (count : Nat) :
    update refs writable (update (refs writable) p count) other q =
      if other = writable ∧ q = p then count else refs other q := by
  simp only [update_apply]
  split
  · grind [update_apply]
  · grind

/-- Nobody is closing an end that a process has open. -/
theorem Referenced.not_closing (referenced : Referenced state) (held : 0 < state.refs writable p)
    (q : Fin nproc) :
    state.control q ≠ .closing writable := by
  intro isClosing
  rw [(referenced.closing q writable isClosing).2.1 p] at held
  exact Nat.lt_irrefl 0 held

theorem Referenced.fileclose (referenced : Referenced state) (control : state.control p = .outside)
    (held : 0 < state.refs writable p) :
    Referenced (state.fileclose p writable) := by
  have refs := update_refs state.refs writable
  have notClosing := referenced.not_closing held
  rcases referenced with ⟨calls, isOpen, closing, freed⟩
  rw [State.fileclose]
  split
  · constructor
    · grind [update_apply, Control.Uses]
    · grind
    · intro q other isClosing
      dsimp only at isClosing ⊢
      have before := closing q other
      grind [update_apply]
    · exact freed
  · constructor
    · grind [Control.Uses]
    · grind
    · grind
    · exact freed

theorem Referenced.share (referenced : Referenced state) {q : Fin nproc}
    (held : 0 < state.refs writable p) : Referenced (state.share q writable) := by
  have refs := update_refs state.refs writable
  have notClosing := referenced.not_closing held
  rcases referenced with ⟨calls, isOpen, closing, freed⟩
  rw [State.share]
  constructor
  · grind
  · grind
  · grind
  · exact freed

theorem Stepped.referenced (stepped : Stepped state action next) (referenced : Referenced state) :
    Referenced next := by
  cases stepped with
  | proceeds running proceeds => exact proceeds.referenced referenced
  | @read p n control held =>
    apply referenced.move (p := p) rfl
    · intro writable isUse
      cases writable with
      | false => exact held
      | true => cases isUse
    · exact nofun
    · rfl
    · rfl
    · rfl
  | @write p addr n control held =>
    apply referenced.move (p := p) rfl
    · intro writable isUse
      cases writable with
      | false => cases isUse
      | true => exact held
    · exact nofun
    · rfl
    · rfl
    · rfl
  | close writable control held => exact referenced.fileclose control held
  | share writable control held => exact referenced.share held
  | yield | run | kill | other =>
    exact ⟨referenced.calls, referenced.isOpen, referenced.closing, referenced.freed⟩

theorem Referenced.readopen (referenced : Referenced state)
    (reads : ∃ n, state.control p = .readAsleep n) : state.pipe.readopen = true := by
  rcases reads with ⟨n, control⟩
  exact referenced.isOpen p false (referenced.calls p false (by rw [control]; trivial))

end

/-! ## Runs -/

theorem referenced_created (data : Fin pipesize → UInt8) (table : Table nproc)
    (creator : Fin nproc) : Referenced (created data table creator) where
  calls := nofun
  isOpen := by
    intro p writable _
    cases writable with
    | false => rfl
    | true => rfl
  closing := nofun
  freed := nofun

end Xv6.Pipes
