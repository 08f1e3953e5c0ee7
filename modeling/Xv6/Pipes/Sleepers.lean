import Xv6.Pipes.References
import Xv6.Ptable.Steps

/-! # Processes that sleep on a pipe

A reader sleeps only while the pipe is empty, a writer only while it is full, or the process
that has the lock still owes them a wakeup. The one way out of `pipewrite` that does not pay
this debt is that of a killed writer which finds the pipe full.
-/

namespace Xv6.Pipes

open Transition
open Ptable (Table Channel)
open Function (update update_self update_apply)

variable {nproc : Nat}

/-- Process `p` is SLEEPING on a channel. -/
@[grind]
def Asleep (table : Table nproc) (chan : Channel nproc) (p : Fin nproc) : Prop :=
  (table p).state = .sleeping ∧ (table p).chan = some chan

instance (table : Table nproc) (chan : Channel nproc) (p : Fin nproc) :
    Decidable (Asleep table chan p) := inferInstanceAs (Decidable (_ ∧ _))

/-- A writer has stored something since it acquired the lock. -/
def OwesReaders (control : Fin nproc → Control) : Prop :=
  ∃ w addr n i since, control w = .writeLoop addr n i since ∧ since < i

/-- A reader has taken something since it acquired the lock. -/
def OwesWriters (control : Fin nproc → Control) : Prop :=
  ∃ r n i, control r = .readLoop n (i + 1)

structure Attended (pipe : Pipe) (table : Table nproc) (control : Fin nproc → Control) :
    Prop where
  readers : ∀ q, Asleep table readChan q → ∃ n, control q = .readAsleep n
  writers : ∀ q, Asleep table writeChan q → ∃ addr n i, control q = .writeAsleep addr n i
  reading : ∀ q, Asleep table readChan q →
    pipe.writeopen = true ∧ (pipe.Empty ∨ OwesReaders control)
  writing : ∀ q, Asleep table writeChan q →
    pipe.readopen = true ∧ (pipe.Full ∨ OwesWriters control)
  blocksRead : ∀ q n, control q = .readSleep n → pipe.Empty ∧ pipe.writeopen = true
  blocksWrite : ∀ q addr n i, control q = .writeSleep addr n i →
    pipe.Full ∧ pipe.readopen = true
  order : ∀ q addr n i since, control q = .writeLoop addr n i since → since ≤ i

/-- What a process at this place of its call has found in the pipe. -/
@[grind]
def Control.Fits (pipe : Pipe) : Control → Prop
  | .readSleep _ => pipe.Empty ∧ pipe.writeopen = true
  | .writeSleep _ _ _ => pipe.Full ∧ pipe.readopen = true
  | .writeLoop _ _ i since => since ≤ i
  | _ => True

/-- A killed writer that finds the pipe full has not stored anything since it acquired the
lock. -/
def Patient (state : State nproc) : Action nproc → Prop
  | .act p .proceed =>
      match state.control p with
      | .writeLoop _ n i since =>
          i < n.toInt → state.pipe.Full → state.pipe.readopen = true →
            (state.table p).killed = true → i = since
      | _ => True
  | _ => True

instance (state : State nproc) (action : Action nproc) : Decidable (Patient state action) := by
  unfold Patient
  split
  · split
    · infer_instance
    · infer_instance
  · infer_instance

section

variable {p q : Fin nproc} {table : Table nproc} {chan other : Channel nproc}

theorem not_empty_of_full {pipe : Pipe} (full : pipe.Full) : ¬pipe.Empty := by
  intro empty
  have same : pipe.nread = pipe.nread + UInt32.ofNat pipesize := empty.trans full
  have zero := (UInt32.left_eq_add).mp same
  exact absurd zero (by decide)

/-! ## What puts processes to sleep and wakes them up -/

theorem Asleep.of_wakeup1 (asleep : Asleep (table.wakeup1 other) chan q) :
    Asleep table chan q ∧ chan ≠ other := by
  grind [Table.wakeup1]

theorem Asleep.of_kill {pid : Int32} (asleep : Asleep (table.kill pid).1 chan q) :
    Asleep table chan q := by
  grind [Table.kill_apply]

/-- A change of an entry that does not leave it asleep. -/
theorem Asleep.of_modify {change : Ptable.Proc nproc → Ptable.Proc nproc}
    (awake : (change (table p)).state ≠ .sleeping ∨ (change (table p)).chan ≠ some chan)
    (asleep : Asleep (table.modify p change) chan q) : Asleep table chan q ∧ q ≠ p := by
  grind

theorem Asleep.of_sleep (asleep : Asleep (table.modify p fun proc =>
      { proc with chan := some other, state := .sleeping }) chan q) :
    Asleep table chan q ∧ q ≠ p ∨ q = p ∧ chan = other := by
  grind

end

/-! ## Steps outside of the calls -/

section

variable {pipe newPipe : Pipe} {table newTable : Table nproc}
  {control newControl : Fin nproc → Control} {lock : Option (Fin nproc)} {p q : Fin nproc}
  {new : Control}

theorem Attended.keep (attended : Attended pipe table control)
    (kept : ∀ q, newControl q = control q ∨ control q = .outside ∧ (newControl q).IsStart)
    (asleep : ∀ chan q, chan = readChan ∨ chan = writeChan → Asleep newTable chan q →
      Asleep table chan q) : Attended pipe newTable newControl := by
  -- A process in a call stays where it is, and one that is not at a start was there before.
  have stays : ∀ q, control q ≠ .outside → newControl q = control q := by grind
  have was : ∀ q, ¬(newControl q).IsStart → control q = newControl q := by grind
  rcases attended with ⟨readers, writers, reading, writing, blocksRead, blocksWrite, order⟩
  constructor
  · grind
  · grind
  · grind [OwesReaders]
  · grind [OwesWriters]
  · grind [Control.IsStart]
  · grind [Control.IsStart]
  · grind [Control.IsStart]

/-! ## Steps of the calls -/

section

variable (attended : Attended pipe table control)
  (locked : Locked control lock)
  (own : lock = none ∨ lock = some p)
include attended locked own

/-- Readers sleep on an empty pipe, unless the process that has the lock is a writer that
has stored something. -/
theorem Attended.empty (paid : ∀ addr n i since, control p = .writeLoop addr n i since → ¬since < i)
    (asleep : Asleep table readChan q) : pipe.Empty ∧ pipe.writeopen = true := by
  have before := attended.reading q asleep
  cases before.2 with
  | inl empty => exact ⟨empty, before.1⟩
  | inr owes =>
    rcases owes with ⟨w, addr, n, i, since, isWriter, stored⟩
    by_cases same : w = p
    · rw [same] at isWriter
      exact absurd stored (paid addr n i since isWriter)
    · exact absurd (by rw [isWriter]; trivial) (locked.alone own same)

theorem Attended.full (paid : ∀ n i, control p ≠ .readLoop n (i + 1))
    (asleep : Asleep table writeChan q) : pipe.Full ∧ pipe.readopen = true := by
  have before := attended.writing q asleep
  cases before.2 with
  | inl full => exact ⟨full, before.1⟩
  | inr owes =>
    rcases owes with ⟨r, n, i, isReader⟩
    by_cases same : r = p
    · rw [same] at isReader
      exact absurd isReader (paid n i)
    · exact absurd (by rw [isReader]; trivial) (locked.alone own same)

/-- What a process that goes on in its call has to see to: nobody else has the lock. -/
theorem Attended.move (asleep : ∀ chan q, Asleep newTable chan q → Asleep table chan q ∧ q ≠ p ∨
      q = p ∧ (chan = readChan ∧ (∃ n, new = .readAsleep n) ∨
        chan = writeChan ∧ ∃ addr n i, new = .writeAsleep addr n i))
    (reading : ∀ q, Asleep newTable readChan q → newPipe.writeopen = true ∧
      (newPipe.Empty ∨ OwesReaders (update control p new)))
    (writing : ∀ q, Asleep newTable writeChan q → newPipe.readopen = true ∧
      (newPipe.Full ∨ OwesWriters (update control p new)))
    (fits : new.Fits newPipe) : Attended newPipe newTable (update control p new) := by
  -- Whoever is in the section now is the process that moved.
  have mine : ∀ q, (update control p new q).InSection → q = p := by
    have alone : ∀ q, q ≠ p → ¬(control q).InSection := fun q => locked.alone own
    grind [update_apply]
  have apart : (readChan : Channel nproc) ≠ writeChan := nofun
  rcases attended with ⟨readers, writers, _, _, _, _, _⟩
  constructor
  · grind [update_apply]
  · grind [update_apply]
  · exact reading
  · exact writing
  · grind [update_apply]
  · grind [update_apply]
  · grind [update_apply]

/-- The process that moves puts nobody to sleep, leaves the pipe as it is, and owes
nothing. -/
theorem Attended.quiet (asleep : ∀ chan q, Asleep newTable chan q → Asleep table chan q ∧ q ≠ p)
    (paidReaders : ∀ addr n i since, control p ≠ .writeLoop addr n i since)
    (paidWriters : ∀ n i, control p ≠ .readLoop n (i + 1))
    (fits : new.Fits pipe) : Attended pipe newTable (update control p new) := by
  apply attended.move locked own
  · intro chan q isAsleep
    exact Or.inl (asleep chan q isAsleep)
  · intro q isAsleep
    have before := attended.empty locked own
      (fun addr n i since isWriter => absurd isWriter (paidReaders addr n i since))
      (asleep readChan q isAsleep).1
    exact ⟨before.2, Or.inl before.1⟩
  · intro q isAsleep
    have before := attended.full locked own paidWriters (asleep writeChan q isAsleep).1
    exact ⟨before.2, Or.inl before.1⟩
  · exact fits

end

end

section

variable {state next : State nproc} {p : Fin nproc} {action : Action nproc}

theorem Proceeds.attended (proceeds : Proceeds state p next)
    (running : (state.table p).state = .running) (locked : Locked state.control state.lock)
    (referenced : Referenced state) (patient : Patient state (.act p .proceed))
    (attended : Attended state.pipe state.table state.control) :
    Attended next.pipe next.table next.control := by
  have own := proceeds.own locked
  -- The process that moves is not asleep itself.
  have awake : ∀ chan q, Asleep state.table chan q → Asleep state.table chan q ∧ q ≠ p := by
    intro chan q isAsleep
    refine ⟨isAsleep, ?_⟩
    intro same
    rw [same, Asleep, running] at isAsleep
    cases isAsleep.1
  have woken : ∀ other chan q, Asleep (state.table.wakeup1 other) chan q →
      Asleep state.table chan q ∧ q ≠ p := by
    intro other chan q isAsleep
    exact awake chan q isAsleep.of_wakeup1.1
  have readersWoken : ∀ q, ¬Asleep (state.table.wakeup1 readChan) readChan q :=
    fun q isAsleep => isAsleep.of_wakeup1.2 rfl
  have writersWoken : ∀ q, ¬Asleep (state.table.wakeup1 writeChan) writeChan q :=
    fun q isAsleep => isAsleep.of_wakeup1.2 rfl
  cases proceeds with
  | readEnter control free | readKilled control empty isOpen killed
  | readBlocks control empty isOpen | readReady control ready | writeEnter control free =>
    apply attended.quiet locked own awake
    all_goals grind
  | @readSleeps n control =>
    have blocks := attended.blocksRead p n control
    apply attended.move locked own
    · intro chan q isAsleep
      cases isAsleep.of_sleep with
      | inl before => exact Or.inl before
      | inr falls => exact Or.inr ⟨falls.1, Or.inl ⟨falls.2, n, rfl⟩⟩
    · exact fun _ _ => ⟨blocks.2, Or.inl blocks.1⟩
    · intro q isAsleep
      cases isAsleep.of_sleep with
      | inl before =>
        have full := attended.full locked own (by rw [control]; exact nofun) before.1
        exact absurd blocks.1 (not_empty_of_full full.1)
      | inr falls => cases falls.2
    · trivial
  | readWakes control free | writeWakes control free =>
    apply attended.quiet locked own
    · intro chan q isAsleep
      exact isAsleep.of_modify (Or.inr (Option.some_ne_none chan).symm)
    all_goals grind
  | @take n i control inside some =>
    apply attended.move locked own
    · exact fun chan q isAsleep => Or.inl (awake chan q isAsleep)
    · intro q isAsleep
      have empty := attended.empty locked own (by rw [control]; exact nofun) isAsleep
      exact absurd empty.1 some
    · intro q isAsleep
      exact ⟨(attended.writing q isAsleep).1, Or.inr ⟨p, n, i, update_self ..⟩⟩
    · trivial
  | readReturns control done =>
    apply attended.move locked own
    · exact fun chan q isAsleep => Or.inl (woken writeChan chan q isAsleep)
    · intro q isAsleep
      have empty := attended.empty locked own (by rw [control]; exact nofun)
        isAsleep.of_wakeup1.1
      exact ⟨empty.2, Or.inl empty.1⟩
    · exact fun q isAsleep => absurd isAsleep (writersWoken q)
    · trivial
  | @writeAborts addr n i since control inside full stops =>
    apply attended.move locked own
    · exact fun chan q isAsleep => Or.inl (awake chan q isAsleep)
    · intro q isAsleep
      have isOpen := referenced.readopen (attended.readers q isAsleep)
      have killed : (state.table p).killed = true := by
        cases stops with
        | inl closed => exact absurd (isOpen.symm.trans closed) nofun
        | inr killed => exact killed
      have nothing : i = since := by
        dsimp only [Patient] at patient
        rw [control] at patient
        exact patient inside full isOpen killed
      have empty := attended.empty locked own (by
        intro addr' n' i' since' isWriter
        cases control.symm.trans isWriter
        omega) isAsleep
      exact absurd empty.1 (not_empty_of_full full)
    · intro q isAsleep
      have full := attended.full locked own (by rw [control]; exact nofun) isAsleep
      exact ⟨full.2, Or.inl full.1⟩
    · trivial
  | writeBlocks control full isOpen =>
    apply attended.move locked own
    · exact fun chan q isAsleep => Or.inl (woken readChan chan q isAsleep)
    · exact fun q isAsleep => absurd isAsleep (readersWoken q)
    · exact fun _ _ => ⟨isOpen, Or.inl full⟩
    · exact ⟨full, isOpen⟩
  | @store addr n i since control inside space =>
    have order := attended.order p addr n i since control
    apply attended.move locked own
    · exact fun chan q isAsleep => Or.inl (awake chan q isAsleep)
    · intro q isAsleep
      refine ⟨(attended.reading q isAsleep).1, Or.inr ?_⟩
      exact ⟨p, addr, n, i + 1, since, update_self .., Nat.lt_succ_of_le order⟩
    · intro q isAsleep
      have full := attended.full locked own (by rw [control]; exact nofun) isAsleep
      exact absurd full.1 space
    · exact Nat.le_succ_of_le order
  | writeReturns control done =>
    apply attended.move locked own
    · exact fun chan q isAsleep => Or.inl (woken readChan chan q isAsleep)
    · exact fun q isAsleep => absurd isAsleep (readersWoken q)
    · intro q isAsleep
      have full := attended.full locked own (by rw [control]; exact nofun)
        isAsleep.of_wakeup1.1
      exact ⟨full.2, Or.inl full.1⟩
    · trivial
  | @writeSleeps addr n i control =>
    have blocks := attended.blocksWrite p addr n i control
    apply attended.move locked own
    · intro chan q isAsleep
      cases isAsleep.of_sleep with
      | inl before => exact Or.inl before
      | inr falls => exact Or.inr ⟨falls.1, Or.inr ⟨falls.2, addr, n, i, rfl⟩⟩
    · intro q isAsleep
      cases isAsleep.of_sleep with
      | inl before =>
        have empty := attended.empty locked own (by rw [control]; exact nofun) before.1
        exact absurd empty.1 (not_empty_of_full blocks.1)
      | inr falls => cases falls.2
    · exact fun _ _ => ⟨blocks.2, Or.inl blocks.1⟩
    · trivial
  | @closes writable control free =>
    apply attended.move locked own
    · exact fun chan q isAsleep => Or.inl (woken _ chan q isAsleep)
    · intro q isAsleep
      have empty := attended.empty locked own (by rw [control]; exact nofun)
        isAsleep.of_wakeup1.1
      cases writable with
      | false => exact ⟨empty.2, Or.inl empty.1⟩
      | true => exact absurd isAsleep (readersWoken q)
    · intro q isAsleep
      have full := attended.full locked own (by rw [control]; exact nofun)
        isAsleep.of_wakeup1.1
      cases writable with
      | false => exact absurd isAsleep (writersWoken q)
      | true => exact ⟨full.2, Or.inl full.1⟩
    · trivial

theorem Stepped.attended (stepped : Stepped state action next)
    (locked : Locked state.control state.lock) (referenced : Referenced state)
    (patient : Patient state action)
    (attended : Attended state.pipe state.table state.control) :
    Attended next.pipe next.table next.control := by
  by_cases isProceed : ∃ p, action = .act p .proceed
  · rcases isProceed with ⟨p, isProceed⟩
    subst isProceed
    cases stepped with
    | proceeds running proceeds =>
      exact proceeds.attended running locked referenced patient attended
  · have notProceed : ∀ p, action ≠ .act p .proceed := fun p same => isProceed ⟨p, same⟩
    rw [(stepped.pipe_eq notProceed).1]
    apply attended.keep (stepped.control_cases notProceed)
    intro chan q isPipe isAsleep
    cases stepped with
    | proceeds running proceeds => exact absurd rfl (notProceed _)
    | yield running unlocked | run runnable =>
      refine (Asleep.of_modify ?_ isAsleep).1
      exact Or.inl nofun
    | read n control held => exact isAsleep
    | write addr n control held => exact isAsleep
    | share writable control held => exact isAsleep
    | close writable control held =>
      rw [State.fileclose] at isAsleep
      split at isAsleep
      · exact isAsleep
      · exact isAsleep
    | kill pid => exact isAsleep.of_kill
    | @other p entry control elsewhere =>
      have isUpdate : Asleep (state.table.modify p fun _ => entry) chan q := isAsleep
      refine (isUpdate.of_modify (Or.inr ?_)).1
      intro onChan
      apply elsewhere
      cases isPipe with
      | inl reads =>
        rw [reads] at onChan
        exact Or.inl onChan
      | inr writes =>
        rw [writes] at onChan
        exact Or.inr onChan

end

/-! ## Runs -/

/-- Nobody sleeps on a page that has just been allocated. -/
def Fresh (table : Table nproc) : Prop :=
  ∀ p, ¬Asleep table readChan p ∧ ¬Asleep table writeChan p

theorem attended_created {table : Table nproc} (fresh : Fresh table) (data : Fin pipesize → UInt8)
    (creator : Fin nproc) :
    Attended (created data table creator).pipe (created data table creator).table
      (created data table creator).control where
  readers := fun q asleep => absurd asleep (fresh q).1
  writers := fun q asleep => absurd asleep (fresh q).2
  reading := fun q asleep => absurd asleep (fresh q).1
  writing := fun q asleep => absurd asleep (fresh q).2
  blocksRead := nofun
  blocksWrite := nofun
  order := nofun

theorem reachable_attended {data : Fin pipesize → UInt8} {table : Table nproc}
    {creator : Fin nproc} {state : State nproc} (fresh : Fresh table)
    (reachable : Reachable step Patient (created data table creator) state) :
    (Locked state.control state.lock ∧ Referenced state) ∧
      Attended state.pipe state.table state.control := by
  apply Reachable.invariant (fun state => (Locked state.control state.lock ∧ Referenced state) ∧
    Attended state.pipe state.table state.control) ?_ ?_ reachable
  · intro before action after holds patient stepped
    have kind := step_cases stepped
    exact ⟨⟨kind.locked holds.1.1, kind.referenced holds.1.2⟩,
      kind.attended holds.1.1 holds.1.2 patient holds.2⟩
  · refine ⟨⟨?_, referenced_created data table creator⟩, attended_created fresh data creator⟩
    intro p
    exact ⟨nofun, nofun⟩

/-- In runs in which a killed writer that finds the pipe full has not stored anything since
it acquired the lock, whenever the lock is free a reader sleeps only on an empty pipe that
is open for writing, and a writer only on a full pipe that is open for reading. -/
theorem no_pipe_sleeper_stranded (nproc : Nat) (data : Fin pipesize → UInt8) (table : Table nproc)
    (fresh : Fresh table) (creator : Fin nproc) (state : State nproc)
    (reachable : Reachable step Patient (created data table creator) state)
    (free : state.lock = none) :
    (∀ p, Asleep state.table readChan p → state.pipe.Empty ∧ state.pipe.writeopen = true) ∧
    ∀ p, Asleep state.table writeChan p → state.pipe.Full ∧ state.pipe.readopen = true := by
  rcases reachable_attended fresh reachable with ⟨⟨locked, _⟩, attended⟩
  have outside : ∀ p, ¬(state.control p).InSection := by
    intro p inside
    rw [locked.mine inside] at free
    cases free
  constructor
  · intro q asleep
    apply attended.empty (p := q) locked (Or.inl free) ?_ asleep
    intro addr n i since isWriter
    exact absurd (by rw [isWriter]; trivial) (outside q)
  · intro q asleep
    apply attended.full (p := q) locked (Or.inl free) ?_ asleep
    intro n i isReader
    exact outside q (by rw [isReader]; trivial)

def twoTable : Table 2 := fun p =>
  { Ptable.Proc.zero with state := .running, pid := if p = 0 then 1 else 2 }

theorem fresh_twoTable : Fresh twoTable := fun _ => ⟨nofun, nofun⟩

/-- The first process reads from an empty pipe whose write end the second has open, too. -/
def readFirst : List (Action 2) :=
  [.act 0 (.share 1 true), .act 0 (.read 1), .act 0 .proceed, .act 0 .proceed, .act 0 .proceed]

theorem no_pipe_sleeper_stranded_reader :
    ∃ state, Reachable step Patient (created (fun _ => 0) twoTable 0) state ∧
      Asleep state.table readChan 0 ∧ state.pipe.Empty := by
  rcases exists_reachable step Patient (created (fun _ => 0) twoTable 0) readFirst
      (fun state => state.lock = none ∧ Asleep state.table readChan 0) (by decide +kernel) with
    ⟨state, reachable, free, asleep⟩
  have holds := no_pipe_sleeper_stranded 2 (fun _ => 0) twoTable fresh_twoTable 0 state reachable free
  exact ⟨state, reachable, asleep, (holds.1 0 asleep).1⟩

/-- The second process writes more than fits, and is killed when the pipe is full. -/
def writeUntilKilled : List (Action 2) :=
  [.act 1 (.write (fun _ => 7) 513), .act 1 .proceed] ++
    List.replicate pipesize (.act 1 .proceed) ++ [.kill 2, .act 1 .proceed]

/-- A killed writer leaves a reader asleep on a full pipe that is open for writing. -/
theorem reader_stranded_by_killed_writer :
    ∃ state, Reachable step Unrestricted (created (fun _ => 0) twoTable 0) state ∧
      state.lock = none ∧ Asleep state.table readChan 0 ∧ state.pipe.Full ∧
      ¬state.pipe.Empty :=
  exists_reachable step Unrestricted _ (readFirst ++ writeUntilKilled) _ (by decide +kernel)

end Xv6.Pipes
