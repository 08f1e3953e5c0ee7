import Xv6.Log.Protocol

/-! # What holds of the log in every interleaving -/

namespace Xv6.Log

open Transition State Phase
open Function (update update_self update_of_ne)

variable {Process : Type} {area : Area} {state next : State Process} {process : Process}
  {phase : Phase}

variable {action : Action Process}

/-- An operation is in progress from its `begin_op` on, and one that panicked in
`log_write` never gets to its `end_op`. -/
def Phase.weight : Phase → Nat
  | .inOp _ _ | .writing _ _ _ | .panicked _ => 1
  | .idle | .sleeping | .woken | .committing _ => 0

@[simp] theorem Phase.weight_idle : idle.weight = 0 := rfl

@[simp] theorem Phase.weight_sleeping : sleeping.weight = 0 := rfl

@[simp] theorem Phase.weight_woken : woken.weight = 0 := rfl

@[simp] theorem Phase.weight_committing (point : CommitPoint) :
    (committing point).weight = 0 := rfl

@[simp] theorem Phase.weight_inOp (op : Nat) (blocks : List Nat) :
    (inOp op blocks).weight = 1 := rfl

@[simp] theorem Phase.weight_writing (op : Nat) (blocks : List Nat) (blockno : Nat) :
    (writing op blocks blockno).weight = 1 := rfl

@[simp] theorem Phase.weight_panicked (cause : Panic) : (panicked cause).weight = 1 := rfl

def Phase.op : Phase → Option Nat
  | .inOp op _ | .writing op _ _ => some op
  | .idle | .sleeping | .woken | .committing _ | .panicked _ => none

/-- The header of the transaction being committed is on disk. -/
def CommitPoint.AfterHead : CommitPoint → Prop
  | .install _ | .clear | .writeCleared => True
  | .start | .writeLog _ | .writeHead | .done => False

theorem wakeup_phase_eq (awake : phase ≠ .woken) :
    state.wakeup.phase process = phase → state.phase process = phase := by
  simp only [wakeup]
  split
  · intro equal
    exact absurd equal.symm awake
  · exact id

/-- `wakeup` keeps whatever does not tell sleepers from processes that have been woken. -/
theorem wakeup_eq {Value : Type} (value : Phase → Value) (same : value .woken = value .sleeping)
    (state : State Process) (process : Process) :
    value (state.wakeup.phase process) = value (state.phase process) := by
  simp only [wakeup]
  split
  · rename_i asleep
    rw [asleep]
    exact same
  · rfl

/-! ## Steps -/

/-- A process moves to another phase, and apart from buffers and the disk nothing else
changes. -/
structure Moves [DecidableEq Process] (state next : State Process) (process : Process)
    (phase : Phase) : Prop where
  phases : next.phase = update state.phase process phase
  outstanding : next.outstanding = state.outstanding
  committing : next.committing = state.committing
  lh : next.machine.lh = state.machine.lh
  nextOp : next.nextOp = state.nextOp
  committed : next.committed = state.committed
  logged : next.logged = state.logged

/-- From which phase to which a process moves in such a step. -/
inductive Quiet (area : Area) (state : State Process) (process : Process) :
    Action Process → Phase → Phase → Prop
  | refused {before : Phase} (outside : before.weight = 0) (full : ¬state.Admits) :
      Quiet area state process (.beginOp process) before .sleeping
  | tooBig {blockno op : Nat} {blocks : List Nat} {data : Block}
      (full : LOGSIZE ≤ state.machine.lh.length ∨
        (area.size : Int) - 1 ≤ state.machine.lh.length) :
      Quiet area state process (.logWrite process blockno data) (.inOp op blocks)
        (.panicked .tooBigTransaction)
  | outside {blockno op : Nat} {blocks : List Nat} {data : Block} :
      Quiet area state process (.logWrite process blockno data) (.inOp op blocks)
        (.panicked .logWriteOutsideTransaction)
  | writes {blockno op : Nat} {blocks : List Nat} {data : Block} :
      Quiet area state process (.logWrite process blockno data) (.inOp op blocks)
        (.writing op blocks blockno)
  | overruns {blockno op : Nat} {blocks : List Nat} (overruns : state.Overruns blockno) :
      Quiet area state process (.logAppend process) (.writing op blocks blockno)
        (.panicked .blockOverrun)
  | commits {point later : CommitPoint} (after : later.AfterHead → point.AfterHead) :
      Quiet area state process (.commitStep process) (.committing point) (.committing later)
  | killed : Quiet area state process (.kill process) .sleeping .woken

section

variable {action : Action Process} {before : Phase}

section

variable (quiet : Quiet area state process action before phase)
include quiet

theorem Quiet.weight :
    phase.weight = before.weight := by
  cases quiet with
  | refused outside => exact outside.symm
  | tooBig | outside | writes | overruns | commits | killed => rfl

theorem Quiet.op :
    phase.op = none ∨ phase.op = before.op := by
  cases quiet with
  | writes => exact Or.inr rfl
  | refused | tooBig | outside | overruns | commits | killed => exact Or.inl rfl

theorem Quiet.committing {later : CommitPoint} (commits : phase = .committing later) :
    ∃ point, before = .committing point ∧ (later.AfterHead → point.AfterHead) := by
  cases quiet with
  | commits after =>
    cases commits
    exact ⟨_, rfl, after⟩
  | refused | tooBig | outside | writes | overruns | killed => cases commits

theorem Quiet.noPanic :
    phase ≠ .panicked .logCommitting := by
  cases quiet <;> simp

theorem Quiet.asleep (asleep : phase = .sleeping) : ¬state.Admits := by
  cases quiet with
  | refused _ full => exact full
  | tooBig | outside | writes | overruns | commits | killed => cases asleep

end

end

inductive Effect [DecidableEq Process] (area : Area) (state : State Process) :
    Action Process → State Process → Prop
  | quiet {action : Action Process} {process : Process} {phase : Phase} {next : State Process}
      (quiet : Quiet area state process action (state.phase process) phase)
      (moves : Moves state next process phase) : Effect area state action next
  | begins {process : Process} (outside : (state.phase process).weight = 0)
      (admits : state.Admits) :
      Effect area state (.beginOp process)
        { state.setPhase process (.inOp state.nextOp []) with
          outstanding := state.outstanding + 1
          nextOp := state.nextOp + 1 }
  | appends {process : Process} {op blockno : Nat} {blocks : List Nat}
      (writing : state.phase process = .writing op blocks blockno) :
      Effect area state (.logAppend process) (state.logAppend process op blocks blockno)
  | ends {process : Process} (active : (state.phase process).weight = 1) :
      Effect area state (.endOp process) (state.endOp process)
  | heads {process : Process} (commits : state.phase process = .committing .writeHead) :
      Effect area state (.commitStep process) (state.commitStep area process .writeHead)
  | clears {process : Process} (commits : state.phase process = .committing .clear) :
      Effect area state (.commitStep process) (state.commitStep area process .clear)
  | finishes {process : Process} (commits : state.phase process = .committing .done) :
      Effect area state (.commitStep process) (state.commitStep area process .done)

section

variable [DecidableEq Process]

/-- What holds of the process that has moved and of the others holds of all. -/
theorem forall_phase (phases : next.phase = update state.phase process phase)
    (holds : Process → Phase → Prop) (own : holds process phase)
    (others : ∀ other, other ≠ process → holds other (state.phase other)) :
    ∀ other, holds other (next.phase other) := by
  rw [phases]
  exact (Function.forall_update_iff _ holds).mpr ⟨own, others⟩

theorem moves_setPhase (state : State Process) (process : Process) (phase : Phase)
    {machine : Machine} (lh : machine.lh = state.machine.lh) :
    Moves state { state.setPhase process phase with machine := machine } process phase :=
  ⟨rfl, rfl, rfl, lh, rfl, rfl, rfl⟩

theorem beginOp_effect (outside : (state.phase process).weight = 0) :
    Effect area state (.beginOp process) (state.beginOp process) := by
  unfold beginOp
  split
  · rename_i admits
    exact .begins outside admits
  · rename_i full
    exact .quiet (.refused outside full) (moves_setPhase state process _ rfl)

theorem logWrite_effect {op : Nat} {blocks : List Nat} (blockno : Nat) (data : Block)
    (inOp : state.phase process = .inOp op blocks) :
    Effect area state (.logWrite process blockno data)
      (state.logWrite area process op blocks blockno data) := by
  unfold logWrite
  split
  · rename_i full
    exact .quiet (inOp ▸ .tooBig full) (moves_setPhase state process _ rfl)
  · split
    · exact .quiet (inOp ▸ .outside) (moves_setPhase state process _ rfl)
    · exact .quiet (inOp ▸ .writes) (moves_setPhase state process _ rfl)

theorem commitStep_effect {point : CommitPoint}
    (commits : state.phase process = .committing point) :
    Effect area state (.commitStep process) (state.commitStep area process point) := by
  have moves : ∀ (later : CommitPoint) {machine : Machine}, machine.lh = state.machine.lh →
      (later.AfterHead → point.AfterHead) → Effect area state (.commitStep process)
        { state.setPhase process (.committing later) with machine := machine } :=
    fun later _ lh after => .quiet (commits ▸ .commits after) (moves_setPhase state process _ lh)
  cases point with
  | start | writeLog tail | install tail =>
    simp only [commitStep]
    split
    · exact moves _ rfl id
    · exact moves _ rfl id
  | writeHead => exact .heads commits
  | clear => exact .clears commits
  | writeCleared => exact moves _ rfl False.elim
  | done => exact .finishes commits

theorem step_effect (stepped : step area state action = some next) :
    Effect area state action next := by
  cases action with
  | beginOp process =>
    simp only [step] at stepped
    split at stepped
    · rename_i idle
      cases stepped
      exact beginOp_effect (by rw [idle]; rfl)
    · rename_i woken
      cases stepped
      exact beginOp_effect (by rw [woken]; rfl)
    · cases stepped
  | logWrite process blockno data =>
    simp only [step] at stepped
    split at stepped
    · rename_i inOp
      cases stepped
      exact logWrite_effect blockno data inOp
    · cases stepped
  | logAppend process =>
    simp only [step] at stepped
    split at stepped
    · rename_i writing
      split at stepped
      · rename_i overruns
        cases stepped
        exact .quiet (writing ▸ .overruns overruns) (moves_setPhase state process _ rfl)
      · cases stepped
        exact .appends writing
    · cases stepped
  | endOp process =>
    simp only [step] at stepped
    split at stepped
    · rename_i inOp
      cases stepped
      exact .ends (by rw [inOp]; rfl)
    · cases stepped
  | commitStep process =>
    simp only [step] at stepped
    split at stepped
    · rename_i commits
      cases stepped
      exact commitStep_effect commits
    · cases stepped
  | kill process =>
    simp only [step] at stepped
    split at stepped
    · rename_i asleep
      cases stepped
      exact .quiet (asleep ▸ .killed) (moves_setPhase state process _ rfl)
    · cases stepped

end

/-! ## The counters -/

section

variable [Fintype Process]

def State.inProgress (state : State Process) : Nat :=
  ∑ process, (state.phase process).weight

/-- Who may do what: the counters agree with the phases of the processes. -/
structure Control (state : State Process) : Prop where
  outstanding : state.outstanding = state.inProgress
  exclusive : state.committing = true → state.outstanding = 0
  committer : ∀ process point, state.phase process = .committing point → state.committing = true
  single : ∀ first second point other, state.phase first = .committing point →
    state.phase second = .committing other → first = second
  noPanic : ∀ process, state.phase process ≠ .panicked .logCommitting

/-- A sleeper in `begin_op` has a reason to sleep. -/
def NoneStranded (state : State Process) : Prop :=
  ∀ process, state.phase process = .sleeping → ¬state.Admits

theorem Control.weight_eq_zero (control : Control state) (committing : state.committing = true)
    (process : Process) : (state.phase process).weight = 0 := by
  have total : (state.inProgress : Int) = 0 := by
    rw [← control.outstanding]
    exact control.exclusive committing
  have bound := measure_le_sum weight state.phase process
  change _ ≤ state.inProgress at bound
  omega

theorem Control.not_committing (control : Control state) (process : Process)
    (active : (state.phase process).weight = 1) : state.committing = false := by
  cases committing : state.committing with
  | false => rfl
  | true =>
    rw [control.weight_eq_zero committing process] at active
    cases active

theorem Control.op_eq_none (control : Control state) (committing : state.committing = true)
    (process : Process) : (state.phase process).op = none := by
  have weightZero := control.weight_eq_zero committing process
  cases phase : state.phase process <;> rw [phase] at weightZero <;>
    first | rfl | cases weightZero

theorem inProgress_wakeup (state : State Process) :
    state.wakeup.inProgress = state.inProgress :=
  Finset.sum_congr rfl fun process _ => wakeup_eq weight rfl state process

theorem Control.wakeup (control : Control state) : Control state.wakeup := by
  refine ⟨?_, control.exclusive, ?_, ?_, ?_⟩
  · rw [inProgress_wakeup]
    exact control.outstanding
  · intro process point commits
    exact control.committer process point (wakeup_phase_eq (by simp) commits)
  · intro first second point other firstCommits secondCommits
    exact control.single _ _ _ _ (wakeup_phase_eq (by simp) firstCommits)
      (wakeup_phase_eq (by simp) secondCommits)
  · intro process panicked
    exact control.noPanic process (wakeup_phase_eq (by simp) panicked)

variable [DecidableEq Process]

section

variable (control : Control state)
include control

/-- A step that changes the phase of one process and, with it, the counters. -/
theorem Control.change (process : Process) (phase : Phase)
    (phases : next.phase = update state.phase process phase)
    (counted : next.outstanding + (state.phase process).weight =
      state.outstanding + phase.weight) (exclusive : next.committing = true → next.outstanding = 0)
    (kept : state.committing = true → next.committing = true ∨
      ∃ point, state.phase process = .committing point)
    (commits : ∀ point, phase = .committing point → next.committing = true ∧
      (state.committing = true → ∃ point, state.phase process = .committing point))
    (noPanic : phase ≠ .panicked .logCommitting) : Control next := by
  have total := sum_update weight state.phase process phase
  rw [← phases] at total
  change next.inProgress + _ = state.inProgress + _ at total
  have agree := control.outstanding
  -- Nobody else commits when the process does.
  have alone : ∀ point other at_, phase = .committing point →
      state.phase other = .committing at_ → process = other := by
    intro point other at_ own theirs
    rcases (commits point own).2 (control.committer other at_ theirs) with ⟨before, was⟩
    exact control.single _ _ _ _ was theirs
  refine ⟨by omega, exclusive, ?_, ?_, ?_⟩
  · refine forall_phase phases (fun _ phase => ∀ point, phase = .committing point → _)
      (fun point own => (commits point own).1) fun other different point theirs => ?_
    rcases kept (control.committer other point theirs) with still | ⟨own, before⟩
    · exact still
    · exact absurd (control.single _ _ _ _ theirs before) different
  · intro first second point other
    rw [phases]
    by_cases isFirst : first = process
    · by_cases isSecond : second = process
      · exact fun _ _ => isFirst.trans isSecond.symm
      · rw [isFirst, update_self, update_of_ne isSecond]
        exact alone point second other
    · by_cases isSecond : second = process
      · rw [isSecond, update_self, update_of_ne isFirst]
        exact fun theirs own => (alone other first point own theirs).symm
      · rw [update_of_ne isFirst, update_of_ne isSecond]
        exact control.single first second point other
  · exact forall_phase phases (fun _ phase => phase ≠ .panicked .logCommitting) noPanic
      fun other _ => control.noPanic other

theorem Control.moves (phases : next.phase = update state.phase process phase)
    (outstanding : next.outstanding = state.outstanding)
    (committing : next.committing = state.committing)
    (weight : phase.weight = (state.phase process).weight)
    (commits : ∀ point, phase = .committing point → ∃ point, state.phase process = .committing point)
    (noPanic : phase ≠ .panicked .logCommitting) : Control next := by
  apply control.change process phase phases
  · rw [outstanding, weight]
  · rw [outstanding, committing]
    exact control.exclusive
  · rw [committing]
    exact Or.inl
  · intro point isPoint
    rcases commits point isPoint with ⟨before, was⟩
    exact ⟨committing.trans (control.committer process before was), fun _ => ⟨before, was⟩⟩
  · exact noPanic

theorem Control.begins (outside : (state.phase process).weight = 0) (admits : state.Admits) :
    Control { state.setPhase process (.inOp state.nextOp []) with
      outstanding := state.outstanding + 1
      nextOp := state.nextOp + 1 } := by
  apply control.change process (.inOp state.nextOp []) rfl
  · simp [outside]
  · intro committing
    exact absurd (admits.1.symm.trans committing) (by decide)
  · exact fun committing => Or.inl committing
  · intro point impossible
    cases impossible
  · simp

theorem Control.endOp (active : (state.phase process).weight = 1) :
    Control (state.endOp process) := by
  have idle := control.not_committing process active
  unfold State.endOp
  simp only [idle, Bool.false_eq_true, if_false]
  split
  · rename_i last
    apply control.change process (.committing .start) rfl
    · simp [setPhase, active]
    · exact fun _ => last
    · exact fun _ => Or.inl rfl
    · intro point _
      exact ⟨rfl, fun committing => absurd (idle.symm.trans committing) (by decide)⟩
    · simp
  · apply Control.wakeup
    apply control.change process .idle rfl
    · simp [setPhase, active]
    · intro impossible
      cases impossible
    · intro committing
      exact absurd (idle.symm.trans committing) (by decide)
    · exact fun _ impossible => nomatch impossible
    · simp

theorem Control.finishes (commits : state.phase process = .committing .done) :
    Control (state.commitStep area process .done) := by
  apply Control.wakeup
  apply control.change process .idle rfl
  · simp [setPhase, commits]
  · intro impossible
    cases impossible
  · exact fun _ => Or.inr ⟨_, commits⟩
  · exact fun _ impossible => nomatch impossible
  · simp

theorem Control.step (effect : Effect area state action next) : Control next := by
  cases effect with
  | quiet quiet moves =>
    refine control.moves moves.phases moves.outstanding moves.committing quiet.weight ?_
      quiet.noPanic
    intro point isPoint
    rcases quiet.committing isPoint with ⟨before, was, _⟩
    exact ⟨before, was⟩
  | begins outside admits => exact control.begins outside admits
  | appends writing =>
    exact control.moves rfl rfl rfl (by rw [writing]; rfl) (fun _ impossible => nomatch impossible)
      (by simp)
  | ends active => exact control.endOp active
  | heads commits | clears commits =>
    exact control.moves rfl rfl rfl (by rw [commits]; rfl) (fun _ _ => ⟨_, commits⟩) (by simp)
  | finishes commits => exact control.finishes commits

end

end

/-! ## No sleeper is stranded -/

section

theorem wakeup_noneStranded (state : State Process) : NoneStranded state.wakeup := by
  intro process asleep
  simp only [wakeup] at asleep
  split at asleep
  · cases asleep
  · rename_i awake
    exact absurd asleep awake

theorem NoneStranded.of_committing (committing : state.committing = true) :
    NoneStranded state := by
  intro process _ admits
  exact absurd (admits.1.symm.trans committing) (by decide)

variable [DecidableEq Process]

/-- Sleepers stay justified when the log does not become more welcoming. -/
theorem NoneStranded.change (justified : NoneStranded state)
    (phases : next.phase = update state.phase process phase)
    (admits : next.Admits → state.Admits) (asleep : phase = .sleeping → ¬next.Admits) :
    NoneStranded next :=
  forall_phase phases (fun _ phase => phase = .sleeping → ¬next.Admits) asleep
    fun other _ isAsleep admitted => justified other isAsleep (admits admitted)

theorem NoneStranded.appends (justified : NoneStranded state) (op : Nat) (blocks : List Nat)
    (blockno : Nat) : NoneStranded (state.logAppend process op blocks blockno) := by
  refine justified.change rfl ?_ fun impossible => nomatch impossible
  rintro ⟨idle, room⟩
  refine ⟨idle, ?_⟩
  simp only [logAppend, setPhase] at room
  split at room
  · exact room
  · rw [List.length_append, List.length_singleton] at room
    omega

variable [Fintype Process]

theorem NoneStranded.endOp (control : Control state) (active : (state.phase process).weight = 1) :
    NoneStranded (state.endOp process) := by
  unfold State.endOp
  simp only [control.not_committing process active, Bool.false_eq_true, if_false]
  split
  · exact NoneStranded.of_committing rfl
  · exact wakeup_noneStranded _

theorem NoneStranded.step (justified : NoneStranded state) (control : Control state)
    (effect : Effect area state action next) : NoneStranded next := by
  cases effect with
  | quiet quiet moves =>
    have admits : next.Admits ↔ state.Admits := by
      simp only [State.Admits, moves.committing, moves.outstanding, moves.lh]
    exact justified.change moves.phases admits.mp fun asleep =>
      admits.not.mpr (quiet.asleep asleep)
  | begins _ admits =>
    exact justified.change rfl (fun _ => admits) fun impossible => nomatch impossible
  | appends => exact justified.appends _ _ _
  | ends active => exact .endOp control active
  | heads commits | clears commits => exact .of_committing (control.committer _ _ commits)
  | finishes => exact wakeup_noneStranded _

end

/-! ## Operations and transactions -/

/-- Where the calls of `log_write` have gone. -/
structure History (state : State Process) : Prop where
  distinct : state.machine.lh.Nodup
  loggedBound : ∀ entry ∈ state.logged, entry.op < state.nextOp
  phaseBound : ∀ process op, (state.phase process).op = some op → op < state.nextOp
  owner : ∀ first second op, (state.phase first).op = some op →
    (state.phase second).op = some op → first = second
  current : ∀ process op, (state.phase process).op = some op →
    ∀ entry ∈ state.logged, entry.op = op → entry.transaction = state.committed.length
  same : ∀ left ∈ state.logged, ∀ right ∈ state.logged, left.op = right.op →
    left.transaction = right.transaction
  bounded : ∀ entry ∈ state.logged, entry.transaction ≤ state.committed.length
  past : ∀ entry ∈ state.logged, entry.transaction < state.committed.length →
    entry.blockno ∈ state.committed.getD entry.transaction []
  pending : ∀ entry ∈ state.logged, entry.transaction = state.committed.length →
    entry.blockno ∈ state.machine.lh
  headed : ∀ process point, state.phase process = .committing point → point.AfterHead →
    ∀ entry ∈ state.logged, entry.transaction < state.committed.length

/-- No operation is in progress, and the header lists what has been committed. -/
theorem History.of_closed (noOp : ∀ process, (state.phase process).op = none)
    (distinct : state.machine.lh.Nodup)
    (loggedBound : ∀ entry ∈ state.logged, entry.op < state.nextOp)
    (same : ∀ left ∈ state.logged, ∀ right ∈ state.logged, left.op = right.op →
      left.transaction = right.transaction)
    (past : ∀ entry ∈ state.logged, entry.blockno ∈ state.committed.getD entry.transaction [])
    (closed : ∀ entry ∈ state.logged, entry.transaction < state.committed.length) :
    History state where
  distinct := distinct
  loggedBound := loggedBound
  phaseBound := fun process _ isOp => absurd ((noOp process).symm.trans isOp) nofun
  owner := fun first _ _ isOp => absurd ((noOp first).symm.trans isOp) nofun
  current := fun process _ isOp => absurd ((noOp process).symm.trans isOp) nofun
  same := same
  bounded := fun entry member => Nat.le_of_lt (closed entry member)
  past := fun entry member _ => past entry member
  pending := fun entry member isOpen => absurd isOpen (Nat.ne_of_lt (closed entry member))
  headed := fun _ _ _ _ => closed

theorem History.wakeup (history : History state) : History state.wakeup := by
  have sameOp := wakeup_eq op rfl state
  refine ⟨history.distinct, history.loggedBound, ?_, ?_, ?_, history.same, history.bounded,
    history.past, history.pending, ?_⟩
  · intro process op isOp
    exact history.phaseBound process op ((sameOp process).symm.trans isOp)
  · intro first second op firstOp secondOp
    exact history.owner _ _ _ ((sameOp _).symm.trans firstOp) ((sameOp _).symm.trans secondOp)
  · intro process op isOp
    exact history.current process op ((sameOp process).symm.trans isOp)
  · intro process point commits
    exact history.headed process point (wakeup_phase_eq (by simp) commits)

theorem mem_append_absent {lh : List Nat} (blockno : Nat) {other : Nat}
    (member : other ∈ lh ∨ other = blockno) :
    other ∈ if blockno ∈ lh then lh else lh ++ [blockno] := by
  split
  · rename_i present
    rcases member with member | rfl
    · exact member
    · exact present
  · simpa using member

section

variable [DecidableEq Process]

/-- A process does not take up an operation in a step. -/
theorem op_of_update (phases : next.phase = update state.phase process phase)
    (op : phase.op = none ∨ phase.op = (state.phase process).op) :
    ∀ other number, (next.phase other).op = some number →
      (state.phase other).op = some number := by
  refine forall_phase phases (fun other phase => ∀ number, phase.op = some number →
    (state.phase other).op = some number) (fun number isOp => ?_) fun _ _ _ => id
  rcases op with none | kept
  · exact absurd (none.symm.trans isOp) nofun
  · exact kept.symm.trans isOp

theorem committing_of_update (phases : next.phase = update state.phase process phase)
    (not : ∀ point, phase ≠ .committing point) :
    ∀ other point, next.phase other = .committing point → state.phase other = .committing point :=
  forall_phase phases (fun other phase => ∀ point, phase = .committing point →
    state.phase other = .committing point) (fun point own => absurd own (not point)) fun _ _ _ => id

theorem History.change (history : History state)
    (phases : next.phase = update state.phase process phase)
    (lh : next.machine.lh = state.machine.lh) (nextOp : next.nextOp = state.nextOp)
    (committed : next.committed = state.committed) (logged : next.logged = state.logged)
    (op : phase.op = none ∨ phase.op = (state.phase process).op)
    (headed : ∀ point, phase = .committing point → point.AfterHead →
      ∀ entry ∈ state.logged, entry.transaction < state.committed.length) :
    History next := by
  have sameOp := op_of_update phases op
  refine ⟨?_, ?_, ?_, ?_, ?_, ?_, ?_, ?_, ?_, ?_⟩
  · rw [lh]
    exact history.distinct
  · rw [logged, nextOp]
    exact history.loggedBound
  · intro other number isOp
    rw [nextOp]
    exact history.phaseBound other number (sameOp other number isOp)
  · intro first second number firstOp secondOp
    exact history.owner _ _ _ (sameOp _ _ firstOp) (sameOp _ _ secondOp)
  · intro other number isOp
    rw [logged, committed]
    exact history.current other number (sameOp _ _ isOp)
  · rw [logged]
    exact history.same
  · rw [logged, committed]
    exact history.bounded
  · rw [logged, committed]
    exact history.past
  · rw [logged, committed, lh]
    exact history.pending
  · rw [logged, committed]
    exact forall_phase phases (fun _ phase => ∀ point, phase = .committing point →
      point.AfterHead → _) headed fun other _ => history.headed other

/-- A new operation gets a number that no call of `log_write` carries yet. -/
theorem History.begins (history : History state) :
    History { state.setPhase process (.inOp state.nextOp []) with
      outstanding := state.outstanding + 1
      nextOp := state.nextOp + 1 } := by
  have fresh := @forall_phase _ state (state.setPhase process (.inOp state.nextOp [])) process _ _
    rfl (fun other phase => ∀ op, phase.op = some op →
      (other = process ∧ op = state.nextOp) ∨ (state.phase other).op = some op)
    (fun op isOp => Or.inl ⟨rfl, (Option.some.inj isOp).symm⟩) fun _ _ _ => Or.inr
  refine ⟨history.distinct, ?_, ?_, ?_, ?_, history.same, history.bounded, history.past,
    history.pending, ?_⟩
  · intro entry member
    exact Nat.lt_succ_of_lt (history.loggedBound entry member)
  · intro other op isOp
    rcases fresh other op isOp with ⟨_, equal⟩ | before
    · rw [equal]
      exact Nat.lt_succ_self _
    · exact Nat.lt_succ_of_lt (history.phaseBound other op before)
  · intro first second op firstOp secondOp
    rcases fresh first op firstOp with ⟨firstSame, equal⟩ | firstBefore
    · rcases fresh second op secondOp with ⟨secondSame, _⟩ | secondBefore
      · exact firstSame.trans secondSame.symm
      · exact absurd (history.phaseBound second op secondBefore) (by omega)
    · rcases fresh second op secondOp with ⟨_, equal⟩ | secondBefore
      · exact absurd (history.phaseBound first op firstBefore) (by omega)
      · exact history.owner _ _ _ firstBefore secondBefore
  · intro other op isOp entry member sameOp
    rcases fresh other op isOp with ⟨_, equal⟩ | before
    · exact absurd (history.loggedBound entry member) (by omega)
    · exact history.current other op before entry member sameOp
  · intro other point commits
    exact history.headed other point (committing_of_update rfl (by simp) other point commits)

theorem History.endOp (history : History state) : History (state.endOp process) := by
  unfold State.endOp
  dsimp only
  split
  · exact history.change rfl rfl rfl rfl rfl (Or.inl rfl) fun _ impossible => nomatch impossible
  · split
    · refine history.change rfl rfl rfl rfl rfl (Or.inl rfl) ?_
      intro point equal after
      cases equal
      exact absurd after id
    · apply History.wakeup
      exact history.change rfl rfl rfl rfl rfl (Or.inl rfl) fun _ impossible => nomatch impossible

theorem History.heads (history : History state)
    (noOp : ∀ other, ((state.commitStep area process .writeHead).phase other).op = none) :
    History (state.commitStep area process .writeHead) := by
  refine .of_closed noOp history.distinct history.loggedBound history.same ?_ ?_
  · intro entry member
    change entry.blockno ∈ (state.committed ++ [state.machine.lh]).getD entry.transaction []
    rw [List.getD_eq_getElem?_getD]
    rcases Nat.lt_or_eq_of_le (history.bounded entry member) with earlier | last
    · rw [List.getElem?_append_left earlier, ← List.getD_eq_getElem?_getD]
      exact history.past entry member earlier
    · rw [last, List.getElem?_concat_length]
      exact history.pending entry member last
  · intro entry member
    change _ < (state.committed ++ [state.machine.lh]).length
    rw [List.length_append]
    exact Nat.lt_succ_of_le (history.bounded entry member)

variable [Fintype Process]

theorem History.appends (history : History state) (control : Control state) {op blockno : Nat}
    {blocks : List Nat} (writing : state.phase process = .writing op blocks blockno) :
    History (state.logAppend process op blocks blockno) := by
  have ownOp : (state.phase process).op = some op := by rw [writing]; rfl
  have idle := control.not_committing process (by rw [writing]; rfl)
  have sameOp := @op_of_update _ state (state.logAppend process op blocks blockno) process
    (.inOp op (blocks.insert blockno)) _ rfl (Or.inr ownOp.symm)
  refine ⟨?_, ?_, ?_, ?_, ?_, ?_, ?_, ?_, ?_, ?_⟩
  · simp only [logAppend]
    split
    · exact history.distinct
    · rename_i absent
      exact history.distinct.append (List.nodup_singleton _) (by simpa using absent)
  · exact List.forall_mem_cons.mpr ⟨history.phaseBound process op ownOp, history.loggedBound⟩
  · exact fun other number isOp => history.phaseBound other number (sameOp _ _ isOp)
  · exact fun first second number firstOp secondOp =>
      history.owner _ _ _ (sameOp _ _ firstOp) (sameOp _ _ secondOp)
  · intro other number isOp
    exact List.forall_mem_cons.mpr ⟨fun _ => rfl, history.current other number (sameOp _ _ isOp)⟩
  · have current := history.current process op ownOp
    refine List.forall_mem_cons.mpr ⟨List.forall_mem_cons.mpr ⟨fun _ => rfl, ?_⟩, ?_⟩
    · exact fun right member equal => (current right member equal.symm).symm
    · exact fun left member =>
        List.forall_mem_cons.mpr ⟨current left member, history.same left member⟩
  · exact List.forall_mem_cons.mpr ⟨Nat.le_refl _, history.bounded⟩
  · exact List.forall_mem_cons.mpr
      ⟨fun earlier => absurd earlier (Nat.lt_irrefl _), history.past⟩
  · refine List.forall_mem_cons.mpr ⟨fun _ => mem_append_absent _ (Or.inr rfl), ?_⟩
    exact fun entry member isOpen =>
      mem_append_absent _ (Or.inl (history.pending entry member isOpen))
  · -- Nobody commits while this operation is in progress.
    intro other point commits
    have before := control.committer other point
      (committing_of_update rfl (by simp) other point commits)
    exact absurd (idle.symm.trans before) (by decide)

theorem History.step (history : History state) (control : Control state)
    (effect : Effect area state action next) : History next := by
  -- Nobody starts an operation while some process commits.
  have noOp : ∀ {process point later} {next : State Process},
      state.phase process = .committing point →
      next.phase = update state.phase process (.committing later) →
      ∀ other, (next.phase other).op = none :=
    fun commits phases => forall_phase phases (fun _ phase => phase.op = none) rfl
      fun other _ => control.op_eq_none (control.committer _ _ commits) other
  cases effect with
  | quiet quiet moves =>
    refine history.change moves.phases moves.lh moves.nextOp moves.committed moves.logged
      quiet.op ?_
    intro point isPoint after
    rcases quiet.committing isPoint with ⟨before, was, earlier⟩
    exact history.headed _ before was (earlier after)
  | begins => exact history.begins
  | appends writing => exact history.appends control writing
  | ends => exact history.endOp
  | heads commits => exact history.heads (noOp commits rfl)
  | clears commits =>
    have closed := history.headed _ .clear commits trivial
    exact .of_closed (noOp commits rfl) List.nodup_nil history.loggedBound history.same
      (fun entry member => history.past entry member (closed entry member)) closed
  | finishes =>
    apply History.wakeup
    exact history.change rfl rfl rfl rfl rfl (Or.inl rfl) fun _ impossible => nomatch impossible

end

/-! ## Every reachable state -/

section

variable [Fintype Process]

structure Inv (state : State Process) : Prop where
  control : Control state
  justified : NoneStranded state
  history : History state

theorem inv_initial (machine : Machine) : Inv (initial machine : State Process) where
  control := by
    refine ⟨?_, ?_, ?_, ?_, ?_⟩ <;> simp [initial, inProgress]
  justified := by
    intro process asleep
    cases asleep
  history := by
    refine ⟨?_, ?_, ?_, ?_, ?_, ?_, ?_, ?_, ?_, ?_⟩ <;> simp [initial, op]

/-- A process is between its `begin_op` and its `end_op`. -/
def Phase.InOperation : Phase → Prop
  | .inOp _ _ | .writing _ _ _ | .panicked _ => True
  | .idle | .sleeping | .woken | .committing _ => False

theorem Control.no_operation (control : Control state) (committing : state.committing = true)
    (process : Process) : ¬(state.phase process).InOperation := by
  have weightZero := control.weight_eq_zero committing process
  cases phase : state.phase process <;> rw [phase] at weightZero <;>
    first | exact id | cases weightZero

omit [Fintype Process] in
/-- All blocks of one operation are in one transaction: a committed one, or the
one that is still open and whose blocks the in-memory header lists. -/
theorem History.one_transaction (history : History state) (op : Nat) :
    ∃ transaction, ∀ entry ∈ state.logged, entry.op = op →
      (transaction < state.committed.length ∧
        entry.blockno ∈ state.committed.getD transaction []) ∨
      (transaction = state.committed.length ∧ entry.blockno ∈ state.machine.lh) := by
  by_cases some_ : ∃ entry ∈ state.logged, entry.op = op
  · rcases some_ with ⟨first, firstMember, firstOp⟩
    refine ⟨first.transaction, ?_⟩
    intro entry member isOp
    have equal := history.same first firstMember entry member (firstOp.trans isOp.symm)
    rcases Nat.lt_or_eq_of_le (history.bounded entry member) with earlier | last
    · rw [equal]
      exact Or.inl ⟨earlier, history.past entry member earlier⟩
    · rw [equal]
      exact Or.inr ⟨last, history.pending entry member last⟩
  · refine ⟨0, ?_⟩
    intro entry member isOp
    exact absurd ⟨entry, member, isOp⟩ some_

variable [DecidableEq Process]

theorem Inv.step (inv : Inv state) (stepped : Log.step area state action = some next) : Inv next :=
  have effect := step_effect stepped
  ⟨inv.control.step effect, inv.justified.step inv.control effect,
    inv.history.step inv.control effect⟩

theorem inv_reachable {allowed : State Process → Action Process → Prop} {machine : Machine}
    (reachable : Reachable (Log.step area) allowed (initial machine) state) : Inv state :=
  reachable.invariant Inv (fun _ _ _ inv _ stepped => inv.step stepped) (inv_initial machine)

theorem log_protocol_safe (area : Area) (machine : Machine) (state : State Process)
    (reachable : Reachable (Log.step area) Unrestricted (initial machine) state) :
    (∀ process, state.phase process ≠ .panicked .logCommitting) ∧
    (∀ committer point other, state.phase committer = .committing point →
      ¬(state.phase other).InOperation) ∧
    (∀ op, ∃ transaction, ∀ entry ∈ state.logged, entry.op = op →
      (transaction < state.committed.length ∧
        entry.blockno ∈ state.committed.getD transaction []) ∨
      (transaction = state.committed.length ∧ entry.blockno ∈ state.machine.lh)) ∧
    state.machine.lh.Nodup ∧
    (∀ process, state.phase process = .sleeping → state.committing = true ∨
      (LOGSIZE : Int) < state.machine.lh.length + (state.outstanding + 1) * MAXOPBLOCKS) := by
  have inv := inv_reachable reachable
  refine ⟨inv.control.noPanic, ?_, inv.history.one_transaction, inv.history.distinct, ?_⟩
  · intro committer point other commits
    exact inv.control.no_operation (inv.control.committer committer point commits) other
  · intro process asleep
    have refused := inv.justified process asleep
    cases committing : state.committing with
    | true => exact Or.inl rfl
    | false =>
      right
      have full : ¬(state.machine.lh.length : Int) +
          (state.outstanding + 1) * MAXOPBLOCKS ≤ LOGSIZE :=
        fun room => refused ⟨committing, room⟩
      omega

/-- One operation logs a block and ends, while a second one is let in. -/
theorem log_protocol_safe_two_operations :
    let area : Area := ⟨2, 30, by decide⟩
    let start : State (Fin 2) := initial (boot fun _ => Bytes.zero BSIZE)
    ∃ state, run (Log.step area) Unrestricted start
        [.beginOp 0, .logWrite 0 60 (Bytes.zero BSIZE), .logAppend 0, .beginOp 1, .endOp 0] =
        some state ∧
      state.outstanding = 1 ∧ state.machine.lh.Nodup ∧
      ∀ process, state.phase process ≠ .panicked .logCommitting := by
  intro area start
  let actions : List (Action (Fin 2)) :=
    [.beginOp 0, .logWrite 0 60 (Bytes.zero BSIZE), .logAppend 0, .beginOp 1, .endOp 0]
  have ends : (run (Log.step area) Unrestricted start actions).map outstanding =
      some 1 := by
    decide
  rcases Option.map_eq_some_iff.mp ends with ⟨state, ran, one⟩
  have safe := log_protocol_safe area _ state (.of_run actions .refl ran)
  exact ⟨state, ran, one, safe.2.2.2.1, safe.1⟩

end

end Xv6.Log
