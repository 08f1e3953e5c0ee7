import Xv6.Ide.Machine

/-! # The queue of the disk

The queue has the requests that are not completed, in the order of the calls, and the device
works at the first of them.
-/

namespace Xv6.Ide

open Transition

variable {nbuf nproc : Nat}

def Buf.SamePlace (buf other : Buf) : Prop := buf.drive = other.drive ∧ buf.sector = other.sector

/-- The device works at the request of the buffer, or has completed it. -/
def Busy (buf : Buf) (disk : UInt32 → UInt32 → Block) : Device → Prop
  | .idle => False
  | .working command => command = buf.command
  | .finished command register => command = buf.command ∧
      disk buf.drive buf.sector = if buf.dirty then buf.data else register

/-- What holds whenever `idelock` is free. -/
structure Serving (state : State nbuf nproc) (queue : List (Fin nbuf)) : Prop where
  chain : state.queue.Holds queue
  idle : queue = [] → state.device = .idle
  busy : ∀ b rest, queue = b :: rest → Busy (state.bufs b) state.disk state.device
  waiting : ∀ b ∈ queue, state.InUse b ∧ ¬(state.bufs b).Synced
  served : ∀ p b, (state.control p).Uses b → b ∉ queue → state.control p = .awake b ∧
    (state.bufs b).Synced ∧
    ∃ buf, ⟨b, buf⟩ ∈ state.completed ∧ (buf.dirty = true → (state.bufs b).data = buf.data)
  only : ∀ p q b, (state.control p).Uses b → (state.control q).Uses b → p = q
  calls : state.calls = state.completed ++ queue.map fun b => ⟨b, state.bufs b⟩
  started : state.started = state.completed.map Request.b ++ queue.take 1

/-! ## Steps -/

/-- The state in which `iderw` goes to sleep. -/
def State.enqueued (state : State nbuf nproc) (p : Fin nproc) (b : Fin nbuf)
    (queue : Chain (Fin nbuf)) (device : Device) (started : List (Fin nbuf)) : State nbuf nproc :=
  let queued : State nbuf nproc :=
    { state with
      queue := queue
      calls := state.calls ++ [⟨b, state.bufs b⟩]
      device := device
      started := started }
  queued.setControl p (.asleep b)

/-- The state that `ideintr` leaves. -/
def State.handled (state : State nbuf nproc) (b : Fin nbuf) (register : Block) (device : Device)
    (started : List (Fin nbuf)) : State nbuf nproc :=
  { state.finish b register with device := device, started := started }

/-- A wakeup, or the test of the loop. -/
def Action.Moves (p : Fin nproc) (action : Action nbuf nproc) : Prop :=
  action = .wake p ∨ action = .resume p

/-- What a step does to the state and to the queue. -/
inductive Stepped (state : State nbuf nproc) :
    Action nbuf nproc → List (Fin nbuf) → List (Fin nbuf) → State nbuf nproc → Prop
  | iderw (outside : state.control p = .outside) (unused : ¬state.InUse b)
      (waits : ¬(state.bufs b).Synced) (holds : chain.Holds (queue ++ [b]))
      (busy : ∀ first rest, queue ++ [b] = first :: rest →
        Busy (state.bufs first) state.disk device)
      (isStarted : started = state.completed.map Request.b ++ (queue ++ [b]).take 1) :
      Stepped state (.iderw p b) queue (queue ++ [b])
        (state.enqueued p b chain device started)
  | complete : Stepped state .complete (b :: rest) (b :: rest) { state with
      disk := ((state.bufs b).command.execute state.disk).1
      device := .finished (state.bufs b).command ((state.bufs b).command.execute state.disk).2 }
  | ideintr (done : state.disk (state.bufs b).drive (state.bufs b).sector =
        if (state.bufs b).dirty then (state.bufs b).data else register)
      (idle : rest = [] → device = .idle)
      (busy : ∀ first later, rest = first :: later → Busy (state.bufs first) state.disk device)
      (isStarted : started = state.completed.map Request.b ++ b :: rest.take 1) :
      Stepped state .ideintr (b :: rest) rest (state.handled b register device started)
  | moves {control : Control nbuf} (isMove : action.Moves p) (used : (state.control p).Uses b)
      (moved : control = .awake b ∨ control = .asleep b ∧ ¬(state.bufs b).Synced ∨
        control = .outside ∧ (state.bufs b).Synced) :
      Stepped state action queue queue (state.setControl p control)
  | edit (unused : ¬state.InUse b) (buf : Buf) :
      Stepped state (.edit b buf) queue queue (state.setBuf b buf)

variable {buf : Buf} {control : Control nbuf} {action : Action nbuf nproc} {c : Fin nbuf}
  {device : Device} {started : List (Fin nbuf)} {register : Block}

theorem put_self (disk : UInt32 → UInt32 → Block) (drive sector : UInt32) (data : Block) :
    put disk drive sector data drive sector = data := by
  rw [put, Function.update_self, Function.update_self]

theorem put_of_ne (disk : UInt32 → UInt32 → Block) {drive sector otherDrive otherSector : UInt32}
    (different : ¬(otherDrive = drive ∧ otherSector = sector)) (data : Block) :
    put disk drive sector data otherDrive otherSector = disk otherDrive otherSector := by
  by_cases sameDrive : otherDrive = drive
  · rw [sameDrive, put, Function.update_self, Function.update_of_ne]
    exact fun sameSector => different ⟨sameDrive, sameSector⟩
  · rw [put, Function.update_of_ne sameDrive]

section

variable {state next : State nbuf nproc} {queue after : List (Fin nbuf)} {p : Fin nproc}
  {b : Fin nbuf}

@[simp] theorem uses_outside : ¬Control.Uses .outside b := by simp [Control.Uses]

@[simp] theorem uses_asleep {other : Fin nbuf} : (Control.asleep other).Uses b ↔ other = b := by
  simp [Control.Uses]

@[simp] theorem uses_awake {other : Fin nbuf} : (Control.awake other).Uses b ↔ other = b := by
  simp [Control.Uses]

theorem bufs_finish_self (register : Block) :
    (state.finish b register).bufs b = { state.bufs b with
      data := if (state.bufs b).dirty then (state.bufs b).data else register
      valid := true
      dirty := false } :=
  Function.update_self ..

theorem bufs_finish_of_ne (different : c ≠ b) :
    (state.finish b register).bufs c = state.bufs c :=
  Function.update_of_ne different ..

/-- The device works only for the first request of the queue. -/
theorem Serving.working (serving : Serving state queue) {command : Command}
    (works : state.device = .working command) :
    ∃ b rest, queue = b :: rest ∧ command = (state.bufs b).command := by
  cases isQueue : queue with
  | nil =>
    rw [serving.idle isQueue] at works
    cases works
  | cons b rest =>
    have busy := serving.busy b rest isQueue
    rw [works] at busy
    exact ⟨b, rest, rfl, busy⟩

theorem Serving.stepped_iderw (serving : Serving state queue)
    (stepped : step state (.iderw p b) = some next) :
    Stepped state (.iderw p b) queue (queue ++ [b]) next := by
  rw [step, Option.ite_none_right_eq_some] at stepped
  rcases stepped with ⟨⟨outside, unused⟩, called⟩
  rw [State.iderw, Option.ite_none_left_eq_some, Option.ite_none_left_eq_some,
    Option.bind_eq_some_iff] at called
  rcases called with ⟨waits, _, chain, appended, called⟩
  rw [Option.map_eq_some_iff] at called
  rcases called with ⟨after, starts, rfl⟩
  have absent : b ∉ queue := fun member => unused (serving.waiting b member).1
  have enough : queue.length < nbuf + 1 := by
    have bound := serving.chain.nodup.length_le_card
    rw [Fintype.card_fin] at bound
    exact Nat.lt_succ_of_le bound
  rcases serving.chain.append absent enough with ⟨_, isAfter, holds⟩
  cases Option.some.inj (appended.symm.trans isAfter)
  rw [State.startFirst] at starts
  cases queue with
  | nil =>
    rw [if_pos holds.listed.1, State.idestart, Option.ite_none_left_eq_some] at starts
    cases starts.2
    rw [State.await, if_neg waits]
    refine .iderw outside unused waits holds ?_ ?_
    · intro head rest same
      cases same
      rfl
    · rw [serving.started]
      simp
  | cons head rest =>
    have notFirst : chain.first ≠ some b := by
      rw [holds.listed.1]
      rintro ⟨⟩
      exact absent List.mem_cons_self
    rw [if_neg notFirst] at starts
    cases starts
    rw [State.await, if_neg waits]
    refine .iderw outside unused waits holds ?_ serving.started
    intro first later same
    cases same
    exact serving.busy head rest rfl

theorem Serving.stepped_ideintr (serving : Serving state queue)
    (stepped : step state .ideintr = some next) :
    ∃ rest, Stepped state .ideintr queue rest next := by
  rw [step] at stepped
  split at stepped
  · rename_i command register finished
    cases queue with
    | nil =>
      rw [serving.idle rfl] at finished
      cases finished
    | cons b rest =>
      have done := serving.busy b rest rfl
      rw [finished] at done
      rw [State.ideintr, serving.chain.listed.1] at stepped
      dsimp only [State.startNext] at stepped
      have later : Chain.Listed state.queue.next (state.finish b register).queue.first rest :=
        serving.chain.listed.2
      refine ⟨rest, ?_⟩
      cases rest with
      | nil =>
        rw [show (state.finish b register).queue.first = none from later] at stepped
        cases stepped
        refine .ideintr done.2 (fun _ => rfl) nofun ?_
        rw [serving.started]
        rfl
      | cons head others =>
        rw [later.1] at stepped
        dsimp only at stepped
        rw [State.idestart, Option.ite_none_left_eq_some] at stepped
        cases stepped.2
        refine .ideintr done.2 nofun ?_ ?_
        · intro first tail same
          cases same
          have different : head ≠ b := by
            rintro rfl
            exact (List.nodup_cons.mp serving.chain.nodup).1 List.mem_cons_self
          change _ = (state.bufs head).command
          rw [bufs_finish_of_ne different]
        · change state.started ++ [head] = _
          rw [serving.started, List.append_assoc]
          rfl
  · cases stepped

theorem Serving.stepped (serving : Serving state queue) (stepped : step state action = some next) :
    ∃ after, Stepped state action queue after next := by
  cases action with
  | iderw p b => exact ⟨_, serving.stepped_iderw stepped⟩
  | complete =>
    rw [step] at stepped
    split at stepped
    · rename_i command works
      cases stepped
      rcases serving.working works with ⟨b, rest, rfl, rfl⟩
      exact ⟨_, .complete⟩
    · cases stepped
  | ideintr => exact serving.stepped_ideintr stepped
  | wake p =>
    rw [step] at stepped
    split at stepped
    · rename_i b here
      cases stepped
      exact ⟨_, .moves (Or.inl rfl) (Or.inl here) (Or.inl rfl)⟩
    · cases stepped
  | resume p =>
    rw [step] at stepped
    split at stepped
    · rename_i b here
      cases stepped
      rw [State.await]
      split
      · rename_i synced
        exact ⟨_, .moves (Or.inr rfl) (Or.inr here) (Or.inr (Or.inr ⟨rfl, synced⟩))⟩
      · rename_i waits
        exact ⟨_, .moves (Or.inr rfl) (Or.inr here) (Or.inr (Or.inl ⟨rfl, waits⟩))⟩
    · cases stepped
  | edit b buf =>
    rw [step, Option.ite_none_left_eq_some, Option.some.injEq] at stepped
    rw [← stepped.2]
    exact ⟨_, .edit stepped.1 buf⟩

/-! ## The requests -/

theorem execute_busy (buf : Buf) (disk : UInt32 → UInt32 → Block) :
    Busy buf (buf.command.execute disk).1
      (.finished buf.command (buf.command.execute disk).2) := by
  refine ⟨rfl, ?_⟩
  unfold Buf.command
  cases buf.dirty with
  | true => exact put_self ..
  | false => rfl

/-- A command changes no other sector. -/
theorem execute_of_ne {other : Buf} (apart : ¬other.SamePlace buf)
    (disk : UInt32 → UInt32 → Block) :
    (buf.command.execute disk).1 other.drive other.sector = disk other.drive other.sector := by
  unfold Buf.command
  cases buf.dirty with
  | true => exact put_of_ne disk apart _
  | false => rfl

theorem control_setControl_self (control : Control nbuf) :
    (state.setControl p control).control p = control := Function.update_self ..

theorem control_setControl_of_ne {q : Fin nproc} (different : q ≠ p) (control : Control nbuf) :
    (state.setControl p control).control q = state.control q := Function.update_of_ne different ..

theorem uses_setControl {q : Fin nproc}
    (uses : ((state.setControl p control).control q).Uses c) :
    q = p ∧ control.Uses c ∨ q ≠ p ∧ (state.control q).Uses c := by
  by_cases same : q = p
  · rw [same, control_setControl_self] at uses
    exact Or.inl ⟨same, uses⟩
  · rw [control_setControl_of_ne same] at uses
    exact Or.inr ⟨same, uses⟩

theorem Control.Uses.eq (first : control.Uses b) (second : control.Uses c) : b = c := by
  rcases first with rfl | rfl
  · exact uses_asleep.mp second
  · exact uses_awake.mp second

section

variable (used : (state.control p).Uses b)
  (moved : control = .awake b ∨ control = .asleep b ∧ ¬(state.bufs b).Synced ∨
    control = .outside ∧ (state.bufs b).Synced)
include used moved

/-- Whatever a process moves to, it is in `iderw` with no other buffer. -/
theorem uses_of_moved {q : Fin nproc} (uses : ((state.setControl p control).control q).Uses c) :
    (state.control q).Uses c := by
  rcases uses_setControl uses with ⟨rfl, now⟩ | ⟨_, before⟩
  · rcases moved with rfl | ⟨rfl, _⟩ | ⟨rfl, _⟩
    · exact uses_awake.mp now ▸ used
    · exact uses_asleep.mp now ▸ used
    · exact absurd now uses_outside
  · exact before

/-- A process leaves `iderw` when its request has been served. -/
theorem Serving.moves (serving : Serving state queue) :
    Serving (state.setControl p control) queue := by
  refine ⟨serving.chain, serving.idle, serving.busy, ?_, ?_, ?_, serving.calls, serving.started⟩
  · intro c member
    rcases serving.waiting c member with ⟨⟨q, uses⟩, waits⟩
    refine ⟨⟨q, ?_⟩, waits⟩
    by_cases same : q = p
    · rw [same] at uses ⊢
      cases used.eq uses
      rw [control_setControl_self]
      rcases moved with rfl | ⟨rfl, _⟩ | ⟨_, synced⟩
      · exact Or.inr rfl
      · exact Or.inl rfl
      · exact absurd synced waits
    · rw [control_setControl_of_ne same]
      exact uses
  · intro q c uses outside
    have before := uses_of_moved used moved uses
    rcases serving.served q c before outside with ⟨wasAwake, facts⟩
    refine ⟨?_, facts⟩
    rcases uses_setControl uses with ⟨rfl, now⟩ | ⟨different, _⟩
    · rw [control_setControl_self]
      cases used.eq before
      rcases moved with rfl | ⟨_, waits⟩ | ⟨rfl, _⟩
      · rfl
      · -- a request that is not served is in the queue
        exact absurd facts.1 waits
      · exact absurd now uses_outside
    · rw [control_setControl_of_ne different]
      exact wasAwake
  · exact fun q r c first second => serving.only q r c (uses_of_moved used moved first)
      (uses_of_moved used moved second)

end

theorem bufs_setBuf_of_inUse (unused : ¬state.InUse b) (buf : Buf) {other : Fin nbuf}
    (used : state.InUse other) : (state.setBuf b buf).bufs other = state.bufs other := by
  refine Function.update_of_ne ?_ ..
  rintro rfl
  exact unused used

theorem Serving.edit (serving : Serving state queue) (unused : ¬state.InUse b) (buf : Buf) :
    Serving (state.setBuf b buf) queue := by
  have queued : ∀ other ∈ queue, (state.setBuf b buf).bufs other = state.bufs other :=
    fun other member => bufs_setBuf_of_inUse unused buf (serving.waiting other member).1
  refine ⟨serving.chain, serving.idle, ?_, ?_, ?_, serving.only, ?_, serving.started⟩
  · intro first rest isQueue
    rw [queued first (by simp [isQueue])]
    exact serving.busy first rest isQueue
  · intro other member
    rw [queued other member]
    exact serving.waiting other member
  · intro p other used outside
    rw [bufs_setBuf_of_inUse unused buf ⟨p, used⟩]
    exact serving.served p other used outside
  · refine serving.calls.trans (congrArg (state.completed ++ ·) (List.map_congr_left ?_))
    intro other member
    rw [queued other member]

theorem Serving.enqueued (serving : Serving state queue) (outside : state.control p = .outside)
    (unused : ¬state.InUse b) (waits : ¬(state.bufs b).Synced) {chain : Chain (Fin nbuf)}
    (holds : chain.Holds (queue ++ [b])) (busy : ∀ first rest, queue ++ [b] = first :: rest →
      Busy (state.bufs first) state.disk device)
    (isStarted : started = state.completed.map Request.b ++ (queue ++ [b]).take 1) :
    Serving (state.enqueued p b chain device started) (queue ++ [b]) := by
  refine ⟨holds, fun empty => absurd empty (by simp), busy, ?_, ?_, ?_, ?_, isStarted⟩
  · intro other member
    rcases List.mem_append.mp member with earlier | last
    · rcases serving.waiting other earlier with ⟨⟨q, used⟩, unsynced⟩
      have different : q ≠ p := by
        rintro rfl
        rw [outside] at used
        exact uses_outside used
      refine ⟨⟨q, ?_⟩, unsynced⟩
      rw [State.enqueued, control_setControl_of_ne different]
      exact used
    · cases List.mem_singleton.mp last
      refine ⟨⟨p, ?_⟩, waits⟩
      rw [State.enqueued, control_setControl_self]
      exact Or.inl rfl
  · intro q other used absent
    rcases uses_setControl used with ⟨_, same⟩ | ⟨different, before⟩
    · exact absurd (by simp [uses_asleep.mp same]) absent
    · rw [State.enqueued, control_setControl_of_ne different]
      exact serving.served q other before fun member => absent (List.mem_append_left _ member)
  · intro q r other first second
    rcases uses_setControl first with ⟨rfl, isB⟩ | ⟨_, used⟩
    · rcases uses_setControl second with ⟨rfl, _⟩ | ⟨_, used⟩
      · rfl
      · rw [← uses_asleep.mp isB] at used
        exact absurd ⟨r, used⟩ unused
    · rcases uses_setControl second with ⟨rfl, isB⟩ | ⟨_, usedToo⟩
      · rw [← uses_asleep.mp isB] at used
        exact absurd ⟨q, used⟩ unused
      · exact serving.only q r other used usedToo
  · change state.calls ++ [_] = _
    rw [serving.calls, List.map_append, List.append_assoc, List.map_singleton]
    rfl

theorem uses_finish (register : Block) {q : Fin nproc} :
    ((state.finish b register).control q).Uses c ↔ (state.control q).Uses c := by
  simp only [State.finish]
  split
  · rename_i sleeps
    rw [sleeps, uses_awake, uses_asleep]
  · rfl

theorem Serving.handled {rest : List (Fin nbuf)} (serving : Serving state (b :: rest))
    (idle : rest = [] → device = .idle)
    (busy : ∀ first later, rest = first :: later → Busy (state.bufs first) state.disk device)
    (isStarted : started = state.completed.map Request.b ++ b :: rest.take 1) :
    Serving (state.handled b register device started) rest := by
  have apart : b ∉ rest := (List.nodup_cons.mp serving.chain.nodup).1
  have same : ∀ other ∈ rest, (state.handled b register device started).bufs other =
      state.bufs other :=
    fun other member => bufs_finish_of_ne fun equal => apart (equal ▸ member)
  refine ⟨serving.chain.unlinkFirst, idle, ?_, ?_, ?_, ?_, ?_, ?_⟩
  · intro first later isRest
    rw [same first (by simp [isRest])]
    exact busy first later isRest
  · intro other member
    rcases serving.waiting other (List.mem_cons_of_mem b member) with ⟨⟨q, used⟩, waits⟩
    rw [same other member]
    exact ⟨⟨q, (uses_finish register).mpr used⟩, waits⟩
  · intro q other used absent
    have before : (state.control q).Uses other := (uses_finish register).mp used
    by_cases isB : other = b
    · subst isB
      refine ⟨?_, ?_, state.bufs other, List.mem_append_right _ List.mem_cons_self, ?_⟩
      · change (if state.control q = .asleep other then .awake other else state.control q) = _
        rcases before with sleeps | wakes
        · rw [if_pos sleeps]
        · rw [wakes, if_neg nofun]
      · change ((state.finish other register).bufs other).Synced
        rw [bufs_finish_self]
        exact ⟨rfl, rfl⟩
      · intro dirty
        change ((state.finish other register).bufs other).data = _
        rw [bufs_finish_self]
        exact if_pos dirty
    · rcases serving.served q other before
        (fun member => (List.mem_cons.mp member).elim isB absent) with
        ⟨awake, synced, buf, done, kept⟩
      have unchanged : (state.handled b register device started).bufs other = state.bufs other :=
        bufs_finish_of_ne isB
      rw [unchanged]
      refine ⟨?_, synced, buf, List.mem_append_left _ done, kept⟩
      change (if state.control q = .asleep b then .awake b else state.control q) = _
      rw [awake, if_neg nofun]
  · exact fun q r other first second =>
      serving.only q r other ((uses_finish register).mp first) ((uses_finish register).mp second)
  · have rest_same : rest.map (fun other => (⟨other, (state.handled b register device
        started).bufs other⟩ : Request nbuf)) = rest.map fun other => ⟨other, state.bufs other⟩ :=
      List.map_congr_left fun other member => by rw [same other member]
    rw [rest_same]
    change state.calls = state.completed ++ [_] ++ _
    rw [serving.calls, List.map_cons, List.append_assoc]
    rfl
  · change started = (state.completed ++ [_]).map Request.b ++ _
    rw [isStarted, List.map_append, List.append_assoc]
    rfl

theorem Stepped.serving (stepped : Stepped state action queue after next)
    (serving : Serving state queue) : Serving next after := by
  cases stepped with
  | iderw outside unused waits holds busy isStarted =>
    exact serving.enqueued outside unused waits holds busy isStarted
  | complete =>
    refine ⟨serving.chain, nofun, ?_, serving.waiting, serving.served, serving.only,
      serving.calls, serving.started⟩
    intro first later same
    cases same
    exact execute_busy _ _
  | ideintr _ idle busy isStarted => exact serving.handled idle busy isStarted
  | moves _ used moved => exact serving.moves used moved
  | edit unused buf => exact serving.edit unused buf

/-! ## Returns -/

/-- A process that is in `iderw` returns from it only by the test of the loop. -/
theorem Stepped.returns (stepped : Stepped state action queue after next)
    (inside : (state.control p).Uses b) (outside : next.control p = .outside) :
    (state.bufs b).Synced ∧ next = state.setControl p .outside := by
  have remains : state.control p ≠ .outside := fun left => uses_outside (left ▸ inside)
  cases stepped with
  | @iderw q _ _ _ _ _ wasOutside =>
    have different : p ≠ q := fun same => remains (same ▸ wasOutside)
    rw [State.enqueued, control_setControl_of_ne different] at outside
    exact absurd outside remains
  | complete | edit => exact absurd outside remains
  | @ideintr c register =>
    have used : ((state.finish c register).control p).Uses b :=
      (uses_finish register).mpr inside
    rw [show (state.finish c register).control p = .outside from outside] at used
    exact absurd used uses_outside
  | @moves q _ _ _ _ _ used moved =>
    by_cases same : p = q
    · subst same
      rw [control_setControl_self] at outside
      cases used.eq inside
      rcases moved with rfl | ⟨rfl, _⟩ | ⟨rfl, synced⟩
      · cases outside
      · cases outside
      · exact ⟨synced, rfl⟩
    · rw [control_setControl_of_ne same] at outside
      exact absurd outside remains

theorem Stepped.completes (stepped : Stepped state action queue after next) {request : Request nbuf}
    (completed : next.completed = state.completed ++ [request]) :
    queue.head? = some request.b ∧ request.buf = state.bufs request.b ∧
      next.bufs request.b = { request.buf with
        data := next.disk request.buf.drive request.buf.sector
        valid := true
        dirty := false } ∧
      (request.buf.dirty = true → (next.bufs request.b).data = request.buf.data) := by
  have grows : next.completed ≠ state.completed := by
    rw [completed]
    simp
  cases stepped with
  | iderw | complete | moves | edit => exact absurd rfl grows
  | @ideintr b register _ device started done =>
    have isRequest : request = ⟨b, state.bufs b⟩ :=
      List.singleton_injective (List.append_cancel_left completed).symm
    subst isRequest
    have after : (state.handled b register device started).bufs b = _ := bufs_finish_self register
    rw [← done] at after
    refine ⟨rfl, rfl, after, fun dirty => ?_⟩
    rw [after]
    change state.disk (state.bufs b).drive (state.bufs b).sector = (state.bufs b).data
    rw [done, if_pos dirty]

/-! ## Buffers for different sectors -/

/-- The buffers for which `iderw` is called at the same time are for different sectors. -/
def Distinct (state : State nbuf nproc) : Action nbuf nproc → Prop
  | .iderw _ b => ∀ p other, (state.control p).Uses other →
      ¬(state.bufs other).SamePlace (state.bufs b)
  | _ => True

/-- A buffer whose request has been served agrees with the disk. -/
structure Current (state : State nbuf nproc) (queue : List (Fin nbuf)) : Prop where
  apart : ∀ b c, state.InUse b → state.InUse c → b ≠ c →
    ¬(state.bufs b).SamePlace (state.bufs c)
  data : ∀ b, state.InUse b → b ∉ queue →
    (state.bufs b).data = state.disk (state.bufs b).drive (state.bufs b).sector

theorem Current.iderw (current : Current state queue)
    (fresh : ∀ c, state.InUse c → ¬(state.bufs c).SamePlace (state.bufs b))
    {chain : Chain (Fin nbuf)} :
    Current (state.enqueued p b chain device started) (queue ++ [b]) := by
  have used : ∀ c, (state.enqueued p b chain device started).InUse c → c = b ∨ state.InUse c := by
    rintro c ⟨q, uses⟩
    rcases uses_setControl uses with ⟨_, same⟩ | ⟨_, before⟩
    · exact Or.inl (uses_asleep.mp same).symm
    · exact Or.inr ⟨q, before⟩
  refine ⟨fun c d first second different => ?_, fun c first absent => ?_⟩
  · rcases used c first with rfl | before
    · rcases used d second with rfl | other
      · exact absurd rfl different
      · exact fun same => fresh d other ⟨same.1.symm, same.2.symm⟩
    · rcases used d second with rfl | other
      · exact fresh c before
      · exact current.apart c d before other different
  · rcases used c first with rfl | before
    · exact absurd (List.mem_append_right _ List.mem_cons_self) absent
    · exact current.data c before fun member => absent (List.mem_append_left _ member)

theorem Current.handled {rest : List (Fin nbuf)} (current : Current state (b :: rest))
    (done : state.disk (state.bufs b).drive (state.bufs b).sector =
      if (state.bufs b).dirty then (state.bufs b).data else register) :
    Current (state.handled b register device started) rest := by
  have uses : ∀ c, (state.handled b register device started).InUse c → state.InUse c :=
    fun c ⟨q, used⟩ => ⟨q, (uses_finish register).mp used⟩
  have place : ∀ c,
      c ≠ b ∧ (state.handled b register device started).bufs c = state.bufs c ∨
      c = b ∧ (state.handled b register device started).bufs c = { state.bufs b with
        data := state.disk (state.bufs b).drive (state.bufs b).sector
        valid := true
        dirty := false } := by
    intro c
    by_cases same : c = b
    · subst same
      rw [done]
      exact Or.inr ⟨rfl, bufs_finish_self register⟩
    · exact Or.inl ⟨same, bufs_finish_of_ne same⟩
  have samePlace : ∀ c, ((state.handled b register device started).bufs c).drive =
      (state.bufs c).drive ∧ ((state.handled b register device started).bufs c).sector =
      (state.bufs c).sector := by
    intro c
    rcases place c with ⟨_, same⟩ | ⟨rfl, changed⟩
    · rw [same]
      exact ⟨rfl, rfl⟩
    · rw [changed]
      exact ⟨rfl, rfl⟩
  refine ⟨fun c d first second different => ?_, fun c used absent => ?_⟩
  · have before := current.apart c d (uses c first) (uses d second) different
    rw [Buf.SamePlace, (samePlace c).1, (samePlace c).2, (samePlace d).1, (samePlace d).2]
    exact before
  · rw [(samePlace c).1, (samePlace c).2]
    rcases place c with ⟨different, same⟩ | ⟨rfl, changed⟩
    · rw [same]
      exact current.data c (uses c used)
        fun member => (List.mem_cons.mp member).elim different absent
    · rw [changed]
      rfl

theorem Stepped.current (stepped : Stepped state action queue after next)
    (serving : Serving state queue) (current : Current state queue)
    (distinct : Distinct state action) : Current next after := by
  cases stepped with
  | iderw => exact current.iderw fun c ⟨q, uses⟩ => distinct q c uses
  | @complete b =>
    refine ⟨current.apart, fun c used absent => ?_⟩
    have different : c ≠ b := fun same => absent (by simp [same])
    have apart := current.apart c b used (serving.waiting b List.mem_cons_self).1 different
    exact (current.data c used absent).trans (execute_of_ne apart state.disk).symm
  | ideintr done => exact current.handled done
  | @moves p _ _ _ control _ used moved =>
    have uses : ∀ c, (state.setControl p control).InUse c → state.InUse c :=
      fun c ⟨q, uses⟩ => ⟨q, uses_of_moved used moved uses⟩
    exact ⟨fun c d first second => current.apart c d (uses c first) (uses d second),
      fun c used => current.data c (uses c used)⟩
  | edit unused buf =>
    refine ⟨fun c d first second => ?_, fun c used => ?_⟩
    · rw [bufs_setBuf_of_inUse unused buf first, bufs_setBuf_of_inUse unused buf second]
      exact current.apart c d first second
    · rw [bufs_setBuf_of_inUse unused buf used]
      exact current.data c used

end

/-! ## Runs -/

section

variable {bufs : Fin nbuf → Buf} {disk : UInt32 → UInt32 → Block} {havedisk1 : Bool}
  {state next : State nbuf nproc}

theorem serving_start : Serving (start nbuf nproc bufs disk havedisk1) [] where
  chain := ⟨rfl, List.nodup_nil⟩
  idle := fun _ => rfl
  busy := nofun
  waiting := fun _ member => absurd member List.not_mem_nil
  served := fun _ _ used => absurd used uses_outside
  only := fun _ _ _ used => absurd used uses_outside
  calls := rfl
  started := rfl

theorem serving_of_reachable
    (reachable : Reachable step Unrestricted (start nbuf nproc bufs disk havedisk1) state) :
    ∃ queue, Serving state queue := by
  refine Reachable.invariant (fun state => ∃ queue, Serving state queue) ?_ ⟨[], serving_start⟩
    reachable
  rintro state action next ⟨queue, serving⟩ _ stepped
  exact (serving.stepped stepped).imp fun _ stepped => stepped.serving serving

theorem current_of_reachable
    (reachable : Reachable step Distinct (start nbuf nproc bufs disk havedisk1) state) :
    ∃ queue, Serving state queue ∧ Current state queue := by
  refine Reachable.invariant (fun state => ∃ queue, Serving state queue ∧ Current state queue) ?_
    ⟨[], serving_start, ⟨fun _ _ ⟨_, used⟩ => absurd used uses_outside,
      fun _ ⟨_, used⟩ => absurd used uses_outside⟩⟩ reachable
  rintro state action next ⟨queue, serving, current⟩ distinct stepped
  exact (serving.stepped stepped).imp fun _ stepped =>
    ⟨stepped.serving serving, stepped.current serving current distinct⟩

theorem Serving.mem_iff {queue : List (Fin nbuf)} (serving : Serving state queue) (b : Fin nbuf) :
    b ∈ queue ↔ state.InUse b ∧ ¬(state.bufs b).Synced := by
  constructor
  · exact serving.waiting b
  · rintro ⟨⟨p, used⟩, waits⟩
    by_contra absent
    exact waits (serving.served p b used absent).2.1

theorem Serving.idle_iff {queue : List (Fin nbuf)} (serving : Serving state queue) :
    state.device = .idle ↔ queue = [] := by
  refine ⟨fun isIdle => ?_, serving.idle⟩
  cases isQueue : queue with
  | nil => rfl
  | cons b rest =>
    have busy := serving.busy b rest isQueue
    rw [isIdle] at busy
    exact busy.elim

end

/-- The disk queue serves every request once and in order. Whenever `idelock` is free, the
queue has no duplicates and holds the buffers whose requests are not completed, and the
device is busy exactly if it is not empty, with its first request; the requests that are
completed and then those in the queue are the calls of `iderw` in order, each of them with
the contents that its buffer had at the call; and `idestart` has been called once for each
of the completed ones, and once for the first of the queue. No process sleeps for a request
that is completed. A request that is completed leaves its buffer valid, not dirty, and with
the data of its sector, which are those of the buffer if it was dirty. This is so when
`iderw` returns, and the data are still those of the sector if no other buffer is for the
same one. -/
theorem disk_queue_serves (nbuf nproc : Nat) (bufs : Fin nbuf → Buf)
    (disk : UInt32 → UInt32 → Block) (havedisk1 : Bool) (state : State nbuf nproc)
    (reachable : Reachable step Unrestricted (start nbuf nproc bufs disk havedisk1) state) :
    ∃ queue : List (Fin nbuf), state.queue.Holds queue ∧
      (∀ b, b ∈ queue ↔ state.InUse b ∧ ¬(state.bufs b).Synced) ∧
      (state.device = .idle ↔ queue = []) ∧
      (∀ b rest, queue = b :: rest → Busy (state.bufs b) state.disk state.device) ∧
      state.calls = state.completed ++ queue.map (fun b => ⟨b, state.bufs b⟩) ∧
      state.started = state.completed.map Request.b ++ queue.take 1 ∧
      (∀ p b, state.control p = .asleep b → b ∈ queue) ∧
      ∀ action next, step state action = some next →
        (∀ request, next.completed = state.completed ++ [request] →
          queue.head? = some request.b ∧ request.buf = state.bufs request.b ∧
          next.bufs request.b = { request.buf with
            data := next.disk request.buf.drive request.buf.sector
            valid := true
            dirty := false } ∧
          (request.buf.dirty = true → (next.bufs request.b).data = request.buf.data)) ∧
        ∀ p b, (state.control p).Uses b → next.control p = .outside →
          (next.bufs b).Synced ∧
          (∃ buf, ⟨b, buf⟩ ∈ next.completed ∧
            (buf.dirty = true → (next.bufs b).data = buf.data)) ∧
          (Reachable step Distinct (start nbuf nproc bufs disk havedisk1) state →
            (next.bufs b).data = next.disk (next.bufs b).drive (next.bufs b).sector) := by
  rcases serving_of_reachable reachable with ⟨queue, serving⟩
  refine ⟨queue, serving.chain, serving.mem_iff, serving.idle_iff, serving.busy, serving.calls,
    serving.started, ?_, fun action next stepped => ?_⟩
  · intro p b sleeps
    by_contra absent
    have awake := (serving.served p b (Or.inl sleeps) absent).1
    rw [sleeps] at awake
    cases awake
  · rcases serving.stepped stepped with ⟨after, stepped⟩
    refine ⟨fun request completed => stepped.completes completed, fun p b used outside => ?_⟩
    rcases stepped.returns used outside with ⟨synced, rfl⟩
    have absent : b ∉ queue := fun member => (serving.waiting b member).2 synced
    refine ⟨synced, (serving.served p b used absent).2.2, fun distinct => ?_⟩
    rcases current_of_reachable distinct with ⟨other, otherServing, current⟩
    exact current.data b ⟨p, used⟩ fun member => (otherServing.waiting b member).2 synced

/-- Two processes: the first one reads a block, the second one writes another. -/
def readAndWrite : List (Action 2 2) :=
  [.iderw 0 0, .iderw 1 1, .complete, .wake 0, .resume 0, .ideintr, .complete, .ideintr]

def twoBufs : Fin 2 → Buf
  | 0 => ⟨1, 2, false, false, Bytes.zero BSIZE⟩
  | 1 => ⟨1, 3, true, true, Bytes.zero BSIZE⟩

theorem disk_queue_serves_two :
    ∃ state : State 2 2,
      Reachable step Unrestricted (start 2 2 twoBufs (fun _ _ => Bytes.zero BSIZE) true) state ∧
      state.control 0 = .awake 0 ∧ state.started = [0, 1] ∧ state.device = .idle ∧
      ∃ queue : List (Fin 2), state.queue.Holds queue ∧ queue = [] ∧
        state.calls = state.completed := by
  rcases exists_reachable step Unrestricted (start 2 2 twoBufs (fun _ _ => Bytes.zero BSIZE) true)
      readAndWrite (fun state => state.control 0 = .awake 0 ∧ state.started = [0, 1] ∧
        (match state.device with | .idle => true | _ => false) = true) (by decide +kernel) with
    ⟨state, reachable, awake, started, idle⟩
  have isIdle : state.device = .idle := by
    split at idle
    · assumption
    · cases idle
  rcases disk_queue_serves 2 2 _ _ _ state reachable with
    ⟨queue, holds, _, idleIff, _, calls, _⟩
  have empty := idleIff.mp isIdle
  rw [empty, List.map_nil, List.append_nil] at calls
  exact ⟨state, reachable, awake, started, isIdle, queue, holds, empty, calls⟩

end Xv6.Ide
