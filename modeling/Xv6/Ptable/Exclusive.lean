import Xv6.Ptable.Steps

/-! # Exclusive execution

A process is executed by at most one processor, and what is not executed has its
context saved. While a `swtch` is under way its processor holds `ptable.lock`, so this
holds whenever the lock is free.
-/

namespace Xv6.Ptable

open Transition
open Function (update update_self update_of_ne update_apply)

variable {nproc ncpu : Nat}

variable {point : Point nproc} {new : Cpu nproc}

namespace ProcState

/-- A process that has given up its processor. -/
@[grind]
def Off : ProcState → Prop
  | .sleeping | .runnable | .zombie => True
  | .unused | .embryo | .running => False

/-- A process that has been created and has not exited. -/
@[grind]
def Alive : ProcState → Prop
  | .sleeping | .runnable | .running => True
  | .unused | .embryo | .zombie => False

end ProcState

/-- Between `swtch` and the release of the lock, on either side. -/
@[grind]
def Control.InSection : Control nproc → Prop
  | .switchedBack | .thread _ (some _) => True
  | .scheduler | .thread _ none => False

/-- The slot of the child that a process is about to create. -/
@[grind]
def Point.child : Point nproc → Option (Fin nproc)
  | .outside => none
  | .allocated np | .stacked np | .copied np => some np

/-- The slots that `fork` is filling in belong to one process each. -/
structure Forking (table : Table nproc) : Prop where
  idle : ∀ p, ¬(table p).state.Alive → (table p).point = .outside
  embryo : ∀ p np, (table p).point.child = some np → (table np).state = .embryo
  unique : ∀ p q np, (table p).point.child = some np → (table q).point.child = some np → p = q
  context : ∀ p np, (table p).point = .stacked np ∨ (table p).point = .copied np →
    (table np).context ≠ none

/-- Threads and processors, with the lock that is handed over in between. -/
structure Exclusive (table : Table nproc) (cpus : Fin ncpu → Cpu nproc)
    (lock : Option (Fin ncpu)) : Prop where
  thread : ∀ c p resumed, (cpus c).control = .thread p resumed →
    (cpus c).proc = some p ∧ (cpus c).cr3 = some p ∧ (table p).state = .running
  scheduler : ∀ c, (cpus c).control = .scheduler → (cpus c).proc = none ∧ (cpus c).cr3 = none
  holder : ∀ c, (cpus c).control.InSection ↔ lock = some c
  running : ∀ p, (table p).state = .running → ∃ c resumed, (cpus c).control = .thread p resumed
  unique : ∀ c d p first second, (cpus c).control = .thread p first →
    (cpus d).control = .thread p second → c = d
  saved : ∀ p, (table p).state.Off → (table p).context ≠ none

/-! ## Processes that fork -/

section

variable {before after : Table nproc} {p np : Fin nproc}

theorem Point.child_of_late (late : point = .stacked np ∨ point = .copied np) :
    point.child = some np := by
  grind

theorem Forking.child (forking : Forking before) (isChild : (before p).point.child = some np) :
    (before np).state = .embryo ∧ ∀ q, q ≠ p → (before q).point.child ≠ some np :=
  ⟨forking.embryo p np isChild, fun q different other =>
    different (forking.unique q p np other isChild)⟩

theorem Forking.keep (forking : Forking before) (point : ∀ q, (after q).point = (before q).point)
    (idle : ∀ q, ¬(after q).state.Alive → ¬(before q).state.Alive ∨ (before q).point = .outside)
    (embryo : ∀ q, (before q).state = .embryo →
      (after q).state = .embryo ∧ (after q).context = (before q).context) : Forking after := by
  rcases forking with ⟨wasIdle, wasEmbryo, wasUnique, wasContext⟩
  constructor
  all_goals grind

/-- Process `p` moves on in `fork`, or leaves it. -/
theorem Forking.advance (forking : Forking before) {change : Proc nproc → Proc nproc}
    (alive : (before p).state.Alive) (unborn : ¬(before np).state.Alive)
    (owned : ∀ q, q ≠ p → (before q).point.child ≠ some np)
    (bare : (change (before np)).point = .outside)
    (own : point.child = none ∨ point.child = some np ∧ (change (before np)).state = .embryo ∧
      (point = .stacked np ∨ point = .copied np → (change (before np)).context ≠ none)) :
    Forking (before.fill p np change point) := by
  have different : np ≠ p := by
    intro same
    rw [same] at unborn
    exact unborn alive
  rcases forking with ⟨idle, embryo, unique, context⟩
  constructor
  all_goals grind

end

/-! ## Processors -/

section

variable {before after : Table nproc} {cpus : Fin ncpu → Cpu nproc} {lock : Option (Fin ncpu)}
  {c : Fin ncpu} {p : Fin nproc} {resumed : Option Resume}

theorem Exclusive.quiet (exclusive : Exclusive before cpus lock)
    (running : ∀ q, (after q).state = .running ↔ (before q).state = .running)
    (saved : ∀ q, (after q).state.Off → (after q).context ≠ none) :
    Exclusive after cpus lock where
  thread := by
    intro d q resumed control
    rw [running]
    exact exclusive.thread d q resumed control
  scheduler := exclusive.scheduler
  holder := exclusive.holder
  running := by
    intro q isRunning
    exact exclusive.running q ((running q).mp isRunning)
  unique := exclusive.unique
  saved := saved

theorem Exclusive.not_inSection (exclusive : Exclusive before cpus lock)
    (own : lock = none ∨ lock = some c) {d : Fin ncpu} (different : d ≠ c) :
    ¬(cpus d).control.InSection := by
  rw [exclusive.holder d]
  grind

/-- What a processor may be changed to, given what it executed before. -/
structure Replaces (before after : Table nproc) (old new : Cpu nproc) (lock : Option (Fin ncpu))
    (c : Fin ncpu) : Prop where
  thread : ∀ p resumed, new.control = .thread p resumed → new.proc = some p ∧ new.cr3 = some p
  scheduler : new.control = .scheduler → new.proc = none ∧ new.cr3 = none
  holder : new.control.InSection ↔ lock = some c
  others : lock = none ∨ lock = some c
  running : ∀ p, (after p).state = .running ↔
    (∃ resumed, new.control = .thread p resumed) ∨
      ((before p).state = .running ∧ ∀ resumed, old.control ≠ .thread p resumed)
  fresh : ∀ p resumed, new.control = .thread p resumed →
    (before p).state = .running → ∃ resumed, old.control = .thread p resumed

section

variable (exclusive : Exclusive before cpus lock)
include exclusive

theorem Exclusive.replace {after : Table nproc} {newLock : Option (Fin ncpu)}
    (own : lock = none ∨ lock = some c) (replaces : Replaces before after (cpus c) new newLock c)
    (saved : ∀ q, (after q).state.Off → (after q).context ≠ none) :
    Exclusive after (update cpus c new) newLock := by
  -- A process that another processor executes is not executed by this one.
  have elsewhere : ∀ d, d ≠ c → ∀ q other, (cpus d).control = .thread q other →
      (before q).state = .running ∧ ∀ resumed, (cpus c).control ≠ .thread q resumed := by
    intro d different q other isThread
    constructor
    · exact (exclusive.thread d q other isThread).2.2
    · intro resumed mine
      exact different (exclusive.unique d c q other resumed isThread mine)
  have others : ∀ d, d ≠ c → ¬(cpus d).control.InSection :=
    fun d => exclusive.not_inSection own
  rcases exclusive with ⟨thread, scheduler, holder, running, unique, _⟩
  rcases replaces with ⟨newThread, newScheduler, newHolder, newOthers, newRunning, fresh⟩
  constructor
  · grind [update_apply]
  · grind [update_apply]
  · grind [update_apply]
  · intro q isRunning
    rcases (newRunning q).mp isRunning with ⟨resumed, isThread⟩ | ⟨wasRunning, notMine⟩
    · exact ⟨c, resumed, by rw [update_self]; exact isThread⟩
    · rcases running q wasRunning with ⟨d, other, isThread⟩
      have different : d ≠ c := by
        intro same
        rw [same] at isThread
        exact notMine other isThread
      exact ⟨d, other, by rw [update_of_ne different]; exact isThread⟩
  · grind [update_apply]
  · exact saved

theorem Exclusive.proceed (control : (cpus c).control = .thread p resumed)
    (own : lock = none ∨ lock = some c) :
    Exclusive before (update cpus c { cpus c with control := .thread p none }) none := by
  have current := exclusive.thread c p resumed control
  refine exclusive.replace own ?_ exclusive.saved
  constructor
  all_goals grind

theorem Exclusive.sched (control : (cpus c).control = .thread p resumed)
    (own : lock = none ∨ lock = some c) (off : (after p).state.Off)
    (running : ∀ q, q ≠ p → ((after q).state = .running ↔ (before q).state = .running))
    (saved : ∀ q, (after q).state.Off → (after q).context ≠ none) :
    Exclusive after (update cpus c { cpus c with control := .switchedBack }) (some c) := by
  refine exclusive.replace own ?_ saved
  constructor
  all_goals grind

theorem Exclusive.dispatch {resume : Resume} (control : (cpus c).control = .scheduler)
    (free : lock = none) (runnable : (before p).state = .runnable)
    (isNew : new.proc = some p ∧ new.cr3 = some p ∧ new.control = .thread p (some resume))
    (started : (after p).state = .running)
    (running : ∀ q, q ≠ p → ((after q).state = .running ↔ (before q).state = .running))
    (saved : ∀ q, (after q).state.Off → (after q).context ≠ none) :
    Exclusive after (update cpus c new) (some c) := by
  refine exclusive.replace (Or.inl free) ?_ saved
  constructor
  all_goals grind

/-- A round of the scheduler in which no process is chosen, or the end of one. -/
theorem Exclusive.toScheduler (new : Cpu nproc) (own : lock = none ∨ lock = some c)
    (old : (cpus c).control = .scheduler ∨ (cpus c).control = .switchedBack)
    (isNew : new.proc = none ∧ new.cr3 = none ∧ new.control = .scheduler) :
    Exclusive before (update cpus c new) none := by
  refine exclusive.replace own ?_ exclusive.saved
  constructor
  all_goals grind

end

end

/-! ## Steps -/

structure Sound (table : Table nproc) (cpus : Fin ncpu → Cpu nproc) (lock : Option (Fin ncpu)) :
    Prop where
  exclusive : Exclusive table cpus lock
  forking : Forking table

/-- Nothing happens to the processes, except that some are woken up. -/
structure Harmless (before after : Table nproc) : Prop where
  state : ∀ q, (after q).state = (before q).state ∨
    (before q).state = .sleeping ∧ (after q).state = .runnable
  context : ∀ q, (after q).context = (before q).context
  point : ∀ q, (after q).point = (before q).point

section

variable {before after : Table nproc} {cpus : Fin ncpu → Cpu nproc} {lock : Option (Fin ncpu)}
  {c : Fin ncpu} {p : Fin nproc} {resumed : Option Resume}

theorem Harmless.of_state (state : ∀ q, (after q).state = (before q).state)
    (context : ∀ q, (after q).context = (before q).context)
    (point : ∀ q, (after q).point = (before q).point) : Harmless before after :=
  ⟨fun q => Or.inl (state q), context, point⟩

theorem Light.harmless (light : Light before after) : Harmless before after where
  state := fun q => (light q).state
  context := by
    intro q
    rw [(light q).eq]
  point := by
    intro q
    rw [(light q).eq]

theorem Harmless.fault (table : Table nproc) (p : Fin nproc) :
    Harmless table (table.modify p fun proc => { proc with killed := true }) := by
  constructor
  all_goals grind

theorem Harmless.kill (table : Table nproc) (pid : Int32) : Harmless table (table.kill pid).1 := by
  constructor
  all_goals grind [Table.kill_apply]

theorem Harmless.exitTable (state : State nproc ncpu) (p : Fin nproc) :
    Harmless state.table (state.exitTable p) := by
  constructor
  · intro q
    exact (state.exited_exitTable q).kept
  · intro q
    rw [(state.exited_exitTable q).eq]
  · intro q
    rw [(state.exited_exitTable q).eq]

section

variable (harmless : Harmless before after) (q : Fin nproc)
include harmless q

theorem Harmless.running :
    (after q).state = .running ↔ (before q).state = .running := by
  have state := harmless.state q
  grind

theorem Harmless.off (off : (after q).state.Off) : (before q).state.Off := by
  have state := harmless.state q
  grind

theorem Harmless.alive (alive : (before q).state.Alive) : (after q).state.Alive := by
  have state := harmless.state q
  grind

theorem Harmless.embryo (embryo : (before q).state = .embryo) : (after q).state = .embryo := by
  have state := harmless.state q
  grind

end

section

variable (sound : Sound before cpus lock)
include sound

theorem Sound.harmless (harmless : Harmless before after) :
    Sound after cpus lock where
  exclusive := by
    apply sound.exclusive.quiet harmless.running
    intro q off
    rw [harmless.context]
    exact sound.exclusive.saved q (harmless.off q off)
  forking := by
    apply sound.forking.keep harmless.point
    · intro q dead
      exact Or.inl fun alive => dead (harmless.alive q alive)
    · intro q embryo
      exact ⟨harmless.embryo q embryo, harmless.context q⟩

theorem Sound.light (light : Light before after) : Sound after cpus lock :=
  sound.harmless light.harmless

theorem Sound.proceed (control : (cpus c).control = .thread p resumed)
    (own : lock = none ∨ lock = some c) :
    Sound before (update cpus c { cpus c with control := .thread p none }) none :=
  ⟨sound.exclusive.proceed control own, sound.forking⟩

theorem Sound.sched (control : (cpus c).control = .thread p resumed)
    (own : lock = none ∨ lock = some c) (off : (after p).state.Off)
    (context : (after p).context ≠ none) (point : (after p).point = (before p).point)
    (idle : ¬(after p).state.Alive → (before p).point = .outside)
    (others : ∀ q, q ≠ p → after q = before q) :
    Sound after (update cpus c { cpus c with control := .switchedBack }) (some c) := by
  have running := (sound.exclusive.thread c p resumed control).2.2
  have saved := sound.exclusive.saved
  constructor
  · apply sound.exclusive.sched control own off
    all_goals grind
  · apply sound.forking.keep
    all_goals grind

theorem Sound.dispatch {resume : Resume} (control : (cpus c).control = .scheduler)
    (free : lock = none) (runnable : (before p).state = .runnable)
    (isNew : new.proc = some p ∧ new.cr3 = some p ∧ new.control = .thread p (some resume)) :
    Sound (before.modify p fun proc => { proc with state := .running, context := none })
      (update cpus c new) (some c) := by
  have saved := sound.exclusive.saved
  constructor
  · apply sound.exclusive.dispatch control free runnable isNew
    all_goals grind
  · apply sound.forking.keep
    all_goals grind

theorem Sound.reap {child : Fin nproc}
    (zombie : (before child).state = .zombie) : Sound (before.reap child) cpus lock := by
  have saved := sound.exclusive.saved
  constructor
  · apply sound.exclusive.quiet
    all_goals grind
  · apply sound.forking.keep
    all_goals grind

/-- The step of a process that is in `fork`. -/
theorem Sound.advance (control : (cpus c).control = .thread p resumed) {np : Fin nproc}
    {change : Proc nproc → Proc nproc}
    (unborn : (before np).state = .unused ∨ (before np).state = .embryo)
    (owned : ∀ q, q ≠ p → (before q).point.child ≠ some np)
    (samePoint : (change (before np)).point = (before np).point ∨
      (change (before np)).point = .outside) (notRunning : (change (before np)).state ≠ .running)
    (saved : (change (before np)).state.Off → (change (before np)).context ≠ none)
    (own : point.child = none ∨ point.child = some np ∧ (change (before np)).state = .embryo ∧
      (point = .stacked np ∨ point = .copied np → (change (before np)).context ≠ none)) :
    Sound (before.fill p np change point) cpus lock := by
  have running := (sound.exclusive.thread c p resumed control).2.2
  have alive : (before p).state.Alive := by grind
  have dead : ¬(before np).state.Alive := by grind
  have different : np ≠ p := by
    intro same
    rw [same] at dead
    exact dead alive
  have bare : (change (before np)).point = .outside := by
    have idle := sound.forking.idle np dead
    grind
  constructor
  · have wasSaved := sound.exclusive.saved
    apply sound.exclusive.quiet
    all_goals grind
  · exact sound.forking.advance alive dead owned bare own

end

end

/-! ## Every step -/

section

variable {state next entered : State nproc ncpu} {c : Fin ncpu} {p : Fin nproc}
  {action : Action nproc} {call : WaitCall}

/-- At the head of the loop of `wait` the lock is held. -/
theorem Entering.sound (entering : Entering state c p call action entered)
    (sound : Sound state.table state.cpus state.lock) :
    Sound entered.table entered.cpus state.lock ∧ (state.lock = none ∨ state.lock = some c) ∧
      entered.cpus = state.cpus ∧ entered.lock = some c ∧
      ∃ resumed, (state.cpus c).control = .thread p resumed := by
  cases entering with
  | call control free _ => exact ⟨sound, Or.inl free, rfl, rfl, none, control⟩
  | woken control =>
    have held := (sound.exclusive.holder c).mp (by rw [control]; trivial)
    exact ⟨sound.light (.clearChan state.table p), Or.inr held, rfl, held, _, control⟩

theorem Stepped.sound (stepped : Stepped state c action next)
    (sound : Sound state.table state.cpus state.lock) :
    Sound next.table next.cpus next.lock := by
  have held : (state.cpus c).control.InSection → state.lock = none ∨ state.lock = some c :=
    fun inside => Or.inr ((sound.exclusive.holder c).mp inside)
  cases stepped with
  | idle control free nobody =>
    have ticketed := sound.light (.tickets state c)
    have stopped := ticketed.exclusive.scheduler c control
    refine ⟨?_, ticketed.forking⟩
    change Exclusive (state.tickets c).1 (update state.cpus c _) state.lock
    rw [free]
    exact ticketed.exclusive.toScheduler _ (Or.inl free) (Or.inl control)
      ⟨stopped.1, stopped.2, control⟩
  | @dispatch p control free drawn =>
    have ticketed := sound.light (.tickets state c)
    have runnable := Table.runnable_of_findTicket drawn
    have saved := ticketed.exclusive.saved p (by rw [runnable]; trivial)
    rcases Option.ne_none_iff_exists'.mp saved with ⟨resume, context⟩
    exact ticketed.dispatch control free runnable
      ⟨rfl, rfl, congrArg (Control.thread p) context⟩
  | finish control =>
    have own := held (by rw [control]; trivial)
    exact ⟨sound.exclusive.toScheduler _ own (Or.inr control) ⟨rfl, rfl, rfl⟩, sound.forking⟩
  | forkret control | yielded control =>
    exact sound.proceed control (held (by rw [control]; trivial))
  | @slept p control =>
    exact (sound.light (.clearChan state.table p)).proceed control
      (held (by rw [control]; trivial))
  | @reap p child call action entered entering found =>
    rcases entering.sound sound with ⟨soundEntered, own, same, taken, resumed, control⟩
    rw [← same] at control
    exact (soundEntered.reap (Table.zombieChild_some found).2).proceed control own
  | @waitFails p call action entered entering none stops =>
    rcases entering.sound sound with ⟨soundEntered, own, same, taken, resumed, control⟩
    rw [← same] at control
    exact soundEntered.proceed control own
  | @waitSleeps p call action entered entering none waits =>
    rcases entering.sound sound with ⟨soundEntered, own, same, taken, resumed, control⟩
    rw [← same] at control
    change Sound _ _ entered.lock
    rw [taken]
    apply soundEntered.sched control own
    all_goals grind
  | wakeup address free => exact sound.light (.wakeup1 _ _)
  | tick free =>
    exact sound.harmless (.of_state (fun _ => rfl) (fun _ => rfl) (fun _ => rfl))
  | @yield p control free | @sleep p address control free outside =>
    apply sound.sched control (Or.inl free)
    all_goals grind
  | @exit p status control free outside notInit =>
    have harmless : Harmless state.table (state.exitTable p) := .exitTable state p
    have point := harmless.point p
    apply (sound.harmless harmless).sched control (Or.inl free)
    all_goals grind
  | allocFails control free full => exact sound
  | @allocproc p np control free outside found =>
    have unused := Table.unused_of_firstUnused found
    have embryo := sound.forking.embryo
    apply sound.advance control (Or.inl unused)
    all_goals grind
  | @allocStack p np available control point =>
    rcases sound.forking.child (by rw [point]; rfl) with ⟨embryo, owned⟩
    cases available with
    | true | false =>
      apply sound.advance control (Or.inr embryo) owned
      all_goals grind
  | @copyProcess p np available control point =>
    rcases sound.forking.child (by rw [point]; rfl) with ⟨embryo, owned⟩
    have context := sound.forking.context p np (Or.inl point)
    cases available with
    | true | false =>
      apply sound.advance control (Or.inr embryo) owned
      all_goals grind
  | @publish p np control free point =>
    rcases sound.forking.child (by rw [point]; rfl) with ⟨embryo, owned⟩
    have context := sound.forking.context p np (Or.inr point)
    apply sound.advance control (Or.inr embryo) owned
    all_goals grind
  | kill pid control free outside => exact sound.harmless (.kill _ _)
  | @fault p control outside =>
    exact sound.harmless (.fault state.table p)
  | @priority p pr control outside =>
    rw [State.priority]
    split
    · exact sound.light (.priority state.table p pr)
    · exact sound
  | @policy p pl policy control outside known => exact sound.light (.setVisit state.table p _)
  | @visit p visit control visiting => exact sound.light (.visit state.table p visit)

end

/-! ## Runs -/

/-- What holds of processes and processors while nobody holds the lock. -/
structure ExclusiveWhenFree (state : State nproc ncpu) : Prop where
  running : ∀ p, (state.table p).state = .running ↔ ∃! c, (state.cpus c).proc = some p
  current : ∀ p c d, (state.cpus c).proc = some p → (state.cpus d).proc = some p → c = d
  saved : ∀ p, (state.table p).state = .sleeping ∨ (state.table p).state = .runnable →
    (state.table p).context ≠ none

/-- A processor uses the kernel stack or the page directory of a process. -/
def State.Executes (state : State nproc ncpu) (c : Fin ncpu) (p : Fin nproc) : Prop :=
  (∃ resumed, (state.cpus c).control = .thread p resumed) ∨ (state.cpus c).cr3 = some p

section

variable {state next : State nproc ncpu} {c : Fin ncpu} {p : Fin nproc} {action : Action nproc}

theorem Sound.control_of_proc (sound : Sound state.table state.cpus state.lock)
    (outside : ¬(state.cpus c).control.InSection ∨ ∃ p resumed,
      (state.cpus c).control = .thread p resumed)
    (current : (state.cpus c).proc = some p ∨ (state.cpus c).cr3 = some p) :
    ∃ resumed, (state.cpus c).control = .thread p resumed := by
  have scheduler := sound.exclusive.scheduler c
  have thread := sound.exclusive.thread c
  cases control : (state.cpus c).control with
  | scheduler => grind
  | switchedBack => grind
  | thread q resumed => grind

theorem Sound.exclusiveWhenFree (sound : Sound state.table state.cpus state.lock)
    (free : state.lock = none) : ExclusiveWhenFree state := by
  have outside : ∀ c, ¬(state.cpus c).control.InSection := by
    intro c inside
    have held := (sound.exclusive.holder c).mp inside
    rw [free] at held
    cases held
  have thread : ∀ c p, (state.cpus c).proc = some p →
      ∃ resumed, (state.cpus c).control = .thread p resumed :=
    fun c p current => sound.control_of_proc (Or.inl (outside c)) (Or.inl current)
  have current : ∀ p c d, (state.cpus c).proc = some p → (state.cpus d).proc = some p → c = d := by
    intro p c d first second
    rcases thread c p first with ⟨one, isOne⟩
    rcases thread d p second with ⟨two, isTwo⟩
    exact sound.exclusive.unique c d p one two isOne isTwo
  constructor
  · intro p
    constructor
    · intro isRunning
      rcases sound.exclusive.running p isRunning with ⟨c, resumed, control⟩
      have own := (sound.exclusive.thread c p resumed control).1
      exact ⟨c, own, fun d other => current p d c other own⟩
    · intro once
      rcases once with ⟨c, isCurrent, _⟩
      rcases thread c p isCurrent with ⟨resumed, control⟩
      exact (sound.exclusive.thread c p resumed control).2.2
  · exact current
  · intro p off
    apply sound.exclusive.saved
    cases off with
    | inl asleep =>
      rw [asleep]
      trivial
    | inr runnable =>
      rw [runnable]
      trivial

theorem Stepped.waitCall_cases {call : WaitCall}
    (stepped : Stepped state c action next) (sound : Sound state.table state.cpus state.lock)
    (isCall : waitCall state c action = some (p, call)) :
    ∃ resumed, (state.cpus c).control = .thread p resumed ∧
      (state.lock = none ∨ state.lock = some c) := by
  unfold waitCall at isCall
  split at isCall
  · rename_i control
    cases isCall
    refine ⟨none, control, ?_⟩
    cases stepped with
    | reap entering _ | waitFails entering _ _ | waitSleeps entering _ _ =>
      exact (entering.sound sound).2.1
  · rename_i control
    cases isCall
    exact ⟨_, control, Or.inr ((sound.exclusive.holder c).mp (by rw [control]; trivial))⟩
  · cases isCall

/-- The process that frees a child holds the lock, so no processor is on the way back
from the child. -/
theorem Sound.not_executes_reaped {reaped : Reaped nproc}
    (sound : Sound state.table state.cpus state.lock)
    (stepped : Stepped state c action next)
    (returns : waitReturns state c action = some (.reaped reaped)) (d : Fin ncpu) :
    ¬state.Executes d reaped.child := by
  rcases waitReturns_eq_some.mp returns with ⟨p, call, isCall, result⟩
  rcases stepped.waitCall_cases sound isCall with ⟨resumed, control, own⟩
  have zombie := (Table.zombieChild_some (State.waitResult_reaped result).1).2
  intro executes
  have isThread : ∃ resumed, (state.cpus d).control = .thread reaped.child resumed := by
    cases executes with
    | inl isThread => exact isThread
    | inr loaded =>
      refine sound.control_of_proc ?_ (Or.inr loaded)
      by_cases same : d = c
      · rw [same]
        exact Or.inr ⟨p, resumed, control⟩
      · exact Or.inl (sound.exclusive.not_inSection own same)
  rcases isThread with ⟨other, isThread⟩
  rw [(sound.exclusive.thread d _ other isThread).2.2] at zombie
  cases zombie

end

theorem sound_booted (nproc ncpu : Nat) :
    Sound (booted nproc ncpu).table (booted nproc ncpu).cpus (booted nproc ncpu).lock := by
  have point : ∀ p, ((booted nproc ncpu).table p).point = .outside := by grind [booted, Proc.zero]
  constructor
  · constructor
    all_goals grind [booted, Proc.zero]
  · constructor
    all_goals grind

theorem reachable_sound {allowed : State (nproc + 1) ncpu → Fin ncpu × Action (nproc + 1) → Prop}
    {state : State (nproc + 1) ncpu}
    (reachable : Reachable step allowed (booted nproc ncpu) state) :
    Sound state.table state.cpus state.lock := by
  refine Reachable.invariant (fun state => Sound state.table state.cpus state.lock) ?_
    (sound_booted nproc ncpu) reachable
  intro state action next sound _ stepped
  exact (step_cases stepped).sound sound

/-- Whenever `ptable.lock` is free, the running processes are those that one processor
each has as its current process, and what waits has its context saved; and no call of
`wait` or `wait_stat` frees what a processor executes. -/
theorem execution_is_exclusive (nproc ncpu : Nat) (state : State (nproc + 1) ncpu)
    (reachable : Reachable step Unrestricted (booted nproc ncpu) state) :
    (state.lock = none → ExclusiveWhenFree state) ∧
      ∀ c action next reaped, step state (c, action) = some next →
        waitReturns state c action = some (.reaped reaped) →
          ∀ d, ¬state.Executes d reaped.child := by
  have sound := reachable_sound reachable
  constructor
  · exact sound.exclusiveWhenFree
  · intro c action next reaped stepped returns d
    exact sound.not_executes_reaped (step_cases stepped) returns d

/-- The first process, started by one of two processors. -/
theorem execution_is_exclusive_init :
    ∃ state, run step Unrestricted (booted 1 2) [(0, .schedule), (0, .resume)] = some state ∧
      (state.table 0).state = .running ∧ ExclusiveWhenFree state := by
  have ran : (run step Unrestricted (booted 1 2) [(0, .schedule), (0, .resume)]).any
      (fun state => (state.table 0).state = .running ∧ state.lock = none) = true := by
    decide +kernel
  rcases (Option.any_eq_true _ _).mp ran with ⟨state, reached, facts⟩
  rcases of_decide_eq_true facts with ⟨isRunning, free⟩
  have exclusive := execution_is_exclusive 1 2 state (.of_run _ .refl reached)
  exact ⟨state, reached, isRunning, exclusive.1 free⟩

end Xv6.Ptable
