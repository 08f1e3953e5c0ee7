import Xv6.Ptable.Family

/-! # Times

The counters of a process against a ledger that is kept beside the run: the ledger counts
the ticks of the clock without overflow and enters each of them, for every slot, under the
state that the process is in. A slot is opened when `allocproc` takes its creation time and
closed when its process exits.
-/

namespace Xv6.Ptable

open Transition Function

variable {nproc ncpu : Nat}

/-! ## The ledger -/

/-- What has been entered for a slot. A tick is `waited` if it comes while the process is
being created. -/
structure Tally where
  born : Nat
  died : Nat
  slept : Nat
  ready : Nat
  ran : Nat
  waited : Nat
  deriving DecidableEq

namespace Tally

def opened (now : Nat) : Tally := ⟨now, 0, 0, 0, 0, 0⟩

def total (tally : Tally) : Nat := tally.slept + tally.ready + tally.ran + tally.waited

def charge (tally : Tally) : ProcState → Tally
  | .sleeping => { tally with slept := tally.slept + 1 }
  | .runnable => { tally with ready := tally.ready + 1 }
  | .running => { tally with ran := tally.ran + 1 }
  | .embryo => { tally with waited := tally.waited + 1 }
  | .unused | .zombie => tally

end Tally

structure Ledger (nproc : Nat) where
  now : Nat
  tally : Fin nproc → Tally

def Ledger.empty (nproc : Nat) : Ledger nproc := ⟨0, fun _ => .opened 0⟩

def recordTimes (state : State nproc ncpu) (action : Fin ncpu × Action nproc)
    (_ : State nproc ncpu) (ledger : Ledger nproc) : Ledger nproc :=
  match action with
  | (_, .tick) => ⟨ledger.now + 1, fun q => (ledger.tally q).charge (state.table q).state⟩
  | (c, .allocStack true) =>
      match (state.cpus c).control with
      | .thread p none =>
          match (state.table p).point with
          | .allocated np =>
              { ledger with tally := Function.update ledger.tally np (.opened ledger.now) }
          | _ => ledger
      | _ => ledger
  | (c, .exit _) =>
      match (state.cpus c).control with
      | .thread p none =>
          { ledger with
            tally := Function.update ledger.tally p
              { ledger.tally p with died := ledger.now } }
      | _ => ledger
  | _ => ledger

/-! ## Accounts -/

structure Counted (perf : Perf) (tally : Tally) : Prop where
  ctime : perf.ctime = Int32.ofNat tally.born
  stime : perf.stime = Int32.ofNat tally.slept
  retime : perf.retime = Int32.ofNat tally.ready
  rutime : perf.rutime = Int32.ofNat tally.ran

/-- The account of a process that has not exited: all ticks since its creation are entered. -/
structure Open (now : Nat) (perf : Perf) (tally : Tally) : Prop where
  counted : Counted perf tally
  total : tally.total + tally.born = now

structure Closed (perf : Perf) (tally : Tally) : Prop where
  counted : Counted perf tally
  ttime : perf.ttime = Int32.ofNat tally.died
  total : tally.total + tally.born = tally.died

/-- A process has taken the creation time of the child it is about to create. -/
@[grind]
def Point.Late (point : Point nproc) (np : Fin nproc) : Prop :=
  point = .stacked np ∨ point = .copied np

theorem Point.not_late_outside (q : Fin nproc) : ¬(Point.outside : Point nproc).Late q := by
  simp [Late]

structure Balanced (table : Table nproc) (ledger : Ledger nproc) : Prop where
  alive : ∀ q, (table q).state.Alive → Open ledger.now (table q).perf (ledger.tally q)
  late : ∀ p q, (table p).point.Late q → Open ledger.now (table q).perf (ledger.tally q)
  zombie : ∀ q, (table q).state = .zombie → Closed (table q).perf (ledger.tally q)

theorem Open.opened (now : Nat) (ttime : Int32) :
    Open now ⟨Int32.ofNat now, ttime, 0, 0, 0⟩ (.opened now) :=
  ⟨⟨rfl, rfl, rfl, rfl⟩, Nat.zero_add now⟩

theorem Tally.total_charge (tally : Tally) {state : ProcState}
    (counts : state.Alive ∨ state = .embryo) :
    (tally.charge state).total + (tally.charge state).born = tally.total + tally.born + 1 := by
  cases state with
  | sleeping | runnable | running | embryo =>
    simp only [charge, total]
    omega
  | unused | zombie =>
    cases counts with
    | inl alive => exact absurd alive id
    | inr embryo => cases embryo

theorem Counted.charge {table : Table nproc} {q : Fin nproc} {tally : Tally}
    (counted : Counted (table q).perf tally) :
    Counted (table.updateTimes q).perf (tally.charge (table q).state) := by
  have succ : ∀ n, Int32.ofNat (n + 1) = Int32.ofNat n + 1 := fun n => Int32.ofNat_add n 1
  rcases counted with ⟨ctime, stime, retime, rutime⟩
  simp only [Proc.perf] at ctime stime retime rutime
  cases kept : (table q).state with
  | sleeping | runnable | running | embryo | unused | zombie =>
    constructor
    all_goals simp [Table.updateTimes, Proc.perf, Tally.charge, *]

theorem Open.charge {now : Nat} {table : Table nproc} {q : Fin nproc} {tally : Tally}
    (isOpen : Open now (table q).perf tally)
    (state : (table q).state.Alive ∨ (table q).state = .embryo) :
    Open (now + 1) (table.updateTimes q).perf (tally.charge (table q).state) :=
  ⟨isOpen.counted.charge, by rw [tally.total_charge state, isOpen.total]⟩

/-- What `wait_stat` reports adds up. -/
theorem Closed.conserved {perf : Perf} {tally : Tally} (closed : Closed perf tally) :
    perf.stime + perf.retime + perf.rutime =
      perf.ttime - perf.ctime - Int32.ofNat tally.waited := by
  rcases closed with ⟨⟨ctime, stime, retime, rutime⟩, ttime, total⟩
  rw [ctime, stime, retime, rutime, ttime, ← total, Tally.total]
  simp only [Int32.ofNat_add]
  grind

/-! ## Steps that charge nothing -/

/-- No counter changes, and no process exits or is created without a creation time. -/
structure Timeless (before after : Table nproc) : Prop where
  perf : ∀ q, (after q).perf = (before q).perf
  alive : ∀ q, (after q).state.Alive → (before q).state.Alive ∨ ∃ p, (before p).point.Late q
  late : ∀ p q, (after p).point.Late q → (before p).point.Late q
  zombie : ∀ q, (after q).state = .zombie → (before q).state = .zombie

section

variable {before middle after : Table nproc} {ledger : Ledger nproc} {p q np : Fin nproc}

theorem Balanced.timeless (balanced : Balanced before ledger) (timeless : Timeless before after) :
    Balanced after ledger := by
  rcases balanced with ⟨alive, late, zombie⟩
  rcases timeless with ⟨perf, wasAlive, wasLate, wasZombie⟩
  constructor
  all_goals grind

theorem Balanced.opened (balanced : Balanced before ledger) (ttime : Int32)
    (embryo : (after np).state = .embryo)
    (perf : (after np).perf = ⟨Int32.ofNat ledger.now, ttime, 0, 0, 0⟩)
    (others : ∀ q, q ≠ np → (after q).perf = (before q).perf ∧ (after q).state = (before q).state)
    (late : ∀ p q, (after p).point.Late q → q = np ∨ q ≠ np ∧ (before p).point.Late q) :
    Balanced after
      { ledger with tally := update ledger.tally np (.opened ledger.now) } := by
  rcases balanced with ⟨alive, wasLate, zombie⟩
  have opened := Open.opened ledger.now ttime
  constructor
  all_goals grind [update_apply]

theorem Balanced.closed (balanced : Balanced before ledger)
    (isOpen : Open ledger.now (before p).perf (ledger.tally p))
    (exited : (after p).state = .zombie)
    (perf : (after p).perf = { (before p).perf with ttime := Int32.ofNat ledger.now })
    (point : (after p).point = (before p).point)
    (others : ∀ q, q ≠ p → after q = before q)
    (notLate : ∀ parent, ¬(before parent).point.Late p) :
    Balanced after
      { ledger with
        tally := update ledger.tally p { ledger.tally p with died := ledger.now } } := by
  rcases balanced with ⟨alive, late, zombie⟩
  constructor
  · grind [update_apply]
  · grind [update_apply]
  · intro q isZombie
    dsimp only
    by_cases isP : q = p
    · rw [isP, update_self, perf]
      rcases isOpen with ⟨⟨ctime, stime, retime, rutime⟩, total⟩
      exact ⟨⟨ctime, stime, retime, rutime⟩, rfl, total⟩
    · grind [update_apply]

theorem Timeless.harmless (harmless : Harmless before after)
    (perf : ∀ q, (after q).perf = (before q).perf) : Timeless before after := by
  rcases harmless with ⟨state, context, point⟩
  constructor
  all_goals grind

theorem Light.timeless (light : Light before after) : Timeless before after := by
  refine .harmless light.harmless fun q => ?_
  rw [(light q).eq]
  rfl

theorem Timeless.trans (first : Timeless before middle) (second : Timeless middle after) :
    Timeless before after := by
  rcases first with ⟨perf, alive, late, zombie⟩
  rcases second with ⟨perf', alive', late', zombie'⟩
  constructor
  all_goals grind

/-- One slot changes, whose process does not exit. -/
theorem Timeless.change (others : ∀ q, q ≠ p → after q = before q)
    (perf : (after p).perf = (before p).perf) (point : (after p).point = (before p).point)
    (alive : (after p).state.Alive → (before p).state.Alive)
    (zombie : (after p).state ≠ .zombie) : Timeless before after := by
  constructor
  all_goals grind

theorem Timeless.dispatch (runnable : (before p).state = .runnable) :
    Timeless before
      (before.modify p fun proc => { proc with state := .running, context := none }) := by
  apply Timeless.change (p := p)
  all_goals grind [Proc.perf]

theorem Timeless.reap (table : Table nproc) (child : Fin nproc) :
    Timeless table (table.reap child) := by
  apply Timeless.change (p := child)
  all_goals grind [Proc.perf]

/-- A process changes the slot of its child and goes on in `fork`. -/
theorem Timeless.fill {change : Proc nproc → Proc nproc} {point : Point nproc}
    (parentAlive : (before p).state.Alive) (unborn : ¬(before np).state.Alive)
    (perf : (change (before np)).perf = (before np).perf)
    (alive : (change (before np)).state.Alive → (before p).point.Late np)
    (childLate : ∀ q, (change (before np)).point.Late q → (before np).point.Late q)
    (late : ∀ q, point.Late q → (before p).point.Late q)
    (zombie : (change (before np)).state ≠ .zombie) :
    Timeless before (before.fill p np change point) := by
  have different : np ≠ p := by
    intro same
    rw [same] at unborn
    exact unborn parentAlive
  constructor
  all_goals grind [Proc.perf]

end

/-! ## All steps -/

section

variable {state next entered : State nproc ncpu} {c : Fin ncpu} {p np : Fin nproc}
  {action : Action nproc} {call : WaitCall} {ledger : Ledger nproc}

/-- The clock and the ledger. -/
structure Timed (state : State nproc ncpu) (ledger : Ledger nproc) : Prop where
  ticks : state.ticks = UInt32.ofNat ledger.now
  balanced : Balanced state.table ledger

theorem Timed.timeless (timed : Timed state ledger) (timeless : Timeless state.table next.table)
    (ticks : next.ticks = state.ticks) : Timed next ledger :=
  ⟨ticks.trans timed.ticks, timed.balanced.timeless timeless⟩

theorem Timed.toInt32 (timed : Timed state ledger) :
    state.ticks.toInt32 = Int32.ofNat ledger.now := by
  rw [timed.ticks]
  rfl

theorem Entering.ticks (entering : Entering state c p call action entered) :
    entered.ticks = state.ticks := by
  cases entering with
  | call _ _ _ => rfl
  | woken _ => rfl

theorem Entering.recordTimes_eq (entering : Entering state c p call action entered) :
    recordTimes state (c, action) next ledger = ledger := by
  cases entering with
  | call _ _ _ => rfl
  | woken _ => rfl

section

variable (timed : Timed state ledger) (sound : Sound state.table state.cpus state.lock)
include timed sound

theorem Timed.tick :
    Timed state.tick (recordTimes state (c, .tick) state.tick ledger) where
  ticks := by
    dsimp only [State.tick, recordTimes]
    rw [timed.ticks]
    exact (UInt32.ofNat_add ledger.now 1).symm
  balanced := {
    alive := fun q alive => (timed.balanced.alive q alive).charge (Or.inl alive)
    late := by
      intro p q late
      have embryo := sound.forking.embryo p q (Point.child_of_late late)
      exact (timed.balanced.late p q late).charge (Or.inr embryo)
    zombie := by
      intro q zombie
      have isZombie : (state.table q).state = .zombie := zombie
      have closed := timed.balanced.zombie q isZombie
      have unchanged : (state.table.updateTimes q).perf = (state.table q).perf := by
        simp [Table.updateTimes, Proc.perf, isZombie]
      dsimp only [State.tick, recordTimes]
      rw [unchanged, isZombie]
      exact closed }

theorem Timed.stack (control : (state.cpus c).control = .thread p none)
    (point : (state.table p).point = .allocated np) :
    Timed (state.allocStack p np true)
      (recordTimes state (c, .allocStack true) (state.allocStack p np true) ledger) := by
  have isChild : (state.table p).point.child = some np := by rw [point]; rfl
  have alive := sound.alive_of_thread control
  have child := sound.not_born_child isChild
  have different : np ≠ p := by
    intro same
    rw [same] at child
    exact child.1 alive.born
  have opened : recordTimes state (c, .allocStack true) (state.allocStack p np true) ledger =
      { ledger with tally := update ledger.tally np (.opened ledger.now) } := by
    dsimp only [recordTimes]
    rw [control]
    dsimp only
    rw [point]
  rw [opened]
  refine ⟨timed.ticks, ?_⟩
  have embryo := sound.forking.embryo p np isChild
  have ticks := timed.toInt32
  rw [State.allocStack, if_pos rfl]
  dsimp only
  apply timed.balanced.opened (state.table np).ttime
  all_goals grind [Proc.perf, Point.child_of_late]

theorem Timed.exit (control : (state.cpus c).control = .thread p none) (status : Int32) :
    Timed ((state.acquire c).exit c p status)
      (recordTimes state (c, .exit status) ((state.acquire c).exit c p status) ledger) := by
  have closed : recordTimes state (c, .exit status) ((state.acquire c).exit c p status) ledger =
      { ledger with
        tally := update ledger.tally p { ledger.tally p with died := ledger.now } } := by
    dsimp only [recordTimes]
    rw [control]
  have passed : Timeless state.table ((state.acquire c).exitTable p) := by
    apply Timeless.harmless (.exitTable (state.acquire c) p)
    intro q
    rw [((state.acquire c).exited_exitTable q).eq]
    rfl
  rw [closed]
  refine ⟨timed.ticks, ?_⟩
  apply (timed.balanced.timeless passed).closed (p := p)
  · exact (timed.balanced.timeless passed).alive p
      ((Harmless.exitTable (state.acquire c) p).alive p (sound.alive_of_thread control))
  · rw [State.exit_apply, if_pos rfl]
  · rw [State.exit_apply, if_pos rfl]
    dsimp only [Proc.perf]
    rw [← timed.toInt32]
    rfl
  · rw [State.exit_apply, if_pos rfl]
  · intro q isP
    rw [State.exit_apply, if_neg isP]
  · intro parent late
    have wasLate := passed.late parent p late
    have embryo := sound.forking.embryo parent p (Point.child_of_late wasLate)
    have alive := sound.alive_of_thread control
    rw [embryo] at alive
    exact alive

end

theorem Stepped.timed (stepped : Stepped state c action next)
    (sound : Sound state.table state.cpus state.lock) (timed : Timed state ledger) :
    Timed next (recordTimes state (c, action) next ledger) := by
  cases stepped with
  | idle control free nobody => exact timed.timeless (Light.tickets state c).timeless rfl
  | @dispatch p control free drawn =>
    have runnable := Table.runnable_of_findTicket drawn
    exact timed.timeless ((Light.tickets state c).timeless.trans (.dispatch runnable)) rfl
  | finish control | forkret control | yielded control => exact timed.timeless (Light.refl _).timeless rfl
  | @slept p control =>
    exact timed.timeless (Light.clearChan state.table p).timeless rfl
  | @reap p child call action entered entering found =>
    rw [entering.recordTimes_eq]
    exact timed.timeless (entering.light.timeless.trans (.reap entered.table child)) entering.ticks
  | waitFails entering none stops =>
    rw [entering.recordTimes_eq]
    exact timed.timeless entering.light.timeless entering.ticks
  | @waitSleeps p call action entered entering none waits =>
    rw [entering.recordTimes_eq]
    rcases entering.sound sound with ⟨soundEntered, own, same, taken, resumed, control⟩
    rw [← same] at control
    refine timed.timeless ?_ entering.ticks
    have running := (soundEntered.exclusive.thread c p resumed control).2.2
    apply entering.light.timeless.trans
    apply Timeless.change (p := p)
    all_goals grind [Proc.perf]
  | wakeup address free => exact timed.timeless (Light.wakeup1 _ _).timeless rfl
  | tick free => exact timed.tick sound
  | @yield p control free | @sleep p address control free outside =>
    refine timed.timeless ?_ (by rfl)
    have alive := sound.alive_of_thread control
    apply Timeless.change (p := p)
    all_goals grind [Proc.perf]
  | exit status control free outside notInit => exact timed.exit sound control status
  | allocFails control free full => exact timed
  | @allocproc p np control free outside found =>
    have unused := Table.unused_of_firstUnused found
    refine timed.timeless ?_ (by rfl)
    apply Timeless.fill (sound.alive_of_thread control)
    all_goals grind [Proc.perf]
  | @allocStack p np available control point =>
    have isChild : (state.table p).point.child = some np := by rw [point]; rfl
    have embryo := sound.forking.embryo p np isChild
    cases available with
    | true => exact timed.stack sound control point
    | false =>
      refine timed.timeless ?_ (by rfl)
      apply Timeless.fill (sound.alive_of_thread control)
      all_goals grind [Proc.perf]
  | @copyProcess p np available control point =>
    have isChild : (state.table p).point.child = some np := by rw [point]; rfl
    have embryo := sound.forking.embryo p np isChild
    cases available with
    | true | false =>
      refine timed.timeless ?_ (by rfl)
      apply Timeless.fill (sound.alive_of_thread control)
      all_goals grind [Proc.perf]
  | @publish p np control free point =>
    have isChild : (state.table p).point.child = some np := by rw [point]; rfl
    have embryo := sound.forking.embryo p np isChild
    refine timed.timeless ?_ (by rfl)
    apply Timeless.fill (sound.alive_of_thread control)
    all_goals grind [Proc.perf]
  | kill pid control free outside =>
    refine timed.timeless ?_ (by rfl)
    apply Timeless.harmless (.kill state.table pid)
    grind [Table.kill_apply, Proc.perf]
  | @fault p control outside =>
    refine timed.timeless ?_ (by rfl)
    apply Timeless.harmless (.fault state.table p)
    grind [State.modify, Proc.perf]
  | @priority p pr control outside =>
    rw [State.priority]
    split
    · exact timed.timeless (Light.priority state.table p pr).timeless rfl
    · exact timed
  | @policy p pl policy control outside known =>
    exact timed.timeless (Light.setVisit state.table p _).timeless rfl
  | @visit p visit control visiting =>
    exact timed.timeless (Light.visit state.table p visit).timeless rfl

end

/-! ## Runs -/

theorem timed_booted (nproc ncpu : Nat) : Timed (booted nproc ncpu) (.empty (nproc + 1)) where
  ticks := rfl
  balanced := {
    alive := by
      intro q alive
      by_cases isInit : q = 0
      · subst isInit
        exact .opened 0 0
      · dsimp only [booted] at alive
        rw [if_neg isInit] at alive
        exact absurd alive id
    late := by
      intro p q late
      have outside : ((booted nproc ncpu).table p).point = .outside := by
        dsimp only [booted]
        split
        · rfl
        · rfl
      rw [outside] at late
      exact absurd late (Point.not_late_outside q)
    zombie := by
      intro q zombie
      dsimp only [booted] at zombie
      split at zombie
      · cases zombie
      · cases zombie }

theorem reachable_timed {both : State (nproc + 1) ncpu × Ledger (nproc + 1)}
    (reachable : Reachable (recorded step recordTimes) Unrestricted
      (booted nproc ncpu, .empty (nproc + 1)) both) : Timed both.1 both.2 := by
  have holds := Reachable.invariant
    (fun both : State (nproc + 1) ncpu × Ledger (nproc + 1) =>
      Sound both.1.table both.1.cpus both.1.lock ∧ Timed both.1 both.2) ?_ ?_ reachable
  · exact holds.2
  · intro before action after invariant _ both
    rcases recorded_eq_some.mp both with ⟨stepped, isRecord⟩
    have kind := step_cases stepped
    rw [isRecord]
    exact ⟨kind.sound invariant.1, kind.timed invariant.1 invariant.2⟩
  · exact ⟨sound_booted nproc ncpu, timed_booted nproc ncpu⟩

/-- What `wait_stat` reports about a child: each counter is the number of ticks that came
while the child was in the state that it is about, every tick from the creation of the child
to its exit was entered once, and the counters therefore add up to the lifetime of the child
without the ticks that came before it was runnable. -/
theorem reported_times_conserved (nproc ncpu : Nat) (state : State (nproc + 1) ncpu)
    (ledger : Ledger (nproc + 1)) (c : Fin ncpu) (action : Action (nproc + 1))
    (reaped : Reaped (nproc + 1)) (perf : Perf)
    (reachable : Reachable (recorded step recordTimes) Unrestricted
      (booted nproc ncpu, .empty (nproc + 1)) (state, ledger))
    (returns : waitReturns state c action = some (.reaped reaped))
    (reports : reaped.performance = some perf) :
    let tally := ledger.tally reaped.child
    (perf.stime = Int32.ofNat tally.slept ∧ perf.retime = Int32.ofNat tally.ready ∧
      perf.rutime = Int32.ofNat tally.ran) ∧
      (perf.ctime = Int32.ofNat tally.born ∧ perf.ttime = Int32.ofNat tally.died ∧
        tally.slept + tally.ready + tally.ran + tally.waited + tally.born = tally.died) ∧
      perf.stime + perf.retime + perf.rutime =
        perf.ttime - perf.ctime - Int32.ofNat tally.waited := by
  rcases waitReturns_eq_some.mp returns with ⟨p, call, _, result⟩
  have found := State.waitResult_reaped result
  have zombie := (Table.zombieChild_some found.1).2
  have isPerf : perf = (state.table reaped.child).perf := by
    have report := found.2.2.2
    rw [reports] at report
    split at report
    · exact Option.some.inj report
    · cases report
  have closed : Closed perf (ledger.tally reaped.child) := by
    rw [isPerf]
    exact (reachable_timed reachable).balanced.zombie reaped.child zombie
  have counted := closed.counted
  have total := closed.total
  rw [Tally.total] at total
  exact ⟨⟨counted.stime, counted.retime, counted.rutime⟩, ⟨counted.ctime, closed.ttime, total⟩,
    closed.conserved⟩

/-- A child that is created, runs and exits, with a tick in each of its states. -/
def lifetime : List (Fin 1 × Action 2) :=
  [(0, .schedule), (0, .resume), (0, .tick), (0, .allocproc), (0, .allocStack true), (0, .tick),
    (0, .copyProcess true), (0, .publish), (0, .tick), (0, .wait (.waitStat false)), (0, .finish),
    (0, .schedule), (0, .resume), (0, .tick), (0, .sleep 0), (0, .finish), (0, .tick),
    (0, .wakeup 0), (0, .schedule), (0, .resume), (0, .exit 0), (0, .finish), (0, .tick),
    (0, .schedule)]

theorem reported_times_conserved_lifetime :
    ∃ (state : State 2 1) (ledger : Ledger 2) (reaped : Reaped 2) (perf : Perf),
      Reachable (recorded step recordTimes) Unrestricted (booted 1 1, .empty 2) (state, ledger) ∧
      waitReturns state 0 .resume = some (.reaped reaped) ∧ reaped.performance = some perf ∧
      (ledger.tally reaped.child).waited = 1 ∧ perf.ttime = 5 ∧ perf.ctime = 1 ∧
      perf.stime + perf.retime + perf.rutime =
        perf.ttime - perf.ctime - Int32.ofNat (ledger.tally reaped.child).waited := by
  rcases exists_reachable (recorded step recordTimes) Unrestricted (booted 1 1, .empty 2) lifetime
      (fun both => (both.2.tally 1).waited = 1 ∧ waitReturns both.1 0 .resume =
        some (.reaped ⟨1, 2, none, some ⟨1, 5, 1, 1, 1⟩⟩)) (by decide +kernel) with
    ⟨⟨state, ledger⟩, reachable, waited, returns⟩
  refine ⟨state, ledger, ⟨1, 2, none, some ⟨1, 5, 1, 1, 1⟩⟩, ⟨1, 5, 1, 1, 1⟩, reachable, returns,
    rfl, waited, rfl, rfl, ?_⟩
  exact (reported_times_conserved 1 1 state ledger 0 .resume _ _ reachable returns rfl).2.2

end Xv6.Ptable
