import Xv6.Sleep.Wakeup

/-! # Sleep-locks

`acquiresleep` and `releasesleep` of `sleeplock.c`, used in pairs by any number of
processes. The loop of `acquiresleep` waits for `lk->locked` to be zero, and `releasesleep`
makes it zero, so both are programs of the protocol of `sleep` and `wakeup`: the spin lock
`lk->lk` is its lock, and the address of the sleep-lock is its channel. A `kill` may wake up
a process that sleeps on the lock.
-/

namespace Xv6.Sleep

open Transition
open Function (update update_self update_of_ne)

open Ptable (Channel)

variable {nproc : Nat}

/-- The fields of `struct sleeplock` that `lk->lk` protects. -/
structure SleepLock where
  locked : Bool
  pid : Int32
  deriving DecidableEq

/-- `holder .cond` is the process that holds `lk->lk`. A process has `taken` the sleep-lock
from the assignments in `acquiresleep` to those in `releasesleep`. -/
structure LockState (nproc : Nat) where
  table : Fin nproc → Entry nproc
  point : Fin nproc → Point nproc
  holder : Lock → Option (Fin nproc)
  lk : SleepLock
  taken : Fin nproc → Bool

inductive LockAction (nproc : Nat)
  | acquiresleep (p : Fin nproc)
  | releasesleep (p : Fin nproc)
  | go (p : Fin nproc)
  | dispatch (p : Fin nproc)
  | kill (pid : Int32)
  deriving DecidableEq

/-- `kill`, as far as it matters to a sleeping process. -/
def killEntry (pids : Fin nproc → Int32) (table : Fin nproc → Entry nproc) (pid : Int32) :
    Fin nproc → Entry nproc :=
  match (List.finRange nproc).find? fun p => pids p = pid with
  | some p =>
      if (table p).state = .sleeping then
        update table p { table p with state := .runnable }
      else table
  | none => table

namespace Point

/-- The fields of the lock after the step of process `p` at a point. -/
def lock (pids : Fin nproc → Int32) (p : Fin nproc) (lk : SleepLock) : Point nproc → SleepLock
  | .use => ⟨true, pids p⟩
  | .produce => ⟨false, 0⟩
  | _ => lk

def taken (p : Fin nproc) (taken : Fin nproc → Bool) : Point nproc → Fin nproc → Bool
  | .use => update taken p true
  | .produce => update taken p false
  | _ => taken

end Point

namespace LockState

variable (state : LockState nproc)

def protocol : State nproc where
  table := state.table
  point := state.point
  holder := state.holder
  cond := !state.lk.locked

def perform (pids : Fin nproc → Int32) (chan : Channel nproc) (p : Fin nproc) (action : Action) :
    Option (LockState nproc) :=
  (procStep .cond chan state.protocol p action).map fun next =>
    { table := next.table
      point := next.point
      holder := next.holder
      lk := (state.point p).lock pids p state.lk
      taken := (state.point p).taken p state.taken }

/-- The process has returned from `acquiresleep` and not yet called `releasesleep`. -/
def Inside (p : Fin nproc) : Prop := state.taken p = true ∧ state.point p = .idle

def SleepsOn (chan : Channel nproc) (p : Fin nproc) : Prop :=
  (state.table p).state = .sleeping ∧ (state.table p).chan = some chan

end LockState

/-- The calls are made in pairs. -/
def lockStep (pids : Fin nproc → Int32) (chan : Channel nproc) (state : LockState nproc) :
    LockAction nproc → Option (LockState nproc)
  | .acquiresleep p => if state.taken p then none else state.perform pids chan p .wait
  | .releasesleep p => if state.taken p then state.perform pids chan p .wake else none
  | .go p => state.perform pids chan p (if state.point p = .use then .use true else .go)
  | .dispatch p => state.perform pids chan p .dispatch
  | .kill pid =>
      if state.holder .ptable = none then
        some { state with table := killEntry pids state.table pid }
      else none

/-- After `initsleeplock`. -/
def lockStart (nproc : Nat) : LockState nproc where
  table := fun _ => ⟨.running, none⟩
  point := fun _ => .idle
  holder := fun _ => none
  lk := ⟨false, 0⟩
  taken := fun _ => false

/-! ## Inversion -/

section

variable {pids : Fin nproc → Int32} {chan : Channel nproc} {state next : LockState nproc}
  {p q : Fin nproc} {action : Action} {grip : Grip} {target : Point nproc}

structure LockStepped (pids : Fin nproc → Int32) (chan : Channel nproc) (state : LockState nproc)
    (p : Fin nproc) (next : LockState nproc) (grip : Grip) (target : Point nproc) : Prop where
  stepped : Stepped .cond chan state.protocol p next.protocol grip target
  lk : next.lk = (state.point p).lock pids p state.lk
  taken : next.taken = (state.point p).taken p state.taken
  paired : state.point p = .idle → (target = .produce ↔ state.taken p = true)

theorem perform_cond (pids : Fin nproc → Int32) {base : State nproc}
    (completes : action ≠ .use false)
    (stepped : step .cond chan state.protocol (p, action) = some base) :
    base.cond = !((state.point p).lock pids p state.lk).locked := by
  rcases step_cases stepped with ⟨grip, target, kind⟩
  cases here : state.point p with
  | use =>
    cases action with
    | use falsify =>
      cases falsify with
      | true =>
        simp only [step, procStep, LockState.protocol, here, Option.some.injEq] at stepped
        simp [← stepped, State.goto, Point.lock]
      | false => exact absurd rfl completes
    | _ => simp [step, procStep, LockState.protocol, here] at stepped
  | produce =>
    have cond := kind.cond
    rw [show state.protocol.point p = .produce from here] at cond
    exact cond
  | _ =>
    refine kind.cond_eq ?_ ?_
    · rw [show state.protocol.point p = _ from here]
      nofun
    · rw [show state.protocol.point p = _ from here]
      nofun

theorem acquire_point {base after : State nproc} {lock : Lock}
    (acquired : base.acquire lock p target = some after) : after.point p = target := by
  rw [State.acquire, Option.ite_none_right_eq_some, Option.some.injEq] at acquired
  rw [← acquired.2]
  exact update_self ..

theorem starts {base : State nproc} (idle : state.point p = .idle)
    (stepped : step .cond chan state.protocol (p, action) = some base) :
    action = .wait ∧ base.point p = .test ∨ action = .wake ∧ base.point p = .produce := by
  cases action with
  | wait =>
    simp only [step, procStep, LockState.protocol, idle] at stepped
    exact Or.inl ⟨rfl, acquire_point stepped⟩
  | wake =>
    simp only [step, procStep, LockState.protocol, idle] at stepped
    exact Or.inr ⟨rfl, acquire_point stepped⟩
  | _ => simp [step, procStep, LockState.protocol, idle] at stepped

theorem perform_cases (performed : state.perform pids chan p action = some next)
    (completes : action ≠ .use false) (waits : action = .wait → state.taken p = false)
    (wakes : action = .wake → state.taken p = true) :
    ∃ grip target, LockStepped pids chan state p next grip target := by
  rw [LockState.perform, Option.map_eq_some_iff] at performed
  rcases performed with ⟨base, stepped, rfl⟩
  have cond := perform_cond pids completes stepped
  rcases step_cases stepped with ⟨grip, target, kind⟩
  refine ⟨grip, target, ?_, rfl, rfl, fun idle => ?_⟩
  · change Stepped .cond chan state.protocol p
      { base with cond := !((state.point p).lock pids p state.lk).locked } grip target
    rw [← cond]
    exact kind
  · have place := kind.point_self
    rcases starts idle stepped with ⟨isWait, outside⟩ | ⟨isWake, outside⟩
    · rw [← place, outside, waits isWait]
      exact iff_of_false nofun nofun
    · rw [← place, outside, wakes isWake]
      exact iff_of_true rfl rfl

/-- Every step is one of a process, or a `kill`. -/
theorem lockStep_cases {action : LockAction nproc}
    (stepped : lockStep pids chan state action = some next) :
    (∃ p grip target, LockStepped pids chan state p next grip target) ∨
      ∃ pid, next = { state with table := killEntry pids state.table pid } := by
  cases action with
  | acquiresleep p =>
    rw [lockStep, Option.ite_none_left_eq_some] at stepped
    exact Or.inl ⟨p, perform_cases stepped.2 nofun
      (fun _ => Bool.eq_false_of_not_eq_true stepped.1) nofun⟩
  | releasesleep p =>
    rw [lockStep, Option.ite_none_right_eq_some] at stepped
    exact Or.inl ⟨p, perform_cases stepped.2 nofun nofun fun _ => stepped.1⟩
  | go p =>
    refine Or.inl ⟨p, perform_cases stepped ?_ ?_ ?_⟩
    · split <;> nofun
    · split <;> nofun
    · split <;> nofun
  | dispatch p => exact Or.inl ⟨p, perform_cases stepped nofun nofun nofun⟩
  | kill pid =>
    rw [lockStep, Option.ite_none_right_eq_some, Option.some.injEq] at stepped
    exact Or.inr ⟨pid, stepped.2.symm⟩

/-! ## The protocol -/

theorem killEntry_apply (pids : Fin nproc → Int32) (table : Fin nproc → Entry nproc) (pid : Int32)
    (q : Fin nproc) : killEntry pids table pid q = table q ∨
      killEntry pids table pid q = { table q with state := .runnable } := by
  unfold killEntry
  cases (List.finRange nproc).find? fun p => pids p = pid with
  | none => exact Or.inl rfl
  | some victim =>
    dsimp only
    split
    · by_cases same : q = victim
      · subst same
        exact Or.inr (update_self ..)
      · exact Or.inl (update_of_ne same ..)
    · exact Or.inl rfl

/-- A process that is killed while it sleeps finds that it has to sleep again. -/
theorem Protocol.kill (protocol : Protocol .cond chan state.protocol) (pid : Int32) :
    Protocol .cond chan
      ({ state with table := killEntry pids state.table pid } : LockState nproc).protocol where
  owners := protocol.owners
  differs := protocol.differs
  entry := by
    intro q
    have here := protocol.entry q
    change Local chan (killEntry pids state.table pid q) _
    cases killEntry_apply pids state.table pid q with
    | inl same =>
      rw [same]
      exact here
    | inr woken =>
      rw [woken]
      exact here.woken
  unmet := protocol.unmet
  pending := by
    intro q committed
    refine protocol.pending q ?_
    change (state.point q).Committed (killEntry pids state.table pid q) at committed
    change (state.point q).Committed (state.table q)
    cases killEntry_apply pids state.table pid q with
    | inl same =>
      rw [same] at committed
      exact committed
    | inr woken =>
      rw [woken] at committed
      unfold Point.Committed at committed ⊢
      split at committed
      all_goals trivial

/-! ## The owner -/

/-- Who has taken the sleep-lock, and what is written in it. -/
structure Owned (pids : Fin nproc → Int32) (chan : Channel nproc) (state : LockState nproc) :
    Prop where
  protocol : Protocol .cond chan state.protocol
  ready : ∀ p, state.point p = .use → state.lk.locked = false
  place : ∀ p, state.taken p = true →
    state.point p = .idle ∨ state.point p = .leave ∨ state.point p = .produce
  releasing : ∀ p, state.point p = .produce → state.taken p = true
  owner : ∀ p, state.taken p = true → state.lk = ⟨true, pids p⟩
  only : ∀ p q, state.taken p = true → state.taken q = true → p = q
  free : (∃ p, state.taken p = true) ∨ state.lk = ⟨false, 0⟩

theorem LockStepped.point_self (kind : LockStepped pids chan state p next grip target) :
    next.point p = target := kind.stepped.point_self

theorem LockStepped.point_of_ne (kind : LockStepped pids chan state p next grip target)
    (different : q ≠ p) : next.point q = state.point q := kind.stepped.point_of_ne different

/-- Two processes that hold `lk->lk` are the same. -/
theorem Owned.unique (owned : Owned pids chan state) (first : (state.point p).InLk)
    (second : (state.point q).InLk) : p = q :=
  owned.protocol.owners.unique (Or.inl ⟨rfl, first⟩) (Or.inl ⟨rfl, second⟩)

/-- A step of a process takes the sleep-lock, gives it back, or leaves it alone. -/
theorem LockStepped.cases (kind : LockStepped pids chan state p next grip target) :
    (state.point p = .use ∧ target = .leave ∧ next.lk = ⟨true, pids p⟩ ∧
      next.taken = update state.taken p true) ∨
    (state.point p = .produce ∧ target = .wakeup ∧ next.lk = ⟨false, 0⟩ ∧
      next.taken = update state.taken p false) ∨
    (next.lk = state.lk ∧ next.taken = state.taken ∧
      (target = .use → state.lk.locked = false) ∧
      (target = .produce → state.taken p = true) ∧
      (state.taken p = true →
        state.point p = .idle ∨ state.point p = .leave ∨ state.point p = .produce →
        target = .idle ∨ target = .leave ∨ target = .produce)) := by
  have move := kind.stepped.move
  change Move .cond state.protocol p (state.point p) grip target at move
  have lk := kind.lk
  have taken := kind.taken
  have paired := kind.paired
  generalize state.point p = old at move lk taken paired
  cases move with
  | use => exact Or.inl ⟨rfl, rfl, lk, taken⟩
  | produce => exact Or.inr (Or.inl ⟨rfl, rfl, lk, taken⟩)
  | found holds =>
    have unlocked : state.lk.locked = false := by simpa [LockState.protocol] using holds
    exact Or.inr (Or.inr ⟨lk, taken, fun _ => unlocked, nofun, by simp⟩)
  | wait =>
    refine Or.inr (Or.inr ⟨lk, taken, nofun, nofun, fun has _ => ?_⟩)
    exact Or.inr (Or.inr ((paired rfl).mpr has))
  | wake => exact Or.inr (Or.inr ⟨lk, taken, nofun, (paired rfl).mp, by simp⟩)
  | leave => exact Or.inr (Or.inr ⟨lk, taken, nofun, nofun, fun _ _ => Or.inl rfl⟩)
  | _ => exact Or.inr (Or.inr ⟨lk, taken, nofun, nofun, by simp⟩)

theorem Owned.take (owned : Owned pids chan state)
    (kind : LockStepped pids chan state p next grip target) (here : state.point p = .use)
    (there : target = .leave) (lk : next.lk = ⟨true, pids p⟩)
    (taken : next.taken = update state.taken p true) : Owned pids chan next := by
  have unlocked := owned.ready p here
  have nobody : ∀ q, state.taken q ≠ true := by
    intro q has
    rw [owned.owner q has] at unlocked
    cases unlocked
  have only : ∀ q, next.taken q = true → q = p := by
    intro q has
    by_contra different
    rw [taken, update_of_ne different] at has
    exact nobody q has
  have inLk : (state.point p).InLk := by rw [here]; trivial
  have place := kind.point_self.trans there
  refine ⟨owned.protocol.step kind.stepped, ?_, ?_, ?_, ?_, ?_, ?_⟩
  · intro q uses
    by_cases same : q = p
    · rw [same, place] at uses
      cases uses
    · rw [kind.point_of_ne same] at uses
      exact absurd (owned.unique (by rw [uses]; trivial) inLk) same
  · intro q has
    rw [only q has]
    exact Or.inr (Or.inl place)
  · intro q produces
    by_cases same : q = p
    · rw [same, place] at produces
      cases produces
    · rw [kind.point_of_ne same] at produces
      exact absurd (owned.unique (by rw [produces]; trivial) inLk) same
  · intro q has
    rw [only q has]
    exact lk
  · intro q r first second
    rw [only q first, only r second]
  · refine Or.inl ⟨p, ?_⟩
    rw [taken, update_self]

theorem Owned.give (owned : Owned pids chan state)
    (kind : LockStepped pids chan state p next grip target) (here : state.point p = .produce)
    (there : target = .wakeup) (lk : next.lk = ⟨false, 0⟩)
    (taken : next.taken = update state.taken p false) : Owned pids chan next := by
  have mine := owned.releasing p here
  have nobody : ∀ q, next.taken q ≠ true := by
    intro q has
    by_cases same : q = p
    · rw [same, taken, update_self] at has
      cases has
    · rw [taken, update_of_ne same] at has
      exact same (owned.only q p has mine)
  have inLk : (state.point p).InLk := by rw [here]; trivial
  have place := kind.point_self.trans there
  refine ⟨owned.protocol.step kind.stepped, ?_, fun q has => absurd has (nobody q), ?_,
    fun q has => absurd has (nobody q), fun q _ has => absurd has (nobody q), Or.inr lk⟩
  · intro q uses
    rw [lk]
  · intro q produces
    by_cases same : q = p
    · rw [same, place] at produces
      cases produces
    · rw [kind.point_of_ne same] at produces
      exact absurd (owned.unique (by rw [produces]; trivial) inLk) same

theorem Owned.step (owned : Owned pids chan state)
    (kind : LockStepped pids chan state p next grip target) : Owned pids chan next := by
  rcases kind.cases with ⟨here, there, lk, taken⟩ | ⟨here, there, lk, taken⟩ |
    ⟨lk, taken, ready, releasing, stays⟩
  · exact owned.take kind here there lk taken
  · exact owned.give kind here there lk taken
  · refine ⟨owned.protocol.step kind.stepped, ?_, ?_, ?_, ?_, ?_, ?_⟩
    · intro q uses
      rw [lk]
      by_cases same : q = p
      · rw [same, kind.point_self] at uses
        exact ready uses
      · rw [kind.point_of_ne same] at uses
        exact owned.ready q uses
    · intro q has
      rw [taken] at has
      by_cases same : q = p
      · rw [same] at has ⊢
        rw [kind.point_self]
        exact stays has (owned.place p has)
      · rw [kind.point_of_ne same]
        exact owned.place q has
    · intro q produces
      rw [taken]
      by_cases same : q = p
      · rw [same, kind.point_self] at produces
        rw [same]
        exact releasing produces
      · rw [kind.point_of_ne same] at produces
        exact owned.releasing q produces
    · rw [taken, lk]
      exact owned.owner
    · rw [taken]
      exact owned.only
    · rw [taken, lk]
      exact owned.free

theorem Owned.kill (owned : Owned pids chan state) (pid : Int32) :
    Owned pids chan { state with table := killEntry pids state.table pid } where
  protocol := owned.protocol.kill pid
  ready := owned.ready
  place := owned.place
  releasing := owned.releasing
  owner := owned.owner
  only := owned.only
  free := owned.free

end

/-! ## Runs -/

theorem owned_start (pids : Fin nproc → Int32) (chan : Channel nproc) :
    Owned pids chan (lockStart nproc) where
  protocol := protocol_start .cond chan true
  ready := nofun
  place := nofun
  releasing := nofun
  owner := nofun
  only := nofun
  free := Or.inr rfl

theorem owned_of_reachable {pids : Fin nproc → Int32} {chan : Channel nproc}
    {state : LockState nproc}
    (reachable : Reachable (lockStep pids chan) Unrestricted (lockStart nproc) state) :
    Owned pids chan state := by
  refine Reachable.invariant (Owned pids chan) ?_ (owned_start pids chan) reachable
  intro state action next owned _ stepped
  rcases lockStep_cases stepped with ⟨p, grip, target, kind⟩ | ⟨pid, rfl⟩
  · exact owned.step kind
  · exact owned.kill pid

/-- While `lk->lk` is free, whoever has taken the sleep-lock has returned with it. -/
theorem Owned.inside_of_taken {pids : Fin nproc → Int32} {chan : Channel nproc}
    {state : LockState nproc} {p : Fin nproc} (owned : Owned pids chan state)
    (free : state.holder .cond = none) (has : state.taken p = true) : state.Inside p := by
  have outside : ¬(state.point p).InLk := by
    intro inLk
    have held := (owned.protocol.owners .cond p).mp (Or.inl ⟨rfl, inLk⟩)
    rw [show state.protocol.holder .cond = none from free] at held
    cases held
  refine ⟨has, ?_⟩
  rcases owned.place p has with idle | leaves | produces
  · exact idle
  · rw [leaves] at outside
    exact absurd trivial outside
  · rw [produces] at outside
    exact absurd trivial outside

/-- Sleep-locks exclude and never strand: at most one process is between `acquiresleep` and
`releasesleep`; exactly then the lock is marked as taken, and by this process; and nobody
sleeps on a lock that is free. -/
theorem sleeplocks_exclude (nproc : Nat) (pids : Fin nproc → Int32) (chan : Channel nproc)
    (state : LockState nproc)
    (reachable : Reachable (lockStep pids chan) Unrestricted (lockStart nproc) state) :
    (∀ p q, state.Inside p → state.Inside q → p = q) ∧
    (∀ p, state.Inside p → state.lk = ⟨true, pids p⟩) ∧
    (state.holder .cond = none → state.lk.locked = true →
      ∃ p, state.Inside p ∧ state.lk.pid = pids p) ∧
    (state.holder .cond = none → state.lk.locked = false →
      state.lk.pid = 0 ∧ ∀ p, ¬state.SleepsOn chan p) := by
  have owned := owned_of_reachable reachable
  refine ⟨fun p q first second => owned.only p q first.1 second.1,
    fun p inside => owned.owner p inside.1, fun free locked => ?_, fun free unlocked => ⟨?_, ?_⟩⟩
  · rcases owned.free with ⟨p, has⟩ | isFree
    · refine ⟨p, owned.inside_of_taken free has, ?_⟩
      rw [owned.owner p has]
    · rw [isFree] at locked
      cases locked
  · rcases owned.free with ⟨p, has⟩ | isFree
    · rw [owned.owner p has] at unlocked
      cases unlocked
    · rw [isFree]
  · intro p sleeps
    refine owned.protocol.nobody_sleeps free ?_ p sleeps.1
    rw [LockState.protocol, unlocked]
    rfl

/-- The first process takes the lock; the second one falls asleep on it, is killed and
falls asleep again; the first one gives the lock back. -/
def contend : List (LockAction 2) :=
  .acquiresleep 0 :: List.replicate 3 (.go 0) ++
    .acquiresleep 1 :: List.replicate 7 (.go 1) ++
    .kill 2 :: .dispatch 1 :: List.replicate 11 (.go 1) ++
    .releasesleep 0 :: List.replicate 6 (.go 0)

theorem sleeplocks_exclude_two :
    ∃ state : LockState 2,
      Reachable (lockStep (fun p => Int32.ofNat (p + 1)) (.other 0)) Unrestricted (lockStart 2)
        state ∧ (state.table 1).chan = some (.other 0) ∧ state.holder .cond = none ∧
      state.lk.locked = false ∧ state.lk.pid = 0 ∧ ∀ p, ¬state.SleepsOn (.other 0) p := by
  rcases exists_reachable (lockStep (fun p => Int32.ofNat (p + 1)) (.other 0)) Unrestricted
      (lockStart 2) contend (fun state => (state.table 1).chan = some (.other 0) ∧
        state.holder .cond = none ∧ state.lk.locked = false) (by decide +kernel) with
    ⟨state, reachable, slept, free, unlocked⟩
  have holds := sleeplocks_exclude 2 _ _ state reachable
  exact ⟨state, reachable, slept, free, unlocked, holds.2.2.2 free unlocked⟩

/-! ## Guards -/

/-- `holdingsleep`, which `iunlock`, `brelse`, `bwrite` and `iderw` test. It does not look at
the caller. -/
def holdingsleep (lk : SleepLock) : Bool := lk.locked

/-- Only the holder passes the test, if and only if no other process is the holder. -/
theorem holdingsleep_rejects (nproc : Nat) (pids : Fin nproc → Int32) (chan : Channel nproc)
    (state : LockState nproc)
    (reachable : Reachable (lockStep pids chan) Unrestricted (lockStart nproc) state)
    (free : state.holder .cond = none) (p : Fin nproc) :
    (holdingsleep state.lk = true → state.Inside p ∧ state.lk = ⟨true, pids p⟩) ↔
      ∀ q, q ≠ p → ¬state.Inside q := by
  have owned := owned_of_reachable reachable
  constructor
  · intro rejects q different inside
    have passes : holdingsleep state.lk = true := by rw [owned.owner q inside.1]; rfl
    exact different (owned.only q p inside.1 (rejects passes).1.1)
  · intro alone passes
    rcases owned.free with ⟨q, has⟩ | isFree
    · have inside := owned.inside_of_taken free has
      by_cases same : q = p
      · rw [← same]
        exact ⟨inside, owned.owner q has⟩
      · exact absurd inside (alone q same)
    · rw [isFree] at passes
      cases passes

def takeLock : List (LockAction 2) := .acquiresleep 0 :: List.replicate 3 (.go 0)

theorem holdingsleep_rejects_holder :
    ∃ state : LockState 2,
      Reachable (lockStep (fun p => Int32.ofNat (p + 1)) (.other 0)) Unrestricted (lockStart 2)
        state ∧ holdingsleep state.lk = true ∧ state.Inside 0 ∧ state.lk = ⟨true, 1⟩ := by
  rcases exists_reachable (lockStep (fun p => Int32.ofNat (p + 1)) (.other 0)) Unrestricted
      (lockStart 2) takeLock (fun state => state.holder .cond = none ∧
        (∀ q, q ≠ 0 → state.taken q ≠ true) ∧ holdingsleep state.lk = true)
      (by decide +kernel) with
    ⟨state, reachable, free, alone, passes⟩
  exact ⟨state, reachable, passes, (holdingsleep_rejects 2 _ _ state reachable free 0).mpr
    (fun q different inside => alone q different inside.1) passes⟩

/-- The second process, which has never acquired the lock, passes the test as well. -/
theorem holdingsleep_accepts_other :
    ∃ state : LockState 2,
      Reachable (lockStep (fun p => Int32.ofNat (p + 1)) (.other 0)) Unrestricted (lockStart 2)
        state ∧ state.holder .cond = none ∧ state.point 1 = .idle ∧ state.taken 1 = false ∧
      holdingsleep state.lk = true ∧ state.lk.pid ≠ 2 := by
  exact exists_reachable (lockStep (fun p => Int32.ofNat (p + 1)) (.other 0)) Unrestricted
    (lockStart 2) takeLock (fun state => state.holder .cond = none ∧ state.point 1 = .idle ∧
      state.taken 1 = false ∧ holdingsleep state.lk = true ∧ state.lk.pid ≠ 2) (by decide +kernel)

end Xv6.Sleep
