import Xv6.Sleep.Machine

/-! # No wakeup is lost

A process that has found the condition false and given up `lk` for its sleep does so with
`ptable.lock` in its hands. Whoever makes the condition true after that holds `lk`, and keeps
it until the loop of `wakeup1` has come to the process.
-/

namespace Xv6.Sleep

open Transition
open Function (update update_self update_of_ne)

open Ptable (Channel)

variable {nproc : Nat}

namespace Point

/-- The points at which `lk` is held for the condition. -/
def InLk : Point nproc → Prop
  | .test | .use | .leave | .sleep | .releaseLk | .produce | .wakeup | .scan _ => True
  | _ => False

/-- The points at which `ptable.lock` is held for the process table. -/
def InPtable : Point nproc → Prop
  | .releaseLk | .setChan | .setSleeping | .sched | .switched | .chosen | .clearChan
  | .releasePtable | .scan _ => True
  | _ => False

def Holds (point : Point nproc) (lk lock : Lock) : Prop :=
  lock = lk ∧ point.InLk ∨ lock = .ptable ∧ point.InPtable

/-- The points at which a process may be asleep. -/
def Parked : Point nproc → Prop
  | .sched | .switched | .suspended | .chosen => True
  | _ => False

/-- The points between the two assignments to `chan`. -/
def Marked : Point nproc → Prop
  | .setSleeping | .sched | .switched | .suspended | .chosen | .clearChan => True
  | _ => False

/-- A process that is going to sleep or asleep, and has not been woken up. -/
def Committed (point : Point nproc) (entry : Entry nproc) : Prop :=
  match point with
  | .setChan | .setSleeping | .sched | .switched => True
  | .suspended | .chosen => entry.state = .sleeping
  | _ => False

/-- The loop of `wakeup1` is still to come to process `q`. -/
def Waking (point : Point nproc) (q : Fin nproc) : Prop :=
  match point with
  | .wakeup => True
  | .scan slots => q ∈ slots
  | _ => False

end Point

/-- The locks are held by the processes that are at the points between `acquire` and
`release`. -/
def Owners (lk : Lock) (point : Fin nproc → Point nproc) (holder : Lock → Option (Fin nproc)) :
    Prop :=
  ∀ lock p, (point p).Holds lk lock ↔ holder lock = some p

structure Local (chan : Channel nproc) (entry : Entry nproc) (point : Point nproc) : Prop where
  asleep : entry.state = .sleeping → point.Parked
  marked : point.Marked → entry.chan = some chan

structure Protocol (lk : Lock) (chan : Channel nproc) (state : State nproc) : Prop where
  owners : Owners lk state.point state.holder
  differs : ∀ p, state.point p = .releaseLk → lk ≠ .ptable
  entry : ∀ p, Local chan (state.table p) (state.point p)
  unmet : ∀ p, state.point p = .sleep ∨ state.point p = .releaseLk → state.cond = false
  pending : ∀ p, (state.point p).Committed (state.table p) → state.cond = true →
    ∃ waker, (state.point waker).Waking p

section

variable {lk lock : Lock} {chan : Channel nproc} {state next : State nproc} {p q : Fin nproc}
  {old target : Point nproc} {grip : Grip}

/-! ## Locks -/

theorem Lock.forall {holds : Lock → Prop} : (∀ lock, holds lock) ↔ holds .cond ∧ holds .ptable := by
  constructor
  · exact fun all => ⟨all .cond, all .ptable⟩
  · intro both lock
    cases lock with
    | cond => exact both.1
    | ptable => exact both.2

/-- What a move does to the locks that the process holds. -/
def Grip.Changes (grip : Grip) (lk : Lock) (old target : Point nproc) : Prop :=
  match grip with
  | .keep => ∀ lock, target.Holds lk lock ↔ old.Holds lk lock
  | .take taken => ∀ lock, target.Holds lk lock ↔ lock = taken ∨ old.Holds lk lock
  | .drop dropped => old.Holds lk dropped ∧
      ∀ lock, target.Holds lk lock ↔ lock ≠ dropped ∧ old.Holds lk lock

theorem Move.changes (move : Move lk state p old grip target)
    (differs : old = .releaseLk → lk ≠ .ptable) : grip.Changes lk old target := by
  cases move with
  | releaseLk =>
    cases lk with
    | cond => simp [Grip.Changes, Point.Holds, Point.InLk, Point.InPtable, Lock.forall]
    | ptable => exact absurd rfl (differs rfl)
  | takePtable known | already known | releasePtable known | keepPtable known | wakeup known
  | wakeup1 known | scanned known | scanned1 known =>
    cases lk with
    | cond => simp_all [Grip.Changes, Point.Holds, Point.InLk, Point.InPtable, Lock.forall]
    | ptable => simp_all [Grip.Changes, Point.Holds, Point.InLk, Point.InPtable]
  | _ => simp [Grip.Changes, Point.Holds, Point.InLk, Point.InPtable]

theorem Owners.move {point : Fin nproc → Point nproc} {holder : Lock → Option (Fin nproc)}
    (owners : Owners lk point holder) (changes : grip.Changes lk (point p) target)
    (free : ∀ lock, grip = .take lock → holder lock = none) :
    Owners lk (update point p target) (grip.holder p holder) := by
  intro lock q
  have before := owners lock q
  cases grip with
  | keep =>
    by_cases isP : q = p
    · subst isP
      rw [update_self, changes lock]
      exact before
    · rw [update_of_ne isP]
      exact before
  | take taken =>
    have wasFree := free taken rfl
    dsimp only [Grip.holder]
    by_cases isLock : lock = taken
    · subst isLock
      rw [update_self]
      by_cases isP : q = p
      · subst isP
        rw [update_self, changes lock]
        exact ⟨fun _ => rfl, fun _ => Or.inl rfl⟩
      · rw [update_of_ne isP, before, wasFree]
        exact ⟨nofun, fun same => absurd (Option.some.inj same).symm isP⟩
    · rw [update_of_ne isLock]
      by_cases isP : q = p
      · subst isP
        rw [update_self, changes lock, ← before]
        exact ⟨fun holds => holds.resolve_left isLock, Or.inr⟩
      · rw [update_of_ne isP]
        exact before
  | drop dropped =>
    have held := (owners dropped p).mp changes.1
    dsimp only [Grip.holder]
    by_cases isLock : lock = dropped
    · subst isLock
      rw [update_self]
      by_cases isP : q = p
      · subst isP
        rw [update_self, changes.2 lock]
        exact ⟨fun holds => absurd rfl holds.1, nofun⟩
      · rw [update_of_ne isP, before, held]
        exact ⟨fun same => absurd (Option.some.inj same).symm isP, nofun⟩
    · rw [update_of_ne isLock]
      by_cases isP : q = p
      · subst isP
        rw [update_self, changes.2 lock, ← before]
        exact ⟨And.right, fun holds => ⟨isLock, holds⟩⟩
      · rw [update_of_ne isP]
        exact before

theorem Owners.unique {point : Fin nproc → Point nproc} {holder : Lock → Option (Fin nproc)}
    (owners : Owners lk point holder) (first : (point p).Holds lk lock)
    (second : (point q).Holds lk lock) : p = q :=
  Option.some.inj (((owners lock p).mp first).symm.trans ((owners lock q).mp second))

/-! ## Entries of the table -/

/-- The entry of a process that does not move. -/
theorem Stepped.entry_of_ne (stepped : Stepped lk chan state p next grip target)
    (different : q ≠ p) :
    next.table q = state.table q ∨
      next.table q = { state.table q with state := .runnable } ∧
        (state.table q).state = .sleeping := by
  have move := stepped.move
  have table := stepped.table
  generalize state.point p = old at move table
  rw [table]
  cases move with
  | scan first rest =>
    dsimp only [Point.table]
    rw [wakeSlot_apply]
    split
    · rename_i woken
      exact Or.inr ⟨rfl, woken.2.1⟩
    · exact Or.inl rfl
  | setChan | setSleeping | run | clearChan => exact Or.inl (update_of_ne different ..)
  | _ => exact Or.inl rfl

theorem Local.woken {entry : Entry nproc} {point : Point nproc} (here : Local chan entry point) :
    Local chan { entry with state := .runnable } point :=
  ⟨nofun, here.marked⟩

theorem Local.move (here : Local chan (state.table p) (state.point p))
    (stepped : Stepped lk chan state p next grip target) : Local chan (next.table p) target := by
  have move := stepped.move
  have table := stepped.table
  rcases here with ⟨asleep, marked⟩
  generalize state.point p = old at move table asleep marked
  rw [table]
  cases move with
  | scan q rest =>
    dsimp only [Point.table]
    rw [wakeSlot_apply, if_neg fun woken => asleep woken.2.1]
    exact ⟨asleep, nofun⟩
  | setChan =>
    dsimp only [Point.table]
    rw [update_self]
    exact ⟨asleep, fun _ => rfl⟩
  | setSleeping =>
    dsimp only [Point.table]
    rw [update_self]
    exact ⟨fun _ => trivial, fun _ => marked trivial⟩
  | run runnable =>
    dsimp only [Point.table]
    rw [update_self]
    exact ⟨nofun, fun _ => marked trivial⟩
  | clearChan =>
    dsimp only [Point.table]
    rw [update_self]
    exact ⟨asleep, nofun⟩
  | sched | switched | dispatch | passOver => exact ⟨fun _ => trivial, fun _ => marked trivial⟩
  | _ => exact ⟨asleep, nofun⟩

/-! ## The condition -/

section

variable (stepped : Stepped lk chan state p next grip target)
include stepped

theorem Stepped.cond_eq (notUse : state.point p ≠ .use) (notProduce : state.point p ≠ .produce) :
    next.cond = state.cond := by
  have cond := stepped.cond
  unfold Point.Cond at cond
  split at cond
  · rename_i isUse
    exact absurd isUse notUse
  · rename_i isProduce
    exact absurd isProduce notProduce
  · exact cond

theorem Stepped.point_self :
    next.point p = target := by
  rw [stepped.point, update_self]

theorem Stepped.point_of_ne (different : q ≠ p) : next.point q = state.point q := by
  rw [stepped.point, update_of_ne different]

end

theorem Protocol.unmet_step (protocol : Protocol lk chan state)
    (stepped : Stepped lk chan state p next grip target)
    (here : next.point q = .sleep ∨ next.point q = .releaseLk) : next.cond = false := by
  by_cases isP : q = p
  · subst isP
    rw [stepped.point_self] at here
    have move := stepped.move
    have same := stepped.cond_eq
    have unmet := protocol.unmet q
    generalize state.point q = old at move same unmet
    cases move with
    | sleep fails => exact (same nofun nofun).trans fails
    | takePtable => exact (same nofun nofun).trans (unmet (Or.inl rfl))
    | _ => cases here with
      | inl impossible => cases impossible
      | inr impossible => cases impossible
  · rw [stepped.point_of_ne isP] at here
    have held : (state.point q).Holds lk lk := by
      cases here with
      | inl sleeps => rw [sleeps]; exact Or.inl ⟨rfl, trivial⟩
      | inr releases => rw [releases]; exact Or.inl ⟨rfl, trivial⟩
    -- Whoever changes the condition holds the same lock.
    have notUse : state.point p ≠ .use := by
      intro uses
      exact isP (protocol.owners.unique held (by rw [uses]; exact Or.inl ⟨rfl, trivial⟩))
    have notProduce : state.point p ≠ .produce := by
      intro produces
      exact isP (protocol.owners.unique held (by rw [produces]; exact Or.inl ⟨rfl, trivial⟩))
    rw [stepped.cond_eq notUse notProduce]
    exact protocol.unmet q here

/-! ## Wakers -/

theorem Stepped.cond_before (stepped : Stepped lk chan state p next grip target)
    (holds : next.cond = true) (notProduce : state.point p ≠ .produce) : state.cond = true := by
  by_cases uses : state.point p = .use
  · have cond := stepped.cond
    rw [uses] at cond
    exact cond holds
  · rw [← stepped.cond_eq uses notProduce]
    exact holds

section

variable (protocol : Protocol lk chan state) (stepped : Stepped lk chan state p next grip target)
include protocol stepped

/-- A process commits itself only while the condition is false. -/
theorem Protocol.committed_before (committed : (next.point q).Committed (next.table q))
    (holds : state.cond = true) :
    (state.point q).Committed (state.table q) := by
  by_cases isP : q = p
  · subst isP
    rw [stepped.point_self, stepped.table] at committed
    have move := stepped.move
    have unmet := protocol.unmet q
    generalize state.point q = old at move committed unmet
    cases move with
    | releaseLk => exact absurd ((unmet (Or.inr rfl)).symm.trans holds) nofun
    | already => exact absurd ((unmet (Or.inl rfl)).symm.trans holds) nofun
    | setChan | setSleeping | sched | switched => trivial
    | dispatch | passOver => exact committed
    | _ => exact absurd committed id
  · rw [stepped.point_of_ne isP] at committed
    cases stepped.entry_of_ne isP with
    | inl same =>
      rw [same] at committed
      exact committed
    | inr woken =>
      rw [woken.1] at committed
      unfold Point.Committed at committed ⊢
      split at committed
      all_goals trivial

/-- The loop does not pass over a process that is committed. -/
theorem Protocol.not_passed {rest : List (Fin nproc)} (scans : state.point p = .scan (q :: rest))
    (committed : (state.point q).Committed (state.table q)) :
    ¬(next.point q).Committed (next.table q) := by
  have isP : q ≠ p := by
    intro same
    rw [same, scans] at committed
    exact committed
  have held : (state.point p).Holds lk .ptable := by
    rw [scans]
    exact Or.inr ⟨rfl, trivial⟩
  have outside : ¬(state.point q).InPtable := fun inside =>
    isP (protocol.owners.unique (Or.inr ⟨rfl, inside⟩) held)
  have entry := protocol.entry q
  rw [stepped.point_of_ne isP, stepped.table, scans]
  dsimp only [Point.table]
  rw [wakeSlot_apply]
  generalize state.point q = old at committed outside entry
  cases old with
  | suspended =>
    have asleep : (state.table q).state = .sleeping := committed
    rw [if_pos ⟨rfl, asleep, entry.marked trivial⟩]
    exact nofun
  | setChan | setSleeping | sched | switched | chosen => exact absurd trivial outside
  | _ => exact absurd committed id

theorem Protocol.pending_step (committed : (next.point q).Committed (next.table q))
    (holds : next.cond = true) :
    ∃ waker, (next.point waker).Waking q := by
  by_cases produces : state.point p = .produce
  · have move := stepped.move
    rw [produces] at move
    cases move with
    | produce =>
      refine ⟨p, ?_⟩
      rw [stepped.point_self]
      trivial
  · have held := stepped.cond_before holds produces
    have before := protocol.committed_before stepped committed held
    rcases protocol.pending q before held with ⟨waker, waking⟩
    by_cases isP : waker = p
    · subst isP
      refine ⟨waker, ?_⟩
      rw [stepped.point_self]
      have move := stepped.move
      have notPassed : ∀ rest, state.point waker = .scan (q :: rest) →
          ¬(next.point q).Committed (next.table q) :=
        fun _ scans => protocol.not_passed stepped scans before
      generalize state.point waker = old at move waking notPassed
      cases move with
      | wakeup | wakeup1 => exact List.mem_finRange q
      | scan first rest =>
        cases List.mem_cons.mp waking with
        | inl same =>
          subst same
          exact absurd committed (notPassed rest rfl)
        | inr later => exact later
      | scanned | scanned1 => cases waking
      | _ => exact absurd waking id
    · refine ⟨waker, ?_⟩
      rw [stepped.point_of_ne isP]
      exact waking

end

/-! ## Runs -/

theorem Protocol.step (protocol : Protocol lk chan state)
    (stepped : Stepped lk chan state p next grip target) : Protocol lk chan next where
  owners := by
    rw [stepped.point, stepped.holder]
    exact protocol.owners.move (stepped.move.changes (protocol.differs p)) stepped.free
  differs := by
    intro q here
    by_cases isP : q = p
    · subst isP
      rw [stepped.point_self] at here
      have move := stepped.move
      generalize state.point q = old at move
      subst here
      cases move with
      | takePtable differs => exact differs
    · rw [stepped.point_of_ne isP] at here
      exact protocol.differs q here
  entry := by
    intro q
    by_cases isP : q = p
    · subst isP
      rw [stepped.point_self]
      exact (protocol.entry q).move stepped
    · rw [stepped.point_of_ne isP]
      cases stepped.entry_of_ne isP with
      | inl same =>
        rw [same]
        exact protocol.entry q
      | inr woken =>
        rw [woken.1]
        exact (protocol.entry q).woken
  unmet := fun _ => protocol.unmet_step stepped
  pending := fun _ => protocol.pending_step stepped

end

theorem protocol_start (lk : Lock) (chan : Channel nproc) (cond : Bool) :
    Protocol lk chan (start nproc cond) where
  owners := by
    intro lock p
    simp [start, Point.Holds, Point.InLk, Point.InPtable]
  differs := nofun
  entry := fun p => ⟨nofun, nofun⟩
  unmet := by
    intro p here
    cases here with
    | inl impossible => cases impossible
    | inr impossible => cases impossible
  pending := fun p committed => absurd committed id

/-- While the lock is free and the condition holds, nobody sleeps. -/
theorem Protocol.nobody_sleeps {lk : Lock} {chan : Channel nproc} {state : State nproc}
    (protocol : Protocol lk chan state) (free : state.holder lk = none)
    (holds : state.cond = true) (p : Fin nproc) : (state.table p).state ≠ .sleeping := by
  intro sleeps
  have committed : (state.point p).Committed (state.table p) := by
    have parked := (protocol.entry p).asleep sleeps
    generalize state.point p = point at parked
    cases point with
    | sched | switched => trivial
    | suspended | chosen => exact sleeps
    | _ => exact absurd parked id
  rcases protocol.pending p committed holds with ⟨waker, waking⟩
  have held : (state.point waker).Holds lk lk := by
    refine Or.inl ⟨rfl, ?_⟩
    generalize state.point waker = point at waking
    cases point with
    | wakeup | scan slots => trivial
    | _ => exact absurd waking id
  rw [protocol.owners lk waker, free] at held
  cases held

/-- Whenever both locks are free and the condition holds, no process sleeps on the channel. -/
theorem no_wakeup_is_lost (nproc : Nat) (lk : Lock) (chan : Channel nproc) (cond : Bool)
    (state : State nproc)
    (reachable : Reachable (step lk chan) Unrestricted (start nproc cond) state)
    (free : state.holder lk = none ∧ state.holder .ptable = none) (holds : state.cond = true)
    (p : Fin nproc) :
    ¬((state.table p).state = .sleeping ∧ (state.table p).chan = some chan) := by
  have protocol := Reachable.invariant (Protocol lk chan) ?_ (protocol_start lk chan cond) reachable
  · exact fun sleeps => protocol.nobody_sleeps free.1 holds p sleeps.1
  · intro state action next protocol _ stepped
    rcases step_cases stepped with ⟨grip, target, kind⟩
    exact protocol.step kind

def sleepAndWake : List (Fin 2 × Action) :=
  [(0, .wait), (0, .go), (0, .go), (0, .go), (1, .wake), (1, .go), (0, .go), (0, .go), (0, .go),
    (0, .go), (1, .go), (1, .go), (1, .go), (1, .go), (1, .go)]

theorem no_wakeup_is_lost_two :
    ∃ state : State 2, Reachable (step .cond (.other 0)) Unrestricted (start 2 false) state ∧
      (state.holder .cond = none ∧ state.holder .ptable = none) ∧ state.cond = true ∧
      (state.table 0).chan = some (.other 0) ∧
      ¬((state.table 0).state = .sleeping ∧ (state.table 0).chan = some (.other 0)) := by
  rcases exists_reachable (step .cond (.other 0)) Unrestricted (start 2 false) sleepAndWake
      (fun state => (state.holder .cond = none ∧ state.holder .ptable = none) ∧
        state.cond = true ∧ (state.table 0).chan = some (.other 0)) (by decide +kernel) with
    ⟨state, reachable, free, holds, marked⟩
  exact ⟨state, reachable, free, holds, marked,
    no_wakeup_is_lost 2 .cond (.other 0) false state reachable free holds 0⟩

end Xv6.Sleep
