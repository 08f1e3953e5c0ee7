import Xv6.Ptable.Family

/-! # Killing

`kill` looks for a pid in all slots, free ones included, and nothing but `wait` clears
`killed`. So a kill of a pid that a free slot carries, or of a process whose creation then
fails, hits the next process in the slot. In runs without these, a process that is marked
as killed has been named by a kill, or has had a fault, since it was created.
-/

namespace Xv6.Ptable

open Transition Table

variable {nproc ncpu : Nat}

variable {pid : Int32} {np : Fin nproc}

/-- Which processes have been named by a kill, or have had a fault, since they were
created. -/
def recordNamed (state : State nproc ncpu) (action : Fin ncpu × Action nproc)
    (_ : State nproc ncpu) (named : Fin nproc → Bool) : Fin nproc → Bool :=
  match action with
  | (_, .kill pid) => fun q =>
      named q || decide ((state.table q).state ≠ .unused ∧ (state.table q).pid = pid)
  | (c, .fault) =>
      match (state.cpus c).control with
      | .thread p none => Function.update named p true
      | _ => named
  | (c, .allocproc) =>
      match (state.cpus c).control, state.table.firstUnused with
      | .thread _ none, some np => Function.update named np false
      | _, _ => named
  | _ => named

/-- A kill names no free slot, and a child whose creation fails has not been killed. -/
def Aimed (state : State nproc ncpu) : Fin ncpu × Action nproc → Prop
  | (_, .kill pid) => ∀ q, (state.table q).state = .unused → (state.table q).pid ≠ pid
  | (c, .allocStack false) | (c, .copyProcess false) =>
      ∀ p np, (state.cpus c).control = .thread p none → (state.table p).point.child = some np →
        (state.table np).killed = false
  | _ => True

instance (state : State nproc ncpu) (action : Fin ncpu × Action nproc) :
    Decidable (Aimed state action) := by
  unfold Aimed
  split
  · infer_instance
  · infer_instance
  · infer_instance
  · infer_instance

def Attributed (table : Table nproc) (named : Fin nproc → Bool) : Prop :=
  ∀ q, (table q).killed = true → (table q).state ≠ .unused ∧ named q = true

section

variable {before after : Table nproc} {named : Fin nproc → Bool} {p np : Fin nproc}

section

variable (attributed : Attributed before named)
include attributed

theorem Attributed.keep (kept : ∀ q, (after q).killed = true → (before q).killed = true ∧
      ((before q).state ≠ .unused → (after q).state ≠ .unused)) : Attributed after named := by
  intro q killed
  have was := kept q killed
  have holds := attributed q was.1
  exact ⟨was.2 holds.1, holds.2⟩

theorem Attributed.harmless (harmless : Harmless before after)
    (killed : ∀ q, (after q).killed = (before q).killed) :
    Attributed after named := by
  apply attributed.keep
  have state := harmless.state
  grind

theorem Attributed.light (light : Light before after) : Attributed after named := by
  refine attributed.harmless light.harmless fun q => ?_
  rw [(light q).eq]

/-- One entry changes, and its slot is not free. -/
theorem Attributed.change (killed : (after p).killed = (before p).killed)
    (used : (after p).state ≠ .unused)
    (others : ∀ q, q ≠ p → after q = before q) : Attributed after named := by
  apply attributed.keep
  grind

theorem Attributed.fill {change : Proc nproc → Proc nproc} {point : Point nproc}
    (different : np ≠ p) (killed : (change (before np)).killed = (before np).killed)
    (used : (change (before np)).state = .unused → (before np).killed = false) :
    Attributed (before.fill p np change point) named := by
  apply attributed.keep
  grind

theorem Attributed.reap (child : Fin nproc) :
    Attributed (before.reap child) named := by
  apply attributed.keep
  grind

/-- A new process has not been killed, as its slot was free. -/
theorem Attributed.allocproc (unused : (before np).state = .unused)
    (alive : (before p).state.Alive) :
    Attributed (before.fill p np (fun proc => { proc with state := .embryo, pid := pid })
      (.allocated np)) (Function.update named np false) := by
  have different : np ≠ p := by
    intro same
    rw [← same, unused] at alive
    exact alive
  have notKilled : (before np).killed ≠ true := fun killed => (attributed np killed).1 unused
  have kept : Attributed (before.fill p np (fun proc => { proc with state := .embryo, pid := pid })
      (.allocated np)) named := attributed.fill different rfl nofun
  intro q killed
  have was := kept q killed
  have notNew : q ≠ np := by
    intro same
    rw [same, fill_child different] at killed
    exact notKilled killed
  rw [Function.update_of_ne notNew]
  exact was

theorem Attributed.fault (used : (before p).state ≠ .unused) :
    Attributed (before.modify p fun proc => { proc with killed := true })
      (Function.update named p true) := by
  intro q killed
  have was := attributed q
  grind [Function.update_apply]

end

end

/-! ## Steps -/

section

variable {state next entered : State nproc ncpu} {c : Fin ncpu} {p : Fin nproc}
  {action : Action nproc} {call : WaitCall} {named : Fin nproc → Bool}

theorem Entering.attributed (entering : Entering state c p call action entered)
    (attributed : Attributed state.table named) :
    Attributed entered.table named ∧ ∀ next, recordNamed state (c, action) next named = named := by
  refine ⟨attributed.light entering.light, ?_⟩
  cases entering with
  | call _ _ _ | woken _ => exact fun _ => rfl

theorem Attributed.kill (attributed : Attributed state.table named)
    (aimed : ∀ q, (state.table q).state = .unused → (state.table q).pid ≠ pid) :
    Attributed (state.table.kill pid).1
      (recordNamed state (c, .kill pid) next named) := by
  intro q killed
  rw [kill_apply] at killed ⊢
  dsimp only [recordNamed]
  by_cases first : state.table.firstPid pid = some q
  · have carries := firstPid_some first
    have used : (state.table q).state ≠ .unused := fun unused => aimed q unused carries
    rw [if_pos first]
    refine ⟨?_, ?_⟩
    · dsimp only
      split
      · exact nofun
      · exact used
    · rw [Bool.or_eq_true]
      exact Or.inr (decide_eq_true ⟨used, carries⟩)
  · rw [if_neg first] at killed ⊢
    have was := attributed q killed
    refine ⟨was.1, ?_⟩
    rw [was.2]
    rfl

theorem Sound.child_used (sound : Sound state.table state.cpus state.lock)
    (isChild : (state.table p).point.child = some np) : (state.table np).state ≠ .unused := by
  rw [sound.forking.embryo p np isChild]
  exact nofun

theorem Sound.child_ne (sound : Sound state.table state.cpus state.lock)
    (control : (state.cpus c).control = .thread p none)
    (isChild : (state.table p).point.child = some np) : np ≠ p := by
  intro same
  have alive := sound.alive_of_thread control
  rw [← same, sound.forking.embryo p np isChild] at alive
  exact alive

theorem Stepped.attributed (stepped : Stepped state c action next)
    (sound : Sound state.table state.cpus state.lock) (aimed : Aimed state (c, action))
    (attributed : Attributed state.table named) :
    Attributed next.table (recordNamed state (c, action) next named) := by
  have ticketed : Attributed (state.tickets c).1 named := attributed.light (.tickets state c)
  cases stepped with
  | idle control free nobody => exact ticketed
  | @dispatch p control free drawn =>
    have dispatched : Attributed ((state.tickets c).1.modify p fun proc =>
        { proc with state := .running, context := none }) named := by
      apply ticketed.change (p := p)
      all_goals grind
    exact dispatched
  | finish control | forkret control | yielded control => exact attributed
  | @slept p control => exact attributed.light (.clearChan state.table p)
  | reap entering found =>
    rcases entering.attributed attributed with ⟨entered, same⟩
    rw [same]
    exact entered.reap _
  | waitFails entering none stops =>
    rcases entering.attributed attributed with ⟨entered, same⟩
    rw [same]
    exact entered
  | @waitSleeps p call action entered entering none waits =>
    rcases entering.attributed attributed with ⟨enteredAttributed, same⟩
    rw [same]
    apply enteredAttributed.change (p := p)
    all_goals grind
  | wakeup address free => exact attributed.light (.wakeup1 _ _)
  | tick free =>
    exact attributed.harmless (.of_state (fun _ => rfl) (fun _ => rfl) (fun _ => rfl))
      (fun _ => rfl)
  | @yield p control free | @sleep p address control free outside =>
    apply attributed.change (p := p)
    all_goals grind
  | @exit p status control free outside notInit =>
    have passed : Attributed (state.exitTable p) named := by
      apply attributed.harmless (.exitTable state p)
      intro q
      rw [(state.exited_exitTable q).eq]
    apply passed.change (p := p)
    all_goals grind
  | allocFails control free full =>
    dsimp only [recordNamed]
    rw [control, full]
    exact attributed
  | @allocproc p np control free outside found =>
    dsimp only [recordNamed]
    rw [control, found]
    exact attributed.allocproc (unused_of_firstUnused found)
      (sound.alive_of_thread control)
  | @allocStack p np available control point | @copyProcess p np available control point =>
    have different := sound.child_ne control (by rw [point]; rfl)
    cases available with
    | true =>
      apply attributed.fill different
      · rfl
      · exact fun free => absurd free (sound.child_used (by rw [point]; rfl))
    | false => exact attributed.fill different rfl fun _ => aimed p np control (by rw [point]; rfl)
  | @publish p np control free point =>
    exact attributed.fill (sound.child_ne control (by rw [point]; rfl)) rfl nofun
  | kill pid control free outside => exact attributed.kill aimed
  | @fault p control outside =>
    dsimp only [recordNamed]
    rw [control]
    have used : (state.table p).state ≠ .unused := by
      rw [(sound.exclusive.thread c p none control).2.2]
      exact nofun
    exact attributed.fault used
  | @priority p pr control outside =>
    rw [State.priority]
    split
    · exact attributed.light (.priority state.table p pr)
    · exact attributed
  | @policy p pl policy control outside known => exact attributed.light (.setVisit state.table p _)
  | @visit p visit control visiting => exact attributed.light (.visit state.table p visit)

theorem Stepped.new_not_killed (stepped : Stepped state c .allocproc next)
    (sound : Sound state.table state.cpus state.lock) (attributed : Attributed state.table named)
    (found : state.table.firstUnused = some np) : (next.table np).killed = false := by
  have unused := unused_of_firstUnused found
  have notKilled : (state.table np).killed ≠ true := fun killed => (attributed np killed).1 unused
  cases stepped with
  | allocFails control free full =>
    rw [full] at found
    cases found
  | @allocproc p np' control free outside found' =>
    cases found.symm.trans found'
    have different : np ≠ p := by
      intro same
      have alive := sound.alive_of_thread control
      rw [← same, unused] at alive
      exact alive
    dsimp only
    rw [fill_child different]
    exact Bool.eq_false_iff.mpr notKilled
  | reap entering => cases entering
  | waitFails entering => cases entering
  | waitSleeps entering => cases entering

end

/-! ## Runs -/

/-- What `kill` has to do: it reports whether the process exists, and changes only that
process. -/
structure KillsTarget (table : Table nproc) (pid : Int32) : Prop where
  returns : (table.kill pid).2 = 0 ↔ ∃ p, (table p).state ≠ .unused ∧ (table p).pid = pid
  target : (table.kill pid).2 = 0 → ∃ p, (table p).state ≠ .unused ∧ (table p).pid = pid ∧
    ((table.kill pid).1 p).killed = true ∧ ∀ q, q ≠ p → (table.kill pid).1 q = table q
  missing : (table.kill pid).2 ≠ 0 → (table.kill pid).2 = -1 ∧ (table.kill pid).1 = table

theorem killsTarget {table : Table nproc}
    (aimed : ∀ q, (table q).state = .unused → (table q).pid ≠ pid) : KillsTarget table pid := by
  cases first : table.firstPid pid with
  | none =>
    have result : table.kill pid = (table, -1) := by rw [kill, first]
    constructor
    · rw [result]
      constructor
      · intro zero
        cases zero
      · intro exists'
        rcases exists' with ⟨p, _, carries⟩
        exact absurd carries (firstPid_none first p)
    · rw [result]
      intro zero
      cases zero
    · rw [result]
      exact fun _ => ⟨rfl, rfl⟩
  | some p =>
    have carries := firstPid_some first
    have used : (table p).state ≠ .unused := fun unused => aimed p unused carries
    have result : (table.kill pid).2 = 0 := by rw [kill, first]
    constructor
    · exact ⟨fun _ => ⟨p, used, carries⟩, fun _ => result⟩
    · intro _
      refine ⟨p, used, carries, ?_, ?_⟩
      · rw [kill_apply, if_pos first]
      · intro q different
        rw [kill_apply, if_neg]
        intro isFirst
        exact different (Option.some.inj (isFirst.symm.trans first))
    · exact fun failed => absurd result failed

theorem attributed_booted (nproc ncpu : Nat) :
    Attributed (booted nproc ncpu).table fun _ => false := by
  intro q killed
  dsimp only [booted] at killed
  split at killed
  · cases killed
  · cases killed

def KillRun (nproc ncpu : Nat)
    (allowed : State (nproc + 1) ncpu → Fin ncpu × Action (nproc + 1) → Prop)
    (both : State (nproc + 1) ncpu × (Fin (nproc + 1) → Bool)) : Prop :=
  Reachable (recorded step recordNamed) (fun both => allowed both.1)
    (booted nproc ncpu, fun _ => false) both

theorem KillRun.attributed {both : State (nproc + 1) ncpu × (Fin (nproc + 1) → Bool)}
    (ran : KillRun nproc ncpu Aimed both) :
    Sound both.1.table both.1.cpus both.1.lock ∧ Attributed both.1.table both.2 := by
  apply Reachable.invariant (fun both : State (nproc + 1) ncpu × (Fin (nproc + 1) → Bool) =>
    Sound both.1.table both.1.cpus both.1.lock ∧ Attributed both.1.table both.2) ?_ ?_ ran
  · intro before action after holds aimed both
    rcases recorded_eq_some.mp both with ⟨stepped, isRecord⟩
    have kind := step_cases stepped
    rw [isRecord]
    exact ⟨kind.sound holds.1, kind.attributed holds.1 aimed holds.2⟩
  · exact ⟨sound_booted nproc ncpu, attributed_booted nproc ncpu⟩

/-- In runs in which no kill names a free slot and no killed child is abandoned, `kill` hits
its target, a process starts without having been killed, and is killed only by a kill that
names it or by its own fault. -/
theorem kill_hits_its_target (nproc ncpu : Nat)
    (state : State (nproc + 1) ncpu) (named : Fin (nproc + 1) → Bool)
    (ran : KillRun nproc ncpu Aimed (state, named)) :
    (∀ c pid, Aimed state (c, .kill pid) → KillsTarget state.table pid) ∧
    (∀ c np next, state.table.firstUnused = some np → step state (c, .allocproc) = some next →
      (next.table np).killed = false) ∧
    ∀ p, (state.table p).state ≠ .unused → (state.table p).killed = true → named p = true := by
  rcases ran.attributed with ⟨sound, attributed⟩
  refine ⟨?_, ?_, ?_⟩
  · intro c pid aimed
    exact killsTarget aimed
  · intro c np next found stepped
    exact (step_cases stepped).new_not_killed sound attributed found
  · intro p _ killed
    exact (attributed p killed).2

/-- A machine with two slots: the first process forks, kills its child and waits for it. -/
def killChild : List (Fin 1 × Action 2) :=
  [(0, .schedule), (0, .resume), (0, .allocproc), (0, .allocStack true), (0, .copyProcess true),
    (0, .publish), (0, .kill 2)]

theorem kill_hits_its_target_child :
    ∃ state named, KillRun 1 1 Aimed (state, named) ∧ (state.table 1).killed = true ∧
      named 1 = true ∧ KillsTarget state.table 1 := by
  rcases exists_reachable (recorded step recordNamed)
      (fun both : State 2 1 × (Fin 2 → Bool) => Aimed both.1) (booted 1 1, fun _ => false) killChild
      (fun both => (both.1.table 1).state ≠ .unused ∧ (both.1.table 1).killed = true ∧
        ∀ q, (both.1.table q).state = .unused → (both.1.table q).pid ≠ 1) (by decide +kernel) with
    ⟨⟨state, named⟩, killRun, used, killed, fresh⟩
  have holds := kill_hits_its_target 1 1 state named killRun
  exact ⟨state, named, killRun, killed, holds.2.2 1 used killed, holds.1 0 1 fresh⟩

/-- The first process kills the number 0, which belongs to no process. -/
def killZero : List (Fin 1 × Action 2) :=
  [(0, .schedule), (0, .resume), (0, .kill 0)]

def forkChild : List (Fin 1 × Action 2) :=
  [(0, .allocproc), (0, .allocStack true), (0, .copyProcess true), (0, .publish)]

/-- `kill(0)` reports success although no process has that number, and the next process
starts as a killed one. -/
theorem kill_zero_hits_next_process :
    (∃ state named, KillRun 1 1 Unrestricted (state, named) ∧ (state.table.kill 0).2 = 0 ∧
      ¬∃ p, (state.table p).state ≠ .unused ∧ (state.table p).pid = 0) ∧
    ∃ state named, KillRun 1 1 Unrestricted (state, named) ∧
      (state.table 1).state = .runnable ∧ (state.table 1).killed = true ∧ named 1 = false := by
  have reaches := exists_reachable (recorded step recordNamed)
    (fun both : State 2 1 × (Fin 2 → Bool) => Unrestricted both.1) (booted 1 1, fun _ => false)
  constructor
  · rcases reaches killZero (fun both => (both.1.table.kill 0).2 = 0 ∧
        ¬∃ p, (both.1.table p).state ≠ .unused ∧ (both.1.table p).pid = 0) (by decide +kernel) with
      ⟨⟨state, named⟩, killRun, facts⟩
    exact ⟨state, named, killRun, facts⟩
  · rcases reaches (killZero ++ forkChild) (fun both => (both.1.table 1).state = .runnable ∧
        (both.1.table 1).killed = true ∧ both.2 1 = false) (by decide +kernel) with
      ⟨⟨state, named⟩, killRun, facts⟩
    exact ⟨state, named, killRun, facts⟩

end Xv6.Ptable
