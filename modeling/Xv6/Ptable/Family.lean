import Xv6.Ptable.Exclusive

/-! # Parents and children

Every process other than the first has a parent that has not exited, and a process
that sleeps in `wait` has no child that has exited. The two need each other: a child
that exits wakes its parent up, and a parent that exits passes its children on to
`init`, which is woken up if one of them has exited already.
-/

namespace Xv6.Ptable

open Transition

variable {nproc ncpu : Nat}

/-- A process that has been created and not yet freed. -/
@[grind]
def ProcState.Born : ProcState → Prop
  | .sleeping | .runnable | .running | .zombie => True
  | .unused | .embryo => False

@[grind →]
theorem ProcState.Alive.born {state : ProcState} (alive : state.Alive) : state.Born := by
  cases state with
  | sleeping | runnable | running => trivial
  | unused | embryo | zombie => exact absurd alive id

/-- A process that sleeps in `wait` or `wait_stat`. -/
@[grind]
def Table.Waiting (table : Table nproc) (p : Fin nproc) : Prop :=
  (table p).state = .sleeping ∧ (table p).chan = some (.proc p)

structure Family (table : Table nproc) (initproc : Fin nproc) : Prop where
  init : (table initproc).state.Alive
  root : (table initproc).parent = none
  proper : ∀ p, (table p).parent ≠ some p
  waiting : ∀ p, table.Waiting p → ∀ q, (table q).parent = some p → (table q).state ≠ .zombie
  parent : ∀ p, p ≠ initproc → (table p).state.Born →
    ∃ q, (table p).parent = some q ∧ (table q).state.Alive
  copied : ∀ p np, (table p).point = .copied np → (table np).parent = some p

section

variable {before after : Table nproc} {initproc p q np child : Fin nproc}

/-- Processes change their state, but none is created, exits or is freed. -/
structure Steady (before after : Table nproc) : Prop where
  alive : ∀ q, (before q).state.Alive → (after q).state.Alive
  zombie : ∀ q, (after q).state = .zombie → (before q).state = .zombie
  born : ∀ q, (after q).state.Born → (before q).state.Born
  parent : ∀ q, (after q).parent = (before q).parent
  point : ∀ q, (after q).point = (before q).point

theorem Family.steady (family : Family before initproc) (steady : Steady before after)
    (waiting : ∀ p, after.Waiting p → before.Waiting p ∨
      ∀ q, (before q).parent = some p → (before q).state ≠ .zombie) : Family after initproc := by
  rcases family with ⟨init, root, proper, wasWaiting, parent, copied⟩
  rcases steady with ⟨alive, zombie, born, sameParent, samePoint⟩
  constructor
  all_goals grind

theorem Harmless.steady (harmless : Harmless before after)
    (parent : ∀ q, (after q).parent = (before q).parent) : Steady before after := by
  rcases harmless with ⟨state, context, point⟩
  constructor
  all_goals grind

section

variable (family : Family before initproc)
include family

theorem Family.harmless (harmless : Harmless before after)
    (parent : ∀ q, (after q).parent = (before q).parent)
    (chan : ∀ q, (after q).chan = (before q).chan ∨ (after q).chan = none) :
    Family after initproc := by
  apply family.steady (harmless.steady parent)
  have state := harmless.state
  grind

theorem Family.light (light : Light before after) : Family after initproc := by
  refine family.harmless light.harmless ?_ fun q => (light q).chan
  intro q
  rw [(light q).eq]

theorem Family.kill (pid : Int32) :
    Family (before.kill pid).1 initproc := by
  apply family.harmless (.kill before pid)
  all_goals grind [Table.kill_apply]

theorem Family.change (wasAlive : (before p).state.Alive) (alive : (after p).state.Alive)
    (parent : (after p).parent = (before p).parent) (point : (after p).point = (before p).point)
    (others : ∀ q, q ≠ p → after q = before q)
    (waiting : after.Waiting p → ∀ q, (before q).parent = some p → (before q).state ≠ .zombie) :
    Family after initproc := by
  apply family.steady
  · constructor
    all_goals grind
  · grind

theorem Family.dispatch (runnable : (before p).state = .runnable) :
    Family (before.modify p fun proc => { proc with state := .running, context := none })
      initproc := by
  apply family.change (p := p)
  all_goals grind

theorem Family.reap (forking : Forking before)
    (zombie : (before child).state = .zombie) : Family (before.reap child) initproc := by
  rcases family with ⟨init, root, proper, waiting, parent, copied⟩
  rcases forking with ⟨idle, embryo, unique, context⟩
  -- What is alive or an embryo stays, as it is not the zombie.
  have kept : ∀ q, (before q).state.Alive → before.reap child q = before q := by grind
  constructor
  all_goals grind

/-- Process `p` changes the slot of the child it is about to create. -/
theorem Family.fill {change : Proc nproc → Proc nproc} {point : Point nproc}
    (alive : (before p).state.Alive) (unborn : ¬(before np).state.Born)
    (owned : ∀ q, q ≠ p → (before q).point.child ≠ some np)
    (bare : (change (before np)).point = .outside) (fresh : ¬(change (before np)).state.Born ∨
      (change (before np)).state = .runnable ∧ (change (before np)).parent = some p)
    (proper : (change (before np)).parent ≠ some np)
    (copied : ∀ child, point = .copied child → child = np ∧ (change (before np)).parent = some p) :
    Family (before.fill p np change point) initproc := by
  have different : np ≠ p := by
    intro same
    rw [same] at unborn
    exact unborn alive.born
  have aliveKept : ∀ q, (before q).state.Alive →
      (before.fill p np change point q).state.Alive := by
    grind
  rcases family with ⟨init, root, wasProper, waiting, parent, wasCopied⟩
  constructor
  · exact aliveKept initproc init
  · grind
  · grind
  · grind
  · intro q notInit born
    by_cases isNp : q = np
    · grind
    · rcases parent q notInit (by grind) with ⟨x, isParent, parentAlive⟩
      exact ⟨x, by grind, aliveKept x parentAlive⟩
  · grind

end

end

/-! ## Exit -/

section

variable {state : State nproc ncpu} {c : Fin ncpu} {p : Fin nproc}

theorem Family.exit (family : Family state.table state.initproc) (status : Int32)
    (running : (state.table p).state = .running) (outside : (state.table p).point = .outside)
    (notInit : p ≠ state.initproc) :
    Family (state.exit c p status).table state.initproc := by
  have exited := fun q => state.exited_exitTable (p := p) q
  have harmless : Harmless state.table (state.exitTable p) := .exitTable state p
  have atP := (state.exit_apply (c := c) (p := p) status p).trans (if_pos rfl)
  have others : ∀ q, q ≠ p → (state.exit c p status).table q = state.exitTable p q :=
    fun q different => (state.exit_apply status q).trans (if_neg different)
  have parents : ∀ q, ((state.exit c p status).table q).parent =
      if (state.table q).parent = some p then some state.initproc else (state.table q).parent := by
    intro q
    by_cases same : q = p
    · rw [same, atP, (exited p).eq]
    · rw [others q same, (exited q).eq]
  have alive : ∀ q, q ≠ p → (state.table q).state.Alive →
      ((state.exit c p status).table q).state.Alive := by
    intro q different qAlive
    rw [others q different]
    exact harmless.alive q qAlive
  have kept := harmless.state
  have points := harmless.point
  rcases family with ⟨init, root, proper, waiting, parent, copied⟩
  constructor
  · exact alive _ (Ne.symm notInit) init
  · grind
  · grind
  · intro x isWaiting q isChild isZombie
    have chan : (state.exitTable p x).chan = (state.table x).chan := by rw [(exited x).eq]
    -- The waiting process has not been woken up.
    have asleep : (state.table x).state = .sleeping := by grind
    have notWoken : ¬state.ExitWakes p (state.table x).chan := by
      intro wakes
      have woken := (exited x).woken asleep wakes
      grind
    have sleepsOn : (state.table x).chan = some (.proc x) := by grind
    rw [parents] at isChild
    by_cases isP : q = p
    · rw [isP, if_neg (proper p)] at isChild
      exact notWoken (Or.inl ⟨x, isChild, sleepsOn⟩)
    · have zombie : (state.table q).state = .zombie := by grind
      split at isChild
      · rename_i wasChild
        have isInit : state.initproc = x := Option.some.inj isChild
        refine notWoken (Or.inr ⟨?_, q, wasChild, zombie⟩)
        rw [isInit]
        exact sleepsOn
      · exact waiting x ⟨asleep, sleepsOn⟩ q isChild zombie
  · intro q qNotInit born
    have wasBorn : (state.table q).state.Born := by grind
    rcases parent q qNotInit wasBorn with ⟨x, isParent, parentAlive⟩
    rw [parents, isParent]
    split
    · exact ⟨state.initproc, rfl, alive _ (Ne.symm notInit) init⟩
    · rename_i notChild
      refine ⟨x, rfl, alive x ?_ parentAlive⟩
      intro same
      exact notChild (by rw [same])
  · grind

end

/-! ## Steps -/

section

variable {state next entered : State nproc ncpu} {c : Fin ncpu} {p : Fin nproc}
  {action : Action nproc} {call : WaitCall}

theorem Entering.family (entering : Entering state c p call action entered)
    (family : Family state.table state.initproc) :
    Family entered.table entered.initproc := by
  cases entering with
  | call _ _ _ => exact family
  | woken _ => exact family.light (.clearChan state.table p)

theorem Sound.alive_of_thread {resumed : Option Resume}
    (sound : Sound state.table state.cpus state.lock)
    (control : (state.cpus c).control = .thread p resumed) : (state.table p).state.Alive := by
  rw [(sound.exclusive.thread c p resumed control).2.2]
  trivial

theorem Sound.not_born_child {np : Fin nproc} (sound : Sound state.table state.cpus state.lock)
    (isChild : (state.table p).point.child = some np) :
    ¬(state.table np).state.Born ∧ (state.table np).point = .outside ∧
      ∀ q, q ≠ p → (state.table q).point.child ≠ some np := by
  have embryo := sound.forking.embryo p np isChild
  refine ⟨?_, ?_, ?_⟩
  · rw [embryo]
    exact id
  · apply sound.forking.idle
    rw [embryo]
    exact id
  · intro q different other
    exact different (sound.forking.unique q p np other isChild)

theorem Stepped.family (stepped : Stepped state c action next)
    (sound : Sound state.table state.cpus state.lock)
    (family : Family state.table state.initproc) : Family next.table next.initproc := by
  have ticketed : Family (state.tickets c).1 state.initproc := family.light (.tickets state c)
  cases stepped with
  | idle control free nobody => exact ticketed
  | dispatch control free drawn => exact ticketed.dispatch (Table.runnable_of_findTicket drawn)
  | finish control | forkret control | yielded control | allocFails control free full =>
    exact family
  | @slept p control => exact family.light (.clearChan state.table p)
  | reap entering found =>
    exact (entering.family family).reap (entering.sound sound).1.forking
      (Table.zombieChild_some found).2
  | waitFails entering none stops => exact entering.family family
  | @waitSleeps p call action entered entering none waits =>
    rcases entering.sound sound with ⟨soundEntered, own, same, taken, resumed, control⟩
    rw [← same] at control
    have running := (soundEntered.exclusive.thread c p resumed control).2.2
    have noZombie := Table.zombieChild_none none
    apply (entering.family family).change (p := p)
    all_goals grind
  | wakeup address free => exact family.light (.wakeup1 _ _)
  | tick free =>
    exact family.harmless (.of_state (fun _ => rfl) (fun _ => rfl) (fun _ => rfl)) (fun _ => rfl)
      (fun _ => Or.inl rfl)
  | @yield p control free | @sleep p address control free outside =>
    apply family.change (p := p) (sound.alive_of_thread control)
    all_goals grind
  | @exit p status control free outside notInit =>
    have running := (sound.exclusive.thread c p none control).2.2
    exact @Family.exit _ _ (state.acquire c) _ _ family status running outside notInit
  | @allocproc p np control free outside found =>
    have unused := Table.unused_of_firstUnused found
    apply family.fill (sound.alive_of_thread control)
    · rw [unused]
      exact id
    · intro q _ isChild
      have embryo := sound.forking.embryo q np isChild
      rw [unused] at embryo
      cases embryo
    · exact sound.forking.idle np (by rw [unused]; exact id)
    · exact Or.inl id
    · exact family.proper np
    · exact nofun
  | @allocStack p np available control point =>
    rcases sound.not_born_child (by rw [point]; rfl) with ⟨unborn, outside, owned⟩
    cases available with
    | true =>
      apply family.fill (sound.alive_of_thread control) unborn owned
      · rfl
      · exact Or.inl unborn
      · exact family.proper np
      · exact nofun
    | false =>
      apply family.fill (sound.alive_of_thread control) unborn owned
      · exact outside
      · exact Or.inl id
      · exact family.proper np
      · exact nofun
  | @copyProcess p np available control point =>
    rcases sound.not_born_child (by rw [point]; rfl) with ⟨unborn, outside, owned⟩
    have alive := sound.alive_of_thread control
    cases available with
    | true =>
      apply family.fill alive unborn owned
      · exact outside
      · exact Or.inl unborn
      · intro same
        rw [← Option.some.inj same] at unborn
        exact unborn alive.born
      · intro child isCopied
        cases isCopied
        exact ⟨rfl, rfl⟩
    | false =>
      apply family.fill alive unborn owned
      · exact outside
      · exact Or.inl id
      · exact family.proper np
      · exact nofun
  | @publish p np control free point =>
    rcases sound.not_born_child (by rw [point]; rfl) with ⟨unborn, outside, owned⟩
    apply family.fill (sound.alive_of_thread control) unborn owned
    · exact outside
    · exact Or.inr ⟨rfl, family.copied p np point⟩
    · exact family.proper np
    · exact nofun
  | kill pid control free outside => exact family.kill pid
  | @fault p control outside =>
    apply family.harmless (.fault state.table p)
    all_goals grind [State.modify]
  | @priority p pr control outside =>
    rw [State.priority]
    split
    · exact family.light (.priority state.table p pr)
    · exact family
  | @policy p pl policy control outside known => exact family.light (.setVisit state.table p _)
  | @visit p visit control visiting => exact family.light (.visit state.table p visit)

end

/-! ## Runs -/

theorem family_booted (nproc ncpu : Nat) :
    Family (booted nproc ncpu).table (booted nproc ncpu).initproc := by
  have others : ∀ p, p ≠ 0 → (booted nproc ncpu).table p = Proc.zero :=
    fun p notInit => if_neg notInit
  have parent : ∀ p, ((booted nproc ncpu).table p).parent = none := by
    intro p
    dsimp only [booted]
    split
    · rfl
    · rfl
  constructor
  · trivial
  · rfl
  · intro p
    rw [parent]
    exact nofun
  · intro p _ q isChild
    rw [parent] at isChild
    cases isChild
  · intro p notInit born
    rw [others p notInit] at born
    exact absurd born id
  · intro p np copied
    by_cases isInit : p = 0
    · rw [isInit] at copied
      cases copied
    · rw [others p isInit] at copied
      cases copied

theorem reachable_family {allowed : State (nproc + 1) ncpu → Fin ncpu × Action (nproc + 1) → Prop}
    {state : State (nproc + 1) ncpu}
    (reachable : Reachable step allowed (booted nproc ncpu) state) :
    Sound state.table state.cpus state.lock ∧ Family state.table state.initproc := by
  refine Reachable.invariant
    (fun state => Sound state.table state.cpus state.lock ∧ Family state.table state.initproc) ?_
    ⟨sound_booted nproc ncpu, family_booted nproc ncpu⟩ reachable
  intro state action next both _ stepped
  exact ⟨(step_cases stepped).sound both.1, (step_cases stepped).family both.1 both.2⟩

/-- A process that sleeps in `wait` or `wait_stat` has no exited child, and every process
but the first has a parent that has not exited. -/
theorem no_parent_sleeps_past_zombie (nproc ncpu : Nat) (state : State (nproc + 1) ncpu)
    (reachable : Reachable step Unrestricted (booted nproc ncpu) state) :
    (∀ p, (state.table p).state = .sleeping → (state.table p).chan = some (.proc p) →
      ∀ q, (state.table q).parent = some p → (state.table q).state ≠ .zombie) ∧
    ∀ p, p ≠ state.initproc → (state.table p).state ≠ .unused → (state.table p).state ≠ .embryo →
      ∃ q, (state.table p).parent = some q ∧
        ((state.table q).state = .sleeping ∨ (state.table q).state = .runnable ∨
          (state.table q).state = .running) := by
  have family := (reachable_family reachable).2
  constructor
  · intro p asleep chan q isChild
    exact family.waiting p ⟨asleep, chan⟩ q isChild
  · intro p notInit used created
    have born : (state.table p).state.Born := by
      cases isState : (state.table p).state with
      | unused => exact absurd isState used
      | embryo => exact absurd isState created
      | sleeping | runnable | running | zombie => trivial
    rcases family.parent p notInit born with ⟨q, isParent, alive⟩
    refine ⟨q, isParent, ?_⟩
    cases isState : (state.table q).state with
    | sleeping => exact Or.inl rfl
    | runnable => exact Or.inr (Or.inl rfl)
    | running => exact Or.inr (Or.inr rfl)
    | unused | embryo | zombie =>
      rw [isState] at alive
      exact absurd alive id

def forkAndWait : List (Fin 2 × Action 2) :=
  [(0, .schedule), (0, .resume), (0, .allocproc), (0, .allocStack true), (0, .copyProcess true),
    (0, .publish), (0, .wait (.wait true)), (0, .finish)]

theorem no_parent_sleeps_past_zombie_fork :
    ∃ state, run step Unrestricted (booted 1 2) forkAndWait = some state ∧
      (state.table 0).state = .sleeping ∧ (state.table 0).chan = some (.proc 0) ∧
      (state.table 1).parent = some 0 ∧ (state.table 1).state ≠ .zombie := by
  have ran : (run step Unrestricted (booted 1 2) forkAndWait).any
      (fun state => (state.table 0).state = .sleeping ∧ (state.table 0).chan = some (.proc 0) ∧
        (state.table 1).parent = some 0) = true := by
    decide +kernel
  rcases (Option.any_eq_true _ _).mp ran with ⟨state, reached, facts⟩
  rcases of_decide_eq_true facts with ⟨asleep, chan, isChild⟩
  have kept := no_parent_sleeps_past_zombie 1 2 state (.of_run _ .refl reached)
  exact ⟨state, reached, asleep, chan, isChild, kept.1 0 asleep chan 1 isChild⟩

end Xv6.Ptable
