import Xv6.Ptable.Family

/-! # Exit statuses

Every run is recorded in a chronicle: which process is in which slot, who created it,
which processes have exited with what, and what `wait` and `wait_stat` have returned.
A process that has exited is returned once at most, to its parent, with what it passed
to `exit`.
-/

namespace Xv6.Ptable

open Transition State
open Function (update update_apply)

variable {nproc ncpu : Nat}

/-- What a process leaves behind when it exits. Processes are numbered as they are
created, as slots and even pids are used again. -/
structure Exit where
  process : Nat
  pid : Int32
  status : Int32
  performance : Perf

/-- A child returned by a call of `wait` or `wait_stat`. -/
structure Return where
  caller : Nat
  process : Nat
  call : WaitCall
  pid : Int32
  status : Option Int32
  performance : Option Perf

structure Chronicle (nproc : Nat) where
  process : Fin nproc → Nat
  created : Nat
  creator : Nat → Option Nat
  exits : List Exit
  returns : List Return

def Chronicle.recordReturn (chronicle : Chronicle nproc) (state : State nproc ncpu) (c : Fin ncpu)
    (action : Action nproc) : Chronicle nproc :=
  match waitCall state c action, waitReturns state c action with
  | some (p, call), some (.reaped reaped) =>
      { chronicle with
        returns := ⟨chronicle.process p, chronicle.process reaped.child, call, reaped.pid,
          reaped.status, reaped.performance⟩ :: chronicle.returns }
  | _, _ => chronicle

def Chronicle.record (state : State nproc ncpu) (action : Fin ncpu × Action nproc)
    (next : State nproc ncpu) (chronicle : Chronicle nproc) : Chronicle nproc :=
  match action with
  | (c, .allocproc) =>
      match (state.cpus c).control, state.table.firstUnused with
      | .thread p none, some np =>
          { chronicle with
            process := update chronicle.process np chronicle.created
            created := chronicle.created + 1
            creator := update chronicle.creator chronicle.created
              (some (chronicle.process p)) }
      | _, _ => chronicle
  | (c, .exit status) =>
      match (state.cpus c).control with
      | .thread p none =>
          { chronicle with
            exits := ⟨chronicle.process p, (state.table p).pid, status, (next.table p).perf⟩ ::
              chronicle.exits }
      | _ => chronicle
  | (c, .wait call) => chronicle.recordReturn state c (.wait call)
  | (c, .resume) => chronicle.recordReturn state c .resume
  | _ => chronicle

/-- Before anything has been created, every slot counts as a process of its own. -/
def Chronicle.start (nproc : Nat) : Chronicle nproc where
  process := fun p => p.val
  created := nproc
  creator := fun _ => none
  exits := []
  returns := []

/-! ## The invariant -/

structure Delivers (returned : Return) (exited : Exit) : Prop where
  process : returned.process = exited.process
  pid : returned.pid = exited.pid
  status : returned.status = if returned.call.wantsStatus then some exited.status else none
  performance : returned.performance =
    if returned.call.wantsPerformance then some exited.performance else none

/-- The part of the entry of a process that `wait_stat` reads. -/
def Proc.remains (proc : Proc nproc) : Int32 × Int32 × Perf :=
  (proc.pid, proc.exitStatus, proc.perf)

/-- A process that is being created or has not exited. -/
@[grind]
def ProcState.Live (state : ProcState) : Prop := state.Alive ∨ state = .embryo

structure Recorded (table : Table nproc) (initproc : Fin nproc) (chronicle : Chronicle nproc) :
    Prop where
  bound : ∀ q, chronicle.process q < chronicle.created
  distinct : ∀ q r, chronicle.process q = chronicle.process r → q = r
  exitsBound : ∀ exited ∈ chronicle.exits, exited.process < chronicle.created
  zombie : ∀ q, (table q).state = .zombie → ∃ exited ∈ chronicle.exits,
    exited.process = chronicle.process q ∧
      (exited.pid, exited.status, exited.performance) = (table q).remains
  fresh : ∀ q, (table q).state = .zombie →
    chronicle.process q ∉ chronicle.returns.map Return.process
  live : ∀ q, (table q).state.Live → chronicle.process q ∉ chronicle.exits.map Exit.process
  exitOnce : (chronicle.exits.map Exit.process).Nodup
  returnOnce : (chronicle.returns.map Return.process).Nodup
  returned : ∀ returned ∈ chronicle.returns, ∃ exited ∈ chronicle.exits, Delivers returned exited
  creator : ∀ q, q ≠ initproc → (table q).state.Born → ∃ creator parent,
    chronicle.creator (chronicle.process q) = some creator ∧ (table q).parent = some parent ∧
      (chronicle.process parent = creator ∨
        parent = initproc ∧ creator ∈ chronicle.exits.map Exit.process)
  forking : ∀ p np, (table p).point.child = some np →
    chronicle.creator (chronicle.process np) = some (chronicle.process p)
  caller : ∀ returned ∈ chronicle.returns, ∃ creator,
    chronicle.creator returned.process = some creator ∧
      (returned.caller = creator ∨ returned.caller = chronicle.process initproc ∧
        creator ∈ chronicle.exits.map Exit.process)

/-- A step that creates no process, and in which none exits or is freed. -/
structure Calm (before after : Table nproc) : Prop where
  zombie : ∀ q, (after q).state = .zombie →
    (before q).state = .zombie ∧ (after q).remains = (before q).remains
  live : ∀ q, (after q).state.Live → (before q).state.Live
  born : ∀ q, (after q).state.Born →
    ((before q).state.Born ∧ (after q).parent = (before q).parent) ∨
      ∃ p, (before p).point.child = some q ∧ (after q).parent = some p
  child : ∀ p np, (after p).point.child = some np → (before p).point.child = some np

section

variable {before after : Table nproc} {initproc p np child : Fin nproc}
  {chronicle : Chronicle nproc}

theorem Recorded.calm (recorded : Recorded before initproc chronicle) (calm : Calm before after) :
    Recorded after initproc chronicle := by
  rcases recorded with ⟨bound, distinct, exitsBound, zombie, fresh, live, exitOnce, returnOnce,
    returned, creator, forking, caller⟩
  rcases calm with ⟨wasZombie, wasLive, wasBorn, child⟩
  constructor
  all_goals grind

theorem Harmless.calm (harmless : Harmless before after)
    (parent : ∀ q, (after q).parent = (before q).parent)
    (remains : ∀ q, (before q).state = .zombie → (after q).remains = (before q).remains) :
    Calm before after := by
  have steady := harmless.steady parent
  rcases harmless with ⟨state, context, point⟩
  rcases steady with ⟨alive, zombie, born, _, _⟩
  constructor
  all_goals grind

theorem Light.calm (light : Light before after) : Calm before after := by
  refine light.harmless.calm ?_ fun q _ => ?_
  · intro q
    rw [(light q).eq]
  · rw [(light q).eq]
    rfl

theorem Calm.kill (before : Table nproc) (pid : Int32) : Calm before (before.kill pid).1 := by
  apply Harmless.calm (.kill before pid)
  all_goals grind [Table.kill_apply, Proc.remains, Proc.perf]

theorem Calm.change (wasAlive : (before p).state.Alive) (alive : (after p).state.Alive)
    (parent : (after p).parent = (before p).parent) (point : (after p).point = (before p).point)
    (others : ∀ q, q ≠ p → after q = before q) : Calm before after := by
  constructor
  all_goals grind

theorem Calm.dispatch (runnable : (before p).state = .runnable) :
    Calm before (before.modify p fun proc => { proc with state := .running, context := none }) := by
  apply Calm.change (p := p)
  all_goals grind

theorem Calm.fill {change : Proc nproc → Proc nproc} {point : Point nproc}
    (alive : (before p).state.Alive) (isChild : (before p).point.child = some np)
    (embryo : (before np).state = .embryo) (bare : (change (before np)).point = .outside)
    (fresh : ¬(change (before np)).state.Born ∨
      (change (before np)).state = .runnable ∧ (change (before np)).parent = some p)
    (own : point.child = none ∨ point.child = some np) :
    Calm before (before.fill p np change point) := by
  have different : np ≠ p := by grind
  constructor
  all_goals grind

theorem Recorded.returned_mem_exits (recorded : Recorded before initproc chronicle) {process : Nat}
    (returned : process ∈ chronicle.returns.map Return.process) :
    process ∈ chronicle.exits.map Exit.process := by
  rcases List.mem_map.mp returned with ⟨return', member, same⟩
  rcases recorded.returned return' member with ⟨exited, isExit, delivers⟩
  exact List.mem_map.mpr ⟨exited, isExit, delivers.process.symm.trans same⟩

theorem Recorded.reap (recorded : Recorded before initproc chronicle)
    (family : Family before initproc) (forking : Forking before)
    (zombie : (before child).state = .zombie) (isChild : (before child).parent = some p)
    {return' : Return} (caller : return'.caller = chronicle.process p)
    (process : return'.process = chronicle.process child)
    (pid : return'.pid = (before child).pid)
    (status : return'.status =
      if return'.call.wantsStatus then some (before child).exitStatus else none)
    (performance : return'.performance =
      if return'.call.wantsPerformance then some (before child).perf else none) :
    Recorded (before.reap child) initproc
      { chronicle with returns := return' :: chronicle.returns } := by
  have init := family.init
  have idle := forking.idle
  rcases recorded with ⟨bound, distinct, exitsBound, wasZombie, fresh, live, exitOnce, returnOnce,
    returned, creator, wasForking, wasCaller⟩
  constructor
  · exact bound
  · exact distinct
  · exact exitsBound
  · grind
  · grind
  · grind
  · exact exitOnce
  · grind
  · intro other member
    rcases List.mem_cons.mp member with rfl | earlier
    · rcases wasZombie child zombie with ⟨exited, isExit, isProcess, remains⟩
      rw [Proc.remains, Prod.mk.injEq, Prod.mk.injEq] at remains
      exact ⟨exited, isExit, by grind, by grind, by grind, by grind⟩
    · exact returned other earlier
  · grind
  · grind
  · intro other member
    rcases List.mem_cons.mp member with rfl | earlier
    · rcases creator child (by grind) (by grind) with
        ⟨creator, parent, isCreator, isParent, either⟩
      exact ⟨creator, by grind, by grind⟩
    · exact wasCaller other earlier

theorem Recorded.allocproc (recorded : Recorded before initproc chronicle)
    (family : Family before initproc) (forking : Forking before) {pid : Int32}
    (alive : (before p).state.Alive) (unused : (before np).state = .unused) :
    Recorded
      (before.fill p np (fun proc => { proc with state := .embryo, pid := pid }) (.allocated np))
      initproc
      { chronicle with
        process := update chronicle.process np chronicle.created
        created := chronicle.created + 1
        creator := update chronicle.creator chronicle.created
          (some (chronicle.process p)) } := by
  have idle := forking.idle
  have embryo := forking.embryo
  have exited := @recorded.returned_mem_exits
  rcases family with ⟨init, _, _, _, parents, _⟩
  rcases recorded with ⟨bound, distinct, exitsBound, zombie, fresh, live, exitOnce, returnOnce,
    returned, creator, wasForking, caller⟩
  have different : np ≠ p := by grind
  -- The number of the new process is new.
  have notCreated : ∀ q, chronicle.process q ≠ chronicle.created :=
    fun q => Nat.ne_of_lt (bound q)
  have exitNotCreated : chronicle.created ∉ chronicle.exits.map Exit.process := by
    intro member
    rcases List.mem_map.mp member with ⟨exited, isExit, same⟩
    exact Nat.ne_of_lt (exitsBound exited isExit) same
  constructor
  · grind [update_apply]
  · grind [update_apply]
  · grind
  · grind [update_apply, Proc.remains, Proc.perf]
  · grind [update_apply]
  · grind [update_apply]
  · exact exitOnce
  · exact returnOnce
  · exact returned
  · intro q notInit born
    have isOld : q ≠ np := by grind
    rcases creator q notInit (by grind) with ⟨creator, parent, isCreator, isParent, either⟩
    rcases parents q notInit (by grind) with ⟨parent', isParent', parentAlive⟩
    exact ⟨creator, parent, by grind [update_apply], by grind,
      by grind [update_apply]⟩
  · grind [update_apply]
  · intro returned member
    rcases caller returned member with ⟨creator, isCreator, either⟩
    have isOld : returned.process ≠ chronicle.created := by
      intro same
      apply exitNotCreated
      rw [← same]
      exact exited (List.mem_map_of_mem member)
    exact ⟨creator, by grind [update_apply], by grind [update_apply]⟩

end

/-! ## Exit -/

section

variable {state : State nproc ncpu} {c : Fin ncpu} {p : Fin nproc} {chronicle : Chronicle nproc}

theorem Recorded.exit (recorded : Recorded state.table state.initproc chronicle)
    (status : Int32) (running : (state.table p).state = .running) (notInit : p ≠ state.initproc)
    {exited : Exit} (process : exited.process = chronicle.process p)
    (remains : (exited.pid, exited.status, exited.performance) =
      ((state.exit c p status).table p).remains) :
    Recorded (state.exit c p status).table state.initproc
      { chronicle with exits := exited :: chronicle.exits } := by
  have effect := fun q => state.exited_exitTable (p := p) q
  have live : (state.table p).state.Live := by grind
  have kept : ∀ q, q ≠ p → ((state.exit c p status).table q).state = (state.table q).state ∨
      (state.table q).state = .sleeping ∧ ((state.exit c p status).table q).state = .runnable := by
    intro q different
    rw [exit_apply, if_neg different]
    exact (effect q).kept
  have newParent : ∀ q, ((state.exit c p status).table q).parent =
      if (state.table q).parent = some p then some state.initproc else (state.table q).parent := by
    intro q
    by_cases isP : q = p
    · rw [isP, exit_apply, if_pos rfl, (effect p).eq]
    · rw [exit_apply, if_neg isP, (effect q).eq]
  have atP := (state.exit_apply (c := c) (p := p) status p).trans (if_pos rfl)
  have points : ∀ q, ((state.exit c p status).table q).point = (state.table q).point := by
    intro q
    by_cases isP : q = p
    · rw [isP, exit_apply, if_pos rfl, (effect p).eq]
    · rw [exit_apply, if_neg isP, (effect q).eq]
  have returnedExits := @recorded.returned_mem_exits
  rcases recorded with ⟨bound, distinct, exitsBound, wasZombie, fresh, wasLive, exitOnce,
    returnOnce, returned, wasCreator, forking, caller⟩
  constructor
  · exact bound
  · exact distinct
  · grind
  · intro q isZombie
    by_cases isP : q = p
    · rw [isP]
      exact ⟨exited, List.mem_cons_self, process, remains⟩
    · rcases wasZombie q (by grind) with ⟨other, member, isProcess, same⟩
      refine ⟨other, List.mem_cons_of_mem _ member, isProcess, ?_⟩
      rw [same, exit_apply, if_neg isP, (effect q).eq]
      rfl
  · grind
  · grind
  · grind
  · exact returnOnce
  · grind
  · intro q qNotInit born
    have wasBorn : (state.table q).state.Born := by grind
    rcases wasCreator q qNotInit wasBorn with ⟨creator, parent, isCreator, isParent, either⟩
    rw [newParent, isParent]
    by_cases passed : parent = p
    · -- The creator is the process that exits.
      exact ⟨creator, state.initproc, isCreator, by grind, by grind⟩
    · exact ⟨creator, parent, isCreator, by grind, by grind⟩
  · grind
  · grind

end

/-! ## Steps -/

section

variable {state next entered : State nproc ncpu} {c : Fin ncpu} {p : Fin nproc}
  {action : Action nproc} {call : WaitCall} {chronicle : Chronicle nproc}

section

variable (entering : Entering state c p call action entered)
include entering

theorem Entering.waitCall :
    waitCall state c action = some (p, call) := by
  unfold Ptable.waitCall
  cases entering with
  | call control _ _ => rw [control]
  | woken control => rw [control]

theorem Entering.record :
    Chronicle.record state (c, action) next chronicle = chronicle.recordReturn state c action := by
  cases entering with
  | call _ _ _ => rfl
  | woken _ => rfl

theorem Entering.zombieChild :
    entered.table.zombieChild p = state.table.zombieChild p := by
  have same : (fun q => decide ((entered.table q).parent = some p ∧
      (entered.table q).state = .zombie)) =
      fun q => decide ((state.table q).parent = some p ∧ (state.table q).state = .zombie) := by
    funext q
    rcases entering.entry q with ⟨chan, entry⟩
    rw [entry]
  rw [Table.zombieChild, same, Table.zombieChild]

theorem Entering.record_none (none : entered.table.zombieChild p = none) :
    Chronicle.record state (c, action) next chronicle = chronicle := by
  rw [entering.record]
  unfold Chronicle.recordReturn
  split
  · rename_i isCall returns
    rcases waitReturns_eq_some.mp returns with ⟨p', call', isCall', result⟩
    have same := Option.some.inj (entering.waitCall.symm.trans isCall')
    cases same
    rw [entering.zombieChild, (waitResult_reaped result).1] at none
    cases none
  · rfl

theorem Entering.record_some {child : Fin nproc}
    (found : entered.table.zombieChild p = some child) :
    Chronicle.record state (c, action) next chronicle =
      { chronicle with
        returns := ⟨chronicle.process p, chronicle.process child, call, (state.table child).pid,
          if call.wantsStatus then some (state.table child).exitStatus else none,
          if call.wantsPerformance then some (state.table child).perf else none⟩ ::
            chronicle.returns } := by
  rw [entering.zombieChild] at found
  have returns : waitReturns state c action = some (.reaped {
      child := child
      pid := (state.table child).pid
      status := if call.wantsStatus then some (state.table child).exitStatus else none
      performance := if call.wantsPerformance then some (state.table child).perf else none }) := by
    rw [waitReturns, entering.waitCall]
    dsimp only
    rw [waitResult, found]
  rw [entering.record, Chronicle.recordReturn, entering.waitCall, returns]

theorem Entering.recorded (recorded : Recorded state.table state.initproc chronicle) :
    Recorded entered.table entered.initproc chronicle := by
  cases entering with
  | call _ _ _ => exact recorded
  | woken _ => exact recorded.calm (Light.calm (.clearChan state.table p))

end

theorem record_resume {resume : Resume}
    (control : (state.cpus c).control = .thread p (some resume))
    (notWait : ∀ call, resume ≠ .wait call) :
    Chronicle.record state (c, .resume) next chronicle = chronicle := by
  have notCall : waitCall state c .resume = none := by
    unfold waitCall
    rw [control]
    cases resume with
    | wait call => exact absurd rfl (notWait call)
    | forkret | yield | sleep | exit => rfl
  rw [Chronicle.record, Chronicle.recordReturn, notCall]

theorem Stepped.recorded (stepped : Stepped state c action next)
    (sound : Sound state.table state.cpus state.lock)
    (family : Family state.table state.initproc)
    (recorded : Recorded state.table state.initproc chronicle) :
    Recorded next.table next.initproc (Chronicle.record state (c, action) next chronicle) := by
  have ticketed : Calm state.table (state.tickets c).1 := Light.calm (.tickets state c)
  cases stepped with
  | idle control free nobody => exact recorded.calm ticketed
  | dispatch control free drawn =>
    exact (recorded.calm ticketed).calm (.dispatch (Table.runnable_of_findTicket drawn))
  | finish control => exact recorded
  | forkret control | yielded control =>
    rw [record_resume control nofun]
    exact recorded
  | @slept p control =>
    rw [record_resume control nofun]
    exact recorded.calm (Light.calm (.clearChan state.table p))
  | @reap p child call action entered entering found =>
    rw [entering.record_some found]
    have isZombie := Table.zombieChild_some found
    rcases entering.entry child with ⟨chan, same⟩
    apply (entering.recorded recorded).reap (entering.family family)
      (entering.sound sound).1.forking isZombie.2 isZombie.1
    · rfl
    · rfl
    · rw [same]
    · rw [same]
    · rw [same]
      rfl
  | waitFails entering none stops =>
    rw [entering.record_none none]
    exact entering.recorded recorded
  | @waitSleeps p call action entered entering none waits =>
    rw [entering.record_none none]
    rcases entering.sound sound with ⟨soundEntered, own, same, taken, resumed, control⟩
    rw [← same] at control
    apply (entering.recorded recorded).calm
    have running := (soundEntered.exclusive.thread c p resumed control).2.2
    apply Calm.change (p := p)
    all_goals grind
  | wakeup address free => exact recorded.calm (Light.calm (.wakeup1 _ _))
  | tick free =>
    have harmless : Harmless state.table state.table.updateTimes :=
      .of_state (fun _ => rfl) (fun _ => rfl) (fun _ => rfl)
    apply recorded.calm
    apply harmless.calm
    · exact fun _ => rfl
    · intro q zombie
      dsimp only [Table.updateTimes, Proc.remains, Proc.perf]
      rw [zombie]
      rfl
  | @yield p control free | @sleep p address control free outside =>
    apply recorded.calm
    apply Calm.change (p := p) (sound.alive_of_thread control)
    all_goals grind
  | @exit p status control free outside notInit =>
    have running := (sound.exclusive.thread c p none control).2.2
    rw [Chronicle.record, control]
    refine @Recorded.exit _ _ (state.acquire c) _ _ _ recorded status running notInit _ rfl ?_
    rw [exit_apply, if_pos rfl]
    have effect := (state.acquire c).exited_exitTable (p := p) p
    rw [effect.eq]
    rfl
  | allocFails control free full =>
    rw [Chronicle.record, control, full]
    exact recorded
  | @allocproc p np control free outside found =>
    rw [Chronicle.record, control, found]
    exact recorded.allocproc family sound.forking (sound.alive_of_thread control)
      (Table.unused_of_firstUnused found)
  | @allocStack p np available control point =>
    have isChild : (state.table p).point.child = some np := by
      rw [point]
      rfl
    have embryo := sound.forking.embryo p np isChild
    have unborn := sound.not_born_child isChild
    have alive := sound.alive_of_thread control
    cases available with
    | true =>
      exact recorded.calm (.fill alive isChild embryo rfl (Or.inl unborn.1) (Or.inr rfl))
    | false =>
      exact recorded.calm (.fill alive isChild embryo unborn.2.1 (Or.inl id) (Or.inl rfl))
  | @copyProcess p np available control point =>
    have isChild : (state.table p).point.child = some np := by
      rw [point]
      rfl
    have embryo := sound.forking.embryo p np isChild
    have unborn := sound.not_born_child isChild
    have alive := sound.alive_of_thread control
    cases available with
    | true =>
      exact recorded.calm (.fill alive isChild embryo unborn.2.1 (Or.inl unborn.1) (Or.inr rfl))
    | false =>
      exact recorded.calm (.fill alive isChild embryo unborn.2.1 (Or.inl id) (Or.inl rfl))
  | @publish p np control free point =>
    have isChild : (state.table p).point.child = some np := by
      rw [point]
      rfl
    have embryo := sound.forking.embryo p np isChild
    have unborn := sound.not_born_child isChild
    exact recorded.calm (.fill (sound.alive_of_thread control) isChild embryo unborn.2.1
      (Or.inr ⟨rfl, family.copied p np point⟩) (Or.inl rfl))
  | kill pid control free outside => exact recorded.calm (.kill state.table pid)
  | @fault p control outside =>
    apply recorded.calm
    apply Harmless.calm (.fault state.table p)
    all_goals grind [State.modify, Proc.remains, Proc.perf]
  | @priority p pr control outside =>
    rw [State.priority]
    split
    · exact recorded.calm (Light.calm (.priority state.table p pr))
    · exact recorded
  | @policy p pl policy control outside known => exact recorded.calm (Light.calm (.setVisit state.table p _))
  | @visit p visit control visiting => exact recorded.calm (Light.calm (.visit state.table p visit))

end

/-! ## Runs -/

theorem recorded_booted (nproc ncpu : Nat) :
    Recorded (booted nproc ncpu).table (booted nproc ncpu).initproc
      (Chronicle.start (nproc + 1)) := by
  have others : ∀ p, p ≠ 0 → (booted nproc ncpu).table p = Proc.zero :=
    fun p notInit => if_neg notInit
  have notZombie : ∀ p, ((booted nproc ncpu).table p).state ≠ .zombie := by
    intro p
    dsimp only [booted]
    split
    · exact nofun
    · exact nofun
  constructor
  · exact fun q => q.isLt
  · exact fun q r same => Fin.ext same
  · exact nofun
  · exact fun q zombie => absurd zombie (notZombie q)
  · exact fun q zombie => absurd zombie (notZombie q)
  · exact fun q _ => List.not_mem_nil
  · exact List.nodup_nil
  · exact List.nodup_nil
  · exact nofun
  · intro q notInit born
    rw [others q notInit] at born
    exact absurd born id
  · intro p np isChild
    by_cases isInit : p = 0
    · rw [isInit] at isChild
      cases isChild
    · rw [others p isInit] at isChild
      cases isChild
  · exact nofun

abbrev Chronicled (nproc ncpu : Nat) (both : State (nproc + 1) ncpu × Chronicle (nproc + 1)) :
    Prop :=
  Reachable (recorded step Chronicle.record) (fun both => Unrestricted both.1)
    (booted nproc ncpu, Chronicle.start (nproc + 1)) both

theorem Chronicled.recorded {both : State (nproc + 1) ncpu × Chronicle (nproc + 1)}
    (chronicled : Chronicled nproc ncpu both) :
    (Sound both.1.table both.1.cpus both.1.lock ∧ Family both.1.table both.1.initproc) ∧
      Recorded both.1.table both.1.initproc both.2 := by
  refine Reachable.invariant (fun both : State (nproc + 1) ncpu × Chronicle (nproc + 1) =>
    (Sound both.1.table both.1.cpus both.1.lock ∧ Family both.1.table both.1.initproc) ∧
      Recorded both.1.table both.1.initproc both.2) ?_
    ⟨⟨sound_booted nproc ncpu, family_booted nproc ncpu⟩, recorded_booted nproc ncpu⟩ chronicled
  intro before action after holds _ both
  rcases recorded_eq_some.mp both with ⟨stepped, isRecord⟩
  have cases' := step_cases stepped
  rw [isRecord]
  exact ⟨⟨cases'.sound holds.1.1, cases'.family holds.1.1 holds.1.2⟩,
    cases'.recorded holds.1.1 holds.1.2 holds.2⟩

/-- `wait` and `wait_stat` do the same to the table. Only where the thread of a caller that
goes to sleep will continue differs. -/
theorem waitLoop_table (state : State nproc ncpu) (c : Fin ncpu) (p : Fin nproc)
    (first second : WaitCall) (q : Fin nproc) :
    { (state.waitLoop c p first).table q with context := none } =
      { (state.waitLoop c p second).table q with context := none } := by
  rw [waitLoop, waitLoop, waitResult, waitResult]
  cases state.table.zombieChild p with
  | some child => rfl
  | none =>
    dsimp only
    split_ifs
    · rfl
    · by_cases same : q = p
      · rw [same, sleep_apply, sleep_apply, if_pos rfl, if_pos rfl]
      · rw [sleep_apply, sleep_apply, if_neg same, if_neg same]

/-- What the chronicle of a run says of the returned children. -/
structure DeliveredOnce (chronicle : Chronicle nproc) : Prop where
  once : (chronicle.returns.map Return.process).Nodup
  exitOnce : (chronicle.exits.map Exit.process).Nodup
  delivered : ∀ returned ∈ chronicle.returns, ∃ exited ∈ chronicle.exits, Delivers returned exited

/-- What a call of `wait` or `wait_stat` by process `p` does in a step. -/
structure WaitStep (state : State nproc ncpu) (chronicle : Chronicle nproc) (p : Fin nproc)
    (result : WaitResult nproc) : Prop where
  parent : ∀ reaped, result = .reaped reaped → (state.table reaped.child).parent = some p ∧
    ∃ creator, chronicle.creator (chronicle.process reaped.child) = some creator ∧
      (chronicle.process p = creator ∨
        p = state.initproc ∧ creator ∈ chronicle.exits.map Exit.process)
  failed : result = .failed →
    (∀ q, (state.table q).parent ≠ some p) ∨ (state.table p).killed = true

theorem Chronicled.waitStep {both : State (nproc + 1) ncpu × Chronicle (nproc + 1)}
    (chronicled : Chronicled nproc ncpu both) {c : Fin ncpu} {action : Action (nproc + 1)}
    {p : Fin (nproc + 1)} {call : WaitCall} {result : WaitResult (nproc + 1)}
    (isCall : waitCall both.1 c action = some (p, call))
    (returns : waitReturns both.1 c action = some result) :
    WaitStep both.1 both.2 p result := by
  rcases chronicled.recorded with ⟨⟨_, family⟩, recorded⟩
  rcases waitReturns_eq_some.mp returns with ⟨p', call', isCall', computed⟩
  cases isCall.symm.trans isCall'
  constructor
  · intro reaped isReaped
    rw [isReaped] at computed
    have isZombie := Table.zombieChild_some (waitResult_reaped computed).1
    have notInit : reaped.child ≠ both.1.initproc := by
      intro same
      have alive := family.init
      rw [← same, isZombie.2] at alive
      exact alive
    rcases recorded.creator reaped.child notInit (by rw [isZombie.2]; trivial) with
      ⟨creator, parent, isCreator, isParent, either⟩
    have same : parent = p := Option.some.inj (isParent.symm.trans isZombie.1)
    rw [same] at either
    exact ⟨isZombie.1, creator, isCreator, either⟩
  · intro isFailed
    rw [isFailed] at computed
    exact waitResult_failed computed

/-- In every run, which can be recorded, a process that has exited is returned at most
once, with what it left behind, to its parent: its creator, or `init` once the creator has
exited. `wait` and `wait_stat` change the table in the same way, and fail only for a caller
that has no children or has been killed. -/
theorem exit_statuses_delivered_once (nproc ncpu : Nat) :
    (∀ state, Reachable step Unrestricted (booted nproc ncpu) state →
      ∃ chronicle, Chronicled nproc ncpu (state, chronicle)) ∧
    ∀ state chronicle, Chronicled nproc ncpu (state, chronicle) →
      DeliveredOnce chronicle ∧
      (∀ c action next p call result, step state (c, action) = some next →
        waitCall state c action = some (p, call) →
        waitReturns state c action = some result → WaitStep state chronicle p result) ∧
      ∀ c p first second q,
        { (state.waitLoop c p first).table q with context := none } =
          { (state.waitLoop c p second).table q with context := none } := by
  constructor
  · intro state reachable
    exact reachable.exists_recorded Chronicle.record _
  · intro state chronicle chronicled
    have recorded := chronicled.recorded.2
    refine ⟨⟨recorded.returnOnce, recorded.exitOnce, recorded.returned⟩, ?_, ?_⟩
    · intro c action next p call result _ isCall returns
      exact chronicled.waitStep isCall returns
    · intro c p first second q
      exact waitLoop_table state c p first second q

/-- The first process forks and waits, and its child exits with status 7. -/
def exitSeven : List (Fin 1 × Action 2) :=
  [(0, .schedule), (0, .resume), (0, .allocproc), (0, .allocStack true), (0, .copyProcess true),
    (0, .publish), (0, .wait (.wait true)), (0, .finish), (0, .schedule), (0, .resume),
    (0, .exit 7), (0, .finish), (0, .schedule), (0, .resume)]

theorem exit_statuses_delivered_once_seven :
    ∃ state chronicle, Chronicled 1 1 (state, chronicle) ∧
      chronicle.returns.map Return.status = [some 7] ∧ DeliveredOnce chronicle := by
  rcases exists_reachable (recorded step Chronicle.record)
      (fun both : State 2 1 × Chronicle 2 => Unrestricted both.1)
      (booted 1 1, Chronicle.start 2) exitSeven
      (fun both => both.2.returns.map Return.status = [some 7]) (by decide +kernel) with
    ⟨both, chronicled, statuses⟩
  exact ⟨both.1, both.2, chronicled, statuses,
    ((exit_statuses_delivered_once 1 1).2 both.1 both.2 chronicled).1⟩

end Xv6.Ptable
