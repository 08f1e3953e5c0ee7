import Xv6.Ptable.Machine

/-! # What a step can do

The inversion of `step`, on which every invariant rests, and the effect of the loops of
`exit` and `wait` on each entry of the table.
-/

namespace Xv6.Ptable

open Transition

variable {call : WaitCall}

variable {nproc ncpu : Nat}

/-! ## Loops over the table -/

namespace Table

section

variable {p np q : Fin nproc}

theorem fill_child (different : np ≠ p) (table : Table nproc)
    (change : Proc nproc → Proc nproc) (point : Point nproc) :
    table.fill p np change point np = change (table np) := by
  rw [fill, modify_of_ne different, modify_self]

@[grind =]
theorem fill_apply (different : np ≠ p) (table : Table nproc)
    (change : Proc nproc → Proc nproc) (point : Point nproc) (q : Fin nproc) :
    table.fill p np change point q = if q = p then { table p with point := point }
      else if q = np then change (table np) else table q := by
  simp only [fill, modify_apply]
  grind

end

theorem passChild_apply (initproc proc : Fin nproc) (table : Table nproc) (p q : Fin nproc) :
    table.passChild initproc proc p q =
      { table q with
        parent := if q = p ∧ (table q).parent = some proc then some initproc else (table q).parent
        state := if ((table q).state = .sleeping ∧ (table q).chan = some (.proc initproc)) ∧
            (table p).parent = some proc ∧ (table p).state = .zombie then .runnable
          else (table q).state } := by
  rw [passChild]
  by_cases child : (table p).parent = some proc
  · rw [if_pos child]
    by_cases zombie : (table p).state = .zombie
    · rw [modify_self, if_pos zombie, wakeup1, modify_apply]
      by_cases same : q = p
      · subst same
        simp [child, zombie]
      · simp [same, child, zombie]
    · rw [modify_self, if_neg zombie, modify_apply]
      by_cases same : q = p
      · subst same
        simp [child, zombie]
      · simp [same, zombie]
  · rw [if_neg child]
    by_cases same : q = p
    · subst same
      simp [child]
    · simp [same, child]

theorem passChild_foldl_apply (initproc proc : Fin nproc) (table : Table nproc)
    (slots : List (Fin nproc)) (q : Fin nproc) :
    slots.foldl (passChild initproc proc) table q =
      { table q with
        parent := if q ∈ slots ∧ (table q).parent = some proc then some initproc
          else (table q).parent
        state := if ((table q).state = .sleeping ∧ (table q).chan = some (.proc initproc)) ∧
            ∃ z ∈ slots, (table z).parent = some proc ∧ (table z).state = .zombie then .runnable
          else (table q).state } := by
  induction slots using List.reverseRecOn generalizing q with
  | nil => simp
  | append_singleton slots last induction =>
    rw [List.foldl_append, List.foldl_cons, List.foldl_nil, passChild_apply, induction q,
      induction last]
    dsimp only
    congr 1
    · by_cases passed : ∃ z ∈ slots, (table z).parent = some proc ∧ (table z).state = .zombie
      · have still : ∃ z ∈ slots ++ [last],
            (table z).parent = some proc ∧ (table z).state = .zombie := by
          rcases passed with ⟨z, inside, isZombie⟩
          exact ⟨z, List.mem_append_left _ inside, isZombie⟩
        simp only [passed, still, and_true]
        by_cases asleep : (table q).state = .sleeping ∧ (table q).chan = some (.proc initproc)
        · simp [asleep]
        · rw [if_neg asleep, if_neg (fun both => asleep both.1)]
      · -- The last slot has not been passed on before, as it would be a zombie passed on.
        simp only [passed, and_false, if_false]
        refine if_congr (and_congr_right fun _ => ?_) rfl rfl
        grind
    · by_cases isLast : q = last
      · subst isLast
        by_cases child : (table q).parent = some proc
        · by_cases seen : q ∈ slots
          · simp [child, seen]
          · simp [child, seen]
        · simp [child]
      · simp [isLast]

theorem passChildren_apply (initproc proc : Fin nproc) (table : Table nproc) (q : Fin nproc) :
    table.passChildren initproc proc q =
      { table q with
        parent := if (table q).parent = some proc then some initproc else (table q).parent
        state := if ((table q).state = .sleeping ∧ (table q).chan = some (.proc initproc)) ∧
            ∃ z, (table z).parent = some proc ∧ (table z).state = .zombie then .runnable
          else (table q).state } := by
  rw [passChildren, passChild_foldl_apply]
  simp only [List.mem_finRange, true_and]

theorem kill_apply (table : Table nproc) (pid : Int32) (q : Fin nproc) :
    (table.kill pid).1 q = if table.firstPid pid = some q then
        { table q with
          killed := true
          state := if (table q).state = .sleeping then .runnable else (table q).state }
      else table q := by
  rw [kill]
  cases found : table.firstPid pid with
  | none => rfl
  | some p =>
    dsimp only
    by_cases same : q = p
    · rw [same, modify_self, if_pos rfl]
    · rw [modify_of_ne same, if_neg fun isFirst => same (Option.some.inj isFirst).symm]

end Table

/-! ## Entries of the table after a step -/

namespace State

variable (state : State nproc ncpu) {c : Fin ncpu} {p q : Fin nproc}

@[grind =]
theorem acquire_table : (state.acquire c).table = state.table := rfl

theorem modify_self (change : Proc nproc → Proc nproc) :
    (state.modify p change).table p = change (state.table p) :=
  Table.modify_self state.table p change

theorem modify_of_ne (different : q ≠ p) (change : Proc nproc → Proc nproc) :
    (state.modify p change).table q = state.table q :=
  Table.modify_of_ne different state.table change

@[grind =]
theorem yield_apply (q : Fin nproc) : (state.yield c p).table q = if q = p then
    { state.table p with
      state := .runnable
      ntickets := if state.npolicy = 2 ∧ (state.table p).ntickets > 1
        then (state.table p).ntickets - 1 else (state.table p).ntickets
      context := some .yield }
    else state.table q := by
  simp only [yield, sched, setCpu, modify, Table.modify_apply]
  split
  · rename_i same
    rw [same]
  · rfl

@[grind =]
theorem sleep_apply (chan : Channel nproc) (resume : Resume) (q : Fin nproc) :
    (state.sleep c p chan resume).table q = if q = p then
        { state.table p with
          chan := some chan
          state := .sleeping
          ntickets := if state.npolicy = 2 ∧ (state.table p).ntickets < 100
            then (state.table p).ntickets + 10 else (state.table p).ntickets
          context := some resume }
      else state.table q := by
  simp only [sleep, sched, setCpu, modify, Table.modify_apply]
  split
  · rename_i same
    rw [same]
  · rfl

/-- Who is woken up when process `p` exits. -/
def ExitWakes (p : Fin nproc) (chan : Option (Channel nproc)) : Prop :=
  (∃ parent, (state.table p).parent = some parent ∧ chan = some (.proc parent)) ∨
    (chan = some (.proc state.initproc) ∧
      ∃ z, (state.table z).parent = some p ∧ (state.table z).state = .zombie)

/-- What `exit` does to an entry of the table before the process becomes a zombie. -/
structure Exited (p : Fin nproc) (old new : Proc nproc) : Prop where
  eq : new = { old with
    parent := if old.parent = some p then some state.initproc else old.parent
    state := new.state }
  kept : new.state = old.state ∨ old.state = .sleeping ∧ new.state = .runnable
  woken : old.state = .sleeping → state.ExitWakes p old.chan → new.state = .runnable

/-- The table after the two loops of `exit`. -/
def exitTable (p : Fin nproc) : Table nproc :=
  let table := match (state.table p).parent with
    | some parent => state.table.wakeup1 (.proc parent)
    | none => state.table
  table.passChildren state.initproc p

@[grind =]
theorem acquire_exitTable (q : Fin nproc) :
    (state.acquire c).exitTable p q = state.exitTable p q := rfl

theorem exited_exitTable (q : Fin nproc) : state.Exited p (state.table q) (state.exitTable p q) := by
  have passed : ∀ table : Table nproc, (∀ z, (table z).parent = (state.table z).parent) →
      (∀ z, (table z).state = .zombie ↔ (state.table z).state = .zombie) →
      (table q = { state.table q with state := (table q).state }) →
      ((table q).state = (state.table q).state ∨
        (state.table q).state = .sleeping ∧ (table q).state = .runnable) →
      ((state.table q).state = .sleeping →
        (∃ parent, (state.table p).parent = some parent ∧
          (state.table q).chan = some (.proc parent)) → (table q).state = .runnable) →
      state.Exited p (state.table q) (table.passChildren state.initproc p q) := by
    intro table parents zombies same kept first
    have chan : (table q).chan = (state.table q).chan := by rw [same]
    rw [Table.passChildren_apply]
    constructor
    · rw [same]
    · dsimp only
      split
      · rename_i wakes
        cases kept with
        | inl unchanged =>
          rw [← unchanged]
          exact Or.inr ⟨wakes.1.1, rfl⟩
        | inr woken =>
          rw [woken.2] at wakes
          cases wakes.1.1
      · exact kept
    · intro asleep wakes
      dsimp only
      cases wakes with
      | inl byParent =>
        have woken := first asleep byParent
        rw [if_neg, woken]
        intro impossible
        rw [woken] at impossible
        cases impossible.1.1
      | inr byChild =>
        cases kept with
        | inr woken =>
          rw [if_neg, woken.2]
          intro impossible
          rw [woken.2] at impossible
          cases impossible.1.1
        | inl unchanged =>
          rw [if_pos]
          constructor
          · rw [unchanged, chan]
            exact ⟨asleep, byChild.1⟩
          · cases byChild.2 with
            | intro z isZombie =>
              exact ⟨z, by rw [parents]; exact isZombie.1, (zombies z).mpr isZombie.2⟩
  rw [exitTable]
  cases parent : (state.table p).parent with
  | none =>
    apply passed
    · intro z
      rfl
    · intro z
      exact Iff.rfl
    · rfl
    · exact Or.inl rfl
    · intro _ byParent
      rw [parent] at byParent
      cases byParent with
      | intro _ impossible => cases impossible.1
  | some parent' =>
    apply passed
    · intro z
      rfl
    · intro z
      dsimp only [Table.wakeup1]
      split
      · rename_i asleep
        rw [asleep.1]
        exact ⟨nofun, nofun⟩
      · exact Iff.rfl
    · rfl
    · dsimp only [Table.wakeup1]
      split
      · rename_i asleep
        exact Or.inr ⟨asleep.1, rfl⟩
      · exact Or.inl rfl
    · intro asleep byParent
      cases byParent with
      | intro other sleepsOn =>
        have same := Option.some.inj (parent.symm.trans sleepsOn.1)
        exact if_pos ⟨asleep, by rw [same]; exact sleepsOn.2⟩

@[grind =]
theorem exit_apply (status : Int32) (q : Fin nproc) : (state.exit c p status).table q = if q = p then
    { state.exitTable p p with
      state := .zombie
      exitStatus := status
      ttime := state.ticks.toInt32
      context := some .exit }
    else state.exitTable p q := by
  simp only [exit, sched, setCpu, modify, Table.modify_apply]
  split
  · rename_i same
    rw [same]
    rfl
  · rfl

theorem waitResult_reaped {state : State nproc ncpu} {reaped : Reaped nproc}
    (result : state.waitResult p call = some (.reaped reaped)) :
    state.table.zombieChild p = some reaped.child ∧
      reaped.pid = (state.table reaped.child).pid ∧
      reaped.status = (if call.wantsStatus then some (state.table reaped.child).exitStatus
        else none) ∧
      reaped.performance = if call.wantsPerformance then some (state.table reaped.child).perf
        else none := by
  rw [waitResult] at result
  cases found : state.table.zombieChild p with
  | some child =>
    rw [found] at result
    cases result
    exact ⟨rfl, rfl, rfl, rfl⟩
  | none =>
    rw [found] at result
    dsimp only at result
    split at result
    · cases result
    · cases result

theorem waitResult_failed {state : State nproc ncpu}
    (result : state.waitResult p call = some .failed) :
    (∀ q, (state.table q).parent ≠ some p) ∨ (state.table p).killed = true := by
  rw [waitResult] at result
  split at result
  · cases result
  · split at result
    · rename_i stops
      cases stops with
      | inl childless => exact Or.inl (Table.havekids_eq_false.mp childless)
      | inr killed => exact Or.inr killed
    · cases result

end State

/-! ## Processes that do nothing -/

/-- What a step may do to a process that takes no part in it: it is woken up, or its channel
is cleared, or its tickets or its priority are changed, or it goes on in `policy`. -/
structure Proc.Light (old new : Proc nproc) : Prop where
  eq : new = { old with
    state := new.state, chan := new.chan, ntickets := new.ntickets, priority := new.priority
    visit := new.visit }
  state : new.state = old.state ∨ old.state = .sleeping ∧ new.state = .runnable
  chan : new.chan = old.chan ∨ new.chan = none

def Light (before after : Table nproc) : Prop := ∀ q, (before q).Light (after q)

theorem Light.refl (table : Table nproc) : Light table table :=
  fun _ => ⟨rfl, Or.inl rfl, Or.inl rfl⟩

theorem Light.modify (table : Table nproc) (p : Fin nproc) {change : Proc nproc → Proc nproc}
    (light : (table p).Light (change (table p))) : Light table (table.modify p change) := by
  intro q
  by_cases same : q = p
  · rw [same, Table.modify_self]
    exact light
  · rw [Table.modify_of_ne same]
    exact Light.refl table q

theorem Light.clearChan (table : Table nproc) (p : Fin nproc) :
    Light table (table.modify p fun proc => { proc with chan := none }) :=
  .modify table p ⟨rfl, Or.inl rfl, Or.inr rfl⟩

theorem Light.priority (table : Table nproc) (p : Fin nproc) (pr : Int32) :
    Light table (table.modify p fun proc => { proc with priority := pr }) :=
  .modify table p ⟨rfl, Or.inl rfl, Or.inl rfl⟩

theorem Light.wakeup1 (chan : Channel nproc) (table : Table nproc) :
    Light table (table.wakeup1 chan) := by
  intro q
  refine ⟨rfl, ?_, Or.inl rfl⟩
  dsimp only [Table.wakeup1]
  split
  · rename_i asleep
    exact Or.inr ⟨asleep.1, rfl⟩
  · exact Or.inl rfl

theorem Light.tickets (state : State nproc ncpu) (c : Fin ncpu) :
    Light state.table (state.tickets c).1 := by
  rw [State.tickets]
  split
  · exact fun _ => ⟨rfl, Or.inl rfl, Or.inl rfl⟩
  · exact .refl state.table

theorem Light.setVisit (table : Table nproc) (p : Fin nproc) (visit : Option (Visit nproc)) :
    Light table (table.setVisit p visit) :=
  .modify table p ⟨rfl, Or.inl rfl, Or.inl rfl⟩

theorem Light.trans {before middle after : Table nproc} (first : Light before middle)
    (second : Light middle after) : Light before after := by
  intro q
  rcases first q with ⟨eq, state, chan⟩
  rcases second q with ⟨eq', state', chan'⟩
  refine ⟨?_, by grind, by grind⟩
  conv_lhs => rw [eq', eq]

theorem Light.stores (table : Table nproc) (visit : Visit nproc) :
    Light table (visit.stores table) := by
  rcases visit with ⟨policy, slots, stage⟩
  cases slots with
  | nil => exact .refl table
  | cons q rest =>
    cases stage with
    | enter | count =>
      cases policy with
      | _ => exact .modify table q ⟨rfl, Or.inl rfl, Or.inl rfl⟩
    | test => exact .refl table

theorem Light.visit (table : Table nproc) (p : Fin nproc) (visit : Visit nproc) :
    Light table (table.visit p visit) :=
  (Light.stores table visit).trans (.setVisit _ p _)

theorem waitReturns_eq_some {state : State nproc ncpu} {c : Fin ncpu} {action : Action nproc}
    {result : WaitResult nproc} :
    waitReturns state c action = some result ↔ ∃ p call, waitCall state c action = some (p, call) ∧
      state.waitResult p call = some result := by
  rw [waitReturns]
  cases waitCall state c action with
  | none => exact ⟨nofun, nofun⟩
  | some both =>
    constructor
    · intro returns
      exact ⟨both.1, both.2, rfl, returns⟩
    · intro calls
      rcases calls with ⟨p, call, same, returns⟩
      cases same
      exact returns

/-! ## Inversion -/

/-- The state at the head of the loop of `wait`: on entry, or behind its `sleep`. -/
inductive Entering (state : State nproc ncpu) (c : Fin ncpu) (p : Fin nproc) (call : WaitCall) :
    Action nproc → State nproc ncpu → Prop
  | call (control : (state.cpus c).control = .thread p none) (free : state.lock = none)
      (outside : (state.table p).point = .outside) :
      Entering state c p call (.wait call) (state.acquire c)
  | woken (control : (state.cpus c).control = .thread p (some (.wait call))) :
      Entering state c p call .resume (state.modify p fun proc => { proc with chan := none })

inductive Stepped (state : State nproc ncpu) (c : Fin ncpu) :
    Action nproc → State nproc ncpu → Prop
  | idle (control : (state.cpus c).control = .scheduler) (free : state.lock = none)
      (nobody : state.drawn c = none) :
      Stepped state c .schedule
        { state with
          table := (state.tickets c).1
          cpus := Function.update state.cpus c
            { state.cpus c with ntickets := (state.tickets c).2 }
          seed := (prng state.seed (state.tickets c).2).2 }
  | dispatch {p : Fin nproc} (control : (state.cpus c).control = .scheduler)
      (free : state.lock = none) (drawn : state.drawn c = some p) :
      Stepped state c .schedule
        { state with
          table := (state.tickets c).1.modify p fun proc =>
            { proc with state := .running, context := none }
          cpus := Function.update state.cpus c
            { state.cpus c with
              ntickets := (state.tickets c).2
              proc := some p
              cr3 := some p
              control := .thread p ((state.tickets c).1 p).context }
          seed := (prng state.seed (state.tickets c).2).2
          lock := some c }
  | finish (control : (state.cpus c).control = .switchedBack) :
      Stepped state c .finish (state.finish c)
  | forkret {p : Fin nproc} (control : (state.cpus c).control = .thread p (some .forkret)) :
      Stepped state c .resume (state.proceed c p)
  | yielded {p : Fin nproc} (control : (state.cpus c).control = .thread p (some .yield)) :
      Stepped state c .resume (state.proceed c p)
  | slept {p : Fin nproc} (control : (state.cpus c).control = .thread p (some .sleep)) :
      Stepped state c .resume
        ((state.modify p fun proc => { proc with chan := none }).proceed c p)
  | reap {p child : Fin nproc} {call : WaitCall} {action : Action nproc}
      {entered : State nproc ncpu} (entering : Entering state c p call action entered)
      (found : entered.table.zombieChild p = some child) :
      Stepped state c action ({ entered with table := entered.table.reap child }.proceed c p)
  | waitFails {p : Fin nproc} {call : WaitCall} {action : Action nproc}
      {entered : State nproc ncpu} (entering : Entering state c p call action entered)
      (none : entered.table.zombieChild p = none)
      (stops : entered.table.havekids p = false ∨ (entered.table p).killed = true) :
      Stepped state c action (entered.proceed c p)
  | waitSleeps {p : Fin nproc} {call : WaitCall} {action : Action nproc}
      {entered : State nproc ncpu} (entering : Entering state c p call action entered)
      (none : entered.table.zombieChild p = none)
      (waits : ¬(entered.table.havekids p = false ∨ (entered.table p).killed = true)) :
      Stepped state c action (entered.sleep c p (.proc p) (.wait call))
  | wakeup (address : Nat) (free : state.lock = none) :
      Stepped state c (.wakeup address) (state.wakeup address)
  | tick (free : state.lock = none) : Stepped state c .tick state.tick
  | yield {p : Fin nproc} (control : (state.cpus c).control = .thread p none)
      (free : state.lock = none) : Stepped state c .yield ((state.acquire c).yield c p)
  | sleep {p : Fin nproc} (address : Nat) (control : (state.cpus c).control = .thread p none)
      (free : state.lock = none) (outside : (state.table p).point = .outside) :
      Stepped state c (.sleep address) ((state.acquire c).sleep c p (.other address) .sleep)
  | exit {p : Fin nproc} (status : Int32) (control : (state.cpus c).control = .thread p none)
      (free : state.lock = none) (outside : (state.table p).point = .outside)
      (notInit : p ≠ state.initproc) :
      Stepped state c (.exit status) ((state.acquire c).exit c p status)
  | allocFails {p : Fin nproc} (control : (state.cpus c).control = .thread p none)
      (free : state.lock = none) (full : state.table.firstUnused = none) :
      Stepped state c .allocproc state
  | allocproc {p np : Fin nproc} (control : (state.cpus c).control = .thread p none)
      (free : state.lock = none) (outside : (state.table p).point = .outside)
      (found : state.table.firstUnused = some np) :
      Stepped state c .allocproc
        { state with
          table := state.table.fill p np
            (fun proc => { proc with state := .embryo, pid := state.nextpid }) (.allocated np)
          nextpid := state.nextpid + 1 }
  | allocStack {p np : Fin nproc} (available : Bool)
      (control : (state.cpus c).control = .thread p none)
      (point : (state.table p).point = .allocated np) :
      Stepped state c (.allocStack available) (state.allocStack p np available)
  | copyProcess {p np : Fin nproc} (available : Bool)
      (control : (state.cpus c).control = .thread p none)
      (point : (state.table p).point = .stacked np) :
      Stepped state c (.copyProcess available) (state.copyProcess p np available)
  | publish {p np : Fin nproc} (control : (state.cpus c).control = .thread p none)
      (free : state.lock = none) (point : (state.table p).point = .copied np) :
      Stepped state c .publish (state.publish p np)
  | kill {p : Fin nproc} (pid : Int32) (control : (state.cpus c).control = .thread p none)
      (free : state.lock = none) (outside : (state.table p).point = .outside) :
      Stepped state c (.kill pid) (state.kill pid)
  | fault {p : Fin nproc} (control : (state.cpus c).control = .thread p none)
      (outside : (state.table p).point = .outside) :
      Stepped state c .fault (state.modify p fun proc => { proc with killed := true })
  | priority {p : Fin nproc} (pr : Int32) (control : (state.cpus c).control = .thread p none)
      (outside : (state.table p).point = .outside) :
      Stepped state c (.priority pr) (state.priority p pr)
  | policy {p : Fin nproc} {pl : Nat} {policy : Policy}
      (control : (state.cpus c).control = .thread p none)
      (outside : (state.table p).point = .outside) (known : policies[pl]? = some policy) :
      Stepped state c (.policy pl)
        { state with
          npolicy := pl
          table := state.table.setVisit p (some ⟨policy, List.finRange nproc, .enter⟩) }
  | visit {p : Fin nproc} {visit : Visit nproc}
      (control : (state.cpus c).control = .thread p none)
      (visiting : (state.table p).visit = some visit) :
      Stepped state c .visit (state.visit p visit)

section

variable {state next : State nproc ncpu} {c : Fin ncpu} {p : Fin nproc} {action : Action nproc}

theorem Entering.light {entered : State nproc ncpu}
    (entering : Entering state c p call action entered) : Light state.table entered.table := by
  cases entering with
  | call _ _ _ => exact .refl state.table
  | woken _ => exact .clearChan state.table p

theorem Entering.entry {entered : State nproc ncpu}
    (entering : Entering state c p call action entered) (q : Fin nproc) :
    ∃ chan, entered.table q = { state.table q with chan := chan } := by
  cases entering with
  | call _ _ _ => exact ⟨(state.table q).chan, rfl⟩
  | woken _ =>
    by_cases same : q = p
    · rw [same]
      exact ⟨none, State.modify_self ..⟩
    · exact ⟨(state.table q).chan, State.modify_of_ne _ same _⟩

/-- The scan of the loop does not see the channel. -/
theorem Stepped.of_waitLoop {entered : State nproc ncpu}
    (entering : Entering state c p call action entered) :
    Stepped state c action (entered.waitLoop c p call) := by
  cases found : entered.table.zombieChild p with
  | some child =>
    rw [State.waitLoop, State.waitResult, found]
    exact .reap entering found
  | none =>
    rw [State.waitLoop, State.waitResult, found]
    dsimp only
    by_cases stops : entered.table.havekids p = false ∨ (entered.table p).killed = true
    · rw [if_pos stops]
      exact .waitFails entering found stops
    · rw [if_neg stops]
      exact .waitSleeps entering found stops

theorem Stepped.of_schedule (control : (state.cpus c).control = .scheduler)
    (free : state.lock = none) : Stepped state c .schedule (state.schedule c) := by
  rw [State.schedule]
  cases drawn : state.drawn c with
  | some p => exact .dispatch control free drawn
  | none => exact .idle control free drawn

theorem Stepped.of_resume {resumed : Resume}
    (control : (state.cpus c).control = .thread p (some resumed))
    (continues : state.resume c p resumed = some next) : Stepped state c .resume next := by
  cases resumed with
  | forkret =>
    cases continues
    exact .forkret control
  | yield =>
    cases continues
    exact .yielded control
  | sleep =>
    cases continues
    exact .slept control
  | wait call =>
    cases continues
    exact .of_waitLoop (.woken control)
  | exit => cases continues

theorem Stepped.of_allocproc (control : (state.cpus c).control = .thread p none)
    (free : state.lock = none) (outside : (state.table p).point = .outside) :
    Stepped state c .allocproc (state.allocproc p) := by
  rw [State.allocproc]
  cases found : state.table.firstUnused with
  | none => exact .allocFails control free found
  | some np => exact .allocproc control free outside found

theorem Stepped.of_callStep (control : (state.cpus c).control = .thread p none)
    (stepped : callStep state c p action = some next) : Stepped state c action next := by
  unfold callStep at stepped
  split at stepped
  · rename_i outside
    cases stepped
    exact .fault control outside
  · rename_i available np point
    cases stepped
    exact .allocStack available control point
  · rename_i available np point
    cases stepped
    exact .copyProcess available control point
  · rename_i pr outside
    cases stepped
    exact .priority pr control outside
  · rename_i pl outside
    rw [State.policy] at stepped
    split at stepped
    · rename_i policy known
      cases stepped
      exact .policy control outside known
    · cases stepped
  · rcases of_guard stepped with ⟨free, rfl⟩
    exact .yield control free
  · rename_i np point
    rcases of_guard stepped with ⟨free, rfl⟩
    exact .publish control free point
  · rename_i address outside
    rcases of_guard stepped with ⟨free, rfl⟩
    exact .sleep address control free outside
  · rename_i status outside
    rcases of_guard stepped with ⟨allowed, rfl⟩
    exact .exit status control allowed.1 outside allowed.2
  · rename_i call outside
    rcases of_guard stepped with ⟨free, rfl⟩
    exact .of_waitLoop (.call control free outside)
  · rename_i outside
    rcases of_guard stepped with ⟨free, rfl⟩
    exact .of_allocproc control free outside
  · rename_i pid outside
    rcases of_guard stepped with ⟨free, rfl⟩
    exact .kill pid control free outside
  · cases stepped

theorem Stepped.of_threadStep (control : (state.cpus c).control = .thread p none)
    (stepped : threadStep state c p action = some next) : Stepped state c action next := by
  unfold threadStep at stepped
  split at stepped
  · rename_i visit visiting
    cases stepped
    exact .visit control visiting
  · rcases of_guard stepped with ⟨free, rfl⟩
    exact .yield control free
  · cases stepped
  · exact .of_callStep control stepped

/-- Every step is one of the kinds above. -/
theorem step_cases (stepped : step state (c, action) = some next) :
    Stepped state c action next := by
  unfold step cpuStep at stepped
  dsimp only at stepped
  split at stepped
  · rename_i control
    rcases of_guard stepped with ⟨free, rfl⟩
    exact .of_schedule control free
  · rename_i control
    cases stepped
    exact .finish control
  · rename_i control
    exact .of_resume control stepped
  · rcases of_guard stepped with ⟨free, rfl⟩
    exact .wakeup _ free
  · rcases of_guard stepped with ⟨free, rfl⟩
    exact .wakeup _ free
  · rcases of_guard stepped with ⟨free, rfl⟩
    exact .tick free
  · rcases of_guard stepped with ⟨free, rfl⟩
    exact .tick free
  · rename_i control _ _
    exact .of_threadStep control stepped
  · cases stepped

end

end Xv6.Ptable
