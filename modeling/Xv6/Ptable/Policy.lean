import Xv6.Ptable.Tickets

/-! # Policies

`policy` takes no lock, and `yield` and `sleep` look at the policy and at the tickets before
they store. In between, processes on other processors can store as well. Here each of these
accesses is a step of its own, as each access in the loop of a policy function is; from this it
follows when the dynamic and the priority policy do what they are for.
-/

namespace Xv6.Ptable

open Transition Table
open Function (update update_self update_of_ne update_apply update_eq_self)

/-! ## Single accesses -/

/-- What `yield` or `sleep` does next: look at the policy, look at the tickets of its process,
load them, or store them. -/
inductive Progress
  | look
  | test
  | load
  | store (ntickets : Int32)
  | done
  deriving DecidableEq

/-- A call of `yield` or `sleep` that holds the lock and has stored the state of its
process. -/
structure Update (nproc ncpu : Nat) where
  action : Fin ncpu × Action nproc
  p : Fin nproc
  event : TicketEvent
  progress : Progress
  deriving DecidableEq

/-- The machine, and the call of `yield` or `sleep` that is under way. -/
structure Fine (nproc ncpu : Nat) where
  state : State nproc ncpu
  update : Option (Update nproc ncpu)

variable {nproc ncpu : Nat}

/-- The state that `yield` and `sleep` store first. -/
def TicketEvent.procState : TicketEvent → ProcState
  | .yield => .runnable
  | .sleep => .sleeping

/-- The tickets have been looked at. -/
def Update.tested (under : Update nproc ncpu) (ntickets : Int32) : Update nproc ncpu :=
  { under with progress := if under.event.Changes ntickets then .load else .done }

/-- The steps for which the lock need not be free. -/
def Action.lockFree : Action nproc → Bool
  | .allocStack _ | .copyProcess _ | .fault | .priority _ | .policy _ | .visit => true
  | _ => false

theorem Action.givesUp_of_lockFree {action : Action nproc} (free : action.lockFree = true) :
    action.givesUp = false := by
  cases action with
  | allocStack | copyProcess | fault | priority | policy | visit => rfl
  | _ => cases free

namespace Fine

variable (fine : Fine nproc ncpu)

/-- The rest of `yield` or `sleep`, with the tickets that it has come to. -/
def finish (update : Update nproc ncpu) (ntickets : Int32) : Option (Fine nproc ncpu) :=
  (Ptable.step fine.state update.action).map fun next =>
    ⟨next.modify update.p fun proc => { proc with ntickets := ntickets }, none⟩

def proceed (update : Update nproc ncpu) : Option (Fine nproc ncpu) :=
  let ntickets := (fine.state.table update.p).ntickets
  match update.progress with
  | .look => some ⟨fine.state, some { update with
      progress := if fine.state.npolicy = 2 then .test else .done }⟩
  | .test => some ⟨fine.state, some (update.tested ntickets)⟩
  | .load => some ⟨fine.state, some { update with progress := .store ntickets }⟩
  | .store value => fine.finish update (update.event.store value)
  | .done => fine.finish update ntickets

/-- A step that gives up the processor starts with the state of its process. The processor then
goes on with it, and another one can only do what takes no lock. What `wait` has found in the
table stays there. -/
def step (action : Fin ncpu × Action nproc) : Option (Fine nproc ncpu) :=
  match fine.update with
  | none =>
      (Ptable.step fine.state action).map fun next =>
        match ticketEvent fine.state action with
        | none => ⟨next, none⟩
        | some (p, event) =>
            ⟨fine.state.modify p fun proc => { proc with state := event.procState },
              some ⟨action, p, event, .look⟩⟩
  | some update =>
      if action = update.action ∧
          ticketEvent fine.state action = some (update.p, update.event) then fine.proceed update
      else if action.1 ≠ update.action.1 ∧ action.2.lockFree = true then
        (Ptable.step fine.state action).map fun next => ⟨next, some update⟩
      else none

/-- No call of `policy`, `yield` or `sleep` is under way. -/
def Quiet : Prop := fine.update = none ∧ ∀ p, (fine.state.table p).visit = none

instance : Decidable fine.Quiet := inferInstanceAs (Decidable (_ ∧ _))

/-- The kinds of steps. -/
inductive Stepped (action : Fin ncpu × Action nproc) : Fine nproc ncpu → Prop
  | plain {next : State nproc ncpu} (calm : fine.update = none)
      (nobody : ticketEvent fine.state action = none)
      (stepped : Ptable.Stepped fine.state action.1 action.2 next) : Stepped action ⟨next, none⟩
  | begins {p : Fin nproc} {event : TicketEvent} (calm : fine.update = none)
      (gives : ticketEvent fine.state action = some (p, event)) :
      Stepped action ⟨fine.state.modify p fun proc => { proc with state := event.procState },
        some ⟨action, p, event, .look⟩⟩
  | looks {under : Update nproc ncpu} (isUnder : fine.update = some under)
      (gives : ticketEvent fine.state action = some (under.p, under.event))
      (place : under.progress = .look) :
      Stepped action ⟨fine.state, some { under with
        progress := if fine.state.npolicy = 2 then .test else .done }⟩
  | tests {under : Update nproc ncpu} (isUnder : fine.update = some under)
      (gives : ticketEvent fine.state action = some (under.p, under.event))
      (place : under.progress = .test) :
      Stepped action ⟨fine.state, some (under.tested (fine.state.table under.p).ntickets)⟩
  | loads {under : Update nproc ncpu} (isUnder : fine.update = some under)
      (gives : ticketEvent fine.state action = some (under.p, under.event))
      (place : under.progress = .load) :
      Stepped action ⟨fine.state, some { under with
        progress := .store (fine.state.table under.p).ntickets }⟩
  | finishes {under : Update nproc ncpu} {next : State nproc ncpu} {ntickets : Int32}
      (isUnder : fine.update = some under)
      (gives : ticketEvent fine.state action = some (under.p, under.event))
      (stepped : Ptable.Stepped fine.state action.1 action.2 next)
      (value : under.progress = .done ∧ ntickets = (fine.state.table under.p).ntickets ∨
        ∃ value, under.progress = .store value ∧ ntickets = under.event.store value) :
      Stepped action ⟨next.modify under.p fun proc => { proc with ntickets := ntickets }, none⟩
  | beside {under : Update nproc ncpu} {next : State nproc ncpu}
      (isUnder : fine.update = some under) (free : action.2.lockFree = true)
      (stepped : Ptable.Stepped fine.state action.1 action.2 next) :
      Stepped action ⟨next, some under⟩

section

variable {fine : Fine nproc ncpu} {next : Fine nproc ncpu} {action : Fin ncpu × Action nproc}

theorem of_finish {under : Update nproc ncpu} {ntickets : Int32}
    (isUnder : fine.update = some under) (own : action = under.action)
    (gives : ticketEvent fine.state action = some (under.p, under.event))
    (value : under.progress = .done ∧ ntickets = (fine.state.table under.p).ntickets ∨
      ∃ value, under.progress = .store value ∧ ntickets = under.event.store value)
    (finished : fine.finish under ntickets = some next) : fine.Stepped action next := by
  rw [finish, ← own] at finished
  rcases Option.map_eq_some_iff.mp finished with ⟨after, taken, rfl⟩
  exact .finishes isUnder gives (Ptable.step_cases taken) value

theorem step_cases (stepped : fine.step action = some next) : fine.Stepped action next := by
  rw [step] at stepped
  split at stepped
  · rename_i calm
    rcases Option.map_eq_some_iff.mp stepped with ⟨after, taken, rfl⟩
    split
    · rename_i nobody
      exact .plain calm nobody (Ptable.step_cases taken)
    · rename_i p event gives
      exact .begins calm gives
  · rename_i under isUnder
    split at stepped
    · rename_i both
      rcases both with ⟨own, gives⟩
      rw [proceed] at stepped
      split at stepped
      · rename_i place
        cases stepped
        exact .looks isUnder gives place
      · rename_i place
        cases stepped
        exact .tests isUnder gives place
      · rename_i place
        cases stepped
        exact .loads isUnder gives place
      · rename_i value place
        exact of_finish isUnder own gives (Or.inr ⟨value, place, rfl⟩) stepped
      · rename_i place
        exact of_finish isUnder own gives (Or.inl ⟨place, rfl⟩) stepped
    · split at stepped
      · rename_i other
        rcases Option.map_eq_some_iff.mp stepped with ⟨after, taken, rfl⟩
        exact .beside isUnder other.2 (Ptable.step_cases taken)
      · cases stepped

/-- What a step outside of `policy` does to the tickets of a process. -/
inductive Effect (fine next : Fine nproc ncpu) (action : Fin ncpu × Action nproc) (q : Fin nproc) :
    Prop
  | kept {pr : Int32} (priority : pr = (fine.state.table q).priority ∨ action.2 = .priority pr)
      (same : (next.state.table q).share = { fine.state.table q with priority := pr }.share)
      (others : ∀ under, fine.update = some under → next.update = none → under.p ≠ q)
  | reset (schedules : action.2 = .schedule) (none : (fine.state.cpus action.1).ntickets = 0)
      (ten : (next.state.table q).share = { fine.state.table q with ntickets := 10 }.share)
  | stores {under : Update nproc ncpu} {ntickets : Int32} (isUnder : fine.update = some under)
      (isP : under.p = q) (givesUp : action.2.givesUp = true) (calm : next.update = .none)
      (value : under.progress = .done ∧ ntickets = (fine.state.table q).ntickets ∨
        ∃ value, under.progress = .store value ∧ ntickets = under.event.store value)
      (same : (next.state.table q).share = { fine.state.table q with ntickets := ntickets }.share)

theorem Stepped.effect (stepped : fine.Stepped action next) (notVisit : action.2 ≠ .visit)
    (notPolicy : ∀ pl, action.2 ≠ .policy pl) (q : Fin nproc) : Effect fine next action q := by
  cases stepped with
  | plain calm nobody stepped =>
    have others : ∀ under, fine.update = some under → under.p ≠ q := by simp [calm]
    cases stepped.tickets notVisit notPolicy q with
    | kept priority same => exact .kept priority same fun under isUnder _ => others under isUnder
    | reset schedules none ten => exact .reset schedules none ten
    | own gives => cases nobody.symm.trans gives
  | begins =>
    exact .kept (Or.inl rfl) (modify_keeps Proc.share _ _ q _ fun _ => rfl)
      fun _ _ calm => absurd calm (Option.some_ne_none _)
  | looks | tests | loads =>
    exact .kept (Or.inl rfl) rfl fun _ _ calm => absurd calm (Option.some_ne_none _)
  | @finishes under after ntickets isUnder gives stepped value =>
    have givesUp := givesUp_of_ticketEvent gives
    by_cases isP : under.p = q
    · subst isP
      have same : (after.table under.p).share =
          { fine.state.table under.p with ntickets := (after.table under.p).ntickets }.share := by
        cases stepped.tickets notVisit notPolicy under.p with
        | kept priority same =>
          rcases priority with rfl | isPriority
          · grind [Proc.share]
          · rw [isPriority] at givesUp
            cases givesUp
        | reset schedules =>
          rw [schedules] at givesUp
          cases givesUp
        | own _ same => exact same
      refine .stores isUnder rfl givesUp rfl value ?_
      dsimp only
      rw [State.modify_self]
      grind [Proc.share]
    · have others : ∀ other, fine.update = some other → other.p ≠ q := by
        intro other isOther
        cases isUnder.symm.trans isOther
        exact isP
      cases stepped.tickets notVisit notPolicy q with
      | kept priority same =>
        refine .kept priority ?_ fun other isOther _ => others other isOther
        dsimp only
        rw [State.modify_of_ne _ (Ne.symm isP)]
        exact same
      | reset schedules =>
        rw [schedules] at givesUp
        cases givesUp
      | own gives' =>
        cases gives.symm.trans gives'
        exact absurd rfl isP
  | beside isUnder free stepped =>
    cases stepped.tickets notVisit notPolicy q with
    | kept priority same =>
      exact .kept priority same fun _ _ calm => absurd calm (Option.some_ne_none _)
    | reset schedules =>
      rw [schedules] at free
      cases free
    | own gives =>
      cases (givesUp_of_ticketEvent gives).symm.trans (Action.givesUp_of_lockFree free)

/-- A step for which the lock need not be free leaves `yield` and `sleep` alone. -/
theorem Stepped.lockFree (stepped : fine.Stepped action next) (free : action.2.lockFree = true) :
    ∃ after, Ptable.Stepped fine.state action.1 action.2 after ∧ next = ⟨after, fine.update⟩ := by
  cases stepped with
  | plain calm _ taken | beside calm _ taken => exact ⟨_, taken, by rw [calm]⟩
  | begins _ gives | looks _ gives | tests _ gives | loads _ gives | finishes _ gives =>
    cases (givesUp_of_ticketEvent gives).symm.trans (Action.givesUp_of_lockFree free)

theorem Effect.visit {q : Fin nproc} (effect : Effect fine next action q) :
    (next.state.table q).visit = (fine.state.table q).visit := by
  cases effect with
  | kept _ same | reset _ _ same | stores _ _ _ _ _ same =>
    exact congrArg (fun share => share.2.2) same

theorem Effect.ntickets {q : Fin nproc} (effect : Effect fine next action q)
    (free : action.2.lockFree = true) :
    (next.state.table q).ntickets = (fine.state.table q).ntickets := by
  cases effect with
  | kept _ same => exact congrArg Prod.fst same
  | reset schedules =>
    rw [schedules] at free
    cases free
  | stores _ _ givesUp => cases givesUp.symm.trans (Action.givesUp_of_lockFree free)

theorem Effect.priority {q : Fin nproc} (effect : Effect fine next action q) :
    (next.state.table q).priority = (fine.state.table q).priority ∨
      action.2 = .priority (next.state.table q).priority := by
  cases effect with
  | kept priority same =>
    have set : (next.state.table q).priority = _ := congrArg (fun share => share.2.1) same
    rw [set]
    exact priority
  | reset _ _ same | stores _ _ _ _ _ same =>
    exact Or.inl (congrArg (fun share => share.2.1) same)

end

end Fine

/-! ## Visits -/

namespace Visit

/-- The slot that the loop is at, if it is at the given stage. -/
def at? (visit : Visit nproc) (stage : Stage) : Option (Fin nproc) :=
  if visit.stage = stage then visit.slots.head? else none

/-- The slots in which the loop has not yet stored. -/
def left (visit : Visit nproc) : List (Fin nproc) :=
  if visit.stage = .enter then visit.slots else visit.slots.tail

variable {visit next : Visit nproc} {table : Table nproc} {q : Fin nproc}

theorem stores_apply (visit : Visit nproc) (table : Table nproc) (q : Fin nproc) :
    visit.stores table q = if visit.at? .enter = some q then visit.policy.enter (table q)
      else if visit.at? .count = some q then visit.policy.count (table q) else table q := by
  rcases visit with ⟨policy, slots, stage⟩
  cases slots with
  | nil => cases stage <;> rfl
  | cons first rest => cases stage <;> simp [stores, at?, modify_apply, eq_comm]

theorem stores_visit (visit : Visit nproc) (table : Table nproc) (q : Fin nproc) :
    (visit.stores table q).visit = (table q).visit := by
  rw [stores_apply]
  cases visit.policy <;> grind [Policy.enter, Policy.count]

theorem policy_next (goesOn : visit.next table = some next) : next.policy = visit.policy := by
  rcases visit with ⟨policy, slots, stage⟩
  cases slots <;> cases stage <;> grind [Visit.next]

theorem mem_left_next (isLeft : q ∈ visit.left) :
    visit.at? .enter = some q ∨ ∃ next, visit.next table = some next ∧ q ∈ next.left := by
  rcases visit with ⟨policy, slots, stage⟩
  cases slots <;> cases stage <;> grind [Visit.next, left, at?]

theorem mem_slots_next (isLeft : q ∈ visit.slots) :
    visit.at? .count = some q ∨ visit.at? .test = some q ∧ (table q).state ≠ .runnable ∨
      ∃ next, visit.next table = some next ∧ q ∈ next.slots := by
  rcases visit with ⟨policy, slots, stage⟩
  cases slots with
  | nil => cases isLeft
  | cons first rest =>
    cases stage with
    | enter => exact Or.inr (Or.inr ⟨_, rfl, isLeft⟩)
    | test =>
      by_cases runnable : (table first).state = .runnable
      · exact Or.inr (Or.inr ⟨_, if_pos runnable, isLeft⟩)
      · rcases List.mem_cons.mp isLeft with rfl | later
        · exact Or.inr (Or.inl ⟨rfl, runnable⟩)
        · exact Or.inr (Or.inr ⟨_, if_neg runnable, later⟩)
    | count =>
      rcases List.mem_cons.mp isLeft with rfl | later
      · exact Or.inl rfl
      · exact Or.inr (Or.inr ⟨_, rfl, later⟩)

/-- The loop comes to a later stage only from the stage before. -/
theorem at_next (goesOn : visit.next table = some next)
    (isAt : next.at? .test = some q ∨ next.at? .count = some q) :
    visit.at? .enter = some q ∨ visit.at? .test = some q := by
  rcases visit with ⟨policy, slots, stage⟩
  cases slots <;> cases stage <;> grind [Visit.next, at?]

end Visit

theorem visit_apply (table : Table nproc) (p : Fin nproc) (visit : Visit nproc) (q : Fin nproc) :
    table.visit p visit q = if q = p then { visit.stores table q with visit := visit.next table }
      else visit.stores table q := by
  rw [Table.visit, setVisit, modify_apply]

theorem visit_visit (table : Table nproc) (p : Fin nproc) (visit : Visit nproc) (q : Fin nproc) :
    (table.visit p visit q).visit = if q = p then visit.next table else (table q).visit := by
  rw [visit_apply]
  split
  · rfl
  · exact visit.stores_visit table q

/-- The slot that the loop of a processor is at, if it is at the given stage. -/
def State.visiting (state : State nproc ncpu) (c : Fin ncpu) (stage : Stage) :
    Option (Fin nproc) :=
  match (state.cpus c).control with
  | .thread p none => (state.table p).visit.bind (·.at? stage)
  | _ => none

theorem State.visiting_eq {state : State nproc ncpu} {c : Fin ncpu} {p : Fin nproc}
    {visit : Visit nproc} (control : (state.cpus c).control = .thread p none)
    (isVisit : (state.table p).visit = some visit) (stage : Stage) :
    state.visiting c stage = visit.at? stage := by
  rw [State.visiting, control]
  dsimp only
  rw [isVisit]
  rfl

/-- A step in the loop of a policy function. -/
theorem Fine.Stepped.visits {fine next : Fine nproc ncpu} {c : Fin ncpu}
    (stepped : fine.Stepped (c, .visit) next) :
    ∃ p visit, (fine.state.table p).visit = some visit ∧
      (∀ stage, fine.state.visiting c stage = visit.at? stage) ∧
      next = ⟨{ fine.state with table := fine.state.table.visit p visit }, fine.update⟩ := by
  rcases stepped.lockFree rfl with ⟨after, taken, rfl⟩
  cases taken with
  | @visit p visit control isVisit =>
    exact ⟨p, visit, isVisit, State.visiting_eq control isVisit, rfl⟩
  | reap entering | waitFails entering | waitSleeps entering => cases entering

/-! ## Calls in line with the policy -/

/-- The state in which a process enters the loop of a policy function. -/
def State.selected (state : State nproc ncpu) (p : Fin nproc) (pl : Nat) (policy : Policy) :
    State nproc ncpu :=
  { state with
    npolicy := pl
    table := state.table.setVisit p (some ⟨policy, List.finRange nproc, .enter⟩) }

theorem State.selected_visit {state : State nproc ncpu} (quiet : ∀ q, (state.table q).visit = none)
    (p : Fin nproc) (pl : Nat) (policy : Policy) (q : Fin nproc) :
    ((state.selected p pl policy).table q).visit =
      if q = p then some ⟨policy, List.finRange nproc, .enter⟩ else none := by
  dsimp only [State.selected, setVisit]
  rw [modify_apply]
  split
  · rfl
  · exact quiet q

/-- A call of `policy`. -/
theorem Fine.Stepped.selects {fine next : Fine nproc ncpu} {c : Fin ncpu} {pl : Nat}
    (stepped : fine.Stepped (c, .policy pl) next) :
    ∃ p policy, policies[pl]? = some policy ∧
      next = ⟨fine.state.selected p pl policy, fine.update⟩ := by
  rcases stepped.lockFree rfl with ⟨after, taken, rfl⟩
  cases taken with
  | @policy p _ policy _ _ known => exact ⟨p, policy, known, rfl⟩
  | reap entering | waitFails entering | waitSleeps entering => cases entering

theorem Fine.Stepped.npolicy {fine next : Fine nproc ncpu} {action : Fin ncpu × Action nproc}
    (stepped : fine.Stepped action next) (notPolicy : ∀ pl, action.2 ≠ .policy pl) :
    next.state.npolicy = fine.state.npolicy := by
  cases stepped with
  | plain _ _ taken | beside _ _ taken | finishes _ _ taken => exact taken.npolicy notPolicy
  | begins | looks | tests | loads => rfl

/-- The call will not store tickets. -/
def Update.Idle (under : Update nproc ncpu) : Prop :=
  under.progress = .look ∨ under.progress = .done

theorem Fine.Stepped.idle {fine next : Fine nproc ncpu} {action : Fin ncpu × Action nproc}
    (stepped : fine.Stepped action next) (other : fine.state.npolicy ≠ 2)
    (idle : ∀ under ∈ fine.update, under.Idle) : ∀ under ∈ next.update, under.Idle := by
  intro under isUnder
  cases stepped with
  | plain | finishes => cases isUnder
  | begins =>
    cases isUnder
    exact Or.inl rfl
  | looks =>
    cases isUnder
    exact Or.inr (if_neg other)
  | @tests before isBefore _ place | @loads before isBefore _ place =>
    rcases idle before isBefore with seen | seen
    · cases place.symm.trans seen
    · cases place.symm.trans seen
  | beside isBefore =>
    cases isUnder
    exact idle under isBefore

/-- Ten tickets are left alone. -/
theorem Fine.Effect.ten {fine next : Fine nproc ncpu} {action : Fin ncpu × Action nproc}
    {q : Fin nproc} (effect : Effect fine next action q) (idle : ∀ under ∈ fine.update, under.Idle)
    (before : (fine.state.table q).ntickets = 10) : (next.state.table q).ntickets = 10 := by
  cases effect with
  | kept _ same => exact (congrArg Prod.fst same).trans before
  | reset _ _ same => exact congrArg Prod.fst same
  | @stores under ntickets isUnder _ _ _ value same =>
    rcases value with ⟨_, kept⟩ | ⟨value, place, _⟩
    · exact (congrArg Prod.fst same).trans (kept.trans before)
    · rcases idle under isUnder with seen | seen
      · cases place.symm.trans seen
      · cases place.symm.trans seen

/-- A slot that the loop of `priority_scheduling` has entered has priority 10. -/
def State.Primed (state : State nproc ncpu) : Prop :=
  ∀ p, ∀ visit ∈ (state.table p).visit, visit.policy = .priorityScheduling →
    ∀ q, visit.at? .test = some q ∨ visit.at? .count = some q → (state.table q).priority = 10

theorem visit_priority (table : Table nproc) (p : Fin nproc) (visit : Visit nproc) (q : Fin nproc) :
    (table.visit p visit q).priority =
      if visit.policy = .priorityScheduling ∧ visit.at? .enter = some q then 10
      else (table q).priority := by
  rw [visit_apply, Visit.stores_apply]
  cases visit.policy <;> grind [Policy.enter, Policy.count]

theorem State.Primed.visit {state : State nproc ncpu} {p : Fin nproc} {visit : Visit nproc}
    (primed : state.Primed) (isVisit : (state.table p).visit = some visit) :
    State.Primed { state with table := state.table.visit p visit } := by
  intro r other isOther byPriority q isAt
  dsimp only at isOther ⊢
  rw [visit_priority]
  split
  · rfl
  · rename_i away
    rw [visit_visit] at isOther
    split at isOther
    · have same := Visit.policy_next isOther
      rw [byPriority] at same
      rcases Visit.at_next isOther isAt with entered | tested
      · exact absurd ⟨same.symm, entered⟩ away
      · exact primed p visit isVisit same.symm q (Or.inl tested)
    · exact primed r other isOther byPriority q isAt

/-- The calls that are under way belong to the policy that is selected. -/
structure Consistent (fine : Fine nproc ncpu) : Prop where
  policy : ∀ p, ∀ visit ∈ (fine.state.table p).visit,
    policies[fine.state.npolicy]? = some visit.policy
  primed : fine.state.Primed
  idle : fine.state.npolicy ≠ 2 → ∀ under ∈ fine.update, under.Idle

/-- `policy` is called when no call of `policy`, `yield` or `sleep` is under way, and `priority`
when no call of `policy` is, unless it stores nothing or 10. -/
structure Timely (fine : Fine nproc ncpu) (action : Action nproc) : Prop where
  policy : ∀ pl, action = .policy pl → fine.Quiet
  priority : ∀ pr, action = .priority pr → fine.state.npolicy = 1 →
    pr = 10 ∨ ∀ p, (fine.state.table p).visit = none

section

variable {fine next : Fine nproc ncpu} {c : Fin ncpu} {action : Action nproc}

theorem Consistent.selected {state : State nproc ncpu} {pl : Nat} {policy : Policy}
    (known : policies[pl]? = some policy) (quiet : ∀ q, (state.table q).visit = none)
    (p : Fin nproc) : Consistent ⟨state.selected p pl policy, none⟩ := by
  have visits := State.selected_visit quiet p pl policy
  refine ⟨?_, ?_, fun _ => nofun⟩
  · intro q visit isVisit
    rw [visits] at isVisit
    split at isVisit
    · cases isVisit
      exact known
    · cases isVisit
  · intro r visit isVisit _ q isAt
    rw [visits] at isVisit
    grind [Visit.at?]

theorem Consistent.visit {p : Fin nproc} {visit : Visit nproc} (consistent : Consistent fine)
    (isVisit : (fine.state.table p).visit = some visit) :
    Consistent ⟨{ fine.state with table := fine.state.table.visit p visit }, fine.update⟩ := by
  refine ⟨?_, consistent.primed.visit isVisit, consistent.idle⟩
  intro q other isOther
  dsimp only at isOther ⊢
  rw [visit_visit] at isOther
  split at isOther
  · rw [Visit.policy_next isOther]
    exact consistent.policy p visit isVisit
  · exact consistent.policy q other isOther

theorem Consistent.step (consistent : Consistent fine) (stepped : fine.Stepped (c, action) next)
    (timely : Timely fine action) : Consistent next := by
  by_cases isVisit : action = .visit
  · subst isVisit
    rcases stepped.visits with ⟨p, visit, visiting, _, rfl⟩
    exact consistent.visit visiting
  by_cases isPolicy : ∃ pl, action = .policy pl
  · rcases isPolicy with ⟨pl, rfl⟩
    rcases stepped.selects with ⟨p, policy, known, rfl⟩
    have quiet := timely.policy pl rfl
    rw [quiet.1]
    exact .selected known quiet.2 p
  have notPolicy : ∀ pl, action ≠ .policy pl := fun pl same => isPolicy ⟨pl, same⟩
  have effect := stepped.effect isVisit notPolicy
  have same := stepped.npolicy notPolicy
  refine ⟨?_, ?_, ?_⟩
  · intro p
    rw [same, (effect p).visit]
    exact consistent.policy p
  · intro p visit visiting byPriority q isAt
    rw [(effect p).visit] at visiting
    rcases (effect q).priority with kept | sets
    · rw [kept]
      exact consistent.primed p visit visiting byPriority q isAt
    · have known := consistent.policy p visit visiting
      have selected : fine.state.npolicy = 1 := by
        rw [byPriority] at known
        grind [policies]
      rcases timely.priority _ sets selected with ten | quiet
      · exact ten
      · cases (quiet p).symm.trans visiting
  · rw [same]
    exact fun other => stepped.idle other (consistent.idle other)

end

/-! ## Runs under a policy -/

def Fine.booted (nproc ncpu : Nat) : Fine (nproc + 1) ncpu := ⟨Ptable.booted nproc ncpu, none⟩

def Action.isPolicy : Action nproc → Bool
  | .policy _ => true
  | _ => false

section

variable {Log : Type} (nproc ncpu pl : Nat)
  (record : Fine (nproc + 1) ncpu → Fin ncpu × Action (nproc + 1) →
    Fine (nproc + 1) ncpu → Log → Log)
  (allowed : Fine (nproc + 1) ncpu → Fin ncpu × Action (nproc + 1) → Prop) (log : Log)

/-- Runs from a call of `policy` on up to the next one, with a log. No other call is under way
when it is made. -/
def PolicyRun (both : Fine (nproc + 1) ncpu × Log) : Prop :=
  ∃ before c selected, Reachable Fine.step Unrestricted (Fine.booted nproc ncpu) before ∧
    before.Quiet ∧ before.step (c, .policy pl) = some selected ∧
    Reachable (recorded Fine.step record) (fun both action => action.2.isPolicy = false ∧
      allowed both.1 action) (selected, log) both

variable [∀ fine action, Decidable (allowed fine action)]

/-- Perform such a run: one list of actions before the call, one after it. -/
def runPolicy (first : List (Fin ncpu × Action (nproc + 1))) (c : Fin ncpu)
    (rest : List (Fin ncpu × Action (nproc + 1))) : Option (Fine (nproc + 1) ncpu × Log) := do
  let before ← run Fine.step Unrestricted (Fine.booted nproc ncpu) first
  guard before.Quiet
  let selected ← before.step (c, .policy pl)
  run (recorded Fine.step record) (fun both action => action.2.isPolicy = false ∧
    allowed both.1 action) (selected, log) rest

theorem exists_policyRun (first : List (Fin ncpu × Action (nproc + 1))) (c : Fin ncpu)
    (rest : List (Fin ncpu × Action (nproc + 1))) (facts : Fine (nproc + 1) ncpu × Log → Prop)
    [DecidablePred facts] (ran : (runPolicy nproc ncpu pl record allowed log first c rest).any
      (fun both => decide (facts both)) = true) :
    ∃ fine log', PolicyRun nproc ncpu pl record allowed log (fine, log') ∧
      facts (fine, log') := by
  rcases (Option.any_eq_true _ _).mp ran with ⟨⟨fine, log'⟩, reached, evaluated⟩
  refine ⟨fine, log', ?_, of_decide_eq_true evaluated⟩
  simp only [runPolicy, Option.bind_eq_bind, Option.bind_eq_some_iff, Option.guard_eq_some']
    at reached
  rcases reached with ⟨before, starts, _, quiet, selected, selects, reached⟩
  exact ⟨before, c, selected, .of_run first .refl starts, quiet, selects,
    .of_run rest .refl reached⟩

end

/-- What the call of `policy` brings about holds as long as every step keeps it. -/
theorem PolicyRun.invariant {Log : Type} {pl : Nat} {policy : Policy} {record} {allowed}
    {log : Log} (known : policies[pl]? = some policy)
    (modest : pl = 1 → ∀ fine c pr, allowed fine (c, .priority pr) → pr = 10)
    (holds : Fine (nproc + 1) ncpu → Log → Prop)
    (starts : ∀ fine p, (fine.state.table p).visit = some ⟨policy, List.finRange _, .enter⟩ →
      fine.update = none → holds fine log)
    (keeps : ∀ fine c action next log, fine.Stepped (c, action) next →
      (∀ pl, action ≠ .policy pl) → allowed fine (c, action) → fine.state.npolicy = pl →
        Consistent fine → holds fine log → holds next (record fine (c, action) next log))
    {both : Fine (nproc + 1) ncpu × Log} (ran : PolicyRun nproc ncpu pl record allowed log both) :
    holds both.1 both.2 := by
  rcases ran with ⟨before, c, selected, _, quiet, selects, ran⟩
  rcases (Fine.step_cases selects).selects with ⟨p, chosen, isChosen, rfl⟩
  cases known.symm.trans isChosen
  have invariant := Reachable.invariant (fun both => both.1.state.npolicy = pl ∧
    Consistent both.1 ∧ holds both.1 both.2) ?_ ?_ ran
  · exact invariant.2.2
  · rintro before ⟨c, action⟩ after ⟨selected, consistent, invariant⟩ ⟨other, isAllowed⟩ stepped
    rcases recorded_eq_some.mp stepped with ⟨taken, isRecord⟩
    have kind := Fine.step_cases taken
    have notPolicy : ∀ pl, action ≠ .policy pl := by
      rintro pl rfl
      cases other
    have timely : Timely before.1 action := by
      refine ⟨fun pl isPolicy => absurd isPolicy (notPolicy pl), ?_⟩
      rintro pr rfl byPriority
      exact Or.inl (modest (selected.symm.trans byPriority) _ _ _ isAllowed)
    refine ⟨(kind.npolicy notPolicy).trans selected, consistent.step kind timely, ?_⟩
    rw [isRecord]
    exact keeps _ _ _ _ _ kind notPolicy isAllowed selected consistent invariant
  · rw [quiet.1]
    refine ⟨rfl, .selected known quiet.2 p, starts _ p ?_ rfl⟩
    exact (State.selected_visit quiet.2 p pl policy p).trans (if_pos rfl)

/-! ## The dynamic policy -/

/-- The tickets of a process after its events, the latest of which comes first. -/
def replay (events : List TicketEvent) : Int32 := events.foldr TicketEvent.update 20

/-- The events of each process since `policy` has come to it, or since its creation if that is
later. -/
def recordEvents (fine : Fine nproc ncpu) (action : Fin ncpu × Action nproc)
    (next : Fine nproc ncpu) (events : Fin nproc → List TicketEvent) :
    Fin nproc → List TicketEvent :=
  match action with
  | (c, .allocproc) =>
      match (fine.state.cpus c).control, fine.state.table.firstUnused with
      | .thread _ none, some np => update events np []
      | _, _ => events
  | (c, .visit) =>
      match fine.state.visiting c .enter with
      | some q => update events q []
      | none => events
  | _ =>
      match fine.update, next.update with
      | some under, none => update events under.p (under.event :: events under.p)
      | _, _ => events

/-- The call has not looked at the tickets of its process. -/
def Update.Untested (under : Update nproc ncpu) : Prop :=
  under.progress = .look ∨ under.progress = .test

instance (under : Update nproc ncpu) : Decidable under.Untested :=
  inferInstanceAs (Decidable (_ ∨ _))

/-- A round of a scheduler has tickets from the round before, a new process gets a slot with 20
tickets, and `policy` does not store between the accesses of `yield` or `sleep` to the same
tickets. -/
def Undisturbed (fine : Fine nproc ncpu) : Fin ncpu × Action nproc → Prop
  | (c, .schedule) => (fine.state.cpus c).ntickets ≠ 0
  | (_, .allocproc) =>
      ∀ np, fine.state.table.firstUnused = some np → (fine.state.table np).ntickets = 20
  | (c, .visit) => ∀ under ∈ fine.update, fine.state.visiting c .enter = some under.p →
      under.Untested
  | _ => True

instance (fine : Fine nproc ncpu) (action : Fin ncpu × Action nproc) :
    Decidable (Undisturbed fine action) := by
  rcases action with ⟨c, action⟩
  cases action <;> unfold Undisturbed <;> infer_instance

/-- What the call has seen and will store fits the tickets. -/
def Update.Fits (under : Update nproc ncpu) (ntickets : Int32) : Prop :=
  match under.progress with
  | .look | .test => True
  | .load => under.event.Changes ntickets
  | .store value => value = ntickets ∧ under.event.Changes ntickets
  | .done => ¬under.event.Changes ntickets

/-- `policy` has stored in the slot. -/
def State.Served (state : State nproc ncpu) (q : Fin nproc) : Prop :=
  ∀ p, ∀ visit ∈ (state.table p).visit, q ∉ visit.left

theorem State.Served.before {state : State nproc ncpu} {p q : Fin nproc} {visit : Visit nproc}
    (served : State.Served { state with table := state.table.visit p visit } q)
    (isVisit : (state.table p).visit = some visit) (away : visit.at? .enter ≠ some q) :
    state.Served q := by
  intro r other isOther isLeft
  by_cases same : r = p
  · subst same
    cases isVisit.symm.trans isOther
    rcases Visit.mem_left_next isLeft with here | ⟨after, goesOn, stillLeft⟩
    · exact away here
    · refine served r after ?_ stillLeft
      dsimp only
      rw [visit_visit, if_pos rfl]
      exact goesOn
  · refine served r other ?_ isLeft
    dsimp only
    rw [visit_visit, if_neg same]
    exact isOther

structure Replayed (fine : Fine nproc ncpu) (events : Fin nproc → List TicketEvent) : Prop where
  tickets : ∀ q, fine.state.Served q → (fine.state.table q).ntickets = replay (events q)
  fits : ∀ under ∈ fine.update, under.Fits (fine.state.table under.p).ntickets

section

variable {fine next : Fine nproc ncpu} {c : Fin ncpu} {action : Action nproc}
  {events : Fin nproc → List TicketEvent} {q : Fin nproc}

theorem recordEvents_visit (next : Fine nproc ncpu) (q : Fin nproc) :
    recordEvents fine (c, .visit) next events q =
      if fine.state.visiting c .enter = some q then [] else events q := by
  dsimp only [recordEvents]
  cases fine.state.visiting c .enter with
  | none => rfl
  | some first => grind [update_apply]

theorem Replayed.visit (replayed : Replayed fine events) (consistent : Consistent fine)
    (selected : fine.state.npolicy = 2) (stepped : fine.Stepped (c, .visit) next)
    (undisturbed : Undisturbed fine (c, .visit)) :
    Replayed next (recordEvents fine (c, .visit) next events) := by
  rcases stepped.visits with ⟨p, visit, isVisit, isAt, rfl⟩
  have dynamic : visit.policy = .dynamicTicketsAllc := by
    have known := consistent.policy p visit isVisit
    rw [selected] at known
    exact (Option.some.inj known).symm
  have tickets : ∀ q, (fine.state.table.visit p visit q).ntickets =
      if visit.at? .enter = some q then 20 else (fine.state.table q).ntickets := by
    intro q
    rw [visit_apply, Visit.stores_apply, dynamic]
    grind [Policy.enter, Policy.count]
  constructor
  · intro q served
    rw [recordEvents_visit, isAt, tickets]
    split
    · rfl
    · rename_i away
      exact replayed.tickets q (served.before isVisit away)
  · intro under isUnder
    have fits := replayed.fits under isUnder
    rw [tickets]
    split
    · rename_i here
      have untested := undisturbed under isUnder ((isAt _).trans here)
      unfold Update.Fits
      rcases untested with place | place
      · rw [place]
        trivial
      · rw [place]
        trivial
    · exact fits

/-- What the other calls come to. -/
theorem Fine.Stepped.fits (stepped : fine.Stepped (c, action) next) (notVisit : action ≠ .visit)
    (notPolicy : ∀ pl, action ≠ .policy pl) (dynamic : fine.state.npolicy = 2)
    (fits : ∀ under ∈ fine.update, under.Fits (fine.state.table under.p).ntickets) :
    ∀ under ∈ next.update, under.Fits (next.state.table under.p).ntickets := by
  have effect := stepped.effect notVisit notPolicy
  intro under isUnder
  cases stepped with
  | plain | finishes => cases isUnder
  | begins =>
    cases isUnder
    trivial
  | looks =>
    cases isUnder
    rw [Update.Fits, if_pos dynamic]
    trivial
  | tests =>
    cases isUnder
    grind [Update.Fits, Update.tested]
  | @loads before isBefore gives place =>
    cases isUnder
    have changes := fits before isBefore
    rw [Update.Fits, place] at changes
    exact ⟨rfl, changes⟩
  | beside isBefore free =>
    cases isUnder
    rw [(effect under.p).ntickets free]
    exact fits under isBefore

theorem recordEvents_allocproc (fine next : Fine nproc ncpu) (c : Fin ncpu)
    (events : Fin nproc → List TicketEvent) :
    recordEvents fine (c, .allocproc) next events = events ∨
      ∃ np, fine.state.table.firstUnused = some np ∧
        recordEvents fine (c, .allocproc) next events = update events np [] := by
  dsimp only [recordEvents]
  split
  · rename_i np _ found
    exact Or.inr ⟨np, found, rfl⟩
  · exact Or.inl rfl

theorem recordEvents_apply (notVisit : action ≠ .visit) (allocates : action ≠ .allocproc) :
    recordEvents fine (c, action) next events q =
      match fine.update, next.update with
      | some under, none => update events under.p (under.event :: events under.p) q
      | _, _ => events q := by
  cases action with
  | visit => exact absurd rfl notVisit
  | allocproc => exact absurd rfl allocates
  | _ =>
    dsimp only [recordEvents]
    cases fine.update with
    | none => rfl
    | some under => cases next.update <;> rfl

theorem Update.Fits.update {under : Update nproc ncpu} {before ntickets : Int32}
    (fits : under.Fits before)
    (value : under.progress = .done ∧ ntickets = before ∨
      ∃ value, under.progress = .store value ∧ ntickets = under.event.store value) :
    ntickets = under.event.update before := by
  rcases value with ⟨place, rfl⟩ | ⟨value, place, rfl⟩
  · rw [Fits, place] at fits
    exact (if_neg fits).symm
  · rw [Fits, place] at fits
    rw [TicketEvent.update, if_pos fits.2, fits.1]

/-- Under a step outside of `policy`, only the end of `yield` or `sleep` counts. -/
theorem Fine.Stepped.replayed (stepped : fine.Stepped (c, action) next)
    (notVisit : action ≠ .visit) (notPolicy : ∀ pl, action ≠ .policy pl)
    (undisturbed : Undisturbed fine (c, action))
    (fits : ∀ under ∈ fine.update, under.Fits (fine.state.table under.p).ntickets)
    (replayed : (fine.state.table q).ntickets = replay (events q)) :
    (next.state.table q).ntickets = replay (recordEvents fine (c, action) next events q) := by
  have effect := stepped.effect notVisit notPolicy q
  by_cases allocates : action = .allocproc
  · subst allocates
    have kept : (next.state.table q).ntickets = (fine.state.table q).ntickets := by
      cases effect with
      | kept _ same => exact congrArg Prod.fst same
      | reset schedules => cases schedules
      | stores _ _ givesUp => cases givesUp
    rw [kept]
    rcases recordEvents_allocproc fine next c events with same | ⟨np, found, reset⟩
    · rw [same]
      exact replayed
    · rw [reset]
      by_cases same : q = np
      · rw [same, update_self, undisturbed np found]
        rfl
      · rw [update_of_ne same]
        exact replayed
  · rw [recordEvents_apply notVisit allocates]
    cases effect with
    | kept _ same others =>
      have kept : (next.state.table q).ntickets = (fine.state.table q).ntickets :=
        congrArg Prod.fst same
      rw [kept]
      split
      · rename_i under isUnder calm
        rw [update_of_ne (Ne.symm (others under isUnder calm))]
        exact replayed
      · exact replayed
    | reset schedules none =>
      dsimp only at schedules
      rw [schedules] at undisturbed
      exact absurd none undisturbed
    | stores isUnder isP givesUp calm value same =>
      have set := congrArg Prod.fst same
      subst isP
      rw [isUnder, calm]
      dsimp only
      rw [update_self, replay, List.foldr_cons, ← replay, ← replayed]
      exact set.trans ((fits _ isUnder).update value)

theorem Replayed.step (replayed : Replayed fine events) (consistent : Consistent fine)
    (selected : fine.state.npolicy = 2) (stepped : fine.Stepped (c, action) next)
    (notPolicy : ∀ pl, action ≠ .policy pl) (undisturbed : Undisturbed fine (c, action)) :
    Replayed next (recordEvents fine (c, action) next events) := by
  by_cases isVisit : action = .visit
  · subst isVisit
    exact replayed.visit consistent selected stepped undisturbed
  · constructor
    · intro q served
      apply stepped.replayed isVisit notPolicy undisturbed replayed.fits
      apply replayed.tickets
      intro p
      rw [← (stepped.effect isVisit notPolicy p).visit]
      exact served p
    · exact stepped.fits isVisit notPolicy selected replayed.fits

end

/-- The first process runs. -/
def startInit : List (Fin 1 × Action 2) := [(0, .schedule), (0, .resume)]

/-- The loop of a policy function over two slots, none of which is runnable. -/
def visitBoth : List (Fin 1 × Action 2) := List.replicate 5 (0, .visit)

/-- It forks, yields, and its child goes to sleep or it does so itself. Every access of `yield`
and `sleep` is a step. -/
def yieldAndSleep : List (Fin 1 × Action 2) :=
  visitBoth ++ [(0, .allocproc), (0, .allocStack true), (0, .copyProcess true), (0, .publish)] ++
    List.replicate 5 (0, .yield) ++ [(0, .finish), (0, .schedule), (0, .resume)] ++
    List.replicate 5 (0, .sleep 0)

/-- The only process sleeps through a round of the scheduler. -/
def sleepThroughRound : List (Fin 1 × Action 2) :=
  visitBoth ++ List.replicate 5 (0, .sleep 0) ++
    [(0, .finish), (0, .schedule), (0, .wakeup 0), (0, .schedule)]

/-- The priority that each process has last set since the call of `policy`, or since its
creation if that is later; 10 if it has set none. -/
def recordPriorities (fine : Fine nproc ncpu) (action : Fin ncpu × Action nproc)
    (_ : Fine nproc ncpu) (priorities : Fin nproc → Int32) : Fin nproc → Int32 :=
  match action with
  | (c, .allocproc) =>
      match (fine.state.cpus c).control, fine.state.table.firstUnused with
      | .thread _ none, some np => update priorities np 10
      | _, _ => priorities
  | (c, .priority pr) =>
      match (fine.state.cpus c).control with
      | .thread p none => update priorities p pr
      | _ => priorities
  | _ => priorities

/-- What the tickets should be when a processor draws one. -/
structure FairDraw (state : State nproc ncpu) (c : Fin ncpu) (priorities : Fin nproc → Int32) :
    Prop where
  tickets : ∀ p, (state.table p).state = .runnable →
    ((state.tickets c).1 p).ntickets = priorities p
  total : (state.tickets c).2.toInt = (((List.finRange nproc).filter fun p =>
    (state.table p).state = .runnable).map fun p => (priorities p).toInt).sum
  chance : ∀ p, (state.table p).state = .runnable →
    Nat.count (fun number => (state.tickets c).1.findTicket (List.finRange nproc)
      (Int32.ofNat number) = some p) (state.tickets c).2.toInt.toNat = (priorities p).toInt.toNat
  number : 0 < (state.tickets c).2.toInt →
    ∃ number, number < (state.tickets c).2.toInt.toNat ∧
      (prng state.seed (state.tickets c).2).1 = Int32.ofNat number

/-- No priority is set but 10, and `policy` passes over no process with other than 10 tickets. -/
def Modest (fine : Fine nproc ncpu) : Fin ncpu × Action nproc → Prop
  | (_, .priority pr) => pr = 10
  | (c, .visit) => ∀ q ∈ fine.state.visiting c .test,
      (fine.state.table q).state ≠ .runnable → (fine.state.table q).ntickets = 10
  | _ => True

instance (fine : Fine nproc ncpu) (action : Fin ncpu × Action nproc) :
    Decidable (Modest fine action) := by
  rcases action with ⟨c, action⟩
  cases action <;> unfold Modest <;> infer_instance

/-- Every slot that `policy` is done with has 10 tickets. -/
structure TenEach (fine : Fine nproc ncpu) (priorities : Fin nproc → Int32) : Prop where
  tickets : ∀ q, (∀ p, ∀ visit ∈ (fine.state.table p).visit, q ∉ visit.slots) →
    (fine.state.table q).ntickets = 10
  priorities : priorities = fun _ => 10

section

variable {fine next : Fine nproc ncpu} {state : State nproc ncpu} {c : Fin ncpu}
  {action : Action nproc} {priorities : Fin nproc → Int32}

theorem recordPriorities_ten (modest : Modest fine (c, action)) :
    recordPriorities fine (c, action) next (fun _ => 10) = fun _ => 10 := by
  cases action with
  | allocproc =>
    dsimp only [recordPriorities]
    split
    · exact update_eq_self ..
    · rfl
  | priority pr =>
    cases (modest : pr = 10)
    dsimp only [recordPriorities]
    split
    · exact update_eq_self ..
    · rfl
  | _ => rfl

theorem TenEach.visit (ten : TenEach fine priorities) (consistent : Consistent fine)
    (selected : fine.state.npolicy = 1) (stepped : fine.Stepped (c, .visit) next)
    (modest : Modest fine (c, .visit)) : TenEach next priorities := by
  rcases stepped.visits with ⟨p, visit, isVisit, isAt, rfl⟩
  have byPriority : visit.policy = .priorityScheduling := by
    have known := consistent.policy p visit isVisit
    rw [selected] at known
    exact (Option.some.inj known).symm
  have tickets : ∀ q, (fine.state.table.visit p visit q).ntickets =
      if visit.at? .count = some q then 10 else (fine.state.table q).ntickets := by
    intro q
    have primed := consistent.primed p visit isVisit byPriority q
    rw [visit_apply, Visit.stores_apply, byPriority]
    grind [Policy.enter, Policy.count, Visit.at?]
  have visits := visit_visit fine.state.table p visit
  refine ⟨?_, ten.priorities⟩
  intro q passed
  rw [tickets]
  split
  · rfl
  · rename_i away
    by_cases isSlot : q ∈ visit.slots
    · rcases @Visit.mem_slots_next _ _ fine.state.table _ isSlot with
        here | ⟨here, waiting⟩ | ⟨after, goesOn, stillLeft⟩
      · exact absurd here away
      · exact modest q ((isAt _).trans here) waiting
      · refine absurd stillLeft (passed p after ?_)
        rw [visits, if_pos rfl]
        exact goesOn
    · apply ten.tickets
      intro r other isOther
      by_cases same : r = p
      · subst same
        cases isVisit.symm.trans isOther
        exact isSlot
      · apply passed r
        rw [visits, if_neg same]
        exact isOther

theorem TenEach.step (ten : TenEach fine priorities) (consistent : Consistent fine)
    (selected : fine.state.npolicy = 1) (stepped : fine.Stepped (c, action) next)
    (notPolicy : ∀ pl, action ≠ .policy pl) (modest : Modest fine (c, action)) :
    TenEach next (recordPriorities fine (c, action) next priorities) := by
  by_cases isVisit : action = .visit
  · subst isVisit
    exact ten.visit consistent selected stepped modest
  · have effect := stepped.effect isVisit notPolicy
    constructor
    · intro q passed
      have idle := consistent.idle (by rw [selected]; decide)
      apply (effect q).ten idle
      apply ten.tickets
      intro p
      rw [← (effect p).visit]
      exact passed p
    · rw [ten.priorities]
      exact recordPriorities_ten modest

theorem State.tickets_total (state : State nproc ncpu) (c : Fin ncpu) :
    (state.tickets c).2 = (state.tickets c).1.getTickets := by
  rw [State.tickets]
  split
  · have counted := state.table.getTickets_distribute (fun proc => { proc with ntickets := 10 })
      fun _ => rfl
    exact counted.symm
  · rfl

theorem State.tickets_ten (ten : ∀ q, (state.table q).ntickets = 10) (q : Fin nproc) :
    (state.tickets c).1 q = { state.table q with ntickets := 10 } := by
  rw [State.tickets]
  split
  · rfl
  · rw [← ten q]

theorem fairDraw_of_ten (small : 10 * nproc < 2 ^ 31)
    (ten : ∀ q, (state.table q).ntickets = 10) : FairDraw state c fun _ => 10 := by
  have entry := fun q => State.tickets_ten (c := c) ten q
  have held : (state.tickets c).1.held = fun _ => 10 := by
    funext q
    rw [held, entry]
    rfl
  have competitors : (state.tickets c).1.competitors (List.finRange nproc) =
      (List.finRange nproc).filter fun p => (state.table p).state = .runnable := by
    rw [competitors]
    congr 1
    funext p
    rw [entry]
  have total : Lottery.total (state.tickets c).1.held
      ((state.tickets c).1.competitors (List.finRange nproc)) = 10 *
        ((List.finRange nproc).filter fun p => (state.table p).state = .runnable).length := by
    rw [held, competitors, Lottery.total, List.map_const', List.sum_replicate]
    exact Nat.mul_comm _ _
  have few : ((List.finRange nproc).filter fun p =>
      (state.table p).state = .runnable).length ≤ nproc := by
    calc ((List.finRange nproc).filter _).length
      _ ≤ (List.finRange nproc).length := List.length_filter_le ..
      _ = nproc := List.length_finRange
  have countable : (state.tickets c).1.Countable (List.finRange nproc) := by
    constructor
    · intro p _ _
      have nonneg : 0 ≤ (10 : Int32).toInt := by decide
      rw [entry]
      exact nonneg
    · rw [total]
      omega
  constructor
  · intro p _
    rw [entry]
  · rw [State.tickets_total, getTickets_eq_total countable, total, List.map_const',
      List.sum_replicate]
    simp [Int.mul_comm]
  · intro p runnable
    have isRunnable : ((state.tickets c).1 p).state = .runnable := by
      rw [entry]
      exact runnable
    rw [State.tickets_total, count_findTicket countable isRunnable, held]
    rfl
  · intro positive
    exact prng_lt state.seed positive

end

end Xv6.Ptable
