import Xv6.Ptable.Policy

/-! # Bounds for tickets

A slot gets its first tickets in the first round of a scheduler. No process runs before
that round, and after it every step keeps the tickets within bounds, so that every runnable
process holds a ticket and the sum of all tickets cannot overflow. This fails if calls of
`policy` overlap with each other or with `yield`, `sleep` and `priority`.
-/

namespace Xv6.Ptable

open Transition

variable {nproc ncpu : Nat}

/-! ## Sums of tickets -/

namespace Table

/-- The tickets of the runnable processes, added without overflow. -/
def runnableTickets (table : Table nproc) : Int :=
  (((List.finRange nproc).filter fun p => (table p).state = .runnable).map fun p =>
    (table p).ntickets.toInt).sum

variable {table : Table nproc} {p : Fin nproc} {most : Nat}

theorem total_le_mul (upper : ∀ p, table.held p ≤ most) (slots : List (Fin nproc)) :
    Lottery.total table.held slots ≤ slots.length * most := by
  induction slots with
  | nil => simp [Lottery.total]
  | cons first rest induction =>
    have least := upper first
    have split : Lottery.total table.held (first :: rest) =
        table.held first + Lottery.total table.held rest := rfl
    rw [split, List.length_cons, Nat.add_mul]
    omega

theorem total_competitors_le (upper : ∀ p, table.held p ≤ most) :
    Lottery.total table.held (table.competitors (List.finRange nproc)) ≤ nproc * most := by
  calc Lottery.total table.held (table.competitors (List.finRange nproc))
    _ ≤ (table.competitors (List.finRange nproc)).length * most := total_le_mul upper _
    _ ≤ (List.finRange nproc).length * most :=
        Nat.mul_le_mul_right most (List.length_filter_le ..)
    _ = nproc * most := by rw [List.length_finRange]

theorem Countable.of_bounds (lower : ∀ p, 0 ≤ (table p).ntickets.toInt)
    (upper : ∀ p, table.held p ≤ most) (small : nproc * most < 2 ^ 31) :
    table.Countable (List.finRange nproc) where
  nonneg := fun p _ _ => lower p
  bound := Nat.lt_of_le_of_lt (total_competitors_le upper) small

theorem total_eq_runnableTickets
    (lower : ∀ p, (table p).state = .runnable → 0 ≤ (table p).ntickets.toInt) :
    (Lottery.total table.held (table.competitors (List.finRange nproc)) : Int) =
      table.runnableTickets := by
  rw [Lottery.total, runnableTickets, competitors, Nat.cast_list_sum, List.map_map]
  congr 1
  refine List.map_congr_left fun p member => ?_
  have runnable := of_decide_eq_true (List.mem_filter.mp member).2
  exact Int.toNat_of_nonneg (lower p runnable)

theorem exists_findTicket (countable : table.Countable (List.finRange nproc))
    (runnable : (table p).state = .runnable) (some : 0 < table.held p) :
    ∃ number, number < table.getTickets.toInt.toNat ∧
      table.findTicket (List.finRange nproc) (Int32.ofNat number) = .some p := by
  have counted := count_findTicket countable runnable
  by_contra none
  have zero := Nat.count_iff_forall_not.mpr fun number below found => none ⟨number, below, found⟩
  omega

end Table

/-! ## Steps -/

def recordRound (_ : Fine nproc ncpu) (action : Fin ncpu × Action nproc)
    (_ : Fine nproc ncpu) (started : Bool) : Bool :=
  started || decide (action.2 = .schedule)

def Action.isPriority : Action nproc → Bool
  | .priority _ => true
  | _ => false

/-- `policy` is called when no call of `policy`, `yield` or `sleep` is under way, and `priority`
when no call of `policy` is. -/
def Orderly (fine : Fine nproc ncpu) (action : Fin ncpu × Action nproc) : Prop :=
  (action.2.isPolicy = true → fine.Quiet) ∧
    (action.2.isPriority = true → ∀ p, (fine.state.table p).visit = none)

instance (fine : Fine nproc ncpu) (action : Fin ncpu × Action nproc) :
    Decidable (Orderly fine action) :=
  inferInstanceAs (Decidable (_ ∧ _))

structure Bounded (ntickets : Int32) : Prop where
  lower : 1 ≤ ntickets.toInt
  upper : ntickets.toInt ≤ 109

/-- What a call that has looked at its tickets can store. -/
def Update.Sound (under : Update nproc ncpu) (ntickets : Int32) : Prop :=
  match under.progress with
  | .load => under.event.Changes ntickets
  | .store value => under.event.Changes value ∧ Bounded value
  | _ => True

structure Regular (fine : Fine nproc ncpu) : Prop where
  consistent : Consistent fine
  bounded : ∀ q, Bounded (fine.state.table q).ntickets
  uniform : fine.state.npolicy = 0 → ∀ q, fine.state.Served q →
    (fine.state.table q).ntickets = 10
  sound : ∀ under ∈ fine.update, under.Sound (fine.state.table under.p).ntickets

/-- No scheduler has made a round. -/
structure Fresh (state : State nproc ncpu) : Prop where
  control : ∀ c, (state.cpus c).control = .scheduler
  tickets : ∀ c, (state.cpus c).ntickets = 0
  visit : ∀ p, (state.table p).visit = none

theorem Bounded.ten : Bounded 10 := ⟨by decide, by decide⟩

theorem Bounded.twenty : Bounded 20 := ⟨by decide, by decide⟩

theorem Bounded.store {event : TicketEvent} {ntickets : Int32} (bounded : Bounded ntickets)
    (changes : event.Changes ntickets) : Bounded (event.store ntickets) := by
  have lower := bounded.lower
  have upper := bounded.upper
  cases event with
  | yield =>
    have above : 1 < ntickets.toInt := Int32.lt_iff_toInt_lt.mp changes
    have less : (ntickets - 1).toInt = ntickets.toInt - 1 := by
      rw [Int32.toInt_sub, Int32.toInt_one]
      apply Int.bmod_eq_of_le
      · omega
      · omega
    dsimp only [TicketEvent.store]
    constructor
    · omega
    · omega
  | sleep =>
    have below : ntickets.toInt < 100 := Int32.lt_iff_toInt_lt.mp changes
    have more : (ntickets + 10).toInt = ntickets.toInt + 10 := by
      have ten : (10 : Int32).toInt = 10 := by decide
      rw [Int32.toInt_add, ten]
      apply Int.bmod_eq_of_le
      · omega
      · omega
    dsimp only [TicketEvent.store]
    constructor
    · omega
    · omega

section

variable {fine next : Fine nproc ncpu} {state : State nproc ncpu} {c : Fin ncpu}
  {action : Action nproc} {q : Fin nproc}

/-- The loops of the policy functions store 10 and 20. -/
theorem visit_ntickets {p : Fin nproc} {visit : Visit nproc} (primed : state.Primed)
    (isVisit : (state.table p).visit = some visit) (q : Fin nproc) :
    (state.table.visit p visit q).ntickets = (state.table q).ntickets ∨
      (state.table.visit p visit q).ntickets = 10 ∨
      (state.table.visit p visit q).ntickets = 20 := by
  have entered := primed p visit isVisit
  rw [visit_apply, Visit.stores_apply]
  cases isPolicy : visit.policy <;> grind [Policy.enter, Policy.count]

theorem Regular.visit (regular : Regular fine) (stepped : fine.Stepped (c, .visit) next) :
    Regular next := by
  rcases stepped.visits with ⟨p, visit, isVisit, isAt, rfl⟩
  have known := regular.consistent.policy p visit isVisit
  have stores := visit_ntickets regular.consistent.primed isVisit
  constructor
  · exact regular.consistent.visit isVisit
  · intro q
    rcases stores q with same | ten | twenty
    · rw [same]
      exact regular.bounded q
    · rw [ten]
      exact .ten
    · rw [twenty]
      exact .twenty
  · intro isUniform q served
    have isPolicy : visit.policy = .uniformTimeDist := by
      rw [show fine.state.npolicy = 0 from isUniform] at known
      exact (Option.some.inj known).symm
    by_cases here : visit.at? .enter = some q
    · dsimp only
      rw [visit_apply, Visit.stores_apply, isPolicy]
      grind [Policy.enter]
    · have ten := regular.uniform isUniform q (served.before isVisit here)
      dsimp only
      rw [visit_apply, Visit.stores_apply, isPolicy]
      grind [Policy.count]
  · intro under isUnder
    have sound := regular.sound under isUnder
    unfold Update.Sound at sound ⊢
    split at sound
    · rename_i place
      rcases stores under.p with same | ten | twenty
      · rw [same]
        exact sound
      · rw [ten]
        cases under.event <;> decide
      · rw [twenty]
        cases under.event <;> decide
    · exact sound
    · trivial

theorem Fine.Stepped.sound (stepped : fine.Stepped (c, action) next) (notVisit : action ≠ .visit)
    (notPolicy : ∀ pl, action ≠ .policy pl) (bounded : ∀ q, Bounded (fine.state.table q).ntickets)
    (sound : ∀ under ∈ fine.update, under.Sound (fine.state.table under.p).ntickets) :
    ∀ under ∈ next.update, under.Sound (next.state.table under.p).ntickets := by
  have effect := stepped.effect notVisit notPolicy
  intro under isUnder
  cases stepped with
  | plain | finishes => cases isUnder
  | begins =>
    cases isUnder
    trivial
  | looks =>
    cases isUnder
    unfold Update.Sound
    grind
  | tests =>
    cases isUnder
    grind [Update.Sound, Update.tested]
  | @loads before isBefore gives place =>
    cases isUnder
    have changes := sound before isBefore
    rw [Update.Sound, place] at changes
    exact ⟨changes, bounded before.p⟩
  | beside isBefore free =>
    cases isUnder
    rw [(effect under.p).ntickets free]
    exact sound under isBefore

theorem Orderly.timely (orderly : Orderly fine (c, action)) : Timely fine action := by
  constructor
  · rintro pl rfl
    exact orderly.1 rfl
  · rintro pr rfl _
    exact Or.inr (orderly.2 rfl)

theorem Regular.step (regular : Regular fine) (stepped : fine.Stepped (c, action) next)
    (orderly : Orderly fine (c, action)) : Regular next := by
  have consistent := regular.consistent.step stepped orderly.timely
  by_cases isVisit : action = .visit
  · subst isVisit
    exact regular.visit stepped
  by_cases isPolicy : ∃ pl, action = .policy pl
  · rcases isPolicy with ⟨pl, rfl⟩
    rcases stepped.selects with ⟨p, policy, known, rfl⟩
    have quiet := orderly.1 rfl
    refine ⟨consistent, ?_, ?_, ?_⟩
    · intro q
      have kept := Table.modify_keeps Proc.ntickets fine.state.table p q
        (fun proc => { proc with visit := some ⟨policy, List.finRange nproc, .enter⟩ })
        fun _ => rfl
      exact kept.symm ▸ regular.bounded q
    · intro _ q served
      have isVisit := (State.selected_visit quiet.2 p pl policy p).trans (if_pos rfl)
      exact absurd (List.mem_finRange q) (served p _ isVisit)
    · rw [quiet.1]
      nofun
  have notPolicy : ∀ pl, action ≠ .policy pl := fun pl same => isPolicy ⟨pl, same⟩
  have effect := stepped.effect isVisit notPolicy
  refine ⟨consistent, ?_, ?_, stepped.sound isVisit notPolicy regular.bounded regular.sound⟩
  · intro q
    cases effect q with
    | kept _ keeps =>
      rw [show (next.state.table q).ntickets = _ from congrArg Prod.fst keeps]
      exact regular.bounded q
    | reset _ _ ten =>
      rw [show (next.state.table q).ntickets = 10 from congrArg Prod.fst ten]
      exact .ten
    | @stores under ntickets isUnder _ _ _ value sets =>
      rw [show (next.state.table q).ntickets = ntickets from congrArg Prod.fst sets]
      rcases value with ⟨_, rfl⟩ | ⟨value, place, rfl⟩
      · exact regular.bounded q
      · have sound := regular.sound under isUnder
        rw [Update.Sound, place] at sound
        exact sound.2.store sound.1
  · intro isUniform q served
    rw [stepped.npolicy notPolicy] at isUniform
    apply (effect q).ten (regular.consistent.idle (by omega))
    apply regular.uniform isUniform
    intro p
    rw [← (effect p).visit]
    exact served p

theorem Fresh.schedule (fresh : Fresh state) (q : Fin nproc) :
    ((state.schedule c).table q).ntickets = 10 := by
  have reset : (state.tickets c).1 = fun q => { state.table q with ntickets := 10 } := by
    rw [State.tickets, if_pos (fresh.tickets c)]
    rfl
  rw [State.schedule]
  cases state.drawn c with
  | some p =>
    have kept := Table.modify_keeps Proc.ntickets (state.tickets c).1 p q
      (fun proc => { proc with state := .running, context := none }) fun _ => rfl
    exact kept.trans (by rw [reset])
  | none =>
    dsimp only
    rw [reset]

/-- Before the first round, only interrupts come. -/
theorem Fresh.step {next : State nproc ncpu} (fresh : Fresh state)
    (stepped : step state (c, action) = some next) :
    action = .schedule ∧ next = state.schedule c ∨ action ≠ .schedule ∧ Fresh next := by
  have kind := step_cases stepped
  unfold Ptable.step cpuStep at stepped
  rw [fresh.control c] at stepped
  cases action with
  | schedule =>
    simp only [Option.ite_none_right_eq_some, Option.some.injEq] at stepped
    exact Or.inl ⟨rfl, stepped.2.symm⟩
  | wakeup address | tick =>
    have visits := fun p => (kind.tickets nofun (fun _ => nofun) p).visit.trans (fresh.visit p)
    simp only [Option.ite_none_right_eq_some, Option.some.injEq] at stepped
    rcases stepped with ⟨_, rfl⟩
    exact Or.inr ⟨nofun, fresh.control, fresh.tickets, visits⟩
  | _ => cases stepped

/-- Nobody calls `yield` or `sleep` before the first round. -/
theorem Fresh.calm (fresh : Fresh fine.state) (calm : fine.update = none)
    (stepped : fine.step (c, action) = some next) :
    next.update = none ∧ Ptable.step fine.state (c, action) = some next.state := by
  have nobody : ticketEvent fine.state (c, action) = none := by
    unfold ticketEvent
    rw [fresh.control]
  rw [Fine.step, calm, nobody] at stepped
  rcases Option.map_eq_some_iff.mp stepped with ⟨after, taken, rfl⟩
  exact ⟨rfl, taken⟩

theorem Fresh.regular (fresh : Fresh state)
    (stepped : Ptable.step state (c, .schedule) = some (state.schedule c)) :
    Regular ⟨state.schedule c, none⟩ := by
  have kind := step_cases stepped
  have visits := fun p => (kind.tickets nofun (fun _ => nofun) p).visit.trans (fresh.visit p)
  have ten : ∀ q, ((state.schedule c).table q).ntickets = 10 := fresh.schedule
  refine ⟨⟨?_, ?_, fun _ => nofun⟩, ?_, fun _ q _ => ten q, nofun⟩
  · intro p visit isVisit
    cases (visits p).symm.trans isVisit
  · intro p visit isVisit
    cases (visits p).symm.trans isVisit
  · intro q
    rw [ten q]
    exact .ten

end

/-! ## Runs -/

/-- No scheduler has made a round, or one has. -/
def Rounds : Fine nproc ncpu × Bool → Prop
  | (fine, false) => fine.update = none ∧ Fresh fine.state
  | (fine, true) => Regular fine

theorem Rounds.step {before after : Fine nproc ncpu × Bool} {action : Fin ncpu × Action nproc}
    (rounds : Rounds before) (orderly : Orderly before.1 action)
    (stepped : recorded Fine.step recordRound before action = some after) : Rounds after := by
  rcases before with ⟨fine, started⟩
  rcases after with ⟨next, startedNow⟩
  rcases action with ⟨c, action⟩
  rcases recorded_eq_some.mp stepped with ⟨acts, isRecord⟩
  dsimp only at acts isRecord
  subst isRecord
  cases started with
  | true => exact Regular.step rounds (Fine.step_cases acts) orderly
  | false =>
    rcases rounds with ⟨calm, fresh⟩
    rcases fresh.calm calm acts with ⟨stillCalm, taken⟩
    rcases fresh.step taken with ⟨rfl, result⟩ | ⟨other, stillFresh⟩
    · rw [result] at taken
      have regular := fresh.regular taken
      rw [← result, ← stillCalm] at regular
      exact regular
    · rw [recordRound, decide_eq_false other]
      exact ⟨stillCalm, stillFresh⟩

theorem reachable_rounds {both : Fine (nproc + 1) ncpu × Bool}
    (reachable : Reachable (recorded Fine.step recordRound) (fun both => Orderly both.1)
      (Fine.booted nproc ncpu, false) both) : Rounds both := by
  apply Reachable.invariant Rounds ?_ ?_ reachable
  · intro before action after rounds orderly stepped
    exact rounds.step orderly stepped
  · refine ⟨rfl, fun _ => rfl, fun _ => rfl, fun p => ?_⟩
    dsimp only [Fine.booted, booted]
    split
    · rfl
    · rfl

/-- As long as calls of `policy` do not overlap with others, from the first round of a
scheduler on, every slot holds between 1 and 109 tickets, and exactly 10 where the uniform
policy has stored. Their sum over the runnable processes is computed without overflow, and
every runnable process owns one of the numbers that can be drawn. -/
theorem tickets_stay_bounded (ncpu : Nat) (fine : Fine 64 ncpu)
    (reachable : Reachable (recorded Fine.step recordRound) (fun both => Orderly both.1)
      (Fine.booted 63 ncpu, false) (fine, true)) :
    let state := fine.state
    (∀ p, 1 ≤ (state.table p).ntickets.toInt ∧ (state.table p).ntickets.toInt ≤ 109) ∧
      (state.npolicy = 0 → ∀ p, state.Served p → (state.table p).ntickets = 10) ∧
      state.table.getTickets.toInt = state.table.runnableTickets ∧
      ∀ p, (state.table p).state = .runnable →
        1 ≤ state.table.runnableTickets ∧ state.table.runnableTickets ≤ 64 * 109 ∧
        ∃ number, number < state.table.getTickets.toInt.toNat ∧
          state.table.findTicket (List.finRange 64) (Int32.ofNat number) = some p := by
  intro state
  have regular : Regular fine := reachable_rounds reachable
  have bounded : ∀ q, Bounded (state.table q).ntickets := regular.bounded
  have lower : ∀ p, 0 ≤ (state.table p).ntickets.toInt := fun p =>
    Int.le_trans (by decide) (bounded p).lower
  have upper : ∀ p, state.table.held p ≤ 109 := by
    intro p
    have most := (bounded p).upper
    rw [Table.held]
    omega
  have countable := Table.Countable.of_bounds lower upper (by decide)
  have total := Table.getTickets_eq_total countable
  have sum := Table.total_eq_runnableTickets fun p _ => lower p
  refine ⟨fun p => ⟨(bounded p).lower, (bounded p).upper⟩,
    regular.uniform, total.trans sum, ?_⟩
  intro p runnable
  have owns : 0 < state.table.held p := by
    have least := (bounded p).lower
    rw [Table.held]
    omega
  have found := Table.exists_findTicket countable runnable owns
  refine ⟨?_, ?_, found⟩
  · rcases found with ⟨number, below, _⟩
    omega
  · have most := Table.total_competitors_le upper
    omega

/-- The first process selects the dynamic policy and goes back to the scheduler. -/
theorem tickets_stay_bounded_init :
    ∃ fine : Fine 64 1, Reachable (recorded Fine.step recordRound) (fun both => Orderly both.1)
      (Fine.booted 63 1, false) (fine, true) ∧
      ((fine.state.table 0).state = .runnable ∧ (fine.state.table 0).ntickets = 19 ∧ fine.Quiet) ∧
      1 ≤ fine.state.table.runnableTickets := by
  rcases exists_reachable (recorded Fine.step recordRound) (fun both => Orderly both.1)
      (Fine.booted 63 1, false)
      ([(0, .schedule), (0, .resume), (0, .policy 2)] ++ List.replicate 129 (0, .visit) ++
        List.replicate 5 (0, .yield) ++ [(0, .finish)])
      (fun both => ((both.1.state.table 0).state = .runnable ∧
        (both.1.state.table 0).ntickets = 19 ∧ both.1.Quiet) ∧ both.2 = true)
      (by decide +kernel) with ⟨⟨fine, started⟩, reachable, facts, rfl⟩
  exact ⟨fine, reachable, facts,
    ((tickets_stay_bounded 1 fine reachable).2.2.2 0 facts.1).1⟩

/-- The first process forks and selects the dynamic policy. Before it stores anything, its child
selects the uniform policy on another processor and returns. -/
def overlappingPolicies : List (Fin 2 × Action 64) :=
  [(0, .schedule), (0, .resume), (0, .allocproc), (0, .allocStack true), (0, .copyProcess true),
    (0, .publish), (0, .policy 2), (1, .schedule), (1, .resume), (1, .policy 0)] ++
    List.replicate 129 (1, .visit) ++ List.replicate 129 (0, .visit)

/-- The uniform policy is in force and all calls have returned, but a slot has 20 tickets. -/
theorem overlapping_policies_mix :
    ∃ fine : Fine 64 2, Reachable (recorded Fine.step recordRound) Unrestricted
      (Fine.booted 63 2, false) (fine, true) ∧ fine.Quiet ∧ fine.state.npolicy = 0 ∧
      (fine.state.table 0).ntickets = 20 := by
  rcases exists_reachable (recorded Fine.step recordRound) Unrestricted (Fine.booted 63 2, false)
      overlappingPolicies (fun both => (both.1.Quiet ∧ both.1.state.npolicy = 0 ∧
        (both.1.state.table 0).ntickets = 20) ∧ both.2 = true) (by decide +kernel) with
    ⟨⟨fine, started⟩, reachable, facts, rfl⟩
  exact ⟨fine, reachable, facts⟩

end Xv6.Ptable
