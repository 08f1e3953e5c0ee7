import Mathlib

/-! # Transition systems

A system is given by a partial step function on states. `Reachable` is relative
to a condition on the steps, so that one notion serves for all runs and for the
runs whose steps meet some restriction.
-/

namespace Xv6.Transition

/-! The literals of `Fin 1`, `Fin 2` and `Fin (n + 1)`, the members of a small system. -/

instance (priority := high) neZeroSucc {n : Nat} : NeZero (n + 1) := ⟨n.succ_ne_zero⟩

instance (priority := high) neZeroOne : NeZero 1 := ⟨one_ne_zero⟩

instance (priority := high) neZeroTwo : NeZero 2 := ⟨two_ne_zero⟩

variable {State Action : Type}

/-- The states reached from `start` by steps that are all `allowed`. -/
inductive Reachable (step : State → Action → Option State)
    (allowed : State → Action → Prop) (start : State) : State → Prop
  | refl : Reachable step allowed start start
  | step {state next : State} (action : Action) :
      Reachable step allowed start state →
      allowed state action →
      step state action = some next →
      Reachable step allowed start next

def Unrestricted (_ : State) (_ : Action) : Prop := True

instance (state : State) (action : Action) : Decidable (Unrestricted state action) :=
  isTrue trivial

/-- A guarded step is taken only when its guard holds. -/
theorem of_guard {guard : Prop} [Decidable guard] {result next : State}
    (taken : (if guard then some result else none) = some next) : guard ∧ result = next := by
  rw [Option.ite_none_right_eq_some, Option.some.injEq] at taken
  exact taken

section

variable {step : State → Action → Option State} {allowed : State → Action → Prop}
  {start state : State}

/-- What holds at the start and is kept by every allowed step holds in every
reachable state. -/
theorem Reachable.invariant (holds : State → Prop)
    (preserved : ∀ state action next, holds state → allowed state action →
      step state action = some next → holds next)
    (initial : holds start) (reachable : Reachable step allowed start state) :
    holds state := by
  induction reachable with
  | refl => exact initial
  | step action _ isAllowed stepped induction =>
    exact preserved _ action _ induction isAllowed stepped

theorem Reachable.weaken {weaker : State → Action → Prop}
    (implies : ∀ state action, allowed state action → weaker state action)
    (reachable : Reachable step allowed start state) :
    Reachable step weaker start state := by
  induction reachable with
  | refl => exact .refl
  | step action _ isAllowed stepped induction =>
    exact .step action induction (implies _ _ isAllowed) stepped

theorem Reachable.trans {final : State} (first : Reachable step allowed start state)
    (second : Reachable step allowed state final) : Reachable step allowed start final := by
  induction second with
  | refl => exact first
  | step action _ isAllowed stepped induction =>
    exact .step action induction isAllowed stepped

end

/-- Perform a list of actions, as long as each is allowed and possible. -/
def run (step : State → Action → Option State) (allowed : State → Action → Prop)
    [∀ state action, Decidable (allowed state action)] :
    State → List Action → Option State
  | state, [] => some state
  | state, action :: rest =>
      if allowed state action then
        match step state action with
        | some next => run step allowed next rest
        | none => none
      else
        none

theorem Reachable.of_run {step : State → Action → Option State}
    {allowed : State → Action → Prop} [∀ state action, Decidable (allowed state action)]
    {start : State} : ∀ (actions : List Action) {state final : State},
    Reachable step allowed start state → run step allowed state actions = some final →
      Reachable step allowed start final
  | [], state, final, reachable, ran => by
      cases ran
      exact reachable
  | action :: rest, state, final, reachable, ran => by
      rw [run] at ran
      split at ran
      · rename_i isAllowed
        split at ran
        · rename_i next stepped
          exact of_run rest (.step action reachable isAllowed stepped) ran
        · cases ran
      · cases ran

/-- A run evaluated on given actions ends in a reachable state that has the evaluated `facts`. -/
theorem exists_reachable (step : State → Action → Option State) (allowed : State → Action → Prop)
    [∀ state action, Decidable (allowed state action)] (start : State) (actions : List Action)
    (facts : State → Prop) [DecidablePred facts]
    (ran : (run step allowed start actions).any (fun state => decide (facts state)) = true) :
    ∃ state, Reachable step allowed start state ∧ facts state := by
  rcases (Option.any_eq_true _ _).mp ran with ⟨state, reached, evaluated⟩
  exact ⟨state, .of_run actions .refl reached, of_decide_eq_true evaluated⟩

/-- A system that can follow every step of another one can follow its runs. -/
theorem run_simulation {Other : Type} {step : State → Action → Option State}
    {follow : Other → Action → Option Other} (related : State → Other → Prop)
    (simulated : ∀ state other action next, related state other → step state action = some next →
      ∃ after, follow other action = some after ∧ related next after) :
    ∀ (actions : List Action) {state final : State} {other : Other}, related state other →
      run step Unrestricted state actions = some final →
      ∃ after, run follow Unrestricted other actions = some after ∧ related final after
  | [], _, _, other, initially, ran => by
      cases ran
      exact ⟨other, rfl, initially⟩
  | action :: rest, state, final, other, initially, ran => by
      have allowed : ∀ {Any : Type} (any : Any), Unrestricted any action := fun _ => trivial
      rw [run, if_pos (allowed state)] at ran
      split at ran
      · rename_i next stepped
        rcases simulated state other action next initially stepped with ⟨after, followed, still⟩
        rw [run, if_pos (allowed other), followed]
        exact run_simulation related simulated rest still ran
      · cases ran

/-! ## Recorded history

What a property says about the past of a run is recorded in a log beside the state.
The log has no influence on the steps. -/

section Recorded

variable {Log : Type} {step : State → Action → Option State}
  {record : State → Action → State → Log → Log} {allowed : State → Action → Prop}

def recorded (step : State → Action → Option State)
    (record : State → Action → State → Log → Log) (both : State × Log) (action : Action) :
    Option (State × Log) :=
  (step both.1 action).map fun next => (next, record both.1 action next both.2)

theorem recorded_eq_some {before after : State × Log} {action : Action} :
    recorded step record before action = some after ↔
      step before.1 action = some after.1 ∧ after.2 = record before.1 action after.1 before.2 := by
  rw [recorded, Option.map_eq_some_iff]
  constructor
  · intro stepped
    cases stepped with
    | intro next both =>
      rw [← both.2]
      exact ⟨both.1, rfl⟩
  · intro both
    exact ⟨after.1, both.1, by rw [← both.2]⟩

/-- Every run can be recorded. -/
theorem Reachable.exists_recorded (record : State → Action → State → Log → Log) {start state : State}
    (log : Log) (reachable : Reachable step allowed start state) :
    ∃ final, Reachable (recorded step record) (fun both => allowed both.1) (start, log)
      (state, final) := by
  induction reachable with
  | refl => exact ⟨log, .refl⟩
  | @step state next action _ isAllowed stepped induction =>
    cases induction with
    | intro before reached =>
      exact ⟨record state action next before,
        .step action reached isAllowed (recorded_eq_some.mpr ⟨stepped, rfl⟩)⟩

end Recorded

/-- How a sum changes when one summand does. -/
theorem sum_change {Index : Type} [DecidableEq Index] {indices : Finset Index}
    {before after : Index → Nat} {changed : Index} (member : changed ∈ indices)
    (others : ∀ index ∈ indices, index ≠ changed → after index = before index) :
    ∑ index ∈ indices, after index + before changed =
      ∑ index ∈ indices, before index + after changed := by
  have rest : ∑ index ∈ indices.erase changed, after index =
      ∑ index ∈ indices.erase changed, before index :=
    Finset.sum_congr rfl fun index inside =>
      others index (Finset.mem_of_mem_erase inside) (Finset.ne_of_mem_erase inside)
  rw [← Finset.sum_erase_add _ _ member, ← Finset.sum_erase_add indices before member, rest]
  omega

/-! ## Families

A concurrent state is often a family of local states, one of which changes in a
step. -/

section Family

variable {Member Local : Type} [Fintype Member] [DecidableEq Member]

/-- How a sum over a family changes with one member. -/
theorem sum_update (measure : Local → Nat) (family : Member → Local) (member : Member)
    (value : Local) :
    ∑ other, measure (Function.update family member value other) + measure (family member) =
      ∑ other, measure (family other) + measure value := by
  have updated : (fun other => measure (Function.update family member value other)) =
      Function.update (fun other => measure (family other)) member (measure value) := by
    funext other
    by_cases same : other = member
    · subst same
      simp
    · simp [same]
  rw [updated, Finset.sum_update_of_mem (Finset.mem_univ member),
    ← Finset.add_sum_erase Finset.univ (fun other => measure (family other))
      (Finset.mem_univ member), Finset.sdiff_singleton_eq_erase]
  omega

omit [DecidableEq Member] in
theorem measure_le_sum (measure : Local → Nat) (family : Member → Local) (member : Member) :
    measure (family member) ≤ ∑ other, measure (family other) :=
  Finset.single_le_sum (f := fun other => measure (family other))
    (fun _ _ => Nat.zero_le _) (Finset.mem_univ member)

end Family

end Xv6.Transition
