import Mathlib

/-! # Programs that may stop the machine

Kernel code runs on a global state and either returns or panics. `Meets` is the
total correctness judgment for such programs: from the given state the program
returns with its postcondition, or stops for one of the permitted reasons. With
no permitted reason it says that the program returns.
-/

namespace Xv6

abbrev Program (State Failure Value : Type) := StateT State (Except Failure) Value

namespace Program

variable {State Failure Value Result : Type}

def Meets (program : Program State Failure Value) (state : State)
    (fails : Failure → Prop) (post : Value → State → Prop) : Prop :=
  match program state with
  | .ok (value, next) => post value next
  | .error failure => fails failure

/-- The program returns, and its result meets the postcondition. -/
def Returns (program : Program State Failure Value) (state : State)
    (post : Value → State → Prop) : Prop :=
  Meets program state (fun _ => False) post

section

variable {program : Program State Failure Value} {state : State}
  {fails : Failure → Prop} {post : Value → State → Prop}

theorem Meets.of_ok {value : Value} {next : State} (met : Meets program state fails post)
    (ran : program state = .ok (value, next)) : post value next := by
  rw [Meets, ran] at met
  exact met

theorem Meets.of_error {failure : Failure} (met : Meets program state fails post)
    (ran : program state = .error failure) : fails failure := by
  rw [Meets, ran] at met
  exact met

theorem Meets.intro_ok {value : Value} {next : State}
    (ran : program state = .ok (value, next)) (holds : post value next) :
    Meets program state fails post := by
  rw [Meets, ran]
  exact holds

theorem Meets.mono {weakerFails : Failure → Prop} {weakerPost : Value → State → Prop}
    (met : Meets program state fails post)
    (failsImplies : ∀ failure, fails failure → weakerFails failure)
    (postImplies : ∀ value next, post value next → weakerPost value next) :
    Meets program state weakerFails weakerPost := by
  unfold Meets at *
  split at met
  · exact postImplies _ _ met
  · exact failsImplies _ met

/-- The rule of consequence with the same permitted failures. -/
theorem Meets.imp {weakerPost : Value → State → Prop} (met : Meets program state fails post)
    (postImplies : ∀ value next, post value next → weakerPost value next) :
    Meets program state fails weakerPost :=
  met.mono (fun _ failed => failed) postImplies

/-- Something more is known about the program on a condition. -/
theorem Meets.and_imp {condition : Prop} {otherFails : Failure → Prop}
    {otherPost : Value → State → Prop} (met : Meets program state fails post)
    (other : condition → Meets program state otherFails otherPost) :
    Meets program state (fun failure => fails failure ∧ (condition → otherFails failure))
      fun value next => post value next ∧ (condition → otherPost value next) := by
  unfold Meets at *
  split
  · rename_i ran
    rw [ran] at met other
    exact ⟨met, other⟩
  · rename_i ran
    rw [ran] at met other
    exact ⟨met, other⟩

theorem Returns.exists_ok (returned : Returns program state post) :
    ∃ value next, program state = .ok (value, next) ∧ post value next := by
  unfold Returns Meets at returned
  split at returned
  · rename_i value next ran
    exact ⟨value, next, ran, returned⟩
  · exact returned.elim

theorem Returns.meets (returned : Returns program state post) :
    Meets program state fails post :=
  Meets.mono returned (fun _ impossible => impossible.elim) fun _ _ holds => holds

end

/-! ## Rules for the constructs of programs -/

@[simp] theorem meets_pure (value : Value) (state : State) (fails : Failure → Prop)
    (post : Value → State → Prop) :
    Meets (pure value : Program State Failure Value) state fails post ↔ post value state :=
  Iff.rfl

@[simp] theorem meets_throw (failure : Failure) (state : State) (fails : Failure → Prop)
    (post : Value → State → Prop) :
    Meets (throw failure : Program State Failure Value) state fails post ↔ fails failure :=
  Iff.rfl

@[simp] theorem meets_get (state : State) (fails : Failure → Prop)
    (post : State → State → Prop) :
    Meets (get : Program State Failure State) state fails post ↔ post state state :=
  Iff.rfl

@[simp] theorem meets_modify (change : State → State) (state : State) (fails : Failure → Prop)
    (post : PUnit → State → Prop) :
    Meets (modify change : Program State Failure PUnit) state fails post ↔
      post ⟨⟩ (change state) :=
  Iff.rfl

@[simp] theorem meets_bind (first : Program State Failure Value)
    (rest : Value → Program State Failure Result) (state : State) (fails : Failure → Prop)
    (post : Result → State → Prop) :
    Meets (first >>= rest) state fails post ↔
      Meets first state fails fun value next => Meets (rest value) next fails post := by
  simp only [Meets, bind, StateT.bind, Except.bind]
  cases first state <;> rfl

theorem meets_ite (condition : Prop) [Decidable condition]
    (positive negative : Program State Failure Value) (state : State)
    (fails : Failure → Prop) (post : Value → State → Prop) :
    Meets (if condition then positive else negative) state fails post ↔
      (condition → Meets positive state fails post) ∧
        (¬condition → Meets negative state fails post) := by
  split <;> simp_all

/-- The rule for a loop over a list: the invariant is indexed by what is left
of the list. -/
theorem meets_forM {Element : Type} (body : Element → Program State Failure PUnit)
    {fails : Failure → Prop} (invariant : List Element → State → Prop)
    (kept : ∀ element rest state, invariant (element :: rest) state →
      Meets (body element) state fails fun _ next => invariant rest next) :
    ∀ (elements : List Element) (state : State), invariant elements state →
      Meets (forM elements body) state fails fun _ next => invariant [] next
  | [], _, initially => initially
  | element :: rest, state, initially => by
      rw [List.forM_cons, meets_bind]
      exact (kept element rest state initially).imp fun _ next holds =>
        meets_forM body invariant kept rest next holds

theorem returns_forM {Element : Type} (body : Element → Program State Failure PUnit)
    (invariant : List Element → State → Prop)
    (kept : ∀ element rest state, invariant (element :: rest) state →
      Returns (body element) state fun _ next => invariant rest next)
    (elements : List Element) (state : State) (initially : invariant elements state) :
    Returns (forM elements body) state fun _ next => invariant [] next :=
  meets_forM body invariant kept elements state initially

/-! ## Programs that keep a relation -/

section

variable {State Failure Value Result Element : Type} {related : State → State → Prop}

/-- Wherever the program returns, the state is related to the one it was started in. -/
def Stays (related : State → State → Prop) (program : Program State Failure Value) : Prop :=
  ∀ state, Meets program state (fun _ => True) fun _ next => related state next

theorem stays_throw (failure : Failure) :
    Stays related (throw failure : Program State Failure Value) :=
  fun _ => trivial

theorem stays_modify {change : State → State} (each : ∀ state, related state (change state)) :
    Stays related (modify change : Program State Failure PUnit) :=
  each

theorem stays_ite (condition : Prop) [Decidable condition]
    {positive negative : Program State Failure Value} (yes : Stays related positive)
    (no : Stays related negative) : Stays related (if condition then positive else negative) := by
  split
  · exact yes
  · exact no

variable [IsPreorder State related]

theorem stays_pure (value : Value) :
    Stays related (pure value : Program State Failure Value) :=
  fun state => refl_of related state

theorem stays_get : Stays related (get : Program State Failure State) :=
  fun state => refl_of related state

theorem stays_bind {first : Program State Failure Value}
    {rest : Value → Program State Failure Result} (early : Stays related first)
    (late : ∀ value, Stays related (rest value)) : Stays related (first >>= rest) := by
  intro state
  rw [meets_bind]
  refine (early state).imp fun value middle passed => ?_
  exact (late value middle).imp fun _ next => trans_of related passed

theorem stays_forM {body : Element → Program State Failure PUnit}
    (each : ∀ element, Stays related (body element)) (elements : List Element) :
    Stays related (forM elements body) := by
  induction elements with
  | nil => exact stays_pure _
  | cons element rest induction => exact stays_bind (each element) fun _ => induction

end

end Program

end Xv6
