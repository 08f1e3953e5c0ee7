import Xv6.Foundation.Program

/-! # Programs over an interface

A program that uses a lower layer only by making requests to it is a tree of
requests, with one branch for every answer. What the program does depends on who
serves the requests.
-/

namespace Xv6

inductive Interaction (Request : Type) (Answer : Request → Type) (Value : Type) : Type
  | done (value : Value)
  | ask (request : Request) (next : Answer request → Interaction Request Answer Value)

namespace Interaction

open Program

variable {Request : Type} {Answer : Request → Type} {Value Result State Failure : Type}

protected def bind (program : Interaction Request Answer Value)
    (rest : Value → Interaction Request Answer Result) : Interaction Request Answer Result :=
  match program with
  | .done value => rest value
  | .ask request next => .ask request fun answer => (next answer).bind rest

instance : Monad (Interaction Request Answer) where
  pure := .done
  bind := Interaction.bind

instance : LawfulMonad (Interaction Request Answer) :=
  .mk' _
    (fun program => by
      induction program with
      | done value => rfl
      | ask request next induction => exact congrArg (ask request) (funext induction))
    (fun _ _ => rfl)
    (fun program first second => by
      induction program with
      | done value => rfl
      | ask request next induction => exact congrArg (ask request) (funext induction))

def send (request : Request) : Interaction Request Answer (Answer request) :=
  .ask request .done

def interpret (serve : (request : Request) → Program State Failure (Answer request)) :
    Interaction Request Answer Value → Program State Failure Value
  | .done value => pure value
  | .ask request next => do
      let answer ← serve request
      interpret serve (next answer)

section Rules

variable (serve : (request : Request) → Program State Failure (Answer request))
  (state : State) (fails : Failure → Prop)

@[simp] theorem meets_interpret_pure (value : Value) (post : Value → State → Prop) :
    Meets (interpret serve (pure value)) state fails post ↔ post value state :=
  Iff.rfl

@[simp] theorem meets_interpret_send (request : Request)
    (post : Answer request → State → Prop) :
    Meets (interpret serve (send request)) state fails post ↔
      Meets (serve request) state fails post := by
  simp only [send, interpret, meets_bind, meets_pure]

theorem interpret_bind (first : Interaction Request Answer Value)
    (rest : Value → Interaction Request Answer Result) :
    interpret serve (first >>= rest) =
      interpret serve first >>= fun value => interpret serve (rest value) := by
  induction first with
  | done value => rfl
  | ask request next induction =>
    change (serve request >>= fun answer => interpret serve (next answer >>= rest)) = _
    simp only [induction, interpret, bind_assoc]

@[simp] theorem meets_interpret_bind (first : Interaction Request Answer Value)
    (rest : Value → Interaction Request Answer Result) (post : Result → State → Prop) :
    Meets (interpret serve (first >>= rest)) state fails post ↔
      Meets (interpret serve first) state fails fun value next =>
        Meets (interpret serve (rest value)) next fails post := by
  rw [interpret_bind, meets_bind]

@[simp] theorem meets_interpret_map (transform : Value → Result)
    (program : Interaction Request Answer Value) (post : Result → State → Prop) :
    Meets (interpret serve (transform <$> program)) state fails post ↔
      Meets (interpret serve program) state fails fun value next =>
        post (transform value) next :=
  meets_interpret_bind serve state fails program (fun value => pure (transform value)) post

theorem meets_interpret_ite (condition : Prop) [Decidable condition]
    (positive negative : Interaction Request Answer Value) (post : Value → State → Prop) :
    Meets (interpret serve (if condition then positive else negative)) state fails post ↔
      (condition → Meets (interpret serve positive) state fails post) ∧
        (¬condition → Meets (interpret serve negative) state fails post) := by
  split <;> simp_all

/-- A loop over a list keeps what its body keeps. -/
theorem meets_interpret_forM {Element : Type}
    (body : Element → Interaction Request Answer PUnit) (invariant : State → Prop)
    (kept : ∀ element before, invariant before →
      Meets (interpret serve (body element)) before fails fun _ next => invariant next)
    (elements : List Element) (initially : invariant state) :
    Meets (interpret serve (forM elements body)) state fails fun _ next => invariant next := by
  induction elements generalizing state with
  | nil => exact initially
  | cons element rest induction =>
    rw [List.forM_cons, meets_interpret_bind]
    exact (kept element state initially).imp fun _ next holds => induction next holds

end Rules

end Interaction

end Xv6
