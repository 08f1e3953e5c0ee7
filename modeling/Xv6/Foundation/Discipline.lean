import Xv6.Foundation.Interaction

/-! # Disciplines

A discipline says how an interface is used: what each request needs, and which
answers may come back, in terms of a view that the user has of the server. That
a program keeps to a discipline is shown once, for all answers; it then holds
with every server that keeps to its side.
-/

namespace Xv6

/-- For a request made with a view, `rule` gives what makes every possible answer,
with the view after it, meet a postcondition. -/
structure Discipline (Request : Type) (Answer : Request → Type) (View : Type) where
  rule : (request : Request) → View → (Answer request → View → Prop) → Prop
  mono : ∀ {request : Request} {view : View} {post weaker : Answer request → View → Prop},
    (∀ answer next, post answer next → weaker answer next) →
    rule request view post → rule request view weaker

namespace Interaction

open Program

variable {Request Other : Type} {Answer : Request → Type} {OtherAnswer : Other → Type}
  {Value Result View State Failure : Type}

/-- The program keeps to the discipline, and ends with the postcondition. -/
def Obeys (discipline : Discipline Request Answer View) :
    Interaction Request Answer Value → View → (Value → View → Prop) → Prop
  | .done value, view, post => post value view
  | .ask request next, view, post =>
      discipline.rule request view fun answer after => Obeys discipline (next answer) after post

section Rules

variable {discipline : Discipline Request Answer View} {view : View}

@[simp] theorem obeys_pure (value : Value) (post : Value → View → Prop) :
    Obeys discipline (pure value) view post ↔ post value view :=
  Iff.rfl

@[simp] theorem obeys_bind (first : Interaction Request Answer Value)
    (rest : Value → Interaction Request Answer Result) (post : Result → View → Prop) :
    Obeys discipline (first >>= rest) view post ↔
      Obeys discipline first view fun value after =>
        Obeys discipline (rest value) after post := by
  induction first generalizing view with
  | done value => rfl
  | ask request next induction =>
    constructor
    · exact discipline.mono fun answer after => (induction answer).mp
    · exact discipline.mono fun answer after => (induction answer).mpr

@[simp] theorem obeys_map (transform : Value → Result)
    (program : Interaction Request Answer Value) (post : Result → View → Prop) :
    Obeys discipline (transform <$> program) view post ↔
      Obeys discipline program view fun value after => post (transform value) after :=
  obeys_bind program (fun value => pure (transform value)) post

theorem obeys_ite (condition : Prop) [Decidable condition]
    (positive negative : Interaction Request Answer Value) (post : Value → View → Prop) :
    Obeys discipline (if condition then positive else negative) view post ↔
      (condition → Obeys discipline positive view post) ∧
        (¬condition → Obeys discipline negative view post) := by
  split <;> simp_all

theorem Obeys.imp {program : Interaction Request Answer Value} {post weaker : Value → View → Prop}
    (obeys : Obeys discipline program view post)
    (implies : ∀ value after, post value after → weaker value after) :
    Obeys discipline program view weaker := by
  induction program generalizing view with
  | done value => exact implies value view obeys
  | ask request next induction =>
    exact discipline.mono (fun answer after later => induction answer later) obeys

/-- A loop over a list keeps what its body keeps. The invariant is indexed by what
is left of the list. -/
theorem obeys_forM {Element : Type} (body : Element → Interaction Request Answer PUnit)
    (invariant : List Element → View → Prop)
    (kept : ∀ element rest before, invariant (element :: rest) before →
      Obeys discipline (body element) before fun _ after => invariant rest after)
    (elements : List Element) (initially : invariant elements view) :
    Obeys discipline (forM elements body) view fun _ after => invariant [] after := by
  induction elements generalizing view with
  | nil => exact initially
  | cons element rest induction =>
    rw [List.forM_cons, obeys_bind]
    exact (kept element rest view initially).imp fun _ after holds => induction holds

end Rules

/-! ## Servers that keep to a discipline -/

/-- What the user sees is related to the state of the server, whatever is asked for
according to the rules. -/
def Respects (discipline : Discipline Request Answer View)
    (serve : (request : Request) → Program State Failure (Answer request))
    (related : State → View → Prop) (fails : Failure → Prop) : Prop :=
  ∀ request state view post, related state view → discipline.rule request view post →
    Meets (serve request) state fails fun answer next =>
      ∃ after, related next after ∧ post answer after

theorem Respects.interpret {discipline : Discipline Request Answer View}
    {serve : (request : Request) → Program State Failure (Answer request)}
    {related : State → View → Prop} {fails : Failure → Prop}
    (respects : Respects discipline serve related fails)
    {program : Interaction Request Answer Value} {state : State} {view : View}
    {post : Value → View → Prop} (initially : related state view)
    (obeys : Obeys discipline program view post) :
    Meets (interpret serve program) state fails fun value next =>
      ∃ after, related next after ∧ post value after := by
  induction program generalizing state view with
  | done value => exact ⟨view, initially, obeys⟩
  | ask request next induction =>
    simp only [Interaction.interpret, meets_bind]
    refine Meets.imp (respects request state view _ initially obeys) ?_
    rintro answer middle ⟨after, later, continues⟩
    exact induction answer later continues

/-! ## Servers as disciplines -/

/-- The answers that a server returns, with its own state as the view. -/
def served (serve : (request : Request) → Program State Failure (Answer request))
    (fails : Failure → Prop) : Discipline Request Answer State where
  rule := fun request state post => Meets (serve request) state fails post
  mono := fun implies met => met.imp implies

theorem obeys_served {serve : (request : Request) → Program State Failure (Answer request)}
    {fails : Failure → Prop} {program : Interaction Request Answer Value} {state : State}
    {post : Value → State → Prop} :
    Obeys (served serve fails) program state post ↔
      Meets (interpret serve program) state fails post := by
  induction program generalizing state with
  | done value => rfl
  | ask request next induction =>
    simp only [Obeys, served, interpret, meets_bind, ← induction]

/-! ## Requests that are not made -/

section Avoids

variable {bad : Request → Prop}

/-- The program makes no bad request, whatever the answers are. -/
def Avoids (bad : Request → Prop) : Interaction Request Answer Value → Prop
  | .done _ => True
  | .ask request next => ¬bad request ∧ ∀ answer, Avoids bad (next answer)

theorem avoids_pure (value : Value) :
    Avoids bad (pure value : Interaction Request Answer Value) :=
  trivial

theorem avoids_send {request : Request} (good : ¬bad request) :
    Avoids bad (send request : Interaction Request Answer (Answer request)) :=
  ⟨good, fun _ => trivial⟩

theorem avoids_bind {first : Interaction Request Answer Value}
    {rest : Value → Interaction Request Answer Result} (early : Avoids bad first)
    (late : ∀ value, Avoids bad (rest value)) : Avoids bad (first >>= rest) := by
  induction first with
  | done value => exact late value
  | ask request next induction =>
    exact ⟨early.1, fun answer => induction answer (early.2 answer)⟩

theorem avoids_ite (condition : Prop) [Decidable condition]
    {positive negative : Interaction Request Answer Value} (yes : Avoids bad positive)
    (no : Avoids bad negative) : Avoids bad (if condition then positive else negative) := by
  split
  · exact yes
  · exact no

/-- What every request but the bad ones keeps is kept by the program. -/
theorem Avoids.stays_interpret {related : State → State → Prop} [IsPreorder State related]
    {serve : (request : Request) → Program State Failure (Answer request)}
    (each : ∀ request, ¬bad request → Stays related (serve request))
    {program : Interaction Request Answer Value} (avoids : Avoids bad program) :
    Stays related (interpret serve program) := by
  induction program with
  | done value => exact stays_pure value
  | ask request next induction =>
    exact stays_bind (each request avoids.1) fun answer => induction answer (avoids.2 answer)

end Avoids

/-! ## Programs of another interface -/

/-- Replace every request by a program of another interface. -/
def translate (replace : (request : Request) → Interaction Other OtherAnswer (Answer request)) :
    Interaction Request Answer Value → Interaction Other OtherAnswer Value
  | .done value => .done value
  | .ask request next => replace request >>= fun answer => translate replace (next answer)

theorem avoids_translate {bad : Request → Prop} {worse : Other → Prop}
    {replace : (request : Request) → Interaction Other OtherAnswer (Answer request)}
    (each : ∀ request, ¬bad request → Avoids worse (replace request))
    {program : Interaction Request Answer Value} (avoids : Avoids bad program) :
    Avoids worse (translate replace program) := by
  induction program with
  | done value => trivial
  | ask request next induction =>
    exact avoids_bind (each request avoids.1) fun answer => induction answer (avoids.2 answer)

end Interaction

open Interaction

variable {Request Other : Type} {Answer : Request → Type} {OtherAnswer : Other → Type}
  {Value View : Type}

/-- The discipline that a program has to keep to for its translation to keep to the
given one. -/
def Discipline.through (discipline : Discipline Other OtherAnswer View)
    (replace : (request : Request) → Interaction Other OtherAnswer (Answer request)) :
    Discipline Request Answer View where
  rule := fun request view post => Obeys discipline (replace request) view post
  mono := fun implies obeys => obeys.imp implies

theorem obeys_translate {discipline : Discipline Other OtherAnswer View}
    {replace : (request : Request) → Interaction Other OtherAnswer (Answer request)}
    (program : Interaction Request Answer Value) (view : View) (post : Value → View → Prop) :
    Obeys discipline (translate replace program) view post ↔
      Obeys (discipline.through replace) program view post := by
  induction program generalizing view with
  | done value => rfl
  | ask request next induction =>
    rw [Interaction.translate, obeys_bind]
    change _ ↔ Obeys discipline (replace request) view fun answer after =>
      Obeys (discipline.through replace) (next answer) after post
    simp only [induction]

end Xv6
