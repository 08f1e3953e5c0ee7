import Mathlib

/-! # Crashes of a store with atomic writes

A store keeps one value at each address and performs its writes one at a time.
A crash lets some prefix of the writes a program issued take effect and loses
the rest. A recovery program is given by the writes it issues on a store that it
finds; it may itself be interrupted any number of times.
-/

namespace Xv6.Crash

variable {Address Value : Type} [DecidableEq Address]

/-- Perform a sequence of writes, in order. -/
def applyWrites (store : Address → Value) : List (Address × Value) → Address → Value
  | [] => store
  | (address, value) :: rest => applyWrites (Function.update store address value) rest

@[simp] theorem applyWrites_nil (store : Address → Value) :
    applyWrites store [] = store := rfl

theorem applyWrites_cons (store : Address → Value) (address : Address) (value : Value)
    (rest : List (Address × Value)) :
    applyWrites store ((address, value) :: rest) =
      applyWrites (Function.update store address value) rest := rfl

theorem applyWrites_append (store : Address → Value) (first second : List (Address × Value)) :
    applyWrites store (first ++ second) = applyWrites (applyWrites store first) second := by
  induction first generalizing store with
  | nil => rfl
  | cons write rest induction => exact induction _

theorem applyWrites_snoc (store : Address → Value) (writes : List (Address × Value))
    (address : Address) (value : Value) :
    applyWrites store (writes ++ [(address, value)]) =
      Function.update (applyWrites store writes) address value := by
  rw [applyWrites_append]
  rfl

/-- An address that no write names keeps its value. -/
theorem applyWrites_of_not_mem (store : Address → Value) (writes : List (Address × Value))
    (address : Address) (untouched : address ∉ writes.map Prod.fst) :
    applyWrites store writes address = store address := by
  induction writes generalizing store with
  | nil => rfl
  | cons write rest induction =>
    rw [List.map_cons, List.mem_cons, not_or] at untouched
    rw [applyWrites, induction _ untouched.2, Function.update_of_ne untouched.1]

/-- When every address is written once, each holds the value written to it. -/
theorem applyWrites_of_mem (store : Address → Value) (writes : List (Address × Value))
    (distinct : (writes.map Prod.fst).Nodup) (address : Address) (value : Value)
    (member : (address, value) ∈ writes) :
    applyWrites store writes address = value := by
  induction writes generalizing store with
  | nil => cases member
  | cons write rest induction =>
    rw [List.map_cons, List.nodup_cons] at distinct
    rcases List.mem_cons.mp member with equal | member
    · subst equal
      rw [applyWrites, applyWrites_of_not_mem _ _ _ distinct.1, Function.update_self]
    · exact induction _ distinct.2 member

/-- The stores a crash may leave behind while `writes` are being performed. -/
def CrashImage (writes : List (Address × Value)) (store image : Address → Value) : Prop :=
  ∃ count, count ≤ writes.length ∧ image = applyWrites store (writes.take count)

/-- Any number of attempts at recovery, each of them cut short by a crash. -/
inductive Interrupted (recovery : (Address → Value) → List (Address × Value)) :
    (Address → Value) → (Address → Value) → Prop
  | none (store) : Interrupted recovery store store
  | crash {store middle final} :
      CrashImage (recovery store) store middle →
      Interrupted recovery middle final →
      Interrupted recovery store final

/-- What one interrupted attempt preserves, any number of them preserves. -/
theorem Interrupted.invariant {recovery : (Address → Value) → List (Address × Value)}
    {store final : Address → Value} (holds : (Address → Value) → Prop)
    (preserved : ∀ store middle, holds store →
      CrashImage (recovery store) store middle → holds middle)
    (interrupted : Interrupted recovery store final) (initial : holds store) :
    holds final := by
  induction interrupted with
  | none => exact initial
  | crash image _ induction => exact induction (preserved _ _ initial image)

end Xv6.Crash
