import Xv6.Bio.Steps

/-! # The list of buffers and their reference counts -/

namespace Xv6.Bio

open Transition State
open Function (update_self update_of_ne)

variable {links : Links (Fin NBUF)}

variable {Process : Type} [DecidableEq Process] {state next : State Process}
  {action : Action Process}

/-! ## The list -/

/-- The links form one circle through the head and all buffers. -/
structure Listed (links : Links (Fin NBUF)) (order : List (Fin NBUF)) : Prop where
  circular : links.Circular order
  complete : ∀ b, b ∈ order

theorem Listed.length_lt {order : List (Fin NBUF)}
    (listed : Listed links order) : order.length < NBUF + 1 := by
  have bound := listed.circular.nodup.length_le_card
  rw [Fintype.card_fin] at bound
  exact Nat.lt_succ_of_le bound

/-- The loop of `binit` puts every buffer in front of those before it. -/
theorem circular_foldl_pushFront (bufs : List (Fin NBUF)) {order : List (Fin NBUF)}
    (circular : links.Circular order) (nodup : bufs.Nodup) (fresh : ∀ b, b ∈ bufs → b ∉ order) :
    (bufs.foldl (fun links b => links.pushFront b) links).Circular (bufs.reverse ++ order) := by
  induction bufs generalizing links order with
  | nil => exact circular
  | cons b rest induction =>
    rcases List.nodup_cons.mp nodup with ⟨notRest, restNodup⟩
    rw [List.reverse_cons, List.append_assoc, List.singleton_append]
    apply induction (circular.pushFront (fresh b List.mem_cons_self)) restNodup
    intro c inRest isElement
    cases List.mem_cons.mp isElement with
    | inl same =>
      rw [same] at inRest
      exact notRest inRest
    | inr inOrder => exact fresh c (List.mem_cons_of_mem b inRest) inOrder

theorem listed_binit : Listed binitLinks (List.finRange NBUF).reverse where
  circular := by
    have circular := circular_foldl_pushFront (List.finRange NBUF) Links.circular_empty
      (List.nodup_finRange NBUF) fun _ _ => List.not_mem_nil
    rw [List.append_nil] at circular
    exact circular
  complete := fun b => List.mem_reverse.mpr (List.mem_finRange b)

section

variable {order : List (Fin NBUF)} {dev blockno : UInt32} {b : Fin NBUF}

omit [DecidableEq Process]

section

variable (listed : Listed state.links order)
include listed

theorem findCached_eq (dev blockno : UInt32) :
    state.findCached dev blockno =
      some (order.find? fun b => decide ((state.bufs b).Carries dev blockno)) :=
  listed.circular.search_next listed.length_lt

theorem findUnused_eq :
    state.findUnused = some (order.reverse.find? fun b => decide (state.bufs b).Unused) :=
  listed.circular.search_prev listed.length_lt

theorem carries_of_findCached (found : state.findCached dev blockno = some (some b)) :
    (state.bufs b).Carries dev blockno := by
  rw [findCached_eq listed, Option.some.injEq] at found
  have test := List.find?_some found
  rw [decide_eq_true_eq] at test
  exact test

theorem not_carries_of_findCached (missing : state.findCached dev blockno = some none)
    (c : Fin NBUF) :
    ¬(state.bufs c).Carries dev blockno := by
  rw [findCached_eq listed, Option.some.injEq] at missing
  have test := List.find?_eq_none.mp missing c (listed.complete c)
  rw [decide_eq_true_eq] at test
  exact test

theorem last_of_findUnused (found : state.findUnused = some (some b)) :
    (state.bufs b).Unused ∧
      ∃ newer older, order = newer ++ b :: older ∧ ∀ c, c ∈ older → ¬(state.bufs c).Unused := by
  rw [findUnused_eq listed, Option.some.injEq, List.find?_eq_some_iff_append] at found
  rcases found with ⟨test, skipped, rest, split, failed⟩
  refine ⟨of_decide_eq_true test, rest.reverse, skipped.reverse, ?_, ?_⟩
  · rw [← List.reverse_reverse order, split, List.reverse_append, List.reverse_cons,
      List.append_assoc, List.singleton_append]
  · intro c isOlder unused
    have notUnused := failed c (List.mem_reverse.mp isOlder)
    rw [decide_eq_true unused] at notUnused
    cases notUnused

end

end

theorem Listed.moveFront {newer older : List (Fin NBUF)} {b : Fin NBUF}
    (listed : Listed links (newer ++ b :: older)) :
    Listed ((links.remove b).pushFront b) (b :: (newer ++ older)) where
  circular := listed.circular.moveFront
  complete := by
    intro c
    have isElement := listed.complete c
    rw [List.mem_append, List.mem_cons] at isElement
    rw [List.mem_cons, List.mem_append]
    tauto

/-! ## Reference counts -/

section

omit [DecidableEq Process]

/-- The reference that a process has on the way into `bread` or out of `brelse`. -/
def Control.pending (b : Fin NBUF) : Control → Nat
  | .waiting _ _ c | .releasing c => if c = b then 1 else 0
  | .idle | .locked _ _ _ => 0

/-- The reference of the process that has the buffer locked. -/
def owned (lock : Option Process) : Nat :=
  if lock.isSome then 1 else 0

variable [Fintype Process]

def Counted (state : State Process) : Prop :=
  ∀ b, (state.bufs b).refcnt =
    owned (state.locks b) + ∑ p, (state.control p).pending b

theorem Counted.unreferenced (counted : Counted state) {b : Fin NBUF}
    (unused : (state.bufs b).refcnt = 0) :
    state.locks b = none ∧ ∀ p, (state.control p).pending b = 0 := by
  have count := counted b
  rw [unused] at count
  have noPending : ∑ p, (state.control p).pending b = 0 := by omega
  constructor
  · cases lock : state.locks b with
    | none => rfl
    | some p =>
      rw [lock] at count
      have one : owned (some p) = 1 := rfl
      omega
  · intro p
    have bound := measure_le_sum (Control.pending b) state.control p
    omega

end

section

variable {order : List (Fin NBUF)} [Fintype Process]

/-- One process moves on and one buffer changes. The references of that process to every
buffer change with the count and the lock. -/
theorem Counted.move (counted : Counted state) {p : Process} {control : Control}
    {bufs : Fin NBUF → Buf} {locks : Fin NBUF → Option Process}
    (balance : ∀ c, (bufs c).refcnt + owned (state.locks c) + (state.control p).pending c =
      (state.bufs c).refcnt + owned (locks c) + control.pending c)
    (links : Links (Fin NBUF)) (disk : UInt32 → UInt32 → Block) (log : LogState) :
    Counted { state with
      bufs := bufs
      locks := locks
      links := links
      disk := disk
      log := log
      control := state.setControl p control } := by
  intro c
  have before := counted c
  have change := balance c
  have total := sum_update (Control.pending c) state.control p control
  dsimp only [setControl]
  omega

omit [DecidableEq Process] in
/-- A buffer changes, but not its count. -/
theorem Counted.change (counted : Counted state) {bufs : Fin NBUF → Buf}
    (same : ∀ c, (bufs c).refcnt = (state.bufs c).refcnt)
    (disk : UInt32 → UInt32 → Block) (log : LogState) :
    Counted { state with bufs := bufs, disk := disk, log := log } := by
  intro c
  dsimp only
  rw [same]
  exact counted c

theorem Counted.step (counted : Counted state) (listed : Listed state.links order)
    (effect : Effect state action next) : Counted next := by
  cases effect with
  | hit p dev blockno b idle found =>
    apply counted.move
    intro c
    rw [idle]
    by_cases same : c = b
    · rw [same, setBuf, update_self]
      dsimp only [Control.pending]
      rw [if_pos rfl]
      omega
    · rw [setBuf, update_of_ne same]
      dsimp only [Control.pending]
      rw [if_neg (Ne.symm same)]
  | recycle p dev blockno b idle missing found =>
    have unused := (last_of_findUnused listed found).1
    apply counted.move
    intro c
    rw [idle]
    by_cases same : c = b
    · rw [same, setBuf, update_self, unused.1]
      dsimp only [Control.pending]
      rw [if_pos rfl]
      omega
    · rw [setBuf, update_of_ne same]
      dsimp only [Control.pending]
      rw [if_neg (Ne.symm same)]
  | acquire p dev blockno b waiting free =>
    apply counted.move
    intro c
    rw [waiting]
    by_cases same : c = b
    · rw [same, update_self, free]
      dsimp only [Control.pending]
      rw [if_pos rfl]
      rfl
    · rw [update_of_ne same]
      dsimp only [Control.pending]
      rw [if_neg (Ne.symm same)]
  | keep p dev blockno b locked valid =>
    apply counted.move
    intro c
    rw [locked]
    rfl
  | load p dev blockno b locked invalid =>
    apply counted.move
    intro c
    rw [locked]
    by_cases same : c = b
    · rw [same, setBuf, update_self]
      rfl
    · rw [setBuf, update_of_ne same]
      rfl
  | log p b data log holds | write p b data holds =>
    apply counted.change
    intro c
    by_cases same : c = b
    · rw [same, setBuf, update_self]
    · rw [setBuf, update_of_ne same]
  | unlock p b holds =>
    apply counted.move
    intro c
    rw [holds.2]
    by_cases same : c = b
    · rw [same, update_self, holds.1]
      dsimp only [Control.pending]
      rw [if_pos rfl]
      rfl
    · rw [update_of_ne same]
      dsimp only [Control.pending]
      rw [if_neg (Ne.symm same)]
  | drop p b releasing =>
    apply counted.move
    intro c
    rw [releasing]
    by_cases same : c = b
    · have count := counted b
      have bound := measure_le_sum (Control.pending b) state.control p
      have one : (state.control p).pending b = 1 := by
        rw [releasing]
        exact if_pos rfl
      rw [same, setBuf, update_self]
      dsimp only [Control.pending]
      rw [if_pos rfl]
      omega
    · rw [setBuf, update_of_ne same]
      dsimp only [Control.pending]
      rw [if_neg (Ne.symm same)]
  | other => exact counted

end

end Xv6.Bio
