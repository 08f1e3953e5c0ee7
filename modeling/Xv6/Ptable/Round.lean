import Xv6.Foundation.Affine
import Xv6.Param
import Xv6.Ptable.TicketBounds

/-! # One round of the scheduler

Whatever the seed is, a round of `scheduler` draws one of the tickets there are, and
switches to the process that owns it.
-/

namespace Xv6.Ptable

variable {nproc ncpu : Nat}

/-! ## Tables to draw from -/

namespace Table

/-- Every runnable process has a ticket, and the sum of all their tickets is an `int`. -/
structure Funded (table : Table nproc) : Prop where
  owns : ∀ p, (table p).state = .runnable → 1 ≤ (table p).ntickets.toInt
  fits : table.runnableTickets < 2 ^ 31

section

variable {table : Table nproc} {p : Fin nproc} {number : Nat}

theorem Funded.total (funded : table.Funded) :
    (Lottery.total table.held (table.competitors (List.finRange nproc)) : Int) =
      table.runnableTickets :=
  total_eq_runnableTickets fun p runnable =>
    Int.le_trans (by decide) (funded.owns p runnable)

theorem Funded.countable (funded : table.Funded) : table.Countable (List.finRange nproc) where
  nonneg := fun p _ runnable => Int.le_trans (by decide) (funded.owns p runnable)
  bound := by
    have total := funded.total
    have fits := funded.fits
    omega

theorem Funded.getTickets (funded : table.Funded) :
    table.getTickets.toInt = table.runnableTickets :=
  (getTickets_eq_total funded.countable).trans funded.total

theorem Funded.getTickets_pos (funded : table.Funded) (runnable : (table p).state = .runnable) :
    0 < table.getTickets.toInt := by
  have owns : 0 < table.held p := by
    have least := funded.owns p runnable
    rw [held]
    omega
  rcases exists_findTicket funded.countable runnable owns with ⟨number, below, _⟩
  omega

theorem Funded.exists_owner (funded : table.Funded)
    (below : number < table.getTickets.toInt.toNat) :
    ∃ p, (table p).state = .runnable ∧
      table.findTicket (List.finRange nproc) (Int32.ofNat number) = some p := by
  have countable := funded.countable
  rw [getTickets_eq_total countable, Int.toNat_natCast] at below
  have small := Nat.lt_trans below countable.bound
  rcases Lottery.exists_draw below with ⟨p, competes, drawn⟩
  refine ⟨p, of_decide_eq_true (List.mem_filter.mp competes).2, ?_⟩
  rw [findTicket_eq_draw countable (Int32.toInt_ofNat_of_lt small), drawn]

theorem findTicket_eq_none (nobody : ∀ p, (table p).state ≠ .runnable) (ticket : Int32) :
    table.findTicket (List.finRange nproc) ticket = none := by
  cases found : table.findTicket (List.finRange nproc) ticket with
  | none => rfl
  | some p => exact absurd (runnable_of_findTicket found) (nobody p)

end

end Table

/-! ## Rounds -/

section

variable {state : State nproc ncpu} {c : Fin ncpu}

/-- The default policy changes nothing but tickets. -/
theorem State.tickets_state (state : State nproc ncpu) (c : Fin ncpu) (p : Fin nproc) :
    ((state.tickets c).1 p).state = (state.table p).state := by
  rw [State.tickets]
  split <;> rfl

theorem State.tickets_funded (small : nproc * 10 < 2 ^ 31) (funded : state.table.Funded)
    (c : Fin ncpu) : (state.tickets c).1.Funded := by
  rw [State.tickets]
  split
  · have ten : ∀ p, ((state.table.uniformTimeDist).1 p).ntickets.toInt = 10 := fun p => rfl
    have countable : (state.table.uniformTimeDist).1.Countable (List.finRange nproc) := by
      refine .of_bounds (fun p => ?_) (fun p => ?_) small
      · rw [ten]
        decide
      · rw [Table.held, ten]
        decide
    refine ⟨fun p _ => ?_, ?_⟩
    · rw [ten]
      decide
    · have total := @Table.total_eq_runnableTickets _ (state.table.uniformTimeDist).1
        fun p _ => by rw [ten]; decide
      have bound := countable.bound
      omega
  · exact funded

structure State.Exact (state : State nproc ncpu) (c : Fin ncpu) : Prop where
  total : (state.tickets c).2.toInt = (state.tickets c).1.runnableTickets
  /-- The ticket drawn is one of those there are, if there are any. -/
  ticket : ∀ p, (state.table p).state = .runnable →
    0 ≤ (prng state.seed (state.tickets c).2).1.toInt ∧
      (prng state.seed (state.tickets c).2).1.toInt < (state.tickets c).2.toInt
  /-- A runnable process is chosen by as many of the numbers as it has tickets. -/
  chances : ∀ p, (state.table p).state = .runnable →
    Nat.count (fun number => (state.tickets c).1.findTicket (List.finRange nproc)
      (Int32.ofNat number) = some p) (state.tickets c).2.toInt.toNat =
        ((state.tickets c).1 p).ntickets.toInt
  /-- Every number chooses a runnable process. -/
  owners : ∀ number, number < (state.tickets c).2.toInt.toNat →
    ∃ p, (state.table p).state = .runnable ∧
      (state.tickets c).1.findTicket (List.finRange nproc) (Int32.ofNat number) = some p
  /-- The processor switches to one runnable process, and the others stay as they are. -/
  winner : ∀ p, (state.table p).state = .runnable → ∃ q, (state.table q).state = .runnable ∧
    state.drawn c = some q ∧ ((state.schedule c).cpus c).proc = some q ∧
    ∀ other, ((state.schedule c).table other).state =
      if other = q then .running else (state.table other).state
  /-- Without a runnable process there is nothing to switch to. -/
  idle : (∀ p, (state.table p).state ≠ .runnable) → state.drawn c = none ∧
    ((state.schedule c).cpus c).proc = (state.cpus c).proc ∧
    ∀ other, ((state.schedule c).table other).state = (state.table other).state

theorem State.schedule_of_drawn {q : Fin nproc} (drawn : state.drawn c = some q) :
    ((state.schedule c).cpus c).proc = some q ∧
    ∀ other, ((state.schedule c).table other).state =
      if other = q then .running else (state.table other).state := by
  rw [State.schedule]
  simp only [drawn, Function.update_self, true_and]
  intro other
  rw [Table.modify, Function.update_apply]
  split
  · rfl
  · exact state.tickets_state c other

theorem State.schedule_of_none (none : state.drawn c = none) :
    ((state.schedule c).cpus c).proc = (state.cpus c).proc ∧
    ∀ other, ((state.schedule c).table other).state = (state.table other).state := by
  rw [State.schedule]
  simp only [none, Function.update_self, true_and]
  exact state.tickets_state c

theorem State.exact_of_funded (small : nproc * 10 < 2 ^ 31) (funded : state.table.Funded)
    (c : Fin ncpu) : state.Exact c := by
  have ready := state.tickets_funded small funded c
  have sameState := state.tickets_state c
  have total := state.tickets_total c
  have ticket : ∀ p, (state.table p).state = .runnable →
      ∃ number, number < (state.tickets c).2.toInt.toNat ∧
        (prng state.seed (state.tickets c).2).1 = Int32.ofNat number := by
    intro p runnable
    rw [← sameState] at runnable
    have positive := ready.getTickets_pos runnable
    rw [← total] at positive
    exact prng_lt state.seed positive
  have owners : ∀ number, number < (state.tickets c).2.toInt.toNat →
      ∃ p, (state.table p).state = .runnable ∧
        (state.tickets c).1.findTicket (List.finRange nproc) (Int32.ofNat number) = some p := by
    intro number below
    rw [total] at below
    rcases ready.exists_owner below with ⟨p, runnable, found⟩
    exact ⟨p, (sameState p).symm.trans runnable, found⟩
  refine ⟨?_, ?_, ?_, owners, ?_, ?_⟩
  · rw [total]
    exact ready.getTickets
  · intro p runnable
    rcases ticket p runnable with ⟨number, below, drawn⟩
    have bound := (state.tickets c).2.toInt_lt
    rw [drawn, Int32.toInt_ofNat_of_lt (by omega)]
    omega
  · intro p runnable
    rw [← sameState] at runnable
    rw [total, Table.count_findTicket ready.countable runnable]
    exact Int.toNat_of_nonneg (Int.le_trans (by decide) (ready.owns p runnable))
  · intro p runnable
    rcases ticket p runnable with ⟨number, below, drawn⟩
    rcases owners number below with ⟨q, isRunnable, found⟩
    have isDrawn : state.drawn c = some q := by
      rw [State.drawn, drawn, found]
    exact ⟨q, isRunnable, isDrawn, State.schedule_of_drawn isDrawn⟩
  · intro nobody
    have isDrawn : state.drawn c = none :=
      Table.findTicket_eq_none (fun p => by rw [sameState]; exact nobody p) _
    exact ⟨isDrawn, State.schedule_of_none isDrawn⟩

end

/-- The lottery of `scheduler` is exact, for every table of processes, every seed and
every processor. -/
theorem lottery_exact (ncpu : Nat) (state : State NPROC ncpu) (funded : state.table.Funded)
    (c : Fin ncpu) : state.Exact c :=
  State.exact_of_funded (by decide) funded c

/-- The first process has ten tickets in the round after it has gone back to the scheduler. -/
theorem lottery_exact_init : ∃ state : State NPROC 1,
    (state.table 0).state = .runnable ∧ ((state.tickets 0).1 0).ntickets = 10 ∧
      state.drawn 0 = some 0 ∧ state.Exact 0 := by
  rcases Transition.exists_reachable step Transition.Unrestricted (booted 63 1)
      [(0, .schedule), (0, .resume), (0, .yield), (0, .finish)] (fun state =>
        (∀ p, (state.table p).state = .runnable → 1 ≤ (state.table p).ntickets.toInt) ∧
          state.table.runnableTickets < 2 ^ 31 ∧ (state.table 0).state = .runnable ∧
          ((state.tickets 0).1 0).ntickets = 10 ∧ state.drawn 0 = some 0) (by decide +kernel) with
    ⟨state, _, owns, fits, runnable, tickets, drawn⟩
  exact ⟨state, runnable, tickets, drawn, lottery_exact 1 state ⟨owns, fits⟩ 0⟩

/-! ## The generator -/

/-- The seed that a call of `PRNG` leaves behind if its bound is not zero. -/
def nextSeed (seed : UInt32) : UInt32 := (prng seed 1).2

open scoped UInt32.CommRing in
theorem minimalPeriod_nextSeed (seed : UInt32) : Function.minimalPeriod nextSeed seed = 2 ^ 32 := by
  -- Three steps of the generator are one affine step.
  have affine : ∀ seed, nextSeed seed =
      (1 + 4 * ((1103515245 ^ 3 - 1) / 4)) * seed +
        (1 + 2 * ((12345 * (1103515245 ^ 2 + 1103515245 + 1) - 1) / 2)) := by
    intro seed
    change ((seed * 1103515245 + 12345) * 1103515245 + 12345) * 1103515245 + 12345 = _
    have multiplier : 1 + 4 * ((1103515245 ^ 3 - 1) / 4) = (1103515245 ^ 3 : UInt32) := by
      decide +kernel
    have increment : 1 + 2 * ((12345 * (1103515245 ^ 2 + 1103515245 + 1) - 1) / 2) =
        (12345 * (1103515245 ^ 2 + 1103515245 + 1) : UInt32) := by
      decide +kernel
    rw [multiplier, increment]
    ring
  exact Affine.minimalPeriod_eq affine (by decide +kernel) (by decide +kernel) seed

theorem card_seeds : Nat.card UInt32 = 2 ^ 32 := by
  rw [Nat.card_congr ⟨UInt32.toFin, UInt32.ofFin, fun _ => rfl, fun _ => rfl⟩, Nat.card_fin]
  rfl

/-- From every seed the generator visits every value once before it returns, and what it
draws is below the bound. -/
theorem prng_has_full_period (seed : UInt32) :
    (∀ bound, bound ≠ 0 → (prng seed bound).2 = nextSeed seed) ∧
    (∀ value, ∃! n, n < 2 ^ 32 ∧ nextSeed^[n] seed = value) ∧
    nextSeed^[2 ^ 32] seed = seed ∧
    ∀ bound : Int32, 0 < bound → 0 ≤ (prng seed bound).1 ∧ (prng seed bound).1 < bound := by
  have period := minimalPeriod_nextSeed seed
  refine ⟨?_, ?_, ?_, ?_⟩
  · intro bound nonzero
    rw [prng, if_neg nonzero]
    rfl
  · have : Finite UInt32 := Nat.finite_of_card_ne_zero (by rw [card_seeds]; decide)
    rw [← card_seeds] at period ⊢
    exact Affine.existsUnique_iterate period
  · rw [← period]
    exact Function.iterate_minimalPeriod
  · intro bound positive
    rcases prng_lt seed (Int32.lt_iff_toInt_lt.mp positive) with ⟨number, below, drawn⟩
    have fits := bound.toInt_lt
    rw [drawn, Int32.le_iff_toInt_le, Int32.lt_iff_toInt_lt, Int32.toInt_ofNat_of_lt (by omega)]
    exact ⟨Int.natCast_nonneg number, by omega⟩

end Xv6.Ptable
