import Xv6.Ptable.Reaping
import Xv6.Foundation.Lottery

/-! # Tickets

What each step does to the tickets of a process. The draw of `scheduler` is a lottery among
the runnable processes as long as the sum of their tickets does not overflow.
-/

namespace Xv6.Ptable

open Transition Table

variable {nproc ncpu : Nat}

/-! ## Draws -/

namespace Table

def held (table : Table nproc) (p : Fin nproc) : Nat := (table p).ntickets.toInt.toNat

def competitors (table : Table nproc) (slots : List (Fin nproc)) : List (Fin nproc) :=
  slots.filter fun p => (table p).state = .runnable

/-- The runnable processes have tickets, and few enough for the sum not to overflow. -/
structure Countable (table : Table nproc) (slots : List (Fin nproc)) : Prop where
  nonneg : ∀ p ∈ slots, (table p).state = .runnable → 0 ≤ (table p).ntickets.toInt
  bound : Lottery.total table.held (table.competitors slots) < 2 ^ 31

section

variable {table : Table nproc} {p : Fin nproc} {slots : List (Fin nproc)}

theorem competitors_cons_pos (runnable : (table p).state = .runnable) :
    table.competitors (p :: slots) = p :: table.competitors slots :=
  List.filter_cons_of_pos (decide_eq_true runnable)

theorem competitors_cons_neg (runnable : (table p).state ≠ .runnable) :
    table.competitors (p :: slots) = table.competitors slots :=
  List.filter_cons_of_neg fun isRunnable => runnable (of_decide_eq_true isRunnable)

theorem Countable.first (countable : table.Countable (p :: slots))
    (runnable : (table p).state = .runnable) :
    (table p).ntickets.toInt = table.held p ∧
      Lottery.total table.held (table.competitors (p :: slots)) =
        table.held p + Lottery.total table.held (table.competitors slots) := by
  constructor
  · exact (Int.toNat_of_nonneg (countable.nonneg p List.mem_cons_self runnable)).symm
  · rw [competitors_cons_pos runnable]
    rfl

theorem Countable.rest (countable : table.Countable (p :: slots)) : table.Countable slots where
  nonneg := fun q inside => countable.nonneg q (List.mem_cons_of_mem p inside)
  bound := by
    by_cases runnable : (table p).state = .runnable
    · have bound := countable.bound
      rw [(countable.first runnable).2] at bound
      omega
    · have bound := countable.bound
      rw [competitors_cons_neg runnable] at bound
      exact bound

/-- The loop of `scheduler` finds the winner of the lottery. -/
theorem findTicket_eq_draw (countable : table.Countable slots) :
    ∀ {ticket : Int32} {number : Nat}, ticket.toInt = number →
      table.findTicket slots ticket =
        Lottery.draw table.held (table.competitors slots) number := by
  induction slots with
  | nil =>
    intro ticket number _
    rfl
  | cons p rest induction =>
    intro ticket number isNumber
    rw [findTicket]
    by_cases runnable : (table p).state = .runnable
    · rw [if_neg (not_not.mpr runnable), competitors_cons_pos runnable]
      have first := countable.first runnable
      have bound := countable.bound
      have small := ticket.toInt_lt
      have difference : (ticket - (table p).ntickets).toInt = (number : Int) - table.held p := by
        rw [Int32.toInt_sub, isNumber, first.1]
        apply Int.bmod_eq_of_le
        · omega
        · omega
      have below : ticket - (table p).ntickets < 0 ↔ number < table.held p := by
        rw [Int32.lt_iff_toInt_lt, difference, Int32.toInt_zero]
        omega
      rw [Lottery.draw]
      by_cases wins : number < table.held p
      · rw [if_pos (below.mpr wins), if_pos wins]
      · rw [if_neg (fun less => wins (below.mp less)), if_neg wins]
        apply induction countable.rest
        rw [difference]
        omega
    · rw [if_pos runnable, competitors_cons_neg runnable]
      exact induction countable.rest isNumber

theorem foldl_tickets (countable : table.Countable slots) :
    ∀ {start : Int32} {number : Nat}, start.toInt = number →
      number + Lottery.total table.held (table.competitors slots) < 2 ^ 31 →
      (slots.foldl (fun total p => if (table p).state = .runnable
        then total + (table p).ntickets else total) start).toInt =
        number + Lottery.total table.held (table.competitors slots) := by
  induction slots with
  | nil =>
    intro start number isNumber _
    rw [List.foldl_nil, isNumber]
    rfl
  | cons p rest induction =>
    intro start number isNumber small
    rw [List.foldl_cons]
    by_cases runnable : (table p).state = .runnable
    · have first := countable.first runnable
      rw [first.2] at small ⊢
      rw [if_pos runnable]
      have added : (start + (table p).ntickets).toInt = (number + table.held p : Nat) := by
        rw [Int32.toInt_add, isNumber, first.1]
        apply Int.bmod_eq_of_le
        · omega
        · omega
      rw [induction countable.rest added (by omega)]
      omega
    · rw [if_neg runnable]
      rw [competitors_cons_neg runnable] at small ⊢
      exact induction countable.rest isNumber small

theorem getTickets_eq_total (countable : table.Countable (List.finRange nproc)) :
    table.getTickets.toInt =
      Lottery.total table.held (table.competitors (List.finRange nproc)) := by
  have counted := @foldl_tickets _ _ _ countable 0 0 rfl
    (by rw [Nat.zero_add]; exact countable.bound)
  exact counted.trans (Int.zero_add _)

/-- A runnable process is found with as many of the numbers as it holds tickets. -/
theorem count_findTicket (countable : table.Countable (List.finRange nproc))
    (runnable : (table p).state = .runnable) :
    Nat.count (fun number => table.findTicket (List.finRange nproc) (Int32.ofNat number) = some p)
      table.getTickets.toInt.toNat = table.held p := by
  have competes : p ∈ table.competitors (List.finRange nproc) :=
    List.mem_filter.mpr ⟨List.mem_finRange p, decide_eq_true runnable⟩
  have nodup : (table.competitors (List.finRange nproc)).Nodup :=
    (List.nodup_finRange nproc).filter _
  rw [getTickets_eq_total countable, Int.toNat_natCast,
    ← @Lottery.chances_eq _ _ _ table.held _ nodup competes, Lottery.chances,
    Nat.count_eq_card_filter_range, Nat.count_eq_card_filter_range]
  congr 1
  apply Finset.filter_congr
  intro number inside
  have small := Nat.lt_trans (Finset.mem_range.mp inside) countable.bound
  rw [findTicket_eq_draw countable (Int32.toInt_ofNat_of_lt small)]

end

theorem getTickets_distribute (table : Table nproc) (assign : Proc nproc → Proc nproc)
    (kept : ∀ proc, (assign proc).state = proc.state) :
    (table.distribute assign).1.getTickets = (table.distribute assign).2 := by
  dsimp only [getTickets, distribute, id]
  simp only [kept]

end Table

/-! ## Random numbers -/

theorem getElem_eq_false {x : BitVec 32} {bits i : Nat} (small : x.toNat < 2 ^ bits)
    (above : bits ≤ i) (inside : i < 32) : x[i] = false := by
  rw [← BitVec.getLsbD_eq_getElem, ← BitVec.testBit_toNat]
  exact Nat.testBit_lt_two_pow (Nat.lt_of_lt_of_le small (Nat.pow_le_pow_right (by decide) above))

/-- The three parts of a random number do not reach the sign bit. -/
theorem mix_nonneg {first second third : Int32} (firstSmall : first.toBitVec.toNat < 2 ^ 11)
    (secondSmall : second.toBitVec.toNat < 2 ^ 10) (thirdSmall : third.toBitVec.toNat < 2 ^ 10) :
    0 ≤ ((((first <<< 10) ^^^ second) <<< 10) ^^^ third).toInt := by
  have sign : ((((first <<< 10) ^^^ second) <<< 10) ^^^ third).toBitVec.msb = false := by
    have bit11 := getElem_eq_false firstSmall (Nat.le_refl 11) (by decide)
    have bit21 : second.toBitVec[21] = false := getElem_eq_false secondSmall (by decide) (by decide)
    have bit31 : third.toBitVec[31] = false := getElem_eq_false thirdSmall (by decide) (by decide)
    simp only [Int32.toBitVec_xor, Int32.toBitVec_shiftLeft, BitVec.msb_xor]
    rw [BitVec.msb_eq_getLsbD_last, BitVec.msb_eq_getLsbD_last]
    simp [bit11, bit21, bit31]
  exact BitVec.toInt_nonneg_of_msb_false sign

theorem toNat_mod_lt (x : UInt32) {modulus : UInt32} {bits : Nat}
    (power : modulus.toNat = 2 ^ bits) : (x % modulus).toInt32.toBitVec.toNat < 2 ^ bits := by
  have remainder : (x % modulus).toNat < 2 ^ bits := by
    rw [UInt32.toNat_mod, power]
    exact Nat.mod_lt _ (Nat.two_pow_pos bits)
  exact remainder

/-- `PRNG` draws one of the numbers below its bound. -/
theorem prng_lt (seed : UInt32) {bound : Int32} (positive : 0 < bound.toInt) :
    ∃ number, number < bound.toInt.toNat ∧ (prng seed bound).1 = Int32.ofNat number := by
  have notZero : bound ≠ 0 := by
    intro zero
    rw [zero] at positive
    exact absurd positive (by decide)
  have remainder : ∀ result : Int32, 0 ≤ result.toInt →
      ∃ number, number < bound.toInt.toNat ∧ result % bound = Int32.ofNat number := by
    intro result nonneg
    have value := Int32.toInt_mod result bound
    have lower := Int.tmod_nonneg bound.toInt nonneg
    have upper := Int.tmod_lt_of_pos result.toInt positive
    have bounded := bound.toInt_lt
    refine ⟨(result % bound).toInt.toNat, by omega, ?_⟩
    rw [← Int32.toInt_inj, Int32.toInt_ofNat_of_lt (by omega)]
    omega
  rw [prng, if_neg notZero]
  apply remainder
  exact mix_nonneg (toNat_mod_lt _ rfl) (toNat_mod_lt _ rfl) (toNat_mod_lt _ rfl)

/-! ## Steps -/

/-- What changes the tickets of a process under the dynamic policy. -/
inductive TicketEvent
  | yield
  | sleep
  deriving DecidableEq

namespace TicketEvent

/-- The test of `yield` and `sleep`. -/
def Changes : TicketEvent → Int32 → Prop
  | .yield, ntickets => ntickets > 1
  | .sleep, ntickets => ntickets < 100

instance (event : TicketEvent) (ntickets : Int32) : Decidable (event.Changes ntickets) :=
  match event with
  | .yield => inferInstanceAs (Decidable (ntickets > 1))
  | .sleep => inferInstanceAs (Decidable (ntickets < 100))

def store : TicketEvent → Int32 → Int32
  | .yield, ntickets => ntickets - 1
  | .sleep, ntickets => ntickets + 10

def update (event : TicketEvent) (ntickets : Int32) : Int32 :=
  if event.Changes ntickets then event.store ntickets else ntickets

end TicketEvent

def Action.givesUp : Action nproc → Bool
  | .yield | .sleep _ | .wait _ | .resume => true
  | _ => false

/-- The process that gives up the processor in a step, in `yield` or in `sleep`. -/
def ticketEvent (state : State nproc ncpu) (action : Fin ncpu × Action nproc) :
    Option (Fin nproc × TicketEvent) :=
  match (state.cpus action.1).control, action.2 with
  | .thread p none, .yield => some (p, .yield)
  | .thread p none, .sleep _ => some (p, .sleep)
  | .thread p none, .wait call | .thread p (some (.wait call)), .resume =>
      if state.waitResult p call = none then some (p, .sleep) else none
  | _, _ => none

theorem givesUp_of_ticketEvent {state : State nproc ncpu} {c : Fin ncpu} {action : Action nproc}
    {given : Fin nproc × TicketEvent} (gives : ticketEvent state (c, action) = some given) :
    action.givesUp = true := by
  unfold ticketEvent at gives
  dsimp only at gives
  split at gives
  all_goals first | rfl | cases gives

/-- What the policies are about. -/
def Proc.share (proc : Proc nproc) : Int32 × Int32 × Option (Visit nproc) :=
  (proc.ntickets, proc.priority, proc.visit)

/-- What a step outside of `policy` does to the tickets of a process. -/
inductive TicketStep (state next : State nproc ncpu) (c : Fin ncpu) (action : Action nproc)
    (q : Fin nproc) : Prop
  | kept {pr : Int32} (priority : pr = (state.table q).priority ∨ action = .priority pr)
      (same : (next.table q).share = { state.table q with priority := pr }.share)
  | reset (schedules : action = .schedule) (none : (state.cpus c).ntickets = 0)
      (ten : (next.table q).share = { state.table q with ntickets := 10 }.share)
  | own {event : TicketEvent} (gives : ticketEvent state (c, action) = some (q, event))
      (same : (next.table q).share =
        { state.table q with ntickets := (next.table q).ntickets }.share)

section

variable {state next entered : State nproc ncpu} {c : Fin ncpu} {p q : Fin nproc}
  {action : Action nproc} {call : WaitCall}

theorem TicketStep.visit (effect : TicketStep state next c action q) :
    (next.table q).visit = (state.table q).visit := by
  cases effect with
  | kept _ same | reset _ _ same | own _ same =>
    exact congrArg (fun share => share.2.2) same

theorem TicketStep.schedule
    (tickets : (next.table q).share = ((state.tickets c).1 q).share) :
    TicketStep state next c .schedule q := by
  rw [State.tickets] at tickets
  split at tickets
  · rename_i none
    exact .reset rfl none tickets
  · exact .kept (Or.inl rfl) tickets

theorem fill_share (table : Table nproc) (p np q : Fin nproc) (change : Proc nproc → Proc nproc)
    (point : Point nproc) (kept : ∀ proc, (change proc).share = proc.share) :
    (table.fill p np change point q).share = (table q).share := by
  refine (modify_keeps Proc.share (table.modify np change) p q _ ?_).trans
    (modify_keeps Proc.share table np q change kept)
  exact fun _ => rfl

theorem Entering.share (entering : Entering state c p call action entered) (q : Fin nproc) :
    (entered.table q).share = (state.table q).share := by
  rcases entering.entry q with ⟨chan, entry⟩
  rw [entry]
  rfl

theorem Entering.ticketEvent (entering : Entering state c p call action entered)
    (none : entered.table.zombieChild p = none)
    (waits : ¬(entered.table.havekids p = false ∨ (entered.table p).killed = true)) :
    ticketEvent state (c, action) = some (p, .sleep) := by
  have sleeps : state.waitResult p call = .none := by
    have kids : entered.table.havekids p = state.table.havekids p := by
      rw [havekids, havekids]
      congr 1
      funext q
      rcases entering.entry q with ⟨chan, entry⟩
      rw [entry]
    rcases entering.entry p with ⟨chan, entry⟩
    rw [kids, entry] at waits
    rw [State.waitResult, ← entering.zombieChild, none]
    exact if_neg waits
  cases entering with
  | call control free outside => simp only [Ptable.ticketEvent, control, sleeps, if_true]
  | woken control => simp only [Ptable.ticketEvent, control, sleeps, if_true]

theorem Stepped.tickets (stepped : Stepped state c action next) (notVisit : action ≠ .visit)
    (notPolicy : ∀ pl, action ≠ .policy pl) (q : Fin nproc) :
    TicketStep state next c action q := by
  cases stepped with
  | idle control free nobody => exact .schedule rfl
  | @dispatch p control free drawn =>
    exact .schedule (modify_keeps Proc.share _ p q _ fun _ => rfl)
  | finish control | forkret control | yielded control | tick free
  | allocFails control free full | wakeup address free => exact .kept (Or.inl rfl) rfl
  | @slept p control | @fault p control outside =>
    exact .kept (Or.inl rfl) (modify_keeps Proc.share state.table p q _ fun _ => rfl)
  | @reap p child call action entered entering found =>
    apply TicketStep.kept (Or.inl rfl)
    refine Eq.trans ?_ (entering.share q)
    exact modify_keeps Proc.share entered.table child q _ fun _ => rfl
  | waitFails entering none stops => exact .kept (Or.inl rfl) (entering.share q)
  | @waitSleeps p call action entered entering none waits =>
    have same := entering.share q
    by_cases isP : q = p
    · subst isP
      exact .own (entering.ticketEvent none waits) (by grind [Proc.share])
    · apply TicketStep.kept (Or.inl rfl)
      grind [Proc.share]
  | @yield p control free =>
    by_cases isP : q = p
    · subst isP
      exact @TicketStep.own _ _ _ _ _ _ _ .yield (by simp only [ticketEvent, control])
        (by grind [Proc.share])
    · apply TicketStep.kept (Or.inl rfl)
      grind [Proc.share]
  | @sleep p address control free outside =>
    by_cases isP : q = p
    · subst isP
      exact @TicketStep.own _ _ _ _ _ _ _ .sleep (by simp only [ticketEvent, control])
        (by grind [Proc.share])
    · apply TicketStep.kept (Or.inl rfl)
      grind [Proc.share]
  | @exit p status control free outside notInit =>
    have passed : (state.exitTable p q).share = (state.table q).share := by
      rw [(state.exited_exitTable q).eq]
      rfl
    apply TicketStep.kept (Or.inl rfl)
    grind [Proc.share]
  | @allocproc p np control free outside found =>
    exact .kept (Or.inl rfl) (fill_share state.table p np q _ _ fun _ => rfl)
  | @allocStack p np available control point | @copyProcess p np available control point =>
    cases available with
    | true | false => exact .kept (Or.inl rfl) (fill_share state.table p np q _ _ fun _ => rfl)
  | @publish p np control free point =>
    exact .kept (Or.inl rfl) (fill_share state.table p np q _ _ fun _ => rfl)
  | kill pid control free outside =>
    apply TicketStep.kept (Or.inl rfl)
    dsimp only [State.kill]
    grind [kill_apply, Proc.share]
  | @priority p pr control outside =>
    rw [State.priority]
    split
    · by_cases isP : q = p
      · subst isP
        exact .kept (Or.inr rfl) (by rw [State.modify_self])
      · exact .kept (Or.inl rfl) (by rw [State.modify_of_ne _ isP])
    · exact .kept (Or.inl rfl) rfl
  | policy control outside known => exact absurd rfl (notPolicy _)
  | visit control visiting => exact absurd rfl notVisit

end

theorem Entering.npolicy {state entered : State nproc ncpu} {c : Fin ncpu} {p : Fin nproc}
    {call : WaitCall} {action : Action nproc} (entering : Entering state c p call action entered) :
    entered.npolicy = state.npolicy := by
  cases entering with
  | call _ _ _ => rfl
  | woken _ => rfl

theorem Stepped.npolicy {state next : State nproc ncpu} {c : Fin ncpu} {action : Action nproc}
    (stepped : Stepped state c action next) (notPolicy : ∀ pl, action ≠ .policy pl) :
    next.npolicy = state.npolicy := by
  cases stepped with
  | reap entering found | waitFails entering none stops | waitSleeps entering none waits =>
    exact entering.npolicy
  | @allocStack p np available control point | @copyProcess p np available control point =>
    cases available with
    | true => rfl
    | false => rfl
  | @priority p pr control outside =>
    rw [State.priority]
    split
    · rfl
    · rfl
  | policy control outside known => exact absurd rfl (notPolicy _)
  | _ => rfl

end Xv6.Ptable
