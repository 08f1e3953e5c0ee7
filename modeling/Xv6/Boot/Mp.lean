import Mathlib

/-! # The table of processors

`mpconfig` and `mpinit` of `mp.c`: what the firmware says about processors and interrupt
controllers, read from any memory.
-/

namespace Xv6.Mp

abbrev NCPU : Nat := 8

/-! The types of entries. -/

abbrev MPPROC : UInt8 := 0

abbrev MPBUS : UInt8 := 1

abbrev MPIOAPIC : UInt8 := 2

abbrev MPLINTR : UInt8 := 4

abbrev Memory := UInt32 → UInt8

/-- `sum`. -/
def sum (mem : Memory) (addr : UInt32) (len : Nat) : UInt8 :=
  (List.range len).foldl (fun total i => total + mem (addr + UInt32.ofNat i)) 0

/-- `conf->length`. -/
def length (mem : Memory) (conf : UInt32) : Nat :=
  (mem (conf + 4)).toNat + 256 * (mem (conf + 5)).toNat

/-- `conf->lapicaddr`. -/
def lapicaddr (mem : Memory) (conf : UInt32) : UInt32 :=
  (mem (conf + 36)).toUInt32 ||| (mem (conf + 37)).toUInt32 <<< 8 |||
    (mem (conf + 38)).toUInt32 <<< 16 ||| (mem (conf + 39)).toUInt32 <<< 24

/-- The tests of `mpconfig`: signature, version and checksum. -/
def mpconfig (mem : Memory) (conf : UInt32) : Bool :=
  (List.range 4).map (fun i => mem (conf + UInt32.ofNat i)) == [80, 67, 77, 80] &&
    (mem (conf + 6) == 1 || mem (conf + 6) == 4) && sum mem conf (length mem conf) == 0

/-- The variables that `mpinit` sets. -/
structure Globals where
  ismp : Bool
  ncpu : Nat
  lapic : UInt32
  ioapicid : UInt8
  apicid : Nat → UInt8

/-- How far the next entry is away. A type that is not known is not passed over. -/
def advance (type : UInt8) : UInt32 := if type = MPPROC then 20 else if type ≤ MPLINTR then 8 else 0

def entry (mem : Memory) (p : UInt32) (globals : Globals) : Globals :=
  if mem p = MPPROC then
    if globals.ncpu < NCPU then
      { globals with
        apicid := Function.update globals.apicid globals.ncpu (mem (p + 1))
        ncpu := globals.ncpu + 1 }
    else globals
  else if mem p = MPIOAPIC then { globals with ioapicid := mem (p + 1) }
  else if mem p ≤ MPLINTR then globals
  else { globals with ismp := false }

/-- The loop of `mpinit`, for a number of rounds; `none` if they do not suffice. -/
def entryLoop (mem : Memory) (e : UInt32) : Nat → UInt32 → Globals → Option Globals
  | 0, _, _ => none
  | rounds + 1, p, globals =>
      if p < e then entryLoop mem e rounds (p + advance (mem p)) (entry mem p globals)
      else some globals

/-- `mpinit`, for the table that has been found. -/
def mpinit (mem : Memory) (conf : UInt32) (rounds : Nat) (globals : Globals) : Option Globals :=
  if mpconfig mem conf then
    (entryLoop mem (conf + UInt32.ofNat (length mem conf)) rounds (conf + 44)
      { globals with ismp := true, lapic := lapicaddr mem conf }).map fun found =>
        if found.ismp then found else { found with ncpu := 1, lapic := 0, ioapicid := 0 }
  else some globals

/-- The places that the loop comes to from one on. -/
inductive Visits (mem : Memory) (e start : UInt32) : UInt32 → Prop
  | here : Visits mem e start start
  | next {p : UInt32} (visits : Visits mem e start p) (inside : p < e) :
      Visits mem e start (p + advance (mem p))

/-- Where the loop of `mpinit` ends. -/
def tableEnd (mem : Memory) (conf : UInt32) : UInt32 := conf + UInt32.ofNat (length mem conf)

section

variable {mem : Memory} {e p start : UInt32} {rounds : Nat} {globals found : Globals}

theorem entry_ncpu (bounded : globals.ncpu ≤ NCPU) : (entry mem p globals).ncpu ≤ NCPU := by
  unfold entry
  grind

theorem entryLoop_ncpu (ended : entryLoop mem e rounds p globals = some found)
    (bounded : globals.ncpu ≤ NCPU) : found.ncpu ≤ NCPU := by
  induction rounds generalizing p globals with
  | zero => cases ended
  | succ rounds induction =>
    rw [entryLoop] at ended
    split at ended
    · exact induction ended (entry_ncpu bounded)
    · cases ended
      exact bounded

/-- Rounds are left when the loop comes to a place. -/
theorem Visits.entryLoop_some (visits : Visits mem e start p)
    (ended : entryLoop mem e rounds start globals = some found) :
    ∃ left ≤ rounds, ∃ middle, entryLoop mem e left p middle = some found := by
  induction visits with
  | here => exact ⟨rounds, le_rfl, globals, ended⟩
  | next _ inside induction =>
    rcases induction with ⟨left, fewer, middle, rest⟩
    cases left with
    | zero => cases rest
    | succ left =>
      rw [entryLoop, if_pos inside] at rest
      exact ⟨left, by omega, _, rest⟩

/-- The loop does not end once it comes back to an entry. -/
theorem entryLoop_again (inside : p < e) (again : Visits mem e (p + advance (mem p)) p)
    (rounds : Nat) (globals : Globals) : entryLoop mem e rounds p globals = none := by
  induction rounds using Nat.strong_induction_on generalizing globals with
  | _ rounds induction =>
    cases rounds with
    | zero => rfl
    | succ rounds =>
      rw [entryLoop, if_pos inside]
      cases ended : entryLoop mem e rounds (p + advance (mem p)) (entry mem p globals) with
      | none => rfl
      | some found =>
        rcases again.entryLoop_some ended with ⟨left, fewer, middle, rest⟩
        rw [induction left (by omega) middle] at rest
        cases rest

/-- An entry of a type that is not known is not left. -/
theorem visits_unknown (unknown : ¬mem p ≤ MPLINTR) : Visits mem e (p + advance (mem p)) p := by
  have stays : advance (mem p) = 0 := by
    unfold advance
    grind
  rw [stays, UInt32.add_zero]
  exact .here

/-- The place after a number of rounds. -/
def place (mem : Memory) (start : UInt32) (k : Nat) : UInt32 :=
  (fun p => p + advance (mem p))^[k] start

theorem place_succ (mem : Memory) (start : UInt32) (k : Nat) :
    place mem start (k + 1) = place mem start k + advance (mem (place mem start k)) :=
  Function.iterate_succ_apply' ..

theorem place_inside (endless : entryLoop mem e rounds start globals = none) {k : Nat}
    (before : k < rounds) : place mem start k < e := by
  induction rounds generalizing start globals k with
  | zero => omega
  | succ rounds induction =>
    rw [entryLoop] at endless
    split at endless
    · cases k with
      | zero => assumption
      | succ k => exact induction endless (Nat.lt_of_succ_lt_succ before)
    · cases endless

theorem visits_place (inside : ∀ k, place mem start k < e) (first more : Nat) :
    Visits mem e (place mem start first) (place mem start (first + more)) := by
  induction more with
  | zero => exact .here
  | succ more induction =>
    rw [← Nat.add_assoc, place_succ]
    exact induction.next (inside _)

/-- There are not as many places as rounds, so a loop that comes to no entry twice ends. -/
theorem entryLoop_ends (once : ∀ p, Visits mem e start p → p < e →
    ¬Visits mem e (p + advance (mem p)) p) (globals : Globals) :
    ∃ rounds found, entryLoop mem e rounds start globals = some found := by
  by_contra never
  push Not at never
  have inside : ∀ k, place mem start k < e := fun k =>
    place_inside (Option.eq_none_iff_forall_ne_some.mpr (never (k + 1))) (Nat.lt_succ_self k)
  rcases Finite.exists_ne_map_eq_of_infinite fun k => (place mem start k).toFin with
    ⟨k, l, different, same⟩
  have equal : place mem start k = place mem start l := UInt32.toFin_inj.mp same
  wlog earlier : k < l generalizing k l
  · exact this l k different.symm same.symm equal.symm (by omega)
  have visited := visits_place inside 0 k
  have again := visits_place inside (k + 1) (l - (k + 1))
  rw [Nat.zero_add] at visited
  rw [Nat.add_sub_cancel' earlier, ← equal, place_succ] at again
  exact once _ visited (inside k) again

end

/-- `mpinit` ends, with at most `NCPU` processors, and with one processor if it met an entry
of a type that is not known. -/
def Terminates (mem : Memory) (conf : UInt32) (globals : Globals) : Prop :=
  ∃ rounds found, mpinit mem conf rounds globals = some found ∧ found.ncpu ≤ NCPU ∧
    ((∃ p, Visits mem (tableEnd mem conf) (conf + 44) p ∧ p < tableEnd mem conf ∧
      ¬mem p ≤ MPLINTR) → found.ismp = false ∧ found.ncpu = 1 ∧ found.lapic = 0)

/-- A table with one entry of the given type; its bytes add up to zero. -/
def tableOf (type : UInt8) : Memory := fun a =>
  ([80, 67, 77, 80, 45, 0, 4, 159 - type] ++ List.replicate 36 0 ++ [type]).getD
    (a.toNat - 0x80000000) 0

end Xv6.Mp
