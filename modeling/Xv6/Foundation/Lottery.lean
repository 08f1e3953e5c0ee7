import Mathlib

/-! # Lotteries

Tickets are numbered through a list of items, each of which holds some of them. Drawing a
number walks along the list. Every item is drawn by as many numbers as it holds tickets.
-/

namespace Xv6.Lottery

variable {Item : Type}

variable {items : List Item}

def total (tickets : Item → Nat) (items : List Item) : Nat := (items.map tickets).sum

/-- The item that holds the ticket with a number. -/
def draw (tickets : Item → Nat) : List Item → Nat → Option Item
  | [], _ => none
  | item :: rest, number =>
      if number < tickets item then some item else draw tickets rest (number - tickets item)

section

variable {tickets : Item → Nat} {first : Item} {rest : List Item}

theorem draw_first {number : Nat} (held : number < tickets first) :
    draw tickets (first :: rest) number = some first := if_pos held

theorem draw_rest (number : Nat) :
    draw tickets (first :: rest) (tickets first + number) = draw tickets rest number := by
  rw [draw, if_neg (by omega), Nat.add_sub_cancel_left]

theorem draw_mem {item : Item} :
    ∀ {number : Nat}, draw tickets items number = some item → item ∈ items := by
  induction items with
  | nil =>
    intro number drawn
    cases drawn
  | cons first rest induction =>
    intro number drawn
    rw [draw] at drawn
    split at drawn
    · cases drawn
      exact List.mem_cons_self
    · exact List.mem_cons_of_mem first (induction drawn)

/-- Every number below the total is on a ticket. -/
theorem exists_draw :
    ∀ {number : Nat}, number < total tickets items →
      ∃ item ∈ items, draw tickets items number = some item := by
  induction items with
  | nil =>
    intro number inside
    cases inside
  | cons first rest induction =>
    intro number inside
    rw [draw]
    by_cases held : number < tickets first
    · exact ⟨first, List.mem_cons_self, if_pos held⟩
    · rw [total, List.map_cons, List.sum_cons] at inside
      have later : number - tickets first < total tickets rest := by
        rw [total]
        omega
      rcases induction later with ⟨item, member, drawn⟩
      exact ⟨item, List.mem_cons_of_mem first member, by rw [if_neg held, drawn]⟩

end

variable [DecidableEq Item]

/-- How many of the numbers that can be drawn an item wins with. -/
def chances (tickets : Item → Nat) (items : List Item) (item : Item) : Nat :=
  Nat.count (fun number => draw tickets items number = some item) (total tickets items)

section

variable {tickets : Item → Nat} {first item : Item} {rest : List Item}

theorem chances_cons (tickets : Item → Nat) (first item : Item) (rest : List Item) :
    chances tickets (first :: rest) item =
      (if first = item then tickets first else 0) + chances tickets rest item := by
  rw [chances, total, List.map_cons, List.sum_cons, Nat.count_add]
  congr 1
  · split
    · rename_i same
      rw [Nat.count_iff_forall]
      intro number held
      rw [draw_first held, same]
    · rename_i different
      rw [Nat.count_iff_forall_not]
      intro number held drawn
      rw [draw_first held] at drawn
      exact different (Option.some.inj drawn)
  · simp only [draw_rest]
    rfl

theorem chances_eq_zero (absent : item ∉ items) :
    chances tickets items item = 0 := by
  rw [chances, Nat.count_iff_forall_not]
  intro number _ drawn
  exact absent (draw_mem drawn)

/-- An item wins with as many numbers as it holds tickets. -/
theorem chances_eq (nodup : items.Nodup) (member : item ∈ items) :
    chances tickets items item = tickets item := by
  induction nodup with
  | nil => cases member
  | @cons first rest different _ induction =>
    rw [chances_cons]
    cases List.mem_cons.mp member with
    | inl same =>
      have absent : item ∉ rest := fun inside => different item inside same.symm
      rw [if_pos same.symm, chances_eq_zero absent, same, Nat.add_zero]
    | inr inside =>
      rw [if_neg (different item inside), induction inside, Nat.zero_add]

end

end Xv6.Lottery
