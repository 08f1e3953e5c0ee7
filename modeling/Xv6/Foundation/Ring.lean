import Mathlib

/-! # Ring buffers with wrapping counters

A ring buffer counts the words that were ever put in and taken out, modulo `2 ^ 32`, and
finds a word at its number modulo the size. If the size divides `2 ^ 32`, it is a bounded
queue however often the counters wrap.
-/

namespace Xv6

structure Ring (size : Nat) (Word : Type) where
  data : Fin size → Word
  head : UInt32
  tail : UInt32

namespace Ring

variable {size : Nat} [NeZero size] {Word : Type}

/-- Where the word with a number is. -/
def slot (size : Nat) [NeZero size] (number : UInt32) : Fin size := Fin.ofNat size number.toNat

def push (ring : Ring size Word) (word : Word) : Ring size Word :=
  { ring with
    data := Function.update ring.data (slot size ring.tail) word
    tail := ring.tail + 1 }

/-- Take back the word that was put in last. -/
def unpush (ring : Ring size Word) : Ring size Word := { ring with tail := ring.tail - 1 }

def front (ring : Ring size Word) : Word := ring.data (slot size ring.head)

def pop (ring : Ring size Word) : Ring size Word := { ring with head := ring.head + 1 }

/-- The words in the buffer, in the order in which they were put in. -/
structure Holds (ring : Ring size Word) (words : List Word) : Prop where
  bound : words.length ≤ size
  count : ring.tail = ring.head + UInt32.ofNat words.length
  word : ∀ index (inside : index < words.length),
    ring.data (slot size (ring.head + UInt32.ofNat index)) = words[index]

section

variable {ring : Ring size Word} {words : List Word} {word : Word}

theorem toNat_add_ofNat (number : UInt32) (offset : Nat) :
    (number + UInt32.ofNat offset).toNat = (number.toNat + offset) % 2 ^ 32 := by
  rw [UInt32.toNat_add, UInt32.toNat_ofNat', Nat.add_mod_mod]

theorem slot_add_inj (divides : size ∣ 2 ^ 32) {number : UInt32} {first second : Nat}
    (firstInside : first < size) (secondInside : second < size)
    (same : slot size (number + UInt32.ofNat first) = slot size (number + UInt32.ofNat second)) :
    first = second := by
  have remainders := congrArg Fin.val same
  rw [slot, slot, Fin.val_ofNat, Fin.val_ofNat, toNat_add_ofNat, toNat_add_ofNat,
    Nat.mod_mod_of_dvd _ divides, Nat.mod_mod_of_dvd _ divides] at remainders
  have congruent : first ≡ second [MOD size] :=
    Nat.ModEq.add_left_cancel' number.toNat remainders
  exact congruent.eq_of_lt_of_lt firstInside secondInside

theorem add_ofNat_succ (number : UInt32) (offset : Nat) :
    number + 1 + UInt32.ofNat offset = number + UInt32.ofNat (offset + 1) := by
  rw [UInt32.add_assoc, UInt32.add_comm 1, UInt32.ofNat_add]
  rfl

theorem add_ofNat_zero (number : UInt32) : number + UInt32.ofNat 0 = number :=
  UInt32.add_zero number

theorem Holds.empty {data : Fin size → Word} (number : UInt32) :
    Holds ⟨data, number, number⟩ [] where
  bound := Nat.zero_le size
  count := (add_ofNat_zero number).symm
  word := nofun

/-- A buffer can be cut in two. -/
theorem Holds.split {first second : List Word} (holds : Holds ring (first ++ second)) :
    Holds ⟨ring.data, ring.head, ring.head + UInt32.ofNat first.length⟩ first ∧
      Holds ⟨ring.data, ring.head + UInt32.ofNat first.length, ring.tail⟩ second := by
  have bound := holds.bound
  rw [List.length_append] at bound
  refine ⟨⟨by omega, rfl, fun index inside => ?_⟩, by omega, ?_, fun index inside => ?_⟩
  · have word := holds.word index (by rw [List.length_append]; omega)
    rw [List.getElem_append_left inside] at word
    exact word
  · rw [holds.count, List.length_append, UInt32.ofNat_add, UInt32.add_assoc]
  · have word := holds.word (first.length + index) (by rw [List.length_append]; omega)
    rw [List.getElem_append_right (Nat.le_add_right ..)] at word
    simp only [UInt32.ofNat_add, ← UInt32.add_assoc, Nat.add_sub_cancel_left] at word
    exact word

section

variable (holds : Holds ring words)
include holds

/-- The counters differ by the number of words. -/
theorem Holds.toNat_sub (small : size < 2 ^ 32) :
    (ring.tail - ring.head).toNat = words.length := by
  have bound := holds.bound
  rw [holds.count, UInt32.add_comm, UInt32.add_sub_cancel, UInt32.toNat_ofNat', Nat.mod_eq_of_lt]
  omega

theorem Holds.eq_iff (small : size < 2 ^ 32) (count : Nat) (countSmall : count < 2 ^ 32) :
    ring.tail = ring.head + UInt32.ofNat count ↔ words.length = count := by
  constructor
  · intro same
    have length := holds.toNat_sub small
    rw [same, UInt32.add_comm, UInt32.add_sub_cancel, UInt32.toNat_ofNat',
      Nat.mod_eq_of_lt countSmall] at length
    exact length.symm
  · intro same
    rw [← same]
    exact holds.count

theorem Holds.empty_iff (small : size < 2 ^ 32) :
    ring.head = ring.tail ↔ words = [] := by
  have compare := holds.eq_iff small 0 (by decide)
  rw [add_ofNat_zero, List.length_eq_zero_iff] at compare
  rw [← compare]
  exact eq_comm

theorem Holds.full_iff (small : size < 2 ^ 32) :
    ring.tail = ring.head + UInt32.ofNat size ↔ words.length = size :=
  holds.eq_iff small size small

theorem Holds.push (divides : size ∣ 2 ^ 32)
    (space : words.length < size) : Holds (ring.push word) (words ++ [word]) where
  bound := by
    rw [List.length_append, List.length_singleton]
    exact space
  count := by
    rw [List.length_append, List.length_singleton, ← add_ofNat_succ, Ring.push, holds.count]
    dsimp only
    rw [UInt32.add_assoc, UInt32.add_assoc, UInt32.add_comm 1]
  word := by
    intro index inside
    rw [List.length_append, List.length_singleton] at inside
    dsimp only [Ring.push]
    by_cases last : index = words.length
    · subst last
      rw [← holds.count, Function.update_self, List.getElem_concat_length rfl]
    · have old : index < words.length := by omega
      rw [Function.update_of_ne, List.getElem_append_left old]
      · exact holds.word index old
      · intro same
        rw [holds.count] at same
        exact last (slot_add_inj divides (Nat.lt_trans old space) space same)

end

theorem Holds.tail_sub_one (holds : Holds ring (words ++ [word])) :
    ring.tail - 1 = ring.head + UInt32.ofNat words.length := by
  rw [holds.count, List.length_append, List.length_singleton, ← add_ofNat_succ, UInt32.add_assoc,
    UInt32.add_comm 1, ← UInt32.add_assoc, UInt32.add_sub_cancel]

theorem Holds.last (holds : Holds ring (words ++ [word])) :
    ring.data (slot size (ring.tail - 1)) = word := by
  have last := holds.word words.length (by simp)
  rw [List.getElem_concat_length rfl] at last
  rw [holds.tail_sub_one, last]

theorem Holds.unpush (holds : Holds ring (words ++ [word])) : Holds ring.unpush words where
  bound := by
    have bound := holds.bound
    rw [List.length_append] at bound
    omega
  count := holds.tail_sub_one
  word := by
    intro index inside
    have word := holds.word index (by rw [List.length_append]; omega)
    rw [List.getElem_append_left inside] at word
    exact word

theorem Holds.front (holds : Holds ring (word :: words)) : ring.front = word := by
  have first := holds.word 0 (Nat.zero_lt_succ _)
  rw [add_ofNat_zero] at first
  exact first

theorem Holds.pop (holds : Holds ring (word :: words)) : Holds ring.pop words where
  bound := Nat.le_of_succ_le holds.bound
  count := by
    dsimp only [Ring.pop]
    rw [add_ofNat_succ]
    exact holds.count
  word := by
    intro index inside
    dsimp only [Ring.pop]
    rw [add_ofNat_succ]
    exact holds.word (index + 1) (Nat.succ_lt_succ inside)

end

end Ring

end Xv6
