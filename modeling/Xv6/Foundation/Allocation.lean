import Mathlib

/-! # Exact bookkeeping of allocated items

Items of a pool are held at places: a block of the disk from an entry of an
inode, a page of memory from an entry of a page table. The pool keeps marks for
the items that are not available. The marks are exact when they are set for the
reserved items and for the held ones and for no others; then an unmarked item
can be handed out, and an item that is given up can be unmarked.
-/

namespace Xv6.Allocation

variable {Place Item : Type}

structure Exact (within reserved : Item → Prop) (holder : Place → Option Item)
    (marked : Item → Prop) : Prop where
  marked_iff : ∀ item, within item →
    (marked item ↔ reserved item ∨ ∃ place, holder place = some item)
  held : ∀ place item, holder place = some item → within item ∧ ¬reserved item
  single : ∀ place other item, holder place = some item → holder other = some item →
    place = other

variable {within reserved : Item → Prop} {holder changed : Place → Option Item}
  {marked remarked : Item → Prop}

namespace Exact

section

variable (exact : Exact within reserved holder marked)
include exact

theorem not_held {item : Item} (unmarked : ¬marked item)
    (place : Place) : holder place ≠ some item := by
  intro holds
  have inside := (exact.held place item holds).1
  exact unmarked ((exact.marked_iff item inside).mpr (Or.inr ⟨place, holds⟩))

theorem marked_of_held {place : Place} {item : Item}
    (holds : holder place = some item) : marked item :=
  (exact.marked_iff item (exact.held place item holds).1).mpr (Or.inr ⟨place, holds⟩)

theorem ne_of_reserved {place : Place} {item other : Item} (isReserved : reserved other)
    (holds : holder place = some item) :
    item ≠ other := by
  rintro rfl
  exact (exact.held place item holds).2 isReserved

/-- Only what the places hold and what is marked inside the pool matters. -/
theorem congr (sameHolder : ∀ place, changed place = holder place)
    (sameMarks : ∀ item, within item → (remarked item ↔ marked item)) :
    Exact within reserved changed remarked := by
  obtain rfl : changed = holder := funext sameHolder
  exact ⟨fun item inside => (sameMarks item inside).trans (exact.marked_iff item inside),
    exact.held, exact.single⟩

end

variable [DecidableEq Place]

/-- Hand out an unmarked item to a place that holds nothing. -/
theorem assign (exact : Exact within reserved holder marked) {place : Place} {item : Item}
    (vacant : holder place = none) (inside : within item) (unmarked : ¬marked item)
    (newHolder : ∀ other, changed other = Function.update holder place (some item) other)
    (newMarks : ∀ other, within other → (remarked other ↔ other = item ∨ marked other)) :
    Exact within reserved changed remarked := by
  obtain rfl : changed = Function.update holder place (some item) := funext newHolder
  have notReserved : ¬reserved item := fun isReserved =>
    unmarked ((exact.marked_iff item inside).mpr (Or.inl isReserved))
  refine ⟨?_, ?_, ?_⟩
  · intro other otherInside
    rw [newMarks other otherInside, exact.marked_iff other otherInside]
    constructor
    · rintro (rfl | isReserved | ⟨holding, holds⟩)
      · exact Or.inr ⟨place, Function.update_self ..⟩
      · exact Or.inl isReserved
      · have different : holding ≠ place := by
          rintro rfl
          rw [vacant] at holds
          cases holds
        exact Or.inr ⟨holding, (Function.update_of_ne different ..).trans holds⟩
    · rintro (isReserved | ⟨holding, holds⟩)
      · exact Or.inr (Or.inl isReserved)
      · rw [Function.update_apply] at holds
        split at holds
        · cases holds
          exact Or.inl rfl
        · exact Or.inr (Or.inr ⟨holding, holds⟩)
  · intro holding other holds
    rw [Function.update_apply] at holds
    split at holds
    · cases holds
      exact ⟨inside, notReserved⟩
    · exact exact.held holding other holds
  · intro first second other holdsFirst holdsSecond
    rw [Function.update_apply] at holdsFirst holdsSecond
    split at holdsFirst <;> split at holdsSecond
    · simp_all
    · cases holdsFirst
      exact absurd holdsSecond (exact.not_held unmarked second)
    · cases holdsSecond
      exact absurd holdsFirst (exact.not_held unmarked first)
    · exact exact.single first second other holdsFirst holdsSecond

/-- Take an item back from the place that holds it. -/
theorem release (exact : Exact within reserved holder marked) {place : Place} {item : Item}
    (holds : holder place = some item)
    (newHolder : ∀ other, changed other = Function.update holder place none other)
    (newMarks : ∀ other, within other → (remarked other ↔ other ≠ item ∧ marked other)) :
    Exact within reserved changed remarked := by
  obtain rfl : changed = Function.update holder place none := funext newHolder
  refine ⟨?_, ?_, ?_⟩
  · intro other inside
    rw [newMarks other inside, exact.marked_iff other inside]
    constructor
    · rintro ⟨different, isReserved | ⟨holding, otherHolds⟩⟩
      · exact Or.inl isReserved
      · have elsewhere : holding ≠ place := by
          rintro rfl
          rw [holds] at otherHolds
          cases otherHolds
          exact different rfl
        exact Or.inr ⟨holding, (Function.update_of_ne elsewhere ..).trans otherHolds⟩
    · rintro (isReserved | ⟨holding, otherHolds⟩)
      · exact ⟨(exact.ne_of_reserved isReserved holds).symm, Or.inl isReserved⟩
      · rw [Function.update_apply] at otherHolds
        split at otherHolds
        · cases otherHolds
        · rename_i elsewhere
          refine ⟨?_, Or.inr ⟨holding, otherHolds⟩⟩
          rintro rfl
          exact elsewhere (exact.single holding place other otherHolds holds)
  · intro holding other otherHolds
    rw [Function.update_apply] at otherHolds
    split at otherHolds
    · cases otherHolds
    · exact exact.held holding other otherHolds
  · intro first second other holdsFirst holdsSecond
    rw [Function.update_apply] at holdsFirst holdsSecond
    split at holdsFirst
    · cases holdsFirst
    · split at holdsSecond
      · cases holdsSecond
      · exact exact.single first second other holdsFirst holdsSecond

end Exact

end Xv6.Allocation
