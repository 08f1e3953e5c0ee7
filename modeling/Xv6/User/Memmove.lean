import Mathlib

/-! # memmove

There are two versions of `memmove`: that of `string.c` in the kernel, and that of `ulib.c` for
programs. A pointer is a number of 32 bits.
-/

namespace Xv6.Memmove

open Function (update update_self update_of_ne)

abbrev Memory := UInt32 → UInt8

/-- The loop `while(n-- > 0) *d++ = *s++`. -/
def copyForward : (n : Nat) → (d s : UInt32) → Memory → Memory
  | 0, _, _, memory => memory
  | n + 1, d, s, memory => copyForward n (d + 1) (s + 1) (update memory d (memory s))

/-- The loop `while(n-- > 0) *--d = *--s`. -/
def copyBackward : (n : Nat) → (d s : UInt32) → Memory → Memory
  | 0, _, _, memory => memory
  | n + 1, d, s, memory =>
      copyBackward n (d - 1) (s - 1) (update memory (d - 1) (memory (s - 1)))

/-- `memmove` of `string.c`, with the pointer that it returns. -/
def Kernel.memmove (dst src n : UInt32) (memory : Memory) : UInt32 × Memory :=
  if src < dst ∧ src + n > dst then (dst, copyBackward n.toNat (dst + n) (src + n) memory)
  else (dst, copyForward n.toNat dst src memory)

/-- `memmove` of `ulib.c`, with the pointer that it returns. -/
def User.memmove (dst src : UInt32) (n : Int32) (memory : Memory) : UInt32 × Memory :=
  (dst, copyForward n.toInt.toNat dst src memory)

/-- The memory after the bytes from offset `start` up to `stop` have been moved. -/
def moved (memory : Memory) (dst src : UInt32) (start stop : Nat) : Memory := fun a =>
  if dst.toNat + start ≤ a.toNat ∧ a.toNat < dst.toNat + stop then memory (src + (a - dst))
  else memory a

/-- The ranges do not wrap around. Their last byte may be the last one of the memory. -/
structure Fits (dst src : UInt32) (n : Nat) : Prop where
  dst : dst.toNat + n ≤ 2 ^ 32
  src : src.toNat + n ≤ 2 ^ 32

section

variable {dst src : UInt32} {n : Nat}

theorem toNat_add_ofNat {p : UInt32} {k : Nat} (inside : p.toNat + k < 2 ^ 32) :
    (p + UInt32.ofNat k).toNat = p.toNat + k := by
  rw [UInt32.toNat_add, UInt32.toNat_ofNat']
  omega

theorem moved_nothing (memory : Memory) (k : Nat) : moved memory dst src k k = memory := by
  funext a
  exact if_neg (by omega)

/-- One more byte is moved, which has not been overwritten yet. -/
theorem update_moved (memory : Memory) (fits : Fits dst src n) {start stop start' stop' k : Nat}
    (inside : k < n) (grows : start' = start ∧ k = stop ∧ stop' = k + 1 ∨
      start = k + 1 ∧ start' = k ∧ stop' = stop) (nonempty : start ≤ stop)
    (unread : ¬(dst.toNat + start ≤ src.toNat + k ∧ src.toNat + k < dst.toNat + stop)) :
    update (moved memory dst src start stop) (dst + UInt32.ofNat k)
      (moved memory dst src start stop (src + UInt32.ofNat k)) =
        moved memory dst src start' stop' := by
  have srcPlace := @toNat_add_ofNat src k (by have bound := fits.src; omega)
  have dstPlace := @toNat_add_ofNat dst k (by have bound := fits.dst; omega)
  funext a
  by_cases here : a = dst + UInt32.ofNat k
  · rw [here, update_self, moved, moved, srcPlace, dstPlace, if_neg unread, if_pos (by omega),
      UInt32.add_comm dst, UInt32.add_sub_cancel]
  · have different : a.toNat ≠ dst.toNat + k := by
      intro same
      rw [← dstPlace] at same
      exact here (UInt32.toNat_inj.mp same)
    rw [update_of_ne here, moved, moved]
    exact if_congr (by omega) rfl rfl

/-- From offset `i` on. No byte is overwritten before it is read if the destination starts
below the source or behind its end. -/
theorem copyForward_eq (memory : Memory) {i : Nat} (fits : Fits dst src (i + n))
    (ahead : dst.toNat ≤ src.toNat ∨ src.toNat + (i + n) ≤ dst.toNat) :
    copyForward n (dst + UInt32.ofNat i) (src + UInt32.ofNat i) (moved memory dst src 0 i) =
      moved memory dst src 0 (i + n) := by
  induction n generalizing i with
  | zero => rfl
  | succ n induction =>
    have next : ∀ p : UInt32, p + UInt32.ofNat i + 1 = p + UInt32.ofNat (i + 1) := by
      intro p
      rw [UInt32.ofNat_add, UInt32.add_assoc]
      rfl
    have total : i + (n + 1) = i + 1 + n := by omega
    rw [copyForward, update_moved memory fits (by omega) (Or.inl ⟨rfl, rfl, rfl⟩) (Nat.zero_le i)
      (by omega), next, next, total]
    rw [total] at fits ahead
    exact induction fits ahead

/-- The bytes from offset `i` on have been moved. -/
theorem copyBackward_eq (memory : Memory) (fits : Fits dst src n) (behind : src.toNat ≤ dst.toNat)
    {i : Nat} (inside : i ≤ n) :
    copyBackward i (dst + UInt32.ofNat i) (src + UInt32.ofNat i) (moved memory dst src i n) =
      moved memory dst src 0 n := by
  induction i with
  | zero => rfl
  | succ i induction =>
    have last : ∀ p : UInt32, p + UInt32.ofNat (i + 1) - 1 = p + UInt32.ofNat i := by
      intro p
      rw [UInt32.ofNat_add, ← UInt32.add_assoc]
      exact UInt32.add_sub_cancel ..
    rw [copyBackward, last, last, update_moved memory fits inside (Or.inr ⟨rfl, rfl, rfl⟩) inside
      (by omega)]
    exact induction (Nat.le_of_lt inside)

theorem copyForward_moved (memory : Memory) (fits : Fits dst src n)
    (ahead : dst.toNat ≤ src.toNat ∨ src.toNat + n ≤ dst.toNat) :
    copyForward n dst src memory = moved memory dst src 0 n := by
  have whole := @copyForward_eq dst src n memory 0
  rw [moved_nothing, Nat.zero_add] at whole
  simpa using whole fits ahead

/-- A copy that goes up into its own source repeats what is below the destination. -/
theorem copyForward_repeats {low : Nat} {byte : UInt8} (below : low ≤ src.toNat)
    (overlaps : src.toNat < dst.toNat) (fits : dst.toNat + n ≤ 2 ^ 32) {memory : Memory}
    (same : ∀ a : UInt32, low ≤ a.toNat → a.toNat < dst.toNat → memory a = byte) {a : UInt32}
    (above : low ≤ a.toNat) (until_ : a.toNat < dst.toNat + n) :
    copyForward n dst src memory a = byte := by
  induction n generalizing dst src memory with
  | zero => exact same a above until_
  | succ n induction =>
    have sameNow : ∀ a : UInt32, low ≤ a.toNat → a.toNat < dst.toNat + 1 →
        update memory dst (memory src) a = byte := by
      intro a above until_
      by_cases here : a = dst
      · rw [here, update_self, same src below overlaps]
      · rw [update_of_ne here]
        have different : a.toNat ≠ dst.toNat := fun equal => here (UInt32.toNat_inj.mp equal)
        exact same a above (by omega)
    rw [copyForward]
    cases n with
    | zero => exact sameNow a above until_
    | succ n =>
      have dstNext := @toNat_add_ofNat dst 1 (by omega)
      have srcNext := @toNat_add_ofNat src 1 (by omega)
      change (dst + 1).toNat = _ at dstNext
      change (src + 1).toNat = _ at srcNext
      exact induction (by omega) (by omega) (by omega)
        (fun a above until_ => sameNow a above (by omega)) (by omega)

theorem Kernel.memmove_eq {n : UInt32} (memory : Memory) (fits : Fits dst src n.toNat) :
    Kernel.memmove dst src n memory = (dst, moved memory dst src 0 n.toNat) := by
  have dstBound := fits.dst
  have sum := UInt32.toNat_add src n
  unfold Kernel.memmove
  split
  · rename_i overlaps
    have backward := copyBackward_eq memory fits (Nat.le_of_lt overlaps.1) (Nat.le_refl _)
    rw [moved_nothing, UInt32.ofNat_toNat] at backward
    rw [backward]
  · rename_i apart
    rw [gt_iff_lt, UInt32.lt_iff_toNat_lt, UInt32.lt_iff_toNat_lt] at apart
    rw [copyForward_moved memory fits (by omega)]

end

/-- `memmove` of the kernel moves the bytes, however the ranges overlap. That of `ulib.c` does
the same, whatever the memory holds, exactly if its destination does not start inside of its
source. -/
theorem memmoves_agree (dst src : UInt32) :
    (∀ (n : UInt32) (memory : Memory), Fits dst src n.toNat →
      Kernel.memmove dst src n memory = (dst, moved memory dst src 0 n.toNat)) ∧
    ∀ n : Int32, 0 ≤ n → Fits dst src n.toInt.toNat →
      ((∀ memory, User.memmove dst src n memory = (dst, moved memory dst src 0 n.toInt.toNat) ∧
        User.memmove dst src n memory = Kernel.memmove dst src n.toUInt32 memory) ↔
      ¬(src.toNat < dst.toNat ∧ dst.toNat < src.toNat + n.toInt.toNat)) := by
  refine ⟨fun n memory fits => Kernel.memmove_eq memory fits, fun n nonneg fits => ⟨?_, ?_⟩⟩
  · rintro agree ⟨behind, inside⟩
    -- every byte below the destination is 0, and the other ones are 1
    let memory : Memory := fun a => if a.toNat < dst.toNat then 0 else 1
    have zero : ∀ a : UInt32, src.toNat ≤ a.toNat → a.toNat < dst.toNat → memory a = 0 :=
      fun a _ below => if_pos below
    have place := @toNat_add_ofNat dst (dst.toNat - src.toNat) (by have bound := fits.dst; omega)
    have repeated := copyForward_repeats le_rfl behind fits.dst zero
      (place ▸ behind.le.trans (Nat.le_add_right ..)) (place.trans_lt (by omega))
    have source : src + UInt32.ofNat (dst.toNat - src.toNat) = dst := by
      have bound := dst.toNat_lt
      apply UInt32.toNat_inj.mp
      rw [toNat_add_ofNat (by omega)]
      omega
    have copied := congrFun (congrArg Prod.snd (agree memory).1)
      (dst + UInt32.ofNat (dst.toNat - src.toNat))
    dsimp only [User.memmove] at copied
    rw [repeated, moved, place, if_pos (by omega), UInt32.add_comm dst,
      UInt32.add_sub_cancel, source] at copied
    exact absurd (copied.trans (if_neg (Nat.lt_irrefl _))) (by decide)
  · intro apart memory
    have user : User.memmove dst src n memory = (dst, moved memory dst src 0 n.toInt.toNat) := by
      rw [User.memmove, copyForward_moved memory fits (by omega)]
    have count : n.toUInt32.toNat = n.toInt.toNat := Int32.toNat_toUInt32_of_le nonneg
    rw [← count] at fits
    rw [user, Kernel.memmove_eq memory fits, count]
    exact ⟨rfl, rfl⟩

/-- Two bytes are moved down by one, as in the buffer of `grep`. -/
theorem memmoves_agree_down :
    User.memmove 0 1 2 UInt32.toUInt8 = (0, moved UInt32.toUInt8 0 1 0 2) ∧
      moved UInt32.toUInt8 0 1 0 2 1 = 2 :=
  ⟨(((memmoves_agree 0 1).2 2 (by decide) ⟨by decide, by decide⟩).mpr (by decide)
    UInt32.toUInt8).1, by decide⟩

/-- Two bytes are moved up by one: the second of them is overwritten before it is read. -/
theorem memmoves_differ_up :
    Fits 1 0 2 ∧ (User.memmove 1 0 2 UInt32.toUInt8).2 2 = 0 ∧
      (Kernel.memmove 1 0 2 UInt32.toUInt8).2 2 = 1 ∧ moved UInt32.toUInt8 1 0 0 2 2 = 1 :=
  ⟨⟨by decide, by decide⟩, by decide, by decide, by decide⟩

end Xv6.Memmove
