import Xv6.Dir.SysFile

/-! # The entries of a directory

The data of a directory as a sequence of entries, what writing an entry does to
it, and the comparison of names.
-/

namespace Xv6.Dir

open Fs (overlay)

/-! ## Entries in the data of a directory -/

def direntAt (data : List UInt8) (k : Nat) : Dirent :=
  Dirent.load ((data.drop (DIRENTSIZE * k)).take DIRENTSIZE)

/-- The inode number of an entry, zero if the entry is not in use. -/
def entryAt (data : List UInt8) (k : Nat) : Nat := (direntAt data k).inum

def nameAt (data : List UInt8) (k : Nat) : List UInt8 := (direntAt data k).name

def slots (data : List UInt8) : Nat := data.length / DIRENTSIZE

/-- Write an entry over the one in a slot, or after the last one. -/
def putEntry (data : List UInt8) (k : Nat) (de : Dirent) : List UInt8 :=
  overlay data (fun index => de.store.getD index 0) (DIRENTSIZE * k) DIRENTSIZE

/-- An entry as it is stored: the number fits, and the name fills its field. -/
structure Dirent.Fits (de : Dirent) : Prop where
  inum : de.inum < 65536
  name : de.name.length = DIRSIZ

theorem Dirent.store_length {de : Dirent} (fits : de.Fits) : de.store.length = DIRENTSIZE := by
  simp [Dirent.store, fits.name]

theorem Dirent.load_store {de : Dirent} (fits : de.Fits) : Dirent.load de.store = de := by
  have low : (UInt8.ofNat de.inum).toNat + 256 * (UInt8.ofNat (de.inum / 256)).toNat = de.inum := by
    have bound := fits.inum
    simp only [UInt8.toNat_ofNat']
    omega
  have name : (de.store.drop 2).take DIRSIZ = de.name := by
    rw [Dirent.store, List.drop_succ_cons, List.drop_succ_cons, List.drop_zero, ← fits.name,
      List.take_length]
  unfold Dirent.load
  rw [name]
  simp only [Dirent.store, List.getD_cons_zero, List.getD_cons_succ, low]

theorem strncpy_length (t : List UInt8) (n : Nat) : (strncpy t n).length = n := by
  simp only [strncpy, List.length_append, List.length_take, List.length_replicate]
  omega

theorem length_putEntry (data : List UInt8) (k : Nat) (de : Dirent) :
    (putEntry data k de).length = max data.length (DIRENTSIZE * k + DIRENTSIZE) := by
  simp [putEntry, overlay]

theorem getElem?_putEntry {data : List UInt8} {k : Nat} {de : Dirent} (position : Nat) :
    (putEntry data k de)[position]? =
      if position < max data.length (DIRENTSIZE * k + DIRENTSIZE) then
        some (if DIRENTSIZE * k ≤ position ∧ position < DIRENTSIZE * k + DIRENTSIZE then
          de.store.getD (position - DIRENTSIZE * k) 0 else data.getD position 0)
      else none := by
  simp only [putEntry, overlay, List.getElem?_map]
  split
  · rename_i inside
    rw [List.getElem?_range inside, Option.map_some]
  · rename_i outside
    rw [List.getElem?_eq_none (by simpa using outside), Option.map_none]

section

variable {data : List UInt8} {k : Nat} {de : Dirent}

theorem direntAt_putEntry_self (fits : de.Fits) : direntAt (putEntry data k de) k = de := by
  have bytes : ((putEntry data k de).drop (DIRENTSIZE * k)).take DIRENTSIZE = de.store := by
    apply List.ext_getElem?
    intro position
    rw [List.getElem?_take, List.getElem?_drop, getElem?_putEntry]
    split
    · rename_i inside
      have stored : position < de.store.length := by rw [Dirent.store_length fits]; exact inside
      rw [if_pos (by omega), if_pos (by omega), Nat.add_sub_cancel_left,
        List.getD_eq_getElem?_getD, List.getElem?_eq_getElem stored, Option.getD_some]
    · rename_i outside
      rw [List.getElem?_eq_none]
      rw [Dirent.store_length fits]
      omega
  rw [direntAt, bytes, Dirent.load_store fits]

/-- An entry that is full, or after the one that is written, is not disturbed. -/
theorem direntAt_putEntry_of_apart (de : Dirent) {other : Nat} (different : other ≠ k)
    (apart : DIRENTSIZE * other + DIRENTSIZE ≤ data.length ∨
      data.length ≤ DIRENTSIZE * other ∧ k < other) :
    direntAt (putEntry data k de) other = direntAt data other := by
  have bytes : ((putEntry data k de).drop (DIRENTSIZE * other)).take DIRENTSIZE =
      (data.drop (DIRENTSIZE * other)).take DIRENTSIZE := by
    apply List.ext_getElem?
    intro position
    rw [List.getElem?_take, List.getElem?_take, List.getElem?_drop, List.getElem?_drop,
      getElem?_putEntry]
    simp only [DIRENTSIZE] at *
    split
    · rename_i inside
      have elsewhere : ¬(16 * k ≤ 16 * other + position ∧
          16 * other + position < 16 * k + 16) := by omega
      rw [if_neg elsewhere]
      split
      · have present : 16 * other + position < data.length := by omega
        rw [List.getD_eq_getElem?_getD, List.getElem?_eq_getElem present, Option.getD_some]
      · rw [List.getElem?_eq_none]
        omega
    · rfl
  rw [direntAt, bytes, direntAt]

section

variable (aligned : DIRENTSIZE ∣ data.length)
include aligned

/-- The other entries stay, also when the directory grows. -/
theorem direntAt_putEntry_of_ne (bound : k ≤ slots data) {other : Nat} (different : other ≠ k) :
    direntAt (putEntry data k de) other = direntAt data other := by
  refine direntAt_putEntry_of_apart de different ?_
  unfold slots at bound
  obtain ⟨count, length⟩ := aligned
  simp only [DIRENTSIZE] at *
  omega

theorem direntAt_putEntry (bound : k ≤ slots data) (fits : de.Fits) (other : Nat) :
    direntAt (putEntry data k de) other = if other = k then de else direntAt data other := by
  split
  · rename_i same
    rw [same, direntAt_putEntry_self fits]
  · rename_i different
    exact direntAt_putEntry_of_ne aligned bound different

theorem aligned_putEntry :
    DIRENTSIZE ∣ (putEntry data k de).length := by
  rw [length_putEntry]
  obtain ⟨count, length⟩ := aligned
  simp only [DIRENTSIZE] at *
  rcases Nat.le_total data.length (16 * k + 16) with larger | smaller
  · rw [Nat.max_eq_right larger]
    exact ⟨k + 1, by omega⟩
  · rw [Nat.max_eq_left smaller]
    exact ⟨count, length⟩

theorem entryAt_of_slots_le (outside : slots data ≤ k) :
    entryAt data k = 0 := by
  have empty : data.drop (DIRENTSIZE * k) = [] := by
    apply List.drop_eq_nil_of_le
    obtain ⟨count, length⟩ := aligned
    unfold slots at outside
    simp only [DIRENTSIZE] at *
    omega
  rw [entryAt, direntAt, empty]
  rfl

theorem lt_slots_of_entryAt (used : entryAt data k ≠ 0) :
    k < slots data := by
  by_contra outside
  exact used (entryAt_of_slots_le aligned (Nat.le_of_not_lt outside))

end

end

/-! ## Comparing names -/

/-- The characters of a string that `strncmp` looks at. -/
def nameOf (n : Nat) (p : List UInt8) : List UInt8 := (p.takeWhile (· ≠ 0)).take n

theorem nameOf_succ (n : Nat) (p : List UInt8) :
    nameOf (n + 1) p = if p.headD 0 = 0 then [] else p.headD 0 :: nameOf n p.tail := by
  cases p with
  | nil => rfl
  | cons first rest =>
    by_cases ends : first = 0
    · simp [nameOf, ends]
    · simp [nameOf, ends]

theorem strncmp_eq_zero : ∀ {n : Nat} {p q : List UInt8},
    strncmp n p q = 0 ↔ nameOf n p = nameOf n q
  | 0, p, q => by simp [strncmp, nameOf]
  | n + 1, p, q => by
      rw [strncmp, nameOf_succ, nameOf_succ]
      by_cases ends : p.headD 0 = 0
      · rw [if_neg (fun both => both.1 ends), if_pos ends, ends]
        split
        · rename_i other
          rw [other]
          simp
        · rename_i other
          have positive : (q.headD 0).toNat ≠ 0 := fun zero => other (UInt8.toNat_inj.mp zero)
          simp only [UInt8.toNat_zero, List.nil_eq, reduceCtorEq, iff_false]
          omega
      · by_cases same : p.headD 0 = q.headD 0
        · rw [if_pos ⟨ends, same⟩, if_neg ends, ← same, if_neg ends, List.cons.injEq,
            strncmp_eq_zero]
          simp
        · have differ : (p.headD 0).toNat ≠ (q.headD 0).toNat := fun equal =>
            same (UInt8.toNat_inj.mp equal)
          rw [if_neg (fun both => same both.2), if_neg ends]
          refine ⟨fun zero => absurd zero (by omega), ?_⟩
          split
          · simp
          · exact fun equal => absurd (List.cons.inj equal).1 same

theorem nameOf_strncpy (t : List UInt8) (n : Nat) : nameOf n (strncpy t n) = nameOf n t := by
  have nonzero : ∀ byte ∈ nameOf n t, decide (byte ≠ 0) = true := by
    intro byte member
    exact List.all_eq_true.mp List.all_takeWhile byte (List.mem_of_mem_take member)
  have copied : strncpy t n = nameOf n t ++ List.replicate (n - (nameOf n t).length) 0 := rfl
  have padding : (List.replicate (n - (nameOf n t).length) (0 : UInt8)).takeWhile
      (fun byte => decide (byte ≠ 0)) = [] := by
    cases n - (nameOf n t).length with
    | zero => rfl
    | succ count => rfl
  rw [copied]
  unfold nameOf at *
  rw [List.takeWhile_append_of_pos nonzero, padding, List.append_nil, List.take_take,
    Nat.min_self]

theorem namecmp_eq_zero {s t : List UInt8} :
    namecmp s t = 0 ↔ nameOf DIRSIZ s = nameOf DIRSIZ t := strncmp_eq_zero

/-! ## Counting names

The first two entries of a directory are for the directory itself and its
parent; the others are names of inodes. -/

/-- The number of names that the directory has for an inode. -/
def countNames (data : List UInt8) (inum : Nat) : Nat :=
  ((Finset.range (slots data)).filter fun k => 2 ≤ k ∧ entryAt data k = inum).card

theorem countNames_eq_sum {data : List UInt8} (aligned : DIRENTSIZE ∣ data.length) {inum : Nat}
    (nonzero : inum ≠ 0) {bound : Nat} (enough : slots data ≤ bound) :
    countNames data inum =
      ∑ k ∈ Finset.range bound, if 2 ≤ k ∧ entryAt data k = inum then 1 else 0 := by
  rw [countNames, ← Finset.card_filter]
  congr 1
  ext k
  simp only [Finset.mem_filter, Finset.mem_range]
  refine ⟨fun ⟨inside, name⟩ => ⟨by omega, name⟩, fun ⟨_, name⟩ => ⟨?_, name⟩⟩
  apply lt_slots_of_entryAt aligned
  rw [name.2]
  exact nonzero

theorem countNames_putEntry {data : List UInt8} (aligned : DIRENTSIZE ∣ data.length) {k : Nat}
    (bound : k ≤ slots data) {de : Dirent} (fits : de.Fits) {inum : Nat} (nonzero : inum ≠ 0) :
    countNames (putEntry data k de) inum + (if 2 ≤ k ∧ entryAt data k = inum then 1 else 0) =
      countNames data inum + if 2 ≤ k ∧ de.inum = inum then 1 else 0 := by
  let last := max (slots (putEntry data k de)) (slots data + 1)
  have entry : ∀ other, entryAt (putEntry data k de) other =
      if other = k then de.inum else entryAt data other := by
    intro other
    rw [entryAt, direntAt_putEntry aligned bound fits]
    split <;> rfl
  have inside : k ∈ Finset.range last := by
    rw [Finset.mem_range]
    omega
  rw [countNames_eq_sum (aligned_putEntry aligned) nonzero (show _ ≤ last by omega),
    countNames_eq_sum aligned nonzero (show _ ≤ last by omega),
    ← Finset.add_sum_erase _ _ inside, ← Finset.add_sum_erase (Finset.range last) _ inside]
  have rest : ∑ other ∈ (Finset.range last).erase k,
        (if 2 ≤ other ∧ entryAt (putEntry data k de) other = inum then 1 else 0) =
      ∑ other ∈ (Finset.range last).erase k,
        if 2 ≤ other ∧ entryAt data other = inum then 1 else 0 := by
    apply Finset.sum_congr rfl
    intro other member
    rw [entry, if_neg (Finset.ne_of_mem_erase member)]
  rw [rest, entry, if_pos rfl]
  omega

end Xv6.Dir
