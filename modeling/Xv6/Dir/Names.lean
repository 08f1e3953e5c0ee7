import Xv6.Dir.Lookup

/-! # Directories as maps

A directory whose entries have different names is a map from names, cut to DIRSIZ
bytes, to inode numbers. `dirlookup` looks a name up in this map, `dirlink` inserts a
name, and clearing an entry, as `sys_unlink` does, deletes one.

The functions are used here with any inode layer that reads and writes the data of
the directory as a list of bytes.
-/

namespace Xv6.Dir

open Fs (MAXFILE)

/-! ## Names -/

/-- The part of a name that counts. -/
def key (name : List UInt8) : List UInt8 := nameOf DIRSIZ name

/-- The loops of `strncpy`: up to and including the first zero, and the padding. -/
def strncpyLoop : (n : Nat) → (t : List UInt8) → List UInt8
  | 0, _ => []
  | n + 1, t =>
      if t.headD 0 = 0 then 0 :: List.replicate n 0 else t.headD 0 :: strncpyLoop n t.tail

theorem strncpy_eq_nameOf (t : List UInt8) (n : Nat) :
    strncpy t n = nameOf n t ++ List.replicate (n - (nameOf n t).length) 0 := rfl

theorem strncpyLoop_eq_strncpy : ∀ (n : Nat) (t : List UInt8), strncpyLoop n t = strncpy t n
  | 0, t => by simp [strncpyLoop, strncpy]
  | n + 1, t => by
      rw [strncpyLoop, strncpy_eq_nameOf, nameOf_succ]
      split
      · simp [List.replicate_succ]
      · rw [strncpyLoop_eq_strncpy n t.tail, strncpy_eq_nameOf, List.cons_append, List.length_cons,
          Nat.add_sub_add_right]

theorem key_strncpy (name : List UInt8) : key (strncpy name DIRSIZ) = key name :=
  nameOf_strncpy name DIRSIZ

/-! ## The map of a directory -/

/-- The data of a directory in which no name occurs twice. -/
structure Directory (data : List UInt8) : Prop extends Shaped data where
  distinct : ∀ i j, entryAt data i ≠ 0 → entryAt data j ≠ 0 →
    key (nameAt data i) = key (nameAt data j) → i = j

def slotOf (data name : List UInt8) : Option Nat :=
  (List.range (slots data)).find? fun k => entryAt data k ≠ 0 ∧ key (nameAt data k) = name

def names (data : List UInt8) (name : List UInt8) : Option Nat :=
  (slotOf data name).map (entryAt data)

def Full (data : List UInt8) : Prop :=
  (∀ k, k < slots data → entryAt data k ≠ 0) ∧ MAXFILE * BSIZE < data.length + DIRENTSIZE

section

variable {data name : List UInt8} {k inum : Nat}

theorem matches_iff : Matches data name k ↔ entryAt data k ≠ 0 ∧ key (nameAt data k) = key name := by
  rw [Matches, namecmp_eq_zero]
  exact and_congr_right fun _ => eq_comm

theorem slotOf_eq_none (shaped : Shaped data) :
    slotOf data (key name) = none ↔ ∀ k, ¬Matches data name k := by
  rw [slotOf, List.find?_eq_none]
  constructor
  · intro missing k matched
    have inside := lt_slots_of_entryAt shaped.aligned matched.1
    refine missing k (List.mem_range.mpr inside) ?_
    simpa using matches_iff.mp matched
  · intro missing k _ found
    exact missing k (matches_iff.mpr (by simpa using found))

theorem Directory.slotOf_eq_some (directory : Directory data) :
    slotOf data (key name) = some k ↔ Matches data name k := by
  constructor
  · intro found
    exact matches_iff.mpr (by simpa using List.find?_some found)
  · intro matched
    cases found : slotOf data (key name) with
    | none => exact absurd matched ((slotOf_eq_none directory.toShaped).mp found k)
    | some other =>
      have isOther := matches_iff.mp matched
      have own : entryAt data other ≠ 0 ∧ key (nameAt data other) = key name := by
        simpa using List.find?_some found
      rw [directory.distinct other k own.1 isOther.1 (own.2.trans isOther.2.symm)]

theorem Directory.names_eq_some (directory : Directory data) {cut : List UInt8} :
    names data cut = some inum ↔
      ∃ k, entryAt data k ≠ 0 ∧ key (nameAt data k) = cut ∧ entryAt data k = inum := by
  rw [names, Option.map_eq_some_iff]
  constructor
  · rintro ⟨k, found, rfl⟩
    have own : entryAt data k ≠ 0 ∧ key (nameAt data k) = cut := by
      simpa using List.find?_some found
    exact ⟨k, own.1, own.2, rfl⟩
  · rintro ⟨k, used, rfl, rfl⟩
    refine ⟨k, directory.slotOf_eq_some.mpr (matches_iff.mpr ⟨used, rfl⟩), rfl⟩

/-! ## Changing one entry -/

theorem Directory.put (directory : Directory data) (bound : k ≤ slots data) {de : Dirent}
    (fits : de.Fits) (limit : DIRENTSIZE * k + DIRENTSIZE ≤ MAXFILE * BSIZE)
    (fresh : de.inum ≠ 0 → ∀ j, j ≠ k → entryAt data j ≠ 0 → key (nameAt data j) ≠ key de.name) :
    Directory (putEntry data k de) := by
  have entries := direntAt_putEntry directory.aligned bound fits
  refine ⟨⟨aligned_putEntry directory.aligned, ?_⟩, ?_⟩
  · rw [length_putEntry]
    exact Nat.max_le.mpr ⟨directory.bounded, limit⟩
  · intro i j first second same
    simp only [entryAt, nameAt, entries] at first second same
    by_cases isFirst : i = k
    · by_cases isSecond : j = k
      · exact isFirst.trans isSecond.symm
      · rw [if_pos isFirst] at first same
        rw [if_neg isSecond] at second same
        exact absurd same.symm (fresh first j isSecond second)
    · by_cases isSecond : j = k
      · rw [if_neg isFirst] at first same
        rw [if_pos isSecond] at second same
        exact absurd same (fresh second i isFirst first)
      · rw [if_neg isFirst] at first same
        rw [if_neg isSecond] at second same
        exact directory.distinct i j first second same

theorem Directory.insert (directory : Directory data) (bound : k ≤ slots data)
    (free : entryAt data k = 0) (limit : DIRENTSIZE * k + DIRENTSIZE ≤ MAXFILE * BSIZE)
    (missing : ∀ j, ¬Matches data name j) (nonzero : 0 < inum) (small : inum < 65536) :
    Directory (putEntry data k ⟨inum, strncpy name DIRSIZ⟩) ∧
      names (putEntry data k ⟨inum, strncpy name DIRSIZ⟩) =
        Function.update (names data) (key name) (some inum) := by
  have fits : Dirent.Fits ⟨inum, strncpy name DIRSIZ⟩ := ⟨small, strncpy_length _ _⟩
  have entries := direntAt_putEntry directory.aligned bound fits
  have changed : Directory (putEntry data k ⟨inum, strncpy name DIRSIZ⟩) := by
    refine directory.put bound fits limit fun _ j _ used same => missing j ?_
    exact matches_iff.mpr ⟨used, same.trans (key_strncpy name)⟩
  refine ⟨changed, funext fun cut => Option.ext fun target => ?_⟩
  rw [changed.names_eq_some, Function.update_apply]
  simp only [entryAt, nameAt, entries]
  split
  · rename_i own
    subst own
    constructor
    · rintro ⟨j, used, same, rfl⟩
      by_cases isNew : j = k
      · rw [if_pos isNew]
      · rw [if_neg isNew] at used same
        exact absurd (matches_iff.mpr ⟨used, same⟩) (missing j)
    · intro isInum
      cases isInum
      refine ⟨k, ?_⟩
      rw [if_pos rfl]
      exact ⟨Nat.pos_iff_ne_zero.mp nonzero, key_strncpy name, rfl⟩
  · rename_i other
    rw [directory.names_eq_some]
    constructor
    · rintro ⟨j, used, same, rfl⟩
      by_cases isNew : j = k
      · rw [if_pos isNew, key_strncpy] at same
        exact absurd same.symm other
      · rw [if_neg isNew] at used same ⊢
        exact ⟨j, used, same, rfl⟩
    · rintro ⟨j, used, same, rfl⟩
      have notNew : j ≠ k := fun isNew => used (isNew ▸ free)
      refine ⟨j, ?_⟩
      rw [if_neg notNew]
      exact ⟨used, same, rfl⟩

theorem Directory.delete (directory : Directory data) (matched : Matches data name k) :
    Directory (putEntry data k ⟨0, List.replicate DIRSIZ 0⟩) ∧
      names (putEntry data k ⟨0, List.replicate DIRSIZ 0⟩) =
        Function.update (names data) (key name) none := by
  have fits : Dirent.Fits ⟨0, List.replicate DIRSIZ 0⟩ := ⟨by decide, by decide⟩
  have inside := lt_slots_of_entryAt directory.aligned matched.1
  have bound := Nat.le_of_lt inside
  have own := matches_iff.mp matched
  have entries := direntAt_putEntry directory.aligned bound fits
  have limit : DIRENTSIZE * k + DIRENTSIZE ≤ MAXFILE * BSIZE := by
    have length := directory.length
    have bounded := directory.bounded
    simp only [DIRENTSIZE] at *
    omega
  have changed : Directory (putEntry data k ⟨0, List.replicate DIRSIZ 0⟩) :=
    directory.put bound fits limit fun impossible => absurd rfl impossible
  refine ⟨changed, funext fun cut => Option.ext fun target => ?_⟩
  rw [changed.names_eq_some, Function.update_apply]
  simp only [entryAt, nameAt, entries]
  split
  · rename_i isName
    subst isName
    refine ⟨?_, fun impossible => by cases impossible⟩
    rintro ⟨j, used, same, rfl⟩
    by_cases cleared : j = k
    · rw [if_pos cleared] at used
      exact absurd rfl used
    · rw [if_neg cleared] at used same
      exact absurd (directory.distinct j k used own.1 (same.trans own.2.symm)) cleared
  · rename_i other
    rw [directory.names_eq_some]
    constructor
    · rintro ⟨j, used, same, rfl⟩
      by_cases cleared : j = k
      · rw [if_pos cleared] at used
        exact absurd rfl used
      · rw [if_neg cleared] at used same ⊢
        exact ⟨j, used, same, rfl⟩
    · rintro ⟨j, used, same, rfl⟩
      have kept : j ≠ k := by
        rintro rfl
        exact other (same.symm.trans own.2)
      refine ⟨j, ?_⟩
      rw [if_neg kept]
      exact ⟨used, same, rfl⟩

end

end Xv6.Dir
