import Xv6.Fs.BlockMap

/-! # Reading and writing files

The contents of a file are the bytes of its blocks up to its size. `readi` and
`writei` go through them block by block; where the blocks lie on the disk does
not show.
-/

namespace Xv6.Fs

open Program Store

variable {inum bn off m b : Nat} {store next middle : Store} {ip : Fin NINODE}

namespace Store

variable {store : Store}

/-- The contents of block `bn` of a file. A block that is missing counts as
zeros, which is what it gets when it is allocated. -/
def fileBlock (store : Store) (inum bn : Nat) : Block :=
  if store.number (.data inum bn) = 0 then Bytes.zero BSIZE
  else store.blocks (store.number (.data inum bn))

def fileByte (store : Store) (inum position : Nat) : UInt8 :=
  (store.fileBlock inum (position / BSIZE)).byteAt (position % BSIZE)

def contents (store : Store) (inum : Nat) : List UInt8 :=
  (List.range (store.inode inum).size.toNat).map (store.fileByte inum)

@[simp] theorem contents_length (inum : Nat) :
    (store.contents inum).length = (store.inode inum).size.toNat := by
  simp [contents]

theorem Holds.contents_length (holds : store.Holds ip) (cache : store.CacheValid) :
    (store.contents (store.icache ip).inum).length = (store.icache ip).copy.size.toNat := by
  rw [Store.contents_length, cache.inode_eq holds]

theorem bound_of_number (present : store.number (.data inum bn) ≠ 0) :
    bn < MAXFILE := by
  apply Nat.lt_of_not_le
  intro beyond
  apply present
  have notDirect : ¬bn < NDIRECT := by
    simp only [MAXFILE] at beyond
    omega
  rw [Place.data, if_neg notDirect, number]
  split
  · rfl
  · refine Eq.trans ?_ (Bytes.getLE_zero 4 BSIZE 0)
    apply Bytes.getLE_congr
    intro position _
    rw [Bytes.byteAt_zero, Bytes.byteAt_of_size_le]
    simp only [MAXFILE, NINDIRECT, NDIRECT, BSIZE] at *
    omega

end Store

/-! ## Reading -/

section

variable {state : State} {ip : Fin NINODE}

theorem addrAt_of_present (sound : state.Sound) (holds : state.Holds ip)
    (index : Fin (NDIRECT + 1))
    (present : state.number (.direct (state.icache ip).inum index) ≠ 0) :
    Returns (addrAt ip index) state fun b next =>
      b = state.number (.direct (state.icache ip).inum index) ∧ next = state := by
  have bound : index.val < NDIRECT + 1 := index.isLt
  have number : state.number (.direct (state.icache ip).inum index) =
      ((state.icache ip).copy.addrs index).toNat := by
    rw [number, addr_eq_copy sound.cache holds, Dinode.addr, dif_pos bound]
  have nonzero : (state.icache ip).copy.addrs index ≠ 0 := by
    intro zero
    rw [number, zero] at present
    exact present rfl
  simp only [Returns, addrAt, meets_bind, meets_get, nonzero, if_false, meets_pure, number,
    and_self]

/-- Where there is a block `bmap` only looks it up. -/
theorem bmap_of_present (sound : state.Sound) (holds : state.Holds ip)
    (present : state.number (.data (state.icache ip).inum bn) ≠ 0) :
    Returns (bmap ip bn) state fun b next =>
      b = state.number (.data (state.icache ip).inum bn) ∧ next = state := by
  have bound := bound_of_number present
  unfold bmap
  split
  · rename_i direct
    rw [Place.data, if_pos direct] at present ⊢
    exact addrAt_of_present sound holds ⟨bn, _⟩ present
  · rename_i beyond
    have inTable : bn - NDIRECT < NINDIRECT := by
      simp only [MAXFILE, NDIRECT] at *
      omega
    rw [Place.data, if_neg beyond] at present ⊢
    have table : state.addr (state.icache ip).inum NDIRECT ≠ 0 := by
      intro absent
      rw [number, if_pos absent] at present
      exact present rfl
    rw [number_entry table] at present ⊢
    rw [if_pos inTable, Returns, meets_bind]
    refine Meets.imp (addrAt_of_present sound holds (Fin.last NDIRECT) table) ?_
    rintro indirect next ⟨found, unchanged⟩
    change indirect = state.addr (state.icache ip).inum NDIRECT at found
    simp only [entryAt, bread, meets_bind, meets_get, meets_pure, found, unchanged]
    rw [if_neg present]
    exact ⟨rfl, rfl⟩

theorem chunk_position {index : Nat} (fits : m ≤ BSIZE - off % BSIZE) (inside : index < m) :
    (off + index) / BSIZE = off / BSIZE ∧ (off + index) % BSIZE = off % BSIZE + index := by
  simp only [BSIZE] at *
  omega

theorem readLoop_returns (sound : state.Sound) (holds : state.Holds ip) :
    ∀ passes left off, left ≤ passes →
      (∀ position, off ≤ position → position < off + left →
        state.number (.data (state.icache ip).inum (position / BSIZE)) ≠ 0) →
      Returns (readLoop ip passes left off) state fun data next =>
        data = (List.range left).map (fun index =>
          state.fileByte (state.icache ip).inum (off + index)) ∧ next = state
  | 0, left, off, bound, _ => by
      obtain rfl : left = 0 := by omega
      exact ⟨rfl, rfl⟩
  | passes + 1, left, off, bound, present => by
      unfold readLoop
      split
      · rename_i done
        subst done
        exact ⟨rfl, rfl⟩
      · rename_i more
        have room := Nat.mod_lt off (show 0 < BSIZE by decide)
        simp only [Returns, bread, meets_bind, meets_get, meets_pure]
        refine Meets.imp (bmap_of_present sound holds
          (present off (Nat.le_refl off) (by omega))) ?_
        rintro b next ⟨rfl, unchanged⟩
        rw [unchanged]
        generalize chunk : min left (BSIZE - off % BSIZE) = m
        refine Meets.imp (readLoop_returns sound holds passes (left - m) (off + m) (by omega)
          fun position lower upper => present position (by omega) (by omega)) ?_
        rintro rest final ⟨rfl, unchangedAfter⟩
        refine ⟨?_, unchangedAfter⟩
        have split : List.range left = List.range m ++ (List.range (left - m)).map (m + ·) := by
          rw [← List.range_add]
          congr 1
          omega
        rw [split, List.map_append, List.map_map]
        congr 1
        · apply List.map_congr_left
          intro index member
          rcases chunk_position (chunk ▸ Nat.min_le_right _ _) (List.mem_range.mp member) with
            ⟨block, position⟩
          have inBlock := present off (Nat.le_refl off) (by omega)
          rw [fileByte, block, position, fileBlock, if_neg inBlock]
        · simp only [Function.comp_def, Nat.add_assoc]

theorem Consistent.present (consistent : Consistent store) {position : Nat}
    (allocated : store.Allocated inum) (notDevice : (store.inode inum).type ≠ T_DEV)
    (inside : position < (store.inode inum).size.toNat) :
    store.number (.data inum (position / BSIZE)) ≠ 0 := by
  rw [consistent.sized inum allocated notDevice, blocksFor]
  simp only [BSIZE] at *
  omega

theorem Consistent.size_le (consistent : Consistent store) (allocated : store.Allocated inum)
    (notDevice : (store.inode inum).type ≠ T_DEV) :
    (store.inode inum).size.toNat ≤ MAXFILE * BSIZE := by
  apply Nat.le_of_not_lt
  intro large
  have present := consistent.present allocated notDevice large
  have bound := bound_of_number present
  rw [Nat.mul_div_cancel _ (show 0 < BSIZE by decide)] at bound
  exact Nat.lt_irrefl _ bound

theorem wraps_iff (off n : UInt32) :
    (off + n).toNat < off.toNat ↔ 2 ^ 32 ≤ off.toNat + n.toNat := by
  have offBound := off.toNat_lt
  have nBound := n.toNat_lt
  rw [UInt32.toNat_add]
  omega

/-- `readi` returns the bytes of the file from `off` on, and changes nothing. -/
theorem readi_returns (consistent : Consistent state.toStore) (holds : state.Holds ip)
    (notDevice : (state.icache ip).copy.type ≠ T_DEV) (off n : UInt32) :
    Returns (readi ip off n) state fun result next =>
      let data := state.contents (state.icache ip).inum
      let bytes := (data.drop off.toNat).take n.toNat
      result = (if data.length < off.toNat ∨ 2 ^ 32 ≤ off.toNat + n.toNat then (-1, [])
        else ((bytes.length : Int), bytes)) ∧ next = state := by
  have own := consistent.cache.inode_eq holds
  have allocated := consistent.cache.allocated holds
  have limit := consistent.size_le allocated (by rw [own]; exact notDevice)
  have present := fun position =>
    @Consistent.present _ _ consistent position allocated (by rw [own]; exact notDevice)
  simp only [own] at limit present
  simp only [Returns, readi, meets_bind, meets_get, notDevice, if_false,
    holds.contents_length consistent.cache, UInt32.lt_iff_toNat_lt, wraps_iff]
  generalize sizeEq : (state.icache ip).copy.size = size at *
  by_cases refused : size.toNat < off.toNat ∨ 2 ^ 32 ≤ off.toNat + n.toNat
  · simp only [if_pos refused]
    exact ⟨rfl, rfl⟩
  · simp only [if_neg refused]
    have accepted : off.toNat ≤ size.toNat ∧ off.toNat + n.toNat < 2 ^ 32 := by omega
    have sum : (off + n).toNat = off.toNat + n.toNat := by
      rw [UInt32.toNat_add, Nat.mod_eq_of_lt accepted.2]
    have rest : (size - off).toNat = size.toNat - off.toNat :=
      UInt32.toNat_sub_of_le _ _ (UInt32.le_iff_toNat_le.mpr accepted.1)
    generalize countEq : (if size.toNat < (off + n).toNat then size - off else n) = count
    have counted : count.toNat = min n.toNat (size.toNat - off.toNat) := by
      rw [← countEq]
      split <;> omega
    have small : count.toNat < 2 ^ 31 := by
      simp only [MAXFILE, NDIRECT, NINDIRECT, BSIZE] at limit
      omega
    have signed : count.toBitVec.toInt = count.toNat :=
      BitVec.toInt_eq_toNat_of_lt (by
        rw [UInt32.toNat_toBitVec]
        omega)
    rw [meets_bind]
    refine Meets.imp (readLoop_returns consistent.toSound holds count.toNat count.toNat off.toNat
      (Nat.le_refl _) fun position lower upper => present position (by omega)) ?_
    rintro data next ⟨rfl, unchanged⟩
    have bytes : ((state.contents (state.icache ip).inum).drop off.toNat).take n.toNat =
        (List.range count.toNat).map fun index =>
          state.fileByte (state.icache ip).inum (off.toNat + index) := by
      apply List.ext_getElem
      · simp only [List.length_take, List.length_drop, List.length_map, List.length_range, counted,
          holds.contents_length consistent.cache, sizeEq]
      · intro index _ _
        simp [contents, List.getElem_take, List.getElem_drop]
    refine ⟨?_, unchanged⟩
    rw [bytes, signed, List.length_map, List.length_range]

end

/-! ## Writing into a block of a file -/

namespace Store

variable {store : Store} {inum bn : Nat}

theorem Exact.table_ne_data (exact : store.Exact)
    (present : store.number (.data inum bn) ≠ 0) (other : Nat) :
    store.addr other NDIRECT ≠ store.number (.data inum bn) := fun equal =>
  Place.data_ne_indirect inum bn other (exact.number_inj present equal.symm)

theorem number_putData (sound : store.Sound) (exact : store.Exact)
    (present : store.number (.data inum bn) ≠ 0) (data : Block) (place : Place) :
    (store.putBlock (store.number (.data inum bn)) data).number place = store.number place := by
  apply (sound.keeps_data (exact.data present).1 data).sameInodes.number
  intro other _
  exact putBlock_blocks_of_ne (exact.table_ne_data present other) data

theorem marked_putData (exact : store.Exact) (present : store.number (.data inum bn) ≠ 0)
    (data : Block) (inside : b < store.sb.size) :
    (store.putBlock (store.number (.data inum bn)) data).marked b = store.marked b :=
  putBlock_marked (exact.data present).1 inside data

theorem exact_putData (sound : store.Sound) (exact : store.Exact)
    (present : store.number (.data inum bn) ≠ 0) (data : Block) :
    (store.putBlock (store.number (.data inum bn)) data).Exact := by
  refine Allocation.Exact.congr exact
    (fun place => holder_congr (number_putData sound exact present data place)) ?_
  intro b inside
  rw [marked_putData exact present data inside]

theorem freeBlocks_putData (exact : store.Exact) (present : store.number (.data inum bn) ≠ 0)
    (data : Block) :
    (store.putBlock (store.number (.data inum bn)) data).freeBlocks = store.freeBlocks :=
  freeBlocks_congr rfl fun _ inside => marked_putData exact present data inside

end Store

theorem Store.fileBlock_putData (sound : store.Sound) (exact : store.Exact)
    (present : store.number (.data inum bn) ≠ 0) (data : Block) (other index : Nat) :
    (store.putBlock (store.number (.data inum bn)) data).fileBlock other index =
      if other = inum ∧ index = bn then data else store.fileBlock other index := by
  simp only [fileBlock, number_putData sound exact present]
  by_cases same : other = inum ∧ index = bn
  · rcases same with ⟨rfl, rfl⟩
    simp [present]
  · rw [if_neg same]
    split
    · rfl
    · rename_i occupied
      have elsewhere : store.number (.data other index) ≠ store.number (.data inum bn) :=
        fun equal => same (Place.data_inj (exact.number_inj occupied equal))
      rw [putBlock_blocks_of_ne elsewhere]

/-- Allocating the blocks of a file does not show in its contents. -/
theorem Mapped.fileBlock (mapped : Mapped ip bn b store next) (inum index : Nat) :
    next.fileBlock inum index = store.fileBlock inum index := by
  unfold Store.fileBlock
  by_cases own : inum = (store.icache ip).inum ∧ index = bn
  · rcases own with ⟨rfl, rfl⟩
    rw [mapped.number, if_neg mapped.present]
    split
    · rename_i vacant
      exact mapped.fresh vacant
    · rename_i occupied
      have same := mapped.data _ _ occupied
      rw [mapped.kept occupied] at same ⊢
      exact same
  · rw [mapped.others inum index (by omega)]
    split
    · rfl
    · rename_i occupied
      exact mapped.data inum index occupied

/-- The bytes `src` has from `tot` on have been written to the positions from
`off` up to `off + left` of the file at `ip`. -/
structure Written (ip : Fin NINODE) (src : Nat → UInt8) (tot off left : Nat)
    (store next : Store) : Prop where
  frame : Store.Frame ip store next
  exact : next.Exact
  present : ∀ inum bn, next.number (.data inum bn) ≠ 0 ↔ store.number (.data inum bn) ≠ 0 ∨
    (inum = (store.icache ip).inum ∧ 0 < left ∧ off / BSIZE ≤ bn ∧ bn * BSIZE < off + left)
  kept : ∀ bn, store.number (.data (store.icache ip).inum bn) ≠ 0 →
    next.number (.data (store.icache ip).inum bn) =
      store.number (.data (store.icache ip).inum bn)
  table : next.number (.indirect (store.icache ip).inum) =
      store.number (.indirect (store.icache ip).inum) ∨
    (store.number (.indirect (store.icache ip).inum) = 0 ∧ 0 < left ∧
      NDIRECT * BSIZE < off + left)
  byte : ∀ inum position, next.fileByte inum position =
    if inum = (store.icache ip).inum ∧ off ≤ position ∧ position < off + left then
      src (tot + (position - off))
    else store.fileByte inum position

theorem Written.nothing (ip : Fin NINODE) (src : Nat → UInt8) (tot off : Nat)
    (exact : store.Exact) : Written ip src tot off 0 store store where
  frame := .refl ip store
  exact := exact
  present := by simp
  kept := fun _ _ => rfl
  table := Or.inl rfl
  byte := fun inum position => by
    rw [if_neg]
    omega

theorem Written.trans {src : Nat → UInt8} {tot rest : Nat}
    (first : Written ip src tot off m store middle)
    (second : Written ip src (tot + m) (off + m) rest middle next) (positive : 0 < m) :
    Written ip src tot off (m + rest) store next := by
  have inum := first.frame.inum ip
  refine ⟨first.frame.trans second.frame, second.exact, ?_, ?_, ?_, ?_⟩
  · intro other bn
    rw [second.present, first.present, inum]
    simp only [BSIZE] at *
    constructor
    · rintro ((old | early) | late)
      · exact Or.inl old
      · right
        omega
      · right
        omega
    · rintro (old | new)
      · exact Or.inl (Or.inl old)
      · by_cases early : bn * 512 < off + m
        · left
          right
          omega
        · right
          omega
  · intro bn occupied
    have early := first.kept bn occupied
    have late := second.kept bn (by rw [inum, early]; exact occupied)
    rw [inum] at late
    exact late.trans early
  · have late := second.table
    rw [inum] at late
    rcases first.table with early | ⟨vacant, _, beyond⟩
    · rw [early] at late
      rcases late with same | ⟨vacant, _, beyond⟩
      · exact Or.inl same
      · exact Or.inr ⟨vacant, by omega, by omega⟩
    · exact Or.inr ⟨vacant, by omega, by omega⟩
  · intro other position
    rw [second.byte, first.byte, inum]
    by_cases late : other = (store.icache ip).inum ∧ off + m ≤ position ∧
        position < off + m + rest
    · rw [if_pos late, if_pos (by omega)]
      congr 1
      omega
    · rw [if_neg late]
      by_cases early : other = (store.icache ip).inum ∧ off ≤ position ∧ position < off + m
      · rw [if_pos early, if_pos (by omega)]
      · rw [if_neg early, if_neg (by omega)]

/-- What one pass of the loop of `writei` does, once `bmap` has found the
block. -/
theorem Mapped.written {src : Nat → UInt8} {tot : Nat} (sound : store.Sound)
    (mapped : Mapped ip (off / BSIZE) b store middle) (positive : 0 < m)
    (fits : m ≤ BSIZE - off % BSIZE) :
    Written ip src tot off m store (middle.putBlock b ((middle.blocks b).splice (off % BSIZE)
      ((List.range m).map fun index => src (tot + index)))) := by
  have number := mapped.number
  have present : middle.number (.data (store.icache ip).inum (off / BSIZE)) ≠ 0 := by
    rw [number]
    exact mapped.present
  have middleSound := mapped.frame.sound sound
  have oldBlock : middle.blocks b = store.fileBlock (store.icache ip).inum (off / BSIZE) := by
    rw [← mapped.fileBlock, Store.fileBlock, if_neg present, number]
  generalize data : (middle.blocks b).splice (off % BSIZE)
    ((List.range m).map fun index => src (tot + index)) = block
  have numbers := number_putData middleSound mapped.exact present block
  have fileBlocks := fileBlock_putData middleSound mapped.exact present block
  rw [number] at numbers fileBlocks
  have room := Nat.mod_lt off (show 0 < BSIZE by decide)
  refine ⟨?_, ?_, ?_, ?_, ?_, ?_⟩
  · refine mapped.frame.trans (.of_keepsInodes ip (middleSound.keeps_data ?_ block))
    rw [← number]
    exact (mapped.exact.data present).1
  · rw [← number]
    exact exact_putData middleSound mapped.exact present block
  · intro inum bn
    rw [numbers]
    by_cases own : inum = (store.icache ip).inum ∧ bn = off / BSIZE
    · rcases own with ⟨rfl, rfl⟩
      refine ⟨fun _ => Or.inr ⟨rfl, positive, Nat.le_refl _, ?_⟩, fun _ => present⟩
      simp only [BSIZE] at *
      omega
    · rw [mapped.others inum bn (by omega)]
      refine ⟨Or.inl, fun known => known.resolve_right ?_⟩
      simp only [BSIZE] at *
      omega
  · intro bn occupied
    rw [numbers]
    by_cases own : bn = off / BSIZE
    · subst own
      rw [number, mapped.kept occupied]
    · exact mapped.others _ bn (Or.inr own)
  · rw [numbers]
    by_cases occupied : store.number (.indirect (store.icache ip).inum) = 0
    · by_cases direct : off / BSIZE < NDIRECT
      · have same := mapped.indirect
        simp only [if_pos direct, vacancy, occupied, if_true] at same
        left
        rw [occupied]
        by_contra changed
        rw [if_neg changed] at same
        cases same
      · right
        simp only [NDIRECT, BSIZE] at *
        omega
    · exact Or.inl (mapped.table occupied)
  · intro inum position
    rw [fileByte, fileBlocks, mapped.fileBlock]
    by_cases own : inum = (store.icache ip).inum ∧ position / BSIZE = off / BSIZE
    · have bound := Nat.mod_lt position (show 0 < BSIZE by decide)
      rw [if_pos own, ← data]
      by_cases inside : off ≤ position ∧ position < off + m
      · rw [if_pos ⟨own.1, inside⟩, Bytes.byteAt_splice_of_inside]
        · have index : position % BSIZE - off % BSIZE = position - off := by
            simp only [BSIZE] at *
            omega
          have within : position - off < m := by omega
          simp [index, List.getD_eq_getElem?_getD, within]
        all_goals simp only [List.length_map, List.length_range, BSIZE] at *; omega
      · rw [if_neg (fun new => inside new.2), Bytes.byteAt_splice_of_outside]
        · rw [oldBlock, fileByte, own.1, own.2]
        · simp only [List.length_map, List.length_range, BSIZE] at *
          omega
    · have notNew : ¬(inum = (store.icache ip).inum ∧ off ≤ position ∧ position < off + m) := by
        simp only [BSIZE] at *
        omega
      rw [if_neg own, if_neg notNew, fileByte]

/-! ## The blocks a write needs -/

/-- The number of blocks that have to be allocated for a write of `left` bytes
at `off`. -/
def Store.blocksNeeded (store : Store) (inum off left : Nat) : Nat :=
  if left = 0 then 0
  else ∑ bn ∈ Finset.Ico (off / BSIZE) (blocksFor (off + left)), store.vacancy (.data inum bn) +
    if NDIRECT < blocksFor (off + left) then store.vacancy (.indirect inum) else 0

theorem Store.mapCost_le_blocksNeeded (store : Store) (inum off : Nat) {left : Nat}
    (more : left ≠ 0) :
    store.mapCost inum (off / BSIZE) ≤ store.blocksNeeded inum off left := by
  have below : off / BSIZE < blocksFor (off + left) := by
    simp only [blocksFor, BSIZE]
    omega
  rw [blocksNeeded, if_neg more, Finset.sum_eq_sum_Ico_succ_bot below, mapCost]
  by_cases direct : off / BSIZE < NDIRECT
  · rw [if_pos direct]
    omega
  · rw [if_neg direct, if_pos (by omega)]
    omega

theorem Mapped.blocksNeeded {left : Nat} (mapped : Mapped ip (off / BSIZE) b store middle)
    (numbers : ∀ place, next.number place = middle.number place) (more : left ≠ 0)
    (chunk : m = min left (BSIZE - off % BSIZE)) :
    store.blocksNeeded (store.icache ip).inum off left =
      store.mapCost (store.icache ip).inum (off / BSIZE) +
        next.blocksNeeded (store.icache ip).inum (off + m) (left - m) := by
  have room := Nat.mod_lt off (show 0 < BSIZE by decide)
  have vacancies : ∀ place, next.vacancy place = middle.vacancy place := fun place => by
    rw [vacancy, numbers, vacancy]
  have below : off / BSIZE < blocksFor (off + left) := by
    simp only [blocksFor, BSIZE] at *
    omega
  rw [Store.blocksNeeded, if_neg more, Finset.sum_eq_sum_Ico_succ_bot below, Store.mapCost]
  by_cases done : left - m = 0
  · have last : blocksFor (off + left) = off / BSIZE + 1 := by
      simp only [blocksFor, BSIZE] at *
      omega
    rw [Store.blocksNeeded, if_pos done, last, Finset.Ico_self, Finset.sum_empty]
    by_cases direct : off / BSIZE < NDIRECT
    · rw [if_neg (by omega), if_pos direct]
      omega
    · rw [if_pos (by omega), if_neg direct]
      omega
  · have following : (off + m) / BSIZE = off / BSIZE + 1 := by
      simp only [BSIZE] at *
      omega
    have total : off + m + (left - m) = off + left := by omega
    have rest : ∑ bn ∈ Finset.Ico (off / BSIZE + 1) (blocksFor (off + left)),
        next.vacancy (.data (store.icache ip).inum bn) =
        ∑ bn ∈ Finset.Ico (off / BSIZE + 1) (blocksFor (off + left)),
          store.vacancy (.data (store.icache ip).inum bn) := by
      apply Finset.sum_congr rfl
      intro bn member
      have above := (Finset.mem_Ico.mp member).1
      rw [vacancies, vacancy, mapped.others _ _ (by omega), vacancy]
    rw [Store.blocksNeeded, if_neg done, following, total, rest, vacancies, mapped.indirect]
    have beyond : off / BSIZE + 1 < blocksFor (off + left) := by
      simp only [blocksFor, BSIZE] at *
      omega
    by_cases direct : off / BSIZE < NDIRECT
    · simp only [if_pos direct]
      omega
    · simp only [if_neg direct]
      rw [if_pos (by omega), if_pos (by omega)]
      omega

theorem writeLoop_meets (src : Nat → UInt8) {fails : Panic → Prop} :
    ∀ passes left tot off (state : State), left ≤ passes → state.Sound → state.Exact →
      state.Holds ip → off + left ≤ MAXFILE * BSIZE →
      (fails .outOfBlocks ∨
        state.blocksNeeded (state.icache ip).inum off left ≤ state.freeBlocks) →
      Meets (writeLoop ip src passes left tot off) state fails fun _ next =>
        Written ip src tot off left state.toStore next.toStore ∧ Records state next
  | 0, left, tot, off, state, bound, _, exact, _, _, _ => by
      obtain rfl : left = 0 := by omega
      exact ⟨.nothing ip src tot off exact, .refl state⟩
  | passes + 1, left, tot, off, state, bound, sound, exact, holds, limit, enough => by
      unfold writeLoop
      split
      · rename_i done
        subst done
        exact ⟨.nothing ip src tot off exact, .refl state⟩
      · rename_i more
        have room := Nat.mod_lt off (show 0 < BSIZE by decide)
        have inFile : off / BSIZE < MAXFILE := by
          simp only [MAXFILE, NDIRECT, NINDIRECT, BSIZE] at *
          omega
        generalize chunk : min left (BSIZE - off % BSIZE) = m
        have positive : 0 < m := by omega
        have split : m + (left - m) = left := by omega
        simp only [bread, logWrite, meets_bind, meets_get, meets_pure, meets_modify]
        have first := bmap_meets sound exact holds inFile
          (enough.imp_right (Nat.le_trans (state.mapCost_le_blocksNeeded _ off more)))
        refine Meets.imp first ?_
        rintro b middle ⟨mapped, recorded⟩
        generalize block : (middle.blocks b).splice (off % BSIZE)
          ((List.range m).map fun index => src (tot + index)) = data
        have written : Written ip src tot off m state.toStore (middle.putBlock b data) :=
          block ▸ mapped.written sound positive (chunk ▸ Nat.min_le_right _ _)
        have present : middle.number (.data (state.icache ip).inum (off / BSIZE)) ≠ 0 := by
          rw [mapped.number]
          exact mapped.present
        have numbers := number_putData (mapped.frame.sound sound) mapped.exact present data
        have free := freeBlocks_putData mapped.exact present data
        rw [mapped.number] at numbers free
        have need := mapped.blocksNeeded numbers more chunk.symm
        have cost := mapped.free
        refine Meets.imp (writeLoop_meets src passes (left - m) (tot + m) (off + m)
          { middle with
            toStore := middle.putBlock b data
            events := .logWrite b :: middle.events }
          (by omega) (written.frame.sound sound) written.exact ((written.frame.holds ip).mpr holds)
          (by omega) ?_) ?_
        · refine enough.imp_right fun known => ?_
          change (middle.putBlock b data).blocksNeeded ((middle.putBlock b data).icache ip).inum
            _ _ ≤ (middle.putBlock b data).freeBlocks
          rw [written.frame.inum, free]
          omega
        · rintro _ next ⟨rest, later⟩
          have whole := written.trans rest positive
          rw [split] at whole
          exact ⟨whole, (recorded.trans (.logWrite rfl)).trans later⟩

end Xv6.Fs
