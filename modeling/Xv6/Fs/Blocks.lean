import Xv6.Fs.Consistency

/-! # The block allocator

`balloc` finds the first block whose bit is clear, and `bfree` clears the bit of
a block. Neither disturbs an inode, since the areas of the disk do not overlap.
-/

namespace Xv6.Fs

open Program

variable {b other : Nat}

namespace Store

variable {store next : Store}

/-! ## Writes that leave the inodes alone -/

def putBlock (store : Store) (b : Nat) (data : Block) : Store :=
  { store with blocks := Function.update store.blocks b data }

@[simp] theorem putBlock_sb (b : Nat) (data : Block) : (store.putBlock b data).sb = store.sb := rfl

theorem putBlock_blocks_of_ne (different : other ≠ b) (data : Block) :
    (store.putBlock b data).blocks other = store.blocks other :=
  Function.update_of_ne different ..

@[simp] theorem putBlock_blocks_self (b : Nat) (data : Block) :
    (store.putBlock b data).blocks b = data :=
  Function.update_self ..

/-- Only blocks that hold neither inodes nor the superblock differ. -/
structure KeepsInodes (store next : Store) : Prop where
  sb : next.sb = store.sb
  icache : next.icache = store.icache
  devsw : next.devsw = store.devsw
  superblock : next.blocks 1 = store.blocks 1
  dinode : ∀ inum, inum < store.sb.ninodes → next.dinode inum = store.dinode inum

namespace KeepsInodes

theorem refl (store : Store) : KeepsInodes store store :=
  ⟨rfl, rfl, rfl, rfl, fun _ _ => rfl⟩

theorem trans {final : Store} (first : KeepsInodes store next) (second : KeepsInodes next final) :
    KeepsInodes store final where
  sb := second.sb.trans first.sb
  icache := second.icache.trans first.icache
  devsw := second.devsw.trans first.devsw
  superblock := second.superblock.trans first.superblock
  dinode := fun inum bound =>
    (second.dinode inum (by rw [first.sb]; exact bound)).trans (first.dinode inum bound)

theorem inode (keeps : KeepsInodes store next) {inum : Nat} (bound : inum < store.sb.ninodes) :
    next.inode inum = store.inode inum :=
  inode_congr keeps.icache (keeps.dinode inum bound)

theorem sameInodes (keeps : KeepsInodes store next) : SameInodes store next where
  sb := keeps.sb
  inode := fun inum _ bound => by
    rw [keeps.inode bound]
    exact ⟨rfl, rfl, rfl⟩

theorem holds (keeps : KeepsInodes store next) (ip : Fin NINODE) :
    next.Holds ip ↔ store.Holds ip := by
  rw [Holds, Holds, keeps.icache]

theorem cacheValid (keeps : KeepsInodes store next) (cache : store.CacheValid) :
    next.CacheValid := by
  refine ⟨?_, ?_, ?_⟩
  · rw [keeps.icache]
    exact cache.single
  · rw [keeps.icache, keeps.sb]
    exact cache.range
  · intro ip holds
    rw [keeps.icache]
    exact cache.typed ip ((keeps.holds ip).mp holds)

theorem sound (keeps : KeepsInodes store next) (sound : store.Sound) : next.Sound where
  valid := keeps.sb ▸ sound.valid
  superblock := by rw [keeps.superblock, keeps.sb, sound.superblock]
  cache := keeps.cacheValid sound.cache

end KeepsInodes

theorem putBlock_keepsInodes (notSuperblock : b ≠ 1)
    (noInodes : ∀ inum, inum < store.sb.ninodes → store.sb.iblock inum ≠ b) (data : Block) :
    KeepsInodes store (store.putBlock b data) where
  sb := rfl
  icache := rfl
  devsw := rfl
  superblock := putBlock_blocks_of_ne notSuperblock.symm data
  dinode := fun inum bound => by
    simp only [dinode, putBlock_sb, putBlock_blocks_of_ne (noInodes inum bound) data]

theorem Sound.keeps_data (sound : store.Sound) (isData : store.sb.nmeta ≤ b)
    (data : Block) : KeepsInodes store (store.putBlock b data) := by
  have first := sound.valid.one_lt_nmeta
  apply putBlock_keepsInodes (by omega)
  intro inum bound
  have before := sound.valid.iblock_lt_nmeta bound
  omega

theorem Sound.keeps_bitmap (sound : store.Sound) (b : Nat) (data : Block) :
    KeepsInodes store (store.putBlock (store.sb.bblock b) data) := by
  apply putBlock_keepsInodes (sound.valid.bblock_ne_one b)
  intro inum bound
  have before := sound.valid.iblock_lt_bblock bound b
  omega

theorem putBlock_bit {data : Block} (value : Bool)
    (changed : ∀ index, index < BPB → data.bit index =
      if index = b % BPB then value else (store.blocks (store.sb.bblock b)).bit index)
    (other : Nat) :
    (store.putBlock (store.sb.bblock b) data).marked other =
      if other = b then value else store.marked other := by
  have bound : other % BPB < BPB := Nat.mod_lt _ (by decide)
  simp only [marked, putBlock_sb]
  by_cases sameBlock : store.sb.bblock other = store.sb.bblock b
  · have quotient : other / BPB = b / BPB := by
      simpa only [Superblock.bblock, Nat.add_right_cancel_iff] using sameBlock
    have sameIff : other % BPB = b % BPB ↔ other = b := by
      simp only [BPB, BSIZE] at quotient ⊢
      omega
    rw [sameBlock, putBlock_blocks_self, changed _ bound]
    simp only [sameIff]
  · have different : other ≠ b := fun equal => sameBlock (equal ▸ rfl)
    rw [putBlock_blocks_of_ne sameBlock, if_neg different]

/-! ## Handing out a block -/

/-- The state after `balloc` has returned `b`. -/
def allocate (store : Store) (b : Nat) : Store :=
  (store.putBlock (store.sb.bblock b)
    ((store.blocks (store.sb.bblock b)).setBit (b % BPB))).putBlock b (Bytes.zero BSIZE)

theorem bit_fits (b : Nat) : b % BPB / 8 < BSIZE := by
  simp only [BPB, BSIZE]
  omega

theorem allocate_keepsInodes (sound : store.Sound) (isData : store.sb.nmeta ≤ b) :
    KeepsInodes store (store.allocate b) := by
  have first := sound.keeps_bitmap b ((store.blocks (store.sb.bblock b)).setBit (b % BPB))
  exact first.trans ((first.sound sound).keeps_data isData _)

theorem allocate_blocks (different : other ≠ b) (isData : store.sb.nmeta ≤ other)
    (inside : b < store.sb.size) :
    (store.allocate b).blocks other = store.blocks other := by
  have before := Superblock.bblock_lt_nmeta inside
  rw [allocate, putBlock_blocks_of_ne different, putBlock_blocks_of_ne (by omega)]

@[simp] theorem allocate_blocks_self (b : Nat) : (store.allocate b).blocks b = Bytes.zero BSIZE :=
  putBlock_blocks_self ..

@[simp] theorem allocate_sb (b : Nat) : (store.allocate b).sb = store.sb := rfl

theorem putBlock_marked (isData : store.sb.nmeta ≤ b) (inside : other < store.sb.size)
    (data : Block) :
    (store.putBlock b data).marked other = store.marked other := by
  have before := Superblock.bblock_lt_nmeta inside
  simp only [marked, putBlock_sb]
  rw [putBlock_blocks_of_ne (by omega)]

theorem allocate_marked (isData : store.sb.nmeta ≤ b) (inside : other < store.sb.size) :
    (store.allocate b).marked other = (decide (other = b) || store.marked other) := by
  have bits := Bytes.bit_setBit (store.blocks (store.sb.bblock b)) (b % BPB)
  have marks : (store.putBlock (store.sb.bblock b)
      ((store.blocks (store.sb.bblock b)).setBit (b % BPB))).marked other =
      if other = b then true else store.marked other := by
    apply putBlock_bit
    intro index _
    rw [bits index (bit_fits b)]
    by_cases same : index = b % BPB <;> simp [same]
  rw [allocate, putBlock_marked, marks]
  · by_cases same : other = b <;> simp [same]
  · exact isData
  · exact inside

/-- A fresh block is at no place, so the numbers at places are unchanged. -/
theorem allocate_number (sound : store.Sound) (exact : store.Exact) (inside : b < store.sb.size)
    (unmarked : store.marked b = false) (place : Place) :
    (store.allocate b).number place = store.number place := by
  have isData := exact.nmeta_le_of_unmarked inside unmarked
  apply (allocate_keepsInodes sound isData).sameInodes.number
  intro inum present
  have table : store.number (.indirect inum) ≠ 0 := present
  exact allocate_blocks (exact.ne_of_unmarked unmarked table) (exact.data table).1 inside

/-! ## Free blocks -/

def freeBlocks (store : Store) : Nat :=
  ((Finset.range store.sb.size).filter fun b => store.marked b = false).card

theorem exists_unmarked (positive : 0 < store.freeBlocks) :
    ∃ b, b < store.sb.size ∧ store.marked b = false := by
  rcases Finset.card_pos.mp positive with ⟨b, member⟩
  simp only [Finset.mem_filter, Finset.mem_range] at member
  exact ⟨b, member⟩

theorem freeBlocks_congr (sameSb : next.sb = store.sb)
    (sameMarks : ∀ b, b < store.sb.size → next.marked b = store.marked b) :
    next.freeBlocks = store.freeBlocks := by
  unfold freeBlocks
  rw [sameSb]
  congr 1
  apply Finset.filter_congr
  intro b member
  rw [sameMarks b (Finset.mem_range.mp member)]

theorem allocate_freeBlocks (isData : store.sb.nmeta ≤ b) (inside : b < store.sb.size)
    (unmarked : store.marked b = false) :
    (store.allocate b).freeBlocks + 1 = store.freeBlocks := by
  have erased : ((Finset.range store.sb.size).filter fun other =>
      (store.allocate b).marked other = false) =
      ((Finset.range store.sb.size).filter fun other => store.marked other = false).erase b := by
    ext other
    simp only [Finset.mem_filter, Finset.mem_range, Finset.mem_erase]
    constructor
    · rintro ⟨otherInside, clear⟩
      rw [allocate_marked isData otherInside] at clear
      simp only [Bool.or_eq_false_iff, decide_eq_false_iff_not] at clear
      exact ⟨clear.1, otherInside, clear.2⟩
    · rintro ⟨different, otherInside, clear⟩
      rw [allocate_marked isData otherInside]
      simp [different, clear, otherInside]
  have member : b ∈ (Finset.range store.sb.size).filter fun other =>
      store.marked other = false := by
    simp [inside, unmarked]
  rw [freeBlocks, allocate_sb, erased, freeBlocks]
  exact Finset.card_erase_add_one member

end Store

/-! ## What `balloc` does -/

/-- What the call of `balloc` that returned `b` adds to the record. -/
def allocationEvents (store : Store) (b : Nat) : List Event :=
  [.balloc store b, .logWrite b, .logWrite (store.sb.bblock b)]

private theorem ballocFrom_meets (state : State) {fails : Panic → Prop} : ∀ (count base : Nat),
    base % BPB = 0 → state.sb.size ≤ base + count * BPB →
    (fails .outOfBlocks ∨ ∃ b, base ≤ b ∧ b < state.sb.size ∧ state.marked b = false) →
    Meets (ballocFrom count base) state fails fun b next =>
      b < state.sb.size ∧ state.marked b = false ∧ next = { state with
        toStore := state.allocate b
        events := [.logWrite b, .logWrite (state.sb.bblock b)] ++ state.events }
  | 0, base, _, covered, free => free.resolve_right fun ⟨b, above, inside, _⟩ => by omega
  | count + 1, base, aligned, covered, free => by
      by_cases bound : base < state.sb.size
      · have sameBlock : ∀ bi, bi < BPB → state.sb.bblock (base + bi) = state.sb.bblock base ∧
            (base + bi) % BPB = bi := by
          intro bi small
          simp only [Superblock.bblock, BPB, BSIZE] at *
          omega
        simp only [ballocFrom, meets_bind, meets_get, bound, if_true, bread, meets_pure]
        split
        · rename_i bi found
          have clear := List.find?_some found
          have member := List.mem_of_find?_eq_some found
          simp only [Bool.not_eq_true'] at clear
          simp only [List.mem_range, Nat.lt_min] at member
          rcases sameBlock bi member.1 with ⟨block, offset⟩
          refine ⟨by omega, ?_, ?_⟩
          · rw [Store.marked, block, offset]
            exact clear
          · simp only [Store.allocate, block, offset]
            rfl
        · rename_i missing
          -- a free block is not covered by this bit map block
          have beyond : fails .outOfBlocks ∨
              ∃ b, base + BPB ≤ b ∧ b < state.sb.size ∧ state.marked b = false := by
            refine free.imp_right ?_
            rintro ⟨b, above, inside, unmarked⟩
            refine ⟨b, Nat.le_of_not_lt fun small => ?_, inside, unmarked⟩
            have refuted := List.find?_eq_none.mp missing (b - base)
              (by simp only [List.mem_range, Nat.lt_min]; omega)
            rcases sameBlock (b - base) (by omega) with ⟨block, offset⟩
            rw [show base + (b - base) = b by omega] at block offset
            rw [Store.marked, block, offset] at unmarked
            simp [unmarked] at refuted
          refine ballocFrom_meets state count (base + BPB) ?_ ?_ beyond
          · rw [Nat.add_mod_right]
            exact aligned
          · rw [Nat.add_assoc, Nat.add_comm BPB, ← Nat.succ_mul]
            exact covered
      · simp only [ballocFrom, meets_bind, meets_get, bound, if_false, meets_throw]
        exact free.resolve_right fun ⟨b, above, inside, _⟩ => by omega

/-- `balloc` finds a free block, if there is one. -/
theorem balloc_meets {state : State} {fails : Panic → Prop}
    (free : fails .outOfBlocks ∨ ∃ b, b < state.sb.size ∧ state.marked b = false) :
    Meets balloc state fails fun b next =>
      b < state.sb.size ∧ state.marked b = false ∧ next = { state with
        toStore := state.allocate b
        events := allocationEvents state.toStore b ++ state.events } := by
  have covered : state.sb.size ≤ 0 + (state.sb.size / BPB + 1) * BPB := by
    simp only [BPB, BSIZE]
    omega
  simp only [balloc, meets_bind, meets_get]
  refine Meets.imp (ballocFrom_meets state _ 0 (Nat.zero_mod _) covered (free.imp_right ?_)) ?_
  · rintro ⟨b, inside, unmarked⟩
    exact ⟨b, Nat.zero_le b, inside, unmarked⟩
  · rintro block next ⟨within, clear, rfl⟩
    exact ⟨within, clear, rfl⟩

/-! ## Taking a block back -/

namespace Store

variable {store : Store}

/-- The state after `bfree`. -/
def release (store : Store) (b : Nat) : Store :=
  store.putBlock (store.sb.bblock b) ((store.blocks (store.sb.bblock b)).clearBit (b % BPB))

theorem release_keepsInodes (sound : store.Sound) (b : Nat) :
    KeepsInodes store (store.release b) :=
  sound.keeps_bitmap b _

theorem release_marked (b other : Nat) :
    (store.release b).marked other = (!decide (other = b) && store.marked other) := by
  rw [release, putBlock_bit false]
  · by_cases same : other = b <;> simp [same]
  · intro index _
    rw [Bytes.bit_clearBit _ _ _ (bit_fits b)]
    by_cases same : index = b % BPB <;> simp [same]

theorem release_blocks (inside : b < store.sb.size)
    (isData : store.sb.nmeta ≤ other) : (store.release b).blocks other = store.blocks other := by
  have before := Superblock.bblock_lt_nmeta inside
  exact putBlock_blocks_of_ne (by omega) _

end Store

theorem bfree_returns {state : State} (sound : state.Sound) (isMarked : state.marked b = true) :
    Returns (bfree b) state fun _ next => next = { state with
      toStore := state.release b
      events := .logWrite (state.sb.bblock b) :: state.events } := by
  simp only [Returns, bfree, readsb, bread, meets_bind, meets_get, meets_pure, meets_modify,
    sound.superblock]
  rw [if_pos (show (state.blocks (state.sb.bblock b)).bit (b % BPB) = true from isMarked)]
  rfl

end Xv6.Fs
