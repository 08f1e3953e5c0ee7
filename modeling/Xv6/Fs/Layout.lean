import Xv6.Param

/-! # The on-disk format

The disk is divided into the boot block, the superblock, the log, the inode
blocks, the free bit map and the data blocks, in this order. An inode takes 64
bytes; its block numbers are twelve direct ones and that of an indirect block,
which holds the numbers of the remaining blocks.
-/

namespace Xv6.Fs

open Bytes

abbrev ROOTINO : Nat := 1

abbrev NDIRECT : Nat := 12

abbrev NINDIRECT : Nat := BSIZE / 4

abbrev MAXFILE : Nat := NDIRECT + NINDIRECT

/-- `sizeof(struct dinode)`. -/
abbrev DINODESIZE : Nat := 64

abbrev IPB : Nat := BSIZE / DINODESIZE

abbrev BPB : Nat := BSIZE * 8

abbrev T_DIR : Int16 := 1

abbrev T_FILE : Int16 := 2

abbrev T_DEV : Int16 := 3

/-! ## The superblock -/

structure Superblock where
  size : Nat
  nblocks : Nat
  ninodes : Nat
  nlog : Nat
  logstart : Nat
  inodestart : Nat
  bmapstart : Nat
  deriving DecidableEq

def Superblock.load (block : Block) : Superblock where
  size := block.getLE 4 0
  nblocks := block.getLE 4 4
  ninodes := block.getLE 4 8
  nlog := block.getLE 4 12
  logstart := block.getLE 4 16
  inodestart := block.getLE 4 20
  bmapstart := block.getLE 4 24

namespace Superblock

def iblock (sb : Superblock) (inum : Nat) : Nat := inum / IPB + sb.inodestart

def bblock (sb : Superblock) (b : Nat) : Nat := b / BPB + sb.bmapstart

/-- The number of blocks in front of the data blocks, as `mkfs` counts them. -/
def nmeta (sb : Superblock) : Nat := sb.bmapstart + sb.size / BPB + 1

/-- The areas lie behind one another in the order of the layout, and block
numbers fit into the `int` that `balloc` counts with. -/
structure Valid (sb : Superblock) : Prop where
  log : 2 ≤ sb.logstart
  inodes : sb.logstart + sb.nlog ≤ sb.inodestart
  bitmap : sb.inodestart + sb.ninodes / IPB + 1 ≤ sb.bmapstart
  data : sb.nmeta ≤ sb.size
  small : sb.size + BPB < 2 ^ 31

instance (sb : Superblock) : Decidable sb.Valid :=
  decidable_of_iff (2 ≤ sb.logstart ∧ sb.logstart + sb.nlog ≤ sb.inodestart ∧
      sb.inodestart + sb.ninodes / IPB + 1 ≤ sb.bmapstart ∧ sb.nmeta ≤ sb.size ∧
      sb.size + BPB < 2 ^ 31)
    ⟨fun ⟨log, inodes, bitmap, data, small⟩ => ⟨log, inodes, bitmap, data, small⟩,
      fun ⟨log, inodes, bitmap, data, small⟩ => ⟨log, inodes, bitmap, data, small⟩⟩

section

variable {sb : Superblock}

theorem Valid.iblock_lt_bblock (valid : sb.Valid) {inum : Nat} (inode : inum < sb.ninodes)
    (b : Nat) : sb.iblock inum < sb.bblock b := by
  have order := valid.bitmap
  have step : inum / IPB ≤ sb.ninodes / IPB := Nat.div_le_div_right (Nat.le_of_lt inode)
  simp only [iblock, bblock, IPB, BPB, DINODESIZE, BSIZE] at *
  omega

theorem Valid.iblock_lt_nmeta (valid : sb.Valid) {inum : Nat} (inode : inum < sb.ninodes) :
    sb.iblock inum < sb.nmeta := by
  have before := valid.iblock_lt_bblock inode 0
  simp only [bblock, nmeta, BPB, BSIZE] at *
  omega

theorem bblock_lt_nmeta {b : Nat} (block : b < sb.size) : sb.bblock b < sb.nmeta := by
  have step : b / BPB ≤ sb.size / BPB := Nat.div_le_div_right (Nat.le_of_lt block)
  simp only [bblock, nmeta, BPB, BSIZE] at *
  omega

theorem Valid.iblock_ne_one (valid : sb.Valid) (inum : Nat) : sb.iblock inum ≠ 1 := by
  have log := valid.log
  have inodes := valid.inodes
  simp only [iblock, IPB, DINODESIZE, BSIZE] at *
  omega

theorem Valid.bblock_ne_one (valid : sb.Valid) (b : Nat) : sb.bblock b ≠ 1 := by
  have log := valid.log
  have inodes := valid.inodes
  have bitmap := valid.bitmap
  simp only [bblock, IPB, BPB, DINODESIZE, BSIZE] at *
  omega

theorem Valid.one_lt_nmeta (valid : sb.Valid) : 1 < sb.nmeta := by
  have log := valid.log
  have inodes := valid.inodes
  have bitmap := valid.bitmap
  simp only [nmeta, IPB, BPB, DINODESIZE, BSIZE] at *
  omega

end

end Superblock

/-! ## Inodes -/

/-- `struct dinode`, which is also the part of `struct inode` that is a copy of
it. A block number zero means that there is no block. -/
@[ext] structure Dinode where
  type : Int16
  major : Int16
  minor : Int16
  nlink : Int16
  size : UInt32
  addrs : Fin (NDIRECT + 1) → UInt32
  deriving DecidableEq

/-- What `memset` leaves behind. -/
def Dinode.blank : Dinode := ⟨0, 0, 0, 0, 0, fun _ => 0⟩

def loadShort (block : Block) (offset : Nat) : Int16 :=
  (UInt16.ofNat (block.getLE 2 offset)).toInt16

def storeShort (block : Block) (offset : Nat) (value : Int16) : Block :=
  block.putLE 2 offset value.toUInt16.toNat

def loadUint (block : Block) (offset : Nat) : UInt32 :=
  UInt32.ofNat (block.getLE 4 offset)

def storeUint (block : Block) (offset : Nat) (value : UInt32) : Block :=
  block.putLE 4 offset value.toNat

def Dinode.load (block : Block) (offset : Nat) : Dinode where
  type := loadShort block offset
  major := loadShort block (offset + 2)
  minor := loadShort block (offset + 4)
  nlink := loadShort block (offset + 6)
  size := loadUint block (offset + 8)
  addrs := fun index => loadUint block (offset + 12 + 4 * index.val)

def Dinode.addr (dinode : Dinode) (index : Nat) : Nat :=
  if inside : index < NDIRECT + 1 then (dinode.addrs ⟨index, inside⟩).toNat else 0

def Dinode.store (dinode : Dinode) (block : Block) (offset : Nat) : Block :=
  let block := storeShort block offset dinode.type
  let block := storeShort block (offset + 2) dinode.major
  let block := storeShort block (offset + 4) dinode.minor
  let block := storeShort block (offset + 6) dinode.nlink
  let block := storeUint block (offset + 8) dinode.size
  block.putWords (offset + 12) dinode.addr (NDIRECT + 1)

theorem loadShort_storeShort (block : Block) (offset : Nat) (value : Int16)
    (fits : offset + 2 ≤ BSIZE) : loadShort (storeShort block offset value) offset = value := by
  rw [loadShort, storeShort, getLE_putLE_same _ _ _ _ fits]
  simp

theorem loadUint_storeUint (block : Block) (offset : Nat) (value : UInt32)
    (fits : offset + 4 ≤ BSIZE) : loadUint (storeUint block offset value) offset = value := by
  rw [loadUint, storeUint, getLE_putLE_same _ _ _ _ fits]
  simp

theorem Dinode.load_store (dinode : Dinode) (block : Block) (offset : Nat)
    (fits : offset + DINODESIZE ≤ BSIZE) : load (dinode.store block offset) offset = dinode := by
  simp only [DINODESIZE] at fits
  refine Dinode.ext ?_ ?_ ?_ ?_ ?_ (funext fun index => ?_)
  · simp only [load, loadShort, store, storeShort, storeUint]
    rw [getLE_putWords_of_outside _ _ _ _ _ _ (by omega)]
    repeat rw [getLE_putLE_of_disjoint _ _ _ _ _ _ (by omega)]
    exact loadShort_storeShort _ _ _ (by omega)
  · simp only [load, loadShort, store, storeShort, storeUint]
    rw [getLE_putWords_of_outside _ _ _ _ _ _ (by omega)]
    iterate 3 rw [getLE_putLE_of_disjoint _ _ _ _ _ _ (by omega)]
    exact loadShort_storeShort _ _ _ (by omega)
  · simp only [load, loadShort, store, storeShort, storeUint]
    rw [getLE_putWords_of_outside _ _ _ _ _ _ (by omega)]
    iterate 2 rw [getLE_putLE_of_disjoint _ _ _ _ _ _ (by omega)]
    exact loadShort_storeShort _ _ _ (by omega)
  · simp only [load, loadShort, store, storeShort, storeUint]
    rw [getLE_putWords_of_outside _ _ _ _ _ _ (by omega),
      getLE_putLE_of_disjoint _ _ _ _ _ _ (by omega)]
    exact loadShort_storeShort _ _ _ (by omega)
  · simp only [load, loadUint, store, storeShort]
    rw [getLE_putWords_of_outside _ _ _ _ _ _ (by omega)]
    exact loadUint_storeUint _ _ _ (by omega)
  · simp only [load, loadUint, store]
    rw [getLE_putWords_of_inside _ _ _ _ (by omega) index.val index.isLt]
    simp [addr, Nat.lt_succ_iff.mp index.isLt]

theorem Dinode.getLE_store_of_outside (dinode : Dinode) (block : Block)
    (offset width position : Nat)
    (outside : position + width ≤ offset ∨ offset + DINODESIZE ≤ position) :
    (dinode.store block offset).getLE width position = block.getLE width position := by
  simp only [DINODESIZE] at outside
  simp only [store, storeShort, storeUint, NDIRECT]
  rw [getLE_putWords_of_outside _ _ _ _ _ _ (by omega)]
  repeat rw [getLE_putLE_of_disjoint _ _ _ _ _ _ (by omega)]

theorem Dinode.load_congr {block other : Block} {offset : Nat}
    (same : ∀ width position, offset ≤ position → position + width ≤ offset + DINODESIZE →
      other.getLE width position = block.getLE width position) :
    load other offset = load block offset := by
  simp only [DINODESIZE] at same
  simp only [load, loadShort, loadUint]
  congr 1
  · rw [same 2 offset (by omega) (by omega)]
  · rw [same 2 (offset + 2) (by omega) (by omega)]
  · rw [same 2 (offset + 4) (by omega) (by omega)]
  · rw [same 2 (offset + 6) (by omega) (by omega)]
  · rw [same 4 (offset + 8) (by omega) (by omega)]
  · funext index
    have bound : index.val < 13 := index.isLt
    rw [same 4 (offset + 12 + 4 * index.val) (by omega) (by omega)]

/-- Inodes at different positions of a block do not overlap. -/
theorem Dinode.load_store_of_ne (dinode : Dinode) (block : Block) (slot other : Nat)
    (different : other ≠ slot) :
    load (dinode.store block (DINODESIZE * slot)) (DINODESIZE * other) =
      load block (DINODESIZE * other) := by
  apply load_congr
  intro width position lower upper
  apply getLE_store_of_outside
  simp only [DINODESIZE] at *
  omega

end Xv6.Fs
