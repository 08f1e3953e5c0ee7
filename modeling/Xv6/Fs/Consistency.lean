import Xv6.Fs.Inode
import Xv6.Foundation.Allocation

/-! # Consistent file systems

What the bit map, the inodes and the indirect blocks have to do with each
other. The current state of an inode is its valid copy in the inode cache, or
the inode on disk if there is none.
-/

namespace Xv6.Fs

variable {ip : Fin NINODE} {place : Place} {b : Nat}

/-- The places from which blocks are referred to: the entries of `addrs`, the
last of which is for the indirect block, and the entries of indirect blocks. -/
inductive Place
  | direct (inum index : Nat)
  | entry (inum index : Nat)
  deriving DecidableEq

/-- The place of the number of the indirect block. -/
abbrev Place.indirect (inum : Nat) : Place := .direct inum NDIRECT

/-- The place of the number of block `bn` of a file. -/
def Place.data (inum bn : Nat) : Place :=
  if bn < NDIRECT then .direct inum bn else .entry inum (bn - NDIRECT)

def Place.inum : Place → Nat
  | .direct inum _ | .entry inum _ => inum

theorem Place.inum_data (inum bn : Nat) : (data inum bn).inum = inum := by
  unfold data
  split
  · rfl
  · rfl

theorem Place.data_ne_indirect (inum bn other : Nat) : data inum bn ≠ indirect other := by
  unfold data
  split
  · rintro ⟨⟩
    omega
  · rintro ⟨⟩

theorem Place.data_inj {inum bn other index : Nat} (same : data inum bn = data other index) :
    inum = other ∧ bn = index := by
  unfold data at same
  split at same <;> split at same <;> injection same <;> omega

def blocksFor (size : Nat) : Nat := (size + (BSIZE - 1)) / BSIZE

namespace Store

section

variable (store : Store)

def cached (inum : Nat) : Option (Fin NINODE) :=
  (List.finRange NINODE).find? fun ip =>
    0 < (store.icache ip).ref ∧ (store.icache ip).valid ∧ (store.icache ip).inum = inum

def inode (inum : Nat) : Dinode :=
  match store.cached inum with
  | some ip => (store.icache ip).copy
  | none => store.dinode inum

def Allocated (inum : Nat) : Prop :=
  0 < inum ∧ inum < store.sb.ninodes ∧ (store.inode inum).type ≠ 0

instance (inum : Nat) : Decidable (store.Allocated inum) := inferInstanceAs (Decidable (_ ∧ _))

/-- The block number in entry `index` of `addrs`, zero for none. -/
def addr (inum index : Nat) : Nat :=
  if store.Allocated inum then (store.inode inum).addr index else 0

/-- The block number at a place, zero for none. -/
def number : Place → Nat
  | .direct inum index => store.addr inum index
  | .entry inum index =>
      if store.addr inum NDIRECT = 0 then 0
      else (store.blocks (store.addr inum NDIRECT)).getLE 4 (4 * index)

def holder (place : Place) : Option Nat :=
  if store.number place = 0 then none else some (store.number place)

def marked (b : Nat) : Bool := (store.blocks (store.sb.bblock b)).bit (b % BPB)

/-- The bit map is exact and no block is used twice; the layout uses the blocks
in front of the data blocks. -/
def Exact : Prop :=
  Allocation.Exact (· < store.sb.size) (· < store.sb.nmeta) store.holder (store.marked ·)

/-- The blocks of a file are exactly those its size asks for. -/
def Sized (inum : Nat) : Prop :=
  ∀ bn, store.number (.data inum bn) ≠ 0 ↔ bn < blocksFor (store.inode inum).size.toNat

/-- A cache entry in use, whose copy of the inode is valid. -/
def Holds (ip : Fin NINODE) : Prop :=
  0 < (store.icache ip).ref ∧ (store.icache ip).valid = true

instance (ip : Fin NINODE) : Decidable (store.Holds ip) := inferInstanceAs (Decidable (_ ∧ _))

/-- Entries in use are for different inodes, and valid copies are of allocated
ones. -/
structure CacheValid : Prop where
  single : ∀ ip jp, 0 < (store.icache ip).ref → 0 < (store.icache jp).ref →
    (store.icache ip).inum = (store.icache jp).inum → ip = jp
  range : ∀ ip, 0 < (store.icache ip).ref →
    0 < (store.icache ip).inum ∧ (store.icache ip).inum < store.sb.ninodes
  typed : ∀ ip, store.Holds ip → (store.icache ip).copy.type ≠ 0

/-- What holds at every moment, also while an operation is under way. -/
structure Sound : Prop where
  valid : store.sb.Valid
  superblock : Superblock.load (store.blocks 1) = store.sb
  cache : store.CacheValid

end

end Store

/-- Two states of an inode with the same blocks. -/
structure Dinode.SameBlocks (left right : Dinode) : Prop where
  type : left.type = right.type
  size : left.size = right.size
  addrs : left.addrs = right.addrs

/-- The copy of an inode has the blocks of the inode on disk. -/
def Store.Coherent (store : Store) (ip : Fin NINODE) : Prop :=
  Dinode.SameBlocks (store.dinode (store.icache ip).inum) (store.icache ip).copy

structure Consistent (store : Store) : Prop extends store.Sound where
  exact : store.Exact
  sized : ∀ inum, store.Allocated inum → (store.inode inum).type ≠ T_DEV → store.Sized inum
  coherent : ∀ ip, store.Holds ip → store.Coherent ip

/-! ## Looking up inodes -/

namespace Store

variable {store next : Store}

theorem cached_eq_some {inum : Nat} (found : store.cached inum = some ip) :
    store.Holds ip ∧ (store.icache ip).inum = inum := by
  have holds := List.find?_some found
  simp only [decide_eq_true_eq] at holds
  exact ⟨⟨holds.1, holds.2.1⟩, holds.2.2⟩

theorem cached_eq_none {inum : Nat} (missing : store.cached inum = none) (ip : Fin NINODE)
    (holds : store.Holds ip) : (store.icache ip).inum ≠ inum := by
  intro same
  have refuted := List.find?_eq_none.mp missing ip (List.mem_finRange ip)
  simp only [decide_eq_true_eq, not_and] at refuted
  exact refuted holds.1 holds.2 same

theorem CacheValid.cached_eq (cache : store.CacheValid)
    (holds : store.Holds ip) : store.cached (store.icache ip).inum = some ip := by
  cases found : store.cached (store.icache ip).inum with
  | none => exact absurd rfl (cached_eq_none found ip holds)
  | some jp =>
    rcases cached_eq_some found with ⟨jpHolds, same⟩
    rw [cache.single jp ip jpHolds.1 holds.1 same]

theorem CacheValid.inode_eq (cache : store.CacheValid)
    (holds : store.Holds ip) : store.inode (store.icache ip).inum = (store.icache ip).copy := by
  rw [inode, cache.cached_eq holds]

theorem CacheValid.allocated (cache : store.CacheValid)
    (holds : store.Holds ip) : store.Allocated (store.icache ip).inum := by
  have range := cache.range ip holds.1
  refine ⟨range.1, range.2, ?_⟩
  rw [cache.inode_eq holds]
  exact cache.typed ip holds

theorem inode_eq_dinode {inum : Nat}
    (uncached : ∀ ip, store.Holds ip → (store.icache ip).inum ≠ inum) :
    store.inode inum = store.dinode inum := by
  unfold inode
  split
  · rename_i ip found
    rcases cached_eq_some found with ⟨holds, same⟩
    exact absurd same (uncached ip holds)
  · rfl

theorem cached_congr (sameCache : next.icache = store.icache) (inum : Nat) :
    next.cached inum = store.cached inum := by
  simp only [cached, sameCache]

theorem inode_congr (sameCache : next.icache = store.icache) {inum : Nat}
    (sameDinode : next.dinode inum = store.dinode inum) :
    next.inode inum = store.inode inum := by
  simp only [inode, cached_congr sameCache, sameDinode, sameCache]

/-! ## What block numbers depend on -/

theorem addr_congr {inum : Nat} (sameSb : next.sb = store.sb)
    (sameInode : next.inode inum = store.inode inum) (index : Nat) :
    next.addr inum index = store.addr inum index := by
  have allocated : next.Allocated inum ↔ store.Allocated inum := by
    rw [Allocated, Allocated, sameSb, sameInode]
  simp only [addr, allocated, sameInode]

/-- The inodes have the same blocks in both states. -/
structure SameInodes (store next : Store) : Prop where
  sb : next.sb = store.sb
  inode : ∀ inum, 0 < inum → inum < store.sb.ninodes →
    Dinode.SameBlocks (store.inode inum) (next.inode inum)

theorem SameInodes.allocated (same : SameInodes store next) (inum : Nat) :
    next.Allocated inum ↔ store.Allocated inum := by
  unfold Allocated
  rw [same.sb]
  constructor
  · rintro ⟨positive, bound, typed⟩
    exact ⟨positive, bound, (same.inode inum positive bound).type ▸ typed⟩
  · rintro ⟨positive, bound, typed⟩
    exact ⟨positive, bound, (same.inode inum positive bound).type ▸ typed⟩

theorem SameInodes.addr (same : SameInodes store next) (inum index : Nat) :
    next.addr inum index = store.addr inum index := by
  unfold Store.addr
  simp only [same.allocated inum]
  split
  · rename_i allocated
    simp only [Dinode.addr, (same.inode inum allocated.1 allocated.2.1).addrs]
  · rfl

theorem SameInodes.number (same : SameInodes store next)
    (sameTables : ∀ inum, store.addr inum NDIRECT ≠ 0 →
      next.blocks (store.addr inum NDIRECT) = store.blocks (store.addr inum NDIRECT))
    (place : Place) : next.number place = store.number place := by
  cases place with
  | direct inum index => exact same.addr inum index
  | entry inum index =>
    simp only [Store.number, same.addr]
    split
    · rfl
    · rename_i present
      rw [sameTables inum present]

theorem holder_congr (same : next.number place = store.number place) :
    next.holder place = store.holder place := by
  simp only [holder, same]

theorem holder_eq_some :
    store.holder place = some b ↔ store.number place = b ∧ b ≠ 0 := by
  unfold holder
  split
  · rename_i vacant
    simp only [vacant, reduceCtorEq, false_iff, not_and]
    rintro rfl
    simp
  · rename_i present
    constructor
    · rintro ⟨⟩
      exact ⟨rfl, present⟩
    · rintro ⟨rfl, _⟩
      rfl

theorem holder_eq_none : store.holder place = none ↔ store.number place = 0 := by
  unfold holder
  split <;> simp_all

theorem holder_of_number (present : store.number place ≠ 0) :
    store.holder place = some (store.number place) :=
  holder_eq_some.mpr ⟨rfl, present⟩

end Store

/-! ## Consequences of exactness -/

section

variable {store : Store}

theorem Store.Exact.data (exact : store.Exact) (present : store.number place ≠ 0) :
    store.sb.nmeta ≤ store.number place ∧ store.number place < store.sb.size := by
  rcases exact.held place _ (Store.holder_of_number present) with ⟨inside, notReserved⟩
  exact ⟨Nat.le_of_not_lt notReserved, inside⟩

theorem Store.Exact.table (exact : store.Exact) {inum : Nat} (present : store.addr inum NDIRECT ≠ 0) :
    store.sb.nmeta ≤ store.addr inum NDIRECT :=
  (exact.data (show store.number (.indirect inum) ≠ 0 from present)).1

theorem Store.Exact.number_inj (exact : store.Exact) {other : Place}
    (present : store.number place ≠ 0) (same : store.number place = store.number other) :
    place = other :=
  exact.single place other _ (Store.holder_of_number present)
    (Store.holder_eq_some.mpr ⟨same.symm, present⟩)

theorem Store.Exact.ne_of_unmarked (exact : store.Exact) (unmarked : store.marked b = false)
    (present : store.number place ≠ 0) :
    store.number place ≠ b := by
  rintro rfl
  exact exact.not_held (by simp [unmarked]) place (Store.holder_of_number present)

theorem Store.Exact.nmeta_le_of_unmarked (exact : store.Exact) (inside : b < store.sb.size)
    (unmarked : store.marked b = false) : store.sb.nmeta ≤ b := by
  apply Nat.le_of_not_lt
  intro reserved
  have isMarked := (exact.marked_iff b inside).mpr (Or.inl reserved)
  simp [unmarked] at isMarked

end

end Xv6.Fs
