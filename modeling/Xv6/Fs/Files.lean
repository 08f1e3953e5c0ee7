import Xv6.Fs.Contents

/-! # Files as byte arrays

`readi` and `writei` on a consistent file system behave like reads and writes of
a list of bytes, one for each inode, whatever the sequence of calls.
-/

namespace Xv6.Fs

open Program Store

variable {inum off : Nat} {store next : Store} {src : Nat → UInt8} {ip : Fin NINODE} {state : State}

namespace Store

variable {store next : Store} {ip : Fin NINODE}

/-! ## Writing an inode to the disk -/

theorem slotOffset_fits (inum : Nat) : slotOffset inum + DINODESIZE ≤ BSIZE := by
  simp only [slotOffset, DINODESIZE, IPB, BSIZE]
  omega

def putInode (store : Store) (inum : Nat) (dinode : Dinode) : Store :=
  store.putBlock (store.sb.iblock inum)
    (dinode.store (store.blocks (store.sb.iblock inum)) (slotOffset inum))

theorem putInode_dinode (inum : Nat) (dinode : Dinode) (other : Nat) :
    (store.putInode inum dinode).dinode other =
      if other = inum then dinode else store.dinode other := by
  unfold Store.dinode putInode
  rw [putBlock_sb]
  by_cases same : other = inum
  · subst same
    rw [if_pos rfl, putBlock_blocks_self, Dinode.load_store _ _ _ (slotOffset_fits other)]
  · rw [if_neg same]
    by_cases sameBlock : store.sb.iblock other = store.sb.iblock inum
    · have slots : other % IPB ≠ inum % IPB := by
        simp only [Superblock.iblock, IPB, BSIZE, DINODESIZE] at *
        omega
      rw [sameBlock, putBlock_blocks_self, slotOffset, slotOffset,
        Dinode.load_store_of_ne _ _ _ _ slots]
    · rw [putBlock_blocks_of_ne sameBlock]

theorem putInode_blocks (valid : store.sb.Valid) {b : Nat} (bound : inum < store.sb.ninodes)
    (isData : store.sb.nmeta ≤ b) (dinode : Dinode) :
    (store.putInode inum dinode).blocks b = store.blocks b := by
  have before := valid.iblock_lt_nmeta bound
  exact putBlock_blocks_of_ne (by omega) _

theorem putInode_marked (valid : store.sb.Valid) (bound : inum < store.sb.ninodes) (dinode : Dinode)
    (b : Nat) : (store.putInode inum dinode).marked b = store.marked b := by
  have before := valid.iblock_lt_bblock bound b
  simp only [marked, putInode, putBlock_sb]
  rw [putBlock_blocks_of_ne (by omega)]

/-! ## Writing through

Most changes of an inode are made to the cached copy and at once written to the
disk by `iupdate`. -/

def update (store : Store) (ip : Fin NINODE) (copy : Dinode) : Store :=
  (store.setCopy ip copy).putInode (store.icache ip).inum copy

@[simp] theorem update_sb (copy : Dinode) : (store.update ip copy).sb = store.sb := rfl

@[simp] theorem update_self (copy : Dinode) :
    (store.update ip copy).icache ip = { store.icache ip with copy := copy } :=
  setCopy_self copy

theorem update_of_ne {jp : Fin NINODE} (different : jp ≠ ip) (copy : Dinode) :
    (store.update ip copy).icache jp = store.icache jp :=
  setCopy_of_ne different copy

/-- Which cache entries are in use, and for which inodes, is as before. -/
structure SameSlots (store next : Store) : Prop where
  inum : ∀ jp, (next.icache jp).inum = (store.icache jp).inum
  ref : ∀ jp, (next.icache jp).ref = (store.icache jp).ref
  valid : ∀ jp, (next.icache jp).valid = (store.icache jp).valid

theorem SameSlots.trans {final : Store} (first : SameSlots store next)
    (second : SameSlots next final) : SameSlots store final where
  inum := fun jp => (second.inum jp).trans (first.inum jp)
  ref := fun jp => (second.ref jp).trans (first.ref jp)
  valid := fun jp => (second.valid jp).trans (first.valid jp)

theorem SameSlots.holds (same : SameSlots store next) (jp : Fin NINODE) :
    next.Holds jp ↔ store.Holds jp := by
  rw [Holds, Holds, same.ref, same.valid]

theorem SameSlots.cached (same : SameSlots store next) (inum : Nat) :
    next.cached inum = store.cached inum := by
  simp only [Store.cached, same.inum, same.ref, same.valid]

theorem SameSlots.cacheValid (same : SameSlots store next) (sameSb : next.sb = store.sb)
    (cache : store.CacheValid)
    (typed : ∀ jp, store.Holds jp → (next.icache jp).copy.type ≠ 0) : next.CacheValid := by
  refine ⟨?_, ?_, ?_⟩
  · intro jp kp
    simp only [same.ref, same.inum]
    exact cache.single jp kp
  · intro jp
    simp only [same.ref, same.inum, sameSb]
    exact cache.range jp
  · intro jp holds
    exact typed jp ((same.holds jp).mp holds)

theorem Frame.sameSlots (frame : Frame ip store next) : SameSlots store next :=
  ⟨frame.inum, frame.ref, frame.validFlag⟩

theorem update_sameSlots (copy : Dinode) : SameSlots store (store.update ip copy) := by
  refine ⟨?_, ?_, ?_⟩
  all_goals
    intro jp
    by_cases same : jp = ip
    · subst same
      rw [update_self]
    · rw [update_of_ne same]

theorem update_dinode (copy : Dinode) (inum : Nat) :
    (store.update ip copy).dinode inum =
      if inum = (store.icache ip).inum then copy else store.dinode inum :=
  putInode_dinode _ _ _

theorem update_inode (cache : store.CacheValid) (holds : store.Holds ip) (copy : Dinode)
    (inum : Nat) : (store.update ip copy).inode inum =
      if inum = (store.icache ip).inum then copy else store.inode inum := by
  unfold inode
  rw [(update_sameSlots copy).cached, update_dinode]
  by_cases own : inum = (store.icache ip).inum
  · rw [own, cache.cached_eq holds]
    simp
  · rw [if_neg own, if_neg own]
    split
    · rename_i jp found
      have different : jp ≠ ip := by
        rintro rfl
        exact own (cached_eq_some found).2.symm
      rw [update_of_ne different]
    · rfl

theorem update_sound (sound : store.Sound) (holds : store.Holds ip) {copy : Dinode}
    (typed : copy.type ≠ 0) : (store.update ip copy).Sound where
  valid := sound.valid
  superblock := by
    have elsewhere := sound.valid.iblock_ne_one (store.icache ip).inum
    rw [update, putInode, putBlock_blocks_of_ne]
    · exact sound.superblock
    · exact elsewhere.symm
  cache := by
    refine (update_sameSlots copy).cacheValid rfl sound.cache ?_
    intro jp jpHolds
    by_cases same : jp = ip
    · subst same
      rw [update_self]
      exact typed
    · rw [update_of_ne same]
      exact sound.cache.typed jp jpHolds

theorem update_marked (sound : store.Sound) (holds : store.Holds ip) (copy : Dinode) (b : Nat) :
    (store.update ip copy).marked b = store.marked b :=
  putInode_marked sound.valid (sound.cache.range ip holds.1).2 copy b

theorem update_blocks (sound : store.Sound) (holds : store.Holds ip) (copy : Dinode) {b : Nat}
    (isData : store.sb.nmeta ≤ b) : (store.update ip copy).blocks b = store.blocks b :=
  putInode_blocks sound.valid (sound.cache.range ip holds.1).2 isData copy

section SameAddrs

variable {copy : Dinode} (sound : store.Sound) (exact : store.Exact) (holds : store.Holds ip)
  (typed : copy.type ≠ 0) (sameAddrs : copy.addrs = (store.icache ip).copy.addrs)

include sound holds typed sameAddrs

theorem update_addr (inum index : Nat) :
    (store.update ip copy).addr inum index = store.addr inum index := by
  have allocated : (store.update ip copy).Allocated inum ↔ store.Allocated inum := by
    unfold Allocated
    rw [update_inode sound.cache holds, update_sb]
    split
    · rename_i own
      have before := sound.cache.allocated holds
      rw [← own] at before
      exact ⟨fun _ => before, fun _ => ⟨before.1, before.2.1, typed⟩⟩
    · rfl
  unfold addr
  simp only [allocated, update_inode sound.cache holds]
  split
  · split
    · rename_i own
      rw [own, sound.cache.inode_eq holds, Dinode.addr, Dinode.addr, sameAddrs]
    · rfl
  · rfl

include exact

theorem update_number (place : Place) :
    (store.update ip copy).number place = store.number place := by
  have addr := update_addr sound holds typed sameAddrs
  cases place with
  | direct inum index => exact addr inum index
  | entry inum index =>
    simp only [number, addr]
    split
    · rfl
    · rename_i present
      rw [update_blocks sound holds copy (exact.table present)]

theorem update_exact : (store.update ip copy).Exact := by
  refine Allocation.Exact.congr exact
    (fun place => holder_congr (update_number sound exact holds typed sameAddrs place)) ?_
  intro b _
  rw [update_marked sound holds]

theorem update_fileBlock (inum bn : Nat) :
    (store.update ip copy).fileBlock inum bn = store.fileBlock inum bn := by
  unfold fileBlock
  rw [update_number sound exact holds typed sameAddrs]
  split
  · rfl
  · rename_i present
    rw [update_blocks sound holds copy (exact.data present).1]

end SameAddrs

end Store

/-! ## Consistency after a write -/

theorem lt_blocksFor {bn size : Nat} : bn < blocksFor size ↔ bn * BSIZE < size := by
  simp only [blocksFor, BSIZE]
  omega

section

variable {ip : Fin NINODE} {store next : Store} (consistent : Consistent store)
  (frame : Store.Frame ip store next)

include consistent frame

theorem Consistent.sized_of_ne (others : ∀ inum bn, inum ≠ (store.icache ip).inum →
      (next.number (.data inum bn) ≠ 0 ↔ store.number (.data inum bn) ≠ 0))
    (allocated : next.Allocated inum) (notDevice : (next.inode inum).type ≠ T_DEV)
    (different : inum ≠ (store.icache ip).inum) : next.Sized inum := by
  have before := (frame.allocated inum).mp allocated
  have inode := frame.inode_of_ne before.2.1 different
  intro bn
  rw [inode] at notDevice ⊢
  rw [others inum bn different]
  exact consistent.sized inum before notDevice bn

theorem Consistent.coherent_of_ne {jp : Fin NINODE} (holds : next.Holds jp)
    (different : jp ≠ ip) : next.Coherent jp := by
  have before := (frame.holds jp).mp holds
  have range := consistent.cache.range jp before.1
  unfold Store.Coherent
  rw [frame.others jp different, frame.dinode _ range.2]
  exact consistent.coherent jp before

theorem Consistent.resize (exact : next.Exact) (holds : store.Holds ip)
    (others : ∀ inum bn, inum ≠ (store.icache ip).inum →
      (next.number (.data inum bn) ≠ 0 ↔ store.number (.data inum bn) ≠ 0))
    {size : UInt32} (own : ∀ bn, next.number (.data (store.icache ip).inum bn) ≠ 0 ↔
      bn < blocksFor size.toNat) :
    Consistent (next.update ip { (next.icache ip).copy with size := size }) := by
  have nextSound := frame.sound consistent.toSound
  have nextHolds := (frame.holds ip).mpr holds
  have typed : (next.icache ip).copy.type ≠ 0 := nextSound.cache.typed ip nextHolds
  refine ⟨update_sound nextSound nextHolds typed,
    update_exact nextSound exact nextHolds typed rfl, ?_, ?_⟩
  · intro inum allocated isFile bn
    have inode := update_inode nextSound.cache nextHolds
      { (next.icache ip).copy with size := size } inum
    have number : _ = next.number (.data inum bn) := update_number nextSound exact nextHolds
      (show Dinode.type { (next.icache ip).copy with size := size } ≠ 0 from typed) rfl _
    rw [frame.inum] at inode
    rw [number, inode]
    by_cases same : inum = (store.icache ip).inum
    · rw [if_pos same, same]
      exact own bn
    · rw [if_neg same] at inode ⊢
      rw [inode] at isFile
      rw [Store.Allocated, inode] at allocated
      exact consistent.sized_of_ne frame others allocated isFile same bn
  · intro jp jpHolds
    have jpBefore := ((update_sameSlots _).holds jp).mp jpHolds
    by_cases same : jp = ip
    · subst same
      unfold Store.Coherent
      rw [update_dinode, update_self, if_pos rfl]
      exact ⟨rfl, rfl, rfl⟩
    · have different : (next.icache jp).inum ≠ (next.icache ip).inum := fun equal =>
        same (nextSound.cache.single jp ip jpBefore.1 nextHolds.1 equal)
      unfold Store.Coherent
      rw [update_of_ne same, update_dinode, if_neg different]
      exact consistent.coherent_of_ne frame jpBefore same

end

section

variable {ip : Fin NINODE} {src : Nat → UInt8} {off left : Nat} {store next : Store}

section

variable (written : Written ip src 0 off left store next)
include written

theorem Written.present_of_ne (inum bn : Nat) (different : inum ≠ (store.icache ip).inum) :
    next.number (.data inum bn) ≠ 0 ↔ store.number (.data inum bn) ≠ 0 := by
  rw [written.present]
  simp only [different, false_and, or_false]

theorem Written.blocks_iff (sized : store.Sized (store.icache ip).inum)
    (offset : off ≤ (store.inode (store.icache ip).inum).size.toNat) (bn : Nat) :
    next.number (.data (store.icache ip).inum bn) ≠ 0 ↔
      bn < blocksFor (max (store.inode (store.icache ip).inum).size.toNat (off + left)) := by
  have before := sized bn
  rw [written.present, before, lt_blocksFor, lt_blocksFor]
  simp only [BSIZE, true_and]
  constructor
  · rintro (old | new) <;> omega
  · intro small
    by_cases old : bn * 512 < (store.inode (store.icache ip).inum).size.toNat
    · exact Or.inl old
    · right
      omega

theorem Written.addrs_eq (sound : store.Sound) (holds : store.Holds ip)
    (sized : store.Sized (store.icache ip).inum)
    (inside : left = 0 ∨ off + left ≤ (store.inode (store.icache ip).inum).size.toNat) :
    (next.icache ip).copy.addrs = (store.icache ip).copy.addrs := by
  have nextHolds := (written.frame.holds ip).mpr holds
  have nextSound := written.frame.sound sound
  have sameData : ∀ bn, next.number (.data (store.icache ip).inum bn) =
      store.number (.data (store.icache ip).inum bn) := by
    intro bn
    by_cases occupied : store.number (.data (store.icache ip).inum bn) = 0
    · rw [occupied]
      by_contra changed
      have known := (written.present _ bn).mp changed
      have size := sized bn
      rw [lt_blocksFor] at size
      rcases known with old | new
      · exact old occupied
      · exact size.mpr (by omega) occupied
    · exact written.kept bn occupied
  have sameTable : next.number (.indirect (store.icache ip).inum) =
      store.number (.indirect (store.icache ip).inum) := by
    rcases written.table with same | ⟨vacant, positive, beyond⟩
    · exact same
    · -- block twelve of the file would be missing its table
      have size := sized NDIRECT
      rw [lt_blocksFor, Place.data, if_neg (Nat.lt_irrefl _), number,
        if_pos (show store.addr _ NDIRECT = 0 from vacant)] at size
      exact absurd rfl (size.mpr (by omega))
  have sameAddr : ∀ index, index < NDIRECT + 1 →
      next.addr (store.icache ip).inum index = store.addr (store.icache ip).inum index := by
    intro index bound
    by_cases direct : index < NDIRECT
    · have same := sameData index
      rw [Place.data, if_pos direct] at same
      exact same
    · obtain rfl : index = NDIRECT := by omega
      exact sameTable
  funext index
  have same := sameAddr index.val index.isLt
  have bound : index.val < NDIRECT + 1 := index.isLt
  rw [addr_eq_copy sound.cache holds] at same
  have read := addr_eq_copy nextSound.cache nextHolds index.val
  rw [written.frame.inum] at read
  rw [read, Dinode.addr, Dinode.addr, dif_pos bound, dif_pos bound] at same
  exact UInt32.toNat_inj.mp same

theorem Written.consistent_inside (consistent : Consistent store) (holds : store.Holds ip)
    (notDevice : (store.icache ip).copy.type ≠ T_DEV)
    (inside : left = 0 ∨ off + left ≤ (store.icache ip).copy.size.toNat)
    (offset : off ≤ (store.icache ip).copy.size.toNat) : Consistent next := by
  have own := consistent.cache.inode_eq holds
  have sized := consistent.sized _ (consistent.cache.allocated holds) (by rw [own]; exact notDevice)
  have nextOwn := (written.frame.sound consistent.toSound).cache.inode_eq
    ((written.frame.holds ip).mpr holds)
  rw [written.frame.inum] at nextOwn
  refine ⟨written.frame.sound consistent.toSound, written.exact, ?_, ?_⟩
  · intro inum allocated typed
    by_cases same : inum = (store.icache ip).inum
    · subst same
      intro bn
      rw [written.blocks_iff sized (by rw [own]; exact offset), nextOwn, written.frame.size, own]
      rw [show max (store.icache ip).copy.size.toNat (off + left) =
        (store.icache ip).copy.size.toNat by omega]
    · exact consistent.sized_of_ne written.frame written.present_of_ne allocated typed same
  · intro jp jpHolds
    by_cases same : jp = ip
    · subst same
      have range := consistent.cache.range jp holds.1
      have before := consistent.coherent jp holds
      have addrs := written.addrs_eq consistent.toSound holds sized (by rw [own]; exact inside)
      unfold Store.Coherent
      rw [written.frame.inum, written.frame.dinode _ range.2]
      exact ⟨before.type.trans (written.frame.type jp).symm,
        before.size.trans written.frame.size.symm, before.addrs.trans addrs.symm⟩
    · exact consistent.coherent_of_ne written.frame jpHolds same

theorem Written.consistent_grown (consistent : Consistent store) (holds : store.Holds ip)
    (notDevice : (store.icache ip).copy.type ≠ T_DEV)
    (offset : off ≤ (store.icache ip).copy.size.toNat) {size : UInt32}
    (sizeEq : size.toNat = off + left) (grown : (store.icache ip).copy.size.toNat < size.toNat) :
    Consistent (next.update ip { (next.icache ip).copy with size := size }) := by
  have own := consistent.cache.inode_eq holds
  have sized := consistent.sized _ (consistent.cache.allocated holds) (by rw [own]; exact notDevice)
  refine consistent.resize written.frame written.exact holds written.present_of_ne fun bn => ?_
  rw [written.blocks_iff sized (by rw [own]; exact offset), own]
  rw [show max (store.icache ip).copy.size.toNat (off + left) = size.toNat by omega]

end

end

/-! ## `writei` -/

/-- The file `data` with `n` bytes of `src` laid over it from `off` on, extended
if need be. -/
def overlay (data : List UInt8) (src : Nat → UInt8) (off n : Nat) : List UInt8 :=
  (List.range (max data.length (off + n))).map fun position =>
    if off ≤ position ∧ position < off + n then src (position - off) else data.getD position 0

theorem length_overlay (data : List UInt8) (src : Nat → UInt8) (off n : Nat) :
    (overlay data src off n).length = max data.length (off + n) := by
  simp [overlay]

theorem getD_overlay (data : List UInt8) (src : Nat → UInt8) {n position : Nat}
    (inside : position < max data.length (off + n)) :
    (overlay data src off n).getD position 0 =
      if off ≤ position ∧ position < off + n then src (position - off)
      else data.getD position 0 := by
  rw [List.getD_eq_getElem _ _ (by rw [length_overlay]; exact inside)]
  simp [overlay]

theorem overlay_eq_append {data : List UInt8} (src : Nat → UInt8) (n : Nat)
    (inside : off ≤ data.length) :
    overlay data src off n =
      data.take off ++ (List.range n).map src ++ data.drop (off + n) := by
  apply List.ext_getElem
  · simp only [length_overlay, List.length_append, List.length_take, List.length_map,
      List.length_range, List.length_drop]
    omega
  · intro position bound _
    rw [length_overlay] at bound
    simp only [overlay, List.getElem_map, List.getElem_range, List.getElem_append,
      List.length_append, List.length_take, List.length_map, List.length_range,
      List.getElem_take, List.getElem_drop, Nat.min_eq_left inside]
    split
    · rename_i laid
      rw [dif_pos laid.2, dif_neg (Nat.not_lt.mpr laid.1)]
    · rename_i outside
      by_cases before : position < off
      · rw [dif_pos (by omega), dif_pos before, List.getD_eq_getElem _ _ (by omega)]
      · rw [dif_neg (by omega), List.getD_eq_getElem _ _ (by omega)]
        congr 1
        omega

theorem Store.contents_eq_overlay {n : Nat}
    (size : (next.inode inum).size.toNat = max (store.inode inum).size.toNat (off + n))
    (offset : off ≤ (store.inode inum).size.toNat) (byte : ∀ position, next.fileByte inum position =
      if off ≤ position ∧ position < off + n then src (position - off)
      else store.fileByte inum position) :
    next.contents inum = overlay (store.contents inum) src off n := by
  rw [contents, overlay, size, contents_length]
  apply List.map_congr_left
  intro position member
  rw [List.mem_range] at member
  rw [byte]
  split
  · rfl
  · have old : position < (store.inode inum).size.toNat := by omega
    simp [contents, List.getD_eq_getElem?_getD, old]

/-- What a write leaves alone: the files of other inodes and what inodes say
besides their size and blocks. -/
structure WriteFrame (ip : Fin NINODE) (store next : Store) : Prop where
  sb : next.sb = store.sb
  slots : Store.SameSlots store next
  fields : ∀ inum, inum < store.sb.ninodes →
    (next.inode inum).type = (store.inode inum).type ∧
    (next.inode inum).major = (store.inode inum).major ∧
    (next.inode inum).minor = (store.inode inum).minor ∧
    (next.inode inum).nlink = (store.inode inum).nlink
  others : ∀ inum, inum < store.sb.ninodes → inum ≠ (store.icache ip).inum →
    next.contents inum = store.contents inum

theorem Store.Frame.fields (frame : Store.Frame ip store next) (bound : inum < store.sb.ninodes) :
    (next.inode inum).type = (store.inode inum).type ∧
    (next.inode inum).major = (store.inode inum).major ∧
    (next.inode inum).minor = (store.inode inum).minor ∧
    (next.inode inum).nlink = (store.inode inum).nlink := by
  unfold inode
  rw [frame.cached]
  split
  · rename_i jp found
    by_cases same : jp = ip
    · subst same
      rw [frame.own]
      exact ⟨rfl, rfl, rfl, rfl⟩
    · rw [frame.others jp same]
      exact ⟨rfl, rfl, rfl, rfl⟩
  · rw [frame.dinode inum bound]
    exact ⟨rfl, rfl, rfl, rfl⟩

theorem Written.contents_of_ne {left : Nat} (written : Written ip src 0 off left store next)
    (bound : inum < store.sb.ninodes) (different : inum ≠ (store.icache ip).inum) :
    next.contents inum = store.contents inum := by
  rw [contents, written.frame.inode_of_ne bound different, contents]
  apply List.map_congr_left
  intro position _
  rw [written.byte, if_neg (fun own => different own.1)]

theorem growTo_returns (state : State) (ip : Fin NINODE) (size : UInt32) :
    Returns (growTo ip size) state fun _ next => next = { state with
      toStore := state.update ip { (state.icache ip).copy with size := size }
      events := .logWrite (state.sb.iblock (state.icache ip).inum) :: state.events } := by
  simp only [Returns, growTo, setInode, iupdate, putDinode, bread, logWrite, meets_bind, meets_get,
    meets_modify, meets_pure, Function.update_self]
  rfl

/-- What `writei` refuses: to leave a gap, to wrap around, to exceed the largest
file. -/
def WriteRefused (size off n : Nat) : Prop :=
  size < off ∨ 2 ^ 32 ≤ off + n ∨ MAXFILE * BSIZE < off + n

instance (size off n : Nat) : Decidable (WriteRefused size off n) :=
  inferInstanceAs (Decidable (_ ∨ _))

/-- The inodes on disk are up to date in the second state where they are so in the
first. -/
def WritesThrough (store next : Store) : Prop :=
  ∀ inum, inum < store.sb.ninodes → store.dinode inum = store.inode inum →
    next.dinode inum = next.inode inum

theorem Written.through_of_ne {left : Nat} (written : Written ip src 0 off left store next)
    (bound : inum < store.sb.ninodes) (different : inum ≠ (store.icache ip).inum)
    (through : store.dinode inum = store.inode inum) : next.dinode inum = next.inode inum := by
  rw [written.frame.dinode inum bound, written.frame.inode_of_ne bound different, through]

/-- `writei` refuses what does not fit, and else overwrites the file. -/
theorem writei_meets (consistent : Consistent state.toStore) (holds : state.Holds ip)
    (notDevice : (state.icache ip).copy.type ≠ T_DEV) (src : Nat → UInt8) (off n : UInt32)
    {fails : Panic → Prop}
    (enough : ¬WriteRefused (state.icache ip).copy.size.toNat off.toNat n.toNat →
      fails .outOfBlocks ∨
        state.blocksNeeded (state.icache ip).inum off.toNat n.toNat ≤ state.freeBlocks) :
    Meets (writei ip src off n) state fails fun result next =>
      let data := state.contents (state.icache ip).inum
      if WriteRefused data.length off.toNat n.toNat then
        result = -1 ∧ next = state
      else
        result = n.toNat ∧ Consistent next.toStore ∧ Records state next ∧
          WriteFrame ip state.toStore next.toStore ∧
          next.contents (state.icache ip).inum = overlay data src off.toNat n.toNat ∧
          WritesThrough state.toStore next.toStore := by
  have own := consistent.cache.inode_eq holds
  simp only [writei, meets_bind, meets_get, notDevice, if_false,
    holds.contents_length consistent.cache, UInt32.lt_iff_toNat_lt, wraps_iff]
  by_cases refused : (state.icache ip).copy.size.toNat < off.toNat ∨
      2 ^ 32 ≤ off.toNat + n.toNat
  · have refusedHere : WriteRefused (state.icache ip).copy.size.toNat off.toNat n.toNat := by
      unfold WriteRefused
      omega
    simp only [if_pos refused, if_pos refusedHere]
    exact ⟨rfl, rfl⟩
  · simp only [if_neg refused]
    have sum : (off + n).toNat = off.toNat + n.toNat := by
      rw [UInt32.toNat_add, Nat.mod_eq_of_lt (by omega)]
    have limit : (UInt32.ofNat (MAXFILE * BSIZE)).toNat = MAXFILE * BSIZE := rfl
    rw [sum, limit]
    by_cases tooLarge : MAXFILE * BSIZE < off.toNat + n.toNat
    · have refusedHere : WriteRefused (state.icache ip).copy.size.toNat off.toNat n.toNat :=
        Or.inr (Or.inr tooLarge)
      simp only [if_pos tooLarge, if_pos refusedHere]
      exact ⟨rfl, rfl⟩
    · have accepted : ¬WriteRefused (state.icache ip).copy.size.toNat off.toNat n.toNat := by
        unfold WriteRefused
        omega
      simp only [if_neg tooLarge, if_neg accepted, meets_bind, meets_get]
      have offset : off.toNat ≤ (state.icache ip).copy.size.toNat := by omega
      have signed : n.toBitVec.toInt = n.toNat := by
        apply BitVec.toInt_eq_toNat_of_lt
        simp only [MAXFILE, NDIRECT, NINDIRECT, BSIZE] at tooLarge
        rw [UInt32.toNat_toBitVec]
        omega
      refine Meets.imp (writeLoop_meets src n.toNat n.toNat 0 off.toNat state (Nat.le_refl _)
        consistent.toSound consistent.exact holds (by omega) (enough accepted)) ?_
      rintro _ middle ⟨written, recorded⟩
      have middleSound := written.frame.sound consistent.toSound
      have middleHolds := (written.frame.holds ip).mpr holds
      have middleOwn := middleSound.cache.inode_eq middleHolds
      rw [written.frame.inum] at middleOwn
      have bytes : ∀ position, middle.fileByte (state.icache ip).inum position =
          if off.toNat ≤ position ∧ position < off.toNat + n.toNat then
            src (position - off.toNat)
          else state.fileByte (state.icache ip).inum position := by
        intro position
        rw [written.byte]
        simp
      rw [meets_ite]
      refine ⟨?_, ?_⟩
      · rintro ⟨positive, grows⟩
        rw [written.frame.size] at grows
        have grown := written.consistent_grown consistent holds notDevice offset sum (by omega)
        have typed : (middle.icache ip).copy.type ≠ 0 := middleSound.cache.typed ip middleHolds
        have fileBlocks : ∀ inum bn, (middle.update ip
            { (middle.icache ip).copy with size := off + n }).fileBlock inum bn =
            middle.fileBlock inum bn :=
          update_fileBlock middleSound written.exact middleHolds typed rfl
        have inodes := update_inode middleSound.cache middleHolds
          { (middle.icache ip).copy with size := off + n }
        rw [written.frame.inum] at inodes
        rw [meets_bind]
        refine Meets.imp (growTo_returns middle ip (off + n)).meets ?_
        rintro _ next rfl
        refine ⟨signed, grown, recorded.trans (.logWrite rfl), ⟨written.frame.sb,
          written.frame.sameSlots.trans (update_sameSlots _), ?_, ?_⟩, ?_, ?_⟩
        · intro inum bound
          rw [inodes]
          split
          · rename_i same
            have fields := written.frame.fields bound
            rw [same, middleOwn] at fields
            rw [same]
            exact fields
          · exact written.frame.fields bound
        · intro inum bound different
          rw [← written.contents_of_ne bound different, contents, inodes, if_neg different]
          apply List.map_congr_left
          intro position _
          simp only [fileByte, fileBlocks]
        · apply contents_eq_overlay _ (by rw [own]; exact offset)
          · intro position
            rw [← bytes]
            simp only [fileByte, fileBlocks]
          · rw [inodes, if_pos rfl, own, sum]
            omega
        · intro inum bound through
          rw [inodes]
          refine (update_dinode _ inum).trans ?_
          rw [written.frame.inum]
          split
          · rfl
          · rename_i different
            exact written.through_of_ne bound different through
      · intro stays
        rw [written.frame.size, not_and] at stays
        have inside : n.toNat = 0 ∨
            off.toNat + n.toNat ≤ (state.icache ip).copy.size.toNat := by
          by_cases positive : 0 < n.toNat
          · right
            have := stays positive
            omega
          · left
            omega
        refine ⟨signed, written.consistent_inside consistent holds notDevice inside offset,
          recorded, ⟨written.frame.sb, written.frame.sameSlots,
            fun inum bound => written.frame.fields bound,
            fun inum bound different => written.contents_of_ne bound different⟩, ?_, ?_⟩
        · apply contents_eq_overlay _ (by rw [own]; exact offset) bytes
          rw [middleOwn, own, written.frame.size]
          omega
        · intro inum bound through
          by_cases same : inum = (state.icache ip).inum
          · have sized := consistent.sized _ (consistent.cache.allocated holds)
              (by rw [own]; exact notDevice)
            have addrs := written.addrs_eq consistent.toSound holds sized
              (by rw [own]; exact inside)
            rw [written.frame.dinode inum bound, through, same, own, middleOwn, written.frame.own,
              addrs]
          · exact written.through_of_ne bound same through

/-! ## Sequences of calls -/

/-- What `readi` returns of a file: a result and the bytes read. -/
def readBytes (data : List UInt8) (off n : Nat) : Int × List UInt8 :=
  if data.length < off ∨ 2 ^ 32 ≤ off + n then (-1, [])
  else (((data.drop off).take n).length, (data.drop off).take n)

/-- What `writei` returns, and the file it leaves. -/
def writeBytes (data : List UInt8) (src : Nat → UInt8) (off n : Nat) : Int × List UInt8 :=
  if WriteRefused data.length off n then (-1, data) else (n, overlay data src off n)

inductive FileCall
  | read (ip : Fin NINODE) (off n : UInt32)
  | write (ip : Fin NINODE) (src : Nat → UInt8) (off n : UInt32)

def FileCall.inode : FileCall → Fin NINODE
  | .read ip _ _ | .write ip _ _ _ => ip

/-- The call itself, which returns a result and the bytes read. -/
def FileCall.execute : FileCall → Kernel (Int × List UInt8)
  | .read ip off n => readi ip off n
  | .write ip src off n => do
      let result ← writei ip src off n
      return (result, [])

/-- The call on an array of byte lists. -/
def FileCall.onBytes (inum : Fin NINODE → Nat) (files : Nat → List UInt8) :
    FileCall → (Int × List UInt8) × (Nat → List UInt8)
  | .read ip off n => (readBytes (files (inum ip)) off.toNat n.toNat, files)
  | .write ip src off n =>
      let (result, data) := writeBytes (files (inum ip)) src off.toNat n.toNat
      ((result, []), Function.update files (inum ip) data)

def executeAll : List FileCall → Kernel (List (Int × List UInt8))
  | [] => return []
  | call :: rest => do
      let answer ← call.execute
      let answers ← executeAll rest
      return answer :: answers

def allOnBytes (inum : Fin NINODE → Nat) :
    (files : Nat → List UInt8) → List FileCall → List (Int × List UInt8) × (Nat → List UInt8)
  | files, [] => ([], files)
  | files, call :: rest =>
      let (answer, changed) := call.onBytes inum files
      let (answers, final) := allOnBytes inum changed rest
      (answer :: answers, final)

/-- The call is for a locked inode that is not a device, and there are enough
free blocks for it. -/
def FileCall.Legal (state : State) (call : FileCall) : Prop :=
  state.Holds call.inode ∧ (state.icache call.inode).copy.type ≠ T_DEV ∧
    match call with
    | .read _ _ _ => True
    | .write ip _ off n =>
        ¬WriteRefused (state.icache ip).copy.size.toNat off.toNat n.toNat →
          state.blocksNeeded (state.icache ip).inum off.toNat n.toNat ≤ state.freeBlocks

def AllLegal : State → List FileCall → Prop
  | _, [] => True
  | state, call :: rest => call.Legal state ∧
      ∀ answer next, call.execute state = .ok (answer, next) → AllLegal next rest

theorem FileCall.execute_returns {call : FileCall} (consistent : Consistent state.toStore)
    (legal : call.Legal state) (files : Nat → List UInt8)
    (same : ∀ inum, inum < state.sb.ninodes → files inum = state.contents inum) :
    Returns call.execute state fun answer next =>
      answer = (call.onBytes (fun ip => (state.icache ip).inum) files).1 ∧
      Consistent next.toStore ∧ next.sb = state.sb ∧
      (∀ ip, (next.icache ip).inum = (state.icache ip).inum) ∧
      ∀ inum, inum < state.sb.ninodes →
        (call.onBytes (fun ip => (state.icache ip).inum) files).2 inum = next.contents inum := by
  rcases legal with ⟨holds, notDevice, enough⟩
  have bound := (consistent.cache.range call.inode holds.1).2
  cases call with
  | read ip off n =>
    simp only [FileCall.inode] at holds notDevice bound
    refine Meets.imp (readi_returns consistent holds notDevice off n) ?_
    rintro answer next ⟨answered, unchanged⟩
    rw [unchanged]
    simp only [FileCall.onBytes, readBytes]
    rw [same _ bound]
    exact ⟨answered, consistent, trivial, fun _ => trivial, same⟩
  | write ip src off n =>
    simp only [FileCall.inode] at holds notDevice bound
    simp only [Returns, FileCall.execute, meets_bind, meets_pure]
    refine Meets.imp (writei_meets consistent holds notDevice src off n fun accepted =>
      Or.inr (enough accepted)) ?_
    intro result next wrote
    simp only [FileCall.onBytes, writeBytes]
    rw [same _ bound]
    simp only [holds.contents_length consistent.cache] at wrote ⊢
    split at wrote
    · rename_i refused
      rcases wrote with ⟨rfl, unchanged⟩
      rw [unchanged, if_pos refused]
      refine ⟨rfl, consistent, rfl, fun _ => rfl, ?_⟩
      intro inum inside
      rw [Function.update_apply]
      split
      · rename_i own
        rw [own]
      · exact same inum inside
    · rename_i accepted
      rcases wrote with ⟨rfl, after, _, frame, written, _⟩
      rw [if_neg accepted]
      refine ⟨rfl, after, frame.sb, frame.slots.inum, ?_⟩
      intro inum inside
      rw [Function.update_apply]
      split
      · rename_i own
        rw [own]
        exact written.symm
      · rename_i different
        rw [same inum inside, frame.others inum inside different]

theorem executeAll_returns : ∀ (calls : List FileCall) (state : State) (files : Nat → List UInt8),
    Consistent state.toStore → AllLegal state calls →
    (∀ inum, inum < state.sb.ninodes → files inum = state.contents inum) →
    Returns (executeAll calls) state fun answers next =>
      answers = (allOnBytes (fun ip => (state.icache ip).inum) files calls).1 ∧
      Consistent next.toStore ∧
      ∀ inum, inum < state.sb.ninodes →
        (allOnBytes (fun ip => (state.icache ip).inum) files calls).2 inum = next.contents inum
  | [], state, files, consistent, _, same => ⟨rfl, consistent, same⟩
  | call :: rest, state, files, consistent, legal, same => by
      rcases (call.execute_returns consistent legal.1 files same).exists_ok with
        ⟨answer, middle, ran, answered, after, sameSb, inums, contents⟩
      have later := executeAll_returns rest middle
        (call.onBytes (fun ip => (state.icache ip).inum) files).2 after
        (legal.2 answer middle ran) (by rw [sameSb]; exact contents)
      simp only [inums, sameSb] at later
      simp only [Returns, executeAll, meets_bind, meets_pure]
      refine Meets.intro_ok ran (Meets.imp later ?_)
      rintro answers final ⟨rfl, finally_, finalContents⟩
      exact ⟨by rw [answered]; rfl, finally_, finalContents⟩

/-! ## A small file system

Forty blocks, the first 34 of them taken by the layout, and one empty file or
directory, which is in the inode cache. -/

def emptyInode (type : Int16) : Dinode := { Dinode.blank with type := type, nlink := 1 }

def sampleStore (type : Int16) : Store where
  sb := ⟨40, 6, 3, 30, 2, 32, 33⟩
  blocks := fun b =>
    if b = 1 then
      (Bytes.zero BSIZE).putWords 0 (fun index => [40, 6, 3, 30, 2, 32, 33].getD index 0) 7
    else if b = 32 then (emptyInode type).store (Bytes.zero BSIZE) (slotOffset 1)
    else if b = 33 then (Bytes.zero BSIZE).putLE 5 0 (2 ^ 34 - 1)
    else Bytes.zero BSIZE
  icache := fun ip =>
    if ip = 0 then ⟨1, 1, true, emptyInode type⟩ else ⟨0, 0, false, Dinode.blank⟩
  devsw := fun _ => ⟨none, none⟩

/-- The only allocated inode is empty, and is in the inode cache. -/
structure Store.Single (store : Store) (type : Int16) : Prop where
  valid : store.sb.Valid
  superblock : Superblock.load (store.blocks 1) = store.sb
  count : 1 < store.sb.ninodes
  typed : type ≠ 0
  inum : (store.icache 0).inum = 1
  copy : (store.icache 0).copy = emptyInode type
  holds : store.Holds 0
  only : ∀ ip, 0 < (store.icache ip).ref → ip = 0
  stored : store.dinode 1 = emptyInode type
  free : ∀ inum, inum < store.sb.ninodes → 1 < inum → (store.inode inum).type = 0
  marks : ∀ b, b < store.sb.size → (store.marked b = true ↔ b < store.sb.nmeta)

namespace Store.Single

variable {store : Store} {type : Int16} {inum : Nat}

theorem sound (single : store.Single type) : store.Sound where
  valid := single.valid
  superblock := single.superblock
  cache := by
    refine ⟨?_, ?_, ?_⟩
    · intro ip jp first second _
      rw [single.only ip first, single.only jp second]
    · intro ip used
      rw [single.only ip used, single.inum]
      exact ⟨Nat.zero_lt_one, single.count⟩
    · intro ip holds
      rw [single.only ip holds.1, single.copy]
      exact single.typed

theorem eq_one (single : store.Single type) (allocated : store.Allocated inum) : inum = 1 := by
  by_contra other
  have positive := allocated.1
  exact allocated.2.2 (single.free inum allocated.2.1 (by omega))

theorem inode_one (single : store.Single type) : store.inode 1 = emptyInode type := by
  have inode := single.sound.cache.inode_eq single.holds
  rw [single.inum] at inode
  rw [inode, single.copy]

theorem addr_eq_zero (single : store.Single type) (inum index : Nat) : store.addr inum index = 0 := by
  unfold addr
  split
  · rename_i allocated
    rw [single.eq_one allocated, single.inode_one]
    unfold Dinode.addr
    split <;> rfl
  · rfl

theorem number_eq_zero (single : store.Single type) (place : Place) : store.number place = 0 := by
  cases place with
  | direct inum index => exact single.addr_eq_zero inum index
  | entry inum index => rw [number, if_pos (single.addr_eq_zero inum NDIRECT)]

theorem consistent (single : store.Single type) : Consistent store where
  toSound := single.sound
  exact := by
    have empty : ∀ place, store.holder place = none := fun place =>
      holder_eq_none.mpr (single.number_eq_zero place)
    refine ⟨?_, ?_, ?_⟩
    · intro b inside
      simp only [empty, reduceCtorEq, exists_false, or_false]
      exact single.marks b inside
    · intro place b held
      rw [empty] at held
      cases held
    · intro place other b held
      rw [empty] at held
      cases held
  sized := by
    intro inum allocated _ bn
    rw [single.eq_one allocated, single.number_eq_zero, single.inode_one]
    simp [lt_blocksFor, emptyInode, Dinode.blank]
  coherent := by
    intro ip holds
    rw [single.only ip holds.1]
    unfold Store.Coherent
    rw [single.inum, single.stored, single.copy]
    exact ⟨rfl, rfl, rfl⟩

end Store.Single

theorem sampleStore_single {type : Int16} (chosen : type = T_FILE ∨ type = T_DIR) :
    (sampleStore type).Single type := by
  rcases chosen with rfl | rfl
  all_goals exact
    { valid := by decide
      superblock := by decide
      count := by decide
      typed := by decide
      inum := rfl
      copy := rfl
      holds := ⟨by decide, by decide⟩
      only := by decide
      stored := Dinode.load_store _ _ _ (slotOffset_fits 1)
      free := by decide
      marks := by decide }

theorem sampleStore_consistent : Consistent (sampleStore T_FILE) :=
  (sampleStore_single (Or.inl rfl)).consistent

/-! ## The refinement -/

/-- `readi` and `writei` refine reads and writes of byte lists: call by call, and
for every sequence of calls. -/
theorem readi_writei_refine_bytes (state : State) (consistent : Consistent state.toStore) :
    (∀ ip, state.Holds ip → (state.icache ip).copy.type ≠ T_DEV → ∀ off n,
      readi ip off n state =
        .ok (readBytes (state.contents (state.icache ip).inum) off.toNat n.toNat, state)) ∧
    (∀ ip, state.Holds ip → (state.icache ip).copy.type ≠ T_DEV → ∀ src off n,
      let data := state.contents (state.icache ip).inum
      (WriteRefused data.length off.toNat n.toNat → writei ip src off n state = .ok (-1, state)) ∧
      (¬WriteRefused data.length off.toNat n.toNat →
        state.blocksNeeded (state.icache ip).inum off.toNat n.toNat ≤ state.freeBlocks →
        ∃ next, writei ip src off n state = .ok ((n.toNat : Int), next) ∧
          Consistent next.toStore ∧
          next.contents (state.icache ip).inum = overlay data src off.toNat n.toNat ∧
          ∀ inum, inum < state.sb.ninodes → inum ≠ (state.icache ip).inum →
            next.contents inum = state.contents inum)) ∧
    (∀ calls, AllLegal state calls →
      ∃ final, executeAll calls state =
          .ok ((allOnBytes (fun ip => (state.icache ip).inum) state.contents calls).1, final) ∧
        Consistent final.toStore ∧
        ∀ inum, inum < state.sb.ninodes → final.contents inum =
          (allOnBytes (fun ip => (state.icache ip).inum) state.contents calls).2 inum) := by
  refine ⟨?_, ?_, ?_⟩
  · intro ip holds notDevice off n
    rcases (readi_returns consistent holds notDevice off n).exists_ok with
      ⟨answer, next, ran, answered, unchanged⟩
    rw [ran, answered, unchanged, readBytes]
  · intro ip holds notDevice src off n data
    have length : data.length = (state.icache ip).copy.size.toNat :=
      holds.contents_length consistent.cache
    refine ⟨?_, ?_⟩
    · intro refused
      rcases Returns.exists_ok (writei_meets consistent holds notDevice src off n
        fun accepted => absurd (length ▸ refused) accepted) with ⟨result, next, ran, wrote⟩
      rw [if_pos refused] at wrote
      rw [ran, wrote.1, wrote.2]
    · intro accepted enough
      rcases Returns.exists_ok (writei_meets consistent holds notDevice src off n
        fun _ => Or.inr enough) with ⟨result, next, ran, wrote⟩
      rw [if_neg accepted] at wrote
      rcases wrote with ⟨rfl, after, _, frame, written, _⟩
      exact ⟨next, ran, after, written, frame.others⟩
  · intro calls legal
    rcases (executeAll_returns calls state state.contents consistent legal
      fun _ _ => rfl).exists_ok with ⟨answers, final, ran, rfl, after, contents⟩
    exact ⟨final, ran, after, fun inum inside => (contents inum inside).symm⟩

/-- Three bytes written to the empty file of the small file system. -/
theorem readi_writei_refine_bytes_sample :
    ∃ final, executeAll [.write 0 (fun index => UInt8.ofNat (index + 1)) 0 3] ⟨sampleStore T_FILE, []⟩ =
        .ok ([(3, [])], final) ∧ Consistent final.toStore ∧ final.contents 1 = [1, 2, 3] := by
  have refines := readi_writei_refine_bytes ⟨sampleStore T_FILE, []⟩ sampleStore_consistent
  have legal : AllLegal ⟨sampleStore T_FILE, []⟩
      [.write 0 (fun index => UInt8.ofNat (index + 1)) 0 3] :=
    ⟨⟨⟨by decide, by decide⟩, by decide, fun _ => by decide⟩, fun _ _ _ => trivial⟩
  rcases refines.2.2 _ legal with ⟨final, ran, consistent, contents⟩
  exact ⟨final, ran, consistent, contents 1 (by decide)⟩

end Xv6.Fs
