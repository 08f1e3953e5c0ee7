import Xv6.Fs.Files

/-! # The inode cache

`iget`, `idup`, `ilock`, `ialloc` and `iupdate` change which inodes are cached,
and the inodes on disk, but not the files.
-/

namespace Xv6.Fs

open Program Store

variable {left right : Dinode} {slot : Inode}

/-- The inodes have the same blocks, and these the same contents. -/
structure SameFiles (store next : Store) : Prop where
  inodes : Store.SameInodes store next
  superblock : next.blocks 1 = store.blocks 1
  data : ∀ b, store.sb.nmeta ≤ b → next.blocks b = store.blocks b
  marks : ∀ b, b < store.sb.size → next.marked b = store.marked b

namespace SameFiles

variable {store next : Store}

theorem number (same : SameFiles store next) (exact : store.Exact) (place : Place) :
    next.number place = store.number place := by
  apply same.inodes.number
  intro inum present
  exact same.data _ (exact.table present)

theorem exact (same : SameFiles store next) (exact : store.Exact) : next.Exact := by
  unfold Store.Exact
  rw [same.inodes.sb]
  refine Allocation.Exact.congr exact
    (fun place => holder_congr (same.number exact place)) ?_
  intro b inside
  rw [same.marks b inside]

theorem sized (same : SameFiles store next) (exact : store.Exact)
    (sized : ∀ inum, store.Allocated inum → (store.inode inum).type ≠ T_DEV → store.Sized inum)
    (inum : Nat) (allocated : next.Allocated inum) (notDevice : (next.inode inum).type ≠ T_DEV) :
    next.Sized inum := by
  have before := (same.inodes.allocated inum).mp allocated
  have inode := same.inodes.inode inum before.1 before.2.1
  intro bn
  rw [same.number exact, ← inode.size]
  exact sized inum before (by rw [inode.type]; exact notDevice) bn

/-- With a cache in order the file system is consistent if it was before. -/
theorem consistent (same : SameFiles store next) (consistent : Consistent store)
    (cache : next.CacheValid) (coherent : ∀ ip, next.Holds ip → next.Coherent ip) :
    Consistent next where
  valid := same.inodes.sb ▸ consistent.valid
  superblock := by rw [same.superblock, same.inodes.sb, consistent.superblock]
  cache := cache
  exact := same.exact consistent.exact
  sized := same.sized consistent.exact consistent.sized
  coherent := coherent

theorem of_icache {icache : Fin NINODE → Inode}
    (inode : ∀ inum, 0 < inum → inum < store.sb.ninodes →
      Dinode.SameBlocks (store.inode inum) ({ store with icache := icache }.inode inum)) :
    SameFiles store { store with icache := icache } where
  inodes := ⟨rfl, inode⟩
  superblock := rfl
  data := fun _ _ => rfl
  marks := fun _ _ => rfl

end SameFiles

theorem Dinode.SameBlocks.refl (dinode : Dinode) : Dinode.SameBlocks dinode dinode :=
  ⟨rfl, rfl, rfl⟩

theorem Dinode.SameBlocks.symm (same : Dinode.SameBlocks left right) :
    Dinode.SameBlocks right left :=
  ⟨same.type.symm, same.size.symm, same.addrs.symm⟩

theorem Dinode.SameBlocks.trans {middle : Dinode} (first : Dinode.SameBlocks left middle)
    (second : Dinode.SameBlocks middle right) :
    Dinode.SameBlocks left right :=
  ⟨first.type.trans second.type, first.size.trans second.size, first.addrs.trans second.addrs⟩

theorem Dinode.SameBlocks.of_eq (equal : right = left) :
    Dinode.SameBlocks left right :=
  equal ▸ .refl left

namespace Store

variable {store : Store} {ip : Fin NINODE}

/-! ## Replacing one cache entry -/

def setSlot (store : Store) (ip : Fin NINODE) (slot : Inode) : Store :=
  { store with icache := Function.update store.icache ip slot }

@[simp] theorem setSlot_self (slot : Inode) : (store.setSlot ip slot).icache ip = slot :=
  Function.update_self ..

theorem setSlot_of_ne {jp : Fin NINODE} (different : jp ≠ ip) (slot : Inode) :
    (store.setSlot ip slot).icache jp = store.icache jp :=
  Function.update_of_ne different ..

@[simp] theorem setSlot_dinode (slot : Inode) (inum : Nat) :
    (store.setSlot ip slot).dinode inum = store.dinode inum := rfl

def addRef (store : Store) (ip : Fin NINODE) : Store :=
  store.setSlot ip { store.icache ip with ref := (store.icache ip).ref + 1 }

def dropRef (store : Store) (ip : Fin NINODE) : Store :=
  store.setSlot ip { store.icache ip with ref := (store.icache ip).ref - 1 }

def takeSlot (store : Store) (ip : Fin NINODE) (inum : Nat) : Store :=
  store.setSlot ip { store.icache ip with inum := inum, ref := 1, valid := false }

def loadSlot (store : Store) (ip : Fin NINODE) : Store :=
  store.setSlot ip
    { store.icache ip with copy := store.dinode (store.icache ip).inum, valid := true }

/-- Change the fields of the copy other than type, size and blocks. -/
def setFields (store : Store) (ip : Fin NINODE) (major minor nlink : Int16) : Store :=
  store.setSlot ip { store.icache ip with
    copy := { (store.icache ip).copy with major := major, minor := minor, nlink := nlink } }

/-- The entry may be replaced by one for the same inode, or an unused entry by
one for an inode that is not cached. -/
theorem setSlot_single (cache : store.CacheValid)
    (owner : 0 < slot.ref → (0 < (store.icache ip).ref ∧ slot.inum = (store.icache ip).inum) ∨
      ∀ jp, 0 < (store.icache jp).ref → (store.icache jp).inum ≠ slot.inum) :
    ∀ jp kp, 0 < ((store.setSlot ip slot).icache jp).ref →
      0 < ((store.setSlot ip slot).icache kp).ref →
      ((store.setSlot ip slot).icache jp).inum = ((store.setSlot ip slot).icache kp).inum →
      jp = kp := by
  have other : ∀ jp, jp ≠ ip → 0 < slot.ref → 0 < (store.icache jp).ref →
      (store.icache jp).inum ≠ slot.inum := by
    intro jp different used jpUsed equal
    rcases owner used with ⟨ipUsed, same⟩ | fresh
    · exact different (cache.single jp ip jpUsed ipUsed (equal.trans same))
    · exact fresh jp jpUsed equal
  intro jp kp
  by_cases first : jp = ip <;> by_cases second : kp = ip
  · intro _ _ _
    rw [first, second]
  · subst first
    rw [setSlot_self, setSlot_of_ne second]
    exact fun used kpUsed equal => absurd equal.symm (other kp second used kpUsed)
  · subst second
    rw [setSlot_self, setSlot_of_ne first]
    exact fun jpUsed used equal => absurd equal (other jp first used jpUsed)
  · rw [setSlot_of_ne first, setSlot_of_ne second]
    exact cache.single jp kp

theorem setSlot_inode (cache : store.CacheValid) (next : (store.setSlot ip slot).CacheValid)
    (inum : Nat) :
    (store.setSlot ip slot).inode inum =
      if 0 < slot.ref ∧ slot.valid = true ∧ slot.inum = inum then slot.copy
      else if store.Holds ip ∧ (store.icache ip).inum = inum then store.dinode inum
      else store.inode inum := by
  by_cases replaced : 0 < slot.ref ∧ slot.valid = true ∧ slot.inum = inum
  · rw [if_pos replaced]
    have holds : (store.setSlot ip slot).Holds ip := by
      unfold Holds
      rw [setSlot_self]
      exact ⟨replaced.1, replaced.2.1⟩
    have read := next.inode_eq holds
    rw [setSlot_self, replaced.2.2] at read
    exact read
  · rw [if_neg replaced]
    by_cases elsewhere : ∃ jp, jp ≠ ip ∧ store.Holds jp ∧ (store.icache jp).inum = inum
    · rcases elsewhere with ⟨jp, different, holds, own⟩
      have nextHolds : (store.setSlot ip slot).Holds jp := by
        unfold Holds
        rw [setSlot_of_ne different]
        exact holds
      have read := next.inode_eq nextHolds
      rw [setSlot_of_ne different, own] at read
      rw [read, ← cache.inode_eq holds, own, if_neg]
      exact fun dropped =>
        different (cache.single jp ip holds.1 dropped.1.1 (own.trans dropped.2.symm))
    · have uncached : (store.setSlot ip slot).inode inum = store.dinode inum := by
        apply inode_eq_dinode
        intro jp holds equal
        unfold Holds at holds
        by_cases same : jp = ip
        · rw [same, setSlot_self] at holds equal
          exact replaced ⟨holds.1, holds.2, equal⟩
        · rw [setSlot_of_ne same] at holds equal
          exact elsewhere ⟨jp, same, holds, equal⟩
      rw [uncached]
      split
      · rfl
      · rename_i kept
        refine (inode_eq_dinode fun jp holds equal => ?_).symm
        by_cases same : jp = ip
        · exact kept (same ▸ ⟨holds, equal⟩)
        · exact elsewhere ⟨jp, same, holds, equal⟩

end Store

section

variable {store : Store} {ip : Fin NINODE}

theorem Consistent.sameBlocks (consistent : Consistent store) (inum : Nat) :
    Dinode.SameBlocks (store.dinode inum) (store.inode inum) := by
  unfold inode
  split
  · rename_i jp found
    rcases cached_eq_some found with ⟨holds, own⟩
    have coherent := consistent.coherent jp holds
    rw [Store.Coherent, own] at coherent
    exact coherent
  · exact .refl _

theorem Consistent.setSlot (consistent : Consistent store)
    (owner : 0 < slot.ref → (0 < (store.icache ip).ref ∧ slot.inum = (store.icache ip).inum) ∨
      ∀ jp, 0 < (store.icache jp).ref → (store.icache jp).inum ≠ slot.inum)
    (range : 0 < slot.ref → 0 < slot.inum ∧ slot.inum < store.sb.ninodes)
    (typed : 0 < slot.ref → slot.valid = true → slot.copy.type ≠ 0)
    (copied : 0 < slot.ref → slot.valid = true →
      Dinode.SameBlocks (store.dinode slot.inum) slot.copy) :
    SameFiles store (store.setSlot ip slot) ∧ Consistent (store.setSlot ip slot) := by
  have cache : (store.setSlot ip slot).CacheValid := by
    refine ⟨setSlot_single consistent.cache owner, ?_, ?_⟩
    · exact (Function.forall_update_iff store.icache fun _ inode => 0 < inode.ref →
        0 < inode.inum ∧ inode.inum < store.sb.ninodes).mpr
        ⟨range, fun jp _ => consistent.cache.range jp⟩
    · exact (Function.forall_update_iff store.icache fun _ inode =>
        0 < inode.ref ∧ inode.valid = true → inode.copy.type ≠ 0).mpr
        ⟨fun holds => typed holds.1 holds.2, fun jp _ => consistent.cache.typed jp⟩
  have same : SameFiles store (store.setSlot ip slot) := by
    apply SameFiles.of_icache
    intro inum _ _
    change Dinode.SameBlocks _ ((store.setSlot ip slot).inode inum)
    have onDisk := consistent.sameBlocks inum
    rw [setSlot_inode consistent.cache cache]
    split
    · rename_i replaced
      have blocks := copied replaced.1 replaced.2.1
      rw [replaced.2.2] at blocks
      exact onDisk.symm.trans blocks
    · split
      · exact onDisk.symm
      · exact .refl _
  refine ⟨same, same.consistent consistent cache ?_⟩
  exact (Function.forall_update_iff store.icache fun _ inode =>
    0 < inode.ref ∧ inode.valid = true →
      Dinode.SameBlocks (store.dinode inode.inum) inode.copy).mpr
    ⟨fun holds => copied holds.1 holds.2, fun jp _ => consistent.coherent jp⟩

theorem Store.putInode_inode (inum : Nat) (dinode : Dinode) (other : Nat) :
    (store.putInode inum dinode).inode other =
      if other = inum ∧ store.cached inum = none then dinode else store.inode other := by
  have cached : (store.putInode inum dinode).cached other = store.cached other :=
    cached_congr rfl other
  unfold inode
  rw [cached, putInode_dinode]
  by_cases same : other = inum
  · subst same
    cases found : store.cached other with
    | none => simp
    | some jp => simp [putInode, putBlock]
  · simp only [same, if_false, false_and]
    rfl

theorem Store.Sound.putInode_sameFiles (sound : store.Sound) {inum : Nat}
    (bound : inum < store.sb.ninodes) {dinode : Dinode}
    (inode : ∀ other, 0 < other → other < store.sb.ninodes →
      Dinode.SameBlocks (store.inode other) ((store.putInode inum dinode).inode other)) :
    SameFiles store (store.putInode inum dinode) where
  inodes := ⟨rfl, inode⟩
  superblock := putBlock_blocks_of_ne (sound.valid.iblock_ne_one inum).symm _
  data := fun _ isData => putInode_blocks sound.valid bound isData dinode
  marks := fun b _ => putInode_marked sound.valid bound dinode b

theorem Store.putInode_cacheValid (cache : store.CacheValid) (inum : Nat) (dinode : Dinode) :
    (store.putInode inum dinode).CacheValid :=
  ⟨cache.single, cache.range, cache.typed⟩

/-- `iupdate` brings the disk up to date. -/
theorem Consistent.flush (consistent : Consistent store) (holds : store.Holds ip) :
    SameFiles store (store.putInode (store.icache ip).inum (store.icache ip).copy) ∧
      Consistent (store.putInode (store.icache ip).inum (store.icache ip).copy) := by
  have same : SameFiles store (store.putInode (store.icache ip).inum (store.icache ip).copy) := by
    refine consistent.putInode_sameFiles (consistent.cache.range ip holds.1).2 ?_
    intro other _ _
    rw [putInode_inode, consistent.cache.cached_eq holds]
    simp only [reduceCtorEq, and_false, if_false]
    exact .refl _
  refine ⟨same, same.consistent consistent (putInode_cacheValid consistent.cache _ _) ?_⟩
  intro jp jpHolds
  unfold Store.Coherent
  rw [putInode_dinode]
  change Dinode.SameBlocks (if (store.icache jp).inum = (store.icache ip).inum then _ else _)
    (store.icache jp).copy
  split
  · rename_i equal
    rw [consistent.cache.single jp ip jpHolds.1 holds.1 equal]
    exact .refl _
  · exact consistent.coherent jp jpHolds

end

/-! ## The functions of the cache -/

section

variable {state : State} {store : Store} {ip : Fin NINODE} {inum : Nat}

/-- What `iget` does: it adds a reference to the entry of the inode, or takes an
unused entry if there is none. -/
def Got (state : State) (inum : Nat) (ip : Fin NINODE) (next : State) : Prop :=
  (0 < (state.icache ip).ref ∧ (state.icache ip).inum = inum ∧
    next = { state with toStore := state.addRef ip }) ∨
  ((∀ jp, 0 < (state.icache jp).ref → (state.icache jp).inum ≠ inum) ∧
    (state.icache ip).ref = 0 ∧ next = { state with toStore := state.takeSlot ip inum })

theorem iget_meets (state : State) (inum : Nat) :
    Meets (iget inum) state (· = .igetNoInodes) (Got state inum) := by
  simp only [iget, meets_bind, meets_get]
  split
  · rename_i ip found
    have used := List.find?_some found
    simp only [decide_eq_true_eq] at used
    simp only [meets_bind, setInode, meets_modify, meets_pure]
    exact Or.inl ⟨used.1, used.2, rfl⟩
  · rename_i missing
    have uncached : ∀ jp, 0 < (state.icache jp).ref → (state.icache jp).inum ≠ inum := by
      intro jp used equal
      have refuted := List.find?_eq_none.mp missing jp (List.mem_finRange jp)
      simp only [decide_eq_true_eq] at refuted
      exact refuted ⟨used, equal⟩
    split
    · rename_i ip found
      have unused := List.find?_some found
      simp only [decide_eq_true_eq] at unused
      simp only [meets_bind, setInode, meets_modify, meets_pure]
      exact Or.inr ⟨uncached, unused, rfl⟩
    · exact rfl

theorem Consistent.setRef (consistent : Consistent store) (used : 0 < (store.icache ip).ref)
    (ref : Nat) : SameFiles store (store.setSlot ip { store.icache ip with ref := ref }) ∧
      Consistent (store.setSlot ip { store.icache ip with ref := ref }) :=
  consistent.setSlot (fun _ => Or.inl ⟨used, rfl⟩) (fun _ => consistent.cache.range ip used)
    (fun _ valid => consistent.cache.typed ip ⟨used, valid⟩)
    (fun _ valid => consistent.coherent ip ⟨used, valid⟩)

theorem Consistent.takeSlot (consistent : Consistent store) (ip : Fin NINODE)
    (uncached : ∀ jp, 0 < (store.icache jp).ref → (store.icache jp).inum ≠ inum)
    (positive : 0 < inum) (bound : inum < store.sb.ninodes) :
    SameFiles store (store.takeSlot ip inum) ∧ Consistent (store.takeSlot ip inum) :=
  consistent.setSlot (fun _ => Or.inr uncached) (fun _ => ⟨positive, bound⟩)
    (fun _ valid => by contradiction) (fun _ valid => by contradiction)

theorem Consistent.iget (consistent : Consistent state.toStore) (positive : 0 < inum)
    (bound : inum < state.sb.ninodes) :
    Meets (Fs.iget inum) state (· = .igetNoInodes) fun ip next =>
      Consistent next.toStore ∧ SameFiles state.toStore next.toStore ∧
        next.events = state.events ∧ 0 < (next.icache ip).ref ∧
        (next.icache ip).inum = inum := by
  refine Meets.imp (iget_meets state inum) ?_
  rintro ip next (⟨used, own, rfl⟩ | ⟨uncached, _, rfl⟩)
  · have changed := consistent.setRef used ((state.icache ip).ref + 1)
    refine ⟨changed.2, changed.1, rfl, ?_, ?_⟩
    · rw [addRef, setSlot_self]
      exact Nat.succ_pos _
    · rw [addRef, setSlot_self]
      exact own
  · have changed := consistent.takeSlot ip uncached positive bound
    refine ⟨changed.2, changed.1, rfl, ?_, ?_⟩
    · rw [Store.takeSlot, Store.setSlot_self]
      exact Nat.one_pos
    · rw [Store.takeSlot, Store.setSlot_self]

theorem idup_returns (state : State) (ip : Fin NINODE) :
    Returns (idup ip) state fun jp next =>
      jp = ip ∧ next = { state with toStore := state.addRef ip } :=
  ⟨rfl, rfl⟩

/-- `ilock` makes the copy valid; it finds no type only for a free inode. -/
theorem ilock_meets (used : 0 < (state.icache ip).ref) :
    Meets (ilock ip) state
      (fun panic => panic = .ilockNoType ∧ (state.icache ip).valid = false ∧
        (state.dinode (state.icache ip).inum).type = 0) fun _ next =>
      ((state.icache ip).valid = true ∧ next = state) ∨
      ((state.icache ip).valid = false ∧ (state.dinode (state.icache ip).inum).type ≠ 0 ∧
        next = { state with toStore := state.loadSlot ip }) := by
  have referenced : ¬(state.icache ip).ref < 1 := by omega
  simp only [ilock, meets_bind, meets_get, referenced, if_false]
  split
  · rename_i valid
    exact Or.inl ⟨valid, rfl⟩
  · rename_i invalid
    simp only [Bool.not_eq_true] at invalid
    simp only [setInode, meets_bind, meets_modify, meets_ite, meets_throw, meets_pure]
    refine ⟨fun free => ⟨trivial, invalid, free⟩, fun typed => Or.inr ⟨invalid, typed, rfl⟩⟩

theorem Consistent.loadSlot (consistent : Consistent store) (used : 0 < (store.icache ip).ref)
    (typed : (store.dinode (store.icache ip).inum).type ≠ 0) :
    SameFiles store (store.loadSlot ip) ∧ Consistent (store.loadSlot ip) :=
  consistent.setSlot (fun _ => Or.inl ⟨used, rfl⟩) (fun _ => consistent.cache.range ip used)
    (fun _ _ => typed) (fun _ _ => .refl _)

theorem Consistent.ilock (consistent : Consistent state.toStore)
    (used : 0 < (state.icache ip).ref) :
    Meets (Fs.ilock ip) state (· = .ilockNoType) fun _ next =>
      Consistent next.toStore ∧ SameFiles state.toStore next.toStore ∧
        next.events = state.events ∧ next.Holds ip := by
  refine Meets.mono (ilock_meets used) (fun _ failed => failed.1) ?_
  rintro _ next (⟨valid, unchanged⟩ | ⟨invalid, typed, rfl⟩)
  · rw [unchanged]
    exact ⟨consistent, .of_icache fun _ _ _ => .refl _, rfl, used, valid⟩
  · have changed := consistent.loadSlot used typed
    refine ⟨changed.2, changed.1, rfl, ?_⟩
    unfold Store.Holds
    rw [Store.loadSlot, Store.setSlot_self]
    exact ⟨used, rfl⟩

theorem Consistent.setFields (consistent : Consistent store) (holds : store.Holds ip)
    (major minor nlink : Int16) :
    SameFiles store (store.setFields ip major minor nlink) ∧
      Consistent (store.setFields ip major minor nlink) := by
  have coherent := consistent.coherent ip holds
  exact consistent.setSlot (fun _ => Or.inl ⟨holds.1, rfl⟩)
    (fun _ => consistent.cache.range ip holds.1)
    (fun _ _ => consistent.cache.typed ip holds)
    (fun _ _ => ⟨coherent.type, coherent.size, coherent.addrs⟩)

theorem putDinode_returns (state : State) (inum : Nat) (dinode : Dinode) :
    Returns (putDinode inum dinode) state fun _ next => next = { state with
      toStore := state.putInode inum dinode
      events := .logWrite (state.sb.iblock inum) :: state.events } := by
  simp only [Returns, putDinode, bread, logWrite, meets_bind, meets_get, meets_modify, meets_pure]
  rfl

theorem Consistent.iupdate (consistent : Consistent state.toStore) (holds : state.Holds ip) :
    Returns (Fs.iupdate ip) state fun _ next =>
      Consistent next.toStore ∧ SameFiles state.toStore next.toStore ∧ Records state next ∧
        next.toStore = state.putInode (state.icache ip).inum (state.icache ip).copy := by
  have changed := consistent.flush holds
  simp only [Returns, Fs.iupdate, meets_bind, meets_get]
  refine Meets.imp (putDinode_returns state _ _) ?_
  rintro _ next rfl
  exact ⟨changed.2, changed.1, .logWrite rfl, rfl⟩

/-! ## Allocating an inode -/

theorem Consistent.uncached_of_free {store : Store} (consistent : Consistent store) {inum : Nat}
    (free : (store.dinode inum).type = 0) : store.cached inum = none := by
  cases found : store.cached inum with
  | none => rfl
  | some jp =>
    rcases cached_eq_some found with ⟨holds, own⟩
    have coherent := consistent.coherent jp holds
    rw [Store.Coherent, own] at coherent
    exact absurd (coherent.type.symm.trans free) (consistent.cache.typed jp holds)

theorem Consistent.putEmpty {store : Store} (consistent : Consistent store) {inum : Nat}
    (bound : inum < store.sb.ninodes) (uncached : store.cached inum = none)
    (vacant : ∀ index, store.addr inum index = 0) {dinode : Dinode}
    (size : dinode.size = 0) (addrs : dinode.addrs = fun _ => 0) :
    Consistent (store.putInode inum dinode) ∧
      ∀ place, (store.putInode inum dinode).number place = store.number place := by
  have blank : ∀ index, dinode.addr index = 0 := by
    intro index
    rw [Dinode.addr, addrs]
    split <;> rfl
  have own : ∀ other, (store.putInode inum dinode).inode other =
      if other = inum then dinode else store.inode other := by
    intro other
    rw [putInode_inode, uncached]
    simp only [and_true]
  have addr : ∀ other index,
      (store.putInode inum dinode).addr other index = store.addr other index := by
    intro other index
    by_cases same : other = inum
    · subst same
      rw [vacant, addr, own, if_pos rfl, blank, ite_self]
    · have sameInode : (store.putInode inum dinode).inode other = store.inode other := by
        rw [own, if_neg same]
      exact addr_congr (show (store.putInode inum dinode).sb = store.sb from rfl)
        sameInode index
  have number : ∀ place, (store.putInode inum dinode).number place = store.number place := by
    intro place
    cases place with
    | direct other index => exact addr other index
    | entry other index =>
      simp only [number, addr]
      split
      · rfl
      · rename_i present
        rw [putInode_blocks consistent.valid bound (consistent.exact.table present)]
  refine ⟨⟨⟨consistent.valid, ?_, putInode_cacheValid consistent.cache _ _⟩, ?_, ?_, ?_⟩,
    number⟩
  · exact (congrArg Superblock.load (putBlock_blocks_of_ne
      (consistent.valid.iblock_ne_one inum).symm _)).trans consistent.superblock
  · refine Allocation.Exact.congr consistent.exact
      (fun place => holder_congr (number place)) ?_
    intro b _
    rw [putInode_marked consistent.valid bound]
  · intro other allocated notDevice bn
    rw [number, own]
    rw [own] at notDevice
    by_cases same : other = inum
    · subst same
      have none : store.number (.data other bn) = 0 := by
        unfold Place.data
        split
        · exact vacant bn
        · rw [Store.number, if_pos (vacant NDIRECT)]
      rw [if_pos rfl, size, lt_blocksFor]
      simp [none]
    · rw [if_neg same] at notDevice ⊢
      have wasAllocated : store.Allocated other := by
        unfold Store.Allocated at allocated
        rw [own, if_neg same] at allocated
        exact allocated
      exact consistent.sized other wasAllocated notDevice bn
  · intro jp holds
    have different : (store.icache jp).inum ≠ inum := cached_eq_none uncached jp holds
    unfold Store.Coherent
    rw [putInode_dinode]
    change Dinode.SameBlocks (if (store.icache jp).inum = inum then _ else _)
      (store.icache jp).copy
    rw [if_neg different]
    exact consistent.coherent jp holds

theorem Consistent.vacant_of_free {store : Store} (consistent : Consistent store) {inum : Nat}
    (free : (store.dinode inum).type = 0) (index : Nat) : store.addr inum index = 0 := by
  have unallocated : ¬store.Allocated inum := by
    rintro ⟨_, _, typed⟩
    rw [inode, consistent.uncached_of_free free] at typed
    exact typed free
  rw [addr, if_neg unallocated]

/-- `ialloc` writes an empty inode over a free one, and gets it. -/
theorem ialloc_meets (state : State) (type : Int16) (fails : Panic → Prop)
    (none : fails .iallocNoInodes) (post : Fin NINODE → State → Prop)
    (found : ∀ inum, 0 < inum → inum < state.sb.ninodes → (state.dinode inum).type = 0 →
      Meets (iget inum) { state with
        toStore := state.putInode inum { Dinode.blank with type := type }
        events := .logWrite (state.sb.iblock inum) :: state.events } fails post) :
    Meets (ialloc type) state fails post := by
  simp only [ialloc, meets_bind, meets_get]
  split
  · rename_i inum first
    have free := List.find?_some first
    have member := List.mem_of_find?_eq_some first
    simp only [decide_eq_true_eq] at free
    simp only [List.mem_range', Nat.one_mul] at member
    rw [meets_bind]
    refine Meets.imp (putDinode_returns state inum _).meets ?_
    rintro _ middle rfl
    exact found inum (by omega) (by omega) free
  · exact none

theorem Consistent.ialloc (consistent : Consistent state.toStore) (type : Int16) :
    Meets (Fs.ialloc type) state
      (fun panic => panic = .iallocNoInodes ∨ panic = .igetNoInodes) fun ip next =>
      Consistent next.toStore ∧ Records state next ∧ 0 < (next.icache ip).ref ∧
        (state.dinode (next.icache ip).inum).type = 0 := by
  refine ialloc_meets state type _ (Or.inl rfl) _ fun inum positive bound free => ?_
  have created := (consistent.putEmpty bound (consistent.uncached_of_free free)
    (consistent.vacant_of_free free)
    (show ({ Dinode.blank with type := type } : Dinode).size = 0 from rfl) rfl).1
  refine Meets.mono (created.iget positive bound) (fun _ failed => Or.inr failed) ?_
  rintro ip next ⟨after, _, events, used, own⟩
  exact ⟨after, .logWrite events, used, own ▸ free⟩

end

end Xv6.Fs
