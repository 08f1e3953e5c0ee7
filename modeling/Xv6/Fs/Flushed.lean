import Xv6.Fs.Calls
import Xv6.Fs.Slots

/-! # Inodes that are on the disk as in the cache

The system calls write every change of an inode to the disk before they go on. So
the inodes in the cache are those on the disk, and each function of the inode
layer changes one inode at most.
-/

namespace Xv6.Fs

open Program Store

variable {store next : Store} {inum : Nat}

/-- A consistent file system in which every cached inode is on the disk. -/
structure Flushed (store : Store) : Prop extends Consistent store where
  through : ∀ inum, inum < store.sb.ninodes → store.dinode inum = store.inode inum

/-- What inodes other than the touched ones are and hold is the same in both states. -/
structure Untouched (touched : Nat → Prop) (store next : Store) : Prop where
  sb : next.sb = store.sb
  inode : ∀ inum, inum < store.sb.ninodes → ¬touched inum →
    next.inode inum = store.inode inum
  contents : ∀ inum, inum < store.sb.ninodes → ¬touched inum →
    next.contents inum = store.contents inum

theorem Untouched.refl (touched : Nat → Prop) (store : Store) : Untouched touched store store :=
  ⟨rfl, fun _ _ _ => rfl, fun _ _ _ => rfl⟩

theorem Untouched.trans {touched : Nat → Prop} {middle : Store}
    (first : Untouched touched store middle) (second : Untouched touched middle next) :
    Untouched touched store next where
  sb := second.sb.trans first.sb
  inode := fun inum bound other =>
    (second.inode inum (first.sb ▸ bound) other).trans (first.inode inum bound other)
  contents := fun inum bound other =>
    (second.contents inum (first.sb ▸ bound) other).trans (first.contents inum bound other)

theorem Untouched.mono {touched more : Nat → Prop} (same : Untouched touched store next)
    (implies : ∀ inum, touched inum → more inum) :
    Untouched more store next where
  sb := same.sb
  inode := fun inum bound other => same.inode inum bound fun it => other (implies inum it)
  contents := fun inum bound other => same.contents inum bound fun it => other (implies inum it)

theorem NoneAdded.refl (store : Store) : NoneAdded store store := fun _ _ => rfl

theorem NoneAdded.trans {middle : Store} (first : NoneAdded store middle)
    (second : NoneAdded middle next) : NoneAdded store next := by
  intro place present
  have same := second place present
  exact same.trans (first place (same ▸ present))

/-- What two inodes say besides their size and blocks. -/
structure Dinode.SameFields (left right : Dinode) : Prop where
  type : right.type = left.type
  major : right.major = left.major
  minor : right.minor = left.minor
  nlink : right.nlink = left.nlink

theorem Dinode.SameFields.of_eq {left right : Dinode} (equal : right = left) :
    Dinode.SameFields left right := by
  subst equal
  exact ⟨rfl, rfl, rfl, rfl⟩

/-! ## Contents and blocks -/

section

variable {store next : Store} {inum : Nat}

theorem Store.contents_congr (size : (next.inode inum).size = (store.inode inum).size)
    (number : ∀ place, next.number place = store.number place)
    (blocks : ∀ place, store.number place ≠ 0 →
      next.blocks (store.number place) = store.blocks (store.number place)) :
    next.contents inum = store.contents inum := by
  rw [contents, size, contents]
  apply List.map_congr_left
  intro position _
  simp only [fileByte, fileBlock, number]
  split
  · rfl
  · rename_i present
    rw [blocks _ present]

theorem Store.contents_of_empty (empty : (store.inode inum).size = 0) :
    store.contents inum = [] := by
  rw [contents, empty]
  rfl

theorem Store.number_of_free {place : Place} (free : ¬store.Allocated place.inum) :
    store.number place = 0 := by
  have addr : ∀ index, store.addr place.inum index = 0 := fun _ => if_neg free
  cases place with
  | direct inum index => exact addr index
  | entry inum index => exact if_pos (addr NDIRECT)

/-- When an inode has become free and no place has got another block, the blocks of
the inode are free. -/
theorem Consistent.unmarked_of_free (before : Consistent store) (after : Consistent next)
    (sb : next.sb = store.sb) (noneAdded : NoneAdded store next) {place : Place}
    (free : ¬next.Allocated place.inum) (present : store.number place ≠ 0) :
    next.marked (store.number place) = false := by
  have data := before.exact.data present
  rw [← Bool.not_eq_true]
  intro marked
  rw [← sb] at data
  rcases (after.exact.marked_iff _ data.2).mp marked with reserved | ⟨other, held⟩
  · exact absurd reserved (Nat.not_lt.mpr data.1)
  · rcases holder_eq_some.mp held with ⟨same, _⟩
    have kept := noneAdded other (same ▸ present)
    have isPlace := before.exact.number_inj present (same.symm.trans kept)
    rw [← isPlace, number_of_free free] at same
    exact present same.symm

end

/-! ## Changes of one entry or one inode -/

section

variable {store : Store} {ip : Fin NINODE}

/-- The cache has changed, but no inode. -/
structure Recached (store next : Store) : Prop where
  flushed : Flushed next
  untouched : Untouched (fun _ => False) store next
  noneAdded : NoneAdded store next

section

variable (flushed : Flushed store)
include flushed

theorem Flushed.setSlot {slot : Inode}
    (owner : 0 < slot.ref → (0 < (store.icache ip).ref ∧ slot.inum = (store.icache ip).inum) ∨
      ∀ jp, 0 < (store.icache jp).ref → (store.icache jp).inum ≠ slot.inum)
    (range : 0 < slot.ref → 0 < slot.inum ∧ slot.inum < store.sb.ninodes)
    (copied : 0 < slot.ref → slot.valid = true →
      slot.copy.type ≠ 0 ∧ slot.copy = store.dinode slot.inum) :
    Recached store (store.setSlot ip slot) := by
  have changed := flushed.toConsistent.setSlot owner range
    (fun used valid => (copied used valid).1) fun used valid => .of_eq (copied used valid).2
  have number := changed.1.number flushed.exact
  have inode : ∀ inum, inum < store.sb.ninodes →
      (store.setSlot ip slot).inode inum = store.inode inum := by
    intro inum bound
    rw [setSlot_inode flushed.cache changed.2.cache]
    split
    · rename_i replaced
      rw [(copied replaced.1 replaced.2.1).2, replaced.2.2, flushed.through inum bound]
    · split
      · exact flushed.through inum bound
      · rfl
  refine ⟨⟨changed.2, fun inum bound => ?_⟩, ⟨rfl, fun inum bound _ => inode inum bound,
    fun inum bound _ => ?_⟩, fun place _ => number place⟩
  · rw [inode inum bound]
    exact flushed.through inum bound
  · exact contents_congr (by rw [inode inum bound]) number fun place present =>
      changed.1.data _ (flushed.exact.data present).1

theorem Flushed.copy_eq (holds : store.Holds ip) :
    (store.icache ip).copy = store.dinode (store.icache ip).inum := by
  rw [flushed.through _ (flushed.cache.range ip holds.1).2, flushed.cache.inode_eq holds]

theorem Flushed.setRef (used : 0 < (store.icache ip).ref) (ref : Nat) :
    Recached store (store.setSlot ip { store.icache ip with ref := ref }) :=
  flushed.setSlot (fun _ => Or.inl ⟨used, rfl⟩) (fun _ => flushed.cache.range ip used)
    fun _ valid => ⟨flushed.cache.typed ip ⟨used, valid⟩, flushed.copy_eq ⟨used, valid⟩⟩

theorem Flushed.takeSlot (ip : Fin NINODE)
    (uncached : ∀ jp, 0 < (store.icache jp).ref → (store.icache jp).inum ≠ inum)
    (positive : 0 < inum) (bound : inum < store.sb.ninodes) :
    Recached store (store.takeSlot ip inum) :=
  flushed.setSlot (fun _ => Or.inr uncached) (fun _ => ⟨positive, bound⟩)
    fun _ valid => by contradiction

theorem Flushed.loadSlot (used : 0 < (store.icache ip).ref)
    (typed : (store.dinode (store.icache ip).inum).type ≠ 0) :
    Recached store (store.loadSlot ip) :=
  flushed.setSlot (fun _ => Or.inl ⟨used, rfl⟩) (fun _ => flushed.cache.range ip used)
    fun _ _ => ⟨typed, rfl⟩

theorem Flushed.create (bound : inum < store.sb.ninodes) (free : (store.dinode inum).type = 0)
    (type : Int16) :
    Flushed (store.putInode inum { Dinode.blank with type := type }) ∧
      Untouched (· = inum) store (store.putInode inum { Dinode.blank with type := type }) ∧
      NoneAdded store (store.putInode inum { Dinode.blank with type := type }) ∧
      (store.putInode inum { Dinode.blank with type := type }).inode inum =
        { Dinode.blank with type := type } := by
  have uncached := flushed.uncached_of_free free
  have created := flushed.toConsistent.putEmpty bound uncached (flushed.vacant_of_free free)
    (show ({ Dinode.blank with type := type } : Dinode).size = 0 from rfl) rfl
  have inode : ∀ other, (store.putInode inum { Dinode.blank with type := type }).inode other =
      if other = inum then { Dinode.blank with type := type } else store.inode other := by
    intro other
    rw [putInode_inode, uncached]
    simp only [and_true]
  refine ⟨⟨created.1, fun other inside => ?_⟩, ⟨rfl, fun other inside different => ?_,
    fun other inside different => ?_⟩, fun place _ => created.2 place, ?_⟩
  · rw [inode, putInode_dinode, flushed.through other inside]
  · rw [inode, if_neg different]
  · exact contents_congr (by rw [inode, if_neg different]) created.2 fun place present =>
      putInode_blocks flushed.valid bound (flushed.exact.data present).1 _
  · rw [inode, if_pos rfl]

theorem Flushed.setFields (holds : store.Holds ip) (major minor nlink : Int16) :
    let copy := { (store.icache ip).copy with major := major, minor := minor, nlink := nlink }
    Flushed (store.update ip copy) ∧
      Untouched (· = (store.icache ip).inum) store (store.update ip copy) ∧
      NoneAdded store (store.update ip copy) ∧
      (store.update ip copy).inode (store.icache ip).inum = copy ∧
      (store.update ip copy).contents (store.icache ip).inum =
        store.contents (store.icache ip).inum := by
  intro copy
  have changed := flushed.toConsistent.setFields holds major minor nlink
  have after : Consistent (store.update ip copy) := by
    have still : (store.setFields ip major minor nlink).Holds ip := by
      unfold Store.Holds
      rw [Store.setFields, Store.setSlot_self]
      exact holds
    have written := (changed.2.flush still).2
    rw [Store.setFields, Store.setSlot_self] at written
    exact written
  have inode := update_inode flushed.cache holds copy
  have typed : copy.type ≠ 0 := flushed.cache.typed ip holds
  have number := update_number flushed.toSound flushed.exact holds typed
    (show copy.addrs = (store.icache ip).copy.addrs from rfl)
  have blocks : ∀ place, store.number place ≠ 0 →
      (store.update ip copy).blocks (store.number place) = store.blocks (store.number place) :=
    fun place present => update_blocks flushed.toSound holds copy
      (flushed.exact.data present).1
  refine ⟨⟨after, fun inum bound => ?_⟩, ⟨rfl, fun inum bound different => ?_,
    fun inum bound different => ?_⟩, fun place _ => number place, ?_, ?_⟩
  · rw [inode, update_dinode, flushed.through inum bound]
  · rw [inode, if_neg different]
  · exact contents_congr (by rw [inode, if_neg different]) number blocks
  · rw [inode, if_pos rfl]
  · refine contents_congr ?_ number blocks
    rw [inode, if_pos rfl, flushed.cache.inode_eq holds]

end

end

/-! ## Functions -/

section

variable {state : State} {ip : Fin NINODE}

theorem Got.events {next : State} (got : Got state inum ip next) :
    next.events = state.events := by
  rcases got with ⟨_, _, rfl⟩ | ⟨_, _, rfl⟩
  · rfl
  · rfl

theorem Flushed.got {next : State} (flushed : Flushed state.toStore) (got : Got state inum ip next)
    (positive : 0 < inum) (bound : inum < state.sb.ninodes) :
    Recached state.toStore next.toStore := by
  rcases got with ⟨used, _, rfl⟩ | ⟨uncached, _, rfl⟩
  · exact flushed.setRef used _
  · exact flushed.takeSlot ip uncached positive bound

theorem setFields_returns (state : State) (ip : Fin NINODE) (major minor nlink : Int16) :
    Returns (do
      setInode ip fun inode => { inode with
        copy := { inode.copy with major := major, minor := minor, nlink := nlink } }
      iupdate ip) state fun _ next => next = { state with
        toStore := state.update ip { (state.icache ip).copy with
          major := major, minor := minor, nlink := nlink }
        events := .logWrite (state.sb.iblock (state.icache ip).inum) :: state.events } := by
  simp only [Returns, setInode, iupdate, putDinode, bread, logWrite, meets_bind, meets_get,
    meets_modify, meets_pure, Function.update_self]
  rfl

/-- What `iput` leaves: without links and other references the inode has been freed. -/
theorem Flushed.iput (flushed : Flushed state.toStore) (used : 0 < (state.icache ip).ref) :
    Returns (Fs.iput ip) state fun _ next =>
      Flushed next.toStore ∧ Records state next ∧ NoneAdded state.toStore next.toStore ∧
      if (state.icache ip).ref = 1 ∧ (state.icache ip).valid ∧ (state.icache ip).copy.nlink = 0 then
        Untouched (· = (state.icache ip).inum) state.toStore next.toStore ∧
          next.inode (state.icache ip).inum =
            { (state.icache ip).copy with type := 0, size := 0, addrs := fun _ => 0 }
      else Untouched (fun _ => False) state.toStore next.toStore := by
  refine Meets.imp (flushed.toConsistent.iput used) ?_
  rintro _ next ⟨after, records, put, noneAdded⟩
  rw [Put] at put
  split at put
  · rename_i last
    rcases put with ⟨middle, consistent, truncated, retired⟩
    rw [if_pos last]
    have holds : state.Holds ip := ⟨used, last.2.1⟩
    have middleHolds : middle.Holds ip := (truncated.slots.holds ip).mpr holds
    have own := truncated.own
    rw [← truncated.slots.inum ip, consistent.cache.inode_eq middleHolds, truncated.slots.inum ip,
      flushed.cache.inode_eq holds] at own
    have freed := consistent.retire middleHolds (by rw [own]) (by rw [own])
    rw [← retired, truncated.slots.inum ip] at freed
    have bound : (middle.icache ip).inum < middle.sb.ninodes :=
      (consistent.cache.range ip middleHolds.1).2
    have dinode : ∀ inum, next.dinode inum = if inum = (state.icache ip).inum then
        { (middle.icache ip).copy with type := 0 } else middle.dinode inum := by
      intro inum
      rw [retired, retire, putInode_dinode, truncated.slots.inum ip,
        setSlot_dinode]
    have sb : next.sb = state.sb := by
      rw [retired]
      exact truncated.sb
    refine ⟨⟨after, fun inum inside => ?_⟩, records, noneAdded,
      ⟨sb, fun inum inside other => ?_, fun inum inside other => ?_⟩, ?_⟩
    · rw [dinode, freed.2.2]
      split
      · rfl
      · rename_i other
        rw [sb] at inside
        rw [truncated.dinodes inum inside other, truncated.inode inum inside other,
          flushed.through inum inside]
    · rw [freed.2.2, if_neg other, truncated.inode inum inside other]
    · rw [← truncated.contents inum inside other]
      refine contents_congr (by rw [freed.2.2, if_neg other]) freed.2.1 fun place present => ?_
      rw [retired]
      exact putInode_blocks consistent.valid bound (consistent.exact.data present).1 _
    · rw [freed.2.2, if_pos rfl, own]
  · rename_i stays
    rw [if_neg stays]
    have dropped : Recached state.toStore next.toStore := by
      rw [put]
      exact flushed.setRef used ((state.icache ip).ref - 1)
    exact ⟨dropped.flushed, records, noneAdded, dropped.untouched⟩

theorem Flushed.readi (flushed : Flushed state.toStore) (holds : state.Holds ip)
    (off n : UInt32) :
    Returns (Fs.readi ip off n) state fun answer next => next = state ∧
      ((state.icache ip).copy.type ≠ T_DEV →
        answer = readBytes (state.contents (state.icache ip).inum) off.toNat n.toNat) := by
  by_cases device : (state.icache ip).copy.type = T_DEV
  · exact Meets.imp (readi_device_returns device off n) fun _ _ same =>
      ⟨same, fun notDevice => absurd device notDevice⟩
  · refine Meets.imp (readi_returns flushed.toConsistent holds device off n) ?_
    rintro answer next ⟨read, same⟩
    exact ⟨same, fun _ => read⟩

theorem Flushed.writei (flushed : Flushed state.toStore) (holds : state.Holds ip)
    (src : Nat → UInt8) (off n : UInt32) :
    Meets (Fs.writei ip src off n) state (fun _ => True) fun result next =>
      Flushed next.toStore ∧ Records state next ∧ WriteFrame ip state.toStore next.toStore ∧
      if (state.icache ip).copy.type = T_DEV then
        next.contents (state.icache ip).inum = state.contents (state.icache ip).inum
      else (result, next.contents (state.icache ip).inum) =
        writeBytes (state.contents (state.icache ip).inum) src off.toNat n.toNat := by
  have unchanged : WriteFrame ip state.toStore state.toStore :=
    ⟨rfl, .refl _, fun _ _ => ⟨rfl, rfl, rfl, rfl⟩, fun _ _ _ => rfl⟩
  by_cases device : (state.icache ip).copy.type = T_DEV
  · refine Meets.imp (writei_device_returns device src off n).meets ?_
    rintro result next rfl
    rw [if_pos device]
    exact ⟨flushed, .refl _, unchanged, rfl⟩
  · refine Meets.imp (writei_meets flushed.toConsistent holds device src off n
      fun _ => Or.inl trivial) ?_
    intro result next wrote
    rw [if_neg device, writeBytes]
    dsimp only at wrote
    split at wrote
    · rename_i refused
      rcases wrote with ⟨rfl, rfl⟩
      rw [if_pos refused]
      exact ⟨flushed, .refl _, unchanged, rfl⟩
    · rename_i accepted
      rcases wrote with ⟨rfl, after, records, frame, contents, through⟩
      rw [if_neg accepted, contents]
      refine ⟨⟨after, fun inum bound => ?_⟩, records, frame, rfl⟩
      rw [frame.sb] at bound
      exact through inum bound (flushed.through inum bound)

end

end Xv6.Fs
