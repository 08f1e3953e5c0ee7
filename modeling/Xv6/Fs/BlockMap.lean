import Xv6.Fs.Blocks

/-! # The blocks of an inode

`bmap` finds block `bn` of a file and allocates what is missing on the way, the
indirect block included. All it changes is the inode it is called for, in the
cache, and the indirect block of this inode.
-/

namespace Xv6.Fs

open Program Store

variable {place : Place} {b bn : Nat} {state : State} {next store : Store} {ip : Fin NINODE}
  {fails : Panic → Prop}

namespace Store

variable {store next final : Store} {ip : Fin NINODE}

/-! ## Changing the copy of an inode -/

def setCopy (store : Store) (ip : Fin NINODE) (copy : Dinode) : Store :=
  { store with icache := Function.update store.icache ip { store.icache ip with copy := copy } }

@[simp] theorem setCopy_self (copy : Dinode) :
    (store.setCopy ip copy).icache ip = { store.icache ip with copy := copy } :=
  Function.update_self ..

theorem setCopy_of_ne {jp : Fin NINODE} (different : jp ≠ ip) (copy : Dinode) :
    (store.setCopy ip copy).icache jp = store.icache jp :=
  Function.update_of_ne different ..

/-- Only the block numbers in the cached copy at `ip` may differ between the
inodes. -/
structure Frame (ip : Fin NINODE) (store next : Store) : Prop where
  sb : next.sb = store.sb
  devsw : next.devsw = store.devsw
  superblock : next.blocks 1 = store.blocks 1
  dinode : ∀ inum, inum < store.sb.ninodes → next.dinode inum = store.dinode inum
  others : ∀ jp, jp ≠ ip → next.icache jp = store.icache jp
  own : next.icache ip = { store.icache ip with
    copy := { (store.icache ip).copy with addrs := (next.icache ip).copy.addrs } }

namespace Frame

theorem refl (ip : Fin NINODE) (store : Store) : Frame ip store store :=
  ⟨rfl, rfl, rfl, fun _ _ => rfl, fun _ _ => rfl, rfl⟩

theorem of_keepsInodes (ip : Fin NINODE) (keeps : KeepsInodes store next) :
    Frame ip store next where
  sb := keeps.sb
  devsw := keeps.devsw
  superblock := keeps.superblock
  dinode := keeps.dinode
  others := fun jp _ => by rw [keeps.icache]
  own := by rw [keeps.icache]

theorem trans (first : Frame ip store next) (second : Frame ip next final) :
    Frame ip store final where
  sb := second.sb.trans first.sb
  devsw := second.devsw.trans first.devsw
  superblock := second.superblock.trans first.superblock
  dinode := fun inum bound =>
    (second.dinode inum (by rw [first.sb]; exact bound)).trans (first.dinode inum bound)
  others := fun jp different => (second.others jp different).trans (first.others jp different)
  own := by
    have last := second.own
    rw [first.own] at last
    exact last

section

variable (frame : Frame ip store next)

include frame

theorem slot (jp : Fin NINODE) : next.icache jp = { store.icache jp with
    copy := { (store.icache jp).copy with addrs := (next.icache jp).copy.addrs } } := by
  by_cases same : jp = ip
  · rw [same]
    exact frame.own
  · rw [frame.others jp same]

theorem inum (jp : Fin NINODE) : (next.icache jp).inum = (store.icache jp).inum := by
  rw [frame.slot]

theorem ref (jp : Fin NINODE) : (next.icache jp).ref = (store.icache jp).ref := by
  rw [frame.slot]

theorem validFlag (jp : Fin NINODE) : (next.icache jp).valid = (store.icache jp).valid := by
  rw [frame.slot]

theorem type (jp : Fin NINODE) :
    (next.icache jp).copy.type = (store.icache jp).copy.type := by
  rw [frame.slot]

theorem size : (next.icache ip).copy.size = (store.icache ip).copy.size := by
  rw [frame.own]

theorem holds (jp : Fin NINODE) : next.Holds jp ↔ store.Holds jp := by
  rw [Holds, Holds, frame.ref, frame.validFlag]

theorem cached (inum : Nat) : next.cached inum = store.cached inum := by
  simp only [Store.cached, frame.ref, frame.validFlag, frame.inum]

theorem sound (sound : store.Sound) : next.Sound where
  valid := frame.sb ▸ sound.valid
  superblock := by rw [frame.superblock, frame.sb, sound.superblock]
  cache := by
    refine ⟨?_, ?_, ?_⟩
    · intro jp kp
      simp only [frame.ref, frame.inum]
      exact sound.cache.single jp kp
    · intro jp
      simp only [frame.ref, frame.inum, frame.sb]
      exact sound.cache.range jp
    · intro jp holds
      rw [frame.type]
      exact sound.cache.typed jp ((frame.holds jp).mp holds)

theorem inode_of_ne {inum : Nat} (bound : inum < store.sb.ninodes)
    (different : inum ≠ (store.icache ip).inum) : next.inode inum = store.inode inum := by
  unfold inode
  rw [frame.cached]
  split
  · rename_i jp found
    have elsewhere : jp ≠ ip := by
      rintro rfl
      exact different (cached_eq_some found).2.symm
    rw [frame.others jp elsewhere]
  · exact frame.dinode inum bound

theorem inode_type {inum : Nat} (bound : inum < store.sb.ninodes) :
    (next.inode inum).type = (store.inode inum).type := by
  unfold inode
  rw [frame.cached]
  split
  · rename_i jp found
    exact frame.type jp
  · rw [frame.dinode inum bound]

theorem allocated (inum : Nat) : next.Allocated inum ↔ store.Allocated inum := by
  unfold Allocated
  rw [frame.sb]
  constructor
  · rintro ⟨positive, bound, typed⟩
    exact ⟨positive, bound, frame.inode_type bound ▸ typed⟩
  · rintro ⟨positive, bound, typed⟩
    exact ⟨positive, bound, (frame.inode_type bound).symm ▸ typed⟩

end

end Frame

theorem setCopy_frame (addrs : Fin (NDIRECT + 1) → UInt32) :
    Frame ip store (store.setCopy ip { (store.icache ip).copy with addrs := addrs }) where
  sb := rfl
  devsw := rfl
  superblock := rfl
  dinode := fun _ _ => rfl
  others := fun jp different => setCopy_of_ne different _
  own := by simp

theorem addr_eq_copy (cache : store.CacheValid) (holds : store.Holds ip) (index : Nat) :
    store.addr (store.icache ip).inum index = (store.icache ip).copy.addr index := by
  rw [addr, if_pos (cache.allocated holds), cache.inode_eq holds]

theorem Frame.addr_of_ne (frame : Frame ip store next) {inum : Nat}
    (different : inum ≠ (store.icache ip).inum) (index : Nat) :
    next.addr inum index = store.addr inum index := by
  unfold addr
  simp only [frame.allocated]
  split
  · rename_i allocated
    rw [frame.inode_of_ne allocated.2.1 different]
  · rfl

theorem Frame.number_of_ne (frame : Frame ip store next) (exact : store.Exact)
    (data : ∀ b, store.sb.nmeta ≤ b → next.blocks b = store.blocks b)
    (different : place.inum ≠ (store.icache ip).inum) : next.number place = store.number place := by
  cases place with
  | direct inum index => exact frame.addr_of_ne different index
  | entry inum index =>
    have addr := frame.addr_of_ne (show inum ≠ _ from different)
    simp only [number, addr]
    split
    · rfl
    · rename_i table
      rw [data _ (exact.table table)]

/-- An entry of `addrs` in the cached copy. -/
theorem number_direct (cache : store.CacheValid) (holds : store.Holds ip)
    (index : Fin (NDIRECT + 1)) : store.number (.direct (store.icache ip).inum index) =
      ((store.icache ip).copy.addrs index).toNat := by
  rw [number, addr_eq_copy cache holds, Dinode.addr, dif_pos index.isLt]

end Store

theorem Dinode.addr_update (dinode : Dinode) (index : Fin (NDIRECT + 1)) (small : b < 2 ^ 32)
    (other : Nat) :
    Dinode.addr { dinode with addrs := Function.update dinode.addrs index (UInt32.ofNat b) } other =
      if other = index.val then b else dinode.addr other := by
  unfold addr
  by_cases inside : other < NDIRECT + 1
  · simp only [inside, dite_true, Function.update_apply, Fin.ext_iff]
    split
    · rw [UInt32.toNat_ofNat']
      exact Nat.mod_eq_of_lt small
    · rfl
  · have different : other ≠ index.val := by
      have := index.isLt
      omega
    simp [inside, different]

namespace Store

variable {store : Store} {ip : Fin NINODE} {b : Nat}

/-- One entry of `addrs` is changed in the cached copy. -/
def setAddr (store : Store) (ip : Fin NINODE) (index : Fin (NDIRECT + 1)) (b : Nat) : Store :=
  store.setCopy ip { (store.icache ip).copy with
    addrs := Function.update (store.icache ip).copy.addrs index (UInt32.ofNat b) }

section

variable (sound : store.Sound) (holds : store.Holds ip) (index : Fin (NDIRECT + 1))
  (small : b < 2 ^ 32)

include sound holds small

theorem setAddr_addr (inum other : Nat) : (store.setAddr ip index b).addr inum other =
    if inum = (store.icache ip).inum ∧ other = index.val then b else store.addr inum other := by
  have frame : Frame ip store (store.setAddr ip index b) := setCopy_frame _
  by_cases own : inum = (store.icache ip).inum
  · have read := addr_eq_copy (frame.sound sound).cache ((frame.holds ip).mpr holds) other
    rw [frame.inum] at read
    rw [own, read, addr_eq_copy sound.cache holds]
    simp only [setAddr, setCopy_self, true_and]
    exact Dinode.addr_update _ index small other
  · rw [frame.addr_of_ne own]
    simp [own]

/-- Other numbers change only if they are entries of another indirect block. -/
theorem setAddr_number
    (apart : ∀ position, NDIRECT = index.val → place ≠ .entry (store.icache ip).inum position) :
    (store.setAddr ip index b).number place =
      if place = .direct (store.icache ip).inum index then b else store.number place := by
  cases place with
  | direct inum position => simp only [number, setAddr_addr sound holds index small, Place.direct.injEq]
  | entry inum position =>
    have notLast : ¬(inum = (store.icache ip).inum ∧ NDIRECT = index.val) := by
      rintro ⟨rfl, last⟩
      exact apart position last rfl
    simp only [number, setAddr_addr sound holds index small, reduceCtorEq, if_false,
      if_neg notLast]
    rfl

end

end Store

/-! ## Putting a block at a place -/

/-- One if nothing is at the place, else zero. -/
def Store.vacancy (store : Store) (place : Place) : Nat :=
  if store.number place = 0 then 1 else 0

/-- Block `b` is at `place` in the second state, where it was put if there was
none. Nothing else has changed that files are made of. -/
structure Placed (ip : Fin NINODE) (place : Place) (b : Nat) (store next : Store) : Prop where
  frame : Store.Frame ip store next
  exact : next.Exact
  number : next.number place = b
  present : b ≠ 0
  others : ∀ other, other ≠ place → next.number other = store.number other
  kept : store.number place ≠ 0 → store.number place = b
  data : ∀ inum bn, store.number (.data inum bn) ≠ 0 →
    next.blocks (store.number (.data inum bn)) = store.blocks (store.number (.data inum bn))
  fresh : store.number place = 0 → next.blocks b = Bytes.zero BSIZE
  free : next.freeBlocks + store.vacancy place = store.freeBlocks

/-- A call of `balloc` returned a block that was in no use. -/
def Event.Fresh : Event → Prop
  | .logWrite _ => True
  | .balloc before b => before.sb.nmeta ≤ b ∧ b < before.sb.size ∧
      ∀ place, before.number place ≠ b

/-- Everything recorded since the first state is in order. -/
def Records (state next : State) : Prop :=
  ∃ added, next.events = added ++ state.events ∧ ∀ event ∈ added, event.Fresh

theorem Records.refl (state : State) : Records state state :=
  ⟨[], rfl, fun _ member => absurd member List.not_mem_nil⟩

theorem Records.trans {next final : State} (first : Records state next)
    (second : Records next final) : Records state final := by
  rcases first with ⟨early, earlyEq, earlyFresh⟩
  rcases second with ⟨late, lateEq, lateFresh⟩
  refine ⟨late ++ early, by rw [lateEq, earlyEq, List.append_assoc], ?_⟩
  intro event member
  rcases List.mem_append.mp member with isLate | isEarly
  · exact lateFresh event isLate
  · exact earlyFresh event isEarly

theorem Records.logWrite {next : State} {blockno : Nat}
    (events : next.events = .logWrite blockno :: state.events) : Records state next :=
  ⟨[.logWrite blockno], events, fun event member => by
    rw [List.mem_singleton.mp member]
    trivial⟩

theorem Placed.of_present (exact : store.Exact) (present : store.number place ≠ 0) :
    Placed ip place (store.number place) store store where
  frame := .refl ip store
  exact := exact
  number := rfl
  present := present
  others := fun _ _ => rfl
  kept := fun _ => rfl
  data := fun _ _ _ => rfl
  fresh := fun vacant => absurd vacant present
  free := by simp [vacancy, present]

section

variable {state : State} {ip : Fin NINODE}

theorem fresh_allocationEvents (exact : store.Exact) (valid : store.sb.Valid)
    (inside : b < store.sb.size) (unmarked : store.marked b = false) :
    ∀ event ∈ allocationEvents store b, event.Fresh := by
  have isData := exact.nmeta_le_of_unmarked inside unmarked
  have positive := valid.one_lt_nmeta
  intro event member
  simp only [allocationEvents, List.mem_cons, List.not_mem_nil, or_false] at member
  rcases member with rfl | rfl | rfl
  · refine ⟨isData, inside, fun place => ?_⟩
    by_cases vacant : store.number place = 0
    · omega
    · exact exact.ne_of_unmarked unmarked vacant
  · trivial
  · trivial

theorem Placed.of_fresh (sound : store.Sound) (exact : store.Exact) (inside : b < store.sb.size)
    (unmarked : store.marked b = false) (vacant : store.number place = 0)
    (frame : Store.Frame ip store next)
    (number : ∀ other, next.number other = if other = place then b else store.number other)
    (marks : ∀ other, other < store.sb.size →
      next.marked other = (store.allocate b).marked other)
    (blank : next.blocks b = Bytes.zero BSIZE) (data : ∀ inum bn, store.number (.data inum bn) ≠ 0 →
      next.blocks (store.number (.data inum bn)) = store.blocks (store.number (.data inum bn))) :
    Placed ip place b store next := by
  have isData := exact.nmeta_le_of_unmarked inside unmarked
  have positive := sound.valid.one_lt_nmeta
  have present : b ≠ 0 := by omega
  have newHolder : ∀ other,
      next.holder other = Function.update store.holder place (some b) other := by
    intro other
    rw [Function.update_apply]
    split
    · rename_i same
      exact holder_eq_some.mpr ⟨by rw [number, if_pos same], present⟩
    · rename_i different
      exact holder_congr (by rw [number, if_neg different])
  have assigned : next.Exact := by
    unfold Store.Exact
    rw [frame.sb]
    refine Allocation.Exact.assign exact (holder_eq_none.mpr vacant) inside
      (by simp [unmarked]) newHolder ?_
    intro other otherInside
    simp [marks other otherInside, allocate_marked isData otherInside]
  refine ⟨frame, assigned, by rw [number, if_pos rfl], present, ?_, ?_, data, fun _ => blank, ?_⟩
  · intro other different
    rw [number, if_neg different]
  · exact fun occupied => absurd vacant occupied
  · have counted : next.freeBlocks = (store.allocate b).freeBlocks :=
      freeBlocks_congr frame.sb marks
    rw [vacancy, if_pos vacant, counted,
      allocate_freeBlocks isData inside unmarked]

theorem addrAt_meets (sound : state.Sound) (exact : state.Exact) (holds : state.Holds ip)
    (index : Fin (NDIRECT + 1)) (enough : fails .outOfBlocks ∨
      state.vacancy (.direct (state.icache ip).inum index) ≤ state.freeBlocks) :
    Meets (addrAt ip index) state fails fun b next =>
      Placed ip (.direct (state.icache ip).inum index) b state.toStore next.toStore ∧
        Records state next := by
  have number := number_direct sound.cache holds index
  simp only [addrAt, meets_bind, meets_get]
  split
  · rename_i zero
    have vacant : state.number (.direct (state.icache ip).inum index) = 0 := by
      rw [number, zero]
      rfl
    rw [vacancy, if_pos vacant] at enough
    rw [meets_bind]
    refine Meets.imp (balloc_meets (enough.imp_right exists_unmarked)) ?_
    rintro b _ ⟨inside, unmarked, rfl⟩
    have isData := exact.nmeta_le_of_unmarked inside unmarked
    have small : b < 2 ^ 32 := by
      have := sound.valid.small
      omega
    have kept := allocate_keepsInodes sound isData
    have soundAfter := kept.sound sound
    let final := (state.allocate b).setAddr ip index b
    have frame : Store.Frame ip state.toStore final :=
      (Store.Frame.of_keepsInodes ip kept).trans (setCopy_frame _)
    have numbers : ∀ other, final.number other =
        if other = .direct (state.icache ip).inum index then b else state.number other := by
      intro other
      by_cases ofTable : ∃ position, NDIRECT = index.val ∧
          other = .entry (state.icache ip).inum position
      · -- a new indirect block has no entries
        rcases ofTable with ⟨position, last, rfl⟩
        have absent : state.addr (state.icache ip).inum NDIRECT = 0 := by
          rw [last]
          exact vacant
        have table : final.addr (state.icache ip).inum NDIRECT = b :=
          (setAddr_addr soundAfter holds index small _ _).trans (if_pos ⟨rfl, last⟩)
        have blank : final.blocks b = Bytes.zero BSIZE := allocate_blocks_self b
        rw [if_neg Place.noConfusion, Store.number, Store.number, table, blank, Bytes.getLE_zero, ite_self,
          if_pos absent]
      · refine (setAddr_number soundAfter holds index small fun position last same =>
          ofTable ⟨position, last, same⟩).trans ?_
        rw [allocate_number sound exact inside unmarked]
        rfl
    have placed : Placed ip (.direct (state.icache ip).inum index) b state.toStore final := by
      refine Placed.of_fresh sound exact inside unmarked vacant frame numbers (fun _ _ => rfl)
        (allocate_blocks_self b) ?_
      intro inum bn occupied
      exact allocate_blocks (exact.ne_of_unmarked unmarked occupied)
        (exact.data occupied).1 inside
    exact ⟨placed, allocationEvents state.toStore b, rfl,
      fresh_allocationEvents exact sound.valid inside unmarked⟩
  · rename_i nonzero
    have present : state.number (.direct (state.icache ip).inum index) ≠ 0 := by
      rw [number]
      intro zero
      exact nonzero (UInt32.toNat_inj.mp zero)
    rw [meets_pure, ← number]
    exact ⟨Placed.of_present exact present, Records.refl state⟩

theorem Store.number_entry {inum : Nat} (present : store.addr inum NDIRECT ≠ 0)
    (index : Nat) : store.number (.entry inum index) =
      (store.blocks (store.addr inum NDIRECT)).getLE 4 (4 * index) := by
  rw [number, if_neg present]

theorem Store.number_putEntry (sound : store.Sound) {inum index : Nat}
    (present : store.addr inum NDIRECT ≠ 0) (isData : store.sb.nmeta ≤ store.addr inum NDIRECT)
    (single : ∀ other, other ≠ inum → store.addr other NDIRECT ≠ store.addr inum NDIRECT)
    (bound : index < NINDIRECT) (small : b < 2 ^ 32) (other : Place) :
    (store.putBlock (store.addr inum NDIRECT)
      ((store.blocks (store.addr inum NDIRECT)).putLE 4 (4 * index) b)).number other =
      if other = .entry inum index then b else store.number other := by
  have keeps := sound.keeps_data isData
    ((store.blocks (store.addr inum NDIRECT)).putLE 4 (4 * index) b)
  have addr := keeps.sameInodes.addr
  cases other with
  | direct otherInum position =>
    simp only [reduceCtorEq, if_false, number]
    exact addr otherInum position
  | entry otherInum position =>
    simp only [number, addr, Place.entry.injEq]
    by_cases absent : store.addr otherInum NDIRECT = 0
    · have different : otherInum ≠ inum := fun same => present (same ▸ absent)
      simp [absent, different]
    · rw [if_neg absent, if_neg absent]
      by_cases same : otherInum = inum
      · subst same
        have fits : 4 * index + 4 ≤ BSIZE := by
          simp only [NINDIRECT, BSIZE] at *
          omega
        simp only [true_and]
        rw [putBlock_blocks_self]
        split
        · rename_i samePosition
          subst samePosition
          rw [Bytes.getLE_putLE_same _ _ _ _ fits]
          exact Nat.mod_eq_of_lt small
        · exact Bytes.getLE_putLE_of_disjoint _ _ _ _ _ _ (by omega)
      · rw [putBlock_blocks_of_ne (single otherInum same)]
        simp [same]

theorem entryAt_meets (ip : Fin NINODE) (sound : state.Sound) (exact : state.Exact)
    {inum index : Nat} (table : state.addr inum NDIRECT ≠ 0) (bound : index < NINDIRECT)
    (enough : fails .outOfBlocks ∨ state.vacancy (.entry inum index) ≤ state.freeBlocks) :
    Meets (entryAt (state.addr inum NDIRECT) index) state fails fun b next =>
      Placed ip (.entry inum index) b state.toStore next.toStore ∧ Records state next := by
  have held : state.number (.indirect inum) ≠ 0 := table
  have number := number_entry table index
  simp only [entryAt, bread, meets_bind, meets_get, meets_pure]
  split
  · rename_i zero
    have vacant : state.number (.entry inum index) = 0 := number.trans zero
    rw [vacancy, if_pos vacant] at enough
    simp only [meets_bind, meets_get, meets_pure]
    refine Meets.imp (balloc_meets (enough.imp_right exists_unmarked)) ?_
    rintro b _ ⟨inside, unmarked, rfl⟩
    have isData := exact.nmeta_le_of_unmarked inside unmarked
    have small : b < 2 ^ 32 := by
      have := sound.valid.small
      omega
    have tableData : state.sb.nmeta ≤ state.addr inum NDIRECT := (exact.data held).1
    have tableNe : state.addr inum NDIRECT ≠ b := exact.ne_of_unmarked unmarked held
    let middle := state.allocate b
    have keeps : Store.KeepsInodes state.toStore middle := allocate_keepsInodes sound isData
    have numbers : ∀ place, middle.number place = state.number place :=
      allocate_number sound exact inside unmarked
    have addr : ∀ other, middle.addr other NDIRECT = state.addr other NDIRECT :=
      fun other => numbers (.indirect other)
    have single : ∀ other, other ≠ inum →
        middle.addr other NDIRECT ≠ middle.addr inum NDIRECT := by
      intro other different equal
      rw [addr, addr] at equal
      have samePlace : Place.indirect inum = Place.indirect other :=
        exact.number_inj held equal.symm
      injection samePlace with sameInum
      exact different sameInum.symm
    let final := middle.putBlock (state.addr inum NDIRECT)
      ((middle.blocks (state.addr inum NDIRECT)).putLE 4 (4 * index) b)
    have placed : Placed ip (.entry inum index) b state.toStore final := by
      refine Placed.of_fresh sound exact inside unmarked vacant ?_ ?_ ?_ ?_ ?_
      · exact .of_keepsInodes ip (keeps.trans ((keeps.sound sound).keeps_data tableData _))
      · intro other
        have stored := number_putEntry (keeps.sound sound)
          (show middle.addr inum NDIRECT ≠ 0 by rw [addr]; exact table) (by rw [addr]; exact tableData) single bound small other
        rw [addr, numbers] at stored
        exact stored
      · intro other otherInside
        rw [putBlock_marked]
        · exact tableData
        · exact otherInside
      · exact (putBlock_blocks_of_ne tableNe.symm _).trans (allocate_blocks_self b)
      · intro other bn occupied
        have notTable : state.number (.data other bn) ≠ state.addr inum NDIRECT := fun equal =>
          Place.data_ne_indirect other bn inum (exact.number_inj occupied equal)
        exact (putBlock_blocks_of_ne notTable _).trans
          (allocate_blocks (exact.ne_of_unmarked unmarked occupied)
            (exact.data occupied).1 inside)
    refine ⟨placed, .logWrite (state.addr inum NDIRECT) :: allocationEvents state.toStore b, rfl, ?_⟩
    intro event member
    rcases List.mem_cons.mp member with rfl | earlier
    · trivial
    · exact fresh_allocationEvents exact sound.valid inside unmarked event earlier
  · rename_i nonzero
    have present : state.number (.entry inum index) ≠ 0 := by
      rw [number]
      exact nonzero
    rw [meets_pure, ← number]
    exact ⟨Placed.of_present exact present, Records.refl state⟩

end

/-! ## `bmap` -/

/-- The number of blocks `bmap` has to allocate. -/
def Store.mapCost (store : Store) (inum bn : Nat) : Nat :=
  store.vacancy (.data inum bn) + if bn < NDIRECT then 0 else store.vacancy (.indirect inum)

/-- Block `bn` of the inode at `ip` is `b` in the second state. -/
structure Mapped (ip : Fin NINODE) (bn b : Nat) (store next : Store) : Prop where
  frame : Store.Frame ip store next
  exact : next.Exact
  number : next.number (.data (store.icache ip).inum bn) = b
  present : b ≠ 0
  others : ∀ inum index, inum ≠ (store.icache ip).inum ∨ index ≠ bn →
    next.number (.data inum index) = store.number (.data inum index)
  indirect : next.vacancy (.indirect (store.icache ip).inum) =
    if bn < NDIRECT then store.vacancy (.indirect (store.icache ip).inum) else 0
  table : store.number (.indirect (store.icache ip).inum) ≠ 0 →
    next.number (.indirect (store.icache ip).inum) =
      store.number (.indirect (store.icache ip).inum)
  kept : store.number (.data (store.icache ip).inum bn) ≠ 0 →
    store.number (.data (store.icache ip).inum bn) = b
  data : ∀ inum index, store.number (.data inum index) ≠ 0 →
    next.blocks (store.number (.data inum index)) =
      store.blocks (store.number (.data inum index))
  fresh : store.number (.data (store.icache ip).inum bn) = 0 → next.blocks b = Bytes.zero BSIZE
  free : next.freeBlocks + store.mapCost (store.icache ip).inum bn = store.freeBlocks

theorem Placed.mapped (placed : Placed ip (.data (store.icache ip).inum bn) b store next)
    (table : bn < NDIRECT ∨ store.vacancy (.indirect (store.icache ip).inum) = 0) :
    Mapped ip bn b store next where
  frame := placed.frame
  exact := placed.exact
  number := placed.number
  present := placed.present
  others := fun inum index different => placed.others _ fun same => by
    have equal := Place.data_inj same
    omega
  indirect := by
    rw [vacancy, placed.others _ (Place.data_ne_indirect _ _ _).symm, ← vacancy]
    split
    · rfl
    · rcases table with direct | occupied
      · contradiction
      · exact occupied
  table := fun _ => placed.others _ (Place.data_ne_indirect _ _ _).symm
  kept := placed.kept
  data := placed.data
  fresh := placed.fresh
  free := by
    rw [← placed.free, mapCost]
    split
    · rfl
    · rcases table with direct | occupied
      · contradiction
      · rw [occupied, Nat.add_zero]

theorem Mapped.after_indirect {middle : Store} {table : Nat}
    (indirect : Placed ip (.indirect (store.icache ip).inum) table store middle)
    (beyond : ¬bn < NDIRECT) (mapped : Mapped ip bn b middle next) :
    Mapped ip bn b store next := by
  have inum := indirect.frame.inum ip
  have numbers : ∀ other index,
      middle.number (.data other index) = store.number (.data other index) :=
    fun other index => indirect.others _ (Place.data_ne_indirect _ _ _)
  have occupied : middle.vacancy (.indirect (store.icache ip).inum) = 0 := by
    rw [vacancy, indirect.number, if_neg indirect.present]
  refine ⟨indirect.frame.trans mapped.frame, mapped.exact, ?_, mapped.present, ?_, ?_, ?_, ?_, ?_,
    ?_, ?_⟩
  · rw [← inum]
    exact mapped.number
  · intro other index different
    rw [mapped.others other index (by rw [inum]; exact different), numbers]
  · have last := mapped.indirect
    rw [inum, if_neg beyond] at last
    rw [last, if_neg beyond]
  · intro present
    have same := mapped.table (by rw [inum, indirect.number]; exact indirect.present)
    rw [inum, indirect.number] at same
    rw [same, indirect.kept present]
  · have kept := mapped.kept
    rw [inum, numbers] at kept
    exact kept
  · intro other index present
    have last := mapped.data other index (by rw [numbers]; exact present)
    rw [numbers] at last
    rw [last, indirect.data other index present]
  · have fresh := mapped.fresh
    rw [inum, numbers] at fresh
    exact fresh
  · have last := mapped.free
    have first := indirect.free
    rw [inum, mapCost, if_neg beyond, occupied, vacancy, numbers, ← vacancy] at last
    rw [mapCost, if_neg beyond]
    omega

theorem bmap_meets (sound : state.Sound) (exact : state.Exact) (holds : state.Holds ip)
    (bound : bn < MAXFILE)
    (enough : fails .outOfBlocks ∨ state.mapCost (state.icache ip).inum bn ≤ state.freeBlocks) :
    Meets (bmap ip bn) state fails fun b next =>
      Mapped ip bn b state.toStore next.toStore ∧ Records state next := by
  unfold bmap
  split
  · rename_i direct
    have place : Place.direct (state.icache ip).inum bn = .data (state.icache ip).inum bn := by
      rw [Place.data, if_pos direct]
    have found := addrAt_meets sound exact holds ⟨bn, Nat.lt_succ_of_lt direct⟩ (by
      rw [mapCost, if_pos direct, Nat.add_zero] at enough
      rw [place]
      exact enough)
    refine Meets.imp found ?_
    rintro b next ⟨placed, records⟩
    rw [place] at placed
    exact ⟨placed.mapped (Or.inl direct), records⟩
  · rename_i beyond
    have inTable : bn - NDIRECT < NINDIRECT := by
      simp only [MAXFILE, NDIRECT] at *
      omega
    have place : Place.entry (state.icache ip).inum (bn - NDIRECT) =
        .data (state.icache ip).inum bn := by
      rw [Place.data, if_neg beyond]
    rw [mapCost, if_neg beyond] at enough
    rw [if_pos inTable, meets_bind]
    refine Meets.imp (addrAt_meets sound exact holds (Fin.last NDIRECT)
      (enough.imp_right (Nat.le_trans (Nat.le_add_left _ _)))) ?_
    rintro table middle ⟨indirect, recorded⟩
    have inum := indirect.frame.inum ip
    have atTable : middle.addr (state.icache ip).inum NDIRECT = table := indirect.number
    have room : fails .outOfBlocks ∨
        middle.vacancy (.entry (state.icache ip).inum (bn - NDIRECT)) ≤ middle.freeBlocks := by
      have first := indirect.free
      have same : middle.vacancy (.data (state.icache ip).inum bn) =
          state.vacancy (.data (state.icache ip).inum bn) := by
        rw [vacancy, indirect.others _ (Place.data_ne_indirect _ _ _), vacancy]
      have sameIndirect : state.vacancy (.direct (state.icache ip).inum (Fin.last NDIRECT)) =
          state.vacancy (.indirect (state.icache ip).inum) := rfl
      rw [place, same]
      refine enough.imp_right fun known => ?_
      omega
    have found := entryAt_meets ip (indirect.frame.sound sound) indirect.exact
      (by rw [atTable]; exact indirect.present) inTable room
    rw [atTable] at found
    refine Meets.imp found ?_
    rintro b next ⟨placed, later⟩
    rw [place, ← inum] at placed
    have occupied : middle.vacancy (.indirect (middle.icache ip).inum) = 0 := by
      rw [inum, vacancy, show middle.number (.indirect _) = table from indirect.number,
        if_neg indirect.present]
    exact ⟨Mapped.after_indirect indirect beyond (placed.mapped (Or.inr occupied)),
      recorded.trans later⟩

end Xv6.Fs
