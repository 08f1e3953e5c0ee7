import Xv6.Fs.Cache

/-! # Freeing the blocks of an inode

`itrunc` frees the direct blocks one by one, then those of the indirect block,
which keeps their numbers until it is freed itself. While this goes on the bit
map is exact except for the entries already dealt with.
-/

namespace Xv6.Fs

open Program Store

/-- The bit map is exact if the numbers at the released places are ignored. -/
def Store.ExactWithout (store : Store) (released : Place → Prop) [DecidablePred released] : Prop :=
  Allocation.Exact (· < store.sb.size) (· < store.sb.nmeta)
    (fun place => if released place then none else store.holder place) (store.marked ·)

/-- The entries of an indirect block that are not among those left. -/
def Freed (inum : Nat) (left : List Nat) : Place → Prop
  | .direct _ _ => False
  | .entry other index => other = inum ∧ index ∉ left

instance (inum : Nat) (left : List Nat) : DecidablePred (Freed inum left)
  | .direct _ _ => isFalse id
  | .entry other index => inferInstanceAs (Decidable (other = inum ∧ index ∉ left))

section

variable {store next : Store} {released : Place → Prop} [DecidablePred released]

theorem Store.ExactWithout.held (exact : store.ExactWithout released) {place : Place}
    (kept : ¬released place) (present : store.number place ≠ 0) :
    store.sb.nmeta ≤ store.number place ∧ store.number place < store.sb.size ∧
      store.marked (store.number place) = true := by
  have held : (if released place then none else store.holder place) =
      some (store.number place) := by
    rw [if_neg kept, holder_of_number present]
  rcases Allocation.Exact.held exact place _ held with ⟨inside, notReserved⟩
  exact ⟨Nat.le_of_not_lt notReserved, inside, Allocation.Exact.marked_of_held exact held⟩

/-- Clearing bits of the bit map changes no data. -/
structure Cleared (store next : Store) : Prop where
  keeps : Store.KeepsInodes store next
  data : ∀ b, store.sb.nmeta ≤ b → next.blocks b = store.blocks b

theorem Cleared.refl (store : Store) : Cleared store store :=
  ⟨.refl store, fun _ _ => rfl⟩

theorem Cleared.trans {final : Store} (first : Cleared store next) (second : Cleared next final) :
    Cleared store final where
  keeps := first.keeps.trans second.keeps
  data := fun b isData =>
    (second.data b (by rw [first.keeps.sb]; exact isData)).trans (first.data b isData)

theorem Cleared.release (sound : store.Sound) {b : Nat} (inside : b < store.sb.size) :
    Cleared store (store.release b) :=
  ⟨release_keepsInodes sound b, fun _ isData => release_blocks inside isData⟩

theorem Cleared.number (cleared : Cleared store next)
    (tables : ∀ inum, store.addr inum NDIRECT ≠ 0 → store.sb.nmeta ≤ store.addr inum NDIRECT)
    (place : Place) : next.number place = store.number place :=
  cleared.keeps.sameInodes.number
    (fun inum present => cleared.data _ (tables inum present)) place

theorem Store.ExactWithout.tables (exact : store.ExactWithout released)
    (kept : ∀ inum, ¬released (.indirect inum)) (inum : Nat)
    (present : store.addr inum NDIRECT ≠ 0) : store.sb.nmeta ≤ store.addr inum NDIRECT :=
  (exact.held (kept inum) (show store.number (.indirect inum) ≠ 0 from present)).1

end

/-! ## The entries of the indirect block -/

section

variable {state : State} {inum index : Nat} {left : List Nat}

theorem not_freed_indirect (inum : Nat) (left : List Nat) (other : Nat) :
    ¬Freed inum left (.indirect other) := id

theorem truncEntry_returns (sound : state.Sound) (table : state.addr inum NDIRECT ≠ 0)
    (exact : state.ExactWithout (Freed inum (index :: left))) (fresh : index ∉ left) :
    Returns (truncEntry (state.addr inum NDIRECT) index) state fun _ next =>
      Cleared state.toStore next.toStore ∧ next.ExactWithout (Freed inum left) ∧
        Records state next := by
  have number := number_entry table index
  have others : ∀ place, place ≠ .entry inum index →
      (Freed inum left place ↔ Freed inum (index :: left) place) := by
    intro place different
    cases place with
    | direct other position => rfl
    | entry other position =>
      simp only [Freed, List.mem_cons, not_or]
      constructor
      · rintro ⟨rfl, outside⟩
        refine ⟨rfl, ?_, outside⟩
        rintro rfl
        exact different rfl
      · rintro ⟨same, _, outside⟩
        exact ⟨same, outside⟩
  have kept : ¬Freed inum (index :: left) (.entry inum index) := fun freed =>
    freed.2 List.mem_cons_self
  have freed : Freed inum left (.entry inum index) := ⟨rfl, fresh⟩
  simp only [Returns, truncEntry, bread, meets_bind, meets_get, meets_pure]
  rw [← number]
  split
  · rename_i vacant
    rw [meets_pure]
    refine ⟨.refl _, ?_, .refl state⟩
    refine Allocation.Exact.congr exact ?_ (fun _ _ => Iff.rfl)
    intro place
    by_cases same : place = .entry inum index
    · subst same
      rw [if_pos freed, if_neg kept, holder_eq_none.mpr vacant]
    · simp only [others place same]
  · rename_i present
    rcases exact.held kept present with ⟨_, inside, isMarked⟩
    refine Meets.imp (bfree_returns sound isMarked) ?_
    rintro _ next rfl
    have cleared := Cleared.release sound inside
    have numbers := cleared.number (exact.tables (not_freed_indirect inum _))
    refine ⟨cleared, ?_, .logWrite rfl⟩
    have held : (if Freed inum (index :: left) (.entry inum index) then none
        else state.holder (.entry inum index)) = some (state.number (.entry inum index)) := by
      rw [if_neg kept, holder_of_number present]
    refine Allocation.Exact.release exact held ?_ ?_
    · intro place
      rw [Function.update_apply]
      by_cases same : place = .entry inum index
      · subst same
        rw [if_pos freed, if_pos rfl]
      · rw [if_neg same]
        simp only [others place same, holder_congr (numbers place)]
    · intro b _
      change (state.release _).marked b = true ↔ _
      rw [release_marked]
      simp

theorem truncEntries_returns (table : state.addr inum NDIRECT ≠ 0) (sound : state.Sound)
    (exact : state.Exact) :
    Returns (forM (List.range NINDIRECT) (truncEntry (state.addr inum NDIRECT))) state
      fun _ next => Cleared state.toStore next.toStore ∧ next.ExactWithout (Freed inum []) ∧
        Records state next := by
  have loop := returns_forM (truncEntry (state.addr inum NDIRECT))
    (fun left current => Cleared state.toStore current.toStore ∧ left.Nodup ∧
      current.ExactWithout (Freed inum left) ∧ Records state current) ?_
    (List.range NINDIRECT) state ⟨.refl _, List.nodup_range, ?_, .refl state⟩
  · refine Meets.imp loop ?_
    rintro _ next ⟨cleared, _, without, records⟩
    exact ⟨cleared, without, records⟩
  · rintro position left current ⟨cleared, distinct, without, records⟩
    rw [List.nodup_cons] at distinct
    have addr : current.addr inum NDIRECT = state.addr inum NDIRECT :=
      cleared.keeps.sameInodes.addr inum NDIRECT
    have step := truncEntry_returns (cleared.keeps.sound sound) (by rw [addr]; exact table)
      without distinct.1
    rw [addr] at step
    refine Meets.imp step ?_
    rintro _ next ⟨more, after, later⟩
    exact ⟨cleared.trans more, distinct.2, after, records.trans later⟩
  · refine Allocation.Exact.congr exact ?_ (fun _ _ => Iff.rfl)
    intro place
    split
    · rename_i freed
      cases place with
      | direct other position => exact freed.elim
      | entry other position =>
        -- beyond the last entry of the indirect block
        symm
        rw [holder_eq_none]
        by_contra present
        have beyond : Place.entry other position = .data other (NDIRECT + position) := by
          rw [Place.data, if_neg (by omega), Nat.add_sub_cancel_left]
        rw [beyond] at present
        have bound := bound_of_number present
        have outside := freed.2
        simp only [List.mem_range, MAXFILE] at outside bound
        omega
    · rfl

end

/-! ## An entry of `addrs` -/

section

variable {state : State} {ip : Fin NINODE} {released : Place → Prop} [DecidablePred released]

theorem truncAddr_returns (sound : state.Sound) (holds : state.Holds ip)
    (exact : state.ExactWithout released) (index : Fin (NDIRECT + 1))
    (tables : ∀ inum, ¬released (.indirect inum))
    (kept : ¬released (.direct (state.icache ip).inum index))
    (emptied : index.val = NDIRECT → ∀ position, released (.entry (state.icache ip).inum position)) :
    Returns (truncAddr ip index) state fun _ next =>
      Store.Frame ip state.toStore next.toStore ∧ next.ExactWithout released ∧
      (∀ b, state.sb.nmeta ≤ b → next.blocks b = state.blocks b) ∧ Records state next ∧
      (next.icache ip).copy.addrs = Function.update (state.icache ip).copy.addrs index 0 := by
  have number := number_direct sound.cache holds index
  simp only [Returns, truncAddr, meets_bind, meets_get]
  split
  · rename_i zero
    refine ⟨.refl ip _, exact, fun _ _ => rfl, .refl state, ?_⟩
    rw [← zero, Function.update_eq_self]
  · rename_i nonzero
    have present : state.number (.direct (state.icache ip).inum index) ≠ 0 := by
      rw [number]
      exact fun zero => nonzero (UInt32.toNat_inj.mp zero)
    rcases exact.held kept present with ⟨_, inside, isMarked⟩
    rw [meets_bind, ← number]
    refine Meets.imp (bfree_returns sound isMarked) ?_
    rintro _ middle rfl
    let freed := state.release (state.number (.direct (state.icache ip).inum index))
    let final := freed.setAddr ip index 0
    have cleared : Cleared state.toStore freed := Cleared.release sound inside
    have frame : Store.Frame ip state.toStore final :=
      (Store.Frame.of_keepsInodes ip cleared.keeps).trans (setCopy_frame _)
    have numbers : ∀ place, ¬released place → final.number place =
        if place = .direct (state.icache ip).inum index then 0 else state.number place := by
      intro place placeKept
      have apart : ∀ position, NDIRECT = index.val →
          place ≠ .entry (state.icache ip).inum position := by
        rintro position last rfl
        exact placeKept (emptied last.symm position)
      refine (setAddr_number (cleared.keeps.sound sound) holds index (by decide) apart).trans ?_
      rw [cleared.number (exact.tables tables)]
      rfl
    have held : (if released (.direct (state.icache ip).inum index) then none
        else state.holder (.direct (state.icache ip).inum index)) =
        some (state.number (.direct (state.icache ip).inum index)) := by
      rw [if_neg kept, holder_of_number present]
    have without : final.ExactWithout released := by
      refine Allocation.Exact.release exact held ?_ ?_
      · intro place
        rw [Function.update_apply]
        by_cases same : place = .direct (state.icache ip).inum index
        · subst same
          rw [if_neg kept, if_pos rfl, holder_eq_none, numbers _ kept, if_pos rfl]
        · rw [if_neg same]
          by_cases placeFreed : released place
          · rw [if_pos placeFreed, if_pos placeFreed]
          · rw [if_neg placeFreed, if_neg placeFreed]
            exact holder_congr (by rw [numbers place placeFreed, if_neg same])
      · intro b _
        change (state.release _).marked b = true ↔ _
        rw [release_marked]
        simp
    refine ⟨frame, without, cleared.data, .logWrite rfl, ?_⟩
    change (final.icache ip).copy.addrs = _
    simp only [final, Store.setAddr, Store.setCopy_self]
    rfl

end

/-! ## `itrunc` -/

section

variable {state : State} {ip : Fin NINODE}

theorem Store.exactWithout_none {store : Store} :
    store.ExactWithout (fun _ => False) ↔ store.Exact := by
  simp only [Store.ExactWithout, if_false, Store.Exact]

/-- Some blocks of the inode at `ip` have been freed. -/
structure Shrunk (ip : Fin NINODE) (state next : State) : Prop where
  frame : Store.Frame ip state.toStore next.toStore
  exact : next.Exact
  data : ∀ b, state.sb.nmeta ≤ b → next.blocks b = state.blocks b
  records : Records state next

theorem truncDirect_returns (sound : state.Sound) (exact : state.Exact) (holds : state.Holds ip) :
    Returns (forM (List.finRange NDIRECT) fun index => truncAddr ip index.castSucc) state
      fun _ next => Shrunk ip state next ∧
        ∀ index : Fin NDIRECT, (next.icache ip).copy.addrs index.castSucc = 0 := by
  have loop := returns_forM (fun index : Fin NDIRECT => truncAddr ip index.castSucc)
    (fun left current => Shrunk ip state current ∧
      ∀ index, index ∉ left → (current.icache ip).copy.addrs index.castSucc = 0) ?_
    (List.finRange NDIRECT) state ⟨⟨.refl ip _, exact, fun _ _ => rfl, .refl state⟩,
      fun index outside => absurd (List.mem_finRange index) outside⟩
  · exact Meets.imp loop fun _ next holds => ⟨holds.1, fun index => holds.2 index List.not_mem_nil⟩
  · rintro element left current ⟨shrunk, zeros⟩
    have direct : element.castSucc.val ≠ NDIRECT := Nat.ne_of_lt element.isLt
    refine Meets.imp (truncAddr_returns (shrunk.frame.sound sound)
      ((shrunk.frame.holds ip).mpr holds) (exactWithout_none.mpr shrunk.exact)
      element.castSucc (fun _ => id) id (fun last => absurd last direct)) ?_
    rintro _ next ⟨frame, without, data, records, addrs⟩
    refine ⟨⟨shrunk.frame.trans frame, exactWithout_none.mp without, ?_,
      shrunk.records.trans records⟩, ?_⟩
    · intro b isData
      exact (data b (by rw [shrunk.frame.sb]; exact isData)).trans (shrunk.data b isData)
    · intro index outside
      rw [addrs, Function.update_apply]
      split
      · rfl
      · rename_i different
        refine zeros index ?_
        rw [List.mem_cons, not_or]
        exact ⟨fun same => different (by rw [same]), outside⟩

theorem truncIndirect_returns (sound : state.Sound) (exact : state.Exact)
    (holds : state.Holds ip) :
    Returns (truncIndirect ip) state fun _ next => Shrunk ip state next ∧
      (next.icache ip).copy.addrs =
        Function.update (state.icache ip).copy.addrs (Fin.last NDIRECT) 0 := by
  have addr : state.addr (state.icache ip).inum NDIRECT =
      ((state.icache ip).copy.addrs (Fin.last NDIRECT)).toNat :=
    number_direct sound.cache holds (Fin.last NDIRECT)
  simp only [Returns, truncIndirect, meets_bind, meets_get]
  split
  · rename_i zero
    refine ⟨⟨.refl ip _, exact, fun _ _ => rfl, .refl state⟩, ?_⟩
    rw [← zero, Function.update_eq_self]
  · rename_i nonzero
    have table : state.addr (state.icache ip).inum NDIRECT ≠ 0 := by
      rw [addr]
      exact fun zero => nonzero (UInt32.toNat_inj.mp zero)
    rw [meets_bind, ← addr]
    refine Meets.imp (truncEntries_returns table sound exact) ?_
    rintro _ middle ⟨cleared, without, records⟩
    have frame := Store.Frame.of_keepsInodes ip cleared.keeps
    refine Meets.imp (truncAddr_returns (frame.sound sound) ((frame.holds ip).mpr holds) without
      (Fin.last NDIRECT) (fun inum => not_freed_indirect _ _ inum) id
      (fun _ position => ⟨by rw [frame.inum], List.not_mem_nil⟩)) ?_
    rintro _ next ⟨last, after, data, later, addrs⟩
    have whole := frame.trans last
    have lastAddr : next.addr (state.icache ip).inum NDIRECT = 0 := by
      have read := number_direct (whole.sound sound).cache ((whole.holds ip).mpr holds)
        (Fin.last NDIRECT)
      rw [whole.inum, addrs, Function.update_self] at read
      exact read
    refine ⟨⟨whole, ?_, ?_, records.trans later⟩, ?_⟩
    · -- the freed entries are gone with the indirect block
      refine Allocation.Exact.congr after ?_ (fun _ _ => Iff.rfl)
      intro place
      split
      · rename_i freed
        cases place with
        | direct inum index => exact freed.elim
        | entry inum index =>
          rw [holder_eq_none, freed.1, number, if_pos lastAddr]
      · rfl
    · intro b isData
      exact (data b (by rw [frame.sb]; exact isData)).trans (cleared.data b isData)
    · rw [addrs, cleared.keeps.icache]

/-- The inode at `ip` has lost its contents, and nothing else has changed. -/
structure Truncated (ip : Fin NINODE) (store next : Store) : Prop where
  sb : next.sb = store.sb
  devsw : next.devsw = store.devsw
  slots : Store.SameSlots store next
  others : ∀ jp, jp ≠ ip → next.icache jp = store.icache jp
  own : next.inode (store.icache ip).inum =
    { store.inode (store.icache ip).inum with size := 0, addrs := fun _ => 0 }
  dinode : next.dinode (store.icache ip).inum = next.inode (store.icache ip).inum
  dinodes : ∀ inum, inum < store.sb.ninodes → inum ≠ (store.icache ip).inum →
    next.dinode inum = store.dinode inum
  inode : ∀ inum, inum < store.sb.ninodes → inum ≠ (store.icache ip).inum →
    next.inode inum = store.inode inum
  contents : ∀ inum, inum < store.sb.ninodes → inum ≠ (store.icache ip).inum →
    next.contents inum = store.contents inum

/-- No place has got a block that it did not have before. -/
def NoneAdded (store next : Store) : Prop :=
  ∀ place, next.number place ≠ 0 → next.number place = store.number place

theorem itrunc_returns (consistent : Consistent state.toStore) (holds : state.Holds ip) :
    Returns (itrunc ip) state fun _ next => Consistent next.toStore ∧
      Truncated ip state.toStore next.toStore ∧ Records state next ∧
      NoneAdded state.toStore next.toStore := by
  have sound := consistent.toSound
  unfold Returns itrunc
  rw [meets_bind]
  refine Meets.imp (truncDirect_returns sound consistent.exact holds) ?_
  rintro _ first ⟨direct, zeros⟩
  rw [meets_bind]
  refine Meets.imp (truncIndirect_returns (direct.frame.sound sound) direct.exact
    ((direct.frame.holds ip).mpr holds)) ?_
  rintro _ second ⟨indirect, addrs⟩
  have frame := direct.frame.trans indirect.frame
  have secondSound := frame.sound sound
  have secondHolds := (frame.holds ip).mpr holds
  have typed := secondSound.cache.typed ip secondHolds
  have data : ∀ b, state.sb.nmeta ≤ b → second.blocks b = state.blocks b := fun b isData =>
    (indirect.data b (by rw [direct.frame.sb]; exact isData)).trans (direct.data b isData)
  have empty : (second.icache ip).copy.addrs = fun _ => 0 := by
    funext index
    rw [addrs, Function.update_apply]
    split
    · rfl
    · rename_i notLast
      have bound : index.val < NDIRECT := Nat.lt_of_le_of_ne (Nat.lt_succ_iff.mp index.isLt)
        fun last => notLast (Fin.ext last)
      exact zeros ⟨index.val, bound⟩
  let final := second.update ip { (second.icache ip).copy with size := 0 }
  have finalInode : ∀ inum, final.inode inum = if inum = (state.icache ip).inum then
      { (second.icache ip).copy with size := 0 } else second.inode inum := by
    intro inum
    rw [update_inode secondSound.cache secondHolds, frame.inum]
  have number : ∀ place, final.number place = second.number place :=
    update_number secondSound indirect.exact secondHolds typed rfl
  have fileBlock : ∀ inum bn, final.fileBlock inum bn = second.fileBlock inum bn :=
    update_fileBlock secondSound indirect.exact secondHolds typed rfl
  have otherNumber : ∀ place : Place, place.inum ≠ (state.icache ip).inum →
      second.number place = state.number place :=
    fun place => frame.number_of_ne consistent.exact data
  have ownAddr : ∀ index, second.addr (state.icache ip).inum index = 0 := by
    intro index
    have read := addr_eq_copy secondSound.cache secondHolds index
    rw [frame.inum] at read
    rw [read, Dinode.addr, empty]
    split <;> rfl
  have ownNumber : ∀ place : Place, place.inum = (state.icache ip).inum →
      second.number place = 0 := by
    intro place same
    cases place with
    | direct inum index =>
      cases same
      exact ownAddr index
    | entry inum index =>
      cases same
      rw [Store.number, if_pos (ownAddr NDIRECT)]
  have noneAdded : NoneAdded state.toStore final := by
    intro place present
    rw [number] at present ⊢
    exact otherNumber place fun same => present (ownNumber place same)
  have copyEq : ({ (second.icache ip).copy with size := 0 } : Dinode) =
      { state.inode (state.icache ip).inum with size := 0, addrs := fun _ => 0 } := by
    rw [consistent.cache.inode_eq holds, frame.own]
    simp only [empty]
  have after : Consistent final := by
    refine consistent.resize frame indirect.exact holds ?_ ?_
    · intro inum bn different
      rw [otherNumber _ (by rw [Place.inum_data]; exact different)]
    · intro bn
      rw [ownNumber _ (Place.inum_data _ bn), lt_blocksFor]
      simp
  have truncated : Truncated ip state.toStore final := by
    refine ⟨frame.sb, frame.devsw, frame.sameSlots.trans (update_sameSlots _), ?_, ?_, ?_, ?_,
      ?_, ?_⟩
    · intro jp different
      rw [update_of_ne different, frame.others jp different]
    · rw [finalInode, if_pos rfl, copyEq]
    · rw [finalInode, if_pos rfl, ← frame.inum, update_dinode, if_pos rfl]
    · intro inum bound different
      rw [update_dinode, frame.inum, if_neg different, frame.dinode inum bound]
    · intro inum bound different
      rw [finalInode, if_neg different, frame.inode_of_ne bound different]
    · intro inum bound different
      rw [contents, finalInode, if_neg different, frame.inode_of_ne bound different,
        contents]
      apply List.map_congr_left
      intro position _
      simp only [fileByte, fileBlock]
      unfold Store.fileBlock
      rw [otherNumber _ (by rw [Place.inum_data]; exact different)]
      split
      · rfl
      · rename_i present
        rw [data _ (consistent.exact.data present).1]
  refine Meets.imp (growTo_returns second ip 0) ?_
  rintro _ next rfl
  exact ⟨after, truncated, direct.records.trans (indirect.records.trans (.logWrite rfl)), noneAdded⟩

/-! ## `iput` -/

/-- Free an inode on disk, and forget its copy. -/
def Store.freeInode (store : Store) (ip : Fin NINODE) : Store :=
  let free := { (store.icache ip).copy with type := 0 }
  (store.setSlot ip { store.icache ip with valid := false, copy := free }).putInode
    (store.icache ip).inum free

/-- Give up the last reference to an inode, and free it on disk. -/
def Store.retire (store : Store) (ip : Fin NINODE) : Store :=
  let free := { (store.icache ip).copy with type := 0 }
  (store.setSlot ip { store.icache ip with ref := 0, valid := false, copy := free }).putInode
    (store.icache ip).inum free

theorem Store.freeInode_dropRef {store : Store} (last : (store.icache ip).ref = 1) :
    (store.freeInode ip).dropRef ip = store.retire ip := by
  simp only [freeInode, dropRef, retire, setSlot, putInode,
    putBlock, Function.update_self, Function.update_idem, last]

theorem ifree_returns (consistent : Consistent state.toStore) (holds : state.Holds ip) :
    Returns (ifree ip) state fun _ next => ∃ middle : State, Consistent middle.toStore ∧
      Truncated ip state.toStore middle.toStore ∧ Records state next ∧
      NoneAdded state.toStore middle.toStore ∧ next.toStore = middle.freeInode ip := by
  unfold Returns ifree
  rw [meets_bind]
  refine Meets.imp (itrunc_returns consistent holds) ?_
  rintro _ middle ⟨after, truncated, records, noneAdded⟩
  simp only [setInode, iupdate, meets_bind, meets_get, meets_modify]
  refine Meets.imp (putDinode_returns _ _ _) ?_
  rintro _ next rfl
  refine ⟨middle, after, truncated, records.trans (.logWrite rfl), noneAdded, ?_⟩
  simp only [freeInode, setSlot, putInode, putBlock, Function.update_self,
    Function.update_idem]

theorem Consistent.retire {store : Store} (consistent : Consistent store) (holds : store.Holds ip)
    (size : (store.icache ip).copy.size = 0) (addrs : (store.icache ip).copy.addrs = fun _ => 0) :
    Consistent (store.retire ip) ∧
      (∀ place, (store.retire ip).number place = store.number place) ∧
      ∀ inum, (store.retire ip).inode inum = if inum = (store.icache ip).inum then
        { (store.icache ip).copy with type := 0 } else store.inode inum := by
  let free : Dinode := { (store.icache ip).copy with type := 0 }
  let dropped := store.setSlot ip { store.icache ip with ref := 0, valid := false, copy := free }
  have unused : ¬0 < 0 := Nat.lt_irrefl 0
  have changed : SameFiles store dropped ∧ Consistent dropped :=
    consistent.setSlot (fun used => absurd used unused) (fun used => absurd used unused)
      (fun used => absurd used unused) (fun used => absurd used unused)
  have uncached : dropped.cached (store.icache ip).inum = none := by
    cases found : dropped.cached (store.icache ip).inum with
    | none => rfl
    | some jp =>
      rcases cached_eq_some found with ⟨jpHolds, own⟩
      unfold Store.Holds at jpHolds
      by_cases same : jp = ip
      · subst same
        rw [setSlot_self] at jpHolds
        exact absurd jpHolds.1 unused
      · rw [setSlot_of_ne same] at jpHolds own
        exact absurd (consistent.cache.single jp ip jpHolds.1 holds.1 own) same
  have vacant : ∀ index, dropped.addr (store.icache ip).inum index = 0 := by
    intro index
    rw [changed.1.inodes.addr, addr_eq_copy consistent.cache holds, Dinode.addr, addrs]
    split <;> rfl
  have written := changed.2.putEmpty (consistent.cache.range ip holds.1).2 uncached vacant
    (show free.size = 0 from size) addrs
  refine ⟨written.1,
    fun place => (written.2 place).trans (changed.1.number consistent.exact place), fun inum => ?_⟩
  rw [Store.retire, Store.putInode_inode]
  by_cases own : inum = (store.icache ip).inum
  · rw [if_pos ⟨own, uncached⟩, if_pos own]
  · rw [if_neg fun both => own both.1, if_neg own,
      setSlot_inode consistent.cache changed.2.cache,
      if_neg fun replaced => absurd replaced.1 unused, if_neg fun held => own held.2.symm]

/-- What `iput` does: it gives up a reference, and when this was the last one to
an inode without links the inode is truncated and freed. -/
def Put (ip : Fin NINODE) (store next : Store) : Prop :=
  if (store.icache ip).ref = 1 ∧ (store.icache ip).valid ∧ (store.icache ip).copy.nlink = 0 then
    ∃ middle, Consistent middle ∧ Truncated ip store middle ∧ next = middle.retire ip
  else
    next = store.dropRef ip

theorem Consistent.iput (consistent : Consistent state.toStore)
    (used : 0 < (state.icache ip).ref) :
    Returns (Fs.iput ip) state fun _ next =>
      Consistent next.toStore ∧ Records state next ∧ Put ip state.toStore next.toStore ∧
        NoneAdded state.toStore next.toStore := by
  simp only [Returns, Fs.iput, meets_bind, meets_get, meets_ite, setInode, meets_modify]
  refine ⟨?_, ?_⟩
  · rintro ⟨last, valid, unlinked⟩
    have holds : state.Holds ip := ⟨used, valid⟩
    refine Meets.imp (ifree_returns consistent holds) ?_
    rintro _ next ⟨middle, after, truncated, records, noneAdded, freed⟩
    have middleHolds : middle.Holds ip := (truncated.slots.holds ip).mpr holds
    have own := truncated.own
    rw [← truncated.slots.inum ip, after.cache.inode_eq middleHolds] at own
    have retired := after.retire middleHolds (by rw [own]) (by rw [own])
    rw [← freeInode_dropRef ((truncated.slots.ref ip).trans last), ← freed] at retired
    refine ⟨retired.1, records, ?_, fun place present => ?_⟩
    · rw [Put, if_pos ⟨last, valid, unlinked⟩]
      refine ⟨middle.toStore, after, truncated, ?_⟩
      rw [← freeInode_dropRef ((truncated.slots.ref ip).trans last), ← freed]
      rfl
    · have same := retired.2.1 place
      exact same.trans (noneAdded place (same ▸ present))
  · intro stays
    have dropped := consistent.setRef used ((state.icache ip).ref - 1)
    refine ⟨dropped.2, .refl state, ?_, fun place _ => dropped.1.number consistent.exact place⟩
    rw [Put, if_neg stays]
    rfl

end

end Xv6.Fs
