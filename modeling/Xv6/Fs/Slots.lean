import Xv6.Fs.Truncate

/-! # Entries of the inode cache on any disk

Entries are taken by `iget` and given up by `iput`. No other function changes which
entries are in use, for which inodes, and whether their copies are valid, whatever
there is on the disk.
-/

namespace Xv6.Fs

open Program

/-! ## The entry of an inode -/

section

variable {store : Store} {inum : Nat} {ip : Fin NINODE}

def Store.slot (store : Store) (inum : Nat) : Option (Fin NINODE) :=
  (List.finRange NINODE).find? fun ip =>
    0 < (store.icache ip).ref ∧ (store.icache ip).inum = inum

theorem Store.slot_eq_some (found : store.slot inum = some ip) :
    0 < (store.icache ip).ref ∧ (store.icache ip).inum = inum := by
  simpa using List.find?_some found

theorem Store.slot_eq_none (missing : store.slot inum = none) (used : 0 < (store.icache ip).ref) :
    (store.icache ip).inum ≠ inum := by
  have refuted := List.find?_eq_none.mp missing ip (List.mem_finRange ip)
  simp only [decide_eq_true_eq, not_and] at refuted
  exact refuted used

end

/-! ## Functions that leave the entries alone -/

theorem Store.SameSlots.refl (store : Store) : Store.SameSlots store store :=
  ⟨fun _ => rfl, fun _ => rfl, fun _ => rfl⟩

/-- The entries are the same in both states, apart from the copies of inodes. -/
def SameEntries (state next : State) : Prop := Store.SameSlots state.toStore next.toStore

instance : IsPreorder State SameEntries where
  refl := fun state => Store.SameSlots.refl state.toStore
  trans := fun _ _ _ => Store.SameSlots.trans

section

variable {ip : Fin NINODE}

theorem setInode_stays {change : Inode → Inode} (inum : ∀ inode, (change inode).inum = inode.inum)
    (ref : ∀ inode, (change inode).ref = inode.ref)
    (valid : ∀ inode, (change inode).valid = inode.valid) :
    Stays SameEntries (setInode ip change) := by
  refine stays_modify fun state => ⟨?_, ?_, ?_⟩
  all_goals
    intro jp
    by_cases same : jp = ip
    · subst same
      simp [inum, ref, valid]
    · simp [same]

theorem bread_stays (blockno : Nat) : Stays SameEntries (bread blockno) :=
  stays_bind stays_get fun _ => stays_pure _

theorem logWrite_stays (blockno : Nat) (data : Block) :
    Stays SameEntries (logWrite blockno data) :=
  stays_modify fun _ => ⟨fun _ => rfl, fun _ => rfl, fun _ => rfl⟩

theorem ballocFrom_stays : ∀ count b, Stays SameEntries (ballocFrom count b)
  | 0, _ => stays_throw _
  | count + 1, b => by
      refine stays_bind stays_get fun state => stays_ite _ ?_ (stays_throw _)
      refine stays_bind (bread_stays _) fun bitmap => ?_
      split
      · exact stays_bind (logWrite_stays _ _) fun _ => stays_bind (logWrite_stays _ _) fun _ =>
          stays_pure _
      · exact ballocFrom_stays count _

theorem balloc_stays : Stays SameEntries balloc :=
  stays_bind stays_get fun _ => stays_bind (ballocFrom_stays _ _) fun _ =>
    stays_bind (stays_modify fun state => Store.SameSlots.refl state.toStore) fun _ => stays_pure _

theorem bfree_stays (b : Nat) : Stays SameEntries (bfree b) :=
  stays_bind (stays_bind (bread_stays _) fun _ => stays_pure _) fun _ =>
    stays_bind (stays_modify fun _ => ⟨fun _ => rfl, fun _ => rfl, fun _ => rfl⟩) fun _ =>
      stays_bind (bread_stays _) fun _ => stays_ite _ (logWrite_stays _ _) (stays_throw _)

theorem putDinode_stays (inum : Nat) (dinode : Dinode) : Stays SameEntries (putDinode inum dinode) :=
  stays_bind stays_get fun _ => stays_bind (bread_stays _) fun _ => logWrite_stays _ _

theorem iupdate_stays (ip : Fin NINODE) : Stays SameEntries (iupdate ip) :=
  stays_bind stays_get fun _ => putDinode_stays _ _

theorem setAddr_stays (ip : Fin NINODE) (index : Fin (NDIRECT + 1)) (block : Nat) :
    Stays SameEntries (setAddr ip index block) :=
  setInode_stays (fun _ => rfl) (fun _ => rfl) fun _ => rfl

theorem addrAt_stays (ip : Fin NINODE) (index : Fin (NDIRECT + 1)) :
    Stays SameEntries (addrAt ip index) :=
  stays_bind stays_get fun _ => stays_ite _
    (stays_bind balloc_stays fun _ => stays_bind (setAddr_stays _ _ _) fun _ => stays_pure _)
    (stays_pure _)

theorem entryAt_stays (indirect index : Nat) : Stays SameEntries (entryAt indirect index) :=
  stays_bind (bread_stays _) fun _ => stays_ite _
    (stays_bind balloc_stays fun _ => stays_bind (bread_stays _) fun _ =>
      stays_bind (logWrite_stays _ _) fun _ => stays_pure _)
    (stays_pure _)

theorem bmap_stays (ip : Fin NINODE) (bn : Nat) : Stays SameEntries (bmap ip bn) := by
  unfold bmap
  split
  · exact addrAt_stays _ _
  · exact stays_ite _ (stays_bind (addrAt_stays _ _) fun _ => entryAt_stays _ _) (stays_throw _)

/-! ## Reading and writing -/

theorem readLoop_stays (ip : Fin NINODE) :
    ∀ passes left off, Stays SameEntries (readLoop ip passes left off)
  | 0, _, _ => stays_pure _
  | passes + 1, _, _ => stays_ite _ (stays_pure _) (stays_bind (bmap_stays _ _) fun _ =>
    stays_bind (bread_stays _) fun _ => stays_bind (readLoop_stays ip passes _ _) fun _ =>
      stays_pure _)

theorem readi_stays (ip : Fin NINODE) (off n : UInt32) : Stays SameEntries (readi ip off n) := by
  refine stays_bind stays_get fun state => stays_ite _ ?_ (stays_ite _ (stays_pure _)
    (stays_bind (readLoop_stays _ _ _ _) fun _ => stays_pure _))
  split
  · exact stays_pure _
  · exact stays_pure _

theorem writeLoop_stays (ip : Fin NINODE) (src : Nat → UInt8) :
    ∀ passes left tot off, Stays SameEntries (writeLoop ip src passes left tot off)
  | 0, _, _, _ => stays_pure _
  | passes + 1, _, _, _ => stays_ite _ (stays_pure _) (stays_bind (bmap_stays _ _) fun _ =>
    stays_bind (bread_stays _) fun _ => stays_bind (logWrite_stays _ _) fun _ =>
      writeLoop_stays ip src passes _ _ _)

theorem growTo_stays (ip : Fin NINODE) (off : UInt32) : Stays SameEntries (growTo ip off) :=
  stays_bind (setInode_stays (fun _ => rfl) (fun _ => rfl) fun _ => rfl) fun _ => iupdate_stays ip

theorem writei_stays (ip : Fin NINODE) (src : Nat → UInt8) (off n : UInt32) :
    Stays SameEntries (writei ip src off n) := by
  refine stays_bind stays_get fun state => stays_ite _ ?_ (stays_ite _ (stays_pure _)
    (stays_ite _ (stays_pure _) (stays_bind (writeLoop_stays _ _ _ _ _ _) fun _ =>
      stays_bind stays_get fun _ => ?_)))
  · split
    · exact stays_pure _
    · exact stays_pure _
  · exact stays_ite _ (stays_bind (growTo_stays _ _) fun _ => stays_pure _)
      (stays_pure _)

/-! ## Freeing -/

theorem truncAddr_stays (ip : Fin NINODE) (index : Fin (NDIRECT + 1)) :
    Stays SameEntries (truncAddr ip index) :=
  stays_bind stays_get fun _ => stays_ite _ (stays_pure _)
    (stays_bind (bfree_stays _) fun _ => setAddr_stays _ _ _)

theorem truncEntry_stays (indirect index : Nat) : Stays SameEntries (truncEntry indirect index) :=
  stays_bind (bread_stays _) fun _ => stays_ite _ (stays_pure _) (bfree_stays _)

theorem truncIndirect_stays (ip : Fin NINODE) : Stays SameEntries (truncIndirect ip) :=
  stays_bind stays_get fun _ => stays_ite _ (stays_pure _)
    (stays_bind (stays_forM (truncEntry_stays _) _) fun _ => truncAddr_stays _ _)

theorem itrunc_stays (ip : Fin NINODE) : Stays SameEntries (itrunc ip) :=
  stays_bind (stays_forM (fun _ => truncAddr_stays _ _) _) fun _ =>
    stays_bind (truncIndirect_stays ip) fun _ =>
      stays_bind (setInode_stays (fun _ => rfl) (fun _ => rfl) fun _ => rfl) fun _ =>
        iupdate_stays ip

/-- Giving up an entry: `iput` changes no other one. -/
theorem iput_slots (state : State) (ip : Fin NINODE) :
    Meets (iput ip) state (fun _ => True) fun _ next =>
      (∀ jp, (next.icache jp).inum = (state.icache jp).inum) ∧
      (∀ jp, jp ≠ ip → (next.icache jp).ref = (state.icache jp).ref ∧
        (next.icache jp).valid = (state.icache jp).valid) ∧
      (next.icache ip).ref = (state.icache ip).ref - 1 ∧
      (1 < (state.icache ip).ref → (next.icache ip).valid = (state.icache ip).valid) := by
  rw [iput, meets_bind, meets_get, meets_ite]
  have drop : ∀ middle : State, (∀ jp, (middle.icache jp).inum = (state.icache jp).inum) →
      (∀ jp, jp ≠ ip → (middle.icache jp).ref = (state.icache jp).ref ∧
        (middle.icache jp).valid = (state.icache jp).valid) →
      (middle.icache ip).ref = (state.icache ip).ref →
      (1 < (state.icache ip).ref → (middle.icache ip).valid = (state.icache ip).valid) →
      Meets (setInode ip fun inode => { inode with ref := inode.ref - 1 }) middle (fun _ => True)
        fun _ next => (∀ jp, (next.icache jp).inum = (state.icache jp).inum) ∧
          (∀ jp, jp ≠ ip → (next.icache jp).ref = (state.icache jp).ref ∧
            (next.icache jp).valid = (state.icache jp).valid) ∧
          (next.icache ip).ref = (state.icache ip).ref - 1 ∧
          (1 < (state.icache ip).ref → (next.icache ip).valid = (state.icache ip).valid) := by
    intro middle inum others ref valid
    rw [setInode, meets_modify]
    refine ⟨fun jp => ?_, fun jp different => ?_, ?_, fun more => ?_⟩
    · by_cases same : jp = ip
      · subst same
        simp [inum]
      · simp [same, inum]
    · simp [different, others jp different]
    · simp [ref]
    · simp [valid more]
  refine ⟨fun last => ?_, fun _ => drop state (fun _ => rfl) (fun _ _ => ⟨rfl, rfl⟩) rfl fun _ => rfl⟩
  rw [meets_bind, ifree, meets_bind]
  refine Meets.imp (itrunc_stays ip state) fun _ truncated kept => ?_
  rw [meets_bind]
  have retype : Stays SameEntries
      (setInode ip fun inode => { inode with copy := { inode.copy with type := 0 } }) :=
    setInode_stays (fun _ => rfl) (fun _ => rfl) fun _ => rfl
  refine Meets.imp (retype truncated) fun _ typeless same => ?_
  rw [meets_bind]
  refine Meets.imp (iupdate_stays ip typeless) fun _ written again => ?_
  have slots := (kept.trans same).trans again
  rw [setInode, meets_modify]
  refine drop _ (fun jp => ?_) (fun jp different => ?_) ?_ fun more => absurd last.1 (by omega)
  · by_cases same : jp = ip
    · subst same
      simp [slots.inum]
    · simp [same, slots.inum]
  · simp [different, slots.ref, slots.valid]
  · simp [slots.ref]

end

end Xv6.Fs
