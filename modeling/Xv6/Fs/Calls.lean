import Xv6.Foundation.Transition
import Xv6.Fs.Truncate

/-! # Runs of the inode layer

The rest of the kernel uses the inode layer by calling its functions in some
order, and by assigning to fields of the copy of an inode that it has locked.
-/

namespace Xv6.Fs

open Program Transition

variable {state : State} {ip : Fin NINODE}

inductive Call
  | ialloc (type : Int16)
  | iget (inum : Nat)
  | idup (ip : Fin NINODE)
  | ilock (ip : Fin NINODE)
  | readi (ip : Fin NINODE) (off n : UInt32)
  | writei (ip : Fin NINODE) (src : Nat → UInt8) (off n : UInt32)
  | setFields (ip : Fin NINODE) (major minor nlink : Int16)
  | iupdate (ip : Fin NINODE)
  | itrunc (ip : Fin NINODE)
  | iput (ip : Fin NINODE)

namespace Call

def execute : Call → Kernel Unit
  | .ialloc type => do let _ ← Fs.ialloc type; return ()
  | .iget inum => do let _ ← Fs.iget inum; return ()
  | .idup ip => do let _ ← Fs.idup ip; return ()
  | .ilock ip => Fs.ilock ip
  | .readi ip off n => do let _ ← Fs.readi ip off n; return ()
  | .writei ip src off n => do let _ ← Fs.writei ip src off n; return ()
  | .setFields ip major minor nlink => setInode ip fun inode => { inode with
      copy := { inode.copy with major := major, minor := minor, nlink := nlink } }
  | .iupdate ip => Fs.iupdate ip
  | .itrunc ip => Fs.itrunc ip
  | .iput ip => Fs.iput ip

/-- What the callers of the functions see to: the inode is referenced, and locked
where its contents are used, and there are enough free blocks for a write. -/
def Legal (state : State) : Call → Prop
  | .ialloc type => type ≠ 0
  | .iget inum => 0 < inum ∧ inum < state.sb.ninodes
  | .idup ip | .ilock ip | .iput ip => 0 < (state.icache ip).ref
  | .readi ip _ _ | .setFields ip _ _ _ | .iupdate ip | .itrunc ip => state.Holds ip
  | .writei ip _ off n => state.Holds ip ∧
      ((state.icache ip).copy.type ≠ T_DEV →
        ¬WriteRefused (state.icache ip).copy.size.toNat off.toNat n.toNat →
        state.blocksNeeded (state.icache ip).inum off.toNat n.toNat ≤ state.freeBlocks)

/-- The panics that are left: there are no more inodes on disk or no more entries
in the cache, or a free inode is locked. -/
def MayFail (panic : Panic) : Prop :=
  panic = .iallocNoInodes ∨ panic = .igetNoInodes ∨ panic = .ilockNoType

end Call

def step (state : State) (call : Call) : Option State :=
  match call.execute state with
  | .ok (_, next) => some next
  | .error _ => none

theorem readi_device_returns (device : (state.icache ip).copy.type = T_DEV) (off n : UInt32) :
    Returns (readi ip off n) state fun _ next => next = state := by
  simp only [Returns, readi, meets_bind, meets_get, device, if_true]
  split <;> exact rfl

theorem writei_device_returns (device : (state.icache ip).copy.type = T_DEV) (src : Nat → UInt8)
    (off n : UInt32) :
    Returns (writei ip src off n) state fun _ next => next = state := by
  simp only [Returns, writei, meets_bind, meets_get, device, if_true]
  split <;> exact rfl

/-- Reading changes nothing, whatever kind of inode is read. -/
theorem Consistent.readi_unchanged (consistent : Consistent state.toStore) (holds : state.Holds ip)
    (off n : UInt32) :
    Returns (readi ip off n) state fun _ next => next = state := by
  by_cases device : (state.icache ip).copy.type = T_DEV
  · exact readi_device_returns device off n
  · exact Meets.imp (readi_returns consistent holds device off n) fun _ _ read => read.2

theorem Records.of_events {next : State} (events : next.events = state.events) :
    Records state next :=
  ⟨[], events, fun _ member => absurd member List.not_mem_nil⟩

/-- Every legal call keeps the file system consistent, and uses fresh blocks. -/
theorem Call.execute_meets {call : Call} (consistent : Consistent state.toStore)
    (legal : call.Legal state) :
    Meets call.execute state MayFail fun _ next =>
      Consistent next.toStore ∧ Records state next := by
  cases call with
  | ialloc type =>
    rw [execute, meets_bind]
    refine Meets.mono (consistent.ialloc type) ?_ fun _ _ made => ⟨made.1, made.2.1⟩
    rintro panic (rfl | rfl)
    · exact Or.inl rfl
    · exact Or.inr (Or.inl rfl)
  | iget inum =>
    rw [execute, meets_bind]
    exact Meets.mono (consistent.iget legal.1 legal.2) (fun _ failed => Or.inr (Or.inl failed))
      fun _ _ got => ⟨got.1, .of_events got.2.2.1⟩
  | idup ip =>
    rw [execute, meets_bind]
    refine Meets.imp (idup_returns state ip).meets ?_
    rintro _ next ⟨_, rfl⟩
    exact ⟨(consistent.setRef legal _).2, .refl state⟩
  | ilock ip =>
    exact Meets.mono (consistent.ilock legal) (fun _ failed => Or.inr (Or.inr failed))
      fun _ _ locked => ⟨locked.1, .of_events locked.2.2.1⟩
  | readi ip off n =>
    rw [execute, meets_bind]
    refine Meets.imp (consistent.readi_unchanged legal off n).meets ?_
    rintro _ next unchanged
    rw [unchanged]
    exact ⟨consistent, .refl state⟩
  | writei ip src off n =>
    rw [execute, meets_bind]
    by_cases device : (state.icache ip).copy.type = T_DEV
    · refine Meets.imp (writei_device_returns device src off n).meets ?_
      rintro _ next unchanged
      rw [unchanged]
      exact ⟨consistent, .refl state⟩
    · refine Meets.imp (writei_meets consistent legal.1 device src off n fun accepted =>
        Or.inr (legal.2 device accepted)) ?_
      intro result next wrote
      dsimp only at wrote
      split at wrote
      · rw [wrote.2]
        exact ⟨consistent, .refl state⟩
      · exact ⟨wrote.2.1, wrote.2.2.1⟩
  | setFields ip major minor nlink =>
    exact ⟨(consistent.setFields legal major minor nlink).2, .refl state⟩
  | iupdate ip =>
    exact Meets.imp (consistent.iupdate legal).meets fun _ _ updated =>
      ⟨updated.1, updated.2.2.1⟩
  | itrunc ip =>
    exact Meets.imp (itrunc_returns consistent legal).meets fun _ _ truncated =>
      ⟨truncated.1, truncated.2.2.1⟩
  | iput ip =>
    exact Meets.imp (consistent.iput legal).meets fun _ _ put => ⟨put.1, put.2.1⟩

theorem step_consistent {next : State} {call : Call} (consistent : Consistent state.toStore)
    (legal : call.Legal state) (stepped : step state call = some next) :
    Consistent next.toStore ∧ Records state next := by
  unfold step at stepped
  split at stepped
  · rename_i ran
    cases stepped
    exact (Call.execute_meets consistent legal).of_ok ran
  · cases stepped

theorem reachable_consistent {start : State} (consistent : Consistent start.toStore)
    (reachable : Reachable step (fun state call => call.Legal state) start state) :
    Consistent state.toStore ∧ Records start state := by
  refine Reachable.invariant (fun state => Consistent state.toStore ∧ Records start state) ?_
    ⟨consistent, .refl start⟩ reachable
  rintro state call next ⟨before, recorded⟩ legal stepped
  have after := step_consistent before legal stepped
  exact ⟨after.1, recorded.trans after.2⟩

/-- However the inode layer is used, the file system stays consistent: every
block that `balloc` returned was free, no call frees a free block or runs out of
blocks, and reading changes nothing. -/
theorem runs_keep_blocks_consistent (start state : State) (consistent : Consistent start.toStore)
    (reachable : Reachable step (fun state call => call.Legal state) start state) :
    Consistent state.toStore ∧ Records start state ∧
    (∀ (call : Call) (panic : Panic), call.Legal state → call.execute state = .error panic →
      panic ≠ .freeingFreeBlock ∧ panic ≠ .outOfBlocks ∧ panic ≠ .bmapOutOfRange) ∧
    (∀ ip off n, state.Holds ip → ∃ answer, readi ip off n state = .ok (answer, state)) := by
  rcases reachable_consistent consistent reachable with ⟨after, recorded⟩
  refine ⟨after, recorded, ?_, ?_⟩
  · intro call panic legal failed
    rcases (Call.execute_meets after legal).of_error failed with rfl | rfl | rfl
    · decide
    · decide
    · decide
  · intro ip off n holds
    rcases (after.readi_unchanged holds off n).exists_ok with ⟨answer, next, ran, unchanged⟩
    rw [unchanged] at ran
    exact ⟨answer, ran⟩

/-- Three bytes written to the file of the small file system. -/
theorem runs_keep_blocks_consistent_sample :
    ∃ state, step ⟨sampleStore T_FILE, []⟩ (.writei 0 (fun _ => 1) 0 3) = some state ∧
      Consistent state.toStore ∧ Records ⟨sampleStore T_FILE, []⟩ state := by
  have legal : (Call.writei 0 (fun _ => 1) 0 3).Legal ⟨sampleStore T_FILE, []⟩ :=
    ⟨⟨by decide, by decide⟩, fun _ _ => by decide⟩
  rcases Returns.exists_ok (writei_meets sampleStore_consistent legal.1 (by decide) (fun _ => 1) 0 3
    fun accepted => Or.inr (legal.2 (by decide) accepted)) with ⟨_, state, ran, _⟩
  have stepped : step ⟨sampleStore T_FILE, []⟩ (.writei 0 (fun _ => 1) 0 3) = some state := by
    have executed : Call.execute (.writei 0 (fun _ => 1) 0 3) ⟨sampleStore T_FILE, []⟩ =
        .ok ((), state) := by
      simp only [Call.execute, bind, StateT.bind, ran, Except.bind]
      rfl
    rw [step, executed]
  have kept := runs_keep_blocks_consistent ⟨sampleStore T_FILE, []⟩ state sampleStore_consistent
    (.step _ .refl legal stepped)
  exact ⟨state, stepped, kept.1, kept.2.1⟩

end Xv6.Fs
