import Xv6.Sys.Runs

/-! # The lifetime of a file

An inode that a file or a process refers to is not handed out again, and keeps its
contents, whatever becomes of its names. It goes with the last reference if it has
no name left.
-/

namespace Xv6.Sys

open Program Transition
open Dir (Proc)
open Fs (readBytes T_DIR T_DEV)

/-- What a call delivers from and leaves in the file that a descriptor stands for.
Devices are left to their drivers. -/
def Call.Sees (p : Nat) (state : State) (outcome : Outcome) (next : State) : Call → Prop
  | .read fd n => ∀ f, (state.tables.proc p).bind (Proc.file · fd) = some f →
      let file := state.tables.file f
      file.readable = true → file.kind = .inode → (state.store.inode file.ip).type ≠ T_DEV →
        outcome = readBytes (state.store.contents file.ip) file.off.toNat n.toNat
  | .write fd buffer => ∀ f, (state.tables.proc p).bind (Proc.file · fd) = some f →
      let file := state.tables.file f
      file.writable = true → file.kind = .inode → (state.store.inode file.ip).type ≠ T_DEV →
        ∃ count, Written (state.store.contents file.ip) buffer file.off.toNat count
          (next.store.contents file.ip) ∧ (0 ≤ outcome.1 → count = buffer.length)
  | _ => True

/-- What a call does to the inodes that files and processes refer to when it begins. -/
structure Lives (p : Nat) (call : Call) (state : State) (outcome : Outcome) (next : State) :
    Prop where
  /-- Nothing is handed out that is in use. -/
  fresh : ∃ marks, next.trace = marks ++ state.trace ∧ ∀ mark ∈ marks, mark.Fresh
  /-- An inode that is still referred to is the same, and so are its contents unless
  it is a directory or the call is a write to it. -/
  kept : ∀ inum, 0 < state.tables.refs inum → 0 < next.tables.refs inum →
    (next.store.inode inum).type = (state.store.inode inum).type ∧
      ((state.store.inode inum).type ≠ T_DIR → ¬call.Changes p state.tables inum →
        next.store.contents inum = state.store.contents inum)
  seen : call.Sees p state outcome next
  /-- An inode that has lost its last reference, and has no name, is gone with its blocks. -/
  dropped : ∀ inum, 0 < state.tables.refs inum → next.tables.refs inum = 0 →
    (state.store.inode inum).nlink = 0 → (next.store.inode inum).type = 0 ∧
      ∀ place : Fs.Place, place.inum = inum → state.store.number place ≠ 0 →
        next.store.marked (state.store.number place) = false
  orphan : ∀ inum, Orphan next inum → Orphan state inum

section

variable {state next : State} {inum p : Nat} {proc : Proc} {after : View} {outcome : Outcome}

theorem State.Ready.shows (ready : state.Ready) (used : 0 < state.tables.refs inum) :
    Shows (state.store.inode inum) (state.node inum) :=
  have range := ready.range used
  State.shows range.1 range.2

section

variable (served : Served True state.store.sb.ninodes state next after)
include served

theorem Served.shows (ready : state.Ready) (used : 0 < state.tables.refs inum) :
    Shows (next.store.inode inum) (after.node inum) :=
  have range := ready.range used
  (served.content trivial).shows inum range.1 range.2

theorem Served.contents (ready : next.Ready) (used : 0 < next.tables.refs inum) :
    (after.node inum).data = next.store.contents inum := by
  have range := ready.range used
  exact (served.content trivial).data inum ⟨range.1, range.2, ready.typed inum used⟩

theorem Served.sees (ready : state.Ready) (nextReady : next.Ready) (call : Call)
    (transfers : call.Transfers True p state.view after outcome) :
    call.Sees p state outcome next := by
  have typeOf : ∀ f, (state.tables.file f).kind = .inode →
      (state.node (state.tables.file f).ip).type =
        (state.store.inode (state.tables.file f).ip).type := fun f kind =>
    (ready.shows (Tables.refs_pos_of_file (Dir.Tables.file_mem (Tables.lt_of_kind kind)) kind)).type
  cases call with
  | read fd n =>
    intro f found file readable kind notDevice
    rw [← typeOf f kind] at notDevice
    exact transfers f found trivial readable kind notDevice
  | write fd buffer =>
    intro f found file writable kind notDevice
    rcases transfers f found writable kind with ⟨through, used⟩
    rw [← typeOf f kind] at notDevice
    rcases through trivial notDevice with ⟨count, written, finished⟩
    rw [served.tables] at used
    rw [served.contents nextReady used] at written
    exact ⟨count, written, finished⟩
  | _ => trivial

end

theorem execute_lives (ready : state.Ready) (live : state.tables.proc p = some proc)
    (call : Call) :
    Meets (execute p call) state (fun _ => True) (Lives p call state) := by
  refine (execute_meets True ready.toReferenced (fun _ => ready) live call).mono
    (fun _ _ => trivial) ?_
  rintro outcome next ⟨after, served, ends, transfers, _⟩
  have nextReady := served.ready ends.holding ends.trans trivial ready.root
  have tables := served.tables
  refine ⟨?_, ?_, served.sees ready nextReady call transfers, ?_, ?_⟩
  · rcases served.recorded with ⟨marks, same, _, fresh⟩
    exact ⟨marks, same, fresh trivial⟩
  · intro inum used stillUsed
    have kept := ends.kept trivial inum used (tables ▸ stillUsed)
    rw [(served.shows ready used).type, State.view_node, (ready.shows used).type,
      served.contents nextReady stillUsed] at kept
    exact kept
  · intro inum used gone unlinked
    rcases ends.dropped trivial inum used (tables ▸ gone) with ⟨wrote, free⟩
    have untyped : (next.store.inode inum).type = 0 := by
      rw [← (served.shows ready used).type]
      apply free
      rw [State.view_node, (ready.shows used).nlink]
      exact unlinked
    refine ⟨untyped, fun place own present => ?_⟩
    refine ready.flushed.toConsistent.unmarked_of_free nextReady.flushed.toConsistent
      (served.sb trivial) (served.noneAdded trivial wrote) (fun allocated => ?_) present
    exact allocated.2.2 (own ▸ untyped)
  · rintro inum ⟨allocated, unlinked, unused⟩
    have range : 0 < inum ∧ inum < state.store.sb.ninodes :=
      ⟨allocated.1, (served.content trivial).count ▸ allocated.2.1⟩
    have shows := (served.content trivial).shows inum range.1 range.2
    rcases ends.holding.live trivial inum (by rw [shows.type]; exact allocated.2.2)
      (by rw [shows.nlink]; exact unlinked) with valid | orphan
    · rcases served.slots.exists_holds valid with ⟨slot, _, holds, own⟩
      have refs := nextReady.refs_of_used (mem_used.mpr holds.1)
      rw [own, unused] at refs
      exact absurd refs (Nat.lt_irrefl 0)
    · exact served.orphan inum orphan

end

/-- In every run from a consistent file system: whatever a process calls for, the inodes
that files and processes refer to live on, and those without names go with their last
reference. Hence there never is another allocated inode without names and references
than at the start. -/
theorem files_live_until_last_close (start state : State) (ready : start.Ready)
    (reachable : Reachable step Unrestricted start state) :
    (∀ inum, Orphan state inum → Orphan start inum) ∧
    ∀ p proc call, state.tables.proc p = some proc →
      Meets (execute p call) state (fun _ => True) (Lives p call state) := by
  refine ⟨?_, fun p proc call live => execute_lives (reachable_ready ready reachable) live call⟩
  induction reachable with
  | refl => exact fun _ orphan => orphan
  | step action earlier _ stepped induction =>
    rcases step_cases stepped with ⟨proc, outcome, live, ran⟩
    have lives := (execute_lives (reachable_ready ready earlier) live action.2).of_ok ran
    exact fun inum orphan => induction inum (lives.orphan inum orphan)

/-- The file has lost its name, and its first process has closed it. It lives on until the
other process, which can still read it, closes it too. -/
theorem files_live_until_last_close_sample : ∃ state,
    Reachable step Unrestricted sampleState state ∧ (state.store.inode 2).nlink = 0 ∧
      state.store.contents 2 = [7] ∧ ∀ call ∈ [Call.read 0 1, .close 0],
        Meets (execute 1 call) state (fun _ => True) (Lives 1 call state) := by
  rcases exists_reachable step Unrestricted sampleState
      (writeFile ++ [(0, .fork 1), (0, .unlink (some [102])), (0, .close 0)])
      (fun state => (state.store.inode 2).nlink = 0 ∧ state.store.contents 2 = [7] ∧
        (state.tables.proc 1).isSome) (by decide +kernel) with
    ⟨state, reachable, unlinked, contents, isSome⟩
  rcases Option.isSome_iff_exists.mp isSome with ⟨proc, live⟩
  exact ⟨state, reachable, unlinked, contents, fun call _ =>
    (files_live_until_last_close _ state sampleState_ready reachable).2 1 proc call live⟩

end Xv6.Sys
