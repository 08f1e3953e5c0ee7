import Xv6.Dir.FileTable

/-! # Steps of the system

A call changes the names in at most one way, and then moves references. As long as
no link count wraps around, it leaves the file system proper.
-/

namespace Xv6.Dir

open Program State
open Fs (Device T_DIR)

def SysCall.Naming : SysCall → Prop
  | .link _ _ | .unlink _ | .mkdir _ | .mknod _ _ _ => True
  | .open _ omode => omode &&& O_CREATE ≠ 0
  | .chdir _ | .dup _ | .write _ _ | .close _ | .fork _ | .exit => False

/-- What a call comes to: one change of names, if any, and then moves. A call that
can change names frees nothing afterwards. -/
def Outcome (call : SysCall) (state next : State) : Prop :=
  ∃ mid, Effect state mid ∧ (¬call.Naming → mid = state) ∧ (call.Naming → SameTree mid next) ∧
    Moves (mid, []) (next, [])

section

variable {devsw : Nat → Device} {state next : State} {p : Nat} {call : SysCall}

theorem Outcome.of_moves (quiet : ¬call.Naming) (moves : Moves (state, []) (next, [])) :
    Outcome call state next :=
  ⟨state, .none, fun _ => rfl, fun naming => absurd naming quiet, moves⟩

theorem Outcome.of_effect (naming : call.Naming) (effect : Effect state next) :
    Outcome call state next :=
  ⟨next, effect, fun not => absurd naming not, fun _ => .refl next, .refl⟩

theorem program_meets (proper : Proper state []) {proc : Proc}
    (found : state.tables.proc p = some proc) (call : SysCall) :
    Meets (Machine.execute devsw (call.program p)) state (fun _ => True) fun _ next =>
      Outcome call state next := by
  have calls := proper.calls found
  cases call with
  | link old new =>
    exact (sysLink_meets proper.tree proper.settled calls old new).imp fun _ _ =>
      .of_effect trivial
  | unlink path =>
    exact (sysUnlink_meets proper.tree proper.settled calls path).imp fun _ _ =>
      .of_effect trivial
  | «open» path omode =>
    refine (sysOpen_meets proper found path omode).imp ?_
    rintro _ next ⟨mid, effect, quiet, same, moves⟩
    exact ⟨mid, effect, fun not => quiet (not_not.mp not), fun _ => same, moves⟩
  | mkdir path =>
    exact (create_iput_meets proper found path (by decide) 0 0).imp fun _ _ => .of_effect trivial
  | mknod path major minor =>
    exact (create_iput_meets proper found path (by decide) major minor).imp fun _ _ =>
      .of_effect trivial
  | chdir path => exact (sysChdir_meets proper found path).imp fun _ _ => .of_moves id
  | dup fd => exact (sysDup_meets proper p fd).imp fun _ _ => .of_moves id
  | write fd buffer => exact (sysWrite_meets proper p fd buffer).imp fun _ _ => .of_moves id
  | close fd => exact (sysClose_meets proper p fd).imp fun _ _ => .of_moves id
  | fork child => exact (fork_meets proper p child).imp fun _ _ => .of_moves id
  | exit => exact (exit_meets proper p).imp fun _ _ => .of_moves id

theorem step_outcome (proper : Proper state []) (stepped : step devsw state (p, call) = some next) :
    Outcome call state next := by
  rw [step] at stepped
  split at stepped
  · cases stepped
  · rename_i proc found
    split at stepped
    · rename_i result after executed
      cases stepped
      exact (program_meets proper found call).of_ok executed
    · cases stepped

end

/-! ## Effects keep the tree -/

section

variable {state next : State} {ip dp k : Nat} {name : List UInt8}

theorem FreeSlot.later (slot : FreeSlot state dp k name) (tree : Tree state) : 2 ≤ k := by
  have empty := slot.empty
  match k with
  | 0 =>
    rw [(tree.self dp slot.isDir).1] at empty
    exact absurd empty (tree.ne_zero slot.isDir.typed)
  | 1 => exact absurd empty (tree.up dp slot.isDir).1
  | k + 2 => exact Nat.le_add_left 2 k

theorem FreeSlot.nameSlot (slot : FreeSlot state dp k name) (tree : Tree state)
    (inside : ip < state.nodes.length) : NameSlot state dp k ⟨ip, strncpy name DIRSIZ⟩ :=
  ⟨slot.isDir, slot.later tree, slot.bound, slot.limit, inside.trans_le tree.size,
    strncpy_length _ _⟩

theorem Tree.entering_linked (tree : Tree state) (typed : (state.node ip).type ≠ 0)
    (notDir : ¬state.IsDir ip) (slot : FreeSlot state dp k name) :
    Entering state (state.linked ip dp k name) dp k name ip where
  rewritten := (paired_linked typed notDir slot).rewritten rfl rfl rfl rfl
  slot := slot.nameSlot tree (lt_length_of_typed typed)
  empty := slot.empty
  fresh := slot.fresh
  typed := typed
  different := slot.isDir.ne notDir
  notRoot := tree.root.ne notDir
  newDir isDir := absurd isDir notDir

theorem relinked_linked (typed : (state.node ip).type ≠ 0) (notDir : ¬state.IsDir ip)
    (slot : FreeSlot state dp k name) (room : (state.node ip).nlink ≠ 32767) :
    Relinked state (state.linked ip dp k name) ip dp 1 :=
  (paired_linked typed notDir slot).relinked (slot.isDir.ne notDir) (toInt_add_one room)
    (by simp [notDir])

theorem Tree.linked (tree : Tree state) (typed : (state.node ip).type ≠ 0)
    (notDir : ¬state.IsDir ip) (slot : FreeSlot state dp k name)
    (room : (state.node ip).nlink ≠ 32767) : Tree (state.linked ip dp k name) :=
  tree.enter (tree.entering_linked typed notDir slot) (relinked_linked typed notDir slot room)

theorem Tree.nlink_pos_of_entry (tree : Tree state) (isDir : state.IsDir dp) (later : 2 ≤ k)
    (entry : state.entry dp k = ip) (nonzero : ip ≠ 0) :
    0 < (state.node ip).nlink.toInt ∧ (state.IsDir ip → 0 < (state.node dp).nlink.toInt) := by
  have named := (tree.names_pos nonzero).mpr ⟨dp, k, isDir, later, entry⟩
  have typed : (state.node ip).type ≠ 0 :=
    entry ▸ tree.target dp k isDir later (by rw [entry]; exact nonzero)
  refine ⟨?_, fun ipDir => ?_⟩
  · have covered := tree.counts ip typed
    rw [links] at covered
    omega
  · have child : state.IsChild dp ip :=
      ⟨ipDir, entry ▸ (tree.named dp k isDir later (entry ▸ ipDir)).1, named⟩
    have counted : 0 < state.children dp := by
      refine Finset.sum_pos_iff.mpr ⟨ip, Finset.mem_range.mpr (lt_length_of_typed typed), ?_⟩
      rw [if_pos child]
      exact Nat.one_pos
    have covered := tree.counts dp isDir.typed
    rw [links] at covered
    omega

theorem Tree.usedSlot (tree : Tree state) (isDir : state.IsDir dp) (later : 2 ≤ k)
    (used : state.entry dp k ≠ 0) : NameSlot state dp k ⟨0, List.replicate DIRSIZ 0⟩ := by
  have shaped := tree.shaped dp isDir
  have inside : k < slots (state.node dp).data := lt_slots_of_entryAt shaped.aligned used
  refine ⟨isDir, later, Nat.le_of_lt inside, ?_, by decide, rfl⟩
  have bounded := shaped.bounded
  have length := shaped.length
  simp only [DIRENTSIZE] at *
  omega

section

variable (tree : Tree state) (isDir : state.IsDir dp) (later : 2 ≤ k)
  (entry : state.entry dp k = ip) (typed : (state.node ip).type ≠ 0)
include tree isDir later entry typed

theorem Tree.removing_unlinked :
    Removing state (state.unlinked ip dp k) dp k ip ⟨0, List.replicate DIRSIZ 0⟩ where
  zero := rfl
  rewritten := (tree.paired_unlinked isDir later entry typed).rewritten rfl rfl rfl rfl
  slot := tree.usedSlot isDir later (entry ▸ tree.ne_zero typed)
  used := entry
  nonzero := tree.ne_zero typed

theorem Tree.relinked_unlinked :
    Relinked state (state.unlinked ip dp k) ip dp (-1) := by
  have positive := tree.nlink_pos_of_entry isDir later entry (tree.ne_zero typed)
  refine (tree.paired_unlinked isDir later entry typed).relinked
    (entry ▸ tree.entry_ne_self isDir later) (toInt_sub_one positive.1) ?_
  by_cases ipDir : state.IsDir ip
  · rw [if_pos ipDir, if_pos (show (state.node ip).type = T_DIR from ipDir)]
    exact toInt_sub_one (positive.2 ipDir)
  · rw [if_neg ipDir, if_neg (show (state.node ip).type ≠ T_DIR from ipDir), Int.add_zero]

theorem Tree.unlinked : Tree (state.unlinked ip dp k) :=
  tree.remove (tree.removing_unlinked isDir later entry typed)
    (tree.relinked_unlinked isDir later entry typed)

/-- The inodes that an `unlink` may free are allocated until then. -/
theorem Tree.typed_unlinked :
    ((state.unlinked ip dp k).node dp).type ≠ 0 ∧
      (((state.unlinked ip dp k).reap dp).node ip).type ≠ 0 := by
  have different : ip ≠ dp := entry ▸ tree.entry_ne_self isDir later
  have rewritten := (tree.removing_unlinked isDir later entry typed).rewritten
  refine ⟨?_, ?_⟩
  · rw [rewritten.type]
    exact isDir.typed
  · rw [State.reap, State.node_edit_of_ne different, rewritten.type]
    exact typed

end

/-- The state of `create` in which the new inode has neither a name nor a link. -/
def State.bare (state : State) (ip : Nat) (type major minor : Int16) (dp : Nat) : State :=
  state.setNode ip { state.newNode ip type major minor dp with nlink := 0 }

section

variable {type major minor : Int16}

theorem allocating_bare (inRange : state.InRange ip) (free : (state.node ip).type = 0)
    (isDir : state.IsDir dp) : Allocating state ip
      { state.newNode ip type major minor dp with nlink := 0 } dp :=
  ⟨inRange, free, isDir, fun newDir => if_pos newDir⟩

theorem State.bare_own (inRange : state.InRange ip) :
    (state.bare ip type major minor dp).node ip =
      { state.newNode ip type major minor dp with nlink := 0 } :=
  node_edit_self inRange.2 fun _ => _

theorem State.bare_other {other : Nat} (notIp : other ≠ ip) :
    (state.bare ip type major minor dp).node other = state.node other :=
  node_edit_of_ne notIp fun _ => _

theorem paired_bare (inRange : state.InRange ip) (free : (state.node ip).type = 0)
    (slot : FreeSlot state dp k name) :
    Paired (state.bare ip type major minor dp) (state.created ip type major minor dp k name) ip dp
      (state.newNode ip type major minor dp) { state.node dp with
        data := putEntry (state.node dp).data k ⟨ip, strncpy name DIRSIZ⟩
        nlink := if type = T_DIR then (state.node dp).nlink + 1 else (state.node dp).nlink } := by
  have created := @paired_created type major minor state ip dp k name inRange free slot
  refine ⟨?_, created.own, created.parent, fun inum notIp notDp => ?_⟩
  · rw [created.length, bare, length_setNode]
  · rw [created.others inum notIp notDp, bare_other notIp]

theorem Tree.entering_created (tree : Tree state) (inRange : state.InRange ip)
    (free : (state.node ip).type = 0) (typed : type ≠ 0) (slot : FreeSlot state dp k name) :
    Entering (state.bare ip type major minor dp) (state.created ip type major minor dp k name)
      dp k name ip := by
  have notDir : ¬state.IsDir ip := fun isDir => isDir.typed free
  have different := slot.isDir.ne notDir
  have dpInside := lt_length_of_typed slot.isDir.typed
  have bareOwn := @State.bare_own state ip dp type major minor inRange
  have bareDp := @State.bare_other state ip dp type major minor dp (Ne.symm different)
  have allocating := @allocating_bare state ip dp type major minor inRange free slot.isDir
  constructor
  case rewritten =>
    refine (paired_bare inRange free slot).rewritten ?_ ?_ ?_ ?_
    · rw [bareOwn]
    · rw [bareOwn]
    · rw [bareDp]
    · rw [bareDp]
  case slot =>
    refine ⟨?_, slot.later tree, ?_, slot.limit, inRange.2.trans_le tree.size, strncpy_length _ _⟩
    · rw [State.IsDir, bareDp]
      exact slot.isDir
    · rw [bareDp]
      exact slot.bound
  case empty =>
    rw [entry, bareDp]
    exact slot.empty
  case fresh =>
    rw [bareDp]
    exact slot.fresh
  case typed =>
    rw [bareOwn]
    exact typed
  case different => exact different
  case notRoot => exact tree.root.ne notDir
  case newDir =>
    intro isDir
    rw [State.IsDir, bareOwn] at isDir
    refine ⟨(allocating.names ip).trans (allocating.unnamed tree), ?_⟩
    rw [parent, entry, bareOwn, allocating.data isDir, entryAt,
      direntAt_newDirectory (inRange.2.trans_le tree.size) (dpInside.trans_le tree.size)]
    rfl

theorem relinked_created (inRange : state.InRange ip) (free : (state.node ip).type = 0)
    (slot : FreeSlot state dp k name) (room : type = T_DIR → (state.node dp).nlink ≠ 32767) :
    Relinked (state.bare ip type major minor dp) (state.created ip type major minor dp k name)
      ip dp 1 := by
  have different := slot.isDir.ne fun isDir : state.IsDir ip => isDir.typed free
  have own := @State.bare_own state ip dp type major minor inRange
  have isNewDir : (state.bare ip type major minor dp).IsDir ip ↔ type = T_DIR := by
    rw [State.IsDir, own]
    rfl
  refine (paired_bare inRange free slot).relinked different ?_ ?_
  · rw [own]
    rfl
  · rw [bare_other different.symm]
    by_cases newDir : type = T_DIR
    · rw [if_pos newDir, if_pos (isNewDir.mpr newDir)]
      exact toInt_add_one (room newDir)
    · rw [if_neg newDir, if_neg (isNewDir.not.mpr newDir), Int.add_zero]

theorem Tree.created (tree : Tree state) (inRange : state.InRange ip)
    (free : (state.node ip).type = 0) (typed : type ≠ 0) (slot : FreeSlot state dp k name)
    (room : type = T_DIR → (state.node dp).nlink ≠ 32767) :
    Tree (state.created ip type major minor dp k name) :=
  (tree.allocate (allocating_bare inRange free slot.isDir) rfl).enter
    (tree.entering_created inRange free typed slot) (relinked_created inRange free slot room)

end

/-! ## Effects keep the references -/

theorem State.node_reap (state : State) (inum other : Nat) :
    (state.reap inum).node other = state.node other ∨
      (state.node other).ref = 0 ∧ (state.node other).nlink = 0 ∧
        (state.reap inum).node other = { state.node other with type := 0, data := [] } := by
  rcases state.node_edit inum _ other with same | ⟨rfl, same⟩
  · exact Or.inl same
  · rw [reap, same]
    split
    · rename_i unused
      exact Or.inr ⟨unused.1, unused.2, rfl⟩
    · exact Or.inl rfl

theorem State.node_reap_reap (state : State) (ip dp inum : Nat) :
    ((state.reap dp).reap ip).node inum = state.node inum ∨
      (state.node inum).ref = 0 ∧ (state.node inum).nlink = 0 ∧
        ((state.reap dp).reap ip).node inum = { state.node inum with type := 0, data := [] } := by
  rcases state.node_reap dp inum with first | ⟨unused, unlinked, first⟩
  · rw [← first]
    exact (state.reap dp).node_reap ip inum
  · refine Or.inr ⟨unused, unlinked, ?_⟩
    rcases (state.reap dp).node_reap ip inum with second | ⟨_, _, second⟩
    · rw [second, first]
    · rw [second, first]

theorem State.settled_reap {inum : Nat} (inside : inum < state.nodes.length)
    (valid : (state.node inum).valid = decide ((state.node inum).ref ≠ 0))
    (typed : (state.node inum).ref ≠ 0 → (state.node inum).type ≠ 0) :
    ((state.reap inum).node inum).Settled := by
  rw [reap, node_edit_self inside]
  split
  · rename_i unused
    exact ⟨valid, fun used => absurd unused.1 used, fun typed => absurd rfl typed⟩
  · rename_i kept
    exact ⟨valid, typed, fun _ unlinked unused => kept ⟨unused, unlinked⟩⟩

/-- No effect changes a reference count, or the type of an inode that stays
allocated. -/
theorem Effect.cached (effect : Effect state next) (tree : Tree state) (inum : Nat) :
    (next.node inum).ref = (state.node inum).ref ∧
      ((next.node inum).type = (state.node inum).type ∨ (next.node inum).type = 0 ∨
        (state.node inum).type = 0) := by
  cases effect with
  | none => exact ⟨rfl, Or.inl rfl⟩
  | @link ip dp k name typed notDir slot =>
    exact (paired_linked typed notDir slot).cases
      (motive := fun inum node => node.ref = (state.node inum).ref ∧
        (node.type = (state.node inum).type ∨ node.type = 0 ∨ (state.node inum).type = 0))
      ⟨rfl, Or.inl rfl⟩ ⟨rfl, Or.inl rfl⟩ (fun _ _ _ => ⟨rfl, Or.inl rfl⟩) inum
  | @unlink ip dp k isDir later entry typed empty =>
    have unlinked := (tree.paired_unlinked isDir later entry typed).cases
      (motive := fun inum node => node.ref = (state.node inum).ref ∧
        node.type = (state.node inum).type) ⟨rfl, rfl⟩ ⟨rfl, rfl⟩ (fun _ _ _ => ⟨rfl, rfl⟩) inum
    rcases (state.unlinked ip dp k).node_reap_reap ip dp inum with same | ⟨_, _, same⟩
    · rw [same]
      exact ⟨unlinked.1, Or.inl unlinked.2⟩
    · rw [same]
      exact ⟨unlinked.1, Or.inr (Or.inl rfl)⟩
  | @create ip dp k type major minor name inRange free typed slot =>
    exact (paired_created inRange free slot).cases
      (motive := fun inum node => node.ref = (state.node inum).ref ∧
        (node.type = (state.node inum).type ∨ node.type = 0 ∨ (state.node inum).type = 0))
      ⟨rfl, Or.inr (Or.inr free)⟩ ⟨rfl, Or.inl rfl⟩ (fun _ _ _ => ⟨rfl, Or.inl rfl⟩) inum

theorem Effect.settled (effect : Effect state next) (tree : Tree state)
    (settled : state.Settled) : next.Settled := by
  cases effect with
  | none => exact settled
  | @link ip dp k name typed notDir slot =>
    refine (paired_linked typed notDir slot).cases (motive := fun _ node => node.Settled) ?_ ?_
      fun inum _ _ => settled inum
    · exact ⟨(settled ip).valid, (settled ip).typed, fun typed unlinked =>
        absurd unlinked (nlink_add_one_ne_zero (tree.nlink_nonneg typed))⟩
    · exact ⟨(settled dp).valid, (settled dp).typed, (settled dp).linked⟩
  | @unlink ip dp k isDir later entry typed empty =>
    have different : ip ≠ dp := entry ▸ tree.entry_ne_self isDir later
    have paired := tree.paired_unlinked isDir later entry typed
    intro inum
    by_cases isIp : inum = ip
    · have before : ((state.unlinked ip dp k).reap dp).node ip =
          { state.node ip with nlink := (state.node ip).nlink - 1 } := by
        rw [reap, node_edit_of_ne different, paired.own]
      rw [isIp]
      apply settled_reap
      · rw [reap, length_edit, paired.length]
        exact lt_length_of_typed typed
      · rw [before]
        exact (settled ip).valid
      · rw [before]
        exact (settled ip).typed
    · rw [reap, node_edit_of_ne isIp]
      by_cases isDp : inum = dp
      · rw [isDp]
        apply settled_reap
        · rw [paired.length]
          exact lt_length_of_typed isDir.typed
        · rw [paired.parent]
          exact (settled dp).valid
        · rw [paired.parent]
          exact (settled dp).typed
      · rw [reap, node_edit_of_ne isDp, paired.others inum isIp isDp]
        exact settled inum
  | @create ip dp k type major minor name inRange free typed slot =>
    refine (paired_created inRange free slot).cases (motive := fun _ node => node.Settled) ?_ ?_
      fun inum _ _ => settled inum
    · exact ⟨(settled ip).valid, fun _ => typed, fun _ unlinked =>
        absurd unlinked (show (1 : Int16) ≠ 0 by decide)⟩
    · refine ⟨(settled dp).valid, (settled dp).typed, fun typed unlinked => ?_⟩
      by_cases newDir : type = T_DIR
      · simp only [if_pos newDir] at unlinked
        exact absurd unlinked (nlink_add_one_ne_zero (tree.nlink_nonneg typed))
      · simp only [if_neg newDir] at unlinked
        exact (settled dp).linked typed unlinked

/-- No link count goes beyond the largest `short`. -/
def Unwrapped (state next : State) : Prop :=
  ∀ inum, (state.node inum).nlink = 32767 → (next.node inum).nlink ≠ -32768

theorem Unwrapped.room_linked (unwrapped : Unwrapped state (state.linked ip dp k name))
    (typed : (state.node ip).type ≠ 0) (notDir : ¬state.IsDir ip) (slot : FreeSlot state dp k name) :
    (state.node ip).nlink ≠ 32767 := by
  intro full
  refine unwrapped ip full ?_
  rw [(paired_linked typed notDir slot).own]
  simp only [full]
  decide

theorem Unwrapped.room_created {type major minor : Int16}
    (unwrapped : Unwrapped state (state.created ip type major minor dp k name))
    (inRange : state.InRange ip) (free : (state.node ip).type = 0)
    (slot : FreeSlot state dp k name) (newDir : type = T_DIR) :
    (state.node dp).nlink ≠ 32767 := by
  intro full
  refine unwrapped dp full ?_
  rw [(paired_created inRange free slot).parent]
  simp only [if_pos newDir, full]
  decide

theorem Effect.tree (effect : Effect state next) (tree : Tree state)
    (unwrapped : Unwrapped state next) : Tree next := by
  cases effect with
  | none => exact tree
  | link typed notDir slot =>
    exact tree.linked typed notDir slot (unwrapped.room_linked typed notDir slot)
  | unlink isDir later entry typed empty =>
    have allocated := tree.typed_unlinked isDir later entry typed
    exact ((tree.unlinked isDir later entry typed).reap allocated.1).reap allocated.2
  | create inRange free typed slot =>
    exact tree.created inRange free typed slot (unwrapped.room_created inRange free slot)

theorem Effect.proper (effect : Effect state next) (proper : Proper state [])
    (unwrapped : Unwrapped state next) : Proper next [] where
  tree := effect.tree proper.tree unwrapped
  settled := effect.settled proper.tree proper.settled
  refs := by
    intro inum
    rw [(effect.cached proper.tree inum).1, effect.tables, proper.refs]
  idle := by
    rw [effect.tables]
    exact proper.idle
  writable := by
    rw [effect.tables]
    intro file member isInode writable isDir
    -- The inode of an open file is cached, so it is allocated and keeps its type.
    have counted : 0 < state.tables.ftable.countP (File.refersTo · file.ip) :=
      List.countP_pos_iff.mpr ⟨file, member, by simp [File.refersTo, isInode]⟩
    have used : 0 < (state.node file.ip).ref := by
      rw [proper.refs, Tables.refs]
      omega
    rcases (effect.cached proper.tree file.ip).2 with same | freed | free
    · rw [State.IsDir, same] at isDir
      exact proper.writable file member isInode writable isDir
    · exact isDir.typed freed
    · exact proper.typed_of_used used free

/-! ## Steps -/

theorem State.free_node (state : State) (ip inum : Nat) :
    (state.free ip).node inum = state.node inum ∨
      inum = ip ∧ (state.free ip).node inum = { state.node inum with type := 0, data := [] } := by
  rcases state.node_edit ip (fun node => { node with type := 0, data := [] }) inum with
    same | ⟨rfl, same⟩
  · exact Or.inl same
  · exact Or.inr ⟨rfl, same⟩

theorem Move.nlink {before after : State × List Nat} (move : Move before after) (inum : Nat) :
    (after.1.node inum).nlink = (before.1.node inum).nlink := by
  rcases move.tree_cases with same | ⟨ip, _, _, same⟩
  · exact same.nlink inum
  · rw [same.nlink]
    rcases before.1.free_node ip inum with kept | ⟨_, freed⟩
    · rw [kept]
    · rw [freed]

theorem Moves.nlink {before after : State × List Nat} (moves : Moves before after) (inum : Nat) :
    (after.1.node inum).nlink = (before.1.node inum).nlink := by
  induction moves with
  | refl => rfl
  | tail _ last induction => exact (last.nlink inum).trans induction

theorem Unwrapped.before_moves {mid : State} (unwrapped : Unwrapped state next)
    (moves : Moves (mid, []) (next, [])) : Unwrapped state mid := by
  intro inum full
  rw [← moves.nlink inum]
  exact unwrapped inum full

theorem Outcome.proper {call : SysCall} (outcome : Outcome call state next)
    (proper : Proper state []) (unwrapped : Unwrapped state next) : Proper next [] := by
  rcases outcome with ⟨mid, effect, _, _, moves⟩
  exact (effect.proper proper (unwrapped.before_moves moves)).moves moves

end

end Xv6.Dir
