import Xv6.Dir.LinkCounts

/-! # Entries and the inodes they name

A name keeps its inode allocated by a link, but `..` of a removed directory does
not: when a process still is in the removed directory, its parent can be removed and
freed before it. This is the only way to an entry that names no allocated inode.
-/

namespace Xv6.Dir

open Transition Program
open Fs (Device ROOTINO)

/-- The parent of every allocated directory has links. -/
def Upward (state : State) : Prop :=
  ∀ dp, state.IsDir dp → state.IsLive (state.parent dp)

/-- No call takes the last link of a directory that then is the parent of an
allocated directory. -/
def SparesParents (state next : State) : Prop :=
  ∀ dp, state.IsLive dp → (next.node dp).nlink = 0 →
    ∀ child, next.IsDir child → next.parent child ≠ dp

section

variable {state next : State} {call : SysCall} {dp k inum : Nat}

theorem Effect.new_directory (effect : Effect state next) (tree : Tree state)
    (isDir : next.IsDir inum) :
    state.IsDir inum ∨ ∃ dp k, next.IsDir dp ∧ 2 ≤ k ∧ next.entry dp k = inum := by
  cases effect with
  | none => exact Or.inl isDir
  | @link ip dp k name typed notDir slot =>
    have entering := tree.entering_linked typed notDir slot
    exact Or.inl ((entering.rewritten.isDir inum).mp isDir)
  | @unlink ip dp k dpDir later entry typed empty =>
    have removing := tree.removing_unlinked dpDir later entry typed
    -- A freed inode is no directory.
    have notFree := isDir.typed
    rcases (state.unlinked ip dp k).node_reap_reap ip dp inum with same | ⟨_, _, same⟩
    · rw [State.IsDir, same] at isDir
      exact Or.inl ((removing.rewritten.isDir inum).mp isDir)
    · rw [same] at notFree
      exact absurd rfl notFree
  | @create ip dp k type major minor name inRange free typed slot =>
    have allocating := @allocating_bare state ip dp type major minor inRange free slot.isDir
    have entering := @Tree.entering_created state ip dp k name type major minor tree inRange free
      typed slot
    have bareTree := tree.allocate allocating rfl
    by_cases isNew : inum = ip
    · refine Or.inr ⟨dp, k, (entering.rewritten.isDir dp).mpr entering.slot.isDir,
        slot.later tree, ?_⟩
      rw [entering.rewritten.entry bareTree entering.slot, if_pos ⟨rfl, rfl⟩, isNew]
    · have bareDir := (entering.rewritten.isDir inum).mp isDir
      rw [State.IsDir, State.bare_other isNew] at bareDir
      exact Or.inl bareDir

theorem Move.isDir_of_after {before after : State × List Nat} (move : Move before after)
    (isDir : after.1.IsDir inum) : before.1.IsDir inum := by
  rcases move.tree_cases with same | ⟨ip, _, _, same⟩
  · exact (same.isDir inum).mp isDir
  · have freedDir := (same.isDir inum).mp isDir
    rcases before.1.free_node ip inum with kept | ⟨_, freed⟩
    · rw [State.IsDir, kept] at freedDir
      exact freedDir
    · have notFree := freedDir.typed
      rw [freed] at notFree
      exact absurd rfl notFree

theorem Moves.isDir_of_after {before after : State × List Nat} (moves : Moves before after)
    (isDir : after.1.IsDir inum) : before.1.IsDir inum := by
  induction moves with
  | refl => exact isDir
  | tail _ last induction => exact induction (last.isDir_of_after isDir)

/-- A call does not change the parent of a directory. -/
theorem Effect.parent (effect : Effect state next) (tree : Tree state) (isDir : state.IsDir dp)
    (still : next.IsDir dp) : next.parent dp = state.parent dp := by
  rcases effect.directory tree isDir with ⟨_, free⟩ | ⟨_, same | ⟨k, de, later, bound, changed⟩⟩
  · exact absurd free still.typed
  · rw [State.parent, State.entry, same]
    rfl
  · rw [State.parent, State.entry, changed, entryAt,
      direntAt_putEntry_of_ne (tree.shaped dp isDir).aligned bound (by omega)]
    rfl

theorem Moves.parent (moves : Moves (state, []) (next, [])) (isDir : next.IsDir dp) :
    state.IsDir dp ∧ next.parent dp = state.parent dp := by
  have before := moves.isDir_of_after isDir
  refine ⟨before, ?_⟩
  rcases moves.directory before with ⟨_, data⟩ | ⟨_, free⟩
  · rw [State.parent, State.entry, data]
    rfl
  · exact absurd free isDir.typed

/-- If names lead to all directories, none is removed while it is the parent of another. -/
theorem Outcome.sparesParents (outcome : Outcome call state next) (proper : Proper state [])
    (unwrapped : Unwrapped state next)
    (named : ∀ dp, state.IsDir dp → dp = ROOTINO ∨ 0 < state.names dp) :
    SparesParents state next := by
  rcases outcome with ⟨mid, effect, _, _, moves⟩
  have tree := proper.tree
  have midTree := effect.tree tree (unwrapped.before_moves moves)
  intro dp live unlinked child isDir isParent
  rw [Moves.nlink moves] at unlinked
  have positive : ¬0 < (mid.node dp).nlink.toInt := by
    rw [unlinked]
    decide
  have notRoot : dp ≠ ROOTINO := by
    rintro rfl
    exact positive (midTree.nlink_pos_of_reach (.root midTree.root))
  rcases Moves.parent moves isDir with ⟨midDir, sameParent⟩
  rw [sameParent] at isParent
  rcases effect.new_directory tree midDir with oldDir | ⟨parent, k, parentDir, later, entry⟩
  · rw [effect.parent tree oldDir midDir] at isParent
    have isNamed : ∀ inum, state.IsDir inum → inum ≠ ROOTINO →
        ∃ dp k, state.IsDir dp ∧ 2 ≤ k ∧ state.entry dp k = inum := by
      intro inum inumDir notRoot
      have positive := (named inum inumDir).resolve_left notRoot
      exact (tree.names_pos (tree.ne_zero inumDir.typed)).mp positive
    have childNotRoot : child ≠ ROOTINO := by
      rintro rfl
      exact notRoot (isParent.symm.trans tree.rootParent)
    rcases isNamed child oldDir childNotRoot with ⟨parent, j, parentDir, laterJ, childEntry⟩
    have isDp : parent = dp := by
      have up := (tree.named parent j parentDir laterJ (childEntry ▸ oldDir)).1
      rw [childEntry] at up
      exact up.symm.trans isParent
    subst isDp
    rcases isNamed parent live.1 notRoot with ⟨above, k, aboveDir, later, entry⟩
    -- The name stays, as the directory is not empty, and it takes a link.
    rcases effect.name_kept tree aboveDir later entry live.1 with empty | ⟨midAbove, dirent⟩
    · exact tree.ne_zero oldDir.typed (childEntry.symm.trans (empty j laterJ))
    · have midEntry : mid.entry above k = parent := by
        rw [State.entry, entryAt, dirent]
        exact entry
      exact positive (midTree.nlink_pos_of_entry midAbove later midEntry
        (tree.ne_zero live.1.typed)).1
  · have up := (midTree.named parent k parentDir later (entry ▸ midDir)).1
    rw [entry, isParent] at up
    rw [up] at positive
    exact positive ((midTree.nlink_pos_of_entry parentDir later entry
      (midTree.ne_zero midDir.typed)).2 midDir)

theorem Outcome.upward (outcome : Outcome call state next) (proper : Proper state [])
    (upward : Upward state) (unwrapped : Unwrapped state next)
    (spares : SparesParents state next) : Upward next := by
  have nextTree := (outcome.proper proper unwrapped).tree
  rcases outcome with ⟨mid, effect, _, _, moves⟩
  have tree := proper.tree
  have midTree := effect.tree tree (unwrapped.before_moves moves)
  intro dp isDir
  rcases Moves.parent moves isDir with ⟨midDir, sameParent⟩
  rw [sameParent]
  -- It is enough that the parent is a directory that has links before references move.
  suffices live : mid.IsDir (mid.parent dp) ∧ (mid.node (mid.parent dp)).nlink ≠ 0 by
    rcases Moves.directory moves live.1 with ⟨parentDir, _⟩ | ⟨unlinked, _⟩
    · refine ⟨parentDir, ?_⟩
      have nonneg := nextTree.nlink_nonneg parentDir.typed
      have linked : (next.node (mid.parent dp)).nlink ≠ 0 := by
        rw [Moves.nlink moves]
        exact live.2
      have nonzero : (next.node (mid.parent dp)).nlink.toInt ≠ 0 :=
        fun same => linked (Int16.toInt_inj.mp same)
      omega
    · exact absurd unlinked live.2
  rcases effect.new_directory tree midDir with oldDir | ⟨parent, k, parentDir, later, entry⟩
  · have oldParent := effect.parent tree oldDir midDir
    have live := upward dp oldDir
    rw [← oldParent] at live
    have linked : (mid.node (mid.parent dp)).nlink ≠ 0 := by
      intro unlinked
      rw [← Moves.nlink moves] at unlinked
      exact spares _ live unlinked dp isDir sameParent
    rcases effect.directory tree live.1 with ⟨unlinked, _⟩ | ⟨parentDir, _⟩
    · exact absurd unlinked linked
    · exact ⟨parentDir, linked⟩
  · have isParent : mid.parent dp = parent := by
      have named := (midTree.named parent k parentDir later (entry ▸ midDir)).1
      rw [entry] at named
      exact named
    rw [isParent]
    have counted := (midTree.nlink_pos_of_entry parentDir later entry
      (midTree.ne_zero midDir.typed)).2 midDir
    exact ⟨parentDir, nlink_ne_zero counted⟩

theorem Upward.entry_typed (upward : Upward state) (tree : Tree state) (isDir : state.IsDir dp)
    (used : state.entry dp k ≠ 0) : (state.node (state.entry dp k)).type ≠ 0 := by
  match k with
  | 0 =>
    rw [(tree.self dp isDir).1]
    exact isDir.typed
  | 1 => exact (upward dp isDir).1.typed
  | k + 2 => exact tree.target dp (k + 2) isDir (Nat.le_add_left 2 k) used

theorem Upward.namex_panics {devsw : Nat → Device} {failure : Failure} (upward : Upward state)
    (proper : Proper state []) {proc : Proc} (member : some proc ∈ state.tables.procs)
    (path : List UInt8) (nameiparent : Bool)
    (failed : Machine.execute devsw (namex proc.cwd path nameiparent) state = .error failure) :
    failure = .panic (.fs .igetNoInodes) := by
  have used := proper.referenced.mp (Or.inr ⟨proc, member, rfl⟩)
  have walked := @namex_meets devsw state (fun failure => failure = .panic (.fs .igetNoInodes))
    proper.settled proper.tree.zero proper.tree.shaped
    ⟨rfl, fun dp k isDir used => Or.inl (upward.entry_typed proper.tree isDir used)⟩ proc.cwd
    ((proper.settled proc.cwd).typed used) proper.tree.root.typed path nameiparent
  rw [Meets, failed] at walked
  exact walked

end

/-! ## Runs -/

/-- Every entry of a directory names an allocated inode, if the directory can be reached
from the root or is the current directory of a process. -/
def NoneDangling (state : State) : Prop :=
  ∀ dp, state.IsDir dp → state.Reach dp ∨ (∃ proc, some proc ∈ state.tables.procs ∧ proc.cwd = dp) →
    ∀ k, state.entry dp k ≠ 0 → (state.node (state.entry dp k)).type ≠ 0

/-- A step in which no link count wraps around and no directory loses its last link
while it is the parent of another. -/
def Orderly (devsw : Nat → Device) (state : State) (action : Nat × SysCall) : Prop :=
  ∀ next, step devsw state action = some next → Unwrapped state next ∧ SparesParents state next

section

variable {devsw : Nat → Device} {start state : State}

theorem reachable_upward (proper : Proper start []) (upward : Upward start)
    (reachable : Reachable (step devsw) (Orderly devsw) start state) :
    Proper state [] ∧ Upward state := by
  refine Reachable.invariant (fun state => Proper state [] ∧ Upward state) ?_ ⟨proper, upward⟩
    reachable
  rintro state ⟨p, call⟩ next ⟨before, beforeUpward⟩ orderly stepped
  have outcome := step_outcome before stepped
  rcases orderly next stepped with ⟨unwrapped, spares⟩
  exact ⟨outcome.proper before unwrapped, outcome.upward before beforeUpward unwrapped spares⟩

/-- Every step is orderly while no link count is at its limit and names lead to all
directories. -/
theorem Orderly.of_named {action : Nat × SysCall} (proper : Proper state [])
    (small : ∀ node ∈ state.nodes, node.nlink ≠ 32767)
    (named : ∀ dp, state.IsDir dp → dp = ROOTINO ∨ 0 < state.names dp) :
    Orderly devsw state action := by
  intro next stepped
  have unwrapped := Bounded.of_small small next stepped
  exact ⟨unwrapped, (step_outcome proper stepped).sparesParents proper unwrapped named⟩

/-- In every run of orderly steps no entry is left behind by its inode, and a path
leads a process to no other panic than that of a full inode cache. -/
theorem runs_leave_none_dangling (devsw : Nat → Device) (start state : State)
    (proper : Proper start []) (upward : Upward start)
    (reachable : Reachable (step devsw) (Orderly devsw) start state) :
    NoneDangling state ∧
      ∀ proc, some proc ∈ state.tables.procs → ∀ path nameiparent failure,
        Machine.execute devsw (namex proc.cwd path nameiparent) state = .error failure →
          failure = .panic (.fs .igetNoInodes) := by
  have reached := reachable_upward proper upward reachable
  constructor
  · intro dp isDir _ k used
    exact reached.2.entry_typed reached.1.tree isDir used
  · intro proc member path nameiparent failure failed
    exact reached.2.namex_panics reached.1 member path nameiparent failed

theorem upward_formatted {inodes files descriptors : Nat} (fits : inodes + 2 ≤ 65536) :
    Upward (formatted inodes files descriptors) := by
  intro dp isDir
  have tree : Tree (formatted inodes files descriptors) := tree_formatted fits
  rw [isDir_formatted.mp isDir, tree.rootParent]
  exact tree.isLive_root

/-- A directory `d` made in a new file system. -/
theorem runs_leave_none_dangling_mkdir :
    ∃ state, step noDevices (formatted 2 1 1) (0, .mkdir [100]) = some state ∧
      NoneDangling state := by
  have stepped : (step noDevices (formatted 2 1 1) (0, .mkdir [100])).isSome := by decide +kernel
  rcases Option.isSome_iff_exists.mp stepped with ⟨state, made⟩
  have proper : Proper (formatted 2 1 1) [] := proper_formatted (by decide)
  have orderly : Orderly noDevices (formatted 2 1 1) (0, .mkdir [100]) :=
    .of_named proper (by decide +kernel) fun dp isDir => Or.inl (isDir_formatted.mp isDir)
  have kept := runs_leave_none_dangling noDevices (formatted 2 1 1) state proper
    (upward_formatted (by decide)) (.step _ .refl orderly made)
  exact ⟨state, made, kept.1⟩

/-! ## A removed parent -/

/-- Make `a` and `a/b`, go to `a/b`, and remove first `/a/b` and then `/a`. -/
def removeUpward : List (Nat × SysCall) :=
  [(0, .mkdir [97]), (0, .mkdir [97, 47, 98]), (0, .chdir [97, 47, 98]),
    (0, .unlink [47, 97, 47, 98]), (0, .unlink [47, 97])]

/-- Whether a walk ends in the panic of `ilock`. -/
def panicsNoType (state : State) (cwd : Nat) (path : List UInt8) : Bool :=
  match Machine.execute noDevices (namex cwd path false) state with
  | .error failure => failure = .panic (.fs .ilockNoType)
  | .ok _ => false

theorem execute_of_panicsNoType {cwd : Nat} {path : List UInt8}
    (panics : panicsNoType state cwd path = true) :
    Machine.execute noDevices (namex cwd path false) state = .error (.panic (.fs .ilockNoType)) := by
  rw [panicsNoType] at panics
  split at panics
  · rename_i failure failed
    rw [failed, of_decide_eq_true panics]
  · cases panics

/-- The parent of the current directory is free, and the path `../.` leads to a panic. -/
theorem parent_left_dangling :
    Proper (formatted 2 1 1) [] ∧ NoneDangling (formatted 2 1 1) ∧
      ∃ state, Reachable (step noDevices) Unrestricted (formatted 2 1 1) state ∧
        ¬NoneDangling state ∧ ∃ proc, some proc ∈ state.tables.procs ∧
          Machine.execute noDevices (namex proc.cwd [46, 46, 47, 46] false) state =
            .error (.panic (.fs .ilockNoType)) := by
  have proper : Proper (formatted 2 1 1) [] := proper_formatted (by decide)
  refine ⟨proper, ?_, ?_⟩
  · intro dp isDir _ k used
    exact (upward_formatted (by decide)).entry_typed proper.tree isDir used
  rcases exists_reachable (step noDevices) Unrestricted (formatted 2 1 1) removeUpward
      (fun state => some ⟨[none], 3⟩ ∈ state.tables.procs ∧ state.IsDir 3 ∧ state.entry 3 1 = 2 ∧
        (state.node 2).type = 0 ∧ panicsNoType state 3 [46, 46, 47, 46]) (by decide +kernel) with
    ⟨state, reachable, member, isDir, entry, free, panics⟩
  refine ⟨state, reachable, ?_, _, member, execute_of_panicsNoType panics⟩
  intro noneDangling
  have typed := noneDangling 3 isDir (Or.inr ⟨_, member, rfl⟩) 1 (by rw [entry]; decide)
  rw [entry] at typed
  exact typed free

end

end Xv6.Dir
