import Xv6.Dir.Formatted
import Xv6.Dir.Steps

/-! # The directory tree

The directories that can be reached from the root form a tree in every run in which
no link count wraps around, and no call changes the contents of a directory other
than by entering or removing one name.
-/

namespace Xv6.Dir

open Transition
open Fs (Device T_DIR T_FILE ROOTINO)

variable {dp : Nat} {before after : State × List Nat}

namespace State

/-- The directories reached from the root along entries. -/
inductive Reach (state : State) : Nat → Prop
  | root : state.IsDir ROOTINO → Reach state ROOTINO
  | entry {dp : Nat} (k : Nat) : Reach state dp → state.entry dp k ≠ 0 →
      state.IsDir (state.entry dp k) → Reach state (state.entry dp k)

/-- An entry other than the dots. -/
structure Names (state : State) (dp k inum : Nat) : Prop where
  isDir : state.IsDir dp
  entry : state.entry dp k = inum
  nonzero : inum ≠ 0
  notDot : namecmp (nameAt (state.node dp).data k) dot ≠ 0
  notDotdot : namecmp (nameAt (state.node dp).data k) dotdot ≠ 0

end State

/-- Every reachable directory has its own inode number under `.` and that of the
directory that names it under `..`; the root, which has no name, has its own number
there. There is one name for a directory, and one entry for a name. -/
structure DirectoryTree (state : State) : Prop where
  root : state.IsDir ROOTINO
  self : ∀ dp, state.Reach dp →
    state.entry dp 0 = dp ∧ namecmp (nameAt (state.node dp).data 0) dot = 0
  up : ∀ dp, state.Reach dp → namecmp (nameAt (state.node dp).data 1) dotdot = 0
  rootParent : state.entry ROOTINO 1 = ROOTINO
  rootUnnamed : ∀ dp k, ¬state.Names dp k ROOTINO
  named : ∀ dp, state.Reach dp → dp ≠ ROOTINO → ∃ parent k, state.Reach parent ∧
    state.Names parent k dp ∧ state.entry dp 1 = parent ∧
    ∀ other j, state.Names other j dp → other = parent ∧ j = k
  distinct : ∀ dp, state.Reach dp → ∀ j k, state.entry dp j ≠ 0 → state.entry dp k ≠ 0 →
    namecmp (nameAt (state.node dp).data j) (nameAt (state.node dp).data k) = 0 → j = k

section

variable {state : State}

theorem Tree.names_iff (tree : Tree state) {k inum : Nat} :
    state.Names dp k inum ↔ state.IsDir dp ∧ 2 ≤ k ∧ state.entry dp k = inum ∧ inum ≠ 0 := by
  constructor
  · rintro ⟨isDir, entry, nonzero, notDot, notDotdot⟩
    refine ⟨isDir, ?_, entry, nonzero⟩
    match k with
    | 0 => exact absurd (tree.self dp isDir).2 notDot
    | 1 => exact absurd (tree.up dp isDir).2 notDotdot
    | k + 2 => exact Nat.le_add_left 2 k
  · rintro ⟨isDir, later, entry, nonzero⟩
    have used : state.entry dp k ≠ 0 := by
      rw [entry]
      exact nonzero
    have self := tree.self dp isDir
    have up := tree.up dp isDir
    refine ⟨isDir, entry, nonzero, ?_, ?_⟩
    · intro isDot
      have first : state.entry dp 0 ≠ 0 := by
        rw [self.1]
        exact tree.ne_zero isDir.typed
      have same := tree.distinct dp k 0 isDir used first
        (namecmp_eq_zero.mpr ((namecmp_eq_zero.mp isDot).trans (namecmp_eq_zero.mp self.2).symm))
      omega
    · intro isDotdot
      have same := tree.distinct dp k 1 isDir used up.1
        (namecmp_eq_zero.mpr ((namecmp_eq_zero.mp isDotdot).trans (namecmp_eq_zero.mp up.2).symm))
      omega

theorem State.Reach.isDir (reach : state.Reach dp) : state.IsDir dp := by
  cases reach with
  | root isDir => exact isDir
  | entry _ _ _ isDir => exact isDir

/-- The directories reached from the root along names. -/
inductive State.Below (state : State) : Nat → Prop
  | root : Below state ROOTINO
  | entry {dp : Nat} (k : Nat) : Below state dp → state.IsDir dp → 2 ≤ k →
      state.IsDir (state.entry dp k) → Below state (state.entry dp k)

/-- The dots lead to no other directory. -/
theorem Tree.below_of_reach (tree : Tree state) (reach : state.Reach dp) :
    state.Below dp := by
  induction reach with
  | root _ => exact .root
  | @entry dp k reached _ isDir below =>
    match k with
    | 0 =>
      rw [(tree.self dp reached.isDir).1]
      exact below
    | 1 =>
      cases below with
      | root =>
        rw [show state.entry ROOTINO 1 = ROOTINO from tree.rootParent]
        exact .root
      | @entry parent j below parentDir later dpDir =>
        rw [show state.entry (state.entry parent j) 1 = parent from
          (tree.named parent j parentDir later dpDir).1]
        exact below
    | k + 2 => exact .entry _ below reached.isDir (Nat.le_add_left 2 k) isDir

theorem Tree.reach_of_below (tree : Tree state) (below : state.Below dp) :
    state.Reach dp := by
  induction below with
  | root => exact .root tree.root
  | entry k _ _ _ isDir reach => exact .entry k reach (tree.ne_zero isDir.typed) isDir

/-- Two names of a directory are the same name. -/
theorem Tree.name_unique (tree : Tree state) {first j second k : Nat} (isDir : state.IsDir dp)
    (one : state.IsDir first ∧ 2 ≤ j ∧ state.entry first j = dp)
    (two : state.IsDir second ∧ 2 ≤ k ∧ state.entry second k = dp) : first = second ∧ j = k := by
  rcases one with ⟨firstDir, firstLater, firstEntry⟩
  rcases two with ⟨secondDir, secondLater, secondEntry⟩
  have same : first = second := by
    have firstParent := (tree.named first j firstDir firstLater (firstEntry ▸ isDir)).1
    have secondParent := (tree.named second k secondDir secondLater (secondEntry ▸ isDir)).1
    rw [firstEntry] at firstParent
    rw [secondEntry] at secondParent
    exact firstParent.symm.trans secondParent
  subst same
  refine ⟨rfl, ?_⟩
  -- Two slots of one directory would count twice.
  by_contra different
  have aligned := (tree.shaped first firstDir).aligned
  have nonzero := tree.ne_zero isDir.typed
  have counted : ∀ slot, 2 ≤ slot → state.entry first slot = dp →
      slot ∈ (Finset.range (slots (state.node first).data)).filter fun slot =>
        2 ≤ slot ∧ entryAt (state.node first).data slot = dp := by
    intro slot later entry
    rw [Finset.mem_filter, Finset.mem_range]
    refine ⟨lt_slots_of_entryAt aligned ?_, later, entry⟩
    rw [show entryAt (state.node first).data slot = dp from entry]
    exact nonzero
  have twice : 1 < (state.node first).names dp := by
    rw [Node.names, if_pos (show (state.node first).type = T_DIR from firstDir), countNames,
      Finset.one_lt_card]
    exact ⟨j, counted j firstLater firstEntry, k, counted k secondLater secondEntry, different⟩
  have atMost := tree.single dp isDir
  have among : (state.node first).names dp ≤ state.names dp :=
    Finset.single_le_sum (f := fun other => (state.node other).names dp) (fun _ _ => Nat.zero_le _)
      (Finset.mem_range.mpr (State.lt_length_of_typed firstDir.typed))
  omega

theorem Tree.directoryTree (tree : Tree state) : DirectoryTree state where
  root := tree.root
  self := fun dp reach => tree.self dp reach.isDir
  up := fun dp reach => (tree.up dp reach.isDir).2
  rootParent := tree.rootParent
  rootUnnamed := by
    intro dp k names
    rcases tree.names_iff.mp names with ⟨isDir, later, entry, nonzero⟩
    exact tree.entry_ne_of_names nonzero tree.rootUnnamed isDir later entry
  named := by
    intro dp reach notRoot
    cases tree.below_of_reach reach with
    | root => exact absurd rfl notRoot
    | @entry parent k below parentDir later isDir =>
      have nonzero := tree.ne_zero isDir.typed
      refine ⟨parent, k, tree.reach_of_below below,
        tree.names_iff.mpr ⟨parentDir, later, rfl, nonzero⟩,
        (tree.named parent k parentDir later isDir).1, ?_⟩
      intro other j names
      rcases tree.names_iff.mp names with ⟨otherDir, otherLater, otherEntry, _⟩
      exact tree.name_unique isDir ⟨otherDir, otherLater, otherEntry⟩ ⟨parentDir, later, rfl⟩
  distinct := fun dp reach j k => tree.distinct dp j k reach.isDir

end

/-! ## What a call does to a directory -/

section

variable {state next : State} {call : SysCall} {dp k inum : Nat}

theorem Effect.directory (effect : Effect state next) (tree : Tree state)
    (isDir : state.IsDir inum) :
    ((next.node inum).nlink = 0 ∧ (next.node inum).type = 0) ∨ next.IsDir inum ∧
      ((next.node inum).data = (state.node inum).data ∨
        ∃ k de, 2 ≤ k ∧ k ≤ slots (state.node inum).data ∧
          (next.node inum).data = putEntry (state.node inum).data k de) := by
  cases effect with
  | none => exact Or.inr ⟨isDir, Or.inl rfl⟩
  | @link ip dp k name typed notDir slot =>
    have rewritten := (tree.entering_linked typed notDir slot).rewritten
    refine Or.inr ⟨(rewritten.isDir inum).mpr isDir, ?_⟩
    by_cases same : inum = dp
    · subst same
      exact Or.inr ⟨k, _, slot.later tree, slot.bound, rewritten.own⟩
    · exact Or.inl (rewritten.data inum same)
  | @unlink ip dp k dpDir later entry typed empty =>
    have removing := tree.removing_unlinked dpDir later entry typed
    have rewritten := removing.rewritten
    rcases (state.unlinked ip dp k).node_reap_reap ip dp inum with same | ⟨_, unlinked, same⟩
    · rw [State.IsDir, same]
      refine Or.inr ⟨(rewritten.isDir inum).mpr isDir, ?_⟩
      by_cases same : inum = dp
      · subst same
        exact Or.inr ⟨k, _, later, removing.slot.bound, rewritten.own⟩
      · exact Or.inl (rewritten.data inum same)
    · rw [same]
      exact Or.inl ⟨unlinked, rfl⟩
  | @create ip dp k type major minor name inRange free typed slot =>
    have paired := @paired_created type major minor state ip dp k name inRange free slot
    have notNew : inum ≠ ip := (isDir.ne fun isDir => isDir.typed free).symm
    refine Or.inr ?_
    by_cases same : inum = dp
    · rw [State.IsDir, same, paired.parent]
      exact ⟨slot.isDir, Or.inr ⟨k, _, slot.later tree, slot.bound, rfl⟩⟩
    · rw [State.IsDir, paired.others inum notNew same]
      exact ⟨isDir, Or.inl rfl⟩

theorem Move.free (move : Move before after)
    (free : (before.1.node inum).type = 0) : (after.1.node inum).type = 0 := by
  rcases move.tree_cases with same | ⟨ip, _, _, same⟩
  · rw [same.type]
    exact free
  · rw [same.type]
    rcases before.1.free_node ip inum with kept | ⟨_, freed⟩
    · rw [kept]
      exact free
    · rw [freed]

theorem Moves.free (moves : Moves before after)
    (free : (before.1.node inum).type = 0) : (after.1.node inum).type = 0 := by
  induction moves with
  | refl => exact free
  | tail _ last induction => exact last.free induction

/-- A move leaves a directory as it is, or frees it if it has no links. -/
theorem Move.directory (move : Move before after) (isDir : before.1.IsDir inum) :
    (after.1.IsDir inum ∧ (after.1.node inum).data = (before.1.node inum).data) ∨
      (before.1.node inum).nlink = 0 ∧ (after.1.node inum).type = 0 := by
  rcases move.tree_cases with same | ⟨ip, _, unlinked, same⟩
  · exact Or.inl ⟨(same.isDir inum).mpr isDir, same.data inum isDir⟩
  · rcases before.1.free_node ip inum with kept | ⟨rfl, freed⟩
    · have stillDir : (before.1.free ip).IsDir inum := by
        rw [State.IsDir, kept]
        exact isDir
      rw [same.isDir, same.data inum stillDir, kept]
      exact Or.inl ⟨stillDir, rfl⟩
    · rw [same.type, freed]
      exact Or.inr ⟨unlinked, rfl⟩

theorem Moves.directory (moves : Moves before after) (isDir : before.1.IsDir inum) :
    (after.1.IsDir inum ∧ (after.1.node inum).data = (before.1.node inum).data) ∨
      (before.1.node inum).nlink = 0 ∧ (after.1.node inum).type = 0 := by
  induction moves with
  | refl => exact Or.inl ⟨isDir, rfl⟩
  | @tail mid after moves last induction =>
    rcases induction with ⟨midDir, data⟩ | ⟨unlinked, free⟩
    · rcases last.directory midDir with ⟨afterDir, afterData⟩ | ⟨unlinked, free⟩
      · exact Or.inl ⟨afterDir, afterData.trans data⟩
      · rw [Moves.nlink moves inum] at unlinked
        exact Or.inr ⟨unlinked, free⟩
    · exact Or.inr ⟨unlinked, last.free free⟩

theorem State.reap_of_linked (linked : (state.node inum).nlink ≠ 0) : state.reap inum = state := by
  apply State.edit_eq_self
  rw [if_neg fun unused => linked unused.2]

theorem nlink_ne_zero {count : Int16} (positive : 0 < count.toInt) : count ≠ 0 := by
  rintro rfl
  exact absurd positive (by decide)

/-- The name of a directory stays unless the directory is empty. -/
theorem Effect.name_kept (effect : Effect state next) (tree : Tree state)
    (isDir : state.IsDir dp) (later : 2 ≤ k) (entry : state.entry dp k = inum)
    (targetDir : state.IsDir inum) :
    (∀ j, 2 ≤ j → state.entry inum j = 0) ∨
      next.IsDir dp ∧ direntAt (next.node dp).data k = direntAt (state.node dp).data k := by
  have nonzero := tree.ne_zero targetDir.typed
  cases effect with
  | none => exact Or.inr ⟨isDir, rfl⟩
  | @link ip parent j name typed notDir slot =>
    have entering := tree.entering_linked typed notDir slot
    refine Or.inr ⟨(entering.rewritten.isDir dp).mpr isDir, ?_⟩
    rw [entering.rewritten.dirent tree entering.slot, if_neg]
    rintro ⟨rfl, rfl⟩
    exact nonzero (entry.symm.trans slot.empty)
  | @create ip parent j type major minor name inRange free typed slot =>
    have paired := @paired_created type major minor state ip parent j name inRange free slot
    have notNew : dp ≠ ip := (isDir.ne fun isDir => isDir.typed free).symm
    refine Or.inr ?_
    by_cases same : dp = parent
    · subst same
      rw [State.IsDir, paired.parent]
      refine ⟨isDir, ?_⟩
      have slotFits := (slot.nameSlot tree inRange.2).fits
      rw [direntAt_putEntry (tree.shaped dp isDir).aligned slot.bound slotFits, if_neg]
      rintro rfl
      exact nonzero (entry.symm.trans slot.empty)
    · rw [State.IsDir, paired.others dp notNew same]
      exact ⟨isDir, rfl⟩
  | @unlink ip parent j parentDir laterJ removed typed empty =>
    by_cases sameSlot : dp = parent ∧ k = j
    · rcases sameSlot with ⟨rfl, rfl⟩
      have same : inum = ip := entry.symm.trans removed
      subst same
      exact Or.inl (empty targetDir)
    · have removing := tree.removing_unlinked parentDir laterJ removed typed
      have rewritten := removing.rewritten
      have dirent := rewritten.dirent tree removing.slot dp k
      rw [if_neg sameSlot] at dirent
      have unlinkedTree := tree.unlinked parentDir laterJ removed typed
      have unlinkedDir : (state.unlinked ip parent j).IsDir dp := (rewritten.isDir dp).mpr isDir
      have unlinkedEntry : (state.unlinked ip parent j).entry dp k = inum := by
        rw [State.entry, entryAt, dirent]
        exact entry
      -- The directory still has a child, so it is not freed.
      have counted := (unlinkedTree.nlink_pos_of_entry unlinkedDir later unlinkedEntry nonzero).2
        ((rewritten.isDir inum).mpr targetDir)
      have notIp : dp ≠ ip := by
        rintro rfl
        exact nonzero (entry.symm.trans (empty isDir k later))
      have node : ((((state.unlinked ip parent j).reap parent).reap ip)).node dp =
          (state.unlinked ip parent j).node dp := by
        rw [State.reap, State.node_edit_of_ne notIp]
        by_cases isParent : dp = parent
        · subst isParent
          rw [State.reap_of_linked (nlink_ne_zero counted)]
        · rw [State.reap, State.node_edit_of_ne isParent]
      rw [State.IsDir, node]
      exact Or.inr ⟨unlinkedDir, dirent⟩

end

structure KeepsDirectories (call : SysCall) (state next : State) : Prop where
  quiet : ¬call.Naming → ∀ dp, state.Reach dp →
    next.IsDir dp ∧ (next.node dp).data = (state.node dp).data
  naming : ∀ dp, state.IsDir dp → (next.node dp).type = 0 ∨
    (next.node dp).data = (state.node dp).data ∨
    ∃ k de, 2 ≤ k ∧ (next.node dp).data = putEntry (state.node dp).data k de
  removal : ∀ dp k inum, state.IsDir inum → state.Names dp k inum → ¬next.Names dp k inum →
    ∀ j, state.entry inum j ≠ 0 → namecmp (nameAt (state.node inum).data j) dot = 0 ∨
      namecmp (nameAt (state.node inum).data j) dotdot = 0

section

variable {devsw : Nat → Device} {start state next : State} {call : SysCall}

theorem Tree.nlink_pos_of_reach (tree : Tree state) (reach : state.Reach dp) :
    0 < (state.node dp).nlink.toInt := by
  cases tree.below_of_reach reach with
  | root =>
    have covered := tree.counts ROOTINO tree.root.typed
    rw [State.links, if_pos rfl] at covered
    omega
  | @entry parent k _ parentDir later isDir =>
    exact (tree.nlink_pos_of_entry parentDir later rfl (tree.ne_zero isDir.typed)).1

theorem Outcome.keepsDirectories (outcome : Outcome call state next) (proper : Proper state [])
    (unwrapped : Unwrapped state next) : KeepsDirectories call state next := by
  rcases outcome with ⟨mid, effect, same, _, moves⟩
  have tree := proper.tree
  have midTree := effect.tree tree (unwrapped.before_moves moves)
  refine ⟨?_, ?_, ?_⟩
  · intro quiet dp reach
    rw [same quiet] at moves
    rcases Moves.directory moves reach.isDir with kept | ⟨unlinked, _⟩
    · exact kept
    · exact absurd unlinked (nlink_ne_zero (tree.nlink_pos_of_reach reach))
  · intro dp isDir
    rcases effect.directory tree isDir with ⟨_, free⟩ | ⟨midDir, changed⟩
    · exact Or.inl (Moves.free moves free)
    · rcases Moves.directory moves midDir with ⟨_, kept⟩ | ⟨_, free⟩
      · rw [kept]
        rcases changed with unchanged | ⟨k, de, later, _, rewritten⟩
        · exact Or.inr (Or.inl unchanged)
        · exact Or.inr (Or.inr ⟨k, de, later, rewritten⟩)
      · exact Or.inl free
  · intro dp k inum targetDir names lost j used
    rcases tree.names_iff.mp names with ⟨isDir, later, entry, nonzero⟩
    rcases effect.name_kept tree isDir later entry targetDir with empty | ⟨midDir, dirent⟩
    · match j with
      | 0 => exact Or.inl (tree.self inum targetDir).2
      | 1 => exact Or.inr (tree.up inum targetDir).2
      | j + 2 => exact absurd (empty (j + 2) (Nat.le_add_left 2 j)) used
    · have midEntry : mid.entry dp k = inum := by
        rw [State.entry, entryAt, dirent]
        exact entry
      have midTarget : mid.IsDir inum := by
        rcases effect.directory tree targetDir with ⟨_, free⟩ | ⟨midTarget, _⟩
        · have typed := midTree.target dp k midDir later (by rw [midEntry]; exact nonzero)
          rw [midEntry] at typed
          exact absurd free typed
        · exact midTarget
      have counted := (midTree.nlink_pos_of_entry midDir later midEntry nonzero).2 midTarget
      rcases Moves.directory moves midDir with ⟨nextDir, data⟩ | ⟨unlinked, _⟩
      · refine absurd ⟨nextDir, ?_, nonzero, ?_, ?_⟩ lost
        · rw [State.entry, data]
          exact midEntry
        · rw [data, nameAt, dirent]
          exact names.notDot
        · rw [data, nameAt, dirent]
          exact names.notDotdot
      · exact absurd unlinked (nlink_ne_zero counted)

/-! ## Runs -/

/-- A step in which no link count wraps around. -/
def Bounded (devsw : Nat → Device) (state : State) (action : Nat × SysCall) : Prop :=
  ∀ next, step devsw state action = some next → Unwrapped state next

theorem reachable_proper (proper : Proper start [])
    (reachable : Reachable (step devsw) (Bounded devsw) start state) : Proper state [] := by
  refine Reachable.invariant (fun state => Proper state []) ?_ proper reachable
  rintro state ⟨p, call⟩ next before bounded stepped
  exact (step_outcome before stepped).proper before (bounded next stepped)

/-- In every run in which no link count wraps around, the directories form a tree
and calls keep their contents. -/
theorem runs_keep_directory_tree (devsw : Nat → Device) (start state : State)
    (proper : Proper start [])
    (reachable : Reachable (step devsw) (Bounded devsw) start state) :
    DirectoryTree state ∧ ∀ p call next, step devsw state (p, call) = some next →
      Unwrapped state next → KeepsDirectories call state next := by
  have now := reachable_proper proper reachable
  refine ⟨now.tree.directoryTree, ?_⟩
  intro p call next stepped unwrapped
  exact (step_outcome now stepped).keepsDirectories now unwrapped

end

theorem Bounded.of_small {devsw : Nat → Device} {state : State} {action : Nat × SysCall}
    (small : ∀ node ∈ state.nodes, node.nlink ≠ 32767) : Bounded devsw state action := by
  intro next _ inum full
  rcases Nat.lt_or_ge inum state.nodes.length with inside | outside
  · rw [State.node, List.getD_eq_getElem _ _ inside] at full
    exact absurd full (small _ (List.getElem_mem inside))
  · rw [State.node_of_length_le outside] at full
    exact absurd full (by decide)

def noDevices : Nat → Device := fun _ => ⟨none, none⟩

/-- A directory `d` made in a new file system. -/
theorem runs_keep_directory_tree_mkdir :
    ∃ state, step noDevices (formatted 2 1 1) (0, .mkdir [100]) = some state ∧
      DirectoryTree state := by
  have stepped : (step noDevices (formatted 2 1 1) (0, .mkdir [100])).isSome := by decide +kernel
  rcases Option.isSome_iff_exists.mp stepped with ⟨state, made⟩
  have kept := runs_keep_directory_tree noDevices (formatted 2 1 1) state
    (proper_formatted (by decide)) (.step _ .refl (.of_small (by decide +kernel)) made)
  exact ⟨state, made, kept.1⟩

/-! ## A run in which a link count wraps around

The names that `link` makes in a removed directory are lost when the directory is
freed, but their links stay. So one open file can be given any link count.
-/

/-- The file `f`, of the given link count, is open, and its process is in the root. -/
def lostLinks (count : Int16) : State where
  nodes := [
    Node.blank,
    { rootNode with data := putEntry (putEntry (newDirectory ROOTINO ROOTINO) 2
        ⟨2, strncpy [102] DIRSIZ⟩) 3 ⟨0, List.replicate DIRSIZ 0⟩ },
    { Node.blank with type := T_FILE, nlink := count, ref := 1, valid := true },
    Node.blank]
  tables := ⟨[⟨.inode, 1, true, true, 2, 0⟩], [some ⟨[some 0], ROOTINO⟩], 0⟩

/-- Make `d`, go there, remove it, link `/f` to `x` in it and leave it. -/
def loseLink : List (Nat × SysCall) :=
  [(0, .mkdir [100]), (0, .chdir [100]), (0, .unlink [47, 100]), (0, .link [47, 102] [120]),
    (0, .chdir [47])]

theorem run_loseLink (count : Int16) :
    run (step noDevices) Unrestricted (lostLinks count) loseLink =
      some (lostLinks (count + 1)) := by
  cbv

theorem reachable_lostLinks (rounds : Nat) :
    Reachable (step noDevices) Unrestricted (formatted 2 1 1)
      (lostLinks (1 + Int16.ofNat rounds)) := by
  induction rounds with
  | zero =>
    -- open("f", O_CREATE | O_RDWR), and a slot of the root used and cleared.
    refine .of_run [(0, .open [102] 0x202), (0, .mkdir [100]), (0, .unlink [100])] .refl ?_
    decide +kernel
  | succ rounds reached =>
    refine .of_run loseLink reached ?_
    rw [run_loseLink, Int16.ofNat_add, Int16.add_assoc]
    rfl

/-- Both `f` and `e` are names of one directory. -/
def reused : State where
  nodes := [
    Node.blank,
    { rootNode with
      nlink := 2
      data := putEntry (putEntry (newDirectory ROOTINO ROOTINO) 2
        ⟨2, strncpy [102] DIRSIZ⟩) 3 ⟨2, strncpy [101] DIRSIZ⟩ },
    { Node.blank with type := T_DIR, nlink := 1, data := newDirectory 2 ROOTINO },
    Node.blank]
  tables := ⟨[⟨.none, 0, true, true, 2, 0⟩], [some ⟨[none], ROOTINO⟩], 0⟩

/-- After 65535 rounds `f` has no links. It is freed when it is closed, although it
has its name, and a directory `e` is made in its place. -/
theorem directory_named_twice :
    Proper (formatted 2 1 1) [] ∧ DirectoryTree (formatted 2 1 1) ∧
      Reachable (step noDevices) Unrestricted (formatted 2 1 1) reused ∧
      reused.Names ROOTINO 2 2 ∧ reused.Names ROOTINO 3 2 ∧ ¬DirectoryTree reused := by
  have proper : Proper (formatted 2 1 1) [] := proper_formatted (by decide)
  have wrapped := reachable_lostLinks 65535
  rw [show 1 + Int16.ofNat 65535 = 0 by decide] at wrapped
  have first : reused.Names ROOTINO 2 2 := by
    refine ⟨?_, ?_, ?_, ?_, ?_⟩ <;> decide +kernel
  have second : reused.Names ROOTINO 3 2 := by
    refine ⟨?_, ?_, ?_, ?_, ?_⟩ <;> decide +kernel
  refine ⟨proper, proper.tree.directoryTree, ?_, first, second, ?_⟩
  · refine .of_run [(0, .close 0), (0, .mkdir [101])] wrapped ?_
    decide +kernel
  · intro tree
    have reach : reused.Reach (reused.entry ROOTINO 2) :=
      .entry 2 (.root first.isDir) (by decide +kernel) (by decide +kernel)
    rw [first.entry] at reach
    rcases tree.named 2 reach (by decide) with ⟨parent, k, _, _, _, unique⟩
    have twice := (unique ROOTINO 2 first).2.trans (unique ROOTINO 3 second).2.symm
    exact absurd twice (by decide)

end Xv6.Dir
