import Xv6.Foundation.Transition
import Xv6.Dir.Lookup

/-! # The tree of directories

What the file system looks like between calls. Every directory has its own entry
and that of its parent in the first two slots; the entries after these are names.
A name is the name of an allocated inode, a directory has at most one, and it is
in the parent. The link count of an inode covers its names and, for a directory,
the parent entries of the directories named in it.
-/

namespace Xv6.Dir

open Transition State
open Fs (T_DIR ROOTINO)

variable {dp inum : Nat}

/-! ## Link counts -/

theorem toInt_add_one {count : Int16} (below : count ≠ 32767) :
    (count + 1).toInt = count.toInt + 1 := by
  have upper := Int16.toInt_lt count
  have lower := Int16.le_toInt count
  have differs : count.toInt ≠ 32767 := fun equal =>
    below (Int16.toInt_inj.mp (by rw [equal]; decide))
  rw [Int16.toInt_add, show (1 : Int16).toInt = 1 by decide]
  simp only [Int.bmod]
  omega

theorem toInt_sub_one {count : Int16} (above : 0 < count.toInt) :
    (count - 1).toInt = count.toInt - 1 := by
  have upper := Int16.toInt_lt count
  rw [Int16.toInt_sub, show (1 : Int16).toInt = 1 by decide]
  simp only [Int.bmod]
  omega

namespace State

variable (state : State)

def entry (dp k : Nat) : Nat := entryAt (state.node dp).data k

def parent (dp : Nat) : Nat := state.entry dp 1

end State

/-- The names that a directory has for an inode; a file has none. -/
def Node.names (node : Node) (inum : Nat) : Nat :=
  if node.type = T_DIR then countNames node.data inum else 0

namespace State

variable (state : State)

def names (inum : Nat) : Nat :=
  ∑ dp ∈ Finset.range state.nodes.length, (state.node dp).names inum

/-- A directory that has a name and whose parent entry is for `dp`. -/
def IsChild (dp child : Nat) : Prop :=
  state.IsDir child ∧ state.parent child = dp ∧ 0 < state.names child

instance (dp child : Nat) : Decidable (state.IsChild dp child) :=
  inferInstanceAs (Decidable (_ ∧ _))

def children (dp : Nat) : Nat :=
  ∑ child ∈ Finset.range state.nodes.length, if state.IsChild dp child then 1 else 0

/-- What the link count of an inode has to cover. -/
def links (inum : Nat) : Nat :=
  state.names inum + state.children inum + if inum = ROOTINO then 1 else 0

end State

structure Tree (state : State) : Prop where
  zero : (state.node 0).type = 0
  size : state.nodes.length ≤ 65536
  root : state.IsDir ROOTINO
  rootParent : state.parent ROOTINO = ROOTINO
  rootUnnamed : state.names ROOTINO = 0
  shaped : ∀ dp, state.IsDir dp → Shaped (state.node dp).data
  self : ∀ dp, state.IsDir dp →
    state.entry dp 0 = dp ∧ namecmp (nameAt (state.node dp).data 0) dot = 0
  up : ∀ dp, state.IsDir dp →
    state.parent dp ≠ 0 ∧ namecmp (nameAt (state.node dp).data 1) dotdot = 0
  target : ∀ dp k, state.IsDir dp → 2 ≤ k → state.entry dp k ≠ 0 →
    (state.node (state.entry dp k)).type ≠ 0
  named : ∀ dp k, state.IsDir dp → 2 ≤ k → state.IsDir (state.entry dp k) →
    state.parent (state.entry dp k) = dp ∧ state.entry dp k ≠ dp
  single : ∀ dp, state.IsDir dp → state.names dp ≤ 1
  distinct : ∀ dp j k, state.IsDir dp → state.entry dp j ≠ 0 → state.entry dp k ≠ 0 →
    namecmp (nameAt (state.node dp).data j) (nameAt (state.node dp).data k) = 0 → j = k
  counts : ∀ inum, (state.node inum).type ≠ 0 →
    (state.links inum : Int) ≤ (state.node inum).nlink.toInt

/-- What a directory is by itself. -/
structure Formed (dp : Nat) (data : List UInt8) : Prop where
  shaped : Shaped data
  self : entryAt data 0 = dp ∧ namecmp (nameAt data 0) dot = 0
  up : entryAt data 1 ≠ 0 ∧ namecmp (nameAt data 1) dotdot = 0
  distinct : ∀ j k, entryAt data j ≠ 0 → entryAt data k ≠ 0 →
    namecmp (nameAt data j) (nameAt data k) = 0 → j = k

section

variable {state next : State}

theorem Tree.formed (tree : Tree state) (isDir : state.IsDir dp) :
    Formed dp (state.node dp).data :=
  ⟨tree.shaped dp isDir, tree.self dp isDir, tree.up dp isDir,
    fun j k => tree.distinct dp j k isDir⟩

/-- The tree depends only on types, links and the data of directories. -/
structure SameTree (state next : State) : Prop where
  length : next.nodes.length = state.nodes.length
  type : ∀ inum, (next.node inum).type = (state.node inum).type
  nlink : ∀ inum, (next.node inum).nlink = (state.node inum).nlink
  data : ∀ inum, state.IsDir inum → (next.node inum).data = (state.node inum).data

namespace SameTree

variable (same : SameTree state next)

include same

theorem isDir (inum : Nat) : next.IsDir inum ↔ state.IsDir inum := by
  rw [State.IsDir, State.IsDir, same.type]

theorem entry (isDir : state.IsDir dp) (k : Nat) :
    next.entry dp k = state.entry dp k := by
  rw [State.entry, State.entry, same.data dp isDir]

theorem names (inum : Nat) : next.names inum = state.names inum := by
  rw [State.names, State.names, same.length]
  refine Finset.sum_congr rfl fun dp _ => ?_
  rw [Node.names, Node.names, same.type]
  split
  · rename_i isDir
    rw [same.data dp isDir]
  · rfl

theorem isChild (dp child : Nat) : next.IsChild dp child ↔ state.IsChild dp child := by
  rw [State.IsChild, State.IsChild, same.isDir, same.names]
  refine and_congr_right fun isDir => ?_
  rw [parent, parent, same.entry isDir]

theorem children (dp : Nat) : next.children dp = state.children dp := by
  simp only [State.children, same.isChild, same.length]

theorem links (inum : Nat) : next.links inum = state.links inum := by
  rw [State.links, State.links, same.names, same.children]

theorem tree (tree : Tree state) : Tree next := by
  have isDir : ∀ dp, next.IsDir dp → state.IsDir dp := fun dp => (same.isDir dp).mp
  have formed : ∀ dp, next.IsDir dp → Formed dp (next.node dp).data := by
    intro dp nextDir
    rw [same.data dp (isDir dp nextDir)]
    exact tree.formed (isDir dp nextDir)
  constructor
  case zero => rw [same.type]; exact tree.zero
  case size => exact same.length.trans_le tree.size
  case root => exact (same.isDir _).mpr tree.root
  case rootParent => exact (same.entry tree.root _).trans tree.rootParent
  case rootUnnamed => exact (same.names _).trans tree.rootUnnamed
  case shaped => exact fun dp isDir => (formed dp isDir).shaped
  case self => exact fun dp isDir => (formed dp isDir).self
  case up => exact fun dp isDir => (formed dp isDir).up
  case distinct => exact fun dp j k isDir => (formed dp isDir).distinct j k
  case target =>
    intro dp k nextDir
    rw [same.entry (isDir dp nextDir), same.type]
    exact tree.target dp k (isDir dp nextDir)
  case named =>
    intro dp k nextDir later
    rw [same.entry (isDir dp nextDir), same.isDir]
    intro targetDir
    rw [parent, same.entry targetDir]
    exact tree.named dp k (isDir dp nextDir) later targetDir
  case single =>
    intro dp nextDir
    rw [same.names]
    exact tree.single dp (isDir dp nextDir)
  case counts =>
    intro inum typed
    rw [same.type] at typed
    rw [same.links, same.nlink]
    exact tree.counts inum typed

end SameTree

theorem SameTree.refl (state : State) : SameTree state state :=
  ⟨rfl, fun _ => rfl, fun _ => rfl, fun _ _ => rfl⟩

theorem SameTree.hold (state : State) (inum : Nat) (locked : Bool) :
    SameTree state (state.hold inum locked) :=
  ⟨length_hold _ _, fun other => (state.hold_content inum other locked).1,
    fun other => (state.hold_content inum other locked).2.1,
    fun other _ => (state.hold_content inum other locked).2.2⟩

/-! ## Names -/

theorem State.lt_length_of_typed (typed : (state.node inum).type ≠ 0) :
    inum < state.nodes.length := by
  by_contra outside
  rw [node_of_length_le (Nat.le_of_not_lt outside)] at typed
  exact typed rfl

theorem countNames_pos {data : List UInt8} (aligned : DIRENTSIZE ∣ data.length)
    (nonzero : inum ≠ 0) : 0 < countNames data inum ↔ ∃ k, 2 ≤ k ∧ entryAt data k = inum := by
  rw [countNames, Finset.card_pos]
  constructor
  · rintro ⟨k, member⟩
    exact ⟨k, (Finset.mem_filter.mp member).2⟩
  · rintro ⟨k, later, same⟩
    refine ⟨k, Finset.mem_filter.mpr ⟨Finset.mem_range.mpr ?_, later, same⟩⟩
    exact lt_slots_of_entryAt aligned (by rw [same]; exact nonzero)

/-- An inode has a name exactly if some directory has an entry for it. -/
theorem Tree.names_pos (tree : Tree state) (nonzero : inum ≠ 0) :
    0 < state.names inum ↔ ∃ dp k, state.IsDir dp ∧ 2 ≤ k ∧ state.entry dp k = inum := by
  rw [State.names, Finset.sum_pos_iff]
  constructor
  · rintro ⟨dp, _, positive⟩
    rw [Node.names] at positive
    split at positive
    · rename_i isDir
      rcases (countNames_pos (tree.shaped dp isDir).aligned nonzero).mp positive with
        ⟨k, later, same⟩
      exact ⟨dp, k, isDir, later, same⟩
    · exact absurd positive (Nat.lt_irrefl 0)
  · rintro ⟨dp, k, isDir, later, same⟩
    refine ⟨dp, Finset.mem_range.mpr (lt_length_of_typed isDir.typed), ?_⟩
    rw [Node.names, if_pos (show (state.node dp).type = T_DIR from isDir)]
    exact (countNames_pos (tree.shaped dp isDir).aligned nonzero).mpr ⟨k, later, same⟩

theorem Tree.entry_ne_of_names (tree : Tree state) (nonzero : inum ≠ 0)
    (unnamed : state.names inum = 0) {k : Nat} (isDir : state.IsDir dp) (later : 2 ≤ k) :
    state.entry dp k ≠ inum := by
  intro same
  have positive := (tree.names_pos nonzero).mpr ⟨dp, k, isDir, later, same⟩
  omega

theorem Tree.names_of_free (tree : Tree state) (nonzero : inum ≠ 0)
    (free : (state.node inum).type = 0) : state.names inum = 0 := by
  by_contra named
  rcases (tree.names_pos nonzero).mp (Nat.pos_of_ne_zero named) with ⟨dp, k, isDir, later, same⟩
  have typed := tree.target dp k isDir later (by rw [same]; exact nonzero)
  rw [same] at typed
  exact typed free

/-- A directory is not named in itself. -/
theorem Tree.entry_ne_self (tree : Tree state) {k : Nat} (isDir : state.IsDir dp)
    (later : 2 ≤ k) : state.entry dp k ≠ dp := by
  intro same
  exact (tree.named dp k isDir later (by rw [same]; exact isDir)).2 same

theorem Tree.ne_zero (tree : Tree state) (typed : (state.node inum).type ≠ 0) :
    inum ≠ 0 := by
  rintro rfl
  exact typed tree.zero

/-- What is not a directory has no children. -/
theorem Tree.children_of_not_dir (tree : Tree state)
    (notDir : ¬state.IsDir inum) : state.children inum = 0 := by
  refine Finset.sum_eq_zero fun child _ => if_neg ?_
  rintro ⟨isDir, parent, positive⟩
  rcases (tree.names_pos (tree.ne_zero isDir.typed)).mp positive with ⟨dp, k, dpDir, later, same⟩
  have named := (tree.named dp k dpDir later (by rw [same]; exact isDir)).1
  rw [same, parent] at named
  exact notDir (named ▸ dpDir)

theorem State.names_setNode (inside : inum < state.nodes.length) (node : Node) (other : Nat) :
    (state.setNode inum node).names other + (state.node inum).names other =
      state.names other + node.names other := by
  have others : ∀ dp ∈ Finset.range state.nodes.length, dp ≠ inum →
      ((state.setNode inum node).node dp).names other = (state.node dp).names other := by
    intro dp _ different
    rw [node_setNode, if_neg fun both => different both.1]
  have change := sum_change (Finset.mem_range.mpr inside) others
  rw [node_setNode, if_pos ⟨rfl, inside⟩] at change
  rw [names, length_setNode]
  exact change

end

end Xv6.Dir
