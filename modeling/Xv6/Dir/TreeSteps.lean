import Xv6.Dir.Tree

/-! # Changes to the tree

The calls change the tree in four ways: an inode without links is freed, a new
inode is allocated, and a name is entered in a directory or removed from it.
-/

namespace Xv6.Dir

open Transition State
open Fs (T_DIR ROOTINO MAXFILE)

variable {inum other child : Nat}

section

variable {state : State}

/-! ## Freeing an inode -/

def State.free (state : State) (inum : Nat) : State :=
  state.edit inum fun node => { node with type := 0, data := [] }

theorem Tree.links_eq_zero (tree : Tree state) (typed : (state.node inum).type ≠ 0)
    (unlinked : (state.node inum).nlink = 0) :
    state.names inum = 0 ∧ state.children inum = 0 ∧ inum ≠ ROOTINO := by
  have covered := tree.counts inum typed
  rw [unlinked, show (0 : Int16).toInt = 0 from rfl, links] at covered
  refine ⟨by omega, by omega, ?_⟩
  intro isRoot
  rw [if_pos isRoot] at covered
  omega

/-- One inode has been changed. It had no name, and nothing gets a new one. -/
structure Replaced (state next : State) (inum : Nat) : Prop where
  length : next.nodes.length = state.nodes.length
  others : ∀ other, other ≠ inum → next.node other = state.node other
  nonzero : inum ≠ 0
  notRoot : inum ≠ ROOTINO
  unnamed : state.names inum = 0
  fewer : ∀ other, next.names other ≤ state.names other

section

variable {next : State} {dp : Nat}

namespace Replaced

variable (replaced : Replaced state next inum)
include replaced

theorem isDir (different : dp ≠ inum) : next.IsDir dp ↔ state.IsDir dp := by
  rw [State.IsDir, replaced.others dp different, State.IsDir]

theorem entry (different : dp ≠ inum) (k : Nat) : next.entry dp k = state.entry dp k := by
  rw [State.entry, replaced.others dp different, State.entry]

theorem isChild (after : next.IsChild dp child) : state.IsChild dp child := by
  have fewer := replaced.fewer child
  have different : child ≠ inum := by
    rintro rfl
    have unnamed := replaced.unnamed
    exact absurd after.2.2 (by omega)
  exact ⟨(replaced.isDir different).mp after.1, (replaced.entry different 1).symm.trans after.2.1,
    Nat.lt_of_lt_of_le after.2.2 fewer⟩

theorem children_le (other : Nat) : next.children other ≤ state.children other := by
  rw [children, children, replaced.length]
  refine Finset.sum_le_sum fun child _ => ?_
  by_cases after : next.IsChild other child
  · rw [if_pos after, if_pos (replaced.isChild after)]
  · rw [if_neg after]
    exact Nat.zero_le _

theorem children (tree : Tree state)
    (names : ∀ other, other ≠ 0 → next.names other = state.names other) (other : Nat) :
    next.children other = state.children other := by
  rw [State.children, State.children, replaced.length]
  refine Finset.sum_congr rfl fun child _ => if_congr ⟨replaced.isChild, ?_⟩ rfl rfl
  rintro ⟨isDir, parent, named⟩
  have different : child ≠ inum := by
    rintro rfl
    exact absurd replaced.unnamed named.ne'
  rw [← names child (tree.ne_zero isDir.typed)] at named
  exact ⟨(replaced.isDir different).mpr isDir, (replaced.entry different 1).trans parent, named⟩

end Replaced

/-- A directory in the place of the inode has no names in it. -/
theorem Tree.replace (tree : Tree state) (replaced : Replaced state next inum)
    (own : next.IsDir inum →
      Formed inum (next.node inum).data ∧ ∀ k, 2 ≤ k → next.entry inum k = 0)
    (covers : (next.node inum).type ≠ 0 →
      (state.links inum : Int) ≤ (next.node inum).nlink.toInt) : Tree next := by
  have others := replaced.others
  have notRoot := Ne.symm replaced.notRoot
  have target : ∀ dp k, state.IsDir dp → 2 ≤ k → state.entry dp k ≠ inum := fun dp k dpDir later =>
    tree.entry_ne_of_names replaced.nonzero replaced.unnamed dpDir later
  have formed : ∀ dp, next.IsDir dp → Formed dp (next.node dp).data := by
    intro dp dpDir
    by_cases same : dp = inum
    · rw [same] at dpDir ⊢
      exact (own dpDir).1
    · rw [others dp same]
      exact tree.formed ((replaced.isDir same).mp dpDir)
  constructor
  case zero => rw [others 0 (Ne.symm replaced.nonzero)]; exact tree.zero
  case size => exact replaced.length.trans_le tree.size
  case root => exact (replaced.isDir notRoot).mpr tree.root
  case rootParent => exact (replaced.entry notRoot _).trans tree.rootParent
  case rootUnnamed => exact Nat.le_zero.mp ((replaced.fewer _).trans_eq tree.rootUnnamed)
  case shaped => exact fun dp isDir => (formed dp isDir).shaped
  case self => exact fun dp isDir => (formed dp isDir).self
  case up => exact fun dp isDir => (formed dp isDir).up
  case distinct => exact fun dp j k isDir => (formed dp isDir).distinct j k
  case target =>
    intro dp k dpDir later used
    by_cases same : dp = inum
    · rw [same] at dpDir used
      exact absurd ((own dpDir).2 k later) used
    · have wasDir := (replaced.isDir same).mp dpDir
      rw [replaced.entry same] at used ⊢
      rw [others _ (target dp k wasDir later)]
      exact tree.target dp k wasDir later used
  case named =>
    intro dp k dpDir later childDir
    by_cases same : dp = inum
    · rw [same] at dpDir childDir
      rw [(own dpDir).2 k later, replaced.isDir (Ne.symm replaced.nonzero)] at childDir
      exact absurd tree.zero childDir.typed
    · have wasDir := (replaced.isDir same).mp dpDir
      have elsewhere := target dp k wasDir later
      rw [replaced.entry same] at childDir ⊢
      rw [parent, replaced.entry elsewhere]
      exact tree.named dp k wasDir later ((replaced.isDir elsewhere).mp childDir)
  case single =>
    intro dp dpDir
    have fewer := replaced.fewer dp
    by_cases same : dp = inum
    · have unnamed := replaced.unnamed
      rw [same] at fewer ⊢
      omega
    · exact fewer.trans (tree.single dp ((replaced.isDir same).mp dpDir))
  case counts =>
    intro other typed
    have fewerNames := replaced.fewer other
    have fewerChildren := replaced.children_le other
    have covered : (state.links other : Int) ≤ (next.node other).nlink.toInt := by
      by_cases same : other = inum
      · rw [same] at typed ⊢
        exact covers typed
      · rw [others other same] at typed ⊢
        exact tree.counts other typed
    rw [links] at covered ⊢
    omega

end

theorem State.names_free (inside : inum < state.nodes.length) (other : Nat) :
    (state.free inum).names other + (state.node inum).names other = state.names other :=
  names_setNode inside { state.node inum with type := 0, data := [] } other

theorem State.type_free (inside : inum < state.nodes.length) :
    ((state.free inum).node inum).type = 0 := by
  rw [free, node_edit_self inside]

theorem Tree.replaced_free (tree : Tree state) (typed : (state.node inum).type ≠ 0)
    (unlinked : (state.node inum).nlink = 0) : Replaced state (state.free inum) inum := by
  rcases tree.links_eq_zero typed unlinked with ⟨unnamed, _, notRoot⟩
  refine ⟨length_edit _ _, fun other different => node_edit_of_ne different _,
    tree.ne_zero typed, notRoot, unnamed, fun other => ?_⟩
  have change := names_free (lt_length_of_typed typed) other
  omega

theorem Tree.free (tree : Tree state) (typed : (state.node inum).type ≠ 0)
    (unlinked : (state.node inum).nlink = 0) : Tree (state.free inum) := by
  have free := type_free (lt_length_of_typed typed)
  exact tree.replace (tree.replaced_free typed unlinked) (fun isDir => absurd free isDir.typed)
    fun typed => absurd free typed

theorem State.reap_cases (state : State) (inum : Nat) :
    state.reap inum = state ∨ (state.node inum).nlink = 0 ∧ state.reap inum = state.free inum := by
  by_cases unused : (state.node inum).ref = 0 ∧ (state.node inum).nlink = 0
  · refine Or.inr ⟨unused.2, ?_⟩
    rw [reap, edit, if_pos unused]
    rfl
  · exact Or.inl (edit_eq_self (if_neg unused))

theorem Tree.reap (tree : Tree state) (typed : (state.node inum).type ≠ 0) :
    Tree (state.reap inum) := by
  rcases state.reap_cases inum with same | ⟨unlinked, same⟩
  · rw [same]
    exact tree
  · rw [same]
    exact tree.free typed unlinked

/-! ## Allocating an inode -/

def newDirectory (inum parent : Nat) : List UInt8 :=
  putEntry (putEntry [] 0 ⟨inum, strncpy dot DIRSIZ⟩) 1 ⟨parent, strncpy dotdot DIRSIZ⟩

theorem length_newDirectory (inum parent : Nat) :
    (newDirectory inum parent).length = 2 * DIRENTSIZE := by
  rw [newDirectory, length_putEntry, length_putEntry]
  rfl

theorem direntAt_newDirectory {parent : Nat} (fits : inum < 65536) (parentFits : parent < 65536)
    (k : Nat) : direntAt (newDirectory inum parent) k =
      if k = 0 then ⟨inum, strncpy dot DIRSIZ⟩
      else if k = 1 then ⟨parent, strncpy dotdot DIRSIZ⟩ else ⟨0, []⟩ := by
  have first : (Dirent.mk inum (strncpy dot DIRSIZ)).Fits := ⟨fits, strncpy_length _ _⟩
  have second : (Dirent.mk parent (strncpy dotdot DIRSIZ)).Fits :=
    ⟨parentFits, strncpy_length _ _⟩
  have aligned : DIRENTSIZE ∣ (putEntry [] 0 ⟨inum, strncpy dot DIRSIZ⟩).length :=
    aligned_putEntry (Nat.dvd_zero _)
  have bound : 1 ≤ slots (putEntry [] 0 ⟨inum, strncpy dot DIRSIZ⟩) := by
    rw [slots, length_putEntry]
    decide
  rw [newDirectory, direntAt_putEntry aligned bound second,
    direntAt_putEntry (Nat.dvd_zero _) (Nat.zero_le _) first]
  have nothing : direntAt [] k = ⟨0, []⟩ := by
    rw [direntAt, List.drop_nil, List.take_nil]
    rfl
  rw [nothing]
  split_ifs with isSecond isFirst
  · omega
  · rfl
  · rfl
  · rfl

theorem formed_newDirectory {parent : Nat} (fits : inum < 65536) (parentFits : parent < 65536)
    (nonzero : parent ≠ 0) : Formed inum (newDirectory inum parent) := by
  have dirent := direntAt_newDirectory fits parentFits
  refine ⟨⟨?_, ?_⟩, ?_, ?_, ?_⟩
  · rw [length_newDirectory]
    exact Nat.dvd_mul_left _ _
  · rw [length_newDirectory]
    decide
  · rw [entryAt, nameAt, dirent, if_pos rfl]
    exact ⟨rfl, by rw [namecmp_eq_zero, nameOf_strncpy]⟩
  · rw [entryAt, nameAt, dirent, if_neg (by decide), if_pos rfl]
    exact ⟨nonzero, by rw [namecmp_eq_zero, nameOf_strncpy]⟩
  · intro i j
    rw [entryAt, entryAt, nameAt, nameAt, dirent, dirent]
    have differ : ¬namecmp (strncpy dot DIRSIZ) (strncpy dotdot DIRSIZ) = 0 := by decide
    have differ' : ¬namecmp (strncpy dotdot DIRSIZ) (strncpy dot DIRSIZ) = 0 := by decide
    split_ifs <;> simp_all

theorem countNames_newDirectory (inum parent other : Nat) :
    countNames (newDirectory inum parent) other = 0 := by
  rw [countNames, Finset.card_eq_zero, Finset.filter_eq_empty_iff]
  intro k inside named
  rw [Finset.mem_range, slots, length_newDirectory] at inside
  have fewer : 2 * DIRENTSIZE / DIRENTSIZE = 2 := by decide
  omega

/-- An inode about to be allocated: it is free, and a new directory is empty. -/
structure Allocating (state : State) (inum : Nat) (node : Node) (parent : Nat) : Prop where
  inRange : state.InRange inum
  free : (state.node inum).type = 0
  parentDir : state.IsDir parent
  data : node.type = T_DIR → node.data = newDirectory inum parent

namespace Allocating

variable {inum parent : Nat} {node : Node}

theorem names (allocating : Allocating state inum node parent) (other : Nat) :
    (state.setNode inum node).names other = state.names other := by
  have change := names_setNode allocating.inRange.2 node other
  have before : (state.node inum).names other = 0 := by
    rw [Node.names, if_neg]
    rw [allocating.free]
    decide
  have after : node.names other = 0 := by
    rw [Node.names]
    split
    · rename_i isNewDir
      rw [allocating.data isNewDir, countNames_newDirectory]
    · rfl
  rw [before, after] at change
  exact change

theorem unnamed (allocating : Allocating state inum node parent) (tree : Tree state) :
    state.names inum = 0 :=
  tree.names_of_free (Nat.pos_iff_ne_zero.mp allocating.inRange.1) allocating.free

theorem replaced (allocating : Allocating state inum node parent) (tree : Tree state) :
    Replaced state (state.setNode inum node) inum where
  length := length_setNode _ _
  others := fun other different =>
    (node_setNode _ _ _).trans (if_neg fun both => different both.1)
  nonzero := Nat.pos_iff_ne_zero.mp allocating.inRange.1
  notRoot := by
    rintro rfl
    exact tree.root.typed allocating.free
  unnamed := allocating.unnamed tree
  fewer := fun other => (allocating.names other).le

theorem own (allocating : Allocating state inum node parent) :
    (state.setNode inum node).node inum = node :=
  (node_setNode _ _ _).trans (if_pos ⟨rfl, allocating.inRange.2⟩)

theorem dirent (allocating : Allocating state inum node parent) (tree : Tree state)
    (isDir : (state.setNode inum node).IsDir inum) :
    Formed inum ((state.setNode inum node).node inum).data ∧
      ∀ k, 2 ≤ k → (state.setNode inum node).entry inum k = 0 := by
  have fits : inum < 65536 := allocating.inRange.2.trans_le tree.size
  have parentFits := (lt_length_of_typed allocating.parentDir.typed).trans_le tree.size
  rw [State.IsDir, allocating.own] at isDir
  simp only [entry, allocating.own, allocating.data isDir]
  refine ⟨formed_newDirectory fits parentFits (tree.ne_zero allocating.parentDir.typed), ?_⟩
  intro k later
  rw [entryAt, direntAt_newDirectory fits parentFits, if_neg (by omega), if_neg (by omega)]

theorem links_own (allocating : Allocating state inum node parent) (tree : Tree state) :
    state.links inum = 0 := by
  have childless := tree.children_of_not_dir
    fun isDir : state.IsDir inum => isDir.typed allocating.free
  rw [links, allocating.unnamed tree, childless, if_neg (allocating.replaced tree).notRoot]

end Allocating

theorem Tree.allocate (tree : Tree state) {parent : Nat} {node : Node}
    (allocating : Allocating state inum node parent) (nlink : node.nlink.toInt = 0) :
    Tree (state.setNode inum node) := by
  refine tree.replace (allocating.replaced tree) (allocating.dirent tree) fun _ => ?_
  rw [allocating.own, allocating.links_own tree, nlink]
  rfl

/-! ## Rewriting an entry -/

/-- One entry of a directory has been rewritten, and link counts may have
changed. -/
structure Rewritten (state next : State) (dp k : Nat) (de : Dirent) : Prop where
  length : next.nodes.length = state.nodes.length
  type : ∀ inum, (next.node inum).type = (state.node inum).type
  own : (next.node dp).data = putEntry (state.node dp).data k de
  data : ∀ inum, inum ≠ dp → (next.node inum).data = (state.node inum).data

/-- The entry is one of the names of a directory. -/
structure NameSlot (state : State) (dp k : Nat) (de : Dirent) : Prop where
  isDir : state.IsDir dp
  later : 2 ≤ k
  bound : k ≤ slots (state.node dp).data
  limit : DIRENTSIZE * k + DIRENTSIZE ≤ MAXFILE * BSIZE
  fits : de.Fits

section

variable {next : State} {dp k : Nat} {de : Dirent}

namespace Rewritten

variable (tree : Tree state) (slot : NameSlot state dp k de)
  (rewritten : Rewritten state next dp k de)

include rewritten

theorem isDir (inum : Nat) : next.IsDir inum ↔ state.IsDir inum := by
  rw [State.IsDir, State.IsDir, rewritten.type]

include tree slot

theorem dirent (other j : Nat) :
    direntAt (next.node other).data j =
      if other = dp ∧ j = k then de else direntAt (state.node other).data j := by
  by_cases same : other = dp
  · subst same
    rw [rewritten.own, direntAt_putEntry (tree.shaped other slot.isDir).aligned slot.bound slot.fits]
    simp only [true_and]
  · rw [rewritten.data other same, if_neg fun both => same both.1]

theorem entry (other j : Nat) :
    next.entry other j = if other = dp ∧ j = k then de.inum else state.entry other j := by
  rw [State.entry, entryAt, rewritten.dirent tree slot]
  split <;> rfl

theorem entry_of_lt {j : Nat} (before : j < 2) : next.entry other j = state.entry other j := by
  have later := slot.later
  rw [rewritten.entry tree slot, if_neg (by omega)]

theorem name_of_lt {j : Nat} (before : j < 2) :
    nameAt (next.node other).data j = nameAt (state.node other).data j := by
  have later := slot.later
  rw [nameAt, rewritten.dirent tree slot, if_neg (by omega), nameAt]

theorem shaped (isDir : state.IsDir other) : Shaped (next.node other).data := by
  have before := tree.shaped other isDir
  by_cases same : other = dp
  · subst same
    rw [rewritten.own]
    refine ⟨aligned_putEntry before.aligned, ?_⟩
    rw [length_putEntry]
    exact max_le before.bounded slot.limit
  · rw [rewritten.data other same]
    exact before

theorem names (nonzero : inum ≠ 0) :
    next.names inum + (if state.entry dp k = inum then 1 else 0) =
      state.names inum + if de.inum = inum then 1 else 0 := by
  have inside := lt_length_of_typed slot.isDir.typed
  have others : ∀ other ∈ Finset.range state.nodes.length, other ≠ dp →
      (next.node other).names inum = (state.node other).names inum := by
    intro other _ different
    rw [Node.names, rewritten.type, rewritten.data other different, Node.names]
  have change := sum_change (Finset.mem_range.mpr inside) others
  have own := countNames_putEntry (tree.shaped dp slot.isDir).aligned slot.bound slot.fits nonzero
  have dirType : (state.node dp).type = T_DIR := slot.isDir
  simp only [Node.names, rewritten.type, rewritten.own, dirType, if_true] at change
  simp only [slot.later, true_and] at own
  simp only [State.names, Node.names, rewritten.length, rewritten.type]
  rw [State.entry]
  omega

end Rewritten

/-- The parts of the tree that do not depend on the entry that is rewritten. -/
theorem Tree.rewritten (tree : Tree state) (slot : NameSlot state dp k de)
    (rewritten : Rewritten state next dp k de)
    (rootUnnamed : next.names ROOTINO = 0)
    (target : de.inum ≠ 0 → (state.node de.inum).type ≠ 0)
    (named : state.IsDir de.inum → state.parent de.inum = dp ∧ de.inum ≠ dp)
    (single : ∀ other, state.IsDir other → next.names other ≤ 1)
    (distinct : de.inum ≠ 0 → ∀ j, state.entry dp j ≠ 0 →
      namecmp de.name (nameAt (state.node dp).data j) ≠ 0)
    (counts : ∀ inum, (state.node inum).type ≠ 0 →
      (next.links inum : Int) ≤ (next.node inum).nlink.toInt) : Tree next := by
  have isDir := rewritten.isDir
  have entry := rewritten.entry tree slot
  have early : ∀ other j, j < 2 → next.entry other j = state.entry other j :=
    fun other j before => rewritten.entry_of_lt tree slot before
  constructor
  case zero => rw [rewritten.type]; exact tree.zero
  case size => exact rewritten.length.trans_le tree.size
  case root => exact (isDir _).mpr tree.root
  case rootParent => exact (early _ 1 (by decide)).trans tree.rootParent
  case rootUnnamed => exact rootUnnamed
  case shaped =>
    intro other otherDir
    exact rewritten.shaped tree slot ((isDir other).mp otherDir)
  case self =>
    intro other otherDir
    rw [early _ 0 (by decide), rewritten.name_of_lt tree slot (by decide)]
    exact tree.self other ((isDir other).mp otherDir)
  case up =>
    intro other otherDir
    rw [parent, early _ 1 (by decide), rewritten.name_of_lt tree slot (by decide)]
    exact tree.up other ((isDir other).mp otherDir)
  case target =>
    intro other j otherDir later
    rw [entry, rewritten.type]
    split
    · exact target
    · exact tree.target other j ((isDir other).mp otherDir) later
  case named =>
    intro other j otherDir later
    rw [parent, early _ 1 (by decide), entry, isDir]
    split
    · rename_i own
      rw [own.1]
      exact named
    · exact tree.named other j ((isDir other).mp otherDir) later
  case single =>
    intro other otherDir
    exact single other ((isDir other).mp otherDir)
  case distinct =>
    intro other i j otherDir
    rw [entry, entry, nameAt, nameAt, rewritten.dirent tree slot, rewritten.dirent tree slot]
    have before := tree.distinct other i j ((isDir other).mp otherDir)
    by_cases first : other = dp ∧ i = k <;> by_cases second : other = dp ∧ j = k
    · intro _ _ _
      rw [first.2, second.2]
    · rw [if_pos first, if_neg second, if_pos first, if_neg second, first.1]
      exact fun used otherUsed same => absurd same (distinct used j otherUsed)
    · rw [if_neg first, if_pos second, if_neg first, if_pos second, second.1]
      intro otherUsed used same
      refine absurd ?_ (distinct used i otherUsed)
      rw [namecmp_eq_zero] at same ⊢
      exact same.symm
    · rw [if_neg first, if_neg second, if_neg first, if_neg second]
      exact before
  case counts =>
    intro inum typed
    rw [rewritten.type] at typed
    exact counts inum typed

/-! ## Entering and removing a name -/

/-- The link count of an inode changes, and so does that of a directory in which it is
counted as a directory. -/
def Relinked (state next : State) (inum dp : Nat) (change : Int) : Prop :=
  ∀ other, (next.node other).nlink.toInt = (state.node other).nlink.toInt +
    (if other = inum then change else 0) + if state.IsDir inum ∧ other = dp then change else 0

/-- Only the names of a directory can make it a child or not. -/
theorem Rewritten.isChild (tree : Tree state) (slot : NameSlot state dp k de)
    (rewritten : Rewritten state next dp k de) (other : Nat)
    (names : child ≠ 0 → next.names child = state.names child) :
    next.IsChild other child ↔ state.IsChild other child := by
  rw [State.IsChild, State.IsChild, rewritten.isDir, parent, parent,
    rewritten.entry_of_lt tree slot (by decide)]
  refine and_congr_right fun isDir => ?_
  rw [names (tree.ne_zero isDir.typed)]

/-- A name about to be entered in an empty slot. A directory that is entered has no
other name, and its parent entry is for this directory. -/
structure Entering (state next : State) (dp k : Nat) (name : List UInt8) (inum : Nat) :
    Prop where
  rewritten : Rewritten state next dp k ⟨inum, strncpy name DIRSIZ⟩
  slot : NameSlot state dp k ⟨inum, strncpy name DIRSIZ⟩
  empty : state.entry dp k = 0
  fresh : ∀ j, ¬Matches (state.node dp).data name j
  typed : (state.node inum).type ≠ 0
  different : inum ≠ dp
  notRoot : inum ≠ ROOTINO
  newDir : state.IsDir inum → state.names inum = 0 ∧ state.parent inum = dp

namespace Entering

variable {name : List UInt8} {inum : Nat} (entering : Entering state next dp k name inum)
  (tree : Tree state)

include entering tree

theorem names (nonzero : other ≠ 0) :
    next.names other = state.names other + if other = inum then 1 else 0 := by
  have change := entering.rewritten.names tree entering.slot nonzero
  rw [entering.empty, if_neg (Ne.symm nonzero)] at change
  simp only [eq_comm (a := inum)] at change
  exact change

theorem isChild_of_ne (other : Nat) (notNew : child ≠ inum) :
    next.IsChild other child ↔ state.IsChild other child := by
  refine entering.rewritten.isChild tree entering.slot other fun nonzero => ?_
  rw [entering.names tree nonzero, if_neg notNew, Nat.add_zero]

theorem isChild_self (other : Nat) :
    next.IsChild other inum ↔ state.IsDir inum ∧ other = dp := by
  rw [State.IsChild, entering.rewritten.isDir, parent,
    entering.rewritten.entry_of_lt tree entering.slot (by decide),
    entering.names tree (tree.ne_zero entering.typed), if_pos rfl]
  constructor
  · rintro ⟨isNewDir, parent, _⟩
    exact ⟨isNewDir, parent.symm.trans (entering.newDir isNewDir).2⟩
  · rintro ⟨isNewDir, rfl⟩
    exact ⟨isNewDir, (entering.newDir isNewDir).2, Nat.succ_pos _⟩

theorem children (other : Nat) : next.children other =
    state.children other + if state.IsDir inum ∧ other = dp then 1 else 0 := by
  have others : ∀ child ∈ Finset.range state.nodes.length, child ≠ inum →
      (if next.IsChild other child then 1 else 0) =
        if state.IsChild other child then 1 else 0 :=
    fun child _ notNew => if_congr (entering.isChild_of_ne tree other notNew) rfl rfl
  have change := sum_change (Finset.mem_range.mpr (lt_length_of_typed entering.typed)) others
  have before : ¬state.IsChild other inum := fun child => by
    have none := (entering.newDir child.1).1
    have some := child.2.2
    omega
  rw [if_neg before, if_congr (entering.isChild_self tree other) rfl rfl] at change
  rw [State.children, entering.rewritten.length]
  exact change

theorem links (nonzero : other ≠ 0) :
    next.links other = state.links other + (if other = inum then 1 else 0) +
      if state.IsDir inum ∧ other = dp then 1 else 0 := by
  rw [State.links, State.links, entering.names tree nonzero, entering.children tree]
  omega

end Entering

theorem Tree.enter (tree : Tree state) {name : List UInt8}
    (entering : Entering state next dp k name inum) (relinked : Relinked state next inum dp 1) :
    Tree next := by
  have newDir := entering.newDir
  refine tree.rewritten entering.slot entering.rewritten ?_ (fun _ => entering.typed)
    (fun isNewDir => ⟨(newDir isNewDir).2, entering.different⟩) ?_ ?_ ?_
  · rw [entering.names tree (by decide), if_neg (Ne.symm entering.notRoot), tree.rootUnnamed]
  · intro other otherDir
    rw [entering.names tree (tree.ne_zero otherDir.typed)]
    split
    · rename_i same
      subst same
      rw [(newDir otherDir).1]
    · exact tree.single other otherDir
  · intro _ j used same
    refine entering.fresh j ⟨used, ?_⟩
    rw [namecmp_eq_zero] at same ⊢
    rw [← same, nameOf_strncpy]
  · intro other otherTyped
    have covered := tree.counts other otherTyped
    rw [entering.links tree (tree.ne_zero otherTyped), relinked other]
    split_ifs <;> omega

/-- A name about to be removed. -/
structure Removing (state next : State) (dp k inum : Nat) (de : Dirent) : Prop where
  zero : de.inum = 0
  rewritten : Rewritten state next dp k de
  slot : NameSlot state dp k de
  used : state.entry dp k = inum
  nonzero : inum ≠ 0

namespace Removing

variable {inum : Nat} (removing : Removing state next dp k inum de) (tree : Tree state)

include removing tree

theorem typed : (state.node inum).type ≠ 0 := by
  have target := tree.target dp k removing.slot.isDir removing.slot.later
  rw [removing.used] at target
  exact target removing.nonzero

theorem names (nonzero : other ≠ 0) :
    next.names other + (if other = inum then 1 else 0) = state.names other := by
  have change := removing.rewritten.names tree removing.slot nonzero
  rw [removing.used, removing.zero, if_neg (Ne.symm nonzero)] at change
  simp only [eq_comm (a := inum)] at change
  exact change

theorem parent (isDir : state.IsDir inum) : state.parent inum = dp := by
  have named := tree.named dp k removing.slot.isDir removing.slot.later
  rw [removing.used] at named
  exact (named isDir).1

theorem isChild_of_ne (other : Nat) (notOld : child ≠ inum) :
    next.IsChild other child ↔ state.IsChild other child := by
  refine removing.rewritten.isChild tree removing.slot other fun nonzero => ?_
  rw [← removing.names tree nonzero, if_neg notOld, Nat.add_zero]

theorem children (other : Nat) : next.children other +
    (if state.IsDir inum ∧ other = dp then 1 else 0) = state.children other := by
  have own := removing.names tree removing.nonzero
  rw [if_pos rfl] at own
  have others : ∀ child ∈ Finset.range state.nodes.length, child ≠ inum →
      (if next.IsChild other child then 1 else 0) =
        if state.IsChild other child then 1 else 0 :=
    fun child _ notOld => if_congr (removing.isChild_of_ne tree other notOld) rfl rfl
  have inside := lt_length_of_typed (removing.typed tree)
  have change := sum_change (Finset.mem_range.mpr inside) others
  have after : ¬next.IsChild other inum := fun child => by
    have single := tree.single inum ((removing.rewritten.isDir inum).mp child.1)
    have some := child.2.2
    omega
  have before : state.IsChild other inum ↔ state.IsDir inum ∧ other = dp := by
    rw [State.IsChild]
    constructor
    · rintro ⟨isDir, parent, _⟩
      exact ⟨isDir, parent.symm.trans (removing.parent tree isDir)⟩
    · rintro ⟨isDir, rfl⟩
      exact ⟨isDir, removing.parent tree isDir, by omega⟩
  rw [if_neg after, if_congr before rfl rfl, Nat.add_zero] at change
  rw [State.children, removing.rewritten.length]
  exact change

theorem links (nonzero : other ≠ 0) :
    next.links other + (if other = inum then 1 else 0) +
      (if state.IsDir inum ∧ other = dp then 1 else 0) = state.links other := by
  have names := removing.names tree nonzero
  have children := removing.children tree other
  rw [State.links, State.links]
  omega

end Removing

theorem Tree.remove (tree : Tree state) (removing : Removing state next dp k inum de)
    (relinked : Relinked state next inum dp (-1)) : Tree next := by
  have zero := removing.zero
  refine tree.rewritten removing.slot removing.rewritten ?_
    (fun impossible => absurd zero impossible) (fun isDir => absurd (zero ▸ tree.zero) isDir.typed)
    ?_ (fun impossible => absurd zero impossible) ?_
  · have before := removing.names tree (show ROOTINO ≠ 0 by decide)
    rw [tree.rootUnnamed] at before
    omega
  · intro other otherDir
    have before := removing.names tree (tree.ne_zero otherDir.typed)
    have single := tree.single other otherDir
    omega
  · intro other otherTyped
    have covered := tree.counts other otherTyped
    have fewer := removing.links tree (tree.ne_zero otherTyped)
    rw [relinked other]
    split_ifs at fewer ⊢ <;> omega

end

end

end Xv6.Dir
