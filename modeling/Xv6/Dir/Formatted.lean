import Xv6.Dir.References

/-! # A new file system

The file system that `mkfs` makes, without the user programs, as it is when
`userinit` has given the first process the root as its current directory.
-/

namespace Xv6.Dir

open Fs (T_DIR ROOTINO)

def rootNode : Node where
  type := T_DIR
  major := 0
  minor := 0
  nlink := 1
  data := newDirectory ROOTINO ROOTINO
  ref := 1
  valid := true

def formatted (inodes files descriptors : Nat) : State where
  nodes := Node.blank :: rootNode :: List.replicate inodes Node.blank
  tables := {
    ftable := List.replicate files ⟨.none, 0, false, false, 0, 0⟩
    procs := [some ⟨List.replicate descriptors none, ROOTINO⟩]
    initproc := 0 }

section

variable {inodes files descriptors : Nat}

theorem node_formatted (inum : Nat) :
    (formatted inodes files descriptors).node inum =
      if inum = ROOTINO then rootNode else Node.blank := by
  match inum with
  | 0 => rfl
  | 1 => rfl
  | inum + 2 =>
    have later : inum + 2 ≠ ROOTINO := by
      simp only [ROOTINO]
      omega
    rw [if_neg later, State.node]
    simp only [formatted, List.getD_cons_succ]
    rw [List.getD_eq_getElem?_getD, List.getElem?_replicate]
    split <;> rfl

theorem isDir_formatted {inum : Nat} :
    (formatted inodes files descriptors).IsDir inum ↔ inum = ROOTINO := by
  rw [State.IsDir, node_formatted]
  split
  · rename_i same
    exact ⟨fun _ => same, fun _ => rfl⟩
  · rename_i different
    exact ⟨fun isDir => absurd isDir (by decide), fun same => absurd same different⟩

theorem dirent_formatted (k : Nat) :
    direntAt ((formatted inodes files descriptors).node ROOTINO).data k =
      if k = 0 then ⟨ROOTINO, strncpy dot DIRSIZ⟩
      else if k = 1 then ⟨ROOTINO, strncpy dotdot DIRSIZ⟩ else ⟨0, []⟩ := by
  rw [node_formatted, if_pos rfl]
  exact direntAt_newDirectory (by decide) (by decide) k

theorem names_formatted (inum : Nat) : (formatted inodes files descriptors).names inum = 0 := by
  refine Finset.sum_eq_zero fun dp _ => ?_
  rw [Node.names]
  split
  · rename_i isDir
    rw [isDir_formatted.mp isDir, node_formatted, if_pos rfl]
    exact countNames_newDirectory _ _ _
  · rfl

theorem links_formatted (inum : Nat) :
    (formatted inodes files descriptors).links inum = if inum = ROOTINO then 1 else 0 := by
  have children : (formatted inodes files descriptors).children inum = 0 := by
    refine Finset.sum_eq_zero fun child _ => if_neg ?_
    rintro ⟨_, _, named⟩
    rw [names_formatted] at named
    exact Nat.lt_irrefl 0 named
  rw [State.links, names_formatted, children, Nat.zero_add]

theorem tree_formatted (fits : inodes + 2 ≤ 65536) :
    Tree (formatted inodes files descriptors) := by
  have formed : ∀ dp, (formatted inodes files descriptors).IsDir dp →
      Formed dp ((formatted inodes files descriptors).node dp).data := by
    intro dp isDir
    rw [isDir_formatted.mp isDir, node_formatted, if_pos rfl]
    exact formed_newDirectory (by decide) (by decide) (by decide)
  have empty : ∀ dp k, (formatted inodes files descriptors).IsDir dp → 2 ≤ k →
      (formatted inodes files descriptors).entry dp k = 0 := by
    intro dp k isDir later
    rw [isDir_formatted.mp isDir, State.entry, entryAt, dirent_formatted, if_neg (by omega),
      if_neg (by omega)]
  constructor
  case zero => rfl
  case size =>
    simp only [formatted, List.length_cons, List.length_replicate]
    omega
  case root => exact isDir_formatted.mpr rfl
  case rootParent =>
    rw [State.parent, State.entry, entryAt, dirent_formatted]
    rfl
  case rootUnnamed => exact names_formatted _
  case shaped => exact fun dp isDir => (formed dp isDir).shaped
  case self => exact fun dp isDir => (formed dp isDir).self
  case up => exact fun dp isDir => (formed dp isDir).up
  case distinct => exact fun dp j k isDir => (formed dp isDir).distinct j k
  case target => exact fun dp k isDir later used => absurd (empty dp k isDir later) used
  case named =>
    intro dp k isDir later
    rw [empty dp k isDir later]
    intro impossible
    exact absurd (isDir_formatted.mp impossible) (by decide)
  case single =>
    intro dp _
    rw [names_formatted]
    exact Nat.zero_le 1
  case counts =>
    intro inum typed
    rw [links_formatted, node_formatted]
    split
    · decide
    · decide

theorem refs_formatted (inum : Nat) : ((formatted inodes files descriptors).node inum).ref =
    (formatted inodes files descriptors).tables.refs inum := by
  have noFile : (List.replicate files (⟨.none, 0, false, false, 0, 0⟩ : File)).countP
      (File.refersTo · inum) = 0 := by
    rw [List.countP_eq_zero]
    intro file member
    rw [List.eq_of_mem_replicate member]
    simp [File.refersTo]
  rw [node_formatted, Tables.refs]
  simp only [formatted, noFile, Nat.zero_add, List.countP_cons, List.countP_nil, isCwd,
    Option.map_some, Option.some.injEq, decide_eq_true_eq]
  by_cases isRoot : inum = ROOTINO
  · rw [if_pos isRoot, if_pos isRoot.symm]
    rfl
  · rw [if_neg isRoot, if_neg (Ne.symm isRoot)]
    rfl

/-- A new file system is as every call expects it. -/
theorem proper_formatted (fits : inodes + 2 ≤ 65536) :
    Proper (formatted inodes files descriptors) [] where
  tree := tree_formatted fits
  settled := by
    intro inum
    rw [node_formatted]
    split
    · exact ⟨rfl, fun _ => by decide, fun _ impossible => absurd impossible (by decide)⟩
    · exact Node.settled_blank
  refs := refs_formatted
  idle := by
    intro file member _
    rw [List.eq_of_mem_replicate member]
  writable := by
    intro file member isInode
    rw [List.eq_of_mem_replicate member] at isInode
    cases isInode

end

end Xv6.Dir
