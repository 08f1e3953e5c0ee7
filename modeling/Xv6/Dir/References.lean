import Xv6.Dir.Effects

/-! # References to inodes

An inode is kept in the cache by the open files and the current directories that
refer to it, and by the call in progress. The changes that a call makes to open
files and current directories are broken up into moves, each of which keeps the
reference counts right.
-/

namespace Xv6.Dir

open Fs (T_DIR)
open State

variable {before after : State × List Nat}

/-! ## Counting references -/

def File.refersTo (file : File) (inum : Nat) : Bool := file.kind = .inode ∧ file.ip = inum

/-- Whether a process, if there is one, has the inode as its current directory. -/
def isCwd (proc : Option Proc) (inum : Nat) : Bool := proc.map Proc.cwd = some inum

def cwds (proc : Option Proc) : List Nat := (proc.map Proc.cwd).toList

theorem count_cwds (proc : Option Proc) (inum : Nat) :
    (cwds proc).count inum = if isCwd proc inum then 1 else 0 := by
  cases proc with
  | none => rfl
  | some proc => simp [cwds, isCwd, List.count_singleton]

namespace Tables

variable {tables : Tables} {f p : Nat} {inum : Nat}

def refs (tables : Tables) (inum : Nat) : Nat :=
  tables.ftable.countP (File.refersTo · inum) + tables.procs.countP (isCwd · inum)

theorem countP_set_add {Element : Type} {counted : Element → Bool} {elements : List Element}
    {index : Nat} (inside : index < elements.length) (element : Element) :
    (elements.set index element).countP counted +
        (if counted (elements.get ⟨index, inside⟩) then 1 else 0) =
      elements.countP counted + if counted element then 1 else 0 := by
  rw [List.countP_set inside]
  have atLeast : (if counted (elements.get ⟨index, inside⟩) then 1 else 0) ≤
      elements.countP counted := by
    split
    · rename_i isCounted
      exact List.countP_pos_iff.mpr ⟨_, List.get_mem _ _, isCounted⟩
    · exact Nat.zero_le _
  simp only [List.get_eq_getElem] at *
  omega

theorem refs_setFile (inside : f < tables.ftable.length) (file : File) (inum : Nat) :
    (tables.setFile f file).refs inum + (if (tables.file f).refersTo inum then 1 else 0) =
      tables.refs inum + if file.refersTo inum then 1 else 0 := by
  have change := @countP_set_add File (File.refersTo · inum) tables.ftable f inside file
  have current : tables.file f = tables.ftable.get ⟨f, inside⟩ :=
    List.getD_eq_getElem _ _ inside
  rw [refs, refs, current]
  simp only [setFile]
  omega

theorem refs_setProc (inside : p < tables.procs.length) (proc : Option Proc) (inum : Nat) :
    (tables.setProc p proc).refs inum + (cwds (tables.proc p)).count inum =
      tables.refs inum + (cwds proc).count inum := by
  have change := @countP_set_add (Option Proc) (isCwd · inum) tables.procs p inside proc
  have current : tables.proc p = tables.procs.get ⟨p, inside⟩ :=
    List.getD_eq_getElem _ _ inside
  rw [refs, refs, current, count_cwds, count_cwds]
  simp only [setProc]
  omega

/-- A file that is not open refers to no inode. -/
def Idle (tables : Tables) : Prop := ∀ file ∈ tables.ftable, file.ref = 0 → file.kind = .none

theorem file_mem (inside : f < tables.ftable.length) : tables.file f ∈ tables.ftable := by
  rw [file, List.getD_eq_getElem _ _ inside]
  exact List.getElem_mem inside

theorem lt_of_file_ref (used : 0 < (tables.file f).ref) : f < tables.ftable.length := by
  by_contra outside
  rw [file, List.getD_eq_default _ _ (Nat.le_of_not_lt outside)] at used
  exact Nat.lt_irrefl 0 used

theorem lt_of_proc {proc : Proc} (found : tables.proc p = some proc) : p < tables.procs.length := by
  by_contra outside
  rw [Tables.proc, List.getD_eq_default _ _ (Nat.le_of_not_lt outside)] at found
  cases found

theorem file_refs_pos (inside : f < tables.ftable.length) (isInode : (tables.file f).kind = .inode) :
    0 < tables.refs (tables.file f).ip := by
  have counted : 0 < tables.ftable.countP (File.refersTo · (tables.file f).ip) :=
    List.countP_pos_iff.mpr ⟨_, file_mem inside, by simp [File.refersTo, isInode]⟩
  rw [refs]
  omega

theorem cwd_refs_pos {proc : Proc} (found : tables.proc p = some proc) :
    0 < tables.refs proc.cwd := by
  have member : some proc ∈ tables.procs := by
    rw [← found, Tables.proc, List.getD_eq_getElem _ _ (lt_of_proc found)]
    exact List.getElem_mem _
  have counted : 0 < tables.procs.countP (isCwd · proc.cwd) :=
    List.countP_pos_iff.mpr ⟨_, member, by simp [isCwd]⟩
  rw [refs]
  omega

end Tables

/-- The file system between two steps of a call that holds the pending
references. Between calls nothing is pending. -/
structure Proper (state : State) (pending : List Nat) : Prop where
  tree : Tree state
  settled : state.Settled
  refs : ∀ inum, (state.node inum).ref = state.tables.refs inum + pending.count inum
  idle : state.tables.Idle
  writable : ∀ file ∈ state.tables.ftable, file.kind = .inode → file.writable = true →
    ¬state.IsDir file.ip

/-! ## Moves -/

/-- Give up a reference to a valid inode; the last one frees an inode that has no
links. -/
def Node.release (node : Node) : Node :=
  if node.ref = 1 ∧ node.nlink = 0 then
    { node with type := 0, data := [], ref := 0, valid := false }
  else
    { node with ref := node.ref - 1, valid := node.valid && 1 < node.ref }

inductive Move : State × List Nat → State × List Nat → Prop
  | tables {state : State} {pending left : List Nat} {tables : Tables}
      (refs : ∀ inum, tables.refs inum + left.count inum =
        state.tables.refs inum + pending.count inum)
      (idle : tables.Idle)
      (writable : ∀ file ∈ tables.ftable, file.kind = .inode → file.writable = true →
        ¬state.IsDir file.ip ∨ ∃ before ∈ state.tables.ftable,
          before.kind = .inode ∧ before.writable = true ∧ before.ip = file.ip) :
      Move (state, pending) ({ state with tables := tables }, left)
  | hold {state : State} {pending : List Nat} {ip : Nat} (typed : (state.node ip).type ≠ 0) :
      Move (state, pending) (state.hold ip true, ip :: pending)
  | release {state : State} {pending : List Nat} {ip : Nat} :
      Move (state, ip :: pending) (state.edit ip Node.release, pending)
  | write {state : State} {pending : List Nat} {ip : Nat} {data : List UInt8}
      (notDir : ¬state.IsDir ip) :
      Move (state, pending) (state.edit ip fun node => { node with data := data }, pending)

abbrev Moves := Relation.ReflTransGen Move

/-! ### Changing one inode -/

section

variable {state : State} {inum : Nat}

theorem State.node_edit (state : State) (inum : Nat) (change : Node → Node) (other : Nat) :
    (state.edit inum change).node other = state.node other ∨
      other = inum ∧ (state.edit inum change).node other = change (state.node inum) := by
  rw [edit, node_setNode]
  split
  · rename_i same
    exact Or.inr ⟨same.1, rfl⟩
  · exact Or.inl rfl

theorem SameTree.edit (state : State) (inum : Nat) {change : Node → Node}
    (type : (change (state.node inum)).type = (state.node inum).type)
    (nlink : (change (state.node inum)).nlink = (state.node inum).nlink)
    (data : state.IsDir inum → (change (state.node inum)).data = (state.node inum).data) :
    SameTree state (state.edit inum change) := by
  refine ⟨length_edit _ _, ?_, ?_, ?_⟩
  · intro other
    rcases state.node_edit inum change other with same | ⟨rfl, same⟩
    · rw [same]
    · rw [same, type]
  · intro other
    rcases state.node_edit inum change other with same | ⟨rfl, same⟩
    · rw [same]
    · rw [same, nlink]
  · intro other isDir
    rcases state.node_edit inum change other with same | ⟨rfl, same⟩
    · rw [same]
    · rw [same, data isDir]

theorem Node.Settled.release {node : Node} (settled : node.Settled) (used : 0 < node.ref) :
    node.release.Settled := by
  rw [Node.release]
  split
  · exact ⟨rfl, fun stillUsed => absurd rfl stillUsed, fun typed => absurd rfl typed⟩
  · rename_i kept
    have valid : node.valid = true := by
      rw [settled.valid]
      exact decide_eq_true (Nat.pos_iff_ne_zero.mp used)
    refine ⟨?_, fun _ => settled.typed (Nat.pos_iff_ne_zero.mp used), ?_⟩
    · simp only [valid, Bool.true_and, decide_eq_decide]
      omega
    · intro _ unlinked unused
      refine kept ⟨?_, unlinked⟩
      simp only at unused
      omega

/-- Giving up a reference frees an inode that has no links, or leaves the tree
alone. -/
theorem State.release_cases (state : State) (inum : Nat) :
    (state.node inum).nlink = 0 ∧ SameTree (state.free inum) (state.edit inum Node.release) ∨
      SameTree state (state.edit inum Node.release) := by
  by_cases last : (state.node inum).ref = 1 ∧ (state.node inum).nlink = 0
  · have same : state.edit inum Node.release = (state.free inum).edit inum fun node =>
        { node with ref := 0, valid := false } := by
      rw [free, edit_edit, edit, Node.release, if_pos last]
      rfl
    rw [same]
    exact Or.inl ⟨last.2, SameTree.edit (state.free inum) inum rfl rfl fun _ => rfl⟩
  · have kept : (state.node inum).release = { state.node inum with
        ref := (state.node inum).ref - 1
        valid := (state.node inum).valid && 1 < (state.node inum).ref } := if_neg last
    refine Or.inr (SameTree.edit state inum ?_ ?_ fun _ => ?_)
    all_goals rw [kept]

theorem Tree.release (tree : Tree state) (typed : (state.node inum).type ≠ 0) :
    Tree (state.edit inum Node.release) := by
  rcases state.release_cases inum with ⟨unlinked, same⟩ | same
  · exact same.tree (tree.free typed unlinked)
  · exact same.tree tree

theorem State.Settled.edit (settled : state.Settled) {change : Node → Node}
    (own : (change (state.node inum)).Settled) : (state.edit inum change).Settled := by
  intro other
  rcases state.node_edit inum change other with same | ⟨rfl, same⟩
  · rw [same]
    exact settled other
  · rw [same]
    exact own

end

theorem Move.tree_cases (move : Move before after) :
    SameTree before.1 after.1 ∨ ∃ ip ∈ before.2, (before.1.node ip).nlink = 0 ∧
      SameTree (before.1.free ip) after.1 := by
  cases move with
  | tables => exact Or.inl ⟨rfl, fun _ => rfl, fun _ => rfl, fun _ _ => rfl⟩
  | @hold state pending ip _ => exact Or.inl (SameTree.hold state ip true)
  | @release state pending ip =>
    rcases state.release_cases ip with ⟨unlinked, same⟩ | same
    · exact Or.inr ⟨ip, List.mem_cons_self, unlinked, same⟩
    · exact Or.inl same
  | @write state pending ip data notDir =>
    exact Or.inl (@SameTree.edit state ip (fun node => { node with data := data }) rfl rfl
      fun isDir => absurd isDir notDir)

/-! ### Moves keep the file system proper -/

namespace Proper

variable {state : State} {pending : List Nat} {ip : Nat}

theorem used_of_pending (proper : Proper state (ip :: pending)) : 0 < (state.node ip).ref := by
  rw [proper.refs, List.count_cons_self]
  omega

theorem typed_of_used (proper : Proper state pending) (used : 0 < (state.node ip).ref) :
    (state.node ip).type ≠ 0 :=
  (proper.settled ip).typed (Nat.pos_iff_ne_zero.mp used)

theorem hold (proper : Proper state pending) (typed : (state.node ip).type ≠ 0) :
    Proper (state.hold ip true) (ip :: pending) where
  tree := (SameTree.hold state ip true).tree proper.tree
  settled := proper.settled.hold typed
  refs := by
    intro inum
    by_cases same : inum = ip
    · subst same
      rw [hold, node_edit_self (lt_length_of_typed typed), tables_edit,
        List.count_cons_self, proper.refs]
      rfl
    · rw [State.hold, State.node_edit_of_ne same, State.tables_edit,
        List.count_cons_of_ne (Ne.symm same), proper.refs]
  idle := proper.idle
  writable := by
    intro file member isInode writable isDir
    refine proper.writable file member isInode writable ?_
    exact ((SameTree.hold state ip true).isDir file.ip).mp isDir

theorem release (proper : Proper state (ip :: pending)) :
    Proper (state.edit ip Node.release) pending := by
  have used := proper.used_of_pending
  have typed := proper.typed_of_used used
  have ref : (state.node ip).release.ref = (state.node ip).ref - 1 := by
    rw [Node.release]
    split
    · rename_i last
      rw [last.1]
    · rfl
  have type : (state.node ip).release.type = T_DIR → (state.node ip).type = T_DIR := by
    rw [Node.release]
    split
    · intro impossible
      exact absurd impossible (show (0 : Int16) ≠ T_DIR by decide)
    · exact id
  refine ⟨proper.tree.release typed, proper.settled.edit ((proper.settled ip).release used), ?_,
    proper.idle, ?_⟩
  · intro inum
    by_cases same : inum = ip
    · subst same
      rw [node_edit_self (lt_length_of_typed typed), ref, proper.refs,
        List.count_cons_self]
      rfl
    · rw [node_edit_of_ne same, proper.refs, List.count_cons_of_ne (Ne.symm same)]
      rfl
  · intro file member isInode writable isDir
    refine proper.writable file member isInode writable ?_
    rcases state.node_edit ip Node.release file.ip with same | ⟨isIp, same⟩
    · rw [State.IsDir, same] at isDir
      exact isDir
    · rw [State.IsDir, same] at isDir
      rw [isIp]
      exact type isDir

theorem write (proper : Proper state pending) {data : List UInt8} (notDir : ¬state.IsDir ip) :
    Proper (state.edit ip fun node => { node with data := data }) pending := by
  have same : SameTree state (state.edit ip fun node => { node with data := data }) :=
    SameTree.edit state ip rfl rfl fun isDir => absurd isDir notDir
  refine ⟨same.tree proper.tree, proper.settled.edit ?_, ?_, proper.idle, ?_⟩
  · exact ⟨(proper.settled ip).valid, (proper.settled ip).typed, (proper.settled ip).linked⟩
  · intro inum
    rw [tables_edit, ← proper.refs]
    rcases state.node_edit ip (fun node => { node with data := data }) inum with same | ⟨rfl, same⟩
    · rw [same]
    · rw [same]
  · intro file member isInode writable isDir
    exact proper.writable file member isInode writable ((same.isDir file.ip).mp isDir)

theorem move (proper : Proper before.1 before.2)
    (move : Move before after) : Proper after.1 after.2 := by
  cases move with
  | @tables state pending left tables refs idle writable =>
    have same : SameTree state { state with tables := tables } :=
      ⟨rfl, fun _ => rfl, fun _ => rfl, fun _ _ => rfl⟩
    refine ⟨same.tree proper.tree, proper.settled, ?_, idle, ?_⟩
    · intro inum
      rw [refs]
      exact proper.refs inum
    · intro file member isInode isWritable
      rcases writable file member isInode isWritable with notDir |
        ⟨before, beforeMember, beforeInode, beforeWritable, sameIp⟩
      · exact notDir
      · rw [← sameIp]
        exact proper.writable before beforeMember beforeInode beforeWritable
  | hold typed => exact proper.hold typed
  | release => exact proper.release
  | write notDir => exact proper.write notDir

theorem moves (proper : Proper before.1 before.2)
    (moves : Moves before after) : Proper after.1 after.2 := by
  induction moves with
  | refl => exact proper
  | tail _ last induction => exact induction.move last

end Proper

end Xv6.Dir
