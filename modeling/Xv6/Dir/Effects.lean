import Xv6.Dir.Held
import Xv6.Dir.TreeSteps

/-! # The effects of system calls

What a call to `link`, `unlink` or `create` makes of the file system, once the
references it takes on the way are given up again.
-/

namespace Xv6.Dir

open Program Interaction State Machine
open Fs (Device T_DIR MAXFILE)

variable {inum k ip p dp : Nat} {type major minor : Int16} {post : Int → State → Prop} {proc : Proc}
  {name : List UInt8}

/-! ## Changes of the file system -/

namespace State

def linked (state : State) (ip dp k : Nat) (name : List UInt8) : State :=
  (state.edit ip fun node => { node with nlink := node.nlink + 1 }).edit dp fun node =>
    { node with data := putEntry node.data k ⟨ip, strncpy name DIRSIZ⟩ }

/-- A name removed, and the counts it adds to. -/
def unlinked (state : State) (ip dp k : Nat) : State :=
  (state.edit dp fun node => { node with
    data := putEntry node.data k ⟨0, List.replicate DIRSIZ 0⟩
    nlink := if (state.node ip).type = T_DIR then node.nlink - 1 else node.nlink }).edit ip
      fun node => { node with nlink := node.nlink - 1 }

/-- The inode that `create` makes. -/
def newNode (state : State) (ip : Nat) (type major minor : Int16) (dp : Nat) : Node where
  type := type
  major := major
  minor := minor
  nlink := 1
  data := if type = T_DIR then newDirectory ip dp else []
  ref := (state.node ip).ref
  valid := (state.node ip).valid

def created (state : State) (ip : Nat) (type major minor : Int16) (dp k : Nat)
    (name : List UInt8) : State :=
  (state.setNode ip (state.newNode ip type major minor dp)).edit dp fun node => { node with
    data := putEntry node.data k ⟨ip, strncpy name DIRSIZ⟩
    nlink := if type = T_DIR then node.nlink + 1 else node.nlink }

end State

/-- An inode and a directory have changed, and no other inode. -/
structure Paired (state next : State) (ip dp : Nat) (own parent : Node) : Prop where
  length : next.nodes.length = state.nodes.length
  own : next.node ip = own
  parent : next.node dp = parent
  others : ∀ inum, inum ≠ ip → inum ≠ dp → next.node inum = state.node inum

section

variable {state next : State} {ip dp : Nat} {own parent : Node}

theorem paired_edits (different : ip ≠ dp) (ipInside : ip < state.nodes.length)
    (dpInside : dp < state.nodes.length) (f g : Node → Node) :
    Paired state ((state.edit ip f).edit dp g) ip dp (f (state.node ip)) (g (state.node dp)) where
  length := by rw [length_edit, length_edit]
  own := by rw [node_edit_of_ne different, node_edit_self ipInside]
  parent := by
    rw [node_edit_self (by rwa [length_edit]), node_edit_of_ne (Ne.symm different)]
  others := by
    intro inum notIp notDp
    rw [node_edit_of_ne notDp, node_edit_of_ne notIp]

section

variable (paired : Paired state next ip dp own parent)
include paired

theorem Paired.cases {motive : Nat → Node → Prop} (atOwn : motive ip own)
    (atParent : motive dp parent)
    (elsewhere : ∀ inum, inum ≠ ip → inum ≠ dp → motive inum (state.node inum)) (inum : Nat) :
    motive inum (next.node inum) := by
  by_cases isIp : inum = ip
  · subst isIp
    rwa [paired.own]
  · by_cases isDp : inum = dp
    · subst isDp
      rwa [paired.parent]
    · rw [paired.others inum isIp isDp]
      exact elsewhere inum isIp isDp

theorem Paired.inRange (inRange : state.InRange inum) : next.InRange inum := by
  rw [State.InRange, paired.length]
  exact inRange

/-- The directory has an entry rewritten; of the inode only the link count changes. -/
theorem Paired.rewritten {de : Dirent} (type : own.type = (state.node ip).type)
    (data : own.data = (state.node ip).data) (parentType : parent.type = (state.node dp).type)
    (parentData : parent.data = putEntry (state.node dp).data k de) :
    Rewritten state next dp k de where
  length := paired.length
  type := paired.cases (motive := fun inum node => node.type = (state.node inum).type) type
    parentType fun _ _ _ => rfl
  own := by rw [paired.parent, parentData]
  data := paired.cases (motive := fun inum node => inum ≠ dp → node.data = (state.node inum).data)
    (fun _ => data) (fun wrong => absurd rfl wrong) fun _ _ _ _ => rfl

theorem Paired.relinked {change : Int} (different : ip ≠ dp)
    (count : own.nlink.toInt = (state.node ip).nlink.toInt + change)
    (parentCount : parent.nlink.toInt = (state.node dp).nlink.toInt +
      if state.IsDir ip then change else 0) : Relinked state next ip dp change := by
  refine paired.cases (motive := fun other node => node.nlink.toInt =
    (state.node other).nlink.toInt + (if other = ip then change else 0) +
      if state.IsDir ip ∧ other = dp then change else 0) ?_ ?_ fun inum notIp notDp => ?_
  · simp [count, different]
  · simp [parentCount, different.symm]
  · simp [notIp, notDp]

end

theorem State.IsDir.ne (isDir : state.IsDir dp) (notDir : ¬state.IsDir ip) : ip ≠ dp := by
  rintro rfl
  exact notDir isDir

end

/-- A slot of a directory for a name that is not in it. -/
structure FreeSlot (state : State) (dp k : Nat) (name : List UInt8) : Prop where
  isDir : state.IsDir dp
  fresh : ∀ j, ¬Matches (state.node dp).data name j
  bound : k ≤ slots (state.node dp).data
  empty : state.entry dp k = 0
  limit : DIRENTSIZE * k + DIRENTSIZE ≤ MAXFILE * BSIZE

inductive Effect (state : State) : State → Prop
  | none : Effect state state
  | link {ip dp k : Nat} {name : List UInt8} (typed : (state.node ip).type ≠ 0)
      (notDir : ¬state.IsDir ip) (slot : FreeSlot state dp k name) :
      Effect state (state.linked ip dp k name)
  | unlink {ip dp k : Nat} (isDir : state.IsDir dp) (later : 2 ≤ k)
      (entry : state.entry dp k = ip) (typed : (state.node ip).type ≠ 0)
      (empty : state.IsDir ip → ∀ j, 2 ≤ j → state.entry ip j = 0) :
      Effect state (((state.unlinked ip dp k).reap dp).reap ip)
  | create {ip dp k : Nat} {type major minor : Int16} {name : List UInt8}
      (inRange : state.InRange ip) (free : (state.node ip).type = 0) (typed : type ≠ 0)
      (slot : FreeSlot state dp k name) :
      Effect state (state.created ip type major minor dp k name)

section

variable {state : State} {ip dp k : Nat} {name : List UInt8}

theorem paired_linked (typed : (state.node ip).type ≠ 0) (notDir : ¬state.IsDir ip)
    (slot : FreeSlot state dp k name) :
    Paired state (state.linked ip dp k name) ip dp
      { state.node ip with nlink := (state.node ip).nlink + 1 } { state.node dp with
        data := putEntry (state.node dp).data k ⟨ip, strncpy name DIRSIZ⟩ } :=
  paired_edits (slot.isDir.ne notDir) (lt_length_of_typed typed)
    (lt_length_of_typed slot.isDir.typed) _ _

theorem Tree.paired_unlinked (tree : Tree state) (isDir : state.IsDir dp) (later : 2 ≤ k)
    (entry : state.entry dp k = ip) (typed : (state.node ip).type ≠ 0) :
    Paired state (state.unlinked ip dp k) ip dp
      { state.node ip with nlink := (state.node ip).nlink - 1 } { state.node dp with
        data := putEntry (state.node dp).data k ⟨0, List.replicate DIRSIZ 0⟩
        nlink := if (state.node ip).type = T_DIR then (state.node dp).nlink - 1
          else (state.node dp).nlink } := by
  have different : ip ≠ dp := entry ▸ tree.entry_ne_self isDir later
  rw [unlinked, edit_comm (Ne.symm different)]
  exact paired_edits different (lt_length_of_typed typed)
    (lt_length_of_typed isDir.typed) _ _

theorem paired_created (inRange : state.InRange ip) (free : (state.node ip).type = 0)
    (slot : FreeSlot state dp k name) :
    Paired state (state.created ip type major minor dp k name) ip dp
      (state.newNode ip type major minor dp) { state.node dp with
        data := putEntry (state.node dp).data k ⟨ip, strncpy name DIRSIZ⟩
        nlink := if type = T_DIR then (state.node dp).nlink + 1 else (state.node dp).nlink } :=
  paired_edits (slot.isDir.ne fun isDir => isDir.typed free) inRange.2
    (lt_length_of_typed slot.isDir.typed) (fun _ => state.newNode ip type major minor dp) _

end

/-! ## Walks -/

section

variable {devsw : Nat → Device} {state : State}

theorem Tolerates.all (state : State) : Tolerates state fun _ => True :=
  ⟨trivial, fun _ _ _ _ => Or.inr ⟨trivial, trivial⟩⟩

theorem Tree.inRange (tree : Tree state) (typed : (state.node inum).type ≠ 0) :
    state.InRange inum := .of_typed tree.zero typed

/-- The process that calls exists, and its current directory is allocated. -/
structure Calls (state : State) (p : Nat) (proc : Proc) : Prop where
  found : state.tables.proc p = some proc
  typed : (state.node proc.cwd).type ≠ 0

/-- An inode that a call can use: allocated, and not about to be freed. -/
structure Usable (state : State) (ip : Nat) : Prop where
  inRange : state.InRange ip
  settled : (state.node ip).Settled
  typed : (state.node ip).type ≠ 0

theorem Usable.iput_meets {post : Unit → State → Prop} (usable : Usable state ip)
    (met : post () state) :
    Meets (execute devsw (iput ip)) (state.holds [ip]) (fun _ => True) post := by
  refine iput_held usable.settled.valid usable.inRange List.not_mem_nil ?_
  rw [reap_eq_self usable.settled usable.typed]
  exact met

theorem Tree.usable (tree : Tree state) (settled : state.Settled)
    (typed : (state.node ip).type ≠ 0) : Usable state ip :=
  ⟨tree.inRange typed, settled ip, typed⟩

theorem cwd_meets {post : Nat → State → Prop} {fails : Failure → Prop}
    (found : state.tables.proc p = some proc) (met : post proc.cwd state) :
    Meets (execute devsw (cwd p)) state fails post := by
  refine (meets_interpret_bind _ _ _ _ _ _).mpr (tables_meets ?_)
  rw [found]
  exact met

theorem ilock_named_meets {post : Unit → State → Prop} (settled : state.Settled) {locked : Bool}
    (inRange : state.InRange ip) (typed : locked = true → (state.node ip).type ≠ 0)
    (met : Usable state ip → post () (state.holds [ip])) :
    Meets (execute devsw (ilock ip)) (state.hold ip locked) (fun _ => True) post :=
  ilock_meets (settled ip).valid (settled ip).typed inRange typed (Or.inr trivial)
    fun now => met ⟨inRange, settled ip, now⟩

theorem namei_ilock_meets {Value : Type} {post : Value → State → Prop} {fail : Prog Value}
    {rest : Nat → Prog Value} (tree : Tree state) (settled : state.Settled)
    (calls : Calls state p proc) (path : List UInt8)
    (missing : Meets (execute devsw fail) state (fun _ => True) post)
    (found : ∀ ip, Usable state ip →
      Meets (execute devsw (rest ip)) (state.holds [ip]) (fun _ => True) post) :
    Meets (execute devsw (do
      match ← namei (← cwd p) path with
      | none => fail
      | some ip =>
        ilock ip
        rest ip)) state (fun _ => True) post := by
  simp only [namei, meets_interpret_bind]
  refine cwd_meets calls.found ((namex_meets settled tree.zero tree.shaped (.all state) calls.typed
    tree.root.typed path false).imp ?_)
  intro result next walked
  cases result with
  | none =>
    rw [show next = state from walked]
    exact missing
  | some named =>
    rcases walked with ⟨locked, rfl, inRange, typed, _⟩
    refine (meets_interpret_bind _ _ _ _ _ _).mpr ?_
    exact ilock_named_meets settled inRange typed (found named.1)

/-- The same inodes with the same data, but maybe with other link counts. -/
structure SameData (state next : State) : Prop where
  type : ∀ inum, (next.node inum).type = (state.node inum).type
  data : ∀ inum, (next.node inum).data = (state.node inum).data

theorem nameiparent_meets {post : Option (Nat × List UInt8) → State → Prop} {next : State}
    (tree : Tree state) (same : SameData state next) (settled : next.Settled) {cwd : Nat}
    (cwdTyped : (state.node cwd).type ≠ 0) (path : List UInt8) (missing : post none next)
    (found : ∀ dp name, state.IsDir dp → post (some (dp, name)) (next.hold dp true)) :
    Meets (execute devsw (nameiparent cwd path)) next (fun _ => True) post := by
  have shaped : ∀ dp, next.IsDir dp → Shaped (next.node dp).data := by
    intro dp isDir
    rw [State.IsDir, same.type] at isDir
    rw [same.data]
    exact tree.shaped dp isDir
  refine Meets.imp (namex_meets settled (by rw [same.type]; exact tree.zero) shaped (.all next)
    (by rw [same.type]; exact cwdTyped) (by rw [same.type]; exact tree.root.typed) path true) ?_
  intro result after walked
  cases result with
  | none =>
    rw [show after = next from walked]
    exact missing
  | some named =>
    rcases walked with ⟨locked, rfl, _, _, _, parent⟩
    rcases parent rfl with ⟨rfl, isDir⟩
    rw [State.IsDir, same.type] at isDir
    exact found named.1 named.2 isDir

theorem parent_ilock_meets {Value : Type} {post : Value → State → Prop} {fail : Prog Value}
    {rest : Nat → List UInt8 → Prog Value} (tree : Tree state) (settled : state.Settled)
    (calls : Calls state p proc) (path : List UInt8)
    (missing : Meets (execute devsw fail) state (fun _ => True) post)
    (found : ∀ dp name, state.IsDir dp →
      Meets (execute devsw (rest dp name)) (state.holds [dp]) (fun _ => True) post) :
    Meets (execute devsw (do
      match ← nameiparent (← cwd p) path with
      | none => fail
      | some (dp, name) =>
        ilock dp
        rest dp name)) state (fun _ => True) post := by
  simp only [meets_interpret_bind]
  refine cwd_meets calls.found (nameiparent_meets tree ⟨fun _ => rfl, fun _ => rfl⟩ settled
    calls.typed path missing fun dp name isDir => ?_)
  refine (meets_interpret_bind _ _ _ _ _ _).mpr ?_
  exact ilock_again (show dp ∈ [dp] from List.mem_cons_self) (tree.inRange isDir.typed)
    (found dp name isDir)

theorem nlink_add_one_ne_zero {count : Int16} (nonneg : 0 ≤ count.toInt) : count + 1 ≠ 0 := by
  intro zero
  have before : count = -1 := by
    have moved := congrArg (· - 1) zero
    simpa using moved
  rw [before] at nonneg
  exact absurd nonneg (by decide)

theorem Tree.nlink_nonneg (tree : Tree state) (typed : (state.node inum).type ≠ 0) :
    0 ≤ (state.node inum).nlink.toInt :=
  (Int.natCast_nonneg _).trans (tree.counts inum typed)

theorem Tree.two_le_of_matches (tree : Tree state) (isDir : state.IsDir dp)
    (matched : Matches (state.node dp).data name k)
    (notDots : ¬(namecmp name dot = 0 ∨ namecmp name dotdot = 0)) : 2 ≤ k := by
  rw [namecmp_eq_zero, namecmp_eq_zero] at notDots
  have same := namecmp_eq_zero.mp matched.2
  have self := namecmp_eq_zero.mp (tree.self dp isDir).2
  have up := namecmp_eq_zero.mp (tree.up dp isDir).2
  match k with
  | 0 => exact absurd (Or.inl (same.trans self)) notDots
  | 1 => exact absurd (Or.inr (same.trans up)) notDots
  | k + 2 => omega

/-! ## `link` -/

theorem sysLink_bad_meets (usable : Usable state ip) (met : post (-1) state) :
    Meets (execute devsw (do
      ilock ip
      setNlink ip (· - 1)
      iput ip
      return (-1 : Int)))
      ((state.edit ip fun node => { node with nlink := node.nlink + 1 }).holds [ip])
      (fun _ => True) post := by
  have changedRange : (state.edit ip fun node =>
      { node with nlink := node.nlink + 1 }).InRange ip := usable.inRange.edit _ _
  have restored : (state.edit ip fun node => { node with nlink := node.nlink + 1 }).edit ip
      (fun node => { node with nlink := node.nlink - 1 }) = state := by
    rw [edit_edit]
    apply edit_eq_self
    simp
  simp only [meets_interpret_bind, meets_interpret_pure]
  refine ilock_again List.mem_cons_self changedRange ?_
  refine setNlink_held List.mem_cons_self changedRange (· - 1) ?_
  rw [restored]
  exact usable.iput_meets met

section

variable (tree : Tree state) (settled : state.Settled)
include tree settled

theorem sysLink_done_meets (typed : (state.node ip).type ≠ 0) (notDir : ¬state.IsDir ip)
    (slot : FreeSlot state dp k name) (met : post 0 (state.linked ip dp k name)) :
    Meets (execute devsw (do
      iput dp
      iput ip
      return (0 : Int)))
      ((state.linked ip dp k name).holds [dp, ip]) (fun _ => True) post := by
  have paired := paired_linked typed notDir slot
  generalize state.linked ip dp k name = linked at met paired ⊢
  have dpSettled : (linked.node dp).Settled := by
    rw [paired.parent]
    exact ⟨(settled dp).valid, (settled dp).typed, (settled dp).linked⟩
  simp only [meets_interpret_bind]
  refine iput_held dpSettled.valid (paired.inRange (tree.inRange slot.isDir.typed))
    (show dp ∉ [ip] by rw [List.mem_singleton]; exact (slot.isDir.ne notDir).symm) ?_
  rw [reap_eq_self dpSettled (by rw [paired.parent]; exact slot.isDir.typed)]
  refine iput_held (by rw [paired.own]; exact (settled ip).valid)
    (paired.inRange (tree.inRange typed)) List.not_mem_nil ?_
  have kept : linked.reap ip = linked := by
    apply edit_eq_self
    rw [if_neg]
    rintro ⟨_, zero⟩
    rw [paired.own] at zero
    exact nlink_add_one_ne_zero (tree.nlink_nonneg typed) zero
  rw [kept]
  exact met

theorem sysLink_meets (calls : Calls state p proc) (old new : List UInt8) :
    Meets (execute devsw (sysLink p old new)) state (fun _ => True) fun _ next =>
      Effect state next := by
  simp only [sysLink]
  refine namei_ilock_meets tree settled calls old .none fun ip usable => ?_
  have inRange := usable.inRange
  rw [meets_interpret_bind]
  refine fields_held List.mem_cons_self inRange fun inode type _ => ?_
  rw [meets_interpret_ite, type]
  simp only [meets_interpret_bind]
  refine ⟨fun _ => usable.iput_meets .none, fun notDir => ?_⟩
  refine setNlink_held List.mem_cons_self inRange (· + 1) ?_
  let raised := state.edit ip fun node => { node with nlink := node.nlink + 1 }
  have others : ∀ inum, inum ≠ ip → raised.node inum = state.node inum :=
    fun inum different => node_edit_of_ne different _
  have own : raised.node ip = { state.node ip with nlink := (state.node ip).nlink + 1 } :=
    node_edit_self inRange.2 _
  have raisedData : SameData state raised := by
    refine ⟨?_, ?_⟩
    all_goals
      intro inum
      by_cases same : inum = ip
      · subst same
        rw [own]
      · rw [others inum same]
  have heldData : SameData state (raised.holds [ip]) :=
    ⟨fun inum => (raised.holds_content [ip] inum).1.trans (raisedData.type inum),
      fun inum => (raised.holds_content [ip] inum).2.2.trans (raisedData.data inum)⟩
  have heldSettled : (raised.holds [ip]).Settled := by
    apply settled_holds
    · intro inum absent
      rw [List.mem_singleton] at absent
      rw [others inum absent]
      exact settled inum
    · intro inum member
      rw [List.mem_singleton] at member
      subst member
      exact ⟨inRange.edit _ _, by rw [raisedData.type]; exact usable.typed⟩
  refine cwd_meets (by rw [tables_holds]; exact calls.found) ?_
  refine nameiparent_meets tree heldData heldSettled calls.typed new
    (sysLink_bad_meets usable .none) fun dp name isDir => ?_
  have different := (isDir.ne notDir).symm
  have dpNode : raised.node dp = state.node dp := others dp different
  have dpRange : raised.InRange dp := (tree.inRange isDir.typed).edit _ _
  have dpDir : raised.IsDir dp := by
    rw [State.IsDir, dpNode]
    exact isDir
  have bothSettled : (raised.holds [dp, ip]).Settled :=
    heldSettled.hold (by rw [heldData.type]; exact isDir.typed)
  simp only [meets_interpret_bind]
  refine ilock_again (show dp ∈ [dp, ip] from List.mem_cons_self) dpRange ?_
  refine dirlink_held List.mem_cons_self dpRange dpDir
    (by rw [dpNode]; exact tree.shaped dp isDir) bothSettled name ip (fun _ _ => ?_) ?_
  · rw [if_pos (by decide), meets_interpret_bind]
    refine iput_held (by rw [dpNode]; exact (settled dp).valid) dpRange
      (show dp ∉ [ip] by rw [List.mem_singleton]; exact different) ?_
    rw [reap_eq_self (by rw [dpNode]; exact settled dp) dpDir.typed]
    exact sysLink_bad_meets usable .none
  · rw [dpNode]
    intro fresh k first limit
    have slot : FreeSlot state dp k name := ⟨isDir, fresh, first.bound, first.free, limit⟩
    rw [if_neg (by decide)]
    exact sysLink_done_meets tree settled usable.typed notDir slot
      (.link usable.typed notDir slot)

/-! ## `unlink` -/

/-- The end of `sys_unlink`, after the entry has been cleared. -/
theorem sysUnlink_done_meets (isDir : state.IsDir dp) (typed : (state.node ip).type ≠ 0)
    (different : ip ≠ dp)     (met : post 0 (((state.unlinked ip dp k).reap dp).reap ip)) :
    Meets (execute devsw (do
      iput dp
      setNlink ip (· - 1)
      iput ip
      return (0 : Int)))
      ((state.edit dp fun node => { node with
        data := putEntry node.data k ⟨0, List.replicate DIRSIZ 0⟩
        nlink := if (state.node ip).type = T_DIR then node.nlink - 1 else node.nlink }).holds
          [ip, dp])
      (fun _ => True) post := by
  have ipRange := tree.inRange typed
  have dpRange := tree.inRange isDir.typed
  rw [unlinked] at met
  generalize clearedEq : (state.edit dp fun node => { node with
    data := putEntry node.data k ⟨0, List.replicate DIRSIZ 0⟩
    nlink := if (state.node ip).type = T_DIR then node.nlink - 1 else node.nlink }) = cleared
    at met ⊢
  have dpNode : (cleared.node dp).ref = (state.node dp).ref ∧
      (cleared.node dp).valid = (state.node dp).valid := by
    rw [← clearedEq, node_edit_self dpRange.2]
    exact ⟨rfl, rfl⟩
  have ipNode : cleared.node ip = state.node ip := by
    rw [← clearedEq, node_edit_of_ne different]
  have range : ∀ inum, state.InRange inum → cleared.InRange inum := by
    intro inum inRange
    rw [← clearedEq]
    exact inRange.edit _ _
  have swapped : cleared.holds [ip, dp] = cleared.holds [dp, ip] :=
    hold_comm (Ne.symm different) true true
  have reaped : ((cleared.reap dp).edit ip fun node => { node with nlink := node.nlink - 1 }) =
      (cleared.edit ip fun node => { node with nlink := node.nlink - 1 }).reap dp :=
    edit_comm (Ne.symm different) _ _
  rw [swapped]
  simp only [meets_interpret_bind, meets_interpret_pure]
  refine iput_held (by rw [dpNode.1, dpNode.2]; exact (settled dp).valid) (range dp dpRange)
    (show dp ∉ [ip] by rw [List.mem_singleton]; exact Ne.symm different) ?_
  have reapedRange : (cleared.reap dp).InRange ip := (range ip ipRange).edit _ _
  refine setNlink_held List.mem_cons_self reapedRange (· - 1) ?_
  refine iput_held ?_ (reapedRange.edit _ _) List.not_mem_nil ?_
  · have node : (cleared.reap dp).node ip = state.node ip :=
      (node_edit_of_ne different _).trans ipNode
    rw [node_edit_self reapedRange.2, node]
    exact (settled ip).valid
  · rw [reaped]
    exact met

theorem removeEntry_meets (isDir : state.IsDir dp) (later : 2 ≤ k)
    (entry : state.entry dp k = ip) (typed : (state.node ip).type ≠ 0) (different : ip ≠ dp)
    (empty : state.IsDir ip → ∀ j, 2 ≤ j → state.entry ip j = 0) :
    Meets (execute devsw (removeEntry dp ip (DIRENTSIZE * k) (state.node ip).type))
      (state.holds [ip, dp]) (fun _ => True) fun _ next => Effect state next := by
  have dpRange := tree.inRange isDir.typed
  have shaped := tree.shaped dp isDir
  have inside : k < slots (state.node dp).data :=
    lt_slots_of_entryAt shaped.aligned (by
      rw [show entryAt (state.node dp).data k = ip from entry]
      exact tree.ne_zero typed)
  have member : dp ∈ [ip, dp] := List.mem_cons_of_mem _ List.mem_cons_self
  have finish := @sysUnlink_done_meets k ip dp (fun _ next => Effect state next) devsw state tree
    settled isDir typed different (.unlink isDir later entry typed empty)
  rw [removeEntry, meets_interpret_bind]
  refine clearEntry_held member dpRange isDir shaped inside ?_
  rw [if_neg (fun short => short rfl), meets_interpret_ite]
  refine ⟨fun ipDir => ?_, fun ipFile => ?_⟩
  · simp only [if_pos ipDir] at finish
    rw [meets_interpret_bind]
    refine setNlink_held member (dpRange.edit _ _) (· - 1) ?_
    rw [edit_edit]
    exact finish
  · simp only [if_neg ipFile] at finish
    exact finish

theorem sysUnlink_meets (calls : Calls state p proc) (path : List UInt8) :
    Meets (execute devsw (sysUnlink p path)) state (fun _ => True) fun _ next =>
      Effect state next := by
  rw [sysUnlink]
  refine parent_ilock_meets tree settled calls path .none fun dp name isDir => ?_
  have dpRange := tree.inRange isDir.typed
  have dpSettled : (state.holds [dp]).Settled := settled.hold isDir.typed
  have giveUp : Meets (execute devsw (do
      iput dp
      return (-1 : Int))) (state.holds [dp]) (fun _ => True) fun _ next => Effect state next := by
    rw [meets_interpret_bind]
    exact (tree.usable settled isDir.typed).iput_meets .none
  rw [meets_interpret_ite]
  refine ⟨fun _ => giveUp, fun notDots => ?_⟩
  rw [meets_interpret_bind]
  refine dirlookup_held (show dp ∈ [dp] from List.mem_cons_self) dpRange isDir
    (tree.shaped dp isDir) dpSettled (.all _ _) name (fun k matched ipRange => ?_) fun _ => giveUp
  have later := tree.two_le_of_matches isDir matched notDots
  generalize entry : entryAt (state.node dp).data k = ip at ipRange
  have typed : (state.node ip).type ≠ 0 := entry ▸ tree.target dp k isDir later matched.1
  have different : ip ≠ dp := by
    intro same
    refine (tree.named dp k isDir later ?_).2 (entry.trans same)
    rw [State.entry, entry, same]
    exact isDir
  simp only [meets_interpret_bind]
  refine ilock_meets (dpSettled ip).valid (dpSettled ip).typed
    ⟨ipRange.1, by rw [length_holds]; exact ipRange.2⟩ (fun wrong => by cases wrong)
    (Or.inr trivial) fun _ => ?_
  change Meets _ (state.holds [ip, dp]) _ _
  refine fields_held List.mem_cons_self ipRange fun inode type _ => ?_
  rw [meets_interpret_ite]
  refine ⟨fun _ => panic_meets _ trivial _, fun _ => ?_⟩
  have remove : (state.IsDir ip → ∀ j, 2 ≤ j → state.entry ip j = 0) →
      Meets (execute devsw (removeEntry dp ip (DIRENTSIZE * k) (state.node ip).type))
        (state.holds [ip, dp]) (fun _ => True) fun _ next => Effect state next :=
    removeEntry_meets tree settled isDir later entry typed different
  rw [type, meets_interpret_ite]
  refine ⟨fun ipDir => ?_, fun ipFile => remove fun ipDir => absurd ipDir ipFile⟩
  rw [meets_interpret_bind, meets_interpret_map]
  refine isdirempty_held List.mem_cons_self ipRange ipDir (tree.shaped ip ipDir)
    fun isEmpty meaning => ?_
  cases isEmpty with
  | true => exact remove fun _ => meaning.mp rfl
  | false =>
    rw [Bool.not_false, if_pos rfl, meets_interpret_bind]
    refine iput_held (settled ip).valid ipRange
      (show ip ∉ [dp] by rw [List.mem_singleton]; exact different) ?_
    rw [reap_eq_self (settled ip) typed]
    exact giveUp

end

/-! ## `create` -/

theorem ialloc_meets {post : Nat → State → Prop} (settled : state.Settled) (type : Int16)
    (met : ∀ ip, state.InRange ip → (state.node ip).type = 0 →
      post ip ((state.setNode ip { Node.blank with
        type := type, ref := (state.node ip).ref, valid := (state.node ip).valid }).hold ip false)) :
    Meets (execute devsw (ialloc type)) state (fun _ => True) post := by
  refine (meets_send (.ialloc type) post).mpr ?_
  change Meets (Machine.ialloc type) state _ post
  simp only [Machine.ialloc, meets_bind, meets_get]
  split
  · rename_i ip found
    have free := List.find?_some found
    have member := List.mem_of_find?_eq_some found
    simp only [decide_eq_true_eq] at free
    simp only [List.mem_range', Nat.one_mul] at member
    have inRange : state.InRange ip := ⟨by omega, by omega⟩
    refine (meets_send (.iget ip) post).mp
      (@iget_meets devsw _ ip _ post ?_ trivial (Or.inr trivial) fun _ => met ip inRange free)
    rw [node_setNode, if_pos ⟨rfl, inRange.2⟩]
    exact (settled ip).valid
  · exact trivial

/-- A new inode without a name, which is counted as a directory in its parent if
it is one. -/
def State.made (state : State) (ip : Nat) (node : Node) (dp : Nat) : State :=
  (state.setNode ip node).edit dp fun parent =>
    { parent with nlink := if node.type = T_DIR then parent.nlink + 1 else parent.nlink }

theorem State.created_eq :
    state.created ip type major minor dp k name =
      (state.made ip (state.newNode ip type major minor dp) dp).edit dp fun node =>
        { node with data := putEntry node.data k ⟨ip, strncpy name DIRSIZ⟩ } := by
  rw [made, edit_edit, created]
  rfl


/-- A free inode of which a new one is made, and the directory for its name. -/
structure Making (state : State) (ip dp : Nat) (node : Node) : Prop where
  isDir : state.IsDir dp
  inRange : state.InRange ip
  free : (state.node ip).type = 0
  typed : node.type ≠ 0

namespace Making

variable {ip dp : Nat} {node : Node}

theorem different (making : Making state ip dp node) : ip ≠ dp :=
  making.isDir.ne fun isDir => isDir.typed making.free

theorem paired (making : Making state ip dp node) :
    Paired state (state.made ip node dp) ip dp node { state.node dp with
      nlink := if node.type = T_DIR then (state.node dp).nlink + 1 else (state.node dp).nlink } :=
  paired_edits making.different making.inRange.2 (lt_length_of_typed making.isDir.typed)
    (fun _ => node) _

theorem settled (making : Making state ip dp node) (tree : Tree state) (settled : state.Settled) :
    ((state.made ip node dp).holds [ip, dp]).Settled := by
  have paired := making.paired
  apply settled_holds
  · intro inum absent
    simp only [List.mem_cons, List.not_mem_nil, or_false, not_or] at absent
    rw [paired.others inum absent.1 absent.2]
    exact settled inum
  · intro inum member
    simp only [List.mem_cons, List.not_mem_nil, or_false] at member
    rcases member with rfl | rfl
    · refine ⟨paired.inRange making.inRange, ?_⟩
      rw [paired.own]
      exact making.typed
    · refine ⟨paired.inRange (tree.inRange making.isDir.typed), ?_⟩
      rw [paired.parent]
      exact making.isDir.typed

theorem edit (making : Making state ip dp node) {change : Node → Node}
    (type : (change node).type = node.type) :
    (state.made ip node dp).edit ip change = state.made ip (change node) dp := by
  rw [made, edit_comm (Ne.symm making.different), made, type]
  congr 1
  exact @State.edit_edit state ip (fun _ => node) change

end Making

section

variable (tree : Tree state) (settled : state.Settled)
include tree settled

theorem makeInode_name_meets {post : Option Nat → State → Prop}
    (making : Making state ip dp (state.newNode ip type major minor dp)) (name : List UInt8)
    (met : ∀ k, FreeSlot state dp k name →
      post (some ip) ((state.created ip type major minor dp k name).holds [ip])) :
    Meets (execute devsw (do
      if (← dirlink dp name ip) < 0 then
        panic .createDirlink
      else
        iput dp
        return some ip))
      ((state.made ip (state.newNode ip type major minor dp) dp).holds [ip, dp]) (fun _ => True)
      post := by
  have isDir := making.isDir
  have dpRange := tree.inRange isDir.typed
  have dpNode := making.paired.parent
  rw [meets_interpret_bind]
  refine dirlink_held (List.mem_cons_of_mem _ List.mem_cons_self) (making.paired.inRange dpRange)
    (by rw [State.IsDir, dpNode]; exact isDir) (by rw [dpNode]; exact tree.shaped dp isDir)
    (making.settled tree settled) name ip (fun _ _ => ?_) ?_
  · rw [if_pos (by decide)]
    exact panic_meets _ trivial _
  · rw [dpNode]
    intro fresh k first limit
    have slot : FreeSlot state dp k name := ⟨isDir, fresh, first.bound, first.free, limit⟩
    have named := met k slot
    have paired := @paired_created type major minor state ip dp k name making.inRange making.free
      slot
    rw [if_neg (by decide), meets_interpret_bind, ← created_eq]
    generalize state.created ip type major minor dp k name = created at named paired ⊢
    have swapped : created.holds [ip, dp] = created.holds [dp, ip] :=
      hold_comm (Ne.symm making.different) true true
    have kept : created.reap dp = created := by
      apply edit_eq_self
      rw [if_neg]
      rintro ⟨unused, unlinked⟩
      rw [paired.parent] at unused unlinked
      by_cases newDir : type = T_DIR
      · rw [if_pos newDir] at unlinked
        exact nlink_add_one_ne_zero (tree.nlink_nonneg isDir.typed) unlinked
      · rw [if_neg newDir] at unlinked
        exact (settled dp).linked isDir.typed unlinked unused
    rw [swapped]
    refine iput_held (by rw [paired.parent]; exact (settled dp).valid) (paired.inRange dpRange)
      (show dp ∉ [ip] by rw [List.mem_singleton]; exact Ne.symm making.different) ?_
    rw [kept]
    exact named

/-- The first entry of a directory that has no other entry of that name. -/
theorem dirlink_new_meets {node : Node} (making : Making state ip dp node)
    (isNewDir : node.type = T_DIR) (shaped : Shaped node.data) {target : Nat}
    (fresh : ∀ j, ¬Matches node.data name j)
    (first : ∀ j, j ≤ slots node.data → entryAt node.data j = 0 → j = k)
    (met : post 0 ((state.made ip { node with
      data := putEntry node.data k ⟨target, strncpy name DIRSIZ⟩ } dp).holds [ip, dp])) :
    Meets (execute devsw (dirlink ip name target))
      ((state.made ip node dp).holds [ip, dp]) (fun _ => True) post := by
  have own := making.paired.own
  refine dirlink_held List.mem_cons_self (making.paired.inRange making.inRange)
    (by rw [State.IsDir, own]; exact isNewDir) (by rw [own]; exact shaped)
    (making.settled tree settled) name target ?_ ?_
  · rw [own]
    exact fun j matched => absurd matched (fresh j)
  · rw [own]
    intro _ j free _
    rw [first j free.bound free.free, making.edit rfl]
    exact met

/-- `create` makes the entries of a new directory and counts it in its parent. -/
theorem makeDots_meets {post : Unit → State → Prop} {node : Node} (making : Making state ip dp node)
    (isNewDir : node.type = T_DIR) (empty : node.data = [])
    (met : post () ((state.made ip { node with data := newDirectory ip dp } dp).holds [ip, dp])) :
    Meets (execute devsw (makeDots ip dp)) ((state.setNode ip node).holds [ip, dp])
      (fun _ => True) post := by
  have ipFits : ip < 65536 := Nat.lt_of_lt_of_le making.inRange.2 tree.size
  have dpRange := tree.inRange making.isDir.typed
  let first : Dirent := ⟨ip, strncpy dot DIRSIZ⟩
  let dotted : Node := { node with data := putEntry [] 0 first }
  have makingDotted : Making state ip dp dotted := ⟨making.isDir, making.inRange, making.free,
    making.typed⟩
  have firstFits : first.Fits := ⟨ipFits, strncpy_length _ _⟩
  have counted : (state.setNode ip node).edit dp
      (fun parent => { parent with nlink := parent.nlink + 1 }) = state.made ip node dp := by
    simp only [made, if_pos isNewDir]
  rw [makeDots, meets_interpret_bind]
  refine setNlink_held (List.mem_cons_of_mem _ List.mem_cons_self)
    (show (state.setNode ip node).InRange dp from dpRange.edit ip fun _ => node) (· + 1) ?_
  rw [counted, meets_interpret_bind]
  have blank : ∀ j, entryAt [] j = 0 :=
    fun j => entryAt_of_slots_le (Nat.dvd_zero _) (Nat.zero_le j)
  refine dirlink_new_meets tree settled making isNewDir (k := 0) ?_ ?_ ?_ ?_
  · rw [empty]
    exact ⟨Nat.dvd_zero _, Nat.zero_le _⟩
  · rintro j ⟨used, _⟩
    rw [empty] at used
    exact used (blank j)
  · intro j bound _
    rw [empty] at bound
    exact Nat.le_zero.mp bound
  · rw [empty, if_neg (by decide), meets_interpret_bind]
    change Meets _ ((state.made ip dotted dp).holds [ip, dp]) _ _
    have dirent : ∀ j, direntAt dotted.data j = if j = 0 then first else direntAt [] j :=
      direntAt_putEntry (Nat.dvd_zero _) (Nat.le_refl 0) firstFits
    have entry : ∀ j, entryAt dotted.data j = if j = 0 then ip else 0 := by
      intro j
      rw [entryAt, dirent]
      split
      · rfl
      · exact blank j
    refine dirlink_new_meets tree settled makingDotted isNewDir (k := 1) ?_ ?_ ?_ met
    · refine ⟨aligned_putEntry (Nat.dvd_zero _), ?_⟩
      rw [length_putEntry]
      decide
    · rintro j ⟨used, matched⟩
      rw [entry] at used
      have isFirst : j = 0 := by
        by_contra later
        exact used (if_neg later)
      rw [isFirst, nameAt, dirent, if_pos rfl] at matched
      exact absurd matched (show namecmp dotdot (strncpy dot DIRSIZ) ≠ 0 by decide)
    · intro j bound unused
      rw [entry] at unused
      have later : j ≠ 0 := by
        rintro rfl
        exact Nat.pos_iff_ne_zero.mp making.inRange.1 unused
      have one : slots dotted.data = 1 := by
        rw [slots, length_putEntry]
        rfl
      omega

theorem makeInode_meets {post : Option Nat → State → Prop} (isDir : state.IsDir dp)
    (name : List UInt8) (typed : type ≠ 0) (major minor : Int16)
    (met : ∀ ip k, Making state ip dp (state.newNode ip type major minor dp) →
      FreeSlot state dp k name →
      post (some ip) ((state.created ip type major minor dp k name).holds [ip])) :
    Meets (execute devsw (makeInode dp name type major minor)) (state.holds [dp])
      (fun _ => True) post := by
  have heldSettled : (state.holds [dp]).Settled := settled.hold isDir.typed
  rw [makeInode, meets_interpret_bind]
  refine ialloc_meets heldSettled type fun ip heldRange heldFree => ?_
  have free : (state.node ip).type = 0 := ((state.holds_content [dp] ip).1).symm.trans heldFree
  have inRange : state.InRange ip := ⟨heldRange.1, by rw [← state.length_holds [dp]]; exact heldRange.2⟩
  have different : ip ≠ dp := isDir.ne fun isDir => isDir.typed free
  let bare : Node := { Node.blank with
    type := type, ref := (state.node ip).ref, valid := (state.node ip).valid }
  have fresh : (state.holds [dp]).setNode ip { Node.blank with
      type := type, ref := ((state.holds [dp]).node ip).ref
      valid := ((state.holds [dp]).node ip).valid } = (state.setNode ip bare).holds [dp] := by
    rw [node_holds_of_not_mem (show ip ∉ [dp] by rw [List.mem_singleton]; exact different)]
    exact @State.edit_comm _ _ state (Ne.symm different) _ fun _ => bare
  have freshNode : ((state.setNode ip bare).holds [dp]).node ip = bare := by
    rw [node_holds_of_not_mem (show ip ∉ [dp] by rw [List.mem_singleton]; exact different),
      node_setNode, if_pos ⟨rfl, inRange.2⟩]
  have bareRange : (state.setNode ip bare).InRange ip := inRange.edit ip fun _ => bare
  rw [fresh, meets_interpret_bind]
  refine ilock_meets (by rw [freshNode]; exact (settled ip).valid)
    (by rw [freshNode]; exact fun _ => typed)
    ⟨bareRange.1, by rw [length_holds]; exact bareRange.2⟩ (fun wrong => by cases wrong)
    (Or.inr trivial) fun _ => ?_
  change Meets _ ((state.setNode ip bare).holds [ip, dp]) _ _
  rw [meets_interpret_bind]
  refine update_held List.mem_cons_self bareRange major minor 1 ?_
  let node : Node := { bare with major := major, minor := minor, nlink := 1 }
  have updated : (state.setNode ip bare).edit ip
      (fun node => { node with major := major, minor := minor, nlink := 1 }) =
        state.setNode ip node := @State.edit_edit state ip (fun _ => bare) _
  have making : Making state ip dp (state.newNode ip type major minor dp) :=
    ⟨isDir, inRange, free, typed⟩
  have finish := @makeInode_name_meets ip dp type major minor devsw state tree settled post making
    name fun k slot => met ip k making slot
  rw [updated, meets_interpret_ite]
  refine ⟨fun newDir => ?_, fun notDir => ?_⟩
  · rw [meets_interpret_bind]
    refine makeDots_meets tree settled ⟨isDir, inRange, free, typed⟩ newDir rfl ?_
    rw [newNode, if_pos newDir] at finish
    exact finish
  · rw [newNode, if_neg notDir, made, edit_eq_self] at finish
    · exact finish
    · simp only [if_neg notDir]


theorem create_meets {post : Option Nat → State → Prop} (calls : Calls state p proc)
    (path : List UInt8) (typed : type ≠ 0) (major minor : Int16) (missing : post none state)
    (met : ∀ ip after, Effect state after → Usable after ip → (after.node ip).type = type →
      post (some ip) (after.holds [ip])) :
    Meets (execute devsw (create p path type major minor)) state (fun _ => True) post := by
  rw [create]
  refine parent_ilock_meets tree settled calls path missing fun dp name isDir => ?_
  have dpRange := tree.inRange isDir.typed
  rw [meets_interpret_bind]
  refine dirlookup_held (show dp ∈ [dp] from List.mem_cons_self) dpRange isDir
    (tree.shaped dp isDir) (settled.hold isDir.typed) (.all _ _) name (fun k _ ipRange => ?_)
    fun _ => ?_
  · generalize entryAt (state.node dp).data k = ip at ipRange
    simp only [meets_interpret_bind]
    refine iput_found_meets settled dpRange isDir.typed ?_
    refine ilock_named_meets settled ipRange ?_ fun usable => ?_
    · intro same
      rw [of_decide_eq_true same]
      exact isDir.typed
    refine fields_held List.mem_cons_self ipRange fun inode ipType _ => ?_
    rw [meets_interpret_ite, ipType, meets_interpret_bind]
    refine ⟨?_, fun _ => usable.iput_meets missing⟩
    rintro ⟨isFile, ipFile⟩
    exact met ip state .none usable (ipFile.trans isFile.symm)
  · refine makeInode_meets tree settled isDir name typed major minor fun ip k making slot => ?_
    have paired := @paired_created type major minor state ip dp k name making.inRange making.free
      slot
    refine met ip _ (.create making.inRange making.free typed slot)
      ⟨paired.inRange making.inRange, ?_, ?_⟩ ?_
    · rw [paired.own]
      exact ⟨(settled ip).valid, fun _ => typed, fun _ unlinked =>
        absurd unlinked (show (1 : Int16) ≠ 0 by decide)⟩
    · rw [paired.own]
      exact typed
    · rw [paired.own]
      rfl

end

end

end Xv6.Dir
