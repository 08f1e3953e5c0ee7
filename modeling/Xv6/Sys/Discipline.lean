import Xv6.Sys.Layer
import Xv6.Dir.FileTable

/-! # How the inode layer is used

What the callers of the inode layer have to see to, and what they may rely on.
An inode is used only while it is referenced, and its fields and data only after
it has been locked; whatever may write to the disk happens inside a transaction.

What is known about the contents of inodes holds only if the disk is `reliable`,
that is, if it holds a consistent file system. The rest holds on any disk.
-/

namespace Xv6.Sys

open Interaction
open Dir (Tables Node Fields entryAt DIRENTSIZE)
open Fs (readBytes writeBytes T_DIR T_DEV)

/-! ## What the callers see -/

/-- `trans` says that a transaction is open, and `wrote` that data has been written
since the start of the call. The orphans are inodes without links to which nothing
referred at the start of the call. -/
structure View where
  node : Nat → Node
  tables : Tables
  trans : Bool
  wrote : Bool
  orphan : Nat → Prop

namespace View

variable {view : View} {ip : Nat}

def setNode (view : View) (ip : Nat) (node : Node) : View :=
  { view with node := Function.update view.node ip node }

theorem setNode_setNode (node other : Node) :
    (view.setNode ip node).setNode ip other = view.setNode ip other := by
  simp [setNode]

@[simp] theorem setNode_self (node : Node) : (view.setNode ip node).node ip = node :=
  Function.update_self ..

theorem setNode_of_ne {inum : Nat} (different : inum ≠ ip) (node : Node) :
    (view.setNode ip node).node inum = view.node inum :=
  Function.update_of_ne different ..

end View

def nodeFields (node : Node) : Fields :=
  ⟨node.type, node.major, node.minor, node.nlink, node.data.length⟩

/-- An inode after one of its references has been given up. -/
def putNode (node : Node) : Node :=
  if node.ref = 1 ∧ node.valid ∧ node.nlink = 0 then
    { node with type := 0, data := [], ref := 0, valid := false }
  else
    { node with ref := node.ref - 1, valid := node.valid && 1 < node.ref }

section

variable (reliable : Prop) (ninodes : Nat)

/-- The inode after `iput`. On an unreliable disk an inode that is not referenced
any more may hold anything. -/
structure Released (node after : Node) : Prop where
  ref : after.ref = node.ref - 1
  valid : after.valid = (node.valid && 1 < node.ref)
  content : reliable ∨ 1 < node.ref → after = putNode node

/-- The outcome of `writei`: the number of bytes, and the data of the inode. -/
def WriteOutcome (node : Node) (src : List UInt8) (off : UInt32) (outcome : Int × List UInt8) :
    Prop :=
  if node.type = T_DEV then outcome.2 = node.data
  else outcome = writeBytes node.data (fun index => src.getD index 0) off.toNat
    (UInt32.ofNat src.length).toNat

/-- The rules for the functions of the inode layer. -/
def inodeRule : (request : Dir.Request) → View → (Dir.Answer request → View → Prop) → Prop
  | .iget inum, view, post => (reliable → 0 < inum ∧ inum < ninodes) ∧
      post inum (view.setNode inum { view.node inum with ref := (view.node inum).ref + 1 })
  | .idup ip, view, post => 0 < (view.node ip).ref ∧
      post ip (view.setNode ip { view.node ip with ref := (view.node ip).ref + 1 })
  | .ialloc type, view, post => view.trans = true ∧ type ≠ 0 ∧
      (reliable → ∀ inum, 0 < view.tables.refs inum → (view.node inum).type ≠ 0) ∧ ∀ ip : Nat,
      (reliable → 0 < ip ∧ ip < ninodes ∧ (view.node ip).type = 0 ∧
        (view.node ip).valid = false) →
      post ip (view.setNode ip { Node.blank with
        type := type, ref := (view.node ip).ref + 1, valid := (view.node ip).valid })
  | .ilock ip, view, post => 0 < (view.node ip).ref ∧
      ((reliable → (view.node ip).type ≠ 0) →
        post () (view.setNode ip { view.node ip with valid := true }))
  | .iput ip, view, post => 0 < (view.node ip).ref ∧ view.trans = true ∧
      ∀ after, Released reliable (view.node ip) after → post () (view.setNode ip after)
  | .fields ip, view, post => (view.node ip).valid = true ∧
      ∀ inode : Fields, (reliable → inode = nodeFields (view.node ip)) → post inode view
  | .update ip major minor nlink, view, post => (view.node ip).valid = true ∧
      view.trans = true ∧ post () (view.setNode ip { view.node ip with
        major := major, minor := minor, nlink := nlink })
  | .readi ip off n, view, post => (view.node ip).valid = true ∧
      ∀ answer, (reliable → (view.node ip).type ≠ T_DEV →
        answer = readBytes (view.node ip).data off.toNat n.toNat) → post answer view
  | .writei ip src off, view, post => (view.node ip).valid = true ∧ view.trans = true ∧
      ∀ (result : Int) data, (reliable → WriteOutcome (view.node ip) src off (result, data)) →
        post result { view.setNode ip { view.node ip with data := data } with wrote := true }
  | .tables, view, post => post view.tables view
  | .setTables tables, view, post => post () { view with tables := tables }
  | .fail _, _, _ => True

theorem inodeRule_mono {request : Dir.Request} {view : View}
    {post weaker : Dir.Answer request → View → Prop}
    (implies : ∀ answer next, post answer next → weaker answer next)
    (ruled : inodeRule reliable ninodes request view post) :
    inodeRule reliable ninodes request view weaker := by
  cases request with
  | iget inum => exact ⟨ruled.1, implies _ _ ruled.2⟩
  | idup ip => exact ⟨ruled.1, implies _ _ ruled.2⟩
  | ialloc type =>
    exact ⟨ruled.1, ruled.2.1, ruled.2.2.1, fun ip known => implies _ _ (ruled.2.2.2 ip known)⟩
  | ilock ip => exact ⟨ruled.1, fun typed => implies _ _ (ruled.2 typed)⟩
  | iput ip =>
    exact ⟨ruled.1, ruled.2.1, fun after released => implies _ _ (ruled.2.2 after released)⟩
  | fields ip => exact ⟨ruled.1, fun inode known => implies _ _ (ruled.2 inode known)⟩
  | update ip major minor nlink => exact ⟨ruled.1, ruled.2.1, implies _ _ ruled.2.2⟩
  | readi ip off n => exact ⟨ruled.1, fun answer known => implies _ _ (ruled.2 answer known)⟩
  | writei ip src off =>
    exact ⟨ruled.1, ruled.2.1, fun result data known => implies _ _ (ruled.2.2 result data known)⟩
  | tables => exact implies _ _ ruled
  | setTables tables => exact implies _ _ ruled
  | fail panic => trivial

def inodeUse : Discipline Dir.Request Dir.Answer View :=
  ⟨inodeRule reliable ninodes, inodeRule_mono reliable ninodes⟩

/-- A call opens one transaction at a time, and closes it again. -/
def rule : (request : Request) → View → (Answer request → View → Prop) → Prop
  | .beginOp, view, post => view.trans = false ∧ post () { view with trans := true }
  | .endOp, view, post => view.trans = true ∧ post () { view with trans := false }
  | .inode request, view, post => inodeRule reliable ninodes request view post
  | .fileread, _, _ => True

theorem rule_mono {request : Request} {view : View} {post weaker : Answer request → View → Prop}
    (implies : ∀ answer next, post answer next → weaker answer next)
    (ruled : rule reliable ninodes request view post) :
    rule reliable ninodes request view weaker := by
  cases request with
  | beginOp => exact ⟨ruled.1, implies _ _ ruled.2⟩
  | endOp => exact ⟨ruled.1, implies _ _ ruled.2⟩
  | inode request => exact inodeRule_mono reliable ninodes implies ruled
  | fileread => trivial

def use : Discipline Request Answer View := ⟨rule reliable ninodes, rule_mono reliable ninodes⟩

end

section

variable {reliable : Prop} {ninodes : Nat} {view : View} {Value : Type}

@[simp] theorem obeys_within (program : Dir.Prog Value) (post : Value → View → Prop) :
    Obeys (use reliable ninodes) (within program) view post ↔
      Obeys (inodeUse reliable ninodes) program view post :=
  obeys_translate program view post

@[simp] theorem obeys_lift (program : Dir.Prog Value) (post : Value → View → Prop) :
    Obeys (use reliable ninodes) (liftM program : Prog Value) view post ↔
      Obeys (inodeUse reliable ninodes) program view post :=
  obeys_within program post

@[simp] theorem obeys_beginOp (post : Unit → View → Prop) :
    Obeys (use reliable ninodes) beginOp view post ↔
      view.trans = false ∧ post () { view with trans := true } :=
  Iff.rfl

@[simp] theorem obeys_endOp (post : Unit → View → Prop) :
    Obeys (use reliable ninodes) endOp view post ↔
      view.trans = true ∧ post () { view with trans := false } :=
  Iff.rfl

theorem obeys_panic (panic : Dir.Panic) (post : Value → View → Prop) :
    Obeys (inodeUse reliable ninodes) (Dir.panic panic) view post :=
  trivial

end

/-! ## Directories -/

/-- The entries of a directory are for inodes that the disk has. -/
def Ranged (ninodes : Nat) (data : List UInt8) : Prop :=
  ∀ k, DIRENTSIZE * k + DIRENTSIZE ≤ data.length → entryAt data k < ninodes

theorem Ranged.nil (ninodes : Nat) : Ranged ninodes [] := by
  intro k inside
  simp [DIRENTSIZE] at inside

/-! ## Holding references -/

section

variable (reliable : Prop) (ninodes : Nat)

/-- The file system in the middle of a call that holds the pending references.
Between calls nothing is pending. -/
structure Holding (view : View) (pending : List Nat) : Prop where
  refs : ∀ inum, (view.node inum).ref = view.tables.refs inum + pending.count inum
  idle : view.tables.Idle
  inRange : reliable → ∀ inum, 0 < (view.node inum).ref → 0 < inum ∧ inum < ninodes
  typed : reliable → ∀ inum, 0 < view.tables.refs inum → (view.node inum).type ≠ 0
  linked : reliable → ∀ inum, 0 < view.tables.refs inum →
    (view.node inum).valid = true ∨ (view.node inum).nlink ≠ 0
  writable : reliable → ∀ file ∈ view.tables.ftable, file.kind = .inode → file.writable = true →
    (view.node file.ip).type ≠ T_DIR
  ranged : reliable → ∀ inum, (view.node inum).type = T_DIR → Ranged ninodes (view.node inum).data
  live : reliable → ∀ inum, (view.node inum).type ≠ 0 → (view.node inum).nlink = 0 →
    (view.node inum).valid = true ∨ view.orphan inum

/-- What a part of a call leaves alone when it holds the pending references from
its beginning to its end: the inodes that are referenced keep their type, and the
data of those that are not directories. -/
structure Keeps (pending : List Nat) (view after : View) : Prop where
  tables : after.tables = view.tables
  trans : after.trans = view.trans
  valid : ∀ inum, 0 < view.tables.refs inum + pending.count inum →
    (view.node inum).valid = true → (after.node inum).valid = true
  type : reliable → ∀ inum, 0 < view.tables.refs inum + pending.count inum →
    (view.node inum).type ≠ 0 → (after.node inum).type = (view.node inum).type
  data : reliable → ∀ inum, 0 < view.tables.refs inum + pending.count inum →
    (view.node inum).type ≠ 0 → (view.node inum).type ≠ T_DIR →
    (after.node inum).data = (view.node inum).data

/-- What a part of a call leaves alone that does not write. -/
structure Reads (pending : List Nat) (view after : View) : Prop
    extends Keeps reliable pending view after where
  wrote : after.wrote = view.wrote
  nlink : reliable → ∀ inum, 0 < view.tables.refs inum + pending.count inum →
    (view.node inum).type ≠ 0 → (after.node inum).nlink = (view.node inum).nlink

structure Locked (view : View) (ip : Nat) : Prop where
  valid : (view.node ip).valid = true
  typed : reliable → (view.node ip).type ≠ 0

end

end Xv6.Sys
