import Xv6.Foundation.Interaction
import Xv6.Fs.Files

/-! # The inode layer as seen from above

Directories, path names and file descriptors use inodes through a few functions
of `fs.c`. Here these are requests, served by a machine on which an inode is a
record with its data as a byte list. A pointer to an inode in the cache is
represented by the number of the inode: an inode is cached at most once.
-/

namespace Xv6.Dir

open Fs (Device readBytes writeBytes T_DEV)

inductive Panic
  | fs (panic : Fs.Panic)
  | dirlookupNotDir
  | dirlinkRead
  | dirlink
  | isdiremptyReadi
  | unlinkNlink
  | unlinkWritei
  | createDots
  | createDirlink
  | filedup
  | fileclose
  | filewrite
  | shortFilewrite
  | initExiting
  deriving DecidableEq

/-- How a call ends the run: with a panic, or because it uses an inode that the
disk does not have or that has not been locked, where this machine is stuck. -/
inductive Failure
  | panic (panic : Panic)
  | outOfRange
  | notLocked
  deriving DecidableEq

/-! ## The tables of files and processes -/

/-- Pipes are left out. -/
inductive FileKind
  | none
  | inode
  deriving DecidableEq

structure File where
  kind : FileKind
  ref : Nat
  readable : Bool
  writable : Bool
  ip : Nat
  off : UInt32
  deriving DecidableEq

/-- A process that has not exited. Its open files are indices of `ftable`. -/
structure Proc where
  ofile : List (Option Nat)
  cwd : Nat
  deriving DecidableEq

structure Tables where
  ftable : List File
  procs : List (Option Proc)
  initproc : Nat
  deriving DecidableEq

/-! ## Requests -/

structure Fields where
  type : Int16
  major : Int16
  minor : Int16
  nlink : Int16
  size : Nat

inductive Request
  | iget (inum : Nat)
  | idup (ip : Nat)
  | ialloc (type : Int16)
  | ilock (ip : Nat)
  | iput (ip : Nat)
  | fields (ip : Nat)
  | update (ip : Nat) (major minor nlink : Int16)
  | readi (ip : Nat) (off n : UInt32)
  | writei (ip : Nat) (src : List UInt8) (off : UInt32)
  | tables
  | setTables (tables : Tables)
  | fail (panic : Panic)

def Answer : Request → Type
  | .iget _ | .idup _ | .ialloc _ => Nat
  | .ilock _ | .iput _ | .update _ _ _ _ | .setTables _ => Unit
  | .fields _ => Fields
  | .readi _ _ _ => Int × List UInt8
  | .writei _ _ _ => Int
  | .tables => Tables
  | .fail _ => Empty

abbrev Prog := Interaction Request Answer

def send (request : Request) : Prog (Answer request) := Interaction.send request

def iget (inum : Nat) : Prog Nat := send (.iget inum)

def idup (ip : Nat) : Prog Nat := send (.idup ip)

def ialloc (type : Int16) : Prog Nat := send (.ialloc type)

def ilock (ip : Nat) : Prog Unit := send (.ilock ip)

def iput (ip : Nat) : Prog Unit := send (.iput ip)

def fields (ip : Nat) : Prog Fields := send (.fields ip)

/-- Assign to fields of a locked inode, and call `iupdate`. -/
def update (ip : Nat) (major minor nlink : Int16) : Prog Unit :=
  send (.update ip major minor nlink)

def readi (ip : Nat) (off n : UInt32) : Prog (Int × List UInt8) := send (.readi ip off n)

/-- Write the whole buffer `src`. -/
def writei (ip : Nat) (src : List UInt8) (off : UInt32) : Prog Int := send (.writei ip src off)

def tables : Prog Tables := send .tables

def setTables (tables : Tables) : Prog Unit := send (.setTables tables)

def panic {Value : Type} (panic : Panic) : Prog Value := do
  nomatch ← send (.fail panic)

/-- Change the link count of a locked inode, and call `iupdate`. -/
def setNlink (ip : Nat) (change : Int16 → Int16) : Prog Unit := do
  let inode ← fields ip
  update ip inode.major inode.minor (change inode.nlink)

/-! ## The machine -/

/-- An inode together with its entry in the cache, if `ref` is positive. -/
structure Node where
  type : Int16
  major : Int16
  minor : Int16
  nlink : Int16
  data : List UInt8
  ref : Nat
  valid : Bool
  deriving DecidableEq

def Node.blank : Node := ⟨0, 0, 0, 0, [], 0, false⟩

/-- Inodes are numbered by their position; number zero is not used. -/
structure State where
  nodes : List Node
  tables : Tables
  deriving DecidableEq

namespace State

def node (state : State) (inum : Nat) : Node := state.nodes.getD inum Node.blank

def setNode (state : State) (inum : Nat) (node : Node) : State :=
  { state with nodes := state.nodes.set inum node }

def InRange (state : State) (inum : Nat) : Prop := 0 < inum ∧ inum < state.nodes.length

instance (state : State) (inum : Nat) : Decidable (state.InRange inum) :=
  inferInstanceAs (Decidable (_ ∧ _))

def cached (state : State) : Nat := state.nodes.countP fun node => 0 < node.ref

def device (devsw : Nat → Device) (major : Int16) : Option Device :=
  if major < 0 ∨ NDEV ≤ major.toInt then none else some (devsw major.toInt.toNat)

end State

abbrev Kernel (Value : Type) := Program State Failure Value

namespace Machine

/-- A pointer obtained from `iget` or `idup`. -/
def getNode (ip : Nat) : Kernel Node := do
  let state ← get
  if state.InRange ip then return state.node ip else throw .outOfRange

def setNode (ip : Nat) (node : Node) : Kernel Unit :=
  modify fun state => state.setNode ip node

/-- An inode of which the caller uses the fields or the data. -/
def locked (ip : Nat) : Kernel Node := do
  let node ← getNode ip
  if 0 < node.ref ∧ node.valid then return node else throw .notLocked

def iget (inum : Nat) : Kernel Nat := do
  let node ← getNode inum
  if node.ref = 0 then
    if (← get).cached < NINODE then
      setNode inum { node with ref := 1, valid := false }
      return inum
    else
      throw (.panic (.fs .igetNoInodes))
  else
    setNode inum { node with ref := node.ref + 1 }
    return inum

def idup (ip : Nat) : Kernel Nat := do
  let node ← getNode ip
  setNode ip { node with ref := node.ref + 1 }
  return ip

def ialloc (type : Int16) : Kernel Nat := do
  let state ← get
  let free inum := (state.node inum).type = 0
  match (List.range' 1 (state.nodes.length - 1)).find? fun inum => free inum with
  | some inum =>
      let node := state.node inum
      setNode inum { Node.blank with type := type, ref := node.ref, valid := node.valid }
      iget inum
  | none => throw (.panic (.fs .iallocNoInodes))

def ilock (ip : Nat) : Kernel Unit := do
  let node ← getNode ip
  if node.ref < 1 then
    throw (.panic (.fs .ilock))
  else if node.valid then
    return ()
  else if node.type = 0 then
    throw (.panic (.fs .ilockNoType))
  else
    setNode ip { node with valid := true }

/-- An entry of the cache that is given up is not valid any more. -/
def iput (ip : Nat) : Kernel Unit := do
  let node ← getNode ip
  if node.ref = 1 ∧ node.valid ∧ node.nlink = 0 then
    setNode ip { node with type := 0, data := [], ref := 0, valid := false }
  else
    setNode ip { node with ref := node.ref - 1, valid := node.valid && 1 < node.ref }

def fields (ip : Nat) : Kernel Fields := do
  let node ← locked ip
  return ⟨node.type, node.major, node.minor, node.nlink, node.data.length⟩

def update (ip : Nat) (major minor nlink : Int16) : Kernel Unit := do
  let node ← locked ip
  setNode ip { node with major := major, minor := minor, nlink := nlink }

def readi (devsw : Nat → Device) (ip : Nat) (off n : UInt32) : Kernel (Int × List UInt8) := do
  let node ← locked ip
  if node.type = T_DEV then
    match (State.device devsw node.major).bind Device.read with
    | some read => return read n
    | none => return (-1, [])
  else
    return readBytes node.data off.toNat n.toNat

def writei (devsw : Nat → Device) (ip : Nat) (src : List UInt8) (off : UInt32) : Kernel Int := do
  let node ← locked ip
  let byte index := src.getD index 0
  if node.type = T_DEV then
    match (State.device devsw node.major).bind Device.write with
    | some write => return write byte (UInt32.ofNat src.length)
    | none => return -1
  else
    let (result, data) := writeBytes node.data byte off.toNat (UInt32.ofNat src.length).toNat
    setNode ip { node with data := data }
    return result

def serve (devsw : Nat → Device) : (request : Request) → Kernel (Answer request)
  | .iget inum => iget inum
  | .idup ip => idup ip
  | .ialloc type => ialloc type
  | .ilock ip => ilock ip
  | .iput ip => iput ip
  | .fields ip => fields ip
  | .update ip major minor nlink => update ip major minor nlink
  | .readi ip off n => readi devsw ip off n
  | .writei ip src off => writei devsw ip src off
  | .tables => return (← get).tables
  | .setTables tables => modify fun state => { state with tables := tables }
  | .fail panic => throw (.panic panic)

end Machine

end Xv6.Dir
