import Xv6.Dir.Path

/-! # System calls on files

The file functions of `sysfile.c`, `file.c` and `proc.c`. A process is given by
its index in the process table. A system call is one step: a call that panics
has no next state.
-/

namespace Xv6.Dir

open Fs (Device T_DIR T_FILE T_DEV)

/-! ## The file table -/

def Tables.file (tables : Tables) (f : Nat) : File :=
  tables.ftable.getD f ⟨.none, 0, false, false, 0, 0⟩

def Tables.setFile (tables : Tables) (f : Nat) (file : File) : Tables :=
  { tables with ftable := tables.ftable.set f file }

def Tables.proc (tables : Tables) (p : Nat) : Option Proc := tables.procs.getD p none

def Tables.setProc (tables : Tables) (p : Nat) (proc : Option Proc) : Tables :=
  { tables with procs := tables.procs.set p proc }

def setFile (f : Nat) (file : File) : Prog Unit := do
  setTables ((← tables).setFile f file)

def setProc (p : Nat) (proc : Option Proc) : Prog Unit := do
  setTables ((← tables).setProc p proc)

def filealloc : Prog (Option Nat) := do
  let tables ← tables
  match tables.ftable.findIdx? fun file => file.ref = 0 with
  | some f =>
      setFile f { tables.file f with ref := 1 }
      return some f
  | none => return none

def filedup (f : Nat) : Prog Unit := do
  let file := (← tables).file f
  if file.ref < 1 then panic .filedup else setFile f { file with ref := file.ref + 1 }

def fileclose (f : Nat) : Prog Unit := do
  let file := (← tables).file f
  if file.ref < 1 then
    panic .fileclose
  else if 1 < file.ref then
    setFile f { file with ref := file.ref - 1 }
  else
    setFile f { file with ref := 0, kind := .none }
    match file.kind with
    | .none => return ()
    | .inode => iput file.ip

/-- The most bytes that `filewrite` writes in one transaction. -/
abbrev WRITEMAX : Nat := (LOGSIZE - 1 - 1 - 2) / 2 * 512

/-- The loop of `filewrite`, with what is left of the buffer. -/
def filewriteLoop (f : Nat) : (passes : Nat) → (left : List UInt8) → Prog Bool
  | 0, left => return left = []
  | passes + 1, left =>
      if left = [] then
        return true
      else do
        let file := (← tables).file f
        let chunk := left.take WRITEMAX
        ilock file.ip
        let r ← writei file.ip chunk file.off
        let _ ← if 0 < r then setFile f { file with off := file.off + UInt32.ofNat r.toNat }
          else pure ()
        if r < 0 then
          return false
        else if r ≠ chunk.length then
          panic .shortFilewrite
        else
          filewriteLoop f passes (left.drop WRITEMAX)

def filewrite (f : Nat) (buffer : List UInt8) : Prog Int := do
  let file := (← tables).file f
  if file.writable = false then
    return -1
  else
    match file.kind with
    | .none => panic .filewrite
    | .inode =>
        let written ← filewriteLoop f buffer.length buffer
        return if written then buffer.length else -1

/-- `argfd`: the open file of a descriptor. -/
def Proc.file (proc : Proc) (fd : Nat) : Option Nat := proc.ofile.getD fd none

/-- `fdalloc`: the first descriptor that is not in use, given to the file. -/
def fdalloc (p f : Nat) : Prog (Option Nat) := do
  match (← tables).proc p with
  | none => return none
  | some proc =>
      match proc.ofile.findIdx? Option.isNone with
      | some fd =>
          setProc p (some { proc with ofile := proc.ofile.set fd (some f) })
          return some fd
      | none => return none

/-! ## System calls -/

abbrev O_WRONLY : UInt32 := 0x001

abbrev O_RDWR : UInt32 := 0x002

abbrev O_CREATE : UInt32 := 0x200

def cwd (p : Nat) : Prog Nat := do
  return (((← tables).proc p).map Proc.cwd).getD 0

def sysLink (p : Nat) (old new : List UInt8) : Prog Int := do
  let bad ip : Prog Int := do
    ilock ip
    setNlink ip (· - 1)
    iput ip
    return -1
  match ← namei (← cwd p) old with
  | none => return -1
  | some ip =>
      ilock ip
      if (← fields ip).type = T_DIR then
        iput ip
        return -1
      else
        setNlink ip (· + 1)
        match ← nameiparent (← cwd p) new with
        | none => bad ip
        | some (dp, name) =>
            ilock dp
            if (← dirlink dp name ip) < 0 then
              iput dp
              bad ip
            else
              iput dp
              iput ip
              return 0

/-- The loop of `isdirempty`. -/
def isdiremptyLoop (dp size : Nat) : (passes off : Nat) → Prog Bool
  | 0, _ => return true
  | passes + 1, off =>
      if off < size then do
        let de ← readEntry dp off .isdiremptyReadi
        if de.inum ≠ 0 then return false else isdiremptyLoop dp size passes (off + DIRENTSIZE)
      else
        return true

def isdirempty (dp : Nat) : Prog Bool := do
  let size := (← fields dp).size
  isdiremptyLoop dp size (size / DIRENTSIZE + 1) (2 * DIRENTSIZE)

def dot : List UInt8 := [46]

def dotdot : List UInt8 := [46, 46]

/-- The end of `sys_unlink`: clear the entry at `off`, and take off the links that
it stood for. -/
def removeEntry (dp ip off : Nat) (type : Int16) : Prog Int := do
  let count ← writei dp (List.replicate DIRENTSIZE 0) (UInt32.ofNat off)
  if count ≠ DIRENTSIZE then
    panic .unlinkWritei
  else
    let _ ← if type = T_DIR then setNlink dp (· - 1) else pure ()
    iput dp
    setNlink ip (· - 1)
    iput ip
    return 0

def sysUnlink (p : Nat) (path : List UInt8) : Prog Int := do
  match ← nameiparent (← cwd p) path with
  | none => return -1
  | some (dp, name) =>
      ilock dp
      if namecmp name dot = 0 ∨ namecmp name dotdot = 0 then
        iput dp
        return -1
      else
        match ← dirlookup dp name with
        | none =>
            iput dp
            return -1
        | some (ip, off) =>
            ilock ip
            let inode ← fields ip
            if inode.nlink < 1 then
              panic .unlinkNlink
            else
              let full ← if inode.type = T_DIR then (! ·) <$> isdirempty ip else pure false
              if full then
                iput ip
                iput dp
                return -1
              else
                removeEntry dp ip off inode.type

/-- The part of `create` that makes the entries of a new directory. -/
def makeDots (ip dp : Nat) : Prog Unit := do
  setNlink dp (· + 1)
  let first ← dirlink ip dot ip
  let second ← if first < 0 then pure first else dirlink ip dotdot dp
  if second < 0 then panic .createDots else return ()

/-- The part of `create` that makes a new inode. `ialloc` panics itself when there
is no free inode. -/
def makeInode (dp : Nat) (name : List UInt8) (type major minor : Int16) : Prog (Option Nat) := do
  let ip ← ialloc type
  ilock ip
  update ip major minor 1
  let _ ← if type = T_DIR then makeDots ip dp else pure ()
  if (← dirlink dp name ip) < 0 then
    panic .createDirlink
  else
    iput dp
    return some ip

def create (p : Nat) (path : List UInt8) (type major minor : Int16) : Prog (Option Nat) := do
  match ← nameiparent (← cwd p) path with
  | none => return none
  | some (dp, name) =>
      ilock dp
      match ← dirlookup dp name with
      | some (ip, _) =>
          iput dp
          ilock ip
          if type = T_FILE ∧ (← fields ip).type = T_FILE then
            return some ip
          else
            iput ip
            return none
      | none => makeInode dp name type major minor

/-- The end of `sys_open`, with the inode locked. -/
def openFile (p ip : Nat) (omode : UInt32) : Prog Int := do
  match ← filealloc with
  | none =>
      iput ip
      return -1
  | some f =>
      match ← fdalloc p f with
      | none =>
          fileclose f
          iput ip
          return -1
      | some fd =>
          let file := (← tables).file f
          setFile f { file with
            kind := .inode, ip := ip, off := 0
            readable := omode &&& O_WRONLY = 0
            writable := omode &&& O_WRONLY ≠ 0 ∨ omode &&& O_RDWR ≠ 0 }
          return fd

def sysOpen (p : Nat) (path : List UInt8) (omode : UInt32) : Prog Int := do
  if omode &&& O_CREATE ≠ 0 then
    match ← create p path T_FILE 0 0 with
    | none => return -1
    | some ip => openFile p ip omode
  else
    match ← namei (← cwd p) path with
    | none => return -1
    | some ip =>
        ilock ip
        if (← fields ip).type = T_DIR ∧ omode ≠ 0 then
          iput ip
          return -1
        else
          openFile p ip omode

def sysMkdir (p : Nat) (path : List UInt8) : Prog Int := do
  match ← create p path T_DIR 0 0 with
  | none => return -1
  | some ip =>
      iput ip
      return 0

def sysMknod (p : Nat) (path : List UInt8) (major minor : Int16) : Prog Int := do
  match ← create p path T_DEV major minor with
  | none => return -1
  | some ip =>
      iput ip
      return 0

def sysChdir (p : Nat) (path : List UInt8) : Prog Int := do
  match ← namei (← cwd p) path with
  | none => return -1
  | some ip =>
      ilock ip
      if (← fields ip).type ≠ T_DIR then
        iput ip
        return -1
      else
        match (← tables).proc p with
        | none => return -1
        | some proc =>
            iput proc.cwd
            setProc p (some { proc with cwd := ip })
            return 0

def sysDup (p fd : Nat) : Prog Int := do
  match (← tables).proc p with
  | none => return -1
  | some proc =>
      match proc.file fd with
      | none => return -1
      | some f =>
          match ← fdalloc p f with
          | none => return -1
          | some fd =>
              filedup f
              return fd

def sysWrite (p fd : Nat) (buffer : List UInt8) : Prog Int := do
  match ((← tables).proc p).bind (Proc.file · fd) with
  | none => return -1
  | some f => filewrite f buffer

def sysClose (p fd : Nat) : Prog Int := do
  match (← tables).proc p with
  | none => return -1
  | some proc =>
      match proc.file fd with
      | none => return -1
      | some f =>
          setProc p (some { proc with ofile := proc.ofile.set fd none })
          fileclose f
          return 0

/-- The part of `fork` that is about files; `child` is the process that
`allocproc` has found. -/
def fork (p child : Nat) : Prog Int := do
  let tables ← tables
  match tables.proc p with
  | none => return -1
  | some proc =>
      if tables.proc child = none ∧ child < tables.procs.length then
        forM proc.ofile fun file =>
          match file with
          | some f => filedup f
          | none => pure ()
        let cwd ← idup proc.cwd
        setProc child (some { proc with cwd := cwd })
        return child
      else
        return -1

/-- The part of `exit` that is about files. -/
def exit (p : Nat) : Prog Int := do
  let tables ← tables
  match tables.proc p with
  | none => return -1
  | some proc =>
      if p = tables.initproc then
        panic .initExiting
      else
        forM proc.ofile fun file =>
          match file with
          | some f => fileclose f
          | none => pure ()
        iput proc.cwd
        setProc p none
        return 0

inductive SysCall
  | link (old new : List UInt8)
  | unlink (path : List UInt8)
  | open (path : List UInt8) (omode : UInt32)
  | mkdir (path : List UInt8)
  | mknod (path : List UInt8) (major minor : Int16)
  | chdir (path : List UInt8)
  | dup (fd : Nat)
  | write (fd : Nat) (buffer : List UInt8)
  | close (fd : Nat)
  | fork (child : Nat)
  | exit
  deriving DecidableEq

/-- The program of a call made by process `p`. -/
def SysCall.program (p : Nat) : SysCall → Prog Int
  | .link old new => sysLink p old new
  | .unlink path => sysUnlink p path
  | .open path omode => sysOpen p path omode
  | .mkdir path => sysMkdir p path
  | .mknod path major minor => sysMknod p path major minor
  | .chdir path => sysChdir p path
  | .dup fd => sysDup p fd
  | .write fd buffer => sysWrite p fd buffer
  | .close fd => sysClose p fd
  | .fork child => Dir.fork p child
  | .exit => Dir.exit p

abbrev Machine.execute {Value : Type} (devsw : Nat → Device) (program : Prog Value) :
    Kernel Value :=
  Interaction.interpret (serve devsw) program

/-- A call by a process that has not exited. -/
def step (devsw : Nat → Device) (state : State) (action : Nat × SysCall) : Option State :=
  match state.tables.proc action.1 with
  | none => none
  | some _ =>
      match Machine.execute devsw (action.2.program action.1) state with
      | .ok (_, next) => some next
      | .error _ => none

end Xv6.Dir
