import Xv6.Foundation.Discipline
import Xv6.Dir.SysFile

/-! # System calls and their transactions

The file system calls with `begin_op` and `end_op` where the source has them, on
every way out of a call. What happens between the two is put together from the
functions on paths and directories. Arguments that cannot be fetched from the
user are given as `none`.
-/

namespace Xv6.Sys

open Interaction
open Dir (Proc Fields ilock iput fields setNlink readi writei tables setFile setProc filealloc
  fdalloc cwd namei nameiparent dirlookup dirlink isdirempty create namecmp dot dotdot DIRENTSIZE
  WRITEMAX O_WRONLY O_RDWR O_CREATE)
open Fs (T_DIR T_FILE T_DEV)

/-! ## Requests -/

inductive Request
  | beginOp
  | endOp
  | inode (request : Dir.Request)
  | fileread

def Answer : Request → Type
  | .beginOp | .endOp => Unit
  | .inode request => Dir.Answer request
  | .fileread => Empty

abbrev Prog := Interaction Request Answer

def send (request : Request) : Prog (Answer request) := Interaction.send request

def beginOp : Prog Unit := send .beginOp

def endOp : Prog Unit := send .endOp

/-- The panic of `fileread`. -/
def panicFileread {Value : Type} : Prog Value := do
  nomatch ← send .fileread

def pass (request : Dir.Request) : Prog (Dir.Answer request) := send (.inode request)

/-- A program that does not care about transactions. -/
def within {Value : Type} (program : Dir.Prog Value) : Prog Value := translate pass program

instance : MonadLift Dir.Prog Prog := ⟨within⟩

/-! ## Names -/

def sysLink (p : Nat) : (paths : Option (List UInt8 × List UInt8)) → Prog Int
  | none => return -1
  | some (old, new) => do
      let bad ip : Prog Int := do
        ilock ip
        setNlink ip (· - 1)
        iput ip
        endOp
        return -1
      beginOp
      match ← namei (← cwd p) old with
      | none =>
          endOp
          return -1
      | some ip =>
          ilock ip
          if (← fields ip).type = T_DIR then
            iput ip
            endOp
            return -1
          else
            setNlink ip (· + 1)
            match ← nameiparent (← cwd p) new with
            | none => bad ip
            | some (dp, name) =>
                ilock dp
                if (← dirlink dp name ip) < 0 then
                  iput dp
                  bad ip
                else
                  iput dp
                  iput ip
                  endOp
                  return 0

/-- The end of `sys_unlink`: clear the entry at `off`, and take off the links that
it stood for. -/
def removeEntry (dp ip off : Nat) (type : Int16) : Prog Int := do
  let count ← writei dp (List.replicate DIRENTSIZE 0) (UInt32.ofNat off)
  if count ≠ DIRENTSIZE then
    Dir.panic .unlinkWritei
  else
    let _ ← if type = T_DIR then setNlink dp (· - 1) else pure ()
    iput dp
    setNlink ip (· - 1)
    iput ip
    endOp
    return 0

def sysUnlink (p : Nat) : (path : Option (List UInt8)) → Prog Int
  | none => return -1
  | some path => do
      let bad dp : Prog Int := do
        iput dp
        endOp
        return -1
      beginOp
      match ← nameiparent (← cwd p) path with
      | none =>
          endOp
          return -1
      | some (dp, name) =>
          ilock dp
          if namecmp name dot = 0 ∨ namecmp name dotdot = 0 then
            bad dp
          else
            match ← dirlookup dp name with
            | none => bad dp
            | some (ip, off) =>
                ilock ip
                let inode ← fields ip
                if inode.nlink < 1 then
                  Dir.panic .unlinkNlink
                else
                  let full ← if inode.type = T_DIR then (! ·) <$> isdirempty ip else pure false
                  if full then
                    iput ip
                    bad dp
                  else
                    removeEntry dp ip off inode.type

/-- `sys_mkdir` -/
def sysMkdir (p : Nat) (path : Option (List UInt8)) : Prog Int := do
  beginOp
  match path with
  | none =>
      endOp
      return -1
  | some path =>
      match ← create p path T_DIR 0 0 with
      | none =>
          endOp
          return -1
      | some ip =>
          iput ip
          endOp
          return 0

def sysMknod (p : Nat) (args : Option (List UInt8 × Int16 × Int16)) : Prog Int := do
  beginOp
  match args with
  | none =>
      endOp
      return -1
  | some (path, major, minor) =>
      match ← create p path T_DEV major minor with
      | none =>
          endOp
          return -1
      | some ip =>
          iput ip
          endOp
          return 0

def sysChdir (p : Nat) (path : Option (List UInt8)) : Prog Int := do
  beginOp
  match path with
  | none =>
      endOp
      return -1
  | some path =>
      match ← namei (← cwd p) path with
      | none =>
          endOp
          return -1
      | some ip =>
          ilock ip
          if (← fields ip).type ≠ T_DIR then
            iput ip
            endOp
            return -1
          else
            match (← tables).proc p with
            | none => return -1
            | some proc =>
                iput proc.cwd
                endOp
                setProc p (some { proc with cwd := ip })
                return 0

/-! ## Files -/

/-- A file that is closed for good gives up its inode in a transaction of its own. -/
def fileclose (f : Nat) : Prog Unit := do
  let file := (← tables).file f
  if file.ref < 1 then
    Dir.panic .fileclose
  else if 1 < file.ref then
    setFile f { file with ref := file.ref - 1 }
  else
    setFile f { file with ref := 0, kind := .none }
    match file.kind with
    | .none => return ()
    | .inode =>
        beginOp
        iput file.ip
        endOp

/-- The end of `sys_open`, with the inode locked. -/
def openFile (p ip : Nat) (omode : UInt32) : Prog Int := do
  match ← filealloc with
  | none =>
      iput ip
      endOp
      return -1
  | some f =>
      match ← fdalloc p f with
      | none =>
          fileclose f
          iput ip
          endOp
          return -1
      | some fd =>
          endOp
          let file := (← tables).file f
          setFile f { file with
            kind := .inode, ip := ip, off := 0
            readable := omode &&& O_WRONLY = 0
            writable := omode &&& O_WRONLY ≠ 0 ∨ omode &&& O_RDWR ≠ 0 }
          return fd

def sysOpen (p : Nat) : (args : Option (List UInt8 × UInt32)) → Prog Int
  | none => return -1
  | some (path, omode) => do
      beginOp
      if omode &&& O_CREATE ≠ 0 then
        match ← create p path T_FILE 0 0 with
        | none =>
            endOp
            return -1
        | some ip => openFile p ip omode
      else
        match ← namei (← cwd p) path with
        | none =>
            endOp
            return -1
        | some ip =>
            ilock ip
            if (← fields ip).type = T_DIR ∧ omode ≠ 0 then
              iput ip
              endOp
              return -1
            else
              openFile p ip omode

def sysClose (p fd : Nat) : Prog Int := do
  match (← tables).proc p with
  | none => return -1
  | some proc =>
      match proc.file fd with
      | none => return -1
      | some f =>
          setProc p (some { proc with ofile := proc.ofile.set fd none })
          fileclose f
          return 0

/-- The result of `read` together with the bytes it stored. -/
def fileread (f : Nat) (n : UInt32) : Prog (Int × List UInt8) := do
  let file := (← tables).file f
  if file.readable = false then
    return (-1, [])
  else
    match file.kind with
    | .none => panicFileread
    | .inode =>
        ilock file.ip
        let (r, data) ← readi file.ip file.off n
        let _ ← if 0 < r then (setFile f { file with off := file.off + UInt32.ofNat r.toNat } : Prog Unit)
          else pure ()
        return (r, data)

def sysRead (p fd : Nat) (n : UInt32) : Prog (Int × List UInt8) := do
  match ((← tables).proc p).bind (Proc.file · fd) with
  | none => return (-1, [])
  | some f => fileread f n

/-- The loop of `filewrite`, with what is left of the buffer. Every chunk has a
transaction of its own. -/
def filewriteLoop (f : Nat) : (passes : Nat) → (left : List UInt8) → Prog Bool
  | 0, left => return left = []
  | passes + 1, left =>
      if left = [] then
        return true
      else do
        let file := (← tables).file f
        let chunk := left.take WRITEMAX
        beginOp
        ilock file.ip
        let r ← writei file.ip chunk file.off
        let _ ← if 0 < r then (setFile f { file with off := file.off + UInt32.ofNat r.toNat } : Prog Unit)
          else pure ()
        endOp
        if r < 0 then
          return false
        else if r ≠ chunk.length then
          Dir.panic .shortFilewrite
        else
          filewriteLoop f passes (left.drop WRITEMAX)

def filewrite (f : Nat) (buffer : List UInt8) : Prog Int := do
  let file := (← tables).file f
  if file.writable = false then
    return -1
  else
    match file.kind with
    | .none => Dir.panic .filewrite
    | .inode =>
        let written ← filewriteLoop f buffer.length buffer
        return if written then buffer.length else -1

def sysWrite (p fd : Nat) (buffer : List UInt8) : Prog Int := do
  match ((← tables).proc p).bind (Proc.file · fd) with
  | none => return -1
  | some f => filewrite f buffer

/-- `stati` copies the fields of the locked inode. -/
def filestat (f : Nat) : Prog (Option Fields) := do
  let file := (← tables).file f
  match file.kind with
  | .none => return none
  | .inode =>
      ilock file.ip
      return some (← fields file.ip)

def sysFstat (p fd : Nat) : Prog Int := do
  match ((← tables).proc p).bind (Proc.file · fd) with
  | none => return -1
  | some f => return if (← filestat f).isSome then 0 else -1

/-! ## Processes -/

abbrev ELF_MAGIC : UInt32 := 0x464C457F

abbrev ELF_PROG_LOAD : UInt32 := 1

/-- The sizes of `struct elfhdr` and of `struct proghdr`. -/
abbrev ELFHDRSIZE : Nat := 52

abbrev PROGHDRSIZE : Nat := 32

abbrev PGSIZE : UInt32 := 4096

abbrev KERNBASE : UInt32 := 0x80000000

/-- The integer stored in `width` bytes, least significant first. -/
def field (bytes : List UInt8) (offset width : Nat) : UInt32 :=
  UInt32.ofNat ((List.range width).foldr
    (fun index high => (bytes.getD (offset + index) 0).toNat + 256 * high) 0)

/-- What becomes of the requests for memory that `exec` makes: for the kernel part
of the page directory, for the segments, and for everything after them. -/
structure Memory where
  setupkvm : Bool
  allocuvm : Nat → Bool
  rest : Bool

/-- `allocuvm` when its requests for pages are met, or not. -/
def allocuvm (enough : Bool) (oldsz newsz : UInt32) : UInt32 :=
  if KERNBASE ≤ newsz then 0
  else if newsz < oldsz then oldsz
  else if enough then newsz
  else 0

/-- The loop of `loaduvm`. The pages are there: `allocuvm` has made them. -/
def loaduvm (ip : Nat) (offset sz : UInt32) : (passes : Nat) → (i : UInt32) → Dir.Prog Bool
  | 0, _ => return true
  | passes + 1, i =>
      if i < sz then do
        let n := if sz - i < PGSIZE then sz - i else PGSIZE
        let (count, _) ← readi ip (offset + i) n
        if count ≠ n.toNat then return false else loaduvm ip offset sz passes (i + PGSIZE)
      else
        return true

/-- The loop of `exec` over the program headers, of which `left` are left. -/
def loadSegments (ip : Nat) (memory : Memory) : (left i : Nat) → (off sz : UInt32) → Dir.Prog Bool
  | 0, _, _, _ => return true
  | left + 1, i, off, sz => do
      let (count, ph) ← readi ip off (UInt32.ofNat PROGHDRSIZE)
      let offset := field ph 4 4
      let vaddr := field ph 8 4
      let filesz := field ph 16 4
      let memsz := field ph 20 4
      if count ≠ PROGHDRSIZE then
        return false
      else if field ph 0 4 ≠ ELF_PROG_LOAD then
        loadSegments ip memory left (i + 1) (off + UInt32.ofNat PROGHDRSIZE) sz
      else if memsz < filesz then
        return false
      else if vaddr + memsz < vaddr then
        return false
      else
        let sz := allocuvm (memory.allocuvm i) sz (vaddr + memsz)
        if sz = 0 then
          return false
        else if vaddr % PGSIZE ≠ 0 then
          return false
        else if ← loaduvm ip offset filesz (filesz / PGSIZE + 1).toNat 0 then
          loadSegments ip memory left (i + 1) (off + UInt32.ofNat PROGHDRSIZE) sz
        else
          return false

/-- `exec` up to the end of its transaction. Nothing after it concerns files. -/
def exec (p : Nat) (path : List UInt8) (memory : Memory) : Prog Int := do
  beginOp
  match ← namei (← cwd p) path with
  | none =>
      endOp
      return -1
  | some ip =>
      let bad : Prog Int := do
        iput ip
        endOp
        return -1
      ilock ip
      let (count, elf) ← readi ip 0 (UInt32.ofNat ELFHDRSIZE)
      if count ≠ ELFHDRSIZE then
        bad
      else if field elf 0 4 ≠ ELF_MAGIC then
        bad
      else if memory.setupkvm = false then
        bad
      else if ← loadSegments ip memory (field elf 44 2).toNat 0 (field elf 28 4) 0 then
        iput ip
        endOp
        return if memory.rest then 0 else -1
      else
        bad

def sysExec (p : Nat) (path : Option (List UInt8)) (memory : Memory) : Prog Int :=
  match path with
  | none => return -1
  | some path => exec p path memory

def exit (p : Nat) : Prog Int := do
  let tables ← tables
  match tables.proc p with
  | none => return -1
  | some proc =>
      if p = tables.initproc then
        Dir.panic .initExiting
      else
        forM proc.ofile fun file =>
          match file with
          | some f => fileclose f
          | none => pure ()
        beginOp
        iput proc.cwd
        endOp
        setProc p none
        return 0

/-! ## Calls -/

inductive Call
  | link (paths : Option (List UInt8 × List UInt8))
  | unlink (path : Option (List UInt8))
  | open (args : Option (List UInt8 × UInt32))
  | mkdir (path : Option (List UInt8))
  | mknod (args : Option (List UInt8 × Int16 × Int16))
  | chdir (path : Option (List UInt8))
  | dup (fd : Nat)
  | read (fd : Nat) (n : UInt32)
  | write (fd : Nat) (buffer : List UInt8)
  | fstat (fd : Nat)
  | close (fd : Nat)
  | exec (path : Option (List UInt8)) (memory : Memory)
  | fork (child : Nat)
  | exit

/-- What a call returns, and for `read` the bytes it stored. -/
abbrev Outcome := Int × List UInt8

def Call.program (p : Nat) : Call → Prog Outcome
  | .link paths => (·, []) <$> sysLink p paths
  | .unlink path => (·, []) <$> sysUnlink p path
  | .open args => (·, []) <$> sysOpen p args
  | .mkdir path => (·, []) <$> sysMkdir p path
  | .mknod args => (·, []) <$> sysMknod p args
  | .chdir path => (·, []) <$> sysChdir p path
  | .dup fd => (·, []) <$> within (Dir.sysDup p fd)
  | .read fd n => sysRead p fd n
  | .write fd buffer => (·, []) <$> sysWrite p fd buffer
  | .fstat fd => (·, []) <$> sysFstat p fd
  | .close fd => (·, []) <$> sysClose p fd
  | .exec path memory => (·, []) <$> sysExec p path memory
  | .fork child => (·, []) <$> within (Dir.fork p child)
  | .exit => (·, []) <$> Sys.exit p

end Xv6.Sys
