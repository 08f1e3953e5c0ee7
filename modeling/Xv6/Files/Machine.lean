import Xv6.Foundation.Program
import Xv6.Foundation.Transition

/-! # Open files and pipes

The table of open files of `file.c`, the descriptors of the processes and the pages of the
pipes, for tables of any size. What a call finds in the file system and whether a page can
be allocated is given with the call. A system call is one step.
-/

namespace Xv6.Files

inductive FileType
  | none
  | pipe
  | inode
  deriving DecidableEq

/-- `struct file` without its place in an inode. A pointer to a pipe is the number of its
page. -/
structure File (npage : Nat) where
  type : FileType
  ref : Nat
  readable : Bool
  writable : Bool
  pipe : Option (Fin npage)
  deriving DecidableEq

/-- The part of `struct pipe` that decides about its lifetime. -/
structure Pipe where
  readopen : Bool
  writeopen : Bool
  deriving DecidableEq

/-- The state of a process; `live` stands for SLEEPING, RUNNABLE and RUNNING. -/
inductive Life
  | unused
  | embryo
  | live
  | zombie
  deriving DecidableEq

structure Proc (nofile nfile : Nat) where
  life : Life
  ofile : Fin nofile → Option (Fin nfile)

/-- `pipes` has the pages that are allocated as pipes. -/
structure State (nproc nofile nfile npage : Nat) where
  ftable : Fin nfile → File npage
  procs : Fin nproc → Proc nofile nfile
  pipes : Fin npage → Option Pipe
  initproc : Fin nproc

/-- How a call ends the run. The last two are errors in the use of memory, which the kernel
does not notice. -/
inductive Failure
  | filedup
  | fileclose
  | initExiting
  | freedTwice
  | usedAfterFree
  deriving DecidableEq

variable {nproc nofile nfile npage : Nat}

namespace State

variable (state : State nproc nofile nfile npage)

def setFile (f : Fin nfile) (file : File npage) : State nproc nofile nfile npage :=
  { state with ftable := Function.update state.ftable f file }

def setPipe (page : Fin npage) (pipe : Option Pipe) : State nproc nofile nfile npage :=
  { state with pipes := Function.update state.pipes page pipe }

def setOfile (p : Fin nproc) (fd : Fin nofile) (file : Option (Fin nfile)) :
    State nproc nofile nfile npage :=
  { state with
    procs := Function.update state.procs p
      { state.procs p with ofile := Function.update (state.procs p).ofile fd file } }

def setLife (p : Fin nproc) (life : Life) : State nproc nofile nfile npage :=
  { state with procs := Function.update state.procs p { state.procs p with life := life } }

def ofile (p : Fin nproc) (fd : Fin nofile) : Option (Fin nfile) := (state.procs p).ofile fd

end State

abbrev Kernel (nproc nofile nfile npage : Nat) (Value : Type) :=
  Program (State nproc nofile nfile npage) Failure Value

/-! ## `file.c` -/

def filealloc : Kernel nproc nofile nfile npage (Option (Fin nfile)) := do
  let state ← get
  match (List.finRange nfile).find? fun f => (state.ftable f).ref = 0 with
  | some f =>
      modify fun state => state.setFile f { state.ftable f with ref := 1 }
      return some f
  | none => return none

def filedup (f : Fin nfile) : Kernel nproc nofile nfile npage (Fin nfile) := do
  let state ← get
  if (state.ftable f).ref < 1 then
    throw .filedup
  else
    modify fun state => state.setFile f { state.ftable f with ref := (state.ftable f).ref + 1 }
    return f

/-- `kfree` of the page of a pipe. -/
def kfree (page : Fin npage) : Kernel nproc nofile nfile npage Unit := do
  let state ← get
  if state.pipes page = none then
    throw .freedTwice
  else
    modify fun state => state.setPipe page none

def pipeclose (page : Fin npage) (writable : Bool) : Kernel nproc nofile nfile npage Unit := do
  let state ← get
  match state.pipes page with
  | none => throw .usedAfterFree
  | some pipe =>
      let pipe := if writable then { pipe with writeopen := false }
        else { pipe with readopen := false }
      modify fun state => state.setPipe page (some pipe)
      if pipe.readopen = false ∧ pipe.writeopen = false then kfree page else return ()

/-- `fileclose`; what it does with an inode is left out. -/
def fileclose (f : Fin nfile) : Kernel nproc nofile nfile npage Unit := do
  let state ← get
  let ff := state.ftable f
  if ff.ref < 1 then
    throw .fileclose
  else if 1 < ff.ref then
    modify fun state => state.setFile f { ff with ref := ff.ref - 1 }
  else
    modify fun state => state.setFile f { ff with ref := 0, type := .none }
    if ff.type = .pipe then
      match ff.pipe with
      | some page => pipeclose page ff.writable
      | none => throw .usedAfterFree
    else
      return ()

/-! ## `pipe.c` -/

/-- The end of a call of `pipealloc` that fails. -/
def pipeallocBad (f0 f1 : Option (Fin nfile)) :
    Kernel nproc nofile nfile npage (Option (Fin nfile × Fin nfile)) := do
  match f0 with
  | some f => fileclose f
  | none => pure ()
  match f1 with
  | some f => fileclose f
  | none => pure ()
  return none

/-- `pipealloc`; `page` is what `kalloc` returns. -/
def pipealloc (page : Option (Fin npage)) :
    Kernel nproc nofile nfile npage (Option (Fin nfile × Fin nfile)) := do
  match ← filealloc with
  | none => pipeallocBad none none
  | some f0 =>
      match ← filealloc with
      | none => pipeallocBad (some f0) none
      | some f1 =>
          match page with
          | none => pipeallocBad (some f0) (some f1)
          | some page =>
              modify fun state => state.setPipe page (some ⟨true, true⟩)
              modify fun state => state.setFile f0 { state.ftable f0 with
                type := .pipe, readable := true, writable := false, pipe := some page }
              modify fun state => state.setFile f1 { state.ftable f1 with
                type := .pipe, readable := false, writable := true, pipe := some page }
              return some (f0, f1)

/-! ## `sysfile.c` -/

/-- `argfd`. -/
def argfd (p : Fin nproc) (fd : Int) :
    Kernel nproc nofile nfile npage (Option (Fin nofile × Fin nfile)) := do
  let state ← get
  if inside : 0 ≤ fd ∧ fd < nofile then
    let fd : Fin nofile := ⟨fd.toNat, by omega⟩
    match state.ofile p fd with
    | some f => return some (fd, f)
    | none => return none
  else
    return none

def fdalloc (p : Fin nproc) (f : Fin nfile) :
    Kernel nproc nofile nfile npage (Option (Fin nofile)) := do
  let state ← get
  match (List.finRange nofile).find? fun fd => state.ofile p fd = none with
  | some fd =>
      modify fun state => state.setOfile p fd (some f)
      return some fd
  | none => return none

def sysDup (p : Fin nproc) (fd : Int) : Kernel nproc nofile nfile npage Int := do
  match ← argfd p fd with
  | none => return -1
  | some (_, f) =>
      match ← fdalloc p f with
      | none => return -1
      | some fd =>
          let _ ← filedup f
          return fd

def sysClose (p : Fin nproc) (fd : Int) : Kernel nproc nofile nfile npage Int := do
  match ← argfd p fd with
  | none => return -1
  | some (fd, f) =>
      modify fun state => state.setOfile p fd none
      fileclose f
      return 0

/-- `sys_open`, from the point at which the inode is found; `found` is false if it is not. -/
def sysOpen (p : Fin nproc) (found readable writable : Bool) :
    Kernel nproc nofile nfile npage Int := do
  if found then
    match ← filealloc with
    | none => return -1
    | some f =>
        match ← fdalloc p f with
        | none =>
            fileclose f
            return -1
        | some fd =>
            modify fun state => state.setFile f { state.ftable f with
              type := .inode, readable := readable, writable := writable }
            return fd
  else
    return -1

/-- The end of a call of `sys_pipe` that fails. -/
def sysPipeBad (p : Fin nproc) (fd0 : Option (Fin nofile)) (rf wf : Fin nfile) :
    Kernel nproc nofile nfile npage Int := do
  match fd0 with
  | some fd0 => modify fun state => state.setOfile p fd0 none
  | none => pure ()
  fileclose rf
  fileclose wf
  return -1

/-- `sys_pipe`; `valid` is the answer of `argptr`. -/
def sysPipe (p : Fin nproc) (valid : Bool) (page : Option (Fin npage)) :
    Kernel nproc nofile nfile npage Int := do
  if valid then
    match ← pipealloc page with
    | none => return -1
    | some (rf, wf) =>
        match ← fdalloc p rf with
        | none => sysPipeBad p none rf wf
        | some fd0 =>
            match ← fdalloc p wf with
            | none => sysPipeBad p (some fd0) rf wf
            | some _ => return 0
  else
    return -1

/-! ## `proc.c` -/

/-- `fork`: whether there is a kernel stack and whether the memory can be copied is given.
The descriptors are copied over those that are in the slot. -/
def fork (p : Fin nproc) (stack copied : Bool) : Kernel nproc nofile nfile npage Int := do
  let state ← get
  match (List.finRange nproc).find? fun np => (state.procs np).life = .unused with
  | none => return -1
  | some np =>
      modify fun state => state.setLife np .embryo
      if stack ∧ copied then
        forM (List.finRange nofile) fun fd => do
          match (← get).ofile p fd with
          | some f =>
              let f ← filedup f
              modify fun state => state.setOfile np fd (some f)
          | none => pure ()
        modify fun state => state.setLife np .live
        return np
      else
        modify fun state => state.setLife np .unused
        return -1

def exit (p : Fin nproc) : Kernel nproc nofile nfile npage Int := do
  let state ← get
  if p = state.initproc then
    throw .initExiting
  else
    forM (List.finRange nofile) fun fd => do
      match (← get).ofile p fd with
      | some f =>
          fileclose f
          modify fun state => state.setOfile p fd none
      | none => pure ()
    modify fun state => state.setLife p .zombie
    return 0

/-- What `wait` and `wait_stat` do with the slot of the child that they return. -/
def wait (child : Fin nproc) : Kernel nproc nofile nfile npage Int := do
  let state ← get
  if (state.procs child).life = .zombie then
    modify fun state => state.setLife child .unused
    return child
  else
    return -1

/-! ## Steps -/

inductive Call (nproc npage : Nat)
  | open (found readable writable : Bool)
  | pipe (valid : Bool) (page : Option (Fin npage))
  | dup (fd : Int)
  | close (fd : Int)
  | fork (stack copied : Bool)
  | exit
  | wait (child : Fin nproc)
  deriving DecidableEq

def Call.program (p : Fin nproc) : Call nproc npage → Kernel nproc nofile nfile npage Int
  | .open found readable writable => sysOpen p found readable writable
  | .pipe valid page => sysPipe p valid page
  | .dup fd => sysDup p fd
  | .close fd => sysClose p fd
  | .fork stack copied => Files.fork p stack copied
  | .exit => Files.exit p
  | .wait child => Files.wait child

/-- `kalloc` returns a page that is not in use, if any. -/
def Call.Possible (state : State nproc nofile nfile npage) : Call nproc npage → Prop
  | .pipe _ (some page) => state.pipes page = none
  | _ => True

instance (state : State nproc nofile nfile npage) (call : Call nproc npage) :
    Decidable (call.Possible state) := by
  unfold Call.Possible
  split
  · infer_instance
  · infer_instance

/-- A call by a process that has not exited. -/
def step (state : State nproc nofile nfile npage) (action : Fin nproc × Call nproc npage) :
    Option (State nproc nofile nfile npage) :=
  if (state.procs action.1).life = .live ∧ action.2.Possible state then
    match (action.2.program action.1 : Kernel nproc nofile nfile npage Int) state with
    | .ok (_, next) => some next
    | .error _ => none
  else none

def booted (nproc nofile nfile npage : Nat) : State (nproc + 1) nofile nfile npage where
  ftable := fun _ => ⟨.none, 0, false, false, none⟩
  procs := fun p => ⟨if p = 0 then .live else .unused, fun _ => none⟩
  pipes := fun _ => none
  initproc := 0

end Xv6.Files
