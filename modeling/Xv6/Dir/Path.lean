import Xv6.Dir.Layer

/-! # Directories and path names

The functions of `fs.c` on directory entries and on path names. A string is the
list of its bytes before the terminating zero.
-/

namespace Xv6.Dir

open Fs (T_DIR ROOTINO)

abbrev DIRSIZ : Nat := 14

/-- The size of a `struct dirent`. -/
abbrev DIRENTSIZE : Nat := 16

structure Dirent where
  inum : Nat
  name : List UInt8
  deriving DecidableEq

/-- The `ushort` at the start of an entry, and the name after it. -/
def Dirent.load (bytes : List UInt8) : Dirent where
  inum := (bytes.getD 0 0).toNat + 256 * (bytes.getD 1 0).toNat
  name := (bytes.drop 2).take DIRSIZ

def Dirent.store (de : Dirent) : List UInt8 :=
  UInt8.ofNat de.inum :: UInt8.ofNat (de.inum / 256) :: de.name

/-- The difference of the first characters that differ. A string reads as zero at
and after its end. -/
def strncmp : (n : Nat) → (p q : List UInt8) → Int
  | 0, _, _ => 0
  | n + 1, p, q =>
      if p.headD 0 ≠ 0 ∧ p.headD 0 = q.headD 0 then strncmp n p.tail q.tail
      else ((p.headD 0).toNat : Int) - (q.headD 0).toNat

/-- Copy a string to a buffer of `n` bytes, padded with zeros. -/
def strncpy (t : List UInt8) (n : Nat) : List UInt8 :=
  let copied := (t.takeWhile (· ≠ 0)).take n
  copied ++ List.replicate (n - copied.length) 0

def namecmp (s t : List UInt8) : Int := strncmp DIRSIZ s t

/-! ## Directories -/

/-- Read the entry at `off`. -/
def readEntry (dp off : Nat) (failure : Panic) : Prog Dirent := do
  let (count, bytes) ← readi dp (UInt32.ofNat off) (UInt32.ofNat DIRENTSIZE)
  if count ≠ DIRENTSIZE then panic failure else return Dirent.load bytes

/-- The loop of `dirlookup`. -/
def dirlookupLoop (dp : Nat) (name : List UInt8) (size : Nat) :
    (passes off : Nat) → Prog (Option (Nat × Nat))
  | 0, _ => return none
  | passes + 1, off =>
      if off < size then do
        let de ← readEntry dp off .dirlinkRead
        if de.inum ≠ 0 ∧ namecmp name de.name = 0 then
          let ip ← iget de.inum
          return some (ip, off)
        else
          dirlookupLoop dp name size passes (off + DIRENTSIZE)
      else
        return none

/-- The inode and the offset of the entry. -/
def dirlookup (dp : Nat) (name : List UInt8) : Prog (Option (Nat × Nat)) := do
  let inode ← fields dp
  if inode.type ≠ T_DIR then
    panic .dirlookupNotDir
  else
    dirlookupLoop dp name inode.size (inode.size / DIRENTSIZE + 1) 0

/-- The loop of `dirlink`, which looks for an empty entry. -/
def emptyEntryLoop (dp size : Nat) : (passes off : Nat) → Prog Nat
  | 0, off => return off
  | passes + 1, off =>
      if off < size then do
        let de ← readEntry dp off .dirlinkRead
        if de.inum = 0 then return off else emptyEntryLoop dp size passes (off + DIRENTSIZE)
      else
        return off

def dirlink (dp : Nat) (name : List UInt8) (inum : Nat) : Prog Int := do
  match ← dirlookup dp name with
  | some (ip, _) =>
      iput ip
      return -1
  | none =>
      let size := (← fields dp).size
      let off ← emptyEntryLoop dp size (size / DIRENTSIZE + 1) 0
      let de : Dirent := ⟨inum, strncpy name DIRSIZ⟩
      let count ← writei dp de.store (UInt32.ofNat off)
      if count ≠ DIRENTSIZE then panic .dirlink else return 0

/-! ## Paths -/

def slash : UInt8 := 47

/-- The next element of a path, cut to the length of a name, and the path after
it. -/
def skipelem (path : List UInt8) : Option (List UInt8 × List UInt8) :=
  match path.dropWhile (· = slash) with
  | [] => none
  | start => some ((start.takeWhile (· ≠ slash)).take DIRSIZ,
      (start.dropWhile (· ≠ slash)).dropWhile (· = slash))

/-- The loop of `namex`. Every pass takes an element off the path. -/
def namexLoop (nameiparent : Bool) :
    (passes : Nat) → (path name : List UInt8) → (ip : Nat) → Prog (Option (Nat × List UInt8))
  | 0, _, _, _ => return none
  | passes + 1, path, name, ip =>
      match skipelem path with
      | some (name, path) => do
          ilock ip
          let inode ← fields ip
          if inode.type ≠ T_DIR then
            iput ip
            return none
          else if nameiparent ∧ path = [] then
            return some (ip, name)
          else
            match ← dirlookup ip name with
            | none =>
                iput ip
                return none
            | some (next, _) =>
                iput ip
                namexLoop nameiparent passes path name next
      | none =>
          if nameiparent then do
            iput ip
            return none
          else
            return some (ip, name)

/-- `cwd` is the current directory of the calling process. -/
def namex (cwd : Nat) (path : List UInt8) (nameiparent : Bool) :
    Prog (Option (Nat × List UInt8)) := do
  let ip ← if path.head? = some slash then iget ROOTINO else idup cwd
  namexLoop nameiparent (path.length + 1) path [] ip

def namei (cwd : Nat) (path : List UInt8) : Prog (Option Nat) := do
  return (← namex cwd path false).map Prod.fst

def nameiparent (cwd : Nat) (path : List UInt8) : Prog (Option (Nat × List UInt8)) :=
  namex cwd path true

end Xv6.Dir
