import Xv6.Fs.Layout
import Xv6.Foundation.Program

/-! # Blocks and inodes

The block allocator and the inode layer of `fs.c`. Block contents are those that
`bread` gives to the holder of the buffer, so that a logged write is seen at
once. There is one device, and the caller of a function holds the locks the
source asks for.
-/

namespace Xv6.Fs

inductive Panic
  | outOfBlocks
  | freeingFreeBlock
  | iallocNoInodes
  | igetNoInodes
  | ilock
  | ilockNoType
  | bmapOutOfRange
  deriving DecidableEq

/-- An entry of the inode cache. `copy` is the copy of the disk inode. -/
structure Inode where
  inum : Nat
  ref : Nat
  valid : Bool
  copy : Dinode

/-- The functions of a device, either of which may be missing. -/
structure Device where
  read : Option (UInt32 → Int × List UInt8)
  write : Option ((Nat → UInt8) → UInt32 → Int)

structure Store where
  sb : Superblock
  blocks : Disk
  icache : Fin NINODE → Inode
  devsw : Nat → Device

/-- What is recorded about a run: the blocks passed to `log_write`, and the
calls of `balloc` with the state they started from. -/
inductive Event
  | logWrite (blockno : Nat)
  | balloc (before : Store) (block : Nat)

structure State extends Store where
  events : List Event

abbrev Kernel (Value : Type) := Program State Panic Value

def bread (blockno : Nat) : Kernel Block := do
  return (← get).blocks blockno

/-- Put new contents into a buffer and pass it to `log_write`. -/
def logWrite (blockno : Nat) (data : Block) : Kernel Unit :=
  modify fun state => { state with
    blocks := Function.update state.blocks blockno data
    events := .logWrite blockno :: state.events }

def setInode (ip : Fin NINODE) (change : Inode → Inode) : Kernel Unit :=
  modify fun state => { state with
    icache := Function.update state.icache ip (change (state.icache ip)) }

def readsb : Kernel Superblock := do
  return .load (← bread 1)

/-! ## Blocks -/

def bzero (bno : Nat) : Kernel Unit :=
  logWrite bno (Bytes.zero BSIZE)

/-- The two loops of `balloc`. `count` bounds the number of bit map blocks that
are left. -/
def ballocFrom : (count b : Nat) → Kernel Nat
  | 0, _ => throw .outOfBlocks
  | count + 1, b => do
      let sb := (← get).sb
      if b < sb.size then
        let bitmap ← bread (sb.bblock b)
        match (List.range (min BPB (sb.size - b))).find? (fun bi => !bitmap.bit bi) with
        | some bi =>
            logWrite (sb.bblock b) (bitmap.setBit bi)
            bzero (b + bi)
            return b + bi
        | none => ballocFrom count (b + BPB)
      else
        throw .outOfBlocks

def balloc : Kernel Nat := do
  let before ← get
  let block ← ballocFrom (before.sb.size / BPB + 1) 0
  modify fun state => { state with events := .balloc before.toStore block :: state.events }
  return block

def bfree (b : Nat) : Kernel Unit := do
  let sb ← readsb
  modify fun state => { state with sb := sb }
  let bitmap ← bread (sb.bblock b)
  if bitmap.bit (b % BPB) then
    logWrite (sb.bblock b) (bitmap.clearBit (b % BPB))
  else
    throw .freeingFreeBlock

/-! ## Inodes -/

def slotOffset (inum : Nat) : Nat := DINODESIZE * (inum % IPB)

def Store.dinode (store : Store) (inum : Nat) : Dinode :=
  .load (store.blocks (store.sb.iblock inum)) (slotOffset inum)

def putDinode (inum : Nat) (dinode : Dinode) : Kernel Unit := do
  let sb := (← get).sb
  let block ← bread (sb.iblock inum)
  logWrite (sb.iblock inum) (dinode.store block (slotOffset inum))

def iget (inum : Nat) : Kernel (Fin NINODE) := do
  let icache := (← get).icache
  match (List.finRange NINODE).find? fun ip => 0 < (icache ip).ref ∧ (icache ip).inum = inum with
  | some ip =>
      setInode ip fun inode => { inode with ref := inode.ref + 1 }
      return ip
  | none =>
      match (List.finRange NINODE).find? fun ip => (icache ip).ref = 0 with
      | some ip =>
          setInode ip fun inode => { inode with inum := inum, ref := 1, valid := false }
          return ip
      | none => throw .igetNoInodes

def idup (ip : Fin NINODE) : Kernel (Fin NINODE) := do
  setInode ip fun inode => { inode with ref := inode.ref + 1 }
  return ip

def ialloc (type : Int16) : Kernel (Fin NINODE) := do
  let state ← get
  match (List.range' 1 (state.sb.ninodes - 1)).find? fun inum =>
      (state.dinode inum).type = 0 with
  | some inum =>
      putDinode inum { Dinode.blank with type := type }
      iget inum
  | none => throw .iallocNoInodes

def iupdate (ip : Fin NINODE) : Kernel Unit := do
  let inode := (← get).icache ip
  putDinode inode.inum inode.copy

def ilock (ip : Fin NINODE) : Kernel Unit := do
  let state ← get
  let inode := state.icache ip
  if inode.ref < 1 then
    throw .ilock
  else if inode.valid then
    return ()
  else
    let dinode := state.dinode inode.inum
    setInode ip fun inode => { inode with copy := dinode, valid := true }
    if dinode.type = 0 then throw .ilockNoType else return ()

/-! ## Inode content -/

/-- Set entry `index` of `ip->addrs`. -/
def setAddr (ip : Fin NINODE) (index : Fin (NDIRECT + 1)) (block : Nat) : Kernel Unit :=
  setInode ip fun inode => { inode with
    copy := { inode.copy with
      addrs := Function.update inode.copy.addrs index (UInt32.ofNat block) } }

/-- The block number in `ip->addrs[index]`, allocated if there is none. -/
def addrAt (ip : Fin NINODE) (index : Fin (NDIRECT + 1)) : Kernel Nat := do
  let addr := ((← get).icache ip).copy.addrs index
  if addr = 0 then
    let block ← balloc
    setAddr ip index block
    return block
  else
    return addr.toNat

/-- The block number at an index of an indirect block, allocated if there is
none. The buffer is the one of the cache, so it is read again after `balloc`. -/
def entryAt (indirect index : Nat) : Kernel Nat := do
  let table ← bread indirect
  let addr := table.getLE 4 (4 * index)
  if addr = 0 then
    let block ← balloc
    let table ← bread indirect
    logWrite indirect (table.putLE 4 (4 * index) block)
    return block
  else
    return addr

def bmap (ip : Fin NINODE) (bn : Nat) : Kernel Nat :=
  if direct : bn < NDIRECT then
    addrAt ip ⟨bn, Nat.lt_succ_of_lt direct⟩
  else if bn - NDIRECT < NINDIRECT then do
    let indirect ← addrAt ip (Fin.last NDIRECT)
    entryAt indirect (bn - NDIRECT)
  else
    throw .bmapOutOfRange

/-- Free the block in `ip->addrs[index]`, if there is one. -/
def truncAddr (ip : Fin NINODE) (index : Fin (NDIRECT + 1)) : Kernel Unit := do
  let addr := ((← get).icache ip).copy.addrs index
  if addr = 0 then
    return ()
  else
    bfree addr.toNat
    setAddr ip index 0

/-- Free the block at an index of an indirect block, if there is one. -/
def truncEntry (indirect index : Nat) : Kernel Unit := do
  let table ← bread indirect
  let addr := table.getLE 4 (4 * index)
  if addr = 0 then return () else bfree addr

def truncIndirect (ip : Fin NINODE) : Kernel Unit := do
  let addr := ((← get).icache ip).copy.addrs (Fin.last NDIRECT)
  if addr = 0 then
    return ()
  else
    forM (List.range NINDIRECT) (truncEntry addr.toNat)
    truncAddr ip (Fin.last NDIRECT)

def itrunc (ip : Fin NINODE) : Kernel Unit := do
  forM (List.finRange NDIRECT) fun index => truncAddr ip index.castSucc
  truncIndirect ip
  setInode ip fun inode => { inode with copy := { inode.copy with size := 0 } }
  iupdate ip

/-- The part of `iput` that frees an inode without links. -/
def ifree (ip : Fin NINODE) : Kernel Unit := do
  itrunc ip
  setInode ip fun inode => { inode with copy := { inode.copy with type := 0 } }
  iupdate ip
  setInode ip fun inode => { inode with valid := false }

def iput (ip : Fin NINODE) : Kernel Unit := do
  let inode := (← get).icache ip
  let _ ← if inode.ref = 1 ∧ inode.valid ∧ inode.copy.nlink = 0 then ifree ip else pure ()
  setInode ip fun inode => { inode with ref := inode.ref - 1 }

/-- The loop of `readi`, with `left` standing for `n - tot`. Every pass reads at
least one byte, so `n` passes suffice. -/
def readLoop (ip : Fin NINODE) : (passes left off : Nat) → Kernel (List UInt8)
  | 0, _, _ => return []
  | passes + 1, left, off =>
      if left = 0 then
        return []
      else do
        let data ← bread (← bmap ip (off / BSIZE))
        let m := min left (BSIZE - off % BSIZE)
        let rest ← readLoop ip passes (left - m) (off + m)
        return data.slice (off % BSIZE) m ++ rest

def Store.device (store : Store) (major : Int16) : Option Device :=
  if major < 0 ∨ NDEV ≤ major.toInt then none else some (store.devsw major.toInt.toNat)

/-- The result of `readi` together with the bytes it stored at `dst`. -/
def readi (ip : Fin NINODE) (off n : UInt32) : Kernel (Int × List UInt8) := do
  let state ← get
  let copy := (state.icache ip).copy
  if copy.type = T_DEV then
    match (state.device copy.major).bind Device.read with
    | some read => return read n
    | none => return (-1, [])
  else if copy.size < off ∨ off + n < off then
    return (-1, [])
  else
    let n := if copy.size < off + n then copy.size - off else n
    let data ← readLoop ip n.toNat n.toNat off.toNat
    return (n.toBitVec.toInt, data)

/-- The loop of `writei`, with `left` standing for `n - tot`. -/
def writeLoop (ip : Fin NINODE) (src : Nat → UInt8) : (passes left tot off : Nat) → Kernel Unit
  | 0, _, _, _ => return ()
  | passes + 1, left, tot, off =>
      if left = 0 then
        return ()
      else do
        let blockno ← bmap ip (off / BSIZE)
        let data ← bread blockno
        let m := min left (BSIZE - off % BSIZE)
        logWrite blockno
          (data.splice (off % BSIZE) ((List.range m).map fun index => src (tot + index)))
        writeLoop ip src passes (left - m) (tot + m) (off + m)

/-- The end of `writei`: the file has grown to `off`. -/
def growTo (ip : Fin NINODE) (off : UInt32) : Kernel Unit := do
  setInode ip fun inode => { inode with copy := { inode.copy with size := off } }
  iupdate ip

def writei (ip : Fin NINODE) (src : Nat → UInt8) (off n : UInt32) : Kernel Int := do
  let state ← get
  let copy := (state.icache ip).copy
  if copy.type = T_DEV then
    match (state.device copy.major).bind Device.write with
    | some write => return write src n
    | none => return -1
  else if copy.size < off ∨ off + n < off then
    return -1
  else if UInt32.ofNat (MAXFILE * BSIZE) < off + n then
    return -1
  else
    writeLoop ip src n.toNat n.toNat 0 off.toNat
    let size := ((← get).icache ip).copy.size
    let _ ← if 0 < n ∧ size < off + n then growTo ip (off + n) else pure ()
    return n.toBitVec.toInt

end Xv6.Fs
