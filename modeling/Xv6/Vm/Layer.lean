import Xv6.Foundation.Discipline

/-! # Page tables

The functions of `vm.c` that manage page tables, and `growproc`. They use memory page by
page: a page is an array of 1024 words, and is named by its physical page number. The
allocator of `kalloc.c` hands out pages and takes them back.
-/

namespace Xv6.Vm

abbrev PGSIZE : Nat := 4096

abbrev NPDENTRIES : Nat := 1024

abbrev NPTENTRIES : Nat := 1024

/-- The bytes that one entry of a page directory maps, `1 << PDXSHIFT`. -/
abbrev PDESIZE : Nat := NPTENTRIES * PGSIZE

abbrev KERNBASE : Nat := 0x80000000

/-- The kernel is loaded here, so that the pages of the allocator come later. -/
abbrev EXTMEM : Nat := 0x100000

abbrev PHYSTOP : Nat := 0xE000000

abbrev PTE_P : Nat := 1

abbrev PTE_W : Nat := 2

abbrev PTE_U : Nat := 4

def PDX (va : UInt32) : Nat := va.toNat / PDESIZE

def PTX (va : UInt32) : Nat := va.toNat / PGSIZE % NPTENTRIES

def PGROUNDUP (sz : UInt32) : UInt32 := (sz + 4095) / 4096 * 4096

def PGROUNDDOWN (a : UInt32) : UInt32 := a / 4096 * 4096

/-- `PGADDR(d, 0, 0)`. -/
def PGADDR (d : Nat) : UInt32 := UInt32.ofNat (d * PDESIZE)

/-- The test of `PTE_P`. -/
def Present (entry : UInt32) : Prop := entry.toNat % 2 = 1

instance (entry : UInt32) : Decidable (Present entry) := inferInstanceAs (Decidable (_ = _))

/-- `PTE_ADDR`, as the number of a page. -/
def PTE_ADDR (entry : UInt32) : Nat := entry.toNat / PGSIZE

def entryOf (page flags : Nat) : UInt32 := UInt32.ofNat (page * PGSIZE + flags)

inductive Panic
  | remap
  | kfree
  deriving DecidableEq

/-- `clear` is a `memset` of a page with zero. `sz` and `setSz` are about `proc->sz`. -/
inductive Request
  | kalloc
  | kfree (v : Nat)
  | load (page index : Nat)
  | store (page index : Nat) (word : UInt32)
  | clear (page : Nat)
  | sz
  | setSz (sz : UInt32)
  | fail (panic : Panic)

def Answer : Request → Type
  | .kalloc => Option Nat
  | .load .. | .sz => UInt32
  | .fail _ => Empty
  | _ => Unit

abbrev Prog := Interaction Request Answer

def send (request : Request) : Prog (Answer request) := Interaction.send request

/-- A null pointer is `none`. -/
def kalloc : Prog (Option Nat) := send .kalloc

def kfree (v : Nat) : Prog Unit := send (.kfree v)

def load (page index : Nat) : Prog UInt32 := send (.load page index)

def store (page index : Nat) (word : UInt32) : Prog Unit := send (.store page index word)

def clear (page : Nat) : Prog Unit := send (.clear page)

def getSz : Prog UInt32 := send .sz

def setSz (sz : UInt32) : Prog Unit := send (.setSz sz)

def panic {Value : Type} (panic : Panic) : Prog Value := do
  nomatch ← send (.fail panic)

/-- The place of the entry for a virtual address: a page table and an index. -/
def walkpgdir (pgdir : Nat) (va : UInt32) (alloc : Bool) : Prog (Option (Nat × Nat)) := do
  let pde ← load pgdir (PDX va)
  if Present pde then
    return some (PTE_ADDR pde, PTX va)
  else if alloc = false then
    return none
  else
    match ← kalloc with
    | none => return none
    | some pgtab =>
        clear pgtab
        store pgdir (PDX va) (entryOf pgtab (PTE_P ||| PTE_W ||| PTE_U))
        return some (pgtab, PTX va)

/-- The loop of `mappages`, with the number of the page that comes next. -/
def mapLoop (pgdir perm : Nat) (last : UInt32) : (passes : Nat) → (a : UInt32) → (page : Nat) →
    Prog Int
  | 0, _, _ => return 0
  | passes + 1, a, page => do
      match ← walkpgdir pgdir a true with
      | none => return -1
      | some (pgtab, index) =>
          let pte ← load pgtab index
          if Present pte then
            panic .remap
          else
            store pgtab index (entryOf page (perm ||| PTE_P))
            if a = last then
              return 0
            else
              mapLoop pgdir perm last passes (a + 4096) (page + 1)

/-- `mappages`, for a physical address that is given by its page. -/
def mappages (pgdir : Nat) (va size : UInt32) (page perm : Nat) : Prog Int :=
  let a := PGROUNDDOWN va
  let last := PGROUNDDOWN (va + size - 1)
  mapLoop pgdir perm last ((last - a).toNat / PGSIZE + 1) a page

/-- The loop of `deallocuvm`. -/
def deallocLoop (pgdir : Nat) (oldsz : UInt32) : (passes : Nat) → (a : UInt32) → Prog Unit
  | 0, _ => return ()
  | passes + 1, a =>
      if a < oldsz then do
        match ← walkpgdir pgdir a false with
        | none => deallocLoop pgdir oldsz passes (PGADDR (PDX a + 1) - 4096 + 4096)
        | some (pgtab, index) =>
            let pte ← load pgtab index
            if Present pte then
              if PTE_ADDR pte = 0 then
                panic .kfree
              else
                kfree (PTE_ADDR pte)
                store pgtab index 0
                deallocLoop pgdir oldsz passes (a + 4096)
            else
              deallocLoop pgdir oldsz passes (a + 4096)
      else
        return ()

def deallocuvm (pgdir : Nat) (oldsz newsz : UInt32) : Prog UInt32 := do
  if oldsz ≤ newsz then
    return oldsz
  else
    deallocLoop pgdir oldsz (oldsz.toNat / PGSIZE + 1) (PGROUNDUP newsz)
    return newsz

/-- The loop of `allocuvm`. -/
def allocLoop (pgdir : Nat) (oldsz newsz : UInt32) : (passes : Nat) → (a : UInt32) → Prog UInt32
  | 0, _ => return newsz
  | passes + 1, a =>
      if a < newsz then do
        match ← kalloc with
        | none =>
            let _ ← deallocuvm pgdir newsz oldsz
            return 0
        | some mem =>
            clear mem
            let r ← mappages pgdir a 4096 mem (PTE_W ||| PTE_U)
            if r < 0 then
              let _ ← deallocuvm pgdir newsz oldsz
              kfree mem
              return 0
            else
              allocLoop pgdir oldsz newsz passes (a + 4096)
      else
        return newsz

def allocuvm (pgdir : Nat) (oldsz newsz : UInt32) : Prog UInt32 :=
  if KERNBASE ≤ newsz.toNat then
    return 0
  else if newsz < oldsz then
    return oldsz
  else
    allocLoop pgdir oldsz newsz (newsz.toNat / PGSIZE + 1) (PGROUNDUP oldsz)

/-- `growproc`, for the page directory of the process. -/
def growproc (pgdir : Nat) (n : Int32) : Prog Int := do
  let sz ← getSz
  if 0 < n then
    let sz ← allocuvm pgdir sz (sz + n.toUInt32)
    if sz = 0 then
      return -1
    else
      setSz sz
      return 0
  else if n < 0 then
    let sz ← deallocuvm pgdir sz (sz + n.toUInt32)
    if sz = 0 then
      return -1
    else
      setSz sz
      return 0
  else
    setSz sz
    return 0

end Xv6.Vm
