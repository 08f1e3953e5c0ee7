import Xv6.Fs.Inode
import Xv6.Foundation.Transition

/-! # Freed inodes and their successors

One process drops the last reference to an inode without links while others create inodes.
A step ends where `icache.lock`, the lock of an inode or that of a buffer is released. The
contents of the inodes play no part, so that the blocks which `itrunc` frees are left out.
-/

namespace Xv6.Fs.Reuse

open Function (update update_self update_of_ne update_eq_self forall_update_iff)

variable {dropper : DropPoint} {inode : Inode} {dinodes : Nat → Dinode}

/-- Where the process in `iput` is: before its test, before `itrunc` changes the inode in
memory and on disk, before the type is cleared in memory and on disk, and before the flags
are cleared. -/
inductive DropPoint
  | start
  | truncating
  | flushing
  | truncated
  | untyped
  | freed
  | done
  deriving DecidableEq

/-- The arguments of `create`. -/
structure Request where
  type : Int16
  major : Int16
  minor : Int16
  deriving DecidableEq

/-- Where a process in `create` is: in the loop of `ialloc`, before `iget`, before and behind
`acquiresleep` in `ilock`, before it reads the inode, behind `ilock`, and behind
`iupdate`. -/
inductive CreatePoint
  | idle
  | scanning (request : Request) (inum : Nat)
  | claimed (request : Request) (inum : Nat)
  | got (request : Request) (ip : Fin NINODE)
  | acquired (request : Request) (ip : Fin NINODE)
  | reading (request : Request) (ip : Fin NINODE)
  | locked (request : Request) (ip : Fin NINODE)
  | updated (request : Request) (ip : Fin NINODE)
  deriving DecidableEq

/-- `dropping` is the argument of `iput`. -/
structure State (Process : Type) where
  ninodes : Nat
  dinodes : Nat → Dinode
  icache : Fin NINODE → Inode
  locks : Fin NINODE → Option Process
  dropping : Fin NINODE
  dropper : DropPoint
  creators : Process → CreatePoint

inductive Action (Process : Type)
  | drop
  | create (p : Process) (request : Request)
  | proceed (p : Process)

variable {Process : Type}

/-- The section of `iget`. -/
def iget (icache : Fin NINODE → Inode) (inum : Nat) :
    Option ((Fin NINODE → Inode) × Fin NINODE) :=
  match (List.finRange NINODE).find? fun ip => 0 < (icache ip).ref ∧ (icache ip).inum = inum with
  | some ip =>
      some (update icache ip { icache ip with ref := (icache ip).ref + 1 }, ip)
  | none =>
      match (List.finRange NINODE).find? fun ip => (icache ip).ref = 0 with
      | some ip =>
          some (update icache ip
            { icache ip with inum := inum, ref := 1, valid := false }, ip)
      | none => none

namespace State

variable (state : State Process)

def setInode (ip : Fin NINODE) (inode : Inode) : Fin NINODE → Inode :=
  update state.icache ip inode

/-- The section of `iupdate`. -/
def iupdate (ip : Fin NINODE) : Nat → Dinode :=
  update state.dinodes (state.icache ip).inum (state.icache ip).copy

/-- The next step of `iput`. -/
def drop : Option (State Process) :=
  let inode := state.icache state.dropping
  match state.dropper with
  | .start =>
      if inode.ref = 1 ∧ inode.valid = true ∧ inode.copy.nlink = 0 then
        some { state with dropper := .truncating }
      else
        some { state with
          icache := state.setInode state.dropping { inode with ref := inode.ref - 1 }
          dropper := .done }
  | .truncating =>
      some { state with
        icache := state.setInode state.dropping
          { inode with copy := { inode.copy with addrs := fun _ => 0, size := 0 } }
        dropper := .flushing }
  | .flushing =>
      some { state with dinodes := state.iupdate state.dropping, dropper := .truncated }
  | .truncated =>
      some { state with
        icache := state.setInode state.dropping { inode with copy := { inode.copy with type := 0 } }
        dropper := .untyped }
  | .untyped =>
      some { state with dinodes := state.iupdate state.dropping, dropper := .freed }
  | .freed =>
      some { state with
        icache := state.setInode state.dropping
          { inode with valid := false, ref := inode.ref - 1 }
        dropper := .done }
  | .done => none

variable [DecidableEq Process]

def setPoint (p : Process) (point : CreatePoint) : Process → CreatePoint :=
  update state.creators p point

/-- The next step of `create`, from `ialloc` to `iupdate`. A panic is no step. -/
def proceed (p : Process) : Option (State Process) :=
  match state.creators p with
  | .idle => none
  | .scanning request inum =>
      if inum < state.ninodes then
        if (state.dinodes inum).type = 0 then
          some { state with
            dinodes := update state.dinodes inum
              { Dinode.blank with type := request.type }
            creators := state.setPoint p (.claimed request inum) }
        else some { state with creators := state.setPoint p (.scanning request (inum + 1)) }
      else none
  | .claimed request inum =>
      match iget state.icache inum with
      | some (icache, ip) =>
          some { state with icache := icache, creators := state.setPoint p (.got request ip) }
      | none => none
  | .got request ip =>
      if 0 < (state.icache ip).ref ∧ state.locks ip = none then
        some { state with
          locks := update state.locks ip (some p)
          creators := state.setPoint p (.acquired request ip) }
      else none
  | .acquired request ip =>
      if (state.icache ip).valid = true then
        some { state with creators := state.setPoint p (.locked request ip) }
      else some { state with creators := state.setPoint p (.reading request ip) }
  | .reading request ip =>
      let dinode := state.dinodes (state.icache ip).inum
      if dinode.type = 0 then none
      else
        some { state with
          icache := state.setInode ip { state.icache ip with copy := dinode, valid := true }
          creators := state.setPoint p (.locked request ip) }
  | .locked request ip =>
      let copy := { (state.icache ip).copy with
        major := request.major
        minor := request.minor
        nlink := 1 }
      some { state with
        icache := state.setInode ip { state.icache ip with copy := copy }
        dinodes := update state.dinodes (state.icache ip).inum copy
        creators := state.setPoint p (.updated request ip) }
  | .updated _ _ => none

end State

def step [DecidableEq Process] (state : State Process) : Action Process → Option (State Process)
  | .drop => state.drop
  | .create p request =>
      match state.creators p with
      | .idle =>
          if request.type = 0 then none
          else some { state with creators := state.setPoint p (.scanning request 1) }
      | _ => none
  | .proceed p => state.proceed p

/-! ## The invariant -/

/-- Before the inode is marked as free on disk. -/
def DropPoint.Early : DropPoint → Prop
  | .start | .truncating | .flushing | .truncated | .untyped => True
  | .freed | .done => False

/-- The cache entry that `create` has got from `iget`. -/
def CreatePoint.entry : CreatePoint → Option (Fin NINODE)
  | .got _ ip | .acquired _ ip | .reading _ ip | .locked _ ip | .updated _ ip => some ip
  | .idle | .scanning _ _ | .claimed _ _ => none

/-- The inode that `create` has marked as its own. -/
def CreatePoint.claim (icache : Fin NINODE → Inode) : CreatePoint → Option Nat
  | .claimed _ inum => some inum
  | .got _ ip | .acquired _ ip | .reading _ ip | .locked _ ip | .updated _ ip =>
      some (icache ip).inum
  | .idle | .scanning _ _ => none

/-- What `create` can rely on once it has a cache entry. The process in `iput` has a
reference of its own until it is done. -/
structure Held (dinodes : Nat → Dinode) (icache : Fin NINODE → Inode) (dropping : Fin NINODE)
    (dropper : DropPoint) (request : Request) (ip : Fin NINODE) : Prop where
  typed : request.type ≠ 0
  used : 0 < (icache ip).ref
  disk : (dinodes (icache ip).inum).type = request.type
  shared : ip = dropping → dropper ≠ .done → 1 < (icache ip).ref

/-- A cache entry that is valid before `create` has read the inode is the one that is being
dropped. -/
def Fits (dinodes : Nat → Dinode) (icache : Fin NINODE → Inode) (dropping : Fin NINODE)
    (dropper : DropPoint) : CreatePoint → Prop
  | .idle => True
  | .scanning request _ => request.type ≠ 0
  | .claimed request inum =>
      request.type ≠ 0 ∧ (dinodes inum).type = request.type ∧
        ∀ ip, 0 < (icache ip).ref → (icache ip).inum = inum → ip = dropping ∧ dropper = .freed
  | .got request ip | .acquired request ip =>
      Held dinodes icache dropping dropper request ip ∧
        ((icache ip).valid = true → ip = dropping ∧ dropper = .freed)
  | .reading request ip =>
      Held dinodes icache dropping dropper request ip ∧ (ip = dropping → dropper = .done)
  | .locked request ip | .updated request ip =>
      Held dinodes icache dropping dropper request ip ∧ (ip = dropping → dropper = .done) ∧
        (icache ip).copy.type = request.type

/-- The copy of the inode that is being dropped has a type until that is cleared. -/
def Typed (inode : Inode) : DropPoint → Prop
  | .start => inode.valid = true → inode.copy.type ≠ 0
  | .truncating | .flushing | .truncated => inode.copy.type ≠ 0
  | .untyped | .freed | .done => True

structure Separate (state : State Process) : Prop where
  unique : ∀ ip jp, 0 < (state.icache ip).ref → 0 < (state.icache jp).ref →
    (state.icache ip).inum = (state.icache jp).inum → ip = jp
  allocated : ∀ ip, 0 < (state.icache ip).ref →
    (state.dinodes (state.icache ip).inum).type ≠ 0 ∨ ip = state.dropping ∧ state.dropper = .freed
  held : state.dropper ≠ .done → 0 < (state.icache state.dropping).ref
  last : state.dropper ≠ .start → state.dropper ≠ .done →
    (state.icache state.dropping).ref = 1 ∨ ∃ p, (state.creators p).entry = some state.dropping
  typed : Typed (state.icache state.dropping) state.dropper
  apart : state.dropper.Early → ∀ p, (state.creators p).claim state.icache ≠
    some (state.icache state.dropping).inum
  distinct : ∀ p q inum, (state.creators p).claim state.icache = some inum →
    (state.creators q).claim state.icache = some inum → p = q
  fits : ∀ p, Fits state.dinodes state.icache state.dropping state.dropper (state.creators p)

section

variable {dinodes dinodes' : Nat → Dinode} {icache icache' : Fin NINODE → Inode}
  {dropping ip : Fin NINODE} {dropper dropper' : DropPoint} {point : CreatePoint}
  {request : Request}

theorem CreatePoint.claim_of_entry (entry : point.entry = some ip) :
    point.claim icache = some (icache ip).inum := by
  cases point with
  | idle | scanning | claimed => cases entry
  | got | acquired | reading | locked | updated =>
    cases entry
    rfl

theorem CreatePoint.claim_congr
    (same : ∀ ip, point.entry = some ip → (icache' ip).inum = (icache ip).inum) :
    point.claim icache' = point.claim icache := by
  cases point with
  | idle | scanning | claimed => rfl
  | got request ip | acquired request ip | reading request ip | locked request ip
  | updated request ip => exact congrArg some (same ip rfl)

theorem Fits.disk (fits : Fits dinodes icache dropping dropper point) {inum : Nat}
    (claim : point.claim icache = some inum) : (dinodes inum).type ≠ 0 := by
  cases point with
  | idle | scanning => cases claim
  | claimed =>
    cases claim
    rw [fits.2.1]
    exact fits.1
  | got | acquired | reading | locked | updated =>
    cases claim
    rw [fits.1.disk]
    exact fits.1.typed

theorem Fits.used (fits : Fits dinodes icache dropping dropper point)
    (entry : point.entry = some ip) : 0 < (icache ip).ref := by
  cases point with
  | idle | scanning | claimed => cases entry
  | got | acquired | reading | locked | updated =>
    cases entry
    exact fits.1.used

theorem Held.congr (held : Held dinodes icache dropping dropper request ip)
    (disk : (dinodes' (icache ip).inum).type = (dinodes (icache ip).inum).type)
    (same : icache' ip = icache ip)
    (drops : ip = dropping → dropper' ≠ .done → dropper ≠ .done) :
    Held dinodes' icache' dropping dropper' request ip where
  typed := held.typed
  used := by
    rw [same]
    exact held.used
  disk := by
    rw [same, disk]
    exact held.disk
  shared := by
    intro isDropping notDone
    rw [same]
    exact held.shared isDropping (drops isDropping notDone)

/-- A step that does not touch the inode of the process, nor the one that is being dropped
if that is the same. -/
theorem Fits.frame (fits : Fits dinodes icache dropping dropper point)
    (disk : ∀ inum, point.claim icache = some inum → (dinodes' inum).type = (dinodes inum).type)
    (same : ∀ ip, point.entry = some ip → icache' ip = icache ip)
    (uncached : ∀ request inum, point = .claimed request inum → ∀ ip, 0 < (icache' ip).ref →
      (icache' ip).inum = inum → 0 < (icache ip).ref ∧ (icache ip).inum = inum)
    (drops : point.claim icache = some (icache dropping).inum → dropper' = dropper) :
    Fits dinodes' icache' dropping dropper' point := by
  have mine : ∀ ip, point.claim icache = some (icache ip).inum → ip = dropping →
      dropper' = dropper := by
    intro ip claim isDropping
    rw [isDropping] at claim
    exact drops claim
  have holds : ∀ request ip, point.entry = some ip →
      Held dinodes icache dropping dropper request ip →
      Held dinodes' icache' dropping dropper' request ip := by
    intro request ip entry held
    have claim := @CreatePoint.claim_of_entry icache ip point entry
    refine held.congr (disk _ claim) (same ip entry) fun isDropping notDone => ?_
    rw [← mine ip claim isDropping]
    exact notDone
  cases point with
  | idle => trivial
  | scanning request inum => exact fits
  | claimed request inum =>
    refine ⟨fits.1, ?_, ?_⟩
    · rw [disk inum rfl]
      exact fits.2.1
    · intro ip used isInum
      rcases uncached request inum rfl ip used isInum with ⟨wasUsed, wasInum⟩
      rcases fits.2.2 ip wasUsed wasInum with ⟨isDropping, freed⟩
      exact ⟨isDropping, (mine ip (congrArg some wasInum.symm) isDropping).trans freed⟩
  | got request ip | acquired request ip =>
    refine ⟨holds request ip rfl fits.1, ?_⟩
    rw [same ip rfl]
    intro valid
    rcases fits.2 valid with ⟨isDropping, freed⟩
    exact ⟨isDropping, (mine ip rfl isDropping).trans freed⟩
  | reading request ip =>
    refine ⟨holds request ip rfl fits.1, fun isDropping => ?_⟩
    exact (mine ip rfl isDropping).trans (fits.2 isDropping)
  | locked request ip | updated request ip =>
    refine ⟨holds request ip rfl fits.1, fun isDropping => ?_, ?_⟩
    · exact (mine ip rfl isDropping).trans (fits.2.1 isDropping)
    · rw [same ip rfl]
      exact fits.2.2

end

/-! ## Steps of `iput` -/

section

variable {state next : State Process}

theorem DropPoint.Early.ne_done (early : dropper.Early) :
    dropper ≠ .done := by
  intro done
  rw [done] at early
  exact early

theorem State.forall_setInode {ip : Fin NINODE} (holds : Fin NINODE → Inode → Prop)
    (own : holds ip inode) (others : ∀ jp, jp ≠ ip → holds jp (state.icache jp)) :
    ∀ jp, holds jp (state.setInode ip inode jp) :=
  (forall_update_iff _ holds).mpr ⟨own, others⟩

/-- A step of `iput`. -/
theorem Separate.drops (separate : Separate state)
    (number : inode.inum = (state.icache state.dropping).inum)
    (refs : inode.ref ≤ (state.icache state.dropping).ref)
    (disk : ∀ ip, 0 < (state.icache ip).ref → ip ≠ state.dropping →
      dinodes (state.icache ip).inum = state.dinodes (state.icache ip).inum)
    (allocated : 0 < inode.ref →
      (dinodes (state.icache state.dropping).inum).type ≠ 0 ∨ dropper = .freed)
    (held : dropper ≠ .done → 0 < inode.ref)
    (last : dropper ≠ .start → dropper ≠ .done → inode.ref = 1) (typed : Typed inode dropper)
    (early : dropper.Early → state.dropper.Early)
    (fits : ∀ q, Fits dinodes (state.setInode state.dropping inode) state.dropping dropper
      (state.creators q)) :
    Separate { state with
      dinodes := dinodes
      icache := state.setInode state.dropping inode
      dropper := dropper } := by
  have own : state.setInode state.dropping inode state.dropping = inode := update_self ..
  have numbers : ∀ ip, (state.setInode state.dropping inode ip).inum = (state.icache ip).inum :=
    State.forall_setInode (fun ip inode => inode.inum = (state.icache ip).inum) number
      fun _ _ => rfl
  have usedBefore : ∀ ip, 0 < (state.setInode state.dropping inode ip).ref →
      0 < (state.icache ip).ref :=
    State.forall_setInode (fun ip inode => 0 < inode.ref → 0 < (state.icache ip).ref)
      (fun used => Nat.lt_of_lt_of_le used refs) fun _ _ => id
  have claims : ∀ q, (state.creators q).claim (state.setInode state.dropping inode) =
      (state.creators q).claim state.icache :=
    fun q => CreatePoint.claim_congr fun ip _ => numbers ip
  constructor
  · intro ip jp ipUsed jpUsed same
    dsimp only at ipUsed jpUsed same
    rw [numbers, numbers] at same
    exact separate.unique ip jp (usedBefore ip ipUsed) (usedBefore jp jpUsed) same
  · intro ip used
    dsimp only at used ⊢
    have wasUsed := usedBefore ip used
    rw [numbers]
    by_cases same : ip = state.dropping
    · rw [same] at used ⊢
      rw [own] at used
      exact (allocated used).imp id fun freed => ⟨rfl, freed⟩
    · rw [disk ip wasUsed same]
      cases separate.allocated ip wasUsed with
      | inl typed => exact Or.inl typed
      | inr freed => exact absurd freed.1 same
  · dsimp only
    rw [own]
    exact held
  · dsimp only
    rw [own]
    exact fun notStart notDone => Or.inl (last notStart notDone)
  · dsimp only
    rw [own]
    exact typed
  · intro isEarly q
    dsimp only
    rw [claims, numbers]
    exact separate.apart (early isEarly) q
  · intro q r inum first second
    dsimp only at first second
    rw [claims] at first second
    exact separate.distinct q r inum first second
  · exact fits

/-- A step before the inode is free on disk, or to that point. No process in `create` has the
inode. -/
theorem Separate.early (separate : Separate state) (early : state.dropper.Early)
    (number : inode.inum = (state.icache state.dropping).inum)
    (refs : inode.ref ≤ (state.icache state.dropping).ref)
    (disk : ∀ inum, inum ≠ (state.icache state.dropping).inum →
      dinodes inum = state.dinodes inum)
    (allocated : (dinodes (state.icache state.dropping).inum).type ≠ 0 ∨ dropper = .freed)
    (held : dropper ≠ .done → 0 < inode.ref)
    (last : dropper ≠ .start → dropper ≠ .done → inode.ref = 1) (typed : Typed inode dropper) :
    Separate { state with
      dinodes := dinodes
      icache := state.setInode state.dropping inode
      dropper := dropper } := by
  refine separate.drops number refs ?_ (fun _ => allocated) held last typed (fun _ => early) ?_
  · intro ip used different
    refine disk _ fun isInum => different ?_
    exact separate.unique ip state.dropping used (separate.held early.ne_done) isInum
  · intro q
    have apart := separate.apart early q
    have notInum : ∀ inum, (state.creators q).claim state.icache = some inum →
        inum ≠ (state.icache state.dropping).inum := by
      intro inum claim same
      rw [same] at claim
      exact apart claim
    apply (separate.fits q).frame
    · intro inum claim
      rw [disk inum (notInum inum claim)]
    · intro ip entry
      refine update_of_ne (fun same => ?_) ..
      exact notInum _ (CreatePoint.claim_of_entry entry) (by rw [same])
    · intro request inum _
      refine State.forall_setInode (fun ip inode => 0 < inode.ref → inode.inum = inum →
        0 < (state.icache ip).ref ∧ (state.icache ip).inum = inum) ?_ fun _ _ used isInum =>
          ⟨used, isInum⟩
      exact fun used isInum => ⟨Nat.lt_of_lt_of_le used refs, number.symm.trans isInum⟩
    · exact fun claim => absurd claim apart

/-- Clearing the flags. Whoever has got the entry will read the inode from disk. -/
theorem Fits.done {icache icache' : Fin NINODE → Inode} {dropping : Fin NINODE}
    {point : CreatePoint} (fits : Fits dinodes icache dropping .freed point)
    (others : ∀ ip, ip ≠ dropping → icache' ip = icache ip) (own : icache' dropping =
      { icache dropping with valid := false, ref := (icache dropping).ref - 1 })
    (sole : ∀ request, point = .claimed request (icache dropping).inum →
      (icache dropping).ref = 1) : Fits dinodes icache' dropping .done point := by
  have holds : ∀ request ip, Held dinodes icache dropping .freed request ip →
      Held dinodes icache' dropping .done request ip := by
    intro request ip held
    by_cases same : ip = dropping
    · have shared := held.shared same nofun
      constructor
      · exact held.typed
      · rw [same, own]
        rw [same] at shared
        exact Nat.sub_pos_of_lt shared
      · rw [same, own]
        have disk := held.disk
        rw [same] at disk
        exact disk
      · exact fun _ notDone => absurd rfl notDone
    · exact held.congr rfl (others ip same) fun isDropping => absurd isDropping same
  cases point with
  | idle => trivial
  | scanning request inum => exact fits
  | claimed request inum =>
    refine ⟨fits.1, fits.2.1, ?_⟩
    intro ip used isInum
    by_cases same : ip = dropping
    · rw [same, own] at used isInum
      rw [sole request (by rw [isInum])] at used
      exact absurd used (Nat.lt_irrefl 0)
    · rw [others ip same] at used isInum
      exact absurd (fits.2.2 ip used isInum).1 same
  | got request ip | acquired request ip =>
    refine ⟨holds request ip fits.1, ?_⟩
    intro valid
    by_cases same : ip = dropping
    · rw [same, own] at valid
      cases valid
    · rw [others ip same] at valid
      exact absurd (fits.2 valid).1 same
  | reading request ip =>
    exact ⟨holds request ip fits.1, fun _ => rfl⟩
  | locked request ip | updated request ip =>
    have different : ip ≠ dropping := by
      intro same
      cases fits.2.1 same
    refine ⟨holds request ip fits.1, fun _ => rfl, ?_⟩
    rw [others ip different]
    exact fits.2.2

section

variable (separate : Separate state)
include separate

theorem Separate.done (freed : state.dropper = .freed) :
    Separate { state with
      icache := state.setInode state.dropping
        { state.icache state.dropping with
          valid := false
          ref := (state.icache state.dropping).ref - 1 }
      dropper := .done } := by
  have last := separate.last (by rw [freed]; exact nofun) (by rw [freed]; exact nofun)
  refine separate.drops rfl (Nat.sub_le ..) (fun _ _ _ => rfl) ?_
    (fun notDone => absurd rfl notDone) (fun _ notDone => absurd rfl notDone) trivial
    (fun early => absurd early id) ?_
  · intro used
    cases last with
    | inl one =>
      rw [one] at used
      exact absurd used (Nat.lt_irrefl 0)
    | inr shared =>
      rcases shared with ⟨q, entry⟩
      exact Or.inl ((separate.fits q).disk (CreatePoint.claim_of_entry entry))
  · intro q
    have fits := separate.fits q
    rw [freed] at fits
    apply fits.done (fun ip different => update_of_ne different ..) (update_self ..)
    intro request isClaimed
    cases last with
    | inl one => exact one
    | inr shared =>
      rcases shared with ⟨r, entry⟩
      have same := separate.distinct q r _ (by rw [isClaimed]; rfl)
        (CreatePoint.claim_of_entry entry)
      rw [← same, isClaimed] at entry
      cases entry

/-- Until it is marked as free the inode is allocated, and nobody else comes to hold it. -/
theorem Separate.unfreed (early : state.dropper.Early) :
    0 < (state.icache state.dropping).ref ∧
      (state.dinodes (state.icache state.dropping).inum).type ≠ 0 ∧
      (state.dropper ≠ .start → (state.icache state.dropping).ref = 1) := by
  have held := separate.held early.ne_done
  refine ⟨held, ?_, ?_⟩
  · cases separate.allocated _ held with
    | inl typed => exact typed
    | inr freed =>
      rw [freed.2] at early
      exact absurd early id
  · intro notStart
    cases separate.last notStart early.ne_done with
    | inl one => exact one
    | inr shared =>
      rcases shared with ⟨q, entry⟩
      exact absurd (CreatePoint.claim_of_entry entry) (separate.apart early q)

/-- The steps that change the inode in memory only. -/
theorem Separate.touch (early : state.dropper.Early) (notStart : state.dropper ≠ .start)
    {copy : Dinode} (typed : Typed { state.icache state.dropping with copy := copy } dropper) :
    Separate { state with
      icache := state.setInode state.dropping { state.icache state.dropping with copy := copy }
      dropper := dropper } := by
  rcases separate.unfreed early with ⟨held, allocated, sole⟩
  exact separate.early early rfl (Nat.le_refl _) (fun _ _ => rfl) (Or.inl allocated)
    (fun _ => held) (fun _ _ => sole notStart) typed

/-- The steps that do not change the inode in memory. -/
theorem Separate.leave (early : state.dropper.Early) (last : (state.icache state.dropping).ref = 1)
    (disk : ∀ inum, inum ≠ (state.icache state.dropping).inum →
      dinodes inum = state.dinodes inum)
    (allocated : (dinodes (state.icache state.dropping).inum).type ≠ 0 ∨ dropper = .freed)
    (typed : Typed (state.icache state.dropping) dropper) :
    Separate { state with dinodes := dinodes, dropper := dropper } := by
  have same : state.setInode state.dropping (state.icache state.dropping) = state.icache :=
    update_eq_self ..
  have left := separate.early early rfl (Nat.le_refl _) disk allocated
    (fun _ => separate.held early.ne_done) (fun _ _ => last) typed
  rw [same] at left
  exact left

theorem Separate.flush (early : state.dropper.Early) (notStart : state.dropper ≠ .start)
    (allocated : (state.icache state.dropping).copy.type ≠ 0 ∨ dropper = .freed)
    (typed : Typed (state.icache state.dropping) dropper) :
    Separate { state with dinodes := state.iupdate state.dropping, dropper := dropper } := by
  apply separate.leave early ((separate.unfreed early).2.2 notStart)
  · exact fun inum different => update_of_ne different ..
  · rw [State.iupdate, update_self]
    exact allocated
  · exact typed

theorem Separate.release (early : state.dropper.Early) :
    Separate { state with
      icache := state.setInode state.dropping
        { state.icache state.dropping with ref := (state.icache state.dropping).ref - 1 }
      dropper := .done } :=
  separate.early early rfl (Nat.sub_le ..) (fun _ _ => rfl)
    (Or.inl (separate.unfreed early).2.1) (fun notDone => absurd rfl notDone)
    (fun _ notDone => absurd rfl notDone) trivial

theorem Separate.drop (dropped : state.drop = some next) :
    Separate next := by
  have typed := separate.typed
  have touch := @separate.touch
  have flush := @separate.flush
  unfold State.drop at dropped
  dsimp only at dropped
  cases point : state.dropper with
  | start =>
    have early : state.dropper.Early := by
      rw [point]
      trivial
    rw [point] at dropped typed
    dsimp only at dropped
    split at dropped
    · rename_i test
      cases dropped
      exact separate.leave early test.1 (fun _ _ => rfl)
        (Or.inl (separate.unfreed early).2.1) (typed test.2.1)
    · cases dropped
      exact separate.release early
  | truncating =>
    rw [point] at dropped typed touch
    cases dropped
    exact touch _ trivial nofun typed
  | flushing =>
    rw [point] at dropped typed flush
    cases dropped
    exact flush _ trivial nofun (Or.inl typed) typed
  | truncated =>
    rw [point] at dropped touch
    cases dropped
    exact touch _ trivial nofun trivial
  | untyped =>
    rw [point] at dropped flush
    cases dropped
    exact flush _ trivial nofun (Or.inr rfl) trivial
  | freed =>
    rw [point] at dropped
    cases dropped
    exact separate.done point
  | done =>
    rw [point] at dropped
    cases dropped

end

end

end Xv6.Fs.Reuse
