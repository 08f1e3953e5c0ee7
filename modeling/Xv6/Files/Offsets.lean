import Xv6.Dir.SysFile
import Xv6.Foundation.Transition

/-! # Shared file offsets

Any number of processes share one `struct file` of type `FD_INODE`, and call `fileread` and
`filewrite` on it. What happens while the inode lock is held is one step: a read, or one
chunk of a write. `readi` and `writei` are what they have been shown to be, reads and writes
of a list of bytes; for a device, the driver answers.
-/

namespace Xv6.Offsets

open Transition

open Dir (WRITEMAX)
open Fs (readBytes overlay overlay_eq_append length_overlay WriteRefused MAXFILE)

/-- The bytes of an inode that is no device. -/
structure Contents where
  bytes : List UInt8
  bounded : bytes.length ≤ MAXFILE * BSIZE

inductive Inode
  | device
  | contents (contents : Contents)

/-- The fields of `struct file` that the calls use. -/
structure File where
  off : UInt32
  readable : Bool
  writable : Bool
  deriving DecidableEq

/-- A process has returned from its last call, or is in the loop of `filewrite`, at the top
of which it has written `i` of `n` bytes, or has panicked there. -/
inductive Place
  | returned (r : Int)
  | writing (addr : Nat → UInt8) (n : Int32) (i : Nat)
  | panicked

inductive Kind
  | read
  | write
  deriving DecidableEq

/-- The bytes that a process has moved with one lock of the inode, and the offset it found. -/
structure Transfer (nproc : Nat) where
  p : Fin nproc
  kind : Kind
  off : UInt32
  bytes : List UInt8
  deriving DecidableEq

/-- `history` has the transfers, in the order in which the inode lock was obtained. -/
structure State (nproc : Nat) where
  file : File
  inode : Inode
  place : Fin nproc → Place
  history : List (Transfer nproc)

/-- Another user of the inode may write it, too. A driver refuses, or says which bytes it
has read or how many it has written. -/
inductive Action (nproc : Nat)
  | fileread (p : Fin nproc) (n : UInt32) (driver : Option (List UInt8))
  | filewrite (p : Fin nproc) (addr : Nat → UInt8) (n : Int32)
  | chunk (p : Fin nproc) (driver : Option Nat)
  | other (contents : Contents)

theorem length_overlay_le (held : Contents) (src : Nat → UInt8) {off n : Nat}
    (accepted : ¬WriteRefused held.bytes.length off n) :
    (overlay held.bytes src off n).length ≤ MAXFILE * BSIZE := by
  rw [length_overlay]
  rw [WriteRefused] at accepted
  exact Nat.max_le.mpr ⟨held.bounded, by omega⟩

def Contents.write (held : Contents) (src : Nat → UInt8) (off n : Nat) : Int × Contents :=
  if refused : WriteRefused held.bytes.length off n then (-1, held)
  else (n, ⟨overlay held.bytes src off n, length_overlay_le held src refused⟩)

def Inode.readi (off n : UInt32) (driver : Option (List UInt8)) : Inode → Int × List UInt8
  | .device =>
      match driver with
      | none => (-1, [])
      | some bytes => ((bytes.take n.toNat).length, bytes.take n.toNat)
  | .contents held => readBytes held.bytes off.toNat n.toNat

def Inode.writei (src : Nat → UInt8) (off : UInt32) (n : Nat) (driver : Option Nat) :
    Inode → Int × Inode
  | .device =>
      match driver with
      | none => (-1, .device)
      | some count => (min count n, .device)
  | .contents held => ((held.write src off.toNat n).1, .contents (held.write src off.toNat n).2)

variable {nproc : Nat}

variable {reduce : Nat → Nat} {p : Fin nproc}

namespace State

variable (state : State nproc)

def goto (p : Fin nproc) (place : Place) : State nproc :=
  { state with place := Function.update state.place p place }

/-- `if(r > 0) f->off += r`. -/
def advance (p : Fin nproc) (kind : Kind) (r : Int) (bytes : List UInt8) : State nproc :=
  if 0 < r then
    { state with
      file := { state.file with off := state.file.off + UInt32.ofNat r.toNat }
      history := state.history ++ [⟨p, kind, state.file.off, bytes⟩] }
  else state

/-- What a process does with the inode lock in `fileread`. -/
def readOnce (p : Fin nproc) (n : UInt32) (driver : Option (List UInt8)) : State nproc :=
  let (r, bytes) := state.inode.readi state.file.off n driver
  (state.advance p .read r bytes).goto p (.returned r)

/-- What a process does with the inode lock in the loop of `filewrite`. -/
def writeChunk (p : Fin nproc) (addr : Nat → UInt8) (n : Int32) (i : Nat) (driver : Option Nat) :
    State nproc :=
  let n1 := min (n.toInt.toNat - i) WRITEMAX
  let (r, inode) := state.inode.writei (fun index => addr (i + index)) state.file.off n1 driver
  let after := { state with inode := inode }.advance p .write r
    ((List.range r.toNat).map fun index => addr (i + index))
  if r < 0 then after.goto p (.returned (-1))
  else if r ≠ n1 then after.goto p .panicked
  else after.goto p (.writing addr n (i + r.toNat))

end State

def step (state : State nproc) : Action nproc → Option (State nproc)
  | .fileread p n driver =>
      match state.place p with
      | .returned _ =>
          if state.file.readable = false then some (state.goto p (.returned (-1)))
          else some (state.readOnce p n driver)
      | _ => none
  | .filewrite p addr n =>
      match state.place p with
      | .returned _ =>
          if state.file.writable = false then some (state.goto p (.returned (-1)))
          else some (state.goto p (.writing addr n 0))
      | _ => none
  | .chunk p driver =>
      match state.place p with
      | .writing addr n i =>
          if (i : Int) < n.toInt then some (state.writeChunk p addr n i driver)
          else some (state.goto p (.returned (if (i : Int) = n.toInt then n.toInt else -1)))
      | _ => none
  | .other contents =>
      match state.inode with
      | .device => none
      | .contents _ => some { state with inode := .contents contents }

def start (nproc : Nat) (file : File) (inode : Inode) : State nproc where
  file := file
  inode := inode
  place := fun _ => .returned 0
  history := []

/-- Nobody else writes the file. -/
def Alone (_ : State nproc) : Action nproc → Prop
  | .other _ => False
  | _ => True

instance (state : State nproc) (action : Action nproc) : Decidable (Alone state action) :=
  match action with
  | .other _ => isFalse id
  | .fileread .. | .filewrite .. | .chunk .. => isTrue trivial

/-! ## Transfers -/

/-- The bytes of a history, one transfer after the other. -/
def moved (history : List (Transfer nproc)) : List UInt8 := history.flatMap Transfer.bytes

/-- Each transfer starts where the one before it ends, up to a reduction of the offset. -/
def Chained (reduce : Nat → Nat) : (off : Nat) → List (Transfer nproc) → Prop
  | _, [] => True
  | off, transfer :: rest =>
      transfer.off.toNat = reduce off ∧ Chained reduce (off + transfer.bytes.length) rest

section

variable {history : List (Transfer nproc)} {transfer : Transfer nproc}

@[simp] theorem moved_append : moved (history ++ [transfer]) = moved history ++ transfer.bytes := by
  simp [moved]

theorem chained_append : ∀ {history : List (Transfer nproc)} {off : Nat},
    Chained reduce off (history ++ [transfer]) ↔
      Chained reduce off history ∧ transfer.off.toNat = reduce (off + (moved history).length)
  | [], off => by simp [Chained, moved]
  | first :: rest, off => by
      rw [List.cons_append, Chained, Chained, chained_append, and_assoc,
        show moved (first :: rest) = first.bytes ++ moved rest from List.flatMap_cons,
        List.length_append, Nat.add_assoc]

end

/-! ## Inversion -/

section

variable {state next : State nproc}

/-- What a transfer does to the inode: the bytes are in its range afterwards, and the others
are as before. -/
def Spliced (off : Nat) (bytes : List UInt8) : Inode → Inode → Prop
  | .device, after => after = .device
  | .contents before, after => off ≤ before.bytes.length ∧ ∃ contents, after = .contents contents ∧
      contents.bytes = before.bytes.take off ++ bytes ++ before.bytes.drop (off + bytes.length)

/-- A step that moves bytes. A writer goes on behind the bytes it has written. -/
structure Moved (state next : State nproc) (transfer : Transfer nproc) : Prop where
  found : transfer.off = state.file.off
  off : next.file.off = state.file.off + UInt32.ofNat transfer.bytes.length
  history : next.history = state.history ++ [transfer]
  inode : Spliced state.file.off.toNat transfer.bytes state.inode next.inode
  others : ∀ p, p ≠ transfer.p → next.place p = state.place p
  goes : ∀ addr n j, next.place transfer.p = .writing addr n j → transfer.kind = .write ∧
    ∃ i, state.place transfer.p = .writing addr n i ∧
      (List.range j).map addr = (List.range i).map addr ++ transfer.bytes

/-- A step that moves none. -/
structure Quiet (state next : State nproc) : Prop where
  file : next.file = state.file
  inode : next.inode = state.inode
  history : next.history = state.history
  place : ∀ p addr n i, next.place p = .writing addr n i →
    i = 0 ∨ state.place p = .writing addr n i

theorem readi_spliced (inode : Inode) (off n : UInt32) (driver : Option (List UInt8)) :
    0 < (inode.readi off n driver).1 →
      (inode.readi off n driver).1 = (inode.readi off n driver).2.length ∧
        Spliced off.toNat (inode.readi off n driver).2 inode inode := by
  cases inode with
  | device =>
    cases driver with
    | none => exact fun positive => absurd positive (show ¬(0 : Int) < -1 by decide)
    | some bytes => exact fun _ => ⟨rfl, rfl⟩
  | contents held =>
    simp only [Inode.readi, readBytes]
    split
    · exact fun positive => absurd positive (by decide)
    · rename_i accepted
      intro _
      refine ⟨rfl, by omega, held, rfl, ?_⟩
      have rest : held.bytes.drop (off.toNat + ((held.bytes.drop off.toNat).take n.toNat).length) =
          (held.bytes.drop off.toNat).drop n.toNat := by
        rw [List.drop_drop, List.length_take, List.length_drop]
        by_cases short : n.toNat ≤ held.bytes.length - off.toNat
        · rw [Nat.min_eq_left short]
        · rw [List.drop_eq_nil_of_le (by omega), List.drop_eq_nil_of_le (by omega)]
      rw [rest, List.append_assoc, List.take_append_drop, List.take_append_drop]

theorem writei_spliced (inode : Inode) (src : Nat → UInt8) (off : UInt32) (n : Nat)
    (driver : Option Nat) :
    0 < (inode.writei src off n driver).1 →
      Spliced off.toNat ((List.range (inode.writei src off n driver).1.toNat).map src) inode
        (inode.writei src off n driver).2 := by
  cases inode with
  | device =>
    cases driver with
    | none => exact nofun
    | some count => exact fun _ => rfl
  | contents held =>
    simp only [Inode.writei, Contents.write]
    split
    · exact nofun
    · rename_i accepted
      have inside : off.toNat ≤ held.bytes.length :=
        Nat.le_of_not_lt fun beyond => accepted (Or.inl beyond)
      refine fun _ => ⟨inside, _, rfl, ?_⟩
      rw [Int.toNat_natCast, List.length_map, List.length_range]
      exact overlay_eq_append src n inside

theorem writei_refused (inode : Inode) (src : Nat → UInt8) (off : UInt32) {n : Nat}
    (driver : Option Nat) (positive : 0 < n) (refused : ¬0 < (inode.writei src off n driver).1) :
    (inode.writei src off n driver).2 = inode := by
  cases inode with
  | device =>
    cases driver with
    | none => rfl
    | some count => rfl
  | contents held =>
    simp only [Inode.writei, Contents.write] at refused ⊢
    split at refused
    · rename_i reason
      rw [dif_pos reason]
    · exact absurd (Int.natCast_pos.mpr positive) refused

theorem place_goto_self (p : Fin nproc) (place : Place) : (state.goto p place).place p = place :=
  Function.update_self ..

theorem place_goto_of_ne {q : Fin nproc} (different : q ≠ p) (place : Place) :
    (state.goto p place).place q = state.place q :=
  Function.update_of_ne different ..

theorem goto_quiet {place : Place}
    (starts : ∀ addr n i, place = .writing addr n i → i = 0) :
      Quiet state (state.goto p place) := by
  refine ⟨rfl, rfl, rfl, fun q addr n i writes => ?_⟩
  by_cases same : q = p
  · rw [same, place_goto_self] at writes
    exact Or.inl (starts addr n i writes)
  · rw [place_goto_of_ne same] at writes
    exact Or.inr writes

theorem advance_moved {kind : Kind} {r : Int} {bytes : List UInt8} {inode : Inode} {place : Place}
    (positive : 0 < r) (count : r = bytes.length)
    (spliced : Spliced state.file.off.toNat bytes state.inode inode)
    (goes : ∀ addr n j, place = .writing addr n j → kind = .write ∧
      ∃ i, state.place p = .writing addr n i ∧
        (List.range j).map addr = (List.range i).map addr ++ bytes) :
    Moved state (({ state with inode := inode }.advance p kind r bytes).goto p place)
      ⟨p, kind, state.file.off, bytes⟩ := by
  rw [State.advance, if_pos positive]
  refine ⟨rfl, ?_, rfl, spliced, fun q different => place_goto_of_ne different place, ?_⟩
  · simp [State.goto, count]
  · intro addr n j writes
    rw [place_goto_self] at writes
    exact goes addr n j writes

theorem readOnce_cases (p : Fin nproc) (n : UInt32) (driver : Option (List UInt8)) :
    Quiet state (state.readOnce p n driver) ∨
      ∃ transfer, Moved state (state.readOnce p n driver) transfer := by
  have spliced := readi_spliced state.inode state.file.off n driver
  rw [State.readOnce]
  generalize state.inode.readi state.file.off n driver = result at spliced
  rcases result with ⟨r, bytes⟩
  dsimp only at spliced ⊢
  by_cases moves : 0 < r
  · exact Or.inr ⟨_, advance_moved moves (spliced moves).1 (spliced moves).2 nofun⟩
  · rw [State.advance, if_neg moves]
    exact Or.inl (goto_quiet nofun)

theorem range_map_add (addr : Nat → UInt8) (i count : Nat) :
    (List.range (i + count)).map addr =
      (List.range i).map addr ++ (List.range count).map fun index => addr (i + index) := by
  rw [List.range_add, List.map_append, List.map_map]
  rfl

theorem writeChunk_cases {addr : Nat → UInt8} {n : Int32} {i : Nat}
    (here : state.place p = .writing addr n i) (more : (i : Int) < n.toInt) (driver : Option Nat) :
    Quiet state (state.writeChunk p addr n i driver) ∨
      ∃ transfer, Moved state (state.writeChunk p addr n i driver) transfer := by
  have positive : 0 < min (n.toInt.toNat - i) WRITEMAX := by
    have room : 0 < WRITEMAX := by decide
    omega
  have spliced := writei_spliced state.inode (fun index => addr (i + index)) state.file.off
    (min (n.toInt.toNat - i) WRITEMAX) driver
  have refused := writei_refused state.inode (fun index => addr (i + index)) state.file.off
    driver positive
  rw [State.writeChunk]
  generalize state.inode.writei (fun index => addr (i + index)) state.file.off
    (min (n.toInt.toNat - i) WRITEMAX) driver = result at spliced refused
  rcases result with ⟨r, inode⟩
  dsimp only at spliced refused ⊢
  by_cases moves : 0 < r
  · right
    have count : r = ((List.range r.toNat).map fun index => addr (i + index)).length := by
      rw [List.length_map, List.length_range, Int.toNat_of_nonneg (Int.le_of_lt moves)]
    rw [if_neg (Int.not_lt.mpr (Int.le_of_lt moves))]
    split
    · exact ⟨_, advance_moved moves count (spliced moves) nofun⟩
    · refine ⟨_, advance_moved moves count (spliced moves) ?_⟩
      intro addr' n' j writes
      cases writes
      exact ⟨rfl, i, here, range_map_add addr i r.toNat⟩
  · left
    rw [refused moves, State.advance, if_neg moves]
    split
    · exact goto_quiet nofun
    · split
      · exact goto_quiet nofun
      · rename_i same
        omega

theorem step_cases {action : Action nproc} (stepped : step state action = some next) :
    Quiet state next ∨ (∃ transfer, Moved state next transfer) ∨
      ∃ before after, action = .other after ∧ state.inode = .contents before ∧
        next = { state with inode := .contents after } := by
  cases action with
  | fileread p n driver =>
    rw [step] at stepped
    split at stepped
    · split at stepped
      · cases stepped
        exact Or.inl (goto_quiet nofun)
      · cases stepped
        exact (readOnce_cases p n driver).imp_right Or.inl
    · cases stepped
  | filewrite p addr n =>
    rw [step] at stepped
    split at stepped
    · split at stepped
      · cases stepped
        exact Or.inl (goto_quiet nofun)
      · cases stepped
        refine Or.inl (goto_quiet ?_)
        intro addr' n' i writes
        cases writes
        rfl
    · cases stepped
  | chunk p driver =>
    rw [step] at stepped
    split at stepped
    · rename_i addr n i here
      split at stepped
      · rename_i more
        cases stepped
        exact (writeChunk_cases here more driver).imp_right Or.inl
      · cases stepped
        exact Or.inl (goto_quiet nofun)
    · cases stepped
  | other contents =>
    rw [step] at stepped
    split at stepped
    · cases stepped
    · rename_i before here
      cases stepped
      exact Or.inr (Or.inr ⟨before, contents, rfl, here, rfl⟩)

end

/-! ## Invariants -/

section

variable {state next : State nproc} {transfer : Transfer nproc} {off : Nat}

/-- The offset has gone over the transfers. -/
structure Advanced (reduce : Nat → Nat) (off : Nat) (state : State nproc) : Prop where
  chained : Chained reduce off state.history
  off : state.file.off.toNat = reduce (off + (moved state.history).length)

theorem Advanced.quiet (advanced : Advanced reduce off state)
    (quiet : Quiet state next) : Advanced reduce off next := by
  refine ⟨?_, ?_⟩
  · rw [quiet.history]
    exact advanced.chained
  · rw [quiet.history, quiet.file]
    exact advanced.off

theorem Advanced.moved (advanced : Advanced reduce off state) (moves : Moved state next transfer)
    (reduced : (state.file.off + UInt32.ofNat transfer.bytes.length).toNat =
      reduce (off + (Offsets.moved state.history).length + transfer.bytes.length)) :
    Advanced reduce off next := by
  refine ⟨?_, ?_⟩
  · rw [moves.history, chained_append, moves.found]
    exact ⟨advanced.chained, advanced.off⟩
  · rw [moves.history, moves.off, moved_append, List.length_append, ← Nat.add_assoc]
    exact reduced

/-- The offset is exact up to wrapping around. -/
theorem Advanced.moved_mod (advanced : Advanced (· % 2 ^ 32) off state)
    (moves : Moved state next transfer) : Advanced (· % 2 ^ 32) off next := by
  refine advanced.moved moves ?_
  rw [UInt32.toNat_add, UInt32.toNat_ofNat', advanced.off]
  exact (Nat.add_mod ..).symm

theorem Spliced.contents {bytes : List UInt8} {before : Contents} {after : Inode}
    (spliced : Spliced off bytes (.contents before) after) :
    ∃ contents, after = .contents contents ∧ off ≤ before.bytes.length ∧
      off + bytes.length ≤ contents.bytes.length ∧
      contents.bytes = before.bytes.take off ++ bytes ++ before.bytes.drop (off + bytes.length) := by
  rcases spliced with ⟨inside, contents, same, laid⟩
  refine ⟨contents, same, inside, ?_, laid⟩
  rw [laid, List.length_append, List.length_append, List.length_take, Nat.min_eq_left inside]
  omega

/-- In a file the offset does not wrap around. -/
theorem Advanced.moved_exact (advanced : Advanced id off state)
    (moves : Moved state next transfer) {before : Contents}
    (here : state.inode = .contents before) : Advanced id off next := by
  refine advanced.moved moves ?_
  have spliced := moves.inode
  rw [here] at spliced
  rcases spliced.contents with ⟨contents, _, _, fits, _⟩
  have bounded := contents.bounded
  have small : state.file.off.toNat + transfer.bytes.length < 2 ^ 32 := by
    simp only [MAXFILE, Fs.NDIRECT, Fs.NINDIRECT, BSIZE] at bounded
    omega
  have place : state.file.off.toNat = off + (Offsets.moved state.history).length := advanced.off
  have length : transfer.bytes.length < 2 ^ 32 := by omega
  rw [UInt32.toNat_add, UInt32.toNat_ofNat', Nat.mod_eq_of_lt length, Nat.mod_eq_of_lt small, place]
  rfl

/-- The bytes of the file from the first offset on are those of the transfers. -/
structure Laid (contents : Contents) (off : Nat) (state : State nproc) (now : Contents) :
    Prop where
  here : state.inode = .contents now
  before : now.bytes.take off = contents.bytes.take off
  after : now.bytes.drop off =
    Offsets.moved state.history ++ contents.bytes.drop (off + (Offsets.moved state.history).length)

theorem Laid.moved {contents now : Contents} (laid : Laid contents off state now)
    (advanced : Advanced id off state) (moves : Moved state next transfer) :
    ∃ now, Laid contents off next now := by
  have spliced := moves.inode
  rw [laid.here] at spliced
  rcases spliced.contents with ⟨later, here, inside, _, bytes⟩
  have place : state.file.off.toNat = off + (Offsets.moved state.history).length := advanced.off
  rw [place] at bytes inside
  have long : off ≤ (now.bytes.take (off + (Offsets.moved state.history).length)).length := by
    rw [List.length_take]
    omega
  refine ⟨later, here, ?_, ?_⟩
  · rw [bytes, List.append_assoc, List.take_append_of_le_length long, List.take_take,
      Nat.min_eq_left (Nat.le_add_right _ _)]
    exact laid.before
  · have earlier : (now.bytes.take (off + (Offsets.moved state.history).length)).drop off =
        Offsets.moved state.history := by
      rw [List.drop_take, Nat.add_sub_cancel_left, laid.after, List.take_left']
      rfl
    have rest : now.bytes.drop
        (off + (Offsets.moved state.history).length + transfer.bytes.length) =
        contents.bytes.drop
          (off + ((Offsets.moved state.history).length + transfer.bytes.length)) := by
      rw [Nat.add_assoc, ← List.drop_drop, laid.after, List.drop_length_add_append, List.drop_drop,
        Nat.add_assoc]
    rw [bytes, List.append_assoc, List.drop_append_of_le_length long, earlier, moves.history,
      moved_append, List.length_append, rest, List.append_assoc]

/-- The bytes that a process has written in its call are the last ones that it has written. -/
def Progress (state : State nproc) : Prop :=
  ∀ p addr n i, state.place p = .writing addr n i →
    (List.range i).map addr <:+
      Offsets.moved (state.history.filter fun transfer => transfer.p = p ∧ transfer.kind = .write)

theorem Progress.quiet (progress : Progress state) (quiet : Quiet state next) : Progress next := by
  intro p addr n i writes
  rw [quiet.history]
  rcases quiet.place p addr n i writes with rfl | before
  · exact List.nil_suffix
  · exact progress p addr n i before

theorem Progress.moved (progress : Progress state) (moves : Moved state next transfer) :
    Progress next := by
  intro p addr n j writes
  rw [moves.history, List.filter_append]
  by_cases same : transfer.p = p
  · subst same
    rcases moves.goes addr n j writes with ⟨isWrite, i, before, bytes⟩
    rw [List.filter_cons_of_pos (by simp [isWrite]), List.filter_nil, moved_append, bytes]
    rcases progress transfer.p addr n i before with ⟨earlier, whole⟩
    exact ⟨earlier, by rw [← List.append_assoc, whole]⟩
  · rw [moves.others p (Ne.symm same)] at writes
    rw [List.filter_cons_of_neg (by simp [same]), List.filter_nil, List.append_nil]
    exact progress p addr n j writes

end

/-! ## Runs -/

section

variable {file : File} {inode : Inode} {state next : State nproc}

theorem advanced_mod (reachable : Reachable step Unrestricted (start nproc file inode) state) :
    Advanced (· % 2 ^ 32) file.off.toNat state ∧ Progress state := by
  have initially : Advanced (· % 2 ^ 32) file.off.toNat (start nproc file inode) :=
    ⟨trivial, (Nat.mod_eq_of_lt file.off.toNat_lt).symm⟩
  refine Reachable.invariant
    (fun state => Advanced (· % 2 ^ 32) file.off.toNat state ∧ Progress state) ?_
    ⟨initially, fun _ _ _ _ writes => nomatch writes⟩ reachable
  rintro state action next ⟨advanced, progress⟩ _ stepped
  rcases step_cases stepped with quiet | ⟨transfer, moves⟩ | ⟨before, after, _, _, rfl⟩
  · exact ⟨advanced.quiet quiet, progress.quiet quiet⟩
  · exact ⟨advanced.moved_mod moves, progress.moved moves⟩
  · exact ⟨⟨advanced.chained, advanced.off⟩, progress⟩

theorem advanced_start (nproc : Nat) (file : File) (inode : Inode) :
    Advanced id file.off.toNat (start nproc file inode) :=
  ⟨trivial, rfl⟩

theorem advanced_exact {contents : Contents}
    (reachable : Reachable step Unrestricted (start nproc file (.contents contents)) state) :
    Advanced id file.off.toNat state ∧ ∃ now, state.inode = .contents now := by
  refine Reachable.invariant
    (fun state => Advanced id file.off.toNat state ∧ ∃ now, state.inode = .contents now) ?_
    ⟨advanced_start nproc file _, contents, rfl⟩ reachable
  rintro state action next ⟨advanced, now, here⟩ _ stepped
  rcases step_cases stepped with quiet | ⟨transfer, moves⟩ | ⟨before, after, _, _, rfl⟩
  · exact ⟨advanced.quiet quiet, now, quiet.inode.trans here⟩
  · have spliced := moves.inode
    rw [here] at spliced
    rcases spliced.contents with ⟨later, isLater, _⟩
    exact ⟨advanced.moved_exact moves here, later, isLater⟩
  · exact ⟨⟨advanced.chained, advanced.off⟩, after, rfl⟩

theorem laid {contents : Contents}
    (reachable : Reachable step Alone (start nproc file (.contents contents)) state) :
    ∃ now, Laid contents file.off.toNat state now := by
  refine (Reachable.invariant (fun state => Advanced id file.off.toNat state ∧
    ∃ now, Laid contents file.off.toNat state now) ?_
    ⟨advanced_start nproc file _, contents, rfl, rfl, rfl⟩ reachable).2
  rintro state action next ⟨advanced, now, before⟩ alone stepped
  rcases step_cases stepped with quiet | ⟨transfer, moves⟩ | ⟨_, after, rfl, _, _⟩
  · refine ⟨advanced.quiet quiet, now, quiet.inode.trans before.here, before.before, ?_⟩
    rw [quiet.history]
    exact before.after
  · exact ⟨advanced.moved_exact moves before.here, before.moved advanced moves⟩
  · exact alone.elim

end

/-- Two writers of three bytes and a reader of one, on a file of eight bytes. -/
def twoWriters : List (Action 3) :=
  [.filewrite 0 (fun _ => 99) 3, .filewrite 1 (fun _ => 112) 3, .chunk 1 none,
    .fileread 2 1 none, .chunk 0 none]

def eightZeros : Contents := ⟨List.replicate 8 0, by decide⟩

end Xv6.Offsets
