import Xv6.Sys.Respects
import Xv6.Sys.Transfers

/-! # Between calls

Between two calls the entries of the cache count the open files and the current
directories that point to them. On a consistent disk the inodes they point to are
allocated ones. Every call leads from one such state to another.
-/

namespace Xv6.Sys

open State
open Dir (Tables File Proc Node isCwd)
open Fs (Store Dinode Flushed ROOTINO T_DIR)

variable {inum : Nat}

/-- The number of open files and of current directories that point to an entry. -/
def State.pointers (state : State) (slot : Fin NINODE) : Nat :=
  state.tables.ftable.countP (fun file =>
    file.kind = .inode ∧ state.store.slot file.ip = some slot) +
  state.tables.procs.countP fun proc => (proc.map Proc.cwd).bind state.store.slot = some slot

/-- What holds between calls on any disk. -/
structure State.Referenced (state : State) : Prop where
  single : ∀ ip jp, 0 < (state.store.icache ip).ref → 0 < (state.store.icache jp).ref →
    (state.store.icache ip).inum = (state.store.icache jp).inum → ip = jp
  counted : ∀ slot, (state.store.icache slot).ref = state.pointers slot
  resolved : ∀ inum, 0 < state.tables.refs inum → state.store.slot inum ≠ none
  idle : state.tables.Idle
  closed : state.outstanding = 0

/-- What holds between calls on a consistent disk: files and processes refer to
inodes that are allocated, and that have links if they have to be read again. No
directory is open for writing, and the entries of directories are inode numbers. -/
structure State.Ready (state : State) : Prop extends state.Referenced where
  flushed : Flushed state.store
  root : ROOTINO < state.store.sb.ninodes
  typed : ∀ inum, 0 < state.tables.refs inum → (state.store.inode inum).type ≠ 0
  linked : ∀ inum, 0 < state.tables.refs inum →
    state.store.cached inum ≠ none ∨ (state.store.inode inum).nlink ≠ 0
  writable : ∀ file ∈ state.tables.ftable, file.kind = .inode → file.writable = true →
    (state.store.inode file.ip).type ≠ T_DIR
  ranged : ∀ inum, state.store.Allocated inum → (state.store.inode inum).type = T_DIR →
    Ranged state.store.sb.ninodes (state.store.contents inum)

/-! ## Pointers -/

theorem Tables.refs_pos_of_file {tables : Tables} {file : File} (member : file ∈ tables.ftable)
    (kind : file.kind = .inode) : 0 < tables.refs file.ip := by
  refine Nat.lt_of_lt_of_le (List.countP_pos_iff.mpr ⟨file, member, ?_⟩) (Nat.le_add_right _ _)
  simp [File.refersTo, kind]

section

variable {state : State} {slot : Fin NINODE}

theorem slot_eq_some_iff
    (single : ∀ ip jp, 0 < (state.store.icache ip).ref → 0 < (state.store.icache jp).ref →
      (state.store.icache ip).inum = (state.store.icache jp).inum → ip = jp)
    (used : 0 < (state.store.icache slot).ref) (inum : Nat) :
    state.store.slot inum = some slot ↔ inum = (state.store.icache slot).inum := by
  constructor
  · intro found
    exact (Store.slot_eq_some found).2.symm
  · rintro rfl
    cases found : state.store.slot (state.store.icache slot).inum with
    | none => exact absurd rfl (Store.slot_eq_none found used)
    | some jp =>
      have isUsed := Store.slot_eq_some found
      rw [single jp slot isUsed.1 used isUsed.2]

theorem pointers_of_used
    (single : ∀ ip jp, 0 < (state.store.icache ip).ref → 0 < (state.store.icache jp).ref →
      (state.store.icache ip).inum = (state.store.icache jp).inum → ip = jp)
    (used : 0 < (state.store.icache slot).ref) :
    state.pointers slot = state.tables.refs (state.store.icache slot).inum := by
  have resolves := slot_eq_some_iff single used
  unfold pointers Tables.refs
  congr 1
  · apply List.countP_congr
    intro file _
    simp only [resolves, File.refersTo]
  · apply List.countP_congr
    intro proc _
    cases proc with
    | none => simp [isCwd]
    | some proc => simp [isCwd, resolves]

theorem pointers_of_unused (unused : (state.store.icache slot).ref = 0) :
    state.pointers slot = 0 := by
  have never : ∀ inum, state.store.slot inum ≠ some slot := by
    intro inum found
    have used := (Store.slot_eq_some found).1
    omega
  unfold pointers
  rw [Nat.add_eq_zero_iff]
  constructor
  · rw [List.countP_eq_zero]
    intro file _
    simp [never]
  · rw [List.countP_eq_zero]
    intro proc _
    cases proc with
    | none => simp
    | some proc => simp [never]

end

/-! ## The view at the start of a call -/

def State.node (state : State) (inum : Nat) : Node :=
  let inode := if inum < state.store.sb.ninodes then state.store.inode inum else Dinode.blank
  { type := if inum = 0 then 0 else inode.type
    major := inode.major
    minor := inode.minor
    nlink := inode.nlink
    data := state.store.contents inum
    ref := (state.store.slot inum).elim 0 fun slot => (state.store.icache slot).ref
    valid := (state.store.slot inum).elim false fun slot => (state.store.icache slot).valid }

def State.view (state : State) : View where
  node := state.node
  tables := state.tables
  trans := false
  wrote := false
  orphan := Orphan state

@[simp] theorem State.view_node (state : State) : state.view.node = state.node := rfl

section

variable {state : State}

theorem State.Referenced.slots (referenced : state.Referenced) :
    Slots state.store state.node := by
  refine ⟨referenced.single, fun ip used => ?_, fun inum missing => ?_⟩
  · have found := (slot_eq_some_iff referenced.single used _).mpr rfl
    simp only [node, found, Option.elim_some, and_self]
  · simp only [node, missing, Option.elim_none, and_self]

theorem State.Referenced.refs (referenced : state.Referenced) (inum : Nat) :
    (state.node inum).ref = state.tables.refs inum := by
  cases found : state.store.slot inum with
  | none =>
    rw [(referenced.slots.free inum found).1]
    apply Eq.symm
    apply Nat.eq_zero_of_not_pos
    exact fun used => referenced.resolved inum used found
  | some slot =>
    have isUsed := Store.slot_eq_some found
    have same := (referenced.slots.used slot isUsed.1).1
    rw [isUsed.2] at same
    rw [same, referenced.counted, pointers_of_used referenced.single isUsed.1, isUsed.2]

theorem State.Referenced.valid_of_cached (referenced : state.Referenced)
    (cached : state.store.cached inum ≠ none) : (state.node inum).valid = true := by
  cases found : state.store.cached inum with
  | none => exact absurd found cached
  | some slot =>
    rcases Store.cached_eq_some found with ⟨holds, own⟩
    have valid := (referenced.slots.used slot holds.1).2
    rw [own] at valid
    exact valid.trans holds.2

theorem State.Ready.range (ready : state.Ready) (used : 0 < state.tables.refs inum) :
    0 < inum ∧ inum < state.store.sb.ninodes := by
  cases found : state.store.slot inum with
  | none => exact absurd found (ready.resolved inum used)
  | some slot =>
    have isUsed := Store.slot_eq_some found
    have range := ready.flushed.cache.range slot isUsed.1
    rw [isUsed.2] at range
    exact range

theorem State.shows (positive : 0 < inum)
    (bound : inum < state.store.sb.ninodes) : Shows (state.store.inode inum) (state.node inum) := by
  have nonzero : inum ≠ 0 := by omega
  refine ⟨?_, ?_, ?_, ?_⟩ <;> simp only [node, bound, nonzero, if_true, if_false]

theorem State.range_of_typed (typed : (state.node inum).type ≠ 0) :
    0 < inum ∧ inum < state.store.sb.ninodes := by
  simp only [node] at typed
  split at typed
  · exact absurd rfl typed
  · rename_i nonzero
    split at typed
    · rename_i bound
      exact ⟨Nat.pos_of_ne_zero nonzero, bound⟩
    · exact absurd rfl typed

theorem State.allocated_of_typed (typed : (state.node inum).type ≠ 0) :
    state.store.Allocated inum := by
  have range := range_of_typed typed
  exact ⟨range.1, range.2, by rw [← (shows range.1 range.2).type]; exact typed⟩

variable {reliable : Prop}

theorem State.Referenced.served (referenced : state.Referenced) (ready : reliable → state.Ready) :
    Served reliable state.store.sb.ninodes state state state.view where
  slots := referenced.slots
  tables := rfl
  outstanding := referenced.closed
  recorded := .refl reliable state.trace
  orphan := fun _ orphan => orphan
  content := fun sure => ⟨(ready sure).flushed, rfl, fun _ => shows, fun _ _ => rfl⟩
  sb := fun _ => rfl
  noneAdded := fun _ _ => .refl _

theorem State.Referenced.holding (referenced : state.Referenced)
    (ready : reliable → state.Ready) : Holding reliable state.store.sb.ninodes state.view [] where
  refs := referenced.refs
  idle := referenced.idle
  inRange := by
    intro sure inum used
    rw [view_node, referenced.refs] at used
    exact (ready sure).range used
  typed := by
    intro sure inum used
    have range := (ready sure).range used
    rw [view_node, (shows range.1 range.2).type]
    exact (ready sure).typed inum used
  linked := by
    intro sure inum used
    have range := (ready sure).range used
    rw [view_node, (shows range.1 range.2).nlink]
    exact ((ready sure).linked inum used).imp_left referenced.valid_of_cached
  writable := by
    intro sure file member kind writable
    have used := Tables.refs_pos_of_file member kind
    have range := (ready sure).range used
    rw [view_node, (shows range.1 range.2).type]
    exact (ready sure).writable file member kind writable
  ranged := by
    intro sure inum isDir
    rw [view_node] at isDir
    have allocated : state.store.Allocated inum := allocated_of_typed (by
      rw [isDir]
      decide)
    rw [(shows allocated.1 allocated.2.1).type] at isDir
    exact (ready sure).ranged inum allocated isDir
  live := by
    intro sure inum typed unlinked
    rw [view_node] at typed unlinked ⊢
    have allocated := allocated_of_typed typed
    rw [(shows allocated.1 allocated.2.1).nlink] at unlinked
    by_cases used : 0 < state.tables.refs inum
    · rcases (ready sure).linked inum used with cached | linked
      · exact Or.inl (referenced.valid_of_cached cached)
      · exact absurd unlinked linked
    · exact Or.inr ⟨allocated, unlinked, Nat.eq_zero_of_not_pos used⟩

/-! ## The state at the end of a call -/

variable {ninodes : Nat} {start next : State} {after : View}

theorem Served.referenced (served : Served reliable ninodes start next after)
    (holding : Holding reliable ninodes after []) (closed : after.trans = false) :
    next.Referenced := by
  have refs : ∀ inum, (after.node inum).ref = next.tables.refs inum := by
    intro inum
    rw [← served.tables]
    exact holding.refs inum
  refine ⟨served.slots.single, fun slot => ?_, fun inum used missing => ?_,
    served.tables ▸ holding.idle, ?_⟩
  · by_cases used : 0 < (next.store.icache slot).ref
    · rw [pointers_of_used served.slots.single used, ← refs, (served.slots.used slot used).1]
    · rw [pointers_of_unused (Nat.eq_zero_of_not_pos used), Nat.eq_zero_of_not_pos used]
  · rw [← refs, (served.slots.free inum missing).1] at used
    exact absurd used (Nat.lt_irrefl 0)
  · rw [served.outstanding, closed]
    rfl

theorem Served.ready (served : Served reliable ninodes start next after)
    (holding : Holding reliable ninodes after []) (closed : after.trans = false)
    (sure : reliable) (root : ROOTINO < ninodes) : next.Ready := by
  have content := served.content sure
  have shows : ∀ inum, 0 < next.tables.refs inum →
      Shows (next.store.inode inum) (after.node inum) := by
    intro inum used
    rw [← served.tables] at used
    have referenced : 0 < (after.node inum).ref := by
      rw [holding.refs]
      exact used
    have range := holding.inRange sure inum referenced
    exact content.shows inum range.1 range.2
  refine ⟨served.referenced holding closed, content.flushed, content.count ▸ root, ?_, ?_, ?_, ?_⟩
  · intro inum used
    rw [← (shows inum used).type]
    exact holding.typed sure inum (served.tables ▸ used)
  · intro inum used
    rcases holding.linked sure inum (served.tables ▸ used) with valid | linked
    · rcases served.slots.exists_holds valid with ⟨slot, _, holds, own⟩
      left
      rw [← own, content.flushed.cache.cached_eq holds]
      nofun
    · right
      rw [← (shows inum used).nlink]
      exact linked
  · intro file member kind writable
    have used : 0 < next.tables.refs file.ip := Tables.refs_pos_of_file member kind
    rw [← (shows file.ip used).type]
    exact holding.writable sure file (served.tables ▸ member) kind writable
  · intro inum allocated isDir
    rw [content.count, ← content.data inum allocated]
    apply holding.ranged sure inum
    rw [(content.shows inum allocated.1 (content.count ▸ allocated.2.1)).type]
    exact isDir

end

end Xv6.Sys
