import Xv6.Fs.Flushed
import Xv6.Sys.Discipline
import Xv6.Sys.Server

/-! # The kernel keeps to the rules

What the callers of the inode layer see is related to the state of the kernel: the
entries of the cache on any disk, and the inodes with their contents on a consistent
one. Every function of the inode layer keeps this relation as its rule says.
-/

namespace Xv6.Sys

open Dir (Node)
open Fs (Store Dinode Flushed Untouched Recached NoneAdded)
open Function (update update_self update_of_ne)

variable {changed : Node} {inum : Nat} {next : Fs.State}

/-! ## The entries of the cache -/

structure Slots (store : Store) (node : Nat → Node) : Prop where
  single : ∀ ip jp, 0 < (store.icache ip).ref → 0 < (store.icache jp).ref →
    (store.icache ip).inum = (store.icache jp).inum → ip = jp
  used : ∀ ip, 0 < (store.icache ip).ref →
    (node (store.icache ip).inum).ref = (store.icache ip).ref ∧
      (node (store.icache ip).inum).valid = (store.icache ip).valid
  free : ∀ inum, store.slot inum = none → (node inum).ref = 0 ∧ (node inum).valid = false

namespace Slots

variable {store next : Store} {node other : Nat → Node} {inum : Nat}

theorem exists_slot (slots : Slots store node)
    (known : 0 < (node inum).ref ∨ (node inum).valid = true) :
    ∃ ip, store.slot inum = some ip ∧ 0 < (store.icache ip).ref ∧
      (store.icache ip).inum = inum := by
  cases found : store.slot inum with
  | some ip => exact ⟨ip, rfl, Store.slot_eq_some found⟩
  | none =>
    have unused := slots.free inum found
    rcases known with used | valid
    · omega
    · rw [unused.2] at valid
      cases valid

theorem exists_holds (slots : Slots store node) (valid : (node inum).valid = true) :
    ∃ ip, store.slot inum = some ip ∧ store.Holds ip ∧ (store.icache ip).inum = inum := by
  rcases slots.exists_slot (Or.inr valid) with ⟨ip, found, used, own⟩
  have same := (slots.used ip used).2
  rw [own, valid] at same
  exact ⟨ip, found, ⟨used, same.symm⟩, own⟩

theorem same (slots : Slots store node) (same : Store.SameSlots store next)
    (nodes : ∀ inum, (other inum).ref = (node inum).ref ∧ (other inum).valid = (node inum).valid) :
    Slots next other := by
  refine ⟨fun ip jp => ?_, fun ip => ?_, fun inum missing => ?_⟩
  · simp only [same.ref, same.inum]
    exact slots.single ip jp
  · simp only [same.ref, same.inum, same.valid, nodes]
    exact slots.used ip
  · simp only [Store.slot, same.ref, same.inum] at missing
    rw [(nodes inum).1, (nodes inum).2]
    exact slots.free inum missing

theorem edit (slots : Slots store node) (same : Store.SameSlots store next)
    (ref : changed.ref = (node inum).ref) (valid : changed.valid = (node inum).valid) :
    Slots next (update node inum changed) := by
  refine slots.same same fun number => ?_
  by_cases own : number = inum
  · subst own
    rw [update_self]
    exact ⟨ref, valid⟩
  · rw [update_of_ne own]
    exact ⟨rfl, rfl⟩

theorem change (slots : Slots store node) (ip : Fin NINODE)
    (others : ∀ jp, jp ≠ ip → (next.icache jp).inum = (store.icache jp).inum ∧
      (next.icache jp).ref = (store.icache jp).ref ∧
      (next.icache jp).valid = (store.icache jp).valid)
    (owner : 0 < (store.icache ip).ref ∧ (store.icache ip).inum = inum ∨
      (store.icache ip).ref = 0 ∧
        ∀ jp, 0 < (store.icache jp).ref → (store.icache jp).inum ≠ inum)
    (own : (next.icache ip).inum = inum) (ref : changed.ref = (next.icache ip).ref)
    (valid : changed.valid = (decide (0 < (next.icache ip).ref) && (next.icache ip).valid)) :
    Slots next (update node inum changed) := by
  have elsewhere : ∀ jp, jp ≠ ip → 0 < (store.icache jp).ref →
      (store.icache jp).inum ≠ inum := by
    intro jp different used
    rcases owner with ⟨ipUsed, isOwn⟩ | ⟨_, uncached⟩
    · intro same
      exact different (slots.single jp ip used ipUsed (same.trans isOwn.symm))
    · exact uncached jp used
  refine ⟨fun jp kp jpUsed kpUsed same => ?_, fun jp used => ?_, fun number missing => ?_⟩
  · by_cases first : jp = ip
    · by_cases second : kp = ip
      · rw [first, second]
      · rw [(others kp second).2.1] at kpUsed
        rw [first, own, (others kp second).1] at same
        exact absurd same.symm (elsewhere kp second kpUsed)
    · rw [(others jp first).2.1] at jpUsed
      rw [(others jp first).1] at same
      by_cases second : kp = ip
      · rw [second, own] at same
        exact absurd same (elsewhere jp first jpUsed)
      · rw [(others kp second).2.1] at kpUsed
        rw [(others kp second).1] at same
        exact slots.single jp kp jpUsed kpUsed same
  · by_cases same : jp = ip
    · subst same
      rw [own, update_self, ref, valid, decide_eq_true used]
      exact ⟨rfl, rfl⟩
    · rw [(others jp same).2.1] at used
      rw [(others jp same).1, (others jp same).2.1, (others jp same).2.2,
        update_of_ne (elsewhere jp same used)]
      exact slots.used jp used
  · by_cases same : number = inum
    · have unused : ¬0 < (next.icache ip).ref := fun used =>
        Store.slot_eq_none missing used (own.trans same.symm)
      rw [same, update_self, ref, valid, decide_eq_false unused]
      exact ⟨by omega, rfl⟩
    · rw [update_of_ne same]
      apply slots.free
      cases found : store.slot number with
      | none => rfl
      | some jp =>
        rcases Store.slot_eq_some found with ⟨used, isNumber⟩
        have different : jp ≠ ip := by
          rintro rfl
          rcases owner with ⟨_, isOwn⟩ | ⟨unused, _⟩
          · exact same (isNumber.symm.trans isOwn)
          · omega
        have still := others jp different
        exact absurd (still.1.trans isNumber)
          (Store.slot_eq_none missing (by rw [still.2.1]; exact used))

end Slots

/-! ## Inodes and their contents -/

/-- A node is what the inode says besides its size and blocks. -/
structure Shows (dinode : Dinode) (node : Node) : Prop where
  type : node.type = dinode.type
  major : node.major = dinode.major
  minor : node.minor = dinode.minor
  nlink : node.nlink = dinode.nlink

structure Content (ninodes : Nat) (store : Store) (node : Nat → Node) : Prop where
  flushed : Flushed store
  count : store.sb.ninodes = ninodes
  shows : ∀ inum, 0 < inum → inum < ninodes → Shows (store.inode inum) (node inum)
  data : ∀ inum, store.Allocated inum → (node inum).data = store.contents inum

namespace Content

variable {ninodes : Nat} {store next : Store} {node : Nat → Node} {inum : Nat}

theorem change (content : Content ninodes store node) (flushed : Flushed next)
    (sb : next.sb = store.sb) (others : ∀ other, other < store.sb.ninodes → other ≠ inum →
      Dinode.SameFields (store.inode other) (next.inode other) ∧
        next.contents other = store.contents other)
    (shows : 0 < inum → inum < ninodes → Shows (next.inode inum) changed)
    (data : next.Allocated inum → changed.data = next.contents inum) :
    Content ninodes next (update node inum changed) := by
  refine ⟨flushed, by rw [sb]; exact content.count, fun other positive bound => ?_,
    fun other allocated => ?_⟩
  · by_cases same : other = inum
    · subst same
      rw [update_self]
      exact shows positive bound
    · rw [update_of_ne same]
      have fields := (others other (by rw [content.count]; exact bound) same).1
      have before := content.shows other positive bound
      exact ⟨before.type.trans fields.type.symm, before.major.trans fields.major.symm,
        before.minor.trans fields.minor.symm, before.nlink.trans fields.nlink.symm⟩
  · by_cases same : other = inum
    · subst same
      rw [update_self]
      exact data allocated
    · rcases allocated with ⟨positive, bound, typed⟩
      rw [sb] at bound
      have kept := others other bound same
      rw [update_of_ne same, kept.2]
      exact content.data other ⟨positive, bound, by rw [← kept.1.type]; exact typed⟩

theorem untouched_others {touched : Nat → Prop} (untouched : Untouched touched store next)
    (only : ∀ other, touched other → other = inum) :
    ∀ other, other < store.sb.ninodes → other ≠ inum →
      Dinode.SameFields (store.inode other) (next.inode other) ∧
        next.contents other = store.contents other := by
  intro other bound different
  have untouchedOther : ¬touched other := fun it => different (only other it)
  exact ⟨.of_eq (untouched.inode other bound untouchedOther),
    untouched.contents other bound untouchedOther⟩

/-- When the cache changes, the nodes stay what they are apart from their entries. -/
theorem recached (content : Content ninodes store node) (recached : Recached store next)
    (ref : Nat) (valid : Bool) : Content ninodes next
      (update node inum { node inum with ref := ref, valid := valid }) := by
  refine content.change recached.flushed recached.untouched.sb
    (untouched_others recached.untouched fun _ => False.elim) (fun positive bound => ?_)
    fun allocated => ?_
  · have before := content.shows inum positive bound
    rw [recached.untouched.inode inum (by rw [content.count]; exact bound) id]
    exact ⟨before.type, before.major, before.minor, before.nlink⟩
  · rcases allocated with ⟨positive, bound, typed⟩
    rw [recached.untouched.sb] at bound
    rw [recached.untouched.inode inum bound id] at typed
    rw [recached.untouched.contents inum bound id]
    exact content.data inum ⟨positive, bound, typed⟩

end Content

/-! ## Marks -/

/-- Transactions are not nested, and whatever is written to the log is written in a
transaction. `isOpen` says whether one is open after the marks. -/
def Ordered : List Mark → (isOpen : Bool) → Prop
  | [], isOpen => isOpen = false
  | .beginOp :: earlier, isOpen => isOpen = true ∧ Ordered earlier false
  | .endOp :: earlier, isOpen => isOpen = false ∧ Ordered earlier true
  | .fs (.logWrite _) :: earlier, isOpen => isOpen = true ∧ Ordered earlier isOpen
  | .ifree _ _ _ :: earlier, isOpen => isOpen = true ∧ Ordered earlier isOpen
  | _ :: earlier, isOpen => Ordered earlier isOpen

/-- What is handed out is in no use, and what is given up is free afterwards. -/
def Mark.Fresh : Mark → Prop
  | .beginOp | .endOp => True
  | .fs event => event.Fresh
  | .ialloc tables inum => tables.refs inum = 0
  | .ifree before after inum => (after.inode inum).type = 0 ∧
      ∀ place : Fs.Place, place.inum = inum → before.number place ≠ 0 →
        after.marked (before.number place) = false

theorem Ordered.fs {marks : List Mark} {isOpen : Bool} (ordered : Ordered marks isOpen)
    (events : List Fs.Event) (logs : isOpen = true ∨ events.any IsLogWrite = false) :
    Ordered (events.map .fs ++ marks) isOpen := by
  induction events with
  | nil => exact ordered
  | cons event rest induction =>
    rw [List.any_cons, Bool.or_eq_false_iff] at logs
    have earlier := induction (logs.imp id And.right)
    cases event with
    | logWrite blockno =>
      rcases logs with isOpen | quiet
      · exact ⟨isOpen, earlier⟩
      · cases quiet.1
    | balloc before block => exact earlier

/-- What has been recorded since the start of a call. -/
def Recorded (reliable : Prop) (start trace : List Mark) (isOpen : Bool) : Prop :=
  ∃ marks, trace = marks ++ start ∧ Ordered marks isOpen ∧ (reliable → ∀ mark ∈ marks, mark.Fresh)

namespace Recorded

variable {reliable : Prop} {start trace : List Mark} {isOpen : Bool}

theorem refl (reliable : Prop) (start : List Mark) : Recorded reliable start start false :=
  ⟨[], rfl, rfl, fun _ _ member => absurd member List.not_mem_nil⟩

theorem events (recorded : Recorded reliable start trace isOpen) {events : List Fs.Event}
    (logs : isOpen = true ∨ events.any IsLogWrite = false)
    (fresh : reliable → ∀ event ∈ events, event.Fresh) :
    Recorded reliable start (events.map .fs ++ trace) isOpen := by
  rcases recorded with ⟨marks, same, ordered, freshMarks⟩
  refine ⟨events.map .fs ++ marks, by rw [same, List.append_assoc], ordered.fs events logs, ?_⟩
  intro sure mark member
  rcases List.mem_append.mp member with isEvent | isMark
  · rcases List.mem_map.mp isEvent with ⟨event, isIn, rfl⟩
    exact fresh sure event isIn
  · exact freshMarks sure mark isMark

theorem mark (recorded : Recorded reliable start trace isOpen) {mark : Mark} {after : Bool}
    (ordered : ∀ marks, Ordered marks isOpen → Ordered (mark :: marks) after)
    (fresh : reliable → mark.Fresh) : Recorded reliable start (mark :: trace) after := by
  rcases recorded with ⟨marks, same, inOrder, freshMarks⟩
  refine ⟨mark :: marks, by rw [same, List.cons_append], ordered marks inOrder, ?_⟩
  intro sure other member
  rcases List.mem_cons.mp member with rfl | earlier
  · exact fresh sure
  · exact freshMarks sure other earlier

end Recorded

/-! ## The relation -/

/-- An inode without links that neither files nor processes refer to. -/
def Orphan (state : State) (inum : Nat) : Prop :=
  state.store.Allocated inum ∧ (state.store.inode inum).nlink = 0 ∧ state.tables.refs inum = 0

/-- The view of a call that began in state `start`. -/
structure Served (reliable : Prop) (ninodes : Nat) (start state : State) (view : View) : Prop where
  slots : Slots state.store view.node
  tables : view.tables = state.tables
  outstanding : state.outstanding = if view.trans then 1 else 0
  recorded : Recorded reliable start.trace state.trace view.trans
  orphan : ∀ inum, view.orphan inum → Orphan start inum
  content : reliable → Content ninodes state.store view.node
  sb : reliable → state.store.sb = start.store.sb
  noneAdded : reliable → view.wrote = false → NoneAdded start.store state.store

def Allowed (reliable : Prop) (failure : Failure) : Prop :=
  failure ≠ .dangling ∧ (reliable → failure ≠ .logWriteOutsideOfTrans)

theorem allowed_panic (reliable : Prop) (panic : Dir.Panic) : Allowed reliable (.panic panic) :=
  ⟨nofun, fun _ => nofun⟩

namespace Served

variable {reliable : Prop} {ninodes : Nat} {start state : State} {view : View}

section

variable (served : Served reliable ninodes start state view)
include served

theorem isOpen (isOpen : view.trans = true) :
    0 < state.outstanding := by
  rw [served.outstanding, isOpen]
  exact Nat.one_pos

theorem wrote (slots : Slots next.toStore (update view.node inum changed))
    (logs : view.trans = true ∨ next.events.any IsLogWrite = false)
    (content : reliable → Content ninodes next.toStore (update view.node inum changed))
    (records : reliable → Fs.Records ⟨state.store, []⟩ next)
    (sb : reliable → next.sb = state.store.sb) {wrote : Bool}
    (noneAdded : reliable → wrote = false →
      view.wrote = false ∧ NoneAdded state.store next.toStore) :
    Served reliable ninodes start (state.after next)
      { view.setNode inum changed with wrote := wrote } where
  slots := slots
  tables := served.tables
  outstanding := served.outstanding
  recorded := by
    refine served.recorded.events logs fun sure => ?_
    rcases records sure with ⟨added, same, fresh⟩
    rw [same, List.append_nil]
    exact fresh
  orphan := served.orphan
  content := content
  sb := fun sure => (sb sure).trans (served.sb sure)
  noneAdded := fun sure unwritten =>
    (served.noneAdded sure (noneAdded sure unwritten).1).trans (noneAdded sure unwritten).2

theorem after (slots : Slots next.toStore (update view.node inum changed))
    (logs : view.trans = true ∨ next.events.any IsLogWrite = false)
    (content : reliable → Content ninodes next.toStore (update view.node inum changed))
    (records : reliable → Fs.Records ⟨state.store, []⟩ next)
    (sb : reliable → next.sb = state.store.sb)
    (noneAdded : reliable → NoneAdded state.store next.toStore) :
    Served reliable ninodes start (state.after next) (view.setNode inum changed) :=
  served.wrote slots logs content records sb fun sure unwritten => ⟨unwritten, noneAdded sure⟩

/-- A function that only changes the cache. -/
theorem recached {ref : Nat} {valid : Bool} (slots : Slots next.toStore
      (update view.node inum { view.node inum with ref := ref, valid := valid }))
    (quiet : next.events = []) (recached : reliable → Recached state.store next.toStore) :
    Served reliable ninodes start (state.after next)
      (view.setNode inum { view.node inum with ref := ref, valid := valid }) :=
  served.after slots (Or.inr (by rw [quiet]; rfl))
    (fun sure => (served.content sure).recached (recached sure) ref valid)
    (fun _ => .of_events quiet) (fun sure => (recached sure).untouched.sb)
    fun sure => (recached sure).noneAdded

theorem read (same : Store.SameSlots state.store next.toStore)
    (logs : ¬(state.outstanding < 1 ∧ next.events.any IsLogWrite))
    (unchanged : reliable → next = ⟨state.store, []⟩) :
    Served reliable ninodes start (state.after next) view where
  slots := served.slots.same same fun _ => ⟨rfl, rfl⟩
  tables := served.tables
  outstanding := served.outstanding
  recorded := by
    refine served.recorded.events ?_ fun sure event member => ?_
    · have outstanding := served.outstanding
      by_cases isOpen : view.trans = true
      · exact Or.inl isOpen
      · rw [if_neg isOpen] at outstanding
        refine Or.inr ?_
        rw [← Bool.not_eq_true]
        exact fun any => logs ⟨by omega, any⟩
    · rw [unchanged sure] at member
      cases member
  orphan := served.orphan
  content := by
    intro sure
    rw [unchanged sure]
    exact served.content sure
  sb := by
    intro sure
    rw [unchanged sure]
    exact served.sb sure
  noneAdded := by
    intro sure
    rw [unchanged sure]
    exact served.noneAdded sure

theorem mark {mark : Mark}
    (ordered : ∀ marks, Ordered marks view.trans → Ordered (mark :: marks) view.trans)
    (fresh : reliable → mark.Fresh) :
    Served reliable ninodes start { state with trace := mark :: state.trace } view where
  slots := served.slots
  tables := served.tables
  outstanding := served.outstanding
  recorded := served.recorded.mark ordered fresh
  orphan := served.orphan
  content := served.content
  sb := served.sb
  noneAdded := served.noneAdded

end

end Served

end Xv6.Sys
