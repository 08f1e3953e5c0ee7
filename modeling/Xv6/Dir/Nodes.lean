import Xv6.Dir.Entries

/-! # What the requests do

Programs hold references to inodes while they use them. `hold` adds such a
reference to a state, so that a state in the middle of a call is described by the
state without the references of the call.
-/

namespace Xv6.Dir

open Program Interaction State
open Fs (Device readBytes writeBytes T_DEV)

variable {inum other : Nat} {post : Unit → State → Prop}

namespace State

variable {state : State}

@[simp] theorem length_setNode (inum : Nat) (node : Node) :
    (state.setNode inum node).nodes.length = state.nodes.length :=
  List.length_set

theorem node_setNode (inum : Nat) (node : Node) (other : Nat) :
    (state.setNode inum node).node other =
      if other = inum ∧ inum < state.nodes.length then node else state.node other := by
  simp only [State.node, setNode, List.getD_eq_getElem?_getD, List.getElem?_set]
  by_cases same : inum = other
  · subst same
    by_cases inside : inum < state.nodes.length
    · simp [inside]
    · simp [inside]
  · simp [same, Ne.symm same]

theorem ext_node {left right : State} (length : left.nodes.length = right.nodes.length)
    (tables : left.tables = right.tables) (nodes : ∀ inum, left.node inum = right.node inum) :
    left = right := by
  have same : left.nodes = right.nodes := by
    apply List.ext_getElem length
    intro inum leftBound rightBound
    have equal := nodes inum
    simp only [node, List.getD_eq_getElem?_getD, List.getElem?_eq_getElem leftBound,
      List.getElem?_eq_getElem rightBound, Option.getD_some] at equal
    exact equal
  rcases left with ⟨leftNodes, leftTables⟩
  rcases right with ⟨rightNodes, rightTables⟩
  simp only at same tables
  rw [same, tables]

theorem node_of_length_le (outside : state.nodes.length ≤ inum) :
    state.node inum = Node.blank := by
  rw [node, List.getD_eq_getElem?_getD, List.getElem?_eq_none outside, Option.getD_none]

/-! ## Changing one inode -/

def edit (state : State) (inum : Nat) (change : Node → Node) : State :=
  state.setNode inum (change (state.node inum))

@[simp] theorem length_edit (inum : Nat) (change : Node → Node) :
    (state.edit inum change).nodes.length = state.nodes.length :=
  length_setNode _ _

@[simp] theorem tables_edit (inum : Nat) (change : Node → Node) :
    (state.edit inum change).tables = state.tables := rfl

theorem InRange.edit (inRange : state.InRange inum) (other : Nat)
    (change : Node → Node) : (state.edit other change).InRange inum :=
  ⟨inRange.1, by rw [length_edit]; exact inRange.2⟩

theorem node_edit_self (inside : inum < state.nodes.length) (change : Node → Node) :
    (state.edit inum change).node inum = change (state.node inum) := by
  rw [edit, node_setNode, if_pos ⟨rfl, inside⟩]

theorem node_edit_of_ne (different : other ≠ inum) (change : Node → Node) :
    (state.edit inum change).node other = state.node other := by
  rw [edit, node_setNode, if_neg fun both => different both.1]

theorem edit_of_length_le (outside : state.nodes.length ≤ inum)
    (change : Node → Node) : state.edit inum change = state := by
  rw [edit, setNode, List.set_eq_of_length_le outside]

theorem edit_edit (inum : Nat) (first second : Node → Node) :
    (state.edit inum first).edit inum second = state.edit inum fun node => second (first node) := by
  rcases Nat.lt_or_ge inum state.nodes.length with inside | outside
  · rw [edit, node_edit_self inside]
    simp only [edit, setNode, List.set_set]
  · rw [edit_of_length_le outside, edit_of_length_le outside, edit_of_length_le outside]

theorem edit_comm (different : inum ≠ other) (first second : Node → Node) :
    (state.edit inum first).edit other second = (state.edit other second).edit inum first := by
  rw [edit, node_edit_of_ne different.symm, edit.eq_def (state.edit other second),
    node_edit_of_ne different]
  simp only [edit, setNode]
  rw [List.set_comm _ _ different]

theorem edit_eq_self {change : Node → Node}
    (unchanged : change (state.node inum) = state.node inum) : state.edit inum change = state := by
  apply ext_node (length_edit _ _) rfl
  intro other
  rw [edit, node_setNode, unchanged]
  split
  · rename_i same
    rw [same.1]
  · rfl

/-- Add a reference; `locked` says whether the inode has been locked since. -/
def hold (state : State) (inum : Nat) (locked : Bool) : State :=
  state.edit inum fun node => { node with ref := node.ref + 1, valid := node.valid || locked }

/-- Free an inode that has neither references nor links. -/
def reap (state : State) (inum : Nat) : State :=
  state.edit inum fun node =>
    if node.ref = 0 ∧ node.nlink = 0 then { node with type := 0, data := [] } else node

@[simp] theorem length_hold (inum : Nat) (locked : Bool) :
    (state.hold inum locked).nodes.length = state.nodes.length := length_edit _ _

@[simp] theorem tables_hold (inum : Nat) (locked : Bool) :
    (state.hold inum locked).tables = state.tables := rfl

theorem hold_comm (different : inum ≠ other) (first second : Bool) :
    (state.hold inum first).hold other second = (state.hold other second).hold inum first :=
  edit_comm different _ _

theorem hold_content (state : State) (inum other : Nat) (locked : Bool) :
    ((state.hold inum locked).node other).type = (state.node other).type ∧
      ((state.hold inum locked).node other).nlink = (state.node other).nlink ∧
      ((state.hold inum locked).node other).data = (state.node other).data := by
  rcases Nat.lt_or_ge inum state.nodes.length with inside | outside
  · by_cases same : other = inum
    · subst same
      rw [hold, node_edit_self inside]
      exact ⟨rfl, rfl, rfl⟩
    · rw [hold, node_edit_of_ne same]
      exact ⟨rfl, rfl, rfl⟩
  · rw [hold, edit_of_length_le outside]
    exact ⟨rfl, rfl, rfl⟩

end State

/-- A change that neither reads nor writes what the cache says about an inode. -/
def OnContent (change : Node → Node) : Prop :=
  ∀ node ref valid,
    change { node with ref := ref, valid := valid } =
      { change node with ref := ref, valid := valid }

theorem State.edit_hold {state : State} {change : Node → Node} (onContent : OnContent change)
    (inum other : Nat) (locked : Bool) :
    (state.hold other locked).edit inum change = (state.edit inum change).hold other locked := by
  by_cases same : inum = other
  · subst same
    simp only [hold, edit_edit]
    congr 1
    funext node
    have own := onContent node node.ref node.valid
    rw [onContent]
    rw [show change node = { change node with ref := node.ref, valid := node.valid } from own]
  · exact edit_comm (Ne.symm same) _ _

/-! ## References and links of an inode between calls -/

structure Node.Settled (node : Node) : Prop where
  valid : node.valid = decide (node.ref ≠ 0)
  typed : node.ref ≠ 0 → node.type ≠ 0
  linked : node.type ≠ 0 → node.nlink = 0 → node.ref ≠ 0

/-- A cached inode is allocated and valid, and an allocated inode that is not
cached has links. -/
def State.Settled (state : State) : Prop := ∀ inum, (state.node inum).Settled

theorem Node.settled_blank : Node.blank.Settled :=
  ⟨rfl, fun used => absurd rfl used, fun typed => absurd rfl typed⟩

section

variable {state : State} {inum : Nat}

theorem State.InRange.of_typed (zero : (state.node 0).type = 0)
    (typed : (state.node inum).type ≠ 0) : state.InRange inum := by
  refine ⟨Nat.pos_of_ne_zero ?_, ?_⟩
  · rintro rfl
    exact typed zero
  · by_contra outside
    rw [node_of_length_le (Nat.le_of_not_lt outside)] at typed
    exact typed rfl

theorem State.Settled.hold (settled : state.Settled) (typed : (state.node inum).type ≠ 0) :
    (state.hold inum true).Settled := by
  intro other
  by_cases same : other = inum
  · subst same
    rcases Nat.lt_or_ge other state.nodes.length with inside | outside
    · rw [hold, node_edit_self inside]
      exact ⟨by simp, fun _ => typed, fun _ _ => Nat.succ_ne_zero _⟩
    · rw [hold, edit_of_length_le outside]
      exact settled other
  · rw [State.hold, State.node_edit_of_ne same]
    exact settled other

/-- A settled inode is not freed. -/
theorem State.reap_eq_self (settled : (state.node inum).Settled)
    (typed : (state.node inum).type ≠ 0) : state.reap inum = state := by
  apply edit_eq_self
  rw [if_neg]
  rintro ⟨unused, unlinked⟩
  exact settled.linked typed unlinked unused

end

/-! ## The requests -/

section

variable {devsw : Nat → Device} {state : State} {inum : Nat} {fails : Failure → Prop}

/-- The rules below are backward ones: a request meets what its answer and the state after
it meet. -/
theorem meets_send (request : Request) (post : Answer request → State → Prop) :
    Meets (Machine.execute devsw (send request)) state fails post ↔
      Meets (Machine.serve devsw request) state fails post :=
  meets_interpret_send _ _ _ _ _

/-- The caller has a reference to the inode and has locked it. -/
structure State.Locked (state : State) (inum : Nat) : Prop where
  inRange : state.InRange inum
  used : 0 < (state.node inum).ref
  valid : (state.node inum).valid = true

theorem State.locked_hold (inRange : state.InRange inum) : (state.hold inum true).Locked inum := by
  have node : (state.hold inum true).node inum =
      { state.node inum with ref := (state.node inum).ref + 1, valid := true } := by
    rw [hold, node_edit_self inRange.2, Bool.or_true]
  exact ⟨⟨inRange.1, by rw [length_hold]; exact inRange.2⟩, by rw [node]; exact Nat.succ_pos _,
    by rw [node]⟩

theorem State.Locked.hold (locked : state.Locked inum) (other : Nat) (flag : Bool) :
    (state.hold other flag).Locked inum := by
  refine ⟨⟨locked.inRange.1, by rw [length_hold]; exact locked.inRange.2⟩, ?_, ?_⟩
  · by_cases same : inum = other
    · subst same
      rw [State.hold, State.node_edit_self locked.inRange.2]
      exact Nat.succ_pos _
    · rw [State.hold, State.node_edit_of_ne same]
      exact locked.used
  · by_cases same : inum = other
    · subst same
      rw [State.hold, State.node_edit_self locked.inRange.2, locked.valid, Bool.true_or]
    · rw [State.hold, State.node_edit_of_ne same]
      exact locked.valid

theorem meets_getNode (inRange : state.InRange inum) (post : Node → State → Prop) :
    Meets (Machine.getNode inum) state fails post ↔ post (state.node inum) state := by
  simp only [Machine.getNode, meets_bind, meets_get, if_pos inRange, meets_pure]

theorem meets_locked (locked : state.Locked inum) (post : Node → State → Prop) :
    Meets (Machine.locked inum) state fails post ↔ post (state.node inum) state := by
  rw [Machine.locked, meets_bind, meets_getNode locked.inRange,
    if_pos ⟨locked.used, locked.valid⟩, meets_pure]

theorem iget_meets {post : Nat → State → Prop}
    (settled : (state.node inum).valid = decide ((state.node inum).ref ≠ 0))
    (full : fails (.panic (.fs .igetNoInodes))) (range : state.InRange inum ∨ fails .outOfRange)
    (met : state.InRange inum → post inum (state.hold inum false)) :
    Meets (Machine.execute devsw (iget inum)) state fails post := by
  refine (meets_send (.iget inum) post).mpr ?_
  change Meets (Machine.iget inum) state fails post
  simp only [Machine.iget, Machine.getNode, Machine.setNode, meets_bind, meets_get,
    meets_ite, meets_pure, meets_throw, meets_modify]
  refine ⟨fun inRange => ⟨fun unused => ⟨fun _ => ?_, fun _ => full⟩, fun used => ?_⟩,
    range.resolve_left⟩
  · have held := met inRange
    simp only [hold, edit, settled, unused, ne_eq, not_true_eq_false, decide_false,
      Bool.or_false, Nat.zero_add] at held
    exact held
  · have held := met inRange
    simp only [hold, edit, Bool.or_false] at held
    exact held

theorem idup_meets {post : Nat → State → Prop} (inRange : state.InRange inum)
    (met : post inum (state.hold inum false)) :
    Meets (Machine.execute devsw (idup inum)) state fails post := by
  refine (meets_send (.idup inum) post).mpr ?_
  change Meets (Machine.idup inum) _ fails post
  rw [Machine.idup, meets_bind, meets_getNode inRange]
  simp only [hold, edit, Bool.or_false] at met
  exact met

/-- Locking an inode that is held finds no type only if the inode is free. -/
theorem ilock_meets (valid : (state.node inum).valid = decide ((state.node inum).ref ≠ 0))
    (used : (state.node inum).ref ≠ 0 → (state.node inum).type ≠ 0) (inRange : state.InRange inum)
    {locked : Bool} (before : locked = true → (state.node inum).type ≠ 0)
    (free : (state.node inum).type ≠ 0 ∨ fails (.panic (.fs .ilockNoType)))
    (met : (state.node inum).type ≠ 0 → post () (state.hold inum true)) :
    Meets (Machine.execute devsw (ilock inum)) (state.hold inum locked) fails post := by
  have range : (state.hold inum locked).InRange inum := by
    rw [State.InRange, length_hold]
    exact inRange
  refine (meets_send (.ilock inum) post).mpr ?_
  change Meets (Machine.ilock inum) _ fails post
  rw [Machine.ilock, meets_bind, meets_getNode range]
  simp only [Machine.setNode, meets_pure, meets_ite, meets_throw, meets_modify]
  have node : (state.hold inum locked).node inum =
      { state.node inum with
        ref := (state.node inum).ref + 1, valid := (state.node inum).valid || locked } := by
    rw [hold, node_edit_self inRange.2]
  rw [node]
  refine ⟨fun impossible => absurd impossible (by simp), fun _ => ⟨?_, ?_⟩⟩
  · intro isValid
    have typed : (state.node inum).type ≠ 0 := by
      rcases Bool.or_eq_true _ _ ▸ isValid with wasValid | wasLocked
      · rw [valid] at wasValid
        exact used (of_decide_eq_true wasValid)
      · exact before wasLocked
    have same : state.hold inum locked = state.hold inum true := by
      simp only [hold, edit]
      simp only at isValid
      rw [isValid, Bool.or_true]
    rw [same]
    exact met typed
  · intro invalid
    refine ⟨fun noType => (free.resolve_left fun typed => typed noType), fun typed => ?_⟩
    have held := met typed
    simp only [hold, edit, setNode, List.set_set, Bool.or_true] at held ⊢
    exact held

theorem ilock_again_meets (locked : state.Locked inum)
    (met : post () state) : Meets (Machine.execute devsw (ilock inum)) state fails post := by
  refine (meets_send (.ilock inum) post).mpr ?_
  change Meets (Machine.ilock inum) _ fails post
  rw [Machine.ilock, meets_bind, meets_getNode locked.inRange, if_neg
    (Nat.not_lt.mpr locked.used), if_pos locked.valid]
  exact met

/-- Giving up a reference may free the inode if it has been locked. -/
theorem iput_meets (settled : (state.node inum).valid = decide ((state.node inum).ref ≠ 0))
    (inRange : state.InRange inum) (locked : Bool)
    (met : post () (if locked then state.reap inum else state)) :
    Meets (Machine.execute devsw (iput inum)) (state.hold inum locked) fails post := by
  have range : (state.hold inum locked).InRange inum := by
    rw [State.InRange, length_hold]
    exact inRange
  refine (meets_send (.iput inum) post).mpr ?_
  change Meets (Machine.iput inum) _ fails post
  rw [Machine.iput, meets_bind, meets_getNode range]
  simp only [Machine.setNode, meets_ite, meets_modify]
  have node : (state.hold inum locked).node inum =
      { state.node inum with
        ref := (state.node inum).ref + 1, valid := (state.node inum).valid || locked } := by
    rw [hold, node_edit_self inRange.2]
  have setHold : ∀ next, (state.hold inum locked).setNode inum next = state.setNode inum next := by
    intro next
    simp only [hold, edit, setNode, List.set_set]
  have same : state.setNode inum (state.node inum) = state :=
    show state.edit inum (fun _ => state.node inum) = state from edit_eq_self rfl
  rw [node, setHold, setHold]
  refine ⟨?_, ?_⟩
  · rintro ⟨last, valid, unlinked⟩
    have unused : (state.node inum).ref = 0 := Nat.succ_injective last
    have wasLocked : locked = true := by
      rw [settled, unused] at valid
      simpa using valid
    rw [if_pos wasLocked, reap, edit, if_pos ⟨unused, unlinked⟩] at met
    simp only [settled, unused, ne_eq, not_true_eq_false, decide_false] at met
    exact met
  · intro kept
    have restored : ({ state.node inum with
          ref := (state.node inum).ref + 1 - 1
          valid := ((state.node inum).valid || locked) &&
            decide (1 < (state.node inum).ref + 1) } : Node) = state.node inum := by
      have valid : (((state.node inum).valid || locked) &&
          decide (1 < (state.node inum).ref + 1)) = (state.node inum).valid := by
        rw [settled]
        by_cases unused : (state.node inum).ref = 0 <;> simp [unused, Nat.pos_iff_ne_zero]
      rw [valid, Nat.add_sub_cancel]
    rw [restored, same]
    split at met
    · rename_i wasLocked
      rw [reap, edit, if_neg, same] at met
      · exact met
      · rintro ⟨unused, unlinked⟩
        refine kept ⟨?_, ?_, unlinked⟩
        · simp only [unused]
        · simp [wasLocked]
    · exact met

theorem fields_meets {post : Fields → State → Prop} (locked : state.Locked inum)
    (met : post ⟨(state.node inum).type, (state.node inum).major, (state.node inum).minor,
      (state.node inum).nlink, (state.node inum).data.length⟩ state) :
    Meets (Machine.execute devsw (fields inum)) state fails post := by
  refine (meets_send (.fields inum) post).mpr ?_
  change Meets (Machine.fields inum) _ fails post
  rw [Machine.fields, meets_bind, meets_locked locked]
  exact met

theorem update_meets (locked : state.Locked inum) (major minor nlink : Int16)
    (met : post () (state.edit inum fun node =>
      { node with major := major, minor := minor, nlink := nlink })) :
    Meets (Machine.execute devsw (update inum major minor nlink)) state fails post := by
  refine (meets_send (.update inum major minor nlink) post).mpr ?_
  change Meets (Machine.update inum major minor nlink) _ fails post
  rw [Machine.update, meets_bind, meets_locked locked]
  exact met

theorem setNlink_meets (locked : state.Locked inum) (change : Int16 → Int16)
    (met : post () (state.edit inum fun node => { node with nlink := change node.nlink })) :
    Meets (Machine.execute devsw (setNlink inum change)) state fails post :=
  (meets_interpret_bind _ _ _ _ _ _).mpr (fields_meets locked (update_meets locked _ _ _ met))

section

variable (locked : state.Locked inum) (notDevice : (state.node inum).type ≠ T_DEV)

include locked notDevice

theorem readi_meets {post : Int × List UInt8 → State → Prop} (off n : UInt32)
    (met : post (readBytes (state.node inum).data off.toNat n.toNat) state) :
    Meets (Machine.execute devsw (readi inum off n)) state fails post := by
  refine (meets_send (.readi inum off n) post).mpr ?_
  change Meets (Machine.readi devsw inum off n) _ fails post
  rw [Machine.readi, meets_bind, meets_locked locked, if_neg notDevice]
  exact met

theorem writei_meets {post : Int → State → Prop} (src : List UInt8) (off : UInt32)
    (met :
      let written := writeBytes (state.node inum).data (fun index => src.getD index 0) off.toNat
        (UInt32.ofNat src.length).toNat
      post written.1 (state.edit inum fun node => { node with data := written.2 })) :
    Meets (Machine.execute devsw (writei inum src off)) state fails post := by
  refine (meets_send (.writei inum src off) post).mpr ?_
  change Meets (Machine.writei devsw inum src off) _ fails post
  rw [Machine.writei, meets_bind, meets_locked locked]
  simp only [if_neg notDevice]
  exact met

end

theorem panic_meets {Value : Type} (panic : Panic) (allowed : fails (.panic panic))
    (post : Value → State → Prop) :
    Meets (Machine.execute devsw (Dir.panic panic)) state fails post := by
  refine (meets_interpret_bind _ _ _ _ _ _).mpr ?_
  exact (meets_send _ _).mpr allowed

theorem tables_meets {post : Tables → State → Prop} (met : post state.tables state) :
    Meets (Machine.execute devsw tables) state fails post :=
  (meets_send _ _).mpr met

theorem setTables_meets (tables : Tables) (met : post () { state with tables := tables }) :
    Meets (Machine.execute devsw (setTables tables)) state fails post :=
  (meets_send _ _).mpr met

end

end Xv6.Dir
