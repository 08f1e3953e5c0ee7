import Xv6.Dir.Lookup

/-! # Calls in progress

In the middle of a call some inodes are referenced and locked by it. What the
functions on directories and paths do there is said in terms of the state without
these references.
-/

namespace Xv6.Dir

open Program Interaction State Machine
open Fs (Device T_DIR ROOTINO MAXFILE)

variable {inum : Nat} {post : Unit → State → Prop}

namespace State

/-- The state with a locked reference to each of the inodes. -/
def holds (state : State) : List Nat → State
  | [] => state
  | inum :: rest => (state.holds rest).hold inum true

variable {state : State} {held : List Nat}

@[simp] theorem length_holds (held : List Nat) :
    (state.holds held).nodes.length = state.nodes.length := by
  induction held with
  | nil => rfl
  | cons inum rest induction => rw [holds, length_hold, induction]

@[simp] theorem tables_holds (held : List Nat) : (state.holds held).tables = state.tables := by
  induction held with
  | nil => rfl
  | cons inum rest induction => rw [holds, tables_hold, induction]

theorem holds_content (state : State) (held : List Nat) (inum : Nat) :
    ((state.holds held).node inum).type = (state.node inum).type ∧
      ((state.holds held).node inum).nlink = (state.node inum).nlink ∧
      ((state.holds held).node inum).data = (state.node inum).data := by
  induction held with
  | nil => exact ⟨rfl, rfl, rfl⟩
  | cons other rest induction =>
    rcases (state.holds rest).hold_content other inum true with ⟨type, nlink, data⟩
    exact ⟨type.trans induction.1, nlink.trans induction.2.1, data.trans induction.2.2⟩

theorem holds_isDir (state : State) (held : List Nat) (inum : Nat) :
    (state.holds held).IsDir inum ↔ state.IsDir inum := by
  rw [IsDir, IsDir, (state.holds_content held inum).1]

theorem node_holds_of_not_mem (absent : inum ∉ held) :
    (state.holds held).node inum = state.node inum := by
  induction held with
  | nil => rfl
  | cons other rest induction =>
    rw [List.mem_cons, not_or] at absent
    rw [holds, hold, node_edit_of_ne absent.1, induction absent.2]

theorem locked_holds (member : inum ∈ held) (inRange : state.InRange inum) :
    (state.holds held).Locked inum := by
  induction held with
  | nil => cases member
  | cons other rest induction =>
    rcases List.mem_cons.mp member with rfl | later
    · exact locked_hold ⟨inRange.1, by rw [length_holds]; exact inRange.2⟩
    · exact (induction later).hold other true

theorem edit_holds {change : Node → Node} (onContent : OnContent change) (inum : Nat)
    (held : List Nat) : (state.holds held).edit inum change = (state.edit inum change).holds held := by
  induction held with
  | nil => rfl
  | cons other rest induction => rw [holds, edit_hold onContent, induction, holds]

/-- A held inode is in use, whatever its link count. -/
theorem settled_holds (others : ∀ inum, inum ∉ held → (state.node inum).Settled)
    (typed : ∀ inum ∈ held, state.InRange inum ∧ (state.node inum).type ≠ 0) :
    (state.holds held).Settled := by
  intro inum
  by_cases member : inum ∈ held
  · have locked := locked_holds member (typed inum member).1
    refine ⟨?_, fun _ => ?_, fun _ _ => Nat.pos_iff_ne_zero.mp locked.used⟩
    · rw [locked.valid, decide_eq_true (Nat.pos_iff_ne_zero.mp locked.used)]
    · rw [(state.holds_content held inum).1]
      exact (typed inum member).2
  · rw [node_holds_of_not_mem member]
    exact others inum member

theorem reap_holds (absent : inum ∉ held) :
    (state.holds held).reap inum = (state.reap inum).holds held := by
  induction held with
  | nil => rfl
  | cons other rest induction =>
    rw [List.mem_cons, not_or] at absent
    rw [holds, holds, ← induction absent.2]
    exact edit_comm (Ne.symm absent.1) _ _

end State

section

variable {devsw : Nat → Device} {state : State} {held : List Nat} {inum : Nat}
  {fails : Failure → Prop}

section

variable (member : inum ∈ held) (inRange : state.InRange inum)
include member inRange

theorem fields_held {post : Fields → State → Prop}
    (met : ∀ inode : Fields, inode.type = (state.node inum).type →
      inode.nlink = (state.node inum).nlink → post inode (state.holds held)) :
    Meets (execute devsw (fields inum)) (state.holds held) fails post := by
  have content := state.holds_content held inum
  exact fields_meets (locked_holds member inRange) (met _ content.1 content.2.1)

theorem update_held (major minor nlink : Int16) (met : post () ((state.edit inum fun node =>
      { node with major := major, minor := minor, nlink := nlink }).holds held)) :
    Meets (execute devsw (update inum major minor nlink)) (state.holds held) fails post := by
  refine update_meets (locked_holds member inRange) major minor nlink ?_
  rw [edit_holds (fun _ _ _ => rfl) inum held]
  exact met

theorem setNlink_held (change : Int16 → Int16) (met : post () ((state.edit inum fun node =>
      { node with nlink := change node.nlink }).holds held)) :
    Meets (execute devsw (setNlink inum change)) (state.holds held) fails post := by
  refine setNlink_meets (locked_holds member inRange) change ?_
  rw [edit_holds (fun _ _ _ => rfl) inum held]
  exact met

end

theorem iput_held (valid : (state.node inum).valid = decide ((state.node inum).ref ≠ 0))
    (inRange : state.InRange inum) (absent : inum ∉ held)
    (met : post () ((state.reap inum).holds held)) :
    Meets (execute devsw (iput inum)) (state.holds (inum :: held)) fails post := by
  refine iput_meets (by rw [node_holds_of_not_mem absent]; exact valid)
    ⟨inRange.1, by rw [length_holds]; exact inRange.2⟩ true ?_
  rw [if_pos rfl, reap_holds absent]
  exact met

theorem ilock_again (member : inum ∈ held) (inRange : state.InRange inum)
    (met : post () (state.holds held)) :
    Meets (execute devsw (ilock inum)) (state.holds held) fails post :=
  ilock_again_meets (locked_holds member inRange) met

/-! ## Directories -/

/-- What a lookup needs of the targets of entries. -/
structure Targets (state : State) (data : List UInt8) (fails : Failure → Prop) : Prop where
  full : fails (.panic (.fs .igetNoInodes))
  range : ∀ k, entryAt data k ≠ 0 → state.InRange (entryAt data k) ∨ fails .outOfRange

theorem Targets.all (state : State) (data : List UInt8) : Targets state data fun _ => True :=
  ⟨trivial, fun _ _ => Or.inr trivial⟩

section

variable (member : inum ∈ held) (inRange : state.InRange inum) (isDir : state.IsDir inum)
  (shaped : Shaped (state.node inum).data)

include member inRange isDir shaped

theorem listing_held : Listing (served (serve devsw) fails) (state.holds held) inum
    (state.node inum).data
    fun data => (state.edit inum fun node => { node with data := data }).holds held := by
  have content := state.holds_content held inum
  have locked := locked_holds member inRange
  have heldDir := (state.holds_isDir held inum).mpr isDir
  refine ⟨shaped, ?_, fun met => obeys_served.mpr (fields_meets locked ?_),
    fun met => obeys_served.mpr (readi_meets locked heldDir.type_ne _ _ ?_),
    fun written met => obeys_served.mpr (writei_meets locked heldDir.type_ne _ _ ?_)⟩
  · rw [edit_eq_self rfl]
  · rw [show ((state.holds held).node inum).type = T_DIR from heldDir, content.2.2]
    exact met _ _ _
  · rw [content.2.2]
    exact met
  · dsimp only
    rw [content.2.2, written, edit_holds (fun _ _ _ => rfl) inum held]
    exact met

theorem dirlookup_held (settled : (state.holds held).Settled)
    (targets : Targets state (state.node inum).data fails) (name : List UInt8)
    {post : Option (Nat × Nat) → State → Prop}
    (found : ∀ k, Matches (state.node inum).data name k →
      state.InRange (entryAt (state.node inum).data k) →
      post (some (entryAt (state.node inum).data k, DIRENTSIZE * k))
        ((state.holds held).hold (entryAt (state.node inum).data k) false))
    (missing : (∀ k, ¬Matches (state.node inum).data name k) → post none (state.holds held)) :
    Meets (execute devsw (dirlookup inum name)) (state.holds held) fails post := by
  refine obeys_served.mp ((listing_held member inRange isDir shaped).dirlookup name
    (fun k matched => obeys_served.mpr (iget_meets (settled _).valid targets.full ?_ ?_)) missing)
  · rw [State.InRange, length_holds]
    exact targets.range k matched.1
  · rw [State.InRange, length_holds]
    exact found k matched

theorem dirlink_held (settled : (state.holds held).Settled) (name : List UInt8) (target : Nat)
    {post : Int → State → Prop}
    (present : ∀ k, Matches (state.node inum).data name k → post (-1) (state.holds held))
    (absent : (∀ k, ¬Matches (state.node inum).data name k) →
      ∀ k, FirstFree (state.node inum).data k → DIRENTSIZE * k + DIRENTSIZE ≤ MAXFILE * BSIZE →
      post 0 ((state.edit inum fun node => { node with
        data := putEntry node.data k ⟨target, strncpy name DIRSIZ⟩ }).holds held)) :
    Meets (execute devsw (dirlink inum name target)) (state.holds held) (fun _ => True)
      post := by
  refine obeys_served.mp ((listing_held member inRange isDir shaped).dirlink name target
    (fun k matched => obeys_served.mpr (iget_meets (settled _).valid trivial (Or.inr trivial)
      fun range => obeys_served.mpr (iput_meets (settled _).valid range false (present k matched))))
    absent fun _ _ _ => obeys_served.mpr (panic_meets _ trivial _))

theorem clearEntry_held {k : Nat} (inside : k < slots (state.node inum).data)
    {post : Int → State → Prop}
    (met : post (DIRENTSIZE : Nat) ((state.edit inum fun node => { node with
      data := putEntry node.data k ⟨0, List.replicate DIRSIZ 0⟩ }).holds held)) :
    Meets (execute devsw (writei inum (List.replicate DIRENTSIZE 0)
      (UInt32.ofNat (DIRENTSIZE * k)))) (state.holds held) fails post :=
  obeys_served.mp ((listing_held member inRange isDir shaped).clearEntry inside met)

theorem isdirempty_held {post : Bool → State → Prop}
    (met : ∀ empty, (empty = true ↔ ∀ k, 2 ≤ k → entryAt (state.node inum).data k = 0) →
      post empty (state.holds held)) :
    Meets (execute devsw (isdirempty inum)) (state.holds held) fails post :=
  obeys_served.mp ((listing_held member inRange isDir shaped).isdirempty met)

end

end

/-! ## Paths -/

theorem skipelem_length {path name rest : List UInt8} (next : skipelem path = some (name, rest)) :
    rest.length < path.length := by
  rw [skipelem] at next
  cases start : path.dropWhile (· = slash) with
  | nil =>
    rw [start] at next
    cases next
  | cons first tail =>
    have notSlash := List.head?_dropWhile_not (fun byte => decide (byte = slash)) path
    rw [start] at next notSlash
    simp only [List.head?_cons, decide_eq_false_iff_not] at notSlash
    simp only [Option.some.injEq, Prod.mk.injEq] at next
    have shorter := (List.dropWhile_suffix (l := path) fun byte => decide (byte = slash)).length_le
    have later := (List.dropWhile_suffix (l := tail) fun byte => decide (byte ≠ slash)).length_le
    have last := (List.dropWhile_suffix (l := tail.dropWhile fun byte => decide (byte ≠ slash))
      fun byte => decide (byte = slash)).length_le
    rw [start, List.length_cons] at shorter
    rw [← next.2, List.dropWhile_cons_of_pos (by simpa using notSlash)]
    omega

/-- What a walk along a path may run into: the cache is full, or an entry names
no allocated inode. -/
structure Tolerates (state : State) (fails : Failure → Prop) : Prop where
  full : fails (.panic (.fs .igetNoInodes))
  target : ∀ dp k, state.IsDir dp → entryAt (state.node dp).data k ≠ 0 →
    (state.node (entryAt (state.node dp).data k)).type ≠ 0 ∨
      fails .outOfRange ∧ fails (.panic (.fs .ilockNoType))

section

variable {devsw : Nat → Device} {state : State} {fails : Failure → Prop}

/-- Going from a directory to the inode found in it: the reference to the one is
given up, that to the other is kept. -/
theorem iput_found_meets (settled : state.Settled) {ip next : Nat} (inRange : state.InRange ip)
    (typed : (state.node ip).type ≠ 0) (met : post () (state.hold next (decide (next = ip)))) :
    Meets (execute devsw (iput ip)) ((state.holds [ip]).hold next false) fails post := by
  by_cases same : next = ip
  · subst same
    refine iput_meets ((settled.hold typed) next).valid
      (by rw [State.InRange, length_hold]; exact inRange) false ?_
    simpa using met
  · have node : (state.hold next false).node ip = state.node ip :=
      node_edit_of_ne (Ne.symm same) _
    rw [holds, hold_comm (Ne.symm same)]
    refine iput_meets (by rw [holds, node]; exact (settled ip).valid)
      (by rw [State.InRange, length_hold]; exact inRange) true ?_
    rw [if_pos rfl, holds,
      reap_eq_self (by rw [node]; exact settled ip) (by rw [node]; exact typed)]
    simpa [same] using met

/-- The outcome of a walk: a reference to the inode that the path leads to. The
last directory has been locked on the way if it is what the caller wants. -/
def Walked (state : State) (fails : Failure → Prop) (nameiparent : Bool)
    (result : Option (Nat × List UInt8)) (next : State) : Prop :=
  match result with
  | none => next = state
  | some (ip, _) => ∃ locked, next = state.hold ip locked ∧ state.InRange ip ∧
      (locked = true → (state.node ip).type ≠ 0) ∧
      ((state.node ip).type ≠ 0 ∨ fails (.panic (.fs .ilockNoType))) ∧
      (nameiparent = true → locked = true ∧ state.IsDir ip)

theorem namexLoop_meets (settled : state.Settled) (zero : (state.node 0).type = 0)
    (shaped : ∀ dp, state.IsDir dp → Shaped (state.node dp).data)
    (tolerates : Tolerates state fails) (nameiparent : Bool) :
    ∀ passes path name ip locked, path.length < passes → state.InRange ip →
    (locked = true → (state.node ip).type ≠ 0) →
    ((state.node ip).type ≠ 0 ∨ fails (.panic (.fs .ilockNoType))) →
    Meets (execute devsw (namexLoop nameiparent passes path name ip))
      (state.hold ip locked) fails (Walked state fails nameiparent) := by
  intro passes
  induction passes with
  | zero =>
    intro path name ip locked enough
    exact absurd enough (Nat.not_lt_zero _)
  | succ passes induction =>
    intro path name ip locked enough inRange before free
    rw [namexLoop]
    cases element : skipelem path with
    | none =>
      simp only
      rw [meets_interpret_ite]
      refine ⟨fun _ => ?_, fun notParent => ⟨locked, rfl, inRange, before, free,
        fun isParent => absurd isParent notParent⟩⟩
      rw [meets_interpret_bind]
      refine iput_meets (settled ip).valid inRange locked ?_
      change _ = state
      split
      · rename_i wasLocked
        exact reap_eq_self (settled ip) (before wasLocked)
      · rfl
    | some found =>
      rcases found with ⟨name, path⟩
      simp only [meets_interpret_bind]
      refine ilock_meets (settled ip).valid (settled ip).typed inRange before free
        fun typed => ?_
      change Meets _ (state.holds [ip]) _ _
      have giveUp : Meets (execute devsw (do iput ip; return none)) (state.holds [ip])
          fails (Walked state fails nameiparent) := by
        rw [meets_interpret_bind]
        exact iput_meets (settled ip).valid inRange true
          (reap_eq_self (settled ip) typed)
      refine fields_held List.mem_cons_self inRange fun inode type _ => ?_
      rw [meets_interpret_ite, type]
      refine ⟨fun _ => giveUp, fun notFile => ?_⟩
      have isDir : state.IsDir ip := not_not.mp notFile
      have targets : Targets state (state.node ip).data fails :=
        ⟨tolerates.full, fun k used => (tolerates.target ip k isDir used).imp
          (fun typed => State.InRange.of_typed zero typed) And.left⟩
      rw [meets_interpret_ite]
      refine ⟨fun _ => ⟨true, rfl, inRange, fun _ => typed, Or.inl typed,
        fun _ => ⟨rfl, isDir⟩⟩, fun _ => ?_⟩
      rw [meets_interpret_bind]
      refine dirlookup_held (show ip ∈ [ip] from List.mem_cons_self) inRange isDir
        (shaped ip isDir) (settled.hold typed) targets name (fun j matched foundRange => ?_)
        fun _ => giveUp
      simp only [meets_interpret_bind]
      have shorter := skipelem_length element
      refine iput_found_meets settled inRange typed (induction path name _ _ (by omega)
        foundRange ?_ ((tolerates.target ip j isDir matched.1).imp id And.right))
      intro same
      rw [of_decide_eq_true same]
      exact typed

theorem namex_meets (settled : state.Settled) (zero : (state.node 0).type = 0)
    (shaped : ∀ dp, state.IsDir dp → Shaped (state.node dp).data)
    (tolerates : Tolerates state fails) {cwd : Nat} (cwdTyped : (state.node cwd).type ≠ 0)
    (rootTyped : (state.node ROOTINO).type ≠ 0) (path : List UInt8) (nameiparent : Bool) :
    Meets (execute devsw (namex cwd path nameiparent)) state fails
      (Walked state fails nameiparent) := by
  have walk := fun ip (typed : (state.node ip).type ≠ 0) =>
    @namexLoop_meets devsw state fails settled zero shaped tolerates nameiparent (path.length + 1)
      path [] ip false (Nat.lt_succ_self _) (State.InRange.of_typed zero typed)
      (fun impossible => absurd impossible (by decide)) (Or.inl typed)
  rw [namex, meets_interpret_ite, meets_interpret_bind, meets_interpret_bind]
  exact ⟨fun _ => iget_meets (settled _).valid tolerates.full
      (Or.inl (State.InRange.of_typed zero rootTyped)) fun _ => walk ROOTINO rootTyped,
    fun _ => idup_meets (State.InRange.of_typed zero cwdTyped) (walk _ cwdTyped)⟩

end

theorem skipelem_rest {path name rest : List UInt8} (next : skipelem path = some (name, rest)) :
    skipelem rest = none ↔ rest = [] := by
  rw [skipelem] at next ⊢
  split at next
  · cases next
  · cases next
    rw [List.dropWhile_idempotent]
    split
    · exact iff_of_true rfl ‹_›
    · exact iff_of_false nofun ‹_›

/-- The last element of a path, looked up in the directory that `nameiparent` finds. -/
def lookupLast : Option (Nat × List UInt8) → Prog (Option Nat)
  | none => return none
  | some (dp, name) => do
      let found ← dirlookup dp name
      iput dp
      return found.map Prod.fst

theorem namexLoop_lookupLast {passes : Nat} {path : List UInt8} (enough : path.length < passes)
    (name : List UInt8) (ip : Nat) :
    (do return (← namexLoop false passes path name ip).map Prod.fst) =
      if skipelem path = none then pure (some ip)
      else namexLoop true passes path name ip >>= lookupLast := by
  induction passes generalizing path name ip with
  | zero => cases enough
  | succ passes induction =>
    rw [namexLoop, namexLoop]
    cases element : skipelem path with
    | none => rfl
    | some found =>
      rcases found with ⟨name, rest⟩
      have shorter := skipelem_length element
      have goes := @induction rest (by omega) name
      simp only [skipelem_rest element] at goes
      simp only [bind_assoc, reduceCtorEq, reduceIte, false_and, true_and]
      congr! 4
      split
      · simp only [bind_assoc, pure_bind]
        rfl
      · by_cases last : rest = []
        all_goals
          simp only [last, reduceIte] at goes
          simp only [last, reduceIte, bind_assoc, pure_bind, lookupLast]
          congr! 2 with found
          cases found with
          | none => rfl
          | some next => simp only [bind_assoc, goes, Option.map_some]

/-- Looking a path up is looking its last element up in the directory that `nameiparent`
finds, unless the path has no element. -/
theorem namei_eq_lookupLast (cwd : Nat) (path : List UInt8) :
    namei cwd path =
      if skipelem path = none then
        some <$> if path.head? = some slash then iget ROOTINO else idup cwd
      else nameiparent cwd path >>= lookupLast := by
  rw [namei, nameiparent, namex, namex]
  split
  all_goals
    simp only [bind_assoc, namexLoop_lookupLast (Nat.lt_succ_self _)]
    split
    · rfl
    · rfl

end Xv6.Dir
