import Xv6.Sys.Holding

/-! # Calls on names

Every way through a call that works on path names gives back the references that
the call has taken, and closes the transaction that it has opened.
-/

namespace Xv6.Sys

open Interaction
open Dir (Tables Proc DIRENTSIZE DIRSIZ)
open Fs (T_DIR ROOTINO)

/-- What a whole call does. Inodes that are referenced by open files and current
directories, before and after it, keep their type, and their data if they are not
directories; `changed` are the inodes that the call is meant to write. When the
last reference to an inode is dropped nothing has been written, and the inode is
freed if it has no links. -/
structure Ends (reliable : Prop) (ninodes : Nat) (changed : Nat → Prop) (view after : View) :
    Prop where
  holding : Holding reliable ninodes after []
  trans : after.trans = false
  kept : reliable → ∀ inum, 0 < view.tables.refs inum → 0 < after.tables.refs inum →
    (after.node inum).type = (view.node inum).type ∧
      ((view.node inum).type ≠ T_DIR → ¬changed inum →
        (after.node inum).data = (view.node inum).data)
  dropped : reliable → ∀ inum, 0 < view.tables.refs inum → after.tables.refs inum = 0 →
    after.wrote = view.wrote ∧ ((view.node inum).nlink = 0 → (after.node inum).type = 0)

/-- No inode has more references than before. -/
def Fewer (tables after : Tables) : Prop := ∀ inum, after.refs inum ≤ tables.refs inum

theorem Fewer.of_eq {tables after : Tables} (same : after = tables) : Fewer tables after :=
  fun inum => by rw [same]

/-- What a call does that is not meant to write an inode. If it fails it has taken no
references. -/
structure Completes (reliable : Prop) (ninodes : Nat) (view : View) (result : Int) (after : View) :
    Prop where
  ends : Ends reliable ninodes (fun _ => False) view after
  fewer : result < 0 → Fewer view.tables after.tables

section

variable {reliable quiet : Prop} {ninodes : Nat} {view mid after : View}
  {p ip dp : Nat} {proc : Proc}

/-! ## The end of a transaction -/

/-- The view after `begin_op`. -/
abbrev View.opened (view : View) : View := { view with trans := true }

theorem Ends.refl (start : Holding reliable ninodes view []) (closed : view.trans = false) :
    Ends reliable ninodes (fun _ => False) view view where
  holding := start
  trans := closed
  kept := fun _ _ _ _ => ⟨rfl, fun _ _ => rfl⟩
  dropped := fun _ _ used unused => absurd unused (Nat.pos_iff_ne_zero.mp used)

theorem Completes.refl (start : Holding reliable ninodes view []) (closed : view.trans = false)
    (result : Int) : Completes reliable ninodes view result view :=
  ⟨.refl start closed, fun _ => .of_eq rfl⟩

variable (start : Holding reliable ninodes view [])

include start

theorem Holding.opened : Holding reliable ninodes view.opened [] := start.congr rfl rfl rfl

theorem Holding.beginOp : During reliable ninodes True view.opened [] [] view.opened :=
  .begin_ start.opened rfl

theorem Ends.of_keeps (held : Holding reliable ninodes mid [])
    (keeps : Keeps reliable [] view.opened mid) :
    Ends reliable ninodes (fun _ => False) view { mid with trans := false } where
  holding := held.congr rfl rfl rfl
  trans := rfl
  kept := by
    intro sure inum used _
    have typed := start.typed sure inum used
    exact ⟨keeps.type sure inum used typed, fun notDir _ => keeps.data sure inum used typed notDir⟩
  dropped := by
    intro _ inum used unused
    have same : mid.tables = view.tables := keeps.tables
    rw [show ({ mid with trans := false } : View).tables = view.tables from same] at unused
    omega

theorem endOp_obeys (during : During reliable ninodes quiet view.opened [] [] mid) (value : Int) :
    Obeys (use reliable ninodes) (do endOp; return value) mid (Completes reliable ninodes view) :=
  ⟨during.isOpen, .of_keeps start during.holding during.keeps, fun _ => .of_eq during.keeps.tables⟩

theorem iput_endOp_obeys (during : During reliable ninodes quiet view.opened [] [ip] mid)
    (value : Int) :
    Obeys (use reliable ninodes) (do Dir.iput ip; endOp; return value) mid
      (Completes reliable ninodes view) := by
  rw [obeys_bind, obeys_lift]
  exact during.iput fun _ dropped _ => endOp_obeys start dropped value

/-! ## Creating directories and devices -/

variable (closed : view.trans = false) (root : reliable → ROOTINO < ninodes)
  (found : view.tables.proc p = some proc)

include root found

theorem create_iput_obeys (path : List UInt8) {type : Int16} (typed : type ≠ 0)
    (major minor : Int16) :
    Obeys (use reliable ninodes) (do
      match ← Dir.create p path type major minor with
      | none =>
        endOp
        return (-1 : Int)
      | some ip =>
        Dir.iput ip
        endOp
        return 0) view.opened (Completes reliable ninodes view) := by
  rw [obeys_bind, obeys_lift]
  exact start.beginOp.create root found path typed major minor
    (fun _ missed => endOp_obeys start missed _) fun _ _ made _ _ => iput_endOp_obeys start made _

theorem namei_ilock_obeys (path : List UInt8) {next : Nat → Prog Int}
    (met : ∀ ip mid, During reliable ninodes True view.opened [] [ip] mid → Locked reliable mid ip →
      Obeys (use reliable ninodes) (next ip) mid (Completes reliable ninodes view)) :
    Obeys (use reliable ninodes) (do
      match ← Dir.namei (← Dir.cwd p) path with
      | none =>
        endOp
        return (-1 : Int)
      | some ip =>
        Dir.ilock ip
        next ip) view.opened (Completes reliable ninodes view) := by
  simp only [obeys_bind, obeys_lift]
  refine start.beginOp.cwd found fun cwd used => ?_
  refine start.beginOp.namei root used path (fun _ missed => endOp_obeys start missed _)
    fun ip named namedDuring => ?_
  simp only [obeys_bind, obeys_lift]
  exact namedDuring.ilock List.mem_cons_self fun mid during _ locked => met ip mid during locked

include closed

theorem sysMkdir_obeys (path : Option (List UInt8)) :
    Obeys (use reliable ninodes) (sysMkdir p path) view (Completes reliable ninodes view) := by
  cases path with
  | none => exact ⟨closed, endOp_obeys start start.beginOp _⟩
  | some path => exact ⟨closed, create_iput_obeys start root found path (by decide) 0 0⟩

theorem sysMknod_obeys (args : Option (List UInt8 × Int16 × Int16)) :
    Obeys (use reliable ninodes) (sysMknod p args) view (Completes reliable ninodes view) := by
  cases args with
  | none => exact ⟨closed, endOp_obeys start start.beginOp _⟩
  | some args =>
    exact ⟨closed, create_iput_obeys start root found args.1 (by decide) args.2.1 args.2.2⟩

/-! ## `link` -/

omit closed root found in
/-- The way out of `link` that takes back the link. -/
theorem link_bad_obeys (during : During reliable ninodes quiet view.opened [] [ip] mid) :
    Obeys (use reliable ninodes) (do
      Dir.ilock ip
      Dir.setNlink ip (· - 1)
      Dir.iput ip
      endOp
      return (-1 : Int)) mid (Completes reliable ninodes view) := by
  rw [obeys_bind, obeys_lift]
  refine during.ilock List.mem_cons_self fun locked lockedDuring _ ipLocked => ?_
  rw [obeys_bind, obeys_lift]
  exact lockedDuring.setNlink List.mem_cons_self ipLocked _ fun _ counted _ =>
    iput_endOp_obeys start counted _

theorem sysLink_obeys (paths : Option (List UInt8 × List UInt8)) :
    Obeys (use reliable ninodes) (sysLink p paths) view (Completes reliable ninodes view) := by
  cases paths with
  | none => exact .refl start closed _
  | some paths =>
    rcases paths with ⟨old, new⟩
    rw [sysLink, obeys_bind, obeys_beginOp]
    refine ⟨closed, namei_ilock_obeys start root found old fun ip locked during ipLocked => ?_⟩
    rw [obeys_bind, obeys_lift]
    refine fields_obeys ipLocked fun inode _ => ?_
    rw [obeys_ite]
    refine ⟨fun _ => iput_endOp_obeys start during _, fun _ => ?_⟩
    simp only [obeys_bind, obeys_lift]
    refine during.setNlink List.mem_cons_self ipLocked _ fun counted countedDuring _ => ?_
    refine countedDuring.cwd found fun cwd used => ?_
    refine countedDuring.nameiparent root used new (fun _ missed => link_bad_obeys start missed)
      fun dp name parent parentDuring => ?_
    have dpMember : dp ∈ [dp, ip] := List.mem_cons_self
    simp only [obeys_bind, obeys_lift]
    refine parentDuring.ilock dpMember fun both bothDuring _ dpLocked => ?_
    refine bothDuring.dirlink dpLocked dpMember name
      (bothDuring.inRange (List.mem_cons_of_mem dp List.mem_cons_self))
      fun _ linked linkedDuring _ => ?_
    rw [obeys_ite, obeys_bind, obeys_bind, obeys_lift, obeys_lift]
    exact ⟨fun _ => linkedDuring.iput fun _ dropped _ => link_bad_obeys start dropped,
      fun _ => linkedDuring.iput fun _ dropped _ => iput_endOp_obeys start dropped _⟩

/-! ## `unlink` -/

omit closed root found in
/-- The end of `unlink`. -/
theorem removeEntry_obeys (during : During reliable ninodes quiet view.opened [] [ip, dp] mid)
    (ipLocked : Locked reliable mid ip) (dpLocked : Locked reliable mid dp)
    (isDir : reliable → (mid.node dp).type = T_DIR) (k : Nat) (type : Int16) :
    Obeys (use reliable ninodes) (removeEntry dp ip (DIRENTSIZE * k) type) mid
      (Completes reliable ninodes view) := by
  have ipMember : ip ∈ [ip, dp] := List.mem_cons_self
  have dpMember : dp ∈ [ip, dp] := List.mem_cons_of_mem ip List.mem_cons_self
  have blank : List.replicate DIRENTSIZE (0 : UInt8) =
      Dir.Dirent.store ⟨0, List.replicate DIRSIZ 0⟩ := by decide
  have positive : reliable → 0 < ninodes := fun sure =>
    Nat.lt_of_le_of_lt (Nat.zero_le _) (during.inRange dpMember sure)
  rw [removeEntry, obeys_bind, obeys_lift, blank]
  refine during.writeEntry dpLocked dpMember isDir k List.length_replicate positive
    fun count cleared clearedDuring first => ?_
  rw [obeys_ite]
  refine ⟨fun _ => (obeys_lift _ _).mpr (obeys_panic _ _), fun _ => ?_⟩
  -- the rest, whether or not a link of the directory has been taken off
  have finish : ∀ counted, During reliable ninodes False view.opened [] [ip, dp] counted →
      Keeps reliable [ip, dp] cleared counted →
      Obeys (use reliable ninodes) (do
        Dir.iput dp
        Dir.setNlink ip (· - 1)
        Dir.iput ip
        endOp
        return (0 : Int)) counted (Completes reliable ninodes view) := by
    intro counted countedDuring second
    have ipNow := ipLocked.keep (first.trans' second) (held_of_mem _ ipMember)
    rw [obeys_bind, obeys_lift]
    refine countedDuring.swap.iput fun put putDuring third => ?_
    rw [obeys_bind, obeys_lift]
    exact putDuring.setNlink List.mem_cons_self
      (ipNow.keep third.toKeeps (held_of_mem _ List.mem_cons_self)) _ fun _ last _ =>
        iput_endOp_obeys start last _
  rw [obeys_ite]
  refine ⟨fun _ => ?_, fun _ => finish cleared clearedDuring (.refl _ _)⟩
  rw [obeys_bind, obeys_lift]
  exact clearedDuring.setNlink dpMember (dpLocked.keep first (held_of_mem _ dpMember)) _ finish

theorem sysUnlink_obeys (path : Option (List UInt8)) :
    Obeys (use reliable ninodes) (sysUnlink p path) view (Completes reliable ninodes view) := by
  cases path with
  | none => exact .refl start closed _
  | some path =>
    rw [sysUnlink, obeys_bind, obeys_beginOp]
    refine ⟨closed, ?_⟩
    simp only [obeys_bind, obeys_lift]
    refine start.beginOp.cwd found fun cwd used => ?_
    refine start.beginOp.nameiparent root used path (fun _ missed => endOp_obeys start missed _)
      fun dp name named namedDuring => ?_
    simp only [obeys_bind, obeys_lift]
    refine namedDuring.ilock List.mem_cons_self fun locked lockedDuring _ dpLocked => ?_
    rw [obeys_ite]
    refine ⟨fun _ => iput_endOp_obeys start lockedDuring _, fun _ => ?_⟩
    rw [obeys_bind, obeys_lift]
    refine lockedDuring.dirlookup dpLocked name (fun _ => iput_endOp_obeys start lockedDuring _)
      fun ip k looked lookedDuring third isDir => ?_
    simp only [obeys_bind, obeys_lift]
    refine lookedDuring.ilock List.mem_cons_self fun both bothDuring fourth ipLocked => ?_
    have dpHeld : 0 < locked.tables.refs dp + [dp].count dp :=
      held_of_mem locked List.mem_cons_self
    have dpKeeps := third.toKeeps.trans' (@Keeps.append_right _ _ _ _ [ip] fourth.toKeeps)
    have dpNow := dpLocked.keep dpKeeps dpHeld
    have isDirNow : reliable → (both.node dp).type = T_DIR := by
      intro sure
      rw [dpKeeps.type sure dp dpHeld (dpLocked.typed sure)]
      exact isDir sure
    refine fields_obeys ipLocked fun inode known => ?_
    rw [obeys_ite]
    refine ⟨fun _ => (obeys_lift _ _).mpr (obeys_panic _ _), fun _ => ?_⟩
    -- whether the directory is empty or not, nothing has changed
    have finish : ∀ full : Bool, Obeys (use reliable ninodes) (if full then (do
          Dir.iput ip
          Dir.iput dp
          endOp
          return -1)
        else removeEntry dp ip (DIRENTSIZE * k) inode.type) both
          (Completes reliable ninodes view) := by
      intro full
      rw [obeys_ite]
      refine ⟨fun _ => ?_, fun _ =>
        removeEntry_obeys start bothDuring ipLocked dpNow isDirNow k inode.type⟩
      rw [obeys_bind, obeys_lift]
      exact bothDuring.iput fun _ dropped _ => iput_endOp_obeys start dropped _
    rw [obeys_ite]
    refine ⟨fun isDirectory => ?_, fun _ => finish false⟩
    rw [obeys_bind, obeys_map, obeys_lift]
    refine bothDuring.isdirempty ipLocked (fun sure => ?_) fun empty => finish (!empty)
    rw [known sure] at isDirectory
    exact isDirectory

/-! ## `exec` -/

omit start closed root found in
theorem loaduvm_obeys (locked : Locked reliable mid ip) (offset sz : UInt32) :
    ∀ (passes : Nat) (i : UInt32),
    Obeys (inodeUse reliable ninodes) (loaduvm ip offset sz passes i) mid fun _ after =>
      after = mid := by
  intro passes
  induction passes with
  | zero => exact fun _ => rfl
  | succ passes induction =>
    intro i
    rw [loaduvm, obeys_ite]
    refine ⟨fun _ => ?_, fun _ => rfl⟩
    rw [obeys_bind]
    refine readi_obeys locked _ _ fun answer _ => ?_
    rw [obeys_ite]
    exact ⟨fun _ => rfl, fun _ => induction _⟩

omit start closed root found in
theorem loadSegments_obeys (locked : Locked reliable mid ip) (memory : Memory) :
    ∀ (left i : Nat) (off sz : UInt32),
    Obeys (inodeUse reliable ninodes) (loadSegments ip memory left i off sz) mid fun _ after =>
      after = mid := by
  intro left
  induction left with
  | zero => exact fun _ _ _ => rfl
  | succ left induction =>
    intro i off sz
    rw [loadSegments, obeys_bind]
    refine readi_obeys locked _ _ fun answer _ => ?_
    simp only [obeys_ite]
    refine ⟨fun _ => rfl, fun _ => ⟨fun _ => induction _ _ _, fun _ => ⟨fun _ => rfl, fun _ =>
      ⟨fun _ => rfl, fun _ => ⟨fun _ => rfl, fun _ => ⟨fun _ => rfl, fun _ => ?_⟩⟩⟩⟩⟩⟩
    rw [obeys_bind]
    refine Obeys.imp (loaduvm_obeys locked _ _ _ _) ?_
    rintro loaded _ rfl
    rw [obeys_ite]
    exact ⟨fun _ => induction _ _ _, fun _ => rfl⟩

theorem exec_obeys (path : List UInt8) (memory : Memory) :
    Obeys (use reliable ninodes) (exec p path memory) view (Completes reliable ninodes view) := by
  rw [exec, obeys_bind, obeys_beginOp]
  refine ⟨closed, namei_ilock_obeys start root found path fun ip locked during ipLocked => ?_⟩
  rw [obeys_bind, obeys_lift]
  refine readi_obeys ipLocked _ _ fun answer _ => ?_
  -- every way out gives up the inode and closes the transaction
  have leave : ∀ value : Int, Obeys (use reliable ninodes)
      (do Dir.iput ip; endOp; return value) locked (Completes reliable ninodes view) :=
    iput_endOp_obeys start during
  simp only [obeys_ite]
  refine ⟨fun _ => leave _, fun _ => ⟨fun _ => leave _, fun _ => ⟨fun _ => leave _,
    fun _ => ?_⟩⟩⟩
  rw [obeys_bind, obeys_lift]
  refine Obeys.imp (loadSegments_obeys ipLocked memory _ _ _ _) ?_
  rintro loaded _ rfl
  rw [obeys_ite]
  exact ⟨fun _ => leave _, fun _ => leave _⟩

theorem sysExec_obeys (path : Option (List UInt8)) (memory : Memory) :
    Obeys (use reliable ninodes) (sysExec p path memory) view (Completes reliable ninodes view) := by
  cases path with
  | none => exact .refl start closed _
  | some path => exact exec_obeys start closed root found path memory

end

end Xv6.Sys
