import Xv6.Sys.Calls

/-! # Calls on descriptors

The calls that open, use and close files, and those that start and end processes.
Together with the calls on names they are all the calls there are.
-/

namespace Xv6.Sys

open Interaction Function
open Dir (Tables File Proc Node cwds)
open Fs (T_DIR ROOTINO)

section

variable {reliable quiet : Prop} {ninodes : Nat} {view mid after : View} {pending left : List Nat}
  {p f ip : Nat} {proc : Proc}

/-! ## The tables -/

@[simp] theorem obeys_tables (post : Tables → View → Prop) :
    Obeys (inodeUse reliable ninodes) Dir.tables view post ↔ post view.tables view :=
  Iff.rfl

@[simp] theorem obeys_setFile (f : Nat) (file : File) (post : Unit → View → Prop) :
    Obeys (inodeUse reliable ninodes) (Dir.setFile f file) view post ↔
      post () { view with tables := view.tables.setFile f file } :=
  Iff.rfl

@[simp] theorem obeys_setProc (p : Nat) (proc : Option Proc) (post : Unit → View → Prop) :
    Obeys (inodeUse reliable ninodes) (Dir.setProc p proc) view post ↔
      post () { view with tables := view.tables.setProc p proc } :=
  Iff.rfl

section

variable (holding : Holding reliable ninodes view pending)
include holding

/-- The tables take over references of the call, or leave their own to it. An inode
that they refer to for the first time has been locked. -/
theorem Holding.setTables {tables : Tables}
    (change : view.tables.Change (fun ip => reliable → (view.node ip).type ≠ T_DIR) tables
      pending left)
    (fresh : ∀ inum, 0 < tables.refs inum →
      0 < view.tables.refs inum ∨ Locked reliable view inum) :
    Holding reliable ninodes { view with tables := tables } left where
  refs := fun inum => (holding.refs inum).trans (change.refs inum).symm
  idle := change.idle
  inRange := holding.inRange
  typed := by
    intro sure inum used
    rcases fresh inum used with before | locked
    · exact holding.typed sure inum before
    · exact locked.typed sure
  linked := by
    intro sure inum used
    rcases fresh inum used with before | locked
    · exact holding.linked sure inum before
    · exact Or.inl locked.valid
  writable := by
    intro sure file member isInode writable
    rcases change.writable file member isInode writable with given | ⟨before, was, kind, wrote, same⟩
    · exact given sure
    · rw [← same]
      exact holding.writable sure before was kind wrote
  ranged := holding.ranged
  live := holding.live

theorem Holding.leaveTables {tables : Tables}
    (change : view.tables.Change (fun ip => reliable → (view.node ip).type ≠ T_DIR) tables
      pending left)
    (more : ∀ inum, pending.count inum ≤ left.count inum) :
    Holding reliable ninodes { view with tables := tables } left :=
  holding.setTables change fun inum used => by
    have count := change.refs inum
    have counted := more inum
    exact Or.inl (by omega)

/-- The inodes that the call refers to are referenced anyway, or have been locked. -/
theorem Holding.giveTables {tables : Tables}
    (change : view.tables.Change (fun ip => reliable → (view.node ip).type ≠ T_DIR) tables
      pending left)
    (known : ∀ inum ∈ pending, 0 < view.tables.refs inum ∨ Locked reliable view inum) :
    Holding reliable ninodes { view with tables := tables } left :=
  holding.setTables change fun inum used => by
    by_cases member : inum ∈ pending
    · exact known inum member
    · have count := change.refs inum
      rw [List.count_eq_zero_of_not_mem member] at count
      exact Or.inl (by omega)

theorem Holding.used_of_file (inside : f < view.tables.ftable.length)
    (kind : (view.tables.file f).kind = .inode) :
    0 < (view.node (view.tables.file f).ip).ref := by
  have counted := Tables.file_refs_pos inside kind
  rw [holding.refs]
  omega

end

/-! ## Calls that give nothing up -/

/-- The inodes that are referenced stay referenced. They keep their type, and unless
they are `changed` also their data. -/
structure Preserves (reliable : Prop) (changed : Nat → Prop) (view after : View) : Prop where
  refs : ∀ inum, 0 < view.tables.refs inum → 0 < after.tables.refs inum
  type : reliable → ∀ inum, 0 < view.tables.refs inum →
    (after.node inum).type = (view.node inum).type
  data : reliable → ∀ inum, 0 < view.tables.refs inum → (view.node inum).type ≠ T_DIR →
    ¬changed inum → (after.node inum).data = (view.node inum).data

namespace Preserves

variable {changed : Nat → Prop} {final : View}

theorem refl (view : View) : Preserves reliable changed view view where
  refs := fun _ used => used
  type := fun _ _ _ => rfl
  data := fun _ _ _ _ _ => rfl

theorem trans (first : Preserves reliable changed view after)
    (second : Preserves reliable changed after final) : Preserves reliable changed view final where
  refs := fun inum used => second.refs inum (first.refs inum used)
  type := fun sure inum used =>
    (second.type sure inum (first.refs inum used)).trans (first.type sure inum used)
  data := by
    intro sure inum used notDir unchanged
    have stays : (after.node inum).type ≠ T_DIR := by
      rw [first.type sure inum used]
      exact notDir
    exact (second.data sure inum (first.refs inum used) stays unchanged).trans
      (first.data sure inum used notDir unchanged)

theorem of_eq (node : after.node = view.node)
    (refs : ∀ inum, after.tables.refs inum = view.tables.refs inum) :
    Preserves reliable changed view after where
  refs := by
    intro inum used
    rw [refs]
    exact used
  type := fun _ _ _ => by rw [node]
  data := fun _ _ _ _ _ => by rw [node]

theorem of_keeps (start : Holding reliable ninodes view [])
    (keeps : Keeps reliable [] view.opened after) : Preserves reliable changed view after where
  refs := by
    intro inum used
    rw [keeps.tables]
    exact used
  type := fun sure inum used => keeps.type sure inum used (start.typed sure inum used)
  data := fun sure inum used notDir _ =>
    keeps.data sure inum used (start.typed sure inum used) notDir

/-- A change of the tables that accounts for the references of the call, which does
not get more of them. -/
theorem setTables {given : Nat → Prop}
    (change : view.tables.Change given after.tables pending left) (node : after.node = view.node)
    (fewer : ∀ inum, left.count inum ≤ pending.count inum) :
    Preserves reliable changed view after where
  refs := by
    intro inum used
    have count := change.refs inum
    have few := fewer inum
    omega
  type := fun _ _ _ => by rw [node]
  data := fun _ _ _ _ _ => by rw [node]

theorem setNode {node : Node} (nodes : after.node = update view.node ip node)
    (tables : after.tables = view.tables) (type : node.type = (view.node ip).type)
    (data : ¬changed ip → node.data = (view.node ip).data) :
    Preserves reliable changed view after where
  refs := by
    intro inum used
    rw [tables]
    exact used
  type := by
    intro _ inum _
    rw [nodes]
    by_cases same : inum = ip
    · subst same
      rw [update_self, type]
    · rw [update_of_ne same]
  data := by
    intro _ inum _ _ unchanged
    rw [nodes]
    by_cases same : inum = ip
    · subst same
      rw [update_self, data unchanged]
    · rw [update_of_ne same]

end Preserves

theorem Ends.of_preserves {changed : Nat → Prop} (held : Holding reliable ninodes after [])
    (closed : after.trans = false) (preserves : Preserves reliable changed view after) :
    Ends reliable ninodes changed view after where
  holding := held
  trans := closed
  kept := fun sure inum used _ =>
    ⟨preserves.type sure inum used, preserves.data sure inum used⟩
  dropped := fun _ inum used unused =>
    absurd unused (Nat.pos_iff_ne_zero.mp (preserves.refs inum used))

/-- A call that has not failed. -/
theorem Completes.succeeds {result : Int} (ends : Ends reliable ninodes (fun _ => False) view after)
    (succeeded : 0 ≤ result) : Completes reliable ninodes view result after :=
  ⟨ends, fun negative => absurd succeeded (Int.not_le.mpr negative)⟩

/-! ## Giving up references -/

/-- What becomes of the inodes when references are given up. -/
structure Drops (reliable : Prop) (nodes after : Nat → Node) : Prop where
  fewer : ∀ inum, (after inum).ref ≤ (nodes inum).ref
  same : reliable → ∀ inum, (nodes inum).ref = 0 ∨ 0 < (after inum).ref →
    (after inum).type = (nodes inum).type ∧ (after inum).nlink = (nodes inum).nlink ∧
      (after inum).data = (nodes inum).data
  freed : reliable → ∀ inum, 0 < (nodes inum).ref → (after inum).ref = 0 →
    (nodes inum).nlink = 0 → (after inum).type = 0

namespace Drops

variable {nodes middle final : Nat → Node}

theorem refl (nodes : Nat → Node) : Drops reliable nodes nodes where
  fewer := fun _ => Nat.le_refl _
  same := fun _ _ _ => ⟨rfl, rfl, rfl⟩
  freed := fun _ _ used unused => absurd unused (Nat.pos_iff_ne_zero.mp used)

theorem trans (first : Drops reliable nodes middle) (second : Drops reliable middle final) :
    Drops reliable nodes final where
  fewer := fun inum => (second.fewer inum).trans (first.fewer inum)
  same := by
    intro sure inum known
    have early := first.fewer inum
    have late := second.fewer inum
    have ⟨firstType, firstNlink, firstData⟩ := first.same sure inum (by omega)
    have ⟨type, nlink, data⟩ := second.same sure inum (by omega)
    exact ⟨type.trans firstType, nlink.trans firstNlink, data.trans firstData⟩
  freed := by
    intro sure inum used unused unlinked
    rcases Nat.eq_zero_or_pos (middle inum).ref with gone | stays
    · rw [(second.same sure inum (Or.inl gone)).1]
      exact first.freed sure inum used gone unlinked
    · refine second.freed sure inum stays unused ?_
      rw [(first.same sure inum (Or.inr stays)).2.1]
      exact unlinked

/-- Giving up one reference. An inode without links is valid, so that it is freed
with its last reference. -/
theorem put {node : Node} (used : 0 < (nodes ip).ref)
    (linked : reliable → (nodes ip).valid = true ∨ (nodes ip).nlink ≠ 0)
    (released : Released reliable (nodes ip) node) :
    Drops reliable nodes (update nodes ip node) where
  fewer := by
    intro inum
    by_cases same : inum = ip
    · subst same
      rw [update_self, released.ref]
      exact Nat.sub_le ..
    · rw [update_of_ne same]
  same := by
    intro sure inum known
    by_cases same : inum = ip
    · subst same
      rw [update_self] at known ⊢
      have ref := released.ref
      have more : (nodes inum).ref ≠ 1 := by omega
      rw [released.content (Or.inl sure), putNode, if_neg fun last => more last.1]
      exact ⟨rfl, rfl, rfl⟩
    · rw [update_of_ne same]
      exact ⟨rfl, rfl, rfl⟩
  freed := by
    intro sure inum _ unused unlinked
    by_cases same : inum = ip
    · subst same
      rw [update_self] at unused ⊢
      have ref := released.ref
      have one : (nodes inum).ref = 1 := by omega
      have valid := (linked sure).resolve_right (not_not_intro unlinked)
      rw [released.content (Or.inl sure), putNode, if_pos ⟨one, valid, unlinked⟩]
    · rw [update_of_ne same] at unused
      omega

end Drops

/-- After a part that only reads, a call gives up references. -/
theorem Ends.of_drops (start : Holding reliable ninodes view [])
    (reads : Reads reliable [] view.opened mid) (middle : Holding reliable ninodes mid pending)
    (drops : Drops reliable mid.node after.node) (wrote : after.wrote = mid.wrote)
    (held : Holding reliable ninodes after []) (closed : after.trans = false) :
    Ends reliable ninodes (fun _ => False) view after where
  holding := held
  trans := closed
  kept := by
    intro sure inum used stays
    have typed := start.typed sure inum used
    have ref := held.refs inum
    have ⟨type, _, data⟩ := drops.same sure inum (Or.inr (by omega))
    exact ⟨type.trans (reads.type sure inum used typed), fun notDir _ =>
      data.trans (reads.data sure inum used typed notDir)⟩
  dropped := by
    intro sure inum used unused
    refine ⟨wrote.trans reads.wrote, fun unlinked => ?_⟩
    have ref := held.refs inum
    have before := middle.refs inum
    have tables : mid.tables = view.tables := reads.tables
    rw [List.count_nil, unused] at ref
    rw [tables] at before
    refine drops.freed sure inum (by omega) ref ?_
    rw [reads.nlink sure inum used (start.typed sure inum used)]
    exact unlinked

/-! ## Closing files -/

/-- What closing files does, when no transaction is open. -/
structure Closes (reliable : Prop) (ninodes : Nat) (view after : View) : Prop where
  holding : Holding reliable ninodes after []
  trans : after.trans = false
  drops : Drops reliable view.node after.node
  wrote : after.wrote = view.wrote
  procs : after.tables.procs = view.tables.procs

theorem Closes.refl (start : Holding reliable ninodes view []) (closed : view.trans = false) :
    Closes reliable ninodes view view where
  holding := start
  trans := closed
  drops := .refl _
  wrote := rfl
  procs := rfl

theorem Closes.trans' {final : View} (first : Closes reliable ninodes view after)
    (second : Closes reliable ninodes after final) : Closes reliable ninodes view final where
  holding := second.holding
  trans := second.trans
  drops := first.drops.trans second.drops
  wrote := second.wrote.trans first.wrote
  procs := second.procs.trans first.procs

theorem fileclose_obeys (start : Holding reliable ninodes view []) (closed : view.trans = false)
    (f : Nat) :
    Obeys (use reliable ninodes) (fileclose f) view fun _ after =>
      Closes reliable ninodes view after := by
  rw [fileclose, obeys_bind, obeys_lift, obeys_tables, obeys_ite]
  refine ⟨fun _ => (obeys_lift _ _).mpr (obeys_panic _ _), fun opened => ?_⟩
  have inside := Tables.lt_of_file_ref (Nat.le_of_not_lt opened)
  rw [obeys_ite]
  refine ⟨fun shared => ?_, fun _ => ?_⟩
  · rw [obeys_lift, obeys_setFile]
    refine ⟨start.leaveTables (.touchFile start.idle inside rfl rfl rfl fun gone => ?_)
      (fun _ => Nat.le_refl _), closed, .refl _, rfl, rfl⟩
    exact absurd gone (by simp only; omega)
  · rw [obeys_bind, obeys_lift, obeys_setFile]
    cases kind : (view.tables.file f).kind with
    | none =>
      refine ⟨start.leaveTables (.closeFile start.idle inside rfl fun inum => ?_)
        (fun _ => Nat.le_refl _), closed, .refl _, rfl, rfl⟩
      simp [File.refersTo, kind]
    | inode =>
      have used := Tables.file_refs_pos inside kind
      have left : Holding reliable ninodes _ [(view.tables.file f).ip] := start.leaveTables
        (@Tables.Change.closeFile { view.tables.file f with ref := 0, kind := .none } view.tables
          f _ [] _ start.idle inside rfl fun inum => by
            simp [List.count_singleton, File.refersTo, kind])
        fun _ => Nat.zero_le _
      refine ⟨closed, left.mem_used List.mem_cons_self, rfl, fun node released => ⟨rfl, ?_⟩⟩
      exact ⟨(left.put released).1.congr rfl rfl rfl, rfl, .put (start.used_of_file inside kind)
        (fun sure => start.linked sure _ used) released, rfl, rfl⟩

theorem fileclose_unused_obeys {file : File} (current : view.tables.file f = file)
    (single : file.ref = 1) (unused : file.kind = .none) :
    Obeys (use reliable ninodes) (fileclose f) view fun _ after =>
      after = { view with
        tables := view.tables.setFile f { file with ref := 0, kind := .none } } := by
  rw [fileclose, obeys_bind, obeys_lift, obeys_tables, current, if_neg (by omega),
    if_neg (by omega), obeys_bind, obeys_lift, obeys_setFile, unused]
  rfl

theorem sysClose_obeys (start : Holding reliable ninodes view []) (closed : view.trans = false)
    (p fd : Nat) :
    Obeys (use reliable ninodes) (sysClose p fd) view (Completes reliable ninodes view) := by
  rw [sysClose, obeys_bind, obeys_lift, obeys_tables]
  cases found : view.tables.proc p with
  | none => exact .refl start closed _
  | some proc =>
    dsimp only
    cases proc.file fd with
    | none => exact .refl start closed _
    | some f =>
      have cleared := start.leaveTables (.setOfile start.idle found (proc.ofile.set fd none))
        fun _ => Nat.le_refl _
      simp only [obeys_bind, obeys_lift, obeys_setProc]
      refine Obeys.imp (fileclose_obeys cleared closed f) ?_
      intro _ after closes
      exact .succeeds (.of_drops start (.refl _ _) start.opened closes.drops closes.wrote
        closes.holding closes.trans) (Int.le_refl 0)

theorem exit_obeys (start : Holding reliable ninodes view []) (closed : view.trans = false)
    (p : Nat) :
    Obeys (use reliable ninodes) (Sys.exit p) view (Completes reliable ninodes view) := by
  rw [Sys.exit, obeys_bind, obeys_lift, obeys_tables]
  cases found : view.tables.proc p with
  | none => exact .refl start closed _
  | some proc =>
    dsimp only
    rw [obeys_ite]
    refine ⟨fun _ => (obeys_lift _ _).mpr (obeys_panic _ _), fun _ => ?_⟩
    rw [obeys_bind]
    refine Obeys.imp (obeys_forM _ (fun _ mid => Closes reliable ninodes view mid) ?_ proc.ofile
      (.refl start closed)) ?_
    · intro file rest before closes
      cases file with
      | none => exact closes
      | some f => exact (fileclose_obeys closes.holding closes.trans f).imp fun _ _ => closes.trans'
    · intro _ mid closes
      have held := closes.holding
      have stillFound : mid.tables.proc p = some proc := by
        rw [Tables.proc, closes.procs]
        exact found
      have used := Tables.cwd_refs_pos stillFound
      have counted : 0 < (mid.node proc.cwd).ref := by
        rw [held.refs]
        exact used
      have left : Holding reliable ninodes _ [proc.cwd] := held.leaveTables
        (.setProc held.idle (Tables.lt_of_proc stillFound) none fun inum => by
          simp [stillFound, cwds]) fun _ => Nat.zero_le _
      refine ⟨closes.trans, counted, rfl, fun node released => ⟨rfl, ?_⟩⟩
      have drops := closes.drops.trans
        (.put counted (fun sure => held.linked sure _ used) released)
      exact .succeeds (.of_drops start (.refl _ _) start.opened drops closes.wrote
        ((left.put released).1.congr rfl rfl rfl) rfl) (Int.le_refl 0)

/-! ## Changing the directory -/

section

variable (start : Holding reliable ninodes view []) (closed : view.trans = false)
  (root : reliable → ROOTINO < ninodes) (found : view.tables.proc p = some proc)

include start closed root found

theorem sysChdir_obeys (path : Option (List UInt8)) :
    Obeys (use reliable ninodes) (sysChdir p path) view (Completes reliable ninodes view) := by
  cases path with
  | none => exact ⟨closed, endOp_obeys start start.beginOp _⟩
  | some path =>
    rw [sysChdir, obeys_bind, obeys_beginOp]
    refine ⟨closed, namei_ilock_obeys start root found path fun ip locked during ipLocked => ?_⟩
    have held : Holding reliable ninodes locked [ip] := during.holding
    have reads := during.reads trivial
    rw [obeys_bind, obeys_lift]
    refine fields_obeys ipLocked fun inode _ => ?_
    rw [obeys_ite]
    refine ⟨fun _ => iput_endOp_obeys start during _, fun _ => ?_⟩
    have stillFound : locked.tables.proc p = some proc := by
      rw [reads.tables]
      exact found
    rw [obeys_bind, obeys_lift, obeys_tables, stillFound]
    have used := Tables.cwd_refs_pos stillFound
    have counted : 0 < (locked.node proc.cwd).ref := by
      rw [held.refs]
      omega
    -- the old directory is given up before the new one takes its place
    have exchanged : Holding reliable ninodes _ [proc.cwd] := held.giveTables
      (.setProc held.idle (Tables.lt_of_proc stillFound) (some { proc with cwd := ip })
        fun inum => by
          rw [stillFound]
          exact Nat.add_comm ..) (List.forall_mem_singleton.mpr (Or.inr ipLocked))
    refine ⟨counted, reads.trans, fun node released => ⟨reads.trans, ?_⟩⟩
    exact .succeeds (.of_drops start reads held
      (.put counted (fun sure => held.linked sure _ used) released) rfl
      ((exchanged.put released).1.congr rfl rfl rfl) rfl) (Int.le_refl 0)

end

/-! ## Descriptors -/

theorem filealloc_obeys :
    Obeys (inodeUse reliable ninodes) Dir.filealloc view fun result after =>
      (result = none ∧ after = view) ∨ ∃ f, result = some f ∧ f < view.tables.ftable.length ∧
        (view.tables.file f).ref = 0 ∧ after = { view with
          tables := view.tables.setFile f { view.tables.file f with ref := 1 } } := by
  rw [Dir.filealloc, obeys_bind, obeys_tables]
  cases found : view.tables.ftable.findIdx? fun file => file.ref = 0 with
  | none => exact Or.inl ⟨rfl, rfl⟩
  | some f =>
    rcases List.findIdx?_eq_some_iff_getElem.mp found with ⟨inside, unused, _⟩
    refine Or.inr ⟨f, rfl, inside, ?_, rfl⟩
    rw [Tables.file, List.getD_eq_getElem _ _ inside]
    exact of_decide_eq_true unused

theorem fdalloc_obeys (found : view.tables.proc p = some proc) (f : Nat) :
    Obeys (inodeUse reliable ninodes) (Dir.fdalloc p f) view fun result after =>
      (result = none ∧ after = view) ∨ ∃ fd ofile, result = some fd ∧ after = { view with
        tables := view.tables.setProc p (some { proc with ofile := ofile }) } := by
  rw [Dir.fdalloc, obeys_bind, obeys_tables, found]
  dsimp only
  cases proc.ofile.findIdx? Option.isNone with
  | none => exact Or.inl ⟨rfl, rfl⟩
  | some fd => exact Or.inr ⟨fd, _, rfl, rfl⟩

theorem filedup_obeys (holding : Holding reliable ninodes view pending) (f : Nat) :
    Obeys (inodeUse reliable ninodes) (Dir.filedup f) view fun _ after =>
      Holding reliable ninodes after pending ∧ after.node = view.node ∧
        after.trans = view.trans ∧ after.tables.procs = view.tables.procs ∧
        ∀ inum, after.tables.refs inum = view.tables.refs inum := by
  rw [Dir.filedup, obeys_bind, obeys_tables, obeys_ite]
  refine ⟨fun _ => obeys_panic _ _, fun opened => ?_⟩
  have inside := Tables.lt_of_file_ref (Nat.le_of_not_lt opened)
  have change : view.tables.Change (fun ip => reliable → (view.node ip).type ≠ T_DIR)
      (view.tables.setFile f { view.tables.file f with ref := (view.tables.file f).ref + 1 })
      pending pending := .touchFile holding.idle inside rfl rfl rfl fun closed =>
    absurd closed (Nat.succ_ne_zero _)
  rw [obeys_setFile]
  exact ⟨holding.leaveTables change fun _ => Nat.le_refl _, rfl, rfl, rfl, fun inum =>
    Nat.add_right_cancel (change.refs inum)⟩

theorem sysDup_obeys (start : Holding reliable ninodes view []) (closed : view.trans = false)
    (p fd : Nat) :
    Obeys (inodeUse reliable ninodes) (Dir.sysDup p fd) view (Completes reliable ninodes view) := by
  rw [Dir.sysDup, obeys_bind, obeys_tables]
  cases found : view.tables.proc p with
  | none => exact .refl start closed _
  | some proc =>
    dsimp only
    cases proc.file fd with
    | none => exact .refl start closed _
    | some f =>
      dsimp only
      rw [obeys_bind]
      refine Obeys.imp (fdalloc_obeys found f) ?_
      rintro result next (⟨rfl, rfl⟩ | ⟨fd, ofile, rfl, rfl⟩)
      · exact .refl start closed _
      · have change : view.tables.Change (fun ip => reliable → (view.node ip).type ≠ T_DIR)
            (view.tables.setProc p (some { proc with ofile := ofile })) [] [] :=
          .setOfile start.idle found ofile
        have described := start.leaveTables change fun _ => Nat.le_refl _
        simp only [obeys_bind]
        refine Obeys.imp (filedup_obeys described f) ?_
        rintro _ after ⟨held, node, trans, _, refs⟩
        exact .succeeds (.of_preserves held (trans.trans closed) (.of_eq node fun inum =>
          (refs inum).trans (Nat.add_right_cancel (change.refs inum)))) (Int.natCast_nonneg _)

theorem fork_obeys (start : Holding reliable ninodes view []) (closed : view.trans = false)
    (p child : Nat) :
    Obeys (inodeUse reliable ninodes) (Dir.fork p child) view (Completes reliable ninodes view) := by
  rw [Dir.fork, obeys_bind, obeys_tables]
  cases found : view.tables.proc p with
  | none => exact .refl start closed _
  | some proc =>
    dsimp only
    rw [obeys_ite]
    refine ⟨?_, fun _ => .refl start closed _⟩
    rintro ⟨unused, inside⟩
    rw [obeys_bind]
    refine Obeys.imp (obeys_forM _ (fun _ mid => Holding reliable ninodes mid [] ∧
      mid.node = view.node ∧ mid.trans = view.trans ∧ mid.tables.procs = view.tables.procs ∧
      ∀ inum, mid.tables.refs inum = view.tables.refs inum) ?_ proc.ofile
      ⟨start, rfl, rfl, rfl, fun _ => rfl⟩) ?_
    · rintro file rest before ⟨held, node, trans, procs, refs⟩
      cases file with
      | none => exact ⟨held, node, trans, procs, refs⟩
      | some f =>
        refine Obeys.imp (filedup_obeys held f) ?_
        rintro _ after ⟨held, sameNode, sameTrans, sameProcs, sameRefs⟩
        exact ⟨held, sameNode.trans node, sameTrans.trans trans, sameProcs.trans procs,
          fun inum => (sameRefs inum).trans (refs inum)⟩
    · rintro _ mid ⟨held, node, trans, procs, refs⟩
      have stillFound : mid.tables.proc p = some proc := by
        rw [Tables.proc, procs]
        exact found
      have stillUnused : mid.tables.proc child = none := by
        rw [Tables.proc, procs]
        exact unused
      have used := Tables.cwd_refs_pos stillFound
      have counted : 0 < (mid.node proc.cwd).ref := by
        rw [held.refs]
        exact used
      let duplicate : View :=
        mid.setNode proc.cwd { mid.node proc.cwd with ref := (mid.node proc.cwd).ref + 1 }
      have duplicated : Holding reliable ninodes duplicate [proc.cwd] :=
        (held.addRef proc.cwd fun _ => Or.inl counted).1
      have change : duplicate.tables.Change
          (fun ip => reliable → (duplicate.node ip).type ≠ T_DIR)
          (duplicate.tables.setProc child (some proc)) [proc.cwd] [] :=
        .setProc held.idle (by rw [procs]; exact inside) _ fun inum => by
          simp [stillUnused, cwds]
      have shared : Preserves reliable (fun _ => False) view duplicate :=
        (Preserves.of_eq node refs).trans (.setNode rfl rfl rfl fun _ => rfl)
      exact ⟨counted, .succeeds (.of_preserves (duplicated.giveTables change
        (List.forall_mem_singleton.mpr (Or.inl used))) (trans.trans closed)
        (shared.trans (.setTables change rfl fun _ => Nat.zero_le _))) (Int.natCast_nonneg _)⟩

/-! ## Opening files -/

section

variable (start : Holding reliable ninodes view []) (closed : view.trans = false)
  (root : reliable → ROOTINO < ninodes) (found : view.tables.proc p = some proc)

include start found

/-- The end of `open`: either the reference to the inode is given to a new file, or
the inode is given up. -/
theorem openFile_obeys (during : During reliable ninodes quiet view.opened [] [ip] mid)
    (locked : Locked reliable mid ip) {omode : UInt32}
    (readOnly : reliable → (mid.node ip).type = T_DIR → omode = 0) :
    Obeys (use reliable ninodes) (openFile p ip omode) mid (Completes reliable ninodes view) := by
  have held : Holding reliable ninodes mid [ip] := during.holding
  have keeps := during.keeps
  have idle := held.idle
  rw [openFile, obeys_bind, obeys_lift]
  refine Obeys.imp filealloc_obeys ?_
  rintro result next (⟨rfl, rfl⟩ | ⟨f, rfl, inside, unused, rfl⟩)
  · exact iput_endOp_obeys start during _
  · let file : File := { mid.tables.file f with ref := 1 }
    let taken : View := { mid with tables := mid.tables.setFile f file }
    have isNone := idle _ (Tables.file_mem inside) unused
    have takenFile : taken.tables.file f = file := Tables.file_setFile inside file
    have midFound : mid.tables.proc p = some proc := by
      rw [keeps.tables]
      exact found
    dsimp only
    rw [obeys_bind, obeys_lift]
    refine Obeys.imp (@fdalloc_obeys reliable ninodes taken p proc midFound f) ?_
    rintro result next (⟨rfl, rfl⟩ | ⟨fd, ofile, rfl, rfl⟩)
    · dsimp only
      rw [obeys_bind]
      refine Obeys.imp (@fileclose_unused_obeys reliable ninodes taken f file takenFile rfl isNone) ?_
      rintro _ next rfl
      rw [show taken.tables.setFile f { file with ref := 0, kind := .none } = mid.tables from
        Tables.setFile_closed idle inside unused]
      exact iput_endOp_obeys start during _
    · have opens := @Tables.Change.openFile
        { taken.tables.file f with
          kind := .inode, ip := ip, off := 0
          readable := omode &&& Dir.O_WRONLY = 0
          writable := omode &&& Dir.O_WRONLY ≠ 0 ∨ omode &&& Dir.O_RDWR ≠ 0 }
        proc mid.tables f p (fun ip => reliable → (mid.node ip).type ≠ T_DIR) [] idle inside unused
        midFound file ofile rfl (by rw [takenFile]; exact Nat.one_ne_zero) (by
          intro writable sure isDir
          simp [readOnly sure isDir] at writable)
      have given := held.giveTables opens (List.forall_mem_singleton.mpr (Or.inr locked))
      have preserves : Preserves reliable (fun _ => False) view _ :=
        (Preserves.of_keeps start keeps).trans
          (@Preserves.setTables reliable _ { mid with tables := _, trans := false } _ [] _ _ opens
            rfl fun _ => Nat.zero_le _)
      exact ⟨keeps.trans, .succeeds (.of_preserves (given.congr rfl rfl rfl) rfl preserves)
        (Int.natCast_nonneg _)⟩

include closed root

theorem sysOpen_obeys (args : Option (List UInt8 × UInt32)) :
    Obeys (use reliable ninodes) (sysOpen p args) view (Completes reliable ninodes view) := by
  cases args with
  | none => exact .refl start closed _
  | some args =>
    rcases args with ⟨path, omode⟩
    rw [sysOpen, obeys_bind, obeys_beginOp, obeys_ite]
    refine ⟨closed, fun _ => ?_, fun _ => ?_⟩
    · rw [obeys_bind, obeys_lift]
      refine start.beginOp.create root found path (by decide) 0 0
        (fun _ missed => endOp_obeys start missed _) fun ip mid during locked isFile => ?_
      refine openFile_obeys start found during locked fun sure isDir => ?_
      rw [isFile sure] at isDir
      exact absurd isDir (by decide)
    · refine namei_ilock_obeys start root found path fun ip mid during locked => ?_
      rw [obeys_bind, obeys_lift]
      refine fields_obeys locked fun inode known => ?_
      rw [obeys_ite]
      refine ⟨fun _ => iput_endOp_obeys start during _, fun allowed => ?_⟩
      refine openFile_obeys start found during locked fun sure isDir => ?_
      by_contra writes
      rw [known sure] at allowed
      exact allowed ⟨isDir, writes⟩

end

end

end Xv6.Sys
