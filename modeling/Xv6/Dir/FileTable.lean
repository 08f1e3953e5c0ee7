import Xv6.Dir.References

/-! # Open files and current directories

What the calls that open and close files, and those that change current
directories, do to the references to inodes.
-/

namespace Xv6.Dir

open Program Interaction Machine Tables
open Fs (Device T_DEV)

variable {file : File} {ip : Nat} {proc : Proc} {post : Unit → State → Prop}
  {fails : Failure → Prop}

/-! ## Moves of the tables -/

namespace Tables

variable {tables : Tables} {f p : Nat}

theorem file_setFile (inside : f < tables.ftable.length) (file : File) :
    (tables.setFile f file).file f = file := by
  rw [Tables.file, Tables.setFile, List.getD_eq_getElem _ _ (by rw [List.length_set]; exact inside),
    List.getElem_set_self]

theorem length_setFile (f : Nat) (file : File) :
    (tables.setFile f file).ftable.length = tables.ftable.length := List.length_set

theorem Idle.setFile (idle : tables.Idle) (own : file.ref = 0 → file.kind = .none) :
    (tables.setFile f file).Idle := by
  intro other member
  rcases List.mem_or_eq_of_mem_set member with before | rfl
  · exact idle other before
  · exact own

/-- A change of the tables that accounts for the references that the call has before
and after it. A file may be opened for writing only if its inode is `given` for
this. -/
structure Change (given : Nat → Prop) (tables next : Tables) (pending left : List Nat) : Prop where
  refs : ∀ inum, next.refs inum + left.count inum = tables.refs inum + pending.count inum
  idle : next.Idle
  writable : ∀ file ∈ next.ftable, file.kind = .inode → file.writable = true →
    given file.ip ∨ ∃ before ∈ tables.ftable,
      before.kind = .inode ∧ before.writable = true ∧ before.ip = file.ip

namespace Change

variable {given : Nat → Prop} {pending left : List Nat}

theorem setFile (idle : tables.Idle) (own : file.ref = 0 → file.kind = .none)
    (writable : file.kind = .inode → file.writable = true → given file.ip ∨
      ∃ before ∈ tables.ftable,
        before.kind = .inode ∧ before.writable = true ∧ before.ip = file.ip)
    (refs : ∀ inum, (tables.setFile f file).refs inum + left.count inum =
      tables.refs inum + pending.count inum) :
    Change given tables (tables.setFile f file) pending left where
  refs := refs
  idle := idle.setFile own
  writable := by
    intro other member isInode isWritable
    rcases List.mem_or_eq_of_mem_set member with before | rfl
    · exact Or.inr ⟨other, before, isInode, isWritable, rfl⟩
    · exact writable isInode isWritable

theorem touchFile (idle : tables.Idle) (inside : f < tables.ftable.length)
    (kind : file.kind = (tables.file f).kind) (ip : file.ip = (tables.file f).ip)
    (writable : file.writable = (tables.file f).writable) (own : file.ref = 0 → file.kind = .none) :
    Change given tables (tables.setFile f file) pending pending := by
  refine setFile idle own ?_ ?_
  · intro isInode isWritable
    exact Or.inr ⟨_, file_mem inside, kind.symm.trans isInode, writable.symm.trans isWritable,
      ip.symm⟩
  · intro inum
    have refers : file.refersTo inum = (tables.file f).refersTo inum := by
      rw [File.refersTo, File.refersTo, kind, ip]
    have change := refs_setFile inside file inum
    rw [refers] at change
    omega

/-- A file that is closed leaves its reference, if it has one, to the call. -/
theorem closeFile (idle : tables.Idle) (inside : f < tables.ftable.length)
    (closed : file.kind = .none) (counts : ∀ inum, left.count inum = pending.count inum +
      if (tables.file f).refersTo inum then 1 else 0) :
    Change given tables (tables.setFile f file) pending left := by
  refine setFile idle (fun _ => closed) (fun isInode => ?_) fun inum => ?_
  · rw [closed] at isInode
    cases isInode
  · have change := refs_setFile inside file inum
    have count := counts inum
    have refersNot : file.refersTo inum = false := by simp [File.refersTo, closed]
    rw [refersNot] at change
    simp only [Bool.false_eq_true, if_false] at change
    omega

theorem giveFile (idle : tables.Idle) (inside : f < tables.ftable.length)
    (unused : (tables.file f).kind = .none) (isInode : file.kind = .inode) (own : file.ip = ip)
    (opened : file.ref ≠ 0) (readOnly : file.writable = true → given ip) :
    Change given tables (tables.setFile f file) (ip :: pending) pending := by
  subst own
  refine setFile idle (fun closed => absurd closed opened)
    (fun _ writable => Or.inl (readOnly writable)) fun inum => ?_
  have change := refs_setFile inside file inum
  simp only [File.refersTo, unused, isInode, reduceCtorEq, false_and, true_and, decide_false,
    Bool.false_eq_true, if_false, decide_eq_true_eq] at change
  simp only [List.count_cons, beq_iff_eq]
  omega

theorem setProc (idle : tables.Idle) (inside : p < tables.procs.length) (proc : Option Proc)
    (counts : ∀ inum, left.count inum + (cwds proc).count inum =
      pending.count inum + (cwds (tables.proc p)).count inum) :
    Change given tables (tables.setProc p proc) pending left where
  refs := by
    intro inum
    have change := refs_setProc inside proc inum
    have count := counts inum
    omega
  idle := idle
  writable := fun file member isInode writable => Or.inr ⟨file, member, isInode, writable, rfl⟩

theorem setOfile (idle : tables.Idle) (found : tables.proc p = some proc)
    (ofile : List (Option Nat)) :
    Change given tables (tables.setProc p (some { proc with ofile := ofile })) pending pending :=
  setProc idle (lt_of_proc found) _ fun inum => by rw [found]; rfl

theorem trans {next final : Tables} {last : List Nat} (first : Change given tables next pending left)
    (second : Change given next final left last) : Change given tables final pending last where
  refs := fun inum => (second.refs inum).trans (first.refs inum)
  idle := second.idle
  writable := by
    intro file member isInode writable
    rcases second.writable file member isInode writable with given | ⟨before, was, kind, wrote, same⟩
    · exact Or.inl given
    · rw [← same]
      exact first.writable before was kind wrote

/-- A file that was closed is taken, a descriptor refers to it, and it takes over the
reference of the call. -/
theorem openFile (idle : tables.Idle) (inside : f < tables.ftable.length)
    (closed : (tables.file f).ref = 0) (found : tables.proc p = some proc)
    (taken : File) (ofile : List (Option Nat)) (isInode : file.kind = .inode)
    (opened : file.ref ≠ 0) (readOnly : file.writable = true → given file.ip) :
    Change given tables
      (((tables.setFile f taken).setProc p (some { proc with ofile := ofile })).setFile f file)
      (file.ip :: pending) pending := by
  have described : Change given tables (tables.setProc p (some { proc with ofile := ofile }))
      (file.ip :: pending) (file.ip :: pending) := setOfile idle found ofile
  have opens := described.trans (giveFile (f := f) described.idle inside
    (idle _ (file_mem inside) closed) isInode rfl opened readOnly)
  simp only [Tables.setFile, Tables.setProc, List.set_set] at opens ⊢
  exact opens

end Change

/-- A file that is closed again right after it has been taken is as it was before. -/
theorem setFile_closed (idle : tables.Idle) (inside : f < tables.ftable.length)
    (closed : (tables.file f).ref = 0) :
    (tables.setFile f { tables.file f with ref := 1 }).setFile f
      { tables.file f with ref := 0, kind := .none } = tables := by
  have same : ({ tables.file f with ref := 0, kind := .none } : File) = tables.file f := by
    rw [← closed, ← idle _ (file_mem inside) closed]
  rw [same, setFile, setFile, List.set_set, file,
    List.getD_eq_getElem _ _ inside, List.set_getElem_self]

end Tables

section

variable {state : State} {pending left : List Nat} {f p : Nat}

theorem Move.of_change {tables : Tables}
    (change : state.tables.Change (fun ip => ¬state.IsDir ip) tables pending left) :
    Move (state, pending) ({ state with tables := tables }, left) :=
  .tables change.refs change.idle change.writable

theorem Move.setProc (idle : state.tables.Idle) (inside : p < state.tables.procs.length)
    {before : Option Proc} (current : state.tables.proc p = before) (proc : Option Proc) :
    Move (state, cwds proc)
      ({ state with tables := state.tables.setProc p proc }, cwds before) := by
  refine .of_change (.setProc idle inside proc fun inum => ?_)
  rw [current]
  exact Nat.add_comm ..

end

/-! ## The file table -/

section

variable {devsw : Nat → Device} {state : State} {pending : List Nat} {f p : Nat}

theorem setFile_meets (file : File)
    (met : post () { state with tables := state.tables.setFile f file }) :
    Meets (execute devsw (setFile f file)) state fails post :=
  (meets_interpret_bind _ _ _ _ _ _).mpr (tables_meets (setTables_meets _ met))

theorem setProc_meets (proc : Option Proc)
    (met : post () { state with tables := state.tables.setProc p proc }) :
    Meets (execute devsw (setProc p proc)) state fails post :=
  (meets_interpret_bind _ _ _ _ _ _).mpr (tables_meets (setTables_meets _ met))

theorem filealloc_meets {post : Option Nat → State → Prop} (full : post none state)
    (met : ∀ f, f < state.tables.ftable.length → (state.tables.file f).ref = 0 →
      post (some f) { state with
        tables := state.tables.setFile f { state.tables.file f with ref := 1 } }) :
    Meets (execute devsw filealloc) state fails post := by
  rw [filealloc, meets_interpret_bind]
  refine tables_meets ?_
  cases found : state.tables.ftable.findIdx? fun file => file.ref = 0 with
  | none => exact full
  | some f =>
    rcases List.findIdx?_eq_some_iff_getElem.mp found with ⟨inside, unused, _⟩
    have free : (state.tables.file f).ref = 0 := by
      rw [file, List.getD_eq_getElem _ _ inside]
      exact of_decide_eq_true unused
    simp only [meets_interpret_bind]
    exact setFile_meets _ (met f inside free)

theorem fdalloc_meets {post : Option Nat → State → Prop} (found : state.tables.proc p = some proc)
    (f : Nat) (full : post none state) (met : ∀ fd ofile, post (some fd) { state with
      tables := state.tables.setProc p (some { proc with ofile := ofile }) }) :
    Meets (execute devsw (fdalloc p f)) state fails post := by
  rw [fdalloc, meets_interpret_bind]
  refine tables_meets ?_
  rw [found]
  simp only
  split
  · rename_i fd _
    rw [meets_interpret_bind]
    exact setProc_meets _ (met fd _)
  · exact full

theorem filedup_meets (proper : Proper state pending) (f : Nat) :
    Meets (execute devsw (filedup f)) state (fun _ => True) fun _ next =>
      Moves (state, pending) (next, pending) ∧ next.tables.procs = state.tables.procs := by
  rw [filedup, meets_interpret_bind]
  refine tables_meets ?_
  rw [meets_interpret_ite]
  refine ⟨fun _ => panic_meets _ trivial _, fun opened => setFile_meets _ ⟨?_, rfl⟩⟩
  have inside := lt_of_file_ref (Nat.le_of_not_lt opened)
  exact .single (Move.of_change <| .touchFile proper.idle inside rfl rfl rfl fun closed =>
    absurd closed (Nat.succ_ne_zero _))

theorem iput_release_meets (proper : Proper state pending) (used : 0 < (state.node ip).ref)
    (met : post () (state.edit ip Node.release)) :
    Meets (execute devsw (iput ip)) state fails post := by
  have valid : (state.node ip).valid = true := by
    rw [(proper.settled ip).valid]
    exact decide_eq_true (Nat.pos_iff_ne_zero.mp used)
  refine (meets_send (.iput ip) post).mpr ?_
  change Meets (Machine.iput ip) state fails post
  rw [Machine.iput, meets_bind, meets_getNode (proper.tree.inRange (proper.typed_of_used used))]
  simp only [setNode, meets_ite, meets_modify, valid, true_and]
  rw [State.edit, Node.release] at met
  refine ⟨fun last => ?_, fun kept => ?_⟩
  · rw [if_pos last] at met
    exact met
  · rw [if_neg kept, valid] at met
    exact met

theorem fileclose_meets (proper : Proper state pending) (f : Nat) :
    Meets (execute devsw (fileclose f)) state (fun _ => True) fun _ next =>
      Moves (state, pending) (next, pending) ∧ next.tables.procs = state.tables.procs := by
  rw [fileclose, meets_interpret_bind]
  refine tables_meets ?_
  rw [meets_interpret_ite]
  refine ⟨fun _ => panic_meets _ trivial _, fun opened => ?_⟩
  have inside := lt_of_file_ref (Nat.le_of_not_lt opened)
  rw [meets_interpret_ite, meets_interpret_bind]
  refine ⟨fun shared => setFile_meets _ ⟨?_, rfl⟩, fun _ => setFile_meets _ ?_⟩
  · exact .single (Move.of_change <| .touchFile proper.idle inside rfl rfl rfl fun closed =>
      absurd closed (by simp only; omega))
  · split
    · rename_i isNone
      refine ⟨.single (.of_change (.closeFile proper.idle inside rfl fun inum => ?_)), rfl⟩
      simp [File.refersTo, isNone]
    · rename_i isInode
      have move : Move (state, pending) (_, (state.tables.file f).ip :: pending) :=
        .of_change (@Tables.Change.closeFile { state.tables.file f with ref := 0, kind := .none }
          state.tables f _ pending _ proper.idle inside rfl fun inum => by
            simp [List.count_cons, File.refersTo, isInode])
      have closed := proper.move move
      exact iput_release_meets closed closed.used_of_pending
        ⟨(Relation.ReflTransGen.single move).tail .release, rfl⟩

theorem fileclose_unused_meets (current : state.tables.file f = file) (single : file.ref = 1)
    (unused : file.kind = .none) (met : post () { state with
      tables := state.tables.setFile f { file with ref := 0, kind := .none } }) :
    Meets (execute devsw (fileclose f)) state fails post := by
  rw [fileclose, meets_interpret_bind]
  refine tables_meets ?_
  rw [current, if_neg (by omega), if_neg (by omega), meets_interpret_bind]
  refine setFile_meets _ ?_
  rw [unused]
  exact met

/-! ## The calls -/

theorem sysClose_meets (proper : Proper state []) (p fd : Nat) :
    Meets (execute devsw (sysClose p fd)) state (fun _ => True) fun _ next =>
      Moves (state, []) (next, []) := by
  rw [sysClose, meets_interpret_bind]
  refine tables_meets ?_
  split
  · exact .refl
  · rename_i proc found
    split
    · exact .refl
    · rename_i f _
      have cleared : Move (state, []) (_, []) :=
        .of_change (.setOfile proper.idle found (proc.ofile.set fd none))
      simp only [meets_interpret_bind]
      exact setProc_meets _ ((fileclose_meets (proper.move cleared) f).imp fun _ _ moves =>
        .head cleared moves.1)

theorem sysDup_meets (proper : Proper state []) (p fd : Nat) :
    Meets (execute devsw (sysDup p fd)) state (fun _ => True) fun _ next =>
      Moves (state, []) (next, []) := by
  rw [sysDup, meets_interpret_bind]
  refine tables_meets ?_
  split
  · exact .refl
  · rename_i proc found
    split
    · exact .refl
    · rename_i f _
      rw [meets_interpret_bind]
      refine fdalloc_meets found f .refl fun fd ofile => ?_
      have opened : Move (state, []) (_, []) := .of_change (.setOfile proper.idle found ofile)
      simp only [meets_interpret_bind]
      exact (filedup_meets (proper.move opened) f).imp fun _ _ moves => .head opened moves.1

theorem Proper.used_of_cwd (proper : Proper state pending)
    (found : state.tables.proc p = some proc) : 0 < (state.node proc.cwd).ref := by
  have counted := cwd_refs_pos found
  rw [proper.refs]
  omega

theorem Proper.calls (proper : Proper state pending)
    (found : state.tables.proc p = some proc) : Calls state p proc :=
  ⟨found, proper.typed_of_used (proper.used_of_cwd found)⟩

theorem sysChdir_meets (proper : Proper state []) (found : state.tables.proc p = some proc)
    (path : List UInt8) :
    Meets (execute devsw (sysChdir p path)) state (fun _ => True) fun _ next =>
      Moves (state, []) (next, []) := by
  rw [sysChdir]
  refine namei_ilock_meets proper.tree proper.settled (proper.calls found) path .refl
    fun ip usable => ?_
  rw [meets_interpret_bind]
  refine fields_held List.mem_cons_self usable.inRange fun inode _ _ => ?_
  rw [meets_interpret_ite]
  simp only [meets_interpret_bind]
  refine ⟨fun _ => usable.iput_meets .refl, fun _ => tables_meets ?_⟩
  rw [State.tables_holds, found]
  have held : Proper (state.holds [ip]) [ip] := proper.hold usable.typed
  simp only [meets_interpret_bind]
  refine iput_release_meets held (held.used_of_cwd found) (setProc_meets _ ?_)
  have exchange := Move.setProc held.idle (lt_of_proc found) found
    (some { proc with cwd := ip })
  exact ((Relation.ReflTransGen.single (Move.hold usable.typed)).tail exchange).tail .release

/-- The loop over the descriptors of a process, in `fork` and in `exit`. -/
theorem forM_ofile_meets {body : Nat → Prog PUnit} {post : PUnit → State → Prop}
    (proper : Proper state []) (found : state.tables.proc p = some proc)
    (each : ∀ {before : State} (_ : Proper before []) f,
      Meets (execute devsw (body f)) before (fun _ => True) fun _ next =>
        Moves (before, []) (next, []) ∧ next.tables.procs = before.tables.procs)
    (met : ∀ next, Moves (state, []) (next, []) → Proper next [] →
      next.tables.procs = state.tables.procs → next.tables.proc p = some proc → post ⟨⟩ next) :
    Meets (execute devsw (forM proc.ofile fun file =>
      match file with
      | some f => body f
      | none => pure ())) state (fun _ => True) post := by
  refine Meets.imp (meets_interpret_forM _ _ _ _ (fun next => Moves (state, []) (next, []) ∧
    next.tables.procs = state.tables.procs) ?_ proc.ofile ⟨.refl, rfl⟩) ?_
  · rintro file before ⟨moves, procs⟩
    cases file with
    | none => exact ⟨moves, procs⟩
    | some f =>
      refine (each (proper.moves moves) f).imp ?_
      rintro _ next ⟨more, same⟩
      exact ⟨moves.trans more, same.trans procs⟩
  · rintro _ next ⟨moves, procs⟩
    refine met next moves (proper.moves moves) procs ?_
    rw [Tables.proc, procs]
    exact found

theorem fork_meets (proper : Proper state []) (p child : Nat) :
    Meets (execute devsw (Dir.fork p child)) state (fun _ => True) fun _ next =>
      Moves (state, []) (next, []) := by
  rw [Dir.fork, meets_interpret_bind]
  refine tables_meets ?_
  split
  · exact .refl
  · rename_i proc found
    rw [meets_interpret_ite]
    refine ⟨?_, fun _ => .refl⟩
    rintro ⟨unused, inside⟩
    rw [meets_interpret_bind]
    refine forM_ofile_meets proper found (fun proper f => filedup_meets proper f)
      fun next moves nextProper procs nextFound => ?_
    have nextUnused : next.tables.proc child = none := by
      rw [Tables.proc, procs]
      exact unused
    have used := nextProper.used_of_cwd nextFound
    have typed := nextProper.typed_of_used used
    simp only [meets_interpret_bind]
    refine idup_meets (nextProper.tree.inRange typed) (setProc_meets _ ?_)
    have valid : (next.node proc.cwd).valid = true := by
      rw [(nextProper.settled proc.cwd).valid]
      exact decide_eq_true (Nat.pos_iff_ne_zero.mp used)
    have same : next.hold proc.cwd false = next.hold proc.cwd true := by
      simp only [State.hold, State.edit, valid, Bool.true_or]
    rw [same]
    have started := @Move.setProc (next.hold proc.cwd true) child nextProper.idle
      (by rw [State.tables_hold, procs]; exact inside) none nextUnused
      (some { proc with cwd := proc.cwd })
    exact (moves.tail (Move.hold typed)).tail started

theorem exit_meets (proper : Proper state []) (p : Nat) :
    Meets (execute devsw (Dir.exit p)) state (fun _ => True) fun _ next =>
      Moves (state, []) (next, []) := by
  rw [Dir.exit, meets_interpret_bind]
  refine tables_meets ?_
  split
  · exact .refl
  · rename_i proc found
    rw [meets_interpret_ite]
    refine ⟨fun _ => panic_meets _ trivial _, fun _ => ?_⟩
    rw [meets_interpret_bind]
    refine forM_ofile_meets proper found (fun proper f => fileclose_meets proper f)
      fun next moves nextProper _ nextFound => ?_
    simp only [meets_interpret_bind]
    refine iput_release_meets nextProper (nextProper.used_of_cwd nextFound) (setProc_meets _ ?_)
    have left := Move.setProc nextProper.idle (lt_of_proc nextFound) nextFound none
    exact (moves.tail left).tail .release

/-- The end of `open`: either the reference to the inode is given to a new file, or
the inode is given up. -/
theorem openFile_meets (usable : Usable state ip) (idle : state.tables.Idle)
    (found : state.tables.proc p = some proc) {omode : UInt32}
    (readOnly : state.IsDir ip → omode = 0) :
    Meets (execute devsw (openFile p ip omode)) (state.holds [ip]) (fun _ => True)
      fun _ next => Moves (state, []) (next, []) ∧ SameTree state next := by
  rw [openFile, meets_interpret_bind]
  refine filealloc_meets ?_ fun f inside closed => ?_
  · simp only [meets_interpret_bind]
    exact usable.iput_meets ⟨.refl, .refl state⟩
  · rw [State.tables_holds] at inside closed
    let file : File := { state.tables.file f with ref := 1 }
    let taken : State := { state with tables := state.tables.setFile f file }
    have isNone := idle _ (file_mem inside) closed
    have takenFile : taken.tables.file f = file := file_setFile inside file
    simp only [meets_interpret_bind]
    change Meets _ (taken.holds [ip]) _ _
    refine fdalloc_meets (show (taken.holds [ip]).tables.proc p = some proc from found) f ?_
      fun fd ofile => ?_
    · simp only [meets_interpret_bind]
      refine fileclose_unused_meets (show (taken.holds [ip]).tables.file f = file from takenFile)
        rfl isNone ?_
      rw [show (taken.holds [ip]).tables.setFile f { file with ref := 0, kind := .none } =
        state.tables from setFile_closed idle inside closed]
      exact usable.iput_meets ⟨.refl, .refl state⟩
    · simp only [meets_interpret_bind]
      refine tables_meets (setFile_meets _ ?_)
      have same := SameTree.hold state ip true
      have hold : Move (state, []) (state.hold ip true, [ip]) := .hold usable.typed
      refine ⟨(Relation.ReflTransGen.single hold).tail (Move.of_change
        (.openFile idle inside closed found file ofile rfl ?_ ?_)),
        ⟨same.length, same.type, same.nlink, same.data⟩⟩
      · change (taken.tables.file f).ref ≠ 0
        rw [takenFile]
        exact Nat.one_ne_zero
      · intro writable isDir
        have isZero := readOnly ((state.holds_isDir [ip] ip).mp isDir)
        simp [isZero] at writable

theorem Effect.tables {next : State} (effect : Effect state next) :
    next.tables = state.tables := by
  cases effect <;> rfl

/-- `mkdir` and `mknod` -/
theorem create_iput_meets (proper : Proper state []) (found : state.tables.proc p = some proc)
    (path : List UInt8) {type : Int16} (typed : type ≠ 0) (major minor : Int16) :
    Meets (execute devsw (do
      match ← create p path type major minor with
      | none => return (-1 : Int)
      | some ip =>
        iput ip
        return 0)) state (fun _ => True) fun _ next => Effect state next := by
  rw [meets_interpret_bind]
  refine create_meets proper.tree proper.settled (proper.calls found) path typed major minor .none
    fun ip after effect usable _ => ?_
  simp only [meets_interpret_bind]
  exact usable.iput_meets effect

/-- Without `O_CREATE` there is no effect on names. -/
theorem sysOpen_meets (proper : Proper state []) (found : state.tables.proc p = some proc)
    (path : List UInt8) (omode : UInt32) :
    Meets (execute devsw (sysOpen p path omode)) state (fun _ => True) fun _ next =>
      ∃ mid, Effect state mid ∧ (omode &&& O_CREATE = 0 → mid = state) ∧
        SameTree mid next ∧ Moves (mid, []) (next, []) := by
  have calls := proper.calls found
  rw [sysOpen, meets_interpret_ite]
  refine ⟨fun creates => ?_, fun _ => ?_⟩
  · rw [meets_interpret_bind]
    refine create_meets proper.tree proper.settled calls path (by decide) 0 0
      ⟨state, .none, fun _ => rfl, .refl state, .refl⟩ fun ip after effect usable isFile => ?_
    refine Meets.imp (openFile_meets usable (by rw [effect.tables]; exact proper.idle)
      (by rw [effect.tables]; exact found) ?_) ?_
    · intro isDir
      rw [State.IsDir, isFile] at isDir
      exact absurd isDir (by decide)
    · rintro _ next ⟨moves, same⟩
      exact ⟨after, effect, fun wrong => absurd wrong creates, same, moves⟩
  · refine namei_ilock_meets proper.tree proper.settled calls path
      ⟨state, .none, fun _ => rfl, .refl state, .refl⟩ fun ip usable => ?_
    rw [meets_interpret_bind]
    refine fields_held List.mem_cons_self usable.inRange fun inode type _ => ?_
    rw [meets_interpret_ite, type, meets_interpret_bind]
    refine ⟨fun _ => usable.iput_meets ⟨state, .none, fun _ => rfl, .refl state, .refl⟩,
      fun allowed => ?_⟩
    refine Meets.imp (openFile_meets usable proper.idle found fun isDir => ?_) ?_
    · by_contra writes
      exact allowed ⟨isDir, writes⟩
    · rintro _ next ⟨moves, same⟩
      exact ⟨state, .none, fun _ => rfl, same, moves⟩

/-! ## `write` -/

theorem Proper.locked_of_used (proper : Proper state pending)
    (used : 0 < (state.node ip).ref) : state.Locked ip := by
  refine ⟨proper.tree.inRange (proper.typed_of_used used), used, ?_⟩
  rw [(proper.settled ip).valid]
  exact decide_eq_true (Nat.pos_iff_ne_zero.mp used)

theorem writei_data_meets {post : Int → State → Prop} (locked : state.Locked ip) (src : List UInt8)
    (off : UInt32) (met : ∀ r data, post r (state.edit ip fun node => { node with data := data })) :
    Meets (execute devsw (writei ip src off)) state fails post := by
  by_cases isDevice : (state.node ip).type = T_DEV
  · have same : ∀ r, post r state := by
      intro r
      have kept := met r (state.node ip).data
      rw [State.edit_eq_self rfl] at kept
      exact kept
    refine (meets_send (.writei ip src off) post).mpr ?_
    change Meets (Machine.writei devsw ip src off) state fails post
    rw [Machine.writei, meets_bind, meets_locked locked]
    simp only [if_pos isDevice]
    split
    · exact same _
    · exact same _
  · exact writei_meets locked isDevice src off (met _ _)

/-- A file through which a process may write. -/
structure Tables.Writes (tables : Tables) (f : Nat) : Prop where
  inside : f < tables.ftable.length
  kind : (tables.file f).kind = .inode
  writable : (tables.file f).writable = true

theorem filewriteLoop_meets (passes : Nat) (left : List UInt8) (proper : Proper state [])
    (writes : state.tables.Writes f) :
    Meets (execute devsw (filewriteLoop f passes left)) state (fun _ => True)
      fun _ next => Moves (state, []) (next, []) := by
  induction passes generalizing left state with
  | zero => exact .refl
  | succ passes induction =>
    rw [filewriteLoop, meets_interpret_ite]
    refine ⟨fun _ => .refl, fun _ => ?_⟩
    rw [meets_interpret_bind]
    refine tables_meets ?_
    have used : 0 < (state.node (state.tables.file f).ip).ref := by
      have counted := file_refs_pos writes.inside writes.kind
      rw [proper.refs]
      omega
    have locked := proper.locked_of_used used
    simp only [meets_interpret_bind]
    refine ilock_again_meets locked (writei_data_meets locked _ _ fun r data => ?_)
    have notDir := proper.writable _ (file_mem writes.inside) writes.kind writes.writable
    have wrote := @Move.write state [] (state.tables.file f).ip data notDir
    have written := proper.move wrote
    have finish : ∀ next, Moves (state.edit (state.tables.file f).ip fun node =>
        { node with data := data }, []) (next, []) → next.tables.Writes f →
        Meets (execute devsw (
          if r < 0 then return false
          else if r ≠ (left.take WRITEMAX).length then panic .shortFilewrite
          else filewriteLoop f passes (left.drop WRITEMAX))) next (fun _ => True)
          fun _ next => Moves (state, []) (next, []) := by
      intro next moved nextWrites
      rw [meets_interpret_ite]
      refine ⟨fun _ => .head wrote moved, fun _ => ?_⟩
      rw [meets_interpret_ite]
      refine ⟨fun _ => panic_meets _ trivial _, fun _ => ?_⟩
      exact (induction _ (written.moves moved) nextWrites).imp fun _ _ moves =>
        .head wrote (moved.trans moves)
    rw [meets_interpret_ite, meets_interpret_bind]
    refine ⟨fun _ => setFile_meets _ ?_, fun _ => finish _ .refl writes⟩
    have advanced := @Move.of_change (state.edit (state.tables.file f).ip fun node =>
      { node with data := data }) [] [] _ (@Tables.Change.touchFile
        { state.tables.file f with off := (state.tables.file f).off + UInt32.ofNat r.toNat }
        state.tables f _ [] proper.idle writes.inside rfl rfl rfl (proper.idle (state.tables.file f) (file_mem writes.inside)))
    refine finish _ (.single advanced) ?_
    refine ⟨?_, ?_, ?_⟩
    · rw [length_setFile]
      exact writes.inside
    · rw [State.tables_edit, file_setFile writes.inside]
      exact writes.kind
    · rw [State.tables_edit, file_setFile writes.inside]
      exact writes.writable

theorem sysWrite_meets (proper : Proper state []) (p fd : Nat) (buffer : List UInt8) :
    Meets (execute devsw (sysWrite p fd buffer)) state (fun _ => True) fun _ next =>
      Moves (state, []) (next, []) := by
  rw [sysWrite, meets_interpret_bind]
  refine tables_meets ?_
  split
  · exact .refl
  · rename_i f _
    rw [filewrite, meets_interpret_bind]
    refine tables_meets ?_
    rw [meets_interpret_ite]
    refine ⟨fun _ => .refl, fun writable => ?_⟩
    split
    · exact panic_meets _ trivial _
    · rename_i kind
      have inside : f < state.tables.ftable.length := by
        by_contra outside
        rw [file, List.getD_eq_default _ _ (Nat.le_of_not_lt outside)] at kind
        cases kind
      rw [meets_interpret_bind]
      exact (filewriteLoop_meets _ buffer proper
        ⟨inside, kind, (Bool.not_eq_false _).mp writable⟩).imp fun _ _ moves => moves

end

end Xv6.Dir
