import Xv6.Files.Lifetime

/-! # System calls on open files

Every call keeps the invariant, whatever fails in it, and none of the panics of `filedup` and
`fileclose` is reached.
-/

namespace Xv6.Files

open Transition

open Program

variable {nproc nofile nfile npage : Nat} {state : State nproc nofile nfile npage}
  {pending : List (Fin nfile)} {f g : Fin nfile} {p q np : Fin nproc} {fd : Fin nofile}
  {page : Fin npage}

variable {left : List (Fin nofile)}

/-! ## Open files -/

def File.close (file : File npage) : File npage :=
  if 1 < file.ref then { file with ref := file.ref - 1 } else { file with ref := 0, type := .none }

/-- The pipes after a file has been closed. -/
def File.closePipe (file : File npage) (pipes : Fin npage → Option Pipe) :
    Fin npage → Option Pipe :=
  if 1 < file.ref then pipes
  else
    match file.type, file.pipe with
    | .pipe, some page =>
        Function.update pipes page ((pipes page).bind fun pipe => pipe.close file.writable)
    | _, _ => pipes

/-- The state after `fileclose`. -/
def State.close (state : State nproc nofile nfile npage) (f : Fin nfile) :
    State nproc nofile nfile npage :=
  { state with
    ftable := Function.update state.ftable f (state.ftable f).close
    pipes := (state.ftable f).closePipe state.pipes }

theorem pipeclose_returns (state : State nproc nofile nfile npage) {pipe : Pipe}
    (allocated : state.pipes page = some pipe) (writable : Bool) :
    Returns (pipeclose page writable) state fun _ next =>
      next = state.setPipe page (pipe.close writable) := by
  rw [pipeclose]
  simp only [Returns, meets_bind, meets_get, allocated, meets_modify]
  have shut : (if writable then { pipe with writeopen := false }
      else { pipe with readopen := false }) = pipe.shut writable := rfl
  rw [shut, meets_ite]
  constructor
  · intro closed
    have last : pipe.close writable = none := by
      rw [Pipe.close, if_neg]
      intro isOpen
      have left := pipe.isOpen_shut writable (!writable)
      rw [isOpen] at left
      cases writable with
      | true =>
        rw [Pipe.isOpen] at left
        simp [closed.1] at left
      | false =>
        rw [Pipe.isOpen] at left
        simp [closed.2] at left
    rw [kfree, last]
    simp [State.setPipe]
  · intro notClosed
    have left : pipe.close writable = some (pipe.shut writable) := by
      rw [Pipe.close_eq_some]
      refine ⟨?_, rfl⟩
      by_contra closed
      apply notClosed
      cases writable with
      | true => simpa [Pipe.shut, Pipe.isOpen] using closed
      | false => simpa [Pipe.shut, Pipe.isOpen] using closed
    rw [left]
    rfl

theorem fileclose_returns (ends : Ends state.ftable state.pipes)
    (isOpen : 0 < (state.ftable f).ref) :
    Returns (fileclose f) state fun _ next => next = state.close f := by
  rw [fileclose, State.close, File.close, File.closePipe]
  simp only [Returns, meets_bind, meets_get]
  rw [if_neg (by omega)]
  by_cases shared : 1 < (state.ftable f).ref
  · rw [if_pos shared, if_pos shared, if_pos shared]
    rfl
  · rw [if_neg shared, if_neg shared, if_neg shared, meets_bind, meets_modify]
    by_cases isPipe : (state.ftable f).type = .pipe
    · rcases ends.page f isPipe with ⟨page, pipe, isPage, allocated, _⟩
      simp only [isPipe, isPage, if_true, allocated, Option.bind_some]
      exact pipeclose_returns (state.setFile f { state.ftable f with
        type := .none, ref := 0, pipe := some page }) allocated (state.ftable f).writable
    · rw [if_neg isPipe, meets_pure]
      split
      · rename_i wasPipe _
        exact absurd wasPipe isPipe
      · rfl

theorem Held.ref_pos_of_mem (held : Held state (f :: pending)) : 0 < (state.ftable f).ref := by
  rw [held.refs, List.count_cons_self]
  omega

theorem Held.change (held : Held state pending) {left : List (Fin nfile)} {file : File npage}
    {pipes : Fin npage → Option Pipe}
    (refs : file.ref + pending.count f = (state.ftable f).ref + left.count f)
    (others : ∀ g, g ≠ f → left.count g = pending.count g)
    (idle : file.ref = 0 → file.type = .none)
    (ends : Ends (Function.update state.ftable f file) pipes) :
    Held { state with ftable := Function.update state.ftable f file, pipes := pipes } left where
  refs := by
    refine (Function.forall_update_iff _ fun g (file : File npage) =>
      file.ref = state.slots g + left.count g).mpr ⟨?_, ?_⟩
    · have before := held.refs f
      omega
    · intro g different
      rw [others g different]
      exact held.refs g
  idle := (Function.forall_update_iff _ fun _ (file : File npage) =>
    file.ref = 0 → file.type = .none).mpr ⟨idle, fun g _ => held.idle g⟩
  empty := held.empty
  ends := ends

theorem count_cons_of_ne (different : g ≠ f) : (f :: pending).count g = pending.count g :=
  List.count_cons_of_ne different.symm

theorem Held.refer (held : Held state pending) (ref : Nat) (more : ref = (state.ftable f).ref + 1) :
    Held (state.setFile f { state.ftable f with ref := ref }) (f :: pending) := by
  apply held.change
  · rw [List.count_cons_self]
    dsimp only
    omega
  · exact fun g different => count_cons_of_ne different
  · dsimp only
    omega
  · exact held.ends.setFile fun _ => ⟨ref, rfl⟩

/-- A file that has not been used as a pipe becomes the open file of an inode. -/
theorem Held.inode (held : Held state (f :: pending)) (unused : (state.ftable f).type = .none)
    (readable writable : Bool) :
    Held (state.setFile f { state.ftable f with
      type := .inode, readable := readable, writable := writable }) (f :: pending) := by
  apply held.change
  · rfl
  · exact fun _ _ => rfl
  · intro zero
    have isOpen := held.ref_pos_of_mem
    dsimp only at zero
    omega
  · apply held.ends.setFile
    rw [unused]
    exact fun isPipe => isPipe.elim nofun nofun

theorem Ends.closeFile (ends : Ends state.ftable state.pipes) (f : Fin nfile) :
    Ends (Function.update state.ftable f (state.ftable f).close)
      ((state.ftable f).closePipe state.pipes) := by
  rw [File.close, File.closePipe]
  split
  · exact ends.setFile fun _ => ⟨_, rfl⟩
  · split
    · rename_i page isPipe isPage
      rcases ends.page f isPipe with ⟨page', pipe, isPage', allocated, _⟩
      rw [isPage] at isPage'
      cases isPage'
      rw [allocated, Option.bind_some]
      exact ends.close ⟨isPipe, isPage, rfl⟩ allocated nofun
    · rename_i notPipe
      refine ends.setFile fun isPipe => isPipe.elim nofun fun wasPipe => ?_
      rcases ends.page f wasPipe with ⟨page, _, isPage, _⟩
      exact absurd isPage (notPipe page wasPipe)

theorem Held.close (held : Held state (f :: pending)) : Held (state.close f) pending := by
  have isOpen := held.ref_pos_of_mem
  apply held.change
  · rw [List.count_cons_self, File.close]
    split
    · dsimp only
      omega
    · dsimp only
      omega
  · exact fun g different => (count_cons_of_ne different).symm
  · rw [File.close]
    split
    · dsimp only
      omega
    · exact fun _ => rfl
  · exact held.ends.closeFile f

/-! ## Rules

Each says what has to hold of what the function may return. -/

section

variable {fails : Failure → Prop}

theorem filealloc_meets {post : Option (Fin nfile) → State nproc nofile nfile npage → Prop}
    (missing : post none state)
    (given : ∀ f, (state.ftable f).ref = 0 →
      post (some f) (state.setFile f { state.ftable f with ref := 1 })) :
    Meets filealloc state fails post := by
  rw [filealloc]
  simp only [meets_bind, meets_get]
  split
  · rename_i f found
    have unused := List.find?_some found
    exact given f (of_decide_eq_true unused)
  · exact missing

theorem filedup_meets {post : Fin nfile → State nproc nofile nfile npage → Prop}
    (isOpen : 0 < (state.ftable f).ref)
    (met : post f (state.setFile f { state.ftable f with ref := (state.ftable f).ref + 1 })) :
    Meets (filedup f) state fails post := by
  rw [filedup]
  simp only [meets_bind, meets_get]
  rw [if_neg (by omega)]
  exact met

theorem fdalloc_meets {post : Option (Fin nofile) → State nproc nofile nfile npage → Prop}
    (missing : post none state)
    (given : ∀ fd, state.ofile p fd = none → post (some fd) (state.setOfile p fd (some f))) :
    Meets (fdalloc p f) state fails post := by
  rw [fdalloc]
  simp only [meets_bind, meets_get]
  split
  · rename_i fd found
    have free := List.find?_some found
    exact given fd (of_decide_eq_true free)
  · exact missing

theorem argfd_meets {post : Option (Fin nofile × Fin nfile) → State nproc nofile nfile npage → Prop}
    {fd : Int} (missing : post none state)
    (given : ∀ fd f, state.ofile p fd = some f → post (some (fd, f)) state) :
    Meets (argfd p fd) state fails post := by
  rw [argfd]
  simp only [meets_bind, meets_get]
  split
  · split
    · rename_i f points
      exact given _ f points
    · exact missing
  · exact missing

theorem close_meets {post : Unit → State nproc nofile nfile npage → Prop}
    (held : Held state (f :: pending))
    (met : Held (state.close f) pending → post () (state.close f)) :
    Meets (fileclose f) state fails post := by
  refine (fileclose_returns held.ends held.ref_pos_of_mem).meets.imp ?_
  intro _ next isClosed
  rw [isClosed]
  exact met held.close

/-! ## Calls -/

theorem Life.not_gone_live : ¬Life.live.Gone := fun gone => gone.elim nofun nofun

theorem Life.not_gone_embryo : ¬Life.embryo.Gone := fun gone => gone.elim nofun nofun

theorem sysDup_meets (held : Held state []) (live : (state.procs p).life = .live) (fd : Int) :
    Meets (sysDup p fd) state fails fun _ next => Held next [] := by
  rw [sysDup, meets_bind]
  refine argfd_meets held fun _ f points => ?_
  dsimp only
  rw [meets_bind]
  refine fdalloc_meets held fun fd free => ?_
  dsimp only
  rw [meets_bind]
  refine filedup_meets ?_ ?_
  · exact held.ref_pos points
  · -- The descriptor is set before the count: in the other order nothing is missing.
    exact (held.refer (f := f) _ rfl).give free (live ▸ Life.not_gone_live)

theorem sysClose_meets (held : Held state []) (fd : Int) :
    Meets (sysClose p fd) state fails fun _ next => Held next [] := by
  rw [sysClose, meets_bind]
  refine argfd_meets held fun fd f points => ?_
  simp only [meets_bind, meets_modify]
  exact close_meets (held.take points) id

theorem sysOpen_meets (held : Held state []) (live : (state.procs p).life = .live)
    (found readable writable : Bool) :
    Meets (sysOpen p found readable writable) state fails fun _ next => Held next [] := by
  rw [sysOpen]
  split
  · rw [meets_bind]
    refine filealloc_meets held fun f unused => ?_
    have fresh := held.refer 1 (by rw [unused])
    dsimp only
    rw [meets_bind]
    refine fdalloc_meets ?_ fun fd free => ?_
    · dsimp only
      rw [meets_bind]
      exact close_meets fresh id
    · have typed : ((state.setFile f { state.ftable f with ref := 1 }).ftable f).type = .none := by
        simpa [State.setFile] using held.idle f unused
      dsimp only
      rw [meets_bind, meets_modify]
      exact (fresh.inode typed readable writable).give free (live ▸ Life.not_gone_live)
  · exact held

/-! ## Pipes -/

theorem Held.swap (held : Held state (f :: g :: pending)) : Held state (g :: f :: pending) :=
  ⟨fun other => (List.Perm.swap f g pending).count_eq other ▸ held.refs other, held.idle,
    held.empty, held.ends⟩

/-- The state in which `pipealloc` returns two open files. -/
def State.pipe (state : State nproc nofile nfile npage) (page : Fin npage) (f0 f1 : Fin nfile) :
    State nproc nofile nfile npage :=
  let state := state.setPipe page (some ⟨true, true⟩)
  let state := state.setFile f0 { state.ftable f0 with
    type := .pipe, readable := true, writable := false, pipe := some page }
  state.setFile f1 { state.ftable f1 with
    type := .pipe, readable := false, writable := true, pipe := some page }

theorem Held.pipe (held : Held state [f, g]) (different : f ≠ g) (free : state.pipes page = none)
    (unused : (state.ftable f).type = .none ∧ (state.ftable g).type = .none) :
    Held (state.pipe page f g) [f, g] := by
  have reader : (state.pipe page f g).ftable f = { state.ftable f with
      type := .pipe, readable := true, writable := false, pipe := some page } := by
    simp [State.pipe, State.setFile, State.setPipe, different]
  have writer : (state.pipe page f g).ftable g = { state.ftable g with
      type := .pipe, readable := false, writable := true, pipe := some page } := by
    simp [State.pipe, State.setFile, State.setPipe, different.symm]
  have others : ∀ other, other ≠ f → other ≠ g →
      (state.pipe page f g).ftable other = state.ftable other := by
    intro other notF notG
    simp [State.pipe, State.setFile, State.setPipe, notF, notG]
  have ref : ∀ other, ((state.pipe page f g).ftable other).ref = (state.ftable other).ref := by
    intro other
    by_cases isF : other = f
    · rw [isF, reader]
    · by_cases isG : other = g
      · rw [isG, writer]
      · rw [others other isF isG]
  refine ⟨?_, ?_, held.empty, ?_⟩
  · intro other
    rw [ref]
    exact held.refs other
  · intro other zero
    rw [ref] at zero
    have notF : other ≠ f := fun same => held.ref_pos_of_mem.ne' (same ▸ zero)
    have notG : other ≠ g := fun same => held.swap.ref_pos_of_mem.ne' (same ▸ zero)
    rw [others other notF notG]
    exact held.idle other zero
  · apply held.ends.create (f := f) (g := g) free
    · rw [reader]
      exact ⟨⟨rfl, rfl, rfl⟩, rfl⟩
    · rw [writer]
      exact ⟨⟨rfl, rfl, rfl⟩, rfl⟩
    · rw [unused.1, unused.2]
      exact ⟨nofun, nofun⟩
    · exact others

theorem pipealloc_meets {page : Option (Fin npage)}
    {post : Option (Fin nfile × Fin nfile) → State nproc nofile nfile npage → Prop}
    (held : Held state []) (free : ∀ found, page = some found → state.pipes found = none)
    (missing : ∀ next, Held next [] → post none next)
    (given : ∀ rf wf next, next.procs = state.procs → Held next [rf, wf] →
      post (some (rf, wf)) next) :
    Meets (pipealloc page) state fails post := by
  rw [pipealloc, meets_bind]
  refine filealloc_meets (missing state held) fun f0 unused0 => ?_
  have one := held.refer 1 (by rw [unused0])
  dsimp only
  rw [meets_bind]
  refine filealloc_meets ?_ fun f1 unused1 => ?_
  · rw [pipeallocBad]
    simp only [meets_bind, meets_pure]
    exact close_meets one (missing _)
  · have two := (one.refer 1 (by rw [unused1])).swap
    cases page with
    | none =>
      dsimp only
      rw [pipeallocBad]
      simp only [meets_bind, meets_pure]
      exact close_meets two fun rest => close_meets rest (missing _)
    | some page =>
      have different : f0 ≠ f1 := by
        intro same
        rw [← same] at unused1
        simp [State.setFile] at unused1
      have isNone0 := held.idle f0 unused0
      have isNone1 := one.idle f1 unused1
      refine given f0 f1 _ rfl (two.pipe different (free page rfl) ⟨?_, ?_⟩)
      · simpa [State.setFile, different] using isNone0
      · simpa [State.setFile] using isNone1

theorem close_both_meets {rf wf : Fin nfile} (held : Held state [rf, wf]) :
    Meets (do fileclose rf; fileclose wf; return (-1 : Int)) state fails fun _ next =>
      Held next [] := by
  simp only [meets_bind]
  exact close_meets held fun rest => close_meets rest id

theorem sysPipe_meets (held : Held state []) (live : (state.procs p).life = .live)
    (valid : Bool) {page : Option (Fin npage)}
    (free : ∀ found, page = some found → state.pipes found = none) :
    Meets (sysPipe p valid page) state fails fun _ next => Held next [] := by
  rw [sysPipe]
  split
  · rw [meets_bind]
    refine pipealloc_meets held free (fun _ closed => closed) fun rf wf next procs two => ?_
    have here : ¬(next.procs p).life.Gone := by
      rw [procs, live]
      exact Life.not_gone_live
    dsimp only
    rw [meets_bind]
    refine fdalloc_meets (close_both_meets two) fun fd0 free0 => ?_
    have one := two.give free0 here
    dsimp only
    rw [meets_bind]
    refine fdalloc_meets ?_ fun fd1 free1 => one.give free1 ?_
    · apply close_both_meets
      apply one.take
      rw [ofile_setOfile, if_pos ⟨rfl, rfl⟩]
    · rw [life_setOfile]
      exact here
  · exact held

/-! ## Processes -/

/-- The loop of `fork`: the descriptors that are left to copy are free in the child. -/
structure Forking (p np : Fin nproc) (left : List (Fin nofile))
    (state : State nproc nofile nfile npage) : Prop where
  held : Held state []
  embryo : (state.procs np).life = .embryo
  different : p ≠ np
  free : ∀ fd ∈ left, state.ofile np fd = none
  nodup : left.Nodup

theorem Forking.copy (forking : Forking p np (fd :: left) state) (f : Fin nfile) :
    Forking p np left ((state.setFile f { state.ftable f with
      ref := (state.ftable f).ref + 1 }).setOfile np fd (some f)) where
  held := (forking.held.refer _ rfl).give (forking.free fd List.mem_cons_self)
    (forking.embryo ▸ Life.not_gone_embryo)
  embryo := by
    rw [life_setOfile]
    exact forking.embryo
  different := forking.different
  free := by
    intro other inside
    have later : other ≠ fd := ne_of_mem_of_not_mem inside (List.nodup_cons.mp forking.nodup).1
    rw [ofile_setOfile, if_neg fun both => later both.2]
    exact forking.free other (List.mem_cons_of_mem _ inside)
  nodup := (List.nodup_cons.mp forking.nodup).2

theorem Forking.skip (forking : Forking p np (fd :: left) state) :
    Forking p np left state :=
  ⟨forking.held, forking.embryo, forking.different,
    fun other inside => forking.free other (List.mem_cons_of_mem _ inside),
    (List.nodup_cons.mp forking.nodup).2⟩

theorem fork_meets (held : Held state []) (live : (state.procs p).life = .live)
    (stack copied : Bool) :
    Meets (fork p stack copied) state fails fun _ next => Held next [] := by
  rw [fork]
  simp only [meets_bind, meets_get]
  split
  · exact held
  · rename_i np found
    have isUnused := List.find?_some found
    have unused : (state.procs np).life = .unused := of_decide_eq_true isUnused
    have empty := held.empty np (Or.inl unused)
    have embryo : Held (state.setLife np .embryo) [] :=
      held.setLife fun gone => absurd gone Life.not_gone_embryo
    simp only [meets_bind, meets_modify]
    split
    · have forking : Forking p np (List.finRange nofile) (state.setLife np .embryo) := by
        refine ⟨embryo, ?_, ?_, ?_, List.nodup_finRange nofile⟩
        · simp [State.setLife]
        · intro same
          rw [same, unused] at live
          cases live
        · intro fd _
          rw [ofile_setLife]
          exact empty fd
      simp only [meets_bind]
      refine Meets.imp (meets_forM _ (Forking p np) ?_ _ _ forking) ?_
      · intro fd left state forking
        simp only [meets_bind, meets_get]
        split
        · rename_i f points
          rw [meets_bind]
          exact filedup_meets (forking.held.ref_pos points) (forking.copy f)
        · exact forking.skip
      · intro _ next done
        exact done.held.setLife fun gone => absurd gone Life.not_gone_live
    · apply embryo.setLife
      intro _ fd
      rw [ofile_setLife]
      exact empty fd

/-- The loop of `exit`: what it has passed is closed. -/
structure Exiting (p : Fin nproc) (left : List (Fin nofile))
    (state : State nproc nofile nfile npage) : Prop where
  held : Held state []
  closed : ∀ fd, fd ∉ left → state.ofile p fd = none

theorem Exiting.pass (exiting : Exiting p (fd :: left) state)
    {next : State nproc nofile nfile npage} (held : Held next []) (closed : next.ofile p fd = none)
    (others : ∀ other, other ≠ fd → next.ofile p other = state.ofile p other) :
    Exiting p left next := by
  refine ⟨held, ?_⟩
  intro other outside
  by_cases same : other = fd
  · rw [same]
    exact closed
  · rw [others other same]
    exact exiting.closed other (List.not_mem_cons_of_ne_of_not_mem same outside)

theorem exit_meets (held : Held state []) :
    Meets (exit p) state (fun failure => failure = .initExiting) fun _ next => Held next [] := by
  rw [exit]
  simp only [meets_bind, meets_get]
  split
  · rfl
  · simp only [meets_bind]
    have exiting : Exiting p (List.finRange nofile) state :=
      ⟨held, fun fd outside => absurd (List.mem_finRange fd) outside⟩
    refine Meets.imp (meets_forM _ (Exiting p) ?_ _ _ exiting) ?_
    · intro fd left state exiting
      simp only [meets_bind, meets_get]
      split
      · rename_i f points
        rw [meets_bind]
        apply Meets.imp
          (fileclose_returns exiting.held.ends (exiting.held.ref_pos points)).meets
        intro _ next isNext
        rw [isNext]
        -- The count goes down before the descriptor: in the other order nothing is missing.
        have closed : Held ((state.close f).setOfile p fd none) [] :=
          (exiting.held.take points).close
        apply exiting.pass closed
        · rw [ofile_setOfile, if_pos ⟨rfl, rfl⟩]
        · intro other different
          rw [ofile_setOfile, if_neg fun both => different both.2]
          rfl
      · rename_i free
        exact exiting.pass exiting.held free fun _ _ => rfl
    · intro _ next done
      exact done.held.setLife fun _ fd => done.closed fd List.not_mem_nil

theorem wait_meets (held : Held state []) (child : Fin nproc) :
    Meets (wait child) state fails fun _ next => Held next [] := by
  rw [wait]
  simp only [meets_bind, meets_get]
  split
  · rename_i zombie
    simp only [meets_bind, meets_modify]
    exact held.setLife fun _ => held.empty child (Or.inr zombie)
  · exact held

end

/-! ## Runs -/

theorem program_meets (held : Held state []) (live : (state.procs p).life = .live)
    (call : Call nproc npage) (possible : call.Possible state) :
    Meets (call.program p) state (fun failure => failure = .initExiting) fun _ next =>
      Held next [] := by
  cases call with
  | «open» found readable writable => exact sysOpen_meets held live found readable writable
  | pipe valid page =>
    apply sysPipe_meets held live valid
    intro found isPage
    rw [isPage] at possible
    exact possible
  | dup fd => exact sysDup_meets held live fd
  | close fd => exact sysClose_meets held fd
  | fork stack copied => exact fork_meets held live stack copied
  | exit => exact exit_meets held
  | wait child => exact wait_meets held child

theorem held_booted (nproc nofile nfile npage : Nat) :
    Held (booted nproc nofile nfile npage) [] where
  refs := by
    intro f
    simp [booted, State.slots, State.ofile]
  idle := fun _ _ => rfl
  empty := fun _ _ _ => rfl
  ends := ⟨nofun, fun _ _ _ _ isEnd => absurd isEnd.1 nofun, nofun, nofun⟩

theorem reachable_held {state : State (nproc + 1) nofile nfile npage}
    (reachable : Reachable step Unrestricted (booted nproc nofile nfile npage) state) :
    Held state [] := by
  apply Reachable.invariant (fun state => Held state []) ?_ (held_booted _ _ _ _) reachable
  intro state action next held _ stepped
  rw [step] at stepped
  split at stepped
  · rename_i enabled
    split at stepped
    · rename_i value next ran
      cases stepped
      exact (program_meets held enabled.1 action.2 enabled.2).of_ok ran
    · cases stepped
  · cases stepped

/-- The open files and the pipes between two calls. A call panics only if the first process
exits. -/
structure Exact (state : State nproc nofile nfile npage) : Prop where
  refs : ∀ f, (state.ftable f).ref = state.slots f
  idle : ∀ f, (state.ftable f).ref = 0 → (state.ftable f).type = .none
  unused : ∀ p, (state.procs p).life = .unused → ∀ fd, state.ofile p fd = none
  allocated : ∀ page, state.pipes page ≠ none ↔
    ∃ f, (state.ftable f).type = .pipe ∧ (state.ftable f).pipe = some page
  readopen : ∀ page pipe, state.pipes page = some pipe → (pipe.readopen = true ↔
    ∃ f, (state.ftable f).type = .pipe ∧ (state.ftable f).pipe = some page ∧
      (state.ftable f).readable = true)
  writeopen : ∀ page pipe, state.pipes page = some pipe → (pipe.writeopen = true ↔
    ∃ f, (state.ftable f).type = .pipe ∧ (state.ftable f).pipe = some page ∧
      (state.ftable f).writable = true)
  calls : ∀ p (call : Call nproc npage), (state.procs p).life = .live → call.Possible state →
    ∀ failure, (call.program p : Kernel nproc nofile nfile npage Int) state = .error failure →
      failure = .initExiting

theorem Held.exact (held : Held state []) : Exact state where
  refs := held.refs
  idle := held.idle
  unused := fun p isUnused => held.empty p (Or.inl isUnused)
  allocated := by
    intro page
    constructor
    · intro isAllocated
      rcases Option.ne_none_iff_exists'.mp isAllocated with ⟨pipe, isPipe⟩
      rcases held.ends.used page pipe isPipe with ⟨writable, isOpen⟩
      rcases (held.ends.isOpen page pipe writable isPipe).mp isOpen with ⟨f, isEnd⟩
      exact ⟨f, isEnd.1, isEnd.2.1⟩
    · intro refers
      rcases refers with ⟨f, isPipe, isPage⟩
      rcases held.ends.page f isPipe with ⟨page', pipe, isPage', isAllocated, _⟩
      rw [isPage] at isPage'
      cases isPage'
      rw [isAllocated]
      exact nofun
  readopen := by
    intro page pipe isAllocated
    have isOpen := held.ends.isOpen page pipe false isAllocated
    constructor
    · intro reads
      rcases isOpen.mp reads with ⟨f, isEnd⟩
      rcases held.ends.page f isEnd.1 with ⟨_, _, _, _, opposite⟩
      rw [isEnd.2.2] at opposite
      exact ⟨f, isEnd.1, isEnd.2.1, opposite⟩
    · intro refers
      rcases refers with ⟨f, isPipe, isPage, readable⟩
      rcases held.ends.page f isPipe with ⟨_, _, _, _, opposite⟩
      rw [readable] at opposite
      exact isOpen.mpr ⟨f, isPipe, isPage, by simpa using opposite.symm⟩
  writeopen := fun page pipe => held.ends.isOpen page pipe true
  calls := by
    intro p call live possible failure failed
    exact (program_meets held live call possible).of_error failed

/-- In every run of calls, whatever fails in them, the reference counts of the open files are
exact, and the pages of pipes are allocated as long as an open file refers to them. -/
theorem files_and_pipes_exact (nproc nofile nfile npage : Nat)
    (state : State (nproc + 1) nofile nfile npage)
    (reachable : Reachable step Unrestricted (booted nproc nofile nfile npage) state) :
    Exact state :=
  (reachable_held reachable).exact

/-- A pipe is made, passed on to a child and closed at one end by its maker; the child exits,
and its slot is used again. -/
def pipeToChild : List (Fin 2 × Call 2 1) :=
  [(0, .pipe true (some 0)), (0, .fork true true), (0, .close 1), (1, .dup 1), (1, .exit),
    (0, .wait 1), (0, .fork true true)]

theorem files_and_pipes_exact_child :
    ∃ state : State 2 3 4 1, Reachable step Unrestricted (booted 1 3 4 1) state ∧
      state.pipes 0 = some ⟨true, false⟩ ∧ (state.ftable 0).ref = 2 ∧ Exact state := by
  rcases exists_reachable step Unrestricted (booted 1 3 4 1) pipeToChild (fun state =>
      state.pipes 0 = some ⟨true, false⟩ ∧ (state.ftable 0).ref = 2) (by decide +kernel) with
    ⟨state, reachable, pipe, ref⟩
  exact ⟨state, reachable, pipe, ref, files_and_pipes_exact 1 3 4 1 state reachable⟩

end Xv6.Files
