import Xv6.Files.Machine

/-! # Lifetimes of open files and pipes

The references to an open file are the descriptors that point to it and those that the call
in progress holds. A pipe has at most one open file for each of its ends, and its page is
allocated as long as there is one.
-/

namespace Xv6.Files

open Transition
open Function (update update_self update_of_ne update_apply)

variable {nproc nofile nfile npage : Nat}

variable {pipes : Fin npage → Option Pipe} {ftable : Fin nfile → File npage}

/-! ## The invariant -/

/-- The number of descriptors that point to an open file. -/
def State.slots (state : State nproc nofile nfile npage) (f : Fin nfile) : Nat :=
  (Finset.univ.filter fun slot : Fin nproc × Fin nofile =>
    state.ofile slot.1 slot.2 = some f).card

/-- An open file is one of the ends of a pipe. -/
def File.IsEnd (file : File npage) (page : Fin npage) (writable : Bool) : Prop :=
  file.type = .pipe ∧ file.pipe = some page ∧ file.writable = writable

def Pipe.isOpen (pipe : Pipe) (writable : Bool) : Bool :=
  if writable then pipe.writeopen else pipe.readopen

structure Ends (ftable : Fin nfile → File npage) (pipes : Fin npage → Option Pipe) : Prop where
  page : ∀ f, (ftable f).type = .pipe → ∃ page pipe, (ftable f).pipe = some page ∧
    pipes page = some pipe ∧ (ftable f).readable = !(ftable f).writable
  unique : ∀ f g page writable, (ftable f).IsEnd page writable → (ftable g).IsEnd page writable →
    f = g
  isOpen : ∀ page pipe writable, pipes page = some pipe →
    (pipe.isOpen writable = true ↔ ∃ f, (ftable f).IsEnd page writable)
  used : ∀ page pipe, pipes page = some pipe → ∃ writable, pipe.isOpen writable = true

def Life.Gone (life : Life) : Prop := life = .unused ∨ life = .zombie

/-- The tables while a call holds the pending references. Between calls nothing is
pending. -/
structure Held (state : State nproc nofile nfile npage) (pending : List (Fin nfile)) : Prop where
  refs : ∀ f, (state.ftable f).ref = state.slots f + pending.count f
  idle : ∀ f, (state.ftable f).ref = 0 → (state.ftable f).type = .none
  empty : ∀ p, (state.procs p).life.Gone → ∀ fd, state.ofile p fd = none
  ends : Ends state.ftable state.pipes

section

variable {state : State nproc nofile nfile npage} {pending : List (Fin nfile)} {f g : Fin nfile}
  {p q : Fin nproc} {fd : Fin nofile} {page : Fin npage}

/-! ## Descriptors -/

theorem ofile_setOfile (state : State nproc nofile nfile npage) (p q : Fin nproc)
    (fd other : Fin nofile) (file : Option (Fin nfile)) :
    (state.setOfile p fd file).ofile q other =
      if q = p ∧ other = fd then file else state.ofile q other := by
  simp only [State.ofile, State.setOfile, update_apply]
  by_cases isP : q = p
  · by_cases isFd : other = fd
    · simp [isP, isFd]
    · simp [isP, isFd]
  · simp [isP]

theorem life_setOfile (state : State nproc nofile nfile npage) (p q : Fin nproc)
    (fd : Fin nofile) (file : Option (Fin nfile)) :
    ((state.setOfile p fd file).procs q).life = (state.procs q).life := by
  simp only [State.setOfile, update_apply]
  split
  · rename_i same
    rw [same]
  · rfl

theorem slots_eq_sum (state : State nproc nofile nfile npage) (f : Fin nfile) :
    state.slots f =
      ∑ slot : Fin nproc × Fin nofile, if state.ofile slot.1 slot.2 = some f then 1 else 0 :=
  Finset.card_filter ..

theorem slots_setOfile (state : State nproc nofile nfile npage) (p : Fin nproc)
    (fd : Fin nofile) (file : Option (Fin nfile)) (f : Fin nfile) :
    (state.setOfile p fd file).slots f + (if state.ofile p fd = some f then 1 else 0) =
      state.slots f + if file = some f then 1 else 0 := by
  have others : ∀ slot : Fin nproc × Fin nofile, slot ∈ Finset.univ → slot ≠ (p, fd) →
      (if (state.setOfile p fd file).ofile slot.1 slot.2 = some f then 1 else 0) =
        if state.ofile slot.1 slot.2 = some f then 1 else 0 := by
    intro slot _ different
    have elsewhere : ¬(slot.1 = p ∧ slot.2 = fd) := fun both =>
      different (Prod.ext both.1 both.2)
    rw [ofile_setOfile, if_neg elsewhere]
  have change := sum_change (Finset.mem_univ (p, fd)) others
  rw [slots_eq_sum, slots_eq_sum]
  simpa [ofile_setOfile] using change

theorem slots_congr {other : State nproc nofile nfile npage}
    (same : ∀ p fd, other.ofile p fd = state.ofile p fd) (f : Fin nfile) :
    other.slots f = state.slots f := by
  simp only [State.slots, same]

theorem slots_pos (points : state.ofile p fd = some f) : 0 < state.slots f :=
  Finset.card_pos.mpr ⟨(p, fd), Finset.mem_filter.mpr ⟨Finset.mem_univ _, points⟩⟩

theorem Held.ref_pos (held : Held state pending) (points : state.ofile p fd = some f) :
    0 < (state.ftable f).ref := by
  rw [held.refs]
  exact Nat.add_pos_left (slots_pos points) _

theorem Held.setOfile (held : Held state pending) {left : List (Fin nfile)}
    {file : Option (Fin nfile)}
    (refs : ∀ g, left.count g + (if file = some g then 1 else 0) =
      pending.count g + if state.ofile p fd = some g then 1 else 0)
    (here : (state.procs p).life.Gone → file = none) :
    Held (state.setOfile p fd file) left where
  refs := by
    intro g
    have change := slots_setOfile state p fd file g
    have before := held.refs g
    have exchanged := refs g
    have kept : ((state.setOfile p fd file).ftable g).ref = (state.ftable g).ref := rfl
    omega
  idle := held.idle
  empty := by
    intro q gone other
    rw [life_setOfile] at gone
    rw [ofile_setOfile]
    split
    · rename_i same
      exact here (same.1 ▸ gone)
    · exact held.empty q gone other
  ends := held.ends

theorem Held.give (held : Held state (f :: pending)) (free : state.ofile p fd = none)
    (here : ¬(state.procs p).life.Gone) : Held (state.setOfile p fd (some f)) pending := by
  refine held.setOfile ?_ fun gone => absurd gone here
  intro g
  simp [free, List.count_cons]

theorem Held.take (held : Held state pending) (points : state.ofile p fd = some f) :
    Held (state.setOfile p fd none) (f :: pending) := by
  refine held.setOfile ?_ fun _ => rfl
  intro g
  simp [points, List.count_cons]

theorem ofile_setLife (state : State nproc nofile nfile npage) (p q : Fin nproc) (life : Life)
    (fd : Fin nofile) : (state.setLife p life).ofile q fd = state.ofile q fd := by
  simp only [State.ofile, State.setLife, update_apply]
  split
  · rename_i same
    rw [same]
  · rfl

theorem Held.setLife (held : Held state pending) {life : Life}
    (empty : life.Gone → ∀ fd, state.ofile p fd = none) : Held (state.setLife p life) pending := by
  refine ⟨?_, held.idle, ?_, held.ends⟩
  · intro f
    rw [slots_congr fun q fd => ofile_setLife state p q life fd]
    exact held.refs f
  · intro q gone fd
    rw [ofile_setLife]
    by_cases isP : q = p
    · subst isP
      simp only [State.setLife, update_self] at gone
      exact empty gone fd
    · simp only [State.setLife, update_of_ne isP] at gone
      exact held.empty q gone fd

/-! ## Ends of pipes -/

theorem Ends.keep {before after : Fin nfile → File npage} (ends : Ends before pipes)
    (same : ∀ f, (after f).type = .pipe ∨ (before f).type = .pipe →
      ∃ ref, after f = { before f with ref := ref }) :
    Ends after pipes := by
  have isEnd : ∀ f page writable,
      (after f).IsEnd page writable ↔ (before f).IsEnd page writable := by
    intro f page writable
    constructor
    · intro isEnd
      rcases same f (Or.inl isEnd.1) with ⟨ref, isAfter⟩
      rw [isAfter] at isEnd
      exact isEnd
    · intro isEnd
      rcases same f (Or.inr isEnd.1) with ⟨ref, isAfter⟩
      rw [isAfter]
      exact isEnd
  constructor
  · intro f isPipe
    rcases same f (Or.inl isPipe) with ⟨ref, isAfter⟩
    rw [isAfter] at isPipe ⊢
    exact ends.page f isPipe
  · intro f g page writable first second
    rw [isEnd] at first second
    exact ends.unique f g page writable first second
  · intro page pipe writable allocated
    rw [ends.isOpen page pipe writable allocated]
    simp only [isEnd]
  · exact ends.used

/-- One open file changes, and if it was or is the end of a pipe, only in its count. -/
theorem Ends.setFile (ends : Ends ftable pipes) {file : File npage}
    (same : file.type = .pipe ∨ (ftable f).type = .pipe →
      ∃ ref, file = { ftable f with ref := ref }) : Ends (update ftable f file) pipes :=
  ends.keep ((Function.forall_update_iff _ fun g (file : File npage) =>
    file.type = .pipe ∨ (ftable g).type = .pipe → ∃ ref, file = { ftable g with ref := ref }).mpr
    ⟨same, fun g _ _ => ⟨(ftable g).ref, rfl⟩⟩)

/-- A page that is not allocated has no ends. -/
theorem Ends.not_isEnd (ends : Ends ftable pipes) (free : pipes page = none) (writable : Bool) :
    ¬(ftable f).IsEnd page writable := by
  intro isEnd
  rcases ends.page f isEnd.1 with ⟨other, pipe, isPage, allocated, _⟩
  rw [isEnd.2.1] at isPage
  cases isPage
  rw [free] at allocated
  cases allocated

theorem Ends.create (ends : Ends ftable pipes) (free : pipes page = none)
    {after : Fin nfile → File npage}
    (reader : (after f).IsEnd page false ∧ (after f).readable = true)
    (writer : (after g).IsEnd page true ∧ (after g).readable = false)
    (notPipe : (ftable f).type ≠ .pipe ∧ (ftable g).type ≠ .pipe)
    (others : ∀ other, other ≠ f → other ≠ g → after other = ftable other) :
    Ends after (update pipes page (some ⟨true, true⟩)) := by
  have isEnd : ∀ other, other ≠ f → other ≠ g → ∀ writable, ¬(after other).IsEnd page writable := by
    intro other notF notG writable
    rw [others other notF notG]
    exact ends.not_isEnd free writable
  have elsewhere : ∀ other page' writable, page' ≠ page →
      ((after other).IsEnd page' writable ↔ (ftable other).IsEnd page' writable) := by
    intro other page' writable different
    have notEnd : ∀ end', (after end').pipe = some page → (ftable end').type ≠ .pipe →
        ((after end').IsEnd page' writable ↔ (ftable end').IsEnd page' writable) := by
      intro end' isPage wasNot
      constructor
      · intro isEnd
        rw [isEnd.2.1] at isPage
        exact absurd (Option.some.inj isPage) different
      · intro wasEnd
        exact absurd wasEnd.1 wasNot
    by_cases isF : other = f
    · subst isF
      exact notEnd other reader.1.2.1 notPipe.1
    · by_cases isG : other = g
      · subst isG
        exact notEnd other writer.1.2.1 notPipe.2
      · rw [others other isF isG]
  constructor
  · intro other isPipe
    by_cases isF : other = f
    · subst isF
      exact ⟨page, ⟨true, true⟩, reader.1.2.1, update_self .., by
        rw [reader.2, reader.1.2.2]; rfl⟩
    · by_cases isG : other = g
      · subst isG
        exact ⟨page, ⟨true, true⟩, writer.1.2.1, update_self .., by
          rw [writer.2, writer.1.2.2]; rfl⟩
      · rw [others other isF isG] at isPipe ⊢
        rcases ends.page other isPipe with ⟨page', pipe, isPage, allocated, opposite⟩
        have different : page' ≠ page := by
          intro same
          rw [same, free] at allocated
          cases allocated
        exact ⟨page', pipe, isPage, by rw [update_of_ne different]; exact allocated,
          opposite⟩
  · intro first second page' writable isFirst isSecond
    by_cases isPage : page' = page
    · subst isPage
      -- The only ends of the new pipe are the two files, which differ in `writable`.
      have known : ∀ other, (after other).IsEnd page' writable →
          other = if writable then g else f := by
        intro other isOther
        by_cases isF : other = f
        · subst isF
          rw [← isOther.2.2, reader.1.2.2]
          rfl
        · by_cases isG : other = g
          · subst isG
            rw [← isOther.2.2, writer.1.2.2]
            rfl
          · exact absurd isOther (isEnd other isF isG writable)
      rw [known first isFirst, known second isSecond]
    · rw [elsewhere _ _ _ isPage] at isFirst isSecond
      exact ends.unique first second page' writable isFirst isSecond
  · intro page' pipe writable allocated
    by_cases isPage : page' = page
    · subst isPage
      rw [update_self] at allocated
      cases allocated
      cases writable with
      | true => exact ⟨fun _ => ⟨g, writer.1⟩, fun _ => rfl⟩
      | false => exact ⟨fun _ => ⟨f, reader.1⟩, fun _ => rfl⟩
    · rw [update_of_ne isPage] at allocated
      rw [ends.isOpen page' pipe writable allocated]
      simp only [elsewhere _ _ _ isPage]
  · intro page' pipe allocated
    by_cases isPage : page' = page
    · subst isPage
      rw [update_self] at allocated
      cases allocated
      exact ⟨true, rfl⟩
    · rw [update_of_ne isPage] at allocated
      exact ends.used page' pipe allocated

/-! ## Closing -/

def Pipe.shut (pipe : Pipe) (writable : Bool) : Pipe :=
  if writable then { pipe with writeopen := false } else { pipe with readopen := false }

/-- The pipe after one of its ends has been closed, as long as the other one is open. -/
def Pipe.close (pipe : Pipe) (writable : Bool) : Option Pipe :=
  if pipe.isOpen (!writable) then some (pipe.shut writable) else none

theorem Pipe.isOpen_shut (pipe : Pipe) (writable other : Bool) :
    (pipe.shut writable).isOpen other = (pipe.isOpen other && other != writable) := by
  cases writable with
  | true => cases other with
    | true => simp [shut, isOpen]
    | false => simp [shut, isOpen]
  | false => cases other with
    | true => simp [shut, isOpen]
    | false => simp [shut, isOpen]

theorem Pipe.close_eq_some {pipe closed : Pipe} {writable : Bool} :
    pipe.close writable = some closed ↔
      pipe.isOpen (!writable) = true ∧ pipe.shut writable = closed := by
  rw [close, Option.ite_none_right_eq_some, Option.some.injEq]

theorem Ends.close (ends : Ends ftable pipes) {pipe : Pipe} {writable : Bool} {file : File npage}
    (isEnd : (ftable f).IsEnd page writable) (allocated : pipes page = some pipe)
    (closed : file.type ≠ .pipe) :
    Ends (update ftable f file) (update pipes page (pipe.close writable)) := by
  have after : ∀ other page' writable',
      (update ftable f file other).IsEnd page' writable' ↔
        other ≠ f ∧ (ftable other).IsEnd page' writable' := by
    intro other page' writable'
    by_cases isF : other = f
    · subst isF
      rw [update_self]
      exact ⟨fun isEnd => absurd isEnd.1 closed, fun both => absurd rfl both.1⟩
    · rw [update_of_ne isF]
      exact ⟨fun isEnd => ⟨isF, isEnd⟩, And.right⟩
  have remains : ∀ other writable', other ≠ f → (ftable other).IsEnd page writable' →
      writable' = !writable ∧ pipe.isOpen (!writable) = true := by
    intro other writable' isF isOther
    have opposite : writable' = !writable := by
      apply Bool.eq_not.mpr
      intro same
      rw [same] at isOther
      exact isF (ends.unique other f page writable isOther isEnd)
    refine ⟨opposite, ?_⟩
    rw [ends.isOpen page pipe (!writable) allocated]
    exact ⟨other, opposite ▸ isOther⟩
  constructor
  · intro other isPipe
    have isF : other ≠ f := by
      intro same
      rw [same, update_self] at isPipe
      exact closed isPipe
    rw [update_of_ne isF] at isPipe ⊢
    rcases ends.page other isPipe with ⟨page', pipe', isPage, isAllocated, opposite⟩
    by_cases same : page' = page
    · subst same
      have stillOpen := (remains other _ isF ⟨isPipe, isPage, rfl⟩).2
      refine ⟨page', pipe.shut writable, isPage, ?_, opposite⟩
      rw [update_self, Pipe.close_eq_some]
      exact ⟨stillOpen, rfl⟩
    · exact ⟨page', pipe', isPage, by rw [update_of_ne same]; exact isAllocated, opposite⟩
  · intro first second page' writable' isFirst isSecond
    exact ends.unique first second page' writable' ((after ..).mp isFirst).2
      ((after ..).mp isSecond).2
  · intro page' pipe' writable' isAllocated
    simp only [after]
    by_cases same : page' = page
    · subst same
      rw [update_self, Pipe.close_eq_some] at isAllocated
      rw [← isAllocated.2, Pipe.isOpen_shut, Bool.and_eq_true, bne_iff_ne,
        ends.isOpen page' pipe writable' allocated]
      constructor
      · intro both
        rcases both with ⟨⟨other, isOther⟩, different⟩
        refine ⟨other, ?_, isOther⟩
        intro isF
        rw [isF] at isOther
        exact different (isOther.2.2.symm.trans isEnd.2.2)
      · intro exists'
        rcases exists' with ⟨other, isF, isOther⟩
        refine ⟨⟨other, isOther⟩, ?_⟩
        exact Bool.eq_not.mp (remains other writable' isF isOther).1
    · rw [update_of_ne same] at isAllocated
      rw [ends.isOpen page' pipe' writable' isAllocated]
      constructor
      · intro exists'
        rcases exists' with ⟨other, isOther⟩
        refine ⟨other, ?_, isOther⟩
        intro isF
        rw [isF] at isOther
        exact same (Option.some.inj (isOther.2.1.symm.trans isEnd.2.1))
      · intro exists'
        rcases exists' with ⟨other, _, isOther⟩
        exact ⟨other, isOther⟩
  · intro page' pipe' isAllocated
    by_cases same : page' = page
    · subst same
      rw [update_self, Pipe.close_eq_some] at isAllocated
      refine ⟨!writable, ?_⟩
      rw [← isAllocated.2, Pipe.isOpen_shut, isAllocated.1]
      simp
    · rw [update_of_ne same] at isAllocated
      exact ends.used page' pipe' isAllocated

end

end Xv6.Files
