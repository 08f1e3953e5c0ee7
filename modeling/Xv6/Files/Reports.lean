import Xv6.Files.Offsets

/-! # What `filewrite` reports

One call of `filewrite` from its start to its return, while nobody else is at the file. The
loop writes in chunks, and a chunk that is refused ends the call with -1, whatever earlier
chunks have left in the file.
-/

namespace Xv6.Offsets

open Transition
open Dir (WRITEMAX)
open Fs (WriteRefused MAXFILE)

variable {nproc : Nat}

/-- Only the chunks of one process. -/
def Continues (p : Fin nproc) (_ : State nproc) : Action nproc → Prop
  | .chunk q _ => q = p
  | _ => False

/-- A write of several chunks, the first of which is accepted while a later one exceeds the
largest size. -/
def Split (file : File) (contents : Contents) (n : Int32) : Prop :=
  file.writable = true ∧ WRITEMAX < n.toInt ∧
    ¬WriteRefused contents.bytes.length file.off.toNat WRITEMAX ∧
    (MAXFILE * BSIZE : Nat) < (file.off.toNat : Int) + n.toInt

/-- The first `i` bytes of the buffer have been transferred, and no others. -/
structure Underway (file : File) (contents : Contents) (addr : Nat → UInt8) (n : Int32) (i : Nat)
    (state : State nproc) : Prop where
  reachable : Reachable step Alone (start nproc file (.contents contents)) state
  within : (i : Int) ≤ n.toInt
  chunked : 0 < i → WRITEMAX ≤ i ∨ i = n.toInt
  bytes : moved state.history = (List.range i).map addr

/-- Why a call has returned -1 after `i` bytes. -/
def Refused (file : File) (n : Int32) (i : Nat) (state : State nproc) : Prop :=
  file.writable = false ∧ i = 0 ∨ file.writable = true ∧ i < n.toInt ∧
    ∀ held, state.inode = .contents held → WriteRefused held.bytes.length state.file.off.toNat
      (min (n.toInt.toNat - i) WRITEMAX)

/-- What is known of a call at each place. -/
def Reported (file : File) (contents : Contents) (addr : Nat → UInt8) (n : Int32)
    (state : State nproc) : Place → Prop
  | .writing addr' n' i => addr' = addr ∧ n' = n ∧ file.writable = true ∧
      Underway file contents addr n i state
  | .returned r => r = n.toInt ∧ Underway file contents addr n n.toInt.toNat state ∨
      r = -1 ∧ ∃ i, Underway file contents addr n i state ∧ Refused file n i state
  | .panicked => True

section

variable {file : File} {contents : Contents} {addr : Nat → UInt8} {n : Int32} {i : Nat}
  {state next : State nproc} {p : Fin nproc}

/-- Where the call is in the file, and what it has left there. -/
theorem Underway.held (underway : Underway file contents addr n i state) :
    state.file.off.toNat = file.off.toNat + i ∧ ∃ held, state.inode = .contents held ∧
      held.bytes.take file.off.toNat = contents.bytes.take file.off.toNat ∧
      held.bytes.drop file.off.toNat =
        (List.range i).map addr ++ contents.bytes.drop (file.off.toNat + i) := by
  have off := (advanced_exact (underway.reachable.weaken fun _ _ _ => trivial)).1.off
  cases laid underway.reachable with
  | intro held isLaid =>
    have after := isLaid.after
    rw [underway.bytes, List.length_map, List.length_range] at off after
    exact ⟨off, held, isLaid.here, isLaid.before, after⟩

/-- Nothing has changed before the first byte. -/
theorem Underway.nothing (underway : Underway file contents addr n 0 state) :
    state.file.off = file.off ∧ state.inode = .contents contents := by
  rcases underway.held with ⟨off, held, here, before, after⟩
  have same : held.bytes = contents.bytes := by
    rw [← List.take_append_drop file.off.toNat held.bytes, before, after]
    exact List.take_append_drop ..
  refine ⟨UInt32.toNat_inj.mp off, here.trans ?_⟩
  cases held
  cases contents
  cases same
  rfl

/-- The bytes that are written are in the file, so there are not too many. -/
theorem Underway.bounded (underway : Underway file contents addr n i state) (some : 0 < i) :
    file.off.toNat + i ≤ MAXFILE * BSIZE := by
  rcases underway.held with ⟨_, held, _, _, after⟩
  have length := congrArg List.length after
  have bound := held.bounded
  simp only [List.length_append, List.length_map, List.length_range, List.length_drop] at length
  omega

/-- A chunk behind the first one is refused only if the write is split. -/
theorem Refused.split (refused : Refused file n i state)
    (underway : Underway file contents addr n i state) (some : 0 < i) : Split file contents n := by
  rcases refused with ⟨_, none⟩ | ⟨writable, more, refused⟩
  · omega
  · have chunked := underway.chunked some
    have bounded := underway.bounded some
    rcases underway.held with ⟨off, held, here, before, after⟩
    have refusedHere := refused held here
    have inside := congrArg List.length after
    have start := congrArg List.length before
    simp only [List.length_append, List.length_map, List.length_range, List.length_drop,
      List.length_take] at inside start
    refine ⟨writable, by omega, ?_, ?_⟩
    · simp only [WriteRefused, MAXFILE, Fs.NDIRECT, Fs.NINDIRECT, BSIZE] at *
      omega
    · simp only [WriteRefused, MAXFILE, Fs.NDIRECT, Fs.NINDIRECT, BSIZE] at *
      omega

theorem Underway.chunk (underway : Underway file contents addr n i state)
    (writable : file.writable = true) (here : state.place p = .writing addr n i)
    {driver : Option Nat} (stepped : step state (.chunk p driver) = some next) :
    Reported file contents addr n next (next.place p) := by
  have reachable : Reachable step Alone (start nproc file (.contents contents)) next :=
    .step (.chunk p driver) underway.reachable trivial stepped
  have within := underway.within
  rw [step, here] at stepped
  by_cases more : (i : Int) < n.toInt
  · have positive : 0 < min (n.toInt.toNat - i) WRITEMAX := by
      have room : 0 < WRITEMAX := by decide
      omega
    have refused : (state.inode.writei (fun index => addr (i + index)) state.file.off
        (min (n.toInt.toNat - i) WRITEMAX) driver).1 < 0 →
        (state.inode.writei (fun index => addr (i + index)) state.file.off
          (min (n.toInt.toNat - i) WRITEMAX) driver).2 = state.inode ∧ Refused file n i state := by
      intro negative
      refine ⟨writei_refused _ _ _ _ positive (by omega), Or.inr ⟨writable, more, fun held isInode =>
        Decidable.byContradiction fun accepted => ?_⟩⟩
      simp only [isInode, Inode.writei, Contents.write, dif_neg accepted] at negative
      omega
    simp only [if_pos more, Option.some.injEq, State.writeChunk] at stepped
    generalize state.inode.writei (fun index => addr (i + index)) state.file.off
      (min (n.toInt.toNat - i) WRITEMAX) driver = result at stepped refused
    split at stepped
    · rename_i negative
      rw [State.advance, if_neg (by omega)] at stepped
      subst stepped
      rw [place_goto_self]
      refine Or.inr ⟨rfl, i, ⟨reachable, within, underway.chunked, underway.bytes⟩, ?_⟩
      rw [(refused negative).1]
      exact (refused negative).2
    · split at stepped
      · subst stepped
        rw [place_goto_self]
        trivial
      · rename_i whole
        have count := not_not.mp whole
        rw [State.advance, if_pos (by omega)] at stepped
        subst stepped
        rw [place_goto_self]
        refine ⟨rfl, rfl, writable, reachable, by omega, by omega, ?_⟩
        rw [range_map_add, ← underway.bytes]
        exact moved_append
  · simp only [if_neg more, Option.some.injEq] at stepped
    subst stepped
    have done : (i : Int) = n.toInt := by omega
    have all : i = n.toInt.toNat := by omega
    rw [if_pos done] at reachable ⊢
    rw [place_goto_self]
    subst all
    exact Or.inl ⟨rfl, reachable, within, underway.chunked, underway.bytes⟩

theorem reported (positive : 0 ≤ n.toInt) {begun : State nproc}
    (called : step (start nproc file (.contents contents)) (.filewrite p addr n) = some begun)
    (reachable : Reachable step (Continues p) begun state) :
    Reported file contents addr n state (state.place p) := by
  refine reachable.invariant (fun state => Reported file contents addr n state (state.place p)) ?_ ?_
  · intro state action next known continues stepped
    cases action with
    | chunk q driver =>
      cases continues
      cases here : state.place p with
      | writing addr' n' i =>
        rw [here] at known
        rcases known with ⟨rfl, rfl, writable, underway⟩
        exact underway.chunk writable here stepped
      | returned r => simp [step, here] at stepped
      | panicked => simp [step, here] at stepped
    | fileread | filewrite | other => exact continues.elim
  · have reached : Reachable step Alone (start nproc file (.contents contents)) begun :=
      .step (.filewrite p addr n) .refl trivial called
    have none : begun.history = [] → Underway file contents addr n 0 begun := fun empty =>
      ⟨reached, positive, fun more => absurd more (by decide), by rw [empty]; rfl⟩
    cases writable : file.writable with
    | false =>
      simp only [step, start, writable, if_true, Option.some.injEq] at called
      subst called
      rw [place_goto_self]
      exact Or.inr ⟨rfl, 0, none rfl, Or.inl ⟨writable, rfl⟩⟩
    | true =>
      simp only [step, start, writable, if_neg (Bool.noConfusion : ¬true = false),
        Option.some.injEq] at called
      subst called
      rw [place_goto_self]
      exact ⟨rfl, rfl, writable, none rfl⟩

end

section

variable {state : State nproc} {p : Fin nproc} {addr : Nat → UInt8} {n : Int32} {i n1 : Nat}
  {held now : Contents} {driver : Option Nat}

theorem writeChunk_accepted (here : state.inode = .contents held)
    (size : min (n.toInt.toNat - i) WRITEMAX = n1) (positive : 0 < n1)
    (written : held.write (fun index => addr (i + index)) state.file.off.toNat n1 = ((n1 : Int), now)) :
    state.writeChunk p addr n i driver = State.goto { state with
      file := { state.file with off := state.file.off + UInt32.ofNat n1 }
      inode := .contents now
      history := state.history ++ [⟨p, .write, state.file.off,
        (List.range n1).map fun index => addr (i + index)⟩] } p (.writing addr n (i + n1)) := by
  simp only [State.writeChunk, Inode.writei, here, size, written]
  simp [State.advance, positive]

theorem writeChunk_refused (here : state.inode = .contents held)
    (size : min (n.toInt.toNat - i) WRITEMAX = n1)
    (written : held.write (fun index => addr (i + index)) state.file.off.toNat n1 = (-1, held)) :
    state.writeChunk p addr n i driver = state.goto p (.returned (-1)) := by
  simp only [State.writeChunk, Inode.writei, here, size, written]
  simp [State.advance, ← here]

/-- The loop ends. -/
theorem exists_returned {k : Nat} (isLeft : n.toInt.toNat - i = k)
    (place : state.place p = .writing addr n i) (here : state.inode = .contents held) :
    ∃ next r, Reachable step (Continues p) state next ∧ next.place p = .returned r := by
  induction k using Nat.strong_induction_on generalizing state i held with
  | _ k induction =>
    by_cases more : (i : Int) < n.toInt
    · have stepped : step state (.chunk p none) = some (state.writeChunk p addr n i none) := by
        rw [step, place]
        exact if_pos more
      by_cases refused : WriteRefused held.bytes.length state.file.off.toNat
          (min (n.toInt.toNat - i) WRITEMAX)
      · have ends := @writeChunk_refused _ state p addr n i _ held none here rfl (dif_pos refused)
        exact ⟨_, -1, .step (.chunk p none) .refl rfl stepped, by rw [ends, place_goto_self]⟩
      · have room : 0 < WRITEMAX := by decide
        have goesOn := @writeChunk_accepted _ state p addr n i _ held _ none here rfl (by omega)
          (dif_neg refused)
        have placed : (state.writeChunk p addr n i none).place p =
            .writing addr n (i + min (n.toInt.toNat - i) WRITEMAX) := by
          rw [goesOn, place_goto_self]
        obtain ⟨now, hereNow⟩ : ∃ now, (state.writeChunk p addr n i none).inode = .contents now :=
          ⟨_, by rw [goesOn]; rfl⟩
        rcases induction _ (by omega) rfl placed hereNow with ⟨next, r, reachable, returned⟩
        exact ⟨next, r, Reachable.trans (.step (.chunk p none) .refl rfl stepped) reachable,
          returned⟩
    · have stepped : step state (.chunk p none) = some (state.goto p
          (.returned (if (i : Int) = n.toInt then n.toInt else -1))) := by
        rw [step, place]
        exact if_neg more
      exact ⟨_, _, .step (.chunk p none) .refl rfl stepped, place_goto_self ..⟩

end

/-- What the result of `filewrite` says. If it is not negative, it is `n`, the offset has
moved by `n`, and the bytes are in the file. Otherwise it is -1, and the offset and the file
are as before. -/
def Faithful (file : File) (contents : Contents) (addr : Nat → UInt8) (n : Int32)
    (state : State nproc) (r : Int) : Prop :=
  (0 ≤ r → r = n.toInt ∧ state.file.off = file.off + n.toUInt32 ∧
    ∃ now, state.inode = .contents now ∧
      now.bytes.take file.off.toNat = contents.bytes.take file.off.toNat ∧
      now.bytes.drop file.off.toNat = (List.range n.toInt.toNat).map addr ++
        contents.bytes.drop (file.off.toNat + n.toInt.toNat)) ∧
  (r < 0 → r = -1 ∧ state.file.off = file.off ∧ state.inode = .contents contents)

/-- `filewrite` reports what it did, whenever it returns, exactly if the write is not split. -/
theorem filewrite_reports_iff (nproc : Nat) (file : File) (contents : Contents) (p : Fin nproc)
    (addr : Nat → UInt8) (n : Int32) (positive : 0 ≤ n.toInt) (begun : State nproc)
    (called : step (start nproc file (.contents contents)) (.filewrite p addr n) = some begun) :
    (∀ state r, Reachable step (Continues p) begun state → state.place p = .returned r →
      Faithful file contents addr n state r) ↔ ¬Split file contents n := by
  refine ⟨fun faithful => ?_, fun whole state r reachable returned => ?_⟩
  · rintro ⟨writable, several, accepted, beyond⟩
    have begins := called
    simp only [step, start, writable, if_neg (Bool.noConfusion : ¬true = false),
      Option.some.injEq] at begins
    have placed : begun.place p = .writing addr n 0 := begins ▸ place_goto_self ..
    have here : begun.inode = .contents contents := begins ▸ rfl
    rcases exists_returned rfl placed here with ⟨state, r, reachable, returned⟩
    have known := reported positive called reachable
    rw [returned] at known
    rcases known with ⟨rfl, underway⟩ | ⟨rfl, i, underway, refused⟩
    · have bounded := underway.bounded (by omega)
      omega
    · have same := ((faithful state (-1) reachable returned).2 (by decide)).2.1
      have off := underway.held.1
      rw [same] at off
      obtain rfl : i = 0 := by omega
      rcases refused with ⟨readOnly, _⟩ | ⟨_, _, refused⟩
      · exact Bool.noConfusion (writable.symm.trans readOnly)
      · have refusedHere := refused contents underway.nothing.2
        rw [same, Nat.min_eq_right (by omega)] at refusedHere
        exact accepted refusedHere
  · have known := reported positive called reachable
    rw [returned] at known
    refine ⟨fun success => ?_, fun failure => ?_⟩
    · rcases known with ⟨rfl, underway⟩ | ⟨rfl, _⟩
      · rcases underway.held with ⟨off, now, here, before, after⟩
        refine ⟨rfl, ?_, now, here, before, after⟩
        have signed : n.toInt = n.toUInt32.toBitVec.toInt := rfl
        rw [BitVec.toInt_eq_toNat_cond, UInt32.toNat_toBitVec] at signed
        have bound := n.toUInt32.toNat_lt
        have small := state.file.off.toNat_lt
        apply UInt32.toNat_inj.mp
        rw [off, UInt32.toNat_add]
        omega
      · exact absurd success (by decide)
    · rcases known with ⟨rfl, _⟩ | ⟨rfl, i, underway, refused⟩
      · omega
      · obtain rfl : i = 0 := Nat.eq_zero_of_not_pos fun some =>
          whole (refused.split underway some)
        exact ⟨rfl, underway.nothing⟩

theorem filewrite_reports_iff_three :
    ∃ begun state, step (start 1 ⟨0, false, true⟩ (.contents eightZeros))
        (.filewrite 0 (fun _ => 99) 3) = some begun ∧
      Reachable step (Continues 0) begun state ∧ state.place 0 = .returned 3 ∧
      state.file.off = 3 := by
  have notSplit : ¬Split ⟨0, false, true⟩ eightZeros 3 := fun split => absurd split.2.1 (by decide)
  refine ⟨_, _, rfl, .step (.chunk 0 none) (.step (.chunk 0 none) .refl rfl rfl) rfl rfl, rfl, ?_⟩
  exact (((filewrite_reports_iff 1 ⟨0, false, true⟩ eightZeros 0 (fun _ => 99) 3 (by decide) _
    rfl).mpr notSplit _ 3 (.step (.chunk 0 none) (.step (.chunk 0 none) .refl rfl rfl) rfl rfl)
      rfl).1 (by decide)).2.1

/-- A file with room for one chunk. -/
def almostFull : Contents :=
  ⟨List.replicate (MAXFILE * BSIZE - WRITEMAX) 0, by simp⟩

/-- One byte more than a chunk is written at the end of the file: the first chunk is
accepted, the second refused. -/
theorem filewrite_fails_after_writing :
    ∃ begun state, step (start 1 ⟨65024, false, true⟩ (.contents almostFull))
        (.filewrite 0 (fun _ => 1) 6657) = some begun ∧
      Reachable step (Continues 0) begun state ∧ state.place 0 = .returned (-1) ∧
      state.file.off = 71680 ∧ state.inode ≠ .contents almostFull := by
  have accepted : ¬WriteRefused almostFull.bytes.length 65024 6656 := by
    rw [almostFull, List.length_replicate]
    decide
  obtain ⟨held, written, length⟩ : ∃ held : Contents,
      almostFull.write (fun _ => 1) 65024 6656 = (6656, held) ∧ held.bytes.length = 71680 := by
    rw [Contents.write, dif_neg accepted]
    refine ⟨_, rfl, ?_⟩
    rw [Fs.length_overlay, almostFull, List.length_replicate]
    decide
  have again : held.write (fun _ => 1) 71680 1 = (-1, held) := by
    rw [Contents.write, dif_pos]
    rw [length]
    decide
  have first := @writeChunk_accepted 1 ((start 1 ⟨65024, false, true⟩ (.contents almostFull)).goto 0
    (.writing (fun _ => 1) 6657 0)) 0 (fun _ => 1) 6657 0 6656 almostFull held none rfl (by decide)
    (by decide) written
  have second := fun middle here => @writeChunk_refused 1 middle 0 (fun _ => 1) 6657 6656 1 held none
    here (by decide)
  refine ⟨_, _, rfl, .step (.chunk 0 none) (.step (.chunk 0 none) .refl rfl (congrArg some first))
    rfl (congrArg some (second _ rfl again)), rfl, rfl, fun same => ?_⟩
  have size := congrArg List.length (congrArg Contents.bytes (Inode.contents.inj same))
  rw [length, almostFull, List.length_replicate] at size
  exact absurd size (by decide)

end Xv6.Offsets
