import Xv6.Bio.References

/-! # One buffer for a block, with its latest contents -/

namespace Xv6.Bio

open Function (update update_self update_of_ne update_apply)

variable {Process : Type} {state : State Process} {action : Action Process}

/-- What is recorded of a run: the bytes last stored in every block, and when each buffer was
last released. -/
structure History where
  latest : UInt32 → UInt32 → Block
  clock : Nat
  released : Fin NBUF → Nat

/-- Before anything is stored a block has the contents of the disk. -/
def History.start (disk : UInt32 → UInt32 → Block) : History where
  latest := disk
  clock := 0
  released := fun _ => 0

def record (state : State Process) (action : Action Process) (_ : State Process)
    (history : History) : History :=
  match action with
  | .logWrite _ b data | .bwrite _ b data =>
      { history with
        latest := put history.latest (state.bufs b).dev (state.bufs b).blockno data }
  | .drop p =>
      match state.control p with
      | .releasing b =>
          { history with
            clock := history.clock + 1
            released := update history.released b (history.clock + 1) }
      | _ => history
  | _ => history

/-- Device 0 is the one that unused buffers carry from the start, and is not asked for. -/
def Requested (_ : State Process) : Action Process → Prop
  | .bget _ dev _ => dev ≠ 0
  | _ => True

instance (state : State Process) (action : Action Process) :
    Decidable (Requested state action) := by
  unfold Requested
  split
  · infer_instance
  · infer_instance

/-! ## One buffer for a block -/

/-- Only buffers that have been asked for are valid, and only valid ones are dirty. -/
structure Distinct (bufs : Fin NBUF → Buf) : Prop where
  unique : ∀ b c, (bufs b).dev ≠ 0 → (bufs b).dev = (bufs c).dev →
    (bufs b).blockno = (bufs c).blockno → b = c
  named : ∀ b, (bufs b).valid = true → (bufs b).dev ≠ 0
  dirty : ∀ b, (bufs b).dirty = true → (bufs b).valid = true

section

variable {bufs : Fin NBUF → Buf} {b : Fin NBUF} {buf : Buf}

theorem Distinct.change (distinct : Distinct bufs)
    (carries : buf.Carries (bufs b).dev (bufs b).blockno)
    (named : buf.valid = true → (bufs b).dev ≠ 0)
    (dirty : buf.dirty = true → buf.valid = true) : Distinct (update bufs b buf) := by
  rcases distinct with ⟨unique, wasNamed, wasDirty⟩
  constructor
  all_goals grind [update_apply, Buf.Carries]

theorem Distinct.recycle (distinct : Distinct bufs) {dev blockno : UInt32}
    (missing : ∀ c, ¬(bufs c).Carries dev blockno) (carries : buf.Carries dev blockno)
    (invalid : buf.valid = false) (clean : buf.dirty = false) :
    Distinct (update bufs b buf) := by
  rcases distinct with ⟨unique, named, dirty⟩
  constructor
  all_goals grind [update_apply, Buf.Carries]

end

/-! ## The latest contents -/

/-- What the buffers and the disk hold. -/
structure Contents (bufs : Fin NBUF → Buf) (disk latest : UInt32 → UInt32 → Block) : Prop where
  cached : ∀ b, (bufs b).valid = true → (bufs b).data = latest (bufs b).dev (bufs b).blockno
  clean : ∀ b, (bufs b).valid = true → (bufs b).dirty = false →
    disk (bufs b).dev (bufs b).blockno = latest (bufs b).dev (bufs b).blockno
  uncached : ∀ dev blockno, (∀ b, (bufs b).valid = true → ¬(bufs b).Carries dev blockno) →
    disk dev blockno = latest dev blockno

section

variable {bufs : Fin NBUF → Buf} {b : Fin NBUF} {buf : Buf}
  {disk latest : UInt32 → UInt32 → Block}

section

variable (contents : Contents bufs disk latest)
include contents

theorem Contents.congr {after : Fin NBUF → Buf}
    (same : ∀ c, ∃ refcnt, after c = { bufs c with refcnt := refcnt }) :
    Contents after disk latest := by
  constructor
  · intro c isValid
    rcases same c with ⟨refcnt, isAfter⟩
    rw [isAfter] at isValid ⊢
    exact contents.cached c isValid
  · intro c isValid isClean
    rcases same c with ⟨refcnt, isAfter⟩
    rw [isAfter] at isValid isClean ⊢
    exact contents.clean c isValid isClean
  · intro dev blockno missing
    apply contents.uncached
    intro c
    rcases same c with ⟨refcnt, isAfter⟩
    have notHere := missing c
    rw [isAfter] at notHere
    exact notHere

/-- The holder of a buffer stores new bytes, which go to the disk or are marked dirty. -/
theorem Contents.store (distinct : Distinct bufs)
    (carries : buf.Carries (bufs b).dev (bufs b).blockno) (valid : buf.valid = true)
    {after : UInt32 → UInt32 → Block} (elsewhere : ∀ dev blockno, ¬(bufs b).Carries dev blockno →
      after dev blockno = disk dev blockno)
    (synced : buf.dirty = false → after (bufs b).dev (bufs b).blockno = buf.data) :
    Contents (update bufs b buf) after
      (put latest (bufs b).dev (bufs b).blockno buf.data) := by
  have apart : ∀ c, c ≠ b → (bufs c).valid = true →
      ¬((bufs c).dev = (bufs b).dev ∧ (bufs c).blockno = (bufs b).blockno) :=
    fun c different isValid same =>
      different (distinct.unique c b (distinct.named c isValid) same.1 same.2)
  constructor
  · intro c isValid
    by_cases same : c = b
    · rw [same, update_self, carries.1, carries.2, put_self]
    · rw [update_of_ne same] at isValid ⊢
      rw [put_of_ne _ (apart c same isValid)]
      exact contents.cached c isValid
  · intro c isValid isClean
    by_cases same : c = b
    · rw [same, update_self] at isClean ⊢
      rw [carries.1, carries.2, put_self]
      exact synced isClean
    · rw [update_of_ne same] at isValid isClean ⊢
      have different := apart c same isValid
      rw [put_of_ne _ different, elsewhere]
      · exact contents.clean c isValid isClean
      · exact fun both => different ⟨both.1.symm, both.2.symm⟩
  · intro dev blockno missing
    have notHere : ¬(dev = (bufs b).dev ∧ blockno = (bufs b).blockno) := by
      intro here
      apply missing b
      · rw [update_self]
        exact valid
      · rw [update_self]
        exact ⟨carries.1.trans here.1.symm, carries.2.trans here.2.symm⟩
    rw [put_of_ne _ notHere, elsewhere]
    · apply contents.uncached
      intro c isValid carriesIt
      by_cases same : c = b
      · rw [same] at carriesIt
        exact notHere ⟨carriesIt.1.symm, carriesIt.2.symm⟩
      · apply missing c
        · rw [update_of_ne same]
          exact isValid
        · rw [update_of_ne same]
          exact carriesIt
    · exact fun both => notHere ⟨both.1.symm, both.2.symm⟩

theorem Contents.load (distinct : Distinct bufs) (named : (bufs b).dev ≠ 0)
    (invalid : (bufs b).valid = false) (carries : buf.Carries (bufs b).dev (bufs b).blockno)
    (read : buf.data = disk (bufs b).dev (bufs b).blockno) :
    Contents (update bufs b buf) disk latest := by
  have current : disk (bufs b).dev (bufs b).blockno = latest (bufs b).dev (bufs b).blockno := by
    apply contents.uncached
    intro c isValid isSame
    rw [distinct.unique b c named isSame.1.symm isSame.2.symm, isValid] at invalid
    cases invalid
  constructor
  · intro c isValid
    by_cases same : c = b
    · rw [same, update_self, carries.1, carries.2, read]
      exact current
    · rw [update_of_ne same] at isValid ⊢
      exact contents.cached c isValid
  · intro c isValid isClean
    by_cases same : c = b
    · rw [same, update_self, carries.1, carries.2]
      exact current
    · rw [update_of_ne same] at isValid isClean ⊢
      exact contents.clean c isValid isClean
  · intro dev blockno missing
    apply contents.uncached
    intro c isValid carriesIt
    by_cases same : c = b
    · rw [same, invalid] at isValid
      cases isValid
    · apply missing c
      · rw [update_of_ne same]
        exact isValid
      · rw [update_of_ne same]
        exact carriesIt

/-- A clean buffer is given up. The block it leaves has its latest contents on disk. -/
theorem Contents.recycle (clean : (bufs b).dirty = false) (invalid : buf.valid = false) :
    Contents (update bufs b buf) disk latest := by
  constructor
  · intro c isValid
    by_cases same : c = b
    · rw [same, update_self, invalid] at isValid
      cases isValid
    · rw [update_of_ne same] at isValid ⊢
      exact contents.cached c isValid
  · intro c isValid isClean
    by_cases same : c = b
    · rw [same, update_self, invalid] at isValid
      cases isValid
    · rw [update_of_ne same] at isValid isClean ⊢
      exact contents.clean c isValid isClean
  · intro dev blockno missing
    by_cases leaves : (bufs b).valid = true ∧ (bufs b).Carries dev blockno
    · rw [← leaves.2.1, ← leaves.2.2]
      exact contents.clean b leaves.1 clean
    · apply contents.uncached
      intro c isValid carriesIt
      by_cases same : c = b
      · rw [same] at isValid carriesIt
        exact leaves ⟨isValid, carriesIt⟩
      · apply missing c
        · rw [update_of_ne same]
          exact isValid
        · rw [update_of_ne same]
          exact carriesIt

end

end

end Xv6.Bio
