import Xv6.Bio.Coherence

/-! # Every run of the cache -/

namespace Xv6.Bio

open Transition State
open Function (update update_self update_of_ne update_apply forall_update_iff)

variable {Process : Type} [DecidableEq Process] {state next : State Process}
  {action : Action Process} {history : History} {order : List (Fin NBUF)}

variable {blockno : UInt32} {b : Fin NBUF} {p : Process}

/-! ## The buffers that processes use -/

/-- A process has the buffer of the block it has asked for. A buffer that is locked is valid,
or its holder is about to read it. -/
structure Using (bufs : Fin NBUF → Buf) (locks : Fin NBUF → Option Process)
    (control : Process → Control) : Prop where
  asked : ∀ p dev blockno b,
    control p = .waiting dev blockno b ∨ control p = .locked dev blockno b →
      dev ≠ 0 ∧ (bufs b).Carries dev blockno
  mine : ∀ p dev blockno b, control p = .locked dev blockno b → locks b = some p
  filled : ∀ p b, locks b = some p → (bufs b).valid = true ∨
    ∃ dev blockno, control p = .locked dev blockno b

section

variable {bufs : Fin NBUF → Buf} {locks locks' : Fin NBUF → Option Process}
  {control : Process → Control} {p : Process} {point : Control} {b : Fin NBUF} {buf : Buf}

theorem Using.move (uses : Using bufs locks control)
    (others : ∀ q c, q ≠ p → (locks' c = some q ↔ locks c = some q))
    (asked : ∀ dev blockno c, point = .waiting dev blockno c ∨ point = .locked dev blockno c →
      dev ≠ 0 ∧ (bufs c).Carries dev blockno)
    (mine : ∀ dev blockno c, point = .locked dev blockno c → locks' c = some p)
    (filled : ∀ c, locks' c = some p → (bufs c).valid = true ∨
      ∃ dev blockno, point = .locked dev blockno c) :
    Using bufs locks' (update control p point) := by
  rcases uses with ⟨wasAsked, wasMine, wasFilled⟩
  constructor
  · grind [update_apply]
  · grind [update_apply]
  · intro q c holds
    by_cases same : q = p
    · grind [update_apply]
    · rw [update_of_ne same]
      exact wasFilled q c ((others q c same).mp holds)

/-- The section of `bget` returns a buffer. -/
theorem Using.ask (uses : Using bufs locks control) (idle : control p = .idle) {dev : UInt32}
    (named : dev ≠ 0) (carries : (bufs b).Carries dev blockno) :
    Using bufs locks (update control p (.waiting dev blockno b)) := by
  have filled := uses.filled
  apply uses.move
  all_goals grind

theorem Using.acquire (uses : Using bufs locks control) {dev : UInt32}
    (waiting : control p = .waiting dev blockno b) (free : locks b = none) :
    Using bufs (update locks b (some p))
      (update control p (.locked dev blockno b)) := by
  rcases uses with ⟨asked, mine, filled⟩
  apply Using.move ⟨asked, mine, filled⟩
  all_goals grind [update_apply]

theorem Using.settle (uses : Using bufs locks control) (others : ∀ q c, q ≠ p →
      (locks' c = some q ↔ locks c = some q))
    (quiet : point = .idle ∨ point = .releasing b)
    (filled : ∀ c, locks' c = some p → (bufs c).valid = true) :
    Using bufs locks' (update control p point) := by
  apply uses.move others
  all_goals grind

omit [DecidableEq Process] in
theorem Using.edit (uses : Using bufs locks control)
    (carries : buf.Carries (bufs b).dev (bufs b).blockno)
    (valid : (bufs b).valid = true → buf.valid = true) :
    Using (update bufs b buf) locks control := by
  rcases uses with ⟨asked, mine, filled⟩
  constructor
  all_goals grind [update_apply, Buf.Carries]

omit [DecidableEq Process] in
/-- A buffer changes that nobody uses. -/
theorem Using.recycle (uses : Using bufs locks control) (free : locks b = none)
    (unused : ∀ q, (control q).pending b = 0) :
    Using (update bufs b buf) locks control := by
  rcases uses with ⟨asked, mine, filled⟩
  constructor
  all_goals grind [update_apply, Control.pending]

omit [DecidableEq Process] in
/-- A process that is not about to read a buffer has valid ones only. -/
theorem Using.valid_of_not_locked (uses : Using bufs locks control)
    (quiet : ∀ dev blockno, control p ≠ .locked dev blockno b) (holds : locks b = some p) :
    (bufs b).valid = true := by
  have filled := uses.filled p b holds
  grind

end

/-! ## The order of the releases -/

/-- The list is in the order of the last releases, as far as the buffers are not referenced. -/
structure Aged (order : List (Fin NBUF)) (bufs : Fin NBUF → Buf) (clock : Nat)
    (released : Fin NBUF → Nat) : Prop where
  sorted : order.Pairwise fun newer older => (bufs newer).refcnt = 0 → (bufs older).refcnt = 0 →
    released older ≤ released newer
  past : ∀ b, released b ≤ clock

section

variable {bufs after : Fin NBUF → Buf} {clock : Nat} {released : Fin NBUF → Nat}

theorem Aged.keep (aged : Aged order bufs clock released) {buf : Buf}
    (referenced : buf.refcnt = 0 → (bufs b).refcnt = 0) :
    Aged order (update bufs b buf) clock released where
  sorted := by
    have each : ∀ c, (update bufs b buf c).refcnt = 0 → (bufs c).refcnt = 0 :=
      (forall_update_iff bufs fun c buf => buf.refcnt = 0 → (bufs c).refcnt = 0).mpr
        ⟨referenced, fun _ _ => id⟩
    apply aged.sorted.imp
    intro newer older before newerFree olderFree
    exact before (each newer newerFree) (each older olderFree)
  past := aged.past

theorem Aged.past_update (aged : Aged order bufs clock released) (b c : Fin NBUF) :
    update released b (clock + 1) c ≤ clock + 1 := by
  have past := aged.past
  grind [update_apply]

/-- A reference is dropped, but not the last. -/
theorem Aged.drop (aged : Aged order bufs clock released) (others : ∀ c, c ≠ b → after c = bufs c)
    (referenced : (after b).refcnt ≠ 0) :
    Aged order after (clock + 1) (update released b (clock + 1)) := by
  constructor
  · apply aged.sorted.imp
    grind [update_apply]
  · exact aged.past_update b

theorem Aged.release {newer older : List (Fin NBUF)}
    (aged : Aged (newer ++ b :: older) bufs clock released) (nodup : (newer ++ b :: older).Nodup)
    (others : ∀ c, c ≠ b → after c = bufs c) :
    Aged (b :: (newer ++ older)) after (clock + 1) (update released b (clock + 1)) where
  sorted := by
    rw [List.nodup_middle, List.nodup_cons] at nodup
    rw [List.pairwise_cons]
    constructor
    · intro c _ _ _
      rw [update_self]
      exact aged.past_update b c
    · have sublist : (newer ++ older).Sublist (newer ++ b :: older) :=
        (List.sublist_cons_self b older).append_left newer
      apply (aged.sorted.sublist sublist).imp_of_mem
      intro c d inNewer inOlder before newerFree olderFree
      have cOther := ne_of_mem_of_not_mem inNewer nodup.1
      have dOther := ne_of_mem_of_not_mem inOlder nodup.1
      rw [others _ cOther] at newerFree
      rw [others _ dOther] at olderFree
      rw [update_of_ne cOther, update_of_ne dOther]
      exact before newerFree olderFree
  past := aged.past_update b

theorem Aged.least {newer older : List (Fin NBUF)}
    (aged : Aged (newer ++ b :: older) bufs clock released) (unused : (bufs b).Unused)
    (used : ∀ c, c ∈ older → ¬(bufs c).Unused) {c : Fin NBUF} (listed : c ∈ newer ++ b :: older)
    (candidate : (bufs c).Unused) : released b ≤ released c := by
  cases List.mem_append.mp listed with
  | inl isNewer =>
    have sorted := (List.pairwise_append.mp aged.sorted).2.2 c isNewer b List.mem_cons_self
    exact sorted candidate.1 unused.1
  | inr rest =>
    cases List.mem_cons.mp rest with
    | inl same =>
      rw [same]
    | inr isOlder => exact absurd candidate (used c isOlder)

end

/-! ## The invariant -/

structure Coherent [Fintype Process] (state : State Process) (history : History) : Prop where
  ordered : ∃ order, Listed state.links order ∧
    Aged order state.bufs history.clock history.released
  counted : Counted state
  distinct : Distinct state.bufs
  uses : Using state.bufs state.locks state.control
  contents : Contents state.bufs state.disk history.latest

section

variable [Fintype Process]

omit [DecidableEq Process] in
theorem Coherent.holder_valid (coherent : Coherent state history)
    (holds : state.Holds p b) : (state.bufs b).valid = true := by
  apply coherent.uses.valid_of_not_locked _ holds.1
  intro dev blockno
  rw [holds.2]
  exact nofun

theorem Coherent.step_ordered (coherent : Coherent state history)
    (effect : Effect state action next) :
    ∃ order, Listed next.links order ∧ Aged order next.bufs
      (record state action next history).clock (record state action next history).released := by
  rcases coherent.ordered with ⟨order, listed, aged⟩
  cases effect with
  | hit p dev blockno b idle found =>
    exact ⟨order, listed, aged.keep fun free => absurd free (Nat.succ_ne_zero _)⟩
  | recycle p dev blockno b idle missing found =>
    exact ⟨order, listed, aged.keep fun free => absurd free Nat.one_ne_zero⟩
  | acquire | keep | unlock => exact ⟨order, listed, aged⟩
  | load p dev blockno b | log p b data log holds | write p b data holds =>
    exact ⟨order, listed, aged.keep id⟩
  | drop p b releasing =>
    have others : ∀ c, c ≠ b → (state.drop p b).bufs c = state.bufs c :=
      fun c different => update_of_ne different ..
    have own : (state.drop p b).bufs b =
        { state.bufs b with refcnt := (state.bufs b).refcnt - 1 } := update_self ..
    dsimp only [record]
    rw [releasing]
    by_cases last : (state.bufs b).refcnt - 1 = 0
    · rcases List.append_of_mem (listed.complete b) with ⟨newer, older, split⟩
      rw [split] at listed aged
      refine ⟨b :: (newer ++ older), ?_, aged.release listed.circular.nodup others⟩
      dsimp only [drop]
      rw [if_pos last]
      exact listed.moveFront
    · refine ⟨order, ?_, aged.drop others ?_⟩
      · dsimp only [drop]
        rw [if_neg last]
        exact listed
      · rw [own]
        exact last
  | other action log bookkeeping =>
    rcases bookkeeping with rfl | rfl | rfl | rfl
    all_goals exact ⟨order, listed, aged⟩

theorem Coherent.step_distinct (coherent : Coherent state history)
    (effect : Effect state action next) : Distinct next.bufs := by
  have distinct := coherent.distinct
  rcases coherent.ordered with ⟨order, listed, _⟩
  cases effect with
  | hit p dev blockno b | drop p b =>
    exact distinct.change ⟨rfl, rfl⟩ (distinct.named b) (distinct.dirty b)
  | recycle p dev blockno b idle missing found =>
    exact distinct.recycle (not_carries_of_findCached listed missing) ⟨rfl, rfl⟩ rfl rfl
  | acquire | keep | unlock | other => exact distinct
  | load p dev blockno b locked invalid =>
    have asked := coherent.uses.asked p dev blockno b (Or.inr locked)
    apply distinct.change
    · exact ⟨rfl, rfl⟩
    · intro _
      rw [asked.2.1]
      exact asked.1
    · exact fun _ => rfl
  | log p b data log holds =>
    have valid := coherent.holder_valid holds
    exact distinct.change ⟨rfl, rfl⟩ (fun _ => distinct.named b valid) (fun _ => valid)
  | write p b data holds =>
    have valid := coherent.holder_valid holds
    exact distinct.change ⟨rfl, rfl⟩ (fun _ => distinct.named b valid) (fun _ => rfl)

theorem Coherent.step_contents (coherent : Coherent state history)
    (effect : Effect state action next) :
    Contents next.bufs next.disk (record state action next history).latest := by
  have contents := coherent.contents
  have distinct := coherent.distinct
  rcases coherent.ordered with ⟨order, listed, _⟩
  cases effect with
  | hit p dev blockno b =>
    apply contents.congr
    intro c
    by_cases same : c = b
    · rw [same]
      exact ⟨_, update_self ..⟩
    · exact ⟨_, update_of_ne same ..⟩
  | recycle p dev blockno b idle missing found =>
    exact contents.recycle (last_of_findUnused listed found).1.2 rfl
  | acquire | keep | unlock => exact contents
  | load p dev blockno b locked invalid =>
    have asked := coherent.uses.asked p dev blockno b (Or.inr locked)
    apply contents.load distinct
    · rw [asked.2.1]
      exact asked.1
    · exact invalid
    · exact ⟨rfl, rfl⟩
    · rfl
  | log p b data log holds =>
    have valid := coherent.holder_valid holds
    apply contents.store distinct
    · exact ⟨rfl, rfl⟩
    · exact valid
    · exact fun _ _ _ => rfl
    · exact nofun
  | write p b data holds =>
    apply contents.store distinct
    · exact ⟨rfl, rfl⟩
    · rfl
    · intro dev blockno elsewhere
      apply put_of_ne
      exact fun same => elsewhere ⟨same.1.symm, same.2.symm⟩
    · exact fun _ => put_self ..
  | drop p b releasing =>
    dsimp only [record]
    rw [releasing]
    apply contents.congr
    intro c
    by_cases same : c = b
    · rw [same]
      exact ⟨_, update_self ..⟩
    · exact ⟨_, update_of_ne same ..⟩
  | other action log bookkeeping =>
    rcases bookkeeping with rfl | rfl | rfl | rfl
    all_goals exact contents

theorem Coherent.step_uses (coherent : Coherent state history)
    (requested : Requested state action) (effect : Effect state action next) :
    Using next.bufs next.locks next.control := by
  have uses := coherent.uses
  rcases coherent.ordered with ⟨order, listed, _⟩
  cases effect with
  | hit p dev blockno b idle found =>
    dsimp only [setBuf]
    apply Using.ask
    · exact uses.edit ⟨rfl, rfl⟩ id
    · exact idle
    · exact requested
    · rw [update_self]
      exact carries_of_findCached listed found
  | recycle p dev blockno b idle missing found =>
    have unused := coherent.counted.unreferenced (last_of_findUnused listed found).1.1
    dsimp only [setBuf]
    apply Using.ask
    · exact uses.recycle unused.1 unused.2
    · exact idle
    · exact requested
    · rw [update_self]
      exact ⟨rfl, rfl⟩
  | acquire p dev blockno b waiting free => exact uses.acquire waiting free
  | keep p dev blockno b locked valid =>
    apply uses.settle (fun _ _ _ => Iff.rfl) (b := b) (Or.inl rfl)
    have filled := uses.filled
    grind
  | load p dev blockno b locked invalid =>
    dsimp only [setBuf]
    apply Using.settle (b := b)
    · exact uses.edit ⟨rfl, rfl⟩ fun _ => rfl
    · exact fun _ _ _ => Iff.rfl
    · exact Or.inl rfl
    · have filled := uses.filled
      grind [update_apply]
  | log p b data log holds => exact uses.edit ⟨rfl, rfl⟩ id
  | write p b data holds => exact uses.edit ⟨rfl, rfl⟩ fun _ => rfl
  | unlock p b holds =>
    dsimp only [setControl]
    apply uses.settle ?_ (Or.inr rfl)
    · have filled := uses.filled
      grind [update_apply, State.Holds]
    · grind [update_apply, State.Holds]
  | drop p b releasing =>
    dsimp only [drop, setBuf]
    apply Using.settle (b := b)
    · exact uses.edit ⟨rfl, rfl⟩ id
    · exact fun _ _ _ => Iff.rfl
    · exact Or.inl rfl
    · have filled := uses.filled
      grind [update_apply]
  | other => exact uses

theorem Coherent.step (coherent : Coherent state history) (requested : Requested state action)
    (stepped : step state action = some next) :
    Coherent next (record state action next history) := by
  have effect := step_effect coherent.distinct.dirty stepped
  rcases coherent.ordered with ⟨order, listed, _⟩
  exact ⟨coherent.step_ordered effect, coherent.counted.step listed effect,
    coherent.step_distinct effect, coherent.step_uses requested effect,
    coherent.step_contents effect⟩

omit [DecidableEq Process] in
theorem coherent_binit (disk : UInt32 → UInt32 → Block) (havedisk1 : Bool) (area : Log.Area)
    (dev : UInt32) :
    Coherent (binit disk havedisk1 area dev : State Process) (.start disk) where
  ordered := by
    refine ⟨_, listed_binit, ?_, fun _ => Nat.le_refl 0⟩
    exact List.pairwise_of_forall fun _ _ _ _ => Nat.le_refl 0
  counted := by
    intro b
    change 0 = 0 + ∑ _ : Process, 0
    rw [Finset.sum_const_zero, Nat.add_zero]
  distinct := ⟨fun _ _ named => absurd rfl named, nofun, nofun⟩
  uses := by
    constructor
    · intro p dev blockno b isAsked
      rcases isAsked with isAsked | isAsked
      · cases isAsked
      · cases isAsked
    · intro p dev blockno b isLocked
      cases isLocked
    · intro p b holds
      cases holds
  contents := ⟨nofun, nofun, fun _ _ _ => rfl⟩

/-! ## Results -/

variable {disk : UInt32 → UInt32 → Block} {havedisk1 : Bool} {area : Log.Area} {dev : UInt32}

theorem reachable_coherent
    (reachable : Reachable (recorded step record) (fun both => Requested both.1)
      ((binit disk havedisk1 area dev : State Process), History.start disk) (state, history)) :
    Coherent state history := by
  apply reachable.invariant fun both => Coherent both.1 both.2
  · intro before action after coherent requested stepped
    rcases recorded_eq_some.mp stepped with ⟨isNext, isRecorded⟩
    rw [isRecorded]
    exact coherent.step requested isNext
  · exact coherent_binit disk havedisk1 area dev

/-- The buffer becomes that of another block. -/
def Recycled (before after : State Process) (b : Fin NBUF) : Prop :=
  ¬(after.bufs b).Carries (before.bufs b).dev (before.bufs b).blockno

omit [Fintype Process] in
/-- Only `bget` recycles a buffer, and it takes the one found by its second loop. -/
theorem recycled_found (effect : Effect state action next)
    (recycled : Recycled state next b) : state.findUnused = some (some b) := by
  have update : ∀ c buf, buf.Carries (state.bufs c).dev (state.bufs c).blockno →
      (update state.bufs c buf b).Carries (state.bufs b).dev (state.bufs b).blockno := by
    intro c buf carries
    by_cases same : b = c
    · rw [same, update_self]
      exact carries
    · rw [update_of_ne same]
      exact ⟨rfl, rfl⟩
  cases effect with
  | hit p dev blockno c | load p dev blockno c | log p c data log holds | write p c data holds
  | drop p c releasing =>
    apply absurd _ recycled
    apply update
    exact ⟨rfl, rfl⟩
  | recycle p dev blockno c idle missing found =>
    by_cases same : b = c
    · rw [same]
      exact found
    · apply absurd _ recycled
      dsimp only [setBuf]
      rw [update_of_ne same]
      exact ⟨rfl, rfl⟩
  | acquire | keep | unlock | other => exact absurd ⟨rfl, rfl⟩ recycled

/-- `bread` returns the buffer of the block with its latest contents. -/
theorem Coherent.filled (coherent : Coherent state history) {dev : UInt32}
    (locked : state.control p = .locked dev blockno b)
    (returned : Bio.step state (.fill p) = some next) :
    next.Holds p b ∧ (next.bufs b).Carries dev blockno ∧
      (next.bufs b).data = history.latest dev blockno := by
  have requested : Requested state (.fill p) := trivial
  have after := coherent.step requested returned
  have asked := (coherent.uses.asked p dev blockno b (Or.inr locked)).2
  have mine := coherent.uses.mine p dev blockno b locked
  have kept : next.Holds p b ∧ (next.bufs b).Carries dev blockno := by
    cases step_effect coherent.distinct.dirty returned with
    | keep q otherDev otherBlock c isLocked valid =>
      exact ⟨⟨mine, update_self ..⟩, asked⟩
    | load q otherDev otherBlock c isLocked invalid =>
      rw [locked] at isLocked
      cases isLocked
      refine ⟨⟨mine, update_self ..⟩, ?_⟩
      dsimp only [setBuf]
      rw [update_self]
      exact asked
    | other _ _ bookkeeping => simp at bookkeeping
  refine ⟨kept.1, kept.2, ?_⟩
  rw [after.contents.cached b (after.holder_valid kept.1), kept.2.1, kept.2.2]
  rfl

/-- `bget` finds a buffer as long as there is one to be had. -/
theorem Coherent.bget_finds (coherent : Coherent state history) {dev : UInt32}
    (idle : state.control p = .idle)
    (available : (∃ b, (state.bufs b).Carries dev blockno) ∨ ∃ b, (state.bufs b).Unused) :
    ∃ next, Bio.step state (.bget p dev blockno) = some next := by
  rcases coherent.ordered with ⟨order, listed, _⟩
  unfold Bio.step bget
  dsimp only
  rw [if_pos idle, findCached_eq listed, findUnused_eq listed]
  cases cached : order.find? fun b => decide ((state.bufs b).Carries dev blockno) with
  | some b => exact ⟨_, rfl⟩
  | none =>
    have missing := List.find?_eq_none.mp cached
    cases unused : order.reverse.find? fun b => decide (state.bufs b).Unused with
    | some b => exact ⟨_, rfl⟩
    | none =>
      have used := List.find?_eq_none.mp unused
      rcases available with ⟨b, carries⟩ | ⟨b, free⟩
      · exact absurd (decide_eq_true carries) (missing b (listed.complete b))
      · exact absurd (decide_eq_true free)
          (used b (List.mem_reverse.mpr (listed.complete b)))

/-- Nothing that has been stored is lost: the latest contents of every block are on the disk or
in a dirty buffer. -/
theorem latest_on_disk_or_dirty
    (reachable : Reachable (recorded step record) (fun both => Requested both.1)
      ((binit disk havedisk1 area dev : State Process), History.start disk) (state, history)) :
    ∀ dev blockno, state.disk dev blockno = history.latest dev blockno ∨
      ∃ b, (state.bufs b).Carries dev blockno ∧ (state.bufs b).dirty = true ∧
        (state.bufs b).data = history.latest dev blockno := by
  intro dev blockno
  have contents := (reachable_coherent reachable).contents
  by_cases cached : ∃ b, (state.bufs b).valid = true ∧ (state.bufs b).Carries dev blockno
  · rcases cached with ⟨b, valid, rfl, rfl⟩
    cases dirty : (state.bufs b).dirty with
    | false => exact Or.inl (contents.clean b valid dirty)
    | true => exact Or.inr ⟨b, ⟨rfl, rfl⟩, dirty, contents.cached b valid⟩
  · exact Or.inl (contents.uncached _ _ fun b valid carries => cached ⟨b, valid, carries⟩)

end

/-- The cache is coherent in every state of every run. The links form one circle through all
buffers; no two buffers are for one block; the buffer that is recycled is neither referenced
nor dirty, and of those it is the one released first; `bread` finds a buffer if there is one
to be had, and returns the latest contents of the block. -/
theorem buffer_cache_is_coherent (Process : Type) [Fintype Process] [DecidableEq Process]
    (disk : UInt32 → UInt32 → Block) (havedisk1 : Bool) (area : Log.Area) (logDev : UInt32)
    (state : State Process) (history : History)
    (reachable : Reachable (recorded step record) (fun both => Requested both.1)
      (binit disk havedisk1 area logDev, .start disk) (state, history)) :
    (∃ order, order.Nodup ∧ (∀ b, b ∈ order) ∧ state.links.Path none order none) ∧
    (∀ b c, (state.bufs b).dev ≠ 0 → (state.bufs b).dev = (state.bufs c).dev →
      (state.bufs b).blockno = (state.bufs c).blockno → b = c) ∧
    (∀ action next b, step state action = some next → Recycled state next b →
      (state.bufs b).Unused ∧
        ∀ c, (state.bufs c).Unused → history.released b ≤ history.released c) ∧
    (∀ p dev blockno, state.control p = .idle →
      (∃ b, (state.bufs b).Carries dev blockno) ∨ (∃ b, (state.bufs b).Unused) →
      ∃ next, step state (.bget p dev blockno) = some next) ∧
    ∀ p dev blockno b next, state.control p = .locked dev blockno b →
      step state (.fill p) = some next →
      next.Holds p b ∧ (next.bufs b).Carries dev blockno ∧
        (next.bufs b).data = history.latest dev blockno := by
  have coherent := reachable_coherent reachable
  rcases coherent.ordered with ⟨order, listed, aged⟩
  refine ⟨⟨order, listed.circular.nodup, listed.complete, listed.circular.path⟩,
    coherent.distinct.unique, ?_, ?_, ?_⟩
  · intro action next b stepped recycled
    have found := recycled_found (step_effect coherent.distinct.dirty stepped) recycled
    rcases last_of_findUnused listed found with ⟨unused, newer, older, split, used⟩
    refine ⟨unused, ?_⟩
    intro c candidate
    have isListed := listed.complete c
    rw [split] at aged isListed
    exact aged.least unused used isListed candidate
  · exact fun p dev blockno idle available => coherent.bget_finds idle available
  · exact fun p dev blockno b next locked returned => coherent.filled locked returned

def smallArea : Log.Area := ⟨2, 10, by decide⟩

/-- A process reads a block of device 1, logs new bytes for it and releases it, and asks for
it again. -/
def readBack : List (Action Unit) :=
  [.beginOp, .bget () 1 5, .acquire (), .fill (), .logWrite () 0 (fun _ => 7), .brelse () 0,
    .drop (), .bget () 1 5, .acquire ()]

theorem buffer_cache_is_coherent_read_back :
    ∃ (state next : State Unit) (history : History),
      Reachable (recorded step record) (fun both => Requested both.1)
        (binit (fun _ _ => Bytes.zero BSIZE) true smallArea 1,
          .start fun _ _ => Bytes.zero BSIZE) (state, history) ∧
      step state (.fill ()) = some next ∧ (next.bufs 0).data = history.latest 1 5 := by
  rcases exists_reachable (recorded step record) (fun both => Requested both.1)
      (binit (fun _ _ => Bytes.zero BSIZE) true smallArea 1,
        .start fun _ _ => Bytes.zero BSIZE) readBack
      (fun both => both.1.control () = .locked 1 5 0 ∧ (step both.1 (.fill ())).isSome = true)
      (by decide +kernel) with ⟨⟨state, history⟩, reachable, locked, returns⟩
  rcases Option.isSome_iff_exists.mp returns with ⟨next, returned⟩
  have holds := buffer_cache_is_coherent Unit _ true smallArea 1 state history reachable
  exact ⟨state, next, history, reachable, returned,
    (holds.2.2.2.2 () 1 5 0 next locked returned).2.2⟩

theorem latest_on_disk_or_dirty_read_back :
    ∃ (state : State Unit) (history : History), state.disk 1 5 ≠ history.latest 1 5 ∧
      ∃ b, (state.bufs b).dirty = true ∧ (state.bufs b).data = history.latest 1 5 := by
  rcases exists_reachable (recorded step record) (fun both => Requested both.1)
      (binit (fun _ _ => Bytes.zero BSIZE) true smallArea 1, .start fun _ _ => Bytes.zero BSIZE)
      readBack (fun both => both.1.disk 1 5 0 ≠ both.2.latest 1 5 0) (by decide +kernel) with
    ⟨⟨state, history⟩, reachable, differs⟩
  have stale := fun same => differs (congrFun same 0)
  rcases (latest_on_disk_or_dirty reachable 1 5).resolve_left stale with ⟨b, _, dirty⟩
  exact ⟨state, history, stale, b, dirty⟩

end Xv6.Bio
