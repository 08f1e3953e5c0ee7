import Xv6.Sys.Boundary

/-! # Runs of the kernel

What holds between calls is kept by every call of every process, and so in every
state that a run reaches. From this it follows that the cache counts its references
exactly, and that it is written through.
-/

namespace Xv6.Sys

open Program Transition
open Dir (Tables File Proc O_CREATE O_RDWR)
open Fs (Store Flushed T_DIR)

/-! ## One call -/

section

variable {state next : State} {p : Nat} {proc : Proc}

theorem execute_meets (reliable : Prop) (referenced : state.Referenced) (ready : reliable → state.Ready)
    (live : state.tables.proc p = some proc) (call : Call) :
    Meets (execute p call) state (Allowed reliable) fun outcome next => ∃ after,
      Served reliable state.store.sb.ninodes state next after ∧
      Ends reliable state.store.sb.ninodes (call.Changes p state.tables) state.view after ∧
      call.Transfers reliable p state.view after outcome ∧
      (outcome.1 < 0 → Fewer state.tables after.tables) :=
  (serve_respects reliable state.store.sb.ninodes state).interpret (referenced.served ready)
    (program_obeys (referenced.holding ready) rfl (fun sure => (ready sure).root) live call)

theorem step_cases {action : Nat × Call} (stepped : step state action = some next) :
    ∃ proc outcome, state.tables.proc action.1 = some proc ∧
      execute action.1 action.2 state = .ok (outcome, next) := by
  unfold step at stepped
  split at stepped
  · cases stepped
  · rename_i proc live
    split at stepped
    · rename_i outcome _ ran
      cases stepped
      exact ⟨proc, outcome, live, ran⟩
    · cases stepped

theorem step_referenced (referenced : state.Referenced) {action : Nat × Call}
    (stepped : step state action = some next) : next.Referenced := by
  rcases step_cases stepped with ⟨proc, outcome, live, ran⟩
  rcases (execute_meets False referenced False.elim live action.2).of_ok ran with
    ⟨after, served, ends, _⟩
  exact served.referenced ends.holding ends.trans

theorem step_ready (ready : state.Ready) {action : Nat × Call}
    (stepped : step state action = some next) : next.Ready := by
  rcases step_cases stepped with ⟨proc, outcome, live, ran⟩
  rcases (execute_meets True ready.toReferenced (fun _ => ready) live
    action.2).of_ok ran with ⟨after, served, ends, _⟩
  exact served.ready ends.holding ends.trans trivial ready.root

end

section

variable {start state : State}

theorem reachable_referenced (referenced : start.Referenced)
    (reachable : Reachable step Unrestricted start state) : state.Referenced :=
  reachable.invariant State.Referenced
    (fun _ _ _ kept _ stepped => step_referenced kept stepped) referenced

theorem reachable_ready (ready : start.Ready)
    (reachable : Reachable step Unrestricted start state) : state.Ready :=
  reachable.invariant State.Ready (fun _ _ _ kept _ stepped => step_ready kept stepped) ready

end

/-! ## Entries in use -/

def State.used (state : State) : Finset (Fin NINODE) :=
  Finset.univ.filter fun slot => 0 < (state.store.icache slot).ref

/-- The number of places that can refer to an inode: the open files that are inodes,
and the processes. -/
def State.references (state : State) : Nat :=
  state.tables.ftable.countP (fun file => file.kind = .inode) +
    state.tables.procs.countP Option.isSome

section

variable {state next : State} {slot : Fin NINODE}

theorem mem_used : slot ∈ state.used ↔ 0 < (state.store.icache slot).ref := by
  simp [State.used]

theorem State.Referenced.refs_of_used (referenced : state.Referenced) (used : slot ∈ state.used) :
    0 < state.tables.refs (state.store.icache slot).inum := by
  have positive := mem_used.mp used
  rw [← pointers_of_used referenced.single positive, ← referenced.counted]
  exact positive

theorem sum_countP_le {Element Target : Type} [DecidableEq Target] (targets : Finset Target)
    (target : Element → Option Target) (counted : Element → Bool)
    (implies : ∀ element, (target element).isSome → counted element) (elements : List Element) :
    (∑ index ∈ targets, elements.countP fun element => target element = some index) ≤
      elements.countP counted := by
  induction elements with
  | nil => simp
  | cons element rest induction =>
    have once : (∑ index ∈ targets, if target element = some index then 1 else 0) ≤
        if counted element then 1 else 0 := by
      cases found : target element with
      | none => simp
      | some index =>
        have isCounted := implies element (by simp [found])
        simp only [Option.some.injEq, Finset.sum_ite_eq, isCounted, if_true]
        split <;> omega
    simp only [List.countP_cons, Finset.sum_add_distrib, decide_eq_true_eq]
    omega

theorem State.Referenced.card_used_le (referenced : state.Referenced) :
    state.used.card ≤ state.references := by
  calc
    state.used.card = ∑ _slot ∈ state.used, 1 := Finset.card_eq_sum_ones _
    _ ≤ ∑ slot ∈ state.used, state.pointers slot := by
      refine Finset.sum_le_sum fun slot used => ?_
      rw [← referenced.counted]
      exact mem_used.mp used
    _ ≤ state.references := by
      unfold State.pointers State.references
      rw [Finset.sum_add_distrib]
      refine Nat.add_le_add ?_ ?_
      · refine Nat.le_trans (Nat.le_of_eq ?_) (sum_countP_le state.used
          (fun file : File => if file.kind = .inode then state.store.slot file.ip else none)
          _ ?_ _)
        · refine Finset.sum_congr rfl fun slot _ => List.countP_congr fun file _ => ?_
          by_cases kind : file.kind = .inode <;> simp [kind]
        · intro file found
          by_contra kind
          simp_all
      · refine sum_countP_le state.used _ _ ?_ _
        intro proc found
        cases proc with
        | none => cases found
        | some proc => rfl

/-- Entries in use after a change of the tables that gives no references were in
use before it, up to their place. -/
theorem card_used_le_of_fewer (referenced : state.Referenced) (after : next.Referenced)
    (fewer : Fewer state.tables next.tables) : next.used.card ≤ state.used.card := by
  have found : ∀ slot ∈ next.used, ∃ origin ∈ state.used,
      (state.store.icache origin).inum = (next.store.icache slot).inum := by
    intro slot used
    have before := Nat.lt_of_lt_of_le (after.refs_of_used used) (fewer _)
    cases held : state.store.slot (next.store.icache slot).inum with
    | none => exact absurd held (referenced.resolved _ before)
    | some origin =>
      have isUsed := Store.slot_eq_some held
      exact ⟨origin, mem_used.mpr isUsed.1, isUsed.2⟩
  choose! origin inside same using found
  refine Finset.card_le_card_of_injOn origin inside ?_
  intro first isFirst second isSecond equal
  have sameInum := (same first isFirst).symm.trans
    ((congrArg (fun slot => (state.store.icache slot).inum) equal).trans (same second isSecond))
  exact after.single first second (mem_used.mp isFirst) (mem_used.mp isSecond) sameInum

end

/-! ## A small kernel

The root directory of the small file system is empty, and is the current directory
of the only process. -/

def sampleTables : Tables :=
  ⟨[⟨.none, 0, false, false, 0, 0⟩], [some ⟨[none, none], 1⟩, none], 0⟩

def sampleState : State where
  store := Fs.sampleStore T_DIR
  tables := sampleTables
  outstanding := 0
  trace := []

/-- Make the file `f` and write a byte to it. -/
def writeFile : List (Nat × Call) :=
  [(0, .open (some ([102], O_CREATE ||| O_RDWR))), (0, .write 0 [7])]

theorem single_flushed {store : Store} {type : Int16} (single : store.Single type) :
    Flushed store where
  toConsistent := single.consistent
  through := by
    intro inum _
    cases found : store.cached inum with
    | none => rw [Store.inode, found]
    | some ip =>
      rcases Store.cached_eq_some found with ⟨holds, rfl⟩
      rw [single.sound.cache.inode_eq holds, single.only ip holds.1, single.inum, single.copy]
      exact single.stored

theorem sampleTables_refs {inum : Nat} (used : 0 < sampleTables.refs inum) : inum = 1 := by
  by_contra other
  have different : 1 ≠ inum := Ne.symm other
  simp [sampleTables, Dir.Tables.refs, File.refersTo, Dir.isCwd, different] at used

theorem sampleState_ready : sampleState.Ready := by
  have single : sampleState.store.Single T_DIR := Fs.sampleStore_single (Or.inr rfl)
  have isUsed : 0 < (sampleState.store.icache 0).ref := single.holds.1
  have onlyOne := single.sound.cache.single
  have found : sampleState.store.slot 1 = some 0 := by
    rw [slot_eq_some_iff onlyOne isUsed, single.inum]
  refine ⟨⟨onlyOne, ?_, ?_, by unfold Dir.Tables.Idle; decide, rfl⟩, single_flushed single,
    single.count, ?_, ?_, ?_, ?_⟩
  · intro slot
    by_cases first : slot = 0
    · rw [first, pointers_of_used onlyOne isUsed, single.inum]
      decide
    · have unused : (sampleState.store.icache slot).ref = 0 :=
        Nat.eq_zero_of_not_pos fun used => first (single.only slot used)
      rw [pointers_of_unused unused, unused]
  · intro inum used
    rw [sampleTables_refs used, found]
    nofun
  · intro inum used
    rw [sampleTables_refs used, single.inode_one]
    decide
  · intro inum used
    right
    rw [sampleTables_refs used, single.inode_one]
    decide
  · intro file member isInode _
    rw [List.mem_singleton.mp member] at isInode
    cases isInode
  · intro inum allocated _
    rw [single.eq_one allocated]
    have empty : sampleState.store.contents 1 = [] := by decide +kernel
    rw [empty]
    exact Ranged.nil _

/-! ## Reference counts are exact -/

/-- In every state that a run reaches, on any disk, the count of a cache entry is
the number of files and current directories that point to it, and whatever they
point to is in the cache. A call never uses an entry that is not, and a call that
fails leaves no more entries in use than before. -/
theorem inode_references_exact (start state : State) (referenced : start.Referenced)
    (reachable : Reachable step Unrestricted start state) :
    (∀ slot, (state.store.icache slot).ref = state.pointers slot) ∧
    (∀ inum, 0 < state.tables.refs inum → ∃ slot, state.store.slot inum = some slot) ∧
    state.used.card ≤ state.references ∧
    ∀ p proc call, state.tables.proc p = some proc →
      Meets (execute p call) state (fun failure => failure ≠ .dangling) fun outcome next =>
        (∀ slot, (next.store.icache slot).ref = next.pointers slot) ∧
        (outcome.1 < 0 → Fewer state.tables next.tables ∧ next.used.card ≤ state.used.card) := by
  have between := reachable_referenced referenced reachable
  refine ⟨between.counted, fun inum used => Option.ne_none_iff_exists'.mp
    (between.resolved inum used), between.card_used_le, ?_⟩
  intro p proc call live
  have met := execute_meets False between False.elim live call
  unfold Meets at met ⊢
  cases ran : execute p call state with
  | error failure =>
    rw [ran] at met
    have allowed : Allowed False failure := met
    exact allowed.1
  | ok result =>
    rw [ran] at met
    rcases met with ⟨after, served, ends, _, fewer⟩
    rw [served.tables] at fewer
    have kept := served.referenced ends.holding ends.trans
    exact ⟨kept.counted, fun negative =>
      ⟨fewer negative, card_used_le_of_fewer between kept (fewer negative)⟩⟩

theorem inode_references_exact_sample : ∃ state,
    Reachable step Unrestricted sampleState state ∧
      (state.tables.refs 1 = 2 ∧ state.tables.refs 2 = 1) ∧
      ∀ slot, (state.store.icache slot).ref = state.pointers slot := by
  rcases exists_reachable step Unrestricted sampleState
      (writeFile ++ [(0, .fork 1), (1, .dup 0), (1, .close 0)])
      (fun state => state.tables.refs 1 = 2 ∧ state.tables.refs 2 = 1) (by decide +kernel) with
    ⟨state, reachable, counted⟩
  exact ⟨state, reachable, counted,
    (inode_references_exact _ state sampleState_ready.toReferenced reachable).1⟩

/-! ## The cache is written through -/

/-- In every state that a run reaches from a consistent file system, each valid entry
of the inode cache equals its inode on the disk, and no inode has two entries. -/
theorem icache_write_through (start state : State) (ready : start.Ready)
    (reachable : Reachable step Unrestricted start state) :
    (∀ ip, state.store.Holds ip →
      (state.store.icache ip).copy = state.store.dinode (state.store.icache ip).inum) ∧
    ∀ ip jp, 0 < (state.store.icache ip).ref → 0 < (state.store.icache jp).ref →
      (state.store.icache ip).inum = (state.store.icache jp).inum → ip = jp := by
  have between := reachable_ready ready reachable
  exact ⟨fun ip holds => between.flushed.copy_eq holds, between.single⟩

theorem icache_write_through_sample : ∃ state,
    Reachable step Unrestricted sampleState state ∧
      (state.store.icache 1).copy.size = 1 ∧
      (state.store.icache 1).copy = state.store.dinode 2 := by
  rcases exists_reachable step Unrestricted sampleState writeFile
      (fun state => state.store.Holds 1 ∧ (state.store.icache 1).copy.size = 1 ∧
        (state.store.icache 1).inum = 2) (by decide +kernel) with ⟨state, reachable, holds, size, inum⟩
  have same := (icache_write_through _ state sampleState_ready reachable).1 1 holds
  rw [inum] at same
  exact ⟨state, reachable, size, same⟩

end Xv6.Sys
