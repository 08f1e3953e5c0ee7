import Xv6.Sys.Served

/-! # Serving one request

For each function of the inode layer: what the kernel does keeps the relation to
what the callers see, and the answer is one that the rule allows.
-/

namespace Xv6.Sys

open Interaction Program Server
open Dir (Node Fields)
open Fs (Store Dinode Flushed Got)

variable {post : Nat → View → Prop}

/-! ## Getting entries -/

theorem Slots.got {fs next : Fs.State} {node : Nat → Node} {inum : Nat} {slot : Fin NINODE}
    (slots : Slots fs.toStore node) (got : Got fs inum slot next) {changed : Node}
    (ref : changed.ref = (node inum).ref + 1) (valid : changed.valid = (node inum).valid) :
    (next.icache slot).inum = inum ∧ Slots next.toStore (Function.update node inum changed) := by
  rcases got with ⟨used, own, rfl⟩ | ⟨uncached, unused, rfl⟩
  · have before := slots.used slot used
    rw [own] at before
    have self : (fs.addRef slot).icache slot =
        { fs.icache slot with ref := (fs.icache slot).ref + 1 } := Store.setSlot_self _
    refine ⟨by rw [self]; exact own, slots.change slot ?_ (Or.inl ⟨used, own⟩) ?_ ?_ ?_⟩
    · intro jp different
      rw [Store.addRef, Store.setSlot_of_ne different]
      exact ⟨rfl, rfl, rfl⟩
    · rw [self]
      exact own
    · rw [self, ref, before.1]
    · rw [self, valid, before.2]
      simp
  · have before := slots.free inum (by
      cases found : fs.slot inum with
      | none => rfl
      | some jp =>
        have isUsed := Store.slot_eq_some found
        exact absurd isUsed.2 (uncached jp isUsed.1))
    have self : (fs.takeSlot slot inum).icache slot =
        { fs.icache slot with inum := inum, ref := 1, valid := false } := Store.setSlot_self _
    refine ⟨by rw [self], slots.change slot ?_ (Or.inr ⟨unused, uncached⟩) ?_ ?_ ?_⟩
    · intro jp different
      rw [Store.takeSlot, Store.setSlot_of_ne different]
      exact ⟨rfl, rfl, rfl⟩
    · rw [self]
    · rw [self, ref, before.1]
    · rw [self, valid, before.2]
      simp

/-- The answer is allowed, and the callers can go on from what they see then. -/
abbrev Answered (reliable : Prop) (ninodes : Nat) (start : State) {Answer : Type}
    (post : Answer → View → Prop) (answer : Answer) (next : State) : Prop :=
  ∃ after, Served reliable ninodes start next after ∧ post answer after

section

variable {reliable : Prop} {ninodes : Nat} {start state : State} {view : View} {ip inum : Nat}
  (served : Served reliable ninodes start state view)

include served

theorem iget_respects (ruled : inodeRule reliable ninodes (.iget inum) view post) :
    Meets (iget inum) state (Allowed reliable)
      (Answered reliable ninodes start post) := by
  rcases ruled with ⟨range, met⟩
  rw [iget, meets_bind]
  refine meets_unlogged (Meets.mono (Fs.iget_meets _ inum)
    (fun _ _ => allowed_panic reliable _) ?_)
  intro slot next got
  rw [meets_bind, meets_get, meets_pure]
  have slots : (next.icache slot).inum = inum ∧ Slots next.toStore (Function.update view.node inum
      { view.node inum with ref := (view.node inum).ref + 1 }) := served.slots.got got rfl rfl
  refine ⟨_, served.recached slots.2 got.events fun sure => ?_, ?_⟩
  · have content := served.content sure
    exact content.flushed.got got (range sure).1 (content.count ▸ (range sure).2)
  · rw [show ((state.after next).store.icache slot).inum = inum from slots.1]
    exact met

theorem idup_respects (ruled : inodeRule reliable ninodes (.idup ip) view post) :
    Meets (idup ip) state (Allowed reliable)
      (Answered reliable ninodes start post) := by
  rcases ruled with ⟨referenced, met⟩
  rcases served.slots.exists_slot (Or.inl referenced) with ⟨slot, found, used, own⟩
  rw [idup, meets_bind]
  refine meets_entry found ?_
  rw [meets_bind]
  refine meets_unlogged (Meets.imp (Fs.idup_returns _ slot).meets ?_)
  rintro jp next ⟨isSlot, same⟩
  rw [meets_bind, meets_get, meets_pure, isSlot]
  have got : Got ⟨state.store, []⟩ ip slot next := Or.inl ⟨used, own, same⟩
  have slots : (next.icache slot).inum = ip ∧ Slots next.toStore (Function.update view.node ip
      { view.node ip with ref := (view.node ip).ref + 1 }) := served.slots.got got rfl rfl
  refine ⟨_, served.recached slots.2 got.events fun sure => ?_, ?_⟩
  · have content := served.content sure
    have range := content.flushed.cache.range slot used
    rw [own] at range
    exact content.flushed.got got range.1 range.2
  · rw [show ((state.after next).store.icache slot).inum = ip from slots.1]
    exact met

theorem ilock_respects {post : Unit → View → Prop}
    (ruled : inodeRule reliable ninodes (.ilock ip) view post) :
    Meets (ilock ip) state (Allowed reliable)
      (Answered reliable ninodes start post) := by
  rcases ruled with ⟨referenced, met⟩
  rcases served.slots.exists_slot (Or.inl referenced) with ⟨slot, found, used, own⟩
  have before := served.slots.used slot used
  rw [own] at before
  rw [ilock, meets_bind]
  refine meets_entry found (meets_unlogged (Meets.mono
    (@Fs.ilock_meets ⟨state.store, []⟩ slot used) (fun _ _ => allowed_panic reliable _) ?_))
  rintro _ next (⟨valid, rfl⟩ | ⟨invalid, typed, rfl⟩)
  · have valid : (state.store.icache slot).valid = true := valid
    refine ⟨_, @Served.recached ip ⟨state.store, []⟩ _ _ _ _ _ served (view.node ip).ref true
      ?_ rfl fun sure => ?_, met fun sure => ?_⟩
    · rw [← valid, ← before.2, Function.update_eq_self]
      exact served.slots
    · exact ⟨(served.content sure).flushed, .refl _ _, .refl _⟩
    · have content := served.content sure
      have range := content.flushed.cache.range slot used
      have shown := content.shows ip (own ▸ range.1) (by rw [← own, ← content.count]; exact range.2)
      rw [shown.type, ← own, content.flushed.cache.inode_eq ⟨used, valid⟩]
      exact content.flushed.cache.typed slot ⟨used, valid⟩
  · have self : (state.store.loadSlot slot).icache slot = { state.store.icache slot with
        copy := state.store.dinode (state.store.icache slot).inum, valid := true } :=
      Store.setSlot_self _
    refine ⟨_, @Served.recached ip ⟨state.store.loadSlot slot, []⟩ _ _ _ _ _ served
      (view.node ip).ref true ?_ rfl fun sure => ?_, met fun sure => ?_⟩
    · refine served.slots.change slot (fun jp different => ?_) (Or.inl ⟨used, own⟩) ?_ ?_ ?_
      · change ((state.store.loadSlot slot).icache jp).inum = _ ∧ _
        rw [Store.loadSlot, Store.setSlot_of_ne different]
        exact ⟨rfl, rfl, rfl⟩
      · exact (congrArg Fs.Inode.inum self).trans own
      · exact before.1.trans (congrArg Fs.Inode.ref self).symm
      · change true = (decide (0 < ((state.store.loadSlot slot).icache slot).ref) &&
          ((state.store.loadSlot slot).icache slot).valid)
        rw [self]
        simp [used]
    · exact (served.content sure).flushed.loadSlot used typed
    · have content := served.content sure
      have range := content.flushed.cache.range slot used
      have shown := content.shows ip (own ▸ range.1) (by rw [← own, ← content.count]; exact range.2)
      rw [shown.type, ← own, ← content.flushed.through _ range.2]
      exact typed

/-! ## Fields -/

theorem Served.shown (sure : reliable) {slot : Fin NINODE} (holds : state.store.Holds slot) :
    Shows (state.store.icache slot).copy (view.node (state.store.icache slot).inum) ∧
      (view.node (state.store.icache slot).inum).data =
        state.store.contents (state.store.icache slot).inum := by
  have content := served.content sure
  have range := content.flushed.cache.range slot holds.1
  rw [← content.flushed.cache.inode_eq holds]
  exact ⟨content.shows _ range.1 (by rw [← content.count]; exact range.2),
    content.data _ (content.flushed.cache.allocated holds)⟩

theorem fields_respects {post : Fields → View → Prop}
    (ruled : inodeRule reliable ninodes (.fields ip) view post) :
    Meets (fields ip) state (Allowed reliable)
      (Answered reliable ninodes start post) := by
  rcases ruled with ⟨valid, met⟩
  rcases served.slots.exists_holds valid with ⟨slot, found, holds, own⟩
  rw [fields, meets_bind]
  refine meets_entry found ?_
  rw [meets_bind, meets_get, meets_pure]
  refine ⟨view, served, met _ fun sure => ?_⟩
  have shown := served.shown sure holds
  rw [own] at shown
  have flushed := (served.content sure).flushed
  rw [nodeFields, shown.1.type, shown.1.major, shown.1.minor, shown.1.nlink, shown.2, ← own,
    holds.contents_length flushed.cache]

theorem update_respects {major minor nlink : Int16} {post : Unit → View → Prop}
    (ruled : inodeRule reliable ninodes (.update ip major minor nlink) view post) :
    Meets (update ip major minor nlink) state (Allowed reliable)
      (Answered reliable ninodes start post) := by
  rcases ruled with ⟨valid, isOpen, met⟩
  rcases served.slots.exists_holds valid with ⟨slot, found, holds, own⟩
  rw [update, meets_bind]
  refine meets_entry found (meets_logged_open (served.isOpen isOpen) (Meets.imp
    (Fs.setFields_returns ⟨state.store, []⟩ slot major minor nlink).meets ?_))
  rintro _ next rfl
  have known := fun sure : reliable =>
    (served.content sure).flushed.setFields holds major minor nlink
  rw [own] at known
  refine ⟨_, ?_, met⟩
  refine served.after (served.slots.edit (Store.update_sameSlots _) rfl rfl) (Or.inl isOpen)
    (fun sure => ?_) (fun _ => .logWrite rfl) (fun _ => rfl) fun sure => (known sure).2.2.1
  have shown := served.shown sure holds
  rw [own] at shown
  refine (served.content sure).change (known sure).1 rfl
    (Content.untouched_others (known sure).2.1 fun _ same => same) (fun _ _ => ?_) fun _ => ?_
  · rw [show Store.inode _ ip = _ from (known sure).2.2.2.1]
    exact ⟨shown.1.type, rfl, rfl, rfl⟩
  · exact shown.2.trans (known sure).2.2.2.2.symm

/-! ## Reading and writing -/

theorem readi_respects {off n : UInt32} {post : Int × List UInt8 → View → Prop}
    (ruled : inodeRule reliable ninodes (.readi ip off n) view post) :
    Meets (readi ip off n) state (Allowed reliable)
      (Answered reliable ninodes start post) := by
  rcases ruled with ⟨valid, met⟩
  rcases served.slots.exists_holds valid with ⟨slot, found, holds, own⟩
  rw [readi, meets_bind]
  refine meets_entry found ?_
  rw [meets_logged]
  refine Meets.mono (Meets.and_imp (Fs.readi_stays slot off n ⟨state.store, []⟩)
    fun sure : reliable => @Flushed.readi ⟨state.store, []⟩ slot (served.content sure).flushed
      holds off n) ?_ ?_
  · rintro panic ⟨_, impossible⟩
    split
    · exact ⟨nofun, fun sure => (impossible sure).elim⟩
    · exact allowed_panic reliable _
  · rintro answer next ⟨same, exactly⟩
    split
    · rename_i refused
      refine ⟨nofun, fun sure => ?_⟩
      rw [(exactly sure).1] at refused
      cases refused.2
    · rename_i logs
      refine ⟨view, served.read same logs fun sure => (exactly sure).1,
        met answer fun sure notDevice => ?_⟩
      have shown := served.shown sure holds
      rw [own] at shown
      rw [shown.2, ← own]
      exact (exactly sure).2 (shown.1.type ▸ notDevice)

theorem writei_respects {src : List UInt8} {off : UInt32} {post : Int → View → Prop}
    (ruled : inodeRule reliable ninodes (.writei ip src off) view post) :
    Meets (writei ip src off) state (Allowed reliable)
      (Answered reliable ninodes start post) := by
  rcases ruled with ⟨valid, isOpen, met⟩
  rcases served.slots.exists_holds valid with ⟨slot, found, holds, own⟩
  rw [writei, meets_bind]
  refine meets_entry found (meets_logged_open (served.isOpen isOpen) ?_)
  refine Meets.mono (Meets.and_imp (Fs.writei_stays slot (fun index => src.getD index 0) off
      (UInt32.ofNat src.length) ⟨state.store, []⟩)
    fun sure : reliable => @Flushed.writei ⟨state.store, []⟩ slot (served.content sure).flushed
      holds (fun index => src.getD index 0) off (UInt32.ofNat src.length))
    (fun _ _ => allowed_panic reliable _) ?_
  rintro result next ⟨same, exactly⟩
  refine ⟨_, ?_, met result (next.contents ip) fun sure => ?_⟩
  · refine served.wrote (served.slots.edit same (by rfl) (by rfl)) (Or.inl isOpen) (fun sure => ?_)
      (fun sure => (exactly sure).2.1) (fun sure => (exactly sure).2.2.1.sb)
      fun _ impossible => by cases impossible
    rcases exactly sure with ⟨flushed, _, frame, _⟩
    have content := served.content sure
    have bound := (content.flushed.cache.range slot holds.1).2
    refine content.change flushed frame.sb (fun other inside different => ?_) (fun _ _ => ?_)
      fun _ => rfl
    · have fields := frame.fields other inside
      exact ⟨⟨fields.1, fields.2.1, fields.2.2.1, fields.2.2.2⟩,
        frame.others other inside (by rw [show _ = ip from own]; exact different)⟩
    · have shown := served.shown sure holds
      rw [← content.flushed.cache.inode_eq holds, own] at shown
      have fields := frame.fields ip (own ▸ bound)
      exact ⟨shown.1.type.trans fields.1.symm, shown.1.major.trans fields.2.1.symm,
        shown.1.minor.trans fields.2.2.1.symm, shown.1.nlink.trans fields.2.2.2.symm⟩
  · have shown := served.shown sure holds
    have wrote := (exactly sure).2.2.2
    dsimp only at wrote
    rw [own] at shown wrote
    rw [WriteOutcome, shown.1.type, shown.2]
    exact wrote

/-! ## Allocating inodes -/

theorem ialloc_respects {type : Int16}
    (ruled : inodeRule reliable ninodes (.ialloc type) view post) :
    Meets (ialloc type) state (Allowed reliable)
      (Answered reliable ninodes start post) := by
  rcases ruled with ⟨isOpen, _, inUse, met⟩
  rw [ialloc, meets_bind]
  refine meets_logged_open (served.isOpen isOpen)
    (Fs.ialloc_meets _ type _ (allowed_panic reliable _) _ ?_)
  intro inum positive bound free
  refine Meets.mono (Fs.iget_meets _ inum) (fun _ _ => allowed_panic reliable _) ?_
  intro slot next got
  have slots : (next.icache slot).inum = inum ∧ Slots next.toStore (Function.update view.node inum
      { Node.blank with
        type := type, ref := (view.node inum).ref + 1, valid := (view.node inum).valid }) :=
    Slots.got (served.slots.same ⟨fun _ => rfl, fun _ => rfl, fun _ => rfl⟩ fun _ => ⟨rfl, rfl⟩)
      got rfl rfl
  have created := fun sure : reliable => (served.content sure).flushed.create bound free type
  have recached := fun sure : reliable => (created sure).1.got got positive bound
  have unused : reliable → (view.node inum).type = 0 ∧ (view.node inum).valid = false := by
    intro sure
    have content := served.content sure
    have shown := content.shows inum positive (content.count ▸ bound)
    rw [← content.flushed.through inum bound] at shown
    refine ⟨shown.type.trans free, ?_⟩
    rw [← Bool.not_eq_true]
    intro valid
    rcases served.slots.exists_holds valid with ⟨other, _, holds, own⟩
    have typed := content.flushed.cache.typed other holds
    rw [← content.flushed.cache.inode_eq holds, own, ← content.flushed.through inum bound] at typed
    exact typed free
  have made : Served reliable ninodes start (state.after next) (view.setNode inum
      { Node.blank with
        type := type, ref := (view.node inum).ref + 1, valid := (view.node inum).valid }) := by
    refine served.after slots.2 (Or.inl isOpen) (fun sure => ?_) (fun _ => .logWrite got.events)
      (fun sure => (recached sure).untouched.sb) fun sure =>
        (created sure).2.2.1.trans (recached sure).noneAdded
    have inode : next.inode inum = { Dinode.blank with type := type } :=
      ((recached sure).untouched.inode inum bound id).trans (created sure).2.2.2
    have untouched := (created sure).2.1.trans
      ((recached sure).untouched.mono fun _ impossible => impossible.elim)
    refine (served.content sure).change (recached sure).flushed untouched.sb
      (Content.untouched_others untouched fun _ same => same) (fun _ _ => ?_) fun _ => ?_
    · rw [inode]
      exact ⟨rfl, rfl, rfl, rfl⟩
    · rw [Store.contents_of_empty (by rw [inode]; rfl)]
      rfl
  rw [meets_bind, meets_get, meets_bind, meets_mark, meets_pure,
    show ((state.after next).store.icache slot).inum = inum from slots.1]
  refine ⟨_, made.mark (fun _ ordered => ordered) fun sure => ?_, met inum fun sure => ?_⟩
  · apply Nat.eq_zero_of_not_pos
    intro used
    rw [show (state.after next).tables = view.tables from served.tables.symm] at used
    exact inUse sure inum used (unused sure).1
  · exact ⟨positive, (served.content sure).count ▸ bound, unused sure⟩

/-! ## Giving up references -/

omit served in
theorem putNode_released (reliable : Prop) (node : Node) : Released reliable node (putNode node) := by
  refine ⟨?_, ?_, fun _ => rfl⟩
  · unfold putNode
    split
    · rename_i last
      rw [last.1]
    · rfl
  · unfold putNode
    split
    · rename_i last
      rw [last.1]
      simp
    · rfl

theorem iput_respects {post : Unit → View → Prop}
    (ruled : inodeRule reliable ninodes (.iput ip) view post) :
    Meets (iput ip) state (Allowed reliable)
      (Answered reliable ninodes start post) := by
  rcases ruled with ⟨referenced, isOpen, met⟩
  rcases served.slots.exists_slot (Or.inl referenced) with ⟨slot, found, used, own⟩
  have before := served.slots.used slot used
  rw [own] at before
  have released := putNode_released reliable (view.node ip)
  rw [iput, meets_bind]
  refine meets_entry found ?_
  rw [meets_bind, meets_get, meets_bind]
  refine meets_logged_open (served.isOpen isOpen) ?_
  refine Meets.mono (Meets.and_imp (Fs.iput_slots ⟨state.store, []⟩ slot)
    fun sure : reliable => @Flushed.iput ⟨state.store, []⟩ slot (served.content sure).flushed used)
    (fun _ _ => allowed_panic reliable _) ?_
  rintro _ next ⟨⟨inums, others, ref, valid⟩, exactly⟩
  -- On a reliable disk the callers know whether the inode is freed.
  have freeing : reliable → (((view.node ip).ref = 1 ∧ (view.node ip).valid ∧
      (view.node ip).nlink = 0) ↔ (state.store.icache slot).ref = 1 ∧
      (state.store.icache slot).valid ∧ (state.store.icache slot).copy.nlink = 0) := by
    intro sure
    rw [before.1, before.2]
    refine and_congr_right fun _ => and_congr_right fun valid => ?_
    have shown := (served.shown sure ⟨used, valid⟩).1
    rw [own] at shown
    rw [shown.nlink]
  have put : Served reliable ninodes start (state.after next)
      (view.setNode ip (putNode (view.node ip))) := by
    refine served.after (served.slots.change slot (fun jp different =>
      ⟨inums jp, others jp different⟩) (Or.inl ⟨used, own⟩) ((inums slot).trans own) ?_ ?_)
      (Or.inl isOpen) (fun sure => ?_) (fun sure => (exactly sure).2.1) (fun sure => ?_)
      fun sure => (exactly sure).2.2.1
    · rw [released.ref, before.1]
      exact ref.symm
    · rw [released.valid, before.1, before.2, ref]
      by_cases more : 1 < (state.store.icache slot).ref
      · rw [valid more]
        simp [more, Nat.sub_pos_of_lt more]
      · simp only [more, decide_false, Bool.and_false, show ¬0 < (state.store.icache slot).ref - 1 by
          omega, Bool.false_and]
    · rcases exactly sure with ⟨flushed, _, noneAdded, changed⟩
      unfold putNode
      split at changed
      · rename_i last
        rw [if_pos ((freeing sure).mpr last)]
        have shown := (served.shown sure ⟨used, last.2.1⟩).1
        rw [own] at shown
        rw [show ((⟨state.store, []⟩ : Fs.State).icache slot).inum = ip from own] at changed
        refine (served.content sure).change flushed changed.1.sb
          (Content.untouched_others changed.1 fun _ same => same) (fun _ _ => ?_) fun allocated => ?_
        · rw [changed.2]
          exact ⟨rfl, shown.major, shown.minor, shown.nlink⟩
        · have typed := allocated.2.2
          rw [changed.2] at typed
          exact absurd rfl typed
      · rename_i stays
        rw [if_neg fun last => stays ((freeing sure).mp last)]
        exact (served.content sure).recached ⟨flushed, changed, noneAdded⟩ _ _
    · have changed := (exactly sure).2.2.2
      split at changed
      · exact changed.1.sb
      · exact changed.sb
  rw [meets_ite]
  refine ⟨fun last => ?_, fun _ => ⟨_, put, met _ released⟩⟩
  rw [meets_bind, meets_get, meets_mark]
  refine ⟨_, put.mark (fun _ ordered => ⟨isOpen, ordered⟩) fun sure => ?_, met _ released⟩
  rcases exactly sure with ⟨flushed, _, noneAdded, changed⟩
  rw [if_pos last] at changed
  have typeless : (next.inode (state.store.icache slot).inum).type = 0 := by rw [changed.2]
  refine ⟨typeless, fun place isOwn present => ?_⟩
  refine (served.content sure).flushed.unmarked_of_free flushed.toConsistent changed.1.sb noneAdded
    (fun allocated => ?_) present
  rw [isOwn] at allocated
  exact allocated.2.2 typeless

end

/-! ## The kernel -/

theorem serveInode_respects {reliable : Prop} {ninodes : Nat} {start state : State} {view : View}
    (served : Served reliable ninodes start state view) (request : Dir.Request)
    (post : Dir.Answer request → View → Prop)
    (ruled : inodeRule reliable ninodes request view post) :
    Meets (serveInode request) state (Allowed reliable)
      (Answered reliable ninodes start post) := by
  cases request with
  | iget inum => exact iget_respects served ruled
  | idup ip => exact idup_respects served ruled
  | ialloc type => exact ialloc_respects served ruled
  | ilock ip => exact ilock_respects served ruled
  | iput ip => exact iput_respects served ruled
  | fields ip => exact fields_respects served ruled
  | update ip major minor nlink => exact update_respects served ruled
  | readi ip off n => exact readi_respects served ruled
  | writei ip src off => exact writei_respects served ruled
  | tables => exact ⟨view, served, served.tables ▸ ruled⟩
  | setTables tables =>
    exact ⟨{ view with tables := tables }, ⟨served.slots, rfl, served.outstanding,
      served.recorded, served.orphan, served.content, served.sb, served.noneAdded⟩, ruled⟩
  | fail panic => exact allowed_panic reliable panic

theorem serve_respects (reliable : Prop) (ninodes : Nat) (start : State) :
    Respects (use reliable ninodes) serve (Served reliable ninodes start)
      (Allowed reliable) := by
  intro request state view post served ruled
  cases request with
  | beginOp =>
    rcases ruled with ⟨closed, met⟩
    have outstanding := served.outstanding
    rw [closed] at outstanding
    refine ⟨_, ?_, met⟩
    refine ⟨served.slots, served.tables, ?_, ?_, served.orphan, served.content, served.sb,
      served.noneAdded⟩
    · exact congrArg (· + 1) outstanding
    · exact served.recorded.mark (fun _ ordered => ⟨rfl, closed ▸ ordered⟩) fun _ => trivial
  | endOp =>
    rcases ruled with ⟨isOpen, met⟩
    have outstanding := served.outstanding
    rw [isOpen] at outstanding
    refine ⟨_, ?_, met⟩
    refine ⟨served.slots, served.tables, ?_, ?_, served.orphan, served.content, served.sb,
      served.noneAdded⟩
    · exact congrArg (· - 1) outstanding
    · exact served.recorded.mark (fun _ ordered => ⟨rfl, isOpen ▸ ordered⟩) fun _ => trivial
  | inode request => exact serveInode_respects served request post ruled
  | fileread => exact ⟨nofun, fun _ => nofun⟩

end Xv6.Sys
