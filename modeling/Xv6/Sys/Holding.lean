import Xv6.Sys.Discipline

/-! # References held by a call

The functions of the inode layer, and those on directories and paths, in the
middle of a call: which references they leave to the call, and that they leave
alone what the call and the open files refer to.
-/

namespace Xv6.Sys

open Interaction Dir View
open Dir (Tables File Node Fields Dirent entryAt putEntry DIRENTSIZE DIRSIZ)
open Fs (readBytes writeBytes WriteRefused T_DIR T_DEV ROOTINO)

variable {node : Node} {post : Unit → View → Prop} {type : Int16}

section

variable {reliable : Prop} {ninodes : Nat} {view after final : View} {pending left : List Nat}
  {ip : Nat}

/-! ## Changing an inode -/

section

variable (holding : Holding reliable ninodes view pending)
include holding

theorem Holding.setNode (refs : ∀ inum, ((view.setNode ip node).node inum).ref =
      view.tables.refs inum + left.count inum)
    (inRange : reliable → 0 < (view.node ip).ref ∨ (0 < ip ∧ ip < ninodes))
    (type : reliable → 0 < view.tables.refs ip → node.type = (view.node ip).type)
    (linked : reliable → 0 < view.tables.refs ip → node.valid = true ∨
      node.valid = (view.node ip).valid ∧ node.nlink = (view.node ip).nlink)
    (ranged : reliable → node.type = T_DIR → Ranged ninodes node.data)
    (live : reliable → node.type ≠ 0 → node.nlink = 0 → node.valid = true ∨ view.orphan ip) :
    Holding reliable ninodes (view.setNode ip node) left where
  refs := refs
  idle := holding.idle
  inRange := by
    intro sure inum used
    by_cases same : inum = ip
    · subst same
      rcases inRange sure with wasUsed | known
      · exact holding.inRange sure inum wasUsed
      · exact known
    · rw [setNode_of_ne same] at used
      exact holding.inRange sure inum used
  typed := by
    intro sure inum used
    by_cases same : inum = ip
    · subst same
      rw [setNode_self, type sure used]
      exact holding.typed sure inum used
    · rw [setNode_of_ne same]
      exact holding.typed sure inum used
  linked := by
    intro sure inum used
    by_cases same : inum = ip
    · subst same
      rw [setNode_self]
      rcases linked sure used with valid | ⟨valid, nlink⟩
      · exact Or.inl valid
      · rw [valid, nlink]
        exact holding.linked sure inum used
    · rw [setNode_of_ne same]
      exact holding.linked sure inum used
  writable := by
    intro sure file member isInode writable
    have notDir := holding.writable sure file member isInode writable
    by_cases same : file.ip = ip
    · have used : 0 < view.tables.refs ip := by
        have counted : 0 < view.tables.ftable.countP (File.refersTo · ip) :=
          List.countP_pos_iff.mpr ⟨file, member, by simp [File.refersTo, isInode, same]⟩
        rw [Tables.refs]
        omega
      rw [same] at notDir ⊢
      rw [setNode_self, type sure used]
      exact notDir
    · rw [setNode_of_ne same]
      exact notDir
  ranged := by
    intro sure inum isDir
    by_cases same : inum = ip
    · subst same
      rw [setNode_self] at isDir ⊢
      exact ranged sure isDir
    · rw [setNode_of_ne same] at isDir ⊢
      exact holding.ranged sure inum isDir
  live := by
    intro sure inum
    by_cases same : inum = ip
    · subst same
      rw [setNode_self]
      exact live sure
    · rw [setNode_of_ne same]
      exact holding.live sure inum

theorem Holding.refs_setNode
    (own : node.ref + pending.count ip = (view.node ip).ref + left.count ip)
    (others : ∀ inum, inum ≠ ip → left.count inum = pending.count inum) (inum : Nat) :
    ((view.setNode ip node).node inum).ref = view.tables.refs inum + left.count inum := by
  have before := holding.refs inum
  by_cases same : inum = ip
  · subst same
    rw [setNode_self]
    omega
  · rw [setNode_of_ne same, others inum same]
    exact before

theorem Holding.mem_used (member : ip ∈ pending) :
    0 < (view.node ip).ref := by
  have counted := List.count_pos_iff.mpr member
  rw [holding.refs]
  omega

/-- The order of the pending references does not matter. -/
theorem Holding.perm (same : pending.Perm left) :
    Holding reliable ninodes view left where
  refs := fun inum => by rw [← same.count_eq]; exact holding.refs inum
  idle := holding.idle
  inRange := holding.inRange
  typed := holding.typed
  linked := holding.linked
  writable := holding.writable
  ranged := holding.ranged
  live := holding.live

theorem Holding.congr (node : after.node = view.node) (tables : after.tables = view.tables)
    (orphan : after.orphan = view.orphan) : Holding reliable ninodes after pending := by
  rcases view with ⟨_, _, _, _, _⟩
  rcases after with ⟨_, _, _, _, _⟩
  simp only at node tables orphan
  subst node tables orphan
  exact ⟨holding.refs, holding.idle, holding.inRange, holding.typed, holding.linked,
    holding.writable, holding.ranged, holding.live⟩

end

theorem held_of_mem (view : View) (member : ip ∈ pending) :
    0 < view.tables.refs ip + pending.count ip := by
  have counted := List.count_pos_iff.mpr member
  omega

namespace Keeps

theorem refl (pending : List Nat) (view : View) : Keeps reliable pending view view where
  tables := rfl
  trans := rfl
  valid := fun _ _ valid => valid
  type := fun _ _ _ _ => rfl
  data := fun _ _ _ _ _ => rfl

theorem trans' (first : Keeps reliable pending view after)
    (second : Keeps reliable pending after final) : Keeps reliable pending view final where
  tables := second.tables.trans first.tables
  trans := second.trans.trans first.trans
  valid := fun inum used valid =>
    second.valid inum (by rw [first.tables]; exact used) (first.valid inum used valid)
  type := by
    intro sure inum used typed
    have early := first.type sure inum used typed
    rw [← early]
    exact second.type sure inum (by rw [first.tables]; exact used) (by rw [early]; exact typed)
  data := by
    intro sure inum used typed notDir
    have early := first.type sure inum used typed
    rw [← first.data sure inum used typed notDir]
    exact second.data sure inum (by rw [first.tables]; exact used) (by rw [early]; exact typed)
      (by rw [early]; exact notDir)

theorem mono (keeps : Keeps reliable left view after)
    (fewer : ∀ inum, 0 < pending.count inum → 0 < left.count inum) :
    Keeps reliable pending view after where
  tables := keeps.tables
  trans := keeps.trans
  valid := fun inum used => keeps.valid inum (by have := fewer inum; omega)
  type := fun sure inum used => keeps.type sure inum (by have := fewer inum; omega)
  data := fun sure inum used => keeps.data sure inum (by have := fewer inum; omega)

theorem append_right (keeps : Keeps reliable (left ++ pending) view after) :
    Keeps reliable pending view after :=
  keeps.mono fun inum counted => by
    rw [List.count_append]
    omega

theorem setNode (valid : 0 < view.tables.refs ip + pending.count ip → (view.node ip).valid = true →
      node.valid = true)
    (type : reliable → 0 < view.tables.refs ip + pending.count ip → (view.node ip).type ≠ 0 →
      node.type = (view.node ip).type)
    (data : reliable → 0 < view.tables.refs ip + pending.count ip → (view.node ip).type ≠ 0 →
      (view.node ip).type ≠ T_DIR → node.data = (view.node ip).data) :
    Keeps reliable pending view (view.setNode ip node) where
  tables := rfl
  trans := rfl
  valid := by
    intro inum used isValid
    by_cases same : inum = ip
    · subst same
      rw [setNode_self]
      exact valid used isValid
    · rw [setNode_of_ne same]
      exact isValid
  type := by
    intro sure inum used typed
    by_cases same : inum = ip
    · subst same
      rw [setNode_self]
      exact type sure used typed
    · rw [setNode_of_ne same]
  data := by
    intro sure inum used typed notDir
    by_cases same : inum = ip
    · subst same
      rw [setNode_self]
      exact data sure used typed notDir
    · rw [setNode_of_ne same]

end Keeps

namespace Reads

theorem refl (pending : List Nat) (view : View) : Reads reliable pending view view where
  toKeeps := .refl pending view
  wrote := rfl
  nlink := fun _ _ _ _ => rfl

theorem trans' (first : Reads reliable pending view after)
    (second : Reads reliable pending after final) : Reads reliable pending view final where
  toKeeps := first.toKeeps.trans' second.toKeeps
  wrote := second.wrote.trans first.wrote
  nlink := by
    intro sure inum used typed
    rw [← first.nlink sure inum used typed]
    refine second.nlink sure inum (by rw [first.tables]; exact used) ?_
    rw [first.type sure inum used typed]
    exact typed

theorem append_right (reads : Reads reliable (left ++ pending) view after) :
    Reads reliable pending view after where
  toKeeps := reads.toKeeps.append_right
  wrote := reads.wrote
  nlink := fun sure inum used => reads.nlink sure inum (by
    rw [List.count_append]
    omega)

theorem setNode (valid : 0 < view.tables.refs ip + pending.count ip → (view.node ip).valid = true →
      node.valid = true) (content : reliable → 0 < view.tables.refs ip + pending.count ip →
      node.type = (view.node ip).type ∧ node.nlink = (view.node ip).nlink ∧
        node.data = (view.node ip).data) :
    Reads reliable pending view (view.setNode ip node) where
  toKeeps := .setNode valid (fun sure used _ => (content sure used).1)
    fun sure used _ _ => (content sure used).2.2
  wrote := rfl
  nlink := by
    intro sure inum used _
    by_cases same : inum = ip
    · subst same
      rw [setNode_self]
      exact (content sure used).2.1
    · rw [setNode_of_ne same]

end Reads

theorem Locked.keep (locked : Locked reliable view ip) (keeps : Keeps reliable pending view after)
    (used : 0 < view.tables.refs ip + pending.count ip) : Locked reliable after ip where
  valid := keeps.valid ip used locked.valid
  typed := by
    intro sure
    rw [keeps.type sure ip used (locked.typed sure)]
    exact locked.typed sure

/-! ## The functions of the inode layer -/

section

variable (holding : Holding reliable ninodes view pending)

include holding

theorem Holding.addRef (ip : Nat)
    (inRange : reliable → 0 < (view.node ip).ref ∨ (0 < ip ∧ ip < ninodes)) :
    Holding reliable ninodes
        (view.setNode ip { view.node ip with ref := (view.node ip).ref + 1 }) (ip :: pending) ∧
      Reads reliable pending view
        (view.setNode ip { view.node ip with ref := (view.node ip).ref + 1 }) := by
  refine ⟨holding.setNode (holding.refs_setNode ?_ ?_) inRange (fun _ _ => rfl)
    (fun _ _ => Or.inr ⟨rfl, rfl⟩) (fun sure => holding.ranged sure ip)
    (fun sure => holding.live sure ip), .setNode (fun _ valid => valid) fun _ _ => ⟨rfl, rfl, rfl⟩⟩
  · rw [List.count_cons_self]
    exact Nat.add_right_comm ..
  · intro inum different
    exact List.count_cons_of_ne (Ne.symm different)

theorem iget_obeys (range : reliable → 0 < ip ∧ ip < ninodes) :
    Obeys (inodeUse reliable ninodes) (iget ip) view fun result after =>
      result = ip ∧ Holding reliable ninodes after (ip :: pending) ∧
        Reads reliable pending view after :=
  ⟨range, rfl, holding.addRef ip fun sure => Or.inr (range sure)⟩

theorem idup_obeys (used : 0 < (view.node ip).ref) :
    Obeys (inodeUse reliable ninodes) (idup ip) view fun result after =>
      result = ip ∧ Holding reliable ninodes after (ip :: pending) ∧
        Reads reliable pending view after :=
  ⟨used, rfl, holding.addRef ip fun _ => Or.inl used⟩

theorem ilock_obeys (used : 0 < (view.node ip).ref) :
    Obeys (inodeUse reliable ninodes) (ilock ip) view fun _ after =>
      Holding reliable ninodes after pending ∧ Reads reliable pending view after ∧
        Locked reliable after ip := by
  refine ⟨used, fun typed => ⟨holding.setNode (holding.refs_setNode rfl fun _ _ => rfl)
    (fun _ => Or.inl used) (fun _ _ => rfl) (fun _ _ => Or.inl rfl)
    (fun sure => holding.ranged sure ip) (fun _ _ _ => Or.inl rfl), .setNode (fun _ _ => rfl) fun _ _ => ⟨rfl, rfl, rfl⟩, ?_, ?_⟩⟩
  · rw [setNode_self]
  · rw [setNode_self]
    exact typed

theorem update_obeys (used : 0 < (view.node ip).ref) (locked : Locked reliable view ip)
    (open_ : view.trans = true)
    (major minor nlink : Int16) :
    Obeys (inodeUse reliable ninodes) (update ip major minor nlink) view fun _ after =>
      Holding reliable ninodes after pending ∧ Keeps reliable pending view after := by
  refine ⟨locked.valid, open_, holding.setNode (holding.refs_setNode rfl fun _ _ => rfl)
    (fun _ => Or.inl used) (fun _ _ => rfl) (fun _ _ => Or.inl locked.valid)
    (fun sure => holding.ranged sure ip) (fun _ _ _ => Or.inl locked.valid),
    .setNode (fun _ valid => valid) (fun _ _ _ => rfl) fun _ _ _ _ => rfl⟩

end

theorem fields_obeys (locked : Locked reliable view ip) {post : Fields → View → Prop}
    (met : ∀ inode, (reliable → inode = nodeFields (view.node ip)) → post inode view) :
    Obeys (inodeUse reliable ninodes) (fields ip) view post :=
  ⟨locked.valid, met⟩

theorem readi_obeys (locked : Locked reliable view ip) (off n : UInt32)
    {post : Int × List UInt8 → View → Prop}
    (met : ∀ answer, (reliable → (view.node ip).type ≠ T_DEV →
      answer = readBytes (view.node ip).data off.toNat n.toNat) → post answer view) :
    Obeys (inodeUse reliable ninodes) (readi ip off n) view post :=
  ⟨locked.valid, met⟩

/-- Giving up a reference of the call. The inode is freed only if there is no other
one. -/
theorem Holding.put (holding : Holding reliable ninodes view (ip :: pending))
    (released : Released reliable (view.node ip) node) :
    Holding reliable ninodes (view.setNode ip node) pending ∧
      Reads reliable pending view (view.setNode ip node) := by
  have used := holding.mem_used List.mem_cons_self
  have count := holding.refs ip
  rw [List.count_cons_self] at count
  have shared : 0 < view.tables.refs ip + pending.count ip → node = { view.node ip with
      ref := (view.node ip).ref - 1, valid := (view.node ip).valid && 1 < (view.node ip).ref } := by
    intro others
    rw [released.content (Or.inr (by omega)), putNode, if_neg]
    rintro ⟨last, _⟩
    omega
  refine ⟨holding.setNode (holding.refs_setNode ?_ ?_) (fun _ => Or.inl used) ?_ ?_ ?_ ?_,
    .setNode ?_ ?_⟩
  · rw [List.count_cons_self, released.ref]
    omega
  · intro inum different
    exact (List.count_cons_of_ne (Ne.symm different)).symm
  · intro _ others
    rw [shared (by omega)]
  · intro _ others
    rw [shared (by omega)]
    refine Or.inr ⟨?_, rfl⟩
    have more : 1 < (view.node ip).ref := by omega
    simp only [more, decide_true, Bool.and_true]
  · intro sure isDir
    rw [released.content (Or.inl sure), putNode] at isDir ⊢
    split at isDir
    · exact absurd isDir (show (0 : Int16) ≠ T_DIR by decide)
    · rename_i stays
      rw [if_neg stays]
      exact holding.ranged sure ip isDir
  · intro sure
    rw [released.content (Or.inl sure), putNode]
    split
    · exact fun typed => absurd rfl typed
    · rename_i stays
      intro typed unlinked
      refine (holding.live sure ip typed unlinked).imp_left fun valid => ?_
      have more : 1 < (view.node ip).ref := by
        have several : (view.node ip).ref ≠ 1 := fun last => stays ⟨last, valid, unlinked⟩
        omega
      simp only [valid, more, decide_true, Bool.and_true]
  · intro others valid
    have more : 1 < (view.node ip).ref := by omega
    rw [shared others]
    simp only [valid, more, decide_true, Bool.and_true]
  · intro _ others
    rw [shared others]
    exact ⟨rfl, rfl, rfl⟩

theorem iput_obeys (holding : Holding reliable ninodes view (ip :: pending))
    (open_ : view.trans = true) :
    Obeys (inodeUse reliable ninodes) (iput ip) view fun _ after =>
      Holding reliable ninodes after pending ∧ Reads reliable pending view after :=
  ⟨holding.mem_used List.mem_cons_self, open_, fun _ released => holding.put released⟩

theorem ialloc_ilock_obeys (holding : Holding reliable ninodes view pending)
    (open_ : view.trans = true) (typed : type ≠ 0) :
    Obeys (inodeUse reliable ninodes) (ialloc type) view fun ip allocated =>
      Obeys (inodeUse reliable ninodes) (ilock ip) allocated fun _ after =>
        Holding reliable ninodes after (ip :: pending) ∧ Keeps reliable pending view after ∧
          Locked reliable after ip ∧ (reliable → (after.node ip).type = type) := by
  refine ⟨open_, typed, holding.typed, fun ip known => ⟨?_, fun _ => ?_⟩⟩
  · rw [setNode_self]
    exact Nat.succ_pos _
  rw [setNode_self, setNode_setNode]
  refine ⟨holding.setNode (holding.refs_setNode ?_ ?_)
    (fun sure => Or.inr ⟨(known sure).1, (known sure).2.1⟩) ?_ ?_ ?_ (fun _ _ _ => Or.inl rfl),
    .setNode (fun _ _ => rfl) ?_ ?_, ⟨?_, ?_⟩, ?_⟩
  · rw [List.count_cons_self]
    exact Nat.add_right_comm ..
  · intro inum different
    exact List.count_cons_of_ne (Ne.symm different)
  · intro sure used
    exact absurd (known sure).2.2.1 (holding.typed sure ip used)
  · intro sure used
    exact absurd (known sure).2.2.1 (holding.typed sure ip used)
  · intro _ _
    exact Ranged.nil ninodes
  · intro sure _ wasTyped
    exact absurd (known sure).2.2.1 wasTyped
  · intro sure _ wasTyped
    exact absurd (known sure).2.2.1 wasTyped
  · rw [setNode_self]
  · intro _
    rw [setNode_self]
    exact typed
  · intro _
    rw [setNode_self]

end

/-! ## In the middle of a call -/

/-- Where a call stands in its transaction. It began with `start`, holding the
references `base`, and has `taken` more since. If it is `quiet` it has not written. -/
structure During (reliable : Prop) (ninodes : Nat) (quiet : Prop) (start : View)
    (base taken : List Nat) (now : View) : Prop where
  holding : Holding reliable ninodes now (taken ++ base)
  keeps : Keeps reliable base start now
  isOpen : now.trans = true
  reads : quiet → Reads reliable base start now

namespace During

variable {reliable quiet : Prop} {ninodes : Nat} {start now after : View}
  {base taken kept rest : List Nat} {p ip dp : Nat}

theorem begin_ (holding : Holding reliable ninodes start base) (isOpen : start.trans = true) :
    During reliable ninodes quiet start base [] start :=
  ⟨holding, .refl base start, isOpen, fun _ => .refl base start⟩

theorem swap (during : During reliable ninodes quiet start base (ip :: dp :: taken) now) :
    During reliable ninodes quiet start base (dp :: ip :: taken) now :=
  ⟨during.holding.perm (.swap ..), during.keeps, during.isOpen, during.reads⟩

section

variable (during : During reliable ninodes quiet start base taken now)

include during

/-- The references `kept` have been held all the time. -/
theorem read (held : Holding reliable ninodes after (rest ++ base))
    (reads : Reads reliable (kept ++ base) now after) :
    During reliable ninodes quiet start base rest after :=
  ⟨held, during.keeps.trans' reads.toKeeps.append_right, reads.trans.trans during.isOpen,
    fun silent => (during.reads silent).trans' reads.append_right⟩

theorem loud : During reliable ninodes False start base taken now :=
  ⟨during.holding, during.keeps, during.isOpen, False.elim⟩

theorem write (held : Holding reliable ninodes after (rest ++ base))
    (keeps : Keeps reliable (kept ++ base) now after) :
    During reliable ninodes False start base rest after :=
  ⟨held, during.keeps.trans' keeps.append_right, keeps.trans.trans during.isOpen, False.elim⟩

theorem used (member : ip ∈ taken ++ base) : 0 < (now.node ip).ref :=
  during.holding.mem_used member

theorem inRange (member : ip ∈ taken ++ base) (sure : reliable) : ip < ninodes :=
  (during.holding.inRange sure ip (during.used member)).2

theorem ilock (member : ip ∈ taken ++ base)
    (met : ∀ after, During reliable ninodes quiet start base taken after →
      Reads reliable (taken ++ base) now after → Locked reliable after ip → post () after) :
    Obeys (inodeUse reliable ninodes) (ilock ip) now post := by
  refine (ilock_obeys during.holding (during.used member)).imp ?_
  rintro _ after ⟨held, reads, locked⟩
  exact met after (during.read held reads) reads locked

theorem update (member : ip ∈ taken ++ base) (locked : Locked reliable now ip)
    (major minor nlink : Int16)
    (met : ∀ after, During reliable ninodes False start base taken after →
      Keeps reliable (taken ++ base) now after → post () after) :
    Obeys (inodeUse reliable ninodes) (update ip major minor nlink) now post := by
  refine (update_obeys during.holding (during.used member) locked during.isOpen _ _ _).imp ?_
  rintro _ after ⟨held, keeps⟩
  exact met after (during.write held keeps) keeps

theorem setNlink (member : ip ∈ taken ++ base) (locked : Locked reliable now ip)
    (change : Int16 → Int16) (met : ∀ after, During reliable ninodes False start base taken after →
      Keeps reliable (taken ++ base) now after → post () after) :
    Obeys (inodeUse reliable ninodes) (setNlink ip change) now post :=
  ⟨locked.valid, fun _ _ => during.update member locked _ _ _ met⟩

theorem cwd {proc : Dir.Proc} (found : start.tables.proc p = some proc) {post : Nat → View → Prop}
    (met : ∀ cwd, 0 < (now.node cwd).ref → post cwd now) :
    Obeys (inodeUse reliable ninodes) (cwd p) now post := by
  rw [← during.keeps.tables] at found
  have counted := Tables.cwd_refs_pos found
  refine met _ ?_
  rw [found, during.holding.refs]
  exact Nat.lt_of_lt_of_le counted (Nat.le_add_right _ _)

end

theorem iput (during : During reliable ninodes quiet start base (ip :: taken) now)
    (met : ∀ after, During reliable ninodes quiet start base taken after →
      Reads reliable (taken ++ base) now after → post () after) :
    Obeys (inodeUse reliable ninodes) (iput ip) now post := by
  refine (iput_obeys during.holding during.isOpen).imp ?_
  rintro _ after ⟨held, reads⟩
  exact met after (during.read held reads) reads

end During

/-! ## Directories -/

section

variable {reliable quiet : Prop} {ninodes : Nat} {start now : View} {base taken : List Nat}
  {dp : Nat}

/-- The offset of an entry, as the number that `readi` gets. -/
theorem toNat_ofNat_entry (k : Nat) :
    ∃ index, (UInt32.ofNat (DIRENTSIZE * k)).toNat = DIRENTSIZE * index := by
  refine ⟨k % 2 ^ 28, ?_⟩
  rw [UInt32.toNat_ofNat']
  simp only [DIRENTSIZE]
  omega

/-- The number of an entry is cut to sixteen bits when it is stored. -/
theorem store_mod (de : Dirent) : de.store = Dirent.store { de with inum := de.inum % 65536 } := by
  have low : UInt8.ofNat de.inum = UInt8.ofNat (de.inum % 65536) := by
    apply UInt8.toNat_inj.mp
    simp only [UInt8.toNat_ofNat']
    omega
  have high : UInt8.ofNat (de.inum / 256) = UInt8.ofNat (de.inum % 65536 / 256) := by
    apply UInt8.toNat_inj.mp
    simp only [UInt8.toNat_ofNat']
    omega
  rw [Dirent.store, Dirent.store, low, high]

theorem Ranged.putEntry {data : List UInt8} (ranged : Ranged ninodes data) {de : Dirent}
    (name : de.name.length = DIRSIZ) (inRange : de.inum < ninodes) {k : Nat}
    (bound : DIRENTSIZE * k ≤ data.length) : Ranged ninodes (putEntry data k de) := by
  intro other full
  rw [length_putEntry] at full
  by_cases same : other = k
  · subst same
    have cut : Dir.putEntry data other de =
        Dir.putEntry data other { de with inum := de.inum % 65536 } := by
      rw [Dir.putEntry, store_mod, Dir.putEntry]
    have fits : Dirent.Fits { de with inum := de.inum % 65536 } :=
      ⟨Nat.mod_lt _ (by decide), name⟩
    rw [cut, entryAt, direntAt_putEntry_self fits]
    exact Nat.lt_of_le_of_lt (Nat.mod_le _ _) inRange
  · have inside : DIRENTSIZE * other + DIRENTSIZE ≤ data.length := by
      simp only [DIRENTSIZE] at *
      omega
    rw [entryAt, direntAt_putEntry_of_apart de same (Or.inl inside)]
    exact ranged other inside

namespace During

section

variable (during : During reliable ninodes quiet start base taken now)
  (locked : Locked reliable now dp)

include during locked

theorem readable (isDir : reliable → (now.node dp).type = T_DIR) (size : Nat)
    (failure : Dir.Panic) :
    Dir.Readable (inodeUse reliable ninodes) now dp size failure fun _ de =>
      reliable → de.inum < ninodes := by
  intro k _
  rw [readEntry, obeys_bind]
  refine readi_obeys locked _ _ fun answer known => ?_
  rw [obeys_ite]
  refine ⟨fun _ => obeys_panic _ _, fun complete => ⟨rfl, fun sure => ?_⟩⟩
  obtain ⟨index, offset⟩ := toNat_ofNat_entry k
  have type := isDir sure
  have read := known sure (by rw [type]; decide)
  rw [offset, show (UInt32.ofNat DIRENTSIZE).toNat = DIRENTSIZE by decide, readBytes] at read
  subst read
  split at complete
  · exact absurd (by decide) complete
  · rename_i accepted
    rw [if_neg accepted]
    refine during.holding.ranged sure dp type index ?_
    rw [not_not, List.length_take, List.length_drop] at complete
    simp only [DIRENTSIZE] at *
    omega

/-- A lookup succeeds only in a directory. -/
theorem dirlookup (name : List UInt8) {post : Option (Nat × Nat) → View → Prop}
    (missing : (reliable → (now.node dp).type = T_DIR) → post none now)
    (found : ∀ ip k after, During reliable ninodes quiet start base (ip :: taken) after →
      Reads reliable (taken ++ base) now after → (reliable → (now.node dp).type = T_DIR) →
      post (some (ip, DIRENTSIZE * k)) after) :
    Obeys (inodeUse reliable ninodes) (dirlookup dp name) now post := by
  rw [Dir.dirlookup, obeys_bind]
  refine fields_obeys locked fun inode known => ?_
  rw [obeys_ite]
  refine ⟨fun _ => obeys_panic _ _, fun isDir => ?_⟩
  have type : reliable → (now.node dp).type = T_DIR := by
    intro sure
    rw [known sure, not_not] at isDir
    exact isDir
  refine dirlookupLoop_obeys (during.readable locked type _ _) ?_ fun _ => missing type
  rintro k de inRange ⟨used, _⟩
  refine (iget_obeys during.holding fun sure => ⟨Nat.pos_of_ne_zero used, inRange sure⟩).imp ?_
  rintro _ after ⟨rfl, held, reads⟩
  exact found _ k after (during.read held reads) reads type

theorem isdirempty (isDir : reliable → (now.node dp).type = T_DIR) {post : Bool → View → Prop}
    (met : ∀ empty, post empty now) :
    Obeys (inodeUse reliable ninodes) (isdirempty dp) now post := by
  rw [Dir.isdirempty, obeys_bind]
  refine fields_obeys locked fun inode _ => ?_
  exact isdiremptyLoop_obeys (during.readable locked isDir _ _) (fun _ _ _ _ _ => met false)
    fun _ => met true

theorem writeEntry (member : dp ∈ taken ++ base) (isDir : reliable → (now.node dp).type = T_DIR)
    (k : Nat) {de : Dirent} (name : de.name.length = DIRSIZ) (inRange : reliable → de.inum < ninodes)
    {post : Int → View → Prop}
    (met : ∀ count after, During reliable ninodes False start base taken after →
      Keeps reliable (taken ++ base) now after → post count after) :
    Obeys (inodeUse reliable ninodes) (writei dp de.store (UInt32.ofNat (DIRENTSIZE * k))) now
      post := by
  refine ⟨locked.valid, during.isOpen, fun result data known => ?_⟩
  have held : Holding reliable ninodes
      (now.setNode dp { now.node dp with data := data }) (taken ++ base) := by
    refine during.holding.setNode (during.holding.refs_setNode rfl fun _ _ => rfl)
      (fun _ => Or.inl (during.used member)) (fun _ _ => rfl) (fun _ _ => Or.inr ⟨rfl, rfl⟩) ?_
      (fun sure => during.holding.live sure dp)
    intro sure isDirNow
    have ranged := during.holding.ranged sure dp isDirNow
    have outcome := known sure
    have notDevice : (now.node dp).type ≠ T_DEV := by
      rw [isDir sure]
      decide
    have length : de.store.length = DIRENTSIZE := by simp [Dirent.store, name]
    obtain ⟨index, offset⟩ := toNat_ofNat_entry k
    rw [WriteOutcome, if_neg notDevice, length, offset,
      show (UInt32.ofNat DIRENTSIZE).toNat = DIRENTSIZE by decide, writeBytes] at outcome
    split at outcome
    · simp only [Prod.mk.injEq] at outcome
      rw [outcome.2]
      exact ranged
    · rename_i accepted
      simp only [Prod.mk.injEq] at outcome
      rw [outcome.2]
      rw [WriteRefused] at accepted
      exact ranged.putEntry name (inRange sure) (by omega)
  have keeps : Keeps reliable (taken ++ base) now
      (now.setNode dp { now.node dp with data := data }) :=
    .setNode (fun _ valid => valid) (fun _ _ _ => rfl) fun sure _ _ notDir =>
      absurd (isDir sure) notDir
  have written : Keeps reliable (taken ++ base) now
      { now.setNode dp { now.node dp with data := data } with wrote := true } :=
    ⟨keeps.tables, keeps.trans, keeps.valid, keeps.type, keeps.data⟩
  exact met result _ (during.write (held.congr rfl rfl rfl) written) written

theorem dirlink (member : dp ∈ taken ++ base) (name : List UInt8) {inum : Nat}
    (inRange : reliable → inum < ninodes) {post : Int → View → Prop}
    (met : ∀ result after, During reliable ninodes False start base taken after →
      Keeps reliable (taken ++ base) now after → post result after) :
    Obeys (inodeUse reliable ninodes) (dirlink dp name inum) now post := by
  rw [Dir.dirlink, obeys_bind]
  refine during.dirlookup locked name (fun isDir => ?_) fun ip k looked lookedDuring reads _ => ?_
  · simp only [obeys_bind]
    refine fields_obeys locked fun inode _ => ?_
    refine emptyEntryLoop_obeys (during.readable locked isDir _ _) fun k _ _ => ?_
    refine during.writeEntry locked member isDir k (strncpy_length name DIRSIZ) inRange
      fun count after written keeps => ?_
    rw [obeys_ite]
    exact ⟨fun _ => obeys_panic _ _, fun _ => met 0 after written keeps⟩
  · simp only [obeys_bind]
    refine lookedDuring.iput fun after dropped more => ?_
    have keeps := (reads.trans' more).toKeeps
    exact met (-1) after (during.write dropped.holding keeps) keeps

end

/-! ## Paths -/

theorem namexLoop (nameiparent : Bool) {post : Option (Nat × List UInt8) → View → Prop}
    (missing : ∀ after, During reliable ninodes quiet start base taken after → post none after)
    (found : ∀ ip name after, During reliable ninodes quiet start base (ip :: taken) after →
      post (some (ip, name)) after) : ∀ (passes : Nat) (path name : List UInt8) (ip : Nat)
    (now : View), path.length < passes →
    During reliable ninodes quiet start base (ip :: taken) now →
    Obeys (inodeUse reliable ninodes) (namexLoop nameiparent passes path name ip) now post := by
  have drop : ∀ ip now, During reliable ninodes quiet start base (ip :: taken) now →
      Obeys (inodeUse reliable ninodes) (do Dir.iput ip; return none) now post := by
    intro ip now during
    rw [obeys_bind]
    exact during.iput fun after dropped _ => missing after dropped
  intro passes
  induction passes with
  | zero => exact fun path _ _ _ impossible => absurd impossible (Nat.not_lt_zero _)
  | succ passes induction =>
    intro path name ip now enough during
    rw [Dir.namexLoop]
    split
    · rename_i element rest skipped
      have shorter := skipelem_length skipped
      simp only [obeys_bind]
      refine during.ilock List.mem_cons_self fun locking lockedDuring _ locked => ?_
      refine fields_obeys locked fun inode _ => ?_
      rw [obeys_ite]
      refine ⟨fun _ => drop ip locking lockedDuring, fun _ => ?_⟩
      rw [obeys_ite]
      refine ⟨fun _ => found ip element locking lockedDuring, fun _ => ?_⟩
      rw [obeys_bind]
      refine lockedDuring.dirlookup locked element (fun _ => drop ip locking lockedDuring)
        fun next k looked lookedDuring _ _ => ?_
      simp only [obeys_bind]
      refine lookedDuring.swap.iput fun last dropped _ => ?_
      exact induction rest element next last (by omega) dropped
    · rw [obeys_ite]
      exact ⟨fun _ => drop ip now during, fun _ => found ip name now during⟩

section

variable (during : During reliable ninodes quiet start base taken now)
  (root : reliable → ROOTINO < ninodes) {cwd : Nat} (used : 0 < (now.node cwd).ref)

include during root used

theorem namex (path : List UInt8) (nameiparent : Bool)
    {post : Option (Nat × List UInt8) → View → Prop}
    (missing : ∀ after, During reliable ninodes quiet start base taken after → post none after)
    (found : ∀ ip name after, During reliable ninodes quiet start base (ip :: taken) after →
      post (some (ip, name)) after) :
    Obeys (inodeUse reliable ninodes) (namex cwd path nameiparent) now post := by
  have walk : ∀ (ip : Nat) (after : View), Holding reliable ninodes after (ip :: taken ++ base) →
      Reads reliable (taken ++ base) now after → Obeys (inodeUse reliable ninodes)
        (Dir.namexLoop nameiparent (path.length + 1) path [] ip) after post := by
    intro ip after held reads
    exact namexLoop nameiparent missing found _ path [] ip after (Nat.lt_succ_self _)
      (during.read held reads)
  rw [Dir.namex, obeys_ite, obeys_bind, obeys_bind]
  refine ⟨fun _ => (iget_obeys during.holding fun sure => ⟨by decide, root sure⟩).imp ?_,
    fun _ => (idup_obeys during.holding used).imp ?_⟩
  · rintro ip after ⟨rfl, held, reads⟩
    exact walk _ after held reads
  · rintro ip after ⟨rfl, held, reads⟩
    exact walk _ after held reads

theorem nameiparent (path : List UInt8) {post : Option (Nat × List UInt8) → View → Prop}
    (missing : ∀ after, During reliable ninodes quiet start base taken after → post none after)
    (found : ∀ dp name after, During reliable ninodes quiet start base (dp :: taken) after →
      post (some (dp, name)) after) :
    Obeys (inodeUse reliable ninodes) (nameiparent cwd path) now post :=
  during.namex root used path true missing found

theorem namei (path : List UInt8) {post : Option Nat → View → Prop}
    (missing : ∀ after, During reliable ninodes quiet start base taken after → post none after)
    (found : ∀ ip after, During reliable ninodes quiet start base (ip :: taken) after →
      post (some ip) after) :
    Obeys (inodeUse reliable ninodes) (namei cwd path) now post := by
  rw [Dir.namei, obeys_bind]
  exact during.namex root used path false missing fun ip _ => found ip

end

/-! ## Creating a file -/

theorem makeDots {ip : Nat}
    (during : During reliable ninodes quiet start base (ip :: dp :: taken) now)
    (ipLocked : Locked reliable now ip) (dpLocked : Locked reliable now dp)
    (met : ∀ after, During reliable ninodes False start base (ip :: dp :: taken) after →
      Keeps reliable (ip :: dp :: taken ++ base) now after → post () after) :
    Obeys (inodeUse reliable ninodes) (makeDots ip dp) now post := by
  have ipMember : ip ∈ ip :: dp :: taken ++ base := List.mem_cons_self
  have dpMember : dp ∈ ip :: dp :: taken ++ base := List.mem_cons_of_mem ip List.mem_cons_self
  rw [Dir.makeDots, obeys_bind]
  refine during.setNlink dpMember dpLocked _ fun counted countedDuring keeps => ?_
  rw [obeys_bind]
  refine countedDuring.dirlink (ipLocked.keep keeps (held_of_mem _ ipMember)) ipMember _
    (during.inRange ipMember) fun first dotted dottedDuring more => ?_
  have whole := keeps.trans' more
  rw [obeys_ite]
  refine ⟨fun failed => ?_, fun _ => ?_⟩
  · simp only [pure_bind, if_pos failed]
    exact obeys_panic _ _
  · rw [obeys_bind]
    refine dottedDuring.dirlink (ipLocked.keep whole (held_of_mem _ ipMember)) ipMember _
      (during.inRange dpMember) fun second final finalDuring last => ?_
    rw [obeys_ite]
    exact ⟨fun _ => obeys_panic _ _, fun _ => met final finalDuring (whole.trans' last)⟩

theorem makeInode (during : During reliable ninodes quiet start base (dp :: taken) now)
    (dpLocked : Locked reliable now dp) (name : List UInt8) (typed : type ≠ 0) (major minor : Int16)
    {post : Option Nat → View → Prop}
    (met : ∀ ip after, During reliable ninodes False start base (ip :: taken) after →
      Locked reliable after ip → (reliable → (after.node ip).type = type) → post (some ip) after) :
    Obeys (inodeUse reliable ninodes) (makeInode dp name type major minor) now post := by
  have dpHeld : 0 < now.tables.refs dp + (dp :: taken ++ base).count dp :=
    held_of_mem now List.mem_cons_self
  rw [Dir.makeInode, obeys_bind]
  refine (ialloc_ilock_obeys during.holding during.isOpen typed).imp fun ip allocated locking => ?_
  have ipMember : ip ∈ ip :: dp :: taken ++ base := List.mem_cons_self
  have dpMember : dp ∈ ip :: dp :: taken ++ base := List.mem_cons_of_mem ip List.mem_cons_self
  rw [obeys_bind]
  refine locking.imp ?_
  rintro _ locked ⟨lockedHeld, toLocked, ipLocked, lockedType⟩
  have lockedDuring : During reliable ninodes False start base (ip :: dp :: taken) locked :=
    during.write lockedHeld toLocked
  rw [obeys_bind]
  refine lockedDuring.update ipMember ipLocked major minor 1 fun updated updatedDuring third => ?_
  have toUpdated : Keeps reliable (dp :: taken ++ base) now updated :=
    toLocked.trans' (@Keeps.append_right _ _ _ _ [ip] third)
  -- the rest of the function, with or without the entries of a new directory
  have finish : ∀ made, During reliable ninodes False start base (ip :: dp :: taken) made →
      Keeps reliable (ip :: dp :: taken ++ base) updated made →
      Obeys (inodeUse reliable ninodes) (do
        if (← Dir.dirlink dp name ip) < 0 then
          panic .createDirlink
        else
          Dir.iput dp
          return some ip) made post := by
    intro made madeDuring fourth
    have toMade := toUpdated.trans' (@Keeps.append_right _ _ _ _ [ip] fourth)
    rw [obeys_bind]
    refine madeDuring.dirlink (dpLocked.keep toMade dpHeld) dpMember name
      (madeDuring.inRange ipMember) fun _ linked linkedDuring fifth => ?_
    have ipKeeps := (third.trans' fourth).trans' fifth
    rw [obeys_ite]
    refine ⟨fun _ => obeys_panic _ _, fun _ => ?_⟩
    rw [obeys_bind]
    refine linkedDuring.swap.iput fun final finalDuring last => ?_
    have ipLast := ipLocked.keep ipKeeps (held_of_mem _ ipMember)
    have ipNow : 0 < linked.tables.refs ip + (ip :: taken ++ base).count ip :=
      held_of_mem linked List.mem_cons_self
    refine met ip final finalDuring (ipLast.keep last.toKeeps ipNow) fun sure => ?_
    rw [last.type sure ip ipNow (ipLast.typed sure),
      ipKeeps.type sure ip (held_of_mem _ ipMember) (ipLocked.typed sure), lockedType sure]
  rw [obeys_ite]
  refine ⟨fun _ => ?_, fun _ => finish updated updatedDuring (.refl _ _)⟩
  rw [obeys_bind]
  exact updatedDuring.makeDots (ipLocked.keep third (held_of_mem _ ipMember))
    (dpLocked.keep toUpdated dpHeld) finish

/-- `create` gives a locked inode of the type asked for. -/
theorem create (during : During reliable ninodes quiet start base taken now)
    (root : reliable → ROOTINO < ninodes) {p : Nat} {proc : Dir.Proc}
    (known : start.tables.proc p = some proc) (path : List UInt8) (typed : type ≠ 0)
    (major minor : Int16) {post : Option Nat → View → Prop}
    (missing : ∀ after, During reliable ninodes False start base taken after → post none after)
    (met : ∀ ip after, During reliable ninodes False start base (ip :: taken) after →
      Locked reliable after ip → (reliable → (after.node ip).type = type) → post (some ip) after) :
    Obeys (inodeUse reliable ninodes) (create p path type major minor) now post := by
  simp only [Dir.create, obeys_bind]
  refine during.cwd known fun cwd used => ?_
  refine during.nameiparent root used path (fun after named => missing after named.loud) fun dp name named namedDuring => ?_
  simp only [obeys_bind]
  refine namedDuring.ilock List.mem_cons_self fun locked lockedDuring _ dpLocked => ?_
  refine lockedDuring.dirlookup dpLocked name (fun _ => ?_) fun ip k looked lookedDuring _ _ => ?_
  · exact lockedDuring.makeInode dpLocked name typed major minor met
  · simp only [obeys_bind]
    refine lookedDuring.swap.iput fun dropped droppedDuring _ => ?_
    refine droppedDuring.ilock List.mem_cons_self fun final finalDuring _ ipLocked => ?_
    refine fields_obeys ipLocked fun inode read => ?_
    rw [obeys_ite]
    refine ⟨?_, fun _ => ?_⟩
    · rintro ⟨isFile, same⟩
      refine met ip final finalDuring.loud ipLocked fun sure => ?_
      rw [read sure] at same
      exact same.trans isFile.symm
    · rw [obeys_bind]
      exact finalDuring.iput fun last lastDuring _ => missing last lastDuring.loud

end During

end

end Xv6.Sys
