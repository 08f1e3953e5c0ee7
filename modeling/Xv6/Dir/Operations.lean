import Xv6.Dir.Names

/-! # Operations on a directory

`dirlookup`, `dirlink` and the clearing of an entry in `sys_unlink` are lookup,
insertion and deletion in the map of a directory, one by one and in any sequence.
-/

namespace Xv6.Dir

open Interaction Program
open Fs (Device readBytes writeBytes T_DIR MAXFILE)

variable {inum : Nat} {data : List UInt8} {state : State} {view : DirView}

/-! ## What the inode layer is used for -/

/-- The data of the locked directory, and the references that have been taken. -/
structure DirView where
  data : List UInt8
  held : List Nat
  deriving DecidableEq

/-- The directory is read and written as a list of bytes, and every reference that is
given back has been taken before. The only panic is that of `dirlink` when there is no
room for an entry, where the directory may fill up. -/
def directoryRule (dp : Nat) (mayFill : Prop) : (request : Request) → DirView →
    (Answer request → DirView → Prop) → Prop
  | .fields ip, view, post => ip = dp ∧
      ∀ major minor nlink, post ⟨T_DIR, major, minor, nlink, view.data.length⟩ view
  | .readi ip off n, view, post => ip = dp ∧ post (readBytes view.data off.toNat n.toNat) view
  | .writei ip src off, view, post => ip = dp ∧
      let written := writeBytes view.data (fun index => src.getD index 0) off.toNat
        (UInt32.ofNat src.length).toNat
      post written.1 { view with data := written.2 }
  | .iget inum, view, post => post inum { view with held := inum :: view.held }
  | .iput ip, view, post => ip ∈ view.held ∧ post () { view with held := view.held.erase ip }
  | .fail panic, view, _ => panic = .dirlink ∧ Full view.data ∧ mayFill
  | _, _, _ => False

def directoryUse (dp : Nat) (mayFill : Prop) : Discipline Request Answer DirView where
  rule := directoryRule dp mayFill
  mono := by
    intro request view post weaker implies ruled
    cases request with
    | fields ip => exact ⟨ruled.1, fun _ _ _ => implies _ _ (ruled.2 _ _ _)⟩
    | readi ip off n => exact ⟨ruled.1, implies _ _ ruled.2⟩
    | writei ip src off => exact ⟨ruled.1, implies _ _ ruled.2⟩
    | iget inum => exact implies _ _ ruled
    | iput ip => exact ⟨ruled.1, implies _ _ ruled.2⟩
    | fail panic => exact ruled
    | _ => exact ruled.elim

/-! ## The functions -/

section

variable {dp : Nat} {mayFill : Prop} {view : DirView} {name : List UInt8} {k : Nat}

theorem DirView.listing (shaped : Shaped view.data) : Listing (directoryUse dp mayFill) view dp
    view.data fun data => { view with data := data } := by
  refine ⟨shaped, rfl, fun met => ⟨rfl, met⟩, fun met => ⟨rfl, met⟩, fun written met => ⟨rfl, ?_⟩⟩
  dsimp only
  rw [written]
  exact met

theorem iget_obeys {post : Nat → DirView → Prop}
    (met : post inum { view with held := inum :: view.held }) :
    Obeys (directoryUse dp mayFill) (iget inum) view post :=
  met

theorem iput_obeys {ip : Nat} {post : Unit → DirView → Prop} (held : ip ∈ view.held)
    (met : post () { view with held := view.held.erase ip }) :
    Obeys (directoryUse dp mayFill) (iput ip) view post :=
  ⟨held, met⟩

theorem dirlink_obeys (shaped : Shaped view.data) (room : Full view.data → mayFill)
    (name : List UInt8) (inum : Nat) {post : Int → DirView → Prop}
    (present : ∀ k, Matches view.data name k → post (-1) view)
    (absent : (∀ k, ¬Matches view.data name k) → ∀ k, FirstFree view.data k →
      DIRENTSIZE * k + DIRENTSIZE ≤ MAXFILE * BSIZE →
      post 0 { view with data := putEntry view.data k ⟨inum, strncpy name DIRSIZ⟩ }) :
    Obeys (directoryUse dp mayFill) (dirlink dp name inum) view post := by
  refine (view.listing shaped).dirlink name inum (fun k matched => ?_) absent
    fun k first refused => ?_
  · refine iget_obeys (iput_obeys List.mem_cons_self ?_)
    rw [List.erase_cons_head]
    exact present k matched
  · have whole := shaped.length
    have limit := shaped.bounded
    have last : k = slots view.data := by
      have bound := first.bound
      simp only [DIRENTSIZE] at *
      omega
    have full : Full view.data := by
      refine ⟨fun i inside => first.first i (last ▸ inside), ?_⟩
      rw [last] at refused
      rw [whole]
      exact refused
    exact ⟨rfl, full, room full⟩

end

/-! ## Sequences of operations -/

inductive Operation
  | lookup (name : List UInt8)
  | link (name : List UInt8) (inum : Nat)
  | unlink (name : List UInt8)

/-- What the calls do with a locked directory. A lookup returns the number of the
inode, or zero. -/
def Operation.program (dp : Nat) : Operation → Prog Int
  | .lookup name => do
      match ← dirlookup dp name with
      | none => return 0
      | some (ip, _) =>
          iput ip
          return ip
  | .link name inum => dirlink dp name inum
  | .unlink name => do
      match ← dirlookup dp name with
      | none => return -1
      | some (ip, off) =>
          let count ← writei dp (List.replicate DIRENTSIZE 0) (UInt32.ofNat off)
          if count ≠ DIRENTSIZE then
            panic .unlinkWritei
          else
            iput ip
            return 0

/-- The operation on a map from names to inode numbers. -/
def Operation.onMap (map : List UInt8 → Option Nat) :
    Operation → Int × (List UInt8 → Option Nat)
  | .lookup name => ((map (key name)).getD 0, map)
  | .link name inum =>
      if (map (key name)).isSome then (-1, map)
      else (0, Function.update map (key name) (some inum))
  | .unlink name =>
      if (map (key name)).isSome then (0, Function.update map (key name) none) else (-1, map)

/-- The inode number that is linked is one that an entry can hold. -/
def Operation.Legal : Operation → Prop
  | .link _ inum => 0 < inum ∧ inum < 65536
  | _ => True

def performAll (dp : Nat) : List Operation → Prog (List Int)
  | [] => return []
  | operation :: rest => do
      let answer ← operation.program dp
      return answer :: (← performAll dp rest)

def allOnMap (map : List UInt8 → Option Nat) :
    List Operation → List Int × (List UInt8 → Option Nat)
  | [] => ([], map)
  | operation :: rest =>
      let (answer, next) := operation.onMap map
      let (answers, final) := allOnMap next rest
      (answer :: answers, final)

/-- What an operation leaves: a directory with the map that it should have, and no
references. -/
def Performed (view : DirView) (expected : List UInt8 → Option Nat) (after : DirView) : Prop :=
  Directory after.data ∧ names after.data = expected ∧ after.held = view.held

section

variable {dp : Nat} {mayFill : Prop} {view : DirView}

theorem Directory.names_of_matches {name : List UInt8} {k : Nat} (directory : Directory data)
    (matched : Matches data name k) : names data (key name) = some (entryAt data k) :=
  directory.names_eq_some.mpr ⟨k, matched.1, (matches_iff.mp matched).2, rfl⟩

theorem Directory.names_of_missing {name : List UInt8} (directory : Directory data)
    (missing : ∀ k, ¬Matches data name k) : names data (key name) = none := by
  rw [names, (slotOf_eq_none directory.toShaped).mpr missing, Option.map_none]

theorem operation_obeys (directory : Directory view.data) (room : Full view.data → mayFill)
    (operation : Operation) (legal : operation.Legal) :
    Obeys (directoryUse dp mayFill) (operation.program dp) view fun answer after =>
      answer = (operation.onMap (names view.data)).1 ∧
        Performed view (operation.onMap (names view.data)).2 after := by
  have listing := @DirView.listing dp mayFill view directory.toShaped
  cases operation with
  | lookup name =>
    refine (obeys_bind _ _ _).mpr (listing.dirlookup name (fun k matched => ?_) fun missing => ?_)
    · refine iget_obeys ((obeys_bind _ _ _).mpr (iput_obeys List.mem_cons_self ?_))
      rw [Operation.onMap, directory.names_of_matches matched]
      exact ⟨rfl, directory, rfl, List.erase_cons_head _ _⟩
    · rw [Operation.onMap, directory.names_of_missing missing]
      exact ⟨rfl, directory, rfl, rfl⟩
  | link name inum =>
    refine dirlink_obeys directory.toShaped room name inum (fun k matched => ?_)
      fun missing k first limit => ?_
    · rw [Operation.onMap, directory.names_of_matches matched]
      exact ⟨rfl, directory, rfl, rfl⟩
    · have inserted := directory.insert first.bound first.free limit missing legal.1 legal.2
      rw [Operation.onMap, directory.names_of_missing missing]
      exact ⟨rfl, inserted.1, inserted.2, rfl⟩
  | unlink name =>
    refine (obeys_bind _ _ _).mpr (listing.dirlookup name (fun k matched => ?_) fun missing => ?_)
    · have deleted := directory.delete matched
      have held := @DirView.listing dp mayFill ⟨view.data, entryAt view.data k :: view.held⟩
        directory.toShaped
      refine iget_obeys ((obeys_bind _ _ _).mpr
        (held.clearEntry (lt_slots_of_entryAt directory.aligned matched.1) ?_))
      rw [if_neg (fun short => short rfl)]
      refine (obeys_bind _ _ _).mpr (iput_obeys List.mem_cons_self ?_)
      rw [Operation.onMap, directory.names_of_matches matched]
      exact ⟨rfl, deleted.1, deleted.2, List.erase_cons_head _ _⟩
    · rw [Operation.onMap, directory.names_of_missing missing]
      exact ⟨rfl, directory, rfl, rfl⟩

theorem performAll_obeys : ∀ (operations : List Operation) (view : DirView),
    Directory view.data → (∀ operation ∈ operations, operation.Legal) →
    Obeys (directoryUse dp True) (performAll dp operations) view fun answers after =>
      answers = (allOnMap (names view.data) operations).1 ∧
        Performed view (allOnMap (names view.data) operations).2 after
  | [], view, directory, _ => ⟨rfl, directory, rfl, rfl⟩
  | operation :: rest, view, directory, legal => by
      refine (obeys_bind _ _ _).mpr ((operation_obeys directory (fun _ => trivial)
        operation (legal operation List.mem_cons_self)).imp ?_)
      rintro answer after ⟨answered, changed, same, held⟩
      refine (obeys_bind _ _ _).mpr ((performAll_obeys rest after changed fun other member =>
        legal other (List.mem_cons_of_mem operation member)).imp ?_)
      rintro answers final ⟨rfl, finally_, map, balanced⟩
      rw [same] at map
      refine ⟨?_, finally_, map, balanced.trans held⟩
      rw [answered, same]
      rfl

end

/-! ## The machine as an inode layer -/

/-- The state of the machine while the directory `dp` is locked: as at the start, but for
the references taken and the data of the directory. -/
structure Serves (dp : Nat) (start state : State) (view : DirView) : Prop where
  length : state.nodes.length = start.nodes.length
  tables : state.tables = start.tables
  node : ∀ inum, state.node inum = { start.node inum with
    ref := (start.node inum).ref + view.held.count inum
    data := if inum = dp then view.data else (start.node inum).data }
  inRange : ∀ inum ∈ view.held, start.InRange inum

/-- How an operation on a directory may stop: an entry is not the number of an inode, the
inode cache is full, or the directory is. -/
def Stops (mayFill : Prop) (failure : Failure) : Prop :=
  failure = .outOfRange ∨ failure = .panic (.fs .igetNoInodes) ∨
    (failure = .panic .dirlink ∧ mayFill)

section

variable {devsw : Nat → Device} {dp : Nat} {mayFill : Prop} {start : State}

/-- An inode that is not referenced is not valid. -/
def State.Tidy (state : State) : Prop := ∀ inum, (state.node inum).ref = 0 →
  (state.node inum).valid = false

theorem Serves.locked (serves : Serves dp start state view)
    (locked : start.Locked dp) : state.Locked dp := by
  have node := serves.node dp
  refine ⟨⟨locked.inRange.1, by rw [serves.length]; exact locked.inRange.2⟩, ?_, ?_⟩
  · rw [node]
    exact Nat.lt_of_lt_of_le locked.used (Nat.le_add_right _ _)
  · rw [node]
    exact locked.valid

theorem Serves.change (serves : Serves dp start state view) (inside : inum < start.nodes.length)
    {changed : Node} {after : DirView} (inRange : ∀ other ∈ after.held, start.InRange other)
    (own : changed = { start.node inum with
      ref := (start.node inum).ref + after.held.count inum
      data := if inum = dp then after.data else (start.node inum).data })
    (others : ∀ other, other ≠ inum → after.held.count other = view.held.count other ∧
      (other = dp → after.data = view.data)) :
    Serves dp start (state.setNode inum changed) after := by
  refine ⟨by rw [State.length_setNode]; exact serves.length, serves.tables, fun other => ?_,
    inRange⟩
  rw [State.node_setNode]
  by_cases same : other = inum
  · subst same
    rw [if_pos ⟨rfl, serves.length ▸ inside⟩]
    exact own
  · rw [if_neg fun both => same both.1, serves.node other, (others other same).1]
    by_cases isDp : other = dp
    · rw [if_pos isDp, if_pos isDp, (others other same).2 isDp]
    · rw [if_neg isDp, if_neg isDp]

theorem iget_serves (serves : Serves dp start state view) (tidy : start.Tidy) (inum : Nat)
    {post : Nat → DirView → Prop} (met : post inum { view with held := inum :: view.held }) :
    Meets (Machine.iget inum) state (Stops mayFill) fun answer next =>
      ∃ after, Serves dp start next after ∧ post answer after := by
  have node := serves.node inum
  simp only [Machine.iget, Machine.getNode, Machine.setNode, meets_bind, meets_get, meets_ite,
    meets_pure, meets_throw, meets_modify]
  refine ⟨fun inRange => ?_, fun _ => Or.inl rfl⟩
  have startRange : start.InRange inum := ⟨inRange.1, serves.length ▸ inRange.2⟩
  have taken : ∀ {changed : Node}, changed = { start.node inum with
        ref := (start.node inum).ref + (view.held.count inum + 1)
        data := if inum = dp then view.data else (start.node inum).data } →
      ∃ after, Serves dp start (state.setNode inum changed) after ∧ post inum after := by
    intro changed own
    refine ⟨_, serves.change startRange.2 ?_ ?_ ?_, met⟩
    · exact fun other member => (List.mem_cons.mp member).elim (fun same => same ▸ startRange)
        (serves.inRange other)
    · rw [own, List.count_cons_self]
    · exact fun other different => ⟨List.count_cons_of_ne (Ne.symm different), fun _ => rfl⟩
  refine ⟨fun unused => ⟨fun _ => taken ?_, fun _ => Or.inr (Or.inl rfl)⟩, fun used => taken ?_⟩
  · rw [node] at unused ⊢
    have none : (start.node inum).ref = 0 ∧ view.held.count inum = 0 :=
      Nat.add_eq_zero_iff.mp unused
    simp only [none.1, none.2, tidy inum none.1]
  · rw [node]
    simp only [Nat.add_assoc]

theorem iput_serves (serves : Serves dp start state view) (tidy : start.Tidy) {ip : Nat}
    (held : ip ∈ view.held) {post : Unit → DirView → Prop}
    (met : post () { view with held := view.held.erase ip }) :
    Meets (Machine.iput ip) state (Stops mayFill) fun answer next =>
      ∃ after, Serves dp start next after ∧ post answer after := by
  have node := serves.node ip
  have startRange := serves.inRange ip held
  have inRange : state.InRange ip := ⟨startRange.1, by rw [serves.length]; exact startRange.2⟩
  have positive : 0 < view.held.count ip := List.count_pos_iff.mpr held
  rw [Machine.iput, meets_bind, meets_getNode inRange]
  simp only [Machine.setNode, meets_ite, meets_modify]
  refine ⟨?_, fun _ => ?_⟩
  · -- the last reference was taken by the operation, so the inode has not been locked
    rintro ⟨last, valid, _⟩
    rw [node] at last valid
    simp only at last valid
    rw [tidy ip (by omega)] at valid
    cases valid
  · refine ⟨_, serves.change startRange.2 ?_ ?_ ?_, met⟩
    · exact fun other member => serves.inRange other (List.mem_of_mem_erase member)
    · rw [node]
      simp only [List.count_erase_self]
      congr 1
      · omega
      · by_cases unused : (start.node ip).ref = 0
        · rw [tidy ip unused, Bool.false_and]
        · have more : 1 < (start.node ip).ref + view.held.count ip := by omega
          rw [decide_eq_true more, Bool.and_true]
    · exact fun other different => ⟨List.count_erase_of_ne different, fun _ => rfl⟩

theorem machine_respects (locked : start.Locked dp) (isDir : start.IsDir dp)
    (tidy : start.Tidy) :
    Respects (directoryUse dp mayFill) (Machine.serve devsw) (Serves dp start) (Stops mayFill) := by
  intro request state view post serves ruled
  have own := serves.locked locked
  have node := serves.node dp
  have typed : (state.node dp).type = T_DIR := by
    rw [node]
    exact isDir
  have data : (state.node dp).data = view.data := by
    rw [node]
    exact if_pos rfl
  have notDevice : (state.node dp).type ≠ Fs.T_DEV := by
    rw [typed]
    decide
  cases request with
  | fields ip =>
    rcases ruled with ⟨rfl, met⟩
    refine (meets_send (.fields ip) _).mp (fields_meets own ?_)
    rw [typed, data]
    exact ⟨view, serves, met _ _ _⟩
  | readi ip off n =>
    rcases ruled with ⟨rfl, met⟩
    refine (meets_send (.readi ip off n) _).mp (readi_meets own notDevice off n ?_)
    rw [data]
    exact ⟨view, serves, met⟩
  | writei ip src off =>
    rcases ruled with ⟨rfl, met⟩
    refine (meets_send (.writei ip src off) _).mp (writei_meets own notDevice src off ?_)
    rw [data]
    refine ⟨⟨_, view.held⟩, serves.change locked.inRange.2 ?_ ?_ ?_, met⟩
    · exact serves.inRange
    · rw [node]
      simp only [if_true]
    · exact fun other different => ⟨rfl, fun same => absurd same different⟩
  | iget inum => exact iget_serves serves tidy inum ruled
  | iput ip => exact iput_serves serves tidy ruled.1 ruled.2
  | fail panic => exact Or.inr (Or.inr ⟨congrArg Failure.panic ruled.1, ruled.2.2⟩)
  | _ => exact ruled.elim

theorem performAll_meets (locked : start.Locked dp) (isDir : start.IsDir dp) (tidy : start.Tidy)
    (directory : Directory (start.node dp).data) (operations : List Operation)
    (legal : ∀ operation ∈ operations, operation.Legal) :
    Meets (Machine.execute devsw (performAll dp operations)) start (Stops True) fun answers next =>
      answers = (allOnMap (names (start.node dp).data) operations).1 ∧
        ∃ data, Directory data ∧
          names data = (allOnMap (names (start.node dp).data) operations).2 ∧
          next = start.edit dp fun node => { node with data := data } := by
  have initially : Serves dp start start ⟨(start.node dp).data, []⟩ := by
    refine ⟨rfl, rfl, fun inum => ?_, fun _ member => absurd member List.not_mem_nil⟩
    split
    · rename_i same
      rw [same]
      rfl
    · rfl
  refine ((machine_respects locked isDir tidy).interpret initially
    (performAll_obeys operations _ directory legal)).imp ?_
  rintro answers next ⟨after, serves, answered, directory, map, held⟩
  refine ⟨answered, after.data, directory, map, State.ext_node ?_ serves.tables fun inum => ?_⟩
  · rw [State.length_edit]
    exact serves.length
  · rw [serves.node inum, show after.held = [] from held, List.count_nil, Nat.add_zero]
    by_cases same : inum = dp
    · rw [same, State.node_edit_self locked.inRange.2, if_pos rfl]
    · rw [State.node_edit_of_ne same, if_neg same]

end

/-! ## Directories as maps -/

/-- A lookup returns the only entry with the name, and its offset. -/
def Found (view : DirView) (name : List UInt8) (result : Option (Nat × Nat))
    (after : DirView) : Prop :=
  match result with
  | some (ip, off) => after = { view with held := ip :: view.held } ∧
      names view.data (key name) = some ip ∧
      ∃ k, Matches view.data name k ∧ (∀ j, Matches view.data name j → j = k) ∧
        entryAt view.data k = ip ∧ off = DIRENTSIZE * k
  | none => after = view ∧ names view.data (key name) = none ∧ ∀ j, ¬Matches view.data name j

/-- The name was there already, or it is now in the first free entry. -/
def Added (view : DirView) (name : List UInt8) (inum : Nat) (result : Int)
    (after : DirView) : Prop :=
  (result = -1 ↔ ∃ j, Matches view.data name j) ∧ (result = -1 → after = view) ∧
    (result ≠ -1 → result = 0 ∧
      (∃ k, FirstFree view.data k ∧
        after = { view with data := putEntry view.data k ⟨inum, strncpy name DIRSIZ⟩ }) ∧
      Directory after.data ∧
      names after.data = Function.update (names view.data) (key name) (some inum))

section

variable {dp : Nat} {mayFill : Prop} {view : DirView} {name : List UInt8} {k : Nat}

theorem Directory.matches_unique (directory : Directory data) {j : Nat}
    (matched : Matches data name k) (other : Matches data name j) : j = k :=
  directory.distinct j k other.1 matched.1
    ((matches_iff.mp other).2.trans (matches_iff.mp matched).2.symm)

theorem dirlookup_found (directory : Directory view.data) (name : List UInt8) :
    Obeys (directoryUse dp mayFill) (dirlookup dp name) view (Found view name) := by
  refine (view.listing directory.toShaped).dirlookup name (fun k matched => ?_) fun missing => ?_
  · exact iget_obeys ⟨rfl, directory.names_of_matches matched, k, matched,
      fun j other => directory.matches_unique matched other, rfl, rfl⟩
  · exact ⟨rfl, directory.names_of_missing missing, missing⟩

theorem dirlink_added (directory : Directory view.data) (room : ¬Full view.data) (name : List UInt8)
    (nonzero : 0 < inum) (small : inum < 65536) :
    Obeys (directoryUse dp False) (dirlink dp name inum) view (Added view name inum) := by
  refine dirlink_obeys directory.toShaped room name inum (fun k matched => ?_)
    fun missing k first limit => ?_
  · exact ⟨iff_of_true rfl ⟨k, matched⟩, fun _ => rfl, fun different => absurd rfl different⟩
  · have inserted := directory.insert first.bound first.free limit missing nonzero small
    refine ⟨iff_of_false (by decide) ?_, fun impossible => absurd impossible (by decide), ?_⟩
    · rintro ⟨j, matched⟩
      exact missing j matched
    · exact fun _ => ⟨rfl, ⟨k, first, rfl⟩, inserted.1, inserted.2⟩

theorem clearEntry_deletes (directory : Directory view.data) (matched : Matches view.data name k) :
    Obeys (directoryUse dp False)
      (writei dp (List.replicate DIRENTSIZE 0) (UInt32.ofNat (DIRENTSIZE * k))) view
      fun count after => count = (DIRENTSIZE : Nat) ∧ after.held = view.held ∧
        Directory after.data ∧
        names after.data = Function.update (names view.data) (key name) none := by
  have deleted := directory.delete matched
  exact (view.listing directory.toShaped).clearEntry
    (lt_slots_of_entryAt directory.aligned matched.1) ⟨rfl, rfl, deleted.1, deleted.2⟩

end

/-- Directories are finite maps on names cut to `DIRSIZ` bytes: what `dirlookup`, `dirlink`
and the clearing of an entry do, what they do in sequence, and what the machine does when
it runs such a sequence. -/
theorem directories_are_maps (dp : Nat) (view : DirView) (directory : Directory view.data) :
    (∀ name, Obeys (directoryUse dp False) (dirlookup dp name) view (Found view name)) ∧
    (¬Full view.data → ∀ name inum, 0 < inum → inum < 65536 →
      Obeys (directoryUse dp False) (dirlink dp name inum) view (Added view name inum)) ∧
    (∀ name k, Matches view.data name k →
      Obeys (directoryUse dp False)
        (writei dp (List.replicate DIRENTSIZE 0) (UInt32.ofNat (DIRENTSIZE * k))) view
        fun count after => count = (DIRENTSIZE : Nat) ∧ after.held = view.held ∧
          Directory after.data ∧
          names after.data = Function.update (names view.data) (key name) none) ∧
    (∀ operations : List Operation, (∀ operation ∈ operations, operation.Legal) →
      Obeys (directoryUse dp True) (performAll dp operations) view fun answers after =>
        answers = (allOnMap (names view.data) operations).1 ∧
          Performed view (allOnMap (names view.data) operations).2 after) ∧
    ∀ (devsw : Nat → Device) (start : State) (operations : List Operation),
      start.Locked dp → start.IsDir dp → start.Tidy → (start.node dp).data = view.data →
      (∀ operation ∈ operations, operation.Legal) →
      Meets (Machine.execute devsw (performAll dp operations)) start (Stops True)
        fun answers next => answers = (allOnMap (names view.data) operations).1 ∧
          ∃ data, Directory data ∧ names data = (allOnMap (names view.data) operations).2 ∧
            next = start.edit dp fun node => { node with data := data } := by
  refine ⟨fun name => dirlookup_found directory name,
    fun room name inum nonzero small => dirlink_added directory room name nonzero small,
    fun name k matched => clearEntry_deletes directory matched,
    fun operations legal => performAll_obeys operations view directory legal, ?_⟩
  intro devsw start operations locked isDir tidy data legal
  have start_directory : Directory (start.node dp).data := by
    rw [data]
    exact directory
  rw [← data]
  exact performAll_meets locked isDir tidy start_directory operations legal

/-- A directory with one entry: the name is found, deleted, not found and inserted. -/
theorem directories_are_maps_sample :
    ∃ data, Directory data ∧ names data (key [97]) = some 1 ∧
      Obeys (directoryUse 1 True)
        (performAll 1 [.lookup [97], .unlink [97], .lookup [97], .link [97] 5, .lookup [97]])
        ⟨data, []⟩ fun answers after => answers = [1, 0, 0, 0, 5] ∧ after.held = [] := by
  have empty : Directory [] := by
    refine ⟨⟨by decide, by decide⟩, fun i j used => ?_⟩
    exact absurd (entryAt_of_slots_le (by decide : DIRENTSIZE ∣ ([] : List UInt8).length) (Nat.zero_le i)) used
  have missing : ∀ j, ¬Matches [] [97] j := fun j matched =>
    matched.1 (entryAt_of_slots_le (by decide) (Nat.zero_le j))
  have inserted := @Directory.insert [] [97] 0 1 empty (Nat.zero_le _) (by decide) (by decide)
    missing (by decide) (by decide)
  refine ⟨_, inserted.1, ?_, ?_⟩
  · rw [inserted.2, Function.update_self]
  · refine ((directories_are_maps 1 ⟨_, []⟩ inserted.1).2.2.2.1 _ ?_).imp ?_
    · simp [Operation.Legal]
    · rintro answers after ⟨rfl, performed⟩
      refine ⟨?_, performed.2.2⟩
      decide +kernel

end Xv6.Dir
