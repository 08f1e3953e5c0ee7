import Xv6.Dir.Hierarchy

/-! # Link counts

The link count of an inode is the number of entries for it, other than `.`, in
directories that have links themselves. This is so in every run in which no link
count wraps around and no call writes to a directory that has no links.
-/

namespace Xv6.Dir

open Transition State
open Fs (Device T_DIR T_FILE ROOTINO)

/-- Every link is accounted for, and only the root and directories that have a name
have names in them. -/
structure Counted (state : State) : Prop where
  exact : ∀ inum, (state.node inum).type ≠ 0 →
    (state.links inum : Int) = (state.node inum).nlink.toInt
  bare : ∀ dp, state.IsDir dp → dp ≠ ROOTINO → state.names dp = 0 →
    ∀ k, 2 ≤ k → state.entry dp k = 0

section

variable {state next : State} {inum dp k : Nat}

theorem Tree.children_of_bare (tree : Tree state) (bare : ∀ k, 2 ≤ k → state.entry dp k = 0) :
    state.children dp = 0 := by
  refine Finset.sum_eq_zero fun child _ => if_neg ?_
  rintro ⟨childDir, parent, named⟩
  have nonzero := tree.ne_zero childDir.typed
  rcases (tree.names_pos nonzero).mp named with ⟨namer, j, namerDir, later, entry⟩
  have isParent := (tree.named namer j namerDir later (by rw [entry]; exact childDir)).1
  rw [entry, parent] at isParent
  rw [← isParent, bare j later] at entry
  exact nonzero entry.symm

theorem Counted.named_of_linked (counted : Counted state) (tree : Tree state)
    (isDir : state.IsDir dp) (linked : (state.node dp).nlink ≠ 0) :
    dp = ROOTINO ∨ state.names dp ≠ 0 := by
  by_contra neither
  rw [not_or, not_not] at neither
  have childless := tree.children_of_bare (counted.bare dp isDir neither.1 neither.2)
  have exact := counted.exact dp isDir.typed
  rw [links, neither.2, childless, if_neg neither.1] at exact
  exact linked (Int16.toInt_inj.mp exact.symm)

/-! ## Changes of the tree -/

theorem SameTree.counted (same : SameTree state next) (counted : Counted state) :
    Counted next where
  exact := by
    intro inum typed
    rw [same.type] at typed
    rw [same.links, same.nlink]
    exact counted.exact inum typed
  bare := by
    intro dp isDir notRoot unnamed k later
    have before := (same.isDir dp).mp isDir
    rw [same.names] at unnamed
    rw [same.entry before]
    exact counted.bare dp before notRoot unnamed k later

theorem Node.names_of_bare {node : Node}
    (bare : node.type = T_DIR → ∀ k, 2 ≤ k → entryAt node.data k = 0) {other : Nat}
    (nonzero : other ≠ 0) : node.names other = 0 := by
  rw [Node.names]
  split
  · rename_i isDir
    rw [countNames, Finset.card_eq_zero, Finset.filter_eq_empty_iff]
    rintro k _ ⟨later, same⟩
    rw [bare isDir k later] at same
    exact nonzero same.symm
  · rfl

section

variable (counted : Counted state) (tree : Tree state)
include counted tree

theorem Counted.replace (replaced : Replaced state next inum)
    (names : ∀ other, other ≠ 0 → next.names other = state.names other)
    (own : next.IsDir inum → ∀ k, 2 ≤ k → next.entry inum k = 0)
    (covers : (next.node inum).type ≠ 0 →
      (state.links inum : Int) = (next.node inum).nlink.toInt) : Counted next := by
  refine ⟨?_, ?_⟩
  · intro other typed
    by_cases same : other = inum
    · rw [same] at typed ⊢
      rw [links, names inum replaced.nonzero, replaced.children tree names]
      exact covers typed
    · rw [replaced.others other same] at typed ⊢
      rw [links, names other (tree.ne_zero typed), replaced.children tree names]
      exact counted.exact other typed
  · intro dp isDir notRoot unnamed k later
    by_cases same : dp = inum
    · rw [same] at isDir ⊢
      exact own isDir k later
    · have wasDir := (replaced.isDir same).mp isDir
      rw [names dp (tree.ne_zero wasDir.typed)] at unnamed
      rw [replaced.entry same]
      exact counted.bare dp wasDir notRoot unnamed k later

/-- A directory that is freed is empty, so no name is lost with it. -/
theorem Counted.free (typed : (state.node inum).type ≠ 0) (unlinked : (state.node inum).nlink = 0) :
    Counted (state.free inum) := by
  have inside := lt_length_of_typed typed
  have free := type_free inside
  have replaced := tree.replaced_free typed unlinked
  refine counted.replace tree replaced ?_ (fun isDir => absurd free isDir.typed)
    fun typed => absurd free typed
  intro other nonzero
  have bare : (state.node inum).names other = 0 := Node.names_of_bare
    (fun isDir => counted.bare inum isDir replaced.notRoot replaced.unnamed) nonzero
  have change := names_free inside other
  rw [bare] at change
  exact change

theorem Counted.allocate {parent : Nat} {node : Node}
    (allocating : Allocating state inum node parent) (nlink : node.nlink.toInt = 0) :
    Counted (state.setNode inum node) := by
  refine counted.replace tree (allocating.replaced tree) (fun other _ => allocating.names other)
    (fun isDir => (allocating.dirent tree isDir).2) fun _ => ?_
  rw [allocating.own, allocating.links_own tree, nlink]
  rfl

theorem Counted.enter {name : List UInt8} (entering : Entering state next dp k name inum)
    (relinked : Relinked state next inum dp 1)
    (named : dp = ROOTINO ∨ state.names dp ≠ 0) : Counted next := by
  refine ⟨?_, ?_⟩
  · intro other typed
    rw [entering.rewritten.type] at typed
    have exact := counted.exact other typed
    rw [entering.links tree (tree.ne_zero typed), relinked other]
    split_ifs <;> omega
  · intro other isDir notRoot unnamed j later
    have otherDir := (entering.rewritten.isDir other).mp isDir
    rw [entering.names tree (tree.ne_zero otherDir.typed)] at unnamed
    have notDp : other ≠ dp := by
      rintro rfl
      rcases named with isRoot | hasName
      · exact notRoot isRoot
      · omega
    rw [entering.rewritten.entry tree entering.slot, if_neg fun both => notDp both.1]
    exact counted.bare other otherDir notRoot (by omega) j later

theorem Counted.remove {de : Dirent} (removing : Removing state next dp k inum de)
    (relinked : Relinked state next inum dp (-1))
    (empty : state.IsDir inum → ∀ j, 2 ≤ j → state.entry inum j = 0) : Counted next := by
  refine ⟨?_, ?_⟩
  · intro other typed
    rw [removing.rewritten.type] at typed
    have exact := counted.exact other typed
    have fewer := removing.links tree (tree.ne_zero typed)
    rw [relinked other]
    split_ifs at fewer ⊢ <;> omega
  · intro other isDir notRoot unnamed j later
    have otherDir := (removing.rewritten.isDir other).mp isDir
    have before := removing.names tree (tree.ne_zero otherDir.typed)
    rw [removing.rewritten.entry tree removing.slot]
    split
    · exact removing.zero
    · by_cases same : other = inum
      · rw [same] at otherDir ⊢
        exact empty otherDir j later
      · rw [if_neg same] at before
        exact counted.bare other otherDir notRoot (by omega) j later

end

/-! ## Steps -/

theorem Counted.reap (counted : Counted state) (tree : Tree state)
    (typed : (state.node inum).type ≠ 0) : Counted (state.reap inum) := by
  rcases state.reap_cases inum with same | ⟨unlinked, same⟩
  · rw [same]
    exact counted
  · rw [same]
    exact counted.free tree typed unlinked

/-- No call writes to a directory that has no links. -/
def SparesRemoved (state next : State) : Prop :=
  ∀ dp, state.IsDir dp → (state.node dp).nlink = 0 →
    (next.node dp).type = 0 ∨ (next.node dp).data = (state.node dp).data

theorem SparesRemoved.linked (spares : SparesRemoved state next) (isDir : state.IsDir dp)
    (still : next.IsDir dp) (changed : next.entry dp k ≠ state.entry dp k) :
    (state.node dp).nlink ≠ 0 := by
  intro removed
  rcases spares dp isDir removed with free | same
  · exact still.typed free
  · rw [entry, entry, same] at changed
    exact changed rfl

theorem Effect.counted (effect : Effect state next) (tree : Tree state) (counted : Counted state)
    (unwrapped : Unwrapped state next) (spares : SparesRemoved state next) : Counted next := by
  cases effect with
  | none => exact counted
  | @link ip dp k name typed notDir slot =>
    have entering := tree.entering_linked typed notDir slot
    have room := unwrapped.room_linked typed notDir slot
    have changed : (state.linked ip dp k name).entry dp k ≠ state.entry dp k := by
      rw [entering.rewritten.entry tree entering.slot, if_pos ⟨rfl, rfl⟩, slot.empty]
      exact tree.ne_zero typed
    have linked := spares.linked slot.isDir ((entering.rewritten.isDir dp).mpr slot.isDir) changed
    exact counted.enter tree entering (relinked_linked typed notDir slot room)
      (counted.named_of_linked tree slot.isDir linked)
  | @unlink ip dp k isDir later entry typed empty =>
    have removing := tree.removing_unlinked isDir later entry typed
    have allocated := tree.typed_unlinked isDir later entry typed
    have unlinkedTree := tree.unlinked isDir later entry typed
    have unlinked := counted.remove tree removing (tree.relinked_unlinked isDir later entry typed)
      empty
    exact (unlinked.reap unlinkedTree allocated.1).reap (unlinkedTree.reap allocated.1) allocated.2
  | @create ip dp k type major minor name inRange free typed slot =>
    have allocating := @allocating_bare state ip dp type major minor inRange free slot.isDir
    have entering := @Tree.entering_created state ip dp k name type major minor tree inRange free
      typed slot
    have bareTree := tree.allocate allocating rfl
    have bareDir := (entering.rewritten.isDir dp).mpr entering.slot.isDir
    have changed : (state.created ip type major minor dp k name).entry dp k ≠
        state.entry dp k := by
      rw [entering.rewritten.entry bareTree entering.slot, if_pos ⟨rfl, rfl⟩, slot.empty]
      exact Nat.pos_iff_ne_zero.mp inRange.1
    have linked := spares.linked slot.isDir bareDir changed
    have named := counted.named_of_linked tree slot.isDir linked
    rw [← allocating.names dp] at named
    exact (counted.allocate tree allocating rfl).enter bareTree entering
      (relinked_created inRange free slot (unwrapped.room_created inRange free slot)) named

theorem Counted.moves {before after : State × List Nat} (counted : Counted before.1)
    (proper : Proper before.1 before.2) (moves : Moves before after) : Counted after.1 := by
  induction moves with
  | refl => exact counted
  | @tail mid after moves last induction =>
    have midProper := proper.moves moves
    rcases last.tree_cases with same | ⟨ip, isPending, unlinked, same⟩
    · exact same.counted induction
    · have used : 0 < (mid.1.node ip).ref := by
        have pending := List.count_pos_iff.mpr isPending
        rw [midProper.refs]
        omega
      exact same.counted (induction.free midProper.tree (midProper.typed_of_used used) unlinked)

theorem Outcome.counted {call : SysCall} (outcome : Outcome call state next)
    (proper : Proper state []) (counted : Counted state) (unwrapped : Unwrapped state next)
    (spares : SparesRemoved state next) : Counted next := by
  rcases outcome with ⟨mid, effect, quiet, naming, moves⟩
  have midUnwrapped := unwrapped.before_moves moves
  by_cases isNaming : call.Naming
  · have same := naming isNaming
    have midSpares : SparesRemoved state mid := by
      intro dp isDir removed
      rcases spares dp isDir removed with free | kept
      · rw [same.type] at free
        exact Or.inl free
      · rcases effect.directory proper.tree isDir with ⟨_, free⟩ | ⟨midDir, _⟩
        · exact Or.inl free
        · rw [same.data dp midDir] at kept
          exact Or.inr kept
    exact same.counted (effect.counted proper.tree counted midUnwrapped midSpares)
  · rw [quiet isNaming] at moves
    exact counted.moves proper moves

end

/-! ## The entries that count -/

/-- The entries of a directory for an inode, other than `.`. -/
def Node.entriesFor (node : Node) (inum : Nat) : Nat :=
  ((Finset.range (slots node.data)).filter fun k =>
    entryAt node.data k = inum ∧ namecmp (nameAt node.data k) dot ≠ 0).card

namespace State

variable (state : State)

def IsLive (dp : Nat) : Prop := state.IsDir dp ∧ 0 < (state.node dp).nlink.toInt

instance (dp : Nat) : Decidable (state.IsLive dp) := inferInstanceAs (Decidable (_ ∧ _))

def liveEntries (inum : Nat) : Nat :=
  ∑ dp ∈ Finset.range state.nodes.length,
    if state.IsLive dp then (state.node dp).entriesFor inum else 0

def Referenced (inum : Nat) : Prop :=
  (∃ file ∈ state.tables.ftable, 0 < file.ref ∧ file.kind = .inode ∧ file.ip = inum) ∨
    ∃ proc, some proc ∈ state.tables.procs ∧ proc.cwd = inum

end State

/-- Link counts are exact; what has no links is referenced, and what is free is
neither named nor referenced. -/
structure LinkCounts (state : State) : Prop where
  linked : ∀ inum, (state.node inum).type ≠ 0 → 0 < (state.node inum).nlink.toInt →
    (state.node inum).nlink.toInt = state.liveEntries inum
  unlinked : ∀ inum, (state.node inum).type ≠ 0 → (state.node inum).nlink = 0 →
    state.Referenced inum
  free : ∀ inum, inum ≠ 0 → (state.node inum).type = 0 →
    state.liveEntries inum = 0 ∧ ¬state.Referenced inum

section

variable {state : State} {inum dp : Nat}

theorem Tree.entriesFor (tree : Tree state) (isDir : state.IsDir dp) (nonzero : inum ≠ 0) :
    (state.node dp).entriesFor inum =
      countNames (state.node dp).data inum + if state.parent dp = inum then 1 else 0 := by
  have self := tree.self dp isDir
  have up := tree.up dp isDir
  -- An entry other than the first is not called `.`, as names are distinct.
  have notDot : ∀ k, k ≠ 0 → state.entry dp k = inum →
      namecmp (nameAt (state.node dp).data k) dot ≠ 0 := by
    intro k later entry isDot
    refine later (tree.distinct dp k 0 isDir (by rw [entry]; exact nonzero) ?_ ?_)
    · rw [self.1]
      exact tree.ne_zero isDir.typed
    · rw [namecmp_eq_zero, namecmp_eq_zero.mp isDot, namecmp_eq_zero.mp self.2]
  have counted : ∀ k, k ∈ ((Finset.range (slots (state.node dp).data)).filter fun k =>
      entryAt (state.node dp).data k = inum ∧ namecmp (nameAt (state.node dp).data k) dot ≠ 0) ↔
      k ∈ ((Finset.range (slots (state.node dp).data)).filter fun k =>
        2 ≤ k ∧ entryAt (state.node dp).data k = inum) ∨ k = 1 ∧ state.parent dp = inum := by
    intro k
    rw [Finset.mem_filter, Finset.mem_filter]
    constructor
    · rintro ⟨inside, entry, isNot⟩
      match k with
      | 0 => exact absurd self.2 isNot
      | 1 => exact Or.inr ⟨rfl, entry⟩
      | k + 2 => exact Or.inl ⟨inside, Nat.le_add_left 2 k, entry⟩
    · rintro (⟨inside, later, entry⟩ | ⟨rfl, entry⟩)
      · exact ⟨inside, entry, notDot k (by omega) entry⟩
      · refine ⟨Finset.mem_range.mpr ?_, entry, notDot 1 (by decide) entry⟩
        exact lt_slots_of_entryAt (tree.shaped dp isDir).aligned up.1
  rw [Node.entriesFor, countNames]
  split
  · rename_i isParent
    rw [← Finset.card_insert_of_notMem (a := 1)]
    · congr 1
      ext k
      rw [counted, Finset.mem_insert]
      constructor
      · rintro (name | ⟨rfl, _⟩)
        · exact Or.inr name
        · exact Or.inl rfl
      · rintro (rfl | name)
        · exact Or.inr ⟨rfl, isParent⟩
        · exact Or.inl name
    · intro member
      have later := (Finset.mem_filter.mp member).2.1
      omega
  · rename_i notParent
    rw [Nat.add_zero]
    congr 1
    ext k
    rw [counted]
    constructor
    · rintro (name | ⟨_, isParent⟩)
      · exact name
      · exact absurd isParent notParent
    · exact Or.inl

/-- Every directory that has links is the root or has a name. -/
def Attached (state : State) : Prop :=
  ∀ dp, state.IsDir dp → (state.node dp).nlink ≠ 0 → dp = ROOTINO ∨ state.names dp ≠ 0

/-- The number of names of an inode in directories that have links. -/
def State.liveNames (state : State) (inum : Nat) : Nat :=
  ∑ dp ∈ Finset.range state.nodes.length,
    if state.IsLive dp then countNames (state.node dp).data inum else 0

theorem Tree.isLive_of_names (tree : Tree state) (isDir : state.IsDir dp)
    (named : state.names dp ≠ 0) : state.IsLive dp := by
  refine ⟨isDir, ?_⟩
  have covered := tree.counts dp isDir.typed
  rw [links] at covered
  omega

theorem Tree.isLive_root (tree : Tree state) : state.IsLive ROOTINO := by
  refine ⟨tree.root, ?_⟩
  have covered := tree.counts ROOTINO tree.root.typed
  rw [links, if_pos rfl] at covered
  omega

theorem Tree.parent_count (tree : Tree state) (attached : Attached state) (dp inum : Nat) :
    (if state.IsLive dp ∧ state.parent dp = inum then 1 else 0) =
      (if state.IsChild inum dp then 1 else 0) +
        if dp = ROOTINO ∧ inum = ROOTINO then 1 else 0 := by
  by_cases isRoot : dp = ROOTINO
  · subst isRoot
    have notChild : ¬state.IsChild inum ROOTINO := by
      rintro ⟨_, _, named⟩
      rw [tree.rootUnnamed] at named
      exact Nat.lt_irrefl 0 named
    rw [if_neg notChild, Nat.zero_add]
    refine if_congr ?_ rfl rfl
    rw [tree.rootParent]
    exact ⟨fun both => ⟨rfl, both.2.symm⟩, fun both => ⟨tree.isLive_root, both.2.symm⟩⟩
  · rw [if_neg (fun both : dp = ROOTINO ∧ inum = ROOTINO => isRoot both.1), Nat.add_zero]
    refine if_congr ?_ rfl rfl
    rw [State.IsChild]
    constructor
    · rintro ⟨⟨isDir, positive⟩, parent⟩
      rcases attached dp isDir (nlink_ne_zero positive) with root | named
      · exact absurd root isRoot
      · exact ⟨isDir, parent, Nat.pos_of_ne_zero named⟩
    · rintro ⟨isDir, parent, named⟩
      exact ⟨tree.isLive_of_names isDir (Nat.pos_iff_ne_zero.mp named), parent⟩

theorem Tree.liveEntries_eq (tree : Tree state) (attached : Attached state)
    (nonzero : inum ≠ 0) : state.liveEntries inum =
      state.liveNames inum + state.children inum + if inum = ROOTINO then 1 else 0 := by
  have rootInside := Finset.mem_range.mpr (lt_length_of_typed tree.root.typed)
  have rootOnly : (if inum = ROOTINO then 1 else 0) =
      ∑ dp ∈ Finset.range state.nodes.length,
        if dp = ROOTINO ∧ inum = ROOTINO then 1 else 0 := by
    by_cases isRoot : inum = ROOTINO
    · simp only [isRoot, and_true, if_true]
      rw [Finset.sum_ite_eq' _ ROOTINO, if_pos rootInside]
    · simp only [isRoot, and_false, if_false, Finset.sum_const_zero]
  rw [rootOnly, liveEntries, liveNames, children, Nat.add_assoc,
    ← Finset.sum_add_distrib, ← Finset.sum_add_distrib]
  refine Finset.sum_congr rfl fun dp _ => ?_
  rw [← tree.parent_count attached dp inum]
  by_cases live : state.IsLive dp
  · rw [if_pos live, if_pos live, tree.entriesFor live.1 nonzero]
    simp only [live, true_and]
  · rw [if_neg live, if_neg live, if_neg fun both => live both.1]

theorem Counted.attached (counted : Counted state) (tree : Tree state) : Attached state :=
  fun _ isDir linked => counted.named_of_linked tree isDir linked

theorem Counted.liveNames_eq (counted : Counted state) (tree : Tree state) (nonzero : inum ≠ 0) :
    state.liveNames inum = state.names inum := by
  refine Finset.sum_congr rfl fun dp _ => ?_
  by_cases isDir : state.IsDir dp
  · by_cases live : state.IsLive dp
    · rw [if_pos live, Node.names, if_pos (show (state.node dp).type = T_DIR from isDir)]
    · rw [if_neg live]
      -- A directory without links has no name, so it is empty.
      have unlinked : (state.node dp).nlink.toInt = 0 := by
        have nonneg := tree.nlink_nonneg isDir.typed
        have notPositive : ¬0 < (state.node dp).nlink.toInt := fun positive => live ⟨isDir, positive⟩
        omega
      have exact := counted.exact dp isDir.typed
      rw [unlinked, links] at exact
      have notRoot : dp ≠ ROOTINO := by
        rintro rfl
        exact live tree.isLive_root
      exact (Node.names_of_bare (fun _ => counted.bare dp isDir notRoot (by omega)) nonzero).symm
  · rw [if_neg fun live => isDir live.1, Node.names,
      if_neg (show ¬(state.node dp).type = T_DIR from isDir)]

theorem Counted.liveEntries_eq (counted : Counted state) (tree : Tree state) (nonzero : inum ≠ 0) :
    state.liveEntries inum = state.links inum := by
  rw [tree.liveEntries_eq (counted.attached tree) nonzero, counted.liveNames_eq tree nonzero,
    links]

theorem Proper.referenced (proper : Proper state []) :
    state.Referenced inum ↔ (state.node inum).ref ≠ 0 := by
  rw [proper.refs, List.count_nil, Nat.add_zero, Tables.refs, State.Referenced]
  constructor
  · rintro (⟨file, member, _, isInode, same⟩ | ⟨proc, member, same⟩)
    · have counted : 0 < state.tables.ftable.countP (File.refersTo · inum) :=
        List.countP_pos_iff.mpr ⟨file, member, by simp [File.refersTo, isInode, same]⟩
      omega
    · have counted : 0 < state.tables.procs.countP (isCwd · inum) :=
        List.countP_pos_iff.mpr ⟨_, member, by simp [isCwd, same]⟩
      omega
  · intro some
    rcases Nat.eq_zero_or_pos (state.tables.ftable.countP (File.refersTo · inum)) with none | counted
    · have counted : 0 < state.tables.procs.countP (isCwd · inum) := by omega
      rcases List.countP_pos_iff.mp counted with ⟨proc, member, isCwd⟩
      cases proc with
      | none => cases isCwd
      | some proc =>
        simp only [Xv6.Dir.isCwd, Option.map_some, Option.some.injEq, decide_eq_true_eq] at isCwd
        exact Or.inr ⟨proc, member, isCwd⟩
    · rcases List.countP_pos_iff.mp counted with ⟨file, member, refers⟩
      simp only [File.refersTo, decide_eq_true_eq] at refers
      refine Or.inl ⟨file, member, ?_, refers⟩
      refine Nat.pos_of_ne_zero fun closed => ?_
      have isNone := proper.idle file member closed
      rw [isNone] at refers
      cases refers.1

theorem Counted.linkCounts (counted : Counted state) (proper : Proper state []) :
    LinkCounts state where
  linked := by
    intro inum typed _
    rw [counted.liveEntries_eq proper.tree (proper.tree.ne_zero typed)]
    exact (counted.exact inum typed).symm
  unlinked := by
    intro inum typed unlinked
    exact proper.referenced.mpr ((proper.settled inum).linked typed unlinked)
  free := by
    intro inum nonzero free
    have tree := proper.tree
    refine ⟨?_, fun referenced => ?_⟩
    · have childless := tree.children_of_not_dir fun isDir : state.IsDir inum => isDir.typed free
      have notRoot : inum ≠ ROOTINO := by
        rintro rfl
        exact tree.root.typed free
      rw [counted.liveEntries_eq tree nonzero, links, tree.names_of_free nonzero free,
        childless, if_neg notRoot]
    · exact (proper.settled inum).typed (proper.referenced.mp referenced) free

/-- Exact link counts leave nothing for the names in a directory without links. -/
theorem LinkCounts.counted (counts : LinkCounts state) (tree : Tree state)
    (attached : Attached state) : Counted state := by
  have liveNames_le : ∀ inum, state.liveNames inum ≤ state.names inum := by
    intro inum
    refine Finset.sum_le_sum fun dp _ => ?_
    split
    · rename_i live
      rw [Node.names, if_pos (show (state.node dp).type = T_DIR from live.1)]
    · exact Nat.zero_le _
  have exact : ∀ inum, (state.node inum).type ≠ 0 →
      (state.links inum : Int) = (state.node inum).nlink.toInt ∧
        state.names inum = state.liveNames inum := by
    intro inum typed
    have covered := tree.counts inum typed
    have fewer := liveNames_le inum
    have live := tree.liveEntries_eq attached (tree.ne_zero typed)
    rcases Int.lt_or_le 0 (state.node inum).nlink.toInt with positive | none
    · have linked := counts.linked inum typed positive
      rw [links] at covered ⊢
      omega
    · rw [links] at covered ⊢
      omega
  refine ⟨fun inum typed => (exact inum typed).1, ?_⟩
  intro dp isDir notRoot unnamed k later
  by_contra used
  have typed := tree.target dp k isDir later used
  have dead : ¬state.IsLive dp := by
    intro live
    rcases attached dp isDir (nlink_ne_zero live.2) with isRoot | named
    · exact notRoot isRoot
    · exact named unnamed
  -- The entry is a name that is not counted as a live one.
  have strict : state.liveNames (state.entry dp k) < state.names (state.entry dp k) := by
    refine Finset.sum_lt_sum (fun other _ => ?_) ⟨dp, ?_, ?_⟩
    · split
      · rename_i live
        rw [Node.names, if_pos (show (state.node other).type = T_DIR from live.1)]
      · exact Nat.zero_le _
    · exact Finset.mem_range.mpr (lt_length_of_typed isDir.typed)
    · rw [if_neg dead, Node.names, if_pos (show (state.node dp).type = T_DIR from isDir)]
      exact (countNames_pos (tree.shaped dp isDir).aligned used).mpr ⟨k, later, rfl⟩
  have same := (exact _ typed).2
  omega

end

/-! ## Runs -/

section

variable {devsw : Nat → Device} {start state : State}

/-- A step in which no link count wraps around and no directory without links is
written to. A link that a failing call takes back does not count. -/
def Careful (devsw : Nat → Device) (state : State) (action : Nat × SysCall) : Prop :=
  ∀ next, step devsw state action = some next → Unwrapped state next ∧ SparesRemoved state next

theorem reachable_counted (proper : Proper start []) (counted : Counted start)
    (reachable : Reachable (step devsw) (Careful devsw) start state) :
    Proper state [] ∧ Counted state := by
  refine Reachable.invariant (fun state => Proper state [] ∧ Counted state) ?_ ⟨proper, counted⟩
    reachable
  rintro state ⟨p, call⟩ next ⟨before, beforeCounted⟩ careful stepped
  have outcome := step_outcome before stepped
  rcases careful next stepped with ⟨unwrapped, spares⟩
  exact ⟨outcome.proper before unwrapped,
    outcome.counted before beforeCounted unwrapped spares⟩

/-- Link counts stay exact in every run of careful steps. -/
theorem runs_keep_link_counts (devsw : Nat → Device) (start state : State)
    (proper : Proper start []) (counts : LinkCounts start) (attached : Attached start)
    (reachable : Reachable (step devsw) (Careful devsw) start state) :
    LinkCounts state ∧ Attached state := by
  have reached := reachable_counted proper (counts.counted proper.tree attached) reachable
  exact ⟨reached.2.linkCounts reached.1, reached.2.attached reached.1.tree⟩

theorem counted_formatted {inodes files descriptors : Nat} :
    Counted (formatted inodes files descriptors) where
  exact := by
    intro inum typed
    rw [links_formatted, node_formatted]
    rw [node_formatted] at typed
    by_cases isRoot : inum = ROOTINO
    · rw [if_pos isRoot, if_pos isRoot]
      rfl
    · rw [if_neg isRoot] at typed
      exact absurd rfl typed
  bare := fun dp isDir notRoot => absurd (isDir_formatted.mp isDir) notRoot

/-- Every step is careful while no link count is at its limit and every directory has links. -/
theorem Careful.of_linked {action : Nat × SysCall} (small : ∀ node ∈ state.nodes, node.nlink ≠ 32767)
    (linked : ∀ dp, state.IsDir dp → (state.node dp).nlink ≠ 0) : Careful devsw state action := by
  intro next stepped
  refine ⟨Bounded.of_small small next stepped, ?_⟩
  intro dp isDir removed
  exact absurd removed (linked dp isDir)

/-- A directory `d` made in a new file system has its two links. -/
theorem runs_keep_link_counts_mkdir :
    ∃ state, step noDevices (formatted 2 1 1) (0, .mkdir [100]) = some state ∧
      LinkCounts state := by
  have stepped : (step noDevices (formatted 2 1 1) (0, .mkdir [100])).isSome := by decide +kernel
  rcases Option.isSome_iff_exists.mp stepped with ⟨state, made⟩
  have proper : Proper (formatted 2 1 1) [] := proper_formatted (by decide)
  have linked : ∀ dp, (formatted 2 1 1).IsDir dp → ((formatted 2 1 1).node dp).nlink ≠ 0 := by
    intro dp isDir
    rw [isDir_formatted.mp isDir]
    decide +kernel
  have kept := runs_keep_link_counts noDevices (formatted 2 1 1) state proper
    (counted_formatted.linkCounts proper) (counted_formatted.attached proper.tree)
    (.step _ .refl (.of_linked (by decide +kernel) linked) made)
  exact ⟨state, made, kept.1⟩

/-! ## A file created in a removed directory -/

/-- Make `d`, go there, remove it and create `x` in it. -/
def createInRemoved : List (Nat × SysCall) :=
  [(0, .mkdir [100]), (0, .chdir [100]), (0, .unlink [47, 100]), (0, .open [120] 0x202)]

/-- The file has a link, but no entry for it is in a directory that has links. -/
theorem link_from_removed_directory :
    LinkCounts (formatted 2 1 1) ∧
      ∃ state, Reachable (step noDevices) Unrestricted (formatted 2 1 1) state ∧
        (state.node 3).type = T_FILE ∧ (state.node 3).nlink = 1 ∧ state.liveEntries 3 = 0 ∧
        ¬LinkCounts state := by
  have proper : Proper (formatted 2 1 1) [] := proper_formatted (by decide)
  refine ⟨counted_formatted.linkCounts proper, ?_⟩
  rcases exists_reachable (step noDevices) Unrestricted (formatted 2 1 1) createInRemoved
      (fun state => (state.node 3).type = T_FILE ∧ (state.node 3).nlink = 1 ∧
        state.liveEntries 3 = 0) (by decide +kernel) with ⟨state, reachable, isFile, linked, none⟩
  refine ⟨state, reachable, isFile, linked, none, ?_⟩
  intro counts
  have exact := counts.linked 3 (by rw [isFile]; decide) (by rw [linked]; decide)
  rw [linked, none] at exact
  exact absurd exact (by decide)

end

end Xv6.Dir
