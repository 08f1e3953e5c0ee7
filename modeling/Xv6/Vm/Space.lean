import Xv6.Vm.Layer

/-! # Ownership of pages

What the functions of `vm.c` may rely on: they have pages of their own, which nobody else
uses, and the allocator gives them any page that is not among these, or none when there is
no other. A page they own has exactly one use: as a page directory, as a page table of one
directory, as the user page at one address of one directory, or as a page at hand.
-/

namespace Xv6.Vm

open Interaction Function

variable {post : Unit → View → Prop} {page index flags : Nat}

abbrev Memory := Nat → Nat → UInt32

/-- The number of the pages below `KERNBASE`. -/
abbrev USERPAGES : Nat := KERNBASE / PGSIZE

abbrev NPAGES : Nat := NPDENTRIES * NPTENTRIES

namespace Memory

def store (mem : Memory) (page index : Nat) (word : UInt32) : Memory :=
  Function.update mem page (Function.update (mem page) index word)

def clear (mem : Memory) (page : Nat) : Memory := Function.update mem page fun _ => 0

/-- The entry for a virtual page. Without a page table it is zero. -/
def pte (mem : Memory) (d vp : Nat) : UInt32 :=
  if Present (mem d (vp / NPTENTRIES)) then
    mem (PTE_ADDR (mem d (vp / NPTENTRIES))) (vp % NPTENTRIES)
  else 0

def frame (mem : Memory) (d vp : Nat) : Option Nat :=
  if Present (mem.pte d vp) then some (PTE_ADDR (mem.pte d vp)) else none

end Memory

/-! ## The use of the pages -/

structure View where
  mem : Memory
  own : Set Nat
  sz : UInt32

/-- The pages that the allocator manages: from the end of the kernel to the end of memory. -/
def InPool (kend page : Nat) : Prop := kend ≤ page ∧ page < PHYSTOP / PGSIZE

/-- Pages of the allocator: those that are free, and those in use that are our own. -/
structure Pool where
  kend : Nat
  pages : Set Nat
  loaded : 0 < kend
  inside : ∀ page ∈ pages, InPool kend page

/-- The pages may be used this way, with some panics. -/
def pageRule (pool : Pool) (allowed : Panic → Prop) :
    (request : Request) → View → (Answer request → View → Prop) → Prop
  | .kalloc, view, post => (pool.pages ⊆ view.own → post none view) ∧
      ∀ page (contents : Nat → UInt32), page ∈ pool.pages → page ∉ view.own →
        post (some page) { view with
          mem := Function.update view.mem page contents
          own := insert page view.own }
  | .kfree v, view, post => v ∈ view.own ∧ v ∈ pool.pages ∧
      post () { view with own := view.own \ {v} }
  | .load page index, view, post => page ∈ view.own ∧ index < NPTENTRIES ∧
      post (view.mem page index) view
  | .store page index word, view, post => page ∈ view.own ∧ index < NPTENTRIES ∧
      post () { view with mem := view.mem.store page index word }
  | .clear page, view, post => page ∈ view.own ∧ post () { view with mem := view.mem.clear page }
  | .sz, view, post => post view.sz view
  | .setSz sz, view, post => post () { view with sz := sz }
  | .fail panic, _, _ => allowed panic

def pageUse (pool : Pool) (allowed : Panic → Prop) : Discipline Request Answer View where
  rule := pageRule pool allowed
  mono := by
    intro request view post weaker implies ruled
    cases request with
    | kalloc => exact ⟨fun full => implies _ _ (ruled.1 full), fun page contents known fresh =>
        implies _ _ (ruled.2 page contents known fresh)⟩
    | kfree v | load page index | store page index word =>
        exact ⟨ruled.1, ruled.2.1, implies _ _ ruled.2.2⟩
    | clear page => exact ⟨ruled.1, implies _ _ ruled.2⟩
    | sz => exact implies _ _ ruled
    | setSz sz => exact implies _ _ ruled
    | fail panic => exact ruled

section

variable {pool : Pool} {allowed : Panic → Prop} {view : View}

theorem kalloc_obeys {post : Option Nat → View → Prop}
    (none : pool.pages ⊆ view.own → post none view)
    (given : ∀ page (contents : Nat → UInt32), page ∈ pool.pages → page ∉ view.own →
      post (some page) { view with
        mem := update view.mem page contents
        own := insert page view.own }) :
    Obeys (pageUse pool allowed) kalloc view post :=
  ⟨none, given⟩

theorem kfree_obeys {v : Nat} (owns : v ∈ view.own) (known : v ∈ pool.pages)
    (met : post () { view with own := view.own \ {v} }) :
    Obeys (pageUse pool allowed) (kfree v) view post :=
  ⟨owns, known, met⟩

theorem load_obeys {post : UInt32 → View → Prop} (owns : page ∈ view.own)
    (inside : index < NPTENTRIES) (met : post (view.mem page index) view) :
    Obeys (pageUse pool allowed) (load page index) view post :=
  ⟨owns, inside, met⟩

theorem store_obeys {word : UInt32} (owns : page ∈ view.own) (inside : index < NPTENTRIES)
    (met : post () { view with mem := view.mem.store page index word }) :
    Obeys (pageUse pool allowed) (store page index word) view post :=
  ⟨owns, inside, met⟩

theorem clear_obeys (owns : page ∈ view.own)
    (met : post () { view with mem := view.mem.clear page }) :
    Obeys (pageUse pool allowed) (clear page) view post :=
  ⟨owns, met⟩

theorem getSz_obeys {post : UInt32 → View → Prop} (met : post view.sz view) :
    Obeys (pageUse pool allowed) getSz view post :=
  met

theorem setSz_obeys {sz : UInt32} (met : post () { view with sz := sz }) :
    Obeys (pageUse pool allowed) (setSz sz) view post :=
  met

end

/-! ## Entries -/

theorem present_entryOf (odd : flags % 2 = 1) :
    Present (entryOf page flags) := by
  simp only [Present, entryOf, UInt32.toNat_ofNat', PGSIZE]
  omega

theorem pteAddr_entryOf (inside : page < 2 ^ 20) (small : flags < PGSIZE) :
    PTE_ADDR (entryOf page flags) = page := by
  simp only [PTE_ADDR, entryOf, UInt32.toNat_ofNat', PGSIZE] at *
  omega

theorem not_present_zero : ¬Present 0 := by decide

theorem InPool.lt {kend : Nat} (inPool : InPool kend page) : page < 2 ^ 20 :=
  Nat.lt_trans inPool.2 (by decide)

section Words

variable {mem : Memory} {page index : Nat} {word : UInt32}

theorem store_of_ne {at_ : Nat} (different : at_ ≠ page) :
    mem.store page index word at_ = mem at_ :=
  update_of_ne different ..

theorem store_self_of_ne {at_ : Nat} (different : at_ ≠ index) :
    mem.store page index word page at_ = mem page at_ := by
  rw [Memory.store, update_self, update_of_ne different]

theorem store_self : mem.store page index word page index = word := by
  rw [Memory.store, update_self, update_self]

/-- Writing an entry in the page table of one virtual page. -/
theorem pte_store {d vp other at_ : Nat} (present : Present (mem d (vp / NPTENTRIES)))
    (apart : other ≠ PTE_ADDR (mem d (vp / NPTENTRIES)))
    (single : Present (mem other (at_ / NPTENTRIES)) →
      PTE_ADDR (mem other (at_ / NPTENTRIES)) = PTE_ADDR (mem d (vp / NPTENTRIES)) →
      other = d ∧ at_ / NPTENTRIES = vp / NPTENTRIES) :
    (mem.store (PTE_ADDR (mem d (vp / NPTENTRIES))) (vp % NPTENTRIES) word).pte other at_ =
      if other = d ∧ at_ = vp then word else mem.pte other at_ := by
  simp only [Memory.pte, store_of_ne apart]
  by_cases mapped : Present (mem other (at_ / NPTENTRIES))
  · rw [if_pos mapped, if_pos mapped]
    by_cases sameTable : PTE_ADDR (mem other (at_ / NPTENTRIES)) =
        PTE_ADDR (mem d (vp / NPTENTRIES))
    · have sameRole := single mapped sameTable
      rw [sameTable]
      by_cases sameIndex : at_ % NPTENTRIES = vp % NPTENTRIES
      · have same : at_ = vp := by
          simp only [NPTENTRIES] at *
          omega
        rw [if_pos ⟨sameRole.1, same⟩, sameIndex, store_self]
      · rw [if_neg (fun same => sameIndex (by rw [same.2])), store_self_of_ne sameIndex]
    · rw [store_of_ne sameTable, if_neg]
      rintro ⟨rfl, rfl⟩
      exact sameTable rfl
  · rw [if_neg mapped, if_neg mapped, if_neg]
    rintro ⟨rfl, rfl⟩
    exact mapped present

theorem store_other {d other i : Nat} (elsewhere : ¬(other = d ∧ i = index)) :
    mem.store d index word other i = mem other i := by
  by_cases same : other = d
  · subst same
    exact store_self_of_ne fun equal => elsewhere ⟨rfl, equal⟩
  · rw [store_of_ne same]

/-- A new page table that is empty is as good as none. -/
theorem pte_link {d other at_ flags : Nat} (absent : ¬Present (mem d index)) (notDir : page ≠ d)
    (empty : mem page = fun _ => 0) (odd : flags % 2 = 1)
    (address : PTE_ADDR (entryOf page flags) = page)
    (apart : Present (mem other (at_ / NPTENTRIES)) → PTE_ADDR (mem other (at_ / NPTENTRIES)) ≠ d) :
    (mem.store d index (entryOf page flags)).pte other at_ = mem.pte other at_ := by
  by_cases here : other = d ∧ at_ / NPTENTRIES = index
  · rcases here with ⟨rfl, rfl⟩
    simp only [Memory.pte, store_self, if_pos (present_entryOf odd), address, store_of_ne notDir,
      empty, if_neg absent]
  · simp only [Memory.pte, store_other here]
    split
    · rename_i mapped
      rw [store_of_ne (apart mapped)]
    · rfl

end Words

/-! ## Roles -/

inductive Role
  | dir (d : Nat)
  | table (d index : Nat)
  | user (d vp : Nat)
  | hand (page : Nat)
  deriving DecidableEq

/-- The page that has a role, for the page directories `live` and the pages at hand. -/
def Holds (mem : Memory) (live hand : Set Nat) : Role → Nat → Prop
  | .dir d, page => d ∈ live ∧ page = d
  | .table d index, page => d ∈ live ∧ index < NPDENTRIES ∧ Present (mem d index) ∧
      page = PTE_ADDR (mem d index)
  | .user d vp, page => d ∈ live ∧ vp < USERPAGES ∧ mem.frame d vp = some page
  | .hand held, page => held ∈ hand ∧ page = held

/-- Our pages are those that have a role, and each has one. -/
structure Owned (pool : Pool) (view : View) (live hand : Set Nat) : Prop where
  single : ∀ role other page, Holds view.mem live hand role page →
    Holds view.mem live hand other page → role = other
  own : ∀ page, page ∈ view.own ↔ ∃ role, Holds view.mem live hand role page
  known : view.own ⊆ pool.pages

section

variable {mem other : Memory} {live hand : Set Nat} {role : Role} {d vp page at_ : Nat}

theorem holds_dir (isLive : d ∈ live) : Holds mem live hand (.dir d) d := ⟨isLive, rfl⟩

theorem holds_table (isLive : d ∈ live) (inside : index < NPDENTRIES)
    (present : Present (mem d index)) :
    Holds mem live hand (.table d index) (PTE_ADDR (mem d index)) :=
  ⟨isLive, inside, present, rfl⟩

theorem holds_user (isLive : d ∈ live) (inside : vp < USERPAGES)
    (maps : mem.frame d vp = some page) : Holds mem live hand (.user d vp) page :=
  ⟨isLive, inside, maps⟩

theorem holds_hand (held : page ∈ hand) : Holds mem live hand (.hand page) page := ⟨held, rfl⟩

theorem Holds.unique (holds : Holds mem live hand role page)
    (also : Holds mem live hand role at_) : page = at_ := by
  cases role with
  | dir d => exact holds.2.trans also.2.symm
  | table d index => exact holds.2.2.2.trans also.2.2.2.symm
  | user d vp => exact Option.some.inj (holds.2.2.symm.trans also.2.2)
  | hand held => exact holds.2.trans also.2.symm

theorem holds_insert_hand : Holds mem live (insert page hand) role at_ ↔
    role = .hand page ∧ at_ = page ∨ Holds mem live hand role at_ := by
  cases role <;> simp only [Holds, Set.mem_insert_iff, Role.hand.injEq, reduceCtorEq, false_and,
    false_or]
  grind

theorem holds_remove_hand : Holds mem live (hand \ {page}) role at_ ↔
    role ≠ .hand page ∧ Holds mem live hand role at_ := by
  cases role <;> simp only [Holds, Set.mem_sdiff, Set.mem_singleton_iff, ne_eq, Role.hand.injEq,
    reduceCtorEq, not_false_eq_true, true_and]
  grind

theorem pdx_lt (inside : vp < NPAGES) : vp / NPTENTRIES < NPDENTRIES := by
  simp only [NPAGES, NPTENTRIES, NPDENTRIES] at *
  omega

theorem lt_npages (inside : vp < USERPAGES) : vp < NPAGES := inside.trans (by decide)

theorem pte_congr (dir : other d = mem d)
    (table : Present (mem d (vp / NPTENTRIES)) →
      other (PTE_ADDR (mem d (vp / NPTENTRIES))) = mem (PTE_ADDR (mem d (vp / NPTENTRIES)))) :
    other.pte d vp = mem.pte d vp := by
  simp only [Memory.pte, dir]
  split
  · rename_i present
    rw [table present]
  · rfl

theorem frame_congr (same : other.pte d vp = mem.pte d vp) :
    other.frame d vp = mem.frame d vp := by
  simp only [Memory.frame, same]

/-- The roles depend on the page directories and the page tables only. -/
theorem holds_congr (dir : ∀ d ∈ live, other d = mem d)
    (table : ∀ d ∈ live, ∀ index < NPDENTRIES, Present (mem d index) →
      other (PTE_ADDR (mem d index)) = mem (PTE_ADDR (mem d index))) :
    Holds other live hand role page ↔ Holds mem live hand role page := by
  cases role with
  | dir d => exact Iff.rfl
  | table d index =>
    simp only [Holds]
    refine and_congr_right fun isLive => ?_
    rw [dir d isLive]
  | user d vp =>
    simp only [Holds]
    refine and_congr_right fun isLive => and_congr_right fun inside => ?_
    rw [frame_congr (pte_congr (dir d isLive) (table d isLive _ (pdx_lt (lt_npages inside))))]
  | hand held => exact Iff.rfl

end

section

variable {pool : Pool} {view after : View} {live hand live' hand' : Set Nat}
  {d index vp page at_ : Nat} {from_ to_ role other : Role}

/-! ## How roles change -/

section

variable (owned : Owned pool view live hand)

include owned

theorem Owned.moves (to_ : Role) (held : Holds view.mem live hand from_ page)
    (vacant : ∀ at_, ¬Holds view.mem live hand to_ at_)
    (roles : ∀ role at_, Holds after.mem live' hand' role at_ ↔
      role = to_ ∧ at_ = page ∨ role ≠ from_ ∧ Holds view.mem live hand role at_)
    (own : after.own = view.own) : Owned pool after live' hand' where
  single := by
    have single := owned.single
    grind
  own := by
    intro at_
    have unique := @Holds.unique view.mem live hand from_ page
    simp only [roles, own, owned.own]
    grind
  known := own ▸ owned.known

theorem Owned.takes (to_ : Role) (fresh : page ∉ view.own) (known : page ∈ pool.pages)
    (roles : ∀ role at_, Holds after.mem live' hand' role at_ ↔
      role = to_ ∧ at_ = page ∨ Holds view.mem live hand role at_)
    (own : after.own = insert page view.own) : Owned pool after live' hand' where
  single := by
    have single := owned.single
    have own := owned.own
    grind
  own := by
    intro at_
    simp only [roles, own, Set.mem_insert_iff, owned.own]
    grind
  known := own ▸ Set.insert_subset known owned.known

theorem Owned.drops (held : Holds view.mem live hand from_ page)
    (roles : ∀ role at_, Holds after.mem live' hand' role at_ ↔
      role ≠ from_ ∧ Holds view.mem live hand role at_)
    (own : after.own = view.own \ {page}) : Owned pool after live' hand' where
  single := by
    have single := owned.single
    grind
  own := by
    intro at_
    have single := owned.single
    have unique := @Holds.unique view.mem live hand from_ page
    simp only [roles, own, Set.mem_sdiff, Set.mem_singleton_iff, owned.own]
    grind
  known := own ▸ Set.sdiff_subset.trans owned.known

theorem Owned.ne {first second : Nat} (holds : Holds view.mem live hand role first)
    (also : Holds view.mem live hand other second) (different : role ≠ other) :
    first ≠ second := by
  rintro rfl
  exact different (owned.single role other first holds also)

theorem Owned.dir_own (isLive : d ∈ live) : d ∈ view.own :=
  (owned.own d).mpr ⟨_, holds_dir isLive⟩

theorem Owned.table_own (isLive : d ∈ live) (inside : index < NPDENTRIES)
    (present : Present (view.mem d index)) : PTE_ADDR (view.mem d index) ∈ view.own :=
  (owned.own _).mpr ⟨_, holds_table isLive inside present⟩

theorem Owned.user_own (isLive : d ∈ live) (inside : vp < USERPAGES)
    (maps : view.mem.frame d vp = some page) : page ∈ view.own :=
  (owned.own page).mpr ⟨_, holds_user isLive inside maps⟩

theorem Owned.hand_own (held : page ∈ hand) : page ∈ view.own :=
  (owned.own page).mpr ⟨_, holds_hand held⟩

end

/-- What is left alone: the entries and the contents of the user pages, except at some
places, and the pages at hand. -/
structure Keeps (except : Nat → Nat → Prop) (live hand : Set Nat) (view after : View) : Prop where
  pte : ∀ d ∈ live, ∀ vp < NPAGES, ¬except d vp → after.mem.pte d vp = view.mem.pte d vp
  data : ∀ d ∈ live, ∀ vp < USERPAGES, ¬except d vp → ∀ page,
    view.mem.frame d vp = some page → after.mem page = view.mem page
  hand : ∀ page ∈ hand, after.mem page = view.mem page
  sz : after.sz = view.sz

theorem Keeps.refl (except : Nat → Nat → Prop) (live hand : Set Nat) (view : View) :
    Keeps except live hand view view :=
  ⟨fun _ _ _ _ _ => rfl, fun _ _ _ _ _ _ _ => rfl, fun _ _ => rfl, rfl⟩

theorem Keeps.trans {except : Nat → Nat → Prop} {last : View}
    (first : Keeps except live hand view after) (second : Keeps except live hand after last) :
    Keeps except live hand view last := by
  refine ⟨?_, ?_, fun page held => (second.hand page held).trans (first.hand page held),
    second.sz.trans first.sz⟩
  · exact fun d isLive vp inside kept =>
      (second.pte d isLive vp inside kept).trans (first.pte d isLive vp inside kept)
  · intro d isLive vp inside kept page mapped
    have still : after.mem.frame d vp = some page :=
      (frame_congr (first.pte d isLive vp (lt_npages inside) kept)).trans mapped
    exact (second.data d isLive vp inside kept page still).trans
      (first.data d isLive vp inside kept page mapped)

theorem Keeps.weaken {except more : Nat → Nat → Prop} (keeps : Keeps except live hand view after)
    (fewer : live' ⊆ live) (less : hand' ⊆ hand)
    (implies : ∀ d ∈ live', ∀ vp, except d vp → more d vp) : Keeps more live' hand' view after :=
  ⟨fun d isLive vp inside kept =>
      keeps.pte d (fewer isLive) vp inside fun hit => kept (implies d isLive vp hit),
    fun d isLive vp inside kept =>
      keeps.data d (fewer isLive) vp inside fun hit => kept (implies d isLive vp hit),
    fun page held => keeps.hand page (less held), keeps.sz⟩

/-! ## Taking, filling and giving back pages -/

/-- A page that has no use but to be at hand can be written. -/
theorem holds_written (idle : ∀ role, Holds view.mem live hand role page → role = .hand page)
    (contents : Nat → UInt32) (own : Set Nat) :
    (∀ role at_, Holds (update view.mem page contents) live hand role at_ ↔
      Holds view.mem live hand role at_) ∧
    Keeps (fun _ _ => False) live (hand \ {page}) view
      { view with mem := update view.mem page contents, own := own } := by
  have untouched : ∀ role at_, role ≠ .hand page → Holds view.mem live hand role at_ →
      update view.mem page contents at_ = view.mem at_ := by
    intro role at_ different holds
    refine update_of_ne ?_ ..
    rintro rfl
    exact different (idle role holds)
  have dir : ∀ d ∈ live, update view.mem page contents d = view.mem d :=
    fun d isLive => untouched (.dir d) d nofun ⟨isLive, rfl⟩
  have table : ∀ d ∈ live, ∀ index < NPDENTRIES, Present (view.mem d index) →
      update view.mem page contents (PTE_ADDR (view.mem d index)) =
        view.mem (PTE_ADDR (view.mem d index)) :=
    fun d isLive index inside present =>
      untouched (.table d index) _ nofun ⟨isLive, inside, present, rfl⟩
  refine ⟨fun role at_ => holds_congr dir table, ⟨?_, ?_, ?_, rfl⟩⟩
  · exact fun d isLive vp inside _ =>
      pte_congr (dir d isLive) (table d isLive _ (pdx_lt inside))
  · exact fun d isLive vp inside _ at_ mapped =>
      untouched (.user d vp) at_ nofun ⟨isLive, inside, mapped⟩
  · exact fun held isHeld => update_of_ne isHeld.2 ..

section

variable (owned : Owned pool view live hand)

include owned

theorem Owned.given (known : page ∈ pool.pages) (fresh : page ∉ view.own)
    (contents : Nat → UInt32) :
    Owned pool { view with
        mem := update view.mem page contents
        own := insert page view.own } live (insert page hand) ∧
      Keeps (fun _ _ => False) live hand view { view with
        mem := update view.mem page contents
        own := insert page view.own } := by
  have idle : ∀ role, Holds view.mem live hand role page → role = .hand page :=
    fun role holds => absurd ((owned.own page).mpr ⟨role, holds⟩) fresh
  have written := holds_written idle contents (insert page view.own)
  refine ⟨owned.takes (.hand page) fresh known (fun role at_ => ?_) rfl, ?_⟩
  · rw [holds_insert_hand, written.1]
  · refine written.2.weaken subset_rfl (fun held isHeld => ⟨isHeld, ?_⟩) fun _ _ _ => id
    rintro rfl
    exact fresh (owned.hand_own isHeld)

theorem Owned.free (held : page ∈ hand) :
    Owned pool { view with own := view.own \ {page} } live (hand \ {page}) :=
  owned.drops (holds_hand held) (fun _ _ => holds_remove_hand) rfl

/-! ## Linking and unlinking pages -/

theorem Owned.linkTable (isLive : d ∈ live) (inside : index < NPDENTRIES)
    (absent : ¬Present (view.mem d index)) (held : page ∈ hand)
    (cleared : view.mem page = fun _ => 0) (odd : flags % 2 = 1) (small : flags < PGSIZE) :
    Owned pool { view with mem := view.mem.store d index (entryOf page flags) } live
        (hand \ {page}) ∧
      Keeps (fun _ _ => False) live (hand \ {page}) view
        { view with mem := view.mem.store d index (entryOf page flags) } := by
  have isHand : Holds view.mem live hand _ _ := holds_hand held
  have isDir : Holds view.mem live hand _ _ := holds_dir isLive
  have present : Present (entryOf page flags) := present_entryOf odd
  have address := pteAddr_entryOf (pool.inside page (owned.known (owned.hand_own held))).lt small
  have pte : ∀ other ∈ live, ∀ vp < NPAGES,
      (view.mem.store d index (entryOf page flags)).pte other vp = view.mem.pte other vp :=
    fun other otherLive vp within => pte_link absent (owned.ne isHand isDir nofun) cleared odd
      address fun mapped => owned.ne (holds_table otherLive (pdx_lt within) mapped) isDir nofun
  have vacant : ∀ at_, ¬Holds view.mem live hand (.table d index) at_ :=
    fun at_ holds => absent holds.2.2.1
  refine ⟨owned.moves _ isHand vacant (fun role at_ => ?_) rfl,
    fun other otherLive vp within _ => pte other otherLive vp within, ?_, ?_, rfl⟩
  · cases role with
    | dir other => simp [Holds]
    | hand other =>
      simp only [Holds]
      grind
    | user other vp =>
      simp only [Holds, reduceCtorEq, false_and, false_or, ne_eq, not_false_eq_true, true_and]
      refine and_congr_right fun otherLive => and_congr_right fun within => ?_
      rw [frame_congr (pte other otherLive vp (lt_npages within))]
    | table other i =>
      by_cases here : other = d ∧ i = index
      · rcases here with ⟨rfl, rfl⟩
        simp [Holds, store_self, address, present, isLive, inside, absent]
      · simp [Holds, store_other here, here]
  · exact fun other otherLive vp within _ at_ maps =>
      store_of_ne (owned.ne (holds_user otherLive within maps) isDir nofun)
  · exact fun other isHeld => store_of_ne (owned.ne (holds_hand isHeld.1) isDir nofun)

end

/-! ## Writing entries -/

section

variable (owned : Owned pool view live hand) (isLive : d ∈ live) (inside : vp < NPAGES)
  (present : Present (view.mem d (vp / NPTENTRIES)))

include owned isLive inside present

theorem Owned.pte_store (word : UInt32) {other at_ : Nat} (otherLive : other ∈ live)
    (within : at_ < NPAGES) :
    (view.mem.store (PTE_ADDR (view.mem d (vp / NPTENTRIES))) (vp % NPTENTRIES) word).pte other at_ =
      if other = d ∧ at_ = vp then word else view.mem.pte other at_ := by
  have isTable : Holds view.mem live hand _ _ := holds_table isLive (pdx_lt inside) present
  refine Vm.pte_store present (owned.ne (holds_dir otherLive) isTable nofun) fun mapped same => ?_
  have isOther : Holds view.mem live hand _ _ := holds_table otherLive (pdx_lt within) mapped
  have sameRole := owned.single _ _ _ (same ▸ isOther) isTable
  simp only [Role.table.injEq] at sameRole
  exact sameRole

theorem Owned.pte_store_self (word : UInt32) :
    (view.mem.store (PTE_ADDR (view.mem d (vp / NPTENTRIES))) (vp % NPTENTRIES) word).pte d vp =
      word :=
  (owned.pte_store isLive inside present word isLive inside).trans (if_pos ⟨rfl, rfl⟩)

theorem Owned.store_keeps (word : UInt32) (own : Set Nat) :
    Keeps (fun other at_ => other = d ∧ at_ = vp) live hand view { view with
      mem := view.mem.store (PTE_ADDR (view.mem d (vp / NPTENTRIES))) (vp % NPTENTRIES) word
      own := own } := by
  have isTable : Holds view.mem live hand _ _ := holds_table isLive (pdx_lt inside) present
  refine ⟨?_, ?_, ?_, rfl⟩
  · intro other otherLive at_ within kept
    rw [owned.pte_store isLive inside present word otherLive within, if_neg kept]
  · exact fun other otherLive at_ within _ page maps =>
      store_of_ne (owned.ne (holds_user otherLive within maps) isTable nofun)
  · exact fun page held => store_of_ne (owned.ne (holds_hand held) isTable nofun)

/-- The roles other than that of the virtual page are as before. -/
theorem Owned.holds_store {word : UInt32} (different : role ≠ .user d vp) :
    Holds (view.mem.store (PTE_ADDR (view.mem d (vp / NPTENTRIES))) (vp % NPTENTRIES) word)
      live hand role at_ ↔ Holds view.mem live hand role at_ := by
  cases role with
  | dir other => exact Iff.rfl
  | hand other => exact Iff.rfl
  | table other index =>
    have isTable : Holds view.mem live hand _ _ := holds_table isLive (pdx_lt inside) present
    simp only [Holds]
    refine and_congr_right fun otherLive => ?_
    rw [store_of_ne (owned.ne (holds_dir otherLive) isTable nofun)]
  | user other vp' =>
    simp only [Holds]
    refine and_congr_right fun otherLive => and_congr_right fun within => ?_
    have same := owned.pte_store isLive inside present word otherLive (lt_npages within)
    rw [if_neg (by simpa using different)] at same
    rw [frame_congr same]

theorem Owned.linkUser (user : vp < USERPAGES) (unmapped : ¬Present (view.mem.pte d vp))
    (held : page ∈ hand) (odd : flags % 2 = 1) (small : flags < PGSIZE) :
    Owned pool { view with
      mem := view.mem.store (PTE_ADDR (view.mem d (vp / NPTENTRIES))) (vp % NPTENTRIES)
        (entryOf page flags) } live (hand \ {page}) := by
  have address := pteAddr_entryOf (pool.inside page (owned.known (owned.hand_own held))).lt small
  have vacant : ∀ at_, ¬Holds view.mem live hand (.user d vp) at_ := by
    rintro at_ ⟨_, _, maps⟩
    rw [Memory.frame, if_neg unmapped] at maps
    cases maps
  refine owned.moves _ (holds_hand held) vacant (fun role at_ => ?_) rfl
  rw [holds_remove_hand]
  by_cases isUser : role = .user d vp
  · subst isUser
    simp only [Holds, isLive, user, Memory.frame, owned.pte_store_self isLive inside present,
      if_pos (present_entryOf odd), address, if_neg unmapped]
    grind
  · rw [owned.holds_store isLive inside present isUser]
    simp only [isUser, false_and, false_or]

theorem Owned.unlinkUser (user : vp < USERPAGES) (maps : view.mem.frame d vp = some page) :
    Owned pool { view with
      mem := view.mem.store (PTE_ADDR (view.mem d (vp / NPTENTRIES))) (vp % NPTENTRIES) 0
      own := view.own \ {page} } live hand := by
  refine owned.drops (holds_user isLive user maps) (fun role at_ => ?_) rfl
  by_cases isUser : role = .user d vp
  · subst isUser
    simp [Holds, Memory.frame, owned.pte_store_self isLive inside present, not_present_zero]
  · rw [owned.holds_store isLive inside present isUser]
    simp only [ne_eq, isUser, not_false_eq_true, true_and]

end

/-- There is not enough memory to map all user pages. -/
theorem Owned.exists_unmapped (owned : Owned pool view live hand) (isLive : d ∈ live) :
    ∃ vp < USERPAGES, ¬Present (view.mem.pte d vp) := by
  by_contra full
  push Not at full
  have mapped : ∀ vp < USERPAGES,
      Holds view.mem live hand (.user d vp) (PTE_ADDR (view.mem.pte d vp)) :=
    fun vp inside => holds_user isLive inside (if_pos (full vp inside))
  have fewer : (Finset.range (PHYSTOP / PGSIZE)).card < (Finset.range USERPAGES).card := by
    rw [Finset.card_range, Finset.card_range]
    decide
  rcases Finset.exists_ne_map_eq_of_card_lt_of_maps_to fewer
    (f := fun vp => PTE_ADDR (view.mem.pte d vp)) (fun vp inside =>
      Finset.mem_coe.mpr (Finset.mem_range.mpr (pool.inside _ (owned.known
        ((owned.own _).mpr ⟨_, mapped vp (Finset.mem_range.mp inside)⟩))).2))
    with ⟨vp, inside, other, within, different, same⟩
  have role := owned.ne (mapped vp (Finset.mem_range.mp inside))
    (mapped other (Finset.mem_range.mp within)) (by simpa using different)
  exact role same

end

end Xv6.Vm
