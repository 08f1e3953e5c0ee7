import Xv6.Vm.Space

/-! # Growing and shrinking

What `allocuvm` and `deallocuvm` do to the user pages of a page directory.
-/

namespace Xv6.Vm

open Interaction

variable {last : Nat} {sz oldsz newsz : UInt32} {after : View}

section

variable {pool : Pool} {allowed : Panic → Prop} {view : View} {live hand : Set Nat} {d vp page : Nat}
  {a : UInt32}

/-! ## Addresses -/

theorem PDX_eq (isVp : a.toNat / PGSIZE = vp) : PDX a = vp / NPTENTRIES := by
  rw [PDX, PDESIZE, Nat.mul_comm, ← Nat.div_div_eq_div_mul, isVp]

theorem PTX_eq (isVp : a.toNat / PGSIZE = vp) : PTX a = vp % NPTENTRIES := by
  rw [PTX, isVp]

theorem ptx_lt (vp : Nat) : vp % NPTENTRIES < NPTENTRIES := Nat.mod_lt _ (by decide)

/-! ## Pages that are needed -/

/-- The pages that are not in use. -/
noncomputable def Pool.left (pool : Pool) (own : Set Nat) : Nat := (pool.pages \ own).ncard

theorem Pool.left_insert {own : Set Nat} (known : page ∈ pool.pages) (fresh : page ∉ own) :
    pool.left (insert page own) + 1 = pool.left own := by
  have finite : pool.pages.Finite :=
    (Set.finite_Iio (PHYSTOP / PGSIZE)).subset fun page known => (pool.inside page known).2
  have fewer : pool.pages \ insert page own = (pool.pages \ own) \ {page} := by
    ext other
    simp only [Set.mem_sdiff, Set.mem_insert_iff, Set.mem_singleton_iff]
    tauto
  rw [Pool.left, fewer]
  exact Set.ncard_sdiff_singleton_add_one ⟨known, fresh⟩ finite.sdiff

theorem Pool.left_eq_zero {own : Set Nat} (full : pool.pages ⊆ own) : pool.left own = 0 := by
  rw [Pool.left, Set.sdiff_eq_empty.mpr full, Set.ncard_empty]

/-- The number of page tables that are missing for a virtual page. -/
def lacks (mem : Memory) (d vp : Nat) : Nat := if Present (mem d (vp / NPTENTRIES)) then 0 else 1

/-- The entries of the directory for the virtual pages from one on and below another that
have no page table. -/
def missing (mem : Memory) (d first last : Nat) : Finset Nat :=
  ((Finset.Ico first last).image (· / NPTENTRIES)).filter fun i => ¬Present (mem d i)

/-- The pages that it takes to map these virtual pages to new pages. -/
def demand (mem : Memory) (d first last : Nat) : Nat := last - first + (missing mem d first last).card

/-- There is a page table for a virtual page. -/
def Tabled (d vp : Nat) (mem after : Memory) : Prop :=
  ∀ i, Present (after d i) ↔ i = vp / NPTENTRIES ∨ Present (mem d i)

theorem Tabled.demand_eq {mem after : Memory} (tabled : Tabled d vp mem after) (below : vp < last) :
    demand mem d vp last = demand after d (vp + 1) last + 1 + lacks mem d vp := by
  have fewer : missing after d (vp + 1) last =
      (missing mem d (vp + 1) last).erase (vp / NPTENTRIES) := by
    ext i
    have table := tabled i
    simp only [missing, Finset.mem_filter, Finset.mem_erase]
    tauto
  have first : missing mem d vp last = if Present (mem d (vp / NPTENTRIES)) then
      missing mem d (vp + 1) last else insert (vp / NPTENTRIES) (missing mem d (vp + 1) last) := by
    rw [missing, ← Finset.insert_Ico_add_one_left_eq_Ico below, Finset.image_insert,
      Finset.filter_insert, ite_not]
    rfl
  rw [demand, demand, fewer, first, lacks]
  split
  · rename_i present
    have outside : vp / NPTENTRIES ∉ missing mem d (vp + 1) last :=
      fun member => (Finset.mem_filter.mp member).2 present
    rw [Finset.erase_eq_of_notMem outside]
    omega
  · have one := Finset.card_erase_add_one (Finset.mem_insert_self (vp / NPTENTRIES)
      (missing mem d (vp + 1) last))
    rw [Finset.erase_insert_eq_erase] at one
    omega

theorem lacks_le_demand {mem : Memory} (below : vp < last) :
    1 + lacks mem d vp ≤ demand mem d vp last := by
  rw [demand, lacks]
  split
  · omega
  · have member : vp / NPTENTRIES ∈ missing mem d vp last := Finset.mem_filter.mpr
      ⟨Finset.mem_image.mpr ⟨vp, Finset.mem_Ico.mpr ⟨le_rfl, below⟩, rfl⟩, ‹_›⟩
    have one := Finset.card_pos.mpr ⟨_, member⟩
    omega

/-! ## Walking -/

theorem walkpgdir_obeys (owned : Owned pool view live hand) (isLive : d ∈ live)
    (inside : vp < NPAGES) (isVp : a.toNat / PGSIZE = vp)
    {post : Option (Nat × Nat) → View → Prop}
    (absent : ¬Present (view.mem d (vp / NPTENTRIES)) → post none view)
    (found : Present (view.mem d (vp / NPTENTRIES)) →
      post (some (PTE_ADDR (view.mem d (vp / NPTENTRIES)), vp % NPTENTRIES)) view) :
    Obeys (pageUse pool allowed) (walkpgdir d a false) view post := by
  rw [walkpgdir, obeys_bind, PDX_eq isVp, PTX_eq isVp]
  refine load_obeys (owned.dir_own isLive) (pdx_lt inside) ?_
  simp only [obeys_ite, obeys_pure, not_true_eq_false, false_implies, and_true, forall_const]
  exact ⟨found, absent⟩

/-- A page table is allocated if there is none. -/
theorem walkpgdir_alloc_obeys (owned : Owned pool view live hand) (isLive : d ∈ live)
    (inside : vp < NPAGES) (isVp : a.toNat / PGSIZE = vp) :
    Obeys (pageUse pool allowed) (walkpgdir d a true) view fun result after =>
      Owned pool after live hand ∧ Keeps (fun _ _ => False) live hand view after ∧
        view.own ⊆ after.own ∧
        (result = none ∧ pool.left view.own < lacks view.mem d vp ∨
          Tabled d vp view.mem after.mem ∧
          pool.left after.own + lacks view.mem d vp = pool.left view.own ∧
          result = some (PTE_ADDR (after.mem d (vp / NPTENTRIES)), vp % NPTENTRIES)) := by
  rw [walkpgdir, obeys_bind, PDX_eq isVp, PTX_eq isVp]
  refine load_obeys (owned.dir_own isLive) (pdx_lt inside) ?_
  rw [obeys_ite]
  refine ⟨fun present => ⟨owned, .refl .., subset_rfl, Or.inr ⟨fun i => ?_, ?_, rfl⟩⟩,
    fun absent => ?_⟩
  · exact ⟨Or.inr, fun found => found.elim (fun same => same ▸ present) id⟩
  · rw [lacks, if_pos present, Nat.add_zero]
  have one : lacks view.mem d vp = 1 := if_neg absent
  rw [if_neg nofun, obeys_bind]
  refine kalloc_obeys (fun full => ⟨owned, .refl .., subset_rfl, Or.inl ⟨rfl, ?_⟩⟩)
    fun page contents known fresh => ?_
  · rw [pool.left_eq_zero full, one]
    exact Nat.one_pos
  rw [obeys_bind]
  have outside : page ∉ hand := fun held => fresh (owned.hand_own held)
  rcases owned.given known fresh fun _ => 0 with ⟨taken, keeps⟩
  have blank : ¬Present (Function.update view.mem page (fun _ => 0) d (vp / NPTENTRIES)) := by
    rwa [Function.update_of_ne (ne_of_mem_of_not_mem (owned.dir_own isLive) fresh)]
  have linked := taken.linkTable isLive (pdx_lt inside) blank (Set.mem_insert page hand)
    (Function.update_self ..) (show (PTE_P ||| PTE_W ||| PTE_U) % 2 = 1 by decide) (by decide)
  rw [Set.insert_sdiff_self_of_notMem outside] at linked
  refine clear_obeys (Set.mem_insert ..) ?_
  rw [obeys_bind, Memory.clear, Function.update_idem]
  refine store_obeys (Or.inr (owned.dir_own isLive)) (pdx_lt inside) ?_
  have address := @pteAddr_entryOf page (PTE_P ||| PTE_W ||| PTE_U) (pool.inside page known).lt
    (by decide)
  refine ⟨linked.1, keeps.trans linked.2, Set.subset_insert .., Or.inr ⟨fun i => ?_, ?_, ?_⟩⟩
  · have dir : Function.update view.mem page (fun _ => 0) d = view.mem d :=
      Function.update_of_ne (ne_of_mem_of_not_mem (owned.dir_own isLive) fresh) ..
    have present : Present (entryOf page (PTE_P ||| PTE_W ||| PTE_U)) :=
      present_entryOf (by decide)
    simp only [Memory.store, Function.update_self, dir, Function.update_apply]
    split
    · exact iff_of_true present (Or.inl ‹_›)
    · exact ⟨Or.inr, fun found => found.resolve_left ‹_›⟩
  · rw [one]
    exact Pool.left_insert known fresh
  · simp only [store_self, address]

/-! ## Mapping pages -/

theorem PGROUNDDOWN_of_aligned (aligned : a.toNat = vp * PGSIZE) : PGROUNDDOWN a = a := by
  have bound := a.toNat_lt
  apply UInt32.toNat_inj.mp
  simp only [PGROUNDDOWN, UInt32.toNat_mul, UInt32.toNat_div, UInt32.reduceToNat, PGSIZE] at *
  omega

theorem PGROUNDDOWN_last (aligned : a.toNat = vp * PGSIZE) :
    PGROUNDDOWN (a + 4096 - 1) = a := by
  have bound := a.toNat_lt
  apply UInt32.toNat_inj.mp
  simp only [PGROUNDDOWN, UInt32.toNat_mul, UInt32.toNat_div, UInt32.toNat_sub, UInt32.toNat_add,
    UInt32.reduceToNat, PGSIZE] at *
  omega

/-- One pass of the loop: the entry is written, or there is no page for the page table. -/
theorem mapLoop_step (owned : Owned pool view live hand) (isLive : d ∈ live)
    (inside : vp < NPAGES) (isVp : a.toNat / PGSIZE = vp)
    (unmapped : Present (view.mem.pte d vp) → allowed .remap) {perm passes : Nat} {last : UInt32}
    {post : Int → View → Prop}
    (failed : ∀ after, Owned pool after live hand → Keeps (fun _ _ => False) live hand view after →
      pool.left view.own < lacks view.mem d vp → post (-1) after)
    (stored : ∀ middle, Owned pool middle live hand →
      Keeps (fun _ _ => False) live hand view middle → view.own ⊆ middle.own →
      Tabled d vp view.mem middle.mem →
      pool.left middle.own + lacks view.mem d vp = pool.left view.own →
      ¬Present (middle.mem.pte d vp) →
      Obeys (pageUse pool allowed)
        (if a = last then pure 0 else mapLoop d perm last passes (a + 4096) (page + 1))
        { middle with
          mem := middle.mem.store (PTE_ADDR (middle.mem d (vp / NPTENTRIES))) (vp % NPTENTRIES)
            (entryOf page (perm ||| PTE_P)) } post) :
    Obeys (pageUse pool allowed) (mapLoop d perm last (passes + 1) a page) view post := by
  rw [mapLoop, obeys_bind]
  refine (walkpgdir_alloc_obeys owned isLive inside isVp).imp ?_
  rintro result middle ⟨ownedAfter, keeps, more, ⟨rfl, full⟩ | ⟨tabled, left, rfl⟩⟩
  · exact failed middle ownedAfter keeps full
  · have present : Present (middle.mem d (vp / NPTENTRIES)) := (tabled _).mpr (Or.inl rfl)
    have entry : middle.mem.pte d vp =
        middle.mem (PTE_ADDR (middle.mem d (vp / NPTENTRIES))) (vp % NPTENTRIES) := if_pos present
    have owns := ownedAfter.table_own isLive (pdx_lt inside) present
    dsimp only
    rw [obeys_bind]
    refine load_obeys owns (ptx_lt vp) ?_
    rw [← entry, obeys_ite]
    refine ⟨fun mapped => ?_, fun free => ?_⟩
    · rw [keeps.pte d isLive vp inside id] at mapped
      exact unmapped mapped
    · rw [obeys_bind]
      exact store_obeys owns (ptx_lt vp) (stored middle ownedAfter keeps more tabled left free)

/-- A page is mapped at a virtual page, with its contents. -/
structure Mapped (mem : Memory) (d vp page flags : Nat) (contents : Nat → UInt32) : Prop where
  entry : mem.pte d vp = entryOf page flags
  maps : mem.frame d vp = some page
  data : mem page = contents

/-- Mapping a page that was free, and has been filled, at a virtual page that is not mapped. -/
theorem mappages_obeys (owned : Owned pool view live hand) (isLive : d ∈ live)
    (inside : vp < USERPAGES) (aligned : a.toNat = vp * PGSIZE) (known : page ∈ pool.pages)
    (fresh : page ∉ view.own) (contents : Nat → UInt32)
    (unmapped : Present (view.mem.pte d vp) → allowed .remap) {perm flags : Nat}
    (isFlags : perm ||| PTE_P = flags) (odd : flags % 2 = 1) (small : flags < PGSIZE)
    {post : Int → View → Prop}
    (failed : ∀ after, Owned pool after live (insert page hand) →
      Keeps (fun _ _ => False) live hand view after →
      pool.left view.own < 1 + lacks view.mem d vp → post (-1) after)
    (mapped : ∀ after, Owned pool after live hand →
      Keeps (fun other at_ => other = d ∧ at_ = vp) live hand view after → view.own ⊆ after.own →
      Tabled d vp view.mem after.mem →
      pool.left after.own + 1 + lacks view.mem d vp = pool.left view.own →
      Mapped after.mem d vp page flags contents → post 0 after) :
    Obeys (pageUse pool allowed) (mappages d a 4096 page perm) { view with
      mem := Function.update view.mem page contents
      own := insert page view.own } post := by
  have isVp : a.toNat / PGSIZE = vp := by
    rw [aligned, Nat.mul_div_cancel _ (by decide)]
  have within := lt_npages inside
  have outside : page ∉ hand := fun held => fresh (owned.hand_own held)
  have held : page ∈ insert page hand := Set.mem_insert ..
  rcases owned.given known fresh contents with ⟨taken, given⟩
  have still := given.pte d isLive vp within id
  have one := pool.left_insert known fresh
  have dir : Function.update view.mem page contents d = view.mem d :=
    Function.update_of_ne (ne_of_mem_of_not_mem (owned.dir_own isLive) fresh) ..
  have lack : lacks (Function.update view.mem page contents) d vp = lacks view.mem d vp := by
    rw [lacks, dir, lacks]
  simp only [mappages, PGROUNDDOWN_of_aligned aligned, PGROUNDDOWN_last aligned]
  refine mapLoop_step taken isLive within isVp (fun present => unmapped (still ▸ present)) ?_ ?_
  · intro after ownedAfter keeps few
    dsimp only at few
    rw [lack] at few
    exact failed after ownedAfter
      (given.trans (keeps.weaken subset_rfl (Set.subset_insert ..) fun _ _ _ => id)) (by omega)
  · intro middle ownedMiddle keeps more tabled left free
    have present : Present (middle.mem d (vp / NPTENTRIES)) := (tabled _).mpr (Or.inl rfl)
    rw [if_pos rfl, isFlags]
    dsimp only at left
    rw [lack] at left
    have linked := ownedMiddle.linkUser isLive within present inside free held odd small
    rw [Set.insert_sdiff_self_of_notMem outside] at linked
    have stored := ownedMiddle.store_keeps isLive within present (entryOf page flags) middle.own
    have entry := ownedMiddle.pte_store_self isLive within present (entryOf page flags)
    have same : middle.mem.store (PTE_ADDR (middle.mem d (vp / NPTENTRIES))) (vp % NPTENTRIES)
        (entryOf page flags) d = middle.mem d := store_of_ne (ownedMiddle.ne (holds_dir isLive)
      (holds_table isLive (pdx_lt within) present) nofun)
    refine mapped _ linked ?_ ((Set.subset_insert ..).trans more) (fun i => ?_)
      (by dsimp only; omega) ⟨entry, ?_, ?_⟩
    · exact (given.trans (keeps.weaken subset_rfl (Set.subset_insert ..) fun _ _ _ => id)).weaken
        subset_rfl subset_rfl (fun _ _ _ => False.elim) |>.trans
          (stored.weaken subset_rfl (Set.subset_insert ..) fun _ _ _ => id)
    · have table := tabled i
      dsimp only at table ⊢
      rwa [same, ← dir]
    · rw [Memory.frame, entry, if_pos (present_entryOf odd),
        pteAddr_entryOf (pool.inside page known).lt small]
    · exact (stored.hand page held).trans ((keeps.hand page held).trans (Function.update_self ..))

/-! ## Ranges of pages -/

/-- The number of the pages below a size, rounded up. -/
def pages (sz : UInt32) : Nat := (sz.toNat + (PGSIZE - 1)) / PGSIZE

theorem lt_iff_pages (aligned : a.toNat = vp * PGSIZE) : a < sz ↔ vp < pages sz := by
  rw [UInt32.lt_iff_toNat_lt, pages, aligned]
  simp only [PGSIZE]
  omega

theorem toNat_PGROUNDUP (bound : sz.toNat ≤ KERNBASE) :
    (PGROUNDUP sz).toNat = pages sz * PGSIZE := by
  simp only [PGROUNDUP, pages, UInt32.toNat_mul, UInt32.toNat_div, UInt32.toNat_add,
    UInt32.reduceToNat, PGSIZE, KERNBASE] at *
  omega

theorem pages_le (bound : sz.toNat ≤ KERNBASE) : pages sz ≤ USERPAGES := by
  simp only [pages, USERPAGES, PGSIZE, KERNBASE] at *
  omega

/-- The virtual pages of a directory from one on and below another. -/
def Range (d first last other at_ : Nat) : Prop := other = d ∧ first ≤ at_ ∧ at_ < last

theorem Keeps.cons {middle : View} (inside : vp < last)
    (first : Keeps (fun other at_ => other = d ∧ at_ = vp) live hand view middle)
    (rest : Keeps (Range d (vp + 1) last) live hand middle after) :
    Keeps (Range d vp last) live hand view after := by
  refine (first.weaken subset_rfl subset_rfl ?_).trans (rest.weaken subset_rfl subset_rfl ?_)
  · rintro other _ at_ ⟨rfl, rfl⟩
    exact ⟨rfl, le_rfl, inside⟩
  · exact fun other _ at_ hit => ⟨hit.1, Nat.le_of_succ_le hit.2.1, hit.2.2⟩

theorem toNat_next (aligned : a.toNat = vp * PGSIZE) (inside : vp < USERPAGES) :
    (a + 4096).toNat = (vp + 1) * PGSIZE := by
  simp only [UInt32.toNat_add, UInt32.reduceToNat, PGSIZE, USERPAGES, KERNBASE] at *
  omega

theorem toNat_skip (aligned : a.toNat = vp * PGSIZE) (inside : vp < USERPAGES) :
    (PGADDR (PDX a + 1) - 4096 + 4096).toNat = (vp / NPTENTRIES + 1) * NPTENTRIES * PGSIZE := by
  rw [UInt32.sub_add_cancel, PGADDR, PDX]
  simp only [UInt32.toNat_ofNat', PDESIZE, NPTENTRIES, PGSIZE, USERPAGES, KERNBASE] at *
  omega

/-! ## Shrinking -/

/-- An entry after the page at it has been given back. -/
def cleared (entry : UInt32) : UInt32 := if Present entry then 0 else entry

theorem not_present_cleared (entry : UInt32) : ¬Present (cleared entry) := by
  rw [cleared]
  split
  · exact not_present_zero
  · assumption

/-- The pages from one on and below another have been given back, and nothing else changed. -/
structure Deallocated (pool : Pool) (live hand : Set Nat) (d first last : Nat)
    (view after : View) : Prop where
  owned : Owned pool after live hand
  keeps : Keeps (Range d first last) live hand view after
  dirs : ∀ other ∈ live, after.mem other = view.mem other
  gone : ∀ vp, first ≤ vp → vp < last → after.mem.pte d vp = cleared (view.mem.pte d vp)

theorem Deallocated.refl {first : Nat} (owned : Owned pool view live hand)
    (empty : last ≤ first) : Deallocated pool live hand d first last view view :=
  ⟨owned, .refl .., fun _ _ => rfl, fun vp from_ below => by omega⟩

theorem Deallocated.unmapped {first : Nat}
    (freed : Deallocated pool live hand d first last view after) :
    ∀ vp, first ≤ vp → vp < last → ¬Present (after.mem.pte d vp) := fun vp from_ below =>
  freed.gone vp from_ below ▸ not_present_cleared _

theorem Deallocated.cons {middle : View} (isLive : d ∈ live) (inside : vp < last)
    (bound : last ≤ USERPAGES)
    (kept : Keeps (fun other at_ => other = d ∧ at_ = vp) live hand view middle)
    (dirs : ∀ other ∈ live, middle.mem other = view.mem other)
    (gone : middle.mem.pte d vp = cleared (view.mem.pte d vp))
    (rest : Deallocated pool live hand d (vp + 1) last middle after) :
    Deallocated pool live hand d vp last view after := by
  refine ⟨rest.owned, kept.cons inside rest.keeps,
    fun other isLive => (rest.dirs other isLive).trans (dirs other isLive),
    fun at_ from_ until_ => ?_⟩
  rcases Nat.eq_or_lt_of_le from_ with rfl | later
  · rwa [rest.keeps.pte d isLive vp (lt_npages (by omega)) fun hit => by have := hit.2.1; omega]
  · rw [rest.gone at_ later until_, kept.pte d isLive at_ (lt_npages (by omega)) (by omega)]

/-- The pages of a missing table are not mapped. -/
theorem Deallocated.skip (isLive : d ∈ live) (bound : last ≤ USERPAGES)
    (absent : ¬Present (view.mem d (vp / NPTENTRIES)))
    (rest : Deallocated pool live hand d ((vp / NPTENTRIES + 1) * NPTENTRIES) last view after) :
    Deallocated pool live hand d vp last view after := by
  refine ⟨rest.owned, rest.keeps.weaken subset_rfl subset_rfl ?_, rest.dirs,
    fun at_ from_ until_ => ?_⟩
  · rintro other _ at_ ⟨isDir, from_, until_⟩
    refine ⟨isDir, ?_, until_⟩
    simp only [NPTENTRIES] at from_
    omega
  · rcases Nat.lt_or_ge at_ ((vp / NPTENTRIES + 1) * NPTENTRIES) with skipped | later
    · have sameTable : at_ / NPTENTRIES = vp / NPTENTRIES := by
        simp only [NPTENTRIES] at *
        omega
      have zero : view.mem.pte d at_ = 0 := by rw [Memory.pte, sameTable, if_neg absent]
      rw [rest.keeps.pte d isLive at_ (lt_npages (by omega)) fun hit => absurd hit.2.1 (by omega),
        zero, cleared, if_neg not_present_zero]
    · exact rest.gone at_ later until_

theorem deallocLoop_obeys (bound : pages oldsz ≤ USERPAGES) (isLive : d ∈ live) (passes : Nat)
    (owned : Owned pool view live hand) (enough : pages oldsz ≤ vp + passes)
    (aligned : a.toNat = vp * PGSIZE) :
    Obeys (pageUse pool allowed) (deallocLoop d oldsz passes a) view fun _ =>
      Deallocated pool live hand d vp (pages oldsz) view := by
  induction passes generalizing view vp a with
  | zero => exact .refl owned enough
  | succ passes induction =>
    rw [deallocLoop, obeys_ite, lt_iff_pages aligned]
    refine ⟨fun below => ?_, fun beyond => .refl owned (Nat.le_of_not_lt beyond)⟩
    have inside := below.trans_le bound
    have within := lt_npages inside
    have isVp : a.toNat / PGSIZE = vp := by
      rw [aligned, Nat.mul_div_cancel _ (by decide)]
    rw [obeys_bind]
    refine walkpgdir_obeys owned isLive within isVp (fun absent => ?_) (fun present => ?_)
    · refine (induction owned ?_ (toNat_skip aligned inside)).imp fun _ after =>
        .skip isLive bound absent
      simp only [NPTENTRIES]
      omega
    · have entry : view.mem.pte d vp =
          view.mem (PTE_ADDR (view.mem d (vp / NPTENTRIES))) (vp % NPTENTRIES) := if_pos present
      have isTable : Holds view.mem live hand _ _ := holds_table isLive (pdx_lt within) present
      have owns := owned.table_own isLive (pdx_lt within) present
      rw [obeys_bind]
      refine load_obeys owns (ptx_lt vp) ?_
      rw [← entry, obeys_ite]
      refine ⟨fun mapped => ?_, fun unmapped => ?_⟩
      · have maps : view.mem.frame d vp = some (PTE_ADDR (view.mem.pte d vp)) := if_pos mapped
        have owned' := owned.user_own isLive inside maps
        have known := owned.known owned'
        have different := owned.ne isTable (holds_user isLive inside maps) nofun
        rw [if_neg (pool.loaded.trans_le (pool.inside _ known).1).ne', obeys_bind]
        refine kfree_obeys owned' known ?_
        rw [obeys_bind]
        refine store_obeys ⟨owns, different⟩ (ptx_lt vp) ?_
        refine (induction (owned.unlinkUser isLive within present inside maps) (by omega)
          (toNat_next aligned inside)).imp fun _ after => .cons isLive below bound
            (owned.store_keeps isLive within present 0 _) (fun other otherLive => ?_) ?_
        · exact store_of_ne (owned.ne (holds_dir otherLive) isTable nofun)
        · dsimp only
          rw [owned.pte_store_self isLive within present, cleared, if_pos mapped]
      · exact (induction owned (by omega) (toNat_next aligned inside)).imp fun _ after =>
          .cons isLive below bound (.refl ..) (fun _ _ => rfl) (if_neg unmapped).symm

theorem deallocuvm_obeys (owned : Owned pool view live hand) (isLive : d ∈ live)
    (bound : oldsz.toNat ≤ KERNBASE) :
    Obeys (pageUse pool allowed) (deallocuvm d oldsz newsz) view fun result after =>
      result = (if oldsz ≤ newsz then oldsz else newsz) ∧
        Deallocated pool live hand d (pages newsz) (pages oldsz) view after := by
  rw [deallocuvm, obeys_ite]
  refine ⟨fun grown => ?_, fun shrunk => ?_⟩
  · have none : pages oldsz ≤ pages newsz := by
      simp only [UInt32.le_iff_toNat_le, pages, PGSIZE] at *
      omega
    exact ⟨(if_pos grown).symm, .refl owned none⟩
  · have smaller : newsz < oldsz := UInt32.not_le.mp shrunk
    rw [obeys_bind]
    refine (deallocLoop_obeys (pages_le bound) isLive _ owned ?_
      (toNat_PGROUNDUP (by rw [UInt32.lt_iff_toNat_lt] at smaller; omega))).imp ?_
    · simp only [pages, PGSIZE]
      omega
    · exact fun _ after freed => ⟨(if_neg shrunk).symm, freed⟩

/-! ## Growing -/

/-- A user page that can be written and is zero. -/
def Blank (mem : Memory) (d vp : Nat) : Prop :=
  ∃ page, mem.pte d vp = entryOf page (PTE_W ||| PTE_U ||| PTE_P) ∧
    mem.frame d vp = some page ∧ mem page = fun _ => 0

theorem Blank.congr {mem other : Memory} (blank : Blank mem d vp)
    (same : other.pte d vp = mem.pte d vp)
    (data : ∀ page, mem.frame d vp = some page → other page = mem page) : Blank other d vp := by
  rcases blank with ⟨page, entry, maps, zero⟩
  exact ⟨page, same.trans entry, (frame_congr same).trans maps, (data page maps).trans zero⟩

/-- What `allocuvm` has done when it returns, from a virtual page on: all the pages are there,
and are not among those that were in use at the start, or there are not enough pages and
none is. -/
structure Allocated (pool : Pool) (live hand start : Set Nat) (d vp : Nat) (oldsz newsz : UInt32)
    (view : View) (result : UInt32) (after : View) : Prop where
  owned : Owned pool after live hand
  keeps : Keeps (Range d (pages oldsz) (pages newsz)) live hand view after
  outcome : result = newsz ∧ demand view.mem d vp (pages newsz) ≤ pool.left view.own ∧
      start ⊆ after.own ∧
      (∀ at_, pages oldsz ≤ at_ → at_ < pages newsz → Blank after.mem d at_ ∧
        ∀ page ∈ start, after.mem.frame d at_ ≠ some page) ∨
    result = 0 ∧ pool.left view.own < demand view.mem d vp (pages newsz) ∧
      ∀ at_, pages oldsz ≤ at_ → at_ < pages newsz → ¬Present (after.mem.pte d at_)

theorem demand_empty {mem : Memory} (empty : last ≤ vp) : demand mem d vp last = 0 := by
  rw [demand, missing, Finset.Ico_eq_empty_of_le empty, Nat.sub_eq_zero_of_le empty]
  rfl

theorem allocLoop_obeys {start : Set Nat} (bound : newsz.toNat ≤ KERNBASE) (isLive : d ∈ live)
    (passes : Nat) (owned : Owned pool view live hand) (enough : pages newsz ≤ vp + passes)
    (aligned : a.toNat = vp * PGSIZE) (from_ : pages oldsz ≤ vp) (older : start ⊆ view.own)
    (done : ∀ at_, pages oldsz ≤ at_ → at_ < vp → Blank view.mem d at_ ∧
      ∀ page ∈ start, view.mem.frame d at_ ≠ some page)
    (unmapped : ∀ at_, vp ≤ at_ → at_ < pages newsz → Present (view.mem.pte d at_) →
      allowed .remap) :
    Obeys (pageUse pool allowed) (allocLoop d oldsz newsz passes a) view
      (Allocated pool live hand start d vp oldsz newsz view) := by
  have limit := pages_le bound
  induction passes generalizing view vp a with
  | zero => exact ⟨owned, .refl .., Or.inl ⟨rfl, (demand_empty enough).trans_le (Nat.zero_le _),
      older, fun at_ old below => done at_ old (by omega)⟩⟩
  | succ passes induction =>
    rw [allocLoop, obeys_ite, lt_iff_pages aligned]
    refine ⟨fun below => ?_, fun beyond => ⟨owned, .refl .., Or.inl ⟨rfl,
      (demand_empty (Nat.le_of_not_lt beyond)).trans_le (Nat.zero_le _), older,
      fun at_ old below => done at_ old (by omega)⟩⟩⟩
    have inside := below.trans_le limit
    rw [obeys_bind]
    refine kalloc_obeys (fun full => ?_) fun mem contents known fresh => ?_
    · dsimp only
      rw [obeys_bind]
      refine (deallocuvm_obeys owned isLive bound).imp ?_
      rintro _ after ⟨_, freed⟩
      refine ⟨freed.owned, freed.keeps, Or.inr ⟨rfl, ?_, freed.unmapped⟩⟩
      rw [pool.left_eq_zero full, demand]
      omega
    · dsimp only
      rw [obeys_bind]
      refine clear_obeys (Set.mem_insert ..) ?_
      rw [obeys_bind, Memory.clear, Function.update_idem]
      refine mappages_obeys owned isLive inside aligned known fresh _ (unmapped vp le_rfl below)
        (rfl : PTE_W ||| PTE_U ||| PTE_P = _) (by decide) (by decide)
        (fun middle ownedMiddle kept few => ?_)
        fun middle ownedMiddle step more tabled left mapped => ?_
      · -- there was no page for the page table
        rw [if_pos (by decide), obeys_bind]
        refine (deallocuvm_obeys ownedMiddle isLive bound).imp ?_
        rintro _ after ⟨_, deallocated⟩
        have ownedAfter := deallocated.owned
        have held : mem ∈ insert mem hand := Set.mem_insert mem hand
        have freed := ownedAfter.free held
        rw [Set.insert_sdiff_self_of_notMem fun held => fresh (owned.hand_own held)] at freed
        rw [obeys_bind]
        refine kfree_obeys (ownedAfter.hand_own held)
          (ownedAfter.known (ownedAfter.hand_own held))
          ⟨freed, ?_, Or.inr ⟨rfl, few.trans_le (lacks_le_demand below), deallocated.unmapped⟩⟩
        have all := (kept.weaken subset_rfl subset_rfl fun _ _ _ => False.elim).trans
          (deallocated.keeps.weaken subset_rfl (Set.subset_insert mem hand) fun _ _ _ => id)
        exact ⟨all.pte, all.data, all.hand, all.sz⟩
      · rw [if_neg (by decide)]
        refine (induction ownedMiddle (by omega) (toNat_next aligned inside) (by omega)
          (older.trans more) ?_ ?_).imp ?_
        · intro at_ old until_
          rcases Nat.eq_or_lt_of_le (Nat.le_of_lt_succ until_) with rfl | before
          · refine ⟨⟨mem, mapped.entry, mapped.maps, mapped.data⟩,
              fun page used same => fresh (older ?_)⟩
            rw [mapped.maps] at same
            exact Option.some.inj same ▸ used
          · have pte := step.pte d isLive at_ (lt_npages (by omega)) (by omega)
            exact ⟨(done at_ old before).1.congr pte
              (step.data d isLive at_ (by omega) (by omega)),
              frame_congr pte ▸ (done at_ old before).2⟩
        · intro at_ later until_
          rw [step.pte d isLive at_ (lt_npages (by omega)) (by omega)]
          exact unmapped at_ (by omega) until_
        · rintro result after ⟨ownedAfter, keepsAfter, outcome⟩
          refine ⟨ownedAfter, (step.weaken subset_rfl subset_rfl ?_).trans keepsAfter, ?_⟩
          · rintro other _ at_ ⟨rfl, rfl⟩
            exact ⟨rfl, from_, below⟩
          · rw [tabled.demand_eq below, ← left]
            exact outcome.imp (And.imp_right (And.imp_left fun enough => by omega))
              (And.imp_right (And.imp_left fun few => by omega))

/-- What `allocuvm` does for sizes that are in range. -/
theorem allocuvm_obeys (owned : Owned pool view live hand) (isLive : d ∈ live)
    (bound : newsz.toNat < KERNBASE) (grown : oldsz ≤ newsz)
    (unmapped : ∀ at_, pages oldsz ≤ at_ → at_ < pages newsz → Present (view.mem.pte d at_) →
      allowed .remap) :
    Obeys (pageUse pool allowed) (allocuvm d oldsz newsz) view
      (Allocated pool live hand view.own d (pages oldsz) oldsz newsz view) := by
  rw [allocuvm, if_neg (by omega), if_neg (UInt32.not_lt.mpr grown)]
  have small : oldsz.toNat ≤ KERNBASE := by
    rw [UInt32.le_iff_toNat_le] at grown
    omega
  refine allocLoop_obeys bound.le isLive _ owned ?_ (toNat_PGROUNDUP small) le_rfl subset_rfl
    (fun at_ from_ below => by omega) unmapped
  simp only [pages, PGSIZE]
  omega

end

end Xv6.Vm
