import Xv6.Vm.Scan

/-! # Mapping ranges of pages

`mappages` writes the entries of a range of virtual pages, whatever the pages are that it
maps there, and makes the page tables that are missing.
-/

namespace Xv6.Vm

open Interaction Program Function

/-- The entry that `walkpgdir` finds for an address without allocation. Without a page table
it is zero. -/
def translate (pgdir : Nat) (va : UInt32) : Prog UInt32 := do
  match ← walkpgdir pgdir va false with
  | none => return 0
  | some (pgtab, index) => load pgtab index

/-- The page tables of a directory are different pages, which are not the directory itself
and are not free. -/
structure Rooted (d : Nat) (machine : Machine) : Prop where
  tables : ∀ i < NPDENTRIES, ∀ j < NPDENTRIES, Present (machine.mem d i) →
    Present (machine.mem d j) → PTE_ADDR (machine.mem d i) = PTE_ADDR (machine.mem d j) → i = j
  apart : ∀ i < NPDENTRIES, Present (machine.mem d i) → PTE_ADDR (machine.mem d i) ≠ d
  free : ∀ page ∈ machine.freelist, page < 2 ^ 20 ∧ page ≠ d ∧
    ∀ i < NPDENTRIES, Present (machine.mem d i) → PTE_ADDR (machine.mem d i) ≠ page
  nodup : machine.freelist.Nodup

section

variable {kend d vp last page perm : Nat} {a : UInt32} {machine : Machine}

theorem translate_eq : interpret (serve kend) (translate d a) machine =
    .ok (machine.mem.pte d (a.toNat / PGSIZE), machine) := by
  rw [translate, interpret_walkpgdir, PDX_eq rfl, PTX_eq rfl, Memory.pte]
  by_cases present : Present (machine.mem d (a.toNat / PGSIZE / NPTENTRIES))
  · rw [if_pos present, if_pos present]
    rfl
  · rw [if_neg present, if_neg present]
    rfl

/-! ## One page -/

/-- The entry of a virtual page is written. -/
theorem Rooted.store (rooted : Rooted d machine) (inside : vp < NPAGES)
    (present : Present (machine.mem d (vp / NPTENTRIES))) (word : UInt32) :
    let mem := machine.mem.store (PTE_ADDR (machine.mem d (vp / NPTENTRIES))) (vp % NPTENTRIES) word
    mem d = machine.mem d ∧ Rooted d { machine with mem := mem } ∧
      ∀ at_ < NPAGES, mem.pte d at_ = if at_ = vp then word else machine.mem.pte d at_ := by
  intro mem
  have same : mem d = machine.mem d := store_of_ne (rooted.apart _ (pdx_lt inside) present).symm
  refine ⟨same, ?_, fun at_ within => ?_⟩
  · constructor <;> simp only [same]
    exacts [rooted.tables, rooted.apart, rooted.free, rooted.nodup]
  · have written := @pte_store machine.mem word d vp d at_ present
      (rooted.apart _ (pdx_lt inside) present).symm fun mapped equal =>
        ⟨rfl, rooted.tables _ (pdx_lt within) _ (pdx_lt inside) mapped present equal⟩
    simpa only [true_and] using written

/-- The first free page becomes a page table. -/
theorem Rooted.link (rooted : Rooted d machine)
    (absent : ¬Present (machine.mem d (vp / NPTENTRIES))) {rest : List Nat}
    (list : machine.freelist = page :: rest) :
    let entry := entryOf page (PTE_P ||| PTE_W ||| PTE_U)
    let mem := (machine.mem.clear page).store d (vp / NPTENTRIES) entry
    mem d = update (machine.mem d) (vp / NPTENTRIES) entry ∧ Present entry ∧
      PTE_ADDR entry = page ∧ Rooted d { machine with mem := mem, freelist := rest } ∧
        ∀ at_ < NPAGES, mem.pte d at_ = machine.mem.pte d at_ := by
  intro entry mem
  rcases rooted.free page (by rw [list]; exact List.mem_cons_self) with ⟨small, notDir, notTable⟩
  have nodup := rooted.nodup
  have free := rooted.free
  rw [list] at nodup free
  have present : Present entry := present_entryOf (by decide)
  have address : PTE_ADDR entry = page := pteAddr_entryOf small (by decide)
  have row : mem d = update (machine.mem d) (vp / NPTENTRIES) entry := by
    simp only [mem, Memory.store, update_self, Memory.clear,
      update_of_ne notDir.symm]
  have dir : update machine.mem page (fun _ => 0) d = machine.mem d :=
    update_of_ne notDir.symm ..
  have tables := rooted.tables
  have apart := rooted.apart
  refine ⟨row, present, address, ⟨?_, ?_, ?_, (List.nodup_cons.mp nodup).2⟩, fun at_ within => ?_⟩
  · simp only [row, update_apply]
    grind
  · simp only [row, update_apply]
    grind
  · simp only [row, update_apply]
    grind
  · refine (pte_link ?_ notDir (update_self ..) (by decide) address ?_).trans
      (pte_congr dir ?_)
    · rw [dir]
      exact absent
    · rw [dir]
      exact apart _ (pdx_lt within)
    · exact fun mapped => update_of_ne (notTable _ (pdx_lt within) mapped) ..

/-- Looking for a page table, and making it if there is none and a page is free. -/
theorem walkpgdir_meets (rooted : Rooted d machine) (isVp : a.toNat / PGSIZE = vp)
    {fails : Panic → Prop} {post : Option (Nat × Nat) → Machine → Prop}
    (none : machine.freelist = [] → ¬Present (machine.mem d (vp / NPTENTRIES)) → post none machine)
    (some : ∀ next, Rooted d next → Present (next.mem d (vp / NPTENTRIES)) →
      (∀ at_ < NPAGES, next.mem.pte d at_ = machine.mem.pte d at_) →
      (∀ last, vp < last → machine.freelist.length + (missing next.mem d vp last).card ≤
        next.freelist.length + (missing machine.mem d vp last).card) →
      post (some (PTE_ADDR (next.mem d (vp / NPTENTRIES)), vp % NPTENTRIES)) next) :
    Meets (interpret (serve kend) (walkpgdir d a true)) machine fails post := by
  rw [walkpgdir, meets_interpret_bind, PDX_eq isVp, PTX_eq isVp]
  change Meets (interpret (serve kend) (if Present (machine.mem d (vp / NPTENTRIES)) then _ else _))
    machine fails post
  rw [meets_interpret_ite]
  refine ⟨fun present => some machine rooted present (fun _ _ => rfl) fun _ _ => le_rfl,
    fun absent => ?_⟩
  rw [if_neg Bool.noConfusion, meets_interpret_bind]
  cases list : machine.freelist with
  | nil =>
    have ran : serve kend .kalloc machine = .ok (.none, machine) := by simp only [serve, list]
    exact (meets_interpret_send (serve kend) machine fails .kalloc _).mpr
      (Meets.intro_ok ran (none list absent))
  | cons page rest =>
    rcases rooted.link absent list with ⟨row, present, address, linked, kept⟩
    have ran : serve kend .kalloc machine =
        .ok (.some page, { machine with freelist := rest }) := by
      simp only [serve, list]
    refine (meets_interpret_send (serve kend) machine fails .kalloc _).mpr
      (Meets.intro_ok ran ?_)
    have found := some _ linked (by simpa only [row, update_self] using present) kept ?_
    · simp only [row, update_self, address] at found
      exact found
    · intro last later
      have member : vp / NPTENTRIES ∈ missing machine.mem d vp last :=
        Finset.mem_filter.mpr
          ⟨Finset.mem_image.mpr ⟨vp, Finset.mem_Ico.mpr ⟨le_rfl, later⟩, rfl⟩, absent⟩
      have fewer : missing ((machine.mem.clear page).store d (vp / NPTENTRIES)
          (entryOf page (PTE_P ||| PTE_W ||| PTE_U))) d vp last =
          (missing machine.mem d vp last).erase (vp / NPTENTRIES) := by
        ext i
        simp only [missing, row, update_apply, Finset.mem_filter, Finset.mem_erase]
        grind
      have one := Finset.card_erase_add_one member
      rw [fewer]
      simp only [list, List.length_cons]
      omega

/-! ## The loop -/

theorem mapLoop_meets (passes : Nat) {lastA : UInt32} (rooted : Rooted d machine)
    (some : vp ≤ last) (inside : last < NPAGES) (enough : last < vp + passes)
    (aligned : a.toNat = vp * PGSIZE) (lastAligned : lastA.toNat = last * PGSIZE) :
    Meets (interpret (serve kend) (mapLoop d perm lastA passes a page)) machine
      (fun stop => stop = .remap ∧ ∃ at_, vp ≤ at_ ∧ at_ ≤ last ∧
        Present (machine.mem.pte d at_))
      fun result after => ∃ count,
        (result = 0 ∧ vp + count = last + 1 ∨ result = -1 ∧ vp + count ≤ last ∧
          machine.freelist.length < (missing machine.mem d vp (last + 1)).card) ∧
        ∀ at_ < NPAGES, after.mem.pte d at_ = if vp ≤ at_ ∧ at_ < vp + count
          then entryOf (page + (at_ - vp)) (perm ||| PTE_P) else machine.mem.pte d at_ := by
  induction passes generalizing machine vp a page with
  | zero => omega
  | succ passes induction =>
    have isVp : a.toNat / PGSIZE = vp := by rw [aligned, Nat.mul_div_cancel _ (by decide)]
    have within : vp < NPAGES := some.trans_lt inside
    rw [mapLoop, meets_interpret_bind]
    refine walkpgdir_meets rooted isVp (fun list absent => ?_) fun next nextRooted present kept few => ?_
    · refine ⟨0, Or.inr ⟨rfl, some, ?_⟩, fun at_ _ => (if_neg (by omega)).symm⟩
      rw [list]
      refine Finset.card_pos.mpr ⟨vp / NPTENTRIES, Finset.mem_filter.mpr ⟨?_, absent⟩⟩
      exact Finset.mem_image.mpr ⟨vp, Finset.mem_Ico.mpr ⟨le_rfl, Nat.lt_succ_of_le some⟩, rfl⟩
    · have entry : next.mem (PTE_ADDR (next.mem d (vp / NPTENTRIES))) (vp % NPTENTRIES) =
          machine.mem.pte d vp := (if_pos present).symm.trans (kept vp within)
      rcases nextRooted.store within present (entryOf page (perm ||| PTE_P)) with
        ⟨row, stored, written⟩
      have rest : missing (next.mem.store (PTE_ADDR (next.mem d (vp / NPTENTRIES)))
          (vp % NPTENTRIES) (entryOf page (perm ||| PTE_P))) d (vp + 1) (last + 1) ⊆
          missing next.mem d vp (last + 1) := by
        simp only [missing, row]
        exact Finset.filter_subset_filter _
          (Finset.image_subset_image (Finset.Ico_subset_Ico_left (Nat.le_succ vp)))
      dsimp only
      rw [meets_interpret_bind]
      change Meets (interpret (serve kend) (if Present (next.mem _ _) then _ else _)) next _ _
      rw [entry, meets_interpret_ite]
      refine ⟨fun mapped => ⟨rfl, vp, le_rfl, some, mapped⟩, fun unmapped => ?_⟩
      rw [meets_interpret_bind]
      change Meets (interpret (serve kend) (if a = lastA then _ else _)) { next with mem := _ } _ _
      rw [meets_interpret_ite]
      refine ⟨fun isLast => ?_, fun notLast => ?_⟩
      · have same : vp = last := by
          rw [isLast, lastAligned] at aligned
          exact (Nat.eq_of_mul_eq_mul_right (by decide) aligned).symm
        refine ⟨1, Or.inl ⟨rfl, by omega⟩, fun at_ bound => ?_⟩
        rw [written at_ bound, kept at_ bound]
        split_ifs with first second second
        · rw [first, Nat.sub_self]
          rfl
        · omega
        · omega
        · rfl
      · have more : vp ≠ last := by
          rintro rfl
          exact notLast (UInt32.toNat_inj.mp (aligned.trans lastAligned.symm))
        have nextAligned : (a + 4096).toNat = (vp + 1) * PGSIZE := by
          simp only [UInt32.toNat_add, UInt32.reduceToNat, PGSIZE, NPAGES, NPDENTRIES, NPTENTRIES] at *
          omega
        refine (induction stored (by omega) (by omega) nextAligned).mono ?_ ?_
        · rintro stop ⟨rfl, at_, from_, until_, mapped⟩
          have bound : at_ < NPAGES := until_.trans_lt inside
          rw [written at_ bound, if_neg (by omega), kept at_ bound] at mapped
          exact ⟨rfl, at_, by omega, until_, mapped⟩
        · rintro result after ⟨count, outcome, entries⟩
          dsimp only at outcome
          have fewer := few (last + 1) (Nat.lt_succ_of_le some)
          have subset := Finset.card_le_card rest
          refine ⟨count + 1, ?_, fun at_ bound => ?_⟩
          · rcases outcome with ⟨rfl, all⟩ | ⟨rfl, part, short⟩
            · exact Or.inl ⟨rfl, by omega⟩
            · exact Or.inr ⟨rfl, by omega, by omega⟩
          · rw [entries at_ bound, written at_ bound, kept at_ bound]
            split_ifs with first second third second third
            · rw [show page + 1 + (at_ - (vp + 1)) = page + (at_ - vp) by omega]
            · omega
            · rw [third, Nat.sub_self]
              rfl
            · omega
            · omega
            · rfl

/-! ## The whole range -/

/-- The flags are below the address of a page. -/
theorem entryOf_eq {pa : UInt32} (aligned : pa.toNat % PGSIZE = 0) (flags : perm < PGSIZE) (i : Nat) :
    entryOf (pa.toNat / PGSIZE + i) (perm ||| PTE_P) =
      (pa + UInt32.ofNat (i * PGSIZE)) ||| UInt32.ofNat perm ||| UInt32.ofNat PTE_P := by
  have small : perm ||| PTE_P < 2 ^ 12 := Nat.or_lt_two_pow flags (by decide)
  apply UInt32.toNat_inj.mp
  simp only [entryOf, UInt32.toNat_or, UInt32.toNat_add, UInt32.toNat_ofNat', Nat.or_assoc, PTE_P]
  simp only [PGSIZE, PTE_P] at *
  rw [Nat.mod_eq_of_lt (show perm < 2 ^ 32 by omega), Nat.mod_eq_of_lt (show 1 < 2 ^ 32 by decide),
    show (pa.toNat + i * 4096 % 2 ^ 32) % 2 ^ 32 =
      2 ^ 12 * ((pa.toNat / 4096 + i) % 2 ^ 20) by omega, ← Nat.two_pow_add_eq_or_of_lt small]
  omega

/-- `mappages` on a directory whose page tables are different pages. If no page of the range
is present and there are free pages for the missing page tables, it returns 0 and exactly
the entries of the range are new. If it returns -1, those of a part of the range are, from
its start on. -/
theorem mappages_exact (rooted : Rooted d machine) {va size pa : UInt32} (positive : 1 ≤ size.toNat)
    (fits : va.toNat + (size.toNat - 1) < 2 ^ 32) (aligned : pa.toNat % PGSIZE = 0)
    (flags : perm < PGSIZE) :
    let first := va.toNat / PGSIZE
    let last := (va.toNat + (size.toNat - 1)) / PGSIZE
    Meets (interpret (serve kend) (mappages d va size (pa.toNat / PGSIZE) perm)) machine
      (fun stop => stop = .remap ∧ ∃ vp, first ≤ vp ∧ vp ≤ last ∧
        Present (machine.mem.pte d vp))
      fun result after => ∃ count,
        (result = 0 ∧ first + count = last + 1 ∨ result = -1 ∧ first + count ≤ last ∧
          machine.freelist.length < (missing machine.mem d first (last + 1)).card) ∧
        ∀ a : UInt32, interpret (serve kend) (translate d a) after = .ok (
          if first ≤ a.toNat / PGSIZE ∧ a.toNat / PGSIZE < first + count then
            (pa + UInt32.ofNat ((a.toNat / PGSIZE - first) * PGSIZE)) ||| UInt32.ofNat perm |||
              UInt32.ofNat PTE_P
          else machine.mem.pte d (a.toNat / PGSIZE), after) := by
  intro first last
  have down : ∀ a : UInt32, (PGROUNDDOWN a).toNat = a.toNat / PGSIZE * PGSIZE := by
    intro a
    have bound := a.toNat_lt
    simp only [PGROUNDDOWN, UInt32.toNat_mul, UInt32.toNat_div, UInt32.reduceToNat, PGSIZE]
    omega
  have ends : (va + size - 1).toNat = va.toNat + (size.toNat - 1) := by
    have bound := size.toNat_lt
    simp only [UInt32.toNat_sub, UInt32.toNat_add, UInt32.reduceToNat]
    omega
  have passes : (PGROUNDDOWN (va + size - 1) - PGROUNDDOWN va).toNat / PGSIZE + 1 =
      last + 1 - first := by
    rw [UInt32.toNat_sub, down, down, ends]
    simp only [first, last, PGSIZE]
    omega
  have ordered : first ≤ last := Nat.div_le_div_right (Nat.le_add_right ..)
  have inside : last < NPAGES := Nat.div_lt_of_lt_mul fits
  rw [mappages, passes]
  refine (mapLoop_meets _ rooted ordered inside (by omega) (down va)
    (by rw [down, ends])).imp ?_
  rintro result after ⟨count, outcome, entries⟩
  refine ⟨count, outcome, fun a => ?_⟩
  rw [translate_eq, entries _ (Nat.div_lt_of_lt_mul a.toNat_lt), entryOf_eq aligned flags]

end

theorem rooted_smallProcess : Rooted 300 smallProcess := by
  have first : ∀ i, Present (smallProcess.mem 300 i) → i = 0 := by
    intro i present
    by_contra later
    simp only [smallProcess, later, and_false, if_false] at present
    exact not_present_zero present
  have table : PTE_ADDR (smallProcess.mem 300 0) = 301 := by decide
  refine ⟨?_, ?_, ?_, by decide⟩
  · intro i _ j _ isFirst isAlso _
    rw [first i isFirst, first j isAlso]
  · intro i _ isFirst
    rw [first i isFirst, table]
    decide
  · intro page listed
    rw [List.mem_singleton.mp listed]
    refine ⟨by decide, by decide, fun i _ isFirst => ?_⟩
    rw [first i isFirst, table]
    decide

theorem mappages_exact_small :
    Returns (interpret (serve 300) (mappages 300 4096 4096 5 (PTE_W ||| PTE_U))) smallProcess
      fun result after => result = 0 ∧
        interpret (serve 300) (translate 300 4096) after = .ok (0x5007, after) := by
  have met := @mappages_exact 300 300 (PTE_W ||| PTE_U) smallProcess rooted_smallProcess 4096 4096
    0x5000 (by decide) (by decide) (by decide) (by decide)
  refine met.mono ?_ ?_
  · rintro stop ⟨_, vp, from_, until_, present⟩
    rw [smallProcess_pte, if_neg (show vp ≠ 0 from Nat.ne_of_gt from_)] at present
    exact not_present_zero present
  · rintro result after ⟨count, ⟨isZero, all⟩ | ⟨_, _, short⟩, entries⟩
    · have one : count = 1 := Nat.add_left_cancel all
      rw [one] at entries
      exact ⟨isZero, entries 4096⟩
    · exact absurd short (by decide)

/-- A directory with a page table in two places. -/
def aliased : Machine where
  mem := fun page index =>
    if page = 300 ∧ index < 2 then entryOf 301 (PTE_P ||| PTE_W ||| PTE_U) else 0
  freelist := []
  sz := 0

/-- A page is mapped at two addresses. -/
theorem mappages_maps_alias :
    ¬Present (aliased.mem.pte 300 0) ∧ aliased.mem.pte 300 NPTENTRIES = 0 ∧
      Returns (interpret (serve 300) (mappages 300 0 4096 5 (PTE_W ||| PTE_U))) aliased
        fun result after => result = 0 ∧
          after.mem.pte 300 NPTENTRIES = entryOf 5 (PTE_P ||| PTE_W ||| PTE_U) :=
  ⟨by decide, by decide, rfl, by decide⟩

end Xv6.Vm
