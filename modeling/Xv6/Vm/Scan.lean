import Xv6.Vm.Growproc

/-! # The plain scan

`deallocuvm` skips the pages of a missing page table. It does the same as a scan that visits
every page address of the range, and gives back each page of the range once.
-/

namespace Xv6.Vm

open Interaction Program

/-- One page address is visited: a page that is mapped there is freed, and its entry cleared. -/
def visit (pgdir : Nat) (a : UInt32) : Prog Unit := do
  match ← walkpgdir pgdir a false with
  | none => return ()
  | some (pgtab, index) =>
      let pte ← load pgtab index
      if Present pte then
        if PTE_ADDR pte = 0 then
          panic .kfree
        else
          kfree (PTE_ADDR pte)
          store pgtab index 0
      else
        return ()

/-- A number of page addresses are visited one by one. -/
def scan (pgdir : Nat) : (count : Nat) → (a : UInt32) → Prog Unit
  | 0, _ => return ()
  | count + 1, a => do
      visit pgdir a
      scan pgdir count (a + 4096)

section

variable {kend d vp : Nat} {a oldsz : UInt32} {machine : Machine} {Value : Type}

theorem panic_bind (stop : Panic) (rest : Value → Prog Unit) :
    (panic stop >>= rest) = (panic stop : Prog Unit) :=
  congrArg (Interaction.ask (Request.fail stop)) (funext nofun)

theorem interpret_walkpgdir (rest : Option (Nat × Nat) → Prog Value) :
    interpret (serve kend) (walkpgdir d a false >>= rest) machine =
      interpret (serve kend) (rest (if Present (machine.mem d (PDX a)) then
        some (PTE_ADDR (machine.mem d (PDX a)), PTX a) else none)) machine := by
  change interpret (serve kend) ((if Present (machine.mem d (PDX a)) then
    pure (some (PTE_ADDR (machine.mem d (PDX a)), PTX a)) else pure none) >>= rest) machine = _
  split <;> rfl

theorem deallocLoop_present (below : a < oldsz) (present : Present (machine.mem d (PDX a)))
    (passes : Nat) :
    interpret (serve kend) (deallocLoop d oldsz (passes + 1) a) machine =
      interpret (serve kend) (visit d a >>= fun _ => deallocLoop d oldsz passes (a + 4096))
        machine := by
  rw [deallocLoop, if_pos below, interpret_walkpgdir, visit, bind_assoc, interpret_walkpgdir,
    if_pos present]
  simp only [bind_assoc]
  congr 2
  funext pte
  split
  · split
    · rw [panic_bind]
    · simp only [bind_assoc]
  · rfl

theorem visit_absent (absent : ¬Present (machine.mem d (PDX a))) (rest : Unit → Prog Unit) :
    interpret (serve kend) (visit d a >>= rest) machine =
      interpret (serve kend) (rest ()) machine := by
  rw [visit, bind_assoc, interpret_walkpgdir, if_neg absent]
  rfl

def pageAddr (vp : Nat) : UInt32 := UInt32.ofNat (vp * PGSIZE)

theorem eq_pageAddr (aligned : a.toNat = vp * PGSIZE) : a = pageAddr vp := by
  rw [pageAddr, ← aligned, UInt32.ofNat_toNat]

theorem pageAddr_add_one (vp : Nat) : pageAddr vp + 4096 = pageAddr (vp + 1) := by
  rw [pageAddr, pageAddr, Nat.succ_mul, UInt32.ofNat_add]
  rfl

theorem toNat_pageAddr (inside : vp < NPAGES) : (pageAddr vp).toNat = vp * PGSIZE := by
  rw [pageAddr, UInt32.toNat_ofNat', Nat.mod_eq_of_lt]
  simp only [NPAGES, NPDENTRIES, NPTENTRIES, PGSIZE] at *
  omega

theorem PDX_pageAddr (inside : vp < NPAGES) : PDX (pageAddr vp) = vp / NPTENTRIES :=
  PDX_eq (by rw [toNat_pageAddr inside, Nat.mul_div_cancel _ (by decide)])

theorem scan_skip {last : Nat} (bound : last ≤ USERPAGES)
    (absent : ¬Present (machine.mem d (vp / NPTENTRIES))) (skipped : Nat)
    (sameTable : vp % NPTENTRIES + skipped ≤ NPTENTRIES) :
    interpret (serve kend) (scan d (last - vp) (pageAddr vp)) machine =
      interpret (serve kend) (scan d (last - (vp + skipped)) (pageAddr (vp + skipped)))
        machine := by
  induction skipped with
  | zero => rfl
  | succ skipped induction =>
    rw [induction (by omega)]
    rcases Nat.lt_or_ge (vp + skipped) last with below | beyond
    · have table : (vp + skipped) / NPTENTRIES = vp / NPTENTRIES := by
        simp only [NPTENTRIES] at *
        omega
      have missing : ¬Present (machine.mem d (PDX (pageAddr (vp + skipped)))) := by
        rwa [PDX_pageAddr (lt_npages (by omega)), table]
      rw [show last - (vp + skipped) = last - (vp + (skipped + 1)) + 1 by omega, scan,
        visit_absent missing, pageAddr_add_one]
      rfl
    · rw [Nat.sub_eq_zero_of_le beyond, Nat.sub_eq_zero_of_le (by omega), scan, scan]

theorem deallocLoop_eq_scan (bound : pages oldsz ≤ USERPAGES) (passes : Nat)
    (enough : pages oldsz ≤ vp + passes) (user : vp ≤ USERPAGES) (machine : Machine) :
    interpret (serve kend) (deallocLoop d oldsz passes (pageAddr vp)) machine =
      interpret (serve kend) (scan d (pages oldsz - vp) (pageAddr vp)) machine := by
  induction passes generalizing vp machine with
  | zero =>
    rw [show pages oldsz - vp = 0 by omega]
    rfl
  | succ passes induction =>
    rcases Nat.lt_or_ge vp (pages oldsz) with inside | beyond
    · have within := lt_npages (inside.trans_le bound)
      have aligned := toNat_pageAddr within
      have below : pageAddr vp < oldsz := (lt_iff_pages aligned).mpr inside
      by_cases present : Present (machine.mem d (PDX (pageAddr vp)))
      · have rest : interpret (serve kend) (deallocLoop d oldsz passes (pageAddr (vp + 1))) =
            interpret (serve kend) (scan d (pages oldsz - (vp + 1)) (pageAddr (vp + 1))) :=
          funext (induction (by omega) (by omega))
        rw [deallocLoop_present below present, pageAddr_add_one, interpret_bind, rest,
          show pages oldsz - vp = pages oldsz - (vp + 1) + 1 by omega, scan, pageAddr_add_one,
          interpret_bind]
      · have next := eq_pageAddr (toNat_skip aligned (inside.trans_le bound))
        rw [deallocLoop, if_pos below, interpret_walkpgdir, if_neg present]
        dsimp only
        rw [PDX_pageAddr within] at present
        have skipped := @scan_skip kend d vp machine _ bound present (NPTENTRIES - vp % NPTENTRIES)
          (by have := ptx_lt vp; omega)
        rw [show vp + (NPTENTRIES - vp % NPTENTRIES) = (vp / NPTENTRIES + 1) * NPTENTRIES by
          simp only [NPTENTRIES]; omega] at skipped
        rw [next, skipped]
        refine induction ?_ ?_ machine
        · simp only [NPTENTRIES]
          omega
        · simp only [USERPAGES, KERNBASE, PGSIZE, NPTENTRIES] at *
          omega
    · have aligned := toNat_pageAddr (user.trans_lt (show USERPAGES < NPAGES by decide))
      rw [Nat.sub_eq_zero_of_le beyond, deallocLoop,
        if_neg ((lt_iff_pages aligned).not.mpr beyond.not_gt)]
      rfl

end

/-- The pages from one on and below another are free, and their entries are cleared. -/
structure Freed (d first last : Nat) (machine after : Machine) : Prop where
  entry : ∀ vp, first ≤ vp → vp < last → after.mem.pte d vp = cleared (machine.mem.pte d vp)
  kept : ∀ vp < NPAGES, ¬(first ≤ vp ∧ vp < last) → after.mem.pte d vp = machine.mem.pte d vp
  free : ∀ page, page ∈ after.freelist ↔ page ∈ machine.freelist ∨
    ∃ vp, first ≤ vp ∧ vp < last ∧ machine.mem.frame d vp = some page
  nodup : after.freelist.Nodup

section

variable {pool : Pool} {view after : View} {d first last : Nat}

/-- The roles are those from before, but for the pages that have been given back. -/
theorem Deallocated.holds (freed : Deallocated pool {d} ∅ d first last view after) (role : Role)
    (page : Nat) : Holds after.mem {d} ∅ role page ↔ Holds view.mem {d} ∅ role page ∧
      ∀ vp, first ≤ vp → vp < last → role ≠ .user d vp := by
  cases role with
  | dir other => simp [Holds]
  | hand other => simp [Holds]
  | table other index =>
    simp only [Holds, ne_eq, reduceCtorEq, not_false_eq_true, implies_true, and_true]
    refine and_congr_right fun isLive => ?_
    rw [freed.dirs other isLive]
  | user other vp =>
    by_cases range : first ≤ vp ∧ vp < last
    · refine iff_of_false ?_ ?_
      · rintro ⟨rfl, inside, maps⟩
        rw [Memory.frame, if_neg (freed.unmapped vp range.1 range.2)] at maps
        cases maps
      · rintro ⟨⟨rfl, _⟩, outside⟩
        exact outside vp range.1 range.2 rfl
    · refine (and_congr_right fun isLive => and_congr_right fun inside => ?_).trans
        (and_iff_left ?_).symm
      · rw [frame_congr (freed.keeps.pte other isLive vp (lt_npages inside) fun hit => range hit.2)]
      · rintro at_ from_ below same
        rcases Role.user.inj same with ⟨_, rfl⟩
        exact range ⟨from_, below⟩

theorem Directory.freed {kend : Nat} {machine next : Machine} (bound : last ≤ USERPAGES)
    (directory : Directory kend d machine) (seen : Seen directory.allocator next after)
    (freed : Deallocated directory.allocator {d} ∅ d first last (machine.used d) after) :
    Freed d first last machine next := by
  have pte := seen.pte freed.owned rfl
  refine ⟨fun vp from_ below => ?_, fun vp inside outside => ?_, fun page => ?_, seen.nodup⟩
  · rw [pte vp (lt_npages (below.trans_le bound)), freed.gone vp from_ below]
    rfl
  · rw [pte vp inside, freed.keeps.pte d rfl vp inside fun hit => outside hit.2]
    rfl
  · have free := directory.free page
    have single := directory.single
    have user : ∀ vp, vp < last → (Holds machine.mem {d} ∅ (.user d vp) page ↔
        machine.mem.frame d vp = some page) := fun vp below =>
      ⟨fun holds => holds.2.2, fun maps => ⟨rfl, below.trans_le bound, maps⟩⟩
    rw [seen.free, freed.owned.own]
    simp only [freed.holds]
    change (page ∈ machine.freelist ∨ ∃ role, Holds machine.mem {d} ∅ role page) ∧
      ¬(∃ role, Holds machine.mem {d} ∅ role page ∧ _) ↔ _
    grind

end

/-- `deallocuvm` has the effect of the plain scan. For a page directory with pages of its own,
it returns the new size, and has freed the pages of the range and no other. -/
theorem deallocuvm_eq_scan (kend d : Nat) (machine : Machine) (oldsz newsz : UInt32)
    (smaller : newsz < oldsz) (bound : oldsz.toNat ≤ KERNBASE) :
    interpret (serve kend) (deallocuvm d oldsz newsz) machine =
      interpret (serve kend)
        (scan d (pages oldsz - pages newsz) (PGROUNDUP newsz) >>= fun _ => pure newsz) machine ∧
    (Directory kend d machine →
      Returns (interpret (serve kend) (deallocuvm d oldsz newsz)) machine fun result after =>
        result = newsz ∧ Freed d (pages newsz) (pages oldsz) machine after) := by
  have shrunk : ¬oldsz ≤ newsz := UInt32.not_le.mpr smaller
  have small : newsz.toNat ≤ KERNBASE := by
    rw [UInt32.lt_iff_toNat_lt] at smaller
    omega
  refine ⟨?_, fun directory => ?_⟩
  · have same : interpret (serve kend)
        (deallocLoop d oldsz (oldsz.toNat / PGSIZE + 1) (pageAddr (pages newsz))) =
        interpret (serve kend) (scan d (pages oldsz - pages newsz) (pageAddr (pages newsz))) :=
      funext (deallocLoop_eq_scan (pages_le bound) _
        (by simp only [pages, PGSIZE]; omega) (pages_le small))
    rw [deallocuvm, if_neg shrunk, eq_pageAddr (toNat_PGROUNDUP small), interpret_bind, same,
      ← interpret_bind]
  · refine ((serve_respects directory.allocator fun _ => False).interpret directory.seen
      (deallocuvm_obeys directory.owned rfl bound)).imp ?_
    rintro result next ⟨view, seen, rfl, freed⟩
    exact ⟨if_neg shrunk, directory.freed (pages_le bound) seen freed⟩

/-- Behind the first page table all of them are missing, and are skipped. -/
theorem deallocuvm_eq_scan_small :
    ¬Present (smallProcess.mem 300 1) ∧ Directory 256 300 smallProcess ∧
    interpret (serve 256) (deallocuvm 300 0x80000000 0) smallProcess =
      interpret (serve 256)
        (scan 300 (pages 0x80000000 - pages 0) (PGROUNDUP 0) >>= fun _ => pure 0) smallProcess ∧
    Returns (interpret (serve 256) (deallocuvm 300 0x80000000 0)) smallProcess fun result after =>
      result = 0 ∧ Freed 300 (pages 0) (pages 0x80000000) smallProcess after := by
  have directory := smallProcess_process.toDirectory
  obtain ⟨same, freed⟩ :=
    deallocuvm_eq_scan 256 300 smallProcess 0x80000000 0 (by decide) (by decide)
  refine ⟨by decide, directory, same, ?_⟩
  -- with the number in place the elaborator would run the loop over all the pages
  revert freed
  generalize (0x80000000 : UInt32) = oldsz
  exact fun freed => freed directory

end Xv6.Vm
