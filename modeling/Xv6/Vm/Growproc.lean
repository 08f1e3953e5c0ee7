import Xv6.Vm.Growth

/-! # The size of a process

`growproc` on a machine with a free list of pages: it resizes the process as it was asked
to, or fails and leaves it alone, unless the process is to be shrunk to nothing or below.
-/

namespace Xv6.Vm

open Interaction Program Function Memory

/-- The entry of a virtual page that is mapped. -/
def Memory.mapping (mem : Memory) (d vp : Nat) : Option UInt32 :=
  if Present (mem.pte d vp) then some (mem.pte d vp) else none

/-- Exactly the pages below the rounded size are mapped. -/
def Exact (d : Nat) (mem : Memory) (sz : UInt32) : Prop :=
  ∀ vp < USERPAGES, Present (mem.pte d vp) ↔ vp < pages sz

/-- The process has `n` more bytes, or fewer: the pages that stay are as before, and the new
ones are zero. -/
structure Resized (d : Nat) (n : Int32) (mem after : Memory) (sz newsz : UInt32) : Prop where
  size : (newsz.toNat : Int) = sz.toNat + n.toInt
  bound : newsz.toNat < KERNBASE
  exact : Exact d after newsz
  entry : ∀ vp < pages sz, vp < pages newsz → after.pte d vp = mem.pte d vp
  data : ∀ vp < pages sz, vp < pages newsz → ∀ page, mem.frame d vp = some page →
    after page = mem page
  blank : ∀ vp < pages newsz, pages sz ≤ vp → Blank after d vp

/-- The size, the mappings and the contents of the process are as before. -/
structure Untouched (d : Nat) (mem after : Memory) (sz newsz : UInt32) : Prop where
  size : newsz = sz
  mapping : ∀ vp < USERPAGES, after.mapping d vp = mem.mapping d vp
  data : ∀ vp < USERPAGES, ∀ page, mem.frame d vp = some page → after page = mem page

section

variable {pool : Pool} {allowed : Panic → Prop} {view : View} {live hand : Set Nat} {d : Nat}
  {n : Int32}

/-- Adding a signed number to a size wraps. -/
theorem toNat_add_toUInt32 (sz : UInt32) (n : Int32) :
    ((sz + n.toUInt32).toNat : Int) = (sz.toNat + n.toInt) % 2 ^ 32 := by
  have signed : n.toInt = n.toUInt32.toBitVec.toInt := rfl
  rw [signed, BitVec.toInt_eq_toNat_cond, UInt32.toNat_add, UInt32.toNat_toBitVec]
  have bound := n.toUInt32.toNat_lt
  split
  · omega
  · omega

/-- Nothing but pages that were not mapped has changed. -/
theorem Keeps.untouched {after : View} {first last : Nat}
    (keeps : Keeps (Range d first last) live hand view after) (isLive : d ∈ live)
    (before : ∀ vp, first ≤ vp → vp < last → ¬Present (view.mem.pte d vp))
    (later : ∀ vp, first ≤ vp → vp < last → ¬Present (after.mem.pte d vp)) :
    Untouched d view.mem after.mem view.sz after.sz := by
  refine ⟨keeps.sz, fun vp inside => ?_, fun vp inside page maps => ?_⟩
  · by_cases range : first ≤ vp ∧ vp < last
    · rw [mapping, mapping, if_neg (before vp range.1 range.2),
        if_neg (later vp range.1 range.2)]
    · rw [mapping, mapping, keeps.pte d isLive vp (lt_npages inside) fun hit => range hit.2]
  · refine keeps.data d isLive vp inside (fun hit => before vp hit.2.1 hit.2.2 ?_) page maps
    rw [frame] at maps
    split at maps
    · assumption
    · cases maps

theorem Blank.present {mem : Memory} {vp : Nat} (blank : Blank mem d vp) :
    Present (mem.pte d vp) := by
  rcases blank with ⟨page, entry, _⟩
  rw [entry]
  exact present_entryOf (by decide)

section

variable {after : View} {first last : Nat} {newsz : UInt32}
  (keeps : Keeps (Range d first last) live hand view after) (isLive : d ∈ live)
  (exact_ : Exact d view.mem view.sz) (lower : min (pages view.sz) (pages newsz) ≤ first)
  (upper : last ≤ max (pages view.sz) (pages newsz))
  (blank : ∀ vp, pages view.sz ≤ vp → vp < pages newsz → Blank after.mem d vp)

include keeps isLive exact_ lower upper blank

theorem Keeps.exact
    (gone : ∀ vp, pages newsz ≤ vp → vp < pages view.sz → ¬Present (after.mem.pte d vp)) :
    Exact d after.mem newsz := by
  intro vp inside
  have within := lt_npages inside
  rcases Nat.lt_or_ge vp (pages newsz) with new | beyond
  · rcases Nat.lt_or_ge vp (pages view.sz) with old | added
    · rw [keeps.pte d isLive vp within fun hit => by have := hit.2.1; omega, exact_ vp inside]
      exact iff_of_true old new
    · exact iff_of_true (blank vp added new).present new
  · rcases Nat.lt_or_ge vp (pages view.sz) with old | never
    · exact iff_of_false (gone vp beyond old) beyond.not_gt
    · rw [keeps.pte d isLive vp within fun hit => by have := hit.2.2; omega, exact_ vp inside]
      exact iff_of_false never.not_gt beyond.not_gt

theorem Keeps.resized (bounded : view.sz.toNat < KERNBASE)
    (size : (newsz.toNat : Int) = view.sz.toNat + n.toInt) (bound : newsz.toNat < KERNBASE)
    (gone : ∀ vp, pages newsz ≤ vp → vp < pages view.sz → ¬Present (after.mem.pte d vp)) :
    Resized d n view.mem after.mem view.sz newsz := by
  have limit := pages_le bounded.le
  refine ⟨size, bound, keeps.exact isLive exact_ lower upper blank gone, fun vp old new => ?_,
    fun vp old new page maps => ?_, fun vp new old => blank vp old new⟩
  · exact keeps.pte d isLive vp (lt_npages (by omega)) fun hit => by have := hit.2.1; omega
  · exact keeps.data d isLive vp (by omega) (fun hit => by have := hit.2.1; omega) page maps

end

theorem pages_pos {sz : UInt32} (nonempty : sz ≠ 0) : 0 < pages sz := by
  have some : sz.toNat ≠ 0 := fun zero => nonempty (UInt32.toNat_inj.mp zero)
  exact Nat.div_pos (by simp only [PGSIZE]; omega) (by decide)

/-- A process that is not empty is to be shrunk to nothing or below. -/
def ShrunkAway (sz : UInt32) (n : Int32) : Prop :=
  n.toInt < 0 ∧ sz ≠ 0 ∧ sz.toNat + n.toInt ≤ 0

/-- What `growproc` does, provided that it is not to shrink a process to nothing or below. -/
theorem growproc_obeys (owned : Owned pool view live hand) (isLive : d ∈ live)
    (bound : view.sz.toNat < KERNBASE) (exact_ : Exact d view.mem view.sz)
    (positive : ¬ShrunkAway view.sz n) :
    Obeys (pageUse pool allowed) (growproc d n) view fun result after =>
      Owned pool after live hand ∧
        (result = 0 ∧ Resized d n view.mem after.mem view.sz after.sz ∨
          result = -1 ∧ Untouched d view.mem after.mem view.sz after.sz) := by
  have wraps := toNat_add_toUInt32 view.sz n
  have small := n.toInt_lt
  have large := n.le_toInt
  have same : Untouched d view.mem view.mem view.sz view.sz :=
    ⟨rfl, fun _ _ => rfl, fun _ _ _ _ => rfl⟩
  rw [growproc, obeys_bind]
  refine getSz_obeys ?_
  rw [obeys_ite, Int32.lt_iff_toInt_lt, Int32.toInt_zero]
  refine ⟨fun more => ?_, fun notMore => ?_⟩
  · rw [obeys_bind]
    rcases Nat.lt_or_ge (view.sz + n.toUInt32).toNat KERNBASE with fits | tooLarge
    · have size : ((view.sz + n.toUInt32).toNat : Int) = view.sz.toNat + n.toInt := by
        simp only [KERNBASE] at *
        omega
      have grown : view.sz ≤ view.sz + n.toUInt32 := by
        rw [UInt32.le_iff_toNat_le]
        omega
      have fewer : pages view.sz ≤ pages (view.sz + n.toUInt32) :=
        Nat.div_le_div_right (Nat.add_le_add_right (UInt32.le_iff_toNat_le.mp grown) _)
      have unmapped : ∀ vp, pages view.sz ≤ vp → vp < pages (view.sz + n.toUInt32) →
          ¬Present (view.mem.pte d vp) := by
        intro vp from_ below
        rw [exact_ vp (below.trans_le (pages_le fits.le))]
        omega
      refine (allocuvm_obeys owned isLive fits grown fun vp from_ below mapped =>
        (unmapped vp from_ below mapped).elim).imp ?_
      rintro result after ⟨ownedAfter, keeps, ⟨rfl, _, _, blank⟩ | ⟨rfl, _, gone⟩⟩
      · have nonzero : view.sz + n.toUInt32 ≠ 0 := by
          intro zero
          rw [zero, UInt32.toNat_zero] at size
          omega
        have resized : Resized d n view.mem after.mem view.sz (view.sz + n.toUInt32) :=
          keeps.resized isLive exact_ (min_le_left ..) (le_max_right ..)
            (fun vp old new => (blank vp old new).1) bound size fits fun vp from_ below => by omega
        rw [if_neg nonzero, obeys_bind]
        exact setSz_obeys
          ⟨⟨ownedAfter.single, ownedAfter.own, ownedAfter.known⟩, Or.inl ⟨rfl, resized⟩⟩
      · exact ⟨ownedAfter, Or.inr ⟨rfl, keeps.untouched isLive unmapped gone⟩⟩
    · rw [allocuvm, if_pos tooLarge]
      exact ⟨owned, Or.inr ⟨rfl, same⟩⟩
  · rw [obeys_ite, Int32.lt_iff_toInt_lt, Int32.toInt_zero]
    refine ⟨fun less => ?_, fun notLess => ?_⟩
    · rw [obeys_bind]
      refine (deallocuvm_obeys owned isLive bound.le).imp ?_
      rintro result after ⟨rfl, freed⟩
      have ownedAfter := freed.owned
      by_cases empty : view.sz = 0
      · -- the size of an empty process is taken for a failure
        have none : pages view.sz = 0 := by
          rw [empty]
          decide
        have failed : (if view.sz ≤ view.sz + n.toUInt32 then view.sz
            else view.sz + n.toUInt32) = 0 := by
          rw [empty]
          exact if_pos UInt32.zero_le
        rw [if_pos failed]
        exact ⟨ownedAfter, Or.inr ⟨rfl, freed.keeps.untouched isLive
          (fun vp _ below => by omega) (fun vp _ below => by omega)⟩⟩
      · have left : 0 < view.sz.toNat + n.toInt :=
          not_le.mp fun away => positive ⟨less, empty, away⟩
        have size : ((view.sz + n.toUInt32).toNat : Int) = view.sz.toNat + n.toInt := by
          simp only [KERNBASE] at *
          omega
        have shrunk : ¬view.sz ≤ view.sz + n.toUInt32 := by
          rw [UInt32.le_iff_toNat_le]
          omega
        have nonzero : view.sz + n.toUInt32 ≠ 0 := by
          intro zero
          rw [zero, UInt32.toNat_zero] at size
          omega
        have fewer : pages (view.sz + n.toUInt32) ≤ pages view.sz :=
          Nat.div_le_div_right (Nat.add_le_add_right (by omega) _)
        have resized : Resized d n view.mem after.mem view.sz (view.sz + n.toUInt32) :=
          freed.keeps.resized isLive exact_ (min_le_right ..) (le_max_left ..)
            (fun vp from_ below => by omega) bound size (by omega) freed.unmapped
        rw [if_neg shrunk, if_neg nonzero, obeys_bind]
        exact setSz_obeys
          ⟨⟨ownedAfter.single, ownedAfter.own, ownedAfter.known⟩, Or.inl ⟨rfl, resized⟩⟩
    · have resized : Resized d n view.mem view.mem view.sz view.sz :=
        ⟨by omega, bound, exact_, fun _ _ _ => rfl, fun _ _ _ _ _ => rfl,
          fun vp new old => by omega⟩
      rw [obeys_bind]
      exact setSz_obeys ⟨⟨owned.single, owned.own, owned.known⟩, Or.inl ⟨rfl, resized⟩⟩

/-- Shrinking to nothing unmaps the first page and fails. The difference wraps when the
process is to be shrunk below nothing; then nothing is done, but reported as a success. -/
theorem growproc_away_obeys (owned : Owned pool view live hand) (isLive : d ∈ live)
    (bound : view.sz.toNat < KERNBASE) (away : ShrunkAway view.sz n) :
    Obeys (pageUse pool allowed) (growproc d n) view fun result after =>
      Owned pool after live hand ∧
        (result = -1 ∧ ¬Present (after.mem.pte d 0) ∨ result = 0 ∧ after.sz = view.sz) := by
  rcases away with ⟨less, nonempty, away⟩
  have wraps := toNat_add_toUInt32 view.sz n
  have large := n.le_toInt
  rw [growproc, obeys_bind]
  refine getSz_obeys ?_
  rw [if_neg (by rw [Int32.lt_iff_toInt_lt, Int32.toInt_zero]; omega),
    if_pos (by rwa [Int32.lt_iff_toInt_lt, Int32.toInt_zero]), obeys_bind]
  refine (deallocuvm_obeys owned isLive bound.le).imp ?_
  rintro result after ⟨rfl, freed⟩
  rcases Int.lt_or_eq_of_le away with below | nothing
  · have grown : view.sz ≤ view.sz + n.toUInt32 := by
      rw [UInt32.le_iff_toNat_le]
      simp only [KERNBASE] at bound
      omega
    have sameSize := freed.keeps.sz
    have ownedAfter := freed.owned
    rw [if_pos grown, if_neg nonempty, obeys_bind]
    exact setSz_obeys ⟨⟨ownedAfter.single, ownedAfter.own, ownedAfter.known⟩, Or.inr ⟨rfl, rfl⟩⟩
  · have zero : view.sz + n.toUInt32 = 0 := by
      apply UInt32.toNat_inj.mp
      rw [UInt32.toNat_zero]
      omega
    have shrunk : ¬view.sz ≤ view.sz + n.toUInt32 := by
      rw [UInt32.le_iff_toNat_le]
      omega
    rw [if_neg shrunk, if_pos zero]
    refine ⟨freed.owned, Or.inl ⟨rfl, freed.unmapped 0 ?_ (pages_pos nonempty)⟩⟩
    rw [zero]
    decide

end

/-! ## A machine -/

/-- The pages, the free list of `kalloc.c`, and the size of the process. -/
structure Machine where
  mem : Memory
  freelist : List Nat
  sz : UInt32

/-- Every word of a page that has been filled with ones by `kfree`. -/
abbrev JUNK : UInt32 := 0x01010101

def serve (kend : Nat) : (request : Request) → Program Machine Panic (Answer request)
  | .kalloc => fun machine =>
      match machine.freelist with
      | [] => .ok (none, machine)
      | r :: next => .ok (some r, { machine with freelist := next })
  | .kfree v => fun machine =>
      if v < kend ∨ PHYSTOP / PGSIZE ≤ v then .error .kfree
      else .ok ((), { machine with
        mem := Function.update machine.mem v fun _ => JUNK
        freelist := v :: machine.freelist })
  | .load page index => fun machine => .ok (machine.mem page index, machine)
  | .store page index word => fun machine =>
      .ok ((), { machine with mem := machine.mem.store page index word })
  | .clear page => fun machine => .ok ((), { machine with mem := machine.mem.clear page })
  | .sz => fun machine => .ok (machine.sz, machine)
  | .setSz sz => fun machine => .ok ((), { machine with sz := sz })
  | .fail panic => fun _ => .error panic

/-- What is seen of the machine: the pages that are in use. The other ones are free. -/
structure Seen (pool : Pool) (machine : Machine) (view : View) : Prop where
  mem : ∀ page ∈ view.own, machine.mem page = view.mem page
  free : ∀ page, page ∈ machine.freelist ↔ page ∈ pool.pages ∧ page ∉ view.own
  nodup : machine.freelist.Nodup
  sz : machine.sz = view.sz

/-- The machine is a server for the functions of `vm.c`. -/
theorem serve_respects (pool : Pool) (allowed : Panic → Prop) :
    Respects (pageUse pool allowed) (serve pool.kend) (Seen pool) allowed := by
  intro request machine view post seen ruled
  cases request with
  | kalloc =>
    cases list : machine.freelist with
    | nil =>
      have ran : serve pool.kend .kalloc machine = .ok (none, machine) := by
        simp only [serve, list]
      refine Meets.intro_ok ran ⟨view, seen, ruled.1 fun page known => ?_⟩
      by_contra free
      have listed := (seen.free page).mpr ⟨known, free⟩
      rw [list] at listed
      cases listed
    | cons r next =>
      have ran : serve pool.kend .kalloc machine =
          .ok (some r, { machine with freelist := next }) := by
        simp only [serve, list]
      have free := (seen.free r).mp (by rw [list]; exact List.mem_cons_self)
      have nodup := seen.nodup
      rw [list, List.nodup_cons] at nodup
      refine Meets.intro_ok ran ⟨{ view with
          mem := update view.mem r (machine.mem r)
          own := insert r view.own },
        ⟨?_, ?_, nodup.2, seen.sz⟩, ruled.2 r (machine.mem r) free.1 free.2⟩
      · intro page owns
        by_cases same : page = r
        · simp only [same, update_self]
        · exact (seen.mem page (owns.resolve_left same)).trans
            (update_of_ne same ..).symm
      · intro page
        have before := seen.free page
        rw [list] at before
        grind
  | kfree v =>
    rcases ruled with ⟨owns, known, met⟩
    have inPool := pool.inside v known
    have good : ¬(v < pool.kend ∨ PHYSTOP / PGSIZE ≤ v) :=
      not_or.mpr ⟨inPool.1.not_gt, inPool.2.not_ge⟩
    have ran : serve pool.kend (.kfree v) machine = .ok ((), { machine with
        mem := update machine.mem v fun _ => JUNK
        freelist := v :: machine.freelist }) := if_neg good
    refine Meets.intro_ok ran ⟨{ view with own := view.own \ {v} }, ⟨?_, ?_, ?_, seen.sz⟩, met⟩
    · intro page other
      exact (update_of_ne other.2 ..).trans (seen.mem page other.1)
    · intro page
      have before := seen.free page
      grind
    · exact List.nodup_cons.mpr ⟨fun listed => ((seen.free v).mp listed).2 owns, seen.nodup⟩
  | load page index =>
    refine ⟨view, seen, ?_⟩
    rw [seen.mem page ruled.1]
    exact ruled.2.2
  | store page index word =>
    refine ⟨{ view with mem := view.mem.store page index word },
      ⟨fun other owns => ?_, seen.free, seen.nodup, seen.sz⟩, ruled.2.2⟩
    simp only [Memory.store, update_apply, seen.mem page ruled.1, seen.mem other owns]
  | clear page =>
    refine ⟨{ view with mem := view.mem.clear page },
      ⟨fun other owns => ?_, seen.free, seen.nodup, seen.sz⟩, ruled.2⟩
    simp only [Memory.clear, update_apply, seen.mem other owns]
  | sz =>
    refine ⟨view, seen, ?_⟩
    rw [seen.sz]
    exact ruled
  | setSz sz => exact ⟨{ view with sz := sz }, ⟨seen.mem, seen.free, seen.nodup, rfl⟩, ruled⟩
  | fail panic => exact ruled

/-- The pages of a page directory. Each has one use and none is free. -/
structure Directory (kend d : Nat) (machine : Machine) : Prop where
  loaded : EXTMEM / PGSIZE ≤ kend
  single : ∀ role other page, Holds machine.mem {d} ∅ role page →
    Holds machine.mem {d} ∅ other page → role = other
  pool : ∀ role page, Holds machine.mem {d} ∅ role page → InPool kend page
  free : ∀ page ∈ machine.freelist, InPool kend page ∧
    ∀ role, ¬Holds machine.mem {d} ∅ role page
  nodup : machine.freelist.Nodup

/-- The pages in use are those of the process. Each has one use and none is free, and
exactly the pages below the rounded size are mapped. -/
structure Process (kend d : Nat) (machine : Machine) : Prop extends Directory kend d machine where
  exact : Exact d machine.mem machine.sz

section

variable {kend d : Nat} {machine : Machine} {n : Int32}


/-- The pages that a directory uses. -/
def Machine.used (machine : Machine) (d : Nat) : View :=
  ⟨machine.mem, {page | ∃ role, Holds machine.mem {d} ∅ role page}, machine.sz⟩

/-- The free pages and those of the directory. -/
def Directory.allocator (directory : Directory kend d machine) : Pool where
  kend := kend
  pages := {page | page ∈ machine.freelist ∨ page ∈ (machine.used d).own}
  loaded := Nat.lt_of_lt_of_le (by decide) directory.loaded
  inside := by
    rintro page (listed | ⟨role, holds⟩)
    · exact (directory.free page listed).1
    · exact directory.pool role page holds

theorem Directory.owned (directory : Directory kend d machine) :
    Owned directory.allocator (machine.used d) {d} ∅ :=
  ⟨directory.single, fun _ => Iff.rfl, fun _ uses => Or.inr uses⟩

theorem Directory.seen (directory : Directory kend d machine) :
    Seen directory.allocator machine (machine.used d) := by
  refine ⟨fun _ _ => rfl, fun page => ⟨fun listed => ⟨Or.inl listed, ?_⟩, ?_⟩, directory.nodup, rfl⟩
  · exact fun uses => uses.elim (directory.free page listed).2
  · exact fun known => known.1.resolve_right known.2

theorem Process.bound (process : Process kend d machine) : machine.sz.toNat < KERNBASE := by
  rcases process.toDirectory.owned.exists_unmapped rfl with ⟨vp, inside, unmapped⟩
  have beyond := (process.exact vp inside).not.mp unmapped
  simp only [pages, USERPAGES, KERNBASE, PGSIZE] at *
  omega

/-! ## From the view to the machine -/

variable {mem after other : Memory} {sz newsz : UInt32}

section

variable {pool : Pool} {view : View} {live hand : Set Nat} (seen : Seen pool machine view)
  (owned : Owned pool view live hand) (isLive : d ∈ live)

include seen owned isLive

theorem Seen.pte : ∀ vp < NPAGES, machine.mem.pte d vp = view.mem.pte d vp := fun _ inside =>
  pte_congr (seen.mem d (owned.dir_own isLive)) fun present =>
    seen.mem _ (owned.table_own isLive (pdx_lt inside) present)

theorem Seen.data : ∀ vp < USERPAGES, ∀ page, view.mem.frame d vp = some page →
    machine.mem page = view.mem page := fun _ inside page maps =>
  seen.mem page (owned.user_own isLive inside maps)

end

/-- The roles are seen as they are. -/
theorem Seen.holds {pool : Pool} {view : View} {live hand : Set Nat} {role : Role} {page : Nat}
    (seen : Seen pool machine view) (owned : Owned pool view live hand) :
    Holds machine.mem live hand role page ↔ Holds view.mem live hand role page :=
  holds_congr (fun d isLive => seen.mem d (owned.dir_own isLive))
    fun _ isLive _ inside present => seen.mem _ (owned.table_own isLive inside present)

theorem Resized.congr (resized : Resized d n mem after sz newsz) (small : sz.toNat < KERNBASE)
    (same : ∀ vp < USERPAGES, other.pte d vp = after.pte d vp)
    (data : ∀ vp < USERPAGES, ∀ page, after.frame d vp = some page → other page = after page) :
    Resized d n mem other sz newsz := by
  have limit := pages_le small.le
  have newLimit := pages_le resized.bound.le
  refine ⟨resized.size, resized.bound, fun vp inside => ?_, fun vp old new => ?_, ?_, ?_⟩
  · rw [same vp inside]
    exact resized.exact vp inside
  · exact (same vp (by omega)).trans (resized.entry vp old new)
  · intro vp old new page maps
    have still := (frame_congr (resized.entry vp old new)).trans maps
    exact (data vp (by omega) page still).trans (resized.data vp old new page maps)
  · intro vp new added
    exact (resized.blank vp new added).congr (same vp (by omega)) (data vp (by omega))

theorem frame_eq_map_mapping (mem : Memory) (d vp : Nat) :
    mem.frame d vp = (mem.mapping d vp).map PTE_ADDR := by
  rw [frame, mapping]
  split <;> rfl

theorem Untouched.congr (untouched : Untouched d mem after sz newsz)
    (same : ∀ vp < USERPAGES, other.pte d vp = after.pte d vp)
    (data : ∀ vp < USERPAGES, ∀ page, after.frame d vp = some page → other page = after page) :
    Untouched d mem other sz newsz := by
  refine ⟨untouched.size, fun vp inside => ?_, fun vp inside page maps => ?_⟩
  · rw [← untouched.mapping vp inside, Memory.mapping, same vp inside, Memory.mapping]
  · have still : after.frame d vp = some page := by
      rw [frame_eq_map_mapping, untouched.mapping vp inside, ← frame_eq_map_mapping, maps]
    exact (data vp inside page still).trans (untouched.data vp inside page maps)

/-- `growproc` returns 0 when the process has been resized by `n` bytes, and -1 when the
process is as before. -/
def AllOrNothing (kend d : Nat) (n : Int32) (machine : Machine) : Prop :=
  Returns (interpret (serve kend) (growproc d n)) machine fun result after =>
    result = 0 ∧ Resized d n machine.mem after.mem machine.sz after.sz ∨
      result = -1 ∧ Untouched d machine.mem after.mem machine.sz after.sz

/-- `growproc` is all or nothing exactly if it is not to shrink a process to nothing or below. -/
theorem growproc_all_or_nothing_iff (process : Process kend d machine) (n : Int32) :
    AllOrNothing kend d n machine ↔ ¬ShrunkAway machine.sz n := by
  have directory := process.toDirectory
  refine ⟨fun all away => ?_, fun positive => ?_⟩
  · have broken := (serve_respects directory.allocator fun _ => False).interpret directory.seen
      (growproc_away_obeys directory.owned rfl process.bound away)
    rcases Returns.exists_ok all with ⟨result, after, ran, outcome⟩
    rcases Returns.exists_ok broken with ⟨result', after', ran', view, seen, owned, wrong⟩
    cases ran.symm.trans ran'
    have mapped := (process.exact 0 (by decide)).mpr (pages_pos away.2.1)
    rcases wrong with ⟨rfl, unmapped⟩ | ⟨rfl, same⟩
    · rw [← seen.pte owned rfl 0 (by decide)] at unmapped
      have kept := (outcome.resolve_left fun zero => absurd zero.1 (by decide)).2.mapping 0 (by decide)
      rw [mapping, mapping, if_pos mapped, if_neg unmapped] at kept
      cases kept
    · have size := (outcome.resolve_right fun failed => absurd failed.1 (by decide)).2.size
      rw [seen.sz, same] at size
      have less := away.1
      change (machine.sz.toNat : Int) = machine.sz.toNat + n.toInt at size
      omega
  · refine ((serve_respects directory.allocator fun _ => False).interpret directory.seen
      (growproc_obeys directory.owned rfl process.bound process.exact positive)).imp ?_
    rintro result next ⟨view, seen, owned, ⟨rfl, resized⟩ | ⟨rfl, untouched⟩⟩
    · rw [seen.sz]
      exact Or.inl ⟨rfl, resized.congr process.bound (fun vp inside =>
        seen.pte owned rfl vp (lt_npages inside)) (seen.data owned rfl)⟩
    · rw [seen.sz]
      exact Or.inr ⟨rfl, untouched.congr (fun vp inside =>
        seen.pte owned rfl vp (lt_npages inside)) (seen.data owned rfl)⟩

end

/-! ## A small process -/

/-- A process with one page, and one free page. -/
def smallProcess : Machine where
  mem := fun page index =>
    if page = 300 ∧ index = 0 then entryOf 301 (PTE_P ||| PTE_W ||| PTE_U)
    else if page = 301 ∧ index = 0 then entryOf 302 (PTE_P ||| PTE_W ||| PTE_U)
    else 0
  freelist := [303]
  sz := 4096

theorem smallProcess_pte (vp : Nat) : smallProcess.mem.pte 300 vp =
    if vp = 0 then entryOf 302 (PTE_P ||| PTE_W ||| PTE_U) else 0 := by
  by_cases first : vp / NPTENTRIES = 0
  · have present : Present (smallProcess.mem 300 (vp / NPTENTRIES)) := by
      rw [first]
      decide
    have table : PTE_ADDR (smallProcess.mem 300 (vp / NPTENTRIES)) = 301 := by
      rw [first]
      decide
    rw [pte, if_pos present, table,
      Nat.mod_eq_of_lt (Nat.lt_of_div_eq_zero (by decide) first)]
    simp [smallProcess]
  · have absent : smallProcess.mem 300 (vp / NPTENTRIES) = 0 := by
      simp [smallProcess, first]
    rw [pte, absent, if_neg not_present_zero, if_neg fun zero => first (by rw [zero, Nat.zero_div])]

theorem smallProcess_holds {role : Role} {page : Nat}
    (holds : Holds smallProcess.mem {300} ∅ role page) :
    role = .dir 300 ∧ page = 300 ∨ role = .table 300 0 ∧ page = 301 ∨
      role = .user 300 0 ∧ page = 302 := by
  cases role with
  | dir d =>
    rcases holds with ⟨rfl, rfl⟩
    exact Or.inl ⟨rfl, rfl⟩
  | table d index =>
    rcases holds with ⟨rfl, _, present, rfl⟩
    have first : index = 0 := by
      by_contra other
      simp [smallProcess, other, not_present_zero] at present
    subst first
    exact Or.inr (Or.inl ⟨rfl, by decide⟩)
  | user d vp =>
    rcases holds with ⟨rfl, _, maps⟩
    rw [frame, smallProcess_pte] at maps
    by_cases first : vp = 0
    · subst first
      exact Or.inr (Or.inr ⟨rfl, (Option.some.inj maps).symm⟩)
    · rw [if_neg first, if_neg not_present_zero] at maps
      cases maps
  | hand held => exact holds.1.elim

theorem smallProcess_process : Process 256 300 smallProcess where
  loaded := by decide
  single := by
    intro role other page first second
    rcases smallProcess_holds first with ⟨rfl, rfl⟩ | ⟨rfl, rfl⟩ | ⟨rfl, rfl⟩ <;>
      rcases smallProcess_holds second with ⟨rfl, same⟩ | ⟨rfl, same⟩ | ⟨rfl, same⟩ <;>
      simp at same ⊢
  pool := by
    intro role page holds
    rcases smallProcess_holds holds with ⟨_, rfl⟩ | ⟨_, rfl⟩ | ⟨_, rfl⟩ <;>
      exact ⟨by decide, by decide⟩
  free := by
    intro page listed
    have isFree : page = 303 := by simpa [smallProcess] using listed
    subst isFree
    refine ⟨⟨by decide, by decide⟩, fun role holds => ?_⟩
    rcases smallProcess_holds holds with ⟨_, same⟩ | ⟨_, same⟩ | ⟨_, same⟩ <;> cases same
  nodup := by decide
  exact := by
    intro vp _
    have one : pages smallProcess.sz = 1 := by decide
    rw [smallProcess_pte, one, Nat.lt_one_iff]
    split
    · exact iff_of_true (by decide) (by assumption)
    · exact iff_of_false not_present_zero (by assumption)

theorem growproc_all_or_nothing_iff_small :
    Process 256 300 smallProcess ∧ AllOrNothing 256 300 8192 smallProcess :=
  ⟨smallProcess_process, (growproc_all_or_nothing_iff smallProcess_process 8192).mpr (by
    unfold ShrunkAway
    decide)⟩

/-- Shrinking the process to nothing frees its page and fails; shrinking it below nothing is
reported as a success and does nothing. -/
theorem growproc_not_all_or_nothing :
    Process 256 300 smallProcess ∧ ∀ n ∈ [(-4096 : Int32), -8192],
      ¬AllOrNothing 256 300 n smallProcess := by
  have nothing : (interpret (serve 256) (growproc 300 (-4096)) smallProcess).toOption.any
      (fun ran => decide (ran.1 = -1 ∧ ran.2.mem.mapping 300 0 = none)) = true := by
    decide +kernel
  have below : (interpret (serve 256) (growproc 300 (-8192)) smallProcess).toOption.any
      (fun ran => decide (ran.1 = 0 ∧ ran.2.sz = 4096)) = true := by
    decide +kernel
  refine ⟨smallProcess_process, fun n chosen returned => ?_⟩
  rcases Returns.exists_ok returned with ⟨result, after, ran, ended⟩
  simp only [List.mem_cons, List.not_mem_nil, or_false] at chosen
  rcases chosen with rfl | rfl
  · simp only [ran, Except.toOption, Option.any_some, decide_eq_true_eq] at nothing
    rcases nothing with ⟨rfl, gone⟩
    rcases ended with ⟨zero, _⟩ | ⟨_, untouched⟩
    · cases zero
    · have mapped := untouched.mapping 0 (by decide)
      rw [gone, mapping, smallProcess_pte] at mapped
      exact absurd mapped (by decide)
  · simp only [ran, Except.toOption, Option.any_some, decide_eq_true_eq] at below
    rcases below with ⟨rfl, size⟩
    rcases ended with ⟨_, resized⟩ | ⟨failed, _⟩
    · have wrong := resized.size
      rw [size] at wrong
      exact absurd wrong (by decide)
    · cases failed

/-! ## Growing the user part -/

/-- The user part has grown to a size. The new pages are zero and come from the free list. -/
structure Grown (d : Nat) (machine after : Machine) (newsz : UInt32) : Prop where
  exact : Exact d after.mem newsz
  entry : ∀ vp < pages machine.sz, after.mem.pte d vp = machine.mem.pte d vp
  data : ∀ vp < pages machine.sz, ∀ page, machine.mem.frame d vp = some page →
    after.mem page = machine.mem page
  added : ∀ vp, pages machine.sz ≤ vp → vp < pages newsz →
    Blank after.mem d vp ∧ ∃ page ∈ machine.freelist, page ∉ after.freelist ∧
      after.mem.frame d vp = some page
  distinct : ∀ vp < USERPAGES, ∀ other < USERPAGES, ∀ page,
    after.mem.frame d vp = some page → after.mem.frame d other = some page → vp = other

section

variable {kend d : Nat} {machine next : Machine} {view : View} {newsz result : UInt32}

theorem Process.grown (process : Process kend d machine)
    (seen : Seen process.toDirectory.allocator next view)
    (owned : Owned process.toDirectory.allocator view {d} ∅)
    (keeps : Keeps (Range d (pages machine.sz) (pages newsz)) {d} ∅ (machine.used d) view)
    (grown : machine.sz ≤ newsz)
    (added : ∀ vp, pages machine.sz ≤ vp → vp < pages newsz → Blank view.mem d vp ∧
      ∀ page ∈ (machine.used d).own, view.mem.frame d vp ≠ some page)
    (bound : newsz.toNat < KERNBASE) : Grown d machine next newsz := by
  have fewer : pages machine.sz ≤ pages newsz :=
    Nat.div_le_div_right (Nat.add_le_add_right (UInt32.le_iff_toNat_le.mp grown) _)
  have limit := pages_le bound.le
  have pte : ∀ vp < USERPAGES, next.mem.pte d vp = view.mem.pte d vp :=
    fun vp inside => seen.pte owned rfl vp (lt_npages inside)
  have exact_ := keeps.exact rfl process.exact (min_le_left ..) (le_max_right ..)
    (fun vp old new => (added vp old new).1) fun vp beyond old => by
      have : vp < pages machine.sz := old
      omega
  have entry : ∀ vp < pages machine.sz, view.mem.pte d vp = machine.mem.pte d vp :=
    fun vp old => keeps.pte d rfl vp (lt_npages (by omega)) fun hit => by have := hit.2.1; omega
  refine ⟨fun vp inside => ?_, fun vp old => ?_, fun vp old page maps => ?_,
    fun vp old new => ?_, fun vp inside other within page maps also => ?_⟩
  · rw [pte vp inside]
    exact exact_ vp inside
  · exact (pte vp (by omega)).trans (entry vp old)
  · exact (seen.data owned rfl vp (by omega) page ((frame_congr (entry vp old)).trans maps)).trans
      (keeps.data d rfl vp (by omega) (fun hit => by have := hit.2.1; omega) page maps)
  · refine ⟨(added vp old new).1.congr (pte vp (by omega)) (seen.data owned rfl vp (by omega)), ?_⟩
    rcases (added vp old new).1 with ⟨page, _, maps, _⟩
    have owns := owned.user_own rfl (by omega) maps
    exact ⟨page, (owned.known owns).resolve_right fun used => (added vp old new).2 page used maps,
      fun listed => ((seen.free page).mp listed).2 owns, (frame_congr (pte vp (by omega))).trans maps⟩
  · rw [frame_congr (pte vp inside)] at maps
    rw [frame_congr (pte other within)] at also
    exact (Role.user.inj (owned.single (.user d vp) (.user d other) page ⟨rfl, inside, maps⟩
      ⟨rfl, within, also⟩)).2

theorem Process.returned (process : Process kend d machine)
    (seen : Seen process.toDirectory.allocator next view)
    (owned : Owned process.toDirectory.allocator view {d} ∅)
    (untouched : Untouched d machine.mem view.mem machine.sz view.sz) {page : Nat}
    (listed : page ∈ machine.freelist) :
    page ∈ next.freelist ∨ ∃ index, Holds next.mem {d} ∅ (.table d index) page := by
  have unused := (process.free page listed).2
  by_cases owns : page ∈ view.own
  · rcases (owned.own page).mp owns with ⟨role, holds⟩
    cases role with
    | dir other => exact absurd holds (unused (.dir other))
    | hand other => exact holds.1.elim
    | table other index =>
      rcases holds with ⟨rfl, rest⟩
      exact Or.inr ⟨index, (seen.holds owned).mpr ⟨rfl, rest⟩⟩
    | user other vp =>
      rcases holds with ⟨rfl, inside, maps⟩
      rw [frame_eq_map_mapping, untouched.mapping vp inside, ← frame_eq_map_mapping] at maps
      exact absurd ⟨rfl, inside, maps⟩ (unused (.user other vp))
  · exact Or.inl ((seen.free page).mpr ⟨Or.inl listed, owns⟩)

theorem Seen.left {pool : Pool} (seen : Seen pool machine view) :
    pool.left view.own = machine.freelist.length := by
  have free : pool.pages \ view.own = ↑machine.freelist.toFinset := by
    ext page
    rw [List.coe_toFinset, Set.mem_ofPred_eq, seen.free]
    rfl
  rw [Pool.left, free, Set.ncard_coe_finset, List.toFinset_card_of_nodup seen.nodup]

/-- `allocuvm` does all that is asked for if there are enough free pages, for the new pages
and for the page tables that they need. Otherwise it does nothing but to leave new page
tables behind. -/
theorem allocuvm_all_or_nothing (process : Process kend d machine) (newsz : UInt32) :
    Returns (interpret (serve kend) (allocuvm d machine.sz newsz)) machine fun result after =>
      (newsz < machine.sz → result = machine.sz ∧ after = machine) ∧
      (KERNBASE ≤ newsz.toNat → result = 0 ∧ after = machine) ∧
      (machine.sz ≤ newsz → newsz.toNat < KERNBASE →
        if demand machine.mem d (pages machine.sz) (pages newsz) ≤ machine.freelist.length then
          result = newsz ∧ Grown d machine after newsz
        else result = 0 ∧ Untouched d machine.mem after.mem machine.sz after.sz ∧
          ∀ page ∈ machine.freelist, page ∈ after.freelist ∨
            ∃ index, Holds after.mem {d} ∅ (.table d index) page) := by
  have small := process.bound
  rcases Nat.lt_or_ge newsz.toNat KERNBASE with fits | large
  · rcases UInt32.lt_or_le newsz machine.sz with shrunk | grown
    · rw [allocuvm, if_neg (by omega), if_pos shrunk]
      exact ⟨fun _ => ⟨rfl, rfl⟩, fun large => absurd large (by omega),
        fun grown => absurd shrunk (UInt32.not_lt.mpr grown)⟩
    · have directory := process.toDirectory
      have unmapped : ∀ vp, pages machine.sz ≤ vp → vp < pages newsz →
          ¬Present (machine.mem.pte d vp) := by
        intro vp from_ below
        rw [process.exact vp (below.trans_le (pages_le fits.le))]
        omega
      refine ((serve_respects directory.allocator fun _ => False).interpret directory.seen
        (allocuvm_obeys directory.owned rfl fits grown unmapped)).imp ?_
      rintro result next ⟨view, seen, ⟨owned, keeps, outcome⟩⟩
      refine ⟨fun shrunk => absurd shrunk (UInt32.not_lt.mpr grown),
        fun large => absurd large (by omega), fun _ _ => ?_⟩
      rw [directory.seen.left] at outcome
      rcases outcome with ⟨rfl, enough, _, added⟩ | ⟨rfl, few, gone⟩
      · rw [if_pos (by exact enough)]
        exact ⟨rfl, process.grown seen owned keeps grown added fits⟩
      · have untouched := keeps.untouched rfl unmapped gone
        rw [if_neg (by exact few.not_ge)]
        refine ⟨rfl, ?_, fun page => process.returned seen owned untouched⟩
        rw [seen.sz]
        exact untouched.congr (fun vp inside => seen.pte owned rfl vp (lt_npages inside))
          (seen.data owned rfl)
  · rw [allocuvm, if_pos large]
    refine ⟨fun shrunk => ?_, fun _ => ⟨rfl, rfl⟩, fun _ fits => absurd fits (by omega)⟩
    rw [UInt32.lt_iff_toNat_lt] at shrunk
    omega

end

/-- The free page is enough for one more page, as there is a page table for it. -/
theorem allocuvm_all_or_nothing_small :
    Process 256 300 smallProcess ∧
    Returns (interpret (serve 256) (allocuvm 300 4096 8192)) smallProcess fun result after =>
      result = 8192 ∧ Grown 300 smallProcess after 8192 := by
  refine ⟨smallProcess_process,
    (allocuvm_all_or_nothing smallProcess_process 8192).imp fun result after ended => ?_⟩
  have grown := ended.2.2 (by decide) (by decide)
  rwa [if_pos (by decide)] at grown

end Xv6.Vm
