import Xv6.Log.Commit

/-! # Crash recovery

A disk is either clean, with an empty header, or it holds a pending
transaction: a header listing home blocks whose new contents are in the log.
Committing leads from one clean disk through pending ones to another clean one,
and recovery never leaves these states.
-/

namespace Xv6.Log

open Crash Function

variable {disk : Disk}

/-! ## Header blocks -/

theorem headerCount_putHeader (buffer : Block) (lh : List Nat) (fits : lh.length ≤ LOGSIZE) :
    headerCount (putHeader buffer lh) = lh.length := by
  have stored : (putHeader buffer lh).getLE 4 0 = lh.length % 256 ^ 4 := by
    rw [putHeader, Bytes.getLE_putWords_of_outside _ _ _ _ _ _ (Or.inl (by omega))]
    exact Bytes.getLE_putLE_same _ _ _ _ (by simp only [BSIZE]; omega)
  simp only [LOGSIZE, MAXOPBLOCKS] at fits
  have small : (BitVec.ofNat 32 lh.length).toNat = lh.length := by
    rw [BitVec.toNat_ofNat, Nat.mod_eq_of_lt (by omega)]
  rw [headerCount, stored, Nat.mod_eq_of_lt (by omega),
    BitVec.toInt_eq_toNat_of_lt (by omega), small]

theorem headerBlocks_putHeader (buffer : Block) (lh : List Nat) (fits : lh.length ≤ LOGSIZE)
    (range : ∀ blockno ∈ lh, blockno < 2 ^ 32) :
    headerBlocks (putHeader buffer lh) = lh := by
  rw [headerBlocks, headerCount_putHeader buffer lh fits, Int.toNat_natCast]
  simp only [LOGSIZE, MAXOPBLOCKS] at fits
  apply List.ext_getElem
  · simp
  · intro index inRange inList
    have stored : headerEntry (putHeader buffer lh) index = lh.getD index 0 % 256 ^ 4 :=
      Bytes.getLE_putWords_of_inside _ _ _ _ (by simp only [BSIZE]; omega) index inList
    have small := range lh[index] (List.getElem_mem inList)
    simp only [List.getElem_map, List.getElem_range, stored]
    rw [List.getD_eq_getElem?_getD, List.getElem?_eq_getElem inList, Option.getD_some,
      Nat.mod_eq_of_lt (by omega)]

theorem headerBlocks_of_count_zero {block : Block} (empty : headerCount block = 0) :
    headerBlocks block = [] := by
  simp [headerBlocks, empty]

theorem headerCount_putHeader_nil (buffer : Block) : headerCount (putHeader buffer []) = 0 :=
  headerCount_putHeader buffer [] (Nat.zero_le _)

/-! ## What a sequence of block writes does to the machine -/

/-- `after` is `before` once `writes` have been issued. What `bread` returns
changes in the same way as the disk does. -/
structure Wrote (before after : Machine) (writes : List (Nat × Block)) : Prop where
  written : after.written = before.written ++ writes
  bread : after.bread = applyWrites before.bread writes
  lh : after.lh = before.lh

theorem Wrote.bwrite (machine : Machine) (blockno : Nat) (data : Block) :
    Wrote machine (machine.bwrite blockno data) [(blockno, data)] where
  written := rfl
  bread := by
    funext other
    by_cases same : other = blockno
    · subst same
      simp [applyWrites, Machine.bread, Machine.bwrite]
    · simp [applyWrites, Machine.bread, Machine.bwrite, update_of_ne same]
  lh := rfl

theorem Wrote.trans {first second third : Machine} {writes more : List (Nat × Block)}
    (left : Wrote first second writes) (right : Wrote second third more) :
    Wrote first third (writes ++ more) where
  written := by rw [right.written, left.written, List.append_assoc]
  bread := by rw [right.bread, left.bread, applyWrites_append]
  lh := right.lh.trans left.lh

/-- The writes of a copying loop none of whose sources is one of its targets. -/
def copyWrites (source target : Nat → Nat) (contents : Disk) (count : Nat) :
    List (Nat × Block) :=
  (List.range count).map fun tail => (target tail, contents (source tail))

theorem copyWrites_addresses (source target : Nat → Nat) (contents : Disk) (count : Nat) :
    (copyWrites source target contents count).map Prod.fst = (List.range count).map target := by
  simp [copyWrites, comp_def]

theorem copyWrites_succ (source target : Nat → Nat) (contents : Disk) (count : Nat) :
    copyWrites source target contents (count + 1) =
      copyWrites source target contents count ++ [(target count, contents (source count))] := by
  simp [copyWrites, List.range_succ]

theorem copyWrites_take (source target : Nat → Nat) (contents : Disk) (count taken : Nat)
    (bound : taken ≤ count) :
    (copyWrites source target contents count).take taken =
      copyWrites source target contents taken := by
  rw [copyWrites, ← List.map_take, List.take_range, Nat.min_eq_left bound]
  rfl

theorem copyBlocks_wrote (source target : Nat → Nat) (machine : Machine) :
    ∀ count, (∀ read, read < count → ∀ written, written < count →
        source read ≠ target written) →
      Wrote machine (copyBlocks source target count machine)
        (copyWrites source target machine.bread count)
  | 0, _ => ⟨by simp [copyBlocks, copyWrites], rfl, rfl⟩
  | count + 1, apart => by
      have earlier := copyBlocks_wrote source target machine count
        fun read readBound written writtenBound =>
          apart read (by omega) written (by omega)
      have step : copyBlocks source target (count + 1) machine =
          (copyBlocks source target count machine).bwrite (target count)
            ((copyBlocks source target count machine).bread (source count)) := by
        simp [copyBlocks, List.range_succ]
      have sourceKept : (copyBlocks source target count machine).bread (source count) =
          machine.bread (source count) := by
        rw [earlier.bread]
        apply applyWrites_of_not_mem
        rw [copyWrites_addresses]
        intro member
        rcases List.mem_map.mp member with ⟨written, bound, equal⟩
        exact apart count (by omega) written (by have := List.mem_range.mp bound; omega) equal.symm
      rw [step, sourceKept, copyWrites_succ]
      exact earlier.trans (Wrote.bwrite _ _ _)

/-! ## Clean and pending disks -/

/-- No transaction is in the log, and outside the log the disk is `reference`. -/
structure Clean (area : Area) (reference disk : Disk) : Prop where
  header : headerCount (disk area.start) = 0
  home : ∀ blockno, ¬area.Contains blockno → disk blockno = reference blockno

/-- The log holds `contents` for the home blocks `lh`. Nothing is said about the
home blocks themselves: some of them may have been installed already. -/
structure Pending (area : Area) (lh : List Nat) (contents reference disk : Disk) : Prop where
  header : headerBlocks (disk area.start) = lh
  logged : ∀ tail, tail < lh.length → disk (area.dataBlock tail) = contents (lh.getD tail 0)
  home : ∀ blockno, ¬area.Contains blockno → blockno ∉ lh → disk blockno = reference blockno

/-- The disk a transaction is meant to produce. -/
def transactionResult (lh : List Nat) (contents reference : Disk) : Disk :=
  fun blockno => if blockno ∈ lh then contents blockno else reference blockno

/-- A list of home blocks that fits the log area and the header block. -/
structure Fits (area : Area) (lh : List Nat) : Prop where
  distinct : lh.Nodup
  outside : ∀ blockno ∈ lh, ¬area.Contains blockno
  inArea : lh.length ≤ area.size - 1
  inHeader : lh.length ≤ LOGSIZE
  range : ∀ blockno ∈ lh, blockno < 2 ^ 32

section Transaction

variable {area : Area} {lh : List Nat} {contents reference : Disk}

theorem Area.contains_dataBlock {tail : Nat} (bound : tail < area.size - 1) :
    area.Contains (area.dataBlock tail) := by
  constructor <;> simp only [Area.dataBlock] <;> omega

theorem Area.contains_start (area : Area) : area.Contains area.start := by
  have := area.holdsHeader
  constructor <;> omega

theorem Area.ne_start {blockno : Nat} (outside : ¬area.Contains blockno) :
    blockno ≠ area.start :=
  fun equal => outside (equal ▸ area.contains_start)

theorem getD_mem {tail : Nat} (bound : tail < lh.length) : lh.getD tail 0 ∈ lh := by
  rw [List.getD_eq_getElem?_getD, List.getElem?_eq_getElem bound]
  exact List.getElem_mem bound

theorem Fits.dataBlock_ne_home (fits : Fits area lh) {logged home : Nat}
    (loggedBound : logged < lh.length) (homeBound : home < lh.length) :
    area.dataBlock logged ≠ lh.getD home 0 := by
  intro equal
  have inside := Area.contains_dataBlock (Nat.lt_of_lt_of_le loggedBound fits.inArea)
  exact fits.outside _ (getD_mem homeBound) (equal ▸ inside)

/-! ### Installing -/

/-- The writes that bring the logged contents home. -/
def installWrites (lh : List Nat) (contents : Disk) (count : Nat) : List (Nat × Block) :=
  (List.range count).map fun tail => (lh.getD tail 0, contents (lh.getD tail 0))

theorem installWrites_addresses (lh : List Nat) (contents : Disk) {count : Nat}
    (bound : count ≤ lh.length) :
    (installWrites lh contents count).map Prod.fst = lh.take count := by
  apply List.ext_getElem
  · simp [installWrites, bound]
  · intro index inRange inList
    have within : index < lh.length := by
      rw [List.length_take] at inList
      omega
    simp [installWrites, within]

theorem installWrites_take (lh : List Nat) (contents : Disk) {count : Nat}
    (bound : count ≤ lh.length) :
    (installWrites lh contents lh.length).take count = installWrites lh contents count := by
  rw [installWrites, ← List.map_take, List.take_range, Nat.min_eq_left bound]
  rfl

theorem applyWrites_installWrites (fits : Fits area lh) (store : Disk) (blockno : Nat) :
    applyWrites store (installWrites lh contents lh.length) blockno =
      if blockno ∈ lh then contents blockno else store blockno := by
  have addresses := installWrites_addresses lh contents (Nat.le_refl lh.length)
  rw [List.take_length] at addresses
  by_cases member : blockno ∈ lh
  · rw [if_pos member]
    apply applyWrites_of_mem _ _ (by rw [addresses]; exact fits.distinct)
    rcases List.mem_iff_getElem.mp member with ⟨tail, bound, equal⟩
    apply List.mem_map.mpr
    refine ⟨tail, List.mem_range.mpr bound, ?_⟩
    rw [List.getD_eq_getElem?_getD, List.getElem?_eq_getElem bound, Option.getD_some, equal]
  · rw [if_neg member]
    exact applyWrites_of_not_mem _ _ _ (by rwa [addresses])

theorem Pending.install (pending : Pending area lh contents reference disk) (fits : Fits area lh)
    (count : Nat) (bound : count ≤ lh.length) :
    Pending area lh contents reference
      (applyWrites disk (installWrites lh contents count)) := by
  have addresses := installWrites_addresses lh contents bound
  have kept : ∀ blockno, blockno ∉ lh →
      applyWrites disk (installWrites lh contents count) blockno = disk blockno := by
    intro blockno notHome
    apply applyWrites_of_not_mem
    rw [addresses]
    exact fun member => notHome (List.mem_of_mem_take member)
  refine ⟨?_, ?_, ?_⟩
  · rw [kept _ fun member => fits.outside _ member area.contains_start]
    exact pending.header
  · intro tail tailBound
    rw [kept]
    · exact pending.logged tail tailBound
    · intro member
      exact fits.outside _ member
        (Area.contains_dataBlock (Nat.lt_of_lt_of_le tailBound fits.inArea))
  · intro blockno outside notHome
    rw [kept blockno notHome]
    exact pending.home blockno outside notHome

/-- Once every home block is installed, clearing the header makes the disk
clean at the transaction's result. -/
theorem Pending.finish (pending : Pending area lh contents reference disk) (fits : Fits area lh)
    (buffer : Block) :
    Clean area (transactionResult lh contents reference)
      (applyWrites disk (installWrites lh contents lh.length ++
        [(area.start, putHeader buffer [])])) := by
  rw [applyWrites_snoc]
  refine ⟨?_, ?_⟩
  · rw [update_self]
    exact headerCount_putHeader_nil buffer
  · intro blockno outside
    rw [update_of_ne (Area.ne_start outside), applyWrites_installWrites fits, transactionResult]
    by_cases home : blockno ∈ lh
    · simp [home]
    · simp [home, pending.home blockno outside home]

theorem Clean.clear (clean : Clean area reference disk) (buffer : Block) :
    Clean area reference (applyWrites disk [(area.start, putHeader buffer [])]) := by
  refine ⟨?_, ?_⟩
  · rw [applyWrites_cons, applyWrites_nil, update_self]
    exact headerCount_putHeader_nil buffer
  · intro blockno outside
    rw [applyWrites_cons, applyWrites_nil, update_of_ne (Area.ne_start outside)]
    exact clean.home blockno outside

/-! ### Recovery -/

theorem recoveryWrites_of_pending (pending : Pending area lh contents reference disk)
    (fits : Fits area lh) :
    recoveryWrites area disk = installWrites lh contents lh.length ++
      [(area.start, putHeader (disk area.start) [])] := by
  have listed : (readHead area (boot disk)).lh = lh := pending.header
  have homes : (readHead area (boot disk)).homeBlock = fun tail => lh.getD tail 0 := by
    funext tail
    rw [Machine.homeBlock, listed]
  have installed := copyBlocks_wrote area.dataBlock (fun tail => lh.getD tail 0)
    (readHead area (boot disk)) lh.length
    fun read readBound written writtenBound => fits.dataBlock_ne_home readBound writtenBound
  have sameWrites : copyWrites area.dataBlock (fun tail => lh.getD tail 0)
      (readHead area (boot disk)).bread lh.length = installWrites lh contents lh.length := by
    apply List.map_congr_left
    intro tail member
    have logged := pending.logged tail (List.mem_range.mp member)
    exact congrArg (Prod.mk _) logged
  have headerKept : (copyBlocks area.dataBlock (fun tail => lh.getD tail 0) lh.length
      (readHead area (boot disk))).bread area.start = disk area.start := by
    rw [installed.bread, sameWrites]
    apply applyWrites_of_not_mem
    rw [installWrites_addresses _ _ (Nat.le_refl _), List.take_length]
    exact fun member => fits.outside _ member area.contains_start
  rw [recoveryWrites, recoverFromLog, writeHead, Machine.bwrite, installTrans, homes, listed]
  change (copyBlocks _ _ _ _).written ++ [(area.start, putHeader
    ((copyBlocks area.dataBlock (fun tail => lh.getD tail 0) lh.length
      (readHead area (boot disk))).bread area.start) [])] = _
  rw [installed.written, sameWrites, headerKept]
  rfl

theorem Fits.nil (area : Area) : Fits area [] := by
  constructor <;> simp

theorem recoveryWrites_of_clean (clean : Clean area reference disk) :
    recoveryWrites area disk = [(area.start, putHeader (disk area.start) [])] := by
  have pending : Pending area [] reference reference disk := by
    refine ⟨headerBlocks_of_count_zero clean.header, ?_, ?_⟩
    · intro tail bound
      simp at bound
    · intro blockno outside _
      exact clean.home blockno outside
  exact recoveryWrites_of_pending pending (Fits.nil area)

/-- Recovery, cut short anywhere, leaves a clean disk clean. -/
theorem Clean.crash {image : Disk} (clean : Clean area reference disk)
    (crashed : CrashImage (recoveryWrites area disk) disk image) :
    Clean area reference image := by
  rcases crashed with ⟨count, bound, rfl⟩
  rw [recoveryWrites_of_clean clean] at bound ⊢
  cases count with
  | zero => exact clean
  | succ count =>
    rw [List.take_of_length_le (by simp)]
    exact clean.clear _

theorem Clean.recover (clean : Clean area reference disk) :
    Clean area reference (applyWrites disk (recoveryWrites area disk)) := by
  rw [recoveryWrites_of_clean clean]
  exact clean.clear _

theorem Pending.recover (pending : Pending area lh contents reference disk) (fits : Fits area lh) :
    Clean area (transactionResult lh contents reference)
      (applyWrites disk (recoveryWrites area disk)) := by
  rw [recoveryWrites_of_pending pending fits]
  exact pending.finish fits _

/-- Recovery, cut short anywhere, leaves a pending disk pending or finishes the
transaction. -/
theorem Pending.crash {image : Disk} (pending : Pending area lh contents reference disk)
    (fits : Fits area lh) (crashed : CrashImage (recoveryWrites area disk) disk image) :
    Pending area lh contents reference image ∨
      Clean area (transactionResult lh contents reference) image := by
  rcases crashed with ⟨count, bound, rfl⟩
  have total : (recoveryWrites area disk).length = lh.length + 1 := by
    rw [recoveryWrites_of_pending pending fits]
    simp [installWrites]
  by_cases installing : count ≤ lh.length
  · left
    rw [recoveryWrites_of_pending pending fits,
      List.take_append_of_le_length (by simpa [installWrites] using installing)]
    rw [installWrites_take _ _ installing]
    exact pending.install fits count installing
  · right
    rw [List.take_of_length_le (by omega)]
    exact pending.recover fits

/-! ### Commit -/

/-- The writes that put the transaction into the log's data blocks. -/
def logWrites (area : Area) (lh : List Nat) (contents : Disk) (count : Nat) :
    List (Nat × Block) :=
  copyWrites (fun tail => lh.getD tail 0) area.dataBlock contents count

theorem logWrites_addresses (count : Nat) :
    (logWrites area lh contents count).map Prod.fst =
      (List.range count).map area.dataBlock :=
  copyWrites_addresses _ _ _ _

theorem start_not_mem_logWrites (count : Nat) :
    area.start ∉ (logWrites area lh contents count).map Prod.fst := by
  rw [logWrites_addresses]
  intro member
  rcases List.mem_map.mp member with ⟨tail, _, equal⟩
  simp only [Area.dataBlock] at equal
  omega

theorem Clean.log (clean : Clean area reference disk) (fits : Fits area lh) (count : Nat)
    (bound : count ≤ lh.length) :
    Clean area reference (applyWrites disk (logWrites area lh contents count)) := by
  refine ⟨?_, ?_⟩
  · rw [applyWrites_of_not_mem _ _ _ (start_not_mem_logWrites count)]
    exact clean.header
  · intro blockno outside
    rw [applyWrites_of_not_mem]
    · exact clean.home blockno outside
    · rw [logWrites_addresses]
      intro member
      rcases List.mem_map.mp member with ⟨tail, tailMember, rfl⟩
      have tailBound := List.mem_range.mp tailMember
      exact outside (Area.contains_dataBlock (by have := fits.inArea; omega))

theorem applyWrites_logged (area : Area) (lh : List Nat) (contents store : Disk)
    (header : Block) (tail : Nat) (bound : tail < lh.length) :
    applyWrites store (logWrites area lh contents lh.length ++ [(area.start, header)])
      (area.dataBlock tail) = contents (lh.getD tail 0) := by
  have notStart : area.dataBlock tail ≠ area.start := by
    simp only [Area.dataBlock]
    omega
  rw [applyWrites_snoc, update_of_ne notStart]
  apply applyWrites_of_mem
  · rw [logWrites_addresses]
    apply List.Nodup.map _ List.nodup_range
    intro left right equal
    simp only [Area.dataBlock] at equal
    omega
  · exact List.mem_map.mpr ⟨tail, List.mem_range.mpr bound, rfl⟩

theorem Clean.commitPoint (clean : Clean area reference disk) (fits : Fits area lh)
    (contents : Disk) (buffer : Block) :
    Pending area lh contents reference (applyWrites disk
      (logWrites area lh contents lh.length ++ [(area.start, putHeader buffer lh)])) := by
  refine ⟨?_, applyWrites_logged area lh contents disk _, ?_⟩
  · rw [applyWrites_snoc, update_self]
    exact headerBlocks_putHeader buffer lh fits.inHeader fits.range
  · intro blockno outside _
    rw [applyWrites_snoc, update_of_ne (Area.ne_start outside)]
    exact (clean.log fits lh.length (Nat.le_refl _)).home blockno outside

/-- The writes of `commit`, in order: the data blocks of the log, the header,
the home blocks, and the cleared header. -/
theorem commitWrites_eq (machine : Machine) (fits : Fits area machine.lh)
    (nonempty : 0 < machine.lh.length) :
    ∃ buffer clearedBuffer, commitWrites area machine =
      (logWrites area machine.lh machine.bread machine.lh.length ++
        [(area.start, putHeader buffer machine.lh)]) ++
      (installWrites machine.lh machine.bread machine.lh.length ++
        [(area.start, putHeader clearedBuffer [])]) := by
  let fresh : Machine := { machine with written := [] }
  have logged : Wrote fresh (writeLog area fresh)
      (logWrites area machine.lh machine.bread machine.lh.length) :=
    copyBlocks_wrote _ _ _ _ fun read readBound written writtenBound equal =>
      fits.dataBlock_ne_home writtenBound readBound equal.symm
  have headed := logged.trans (Wrote.bwrite (writeLog area fresh) area.start
    (putHeader ((writeLog area fresh).bread area.start) (writeLog area fresh).lh))
  change Wrote fresh (writeHead area (writeLog area fresh)) _ at headed
  rw [logged.lh] at headed
  have homes : (writeHead area (writeLog area fresh)).homeBlock =
      fun tail => machine.lh.getD tail 0 := by
    funext tail
    rw [Machine.homeBlock, headed.lh]
  have installed := copyBlocks_wrote area.dataBlock (fun tail => machine.lh.getD tail 0)
    (writeHead area (writeLog area fresh)) machine.lh.length
    fun read readBound written writtenBound => fits.dataBlock_ne_home readBound writtenBound
  have sameWrites : copyWrites area.dataBlock (fun tail => machine.lh.getD tail 0)
      (writeHead area (writeLog area fresh)).bread machine.lh.length =
      installWrites machine.lh machine.bread machine.lh.length := by
    apply List.map_congr_left
    intro tail member
    -- The log block holds what `write_log` put there: the header write missed it.
    have kept := applyWrites_logged area machine.lh machine.bread fresh.bread
      (putHeader ((writeLog area fresh).bread area.start) machine.lh) tail
      (List.mem_range.mp member)
    rw [← headed.bread] at kept
    exact congrArg (Prod.mk _) kept
  refine ⟨(writeLog area fresh).bread area.start, (copyBlocks area.dataBlock
    (fun tail => machine.lh.getD tail 0) machine.lh.length
    (writeHead area (writeLog area fresh))).bread area.start, ?_⟩
  have all := headed.trans installed
  rw [sameWrites] at all
  rw [commitWrites, commit, if_pos nonempty, writeHead, Machine.bwrite, installTrans,
    homes, headed.lh]
  change (copyBlocks _ _ _ _).written ++ _ = _
  rw [all.written]
  simp [fresh, clearHeader, Machine.bread]

/-! ### Atomicity -/

/-- What the disk looks like after a crash during `commit`. -/
theorem commit_crash (machine : Machine) (fits : Fits area machine.lh)
    (empty : headerCount (machine.disk area.start) = 0) (count : Nat) :
    let crashed := applyWrites machine.disk ((commitWrites area machine).take count)
    if area.start ∈ ((commitWrites area machine).take count).map Prod.fst then
      Pending area machine.lh machine.bread machine.disk crashed ∨
        Clean area (transactionResult machine.lh machine.bread machine.disk) crashed
    else
      Clean area machine.disk crashed := by
  intro crashed
  have clean : Clean area machine.disk machine.disk := ⟨empty, fun _ _ => rfl⟩
  rcases Nat.eq_zero_or_pos machine.lh.length with isEmpty | nonempty
  · have noWrites : commitWrites area machine = [] := by
      simp [commitWrites, commit, isEmpty]
    simpa [crashed, noWrites] using clean
  rcases commitWrites_eq machine fits nonempty with ⟨buffer, clearedBuffer, writes⟩
  have logLength : (logWrites area machine.lh machine.bread machine.lh.length).length =
      machine.lh.length := by
    simp [logWrites, copyWrites]
  have installLength : (installWrites machine.lh machine.bread machine.lh.length).length =
      machine.lh.length := by
    simp [installWrites]
  by_cases logging : count ≤ machine.lh.length
  · have taken : (commitWrites area machine).take count =
        logWrites area machine.lh machine.bread count := by
      rw [writes, List.append_assoc, List.take_append_of_le_length (by omega)]
      exact copyWrites_take _ _ _ _ _ logging
    rw [if_neg (by rw [taken]; exact start_not_mem_logWrites count)]
    simp only [crashed, taken]
    exact clean.log fits count logging
  · have split : (commitWrites area machine).take count =
        (logWrites area machine.lh machine.bread machine.lh.length ++
          [(area.start, putHeader buffer machine.lh)]) ++
        (installWrites machine.lh machine.bread machine.lh.length ++
          [(area.start, putHeader clearedBuffer [])]).take (count - (machine.lh.length + 1)) := by
      rw [writes, List.take_append, List.take_of_length_le (by simp; omega)]
      simp [logLength]
    rw [if_pos (by rw [split]; simp)]
    simp only [crashed, split]
    rw [applyWrites_append]
    have pending := clean.commitPoint fits machine.bread buffer
    by_cases installing : count - (machine.lh.length + 1) ≤ machine.lh.length
    · left
      rw [List.take_append_of_le_length (by omega), installWrites_take _ _ installing]
      exact pending.install fits _ installing
    · right
      rw [List.take_of_length_le (by simp; omega)]
      exact pending.finish fits _

/-- A transaction happens entirely or not at all, however often the machine
crashes while committing and while recovering; what decides is whether the
first `write_head` reached the disk. -/
theorem commit_recover_atomic (area : Area) (machine : Machine) (fits : Fits area machine.lh)
    (empty : headerCount (machine.disk area.start) = 0) (count : Nat) (image : Disk)
    (interrupted : Interrupted (recoveryWrites area)
      (applyWrites machine.disk ((commitWrites area machine).take count)) image) :
    let final := applyWrites image (recoveryWrites area image)
    (∀ blockno ∈ machine.lh, final blockno =
      if area.start ∈ ((commitWrites area machine).take count).map Prod.fst then
        machine.bread blockno
      else
        machine.disk blockno) ∧
    (∀ blockno, blockno ∉ machine.lh → ¬area.Contains blockno →
      final blockno = machine.disk blockno) ∧
    headerCount (final area.start) = 0 := by
  intro final
  have crashed := commit_crash machine fits empty count
  by_cases committed : area.start ∈ ((commitWrites area machine).take count).map Prod.fst
  · simp only [committed, if_true] at crashed ⊢
    let result := transactionResult machine.lh machine.bread machine.disk
    have atImage : Pending area machine.lh machine.bread machine.disk image ∨
        Clean area result image := by
      apply Interrupted.invariant (fun disk =>
        Pending area machine.lh machine.bread machine.disk disk ∨ Clean area result disk)
        _ interrupted crashed
      rintro store middle (pending | clean) step
      · exact pending.crash fits step
      · exact Or.inr (clean.crash step)
    have recovered : Clean area result final := by
      rcases atImage with pending | clean
      · exact pending.recover fits
      · exact clean.recover
    refine ⟨?_, ?_, recovered.header⟩
    · intro blockno home
      rw [recovered.home blockno (fits.outside blockno home)]
      simp [result, transactionResult, home]
    · intro blockno notHome outside
      rw [recovered.home blockno outside]
      simp [result, transactionResult, notHome]
  · simp only [committed, if_false] at crashed ⊢
    have atImage : Clean area machine.disk image :=
      Interrupted.invariant (Clean area machine.disk)
        (fun store middle clean step => clean.crash step) interrupted crashed
    have recovered : Clean area machine.disk final := atImage.recover
    exact ⟨fun blockno home => recovered.home blockno (fits.outside blockno home),
      fun blockno _ outside => recovered.home blockno outside, recovered.header⟩

/-- A transaction of three blocks, cut off right after its header was written, and again
after recovery has installed two of the blocks. -/
theorem commit_recover_atomic_three_blocks :
    let area : Area := ⟨2, 30, by decide⟩
    let machine : Machine :=
      { disk := fun _ => Bytes.zero BSIZE
        buffers := fun blockno => some fun _ => UInt8.ofNat blockno
        lh := [60, 45, 70]
        written := [] }
    let crashed := applyWrites machine.disk ((commitWrites area machine).take 4)
    let image := applyWrites crashed ((recoveryWrites area crashed).take 2)
    ∀ blockno ∈ [60, 45, 70], applyWrites image (recoveryWrites area image) blockno =
      fun _ => UInt8.ofNat blockno := by
  intro area machine crashed image
  have fits : Fits area machine.lh := by
    refine ⟨by decide, ?_, by decide, by decide, by decide⟩
    simp [machine, Area.Contains, area]
  have empty : headerCount (machine.disk area.start) = 0 := by decide
  have interrupted : Interrupted (recoveryWrites area) crashed image :=
    .crash ⟨2, by decide +kernel, rfl⟩ (.none image)
  have outcome := commit_recover_atomic area machine fits empty 4 image interrupted
  have committed : area.start ∈ ((commitWrites area machine).take 4).map Prod.fst := by decide
  intro blockno logged
  have atHome := outcome.1 blockno logged
  rw [if_pos committed] at atHome
  exact atHome

end Transaction

end Xv6.Log
