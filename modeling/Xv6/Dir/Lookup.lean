import Xv6.Foundation.Discipline
import Xv6.Dir.Nodes

/-! # Looking up names

What `dirlookup`, `dirlink` and `isdirempty` do with the entries of a directory. It is
the same whoever serves their requests.
-/

namespace Xv6.Dir

open Interaction
open Fs (readBytes writeBytes WriteRefused T_DIR T_DEV MAXFILE)

/-- The data of a directory is a sequence of entries that can be read. -/
structure Shaped (data : List UInt8) : Prop where
  aligned : DIRENTSIZE ∣ data.length
  bounded : data.length ≤ MAXFILE * BSIZE

def Matches (data name : List UInt8) (k : Nat) : Prop :=
  entryAt data k ≠ 0 ∧ namecmp name (nameAt data k) = 0

def State.IsDir (state : State) (inum : Nat) : Prop := (state.node inum).type = T_DIR

instance (state : State) (inum : Nat) : Decidable (state.IsDir inum) :=
  inferInstanceAs (Decidable (_ = _))

theorem Shaped.length {data : List UInt8} (shaped : Shaped data) :
    data.length = DIRENTSIZE * slots data :=
  (Nat.mul_div_cancel' shaped.aligned).symm

theorem Shaped.toNat_off {data : List UInt8} (shaped : Shaped data) {k : Nat}
    (bound : k ≤ slots data) : (UInt32.ofNat (DIRENTSIZE * k)).toNat = DIRENTSIZE * k := by
  have length := shaped.length
  have limit := shaped.bounded
  rw [UInt32.toNat_ofNat']
  apply Nat.mod_eq_of_lt
  simp only [DIRENTSIZE, MAXFILE, Fs.NDIRECT, Fs.NINDIRECT, BSIZE] at *
  omega

theorem State.IsDir.type_ne {state : State} {inum : Nat} (isDir : state.IsDir inum) :
    (state.node inum).type ≠ T_DEV := by
  rw [show (state.node inum).type = T_DIR from isDir]
  decide

theorem State.IsDir.typed {state : State} {inum : Nat} (isDir : state.IsDir inum) :
    (state.node inum).type ≠ 0 := by
  rw [show (state.node inum).type = T_DIR from isDir]
  decide

section

variable {data : List UInt8} {k : Nat} (shaped : Shaped data)

include shaped

theorem Shaped.inside_iff : DIRENTSIZE * k < data.length ↔ k < slots data := by
  have length := shaped.length
  simp only [DIRENTSIZE] at *
  omega

theorem readBytes_entry (inside : k < slots data) :
    readBytes data (UInt32.ofNat (DIRENTSIZE * k)).toNat (UInt32.ofNat DIRENTSIZE).toNat =
      (((DIRENTSIZE : Nat) : Int), (data.drop (DIRENTSIZE * k)).take DIRENTSIZE) := by
  have length := shaped.length
  have limit := shaped.bounded
  have count : ((data.drop (DIRENTSIZE * k)).take DIRENTSIZE).length = DIRENTSIZE := by
    rw [List.length_take, List.length_drop, length]
    simp only [DIRENTSIZE] at *
    omega
  rw [shaped.toNat_off (Nat.le_of_lt inside), show (UInt32.ofNat DIRENTSIZE).toNat = DIRENTSIZE by
    decide, readBytes, if_neg (by
      simp only [DIRENTSIZE, MAXFILE, Fs.NDIRECT, Fs.NINDIRECT, BSIZE] at *
      omega), count]

theorem writeBytes_entry (bound : k ≤ slots data) {de : Dirent} {n : Nat} (full : n = DIRENTSIZE) :
    writeBytes data (fun index => de.store.getD index 0) (UInt32.ofNat (DIRENTSIZE * k)).toNat
        (UInt32.ofNat n).toNat =
      if MAXFILE * BSIZE < DIRENTSIZE * k + DIRENTSIZE then (-1, data)
      else (((DIRENTSIZE : Nat) : Int), putEntry data k de) := by
  have length := shaped.length
  have limit := shaped.bounded
  rw [full, shaped.toNat_off bound, show (UInt32.ofNat DIRENTSIZE).toNat = DIRENTSIZE by decide,
    writeBytes, putEntry]
  congr 1
  rw [WriteRefused]
  simp only [DIRENTSIZE, MAXFILE, Fs.NDIRECT, Fs.NINDIRECT, BSIZE, eq_iff_iff] at *
  omega

end

/-! ## The loops -/

section

variable {View : Type} {discipline : Discipline Request Answer View} {view : View} {dp size : Nat}
  {failure : Panic} {entry : Nat → Dirent → Prop}

/-- The entries below `size` can be read; `entry k de` is what is known of the one in slot
`k`. -/
def Readable (discipline : Discipline Request Answer View) (view : View) (dp size : Nat)
    (failure : Panic) (entry : Nat → Dirent → Prop) : Prop :=
  ∀ k, DIRENTSIZE * k < size →
    Obeys discipline (readEntry dp (DIRENTSIZE * k) failure) view fun de after =>
      after = view ∧ entry k de

/-- A loop that reads the entries from `start` on, up to the first one that passes a test. -/
theorem scan_obeys {Value : Type} (loop : Nat → Nat → Prog Value) {test : Dirent → Prop}
    [DecidablePred test] {hit : Dirent → Nat → Prog Value} {stop : Nat → Value}
    (zero : ∀ off, loop 0 off = return stop off)
    (succ : ∀ passes off, loop (passes + 1) off = if off < size then (do
        let de ← readEntry dp off failure
        if test de then hit de off else loop passes (off + DIRENTSIZE))
      else return stop off)
    (readable : Readable discipline view dp size failure entry) (start : Nat)
    {post : Value → View → Prop}
    (hits : ∀ k de, start ≤ k →
      (∀ j, start ≤ j → j < k → DIRENTSIZE * j < size ∧ ∃ de, entry j de ∧ ¬test de) →
      entry k de → test de → Obeys discipline (hit de (DIRENTSIZE * k)) view post)
    (stops : ∀ k, start ≤ k →
      (∀ j, start ≤ j → j < k → DIRENTSIZE * j < size ∧ ∃ de, entry j de ∧ ¬test de) →
      size ≤ DIRENTSIZE * k → post (stop (DIRENTSIZE * k)) view) :
    Obeys discipline (loop (size / DIRENTSIZE + 1) (DIRENTSIZE * start)) view post := by
  have general : ∀ passes k, size ≤ DIRENTSIZE * (passes + k) → start ≤ k →
      (∀ j, start ≤ j → j < k → DIRENTSIZE * j < size ∧ ∃ de, entry j de ∧ ¬test de) →
      Obeys discipline (loop passes (DIRENTSIZE * k)) view post := by
    intro passes
    induction passes with
    | zero =>
      intro k enough from_ before
      rw [zero]
      exact stops k from_ before (by simpa using enough)
    | succ passes induction =>
      intro k enough from_ before
      rw [succ, obeys_ite]
      refine ⟨fun inside => ?_, fun outside => stops k from_ before (Nat.le_of_not_lt outside)⟩
      rw [obeys_bind]
      refine (readable k inside).imp ?_
      rintro de after ⟨rfl, read⟩
      rw [obeys_ite]
      refine ⟨hits k de from_ before read, fun unmatched =>
        induction (k + 1) ?_ (Nat.le_succ_of_le from_) fun j later below => ?_⟩
      · simp only [DIRENTSIZE] at *
        omega
      · rcases Nat.lt_succ_iff_lt_or_eq.mp below with earlier | rfl
        · exact before j later earlier
        · exact ⟨inside, de, read, unmatched⟩
  refine general _ start ?_ (Nat.le_refl _) fun j later below => absurd below (Nat.not_lt.mpr later)
  simp only [DIRENTSIZE]
  omega

theorem dirlookupLoop_obeys (readable : Readable discipline view dp size .dirlinkRead entry)
    {name : List UInt8} {post : Option (Nat × Nat) → View → Prop}
    (found : ∀ k de, entry k de → de.inum ≠ 0 ∧ namecmp name de.name = 0 →
      Obeys discipline (iget de.inum) view fun ip after => post (some (ip, DIRENTSIZE * k)) after)
    (missing : (∀ j, DIRENTSIZE * j < size →
      ∃ de, entry j de ∧ ¬(de.inum ≠ 0 ∧ namecmp name de.name = 0)) → post none view) :
    Obeys discipline (dirlookupLoop dp name size (size / DIRENTSIZE + 1) 0) view post := by
  refine scan_obeys (dirlookupLoop dp name size) (fun _ => rfl) (fun _ _ => rfl) readable 0
    (fun k de _ _ read matched => ?_) fun k _ before outside => missing fun j inside => ?_
  · rw [obeys_bind]
    exact found k de read matched
  · exact (before j (Nat.zero_le j) (by simp only [DIRENTSIZE] at *; omega)).2

theorem emptyEntryLoop_obeys (readable : Readable discipline view dp size .dirlinkRead entry)
    {post : Nat → View → Prop}
    (met : ∀ k, (∀ j, j < k → DIRENTSIZE * j < size ∧ ∃ de, entry j de ∧ de.inum ≠ 0) →
      (DIRENTSIZE * k < size → ∃ de, entry k de ∧ de.inum = 0) → post (DIRENTSIZE * k) view) :
    Obeys discipline (emptyEntryLoop dp size (size / DIRENTSIZE + 1) 0) view post :=
  scan_obeys (emptyEntryLoop dp size) (fun _ => rfl) (fun _ _ => rfl) readable 0
    (fun k de _ before read free =>
      met k (fun j => before j (Nat.zero_le j)) fun _ => ⟨de, read, free⟩)
    fun k _ before outside =>
      met k (fun j => before j (Nat.zero_le j)) fun inside => absurd inside (Nat.not_lt.mpr outside)

theorem isdiremptyLoop_obeys (readable : Readable discipline view dp size .isdiremptyReadi entry)
    {post : Bool → View → Prop}
    (used : ∀ k de, 2 ≤ k → entry k de → de.inum ≠ 0 → post false view)
    (unused : (∀ j, 2 ≤ j → DIRENTSIZE * j < size → ∃ de, entry j de ∧ de.inum = 0) →
      post true view) :
    Obeys discipline (isdiremptyLoop dp size (size / DIRENTSIZE + 1) (2 * DIRENTSIZE)) view
      post := by
  refine scan_obeys (isdiremptyLoop dp size) (fun _ => rfl) (fun _ _ => rfl) readable 2
    (fun k de later _ => used k de later) fun k _ before outside => unused fun j later inside => ?_
  have passed := (before j later (by simp only [DIRENTSIZE] at *; omega)).2
  simpa only [not_not] using passed

end

/-! ## Directories of known data -/

/-- The first entry that is free, which may be one after the last. -/
structure FirstFree (data : List UInt8) (k : Nat) : Prop where
  bound : k ≤ slots data
  free : entryAt data k = 0
  first : ∀ j, j < k → entryAt data j ≠ 0

/-- A directory that is read and written as a list of bytes. `put` gives the view with other
data in it. -/
structure Listing {View : Type} (discipline : Discipline Request Answer View) (view : View)
    (dp : Nat) (data : List UInt8) (put : List UInt8 → View) : Prop where
  shaped : Shaped data
  same : put data = view
  fields : ∀ {post : Fields → View → Prop},
    (∀ major minor nlink, post ⟨T_DIR, major, minor, nlink, data.length⟩ view) →
    Obeys discipline (fields dp) view post
  readi : ∀ {off n : UInt32} {post : Int × List UInt8 → View → Prop},
    post (readBytes data off.toNat n.toNat) view → Obeys discipline (readi dp off n) view post
  writei : ∀ {src : List UInt8} {off : UInt32} {post : Int → View → Prop} {result : Int}
    {written : List UInt8}, writeBytes data (fun index => src.getD index 0) off.toNat
      (UInt32.ofNat src.length).toNat = (result, written) → post result (put written) →
    Obeys discipline (writei dp src off) view post

namespace Listing

variable {View : Type} {discipline : Discipline Request Answer View} {view : View} {dp : Nat}
  {data : List UInt8} {put : List UInt8 → View} (listing : Listing discipline view dp data put)

include listing

theorem readable (failure : Panic) :
    Readable discipline view dp data.length failure fun k de => de = direntAt data k := by
  intro k inside
  rw [readEntry, obeys_bind]
  refine listing.readi ?_
  rw [readBytes_entry listing.shaped (listing.shaped.inside_iff.mp inside)]
  dsimp only
  rw [if_neg (fun short => short rfl)]
  exact ⟨rfl, rfl⟩

/-- An entry is free if it reads as free, or lies behind the data. -/
theorem free_of {k : Nat} (free : DIRENTSIZE * k < data.length →
    ∃ de, de = direntAt data k ∧ de.inum = 0) : entryAt data k = 0 := by
  by_cases inside : DIRENTSIZE * k < data.length
  · rcases free inside with ⟨_, rfl, unused⟩
    exact unused
  · exact entryAt_of_slots_le listing.shaped.aligned
      (Nat.le_of_not_lt fun within => inside (listing.shaped.inside_iff.mpr within))

theorem dirlookup (name : List UInt8) {post : Option (Nat × Nat) → View → Prop}
    (found : ∀ k, Matches data name k → Obeys discipline (iget (entryAt data k)) view
      fun ip after => post (some (ip, DIRENTSIZE * k)) after)
    (missing : (∀ k, ¬Matches data name k) → post none view) :
    Obeys discipline (dirlookup dp name) view post := by
  rw [Dir.dirlookup, obeys_bind]
  refine listing.fields fun _ _ _ => ?_
  rw [if_neg (fun notDir => notDir rfl)]
  refine dirlookupLoop_obeys (listing.readable .dirlinkRead) ?_ fun none => missing ?_
  · rintro k de rfl matched
    exact found k matched
  · intro k matched
    have inside := lt_slots_of_entryAt listing.shaped.aligned matched.1
    rcases none k (listing.shaped.inside_iff.mpr inside) with ⟨_, rfl, unmatched⟩
    exact unmatched matched

theorem emptyEntry {post : Nat → View → Prop}
    (met : ∀ k, FirstFree data k → post (DIRENTSIZE * k) view) :
    Obeys discipline (emptyEntryLoop dp data.length (data.length / DIRENTSIZE + 1) 0) view post := by
  have shaped := listing.shaped
  refine emptyEntryLoop_obeys (listing.readable .dirlinkRead) fun k before free => met k ?_
  refine ⟨Nat.le_of_not_lt fun outside => ?_, ?_, fun j below => ?_⟩
  · exact Nat.lt_irrefl _ (shaped.inside_iff.mp (before _ outside).1)
  · exact listing.free_of fun inside => free inside
  · rcases (before j below).2 with ⟨_, rfl, used⟩
    exact used

theorem writeEntry {k : Nat} (bound : k ≤ slots data) {de : Dirent}
    (length : de.store.length = DIRENTSIZE) {post : Int → View → Prop}
    (written : DIRENTSIZE * k + DIRENTSIZE ≤ MAXFILE * BSIZE →
      post (DIRENTSIZE : Nat) (put (putEntry data k de)))
    (refused : MAXFILE * BSIZE < DIRENTSIZE * k + DIRENTSIZE → post (-1) view) :
    Obeys discipline (Dir.writei dp de.store (UInt32.ofNat (DIRENTSIZE * k))) view post := by
  have bytes := @writeBytes_entry data k listing.shaped bound de _ length
  by_cases room : MAXFILE * BSIZE < DIRENTSIZE * k + DIRENTSIZE
  · rw [if_pos room] at bytes
    exact listing.writei bytes (listing.same ▸ refused room)
  · rw [if_neg room] at bytes
    exact listing.writei bytes (written (Nat.le_of_not_lt room))

theorem clearEntry {k : Nat} (inside : k < slots data) {post : Int → View → Prop}
    (met : post (DIRENTSIZE : Nat) (put (putEntry data k ⟨0, List.replicate DIRSIZ 0⟩))) :
    Obeys discipline (Dir.writei dp (List.replicate DIRENTSIZE 0) (UInt32.ofNat (DIRENTSIZE * k)))
      view post := by
  have whole := listing.shaped.length
  have limit := listing.shaped.bounded
  refine @writeEntry _ _ _ _ _ _ listing k (Nat.le_of_lt inside) ⟨0, List.replicate DIRSIZ 0⟩ rfl
    post (fun _ => met) fun refused => ?_
  simp only [DIRENTSIZE] at *
  omega

theorem dirlink (name : List UInt8) (inum : Nat) {post : Int → View → Prop}
    (present : ∀ k, Matches data name k → Obeys discipline (iget (entryAt data k)) view
      fun ip after => Obeys discipline (iput ip) after fun _ final => post (-1) final)
    (absent : (∀ k, ¬Matches data name k) → ∀ k, FirstFree data k →
      DIRENTSIZE * k + DIRENTSIZE ≤ MAXFILE * BSIZE →
      post 0 (put (putEntry data k ⟨inum, strncpy name DIRSIZ⟩)))
    (full : ∀ k, FirstFree data k → MAXFILE * BSIZE < DIRENTSIZE * k + DIRENTSIZE →
      Obeys discipline (panic .dirlink) view post) :
    Obeys discipline (dirlink dp name inum) view post := by
  rw [Dir.dirlink, obeys_bind]
  refine listing.dirlookup name (fun k matched => ?_) fun missing => ?_
  · simp only [obeys_bind]
    exact present k matched
  · simp only [obeys_bind]
    refine listing.fields fun _ _ _ => listing.emptyEntry fun k first => ?_
    have length : (Dirent.store ⟨inum, strncpy name DIRSIZ⟩).length = DIRENTSIZE := by
      simp [Dirent.store, strncpy_length]
    refine listing.writeEntry first.bound length (fun fits => ?_) fun refused => ?_
    · rw [if_neg (fun short => short rfl)]
      exact absent missing k first fits
    · rw [if_pos (by decide)]
      exact full k first refused

/-- `isdirempty` says whether there are entries after the first two. -/
theorem isdirempty {post : Bool → View → Prop}
    (met : ∀ empty, (empty = true ↔ ∀ k, 2 ≤ k → entryAt data k = 0) → post empty view) :
    Obeys discipline (isdirempty dp) view post := by
  rw [Dir.isdirempty, obeys_bind]
  refine listing.fields fun _ _ _ => ?_
  refine isdiremptyLoop_obeys (listing.readable .isdiremptyReadi) ?_
    fun unused => met true ⟨fun _ k later => listing.free_of (unused k later), fun _ => rfl⟩
  rintro k _ later rfl used
  exact met false ⟨fun wrong => absurd wrong (by decide), fun none => absurd (none k later) used⟩

end Listing

end Xv6.Dir
