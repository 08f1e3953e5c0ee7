import Xv6.Fs.Reuse

/-! # What `create` finds in a reused inode -/

namespace Xv6.Fs.Reuse

open Transition
open Function (update update_self update_of_ne forall_update_iff)

variable {Process : Type} [DecidableEq Process] {state next : State Process} {p : Process}

variable {icache : Fin NINODE → Inode} {inum : Nat} {ip : Fin NINODE} {dinodes : Nat → Dinode}
  {locks : Fin NINODE → Option Process} {point : CreatePoint} {request : Request}

/-- `iget` finds the inode in the cache, or recycles an unused entry. -/
theorem iget_cases {icache' : Fin NINODE → Inode} (result : iget icache inum = some (icache', ip)) :
    (0 < (icache ip).ref ∧ (icache ip).inum = inum ∧
      icache' = update icache ip { icache ip with ref := (icache ip).ref + 1 }) ∨
    ((∀ jp, 0 < (icache jp).ref → (icache jp).inum ≠ inum) ∧ (icache ip).ref = 0 ∧
      icache' = update icache ip
        { icache ip with inum := inum, ref := 1, valid := false }) := by
  unfold iget at result
  split at result
  · rename_i found
    cases result
    have test := List.find?_some found
    rw [decide_eq_true_eq] at test
    exact Or.inl ⟨test.1, test.2, rfl⟩
  · rename_i missing
    split at result
    · rename_i unused
      cases result
      refine Or.inr ⟨?_, ?_, rfl⟩
      · intro jp used isInum
        have differs := List.find?_eq_none.mp missing jp (List.mem_finRange jp)
        exact differs (decide_eq_true ⟨used, isInum⟩)
      · have test := List.find?_some unused
        rw [decide_eq_true_eq] at test
        exact test
    · cases result

section

variable (separate : Separate state)
include separate

/-- A step of one process in `create`. The first three assumptions are about the others. -/
theorem Separate.creates (others : ∀ q, q ≠ p → ∀ ip, (state.creators q).entry = some ip →
      icache ip = state.icache ip)
    (disk : ∀ q, q ≠ p → ∀ inum, (state.creators q).claim state.icache = some inum →
      (dinodes inum).type = (state.dinodes inum).type ∧ point.claim icache ≠ some inum)
    (uncached : ∀ q, q ≠ p → ∀ request inum, state.creators q = .claimed request inum →
      ∀ ip, 0 < (icache ip).ref → (icache ip).inum = inum →
        0 < (state.icache ip).ref ∧ (state.icache ip).inum = inum)
    (unique : ∀ ip jp, 0 < (icache ip).ref → 0 < (icache jp).ref →
      (icache ip).inum = (icache jp).inum → ip = jp) (allocated : ∀ ip, 0 < (icache ip).ref →
      (dinodes (icache ip).inum).type ≠ 0 ∨ ip = state.dropping ∧ state.dropper = .freed)
    (entry : ∀ ip, (state.creators p).entry = some ip → point.entry = some ip)
    (refs : state.dropper ≠ .done →
      (icache state.dropping).ref = (state.icache state.dropping).ref ∨
        0 < (icache state.dropping).ref ∧ point.entry = some state.dropping)
    (typed : Typed (icache state.dropping) state.dropper) (apart : state.dropper.Early →
      (icache state.dropping).inum = (state.icache state.dropping).inum ∧
        point.claim icache ≠ some (state.icache state.dropping).inum)
    (own : Fits dinodes icache state.dropping state.dropper point) :
    Separate { state with
      dinodes := dinodes
      icache := icache
      locks := locks
      creators := state.setPoint p point } := by
  have claims : ∀ q, q ≠ p →
      (state.setPoint p point q).claim icache = (state.creators q).claim state.icache := by
    intro q different
    rw [State.setPoint, update_of_ne different]
    exact CreatePoint.claim_congr fun ip entry => by rw [others q different ip entry]
  have ownPoint : state.setPoint p point p = point := update_self ..
  refine ⟨unique, allocated, ?_, ?_, typed, ?_, ?_, ?_⟩
  · intro notDone
    cases refs notDone with
    | inl same =>
      dsimp only
      rw [same]
      exact separate.held notDone
    | inr taken => exact taken.1
  · intro notStart notDone
    dsimp only
    cases refs notDone with
    | inl same =>
      rw [same]
      refine (separate.last notStart notDone).imp id ?_
      rintro ⟨q, holds⟩
      refine ⟨q, ?_⟩
      by_cases qOwn : q = p
      · rw [qOwn] at holds ⊢
        rw [ownPoint]
        exact entry _ holds
      · rw [State.setPoint, update_of_ne qOwn]
        exact holds
    | inr taken =>
      refine Or.inr ⟨p, ?_⟩
      rw [ownPoint]
      exact taken.2
  · intro early q
    dsimp only
    rw [(apart early).1]
    by_cases qOwn : q = p
    · rw [qOwn, ownPoint]
      exact (apart early).2
    · rw [claims q qOwn]
      exact separate.apart early q
  · intro q r inum first second
    dsimp only at first second
    by_cases qOwn : q = p
    · by_cases rOwn : r = p
      · rw [qOwn, rOwn]
      · rw [qOwn, ownPoint] at first
        rw [claims r rOwn] at second
        exact absurd first (disk r rOwn inum second).2
    · rw [claims q qOwn] at first
      by_cases rOwn : r = p
      · rw [rOwn, ownPoint] at second
        exact absurd second (disk q qOwn inum first).2
      · rw [claims r rOwn] at second
        exact separate.distinct q r inum first second
  · refine (forall_update_iff _ fun _ => Fits dinodes icache state.dropping state.dropper).mpr
      ⟨own, fun q qOwn => ?_⟩
    apply (separate.fits q).frame
    · exact fun inum claim => (disk q qOwn inum claim).1
    · exact others q qOwn
    · exact uncached q qOwn
    · exact fun _ => rfl

/-- A step of `create` that changes at most the inode which is its own. -/
theorem Separate.act
    (others : ∀ ip, (state.creators p).entry ≠ some ip → icache ip = state.icache ip)
    (numbers : ∀ ip, (icache ip).inum = (state.icache ip).inum)
    (refs : ∀ ip, (icache ip).ref = (state.icache ip).ref)
    (disk : ∀ inum, (state.creators p).claim state.icache ≠ some inum →
      (dinodes inum).type = (state.dinodes inum).type)
    (claim : point.claim icache = (state.creators p).claim state.icache)
    (entry : ∀ ip, (state.creators p).entry = some ip → point.entry = some ip)
    (typed : Typed (icache state.dropping) state.dropper)
    (own : Fits dinodes icache state.dropping state.dropper point) :
    Separate { state with
      dinodes := dinodes
      icache := icache
      locks := locks
      creators := state.setPoint p point } := by
  have frame : ∀ q, q ≠ p → ∀ inum, (state.creators q).claim state.icache = some inum →
      (state.creators p).claim state.icache ≠ some inum :=
    fun q different inum theirs mine => different (separate.distinct q p inum theirs mine)
  apply separate.creates
  · intro q different ip their
    refine others ip fun mine => ?_
    exact frame q different _ (CreatePoint.claim_of_entry their) (CreatePoint.claim_of_entry mine)
  · intro q different inum their
    have notMine := frame q different inum their
    rw [claim]
    exact ⟨disk inum notMine, notMine⟩
  · intro q _ _ inum _ ip
    rw [refs, numbers]
    exact And.intro
  · intro ip jp
    rw [refs, refs, numbers, numbers]
    exact separate.unique ip jp
  · intro ip used
    rw [refs] at used
    rw [numbers]
    by_cases mine : (state.creators p).claim state.icache = some (state.icache ip).inum
    · rw [← claim] at mine
      exact Or.inl (own.disk mine)
    · rw [disk _ mine]
      exact separate.allocated ip used
  · exact entry
  · exact fun _ => Or.inl (refs _)
  · exact typed
  · intro early
    rw [claim]
    exact ⟨numbers _, separate.apart early p⟩
  · exact own

/-- `ialloc` finds a free inode and marks it as allocated. -/
theorem Separate.claim (scanning : state.creators p = .scanning request inum)
    (free : (state.dinodes inum).type = 0) :
    Separate { state with
      dinodes := update state.dinodes inum { Dinode.blank with type := request.type }
      creators := state.setPoint p (.claimed request inum) } := by
  have fits := separate.fits p
  rw [scanning] at fits
  have written : (update state.dinodes inum
      { Dinode.blank with type := request.type } inum).type = request.type := by
    rw [update_self]
  have rest : ∀ other, other ≠ inum → update state.dinodes inum
      { Dinode.blank with type := request.type } other = state.dinodes other :=
    fun other different => update_of_ne different ..
  generalize update state.dinodes inum { Dinode.blank with type := request.type } =
    dinodes at written rest ⊢
  -- An inode that is free on disk is nobody's.
  have unclaimed : ∀ q other, (state.creators q).claim state.icache = some other →
      other ≠ inum := by
    intro q other their same
    rw [same] at their
    exact (separate.fits q).disk their free
  apply separate.creates
  · exact fun _ _ _ _ => rfl
  · intro q _ other their
    have different := unclaimed q other their
    refine ⟨congrArg Dinode.type (rest other different), fun mine => ?_⟩
    exact different (Option.some.inj mine).symm
  · exact fun _ _ _ _ _ _ used isInum => ⟨used, isInum⟩
  · exact separate.unique
  · intro ip used
    by_cases same : (state.icache ip).inum = inum
    · rw [same, written]
      exact Or.inl fits
    · rw [rest _ same]
      exact separate.allocated ip used
  · rw [scanning]
    exact fun _ impossible => nomatch impossible
  · exact fun _ => Or.inl rfl
  · exact separate.typed
  · refine fun early => ⟨rfl, fun isDropping => ?_⟩
    cases isDropping
    exact (separate.unfreed early).2.1 free
  · refine ⟨fits, written, fun ip used isInum => ?_⟩
    cases separate.allocated ip used with
    | inl typed =>
      rw [isInum] at typed
      exact absurd free typed
    | inr freed => exact freed

/-- `iget` finds the inode in the cache, where it can only be the one that is being
dropped. -/
theorem Separate.find (claimed : state.creators p = .claimed request inum)
    (used : 0 < (state.icache ip).ref) (isInum : (state.icache ip).inum = inum) :
    Separate { state with
      icache := state.setInode ip { state.icache ip with ref := (state.icache ip).ref + 1 }
      creators := state.setPoint p (.got request ip) } := by
  have fits := separate.fits p
  rw [claimed] at fits
  rcases fits with ⟨typed, disk, cached⟩
  rcases cached ip used isInum with ⟨isDropping, freed⟩
  have mine : ∀ q, q ≠ p → (state.creators q).claim state.icache ≠ some inum :=
    fun q different their => different (separate.distinct q p inum their (by rw [claimed]; rfl))
  have own : state.setInode ip { state.icache ip with ref := (state.icache ip).ref + 1 } ip =
      { state.icache ip with ref := (state.icache ip).ref + 1 } := update_self ..
  have numbers : ∀ jp, (state.setInode ip
      { state.icache ip with ref := (state.icache ip).ref + 1 } jp).inum = (state.icache jp).inum :=
    State.forall_setInode (fun jp inode => inode.inum = (state.icache jp).inum) rfl fun _ _ => rfl
  have usedBefore : ∀ jp, 0 < (state.setInode ip
      { state.icache ip with ref := (state.icache ip).ref + 1 } jp).ref →
        0 < (state.icache jp).ref :=
    State.forall_setInode (fun jp inode => 0 < inode.ref → 0 < (state.icache jp).ref)
      (fun _ => used) fun _ _ => id
  have got : 0 < (state.setInode ip { state.icache ip with ref := (state.icache ip).ref + 1 }
      ip).ref := by
    rw [own]
    exact Nat.succ_pos _
  apply separate.creates
  · intro q different jp their
    refine update_of_ne (fun same => ?_) ..
    refine mine q different ?_
    rw [CreatePoint.claim_of_entry their, same, isInum]
  · intro q different other their
    refine ⟨rfl, fun isMine => ?_⟩
    rw [CreatePoint.claim, numbers, isInum, ← their] at isMine
    exact mine q different isMine.symm
  · intro q _ _ other _ jp usedNow isOther
    rw [numbers] at isOther
    exact ⟨usedBefore jp usedNow, isOther⟩
  · intro jp kp jpUsed kpUsed
    rw [numbers, numbers]
    exact separate.unique jp kp (usedBefore jp jpUsed) (usedBefore kp kpUsed)
  · intro jp usedNow
    rw [numbers]
    exact separate.allocated jp (usedBefore jp usedNow)
  · rw [claimed]
    exact fun _ impossible => nomatch impossible
  · rw [← isDropping]
    exact fun _ => Or.inr ⟨got, rfl⟩
  · rw [freed]
    trivial
  · rw [freed]
    exact fun early => absurd early id
  · refine ⟨⟨typed, got, ?_, ?_⟩, fun _ => ⟨isDropping, freed⟩⟩
    · rw [numbers, isInum]
      exact disk
    · rw [own]
      exact fun _ _ => Nat.lt_add_of_pos_left used

/-- `iget` recycles an entry. -/
theorem Separate.recycle (claimed : state.creators p = .claimed request inum)
    (missing : ∀ jp, 0 < (state.icache jp).ref → (state.icache jp).inum ≠ inum)
    (unused : (state.icache ip).ref = 0) :
    Separate { state with
      icache := state.setInode ip { state.icache ip with inum := inum, ref := 1, valid := false }
      creators := state.setPoint p (.got request ip) } := by
  have fits := separate.fits p
  rw [claimed] at fits
  rcases fits with ⟨typed, disk, _⟩
  have myClaim : (state.creators p).claim state.icache = some inum := by
    rw [claimed]
    rfl
  have own : state.setInode ip { state.icache ip with inum := inum, ref := 1, valid := false } ip =
      { state.icache ip with inum := inum, ref := 1, valid := false } := update_self ..
  have others : ∀ jp, jp ≠ ip → state.setInode ip
      { state.icache ip with inum := inum, ref := 1, valid := false } jp = state.icache jp :=
    fun jp different => update_of_ne different ..
  generalize state.setInode ip { state.icache ip with inum := inum, ref := 1, valid := false } =
    icache at own others ⊢
  have notUsed : ∀ jp, 0 < (state.icache jp).ref → jp ≠ ip := by
    intro jp used same
    rw [same, unused] at used
    exact absurd used (Nat.lt_irrefl 0)
  have notDropping := fun notDone => notUsed _ (separate.held notDone)
  apply separate.creates
  · exact fun q _ jp their => others jp (notUsed jp ((separate.fits q).used their))
  · intro q different other their
    refine ⟨rfl, fun mine => ?_⟩
    rw [CreatePoint.claim, own, Option.some.injEq] at mine
    rw [← mine] at their
    exact different (separate.distinct q p inum their myClaim)
  · intro q different _ other isClaimed jp usedNow isOther
    by_cases same : jp = ip
    · rw [same, own] at isOther
      have their : (state.creators q).claim state.icache = some inum := by
        rw [isClaimed, ← isOther]
        rfl
      exact absurd (separate.distinct q p inum their myClaim) different
    · rw [others jp same] at usedNow isOther
      exact ⟨usedNow, isOther⟩
  · have unique := separate.unique
    grind
  · have allocated := separate.allocated
    grind
  · rw [claimed]
    exact fun _ impossible => nomatch impossible
  · intro notDone
    rw [others _ (notDropping notDone)]
    exact Or.inl rfl
  · by_cases isDone : state.dropper = .done
    · rw [isDone]
      trivial
    · rw [others _ (notDropping isDone)]
      exact separate.typed
  · intro early
    rw [others _ (notDropping early.ne_done), CreatePoint.claim, own, ← myClaim]
    exact ⟨rfl, separate.apart early p⟩
  · refine ⟨⟨typed, ?_, ?_, ?_⟩, ?_⟩
    · rw [own]
      exact Nat.one_pos
    · rw [own]
      exact disk
    · intro same notDone
      exact absurd same.symm (notDropping notDone)
    · rw [own]
      exact nofun

/-- A step of `create` that changes no inode. -/
theorem Separate.move {before : CreatePoint} (isBefore : state.creators p = before)
    (claim : point.claim state.icache = before.claim state.icache)
    (entry : point.entry = before.entry)
    (own : Fits state.dinodes state.icache state.dropping state.dropper point) :
    Separate { state with locks := locks, creators := state.setPoint p point } := by
  apply separate.act
  · exact fun _ _ => rfl
  · exact fun _ => rfl
  · exact fun _ => rfl
  · exact fun _ _ => rfl
  · rw [isBefore]
    exact claim
  · rw [isBefore, entry]
    exact fun _ => id
  · exact separate.typed
  · exact own

/-- A step of `create` that changes its own inode, behind the last step of `iput` on that. -/
theorem Separate.rewrite (mine : (state.creators p).entry = some ip)
    (held : Held state.dinodes state.icache state.dropping state.dropper request ip)
    (isDone : ip = state.dropping → state.dropper = .done) {inode : Inode}
    (number : inode.inum = (state.icache ip).inum) (ref : inode.ref = (state.icache ip).ref)
    (type : inode.copy.type = request.type)
    (disk : ∀ inum, inum ≠ (state.icache ip).inum → dinodes inum = state.dinodes inum)
    (written : (dinodes (state.icache ip).inum).type = request.type)
    (there : point = .locked request ip ∨ point = .updated request ip) :
    Separate { state with
      dinodes := dinodes
      icache := state.setInode ip inode
      creators := state.setPoint p point } := by
  have self : state.setInode ip inode ip = inode := update_self ..
  have others : ∀ jp, jp ≠ ip → state.setInode ip inode jp = state.icache jp :=
    fun jp different => update_of_ne different ..
  have entry : point.entry = some ip := by
    rcases there with rfl | rfl
    · rfl
    · rfl
  apply separate.act
  · intro jp notMine
    apply others
    intro same
    rw [same] at notMine
    exact notMine mine
  · exact State.forall_setInode (fun jp inode => inode.inum = (state.icache jp).inum) number
      fun _ _ => rfl
  · exact State.forall_setInode (fun jp inode => inode.ref = (state.icache jp).ref) ref
      fun _ _ => rfl
  · intro inum notMine
    rw [disk]
    intro same
    rw [same] at notMine
    exact notMine (CreatePoint.claim_of_entry mine)
  · rw [CreatePoint.claim_of_entry entry, CreatePoint.claim_of_entry mine, self, number]
  · intro jp mineToo
    rw [entry, ← mine]
    exact mineToo
  · by_cases same : state.dropping = ip
    · rw [isDone same.symm]
      trivial
    · rw [others _ same]
      exact separate.typed
  · have own : Held dinodes (state.setInode ip inode) state.dropping state.dropper request ip ∧
        (ip = state.dropping → state.dropper = .done) ∧
        (state.setInode ip inode ip).copy.type = request.type := by
      rw [self]
      refine ⟨⟨held.typed, ?_, ?_, fun same notDone => absurd (isDone same) notDone⟩, isDone, type⟩
      · rw [self, ref]
        exact held.used
      · rw [self, number]
        exact written
    rcases there with rfl | rfl
    · exact own
    · exact own

/-- `ilock` reads the inode into its cache entry. -/
theorem Separate.read (reading : state.creators p = .reading request ip) :
    Separate { state with
      icache := state.setInode ip { state.icache ip with
        copy := state.dinodes (state.icache ip).inum
        valid := true }
      creators := state.setPoint p (.locked request ip) } := by
  have fits := separate.fits p
  rw [reading] at fits
  rcases fits with ⟨held, isDone⟩
  exact separate.rewrite (by rw [reading]; rfl) held isDone rfl rfl held.disk (fun _ _ => rfl)
    held.disk (Or.inl rfl)

/-- `create` fills in the inode and writes it to disk. -/
theorem Separate.fill (locked : state.creators p = .locked request ip) {copy : Dinode}
    (type : copy.type = (state.icache ip).copy.type) :
    Separate { state with
      icache := state.setInode ip { state.icache ip with copy := copy }
      dinodes := update state.dinodes (state.icache ip).inum copy
      creators := state.setPoint p (.updated request ip) } := by
  have fits := separate.fits p
  rw [locked] at fits
  rcases fits with ⟨held, isDone, isType⟩
  have written := type.trans isType
  refine separate.rewrite (by rw [locked]; rfl) held isDone rfl rfl written
    (fun inum different => update_of_ne different ..) ?_ (Or.inr rfl)
  rw [update_self]
  exact written

end

/-- No process in `ilock` looks at the flags of the inode while it is free on disk and
`iput` has not yet cleared them. -/
def Unhurried (state : State Process) : Action Process → Prop
  | .proceed p =>
      match state.creators p with
      | .acquired _ ip => ¬(ip = state.dropping ∧ state.dropper = .freed)
      | _ => True
  | _ => True

instance (state : State Process) (action : Action Process) :
    Decidable (Unhurried state action) := by
  unfold Unhurried
  split
  · split
    · infer_instance
    · infer_instance
  · infer_instance

theorem Separate.proceed (separate : Separate state) (unhurried : Unhurried state (.proceed p))
    (proceeded : state.proceed p = some next) : Separate next := by
  have fits := separate.fits p
  unfold State.proceed at proceeded
  dsimp only [Unhurried] at unhurried
  cases point : state.creators p with
  | idle =>
    rw [point] at proceeded
    cases proceeded
  | scanning request inum =>
    rw [point] at proceeded fits
    dsimp only at proceeded
    split at proceeded
    · split at proceeded
      · rename_i free
        cases proceeded
        exact separate.claim point free
      · cases proceeded
        exact separate.move point rfl rfl fits
    · cases proceeded
  | claimed request inum =>
    rw [point] at proceeded
    dsimp only at proceeded
    split at proceeded
    · rename_i icache ip got
      cases proceeded
      cases iget_cases got with
      | inl found =>
        rcases found with ⟨used, isInum, update⟩
        rw [update]
        exact separate.find point used isInum
      | inr recycled =>
        rcases recycled with ⟨missing, unused, update⟩
        rw [update]
        exact separate.recycle point missing unused
    · cases proceeded
  | got request ip =>
    rw [point] at proceeded fits
    dsimp only at proceeded
    split at proceeded
    · cases proceeded
      exact separate.move point rfl rfl fits
    · cases proceeded
  | acquired request ip =>
    rw [point] at proceeded fits unhurried
    dsimp only at proceeded
    split at proceeded
    · rename_i valid
      exact absurd (fits.2 valid) unhurried
    · cases proceeded
      refine separate.move point rfl rfl ⟨fits.1, fun same => ?_⟩
      -- Before it is free on disk the inode is not `create`'s.
      have notEarly : ¬state.dropper.Early := by
        intro early
        have claim := separate.apart early p
        rw [point, ← same] at claim
        exact claim rfl
      cases dropper : state.dropper with
      | done => rfl
      | freed => exact absurd ⟨same, dropper⟩ unhurried
      | start | truncating | flushing | truncated | untyped =>
        rw [dropper] at notEarly
        exact absurd trivial notEarly
  | reading request ip =>
    rw [point] at proceeded
    dsimp only at proceeded
    split at proceeded
    · cases proceeded
    · cases proceeded
      exact separate.read point
  | locked request ip =>
    rw [point] at proceeded
    cases proceeded
    exact separate.fill point rfl
  | updated request ip =>
    rw [point] at proceeded
    cases proceeded

theorem Separate.step {action : Action Process} (separate : Separate state)
    (unhurried : Unhurried state action) (stepped : step state action = some next) :
    Separate next := by
  cases action with
  | drop => exact separate.drop stepped
  | proceed p => exact separate.proceed unhurried stepped
  | create p request =>
    unfold Reuse.step at stepped
    dsimp only at stepped
    split at stepped
    · rename_i idle
      split at stepped
      · cases stepped
      · rename_i typed
        cases stepped
        exact separate.move idle rfl rfl typed
    · cases stepped

/-! ## Results -/

/-- `iput` is about to start, and no process is in `create`. The inodes in the cache are
allocated. -/
structure Ready (state : State Process) : Prop where
  starting : state.dropper = .start
  idle : ∀ p, state.creators p = .idle
  unique : ∀ ip jp, 0 < (state.icache ip).ref → 0 < (state.icache jp).ref →
    (state.icache ip).inum = (state.icache jp).inum → ip = jp
  allocated : ∀ ip, 0 < (state.icache ip).ref →
    (state.dinodes (state.icache ip).inum).type ≠ 0
  held : 0 < (state.icache state.dropping).ref
  typed : (state.icache state.dropping).valid = true →
    (state.icache state.dropping).copy.type ≠ 0

omit [DecidableEq Process] in
theorem Ready.separate (ready : Ready state) : Separate state where
  unique := ready.unique
  allocated := fun ip used => Or.inl (ready.allocated ip used)
  held := fun _ => ready.held
  last := fun notStart => absurd ready.starting notStart
  typed := by
    rw [ready.starting]
    exact ready.typed
  apart := by
    intro _ p claim
    rw [ready.idle p] at claim
    cases claim
  distinct := by
    intro p _ inum claim
    rw [ready.idle p] at claim
    cases claim
  fits := by
    intro p
    rw [ready.idle p]
    trivial

/-- The inode that `create` has locked is of the type that was asked for, in memory and, once
it has been written, on disk. -/
theorem created_inode_has_type (Process : Type) [DecidableEq Process] (start : State Process)
    (ready : Ready start) (state : State Process)
    (reachable : Reachable step Unhurried start state) (p : Process) (request : Request)
    (ip : Fin NINODE) :
    (state.creators p = .locked request ip → (state.icache ip).copy.type = request.type) ∧
    (state.creators p = .updated request ip → (state.icache ip).copy.type = request.type ∧
      (state.dinodes (state.icache ip).inum).type = request.type) := by
  have separate : Separate state := by
    apply reachable.invariant Separate
    · exact fun _ _ _ separate unhurried stepped => separate.step unhurried stepped
    · exact ready.separate
  have fits := separate.fits p
  constructor
  · intro locked
    rw [locked] at fits
    exact fits.2.2
  · intro updated
    rw [updated] at fits
    exact ⟨fits.2.2, fits.1.disk⟩

/-- Two inodes; the first is a file without links, and its last reference is being
dropped. -/
def unlinked : State Unit where
  ninodes := 2
  dinodes := fun inum => if inum = 1 then { Dinode.blank with type := 2 } else Dinode.blank
  icache := fun ip =>
    { inum := 1
      ref := if ip = 0 then 1 else 0
      valid := true
      copy := { Dinode.blank with type := 2 } }
  locks := fun _ => none
  dropping := 0
  dropper := .start
  creators := fun _ => .idle

theorem ready_unlinked : Ready unlinked where
  starting := rfl
  idle := fun _ => rfl
  unique := by
    intro ip jp ipUsed jpUsed _
    have first : ∀ ip, 0 < (unlinked.icache ip).ref → ip = 0 := by decide
    rw [first ip ipUsed, first jp jpUsed]
  allocated := by decide
  held := by decide
  typed := by decide

/-- A new file takes the inode after `iput` has finished. -/
def reuseLater : List (Action Unit) :=
  List.replicate 6 .drop ++ [.create () ⟨2, 0, 0⟩] ++ List.replicate 6 (.proceed ())

theorem created_inode_has_type_later :
    ∃ state, Reachable step Unhurried unlinked state ∧
      state.creators () = .updated ⟨2, 0, 0⟩ 0 ∧ (state.icache 0).copy.type = 2 ∧
      (state.dinodes (state.icache 0).inum).type = 2 := by
  rcases exists_reachable step Unhurried unlinked reuseLater
      (fun state => state.creators () = .updated ⟨2, 0, 0⟩ 0) (by decide +kernel) with
    ⟨state, reachable, updated⟩
  have holds := created_inode_has_type Unit unlinked ready_unlinked state reachable () ⟨2, 0, 0⟩ 0
  exact ⟨state, reachable, updated, holds.2 updated⟩

/-- The file takes the inode before `iput` has cleared the flags. -/
def reuseEarly : List (Action Unit) :=
  List.replicate 5 .drop ++ [.create () ⟨2, 0, 0⟩] ++ List.replicate 4 (.proceed ())

/-- `create` holds an inode of type 0 although it has asked for type 2, and it writes that
type to disk. -/
theorem reused_inode_keeps_old_type :
    (∃ state request, Ready unlinked ∧ Reachable step Unrestricted unlinked state ∧
      state.creators () = .locked request 0 ∧ request.type = 2 ∧
      (state.icache 0).copy.type = 0) ∧
    ∃ state request, Reachable step Unrestricted unlinked state ∧
      state.creators () = .updated request 0 ∧ request.type = 2 ∧
      (state.dinodes (state.icache 0).inum).type = 0 := by
  constructor
  · rcases exists_reachable step Unrestricted unlinked reuseEarly
        (fun state => state.creators () = .locked ⟨2, 0, 0⟩ 0 ∧ (state.icache 0).copy.type = 0)
        (by decide +kernel) with ⟨state, reachable, locked, untyped⟩
    exact ⟨state, _, ready_unlinked, reachable, locked, rfl, untyped⟩
  · rcases exists_reachable step Unrestricted unlinked (reuseEarly ++ [.proceed ()])
        (fun state => state.creators () = .updated ⟨2, 0, 0⟩ 0 ∧
          (state.dinodes (state.icache 0).inum).type = 0) (by decide +kernel) with
      ⟨state, reachable, updated, untyped⟩
    exact ⟨state, _, reachable, updated, rfl, untyped⟩

end Xv6.Fs.Reuse
