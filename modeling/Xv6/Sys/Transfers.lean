import Xv6.Sys.Descriptors

/-! # Reading and writing through descriptors

`read` delivers what the file holds at the offset, and `write` lays the buffer over
it, chunk by chunk, for as long as the chunks are accepted. No other inode that is in
use is changed. With this every call is accounted for.
-/

namespace Xv6.Sys

open Interaction
open Dir (Tables File Proc Node WRITEMAX)
open Fs (readBytes writeBytes overlay length_overlay getD_overlay WriteRefused T_DIR T_DEV ROOTINO)

variable {data src : List UInt8} {off : UInt32}

/-! ## Overlays -/

/-- Two overlays, one after the other, are one. -/
theorem overlay_overlay (data : List UInt8) (src : Nat → UInt8) (off n m : Nat) :
    overlay (overlay data src off n) (fun index => src (n + index)) (off + n) m =
      overlay data src off (n + m) := by
  have size : max (overlay data src off n).length (off + n + m) =
      max data.length (off + (n + m)) := by
    rw [length_overlay]
    omega
  conv_lhs => rw [overlay, size]
  conv_rhs => rw [overlay]
  apply List.map_congr_left
  intro position member
  rw [List.mem_range] at member
  by_cases early : position < off + n
  · rw [if_neg (by omega), getD_overlay data src (by omega)]
    by_cases inside : off ≤ position
    · rw [if_pos ⟨inside, early⟩, if_pos ⟨inside, by omega⟩]
    · rw [if_neg (by omega), if_neg (by omega)]
  · by_cases inside : position < off + n + m
    · rw [if_pos ⟨by omega, inside⟩, if_pos ⟨by omega, by omega⟩]
      congr 1
      omega
    · rw [if_neg (by omega), if_neg (by omega), getD_overlay data src (by omega),
        if_neg (by omega)]

/-- `result` is `data` with the first `count` bytes of `src` written over it from
`off` on. -/
structure Written (data src : List UInt8) (off count : Nat) (result : List UInt8) : Prop where
  within : count ≤ src.length
  bytes : count = 0 ∧ result = data ∨
    off ≤ data.length ∧ result = overlay data (fun index => src.getD index 0) off count

theorem Written.none (data src : List UInt8) (off : Nat) : Written data src off 0 data :=
  ⟨Nat.zero_le _, Or.inl ⟨rfl, rfl⟩⟩

theorem Written.chunk {middle result : List UInt8} {off limit count : Nat}
    (offset : off ≤ data.length)
    (first : middle = overlay data (fun index => (src.take limit).getD index 0) off
      (src.take limit).length)
    (rest : Written middle (src.drop limit) (off + (src.take limit).length) count result) :
    Written data src off ((src.take limit).length + count) result := by
  have within := rest.within
  rw [List.length_drop] at within
  refine ⟨by rw [List.length_take]; omega, Or.inr ⟨offset, ?_⟩⟩
  have start : middle = overlay data (fun index => src.getD index 0) off
      (src.take limit).length := by
    rw [first, overlay, overlay]
    apply List.map_congr_left
    intro position _
    split
    · rename_i inside
      rw [List.length_take] at inside
      simp only [List.getD_eq_getElem?_getD]
      rw [List.getElem?_take_of_lt (by omega)]
    · rfl
  rcases rest.bytes with ⟨rfl, rfl⟩ | ⟨_, bytes⟩
  · exact start
  · rw [bytes, start, ← overlay_overlay]
    by_cases short : src.length ≤ limit
    · have none : count = 0 := by omega
      simp only [none, overlay]
      apply List.map_congr_left
      intro position _
      rw [if_neg (by omega), if_neg (by omega)]
    · congr 1
      funext index
      rw [List.length_take, Nat.min_eq_left (by omega)]
      simp only [List.getD_eq_getElem?_getD, List.getElem?_drop]

/-! ## `read` and `fstat` -/

section

variable {reliable : Prop} {ninodes : Nat} {view after : View} {p f ip : Nat}

theorem ilock_only_obeys (holding : Holding reliable ninodes view []) (used : 0 < (view.node ip).ref) :
    Obeys (inodeUse reliable ninodes) (Dir.ilock ip) view fun _ after =>
      after = view.setNode ip { view.node ip with valid := true } ∧
        Holding reliable ninodes after [] ∧ Locked reliable after ip := by
  refine ⟨used, fun typed => ?_⟩
  have locked := (ilock_obeys holding used).2 typed
  exact ⟨rfl, locked.1, locked.2.2⟩

theorem Tables.lt_of_kind {tables : Tables} (kind : (tables.file f).kind = .inode) :
    f < tables.ftable.length := by
  by_contra outside
  rw [Tables.file, List.getD_eq_default _ _ (Nat.le_of_not_lt outside)] at kind
  cases kind

theorem Holding.setOffset (held : Holding reliable ninodes view [])
    (inside : f < view.tables.ftable.length) {file : File}
    (moved : file = { view.tables.file f with off := off }) (changed : Nat → Prop) :
    Holding reliable ninodes { view with tables := view.tables.setFile f file } [] ∧
      Preserves reliable changed view { view with tables := view.tables.setFile f file } ∧
      Fewer view.tables (view.tables.setFile f file) := by
  subst moved
  have change : view.tables.Change (fun ip => reliable → (view.node ip).type ≠ T_DIR)
      (view.tables.setFile f { view.tables.file f with off := off }) [] [] :=
    .touchFile held.idle inside rfl rfl rfl (held.idle (view.tables.file f) (Tables.file_mem inside))
  exact ⟨held.leaveTables change fun _ => Nat.le_refl _,
    .setTables change rfl fun _ => Nat.le_refl _, fun inum => Nat.le_of_eq (change.refs inum)⟩

/-- What `read` delivers through a file. Devices deliver what they like. -/
def ReadThrough (reliable : Prop) (view : View) (file : File) (n : UInt32)
    (outcome : Int × List UInt8) : Prop :=
  reliable → file.readable = true → file.kind = .inode → (view.node file.ip).type ≠ T_DEV →
    outcome = readBytes (view.node file.ip).data file.off.toNat n.toNat

section

variable (start : Holding reliable ninodes view []) (closed : view.trans = false)
include start closed

theorem fileread_obeys (f : Nat) (n : UInt32) :
    Obeys (use reliable ninodes) (fileread f n) view fun outcome after =>
      Completes reliable ninodes view outcome.1 after ∧
        ReadThrough reliable view (view.tables.file f) n outcome := by
  rw [fileread, obeys_bind, obeys_lift, obeys_tables, obeys_ite]
  refine ⟨fun unreadable => ?_, fun _ => ?_⟩
  · refine ⟨.refl start closed _, fun _ readable => ?_⟩
    rw [unreadable] at readable
    cases readable
  · cases kind : (view.tables.file f).kind with
    | none => exact trivial
    | inode =>
      have inside := Tables.lt_of_kind kind
      dsimp only
      rw [obeys_bind, obeys_lift]
      refine Obeys.imp (ilock_only_obeys start (start.used_of_file inside kind)) ?_
      rintro _ _ ⟨rfl, held, locked⟩
      rw [obeys_bind, obeys_lift]
      refine readi_obeys locked _ n fun answer known => ?_
      rcases answer with ⟨r, data⟩
      have first : Preserves reliable (fun _ => False) view (view.setNode (view.tables.file f).ip
          { view.node (view.tables.file f).ip with valid := true }) := .setNode rfl rfl rfl fun _ => rfl
      have delivered : ReadThrough reliable view (view.tables.file f) n (r, data) := by
        intro sure _ _ notDevice
        have bytes := known sure
        rw [View.setNode_self] at bytes
        exact bytes notDevice
      dsimp only
      rw [obeys_ite]
      refine ⟨fun _ => ?_, fun _ =>
        ⟨⟨.of_preserves held closed first, fun _ => .of_eq rfl⟩, delivered⟩⟩
      rw [obeys_bind, obeys_lift, obeys_setFile]
      have same : ∀ off : UInt32, ({ view.tables.file f with kind := .inode, off := off } : File) =
          { view.tables.file f with off := off } := fun off => by rw [← kind]
      have moved := held.setOffset inside
        (same ((view.tables.file f).off + UInt32.ofNat r.toNat)) fun _ => False
      exact ⟨⟨.of_preserves moved.1 closed (first.trans moved.2.1), fun _ => moved.2.2⟩, delivered⟩

theorem sysRead_obeys (p fd : Nat) (n : UInt32) :
    Obeys (use reliable ninodes) (sysRead p fd n) view fun outcome after =>
      Completes reliable ninodes view outcome.1 after ∧
        ∀ f, (view.tables.proc p).bind (Proc.file · fd) = some f →
          ReadThrough reliable view (view.tables.file f) n outcome := by
  rw [sysRead, obeys_bind, obeys_lift, obeys_tables]
  cases found : (view.tables.proc p).bind (Proc.file · fd) with
  | none => exact ⟨.refl start closed _, fun _ other => nomatch other⟩
  | some f =>
    refine Obeys.imp (fileread_obeys start closed f n) ?_
    rintro outcome after ⟨completes, delivered⟩
    refine ⟨completes, fun other same => ?_⟩
    cases same
    exact delivered

theorem sysFstat_obeys (p fd : Nat) :
    Obeys (use reliable ninodes) (sysFstat p fd) view (Completes reliable ninodes view) := by
  rw [sysFstat, obeys_bind, obeys_lift, obeys_tables]
  cases (view.tables.proc p).bind (Proc.file · fd) with
  | none => exact .refl start closed _
  | some f =>
    dsimp only
    rw [obeys_bind, filestat, obeys_bind, obeys_lift, obeys_tables]
    dsimp only
    cases kind : (view.tables.file f).kind with
    | none => exact .refl start closed _
    | inode =>
      dsimp only
      rw [obeys_bind, obeys_lift]
      refine Obeys.imp (ilock_only_obeys start
        (start.used_of_file (Tables.lt_of_kind kind) kind)) ?_
      rintro _ _ ⟨rfl, held, locked⟩
      rw [obeys_bind, obeys_lift]
      exact fields_obeys locked fun _ _ =>
        ⟨.of_preserves held closed (.setNode rfl rfl rfl fun _ => rfl), fun _ => .of_eq rfl⟩

end

/-! ## `write` -/

/-- What `write` leaves in a file: the part of the buffer that has been written, which
is all of it if the call says so. -/
def WriteThrough (reliable : Prop) (view after : View) (file : File) (src : List UInt8)
    (finished : Prop) : Prop :=
  reliable → (view.node file.ip).type ≠ T_DEV → ∃ count,
    Written (view.node file.ip).data src file.off.toNat count (after.node file.ip).data ∧
      (finished → count = src.length)

theorem writei_obeys (locked : Locked reliable view ip) (isOpen : view.trans = true)
    (src : List UInt8) (off : UInt32) :
    Obeys (inodeUse reliable ninodes) (Dir.writei ip src off) view fun result after =>
      ∃ data, (reliable → WriteOutcome (view.node ip) src off (result, data)) ∧
        after = { view.setNode ip { view.node ip with data := data } with wrote := true } :=
  ⟨locked.valid, isOpen, fun _ data known => ⟨data, known, rfl⟩⟩

/-- Writing to an inode that is not a directory. -/
theorem Holding.write (held : Holding reliable ninodes view []) (used : 0 < (view.node ip).ref)
    (notDir : reliable → (view.node ip).type ≠ T_DIR) (data : List UInt8) :
    Holding reliable ninodes { view.setNode ip { view.node ip with data := data } with
      wrote := true } [] := by
  have written : Holding reliable ninodes
      (view.setNode ip { view.node ip with data := data }) [] :=
    held.setNode (held.refs_setNode rfl fun _ _ => rfl) (fun _ => Or.inl used) (fun _ _ => rfl)
      (fun _ _ => Or.inr ⟨rfl, rfl⟩) (fun sure isDir => absurd isDir (notDir sure))
      fun sure => held.live sure ip
  exact written.congr rfl rfl rfl

theorem WriteOutcome.refused {node : Node} {result : Int}
    (outcome : WriteOutcome node src off (result, data)) (notDevice : node.type ≠ T_DEV)
    (negative : result < 0) : data = node.data := by
  rw [WriteOutcome, if_neg notDevice, writeBytes] at outcome
  split at outcome
  · exact (Prod.mk.inj outcome).2
  · have positive := (Prod.mk.inj outcome).1
    omega

theorem WriteOutcome.accepted {node : Node} {result : Int}
    (outcome : WriteOutcome node src off (result, data)) (notDevice : node.type ≠ T_DEV)
    (positive : 0 ≤ result) (short : src.length < 2 ^ 32) :
    off.toNat ≤ node.data.length ∧ off.toNat + src.length < 2 ^ 32 ∧
      data = overlay node.data (fun index => src.getD index 0) off.toNat src.length := by
  have size : (UInt32.ofNat src.length).toNat = src.length := by
    rw [UInt32.toNat_ofNat']
    exact Nat.mod_eq_of_lt short
  rw [WriteOutcome, if_neg notDevice, writeBytes, size] at outcome
  split at outcome
  · have negative := (Prod.mk.inj outcome).1
    omega
  · rename_i accepted
    simp only [WriteRefused, not_or] at accepted
    exact ⟨by omega, by omega, (Prod.mk.inj outcome).2⟩

/-- How the loop of `filewrite` ends, with `left` to be written through file `f`. -/
structure Wrote (reliable : Prop) (ninodes f : Nat) (left : List UInt8) (view : View)
    (finished : Bool) (after : View) : Prop where
  holding : Holding reliable ninodes after []
  trans : after.trans = false
  preserves : Preserves reliable (· = (view.tables.file f).ip) view after
  fewer : Fewer view.tables after.tables
  bytes : WriteThrough reliable view after (view.tables.file f) left (finished = true)

theorem Wrote.nothing {left : List UInt8} {finished : Bool} (held : Holding reliable ninodes after [])
    (closed : after.trans = false)
    (preserves : Preserves reliable (· = (view.tables.file f).ip) view after)
    (fewer : Fewer view.tables after.tables)
    (same : reliable → (view.node (view.tables.file f).ip).type ≠ T_DEV →
      (after.node (view.tables.file f).ip).data = (view.node (view.tables.file f).ip).data)
    (empty : finished = true → left = []) :
    Wrote reliable ninodes f left view finished after := by
  refine ⟨held, closed, preserves, fewer, fun sure notDevice => ⟨0, ?_, fun all => ?_⟩⟩
  · rw [same sure notDevice]
    exact .none _ _ _
  · rw [empty all]
    rfl

theorem Wrote.chunk {left : List UInt8} {finished : Bool} {moved : View}
    (preserves : Preserves reliable (· = (view.tables.file f).ip) view moved)
    (fewer : Fewer view.tables moved.tables)
    (used : 0 < view.tables.refs (view.tables.file f).ip)
    (file : moved.tables.file f = { view.tables.file f with
      off := (view.tables.file f).off + UInt32.ofNat (left.take WRITEMAX).length })
    (outcome : reliable → WriteOutcome (view.node (view.tables.file f).ip) (left.take WRITEMAX)
      (view.tables.file f).off ((left.take WRITEMAX).length,
        (moved.node (view.tables.file f).ip).data))
    (rest : Wrote reliable ninodes f (left.drop WRITEMAX) moved finished after) :
    Wrote reliable ninodes f left view finished after := by
  have sameIp : (moved.tables.file f).ip = (view.tables.file f).ip := by rw [file]
  have later := rest.preserves
  rw [sameIp] at later
  refine ⟨rest.holding, rest.trans, preserves.trans later,
    fun inum => (rest.fewer inum).trans (fewer inum), fun sure notDevice => ?_⟩
  have short : (left.take WRITEMAX).length < 2 ^ 32 := by
    have bound : (left.take WRITEMAX).length ≤ WRITEMAX := List.length_take_le ..
    exact Nat.lt_of_le_of_lt bound (by decide)
  have ⟨offset, room, written⟩ :=
    WriteOutcome.accepted (outcome sure) notDevice (Int.natCast_nonneg _) short
  have stillFile : (moved.node (moved.tables.file f).ip).type ≠ T_DEV := by
    rw [sameIp, preserves.type sure _ used]
    exact notDevice
  have next : ((view.tables.file f).off + UInt32.ofNat (left.take WRITEMAX).length).toNat =
      (view.tables.file f).off.toNat + (left.take WRITEMAX).length := by
    rw [UInt32.toNat_add, UInt32.toNat_ofNat', Nat.mod_eq_of_lt short]
    exact Nat.mod_eq_of_lt room
  obtain ⟨count, bytes, all⟩ := rest.bytes sure stillFile
  rw [file, next] at bytes
  refine ⟨_, .chunk offset written bytes, fun isFinished => ?_⟩
  rw [all isFinished, List.length_take, List.length_drop]
  omega

theorem filewriteLoop_obeys : ∀ (passes : Nat) (left : List UInt8) (view : View),
    Holding reliable ninodes view [] → view.trans = false → view.tables.Writes f →
    Obeys (use reliable ninodes) (filewriteLoop f passes left) view
      (Wrote reliable ninodes f left view) := by
  intro passes
  induction passes with
  | zero =>
    intro left view start closed _
    exact .nothing start closed (.refl view) (.of_eq rfl) (fun _ _ => rfl) of_decide_eq_true
  | succ passes induction =>
    intro left view start closed writes
    have used := start.used_of_file writes.inside writes.kind
    have notDir : reliable → (view.node (view.tables.file f).ip).type ≠ T_DIR := fun sure =>
      start.writable sure _ (Tables.file_mem writes.inside) writes.kind writes.writable
    rw [filewriteLoop, obeys_ite]
    refine ⟨fun empty => .nothing start closed (.refl view) (.of_eq rfl) (fun _ _ => rfl) fun _ =>
      empty, fun more => ?_⟩
    rw [obeys_bind, obeys_lift, obeys_tables, obeys_bind, obeys_beginOp]
    refine ⟨closed, ?_⟩
    rw [obeys_bind, obeys_lift]
    refine Obeys.imp (ilock_only_obeys start.opened used) ?_
    rintro _ _ ⟨rfl, held, ipLocked⟩
    let locked : View := view.opened.setNode (view.tables.file f).ip
      { view.node (view.tables.file f).ip with valid := true }
    have lockedNode : locked.node (view.tables.file f).ip =
        { view.node (view.tables.file f).ip with valid := true } := View.setNode_self ..
    rw [obeys_bind, obeys_lift]
    refine Obeys.imp (writei_obeys ipLocked rfl _ _) ?_
    rintro r _ ⟨data, known, rfl⟩
    rw [show locked.node (view.tables.file f).ip = _ from lockedNode] at known
    have writtenHeld := held.write (by rw [lockedNode]; exact used)
      (by rw [lockedNode]; exact notDir) data
    let written : View := { locked.setNode (view.tables.file f).ip
      { locked.node (view.tables.file f).ip with data := data } with wrote := true }
    have toLocked : Preserves reliable (· = (view.tables.file f).ip) view locked :=
      .setNode rfl rfl rfl fun _ => rfl
    have toWritten : Preserves reliable (· = (view.tables.file f).ip) view written :=
      toLocked.trans (.setNode rfl rfl rfl fun other => absurd rfl other)
    have writtenData : (written.node (view.tables.file f).ip).data = data := by
      change (Function.update locked.node _ _ _).data = data
      rw [Function.update_self]
    -- the end of the pass, after the offset has been moved or not
    have finish : ∀ (moved : View) (off : UInt32), Holding reliable ninodes moved [] →
        moved.trans = true →
        Preserves reliable (· = (view.tables.file f).ip) view moved →
        Fewer view.tables moved.tables →
        f < moved.tables.ftable.length →
        moved.tables.file f = { view.tables.file f with off := off } →
        (0 < r → off = (view.tables.file f).off + UInt32.ofNat r.toNat) →
        (moved.node (view.tables.file f).ip).data = data →
        Obeys (use reliable ninodes) (do
          endOp
          if r < 0 then return false
          else if r ≠ (left.take WRITEMAX).length then (Dir.panic .shortFilewrite : Dir.Prog Bool)
          else filewriteLoop f passes (left.drop WRITEMAX)) moved
          (Wrote reliable ninodes f left view) := by
      intro moved off movedHeld isOpen preserves fewer inside file offset movedData
      have closedHeld : Holding reliable ninodes { moved with trans := false } [] :=
        movedHeld.congr rfl rfl rfl
      have closedPreserves : Preserves reliable (· = (view.tables.file f).ip) view
          { moved with trans := false } := preserves.trans (.of_eq rfl fun _ => rfl)
      rw [obeys_bind, obeys_endOp, obeys_ite, obeys_ite]
      refine ⟨isOpen, fun negative => ?_, fun positive => ⟨fun _ => (obeys_lift _ _).mpr
        (obeys_panic _ _), fun full => ?_⟩⟩
      · refine .nothing closedHeld rfl closedPreserves fewer (fun sure notDevice => ?_)
          fun finished => nomatch finished
        exact movedData.trans (WriteOutcome.refused (known sure) notDevice negative)
      · have whole := not_not.mp full
        have some : 0 < (left.take WRITEMAX).length := by
          have nonempty := List.length_pos_of_ne_nil more
          rw [List.length_take]
          exact Nat.lt_min.mpr ⟨by decide, nonempty⟩
        refine Obeys.imp (induction _ _ closedHeld rfl ⟨inside, by rw [file]; exact writes.kind,
          by rw [file]; exact writes.writable⟩) fun finished after rest =>
          Wrote.chunk closedPreserves fewer (Tables.file_refs_pos writes.inside writes.kind) ?_
            (fun sure => ?_) rest
        · rw [file, offset (by omega), whole]
          rfl
        · rw [← whole]
          change WriteOutcome _ _ _ (r, (moved.node (view.tables.file f).ip).data)
          rw [movedData]
          exact known sure
    rw [obeys_ite]
    refine ⟨fun _ => ?_, fun none => ?_⟩
    · rw [obeys_bind, obeys_lift, obeys_setFile]
      have ⟨movedHeld, moves, fewer⟩ := @Holding.setOffset _ reliable ninodes written f writtenHeld
        writes.inside _ (rfl : _ = { view.tables.file f with
          off := (view.tables.file f).off + UInt32.ofNat r.toNat }) (· = (view.tables.file f).ip)
      exact finish _ _ movedHeld rfl (toWritten.trans moves) fewer
        (by rw [Tables.length_setFile]; exact writes.inside) (Tables.file_setFile writes.inside _)
        (fun _ => rfl) writtenData
    · exact finish written (view.tables.file f).off writtenHeld rfl toWritten (.of_eq rfl)
        writes.inside rfl (fun some => absurd some none) writtenData

/-- The inodes that `write` is meant to change. -/
def WritesTo (tables : Tables) (p fd inum : Nat) : Prop :=
  ∃ f, (tables.proc p).bind (Proc.file · fd) = some f ∧
    (tables.file f).writable = true ∧ (tables.file f).ip = inum

theorem sysWrite_obeys (start : Holding reliable ninodes view []) (closed : view.trans = false)
    (p fd : Nat) (buffer : List UInt8) :
    Obeys (use reliable ninodes) (sysWrite p fd buffer) view fun result after =>
      Ends reliable ninodes (WritesTo view.tables p fd) view after ∧
      (∀ f, (view.tables.proc p).bind (Proc.file · fd) = some f →
        (view.tables.file f).writable = true → (view.tables.file f).kind = .inode →
        WriteThrough reliable view after (view.tables.file f) buffer (0 ≤ result) ∧
          0 < after.tables.refs (view.tables.file f).ip) ∧
      Fewer view.tables after.tables := by
  rw [sysWrite, obeys_bind, obeys_lift, obeys_tables]
  cases found : (view.tables.proc p).bind (Proc.file · fd) with
  | none =>
    refine ⟨.of_preserves start closed (.refl view), fun _ other => ?_, .of_eq rfl⟩
    cases other
  | some f =>
    dsimp only
    rw [filewrite, obeys_bind, obeys_lift, obeys_tables, obeys_ite]
    refine ⟨fun unwritable => ⟨.of_preserves start closed (.refl view), fun other same => ?_,
      .of_eq rfl⟩, fun isWritable => ?_⟩
    · cases same
      rw [unwritable]
      exact fun writable => nomatch writable
    · have writable := (Bool.not_eq_false _).mp isWritable
      cases kind : (view.tables.file f).kind with
      | none => exact (obeys_lift _ _).mpr (obeys_panic _ _)
      | inode =>
        dsimp only
        rw [obeys_bind]
        refine Obeys.imp (filewriteLoop_obeys _ buffer view start closed
          ⟨Tables.lt_of_kind kind, kind, writable⟩) ?_
        intro finished after wrote
        refine ⟨.of_preserves wrote.holding wrote.trans ⟨wrote.preserves.refs,
          wrote.preserves.type, fun sure inum used notDir unchanged =>
            wrote.preserves.data sure inum used notDir fun same =>
              unchanged ⟨f, found, writable, same.symm⟩⟩, fun other same _ _ => ?_, wrote.fewer⟩
        cases same
        have used := Tables.file_refs_pos (Tables.lt_of_kind kind) kind
        refine ⟨fun sure notDevice => ?_, wrote.preserves.refs _ used⟩
        obtain ⟨count, bytes, all⟩ := wrote.bytes sure notDevice
        refine ⟨count, bytes, fun positive => all ?_⟩
        cases finished with
        | true => rfl
        | false => simp at positive

/-! ## All calls -/

/-- The inodes that a call is meant to write. -/
def Call.Changes (p : Nat) (tables : Tables) : Call → Nat → Prop
  | .write fd _ => WritesTo tables p fd
  | _ => fun _ => False

/-- What a call transfers between the user and the file that a descriptor stands for. -/
def Call.Transfers (reliable : Prop) (p : Nat) (view after : View) (outcome : Outcome) :
    Call → Prop
  | .read fd n => ∀ f, (view.tables.proc p).bind (Proc.file · fd) = some f →
      ReadThrough reliable view (view.tables.file f) n outcome
  | .write fd buffer => ∀ f, (view.tables.proc p).bind (Proc.file · fd) = some f →
      (view.tables.file f).writable = true → (view.tables.file f).kind = .inode →
      WriteThrough reliable view after (view.tables.file f) buffer (0 ≤ outcome.1) ∧
        0 < after.tables.refs (view.tables.file f).ip
  | _ => True

/-- Whatever a process calls for, it keeps to the rules, and ends as it should. If it
fails it has taken no references. -/
theorem program_obeys {proc : Proc} (start : Holding reliable ninodes view [])
    (closed : view.trans = false) (root : reliable → ROOTINO < ninodes)
    (found : view.tables.proc p = some proc) (call : Call) :
    Obeys (use reliable ninodes) (call.program p) view fun outcome after =>
      Ends reliable ninodes (call.Changes p view.tables) view after ∧
        call.Transfers reliable p view after outcome ∧
        (outcome.1 < 0 → Fewer view.tables after.tables) := by
  have plain : ∀ {program : Prog Int},
      Obeys (use reliable ninodes) program view (Completes reliable ninodes view) →
      Obeys (use reliable ninodes) ((·, []) <$> program) view fun (outcome : Outcome) after =>
        Ends reliable ninodes (fun _ => False) view after ∧ True ∧
          (outcome.1 < 0 → Fewer view.tables after.tables) := by
    intro program obeys
    rw [obeys_map]
    exact obeys.imp fun _ _ done => ⟨done.ends, trivial, done.fewer⟩
  cases call with
  | read fd n =>
    exact (sysRead_obeys start closed p fd n).imp fun _ _ done =>
      ⟨done.1.ends, done.2, done.1.fewer⟩
  | write fd buffer =>
    rw [Call.program, obeys_map]
    exact (sysWrite_obeys start closed p fd buffer).imp fun _ _ done =>
      ⟨done.1, done.2.1, fun _ => done.2.2⟩
  | link paths => exact plain (sysLink_obeys start closed root found paths)
  | unlink path => exact plain (sysUnlink_obeys start closed root found path)
  | «open» args => exact plain (sysOpen_obeys start closed root found args)
  | mkdir path => exact plain (sysMkdir_obeys start closed root found path)
  | mknod args => exact plain (sysMknod_obeys start closed root found args)
  | chdir path => exact plain (sysChdir_obeys start closed root found path)
  | dup fd => exact plain ((obeys_within _ _).mpr (sysDup_obeys start closed p fd))
  | fstat fd => exact plain (sysFstat_obeys start closed p fd)
  | close fd => exact plain (sysClose_obeys start closed p fd)
  | exec path memory => exact plain (sysExec_obeys start closed root found path memory)
  | fork child => exact plain ((obeys_within _ _).mpr (fork_obeys start closed p child))
  | exit => exact plain (exit_obeys start closed p)

end

end Xv6.Sys
