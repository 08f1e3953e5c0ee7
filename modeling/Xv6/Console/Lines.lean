import Xv6.Console.Machine

/-! # Lines of input

What the console is for: a line can be edited until it is committed, and the readers get
the committed bytes in order.
-/

namespace Xv6.Console

open Transition State Function

/-- The committed bytes that were read, those that were not, and the line being edited. -/
structure Lines where
  consumed : List UInt8
  unread : List UInt8
  line : List UInt8

namespace Lines

def Full (lines : Lines) : Prop := INPUT_BUF ≤ (lines.unread ++ lines.line).length

instance (lines : Lines) : Decidable lines.Full := inferInstanceAs (Decidable (_ ≤ _))

def commit (lines : Lines) : Lines := ⟨lines.consumed, lines.unread ++ lines.line, []⟩

def intr (lines : Lines) (c : UInt8) : Lines :=
  if c = C 'P' then lines
  else if c = C 'U' then { lines with line := [] }
  else if c = C 'H' ∨ c = DELETE then { lines with line := lines.line.dropLast }
  else if c = 0 ∨ lines.Full then lines
  else
    let c := if c = RETURN then NEWLINE else c
    let lines := { lines with line := lines.line ++ [c] }
    if c = NEWLINE ∨ c = C 'D' ∨ lines.Full then lines.commit else lines

/-- A reader takes the next byte. An end of file is left to the next reader if there were
bytes before it. -/
def pass (lines : Lines) (read : Read) : Option (Pass Lines) :=
  if read.n = 0 then some ⟨lines, none, read, some .count⟩
  else
    match lines.unread with
    | [] => none
    | c :: rest =>
        let after := ⟨lines.consumed ++ [c], rest, lines.line⟩
        if c = C 'D' then
          if read.dst = [] then some ⟨after, some c, read, some .eof⟩
          else some ⟨lines, none, read, some .eof⟩
        else
          some ⟨after, some c, { read with dst := read.dst ++ [c], n := read.n - 1 },
            if c = NEWLINE then some .newline else none⟩

def driver : Driver Lines := ⟨intr, pass⟩

def boot : Lines := ⟨[], [], []⟩

end Lines

/-! ## The ring holds the lines -/

structure Represents (input : Input) (lines : Lines) : Prop where
  ring : input.ring.Holds (lines.unread ++ lines.line)
  committed : input.w = input.r + UInt32.ofNat lines.unread.length
  line : NEWLINE ∉ lines.line

section

variable {input : Input} {lines : Lines} {c : UInt8} {read : Read}

namespace Represents

section

variable (represents : Represents input lines)
include represents

theorem unreadRing :
    Ring.Holds ⟨input.buf, input.r, input.w⟩ lines.unread := by
  rw [represents.committed]
  exact represents.ring.split.1

theorem lineRing :
    Ring.Holds ⟨input.buf, input.w, input.e⟩ lines.line := by
  rw [represents.committed]
  exact represents.ring.split.2

theorem unpush {line : List UInt8} (isLine : lines.line = line ++ [c]) :
    Represents { input with e := input.e - 1 } { lines with line := line } where
  ring := by
    have ring := represents.ring
    rw [isLine, ← List.append_assoc] at ring
    exact ring.unpush
  committed := represents.committed
  line := fun member => represents.line (by rw [isLine]; exact List.mem_append_left _ member)

theorem killLine :
    Represents (input.killLine lines.line.length) { lines with line := [] } := by
  rcases lines with ⟨consumed, unread, line⟩
  induction line using List.reverseRecOn generalizing input with
  | nil => exact represents
  | append_singleton line c induction =>
    have different : input.e ≠ input.w := by
      intro same
      have none := (represents.lineRing.empty_iff (by decide)).mp same.symm
      exact List.append_ne_nil_of_right_ne_nil line (List.cons_ne_nil c []) none
    have last : input.buf (Ring.slot INPUT_BUF (input.e - 1)) ≠ NEWLINE := by
      rw [show input.buf (Ring.slot INPUT_BUF (input.e - 1)) = c from represents.lineRing.last]
      rintro rfl
      exact represents.line (List.mem_append_right line List.mem_cons_self)
    rw [List.length_append, List.length_singleton, Input.killLine, if_pos ⟨different, last⟩]
    exact induction (represents.unpush rfl)

theorem backspace :
    Represents (if input.e ≠ input.w then { input with e := input.e - 1 } else input)
      { lines with line := lines.line.dropLast } := by
  have empty := represents.lineRing.empty_iff (by decide)
  split
  · rename_i different
    have some_ : lines.line ≠ [] := fun none => different (empty.mpr none).symm
    exact represents.unpush (List.dropLast_append_getLast some_).symm
  · rename_i same
    have none : lines.line = [] := empty.mp (not_not.mp same).symm
    rw [none]
    exact ⟨by simpa [none] using represents.ring, represents.committed, List.not_mem_nil⟩

theorem put :
    Represents (input.put c) (
      if c = 0 ∨ lines.Full then lines
      else
        let c := if c = RETURN then NEWLINE else c
        let lines := { lines with line := lines.line ++ [c] }
        if c = NEWLINE ∨ c = C 'D' ∨ lines.Full then lines.commit else lines) := by
  have space : input.e - input.r < 128 ↔ ¬lines.Full := by
    rw [UInt32.lt_iff_toNat_lt,
      show (input.e - input.r).toNat = _ from represents.ring.toNat_sub (by decide)]
    exact Nat.not_le.symm
  rw [Input.put]
  by_cases dropped : c = 0 ∨ lines.Full
  · rw [if_pos dropped, if_neg (by rw [space]; tauto)]
    exact represents
  · rw [if_neg dropped, if_pos (by rw [space]; tauto)]
    generalize (if c = RETURN then NEWLINE else c) = c
    dsimp only
    have pushed : (input.ring.push c).Holds ((lines.unread ++ lines.line) ++ [c]) :=
      represents.ring.push (by decide) (Nat.not_le.mp fun full => dropped (Or.inr full))
    rw [List.append_assoc] at pushed
    have full : input.e + 1 = input.r + 128 ↔
        ({ lines with line := lines.line ++ [c] } : Lines).Full := by
      refine (pushed.full_iff (by decide)).trans ?_
      have bound := pushed.bound
      exact ⟨fun same => same.ge, fun large => Nat.le_antisymm bound large⟩
    simp only [full]
    split
    · refine ⟨?_, pushed.count, List.not_mem_nil⟩
      rw [Lines.commit, List.append_nil]
      exact pushed
    · rename_i open_
      refine ⟨pushed, represents.committed, fun member => ?_⟩
      rcases List.mem_append.mp member with before | new
      · exact represents.line before
      · exact open_ (Or.inl (List.mem_singleton.mp new).symm)

theorem consoleintr (c : UInt8) :
    Represents (input.consoleintr c) (lines.intr c) := by
  rw [Input.consoleintr, Lines.intr]
  split
  · exact represents
  · split
    · rw [show (input.e - input.w).toNat = _ from represents.lineRing.toNat_sub (by decide)]
      exact represents.killLine
    · split
      · exact represents.backspace
      · exact represents.put

end

end Represents

/-- The two passes have the same outcome. -/
structure SamePass (pass : Pass Input) (spec : Pass Lines) : Prop where
  source : Represents pass.source spec.source
  taken : pass.taken = spec.taken
  read : pass.read = spec.read
  stop : pass.stop = spec.stop

theorem Represents.pass (represents : Represents input lines)
    (counted : read.dst.length + read.n = read.target) {pass : Pass Input}
    (passed : input.pass read = some pass) :
    ∃ spec, lines.pass read = some spec ∧ SamePass pass spec := by
  rw [Input.pass] at passed
  rw [Lines.pass]
  split at passed
  · rename_i zero
    cases passed
    exact ⟨_, if_pos zero, represents, rfl, rfl, rfl⟩
  · rename_i positive
    rw [if_neg positive]
    have empty := represents.unreadRing.empty_iff (by decide)
    split at passed
    · cases passed
    · rename_i different
      rcases lines with ⟨consumed, _ | ⟨byte, rest⟩, line⟩
      · exact absurd (empty.mpr rfl) different
      · have front : input.buf (Ring.slot INPUT_BUF input.r) = byte := represents.ring.front
        have after : Represents { input with r := input.r + 1 } ⟨consumed ++ [byte], rest, line⟩ :=
          ⟨represents.ring.pop, represents.unreadRing.pop.count, represents.line⟩
        have begun : read.dst = [] ↔ ¬read.n < read.target := by
          rw [← List.length_eq_zero_iff]
          omega
        dsimp only at passed ⊢
        rw [front] at passed
        split at passed
        · rename_i isEof
          rw [if_pos isEof]
          split at passed
          · rename_i later
            cases passed
            rw [if_neg (by rw [begun]; exact not_not.mpr later)]
            refine ⟨_, rfl, ?_, rfl, rfl, rfl⟩
            dsimp only
            rw [UInt32.add_sub_cancel]
            exact represents
          · rename_i first
            cases passed
            rw [if_pos (begun.mpr first)]
            exact ⟨_, rfl, after, rfl, rfl, rfl⟩
        · rename_i ordinary
          cases passed
          rw [if_neg ordinary]
          exact ⟨_, rfl, after, rfl, rfl, rfl⟩

end

/-! ## What the readers get -/

/-- Bytes with which a read goes on. -/
def Plain (bytes : List UInt8) : Prop := ∀ c ∈ bytes, c ≠ NEWLINE ∧ c ≠ C 'D'

/-- A read that has stopped where it should: after a newline, after `n` bytes, or at an end of
file. -/
def Proper (read : Read) : Stop → Prop
  | .newline => read.dst.length ≤ read.target ∧ ∃ line, Plain line ∧ read.dst = line ++ [NEWLINE]
  | .count => read.dst.length = read.target ∧ Plain read.dst
  | .eof => read.dst.length < read.target ∧ Plain read.dst

/-- The bytes of the input that a read has used up. An end of file is among them only if it
came first. -/
def used (read : Read) : Stop → List UInt8
  | .eof => if read.dst = [] then [C 'D'] else read.dst
  | _ => read.dst

section

variable {Process : Type} [DecidableEq Process]

/-- The bytes that a process has taken from the input. -/
def State.takenBy {Source : Type} (state : State Source Process) (p : Process) : List UInt8 :=
  (state.log.filter fun entry => entry.1 = p).map Prod.snd

/-- The bytes that the reads of a process have used up, in order. -/
def State.usedBy {Source : Type} (state : State Source Process) (p : Process) : List UInt8 :=
  ((state.returned.filter fun entry => entry.1 = p).flatMap fun entry =>
    used entry.2.1 entry.2.2) ++ (state.active p).elim [] Read.dst

/-- A read that goes on. -/
structure Continues (read : Read) : Prop where
  counted : read.dst.length + read.n = read.target
  plain : Plain read.dst

structure Orderly (state : State Lines Process) : Prop where
  active : ∀ p read, state.active p = some read → Continues read
  log : state.log.map Prod.snd = state.source.consumed
  own : ∀ p, state.takenBy p = state.usedBy p
  proper : ∀ entry ∈ state.returned, Proper entry.2.1 entry.2.2

/-- What a pass of a read does. -/
structure Passes (lines : Lines) (read : Read) (pass : Pass Lines) : Prop where
  consumed : pass.source.consumed = lines.consumed ++ pass.taken.toList
  continues : pass.stop = none → Continues pass.read
  proper : ∀ stop, pass.stop = some stop → Proper pass.read stop
  used : read.dst ++ pass.taken.toList =
    pass.stop.elim pass.read.dst fun stop => used pass.read stop

theorem Plain.snoc {bytes : List UInt8} {c : UInt8} (plain : Plain bytes) (notNewline : c ≠ NEWLINE)
    (notEof : c ≠ C 'D') : Plain (bytes ++ [c]) := by
  intro byte member
  rcases List.mem_append.mp member with before | last
  · exact plain byte before
  · rw [List.mem_singleton.mp last]
    exact ⟨notNewline, notEof⟩

theorem Continues.pass {lines : Lines} {read : Read} {pass : Pass Lines}
    (continues : Continues read) (passed : lines.pass read = some pass) :
    Passes lines read pass := by
  rcases continues with ⟨counted, plain⟩
  rw [Lines.pass] at passed
  split at passed
  · have reached : read.dst.length = read.target := by omega
    cases passed
    exact ⟨(List.append_nil _).symm, nofun, fun stop stops => by cases stops; exact ⟨reached, plain⟩,
      List.append_nil _⟩
  · have short : read.dst.length < read.target := by omega
    have longer : ∀ c, (read.dst ++ [c]).length + (read.n - 1) = read.target := by
      intro c
      rw [List.length_append, List.length_singleton]
      omega
    split at passed
    · cases passed
    · rename_i c rest _
      dsimp only at passed
      split at passed
      · rename_i isEof
        split at passed
        · rename_i first
          cases passed
          refine ⟨rfl, nofun, fun stop stops => by cases stops; exact ⟨short, plain⟩, ?_⟩
          rw [first, isEof]
          exact (if_pos first).symm
        · rename_i later
          cases passed
          exact ⟨(List.append_nil _).symm, nofun,
            fun stop stops => by cases stops; exact ⟨short, plain⟩,
            (List.append_nil _).trans (if_neg later).symm⟩
      · rename_i notEof
        cases passed
        by_cases isNewline : c = NEWLINE
        · subst isNewline
          refine ⟨rfl, nofun, fun stop stops => ?_, rfl⟩
          cases stops
          exact ⟨Nat.le_of_add_right_le (longer NEWLINE).le, read.dst, plain, rfl⟩
        · rw [if_neg isNewline]
          exact ⟨rfl, fun _ => ⟨longer c, plain.snoc isNewline notEof⟩, nofun, rfl⟩

section

variable {state : State Lines Process} {p q : Process} {read : Read} {pass : Pass Lines}

theorem State.takenBy_finish_self :
    (state.finish p pass).takenBy p = state.takenBy p ++ pass.taken.toList := by
  simp [takenBy, finish, List.filter_map, comp_def]

theorem State.takenBy_finish_of_ne (different : q ≠ p) :
    (state.finish p pass).takenBy q = state.takenBy q := by
  simp [takenBy, finish, List.filter_map, comp_def, different.symm]

theorem State.usedBy_finish_self (reads : state.active p = some read)
    (same : read.dst ++ pass.taken.toList =
      pass.stop.elim pass.read.dst fun stop => used pass.read stop) :
    (state.finish p pass).usedBy p = state.usedBy p ++ pass.taken.toList := by
  simp only [usedBy, reads, Option.elim_some, List.append_assoc, same]
  cases stop : pass.stop <;>
    simp [finish, stop]

theorem State.usedBy_finish_of_ne (different : q ≠ p) :
    (state.finish p pass).usedBy q = state.usedBy q := by
  simp [usedBy, finish, List.filter_map, comp_def, different, different.symm]

theorem Orderly.finish (orderly : Orderly state) (reads : state.active p = some read)
    (passes : Passes state.source read pass) : Orderly (state.finish p pass) where
  active := by
    intro q other goes
    by_cases same : q = p
    · subst same
      simp only [finish, update_self] at goes
      split at goes
      · cases goes
      · rename_i continues
        cases goes
        exact passes.continues (Option.not_isSome_iff_eq_none.mp continues)
    · simp only [State.finish, update_of_ne same] at goes
      exact orderly.active q other goes
  log := by
    simp [State.finish, orderly.log, passes.consumed, comp_def]
  own := by
    intro q
    by_cases same : q = p
    · subst same
      rw [takenBy_finish_self, usedBy_finish_self reads passes.used, orderly.own]
    · rw [takenBy_finish_of_ne same, usedBy_finish_of_ne same, orderly.own]
  proper := by
    intro entry member
    rcases List.mem_append.mp member with before | new
    · exact orderly.proper entry before
    · rcases List.mem_map.mp new with ⟨stop, stops, rfl⟩
      exact passes.proper stop (Option.mem_toList.mp stops)

theorem Orderly.boot : Orderly (boot Lines.boot : State Lines Process) :=
  ⟨nofun, rfl, fun _ => rfl, nofun⟩

end

/-! ## The console keeps lines -/

theorem Lines.intr_consumed (lines : Lines) (c : UInt8) :
    (lines.intr c).consumed = lines.consumed := by
  simp only [Lines.intr, Lines.commit]
  split_ifs <;> rfl

theorem Lines.unread_isPrefix_intr (lines : Lines) (c : UInt8) :
    lines.unread <+: (lines.intr c).unread := by
  simp only [Lines.intr, Lines.commit]
  split_ifs <;> simp

theorem Orderly.start {state : State Lines Process} {p : Process} (orderly : Orderly state)
    (idle : state.active p = none) (n : Nat) :
    Orderly { state with active := update state.active p (some ⟨n, n, []⟩) } where
  active := by
    intro q read goes
    by_cases same : q = p
    · subst same
      simp only [update_self, Option.some.injEq] at goes
      rw [← goes]
      exact ⟨Nat.zero_add n, nofun⟩
    · simp only [update_of_ne same] at goes
      exact orderly.active q read goes
  log := orderly.log
  own := by
    intro q
    by_cases same : q = p
    · subst same
      have own := orderly.own q
      simp only [usedBy, idle] at own
      simp only [usedBy, update_self]
      exact own
    · simp only [usedBy, update_of_ne same]
      exact orderly.own q
  proper := orderly.proper

structure Simulates (state : State Input Process) (spec : State Lines Process) : Prop where
  source : Represents state.source spec.source
  active : state.active = spec.active
  returned : state.returned = spec.returned
  log : state.log = spec.log
  orderly : Orderly spec

theorem Simulates.step {state next : State Input Process} {spec : State Lines Process}
    {action : Action Process} (simulates : Simulates state spec)
    (stepped : step Input.driver state action = some next) :
    ∃ after, step Lines.driver spec action = some after ∧ Simulates next after := by
  rcases simulates with ⟨source, active, returned, log, orderly⟩
  cases action with
  | intr c =>
    cases stepped
    exact ⟨_, rfl, source.consoleintr c, active, returned, log, orderly.active,
      orderly.log.trans (spec.source.intr_consumed c).symm, orderly.own, orderly.proper⟩
  | consoleread p n =>
    rw [Console.step, active] at stepped
    rw [Console.step]
    cases idle : spec.active p with
    | some read =>
      rw [idle] at stepped
      cases stepped
    | none =>
      rw [idle] at stepped
      cases stepped
      exact ⟨_, rfl, source, rfl, returned, log, orderly.start idle n.toNat⟩
  | pass p =>
    rw [Console.step, active] at stepped
    rw [Console.step]
    cases reads : spec.active p with
    | none =>
      rw [reads] at stepped
      cases stepped
    | some read =>
      rw [reads] at stepped
      rcases Option.map_eq_some_iff.mp stepped with ⟨pass, passed, rfl⟩
      have continues := orderly.active p read reads
      rcases source.pass continues.counted passed with ⟨specPass, specPassed, same⟩
      refine ⟨spec.finish p specPass, ?_, same.source, ?_, ?_, ?_,
        orderly.finish reads (continues.pass specPassed)⟩
      · exact congrArg (Option.map _) specPassed
      · simp only [finish, same.stop, same.read, active]
      · simp only [finish, same.stop, same.read, returned]
      · simp only [finish, same.taken, log]

theorem Input.killLine_r (passes : Nat) (input : Input) : (killLine passes input).r = input.r := by
  induction passes generalizing input with
  | zero => rfl
  | succ passes induction =>
    rw [Input.killLine]
    split
    · exact induction _
    · rfl

theorem Input.consoleintr_r (input : Input) (c : UInt8) : (input.consoleintr c).r = input.r := by
  simp only [Input.consoleintr, Input.put]
  split_ifs <;> first | rfl | exact Input.killLine_r _ _

/-- Committed bytes are not edited as long as they are unread. -/
theorem Represents.intr_buf {input : Input} {lines : Lines} (represents : Represents input lines)
    (c : UInt8) {i : Nat} (unread : i < (input.w - input.r).toNat) :
    (input.consoleintr c).buf (Ring.slot INPUT_BUF (input.r + UInt32.ofNat i)) =
      input.buf (Ring.slot INPUT_BUF (input.r + UInt32.ofNat i)) := by
  have later := (represents.consoleintr c).unreadRing
  have longer := lines.unread_isPrefix_intr c
  rw [show (input.w - input.r).toNat = _ from represents.unreadRing.toNat_sub (by decide)] at unread
  have word := later.word i (unread.trans_le longer.length_le)
  rw [input.consoleintr_r] at word
  exact word.trans ((longer.getElem unread).symm.trans (represents.unreadRing.word i unread).symm)

theorem Input.pass_buf {input : Input} {read : Read} {pass : Pass Input}
    (passed : input.pass read = some pass) : pass.source.buf = input.buf := by
  simp only [Input.pass] at passed
  split_ifs at passed <;> cases passed <;> rfl

/-- The console is a line discipline. Whatever is typed and read, in any order: the indices
stay in order and at most a buffer apart, although they wrap; the committed bytes that are
unread stay as they are; and the readers, with what they have taken from the input and what
they have returned, are as if the input were kept as lines. The committed bytes have been
taken one after the other, up to those that are unread, each by one read; and every read has
stopped where it should. -/
theorem console_keeps_lines (actions : List (Action Process)) {state : State Input Process}
    (ran : run (step Input.driver) Unrestricted (.boot .boot) actions = some state) :
    (state.source.w - state.source.r).toNat ≤ (state.source.e - state.source.r).toNat ∧
    (state.source.e - state.source.r).toNat ≤ INPUT_BUF ∧
    (∀ action next, step Input.driver state action = some next →
      ∀ i < (state.source.w - state.source.r).toNat,
        next.source.buf (Ring.slot INPUT_BUF (state.source.r + UInt32.ofNat i)) =
          state.source.buf (Ring.slot INPUT_BUF (state.source.r + UInt32.ofNat i))) ∧
    ∃ spec : State Lines Process,
      run (step Lines.driver) Unrestricted (.boot .boot) actions = some spec ∧
      state.active = spec.active ∧ state.returned = spec.returned ∧ state.log = spec.log ∧
      state.log.map Prod.snd = spec.source.consumed ∧
      (∀ p, state.takenBy p = state.usedBy p) ∧
      ∀ entry ∈ state.returned, Proper entry.2.1 entry.2.2 := by
  have initially : Simulates (.boot .boot : State Input Process) (.boot .boot) :=
    ⟨⟨Ring.Holds.empty 0, rfl, List.not_mem_nil⟩, rfl, rfl, rfl, Orderly.boot⟩
  rcases @run_simulation _ _ _ (step Input.driver) (step Lines.driver) Simulates
    (fun _ _ _ _ simulates stepped => simulates.step stepped) actions _ _ _ initially ran with ⟨spec, specRan, source, active, returned, log, orderly⟩
  have edited : (state.source.e - state.source.r).toNat = _ := source.ring.toNat_sub (by decide)
  have committed : (state.source.w - state.source.r).toNat = _ :=
    source.unreadRing.toNat_sub (by decide)
  refine ⟨?_, ?_, ?_, spec, specRan, active, returned, log, by rw [log]; exact orderly.log, ?_, ?_⟩
  · rw [edited, committed, List.length_append]
    exact Nat.le_add_right ..
  · rw [edited]
    exact source.ring.bound
  · intro action next stepped i unread
    cases action with
    | intr c =>
      cases stepped
      exact source.intr_buf c unread
    | consoleread p n =>
      rw [Console.step] at stepped
      split at stepped <;> cases stepped
      rfl
    | pass p =>
      rw [Console.step] at stepped
      split at stepped
      · cases stepped
      · rcases Option.map_eq_some_iff.mp stepped with ⟨pass, passed, rfl⟩
        exact congrFun (Input.pass_buf passed) _
  · intro p
    have own := orderly.own p
    rw [takenBy, usedBy, ← log, ← returned, ← active] at own
    exact own
  · rw [returned]
    exact orderly.proper

end

theorem console_keeps_lines_edited :
    ∃ state : State Input (Fin 2), run (step Input.driver) Unrestricted (.boot .boot)
      [.intr 0x61, .intr 0x62, .intr (C 'H'), .intr 0x63, .consoleread 0 2, .intr RETURN,
        .intr (C 'D'), .pass 0, .pass 0, .pass 0, .consoleread 1 5, .pass 1, .consoleread 1 5,
        .pass 1] = some state ∧
      state.returned.map (fun entry => (entry.1, entry.2.1.dst)) =
        [(0, [0x61, 0x63]), (1, [NEWLINE]), (1, [])] ∧
      ∀ p, state.takenBy p = state.usedBy p := by
  have ran : (run (step Input.driver) Unrestricted (.boot .boot : State Input (Fin 2))
      [.intr 0x61, .intr 0x62, .intr (C 'H'), .intr 0x63, .consoleread 0 2, .intr RETURN,
        .intr (C 'D'), .pass 0, .pass 0, .pass 0, .consoleread 1 5, .pass 1, .consoleread 1 5,
        .pass 1]).any (fun state => decide (state.returned.map
      (fun entry => (entry.1, entry.2.1.dst)) = [(0, [0x61, 0x63]), (1, [NEWLINE]), (1, [])])) =
        true := by
    decide +kernel
  rcases (Option.any_eq_true _ _).mp ran with ⟨state, reached, returned⟩
  rcases console_keeps_lines _ reached with ⟨_, _, _, _, _, _, _, _, _, own, _⟩
  exact ⟨state, reached, of_decide_eq_true returned, own⟩

end Xv6.Console
