import Mathlib

/-! # grep

The matcher of `grep.c` and the meaning of a pattern; and the loop that reads the input in
pieces. A string is the list of its characters before the terminating zero.
-/

namespace Xv6.Grep

mutual

/-- `matchhere`: a match at the beginning of the text. -/
def matchhere : List Char → List Char → Bool
  | [], _ => true
  | c :: '*' :: re, text => matchstar c re text
  | ['$'], text => text.isEmpty
  | _ :: _, [] => false
  | c :: re, t :: text => (c == '.' || c == t) && matchhere re text
termination_by re text => 2 * re.length + text.length

/-- `matchstar`: the loop that takes one more character in each round. -/
def matchstar (c : Char) (re text : List Char) : Bool :=
  matchhere re text || match text with
    | [] => false
    | t :: text => (t == c || c == '.') && matchstar c re text
termination_by 2 * re.length + text.length + 1

end

/-- The loop of `match`, which also looks at the empty text. -/
def matchLoop (re : List Char) : List Char → Bool
  | [] => matchhere re []
  | t :: text => matchhere re (t :: text) || matchLoop re text

/-- `match`. -/
def isMatch : List Char → List Char → Bool
  | '^' :: re, text => matchhere re text
  | re, text => matchLoop re text

/-! ## Patterns -/

inductive Item
  | one (c : Char)
  | star (c : Char)

/-- A character of a pattern stands for itself, a dot for every character. -/
def Accepts (c t : Char) : Prop := c = '.' ∨ c = t

def Item.Matches : Item → List Char → Prop
  | .one c, word => ∃ t, word = [t] ∧ Accepts c t
  | .star c, word => ∀ t ∈ word, Accepts c t

/-- The text is the concatenation of strings matched by the items. -/
def Spells : List Item → List Char → Prop
  | [], text => text = []
  | item :: items, text =>
      ∃ word rest, text = word ++ rest ∧ item.Matches word ∧ Spells items rest

/-- The items of a pattern without its leading `^`, from left to right. -/
def items : List Char → List Item
  | [] | ['$'] => []
  | c :: '*' :: re => .star c :: items re
  | c :: re => .one c :: items re

/-- The pattern ends in a `$` that is not followed by a star. -/
def endsText : List Char → Bool
  | [] => false
  | ['$'] => true
  | _ :: '*' :: re => endsText re
  | _ :: re => endsText re

/-- The pattern behind its leading `^`, and whether there is one. -/
def anchor : List Char → Bool × List Char
  | '^' :: re => (true, re)
  | re => (false, re)

/-- What items say of a text that they have to match from its beginning. -/
def FindsHere (items : List Item) (ended : Bool) (text : List Char) : Prop :=
  ∃ found after, text = found ++ after ∧ Spells items found ∧ (ended = true → after = [])

/-- What a pattern says of a text. -/
def Finds (pattern text : List Char) : Prop :=
  ∃ before found after, text = before ++ found ++ after ∧
    Spells (items (anchor pattern).2) found ∧ ((anchor pattern).1 = true → before = []) ∧
    (endsText (anchor pattern).2 = true → after = [])

/-! ## Correctness -/

theorem matchstar_iff (c : Char) (re text : List Char) : matchstar c re text = true ↔
    ∃ word rest, text = word ++ rest ∧ (∀ t ∈ word, Accepts c t) ∧ matchhere re rest = true := by
  induction text with
  | nil =>
    rw [matchstar]
    simp
  | cons t text induction =>
    rw [matchstar]
    simp only [Bool.or_eq_true, Bool.and_eq_true, induction, beq_iff_eq]
    constructor
    · rintro (here | ⟨accepts, word, rest, rfl, all, found⟩)
      · exact ⟨[], t :: text, rfl, nofun, here⟩
      · refine ⟨t :: word, rest, rfl, ?_, found⟩
        rw [List.forall_mem_cons]
        exact ⟨accepts.symm.imp_right Eq.symm, all⟩
    · rintro ⟨word, rest, split, all, found⟩
      cases word with
      | nil =>
        rw [split]
        exact Or.inl found
      | cons first word =>
        cases split
        rw [List.forall_mem_cons] at all
        exact Or.inr ⟨all.1.symm.imp_left Eq.symm, word, rest, rfl, all.2, found⟩

theorem findsHere_cons (item : Item) (items : List Item) (ended : Bool) (text : List Char) :
    FindsHere (item :: items) ended text ↔
      ∃ word rest, text = word ++ rest ∧ item.Matches word ∧ FindsHere items ended rest := by
  constructor
  · rintro ⟨_, after, rfl, ⟨word, rest, rfl, matched, spells⟩, ends⟩
    exact ⟨word, rest ++ after, List.append_assoc .., matched, rest, after, rfl, spells, ends⟩
  · rintro ⟨word, _, rfl, matched, found, after, rfl, spells, ends⟩
    exact ⟨word ++ found, after, (List.append_assoc ..).symm, ⟨word, found, rfl, matched, spells⟩,
      ends⟩

theorem matchhere_iff (re text : List Char) :
    matchhere re text = true ↔ FindsHere (items re) (endsText re) text := by
  fun_induction items re generalizing text with
  | case1 => simp [matchhere, endsText, FindsHere, Spells]
  | case2 => simp [matchhere, endsText, FindsHere, Spells]
  | case3 c re induction =>
    rw [matchhere, matchstar_iff, endsText, findsHere_cons]
    simp only [induction, Item.Matches]
  | case4 c re notLast notStar induction =>
    rw [endsText.eq_4 c re notLast notStar, findsHere_cons]
    cases text with
    | nil =>
      rw [matchhere.eq_4 c re notStar notLast]
      simp [Item.Matches]
    | cons t text =>
      rw [matchhere.eq_5 _ _ _ _ notStar notLast]
      simp [Item.Matches, Accepts, induction]

theorem matchLoop_iff (re text : List Char) : matchLoop re text = true ↔
    ∃ before rest, text = before ++ rest ∧ matchhere re rest = true := by
  induction text with
  | nil => simp [matchLoop]
  | cons t text induction =>
    rw [matchLoop, Bool.or_eq_true, induction]
    constructor
    · rintro (here | ⟨before, rest, rfl, later⟩)
      · exact ⟨[], t :: text, rfl, here⟩
      · exact ⟨t :: before, rest, rfl, later⟩
    · rintro ⟨before, rest, split, found⟩
      cases before with
      | nil =>
        rw [split]
        exact Or.inl found
      | cons first before =>
        cases split
        exact Or.inr ⟨before, rest, rfl, found⟩

/-- `match` finds what the pattern describes, and nothing else. -/
theorem match_sound_and_complete (pattern text : List Char) :
    isMatch pattern text = true ↔ Finds pattern text := by
  unfold Finds
  fun_cases anchor pattern with
  | case1 re =>
    rw [isMatch, matchhere_iff, FindsHere]
    simp
  | case2 other notAnchored =>
    rw [isMatch.eq_2 _ _ notAnchored, matchLoop_iff]
    simp only [matchhere_iff, FindsHere]
    constructor
    · rintro ⟨before, _, rfl, found, after, rfl, spells, ends⟩
      exact ⟨before, found, after, (List.append_assoc ..).symm, spells, nofun, ends⟩
    · rintro ⟨before, found, after, rfl, spells, _, ends⟩
      exact ⟨before, found ++ after, List.append_assoc .., found, after, rfl, spells, ends⟩

/-! ## Reading the input

The buffer holds the text before `buf[m]`. What `read` returns is a list of pieces.
-/

/-- The inner loop of `grep`: the lines written and the text from `p` on. The text from `p` to
the place at which `strchr` is comes first. -/
def grepLines (matched : List Char → Bool) : List Char → List Char → List (List Char) × List Char
  | line, [] => ([], line)
  | line, c :: text =>
      if c = '\x00' then ([], line ++ c :: text)
      else if c = '\n' then
        let (written, rest) := grepLines matched [] text
        (if matched line then (line ++ ['\n']) :: written else written, rest)
      else grepLines matched (line ++ [c]) text

/-- What stays in the buffer; without a newline nothing does. -/
def leftover (matched : List Char → Bool) (text : List Char) : List Char :=
  let rest := (grepLines matched [] text).2
  if rest.length = text.length then [] else rest

/-- The number of bytes that `grep` asks `read` for. -/
def request (buf : List Char) : Nat := 1024 - buf.length - 1

/-- `grep`, with what is in the buffer; a read of no bytes ends it. -/
def grep (matched : List Char → Bool) : List Char → List (List Char) → List (List Char)
  | _, [] => []
  | buf, piece :: pieces =>
      if request buf = 0 ∨ piece = [] then []
      else (grepLines matched [] (buf ++ piece)).1 ++
        grep matched (leftover matched (buf ++ piece)) pieces

/-- The pieces are what `read` may return: some bytes, but not more than are asked for. -/
def Readable (matched : List Char → Bool) : List Char → List (List Char) → Prop
  | _, [] => True
  | buf, piece :: pieces =>
      (0 < request buf → 0 < piece.length ∧ piece.length ≤ request buf) ∧
        Readable matched (leftover matched (buf ++ piece)) pieces

/-- The lines of a text that end in a newline and match. -/
def matchingLines (matched : List Char → Bool) (text : List Char) : List (List Char) :=
  ((text.splitOn '\n').dropLast.filter matched).map (· ++ ['\n'])

section

variable {matched : List Char → Bool}

theorem grepLines_eq (text : List Char) (noZero : '\x00' ∉ text) (line : List Char)
    (whole : '\n' ∉ line) :
    ∃ lines rest, grepLines matched line text = ((lines.filter matched).map (· ++ ['\n']), rest) ∧
      '\n' ∉ rest ∧ rest <:+ line ++ text ∧
      ∀ later, (line ++ text ++ later).splitOn '\n' = lines ++ (rest ++ later).splitOn '\n' := by
  induction text generalizing line with
  | nil => exact ⟨[], line, rfl, whole, by simp, by simp⟩
  | cons c text induction =>
    rw [List.mem_cons, not_or] at noZero
    rw [grepLines, if_neg (Ne.symm noZero.1)]
    by_cases newline : c = '\n'
    · rcases induction noZero.2 [] nofun with ⟨lines, rest, result, clean, suffix, splits⟩
      refine ⟨line :: lines, rest, ?_, clean, ?_, ?_⟩
      · rw [if_pos newline, result]
        cases matching : matched line with
        | true | false => simp [matching]
      · exact suffix.trans ⟨line ++ [c], by simp⟩
      · intro later
        rw [newline, List.append_assoc, List.cons_append,
          List.splitOn_append_cons_self_of_not_mem whole]
        exact congrArg (line :: ·) (splits later)
    · rcases induction noZero.2 (line ++ [c]) (by simp [whole, Ne.symm newline]) with
        ⟨lines, rest, result, clean, suffix, splits⟩
      rw [List.append_assoc] at suffix
      refine ⟨lines, rest, ?_, clean, suffix, ?_⟩
      · rw [if_neg newline, result]
      · intro later
        rw [← splits]
        simp

/-- Text without a newline in it comes before the first line. -/
theorem splitOn_append {start : List Char} (whole : '\n' ∉ start) (text : List Char) :
    ∃ first others, text.splitOn '\n' = first :: others ∧
      (start ++ text).splitOn '\n' = (start ++ first) :: others ∧ ('\n' ∈ text ↔ others ≠ []) := by
  by_cases newline : '\n' ∈ text
  · rcases List.eq_append_cons_of_mem newline with ⟨first, others, rfl, none⟩
    refine ⟨first, others.splitOn '\n', List.splitOn_append_cons_self_of_not_mem none _, ?_, ?_⟩
    · rw [← List.append_assoc, List.splitOn_append_cons_self_of_not_mem (by simp [whole, none])]
    · exact iff_of_true newline (List.splitOn_ne_nil _ _)
  · refine ⟨text, [], List.splitOn_eq_singleton newline,
      List.splitOn_eq_singleton (by simp [whole, newline]), ?_⟩
    exact iff_of_false newline fun other => other rfl

/-- What is in the buffer has no newline or zero in it, and no line of the input is too long. -/
structure Ready (matched : List Char → Bool) (buf : List Char) (pieces : List (List Char)) :
    Prop where
  whole : '\n' ∉ buf
  noZero : '\x00' ∉ buf ++ pieces.flatten
  short : ∀ line ∈ (buf ++ pieces.flatten).splitOn '\n', line.length < 1022
  readable : Readable matched buf pieces

/-- One round of the outer loop: the complete lines are written, and what is behind the last
newline stays in the buffer, if there is one. -/
theorem Ready.grep_cons {buf piece : List Char} {pieces : List (List Char)}
    (ready : Ready matched buf (piece :: pieces)) :
    ∃ lines rest, piece ≠ [] ∧ ('\n' ∉ piece → lines = [] ∧ rest = buf ++ piece) ∧
      (∀ later, (buf ++ piece ++ later).splitOn '\n' = lines ++ (rest ++ later).splitOn '\n') ∧
      grep matched buf (piece :: pieces) = (lines.filter matched).map (· ++ ['\n']) ++
        grep matched (if '\n' ∈ piece then rest else []) pieces ∧
      Ready matched (if '\n' ∈ piece then rest else []) pieces := by
  rcases ready with ⟨whole, noZero, short, readable⟩
  rw [List.flatten_cons, ← List.append_assoc] at noZero short
  rw [List.mem_append, not_or] at noZero
  have asks : 0 < request buf := by
    rcases splitOn_append whole (piece ++ pieces.flatten) with ⟨first, others, _, split, _⟩
    have small := short (buf ++ first) (by rw [List.append_assoc, split]; exact List.mem_cons_self)
    rw [List.length_append] at small
    unfold request
    omega
  have nonempty : piece ≠ [] := List.ne_nil_of_length_pos (readable.1 asks).1
  rcases grepLines_eq (buf ++ piece) noZero.1 [] nofun with
    ⟨lines, rest, result, clean, suffix, splits⟩
  rw [List.nil_append] at suffix splits
  have single : '\n' ∉ piece → lines = [] ∧ rest = buf ++ piece := by
    intro newline
    have alone := splits []
    rw [List.append_nil, List.append_nil, List.splitOn_eq_singleton clean,
      List.splitOn_eq_singleton (by simp [whole, newline])] at alone
    have same := List.append_inj' (show [] ++ [buf ++ piece] = lines ++ [rest] from alone) rfl
    exact ⟨same.1.symm, (List.singleton_inj.mp same.2).symm⟩
  have left : leftover matched (buf ++ piece) = if '\n' ∈ piece then rest else [] := by
    rw [leftover, result]
    by_cases newline : '\n' ∈ piece
    · rw [if_pos newline, if_neg]
      intro same
      rw [suffix.eq_of_length same] at clean
      exact clean (List.mem_append_right _ newline)
    · rw [if_neg newline, if_pos (by rw [(single newline).2])]
  have next := readable.2
  rw [left] at next
  rw [splits] at short
  refine ⟨lines, rest, nonempty, single, splits, ?_, ?_⟩
  · rw [grep, if_neg (by simp [nonempty, Nat.ne_of_gt asks]), result, left]
  · split at next
    · rename_i newline
      rw [if_pos newline]
      refine ⟨clean, ?_, fun line member => short line (List.mem_append_right _ member), next⟩
      rw [List.mem_append, not_or]
      exact ⟨fun zero => noZero.1 (suffix.subset zero), noZero.2⟩
    · rename_i newline
      rw [if_neg newline]
      refine ⟨List.not_mem_nil, noZero.2, fun line member => ?_, next⟩
      rcases splitOn_append clean pieces.flatten with ⟨first, others, split, joined, _⟩
      rw [List.nil_append, split] at member
      rw [joined] at short
      rcases List.mem_cons.mp member with rfl | later
      · have small := short (rest ++ line) (by simp)
        rw [List.length_append] at small
        omega
      · exact short line (by simp [later])

theorem matchingLines_append {lines : List (List Char)} {text rest : List Char}
    (splits : text.splitOn '\n' = lines ++ rest.splitOn '\n') :
    matchingLines matched text =
      (lines.filter matched).map (· ++ ['\n']) ++ matchingLines matched rest := by
  rw [matchingLines, splits, List.dropLast_append_of_ne_nil (List.splitOn_ne_nil _ _),
    List.filter_append, List.map_append]
  rfl

/-- Every piece up to the last newline of the input has a newline in it. -/
def Kept (pieces : List (List Char)) : Prop :=
  pieces.Pairwise fun piece later => '\n' ∈ later → '\n' ∈ piece

theorem kept_cons {piece : List Char} {pieces : List (List Char)} :
    Kept (piece :: pieces) ↔ ('\n' ∈ pieces.flatten → '\n' ∈ piece) ∧ Kept pieces := by
  rw [Kept, List.pairwise_cons]
  refine and_congr_left' ⟨fun each newline => ?_, fun all later member newline => ?_⟩
  · rcases List.mem_flatten.mp newline with ⟨later, member, inside⟩
    exact each later member inside
  · exact all (List.mem_flatten.mpr ⟨later, member, newline⟩)

theorem Ready.grep_eq {pieces : List (List Char)} {buf : List Char}
    (ready : Ready matched buf pieces) (kept : Kept pieces) :
    grep matched buf pieces = matchingLines matched (buf ++ pieces.flatten) := by
  induction pieces generalizing buf with
  | nil => simp [grep, matchingLines, List.splitOn_eq_singleton ready.whole]
  | cons piece pieces induction =>
    rw [kept_cons] at kept
    rcases ready.grep_cons with ⟨lines, rest, _, single, splits, ran, next⟩
    rw [ran, induction next kept.2, List.flatten_cons, ← List.append_assoc,
      matchingLines_append (splits _)]
    by_cases newline : '\n' ∈ piece
    · rw [if_pos newline]
    · -- The text is dropped, but no newline follows that would have ended its line.
      have none := fun inside => newline (kept.1 inside)
      have alone : '\n' ∉ rest ++ pieces.flatten := by
        rw [(single newline).2, List.mem_append, List.mem_append, not_or, not_or]
        exact ⟨⟨ready.whole, newline⟩, none⟩
      rw [if_neg newline, List.nil_append, matchingLines, matchingLines,
        List.splitOn_eq_singleton none, List.splitOn_eq_singleton alone]
      rfl

/-- When every line matches, the bytes that are not written are those of lines that have been
dropped in part. -/
theorem Ready.grep_lost {pieces : List (List Char)} {buf : List Char}
    (ready : Ready (fun _ => true) buf pieces) :
    ∃ lost, (grep (fun _ => true) buf pieces).flatten.length + lost =
      (matchingLines (fun _ => true) (buf ++ pieces.flatten)).flatten.length ∧
        (lost = 0 → Kept pieces) := by
  induction pieces generalizing buf with
  | nil => exact ⟨0, by simp [grep, matchingLines, List.splitOn_eq_singleton ready.whole],
      fun _ => .nil⟩
  | cons piece pieces induction =>
    rcases ready.grep_cons with ⟨lines, rest, nonempty, single, splits, ran, next⟩
    rcases induction next with ⟨lost, total, kept⟩
    rw [ran, List.flatten_cons, ← List.append_assoc, matchingLines_append (splits _),
      List.flatten_append, List.flatten_append, List.length_append, List.length_append]
    by_cases newline : '\n' ∈ piece
    · rw [if_pos newline] at total ⊢
      exact ⟨lost, by omega, fun none => kept_cons.mpr ⟨fun _ => newline, kept none⟩⟩
    · rw [if_neg newline] at total ⊢
      rw [List.nil_append] at total
      have clean : '\n' ∉ rest := by
        rw [(single newline).2]
        simp [ready.whole, newline]
      rcases splitOn_append clean pieces.flatten with ⟨first, others, split, joined, more⟩
      cases others with
      | nil =>
        have none : '\n' ∉ pieces.flatten := more.not.mpr fun some => some rfl
        refine ⟨lost, ?_, fun zero => kept_cons.mpr ⟨fun inside => absurd inside none, kept zero⟩⟩
        rw [matchingLines, split] at total
        rw [matchingLines, joined]
        simpa [Nat.add_assoc] using total
      | cons second others =>
        have longer : 0 < rest.length := by
          rw [(single newline).2, List.length_append]
          exact Nat.add_pos_right _ (List.length_pos_iff.mpr nonempty)
        refine ⟨rest.length + lost, ?_, fun none => by omega⟩
        rw [matchingLines, split] at total
        rw [matchingLines, joined]
        simp only [List.dropLast_cons_cons, List.filter_true, List.map_cons, List.flatten_cons,
          List.length_append] at total ⊢
        omega

end

theorem isMatch_nil : isMatch [] = fun _ => true := by
  funext text
  cases text with
  | nil | cons => simp [isMatch, matchLoop, matchhere]

/-- `grep` writes the matching lines for every pattern exactly if every piece up to the last
newline of the input has a newline in it. -/
theorem grep_writes_matching_lines_iff (pieces : List (List Char))
    (noZero : '\x00' ∉ pieces.flatten)
    (short : ∀ line ∈ pieces.flatten.splitOn '\n', line.length < 1022)
    (readable : ∀ pattern, Readable (isMatch pattern) [] pieces) :
    (∀ pattern, grep (isMatch pattern) [] pieces =
      matchingLines (isMatch pattern) pieces.flatten) ↔ Kept pieces := by
  have ready : ∀ pattern, Ready (isMatch pattern) [] pieces := fun pattern =>
    ⟨List.not_mem_nil, noZero, short, readable pattern⟩
  refine ⟨fun writes => ?_, fun kept pattern => (ready pattern).grep_eq kept⟩
  -- every line matches the empty pattern
  have all := ready []
  have same := writes []
  rw [isMatch_nil] at all same
  rcases all.grep_lost with ⟨lost, total, kept⟩
  rw [same, List.nil_append] at total
  exact kept (by omega)

theorem grep_writes_matching_lines_iff_two :
    grep (isMatch ['b']) [] [['a', '\n', 'a'], ['b', '\n']] =
      matchingLines (isMatch ['b']) ['a', '\n', 'a', 'b', '\n'] :=
  (grep_writes_matching_lines_iff [['a', '\n', 'a'], ['b', '\n']] (by decide) (by decide)
    (fun pattern => by simp [Readable, leftover, grepLines, request])).mpr
      (by unfold Kept; decide) ['b']

/-- A piece without a newline is dropped, although the next one ends its line. -/
theorem grep_drops_piece :
    '\x00' ∉ [['a'], ['b', '\n']].flatten ∧
    (∀ line ∈ [['a'], ['b', '\n']].flatten.splitOn '\n', line.length < 1022) ∧
    Readable (isMatch []) [] [['a'], ['b', '\n']] ∧
    grep (isMatch []) [] [['a'], ['b', '\n']] ≠
      matchingLines (isMatch []) [['a'], ['b', '\n']].flatten := by
  refine ⟨by decide, by decide, by simp [Readable, leftover, grepLines, request], ?_⟩
  rw [isMatch_nil]
  decide

end Xv6.Grep
