import Mathlib

/-! # The shell

`execute_with_path` of `sh.c`: a command is looked for in every directory that the file
`/path` names. A string is the list of its characters before the terminating zero.
-/

namespace Xv6.Shell

/-- The names that have been tried with `exec`, and whether a byte outside of the buffers was
written. -/
structure Search where
  tried : List (List Char)
  strayed : Bool
  deriving DecidableEq

/-- `strchr` for a colon: the text before it and the text behind it. -/
def strchr : List Char → Option (List Char × List Char)
  | [] => none
  | c :: text =>
      if c = ':' then some ([], text)
      else (strchr text).map fun (before, behind) => (c :: before, behind)

/-- The loop of `execute_with_path`, for a number of rounds, if every `exec` fails. Where
there is no colon, it stores through a null pointer. The program is there, and may be
written, so the loop tries the name and goes on at address 1 with the string that is found
there. A colon that it passes there is overwritten. -/
def pathLoop (cmd : List Char) : Nat → (low path : List Char) → Option Search
  | 0, _, _ => none
  | rounds + 1, low, path =>
      if path = [] then some ⟨[], false⟩
      else match strchr path with
        | some (directory, rest) => (pathLoop cmd rounds low rest).map fun search =>
            { search with tried := (directory ++ cmd) :: search.tried }
        | none => (pathLoop cmd rounds (low.takeWhile (· ≠ ':')) low).map fun search =>
            ⟨(path ++ cmd) :: search.tried, true⟩

/-- `execute_with_path`, if every `exec` fails. The last byte of the file is overwritten with
a zero. An empty file has none, and the loop runs over whatever is in its place. -/
def executeWithPath (low : List Char) (rounds : Nat) (contents cmd : List Char) : Option Search :=
  if cmd.head? = some '/' then some ⟨[cmd], false⟩
  else if contents = [] then none
  else pathLoop cmd rounds low (contents.dropLast.takeWhile (· ≠ '\x00'))

/-- What a directory can be called in `/path`. -/
def IsDirectory (path : List Char) : Prop := ':' ∉ path ∧ '\x00' ∉ path

instance (path : List Char) : Decidable (IsDirectory path) := inferInstanceAs (Decidable (_ ∧ _))

/-- The contents of `/path` for some directories with a colon behind each, and maybe a last
one without. -/
def contentsOf (directories : List (List Char)) (last : Option (List Char)) : List Char :=
  directories.flatMap (· ++ [':']) ++ last.getD [] ++ ['\n']

section

variable {cmd low path rest : List Char} {rounds : Nat} {directories : List (List Char)}

theorem strchr_colon (noColon : ':' ∉ path) (rest : List Char) :
    strchr (path ++ ':' :: rest) = some (path, rest) := by
  induction path with
  | nil => rfl
  | cons c path induction =>
    rw [List.mem_cons, not_or] at noColon
    rw [List.cons_append, strchr, if_neg (Ne.symm noColon.1), induction noColon.2]
    rfl

theorem strchr_none (noColon : ':' ∉ path) : strchr path = none := by
  induction path with
  | nil => rfl
  | cons c path induction =>
    rw [List.mem_cons, not_or] at noColon
    rw [strchr, if_neg (Ne.symm noColon.1), induction noColon.2]
    rfl

theorem pathLoop_directory (noColon : ':' ∉ path) :
    pathLoop cmd (rounds + 1) low (path ++ ':' :: rest) =
      (pathLoop cmd rounds low rest).map fun search =>
        { search with tried := (path ++ cmd) :: search.tried } := by
  rw [pathLoop, if_neg (by simp), strchr_colon noColon]

/-- All directories with a colon behind them are tried in order. -/
theorem pathLoop_directories (all : ∀ path ∈ directories, IsDirectory path) :
    pathLoop cmd (directories.length + rounds) low (directories.flatMap (· ++ [':']) ++ rest) =
      (pathLoop cmd rounds low rest).map fun search =>
        { search with tried := directories.map (· ++ cmd) ++ search.tried } := by
  induction directories with
  | nil => simp
  | cons path directories induction =>
    rw [List.forall_mem_cons] at all
    rw [List.flatMap_cons, List.append_assoc, List.append_assoc, List.singleton_append,
      List.length_cons, Nat.add_right_comm, pathLoop_directory all.1.1, induction all.2,
      Option.map_map]
    rfl

theorem pathLoop_few (few : rounds < directories.length)
    (all : ∀ path ∈ directories, IsDirectory path) :
    pathLoop cmd rounds low (directories.flatMap (· ++ [':']) ++ rest) = none := by
  induction directories generalizing rounds with
  | nil => cases few
  | cons path directories induction =>
    rw [List.forall_mem_cons] at all
    cases rounds with
    | zero => rfl
    | succ rounds =>
      rw [List.flatMap_cons, List.append_assoc, List.append_assoc, List.singleton_append,
        pathLoop_directory all.1.1, induction (Nat.lt_of_succ_lt_succ few) all.2]
      rfl

theorem executeWithPath_contentsOf (relative : cmd.head? ≠ some '/')
    {last : Option (List Char)} (all : ∀ path ∈ directories ++ last.toList, IsDirectory path) :
    executeWithPath low rounds (contentsOf directories last) cmd =
      pathLoop cmd rounds low (directories.flatMap (· ++ [':']) ++ last.getD []) := by
  rw [executeWithPath, if_neg relative, contentsOf, if_neg (by simp), List.dropLast_concat,
    List.takeWhile_eq_self_iff.mpr]
  intro c member
  rw [decide_eq_true_eq]
  rintro rfl
  rcases List.mem_append.mp member with inside | inside
  · rcases List.mem_flatMap.mp inside with ⟨path, listed, inside⟩
    rw [List.mem_append, List.mem_singleton] at inside
    exact (all path (List.mem_append_left _ listed)).2 (inside.resolve_right (by decide))
  · cases last with
    | none => cases inside
    | some path => exact (all path (by simp)).2 inside

end

end Xv6.Shell
