import Xv6.Foundation.Ring
import Xv6.Foundation.Transition

/-! # The console

Characters come in by interrupts, and processes read them. Both hold the lock of the
console, which a reader gives up only to wait for input: a step is one character of an
interrupt, or one pass of the loop of a reader. The readers are not killed.
-/

namespace Xv6.Console

abbrev INPUT_BUF : Nat := 128

/-- Control-x. -/
def C (x : Char) : UInt8 := x.toUInt8 - '@'.toUInt8

abbrev NEWLINE : UInt8 := 0x0a

abbrev RETURN : UInt8 := 0x0d

abbrev DELETE : UInt8 := 0x7f

/-! ## Readers

The readers are modelled once, for every way to keep the input. -/

/-- The local variables of `consoleread`, with what has been copied to `dst`. -/
structure Read where
  target : Nat
  n : Nat
  dst : List UInt8

inductive Stop
  | newline
  | count
  | eof
  deriving DecidableEq

/-- The outcome of a pass of the loop: the input after it, the byte that was removed from the
input, the read, and why it returns if it does. -/
structure Pass (Source : Type) where
  source : Source
  taken : Option UInt8
  read : Read
  stop : Option Stop

/-- How input is kept. In `pass` there is no result as long as the reader has to wait. -/
structure Driver (Source : Type) where
  intr : Source → UInt8 → Source
  pass : Source → Read → Option (Pass Source)

/-- `log` has the bytes that were removed from the input, with their readers. -/
structure State (Source Process : Type) where
  source : Source
  active : Process → Option Read
  returned : List (Process × Read × Stop)
  log : List (Process × UInt8)

inductive Action (Process : Type)
  | intr (c : UInt8)
  | consoleread (p : Process) (n : Int)
  | pass (p : Process)

section

variable {Source Process : Type} [DecidableEq Process]

def State.boot (source : Source) : State Source Process := ⟨source, fun _ => none, [], []⟩

def State.finish (state : State Source Process) (p : Process) (pass : Pass Source) :
    State Source Process where
  source := pass.source
  active := Function.update state.active p (if pass.stop.isSome then none else some pass.read)
  returned := state.returned ++ pass.stop.toList.map fun stop => (p, pass.read, stop)
  log := state.log ++ pass.taken.toList.map fun c => (p, c)

def step (driver : Driver Source) (state : State Source Process) :
    Action Process → Option (State Source Process)
  | .intr c => some { state with source := driver.intr state.source c }
  | .consoleread p n =>
      match state.active p with
      | some _ => none
      | none => some { state with
          active := Function.update state.active p (some ⟨n.toNat, n.toNat, []⟩) }
  | .pass p =>
      match state.active p with
      | none => none
      | some read => (driver.pass state.source read).map (state.finish p)

end

/-! ## The input of `console.c` -/

structure Input where
  buf : Fin INPUT_BUF → UInt8
  r : UInt32
  w : UInt32
  e : UInt32

namespace Input

def ring (input : Input) : Ring INPUT_BUF UInt8 := ⟨input.buf, input.r, input.e⟩

/-- The loop of the case for Control-U. -/
def killLine : (passes : Nat) → Input → Input
  | 0, input => input
  | passes + 1, input =>
      if input.e ≠ input.w ∧ input.buf (Ring.slot INPUT_BUF (input.e - 1)) ≠ NEWLINE then
        killLine passes { input with e := input.e - 1 }
      else input

/-- The default case of `consoleintr`. -/
def put (input : Input) (c : UInt8) : Input :=
  if c ≠ 0 ∧ input.e - input.r < 128 then
    let c := if c = RETURN then NEWLINE else c
    let input := { input with
      buf := Function.update input.buf (Ring.slot INPUT_BUF input.e) c
      e := input.e + 1 }
    if c = NEWLINE ∨ c = C 'D' ∨ input.e = input.r + 128 then { input with w := input.e }
    else input
  else input

/-- A pass of the loop of `consoleintr`. -/
def consoleintr (input : Input) (c : UInt8) : Input :=
  if c = C 'P' then input
  else if c = C 'U' then killLine (input.e - input.w).toNat input
  else if c = C 'H' ∨ c = DELETE then
    if input.e ≠ input.w then { input with e := input.e - 1 } else input
  else input.put c

/-- A pass of the loop of `consoleread`. -/
def pass (input : Input) (read : Read) : Option (Pass Input) :=
  if read.n = 0 then some ⟨input, none, read, some .count⟩
  else if input.r = input.w then none
  else
    let c := input.buf (Ring.slot INPUT_BUF input.r)
    let after := { input with r := input.r + 1 }
    if c = C 'D' then
      if read.n < read.target then some ⟨{ after with r := after.r - 1 }, none, read, some .eof⟩
      else some ⟨after, some c, read, some .eof⟩
    else
      some ⟨after, some c, { read with dst := read.dst ++ [c], n := read.n - 1 },
        if c = NEWLINE then some .newline else none⟩

def driver : Driver Input := ⟨consoleintr, pass⟩

def boot : Input := ⟨fun _ => 0, 0, 0, 0⟩

end Input

end Xv6.Console
