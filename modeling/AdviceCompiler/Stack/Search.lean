import AdviceCompiler.Stack.Odometer

/-!
# Searching for a stack transform

The shortest instruction sequence that turns one layout into another, and the
first of its length in enumeration order.  An instruction that does not apply
blocks every sequence with the same beginning, so the odometer moves at that
digit.
-/

namespace AdviceCompiler.Search

/-- What running a candidate sequence shows. -/
inductive Verdict where
  | reaches
  | misses
  /-- The instruction at this index did not apply. -/
  | blocked (index : Nat)
  deriving DecidableEq

/-- The same verdict after one more instruction in front. -/
def Verdict.later : Verdict → Verdict
  | .blocked index => .blocked (index + 1)
  | verdict => verdict

/-- The digit to move after a candidate of this length, unless it is the
answer. -/
def Verdict.digit? (length : Nat) : Verdict → Option Nat
  | .reaches => none
  | .misses => some (length - 1)
  | .blocked index => some index

/-- Runs a candidate on a stack given top first. -/
def evaluate (stack target : List Slot) : List Instruction → Verdict
  | [] => if stack = target then .reaches else .misses
  | instruction :: rest =>
      match instruction.effectOnTop stack with
      | some next => (evaluate next target rest).later
      | none => .blocked 0

/-- The first answer among `candidate` and the sequences of its length after
it. -/
def scan (stack target : List Slot) (candidate : List Instruction) :
    Option (List Instruction) :=
  match (evaluate stack target candidate).digit? candidate.length with
  | none => some candidate
  | some digit =>
      match _hadvance : Odometer.advance candidate digit with
      | some next => scan stack target next
      | none => none
termination_by Odometer.remaining candidate
decreasing_by exact Odometer.remaining_advance _hadvance

/-- The first answer of exactly this length. -/
def ofLength (stack target : List Slot) (length : Nat) : Option (List Instruction) :=
  scan stack target (List.replicate length .first)

/-- The first answer among the `count` lengths from `length` on. -/
def ofLengths (stack target : List Slot) (length : Nat) : Nat → Option (List Instruction)
  | 0 => none
  | count + 1 =>
      match ofLength stack target length with
      | some found => some found
      | none => ofLengths stack target (length + 1) count

end AdviceCompiler.Search

namespace AdviceCompiler

/-- The first sequence of at most `maxDepth` instructions that turns `current`
into `target`, shorter sequences first. -/
def search (maxDepth : Nat) (current target : Layout) : Option (List Instruction) :=
  if current = target then some []
  else Search.ofLengths current.reverse target.reverse 1 maxDepth

end AdviceCompiler
