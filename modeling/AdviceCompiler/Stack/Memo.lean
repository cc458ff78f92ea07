import AdviceCompiler.Stack.Canonical
import AdviceCompiler.Stack.Solver

/-!
# Remembered stack transforms

A memo holds the answers to canonical layout pairs, unsolvable pairs included.
It can start from the transforms that advice needs most often.
-/

namespace AdviceCompiler

/-- Answers by canonical pair of source and target. -/
structure Memo where
  entries : List ((Layout × Layout) × Answer)
  deriving DecidableEq

namespace Memo

def empty : Memo := ⟨[]⟩

def size (memo : Memo) : Nat :=
  memo.entries.length

def isEmpty (memo : Memo) : Bool :=
  memo.size = 0

def get? (memo : Memo) (pair : Layout × Layout) : Option Answer :=
  memo.entries.lookup pair

def insert (memo : Memo) (pair : Layout × Layout) (answer : Answer) : Memo :=
  ⟨(pair, answer) :: memo.entries⟩

/-- The answer already known for a pair of layouts, up to renaming. -/
def known? (memo : Memo) (current target : Layout) : Option Answer :=
  memo.get? (Layout.canonicalPair current target)

/-- A known way from one layout to another. -/
structure Transform where
  source : Layout
  target : Layout
  instructions : List Instruction
  deriving DecidableEq

namespace Transform

def a : Slot := ⟨0, .narrow⟩
def b : Slot := ⟨1, .narrow⟩
def c : Slot := ⟨2, .narrow⟩
def wideA : Slot := ⟨0, .wide⟩
def wideB : Slot := ⟨1, .wide⟩

/-- The transforms that advice needs most often, each between canonical
layouts. -/
def common : List Transform :=
  [⟨[a], [a, a], [.dup]⟩,
    ⟨[wideA], [wideA, wideA], [.dup2]⟩,
    ⟨[a, b], [a, b, a, b], [.dup2]⟩,
    ⟨[a, b], [b, a], [.swap]⟩,
    ⟨[a, b], [b, a, b], [.dupX1]⟩,
    ⟨[a, b, c], [c, a, b, c], [.dupX2]⟩,
    ⟨[a], [], [.pop]⟩,
    ⟨[a, b], [a], [.pop]⟩,
    ⟨[wideA], [], [.pop2]⟩,
    ⟨[a, b], [], [.pop2]⟩,
    ⟨[a, b, c], [b, c, a, b, c], [.dup2X1]⟩,
    ⟨[a, wideB], [wideB, a, wideB], [.dup2X1]⟩]

end Transform

/-- The memo of known transforms. -/
def ofTransforms (transforms : List Transform) : Memo :=
  transforms.foldl
    (fun memo transform =>
      memo.insert (transform.source, transform.target) (some transform.instructions)) empty

/-- The memo a solver starts with. -/
def initial (seeded : Bool) : Memo :=
  if seeded then ofTransforms Transform.common else empty

end Memo

namespace Solver

/-- Puts a memo in front of a solver.  Equal layouts need no instruction; any
other pair is looked up, asked and remembered in canonical form. -/
def memoized {σ : Type} (inner : Solver σ) : Solver (Memo × σ) where
  solve state current target :=
    if current = target then (some [], state)
    else
      let pair := Layout.canonicalPair current target
      match state.1.get? pair with
      | some answer => (answer, state)
      | none =>
          let (answer, next) := inner.solve state.2 pair.1 pair.2
          (answer, state.1.insert pair answer, next)

end Solver

end AdviceCompiler
