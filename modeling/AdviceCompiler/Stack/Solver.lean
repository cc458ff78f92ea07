import AdviceCompiler.Stack.Search

/-!
# Stack solvers

A solver answers how to turn one layout into another.  It may keep a state
between questions, which it returns with each answer.
-/

namespace AdviceCompiler

/-- The instructions found, or `none` if there are none within the solver's
bound. -/
abbrev Answer := Option (List Instruction)

structure Solver (σ : Type) where
  solve : σ → Layout → Layout → Answer × σ

namespace Solver

/-- A solver that keeps no state. -/
def stateless (answer : Layout → Layout → Answer) : Solver Unit where
  solve _ current target := (answer current target, ())

/-- The search bounded by `maxDepth`. -/
def search (maxDepth : Nat) : Solver Unit :=
  stateless (AdviceCompiler.search maxDepth)

/-- Counts the questions put to a solver. -/
def counted {σ : Type} (inner : Solver σ) : Solver (σ × Nat) where
  solve state current target :=
    let (answer, next) := inner.solve state.1 current target
    (answer, next, state.2 + 1)

end Solver

/-- The default bound on the length of a sequence. -/
def defaultMaxDepth : Nat := 6

structure SolverOptions where
  maxDepth : Nat := defaultMaxDepth
  /-- Whether the memo starts from the table of common transforms. -/
  seeded : Bool := true
  deriving DecidableEq

end AdviceCompiler
