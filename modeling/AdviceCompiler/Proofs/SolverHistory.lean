import AdviceCompiler.Proofs.MemoTransparency

/-!
# Solvers whose answers do not depend on earlier questions

A solver may keep what it was asked, but a solver of a compiler answers as if it
were new.  One without a state does so by itself.  A memo does so in front of any
solver that does: it holds the transforms it started with and otherwise only
answers that a new solver would give.
-/

namespace AdviceCompiler

variable {σ : Type}

namespace Solver

/-- The states a solver can be in after some questions, if it starts in
`fresh`. -/
inductive Reaches (solver : Solver σ) (fresh : σ) : σ → Prop
  | start : Reaches solver fresh fresh
  | solve {state : σ} (hstate : Reaches solver fresh state) (current target : Layout) :
      Reaches solver fresh (solver.solve state current target).2

/-- Earlier questions do not change the answers. -/
def Steady (solver : Solver σ) (fresh : σ) : Prop :=
  ∀ state, solver.Reaches fresh state → ∀ current target,
    (solver.solve state current target).1 = (solver.solve fresh current target).1

/-- The solvers a compiler can be built with, each with the state it starts in:
one without a state, or a memo in front of another. -/
inductive Built : {σ : Type} → Solver σ → σ → Prop
  | stateless (answer : Layout → Layout → Answer) : Built (Solver.stateless answer) ()
  | memoized {σ : Type} {inner : Solver σ} {fresh : σ} (hinner : Built inner fresh)
      (seeded : Bool) : Built inner.memoized (Memo.initial seeded, fresh)

/-- A memo that started as `seeds` has only gained answers that a new solver
gives. -/
structure Remembers (inner : Solver σ) (fresh : σ) (seeds : Memo) (state : Memo × σ) :
    Prop where
  entries : ∀ pair, state.1.get? pair = seeds.get? pair ∨
    seeds.get? pair = none ∧ state.1.get? pair = some (inner.solve fresh pair.1 pair.2).1
  reaches : inner.Reaches fresh state.2

variable {inner : Solver σ} {fresh : σ} {seeds : Memo} {state : Memo × σ}

theorem Remembers.solve (hsteady : inner.Steady fresh)
    (hstate : inner.Remembers fresh seeds state) (current target : Layout) :
    inner.Remembers fresh seeds (inner.memoized.solve state current target).2 := by
  obtain hsame | ⟨-, hunknown, hnext⟩ := memoized_solve_snd inner state current target
  · rw [hsame]
    exact hstate
  · rw [hnext]
    refine ⟨?_, hstate.reaches.solve _ _⟩
    intro pair
    rw [Memo.get?_insert, hsteady state.2 hstate.reaches]
    split
    · next hpair =>
        subst hpair
        obtain hsame | ⟨hnew, -⟩ := hstate.entries (Layout.canonicalPair current target)
        · exact Or.inr ⟨hsame.symm.trans hunknown, rfl⟩
        · exact Or.inr ⟨hnew, rfl⟩
    · exact hstate.entries pair

/-- The state of a memoized solver after any questions. -/
theorem Reaches.remembers (hsteady : inner.Steady fresh)
    (hreaches : inner.memoized.Reaches (seeds, fresh) state) :
    inner.Remembers fresh seeds state := by
  induction hreaches with
  | start => exact ⟨fun _ => Or.inl rfl, .start⟩
  | solve _ current target ih => exact ih.solve hsteady current target

theorem Remembers.answer_eq (hsteady : inner.Steady fresh)
    (hstate : inner.Remembers fresh seeds state) (current target : Layout) :
    (inner.memoized.solve state current target).1 =
      (inner.memoized.solve (seeds, fresh) current target).1 := by
  simp only [memoized]
  split
  · rfl
  · obtain hsame | ⟨hnew, hknown⟩ := hstate.entries (Layout.canonicalPair current target)
    · rw [hsame]
      cases seeds.get? (Layout.canonicalPair current target) with
      | some answer => rfl
      | none => exact hsteady state.2 hstate.reaches _ _
    · rw [hnew, hknown]

theorem Steady.memoized (hsteady : inner.Steady fresh) (seeds : Memo) :
    inner.memoized.Steady (seeds, fresh) := by
  intro state hreaches current target
  exact (hreaches.remembers hsteady).answer_eq hsteady current target

/-- The solvers of a compiler answer as if they were new. -/
theorem Built.steady {solver : Solver σ} (hbuilt : solver.Built fresh) : solver.Steady fresh := by
  induction hbuilt with
  | stateless answer => exact fun _ _ _ _ => rfl
  | memoized _ seeded ih => exact ih.memoized (Memo.initial seeded)

end Solver

end AdviceCompiler
