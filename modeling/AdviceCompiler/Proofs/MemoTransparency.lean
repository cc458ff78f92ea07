import AdviceCompiler.Proofs.CanonicalPair
import AdviceCompiler.Stack.Memo

/-!
# A memo does not change the answers

Whatever has been asked before, a memoized search answers as the search does on
the pair it is asked.  The known transforms are what the search finds from depth
`1` on; only with depth `0`, where the search finds nothing, do they show.
-/

namespace AdviceCompiler

open Instruction

theorem run_singleton_eq_ok_iff {layout result : Layout} {instruction : Instruction} :
    layout.run [instruction] = .ok result ↔ instruction.effect layout = some result := by
  rw [Layout.run, Layout.step]
  cases instruction.effect layout <;> simp [Layout.run]

/-- A single instruction is the first solution if no earlier one does the same. -/
theorem isFirstSolution_singleton {maxDepth : Nat} {current target : Layout}
    {instruction : Instruction} (hdepth : maxDepth ≠ 0) (hne : current ≠ target)
    (hproper : instruction ∈ alphabet) (heffect : instruction.effect current = some target)
    (hfirst : ∀ other ∈ alphabet, other.Precedes instruction →
      other.effect current ≠ some target) :
    IsFirstSolution maxDepth current target [instruction] := by
  refine ⟨⟨?_, Nat.one_le_iff_ne_zero.mpr hdepth, run_singleton_eq_ok_iff.mpr heffect⟩, ?_⟩
  · rintro _ (_ | ⟨_, hmem⟩)
    · exact hproper
    · cases hmem
  · intro other hother hbefore
    have hlength := hother.one_le_length hne
    obtain hshorter | ⟨hsame, hlex⟩ := List.shortlex_def.mp hbefore
    · rw [List.length_singleton] at hshorter
      omega
    · obtain ⟨single, rfl⟩ := List.length_eq_one_iff.mp hsame
      exact hfirst single (hother.proper single (.head _)) ((List.lex_singleton_iff _ _).mp hlex)
        (run_singleton_eq_ok_iff.mp hother.reaches)

namespace Solver

variable {σ : Type} {inner : Solver σ} {state : Memo × σ} {current target : Layout}

theorem memoized_solve_self (layout : Layout) :
    inner.memoized.solve state layout layout = (some [], state) :=
  if_pos rfl

theorem memoized_solve_of_known {answer : Answer} (hne : current ≠ target)
    (hknown : state.1.known? current target = some answer) :
    inner.memoized.solve state current target = (answer, state) := by
  rw [Memo.known?] at hknown
  simp only [memoized, if_neg hne, hknown]

theorem memoized_solve_of_unknown (hne : current ≠ target)
    (hunknown : state.1.known? current target = none) :
    let pair := Layout.canonicalPair current target
    let asked := inner.solve state.2 pair.1 pair.2
    inner.memoized.solve state current target =
      (asked.1, state.1.insert pair asked.1, asked.2) := by
  rw [Memo.known?] at hunknown
  simp only [memoized, if_neg hne, hunknown]

/-- A call leaves the state alone, or it files the answer to a pair without an
entry. -/
theorem memoized_solve_snd (inner : Solver σ) (state : Memo × σ) (current target : Layout) :
    let pair := Layout.canonicalPair current target
    let asked := inner.solve state.2 pair.1 pair.2
    let outcome := inner.memoized.solve state current target
    outcome.2 = state ∨
      current ≠ target ∧ state.1.get? pair = none ∧
        outcome.2 = (state.1.insert pair asked.1, asked.2) := by
  intro pair asked outcome
  by_cases hequal : current = target
  · subst hequal
    exact Or.inl (congrArg Prod.snd (memoized_solve_self current))
  · cases hknown : state.1.known? current target with
    | some answer =>
        exact Or.inl (congrArg Prod.snd (memoized_solve_of_known hequal hknown))
    | none =>
        exact Or.inr ⟨hequal, hknown,
          congrArg Prod.snd (memoized_solve_of_unknown hequal hknown)⟩

end Solver

namespace Memo

/-- A call on a memoized solver. -/
inductive Request where
  /-- Asks for the answer. -/
  | solve (current target : Layout)
  /-- Asks whether the answer is known. -/
  | peek (current target : Layout)

/-- The state of a memoized solver after a call.  To peek leaves it alone. -/
def serve {σ : Type} (inner : Solver σ) (state : Memo × σ) : Request → Memo × σ
  | .solve current target => (inner.memoized.solve state current target).2
  | .peek _ _ => state

/-- The state after calls in order. -/
def serveAll {σ : Type} (inner : Solver σ) (state : Memo × σ) (requests : List Request) :
    Memo × σ :=
  requests.foldl (serve inner) state

namespace Transform

/-- The pair a transform is remembered for. -/
def pair (transform : Transform) : Layout × Layout :=
  (transform.source, transform.target)

/-- Each common transform is one instruction, and no earlier one does the
same. -/
theorem common_first :
    ∀ transform ∈ common, transform.source ≠ transform.target ∧
      ∃ instruction ∈ alphabet, transform.instructions = [instruction] ∧
        instruction.effect transform.source = some transform.target ∧
        ∀ other ∈ alphabet, other.Precedes instruction →
          other.effect transform.source ≠ some transform.target := by
  decide

theorem common_pairs_distinct :
    ∀ left ∈ common, ∀ right ∈ common, left.pair = right.pair → left = right := by
  decide

/-- The common transforms are what the search finds. -/
theorem search_common {transform : Transform} (hcommon : transform ∈ common) {maxDepth : Nat}
    (hdepth : maxDepth ≠ 0) :
    search maxDepth transform.source transform.target = some transform.instructions := by
  obtain ⟨hne, instruction, hproper, hinstructions, heffect, hfirst⟩ :=
    common_first transform hcommon
  rw [hinstructions]
  exact search_eq_some_iff.mpr (isFirstSolution_singleton hdepth hne hproper heffect hfirst)

end Transform

/-- The pairs for which a seeded memo knows more than the search. -/
def Excepted (options : SolverOptions) (pair : Layout × Layout) : Prop :=
  options.seeded = true ∧ options.maxDepth = 0 ∧
    ∃ transform ∈ Transform.common, pair = transform.pair

/-- The answer that is due for a pair: that of the search, and that of the common
transforms for the excepted pairs. -/
structure IsDue (options : SolverOptions) (pair : Layout × Layout) (answer : Answer) :
    Prop where
  searched : ¬ Excepted options pair → answer = search options.maxDepth pair.1 pair.2
  known : options.seeded = true → options.maxDepth = 0 → ∀ transform ∈ Transform.common,
    pair = transform.pair → answer = some transform.instructions

/-- What every memo of a run satisfies. -/
structure Faithful (options : SolverOptions) (memo : Memo) : Prop where
  due : ∀ pair answer, memo.get? pair = some answer → IsDue options pair answer
  seeds : options.seeded = true → ∀ transform ∈ Transform.common,
    memo.get? transform.pair ≠ none

theorem get?_insert (memo : Memo) (pair other : Layout × Layout) (answer : Answer) :
    (memo.insert pair answer).get? other =
      if other = pair then some answer else memo.get? other := by
  simp only [get?, insert, List.lookup_cons]
  split <;> simp_all

/-- Adds the known transforms to a memo, each under its pair. -/
def learn (memo : Memo) (transforms : List Transform) : Memo :=
  transforms.foldl
    (fun memo transform => memo.insert transform.pair (some transform.instructions)) memo

theorem get?_learn {memo : Memo} {transforms : List Transform} {pair : Layout × Layout}
    {answer : Answer} (hget : (memo.learn transforms).get? pair = some answer) :
    (∃ transform ∈ transforms, pair = transform.pair ∧
        answer = some transform.instructions) ∨
      memo.get? pair = some answer := by
  induction transforms generalizing memo with
  | nil => exact Or.inr hget
  | cons head rest ih =>
      obtain ⟨transform, hmem, hpair⟩ | hbefore := ih hget
      · exact Or.inl ⟨transform, .tail _ hmem, hpair⟩
      · rw [get?_insert] at hbefore
        split at hbefore
        · next heq => exact Or.inl ⟨head, .head _, heq, (Option.some.inj hbefore).symm⟩
        · exact Or.inr hbefore

theorem get?_learn_ne_none {memo : Memo} {transforms : List Transform}
    {pair : Layout × Layout}
    (hpair : (∃ transform ∈ transforms, pair = transform.pair) ∨ memo.get? pair ≠ none) :
    (memo.learn transforms).get? pair ≠ none := by
  induction transforms generalizing memo with
  | nil => exact hpair.resolve_left (by simp)
  | cons head rest ih =>
      refine ih ?_
      by_cases heq : pair = head.pair
      · exact Or.inr (by rw [get?_insert, if_pos heq]; simp)
      · rw [get?_insert, if_neg heq]
        refine hpair.imp_left ?_
        rintro ⟨transform, _ | ⟨_, hmem⟩, htransform⟩
        · exact absurd htransform heq
        · exact ⟨transform, hmem, htransform⟩

theorem initial_seeded : initial true = empty.learn Transform.common := rfl

theorem faithful_initial (options : SolverOptions) :
    Faithful options (initial options.seeded) := by
  cases hseeded : options.seeded with
  | false =>
      refine ⟨?_, ?_⟩
      · intro pair answer hget
        cases hget
      · intro hcontra
        rw [hseeded] at hcontra
        cases hcontra
  | true =>
      rw [initial_seeded]
      refine ⟨?_, ?_⟩
      · intro pair answer hget
        obtain ⟨transform, hcommon, rfl, rfl⟩ | hempty := get?_learn hget
        · refine ⟨?_, ?_⟩
          · intro hexcepted
            have hdepth : options.maxDepth ≠ 0 := fun hzero =>
              hexcepted ⟨hseeded, hzero, transform, hcommon, rfl⟩
            exact (Transform.search_common hcommon hdepth).symm
          · intro _ _ other hother hpair
            rw [Transform.common_pairs_distinct transform hcommon other hother hpair]
        · cases hempty
      · intro _ transform hcommon
        exact get?_learn_ne_none (Or.inl ⟨transform, hcommon, rfl⟩)

/-- Remembering what the search finds for a new pair keeps a memo faithful. -/
theorem Faithful.insert {options : SolverOptions} {memo : Memo}
    (hfaithful : Faithful options memo) {pair : Layout × Layout}
    (hnew : memo.get? pair = none) :
    Faithful options (memo.insert pair (search options.maxDepth pair.1 pair.2)) := by
  refine ⟨?_, ?_⟩
  · intro other answer hget
    rw [get?_insert] at hget
    split at hget
    · next heq =>
        subst heq
        cases hget
        refine ⟨fun _ => rfl, ?_⟩
        intro hseeded _ transform hcommon hpair
        exact absurd (hpair ▸ hnew) (hfaithful.seeds hseeded transform hcommon)
    · exact hfaithful.due other answer hget
  · intro hseeded transform hcommon
    rw [get?_insert]
    split
    · simp
    · exact hfaithful.seeds hseeded transform hcommon

/-- Equal layouts need no instruction, whatever the memo holds. -/
theorem isDue_self (options : SolverOptions) (layout : Layout) :
    IsDue options (Layout.canonicalPair layout layout) (some []) := by
  have hequal := (Layout.canonicalPair_fst_eq_snd_iff layout layout).mpr rfl
  refine ⟨?_, ?_⟩
  · intro _
    rw [search_eq_some_nil_iff.mpr hequal]
  · intro _ _ transform hcommon hpair
    rw [hpair] at hequal
    exact absurd hequal (Transform.common_first transform hcommon).1

/-- One call: the answer is the one due, and the memo stays faithful. -/
theorem Faithful.solve {options : SolverOptions} {state : Memo × Unit}
    (hfaithful : Faithful options state.1) (current target : Layout) :
    let outcome := (Solver.search options.maxDepth).memoized.solve state current target
    IsDue options (Layout.canonicalPair current target) outcome.1 ∧
      Faithful options outcome.2.1 := by
  intro outcome
  by_cases hequal : current = target
  · subst hequal
    rw [show outcome = _ from Solver.memoized_solve_self current]
    exact ⟨isDue_self options current, hfaithful⟩
  · cases hknown : state.1.known? current target with
    | some answer =>
        rw [show outcome = _ from Solver.memoized_solve_of_known hequal hknown]
        exact ⟨hfaithful.due _ answer hknown, hfaithful⟩
    | none =>
        rw [show outcome = _ from Solver.memoized_solve_of_unknown hequal hknown]
        have hinsert := hfaithful.insert hknown
        refine ⟨hinsert.due _ _ ?_, hinsert⟩
        rw [get?_insert, if_pos rfl]
        rfl

theorem Faithful.serve {options : SolverOptions} {state : Memo × Unit}
    (hfaithful : Faithful options state.1) (request : Request) :
    Faithful options (Memo.serve (Solver.search options.maxDepth) state request).1 := by
  cases request with
  | solve current target => exact (hfaithful.solve current target).2
  | peek current target => exact hfaithful

/-- Every memo of a run is faithful. -/
theorem Faithful.serveAll {options : SolverOptions} {state : Memo × Unit}
    (hfaithful : Faithful options state.1) (requests : List Request) :
    Faithful options (Memo.serveAll (Solver.search options.maxDepth) state requests).1 := by
  induction requests generalizing state with
  | nil => exact hfaithful
  | cons request rest ih => exact ih (hfaithful.serve request)

end Memo

/-- A search without depth finds nothing between different layouts. -/
theorem search_zero {current target : Layout} (hne : current ≠ target) :
    search 0 current target = none := by
  rw [search, if_neg hne]
  rfl

/-- After any calls, a memoized search answers as the search does on the pair it
is asked.  The only exception is the pairs of the common transforms, up to
renaming, in a seeded memo over a search without depth: it answers the
transform, and the search finds nothing. -/
theorem memoized_search_transparent (options : SolverOptions)
    (requests : List Memo.Request) (current target : Layout) :
    let inner := Solver.search options.maxDepth
    let state := Memo.serveAll inner (Memo.initial options.seeded, ()) requests
    let answer := (inner.memoized.solve state current target).1
    (¬ Memo.Excepted options (Layout.canonicalPair current target) →
        answer = search options.maxDepth current target) ∧
      (options.seeded = true → options.maxDepth = 0 →
        ∀ transform ∈ Memo.Transform.common,
          Layout.canonicalPair current target = (transform.source, transform.target) →
          answer = some transform.instructions ∧
            search options.maxDepth current target = none) := by
  intro inner state answer
  have hfaithful : Memo.Faithful options state.1 :=
    (Memo.faithful_initial options).serveAll requests
  have hdue := (hfaithful.solve current target).1
  refine ⟨?_, ?_⟩
  · intro hexcepted
    rw [← search_canonicalPair]
    exact hdue.searched hexcepted
  · intro hseeded hdepth transform hcommon hpair
    refine ⟨hdue.known hseeded hdepth transform hcommon hpair, ?_⟩
    have hne := (Memo.Transform.common_first transform hcommon).1
    have hdifferent : current ≠ target := by
      rw [ne_eq, ← Layout.canonicalPair_fst_eq_snd_iff, hpair]
      exact hne
    rw [hdepth]
    exact search_zero hdifferent

end AdviceCompiler
