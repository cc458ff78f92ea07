import AdviceCompiler.Proofs.LayoutRenaming
import AdviceCompiler.Proofs.MemoTransparency

/-!
# The books of a memo

Nothing is assumed of the solver behind a memo: it may change its answers from
one question to the next.  The memo asks it once about each canonical pair, files
what it says and never touches the entry again, so the answers to the pair and to
all its renamings are settled by the first one.
-/

namespace AdviceCompiler

variable {σ : Type}

namespace Solver

/-- Keeps a log of the questions put to a solver. -/
def logged (inner : Solver σ) : Solver (σ × List (Layout × Layout)) where
  solve state current target :=
    let (answer, next) := inner.solve state.1 current target
    (answer, next, state.2 ++ [(current, target)])

end Solver

namespace Memo

/-- The pairs a memo has an entry for, the latest first. -/
def pairs (memo : Memo) : List (Layout × Layout) :=
  memo.entries.map Prod.fst

theorem length_pairs (memo : Memo) : memo.pairs.length = memo.size :=
  List.length_map Prod.fst

theorem get?_eq_none_iff {memo : Memo} {pair : Layout × Layout} :
    memo.get? pair = none ↔ pair ∉ memo.pairs := by
  rw [get?, pairs, List.lookup_eq_none_iff, List.mem_map]
  constructor
  · rintro hnone ⟨entry, hentry, rfl⟩
    simpa using hnone entry hentry
  · intro hnone entry hentry
    simpa using fun heq : pair = entry.1 => hnone ⟨entry, hentry, heq.symm⟩

/-- A pair that can be filed: it is canonical, and its layouts differ. -/
def Fileable (pair : Layout × Layout) : Prop :=
  pair.1 ≠ pair.2 ∧ Layout.canonicalPair pair.1 pair.2 = pair

theorem fileable_canonicalPair {current target : Layout} (hne : current ≠ target) :
    Fileable (Layout.canonicalPair current target) := by
  refine ⟨?_, Layout.canonicalPair_canonicalPair current target⟩
  rwa [ne_eq, Layout.canonicalPair_fst_eq_snd_iff]

/-- The entries of a memo are those it started with and one for each question in
the log. -/
structure Booked (seeded : Bool) (memo : Memo) (log : List (Layout × Layout)) : Prop where
  pairs_eq : memo.pairs = log.reverse ++ (initial seeded).pairs
  distinct : memo.pairs.Nodup
  fileable : ∀ pair ∈ memo.pairs, Fileable pair

theorem booked_initial (seeded : Bool) : Booked seeded (initial seeded) [] := by
  refine ⟨rfl, ?_, ?_⟩
  · cases seeded <;> decide
  · cases seeded <;> unfold Fileable <;> decide

theorem Booked.insert {seeded : Bool} {memo : Memo} {log : List (Layout × Layout)}
    (hbooked : Booked seeded memo log) {pair : Layout × Layout} (hnew : memo.get? pair = none)
    (hpair : Fileable pair) (answer : Answer) :
    Booked seeded (memo.insert pair answer) (log ++ [pair]) := by
  have hpairs : (memo.insert pair answer).pairs = pair :: memo.pairs := rfl
  refine ⟨?_, ?_, ?_⟩
  · rw [hpairs, hbooked.pairs_eq, List.reverse_append]
    rfl
  · rw [hpairs]
    exact List.nodup_cons.mpr ⟨get?_eq_none_iff.mp hnew, hbooked.distinct⟩
  · rw [hpairs]
    exact List.forall_mem_cons.mpr ⟨hpair, hbooked.fileable⟩

section Calls

variable {inner : Solver σ} {state : Memo × σ} {current target : Layout}

/-- An entry once made stays as it is. -/
theorem get?_serve {pair : Layout × Layout} {answer : Answer}
    (hfiled : state.1.get? pair = some answer) (request : Request) :
    (serve inner state request).1.get? pair = some answer := by
  cases request with
  | peek current target => exact hfiled
  | solve current target =>
      obtain hsame | ⟨-, hnew, hnext⟩ := Solver.memoized_solve_snd inner state current target
      · rw [serve, hsame, hfiled]
      · have hother : pair ≠ Layout.canonicalPair current target := by
          rintro rfl
          rw [hnew] at hfiled
          cases hfiled
        rw [serve, hnext, get?_insert, if_neg hother, hfiled]

theorem get?_serveAll {pair : Layout × Layout} {answer : Answer}
    (hfiled : state.1.get? pair = some answer) (requests : List Request) :
    (serveAll inner state requests).1.get? pair = some answer := by
  induction requests generalizing state with
  | nil => exact hfiled
  | cons request rest ih => exact ih (get?_serve hfiled request)

/-- What was answered is filed. -/
theorem known?_of_solve (hne : current ≠ target) :
    (inner.memoized.solve state current target).2.1.known? current target =
      some (inner.memoized.solve state current target).1 := by
  cases hknown : state.1.known? current target with
  | some answer => rw [Solver.memoized_solve_of_known hne hknown, hknown]
  | none => rw [Solver.memoized_solve_of_unknown hne hknown, known?, get?_insert, if_pos rfl]

/-- A log does not change what a memoized solver does. -/
theorem serve_logged (memo : Memo) (hidden : σ) (log : List (Layout × Layout))
    (request : Request) :
    let next := serve inner.logged (memo, hidden, log) request
    serve inner (memo, hidden) request = (next.1, next.2.1) := by
  cases request with
  | peek current target => rfl
  | solve current target =>
      by_cases hequal : current = target
      · subst hequal
        simp only [serve, Solver.memoized_solve_self]
      · cases hknown : memo.known? current target with
        | some answer =>
            have hplain : inner.memoized.solve (memo, hidden) current target =
                (answer, memo, hidden) := Solver.memoized_solve_of_known hequal hknown
            have hlogged : inner.logged.memoized.solve (memo, hidden, log) current target =
                (answer, memo, hidden, log) := Solver.memoized_solve_of_known hequal hknown
            simp only [serve, hplain, hlogged]
        | none =>
            have hplain := @Solver.memoized_solve_of_unknown σ inner (memo, hidden) _ _ hequal
              hknown
            have hlogged := @Solver.memoized_solve_of_unknown _ inner.logged
              (memo, hidden, log) _ _ hequal hknown
            simp only [serve, hplain, hlogged]
            rfl

theorem serveAll_logged (memo : Memo) (hidden : σ) (log : List (Layout × Layout))
    (requests : List Request) :
    let final := serveAll inner.logged (memo, hidden, log) requests
    serveAll inner (memo, hidden) requests = (final.1, final.2.1) := by
  induction requests generalizing memo hidden log with
  | nil => rfl
  | cons request rest ih =>
      have hstep := @serve_logged σ inner memo hidden log request
      simp only [serveAll, List.foldl_cons] at hstep ih ⊢
      rw [hstep]
      exact ih _ _ _

end Calls

theorem Booked.serve {inner : Solver σ} {seeded : Bool}
    {state : Memo × σ × List (Layout × Layout)} (hbooked : Booked seeded state.1 state.2.2)
    (request : Request) :
    Booked seeded (Memo.serve inner.logged state request).1
      (Memo.serve inner.logged state request).2.2 := by
  cases request with
  | peek current target => exact hbooked
  | solve current target =>
      obtain hsame | ⟨hne, hnew, hnext⟩ :=
        Solver.memoized_solve_snd inner.logged state current target
      · rw [Memo.serve, hsame]
        exact hbooked
      · rw [Memo.serve, hnext]
        exact hbooked.insert hnew (fileable_canonicalPair hne) _

theorem Booked.serveAll {inner : Solver σ} {seeded : Bool}
    {state : Memo × σ × List (Layout × Layout)} (hbooked : Booked seeded state.1 state.2.2)
    (requests : List Request) :
    Booked seeded (Memo.serveAll inner.logged state requests).1
      (Memo.serveAll inner.logged state requests).2.2 := by
  induction requests generalizing state with
  | nil => exact hbooked
  | cons request rest ih => exact ih (hbooked.serve request)

theorem Booked.known?_self {seeded : Bool} {memo : Memo} {log : List (Layout × Layout)}
    (hbooked : Booked seeded memo log) (layout : Layout) : memo.known? layout layout = none := by
  rw [known?, get?_eq_none_iff]
  intro hmem
  exact (hbooked.fileable _ hmem).1 ((Layout.canonicalPair_fst_eq_snd_iff layout layout).mpr rfl)

theorem Booked.size_eq {seeded : Bool} {memo : Memo} {log : List (Layout × Layout)}
    (hbooked : Booked seeded memo log) :
    memo.size = (if seeded then Transform.common.length else 0) + log.length := by
  have hseeds : (initial seeded).pairs.length =
      if seeded then Transform.common.length else 0 := by
    cases seeded <;> rfl
  rw [← length_pairs, hbooked.pairs_eq, List.length_append, List.length_reverse, hseeds,
    Nat.add_comm]

end Memo

/-- The books of a memo in front of any solver, after any calls and seeded or not.
The log of the solver behind it has no pair twice, and only canonical pairs of
different layouts; the memo has one entry for each transform it started with and
for each question in the log.  The next call changes nothing or asks once, about a
pair without an entry; to peek changes nothing and finds nothing between equal
layouts.  No entry changes later, so an answer once given to different layouts is
given to them under all names from then on. -/
theorem memo_asks_once_and_keeps_answers (inner : Solver σ) (fresh : σ) (seeded : Bool)
    (requests : List Memo.Request) :
    let state := Memo.serveAll inner.logged (Memo.initial seeded, fresh, []) requests
    let memo := state.1
    let log := state.2.2
    Memo.serveAll inner (Memo.initial seeded, fresh) requests = (memo, state.2.1) ∧
      log.Nodup ∧
      (∀ pair ∈ log, pair.1 ≠ pair.2 ∧ Layout.canonicalPair pair.1 pair.2 = pair) ∧
      (memo.entries.map Prod.fst).Nodup ∧
      memo.size = (if seeded then Memo.Transform.common.length else 0) + log.length ∧
      (∀ request, Memo.serve inner.logged state request = state ∨
        ∃ current target answer hidden, request = .solve current target ∧ current ≠ target ∧
          let pair := Layout.canonicalPair current target
          memo.get? pair = none ∧
            Memo.serve inner.logged state request =
              (memo.insert pair answer, hidden, log ++ [pair])) ∧
      (∀ current target, Memo.serve inner.logged state (.peek current target) = state) ∧
      (∀ layout, memo.known? layout layout = none) ∧
      (∀ later pair answer, memo.get? pair = some answer →
        (Memo.serveAll inner.logged state later).1.get? pair = some answer) ∧
      ∀ current target, current ≠ target → ∀ later current' target',
        Layout.Renamed (current, target) (current', target') →
          let given := inner.logged.memoized.solve state current target
          let final := Memo.serveAll inner.logged given.2 later
          final.1.known? current' target' = some given.1 ∧
            inner.logged.memoized.solve final current' target' = (given.1, final) := by
  intro state memo log
  have hbooked : Memo.Booked seeded memo log :=
    (Memo.booked_initial seeded).serveAll requests
  have hdistinct := hbooked.distinct
  rw [hbooked.pairs_eq] at hdistinct
  refine ⟨Memo.serveAll_logged _ _ _ requests, ?_, ?_, hbooked.distinct, hbooked.size_eq, ?_,
    fun _ _ => rfl, hbooked.known?_self, ?_, ?_⟩
  · exact List.nodup_reverse.mp (List.nodup_append.mp hdistinct).1
  · intro pair hpair
    apply hbooked.fileable pair
    rw [hbooked.pairs_eq]
    exact List.mem_append_left _ (List.mem_reverse.mpr hpair)
  · intro request
    cases request with
    | peek current target => exact Or.inl rfl
    | solve current target =>
        obtain hsame | ⟨hne, hnew, hnext⟩ :=
          Solver.memoized_solve_snd inner.logged state current target
        · exact Or.inl hsame
        · exact Or.inr ⟨current, target, _, _, rfl, hne, hnew, hnext⟩
  · intro later pair answer hfiled
    exact Memo.get?_serveAll hfiled later
  · intro current target hne later current' target' hrenamed given final
    have hfiled : given.2.1.get? (Layout.canonicalPair current target) = some given.1 :=
      Memo.known?_of_solve hne
    have hknown : final.1.known? current' target' = some given.1 := by
      rw [Memo.known?, hrenamed.canonicalPair_eq]
      exact Memo.get?_serveAll hfiled later
    have hdifferent : current' ≠ target' := fun hequal =>
      hne (hrenamed.fst_eq_snd_iff.mp hequal)
    exact ⟨hknown, Solver.memoized_solve_of_known hdifferent hknown⟩

end AdviceCompiler
