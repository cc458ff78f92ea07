import AdviceCompiler.Proofs.Enumeration
import AdviceCompiler.Stack.Search

/-!
# The search finds the shortlex-first solution

A candidate that misses excludes itself, and one that is blocked excludes every
sequence with the same beginning.  These are the blocks the odometer passes
over, so the first candidate that reaches the target is the first solution of
its length.  Lengths are tried in ascending order.
-/

namespace AdviceCompiler

open Instruction Odometer

namespace Search

@[simp]
theorem later_eq_reaches {verdict : Verdict} :
    verdict.later = .reaches ↔ verdict = .reaches := by
  cases verdict <;> simp [Verdict.later]

theorem digit?_eq_none {verdict : Verdict} {length : Nat} :
    verdict.digit? length = none ↔ verdict = .reaches := by
  cases verdict <;> simp [Verdict.digit?]

/-- A candidate reaches the target exactly if its run ends there. -/
theorem evaluate_eq_reaches_iff (layout target : Layout) (sequence : List Instruction) :
    evaluate layout.reverse target.reverse sequence = .reaches ↔
      layout.run sequence = .ok target := by
  induction sequence generalizing layout with
  | nil =>
      simp only [evaluate, Layout.run]
      split
      · next heq => simp [List.reverse_injective heq]
      · next hne =>
          have hlayout : layout ≠ target := fun heq => hne (congrArg List.reverse heq)
          simp [hlayout]
  | cons instruction rest ih =>
      simp only [evaluate, Layout.run, Layout.step, effect]
      cases hnext : instruction.effectOnTop layout.reverse with
      | none => simp
      | some next =>
          have hrest := ih next.reverse
          rw [List.reverse_reverse] at hrest
          simpa using hrest

/-- Whatever begins as a blocked candidate does is blocked at the same place. -/
theorem evaluate_eq_blocked {stack target : List Slot} {candidate other : List Instruction}
    {index : Nat} (hblocked : evaluate stack target candidate = .blocked index)
    (hblock : other.take (index + 1) = candidate.take (index + 1)) :
    evaluate stack target other = .blocked index := by
  induction candidate generalizing stack other index with
  | nil =>
      simp only [evaluate] at hblocked
      split at hblocked <;> cases hblocked
  | cons instruction rest ih =>
      obtain _ | ⟨head, tail⟩ := other
      · simp at hblock
      · obtain ⟨rfl, htail⟩ := List.cons.inj hblock
        simp only [evaluate] at hblocked ⊢
        split at hblocked
        · next next hnext =>
            cases hverdict : evaluate next target rest with
            | reaches => simp [hverdict, Verdict.later] at hblocked
            | misses => simp [hverdict, Verdict.later] at hblocked
            | blocked inner =>
                simp only [hverdict, Verdict.later, Verdict.blocked.injEq] at hblocked
                subst hblocked
                rw [ih hverdict htail]
                rfl
        · exact hblocked

/-- No sequence of the block that the odometer leaves reaches the target. -/
theorem not_reaches_of_block {stack target : List Slot} {candidate other : List Instruction}
    {digit : Nat}
    (hdigit : (evaluate stack target candidate).digit? candidate.length = some digit)
    (hlength : other.length = candidate.length)
    (hblock : other.take (digit + 1) = candidate.take (digit + 1)) :
    evaluate stack target other ≠ .reaches := by
  cases hverdict : evaluate stack target candidate with
  | reaches => simp [hverdict, Verdict.digit?] at hdigit
  | misses =>
      simp only [hverdict, Verdict.digit?, Option.some.injEq] at hdigit
      have hwhole : other = candidate := by
        rwa [List.take_of_length_le (by omega), List.take_of_length_le (by omega)] at hblock
      rw [hwhole, hverdict]
      exact Verdict.noConfusion
  | blocked index =>
      simp only [hverdict, Verdict.digit?, Option.some.injEq] at hdigit
      subst hdigit
      rw [evaluate_eq_blocked hverdict hblock]
      exact Verdict.noConfusion

/-- `answer` is the first sequence that reaches the target among `candidate` and
the later ones of its length. -/
def IsFirstFrom (stack target : List Slot) (candidate : List Instruction) :
    Option (List Instruction) → Prop
  | some found =>
      Proper found ∧ found.length = candidate.length ∧
        evaluate stack target found = .reaches ∧
        ∀ other, Proper other → other.length = candidate.length → AtMost candidate other →
          evaluate stack target other = .reaches → AtMost found other
  | none =>
      ∀ other, Proper other → other.length = candidate.length → AtMost candidate other →
        evaluate stack target other ≠ .reaches

/-- A step of the odometer skips no sequence that reaches the target. -/
theorem advance_atMost_of_reaches {stack target : List Slot}
    {candidate other : List Instruction} {digit : Nat}
    (hdigit : (evaluate stack target candidate).digit? candidate.length = some digit)
    (hother : Proper other) (hlength : other.length = candidate.length)
    (hlater : AtMost candidate other) (hreaches : evaluate stack target other = .reaches) :
    ∃ next, advance candidate digit = some next ∧ AtMost next other := by
  have houtside : other.take (digit + 1) ≠ candidate.take (digit + 1) := fun hblock =>
    not_reaches_of_block hdigit hlength hblock hreaches
  have hafter : List.Lex Precedes candidate other :=
    hlater.resolve_left fun heq => houtside (heq ▸ rfl)
  cases hadvance : advance candidate digit with
  | none => exact absurd (block_of_advance_eq_none hadvance hother hlength hafter) houtside
  | some next => exact ⟨next, rfl, advance_atMost hadvance hother hlength hafter houtside⟩

theorem isFirstFrom_scan {stack target : List Slot} {candidate : List Instruction}
    (hproper : Proper candidate) :
    IsFirstFrom stack target candidate (scan stack target candidate) := by
  fun_induction scan stack target candidate with
  | case1 candidate hdigit =>
      exact ⟨hproper, rfl, digit?_eq_none.mp hdigit, fun other _ _ hlater _ => hlater⟩
  | case2 candidate digit hdigit next hadvance ih =>
      have hlength := length_advance hadvance
      have hskip : ∀ other, Proper other → other.length = candidate.length →
          AtMost candidate other → evaluate stack target other = .reaches →
          AtMost next other := by
        intro other hother hsame hlater hreaches
        obtain ⟨landed, hlanded, hle⟩ :=
          advance_atMost_of_reaches hdigit hother hsame hlater hreaches
        rw [hadvance] at hlanded
        cases hlanded
        exact hle
      have hfirst := ih (proper_advance hproper hadvance)
      cases hscan : scan stack target next with
      | none =>
          rw [hscan] at hfirst
          intro other hother hsame hlater hreaches
          exact hfirst other hother (hsame.trans hlength.symm)
            (hskip other hother hsame hlater hreaches) hreaches
      | some found =>
          rw [hscan] at hfirst
          obtain ⟨hfound, hsize, hreach, hleast⟩ := hfirst
          refine ⟨hfound, hsize.trans hlength, hreach, ?_⟩
          intro other hother hsame hlater hreaches
          exact hleast other hother (hsame.trans hlength.symm)
            (hskip other hother hsame hlater hreaches) hreaches
  | case3 candidate digit hdigit hadvance =>
      intro other hother hsame hlater hreaches
      obtain ⟨landed, hlanded, -⟩ :=
        advance_atMost_of_reaches hdigit hother hsame hlater hreaches
      rw [hadvance] at hlanded
      cases hlanded

/-- The visit of one length starts before all its sequences. -/
theorem isFirstFrom_ofLength (stack target : List Slot) (length : Nat) :
    IsFirstFrom stack target (List.replicate length .first) (ofLength stack target length) :=
  isFirstFrom_scan (proper_replicate_first length)

theorem ofLength_eq_some {current target : Layout} {length : Nat} {found : List Instruction}
    (hfound : ofLength current.reverse target.reverse length = some found) :
    Proper found ∧ found.length = length ∧ current.run found = .ok target ∧
      ∀ other, Proper other → other.length = length → current.run other = .ok target →
        AtMost found other := by
  have hfirst := isFirstFrom_ofLength current.reverse target.reverse length
  rw [hfound] at hfirst
  obtain ⟨hproper, hlength, hreaches, hleast⟩ := hfirst
  rw [List.length_replicate] at hlength hleast
  refine ⟨hproper, hlength, (evaluate_eq_reaches_iff _ _ _).mp hreaches, ?_⟩
  intro other hother hsame hrun
  have hlater := replicate_first_atMost hother
  rw [hsame] at hlater
  exact hleast other hother hsame hlater ((evaluate_eq_reaches_iff _ _ _).mpr hrun)

theorem ofLength_eq_none {current target : Layout} {length : Nat}
    (hnone : ofLength current.reverse target.reverse length = none)
    {other : List Instruction} (hother : Proper other) (hlength : other.length = length) :
    current.run other ≠ .ok target := by
  have hfirst := isFirstFrom_ofLength current.reverse target.reverse length
  rw [hnone] at hfirst
  intro hrun
  have hlater := replicate_first_atMost hother
  rw [hlength] at hlater
  refine hfirst other hother ?_ hlater ((evaluate_eq_reaches_iff _ _ _).mpr hrun)
  rw [hlength, List.length_replicate]

/-- Shorter lengths are tried first, so what is found is not preceded by any
other solution of the lengths tried. -/
theorem ofLengths_eq_some {current target : Layout} {length count : Nat}
    {found : List Instruction}
    (hfound : ofLengths current.reverse target.reverse length count = some found) :
    Proper found ∧ found.length < length + count ∧ current.run found = .ok target ∧
      ∀ other, Proper other → length ≤ other.length → current.run other = .ok target →
        ¬ List.Shortlex Precedes other found := by
  induction count generalizing length with
  | zero => cases hfound
  | succ count ih =>
      simp only [ofLengths] at hfound
      split at hfound
      · next hhere =>
          cases hfound
          obtain ⟨hproper, hlength, hrun, hleast⟩ := ofLength_eq_some hhere
          refine ⟨hproper, by omega, hrun, ?_⟩
          intro other hother hlong hreaches hbefore
          obtain hshorter | ⟨hsame, hlex⟩ := List.shortlex_def.mp hbefore
          · omega
          · exact (hleast other hother (by omega) hreaches).not_lex hlex
      · next hhere =>
          obtain ⟨hproper, hlength, hrun, hleast⟩ := ih hfound
          refine ⟨hproper, by omega, hrun, ?_⟩
          intro other hother hlong hreaches
          have hlonger : length ≠ other.length := fun hsame =>
            ofLength_eq_none hhere hother hsame.symm hreaches
          exact hleast other hother (by omega) hreaches

theorem ofLengths_eq_none {current target : Layout} {length count : Nat}
    (hnone : ofLengths current.reverse target.reverse length count = none)
    {other : List Instruction} (hother : Proper other) (hlower : length ≤ other.length)
    (hupper : other.length < length + count) : current.run other ≠ .ok target := by
  induction count generalizing length with
  | zero => omega
  | succ count ih =>
      simp only [ofLengths] at hnone
      split at hnone
      · cases hnone
      · next hhere =>
          by_cases hsame : other.length = length
          · exact ofLength_eq_none hhere hother hsame
          · exact ih hnone (by omega) (by omega)

end Search

/-- A sequence of at most `maxDepth` instructions of the alphabet whose run
turns `current` into `target`. -/
structure IsSolution (maxDepth : Nat) (current target : Layout)
    (sequence : List Instruction) : Prop where
  proper : ∀ instruction ∈ sequence, instruction ∈ alphabet
  bounded : sequence.length ≤ maxDepth
  reaches : current.run sequence = .ok target

/-- A solution that no other precedes: none is shorter, and none of its length
comes earlier digit by digit. -/
structure IsFirstSolution (maxDepth : Nat) (current target : Layout)
    (sequence : List Instruction) : Prop where
  solves : IsSolution maxDepth current target sequence
  first : ∀ other, IsSolution maxDepth current target other →
    ¬ List.Shortlex Precedes other sequence

theorem IsFirstSolution.unique {maxDepth : Nat} {current target : Layout}
    {left right : List Instruction} (hleft : IsFirstSolution maxDepth current target left)
    (hright : IsFirstSolution maxDepth current target right) : left = right :=
  Std.Trichotomous.trichotomous (r := List.Shortlex Precedes) left right
    (hright.first left hleft.solves) (hleft.first right hright.solves)

theorem not_solution_nil {maxDepth : Nat} {current target : Layout} (hne : current ≠ target) :
    ¬ IsSolution maxDepth current target [] := by
  intro hsolution
  exact hne (Except.ok.inj hsolution.reaches)

theorem IsSolution.one_le_length {maxDepth : Nat} {current target : Layout}
    {sequence : List Instruction} (hsolution : IsSolution maxDepth current target sequence)
    (hne : current ≠ target) : 1 ≤ sequence.length := by
  obtain _ | ⟨leading, rest⟩ := sequence
  · exact absurd hsolution (not_solution_nil hne)
  · exact Nat.le_add_left 1 rest.length

theorem isFirstSolution_of_search {maxDepth : Nat} {current target : Layout}
    {found : List Instruction} (hfound : search maxDepth current target = some found) :
    IsFirstSolution maxDepth current target found := by
  unfold search at hfound
  split at hfound
  · next heq =>
      cases hfound
      refine ⟨⟨by simp, Nat.zero_le _, congrArg Except.ok heq⟩, ?_⟩
      intro other _
      exact List.not_shortlex_nil_right
  · next hne =>
      obtain ⟨hproper, hlength, hrun, hleast⟩ := Search.ofLengths_eq_some hfound
      refine ⟨⟨hproper, by omega, hrun⟩, ?_⟩
      intro other hother
      exact hleast other hother.proper (hother.one_le_length hne) hother.reaches

theorem not_isSolution_of_search {maxDepth : Nat} {current target : Layout}
    (hnone : search maxDepth current target = none) (sequence : List Instruction) :
    ¬ IsSolution maxDepth current target sequence := by
  unfold search at hnone
  split at hnone
  · cases hnone
  · next hne =>
      intro hsolution
      have hlower := hsolution.one_le_length hne
      have hupper := hsolution.bounded
      exact Search.ofLengths_eq_none hnone hsolution.proper hlower (by omega) hsolution.reaches

/-- The search gives a sequence exactly if it is the first solution. -/
theorem search_eq_some_iff {maxDepth : Nat} {current target : Layout}
    {found : List Instruction} :
    search maxDepth current target = some found ↔
      IsFirstSolution maxDepth current target found := by
  refine ⟨isFirstSolution_of_search, fun hfirst => ?_⟩
  cases hsearch : search maxDepth current target with
  | none => exact absurd hfirst.solves (not_isSolution_of_search hsearch found)
  | some other => rw [(isFirstSolution_of_search hsearch).unique hfirst]

/-- The search gives up exactly if there is no solution. -/
theorem search_eq_none_iff {maxDepth : Nat} {current target : Layout} :
    search maxDepth current target = none ↔
      ∀ sequence, ¬ IsSolution maxDepth current target sequence := by
  refine ⟨not_isSolution_of_search, fun hnone => ?_⟩
  cases hsearch : search maxDepth current target with
  | none => rfl
  | some found => exact absurd (isFirstSolution_of_search hsearch).solves (hnone found)

/-- Layouts with the same solutions get the same answer. -/
theorem search_congr {current target current' target' : Layout} (maxDepth : Nat)
    (hsame : ∀ sequence,
      current.run sequence = .ok target ↔ current'.run sequence = .ok target') :
    search maxDepth current target = search maxDepth current' target' := by
  have hsolution : ∀ sequence, IsSolution maxDepth current target sequence ↔
      IsSolution maxDepth current' target' sequence := by
    intro sequence
    constructor
    · rintro ⟨hproper, hbounded, hreaches⟩
      exact ⟨hproper, hbounded, (hsame sequence).mp hreaches⟩
    · rintro ⟨hproper, hbounded, hreaches⟩
      exact ⟨hproper, hbounded, (hsame sequence).mpr hreaches⟩
  refine Option.ext fun found => ?_
  rw [search_eq_some_iff, search_eq_some_iff]
  constructor
  · rintro ⟨hsolves, hfirst⟩
    exact ⟨(hsolution found).mp hsolves,
      fun other hother => hfirst other ((hsolution other).mpr hother)⟩
  · rintro ⟨hsolves, hfirst⟩
    exact ⟨(hsolution found).mpr hsolves,
      fun other hother => hfirst other ((hsolution other).mp hother)⟩

/-- Nothing is found exactly where there is nothing to do. -/
theorem search_eq_some_nil_iff {maxDepth : Nat} {current target : Layout} :
    search maxDepth current target = some [] ↔ current = target := by
  constructor
  · intro hfound
    exact Except.ok.inj (isFirstSolution_of_search hfound).solves.reaches
  · intro heq
    rw [search, if_pos heq]

/-- A jump of the odometer at a blocked instruction passes over no solution. -/
theorem advance_of_blocked {maxDepth index : Nat} {current target : Layout}
    {candidate other : List Instruction}
    (hblocked : Search.evaluate current.reverse target.reverse candidate = .blocked index)
    (hsolution : IsSolution maxDepth current target other)
    (hlength : other.length = candidate.length)
    (hlater : List.Lex Precedes candidate other) :
    ∃ next, advance candidate index = some next ∧ ¬ List.Lex Precedes other next := by
  have hdigit : (Search.evaluate current.reverse target.reverse candidate).digit?
      candidate.length = some index := by
    rw [hblocked]
    rfl
  obtain ⟨next, hnext, hle⟩ := Search.advance_atMost_of_reaches hdigit hsolution.proper hlength
    (Or.inr hlater) ((Search.evaluate_eq_reaches_iff _ _ _).mpr hsolution.reaches)
  exact ⟨next, hnext, hle.not_lex⟩

/-- The search is exact: it answers where there is a solution and with the first
one, the empty sequence only between equal layouts and `NOP` never.  Its visit
of the sequences of one length jumps over no solution and comes to an end. -/
theorem search_finds_shortlex_first (maxDepth : Nat) (current target : Layout) :
    ((search maxDepth current target).isSome ↔
        ∃ sequence, IsSolution maxDepth current target sequence) ∧
      (∀ found, search maxDepth current target = some found ↔
        IsFirstSolution maxDepth current target found) ∧
      (search maxDepth current target = some [] ↔ current = target) ∧
      (∀ found, search maxDepth current target = some found → .nop ∉ found) ∧
      (∀ candidate other index,
        Search.evaluate current.reverse target.reverse candidate = .blocked index →
        IsSolution maxDepth current target other → other.length = candidate.length →
        List.Lex Precedes candidate other →
        ∃ next, advance candidate index = some next ∧ ¬ List.Lex Precedes other next) ∧
      (∀ candidate digit next, advance candidate digit = some next →
        remaining next < remaining candidate) := by
  refine ⟨?_, fun _ => search_eq_some_iff, search_eq_some_nil_iff, ?_, ?_, ?_⟩
  · rw [← not_iff_not, Bool.not_eq_true, Option.isSome_eq_false_iff, Option.isNone_iff_eq_none,
      search_eq_none_iff, not_exists]
  · intro found hfound
    exact Proper.nop_not_mem (isFirstSolution_of_search hfound).solves.proper
  · intro candidate other index hblocked hsolution hlength hlater
    exact advance_of_blocked hblocked hsolution hlength hlater
  · intro candidate digit next hadvance
    exact remaining_advance hadvance

end AdviceCompiler
