import Mathlib.Data.List.Sort
import AdviceCompiler.Verification.Bindings

/-!
# The shape of accepted bindings

Bindings without a diagnostic fill the positions below the arity, one each.  In
position order they are an optional receiver, arguments of ascending index and
an optional result, and bindings of this shape have no diagnostic.  The rules are
checked along one pass over the bindings; both directions are by induction on the
bindings still to come.
-/

namespace AdviceCompiler

namespace Advice

/-- The positions of the bindings are exactly those of the parameters. -/
def Filled (advice : Advice) : Prop :=
  advice.bindings.map Prod.fst = List.range advice.arity

theorem filled_of_bound {advice : Advice}
    (hbound : ∀ position < advice.arity, advice.binding? position ≠ none)
    (hbelow : ∀ entry ∈ advice.bindings, entry.1 < advice.arity) : advice.Filled := by
  have hascending : (advice.bindings.map Prod.fst).Pairwise (· < ·) :=
    List.pairwise_map.mpr advice.ascending
  apply hascending.eq_of_mem_iff List.pairwise_lt_range
  intro position
  rw [List.mem_range, List.mem_map]
  constructor
  · rintro ⟨entry, hentry, rfl⟩
    exact hbelow entry hentry
  · intro hlt
    rcases Option.ne_none_iff_exists'.mp (hbound position hlt) with ⟨binding, hbinding⟩
    rcases List.lookup_eq_some_iff.mp hbinding with ⟨before, after, heq, -⟩
    exact ⟨(position, binding), by simp [heq], rfl⟩

theorem Filled.length_values {advice : Advice} (hfilled : advice.Filled) :
    advice.values.length = advice.arity := by
  have hlength := congrArg List.length hfilled
  rwa [List.length_map, List.length_range, ← List.length_map Prod.snd] at hlength

theorem binding?_of_mem {advice : Advice} {position : Nat} {binding : Binding}
    (hmem : (position, binding) ∈ advice.bindings) :
    advice.binding? position = some binding := by
  rcases List.mem_iff_append.mp hmem with ⟨before, after, hbindings⟩
  apply List.lookup_eq_some_iff.mpr
  refine ⟨before, after, hbindings, ?_⟩
  intro entry hentry
  have hascending : (before ++ (position, binding) :: after).Pairwise
      fun left right => left.1 < right.1 := hbindings ▸ advice.ascending
  have hlt := (List.pairwise_append.mp hascending).2.2 entry hentry _ List.mem_cons_self
  simpa using hlt.ne'

end Advice

/-- What an advice takes from the intercepted call. -/
structure Intake where
  receiver : Bool
  /-- The indices of the arguments taken. -/
  arguments : List Nat
  result : Bool

namespace Intake

/-- What is taken before the call, in the order of the call. -/
def operands (intake : Intake) : List Binding :=
  (if intake.receiver then [.receiver] else []) ++ intake.arguments.map .argument

def values (intake : Intake) : List Binding :=
  intake.operands ++ if intake.result then [.result] else []

structure WellFormed (intake : Intake) (pointcut : Option Method) (knownStatic : Option Bool) :
    Prop where
  ascending : intake.arguments.Pairwise (· < ·)
  inBounds : ∀ index ∈ intake.arguments, ∀ method, pointcut = some method →
    index < method.params.length
  receiver : intake.receiver = true → knownStatic ≠ some true

end Intake

/-- The bindings of an advice are in order for a pointcut of this staticness. -/
structure Advice.WellBound (advice : Advice) (knownStatic : Option Bool) : Prop where
  filled : advice.Filled
  shape : ∃ intake : Intake, advice.values = intake.values ∧
    intake.WellFormed advice.pointcut knownStatic

namespace Intake

variable {advice : Advice} {intake : Intake}

theorem hasResult_eq (hvalues : advice.values = intake.values) :
    advice.hasResult = intake.result := by
  rw [Advice.hasResult, hvalues, values, operands]
  cases intake.receiver <;> cases intake.result <;> simp [Binding.isResult]

theorem operands_eq (hvalues : advice.values = intake.values) :
    advice.operands = intake.operands := by
  rw [Advice.operands, hvalues, values, operands]
  cases intake.receiver <;> cases intake.result <;> simp [Binding.isResult]

end Intake

namespace Subject

variable {subject : Subject} {knownStatic : Option Bool} {seen : Seen} {position : Nat}

theorem receiverDiagnostics_eq_nil :
    subject.receiverDiagnostics knownStatic seen position = [] ↔
      seen.receiver = false ∧ position = 0 ∧ knownStatic ≠ some true := by
  unfold receiverDiagnostics
  cases seen.receiver <;> by_cases hposition : position = 0 <;>
    by_cases hstatic : knownStatic = some true <;> simp [hposition, hstatic]

theorem resultDiagnostics_eq_nil :
    subject.resultDiagnostics seen position = [] ↔
      seen.result = false ∧ position + 1 = subject.advice.arity := by
  unfold resultDiagnostics
  cases seen.result <;> by_cases hposition : position + 1 = subject.advice.arity <;>
    simp [hposition]

theorem argumentDiagnostics_eq_nil {index : Nat} :
    subject.argumentDiagnostics seen position index = [] ↔
      (∀ pointcut, subject.advice.pointcut = some pointcut → index < pointcut.params.length) ∧
        index ∉ seen.arguments ∧ ∀ largest, seen.largest = some largest → largest < index := by
  unfold argumentDiagnostics
  cases subject.advice.pointcut <;> cases seen.largest <;>
    simp [List.append_eq_nil_iff]

theorem bindingDiagnosticsFrom_cons_eq_nil {binding : Binding} {rest : List (Nat × Binding)} :
    subject.bindingDiagnosticsFrom knownStatic seen ((position, binding) :: rest) = [] ↔
      position < subject.advice.arity ∧
        subject.boundDiagnostics knownStatic seen position binding = [] ∧
        subject.bindingDiagnosticsFrom knownStatic (seen.add binding) rest = [] := by
  rw [bindingDiagnosticsFrom]
  split
  · next hbeyond => simp [Nat.not_lt.mpr hbeyond]
  · next hbelow => simp [Nat.not_le.mp hbelow]

theorem unboundParameters_eq_nil :
    subject.unboundParameters = [] ↔
      ∀ position < subject.advice.arity, subject.advice.binding? position ≠ none := by
  simp only [unboundParameters, List.filterMap_eq_nil_iff, List.mem_range]
  apply forall_congr'
  intro position
  apply imp_congr_right
  intro _
  cases subject.advice.binding? position <;> simp

theorem lt_arity_of_clean {entries : List (Nat × Binding)}
    (hclean : subject.bindingDiagnosticsFrom knownStatic seen entries = []) :
    ∀ entry ∈ entries, entry.1 < subject.advice.arity := by
  induction entries generalizing seen with
  | nil => simp
  | cons entry rest ih =>
      rcases bindingDiagnosticsFrom_cons_eq_nil.mp hclean with ⟨hbelow, -, hrest⟩
      exact List.forall_mem_cons.mpr ⟨hbelow, ih hrest⟩

theorem Seen.largest_add_argument {seen : Seen} {index : Nat}
    (hlargest : ∀ largest, seen.largest = some largest → largest < index) :
    (seen.add (.argument index)).largest = some index := by
  simp only [Seen.add]
  cases hseen : seen.largest with
  | none => rfl
  | some largest => simp [Nat.max_eq_right (hlargest largest hseen).le]

/-- The shape of bindings from which the receiver is missing: they are arguments
above those seen before, and at most one result. -/
theorem exists_arguments_of_clean {entries : List (Nat × Binding)}
    (hascending : Ascending entries)
    (hlater : ∀ entry ∈ entries, entry.1 = 0 → entry.2 ≠ .receiver)
    (hclean : subject.bindingDiagnosticsFrom knownStatic seen entries = []) :
    ∃ arguments result,
      entries.map Prod.snd = (Intake.mk false arguments result).values ∧
      (Intake.mk false arguments result).WellFormed subject.advice.pointcut knownStatic ∧
      ∀ index ∈ arguments, ∀ largest, seen.largest = some largest → largest < index := by
  induction entries generalizing seen with
  | nil => exact ⟨[], false, rfl, ⟨List.Pairwise.nil, by simp, by simp⟩, by simp⟩
  | cons entry rest ih =>
      rcases entry with ⟨position, binding⟩
      rcases bindingDiagnosticsFrom_cons_eq_nil.mp hclean with ⟨-, hbound, hrest⟩
      rcases List.pairwise_cons.mp hascending with ⟨habove, hascendingRest⟩
      cases binding with
      | receiver =>
          have hposition := (receiverDiagnostics_eq_nil.mp hbound).2.1
          exact absurd rfl (hlater (position, .receiver) List.mem_cons_self hposition)
      | result =>
          -- The result is at the last position, so no later one is left.
          have hlast := (resultDiagnostics_eq_nil.mp hbound).2
          have hempty : rest = [] := by
            apply List.eq_nil_iff_forall_not_mem.mpr
            intro entry hentry
            have hbelow := lt_arity_of_clean hrest entry hentry
            have hafter : position < entry.1 := habove entry hentry
            omega
          subst hempty
          exact ⟨[], true, rfl, ⟨List.Pairwise.nil, by simp, by simp⟩, by simp⟩
      | argument index =>
          rcases argumentDiagnostics_eq_nil.mp hbound with ⟨hbounds, -, hlargest⟩
          rcases ih hascendingRest (fun entry hentry => hlater entry (.tail _ hentry)) hrest
            with ⟨arguments, result, hvalues, hformed, hhigher⟩
          have hfloor : ∀ later ∈ arguments, index < later := by
            intro later hmem
            exact hhigher later hmem index (Seen.largest_add_argument hlargest)
          refine ⟨index :: arguments, result, ?_, ⟨?_, ?_, by simp⟩, ?_⟩
          · simp [hvalues, Intake.values, Intake.operands]
          · exact List.pairwise_cons.mpr ⟨hfloor, hformed.ascending⟩
          · exact List.forall_mem_cons.mpr ⟨hbounds, hformed.inBounds⟩
          · intro later hmem largest hseen
            rcases List.mem_cons.mp hmem with rfl | htail
            · exact hlargest largest hseen
            · exact (hlargest largest hseen).trans (hfloor later htail)

theorem exists_intake_of_clean {entries : List (Nat × Binding)}
    (hascending : Ascending entries)
    (hclean : subject.bindingDiagnosticsFrom knownStatic seen entries = []) :
    ∃ intake : Intake, entries.map Prod.snd = intake.values ∧
      intake.WellFormed subject.advice.pointcut knownStatic := by
  by_cases hfirst : ∃ rest, entries = (0, .receiver) :: rest
  · rcases hfirst with ⟨rest, rfl⟩
    rcases bindingDiagnosticsFrom_cons_eq_nil.mp hclean with ⟨-, hbound, hrest⟩
    rcases List.pairwise_cons.mp hascending with ⟨habove, hascendingRest⟩
    have hlater : ∀ entry ∈ rest, entry.1 = 0 → entry.2 ≠ .receiver := by
      intro entry hentry hzero
      exact absurd hzero (habove entry hentry).ne'
    rcases exists_arguments_of_clean hascendingRest hlater hrest
      with ⟨arguments, result, hvalues, hformed, -⟩
    refine ⟨⟨true, arguments, result⟩, ?_, hformed.ascending, hformed.inBounds, ?_⟩
    · simp [hvalues, Intake.values, Intake.operands]
    · intro _
      exact (receiverDiagnostics_eq_nil.mp hbound).2.2
  · have hlater : ∀ entry ∈ entries, entry.1 = 0 → entry.2 ≠ .receiver := by
      intro entry hentry hzero hreceiver
      cases entries with
      | nil => cases hentry
      | cons head rest =>
          rcases List.mem_cons.mp hentry with rfl | htail
          · exact hfirst ⟨rest, by rw [← hzero, ← hreceiver]⟩
          · have habove := (List.pairwise_cons.mp hascending).1 entry htail
            omega
    rcases exists_arguments_of_clean hascending hlater hclean
      with ⟨arguments, result, hvalues, hformed, -⟩
    exact ⟨⟨false, arguments, result⟩, hvalues, hformed⟩

/-- Bindings without a diagnostic are well formed. -/
theorem wellBound_of_clean (hclean : subject.bindingDiagnostics knownStatic = []) :
    subject.advice.WellBound knownStatic := by
  rcases List.append_eq_nil_iff.mp hclean with ⟨hunbound, hbindings⟩
  constructor
  · exact Advice.filled_of_bound (unboundParameters_eq_nil.mp hunbound)
      (lt_arity_of_clean hbindings)
  · exact exists_intake_of_clean subject.advice.ascending hbindings

/-- No argument seen so far is above the largest one. -/
def Seen.Bounded (seen : Seen) : Prop :=
  ∀ index ∈ seen.arguments, ∃ largest, seen.largest = some largest ∧ index ≤ largest

theorem Seen.Bounded.add_argument {seen : Seen} (hbounded : seen.Bounded) {index : Nat}
    (hlargest : ∀ largest, seen.largest = some largest → largest < index) :
    (seen.add (.argument index)).Bounded := by
  intro earlier hearlier
  refine ⟨index, largest_add_argument hlargest, ?_⟩
  obtain rfl | hbefore := List.mem_cons.mp hearlier
  · exact le_rfl
  · obtain ⟨largest, hseen, hle⟩ := hbounded earlier hbefore
    exact hle.trans (hlargest largest hseen).le

/-- Arguments above those seen before and at most one result, at consecutive
positions up to the last, have no diagnostic. -/
theorem clean_of_arguments {entries : List (Nat × Binding)} {start : Nat}
    {arguments : List Nat} {result : Bool}
    (hpositions : entries.map Prod.fst = List.range' start entries.length)
    (harity : start + entries.length = subject.advice.arity)
    (hvalues : entries.map Prod.snd = (Intake.mk false arguments result).values)
    (hformed : (Intake.mk false arguments result).WellFormed subject.advice.pointcut knownStatic)
    (hbounded : seen.Bounded) (hunseen : seen.result = false)
    (hhigher : ∀ index ∈ arguments, ∀ largest, seen.largest = some largest → largest < index) :
    subject.bindingDiagnosticsFrom knownStatic seen entries = [] := by
  induction entries generalizing start arguments seen with
  | nil => rfl
  | cons entry rest ih =>
      obtain ⟨position, binding⟩ := entry
      rw [List.map_cons, List.length_cons, List.range'_succ, List.cons.injEq] at hpositions
      obtain ⟨rfl, hpositionsRest⟩ := hpositions
      rw [List.length_cons] at harity
      rw [List.map_cons] at hvalues
      refine bindingDiagnosticsFrom_cons_eq_nil.mpr ⟨by omega, ?_⟩
      cases arguments with
      | nil =>
          -- Only the result is left, so this is the last position.
          cases result with
          | false => cases hvalues
          | true =>
              obtain ⟨rfl, hnone⟩ := List.cons.inj hvalues
              rw [List.map_eq_nil_iff] at hnone
              subst hnone
              exact ⟨resultDiagnostics_eq_nil.mpr ⟨hunseen, harity⟩, rfl⟩
      | cons index later =>
          obtain ⟨rfl, hvaluesRest⟩ := List.cons.inj hvalues
          obtain ⟨hfloor, hascending⟩ := List.pairwise_cons.mp hformed.ascending
          obtain ⟨hinBounds, hinBoundsRest⟩ := List.forall_mem_cons.mp hformed.inBounds
          obtain ⟨hlargest, -⟩ := List.forall_mem_cons.mp hhigher
          have hfresh : index ∉ seen.arguments := by
            intro hmem
            obtain ⟨largest, hseen, hle⟩ := hbounded index hmem
            exact absurd (hlargest largest hseen) (Nat.not_lt.mpr hle)
          refine ⟨argumentDiagnostics_eq_nil.mpr ⟨hinBounds, hfresh, hlargest⟩, ?_⟩
          refine ih hpositionsRest (by omega) hvaluesRest ⟨hascending, hinBoundsRest, by simp⟩
            (hbounded.add_argument hlargest) hunseen ?_
          intro next hnext largest hseen
          rw [Seen.largest_add_argument hlargest, Option.some.injEq] at hseen
          exact hseen ▸ hfloor next hnext

/-- Bindings of the right shape at the positions of the parameters have no
diagnostic. -/
theorem clean_of_intake {entries : List (Nat × Binding)} {intake : Intake}
    (hpositions : entries.map Prod.fst = List.range subject.advice.arity)
    (hvalues : entries.map Prod.snd = intake.values)
    (hformed : intake.WellFormed subject.advice.pointcut knownStatic) :
    subject.bindingDiagnosticsFrom knownStatic {} entries = [] := by
  have hlength : entries.length = subject.advice.arity := by
    simpa using congrArg List.length hpositions
  rw [← hlength, List.range_eq_range'] at hpositions
  obtain ⟨receiver, arguments, result⟩ := intake
  cases receiver with
  | false =>
      exact clean_of_arguments hpositions (by omega) hvalues hformed (by simp [Seen.Bounded]) rfl
        (by simp)
  | true =>
      cases entries with
      | nil => cases hvalues
      | cons entry rest =>
          obtain ⟨position, binding⟩ := entry
          rw [List.map_cons, List.length_cons, List.range'_succ, List.cons.injEq] at hpositions
          obtain ⟨rfl, hpositionsRest⟩ := hpositions
          rw [List.length_cons] at hlength
          obtain ⟨rfl, hvaluesRest⟩ := List.cons.inj hvalues
          have hreceiver : subject.receiverDiagnostics knownStatic {} 0 = [] :=
            receiverDiagnostics_eq_nil.mpr ⟨rfl, rfl, hformed.receiver rfl⟩
          refine bindingDiagnosticsFrom_cons_eq_nil.mpr ⟨by omega, hreceiver, ?_⟩
          exact clean_of_arguments hpositionsRest (by omega) hvaluesRest
            ⟨hformed.ascending, hformed.inBounds, by simp⟩ (by simp [Seen.Bounded, Seen.add]) rfl
            (by simp [Seen.add])

/-- Bindings are without a diagnostic exactly if they are well formed. -/
theorem bindingDiagnostics_eq_nil :
    subject.bindingDiagnostics knownStatic = [] ↔ subject.advice.WellBound knownStatic := by
  refine ⟨wellBound_of_clean, ?_⟩
  rintro ⟨hfilled, intake, hvalues, hformed⟩
  have hpositions : subject.advice.bindings.map Prod.fst = List.range subject.advice.arity :=
    hfilled
  refine List.append_eq_nil_iff.mpr ⟨unboundParameters_eq_nil.mpr ?_, ?_⟩
  · intro position hposition
    rw [← List.mem_range, ← hpositions] at hposition
    obtain ⟨⟨_, binding⟩, hentry, rfl⟩ := List.mem_map.mp hposition
    simp [Advice.binding?_of_mem hentry]
  · exact clean_of_intake hpositions hvalues hformed

end Subject

end AdviceCompiler
