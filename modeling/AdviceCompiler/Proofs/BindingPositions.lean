import Mathlib.Order.Bounds.Basic
import AdviceCompiler.Proofs.BindingShape

/-!
# Where bindings are reported

The rules on bindings are checked along one pass that remembers what has been bound
so far.  What it remembers at a position is a summary of the bindings of all earlier
positions, so each diagnostic can be told from the bindings alone: which rule is
broken at which position, in which order, and what comes before.
-/

namespace AdviceCompiler

namespace Advice

variable {advice : Advice} {position : Nat} {binding : Binding}

/-- An earlier position has the binding. -/
def BoundBefore (advice : Advice) (position : Nat) (binding : Binding) : Prop :=
  ∃ earlier < position, advice.binding? earlier = some binding

/-- When the binding of a position below the arity breaks the rule of a code. -/
def Breaks (advice : Advice) (knownStatic : Option Bool) (position : Nat) :
    Binding → DiagnosticCode → Prop
  | .receiver, .receiverRepeated => advice.BoundBefore position .receiver
  | .receiver, .receiverNotFirst => ¬ advice.BoundBefore position .receiver ∧ position ≠ 0
  | .receiver, .receiverOnStatic => knownStatic = some true
  | .result, .resultRepeated => advice.BoundBefore position .result
  | .result, .resultNotLast =>
      ¬ advice.BoundBefore position .result ∧ position + 1 ≠ advice.arity
  | .argument index, .argumentOutOfBounds =>
      ∃ pointcut, advice.pointcut = some pointcut ∧ ¬ index < pointcut.params.length
  | .argument index, .argumentRepeated => advice.BoundBefore position (.argument index)
  | .argument index, .argumentOutOfOrder =>
      ∃ other, advice.BoundBefore position (.argument other) ∧ index ≤ other
  | _, _ => False

/-- The rules on a value that is bound, in the order in which they are reported. -/
def rulesOn : Binding → List DiagnosticCode
  | .receiver => [.receiverRepeated, .receiverNotFirst, .receiverOnStatic]
  | .result => [.resultRepeated, .resultNotLast]
  | .argument _ => [.argumentOutOfBounds, .argumentRepeated, .argumentOutOfOrder]

noncomputable instance (advice : Advice) (knownStatic : Option Bool) (position : Nat)
    (binding : Binding) (code : DiagnosticCode) :
    Decidable (advice.Breaks knownStatic position binding code) :=
  Classical.propDecidable _

/-- The codes that the binding of a position gives.  Beyond the arity no other rule
counts. -/
noncomputable def brokenRules (advice : Advice) (knownStatic : Option Bool) (position : Nat)
    (binding : Binding) : List DiagnosticCode :=
  if advice.arity ≤ position then [.bindingBeyondArity]
  else (rulesOn binding).filter fun code => advice.Breaks knownStatic position binding code

theorem mem_bindings_iff :
    (position, binding) ∈ advice.bindings ↔ advice.binding? position = some binding := by
  constructor
  · exact binding?_of_mem
  · intro hbinding
    obtain ⟨before, after, hbindings, -⟩ := List.lookup_eq_some_iff.mp hbinding
    simp [hbindings]

/-- The values bound at earlier positions. -/
def valuesBefore (advice : Advice) (position : Nat) : List Binding :=
  (advice.bindings.filter fun entry => entry.1 < position).map Prod.snd

theorem mem_valuesBefore :
    binding ∈ advice.valuesBefore position ↔ advice.BoundBefore position binding := by
  simp [valuesBefore, BoundBefore, mem_bindings_iff, and_comm]

section Gone

variable {gone rest : List (Nat × Binding)}
variable (hbindings : advice.bindings = gone ++ (position, binding) :: rest)

include hbindings

theorem lt_of_mem_gone {entry : Nat × Binding} (hentry : entry ∈ gone) : entry.1 < position := by
  have hascending : Ascending (gone ++ (position, binding) :: rest) :=
    hbindings ▸ advice.ascending
  exact (List.pairwise_append.mp hascending).2.2 entry hentry _ List.mem_cons_self

/-- When a pass comes to a position, what it has gone through are the earlier
ones. -/
theorem valuesBefore_of_gone : advice.valuesBefore position = gone.map Prod.snd := by
  have hascending : Ascending (gone ++ (position, binding) :: rest) :=
    hbindings ▸ advice.ascending
  have hgone : gone.filter (fun entry => entry.1 < position) = gone :=
    List.filter_eq_self.mpr fun entry hentry => decide_eq_true (lt_of_mem_gone hbindings hentry)
  have hrest : ((position, binding) :: rest).filter (fun entry => entry.1 < position) = [] := by
    apply List.filter_eq_nil_iff.mpr
    intro entry hentry
    rcases List.mem_cons.mp hentry with rfl | hlater
    · simp
    · have hfrom := (List.pairwise_append.mp hascending).2.1
      have hafter : position < entry.1 := (List.pairwise_cons.mp hfrom).1 entry hlater
      simpa using hafter.le
  rw [valuesBefore, hbindings, List.filter_append, hgone, hrest, List.append_nil]

end Gone

end Advice

namespace Subject

variable {subject : Subject} {knownStatic : Option Bool} {position : Nat} {binding : Binding}

namespace Seen

variable {seen : Seen} {values : List Binding}

/-- A summary of bound values. -/
structure Covers (seen : Seen) (values : List Binding) : Prop where
  receiver : seen.receiver = true ↔ .receiver ∈ values
  result : seen.result = true ↔ .result ∈ values
  arguments : ∀ index, index ∈ seen.arguments ↔ .argument index ∈ values
  unbound : seen.largest = none → ∀ index, .argument index ∉ values
  largest : ∀ largest, seen.largest = some largest →
    IsGreatest {index | .argument index ∈ values} largest

theorem covers_nil : ({} : Seen).Covers [] :=
  ⟨by simp, by simp, by simp, by simp, by simp⟩

/-- One more value is taken into the summary. -/
theorem Covers.add (hcovers : seen.Covers values) (binding : Binding) :
    (seen.add binding).Covers (values ++ [binding]) := by
  cases binding with
  | receiver =>
      exact ⟨by simp [Seen.add], by simp [Seen.add, hcovers.result],
        by simp [Seen.add, hcovers.arguments], by simpa [Seen.add] using hcovers.unbound,
        by simpa [Seen.add] using hcovers.largest⟩
  | result =>
      exact ⟨by simp [Seen.add, hcovers.receiver], by simp [Seen.add],
        by simp [Seen.add, hcovers.arguments], by simpa [Seen.add] using hcovers.unbound,
        by simpa [Seen.add] using hcovers.largest⟩
  | argument index =>
      have hset : {other | Binding.argument other ∈ values ++ [.argument index]} =
          insert index {other | .argument other ∈ values} := by
        ext other
        simp [or_comm]
      refine ⟨by simp [Seen.add, hcovers.receiver], by simp [Seen.add, hcovers.result],
        by simp [Seen.add, hcovers.arguments, or_comm], by simp [Seen.add], ?_⟩
      intro largest hlargest
      rw [hset]
      cases hseen : seen.largest with
      | none =>
          have hempty : {other | Binding.argument other ∈ values} = ∅ :=
            Set.eq_empty_iff_forall_notMem.mpr (hcovers.unbound hseen)
          obtain rfl : index = largest := by simpa [Seen.add, hseen] using hlargest
          rw [hempty, insert_empty_eq]
          exact isGreatest_singleton
      | some earlier =>
          obtain rfl : max earlier index = largest := by simpa [Seen.add, hseen] using hlargest
          rw [max_comm]
          exact (hcovers.largest earlier hseen).insert index

/-- An argument is not above all bound ones exactly if it is not above the
largest. -/
theorem Covers.exists_le_iff (hcovers : seen.Covers values) {index : Nat} :
    (∃ other, .argument other ∈ values ∧ index ≤ other) ↔
      ∃ largest, seen.largest = some largest ∧ index ≤ largest := by
  constructor
  · rintro ⟨other, hmem, hle⟩
    cases hlargest : seen.largest with
    | none => exact absurd hmem (hcovers.unbound hlargest other)
    | some largest => exact ⟨largest, rfl, hle.trans ((hcovers.largest largest hlargest).2 hmem)⟩
  · rintro ⟨largest, hlargest, hle⟩
    exact ⟨largest, (hcovers.largest largest hlargest).1, hle⟩

theorem Covers.foldl (hcovers : seen.Covers values) (later : List Binding) :
    (later.foldl Seen.add seen).Covers (values ++ later) := by
  induction later generalizing seen values with
  | nil => simpa using hcovers
  | cons binding rest ih => simpa using ih (hcovers.add binding)

end Seen

/-- What the pass remembers when it comes to a position. -/
def seenBefore (advice : Advice) (position : Nat) : Seen :=
  (advice.valuesBefore position).foldl Seen.add {}

theorem covers_seenBefore (advice : Advice) (position : Nat) :
    (seenBefore advice position).Covers (advice.valuesBefore position) :=
  Seen.covers_nil.foldl _

/-- Each step of the pass depends on the earlier positions alone. -/
theorem bindingDiagnosticsFrom_eq_flatMap {gone rest : List (Nat × Binding)}
    (hbindings : subject.advice.bindings = gone ++ rest) :
    subject.bindingDiagnosticsFrom knownStatic
        (((gone.filter fun entry => entry.1 < subject.advice.arity).map Prod.snd).foldl Seen.add {})
        rest =
      rest.flatMap fun entry =>
        subject.bindingDiagnosticsFrom knownStatic (seenBefore subject.advice entry.1) [entry] := by
  induction rest generalizing gone with
  | nil => rfl
  | cons entry rest ih =>
      obtain ⟨position, binding⟩ := entry
      have hnext : subject.advice.bindings = (gone ++ [(position, binding)]) ++ rest := by
        simpa using hbindings
      rw [List.flatMap_cons, ← ih hnext]
      by_cases hbeyond : subject.advice.arity ≤ position
      · simp [bindingDiagnosticsFrom, hbeyond, List.filter_append, Nat.not_lt.mpr hbeyond]
      · have hbelow : ∀ entry ∈ gone, entry.1 < subject.advice.arity := by
          intro entry hentry
          exact (Advice.lt_of_mem_gone hbindings hentry).trans (Nat.not_le.mp hbeyond)
        have hgone : gone.filter (fun entry => entry.1 < subject.advice.arity) = gone :=
          List.filter_eq_self.mpr fun entry hentry => decide_eq_true (hbelow entry hentry)
        have hseen : seenBefore subject.advice position =
            (gone.map Prod.snd).foldl Seen.add {} := by
          rw [seenBefore, Advice.valuesBefore_of_gone hbindings]
        simp [bindingDiagnosticsFrom, hbeyond, hgone, Nat.not_le.mp hbeyond, hseen]

/-- The codes and places of the diagnostics, in order. -/
def places (diagnostics : List Diagnostic) : List (DiagnosticCode × Location) :=
  diagnostics.map fun diagnostic => (diagnostic.code, diagnostic.location)

@[simp]
theorem places_append (left right : List Diagnostic) :
    places (left ++ right) = places left ++ places right :=
  List.map_append

/-- A diagnostic that is given on a condition. -/
theorem places_ite {condition rule : Prop} [Decidable condition] [Decidable rule]
    (hrule : condition ↔ rule) (diagnostic : Diagnostic) :
    places (if condition then [diagnostic] else []) =
      if rule then [(diagnostic.code, diagnostic.location)] else [] := by
  by_cases hcondition : condition
  · rw [if_pos hcondition, if_pos (hrule.mp hcondition)]
    rfl
  · rw [if_neg hcondition, if_neg (hcondition ∘ hrule.mpr)]
    rfl

/-- A second condition counts only where the first does not hold. -/
theorem ite_else_ite {α : Type} {first second : Prop} [Decidable first] [Decidable second]
    (left right : List α) :
    (if first then left else if second then right else []) =
      (if first then left else []) ++ if ¬ first ∧ second then right else [] := by
  by_cases hfirst : first
  · simp [hfirst]
  · simp [hfirst]

/-- The rules that are broken, one after the other. -/
theorem map_filter_cons {α : Type} (broken : DiagnosticCode → Prop) [DecidablePred broken]
    (place : DiagnosticCode → α) (code : DiagnosticCode) (codes : List DiagnosticCode) :
    ((code :: codes).filter fun code => broken code).map place =
      (if broken code then [place code] else []) ++
        (codes.filter fun code => broken code).map place := by
  by_cases hbroken : broken code
  · simp [hbroken]
  · simp [hbroken]

/-- A code for each rule that the binding of a position breaks, at that position. -/
theorem places_boundDiagnostics {seen : Seen}
    (hcovers : seen.Covers (subject.advice.valuesBefore position)) (binding : Binding) :
    places (subject.boundDiagnostics knownStatic seen position binding) =
      ((Advice.rulesOn binding).filter fun code =>
          subject.advice.Breaks knownStatic position binding code).map
        fun code => (code, subject.parameterLocation position) := by
  let breaks := subject.advice.Breaks knownStatic position
  -- What each check asks of the summary is first said of the earlier positions.
  cases binding with
  | receiver =>
      have hrepeated : seen.receiver = true ↔ breaks .receiver .receiverRepeated :=
        hcovers.receiver.trans Advice.mem_valuesBefore
      have hnotFirst : ¬ seen.receiver = true ∧ position ≠ 0 ↔
          breaks .receiver .receiverNotFirst :=
        and_congr_left' (not_congr hrepeated)
      have hstatic : knownStatic = some true ↔ breaks .receiver .receiverOnStatic := Iff.rfl
      simp only [boundDiagnostics, receiverDiagnostics, ite_else_ite, places_append,
        places_ite hrepeated, places_ite hnotFirst, places_ite hstatic, Advice.rulesOn,
        map_filter_cons]
      simp [breaks]
  | result =>
      have hrepeated : seen.result = true ↔ breaks .result .resultRepeated :=
        hcovers.result.trans Advice.mem_valuesBefore
      have hnotLast : ¬ seen.result = true ∧ position + 1 ≠ subject.advice.arity ↔
          breaks .result .resultNotLast :=
        and_congr_left' (not_congr hrepeated)
      simp only [boundDiagnostics, resultDiagnostics, ite_else_ite, places_append,
        places_ite hrepeated, places_ite hnotLast, Advice.rulesOn, map_filter_cons]
      simp [breaks]
  | argument index =>
      have hrepeated : seen.arguments.contains index = true ↔
          breaks (.argument index) .argumentRepeated :=
        List.contains_iff_mem.trans ((hcovers.arguments index).trans Advice.mem_valuesBefore)
      have horder : (∃ largest, seen.largest = some largest ∧ index ≤ largest) ↔
          breaks (.argument index) .argumentOutOfOrder := by
        simp only [← hcovers.exists_le_iff, Advice.mem_valuesBefore]
        rfl
      simp only [boundDiagnostics, argumentDiagnostics, places_append, Advice.rulesOn,
        map_filter_cons, List.filter_nil, List.map_nil, List.append_nil, List.append_assoc]
      refine congrArg₂ _ ?bounds (congrArg₂ _ (places_ite hrepeated _) ?order)
      case bounds =>
        split
        next pointcut hpointcut => exact places_ite (by simp [Advice.Breaks, hpointcut]) _
        next hpointcut =>
          rw [if_neg (by simp [Advice.Breaks, hpointcut])]
          rfl
      case order =>
        split
        next largest hlargest => exact places_ite (by simpa [hlargest] using horder) _
        next hlargest =>
          rw [if_neg (by simpa [hlargest] using horder)]
          rfl

theorem places_bindingDiagnosticsFrom_singleton (subject : Subject) (knownStatic : Option Bool)
    (position : Nat) (binding : Binding) :
    places (subject.bindingDiagnosticsFrom knownStatic (seenBefore subject.advice position)
        [(position, binding)]) =
      (subject.advice.brokenRules knownStatic position binding).map
        fun code => (code, subject.parameterLocation position) := by
  rw [bindingDiagnosticsFrom, Advice.brokenRules]
  by_cases hbeyond : subject.advice.arity ≤ position
  · rw [if_pos hbeyond, if_pos hbeyond]
    rfl
  · rw [if_neg hbeyond, if_neg hbeyond, bindingDiagnosticsFrom, List.append_nil,
      places_boundDiagnostics (covers_seenBefore subject.advice position)]

theorem places_unboundParameters (subject : Subject) :
    places subject.unboundParameters =
      ((List.range subject.advice.arity).filter
          fun position => subject.advice.binding? position = none).map
        fun position => (.parameterUnbound, subject.parameterLocation position) := by
  rw [places, unboundParameters, List.map_filterMap, ← List.filterMap_eq_map,
    List.filterMap_filter]
  congr 1
  funext position
  cases subject.advice.binding? position with
  | none => rfl
  | some binding => rfl

theorem bindingDiagnostics_eq_flatMap (subject : Subject) (knownStatic : Option Bool) :
    subject.bindingDiagnostics knownStatic =
      subject.unboundParameters ++ subject.advice.bindings.flatMap fun entry =>
        subject.bindingDiagnosticsFrom knownStatic (seenBefore subject.advice entry.1) [entry] :=
  congrArg (subject.unboundParameters ++ ·)
    (bindingDiagnosticsFrom_eq_flatMap (List.nil_append _).symm)

theorem places_bindingDiagnostics (subject : Subject) (knownStatic : Option Bool) :
    places (subject.bindingDiagnostics knownStatic) =
      ((List.range subject.advice.arity).filter
          fun position => subject.advice.binding? position = none).map
        (fun position => (.parameterUnbound, subject.parameterLocation position)) ++
      subject.advice.bindings.flatMap fun entry =>
        (subject.advice.brokenRules knownStatic entry.1 entry.2).map
          fun code => (code, subject.parameterLocation entry.1) := by
  rw [bindingDiagnostics_eq_flatMap, places_append, places_unboundParameters, places,
    List.map_flatMap]
  congr 2
  funext entry
  exact places_bindingDiagnosticsFrom_singleton subject knownStatic entry.1 entry.2

/-- An argument out of order is named together with the largest one before it. -/
theorem message_of_outOfOrder {seen : Seen} {diagnostic : Diagnostic}
    (hmem : diagnostic ∈ subject.boundDiagnostics knownStatic seen position binding)
    (hcode : diagnostic.code = .argumentOutOfOrder) :
    ∃ index largest, binding = .argument index ∧ seen.largest = some largest ∧
      diagnostic.location = subject.parameterLocation position ∧
      diagnostic.message =
        "argument " ++ toString index ++ " is bound after argument " ++ toString largest := by
  cases binding with
  | receiver => grind [boundDiagnostics, receiverDiagnostics]
  | result => grind [boundDiagnostics, resultDiagnostics]
  | argument index =>
      simp only [boundDiagnostics, argumentDiagnostics, List.mem_append] at hmem
      rcases hmem with (hbounds | hrepeated) | horder
      · grind
      · grind
      · split at horder
        next largest hlargest => exact ⟨index, largest, rfl, hlargest, by grind, by grind⟩
        next => cases horder

theorem exists_largest_of_outOfOrder {diagnostic : Diagnostic}
    (hmem : diagnostic ∈ subject.bindingDiagnostics knownStatic)
    (hcode : diagnostic.code = .argumentOutOfOrder) :
    ∃ position index largest,
      subject.advice.binding? position = some (.argument index) ∧
      diagnostic.location = subject.parameterLocation position ∧
      IsGreatest {other | subject.advice.BoundBefore position (.argument other)} largest ∧
      diagnostic.message =
        "argument " ++ toString index ++ " is bound after argument " ++ toString largest := by
  rw [bindingDiagnostics_eq_flatMap, List.mem_append, List.mem_flatMap] at hmem
  rcases hmem with hunbound | ⟨⟨position, binding⟩, hentry, hstep⟩
  · grind [unboundParameters]
  · rw [bindingDiagnosticsFrom] at hstep
    split at hstep
    next => grind [bindingDiagnosticsFrom]
    next =>
      rw [bindingDiagnosticsFrom, List.append_nil] at hstep
      obtain ⟨index, largest, rfl, hlargest, hlocation, hmessage⟩ :=
        message_of_outOfOrder hstep hcode
      have hgreatest := (covers_seenBefore subject.advice position).largest largest hlargest
      simp only [Advice.mem_valuesBefore] at hgreatest
      exact ⟨position, index, largest, Advice.binding?_of_mem hentry, hlocation, hgreatest,
        hmessage⟩

end Subject

/-- The unbound positions come first, in ascending order.  Then each bound position
is reported, in ascending order, with exactly the rules that its binding breaks.
An argument that is out of order is reported with the largest one before it. -/
theorem binding_diagnostics_at_offending_positions (subject : Subject)
    (knownStatic : Option Bool) :
    Subject.places (subject.bindingDiagnostics knownStatic) =
        ((List.range subject.advice.arity).filter
            fun position => subject.advice.binding? position = none).map
          (fun position =>
            (.parameterUnbound, .parameter subject.index subject.advice.method.name position)) ++
        subject.advice.bindings.flatMap (fun entry =>
          (subject.advice.brokenRules knownStatic entry.1 entry.2).map fun code =>
            (code, .parameter subject.index subject.advice.method.name entry.1)) ∧
      Ascending subject.advice.bindings ∧
      ∀ diagnostic ∈ subject.bindingDiagnostics knownStatic,
        diagnostic.code = .argumentOutOfOrder →
        ∃ position index largest,
          subject.advice.binding? position = some (.argument index) ∧
          diagnostic.location =
            .parameter subject.index subject.advice.method.name position ∧
          IsGreatest {other | subject.advice.BoundBefore position (.argument other)} largest ∧
          diagnostic.message =
            "argument " ++ toString index ++ " is bound after argument " ++ toString largest :=
  ⟨Subject.places_bindingDiagnostics subject knownStatic, subject.advice.ascending,
    fun _ hmem hcode => Subject.exists_largest_of_outOfOrder hmem hcode⟩

namespace Sample

/-- The third advice of a call site.  It binds an argument twice that does not exist,
the receiver of a static method, no value to its last parameter, and a parameter that
it does not have. -/
def tangledSubject : Subject where
  owner := .object "foo.Advices"
  index := 2
  advice :=
    { kind := .before
      method := ⟨.object "foo.Advices", "tangle", [.int, .int, .int, .int], .void, ⟨true, true⟩⟩
      signature := "static void foo.Clock.set(int)"
      bindings := [(0, .argument 1), (1, .argument 1), (2, .receiver), (5, .result)]
      pointcut := some ⟨.object "foo.Clock", "set", [.int], .void, ⟨true, true⟩⟩
      ascending := by simp [Ascending] }

/-- The rules that its bindings break. -/
def tangledPlaces : List (DiagnosticCode × Location) :=
  [(.argumentOutOfBounds, .parameter 2 "tangle" 0),
    (.argumentOutOfBounds, .parameter 2 "tangle" 1),
    (.argumentRepeated, .parameter 2 "tangle" 1),
    (.argumentOutOfOrder, .parameter 2 "tangle" 1),
    (.receiverNotFirst, .parameter 2 "tangle" 2),
    (.receiverOnStatic, .parameter 2 "tangle" 2),
    (.bindingBeyondArity, .parameter 2 "tangle" 5)]

end Sample

/-- The parameter without a binding is reported first and the broken rules after it,
among them an argument that does not come after itself. -/
theorem tangled_bindings_reported :
    Subject.places (Sample.tangledSubject.bindingDiagnostics (some true)) =
        (.parameterUnbound, .parameter 2 "tangle" 3) :: Sample.tangledPlaces ∧
      (Sample.tangledSubject.advice.bindings.flatMap fun entry =>
        (Sample.tangledSubject.advice.brokenRules (some true) entry.1 entry.2).map fun code =>
          (code, Location.parameter 2 "tangle" entry.1)) = Sample.tangledPlaces ∧
      ∃ diagnostic ∈ Sample.tangledSubject.bindingDiagnostics (some true),
        diagnostic.location = .parameter 2 "tangle" 1 ∧
          IsGreatest {other | Sample.tangledSubject.advice.BoundBefore 1 (.argument other)} 1 ∧
          diagnostic.message = "argument 1 is bound after argument 1" := by
  have hplaces : Subject.places (Sample.tangledSubject.bindingDiagnostics (some true)) =
      (.parameterUnbound, .parameter 2 "tangle" 3) :: Sample.tangledPlaces := by
    decide +kernel
  obtain ⟨hrules, -, hordered⟩ :=
    binding_diagnostics_at_offending_positions Sample.tangledSubject (some true)
  have hdiagnostic : ∃ diagnostic ∈ Sample.tangledSubject.bindingDiagnostics (some true),
      diagnostic.code = .argumentOutOfOrder ∧
        diagnostic.location = .parameter 2 "tangle" 1 ∧
        diagnostic.message = "argument 1 is bound after argument 1" := by
    decide +kernel
  refine ⟨hplaces, List.cons.inj (hrules.symm.trans hplaces) |>.2, ?_⟩
  obtain ⟨diagnostic, hmem, hcode, hlocation, hmessage⟩ := hdiagnostic
  obtain ⟨position, index, largest, -, hposition, hgreatest, -⟩ := hordered diagnostic hmem hcode
  rw [hlocation] at hposition
  cases hposition
  have hlargest : largest = 1 := by
    obtain ⟨⟨earlier, hearlier, hbound⟩, -⟩ := hgreatest
    obtain rfl := Nat.lt_one_iff.mp hearlier
    cases hbound
    rfl
  exact ⟨diagnostic, hmem, hlocation, hlargest ▸ hgreatest, hmessage⟩

end AdviceCompiler
