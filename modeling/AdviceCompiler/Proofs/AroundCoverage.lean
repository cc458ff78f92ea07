import Mathlib.Data.List.Perm.Subperm
import AdviceCompiler.Proofs.UnitCorrectness

/-!
# Which advices around a call replace it

An advice around a call takes its operands off the stack without a shuffle.  An
accepted one takes some of them, in order, but the rules do not ask it to take
all.  Its unit is stack correct exactly if it does.
-/

namespace AdviceCompiler

namespace Intake

variable {intake : Intake} {pointcut : Method} {knownStatic : Option Bool}

theorem arguments_sublist_range (hformed : intake.WellFormed (some pointcut) knownStatic) :
    intake.arguments.Sublist (List.range pointcut.params.length) := by
  have hsubset : intake.arguments ⊆ List.range pointcut.params.length := by
    intro index hindex
    exact List.mem_range.mpr (hformed.inBounds index hindex pointcut rfl)
  have hnodup : intake.arguments.Nodup := hformed.ascending.imp Nat.ne_of_lt
  exact List.sublist_of_subperm_of_pairwise (hnodup.subperm hsubset) hformed.ascending
    List.pairwise_lt_range

end Intake

theorem AdviceUnit.calls_around {advice : Advice} (hkind : advice.kind = .around) :
    calls advice = [.callAdvice advice.method] := by
  rw [calls, hkind]

namespace Interception

variable {call : Interception}

open StackMachine

theorem length_of_mapM {α β : Type} {partly : α → Option β} {values : List α} {results : List β}
    (hresults : values.mapM partly = some results) : results.length = values.length := by
  induction values generalizing results with
  | nil =>
      cases hresults
      rfl
  | cons value rest ih =>
      rw [List.mapM_cons] at hresults
      simp only [bind, Option.bind_eq_some_iff] at hresults
      rcases hresults with ⟨first, -, others, hothers, hall⟩
      cases hall
      rw [List.length_cons, List.length_cons, ih hothers]

theorem mapM_ne_none_iff {α β : Type} {partly : α → Option β} {values : List α} :
    values.mapM partly ≠ none ↔ ∀ value ∈ values, partly value ≠ none := by
  induction values with
  | nil => simp
  | cons value rest ih =>
      rw [List.forall_mem_cons, ← ih, List.mapM_cons]
      cases partly value <;> cases rest.mapM partly <;> simp

theorem slot?_argument_ne_none_iff {index : Nat} (hindex : index < call.pointcut.params.length) :
    call.slot? (.argument index) ≠ none ↔
      (call.pointcut.params.get ⟨index, hindex⟩).isVoid = false := by
  rw [← Bool.not_eq_true, ← JavaType.category?_eq_none_iff]
  simp [slot?, hindex]

/-- A call has operands exactly if no argument is `void`. -/
theorem operands?_ne_none_iff :
    call.operands? ≠ none ↔ ∀ type ∈ call.pointcut.params, type.isVoid = false := by
  rw [operands?, mapM_ne_none_iff]
  constructor
  · intro hslots type htype
    rcases List.get_of_mem htype with ⟨index, rfl⟩
    apply (slot?_argument_ne_none_iff index.isLt).mp
    apply hslots
    simp [operandBindings]
  · intro hwide binding hbinding
    rcases List.mem_append.mp hbinding with hreceiver | hargument
    · split at hreceiver
      · next hhas =>
          rw [List.mem_singleton.mp hreceiver, slot?, if_pos hhas]
          simp
      · cases hreceiver
    · rcases List.mem_map.mp hargument with ⟨index, hindex, rfl⟩
      apply (slot?_argument_ne_none_iff (List.mem_range.mp hindex)).mpr
      exact hwide _ (List.get_mem _ _)

theorem length_operandBindings :
    call.operandBindings.length =
      (if call.hasReceiver then 1 else 0) + call.pointcut.params.length := by
  unfold operandBindings
  split <;> simp [Nat.add_comm]

theorem result_not_mem_operandBindings : .result ∉ call.operandBindings := by
  unfold operandBindings
  split <;> simp

/-- The advice receives exactly the operands of the call, and the operations put
what the call gives in their place. -/
def TakesOver (call : Interception) (operations : List Operation) : Prop :=
  ∃ operands, call.operands? = some operands ∧
    call.parameters? = some (operands.map .held) ∧ call.StackCorrect operations operands

section Accepted

variable {path : ClassPath} {flags : MethodFlags}
variable (haccepted : call.advice.Accepted path.resolver call.pointcut flags)
variable (hstatic : call.isStatic = flags.isStatic) (hkind : call.advice.kind = .around)

include haccepted

theorem parameters?_of_values_eq {operands : Layout}
    (hoperands : call.operands? = some operands)
    (hall : call.advice.values = call.operandBindings) :
    call.parameters? = some (operands.map .held) := by
  rw [parameters?_eq haccepted, hall, mapM_value?_eq result_not_mem_operandBindings,
    ← operands?, hoperands]
  rfl

include hkind

theorem around_rules :
    call.advice.method.returnType.isVoid = false ∧ call.advice.hasResult = false := by
  have hrules := haccepted.rules
  simp only [hkind, AdviceKind.rules, List.forall_mem_cons] at hrules
  exact ⟨hrules.1, hrules.2.1⟩

include hstatic

/-- An accepted advice around a call takes some of its operands, in order. -/
theorem values_sublist_operandBindings :
    call.advice.values.Sublist call.operandBindings := by
  rcases haccepted.wellBound.shape with ⟨intake, hvalues, hformed⟩
  rw [haccepted.intercepts] at hformed
  have hresult : intake.result = false := by
    rw [← Intake.hasResult_eq hvalues]
    exact (around_rules haccepted hkind).2
  have harguments := (Intake.arguments_sublist_range hformed).map Binding.argument
  rw [hvalues, Intake.values, Intake.operands, hresult, operandBindings]
  cases hreceiver : intake.receiver with
  | false => simpa using harguments.trans (List.sublist_append_right _ _)
  | true =>
      have hinstance : flags.isStatic = false := by
        simpa using hformed.receiver hreceiver
      simpa [hasReceiver, hstatic, hinstance] using harguments

/-- It takes all of them exactly if it has a parameter for each. -/
theorem values_eq_operandBindings_iff :
    call.advice.values = call.operandBindings ↔
      call.advice.arity = (if call.hasReceiver then 1 else 0) + call.pointcut.params.length := by
  rw [← length_operandBindings, ← haccepted.wellBound.filled.length_values]
  constructor
  · intro hall
    rw [hall]
  · intro hlength
    exact (values_sublist_operandBindings haccepted hstatic hkind).eq_of_length hlength

/-- The unit of an advice around a call is stack correct exactly if the advice
takes all operands. -/
theorem stackCorrect_around_iff {operands : Layout}
    (hoperands : call.operands? = some operands) :
    call.StackCorrect (AdviceUnit.calls call.advice ++
        AdviceUnit.casts call.advice call.pointcut) operands ↔
      call.advice.values = call.operandBindings := by
  have hnotBefore : call.advice.kind ≠ .before := by simp [hkind]
  have hreturn := (around_rules haccepted hkind).1
  rw [AdviceUnit.calls_around hkind, List.singleton_append]
  constructor
  · -- One value is left above the stack beneath, so the advice took every operand.
    intro hcorrect
    rcases hcorrect [] with ⟨left, hrun, hgives⟩
    rcases run_callAdvice_eq_some hrun with ⟨parameters, stack, hparameters, hstack, -⟩
    rw [hstack, run_lastAdvice haccepted hnotBefore hreturn hparameters] at hrun
    rw [Gives, valueType_not_void haccepted hnotBefore hreturn] at hgives
    rcases hgives with ⟨value, rfl, -⟩
    have hlengths := congrArg (Option.map List.length) hrun
    have hfound := congrArg List.length hstack
    have htaken := length_of_mapM hparameters
    have hoffered := length_of_mapM hoperands
    simp only [Option.map_some, Option.some.injEq, List.length_append, List.length_map,
      List.length_nil, List.length_cons, List.length_range] at hlengths hfound htaken
    rw [values_eq_operandBindings_iff haccepted hstatic hkind, ← length_operandBindings]
    omega
  · intro hall below
    have hparameters := parameters?_of_values_eq haccepted hoperands hall
    refine ⟨_, ?_, gives_returned haccepted hnotBefore hreturn⟩
    rw [List.map_append]
    exact run_lastAdvice haccepted hnotBefore hreturn hparameters _

theorem takesOver_iff :
    call.TakesOver (AdviceUnit.calls call.advice ++
        AdviceUnit.casts call.advice call.pointcut) ↔
      call.advice.arity = (if call.hasReceiver then 1 else 0) + call.pointcut.params.length ∧
        ∀ type ∈ call.pointcut.params, type.isVoid = false := by
  rw [← values_eq_operandBindings_iff haccepted hstatic hkind, ← operands?_ne_none_iff]
  constructor
  · rintro ⟨operands, hoperands, -, hcorrect⟩
    constructor
    · exact (stackCorrect_around_iff haccepted hstatic hkind hoperands).mp hcorrect
    · simp [hoperands]
  · rintro ⟨hall, hsome⟩
    rcases Option.ne_none_iff_exists'.mp hsome with ⟨operands, hoperands⟩
    refine ⟨operands, hoperands, parameters?_of_values_eq haccepted hoperands hall, ?_⟩
    exact (stackCorrect_around_iff haccepted hstatic hkind hoperands).mpr hall

end Accepted

end Interception

end AdviceCompiler
