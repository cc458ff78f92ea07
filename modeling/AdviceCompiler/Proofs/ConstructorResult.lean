import AdviceCompiler.Proofs.CompiledUnits

/-!
# The result of a constructor

A constructor call leaves nothing on the stack, so an advice after it finds the
values that the shuffle has put beneath the operands, and no others.  The rules
let such an advice bind the result as well.  Its unit then leaves one value less
than the advice has parameters.
-/

namespace AdviceCompiler

/-- The result is the only parameter that an advice does not take off the stack
before the call. -/
theorem Advice.WellBound.arity_eq {advice : Advice} {knownStatic : Option Bool}
    (hbound : advice.WellBound knownStatic) :
    advice.arity = advice.operands.length + if advice.hasResult then 1 else 0 := by
  obtain ⟨intake, hvalues, -⟩ := hbound.shape
  rw [← hbound.filled.length_values, Intake.operands_eq hvalues, Intake.hasResult_eq hvalues,
    hvalues, Intake.values, List.length_append]
  cases intake.result <;> rfl

namespace Interception

variable {call : Interception} {path : ClassPath} {flags : MethodFlags}

open StackMachine

theorem arity_eq_of_bound (haccepted : call.advice.Accepted path.resolver call.pointcut flags)
    {bound : Layout}
    (hbound : Shuffle.bound call.advice call.pointcut call.isStatic = .ok bound) :
    call.advice.arity = bound.length + if call.advice.hasResult then 1 else 0 := by
  have hlength := length_of_mapM (mapM_value?_operands hbound)
  rw [List.length_map] at hlength
  rw [haccepted.wellBound.arity_eq, hlength]

/-- What the shuffle has put beneath the operands is all that an advice takes,
unless it takes the result as well. -/
theorem parameters?_eq_bound_iff
    (haccepted : call.advice.Accepted path.resolver call.pointcut flags) {bound : Layout}
    (hbound : Shuffle.bound call.advice call.pointcut call.isStatic = .ok bound) :
    call.parameters? = some (bound.map .held) ↔ call.advice.hasResult = false := by
  constructor
  · intro hparameters
    have hlength := length_of_mapM hparameters
    have harity := arity_eq_of_bound haccepted hbound
    rw [List.length_map, List.length_range] at hlength
    cases hresult : call.advice.hasResult with
    | false => rfl
    | true =>
        rw [hresult, if_pos rfl] at harity
        omega
  · intro hresult
    rw [parameters?_of_bound haccepted hbound (by simp [hresult]), hresult]
    simp

/-- After a constructor the values bound before the call are left, on top of
whatever lay beneath. -/
theorem run_constructor {instructions : List Instruction} {current operands bound : Layout}
    (hvoid : call.pointcut.returnType.isVoid = true)
    (hoperands : Shuffle.operands call.pointcut call.isStatic = .ok operands)
    (hrun : current.run instructions = .ok (bound ++ operands)) (below : Layout) :
    run call ((below ++ current).map .held) (instructions.map .shuffle ++ [.callIntercepted]) =
      some ((below ++ bound).map .held) := by
  calc
    run call ((below ++ current).map .held) (instructions.map .shuffle ++ [.callIntercepted]) =
        run call ((below ++ (bound ++ operands)).map .held) [.callIntercepted] :=
      run_shuffle_append hrun below _
    _ = run call ((below ++ bound).map .held ++ operands.map .held) [.callIntercepted] := by
      simp
    _ = run call (push ((below ++ bound).map .held) .produced call.pointcut.returnType) [] :=
      run_callIntercepted (operands?_of_operands hoperands) _ _
    _ = some ((below ++ bound).map .held) := by
      rw [push, if_pos hvoid, run]

end Interception

namespace Sample

/-- Takes the new string twice: as the receiver and as the result. -/
def createdAdvice : Advice where
  kind := .after
  method := ⟨.object "foo.Advices", "after", [text, text], text, ⟨true, true⟩⟩
  signature := "void java.lang.String.<init>(java.lang.String)"
  bindings := [(0, .receiver), (1, .result)]
  pointcut := some (.constructor text [text])
  ascending := by simp [Ascending]

def createdUnit : AdviceUnit where
  name := "foo.AdvicesAfter"
  spi := .object CallSite.defaultSpi
  helpers := [.object "foo.Advices"]
  kind := .after
  pointcut := .constructor text [text]
  operations := [.callIntercepted, .callAdvice createdAdvice.method]

end Sample

variable {σ : Type}

/-- When the unit of an advice after a constructor calls the advice, the values
above those from before the unit are as many as its parameters, and are these
parameters, exactly if the advice does not bind the result.  If it does, one is
missing. -/
theorem after_constructor_parameters_iff (path : ClassPath)
    (read : String → Except Pointcut.Rejection Method) (solver : Solver σ) (state : σ)
    (options : CompilerOptions) (site : CallSite) (unit : AdviceUnit)
    (hcompatibility : options.verifier.checksCompatibility = true)
    (havailable : solver.Available state)
    (hunit : unit ∈
      (Compiler.compile ⟨read, path.resolver, solver, options⟩ site state).1.units)
    (hkind : unit.kind = .after) (hconstructor : unit.pointcut.isConstructor = true) :
    ∃ before advice flags shuffle bound setup,
      Compiler.Emits ⟨read, path.resolver, solver, options⟩ site before advice unit ∧
      path.locate unit.pointcut = .ok flags ∧
      Shuffle.ofAdvice advice unit.pointcut flags.isStatic = .ok (some shuffle) ∧
      Shuffle.bound advice unit.pointcut flags.isStatic = .ok bound ∧
      unit.operations = setup ++ .callAdvice advice.method ::
        AdviceUnit.casts advice unit.pointcut ∧
      let call : Interception := ⟨advice, unit.pointcut, flags.isStatic⟩
      (∀ below : Layout, StackMachine.run call ((below ++ shuffle.current).map .held) setup =
        some ((below ++ bound).map .held)) ∧
      advice.arity = bound.length + (if advice.hasResult then 1 else 0) ∧
      (call.parameters? = some (bound.map .held) ↔ advice.hasResult = false) := by
  obtain ⟨Good, hgood, hsound⟩ := havailable.exists_soundOn
  obtain ⟨before, advice, hbefore, hemits⟩ :=
    Compiler.exists_emits_of_mem_units hsound.keeps hgood hunit
  obtain ⟨flags, found, instructions, haccepted, hsame, hfound, hsolve, hoperations⟩ :=
    hemits.accepted hcompatibility
  have hafter : advice.kind = .after := hsame.symm.trans hkind
  obtain ⟨shuffle, rfl⟩ := Shuffle.exists_some_of_ofAdvice (by simp [hafter]) hfound
  obtain ⟨operands, bound, hoperands, hbound, -, htarget⟩ := Shuffle.exists_of_ofAdvice hfound
  have hrun := AdviceUnit.run_of_solve hsound hbefore hsolve
  rw [htarget, if_neg (by simp [hafter])] at hrun
  let call : Interception := ⟨advice, unit.pointcut, flags.isStatic⟩
  have hcall : call.advice.Accepted path.resolver call.pointcut flags := haccepted
  refine ⟨before, advice, flags, shuffle, bound, instructions.map .shuffle ++ [.callIntercepted],
    hemits, Except.ok.inj haccepted.located, hfound, hbound, ?_, ?_, ?_, ?_⟩
  · rw [hoperations, AdviceUnit.calls, hafter]
    simp
  · intro below
    exact Interception.run_constructor (haccepted.constructorVoid hconstructor) hoperands hrun
      below
  · exact Interception.arity_eq_of_bound hcall hbound
  · exact Interception.parameters?_eq_bound_iff hcall hbound

/-- An advice that takes the new object twice passes all rules, and its unit
leaves one value for its two parameters. -/
theorem created_unit_lacks_parameter :
    Sample.createdUnit ∈ Sample.unitsOf Sample.createdAdvice ∧
      ∃ before flags shuffle bound setup,
        Sample.compiler.Emits (Sample.siteOf Sample.createdAdvice) before Sample.createdAdvice
          Sample.createdUnit ∧
        Sample.classes.locate Sample.createdUnit.pointcut = .ok flags ∧
        Shuffle.ofAdvice Sample.createdAdvice Sample.createdUnit.pointcut flags.isStatic =
          .ok (some shuffle) ∧
        (∀ below : Layout,
          StackMachine.run ⟨Sample.createdAdvice, Sample.createdUnit.pointcut, flags.isStatic⟩
              ((below ++ shuffle.current).map .held) setup =
            some ((below ++ bound).map .held)) ∧
        bound.length = 1 ∧ Sample.createdAdvice.arity = 2 := by
  have hunit : Sample.createdUnit ∈ Sample.unitsOf Sample.createdAdvice := by decide +kernel
  obtain ⟨before, advice, flags, shuffle, bound, setup, hemits, hlocate, hshuffle, -,
      -, hrun, harity, -⟩ :=
    after_constructor_parameters_iff Sample.classes (Pointcut.readReporting false) _ _ {}
      (Sample.siteOf Sample.createdAdvice) Sample.createdUnit (by decide) (.memoized {} []) hunit
      rfl rfl
  have hadvice : advice = Sample.createdAdvice := by
    obtain ⟨declared, index, rejection, hmem, hread, -⟩ := hemits
    have hdeclared := (List.of_mem_zip hmem).1
    rw [List.mem_singleton.mp hdeclared] at hread
    exact (congrArg Prod.fst hread).symm
  subst hadvice
  refine ⟨hunit, before, flags, shuffle, bound, setup, hemits, hlocate, hshuffle, hrun, ?_, rfl⟩
  exact (Nat.succ.inj harity).symm

end AdviceCompiler
