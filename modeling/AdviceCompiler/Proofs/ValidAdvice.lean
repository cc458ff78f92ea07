import AdviceCompiler.ClassPath
import AdviceCompiler.Proofs.BindingShape
import AdviceCompiler.Proofs.Reports
import AdviceCompiler.Verification.Advice

/-!
# Which advices pass verification

Verification collects the diagnostics of several checks, some of which run only
where an earlier one found what they need.  An advice passes exactly if it is
valid, which is stated here without the checks: its bindings have the right
shape, the rules of its kind hold, its pointcut resolves and its types fit, the
last two as far as the options ask for them.
-/

namespace AdviceCompiler

theorem bind_eq_ok_iff {ε α β : Type} {first : Except ε α} {next : α → Except ε β} {result : β} :
    first >>= next = .ok result ↔ ∃ value, first = .ok value ∧ next value = .ok result := by
  cases first <;> simp [bind, Except.bind]

theorem exists_bind_eq_ok {ε α β : Type} {first : Except ε α} {next : α → Except ε β}
    (hfirst : ∃ value, first = .ok value) (hnext : ∀ value, ∃ result, next value = .ok result) :
    ∃ result, first >>= next = .ok result := by
  obtain ⟨value, rfl⟩ := hfirst
  exact hnext value

theorem append_eq_ok_nil_iff {ε α : Type} {first : List α} {second : Except ε (List α)} :
    (do
      let right ← second
      return first ++ right) = .ok [] ↔ first = [] ∧ second = .ok [] := by
  cases second <;> simp [bind, Except.bind, pure, Except.pure]

/-- Lists computed in turn are both empty exactly if they are so together. -/
theorem appendBoth_eq_ok_nil_iff {ε α : Type} {first second : Except ε (List α)} :
    (do
      let left ← first
      let right ← second
      return left ++ right) = .ok [] ↔ first = .ok [] ∧ second = .ok [] := by
  rw [bind_eq_ok_iff]
  simp only [append_eq_ok_nil_iff]
  constructor
  · rintro ⟨left, hleft, rfl, hsecond⟩
    exact ⟨hleft, hsecond⟩
  · rintro ⟨hfirst, hsecond⟩
    exact ⟨[], hfirst, rfl, hsecond⟩

/-- The rules of an advice's kind on what it returns, what it binds and what it
intercepts. -/
def Advice.SuitsKind (advice : Advice) (pointcut : Method) : Prop :=
  match advice.kind with
  | .before =>
      advice.method.returnType.isVoid = true ∧ .result ∉ advice.values ∧
        (pointcut.isConstructor = true → .receiver ∉ advice.values)
  | .around =>
      advice.method.returnType.isVoid = false ∧ .result ∉ advice.values ∧
        pointcut.isConstructor = false
  | .after =>
      advice.method.returnType.isVoid = false ∧
        (pointcut.isConstructor = true → advice.values.head? = some .receiver) ∧
        (pointcut.isConstructor = false → advice.values.getLast? = some .result)

/-- In position order the bindings are the receiver, if bound, arguments of the
pointcut by ascending index, and the result, if bound. -/
def Advice.OrderedFor (advice : Advice) (pointcut : Method) : Prop :=
  ∃ intake : Intake, advice.values = intake.values ∧ intake.arguments.Pairwise (· < ·) ∧
    ∀ index ∈ intake.arguments, index < pointcut.params.length

/-- A pointcut is known to be static by its declaration where pointcuts are
resolved, and by the modifier of its signature otherwise.  A signature does not
make a constructor static. -/
def Resolver.KnowsStatic (resolver : Resolver) (options : VerificationOptions)
    (pointcut : Method) : Prop :=
  if options.resolves then
    ∃ flags, resolver.locate pointcut = .ok (.ok flags) ∧ flags.isStatic = true
  else pointcut.isConstructor = false ∧ pointcut.isStatic = true

/-- What an advice on a pointcut has to satisfy. -/
structure Advice.ValidOn (advice : Advice) (resolver : Resolver) (options : VerificationOptions)
    (pointcut : Method) : Prop where
  intercepts : advice.pointcut = some pointcut
  isPublic : advice.method.isPublic = true
  isStatic : advice.method.isStatic = true
  filled : advice.Filled
  ordered : advice.OrderedFor pointcut
  receiver : resolver.KnowsStatic options pointcut → .receiver ∉ advice.values
  constructorVoid : pointcut.isConstructor = true → pointcut.returnType.isVoid = true
  suitsKind : advice.SuitsKind pointcut
  located : options.resolves = true → ∃ flags, resolver.locate pointcut = .ok (.ok flags)
  parameters : options.checksCompatibility = true →
    ∀ position binding, (position, binding) ∈ advice.bindings →
      ∃ target source, advice.method.params[position]? = some target ∧
        binding.typeAt? pointcut = some source ∧
        resolver.accepts target source = .ok (.ok true)
  returned : options.checksCompatibility = true → advice.kind ≠ .before →
    advice.method.returnType.isVoid = false →
    resolver.accepts advice.method.returnType pointcut.valueType = .ok (.ok true)

theorem Advice.hasResult_eq_false_iff {advice : Advice} :
    advice.hasResult = false ↔ .result ∉ advice.values := by
  simp [hasResult, Binding.isResult, List.forall_mem_ne']

theorem Advice.hasReceiver_eq_false_iff {advice : Advice} :
    advice.hasReceiver = false ↔ .receiver ∉ advice.values := by
  simp [hasReceiver, Binding.isReceiver, List.forall_mem_ne']

theorem Intake.receiver_mem_iff {advice : Advice} {intake : Intake}
    (hvalues : advice.values = intake.values) :
    .receiver ∈ advice.values ↔ intake.receiver = true := by
  rw [hvalues, values, operands]
  cases intake.receiver <;> cases intake.result <;> simp

theorem Advice.OrderedFor.lt_of_mem {advice : Advice} {pointcut : Method}
    (hordered : advice.OrderedFor pointcut) {index : Nat}
    (hmem : .argument index ∈ advice.values) : index < pointcut.params.length := by
  obtain ⟨intake, hvalues, -, hinBounds⟩ := hordered
  apply hinBounds
  rw [hvalues, Intake.values, Intake.operands] at hmem
  cases hreceiver : intake.receiver <;> cases hresult : intake.result <;>
    simpa [hreceiver, hresult] using hmem

/-- The parameter and the value of a binding both exist if the bindings are in
order. -/
theorem Advice.exists_types_of_mem {advice : Advice} {pointcut : Method}
    (hfilled : advice.Filled) (hordered : advice.OrderedFor pointcut) {position : Nat}
    {binding : Binding} (hmem : (position, binding) ∈ advice.bindings) :
    ∃ target source, advice.method.params[position]? = some target ∧
      binding.typeAt? pointcut = some source := by
  have hpositions : advice.bindings.map Prod.fst = List.range advice.arity := hfilled
  have hposition : position ∈ List.range advice.arity :=
    hpositions ▸ List.mem_map_of_mem hmem
  have htarget := List.getElem?_eq_getElem (List.mem_range.mp hposition)
  cases binding with
  | receiver => exact ⟨_, _, htarget, rfl⟩
  | result => exact ⟨_, _, htarget, rfl⟩
  | argument index =>
      have hindex := hordered.lt_of_mem (List.mem_map_of_mem hmem)
      exact ⟨_, _, htarget, List.getElem?_eq_getElem hindex⟩

theorem VerificationOptions.resolves_of_checksCompatibility {options : VerificationOptions}
    (hcompatibility : options.checksCompatibility = true) : options.resolves = true := by
  simp only [checksCompatibility, Bool.and_eq_true] at hcompatibility
  exact hcompatibility.1

namespace Subject

variable {subject : Subject} {resolver : Resolver} {options : VerificationOptions}
variable {pointcut : Method}

theorem flagDiagnostics_eq_nil :
    subject.flagDiagnostics = [] ↔
      subject.advice.method.isPublic = true ∧ subject.advice.method.isStatic = true := by
  simp [flagDiagnostics]

theorem constructorDiagnostics_eq_nil :
    subject.constructorDiagnostics pointcut = [] ↔
      (pointcut.isConstructor = true → pointcut.returnType.isVoid = true) := by
  simp [constructorDiagnostics]

theorem kindDiagnostics_eq_nil :
    subject.kindDiagnostics pointcut = [] ↔
      ∀ rule ∈ subject.advice.kind.rules, rule.violated subject.advice pointcut = false := by
  simp [kindDiagnostics, List.filter_eq_nil_iff]

theorem kindDiagnostics_eq_nil_iff_suitsKind :
    subject.kindDiagnostics pointcut = [] ↔ subject.advice.SuitsKind pointcut := by
  rw [kindDiagnostics_eq_nil, Advice.SuitsKind]
  cases subject.advice.kind <;>
    simp [AdviceKind.rules, Advice.hasResult_eq_false_iff, Advice.hasReceiver_eq_false_iff]

/-- The bindings of a valid advice are in order for the staticness known. -/
theorem wellBound_iff {advice : Advice} {knownStatic : Option Bool}
    (hintercepts : advice.pointcut = some pointcut) :
    advice.WellBound knownStatic ↔
      advice.Filled ∧ advice.OrderedFor pointcut ∧
        (knownStatic = some true → .receiver ∉ advice.values) := by
  constructor
  · rintro ⟨hfilled, intake, hvalues, hformed⟩
    refine ⟨hfilled, ⟨intake, hvalues, hformed.ascending, ?_⟩, ?_⟩
    · intro index hindex
      exact hformed.inBounds index hindex pointcut hintercepts
    · intro hstatic hmem
      exact hformed.receiver ((Intake.receiver_mem_iff hvalues).mp hmem) hstatic
  · rintro ⟨hfilled, ⟨intake, hvalues, hascending, hinBounds⟩, hreceiver⟩
    refine ⟨hfilled, intake, hvalues, hascending, ?_, ?_⟩
    · intro index hindex method hmethod
      rw [hintercepts] at hmethod
      cases hmethod
      exact hinBounds index hindex
    · intro hbound hstatic
      exact hreceiver hstatic ((Intake.receiver_mem_iff hvalues).mpr hbound)

theorem assignmentDiagnostics_eq_nil {target source : JavaType} {refusal : Diagnostic} :
    assignmentDiagnostics resolver target source refusal = .ok [] ↔
      resolver.accepts target source = .ok (.ok true) := by
  simp only [assignmentDiagnostics, bind_eq_ok_iff]
  constructor
  · rintro ⟨answer, hanswer, hclean⟩
    rw [hanswer]
    obtain failure | _ | _ := answer
    · cases hclean
    · cases hclean
    · rfl
  · intro haccepts
    exact ⟨_, haccepts, rfl⟩

theorem bindingCompatibility_eq_nil {entries : List (Nat × Binding)} :
    subject.bindingCompatibility resolver pointcut entries = .ok [] ↔
      ∀ position binding, (position, binding) ∈ entries →
        subject.parameterCompatibility resolver pointcut position binding = .ok [] := by
  induction entries with
  | nil => simp [bindingCompatibility]
  | cons entry rest ih =>
      obtain ⟨position, binding⟩ := entry
      calc
        subject.bindingCompatibility resolver pointcut ((position, binding) :: rest) = .ok [] ↔
            subject.parameterCompatibility resolver pointcut position binding = .ok [] ∧
              subject.bindingCompatibility resolver pointcut rest = .ok [] :=
          appendBoth_eq_ok_nil_iff
        _ ↔ _ := by simp [ih, or_imp, forall_and]

theorem returnCompatibility_eq_nil :
    subject.returnCompatibility resolver pointcut = .ok [] ↔
      (subject.advice.kind ≠ .before → subject.advice.method.returnType.isVoid = false →
        resolver.accepts subject.advice.method.returnType pointcut.valueType =
          .ok (.ok true)) := by
  simp only [returnCompatibility]
  split
  · next hexempt =>
      simp only [true_iff]
      intro hkind hvalue
      obtain hvoid | hbefore := hexempt
      · simp [hvalue] at hvoid
      · exact absurd hbefore hkind
  · next hchecked =>
      rw [not_or, Bool.not_eq_true] at hchecked
      rw [assignmentDiagnostics_eq_nil]
      exact ⟨fun haccepts _ _ => haccepts, fun hreturned => hreturned hchecked.2 hchecked.1⟩

theorem parameterCompatibility_eq_nil (hfilled : subject.advice.Filled)
    (hordered : subject.advice.OrderedFor pointcut) {position : Nat} {binding : Binding}
    (hmem : (position, binding) ∈ subject.advice.bindings) :
    subject.parameterCompatibility resolver pointcut position binding = .ok [] ↔
      ∃ target source, subject.advice.method.params[position]? = some target ∧
        binding.typeAt? pointcut = some source ∧
        resolver.accepts target source = .ok (.ok true) := by
  obtain ⟨target, source, htarget, hsource⟩ :=
    Advice.exists_types_of_mem hfilled hordered hmem
  simp [parameterCompatibility, htarget, hsource, assignmentDiagnostics_eq_nil]

/-- The bound values and the returned one are without a diagnostic exactly if
their types are accepted. -/
theorem compatibilityDiagnostics_eq_nil (hfilled : subject.advice.Filled)
    (hordered : subject.advice.OrderedFor pointcut) :
    subject.compatibilityDiagnostics resolver pointcut = .ok [] ↔
      (∀ position binding, (position, binding) ∈ subject.advice.bindings →
        ∃ target source, subject.advice.method.params[position]? = some target ∧
          binding.typeAt? pointcut = some source ∧
          resolver.accepts target source = .ok (.ok true)) ∧
        (subject.advice.kind ≠ .before → subject.advice.method.returnType.isVoid = false →
          resolver.accepts subject.advice.method.returnType pointcut.valueType =
            .ok (.ok true)) := by
  calc
    subject.compatibilityDiagnostics resolver pointcut = .ok [] ↔
        subject.bindingCompatibility resolver pointcut subject.advice.bindings = .ok [] ∧
          subject.returnCompatibility resolver pointcut = .ok [] :=
      appendBoth_eq_ok_nil_iff
    _ ↔ _ := by
      rw [bindingCompatibility_eq_nil, returnCompatibility_eq_nil]
      refine and_congr_left' (forall₃_congr ?_)
      intro position binding hmem
      exact parameterCompatibility_eq_nil hfilled hordered hmem

/-- The staticness of a pointcut without findings. -/
theorem inspectPointcut_clean_iff (hintercepts : subject.advice.pointcut = some pointcut)
    {findings : PointcutFindings} (hclean : findings.diagnostics = []) :
    subject.inspectPointcut resolver options = .ok findings ↔
      (pointcut.isConstructor = true → pointcut.returnType.isVoid = true) ∧
        if options.resolves then
          ∃ flags, resolver.locate pointcut = .ok (.ok flags) ∧
            findings.knownStatic = some flags.isStatic ∧ findings.resolved = true
        else findings.knownStatic = declaredStatic pointcut ∧ findings.resolved = false := by
  obtain ⟨diagnostics, knownStatic, resolved⟩ := findings
  cases hclean
  simp only [inspectPointcut, hintercepts]
  by_cases hresolves : options.resolves = true
  · simp only [hresolves, if_true, bind_eq_ok_iff]
    constructor
    · rintro ⟨outcome, hlocate, houtcome⟩
      cases outcome with
      | error failure =>
          injection houtcome with hfindings
          simp at hfindings
      | ok flags =>
          injection houtcome with hfindings
          injection hfindings with hnone hstatic hresolved
          exact ⟨constructorDiagnostics_eq_nil.mp hnone, flags, hlocate, hstatic.symm,
            hresolved.symm⟩
    · rintro ⟨hvoid, flags, hlocate, rfl, rfl⟩
      refine ⟨.ok flags, hlocate, ?_⟩
      simp only [constructorDiagnostics_eq_nil.mpr hvoid]
      rfl
  · simp only [hresolves, if_false, Bool.false_eq_true]
    constructor
    · intro hfindings
      injection hfindings with hfindings
      injection hfindings with hnone hstatic hresolved
      exact ⟨constructorDiagnostics_eq_nil.mp hnone, hstatic.symm, hresolved.symm⟩
    · rintro ⟨hvoid, rfl, rfl⟩
      simp only [constructorDiagnostics_eq_nil.mpr hvoid]
      rfl

theorem declaredStatic_eq_true_iff (pointcut : Method) :
    declaredStatic pointcut = some true ↔
      pointcut.isConstructor = false ∧ pointcut.isStatic = true := by
  rw [declaredStatic]
  cases pointcut.isConstructor <;> simp

/-- Clean findings know of staticness what the resolver and the signature
tell. -/
theorem knownStatic_eq_true_iff (hintercepts : subject.advice.pointcut = some pointcut)
    {findings : PointcutFindings} (hclean : findings.diagnostics = [])
    (hfindings : subject.inspectPointcut resolver options = .ok findings) :
    findings.knownStatic = some true ↔ resolver.KnowsStatic options pointcut := by
  have hknown := ((inspectPointcut_clean_iff hintercepts hclean).mp hfindings).2
  rw [Resolver.KnowsStatic]
  by_cases hresolves : options.resolves = true
  · rw [if_pos hresolves] at hknown ⊢
    obtain ⟨flags, hlocate, hstatic, -⟩ := hknown
    simp [hstatic, hlocate]
  · rw [if_neg hresolves] at hknown ⊢
    rw [hknown.1]
    exact declaredStatic_eq_true_iff pointcut

theorem diagnostics_eq_nil (hintercepts : subject.advice.pointcut = some pointcut) :
    subject.diagnostics resolver options = .ok [] ↔
      ∃ findings, subject.inspectPointcut resolver options = .ok findings ∧
        findings.diagnostics = [] ∧ subject.flagDiagnostics = [] ∧
        subject.bindingDiagnostics findings.knownStatic = [] ∧
        subject.kindDiagnostics pointcut = [] ∧
        (findings.resolved = true → options.checksCompatibility = true →
          subject.compatibilityDiagnostics resolver pointcut = .ok []) := by
  rw [diagnostics, bind_eq_ok_iff]
  simp only [hintercepts]
  refine exists_congr fun findings => and_congr_right fun _ => ?_
  split
  · next hchecked =>
      rw [append_eq_ok_nil_iff]
      simp only [List.append_eq_nil_iff, and_assoc, hchecked, forall_const]
  · next hunchecked =>
      have hexempt : findings.resolved = true → options.checksCompatibility = true →
          subject.compatibilityDiagnostics resolver pointcut = .ok [] := by
        intro hresolved hchecks
        exact absurd ⟨hresolved, hchecks⟩ hunchecked
      rw [append_eq_ok_nil_iff]
      simp only [List.append_eq_nil_iff, and_assoc, iff_true_intro hexempt, pure, Except.pure]

theorem exists_clean_findings_iff (hintercepts : subject.advice.pointcut = some pointcut) :
    (∃ findings, subject.inspectPointcut resolver options = .ok findings ∧
        findings.diagnostics = []) ↔
      (pointcut.isConstructor = true → pointcut.returnType.isVoid = true) ∧
        (options.resolves = true → ∃ flags, resolver.locate pointcut = .ok (.ok flags)) := by
  constructor
  · rintro ⟨findings, hfindings, hclean⟩
    obtain ⟨hvoid, hknown⟩ := (inspectPointcut_clean_iff hintercepts hclean).mp hfindings
    refine ⟨hvoid, ?_⟩
    intro hresolves
    rw [if_pos hresolves] at hknown
    obtain ⟨flags, hlocate, -⟩ := hknown
    exact ⟨flags, hlocate⟩
  · rintro ⟨hvoid, hlocated⟩
    by_cases hresolves : options.resolves = true
    · obtain ⟨flags, hlocate⟩ := hlocated hresolves
      refine ⟨⟨[], some flags.isStatic, true⟩, ?_, rfl⟩
      refine (inspectPointcut_clean_iff hintercepts rfl).mpr ⟨hvoid, ?_⟩
      rw [if_pos hresolves]
      exact ⟨flags, hlocate, rfl, rfl⟩
    · refine ⟨⟨[], declaredStatic pointcut, false⟩, ?_, rfl⟩
      refine (inspectPointcut_clean_iff hintercepts rfl).mpr ⟨hvoid, ?_⟩
      rw [if_neg hresolves]
      exact ⟨rfl, rfl⟩

theorem pointcut_ne_none_of_clean (hclean : subject.diagnostics resolver options = .ok []) :
    subject.advice.pointcut ≠ none := by
  intro hnone
  simp [diagnostics, inspectPointcut, hnone, bind, Except.bind, pure, Except.pure] at hclean

theorem validOn_of_diagnostics_eq_nil (hintercepts : subject.advice.pointcut = some pointcut)
    (hdiagnostics : subject.diagnostics resolver options = .ok []) :
    subject.advice.ValidOn resolver options pointcut := by
  obtain ⟨findings, hfindings, hclean, hflags, hbindings, hkind, htypes⟩ :=
    (diagnostics_eq_nil hintercepts).mp hdiagnostics
  obtain ⟨hvoid, hlocated⟩ :=
    (exists_clean_findings_iff hintercepts).mp ⟨findings, hfindings, hclean⟩
  obtain ⟨hpublic, hstatic⟩ := flagDiagnostics_eq_nil.mp hflags
  obtain ⟨hfilled, hordered, hreceiver⟩ :=
    (wellBound_iff hintercepts).mp (bindingDiagnostics_eq_nil.mp hbindings)
  rw [knownStatic_eq_true_iff hintercepts hclean hfindings] at hreceiver
  have hcompatible : options.checksCompatibility = true →
      subject.compatibilityDiagnostics resolver pointcut = .ok [] := by
    intro hchecks
    have hresolves := VerificationOptions.resolves_of_checksCompatibility hchecks
    have hknown := ((inspectPointcut_clean_iff hintercepts hclean).mp hfindings).2
    rw [if_pos hresolves] at hknown
    obtain ⟨-, -, -, hresolved⟩ := hknown
    exact htypes hresolved hchecks
  rw [compatibilityDiagnostics_eq_nil hfilled hordered] at hcompatible
  exact
    { intercepts := hintercepts
      isPublic := hpublic
      isStatic := hstatic
      filled := hfilled
      ordered := hordered
      receiver := hreceiver
      constructorVoid := hvoid
      suitsKind := kindDiagnostics_eq_nil_iff_suitsKind.mp hkind
      located := hlocated
      parameters := fun hchecks => (hcompatible hchecks).1
      returned := fun hchecks => (hcompatible hchecks).2 }

theorem diagnostics_eq_nil_of_validOn (hvalid : subject.advice.ValidOn resolver options pointcut) :
    subject.diagnostics resolver options = .ok [] := by
  have hintercepts := hvalid.intercepts
  obtain ⟨findings, hfindings, hclean⟩ :=
    (exists_clean_findings_iff hintercepts).mpr ⟨hvalid.constructorVoid, hvalid.located⟩
  refine (diagnostics_eq_nil hintercepts).mpr ⟨findings, hfindings, hclean, ?_, ?_, ?_, ?_⟩
  · exact flagDiagnostics_eq_nil.mpr ⟨hvalid.isPublic, hvalid.isStatic⟩
  · refine bindingDiagnostics_eq_nil.mpr ((wellBound_iff hintercepts).mpr ?_)
    rw [knownStatic_eq_true_iff hintercepts hclean hfindings]
    exact ⟨hvalid.filled, hvalid.ordered, hvalid.receiver⟩
  · exact kindDiagnostics_eq_nil_iff_suitsKind.mpr hvalid.suitsKind
  · intro _ hchecks
    exact (compatibilityDiagnostics_eq_nil hvalid.filled hvalid.ordered).mpr
      ⟨hvalid.parameters hchecks, hvalid.returned hchecks⟩

/-- A report is clean exactly if the advice is valid, whatever the report's
limit. -/
theorem isClean_iff_validOn {report : Report}
    (hverify : subject.verify resolver options = .ok report) :
    report.isClean = true ↔ ∃ pointcut, subject.advice.ValidOn resolver options pointcut := by
  obtain ⟨found, hfound, hreport⟩ := bind_eq_ok_iff.mp hverify
  cases hreport
  rw [Report.isClean_ofList, List.map_eq_nil_iff]
  constructor
  · rintro rfl
    obtain ⟨pointcut, hintercepts⟩ :=
      Option.ne_none_iff_exists'.mp (pointcut_ne_none_of_clean hfound)
    exact ⟨pointcut, validOn_of_diagnostics_eq_nil hintercepts hfound⟩
  · rintro ⟨pointcut, hvalid⟩
    rw [diagnostics_eq_nil_of_validOn hvalid] at hfound
    exact (Except.ok.inj hfound).symm

end Subject

/-- A resolver that never breaks down. -/
structure Resolver.Total (resolver : Resolver) : Prop where
  locate : ∀ method, ∃ outcome, resolver.locate method = .ok outcome
  accepts : ∀ target source, ∃ outcome, resolver.accepts target source = .ok outcome

theorem ClassPath.total_resolver (path : ClassPath) : path.resolver.Total :=
  ⟨fun _ => ⟨_, rfl⟩, fun _ _ => ⟨_, rfl⟩⟩

namespace Subject

section Total

variable {resolver : Resolver} (htotal : resolver.Total)

include htotal

theorem exists_assignmentDiagnostics (target source : JavaType) (refusal : Diagnostic) :
    ∃ found, assignmentDiagnostics resolver target source refusal = .ok found := by
  refine exists_bind_eq_ok (htotal.accepts target source) ?_
  rintro (failure | _ | _)
  · exact ⟨_, rfl⟩
  · exact ⟨_, rfl⟩
  · exact ⟨_, rfl⟩

theorem exists_parameterCompatibility (subject : Subject) (pointcut : Method) (position : Nat)
    (binding : Binding) :
    ∃ found, subject.parameterCompatibility resolver pointcut position binding = .ok found := by
  simp only [parameterCompatibility]
  split
  · exact exists_assignmentDiagnostics htotal _ _ _
  · exact ⟨[], rfl⟩

theorem exists_bindingCompatibility (subject : Subject) (pointcut : Method)
    (entries : List (Nat × Binding)) :
    ∃ found, subject.bindingCompatibility resolver pointcut entries = .ok found := by
  induction entries with
  | nil => exact ⟨[], rfl⟩
  | cons entry rest ih =>
      refine exists_bind_eq_ok
        (exists_parameterCompatibility htotal subject pointcut entry.1 entry.2) ?_
      intro first
      exact exists_bind_eq_ok ih fun others => ⟨_, rfl⟩

theorem exists_returnCompatibility (subject : Subject) (pointcut : Method) :
    ∃ found, subject.returnCompatibility resolver pointcut = .ok found := by
  simp only [returnCompatibility]
  split
  · exact ⟨[], rfl⟩
  · exact exists_assignmentDiagnostics htotal _ _ _

theorem exists_compatibilityDiagnostics (subject : Subject) (pointcut : Method) :
    ∃ found, subject.compatibilityDiagnostics resolver pointcut = .ok found := by
  refine exists_bind_eq_ok (exists_bindingCompatibility htotal subject pointcut _) ?_
  intro parameters
  exact exists_bind_eq_ok (exists_returnCompatibility htotal subject pointcut) fun _ => ⟨_, rfl⟩

theorem exists_inspectPointcut (subject : Subject) (options : VerificationOptions) :
    ∃ findings, subject.inspectPointcut resolver options = .ok findings := by
  simp only [inspectPointcut]
  split
  · exact ⟨_, rfl⟩
  · next pointcut _ =>
      split
      · refine exists_bind_eq_ok (htotal.locate pointcut) ?_
        rintro (failure | flags)
        · exact ⟨_, rfl⟩
        · exact ⟨_, rfl⟩
      · exact ⟨_, rfl⟩

/-- Where the resolver does not break down, neither does verification. -/
theorem exists_verify (subject : Subject) (options : VerificationOptions) :
    ∃ report, subject.verify resolver options = .ok report := by
  refine exists_bind_eq_ok ?_ fun found => ⟨_, rfl⟩
  refine exists_bind_eq_ok (exists_inspectPointcut htotal subject options) ?_
  intro findings
  simp only
  split
  · exact ⟨_, rfl⟩
  · next pointcut _ =>
      split
      · exact exists_bind_eq_ok (exists_compatibilityDiagnostics htotal subject pointcut)
          fun _ => ⟨_, rfl⟩
      · exact ⟨_, rfl⟩

end Total

end Subject

namespace Sample

def clock : JavaType := .object "foo.Clock"

/-- A clock that can be moved on, and tells the time it shows then. -/
def clockPath : ClassPath :=
  .add .root ((ClassDeclaration.ofClass "foo.Clock").declare "advance" [.long] .int false)

/-- Sees the clock, by how much it is moved and what it shows. -/
def clockAdvice : Advice where
  kind := .after
  method := ⟨.object "foo.Advices", "after", [clock, .long, .int], .int, ⟨true, true⟩⟩
  signature := "int foo.Clock.advance(long)"
  bindings := [(0, .receiver), (1, .argument 0), (2, .result)]
  pointcut := some ⟨clock, "advance", [.long], .int, ⟨false, true⟩⟩
  ascending := by simp [Ascending]

end Sample

/-- Verification with a resolver that does not break down gives a report, and the
report has no diagnostic, kept or left out, exactly if the advice is valid. -/
theorem verification_accepts_exactly_valid (subject : Subject) (resolver : Resolver)
    (options : VerificationOptions) (htotal : resolver.Total) :
    ∃ report, subject.verify resolver options = .ok report ∧
      (report.isClean = true ↔
        ∃ pointcut, subject.advice.ValidOn resolver options pointcut) := by
  obtain ⟨report, hverify⟩ := Subject.exists_verify htotal subject options
  exact ⟨report, hverify, Subject.isClean_iff_validOn hverify⟩

/-- An advice that takes all it can is valid, since its report is clean. -/
theorem clock_advice_valid :
    Sample.clockPath.resolver.Total ∧
      ∃ pointcut, Sample.clockAdvice.ValidOn Sample.clockPath.resolver .default pointcut := by
  refine ⟨ClassPath.total_resolver _, ?_⟩
  obtain ⟨report, hverify, hvalid⟩ :=
    verification_accepts_exactly_valid ⟨.object "foo.Advices", 0, Sample.clockAdvice⟩
      Sample.clockPath.resolver .default (ClassPath.total_resolver _)
  refine hvalid.mp ?_
  have hclean : ((Subject.mk (.object "foo.Advices") 0 Sample.clockAdvice).verify
      Sample.clockPath.resolver .default).map Report.isClean = .ok true := by
    decide +kernel
  rw [hverify] at hclean
  exact Except.ok.inj hclean

end AdviceCompiler
