import AdviceCompiler.Proofs.ValidAdvice

/-!
# What verification of an advice reports

Each rule on one advice gives diagnostics of its own codes, which lie in that advice
and have no excerpt.  None is about stack instructions, and only an advice without a
pointcut has an invalid one.
-/

namespace AdviceCompiler

/-- The index of the advice that a location lies in. -/
def Location.adviceIndex? : Location → Option Nat
  | .callSite _ => none
  | .spi _ => none
  | .advice index _ => some index
  | .parameter index _ _ => some index
  | .pointcut index _ => some index

/-- A diagnostic that is given on a condition. -/
theorem Diagnostic.forall_mem_ite {property : Diagnostic → Prop} {condition : Prop}
    [Decidable condition] {diagnostic : Diagnostic} {others : List Diagnostic}
    (hgiven : condition → property diagnostic) (hothers : ∀ other ∈ others, property other) :
    ∀ other ∈ if condition then [diagnostic] else others, property other := by
  split
  · next hcondition => exact List.forall_mem_singleton.mpr (hgiven hcondition)
  · exact hothers

namespace Subject

variable {subject : Subject} {resolver : Resolver} {options : VerificationOptions}
variable {pointcut : Method} {codes : List DiagnosticCode}

/-- A diagnostic of one of the codes that lies in the advice and has no excerpt. -/
structure Raises (subject : Subject) (codes : List DiagnosticCode) (diagnostic : Diagnostic) :
    Prop where
  place : diagnostic.location.adviceIndex? = some subject.index
  bare : diagnostic.snippet = none
  code : diagnostic.code ∈ codes

/-- Diagnostics of these codes that lie in the advice and have no excerpt. -/
def RaisesAll (subject : Subject) (codes : List DiagnosticCode)
    (diagnostics : List Diagnostic) : Prop :=
  ∀ diagnostic ∈ diagnostics, subject.Raises codes diagnostic

theorem raisesAll_nil : subject.RaisesAll codes [] :=
  List.forall_mem_nil _

theorem raisesAll_singleton {diagnostic : Diagnostic} (hraises : subject.Raises codes diagnostic) :
    subject.RaisesAll codes [diagnostic] :=
  List.forall_mem_singleton.mpr hraises

theorem raisesAll_append {left right : List Diagnostic} (hleft : subject.RaisesAll codes left)
    (hright : subject.RaisesAll codes right) : subject.RaisesAll codes (left ++ right) :=
  List.forall_mem_append.mpr ⟨hleft, hright⟩

theorem raisesAll_ite {condition : Prop} [Decidable condition] {diagnostic : Diagnostic}
    {others : List Diagnostic} (hgiven : condition → subject.Raises codes diagnostic)
    (hothers : subject.RaisesAll codes others) :
    subject.RaisesAll codes (if condition then [diagnostic] else others) :=
  Diagnostic.forall_mem_ite hgiven hothers

theorem RaisesAll.mono {more : List DiagnosticCode} {diagnostics : List Diagnostic}
    (hraises : subject.RaisesAll codes diagnostics) (hcodes : codes ⊆ more) :
    subject.RaisesAll more diagnostics := by
  intro diagnostic hmem
  obtain ⟨hplace, hbare, hcode⟩ := hraises diagnostic hmem
  exact ⟨hplace, hbare, hcodes hcode⟩

/-! ### The codes of each rule -/

/-- The codes of the checks on the pointcut. -/
def pointcutCodes (subject : Subject) : List DiagnosticCode :=
  match subject.advice.pointcut with
  | none => [.pointcutInvalid]
  | some _ => [.pointcutConstructorNotVoid, .unresolvedType, .unresolvedMethod]

/-- The codes of the rules on bindings. -/
def bindingCodes (knownStatic : Option Bool) : List DiagnosticCode :=
  [.parameterUnbound, .bindingBeyondArity, .receiverRepeated, .receiverNotFirst, .resultRepeated,
    .resultNotLast, .argumentOutOfBounds, .argumentRepeated, .argumentOutOfOrder] ++
    if knownStatic = some true then [.receiverOnStatic] else []

/-- The codes of the rules on advices of some kind. -/
def kindCodes : List DiagnosticCode :=
  [.beforeReturnsValue, .beforeBindsResult, .beforeConstructorBindsReceiver, .aroundReturnsVoid,
    .aroundBindsResult, .aroundConstructor, .afterReturnsVoid, .afterConstructorReceiverNotFirst,
    .afterResultNotLast]

def compatibilityCodes : List DiagnosticCode :=
  [.parameterIncompatible, .resultIncompatible, .unresolvedType, .unresolvedMethod]

theorem raises_ofResolutionFailure (failure : ResolutionFailure) {location : Location}
    (hplace : location.adviceIndex? = some subject.index)
    (hcodes : [.unresolvedType, .unresolvedMethod] ⊆ codes) :
    subject.Raises codes (.ofResolutionFailure failure location) := by
  refine ⟨hplace, rfl, hcodes ?_⟩
  simp only [Diagnostic.ofResolutionFailure]
  split
  · exact List.mem_cons_self
  · exact List.mem_cons_of_mem _ List.mem_cons_self

theorem raisesAll_constructorDiagnostics :
    subject.RaisesAll [.pointcutConstructorNotVoid] (subject.constructorDiagnostics pointcut) :=
  raisesAll_ite (fun _ => ⟨rfl, rfl, List.mem_cons_self⟩) raisesAll_nil

theorem raisesAll_inspectPointcut {findings : PointcutFindings}
    (hfindings : subject.inspectPointcut resolver options = .ok findings) :
    subject.RaisesAll subject.pointcutCodes findings.diagnostics := by
  rw [pointcutCodes]
  cases hpointcut : subject.advice.pointcut with
  | none =>
      rw [inspectPointcut, hpointcut] at hfindings
      cases hfindings
      exact raisesAll_singleton ⟨rfl, rfl, List.mem_cons_self⟩
  | some pointcut =>
      have hconstructor : subject.RaisesAll
          [.pointcutConstructorNotVoid, .unresolvedType, .unresolvedMethod]
          (subject.constructorDiagnostics pointcut) :=
        raisesAll_constructorDiagnostics.mono (List.cons_subset_cons _ (List.nil_subset _))
      rw [inspectPointcut, hpointcut] at hfindings
      dsimp only at hfindings
      split at hfindings
      · obtain ⟨outcome, -, houtcome⟩ := bind_eq_ok_iff.mp hfindings
        cases outcome with
        | ok flags =>
            cases houtcome
            exact hconstructor
        | error failure =>
            cases houtcome
            exact raisesAll_append hconstructor (raisesAll_singleton
              (raises_ofResolutionFailure failure rfl (List.subset_cons_self _ _)))
      · cases hfindings
        exact hconstructor

theorem raisesAll_flagDiagnostics :
    subject.RaisesAll [.adviceNotPublicStatic] subject.flagDiagnostics := by
  rw [flagDiagnostics]
  split
  · exact raisesAll_nil
  · exact raisesAll_singleton ⟨rfl, rfl, List.mem_cons_self⟩

theorem raisesAll_unboundParameters (knownStatic : Option Bool) :
    subject.RaisesAll (bindingCodes knownStatic) subject.unboundParameters := by
  intro diagnostic hmem
  obtain ⟨position, -, hunbound⟩ := List.mem_filterMap.mp hmem
  split at hunbound
  · cases hunbound
  · cases hunbound
    exact ⟨rfl, rfl, by simp [bindingCodes]⟩

theorem raisesAll_boundDiagnostics (knownStatic : Option Bool) (seen : Seen) (position : Nat)
    (binding : Binding) :
    subject.RaisesAll (bindingCodes knownStatic)
      (subject.boundDiagnostics knownStatic seen position binding) := by
  cases binding with
  | receiver =>
      refine raisesAll_append ?_ ?_
      · exact raisesAll_ite (fun _ => ⟨rfl, rfl, by simp [bindingCodes]⟩)
          (raisesAll_ite (fun _ => ⟨rfl, rfl, by simp [bindingCodes]⟩) raisesAll_nil)
      · exact raisesAll_ite (fun hstatic => ⟨rfl, rfl, by simp [bindingCodes, hstatic]⟩)
          raisesAll_nil
  | result =>
      exact raisesAll_ite (fun _ => ⟨rfl, rfl, by simp [bindingCodes]⟩)
        (raisesAll_ite (fun _ => ⟨rfl, rfl, by simp [bindingCodes]⟩) raisesAll_nil)
  | argument index =>
      refine raisesAll_append (raisesAll_append ?_ ?_) ?_
      · cases subject.advice.pointcut with
        | none => exact raisesAll_nil
        | some pointcut =>
            exact raisesAll_ite (fun _ => ⟨rfl, rfl, by simp [bindingCodes]⟩) raisesAll_nil
      · exact raisesAll_ite (fun _ => ⟨rfl, rfl, by simp [bindingCodes]⟩) raisesAll_nil
      · cases seen.largest with
        | none => exact raisesAll_nil
        | some largest =>
            exact raisesAll_ite (fun _ => ⟨rfl, rfl, by simp [bindingCodes]⟩) raisesAll_nil

theorem raisesAll_bindingDiagnosticsFrom (knownStatic : Option Bool) (seen : Seen)
    (entries : List (Nat × Binding)) :
    subject.RaisesAll (bindingCodes knownStatic)
      (subject.bindingDiagnosticsFrom knownStatic seen entries) := by
  induction entries generalizing seen with
  | nil => exact raisesAll_nil
  | cons entry rest ih =>
      rw [bindingDiagnosticsFrom]
      split
      · exact List.forall_mem_cons.mpr ⟨⟨rfl, rfl, by simp [bindingCodes]⟩, ih seen⟩
      · exact raisesAll_append (raisesAll_boundDiagnostics _ _ _ _) (ih _)

theorem raisesAll_bindingDiagnostics (knownStatic : Option Bool) :
    subject.RaisesAll (bindingCodes knownStatic) (subject.bindingDiagnostics knownStatic) :=
  raisesAll_append (raisesAll_unboundParameters knownStatic)
    (raisesAll_bindingDiagnosticsFrom knownStatic {} subject.advice.bindings)

theorem raisesAll_kindDiagnostics (pointcut : Method) :
    subject.RaisesAll kindCodes (subject.kindDiagnostics pointcut) := by
  have hrules : ∀ rule ∈ subject.advice.kind.rules, rule.code ∈ kindCodes := by
    cases subject.advice.kind <;> simp [AdviceKind.rules, kindCodes]
  intro diagnostic hmem
  obtain ⟨rule, hbroken, rfl⟩ := List.mem_map.mp hmem
  exact ⟨rfl, rfl, hrules rule (List.mem_of_mem_filter hbroken)⟩

theorem raisesAll_assignmentDiagnostics {target source : JavaType} {refusal : Diagnostic}
    {found : List Diagnostic} (hrefusal : subject.Raises compatibilityCodes refusal)
    (hfound : assignmentDiagnostics resolver target source refusal = .ok found) :
    subject.RaisesAll compatibilityCodes found := by
  obtain ⟨answer, -, hanswer⟩ := bind_eq_ok_iff.mp hfound
  obtain failure | _ | _ := answer
  · cases hanswer
    exact raisesAll_singleton (raises_ofResolutionFailure failure hrefusal.place (by decide))
  · cases hanswer
    exact raisesAll_singleton hrefusal
  · cases hanswer
    exact raisesAll_nil

theorem raisesAll_parameterCompatibility {position : Nat} {binding : Binding}
    {found : List Diagnostic}
    (hfound : subject.parameterCompatibility resolver pointcut position binding = .ok found) :
    subject.RaisesAll compatibilityCodes found := by
  rw [parameterCompatibility] at hfound
  split at hfound
  · exact raisesAll_assignmentDiagnostics ⟨rfl, rfl, by simp [compatibilityCodes]⟩ hfound
  · cases hfound
    exact raisesAll_nil

theorem raisesAll_bindingCompatibility {entries : List (Nat × Binding)}
    {found : List Diagnostic}
    (hfound : subject.bindingCompatibility resolver pointcut entries = .ok found) :
    subject.RaisesAll compatibilityCodes found := by
  induction entries generalizing found with
  | nil =>
      cases hfound
      exact raisesAll_nil
  | cons entry rest ih =>
      obtain ⟨first, hfirst, hrest⟩ := bind_eq_ok_iff.mp hfound
      obtain ⟨others, hothers, hboth⟩ := bind_eq_ok_iff.mp hrest
      cases hboth
      exact raisesAll_append (raisesAll_parameterCompatibility hfirst) (ih hothers)

theorem raisesAll_compatibilityDiagnostics {found : List Diagnostic}
    (hfound : subject.compatibilityDiagnostics resolver pointcut = .ok found) :
    subject.RaisesAll compatibilityCodes found := by
  obtain ⟨parameters, hparameters, hrest⟩ := bind_eq_ok_iff.mp hfound
  obtain ⟨returned, hreturned, hboth⟩ := bind_eq_ok_iff.mp hrest
  cases hboth
  refine raisesAll_append (raisesAll_bindingCompatibility hparameters) ?_
  simp only [returnCompatibility] at hreturned
  split at hreturned
  · cases hreturned
    exact raisesAll_nil
  · exact raisesAll_assignmentDiagnostics ⟨rfl, rfl, by simp [compatibilityCodes]⟩ hreturned

/-! ### All rules -/

/-- What holds of every diagnostic that verification of an advice gives. -/
structure Reports (subject : Subject) (diagnostic : Diagnostic) : Prop where
  place : diagnostic.location.adviceIndex? = some subject.index
  bare : diagnostic.snippet = none
  solvable : diagnostic.code ≠ .stackUnsolvable
  unread : diagnostic.code = .pointcutInvalid → subject.advice.pointcut = none

/-- Verification of an advice can give these diagnostics. -/
def ReportsAll (subject : Subject) (diagnostics : List Diagnostic) : Prop :=
  ∀ diagnostic ∈ diagnostics, subject.Reports diagnostic

theorem Reports.inContext {diagnostic : Diagnostic} (hreports : subject.Reports diagnostic)
    (context : DiagnosticContext) : subject.Reports (diagnostic.inContext context) :=
  ⟨hreports.place, hreports.bare, hreports.solvable, hreports.unread⟩

theorem reportsAll_append {left right : List Diagnostic} (hleft : subject.ReportsAll left)
    (hright : subject.ReportsAll right) : subject.ReportsAll (left ++ right) :=
  List.forall_mem_append.mpr ⟨hleft, hright⟩

/-- Of the codes, one is never given and another needs a reason. -/
theorem RaisesAll.reportsAll {diagnostics : List Diagnostic}
    (hraises : subject.RaisesAll codes diagnostics) (hsolvable : .stackUnsolvable ∉ codes)
    (hunread : .pointcutInvalid ∈ codes → subject.advice.pointcut = none) :
    subject.ReportsAll diagnostics := by
  intro diagnostic hmem
  obtain ⟨hplace, hbare, hcode⟩ := hraises diagnostic hmem
  exact ⟨hplace, hbare, fun hstack => hsolvable (hstack ▸ hcode),
    fun hinvalid => hunread (hinvalid ▸ hcode)⟩

theorem reportsAll_inspectPointcut {findings : PointcutFindings}
    (hfindings : subject.inspectPointcut resolver options = .ok findings) :
    subject.ReportsAll findings.diagnostics := by
  refine (raisesAll_inspectPointcut hfindings).reportsAll ?_ ?_
  · rw [pointcutCodes]
    split <;> decide
  · rw [pointcutCodes]
    cases subject.advice.pointcut <;> simp

theorem reportsAll_bindingDiagnostics (knownStatic : Option Bool) :
    subject.ReportsAll (subject.bindingDiagnostics knownStatic) :=
  (raisesAll_bindingDiagnostics knownStatic).reportsAll (by simp [bindingCodes])
    (by simp [bindingCodes])

/-- Every diagnostic on an advice lies in that advice. -/
theorem reportsAll_diagnostics {found : List Diagnostic}
    (hfound : subject.diagnostics resolver options = .ok found) : subject.ReportsAll found := by
  obtain ⟨findings, hfindings, hrest⟩ := bind_eq_ok_iff.mp hfound
  have hflags : subject.ReportsAll subject.flagDiagnostics :=
    raisesAll_flagDiagnostics.reportsAll (by decide) (by simp)
  have hdeclared := reportsAll_append
    (reportsAll_append (reportsAll_inspectPointcut hfindings) hflags)
    (reportsAll_bindingDiagnostics findings.knownStatic)
  split at hrest
  · cases hrest
    exact hdeclared
  · next pointcut _ =>
      have hkind : subject.ReportsAll (subject.kindDiagnostics pointcut) :=
        (raisesAll_kindDiagnostics pointcut).reportsAll (by decide) (by simp [kindCodes])
      have hruled := reportsAll_append hdeclared hkind
      simp only at hrest
      split at hrest
      · obtain ⟨compatibility, hcompatibility, hboth⟩ := bind_eq_ok_iff.mp hrest
        cases hboth
        exact reportsAll_append hruled ((raisesAll_compatibilityDiagnostics
          hcompatibility).reportsAll (by decide) (by simp [compatibilityCodes]))
      · cases hrest
        exact reportsAll_append hruled (List.forall_mem_nil _)

theorem reportsAll_verify {report : Report} (hlimit : options.maxDiagnostics = 0)
    (hverify : subject.verify resolver options = .ok report) :
    subject.ReportsAll report.diagnostics := by
  obtain ⟨found, hfound, hreport⟩ := bind_eq_ok_iff.mp hverify
  cases hreport
  rw [hlimit, Report.ofList_zero]
  intro diagnostic hmem
  obtain ⟨plain, hplain, rfl⟩ := List.mem_map.mp hmem
  exact (reportsAll_diagnostics hfound plain hplain).inContext subject.context

end Subject

end AdviceCompiler
