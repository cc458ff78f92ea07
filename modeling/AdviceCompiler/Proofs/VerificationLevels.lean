import AdviceCompiler.Proofs.AdviceFindings
import AdviceCompiler.Proofs.BindingPositions
import AdviceCompiler.Proofs.Truncation

/-!
# Raising the verification level

A higher level keeps what a lower one reports.  The one exception is the receiver
of a static pointcut: below the standard level a pointcut is static if its
signature says so, and from there on if the method it resolves to is.
-/

namespace AdviceCompiler

/-- The checks of a level, with all their diagnostics kept. -/
def VerificationOptions.unlimited (level : VerificationLevel) : VerificationOptions :=
  (ofLevel level).withLimit 0

/-- Whether a diagnostic is about the receiver of a static pointcut. -/
def Diagnostic.onStatic (diagnostic : Diagnostic) : Bool :=
  diagnostic.code = .receiverOnStatic

/-- The pointcut resolves to a method that is not as static as its signature
states.  The signature of a constructor states that it is not. -/
def Resolver.Contradicts (resolver : Resolver) (advice : Advice) : Prop :=
  ∃ pointcut flags, advice.pointcut = some pointcut ∧
    resolver.locate pointcut = .ok (.ok flags) ∧
    flags.isStatic ≠ (pointcut.isStatic && !pointcut.isConstructor)

theorem Resolver.contradicts_iff {resolver : Resolver} {advice : Advice} {pointcut : Method}
    {flags : MethodFlags} (hpointcut : advice.pointcut = some pointcut)
    (hlocate : resolver.locate pointcut = .ok (.ok flags)) :
    resolver.Contradicts advice ↔
      flags.isStatic ≠ (pointcut.isStatic && !pointcut.isConstructor) := by
  constructor
  · rintro ⟨other, located, hother, hlocated, hdiffer⟩
    cases hpointcut.symm.trans hother
    cases hlocate.symm.trans hlocated
    exact hdiffer
  · intro hdiffer
    exact ⟨pointcut, flags, hpointcut, hlocate, hdiffer⟩

namespace Subject

variable {subject : Subject} {resolver : Resolver} {options : VerificationOptions}

def staticReceiver (subject : Subject) (position : Nat) : Diagnostic where
  code := .receiverOnStatic
  message := "@This cannot be bound for a static pointcut"
  location := subject.parameterLocation position

/-- Diagnostics among which none is about the receiver of a static pointcut. -/
def OffStatic (diagnostics : List Diagnostic) : Prop :=
  ∀ diagnostic ∈ diagnostics, diagnostic.onStatic = false

theorem OffStatic.filter_onStatic {diagnostics : List Diagnostic} (hoff : OffStatic diagnostics) :
    diagnostics.filter Diagnostic.onStatic = [] := by
  apply List.filter_eq_nil_iff.mpr
  intro diagnostic hmem
  simp [hoff diagnostic hmem]

theorem OffStatic.filter_not_onStatic {diagnostics : List Diagnostic}
    (hoff : OffStatic diagnostics) :
    diagnostics.filter (fun diagnostic => !diagnostic.onStatic) = diagnostics := by
  apply List.filter_eq_self.mpr
  intro diagnostic hmem
  simp [hoff diagnostic hmem]

/-- Only one code is about the receiver of a static pointcut. -/
theorem RaisesAll.offStatic {codes : List DiagnosticCode} {diagnostics : List Diagnostic}
    (hraises : subject.RaisesAll codes diagnostics) (hcodes : .receiverOnStatic ∉ codes) :
    OffStatic diagnostics := by
  intro diagnostic hmem
  apply decide_eq_false
  intro hstatic
  exact hcodes (hstatic ▸ (hraises diagnostic hmem).code)

section Bindings

variable (knownStatic : Option Bool) (seen : Seen)

/-- Known staticness adds a diagnostic to those of a receiver. -/
theorem boundDiagnostics_eq_append (position : Nat) (binding : Binding) :
    subject.boundDiagnostics knownStatic seen position binding =
      subject.boundDiagnostics none seen position binding ++
        if knownStatic = some true ∧ binding = .receiver then [subject.staticReceiver position]
        else [] := by
  cases binding with
  | receiver => simp [boundDiagnostics, receiverDiagnostics, staticReceiver]
  | result => simp [boundDiagnostics]
  | argument index => simp [boundDiagnostics]

theorem offStatic_boundDiagnostics (position : Nat) (binding : Binding) :
    OffStatic (subject.boundDiagnostics none seen position binding) :=
  (raisesAll_boundDiagnostics none seen position binding).offStatic (by decide)

/-- Apart from those on the receiver of a static pointcut, the diagnostics of the
bindings do not depend on staticness. -/
theorem filter_not_onStatic_bindingDiagnosticsFrom (entries : List (Nat × Binding)) :
    (subject.bindingDiagnosticsFrom knownStatic seen entries).filter
        (fun diagnostic => !diagnostic.onStatic) =
      subject.bindingDiagnosticsFrom none seen entries := by
  induction entries generalizing seen with
  | nil => rfl
  | cons entry rest ih =>
      obtain ⟨position, binding⟩ := entry
      have hadded : (if knownStatic = some true ∧ binding = .receiver then
          [subject.staticReceiver position] else []).filter
            (fun diagnostic => !diagnostic.onStatic) = [] := by
        split
        · rfl
        · rfl
      rw [bindingDiagnosticsFrom, bindingDiagnosticsFrom]
      split
      · rw [List.filter_cons_of_pos rfl, ih]
      · rw [boundDiagnostics_eq_append, List.filter_append, List.filter_append, hadded,
          (offStatic_boundDiagnostics seen position binding).filter_not_onStatic, ih,
          List.append_nil]

/-- A known static pointcut is reported at each receiver below the arity. -/
theorem filter_onStatic_bindingDiagnosticsFrom (entries : List (Nat × Binding)) :
    (subject.bindingDiagnosticsFrom knownStatic seen entries).filter Diagnostic.onStatic =
      if knownStatic = some true then
        (entries.filter fun entry => entry.1 < subject.advice.arity ∧ entry.2 = .receiver).map
          fun entry => subject.staticReceiver entry.1
      else [] := by
  induction entries generalizing seen with
  | nil => simp [bindingDiagnosticsFrom]
  | cons entry rest ih =>
      obtain ⟨position, binding⟩ := entry
      rw [bindingDiagnosticsFrom]
      split
      next hbeyond =>
        rw [List.filter_cons_of_neg (by simp [Diagnostic.onStatic]), ih]
        simp [Nat.not_lt.mpr hbeyond]
      next hbelow =>
        rw [boundDiagnostics_eq_append, List.filter_append, List.filter_append, ih,
          (offStatic_boundDiagnostics seen position binding).filter_onStatic]
        by_cases hstatic : knownStatic = some true
        · by_cases hreceiver : binding = .receiver
          · simp [hstatic, hreceiver, Nat.not_le.mp hbelow, staticReceiver, Diagnostic.onStatic]
          · simp [hstatic, hreceiver]
        · simp [hstatic]

end Bindings

theorem offStatic_inspectPointcut {findings : PointcutFindings}
    (hfindings : subject.inspectPointcut resolver options = .ok findings) :
    OffStatic findings.diagnostics := by
  apply (raisesAll_inspectPointcut hfindings).offStatic
  rw [pointcutCodes]
  split <;> decide

/-- What a static pointcut is reported with. -/
def staticReceivers (subject : Subject) : List Diagnostic :=
  (subject.advice.bindings.filter fun entry =>
      entry.1 < subject.advice.arity ∧ entry.2 = .receiver).map
    fun entry => subject.staticReceiver entry.1

theorem staticReceivers_ne_nil_iff :
    subject.staticReceivers ≠ [] ↔
      ∃ position < subject.advice.arity, subject.advice.binding? position = some .receiver := by
  simp [staticReceivers, List.filter_eq_nil_iff, Advice.mem_bindings_iff, and_comm]

/-- What is reported without a look at compatibility, given what the checks on the
pointcut found. -/
def reported (subject : Subject) (findings : PointcutFindings) : List Diagnostic :=
  findings.diagnostics ++ subject.flagDiagnostics ++
    subject.bindingDiagnostics findings.knownStatic ++
    (subject.advice.pointcut.map subject.kindDiagnostics).getD []

theorem diagnostics_of_findings {findings : PointcutFindings}
    (hfindings : subject.inspectPointcut resolver options = .ok findings)
    (hunchecked : options.checksCompatibility = false) :
    subject.diagnostics resolver options = .ok (subject.reported findings) := by
  rw [diagnostics, hfindings]
  cases hpointcut : subject.advice.pointcut with
  | none => simp [reported, hpointcut, bind, Except.bind, pure, Except.pure]
  | some pointcut =>
      simp [reported, hpointcut, hunchecked, bind, Except.bind, pure, Except.pure]

/-- Compatibility is looked at after all else. -/
theorem exists_diagnostics_of_findings (htotal : resolver.Total) {findings : PointcutFindings}
    (hfindings : subject.inspectPointcut resolver options = .ok findings) :
    ∃ compatibility,
      subject.diagnostics resolver options = .ok (subject.reported findings ++ compatibility) := by
  rw [diagnostics, hfindings]
  cases hpointcut : subject.advice.pointcut with
  | none => exact ⟨[], by simp [reported, hpointcut, bind, Except.bind, pure, Except.pure]⟩
  | some pointcut =>
      obtain ⟨found, hfound⟩ := exists_compatibilityDiagnostics htotal subject pointcut
      by_cases hchecked : findings.resolved ∧ options.checksCompatibility
      · exact ⟨found, by simp [reported, hpointcut, hchecked, hfound, bind, Except.bind, pure,
          Except.pure]⟩
      · exact ⟨[], by simp [reported, hpointcut, hchecked, bind, Except.bind, pure, Except.pure]⟩

theorem filter_onStatic_reported {findings : PointcutFindings}
    (hoff : OffStatic findings.diagnostics) :
    (subject.reported findings).filter Diagnostic.onStatic =
      if findings.knownStatic = some true then subject.staticReceivers else [] := by
  have hflags : OffStatic subject.flagDiagnostics :=
    raisesAll_flagDiagnostics.offStatic (by decide)
  have hunbound : OffStatic subject.unboundParameters :=
    (raisesAll_unboundParameters none).offStatic (by decide)
  have hkind : OffStatic ((subject.advice.pointcut.map subject.kindDiagnostics).getD []) := by
    cases subject.advice.pointcut with
    | none => exact List.forall_mem_nil _
    | some pointcut => exact (raisesAll_kindDiagnostics pointcut).offStatic (by decide)
  rw [reported, bindingDiagnostics, List.filter_append, List.filter_append, List.filter_append,
    List.filter_append, hoff.filter_onStatic, hflags.filter_onStatic, hunbound.filter_onStatic,
    hkind.filter_onStatic, filter_onStatic_bindingDiagnosticsFrom]
  simp [staticReceivers]

/-- More findings on the pointcut add to what is reported elsewhere. -/
theorem filter_not_onStatic_reported {lower higher : PointcutFindings}
    (hkept : lower.diagnostics.Sublist higher.diagnostics) :
    ((subject.reported lower).filter fun diagnostic => !diagnostic.onStatic).Sublist
      ((subject.reported higher).filter fun diagnostic => !diagnostic.onStatic) := by
  simp only [reported, bindingDiagnostics, List.filter_append,
    filter_not_onStatic_bindingDiagnosticsFrom]
  exact (((hkept.filter _).append_right _).append_right _).append_right _

section Findings

variable {pointcut : Method} (hpointcut : subject.advice.pointcut = some pointcut)

include hpointcut

theorem inspectPointcut_of_unresolved (hunresolved : options.resolves = false) :
    subject.inspectPointcut resolver options =
      .ok ⟨subject.constructorDiagnostics pointcut, declaredStatic pointcut, false⟩ := by
  simp [inspectPointcut, hpointcut, hunresolved, pure, Except.pure]

theorem inspectPointcut_of_located (hresolves : options.resolves = true) {flags : MethodFlags}
    (hlocate : resolver.locate pointcut = .ok (.ok flags)) :
    subject.inspectPointcut resolver options =
      .ok ⟨subject.constructorDiagnostics pointcut, some flags.isStatic, true⟩ := by
  simp [inspectPointcut, hpointcut, hresolves, hlocate, bind, Except.bind, pure, Except.pure]

theorem inspectPointcut_of_missing (hresolves : options.resolves = true)
    {failure : ResolutionFailure} (hlocate : resolver.locate pointcut = .ok (.error failure)) :
    subject.inspectPointcut resolver options =
      .ok ⟨subject.constructorDiagnostics pointcut ++
          [.ofResolutionFailure failure subject.pointcutLocation],
        declaredStatic pointcut, false⟩ := by
  simp [inspectPointcut, hpointcut, hresolves, hlocate, bind, Except.bind, pure, Except.pure]

end Findings

/-- Resolution adds to the diagnostics of the pointcut.  It changes whether the
pointcut is known to be static only where it contradicts the signature. -/
theorem exists_inspectPointcut_levels (htotal : resolver.Total) (subject : Subject) :
    ∃ structural standard,
      subject.inspectPointcut resolver (.unlimited .structural) = .ok structural ∧
      subject.inspectPointcut resolver (.unlimited .standard) = .ok standard ∧
      structural.diagnostics.Sublist standard.diagnostics ∧
      (¬ (structural.knownStatic = some true ↔ standard.knownStatic = some true) ↔
        resolver.Contradicts subject.advice) := by
  cases hpointcut : subject.advice.pointcut with
  | none =>
      refine ⟨_, _, by rw [inspectPointcut, hpointcut], by rw [inspectPointcut, hpointcut],
        List.Sublist.refl _, ?_⟩
      simp [Resolver.Contradicts, hpointcut]
  | some pointcut =>
      obtain ⟨outcome, hlocate⟩ := htotal.locate pointcut
      have hstructural : subject.inspectPointcut resolver (.unlimited .structural) = _ :=
        inspectPointcut_of_unresolved hpointcut rfl
      cases outcome with
      | error failure =>
          refine ⟨_, _, hstructural, inspectPointcut_of_missing hpointcut rfl hlocate,
            List.sublist_append_left _ _, ?_⟩
          simp [Resolver.Contradicts, hpointcut, hlocate]
      | ok flags =>
          refine ⟨_, _, hstructural, inspectPointcut_of_located hpointcut rfl hlocate,
            List.Sublist.refl _, ?_⟩
          have hstated : declaredStatic pointcut = some true ↔
              (pointcut.isStatic && !pointcut.isConstructor) = true := by
            rw [declaredStatic_eq_true_iff]
            simp [and_comm]
          rw [Resolver.contradicts_iff hpointcut hlocate, hstated, Option.some_inj,
            ← Bool.eq_iff_iff]
          exact ne_comm

theorem verify_of_diagnostics {found : List Diagnostic} {level : VerificationLevel}
    (hfound : subject.diagnostics resolver (.unlimited level) = .ok found) :
    subject.verify resolver (.unlimited level) =
      .ok ⟨0, found.map fun diagnostic => diagnostic.inContext subject.context, 0⟩ := by
  rw [verify, hfound]
  exact congrArg Except.ok (Report.ofList_zero _)

/-- Receivers are reported differently where only one of two findings has a
pointcut that is known to be static. -/
theorem filter_onStatic_ne_iff {lower higher : PointcutFindings}
    (hlower : OffStatic lower.diagnostics) (hhigher : OffStatic higher.diagnostics) :
    ((subject.reported lower).filter Diagnostic.onStatic).map
          (fun diagnostic => diagnostic.inContext subject.context) ≠
        ((subject.reported higher).filter Diagnostic.onStatic).map
          (fun diagnostic => diagnostic.inContext subject.context) ↔
      ¬ (lower.knownStatic = some true ↔ higher.knownStatic = some true) ∧
        ∃ position < subject.advice.arity,
          subject.advice.binding? position = some .receiver := by
  rw [filter_onStatic_reported hlower, filter_onStatic_reported hhigher,
    ← staticReceivers_ne_nil_iff]
  by_cases hstaticLower : lower.knownStatic = some true
  · by_cases hstaticHigher : higher.knownStatic = some true
    · simp [hstaticLower, hstaticHigher]
    · simp [hstaticLower, hstaticHigher]
  · by_cases hstaticHigher : higher.knownStatic = some true
    · simp [hstaticLower, hstaticHigher]
    · simp [hstaticLower, hstaticHigher]

end Subject

/-- A higher level has the marker interface looked at, after the advices were
counted. -/
theorem CallSite.verifyHeader_sublist (site : CallSite) (resolver : Resolver)
    (level : VerificationLevel) :
    (site.verifyHeader resolver (.unlimited .structural)).diagnostics.Sublist
      (site.verifyHeader resolver (.unlimited level)).diagnostics := by
  have hunchecked : site.spiDiagnostics resolver (.unlimited .structural) = [] :=
    if_neg (by simp [VerificationOptions.unlimited, VerificationOptions.withLimit,
      VerificationOptions.ofLevel, VerificationOptions.checksSpi])
  have hreport : ∀ level, (site.verifyHeader resolver (.unlimited level)).diagnostics =
      (site.adviceDiagnostics ++ site.spiDiagnostics resolver (.unlimited level)).map
        fun diagnostic => diagnostic.inContext site.context := by
    intro level
    exact congrArg Report.diagnostics (Report.ofList_zero _)
  rw [hreport, hreport, hunchecked, List.append_nil]
  exact (List.sublist_append_left _ _).map _

namespace Sample

/-- A clock whose method is static. -/
def staticClockPath : ClassPath :=
  .add .root ((ClassDeclaration.ofClass "foo.Clock").declare "advance" [.long] .int true)

theorem locate_advance :
    staticClockPath.locate ⟨clock, "advance", [.long], .int, ⟨false, true⟩⟩ =
      .ok ⟨true, true⟩ := by
  have hfound : (staticClockPath.locate
      ⟨clock, "advance", [.long], .int, ⟨false, true⟩⟩).toOption = some ⟨true, true⟩ := by
    decide +kernel
  generalize staticClockPath.locate _ = outcome at hfound ⊢
  cases outcome with
  | error failure => cases hfound
  | ok flags => rw [Option.some.inj hfound]

end Sample

/-- With a resolver that does not break down, a higher level only adds diagnostics,
but for those on the receiver of a static pointcut.  These differ below the standard
level exactly if a receiver is bound and the signature is not as static as the
method. -/
theorem raising_level_only_adds (site : CallSite) (subject : Subject) (resolver : Resolver)
    (htotal : resolver.Total) :
    (∃ structural standard full,
      subject.verify resolver (.unlimited .structural) = .ok structural ∧
      subject.verify resolver (.unlimited .standard) = .ok standard ∧
      subject.verify resolver (.unlimited .full) = .ok full ∧
      standard.diagnostics <+: full.diagnostics ∧
      (structural.diagnostics.filter fun diagnostic => !diagnostic.onStatic).Sublist
        (standard.diagnostics.filter fun diagnostic => !diagnostic.onStatic) ∧
      (structural.diagnostics.filter Diagnostic.onStatic ≠
          standard.diagnostics.filter Diagnostic.onStatic ↔
        resolver.Contradicts subject.advice ∧
          ∃ position < subject.advice.arity,
            subject.advice.binding? position = some .receiver)) ∧
    (site.verifyHeader resolver (.unlimited .structural)).diagnostics.Sublist
      (site.verifyHeader resolver (.unlimited .standard)).diagnostics ∧
    site.verifyHeader resolver (.unlimited .standard) =
      site.verifyHeader resolver (.unlimited .full) := by
  obtain ⟨structural, standard, hstructural, hstandard, hkept, hcontradicts⟩ :=
    Subject.exists_inspectPointcut_levels htotal subject
  -- The two upper levels resolve alike, so what the pointcut gives is the same.
  have hfull : subject.inspectPointcut resolver (.unlimited .full) = .ok standard := hstandard
  obtain ⟨compatibility, hcompatibility⟩ :=
    Subject.exists_diagnostics_of_findings htotal hfull
  refine ⟨⟨_, _, _,
    Subject.verify_of_diagnostics (Subject.diagnostics_of_findings hstructural rfl),
    Subject.verify_of_diagnostics (Subject.diagnostics_of_findings hstandard rfl),
    Subject.verify_of_diagnostics hcompatibility, ?_, ?_, ?_⟩, ?_, rfl⟩
  · exact (List.prefix_append _ _).map _
  · rw [List.filter_map, List.filter_map]
    exact (Subject.filter_not_onStatic_reported hkept).map _
  · rw [List.filter_map, List.filter_map, ← hcontradicts]
    exact Subject.filter_onStatic_ne_iff (Subject.offStatic_inspectPointcut hstructural)
      (Subject.offStatic_inspectPointcut hstandard)
  · exact site.verifyHeader_sublist resolver .standard

/-- Only resolution tells that the clock's method is static. -/
theorem static_clock_told_by_resolution :
    Sample.staticClockPath.resolver.Total ∧
      ∃ structural standard,
        (Subject.mk (.object "foo.Advices") 0 Sample.clockAdvice).verify
          Sample.staticClockPath.resolver (.unlimited .structural) = .ok structural ∧
        (Subject.mk (.object "foo.Advices") 0 Sample.clockAdvice).verify
          Sample.staticClockPath.resolver (.unlimited .standard) = .ok standard ∧
        structural.diagnostics.filter Diagnostic.onStatic ≠
          standard.diagnostics.filter Diagnostic.onStatic := by
  have htotal := ClassPath.total_resolver Sample.staticClockPath
  obtain ⟨⟨structural, standard, -, hstructural, hstandard, -, -, -, hdiffer⟩, -⟩ :=
    raising_level_only_adds (Sample.siteOf Sample.clockAdvice)
      ⟨.object "foo.Advices", 0, Sample.clockAdvice⟩ Sample.staticClockPath.resolver htotal
  refine ⟨htotal, structural, standard, hstructural, hstandard, hdiffer.mpr ⟨?_, 0, ?_, rfl⟩⟩
  · exact ⟨_, _, rfl, congrArg Except.ok Sample.locate_advance, by decide⟩
  · decide

end AdviceCompiler
