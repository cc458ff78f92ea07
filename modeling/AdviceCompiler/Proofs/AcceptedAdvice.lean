import AdviceCompiler.Proofs.ValidAdvice

/-!
# What a clean report establishes

An advice whose report is clean has a pointcut that resolves, bindings in order
and types that fit.  The checks are written as lists of diagnostics; this file
turns an empty list into the facts that later stages rely on.
-/

namespace AdviceCompiler

theorem JavaType.category?_of_isReference {type : JavaType} (hreference : type.isReference = true) :
    type.category? = some .narrow := by
  cases type <;> simp_all [JavaType.isReference, JavaType.category?]

theorem JavaType.category?_eq_none_iff {type : JavaType} :
    type.category? = none ↔ type.isVoid = true := by
  cases type <;> simp [JavaType.category?, JavaType.isVoid]

namespace ClassPath

/-- Only references are accepted where another type is asked for. -/
theorem eq_or_references_of_accepts (path : ClassPath) {target source : JavaType}
    (haccepts : path.accepts target source = .ok true) :
    target = source ∨ target.isReference = true ∧ source.isReference = true := by
  by_cases hequal : target = source
  · exact Or.inl hequal
  · right
    rw [accepts.eq_def] at haccepts
    simp only [hequal, if_false] at haccepts
    split at haccepts
    · exact ⟨rfl, rfl⟩
    · exact ⟨rfl, rfl⟩
    · exact ⟨rfl, rfl⟩
    · cases haccepts

/-- A value that is accepted has the width asked for. -/
theorem category?_eq_of_accepts (path : ClassPath) {target source : JavaType}
    (haccepts : path.accepts target source = .ok true) :
    target.category? = source.category? := by
  rcases path.eq_or_references_of_accepts haccepts with rfl | ⟨htarget, hsource⟩
  · rfl
  · rw [JavaType.category?_of_isReference htarget, JavaType.category?_of_isReference hsource]

theorem exists_declaration_of_locate (path : ClassPath) {method : Method} {flags : MethodFlags}
    (hlocate : path.locate method = .ok flags) :
    ∃ found, path.declaration? method = some found ∧ found.flags = flags := by
  simp only [locate] at hlocate
  split at hlocate
  · cases hlocate
  · split at hlocate
    · next found hfound => exact ⟨found, hfound, Except.ok.inj hlocate⟩
    · cases hlocate

/-- Only classes declare methods. -/
theorem isReference_owner_of_locate (path : ClassPath) {method : Method} {flags : MethodFlags}
    (hlocate : path.locate method = .ok flags) : method.owner.isReference = true := by
  rcases path.exists_declaration_of_locate hlocate with ⟨found, hfound, -⟩
  unfold declaration? at hfound
  split at hfound
  · next owner howner => rw [howner]; rfl
  · cases hfound

end ClassPath

/-- What a clean report says of an advice whose types were checked. -/
structure Advice.Accepted (advice : Advice) (resolver : Resolver) (pointcut : Method)
    (flags : MethodFlags) : Prop where
  intercepts : advice.pointcut = some pointcut
  located : resolver.locate pointcut = .ok (.ok flags)
  constructorVoid : pointcut.isConstructor = true → pointcut.returnType.isVoid = true
  wellBound : advice.WellBound (some flags.isStatic)
  rules : ∀ rule ∈ advice.kind.rules, rule.violated advice pointcut = false
  parameters : ∀ position binding, (position, binding) ∈ advice.bindings →
    ∀ target source, advice.method.params[position]? = some target →
      binding.typeAt? pointcut = some source → resolver.accepts target source = .ok (.ok true)
  returned : advice.method.returnType.isVoid = false → advice.kind ≠ .before →
    resolver.accepts advice.method.returnType pointcut.valueType = .ok (.ok true)

theorem Advice.Accepted.isReference_owner {advice : Advice} {path : ClassPath}
    {pointcut : Method} {flags : MethodFlags}
    (haccepted : advice.Accepted path.resolver pointcut flags) :
    pointcut.owner.isReference = true :=
  path.isReference_owner_of_locate (Except.ok.inj haccepted.located)

namespace Subject

variable {subject : Subject} {resolver : Resolver}

/-- A clean report of an advice whose types are checked accepts it. -/
theorem accepted_of_verify {options : VerificationOptions} {report : Report}
    (hcompatibility : options.checksCompatibility = true)
    (hverify : subject.verify resolver options = .ok report) (hclean : report.isClean = true) :
    ∃ pointcut flags, subject.advice.Accepted resolver pointcut flags := by
  obtain ⟨pointcut, hvalid⟩ := (isClean_iff_validOn hverify).mp hclean
  have hresolves := VerificationOptions.resolves_of_checksCompatibility hcompatibility
  obtain ⟨flags, hlocated⟩ := hvalid.located hresolves
  refine ⟨pointcut, flags, hvalid.intercepts, hlocated, hvalid.constructorVoid, ?_, ?_, ?_, ?_⟩
  · refine (wellBound_iff hvalid.intercepts).mpr ⟨hvalid.filled, hvalid.ordered, ?_⟩
    intro hstatic
    apply hvalid.receiver
    rw [Resolver.KnowsStatic, if_pos hresolves]
    exact ⟨flags, hlocated, Option.some.inj hstatic⟩
  · exact kindDiagnostics_eq_nil.mp (kindDiagnostics_eq_nil_iff_suitsKind.mpr hvalid.suitsKind)
  · intro position binding hmem target source htarget hsource
    obtain ⟨_, _, htarget', hsource', haccepts⟩ :=
      hvalid.parameters hcompatibility position binding hmem
    rw [htarget] at htarget'
    rw [hsource] at hsource'
    cases htarget'
    cases hsource'
    exact haccepts
  · intro hvalue hkind
    exact hvalid.returned hcompatibility hkind hvalue

end Subject

end AdviceCompiler
