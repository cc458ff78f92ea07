import AdviceCompiler.Verification.Bindings
import AdviceCompiler.Verification.Compatibility
import AdviceCompiler.Verification.KindRules
import AdviceCompiler.Verification.Options

/-!
# Verifying an advice

All rules on one advice.  Independent rules are all checked; a rule that needs
the pointcut, or its resolution, is left out where that is missing.
-/

namespace AdviceCompiler

/-- What the checks on a pointcut found. -/
structure PointcutFindings where
  diagnostics : List Diagnostic
  /-- Whether the pointcut is static, if anything told. -/
  knownStatic : Option Bool
  resolved : Bool
  deriving DecidableEq

namespace Subject

/-- What a signature alone tells about staticness. -/
def declaredStatic (pointcut : Method) : Option Bool :=
  if pointcut.isConstructor then some false
  else if pointcut.isStatic then some true
  else none

/-- A constructor pointcut returns `void`. -/
def constructorDiagnostics (subject : Subject) (pointcut : Method) : List Diagnostic :=
  if pointcut.isConstructor ∧ ¬ pointcut.returnType.isVoid then
    [{ code := .pointcutConstructorNotVoid
       message := "constructor pointcut must return void, found `" ++
         pointcut.returnType.text ++ "`"
       location := subject.pointcutLocation }]
  else []

/-- Checks that there is a pointcut and, where asked, that it resolves. -/
def inspectPointcut (subject : Subject) (resolver : Resolver) (options : VerificationOptions) :
    Except Crash PointcutFindings :=
  match subject.advice.pointcut with
  | none =>
      .ok
        { diagnostics :=
            [{ code := .pointcutInvalid
               message := "pointcut `" ++ subject.advice.signature ++ "` could not be parsed"
               location := subject.pointcutLocation }]
          knownStatic := none
          resolved := false }
  | some pointcut => do
      let declared := subject.constructorDiagnostics pointcut
      if options.resolves then
        match ← resolver.locate pointcut with
        | .ok flags => return ⟨declared, some flags.isStatic, true⟩
        | .error failure =>
            return ⟨declared ++ [.ofResolutionFailure failure subject.pointcutLocation],
              declaredStatic pointcut, false⟩
      else return ⟨declared, declaredStatic pointcut, false⟩

/-- An advice method is public and static. -/
def flagDiagnostics (subject : Subject) : List Diagnostic :=
  if subject.advice.method.isPublic ∧ subject.advice.method.isStatic then []
  else
    [{ code := .adviceNotPublicStatic
       message := "advice method `" ++ subject.advice.method.name ++
         "` must be public and static"
       location := subject.location }]

/-- The diagnostics of all rules, in order. -/
def diagnostics (subject : Subject) (resolver : Resolver) (options : VerificationOptions) :
    Except Crash (List Diagnostic) := do
  let findings ← subject.inspectPointcut resolver options
  let declared := findings.diagnostics ++ subject.flagDiagnostics ++
    subject.bindingDiagnostics findings.knownStatic
  match subject.advice.pointcut with
  | none => return declared
  | some pointcut =>
      let compatibility ←
        if findings.resolved ∧ options.checksCompatibility then
          subject.compatibilityDiagnostics resolver pointcut
        else pure []
      return declared ++ subject.kindDiagnostics pointcut ++ compatibility

/-- The report on an advice. -/
def verify (subject : Subject) (resolver : Resolver) (options : VerificationOptions) :
    Except Crash Report := do
  let diagnostics ← subject.diagnostics resolver options
  return .ofList options.maxDiagnostics
    (diagnostics.map fun diagnostic => diagnostic.inContext subject.context)

end Subject

end AdviceCompiler
