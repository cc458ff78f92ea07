import AdviceCompiler.Verification.Advice

/-!
# Verifying a call site

A call site has at least one advice, and its marker interface is an interface
without methods.
-/

namespace AdviceCompiler.CallSite

/-- The context of a diagnostic on the call site as a whole. -/
def context (site : CallSite) : DiagnosticContext where
  callSite := some site.owner.text

/-- A call site declares an advice. -/
def adviceDiagnostics (site : CallSite) : List Diagnostic :=
  if site.advices.isEmpty then
    [{ code := .noAdvice, message := "call site declares no advice methods"
       location := .callSite site.owner }]
  else []

/-- A marker interface other than the default one is an empty interface. -/
def spiDiagnostics (site : CallSite) (resolver : Resolver) (options : VerificationOptions) :
    List Diagnostic :=
  if !site.usesDefaultSpi && options.checksSpi then
    match resolver.describeType site.spi with
    | .ok summary =>
        if !summary.isInterface then
          [{ code := .spiNotInterface
             message := "SPI `" ++ site.spi.text ++ "` must be an interface"
             location := .spi site.spi }]
        else if 0 < summary.declaredMethods then
          [{ code := .spiNotEmpty
             message := "SPI `" ++ site.spi.text ++ "` must not declare methods"
             location := .spi site.spi
             notes := ["found " ++ toString summary.declaredMethods ++ " declared methods"] }]
        else []
    | .error failure => [.ofResolutionFailure failure (.spi site.spi)]
  else []

/-- The report on a call site without its advices. -/
def verifyHeader (site : CallSite) (resolver : Resolver) (options : VerificationOptions) :
    Report :=
  .ofList options.maxDiagnostics
    ((site.adviceDiagnostics ++ site.spiDiagnostics resolver options).map
      fun diagnostic => diagnostic.inContext site.context)

/-- The report on one advice, in which a breakdown is a diagnostic. -/
def verifySubject (subject : Subject) (resolver : Resolver) (options : VerificationOptions) :
    Report :=
  match subject.verify resolver options with
  | .ok report => report
  | .error crash =>
      .ofList options.maxDiagnostics [.ofCrash crash subject.location]

/-- The report on a call site and all its advices, in order of declaration. -/
def verify (site : CallSite) (resolver : Resolver) (options : VerificationOptions) : Report :=
  site.subjects.foldl
    (fun report subject => report.merge (verifySubject subject resolver options))
    (site.verifyHeader resolver options)

end AdviceCompiler.CallSite
