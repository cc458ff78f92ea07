/-!
# Verification levels

A level fixes which checks run beyond the structural ones.  Single checks can be
switched on or off beside it, but the full level always runs all of them.
-/

namespace AdviceCompiler

inductive VerificationLevel where
  /-- Rules that look at the declarations alone. -/
  | structural
  /-- Also whether pointcuts and marker interfaces resolve. -/
  | standard
  /-- Also whether bound values fit the advice's parameters. -/
  | full
  deriving DecidableEq

structure VerificationOptions where
  level : VerificationLevel
  /-- The number of diagnostics kept; `0` is no limit. -/
  maxDiagnostics : Nat
  resolvePointcuts : Bool
  checkSpi : Bool
  checkCompatibility : Bool
  deriving DecidableEq

namespace VerificationOptions

/-- The checks of a level. -/
def ofLevel : VerificationLevel → VerificationOptions
  | .structural => ⟨.structural, 200, false, false, false⟩
  | .standard => ⟨.standard, 200, true, true, false⟩
  | .full => ⟨.full, 500, true, true, true⟩

/-- Every check. -/
def default : VerificationOptions :=
  ofLevel .full

/-- Whether pointcuts are resolved. -/
def resolves (options : VerificationOptions) : Bool :=
  options.resolvePointcuts || options.level = .full

/-- Whether the marker interface is looked at. -/
def checksSpi (options : VerificationOptions) : Bool :=
  options.checkSpi || options.level = .full

/-- Compatibility is checked only between resolved types. -/
def checksCompatibility (options : VerificationOptions) : Bool :=
  options.resolves && (options.checkCompatibility || options.level = .full)

end VerificationOptions

end AdviceCompiler
