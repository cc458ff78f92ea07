import AdviceCompiler.Report

/-!
# The advice under verification

An advice together with its owner and its index in the call site, which is all
that its diagnostics tell of the call site.
-/

namespace AdviceCompiler

structure Subject where
  /-- The owner of the call site. -/
  owner : JavaType
  /-- The place of the advice in order of declaration. -/
  index : Nat
  advice : Advice
  deriving DecidableEq

namespace Subject

def location (subject : Subject) : Location :=
  .advice subject.index subject.advice.method.name

def parameterLocation (subject : Subject) (position : Nat) : Location :=
  .parameter subject.index subject.advice.method.name position

def pointcutLocation (subject : Subject) : Location :=
  .pointcut subject.index subject.advice.signature

def context (subject : Subject) : DiagnosticContext where
  callSite := some subject.owner.text
  advice := some subject.advice.method.text
  pointcut := some subject.advice.signature

end Subject

namespace CallSite

/-- The advices of a call site, each with its owner and index. -/
def subjects (site : CallSite) : List Subject :=
  site.advices.zipIdx.map fun (advice, index) => ⟨site.owner, index, advice⟩

end CallSite

end AdviceCompiler
