import AdviceCompiler.Verification.Subject

/-!
# Compatibility of bound values

An advice parameter accepts the value bound to it, and the type an advice
returns accepts the value the intercepted call gives.
-/

namespace AdviceCompiler

/-- The type of a bound value at a pointcut.  An argument that the pointcut does
not have has none. -/
def Binding.typeAt? (pointcut : Method) : Binding → Option JavaType
  | .receiver => some pointcut.owner
  | .argument index => pointcut.params[index]?
  | .result => some pointcut.valueType

namespace Subject

/-- Checks that `target` accepts `source`. -/
def assignmentDiagnostics (resolver : Resolver) (target source : JavaType)
    (refusal : Diagnostic) : Except Crash (List Diagnostic) := do
  match ← resolver.accepts target source with
  | .ok true => return []
  | .ok false => return [refusal]
  | .error failure => return [.ofResolutionFailure failure refusal.location]

/-- Checks one binding, if both the parameter and the bound value exist. -/
def parameterCompatibility (subject : Subject) (resolver : Resolver) (pointcut : Method)
    (position : Nat) (binding : Binding) : Except Crash (List Diagnostic) :=
  match subject.advice.method.params[position]?, binding.typeAt? pointcut with
  | some target, some source =>
      assignmentDiagnostics resolver target source
        { code := .parameterIncompatible
          message := "advice parameter of type `" ++ target.text ++ "` cannot accept " ++
            binding.text ++ " of type `" ++ source.text ++ "`"
          location := subject.parameterLocation position }
  | _, _ => .ok []

/-- Checks the bindings in order. -/
def bindingCompatibility (subject : Subject) (resolver : Resolver) (pointcut : Method) :
    List (Nat × Binding) → Except Crash (List Diagnostic)
  | [] => .ok []
  | (position, binding) :: rest => do
      let first ← subject.parameterCompatibility resolver pointcut position binding
      let others ← subject.bindingCompatibility resolver pointcut rest
      return first ++ others

/-- Checks what the advice returns in place of the value the call gives. -/
def returnCompatibility (subject : Subject) (resolver : Resolver) (pointcut : Method) :
    Except Crash (List Diagnostic) :=
  let target := subject.advice.method.returnType
  if target.isVoid ∨ subject.advice.kind = .before then .ok []
  else
    assignmentDiagnostics resolver target pointcut.valueType
      { code := .resultIncompatible
        message := "advice return type `" ++ target.text ++ "` is not compatible with `" ++
          pointcut.valueType.text ++ "`"
        location := subject.location }

/-- Checks every bound value and the returned one. -/
def compatibilityDiagnostics (subject : Subject) (resolver : Resolver) (pointcut : Method) :
    Except Crash (List Diagnostic) := do
  let parameters ← subject.bindingCompatibility resolver pointcut subject.advice.bindings
  let returned ← subject.returnCompatibility resolver pointcut
  return parameters ++ returned

end Subject

end AdviceCompiler
