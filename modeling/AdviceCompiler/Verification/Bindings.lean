import AdviceCompiler.Verification.Subject

/-!
# Rules on parameter bindings

Every parameter of an advice is bound.  The receiver comes first and the result
last, each at most once, and arguments come in the order of the call.  The
bindings are gone through once in position order.
-/

namespace AdviceCompiler.Subject

/-- What has been bound at the positions gone through so far. -/
structure Seen where
  receiver : Bool := false
  result : Bool := false
  arguments : List Nat := []
  /-- The largest argument index. -/
  largest : Option Nat := none
  deriving DecidableEq

namespace Seen

def add (seen : Seen) : Binding → Seen
  | .receiver => { seen with receiver := true }
  | .result => { seen with result := true }
  | .argument index =>
      { seen with
        arguments := index :: seen.arguments
        largest := some ((seen.largest.map fun largest => max largest index).getD index) }

end Seen

/-- One diagnostic for each parameter without a binding. -/
def unboundParameters (subject : Subject) : List Diagnostic :=
  (List.range subject.advice.arity).filterMap fun position =>
    match subject.advice.binding? position with
    | some _ => none
    | none =>
        some
          { code := .parameterUnbound
            message := "advice parameter " ++ toString position ++ " has no binding"
            location := subject.parameterLocation position }

/-- The receiver is bound once, at the first position, and not for a static
pointcut. -/
def receiverDiagnostics (subject : Subject) (knownStatic : Option Bool) (seen : Seen)
    (position : Nat) : List Diagnostic :=
  let location := subject.parameterLocation position
  (if seen.receiver then
      [{ code := .receiverRepeated, message := "@This is bound more than once", location }]
    else if position ≠ 0 then
      [{ code := .receiverNotFirst, message := "@This must be the first advice parameter",
         location }]
    else []) ++
    if knownStatic = some true then
      [{ code := .receiverOnStatic, message := "@This cannot be bound for a static pointcut",
         location }]
    else []

/-- The result is bound once, at the last position. -/
def resultDiagnostics (subject : Subject) (seen : Seen) (position : Nat) : List Diagnostic :=
  let location := subject.parameterLocation position
  if seen.result then
    [{ code := .resultRepeated, message := "@Return is bound more than once", location }]
  else if position + 1 ≠ subject.advice.arity then
    [{ code := .resultNotLast, message := "@Return must be the last advice parameter",
       location }]
  else []

/-- An argument exists, is bound once and comes after those with a lesser
index.  A repeated argument is also out of order. -/
def argumentDiagnostics (subject : Subject) (seen : Seen) (position index : Nat) :
    List Diagnostic :=
  let location := subject.parameterLocation position
  (match subject.advice.pointcut with
    | some pointcut =>
        if pointcut.params.length ≤ index then
          [{ code := .argumentOutOfBounds
             message := "argument index " ++ toString index ++ " is out of bounds"
             location
             notes :=
               ["pointcut declares " ++ toString pointcut.params.length ++ " parameters"] }]
        else []
    | none => []) ++
    (if seen.arguments.contains index then
      [{ code := .argumentRepeated
         message := "argument " ++ toString index ++ " is bound more than once"
         location }]
    else []) ++
    match seen.largest with
    | some largest =>
        if index ≤ largest then
          [{ code := .argumentOutOfOrder
             message := "argument " ++ toString index ++ " is bound after argument " ++
               toString largest
             location }]
        else []
    | none => []

/-- The diagnostics of one binding at a position below the arity. -/
def boundDiagnostics (subject : Subject) (knownStatic : Option Bool) (seen : Seen)
    (position : Nat) : Binding → List Diagnostic
  | .receiver => subject.receiverDiagnostics knownStatic seen position
  | .result => subject.resultDiagnostics seen position
  | .argument index => subject.argumentDiagnostics seen position index

/-- Goes through bindings in position order.  A position beyond the arity counts
for nothing else. -/
def bindingDiagnosticsFrom (subject : Subject) (knownStatic : Option Bool) (seen : Seen) :
    List (Nat × Binding) → List Diagnostic
  | [] => []
  | (position, binding) :: rest =>
      if subject.advice.arity ≤ position then
        { code := .bindingBeyondArity
          message := binding.text ++ " is bound at position " ++ toString position ++
            ", but the advice takes " ++ toString subject.advice.arity ++ " parameters"
          location := subject.parameterLocation position } ::
          subject.bindingDiagnosticsFrom knownStatic seen rest
      else
        subject.boundDiagnostics knownStatic seen position binding ++
          subject.bindingDiagnosticsFrom knownStatic (seen.add binding) rest

/-- All diagnostics of an advice's bindings.  `knownStatic` is whether the
pointcut is static, if that is known. -/
def bindingDiagnostics (subject : Subject) (knownStatic : Option Bool) : List Diagnostic :=
  subject.unboundParameters ++
    subject.bindingDiagnosticsFrom knownStatic {} subject.advice.bindings

end AdviceCompiler.Subject
