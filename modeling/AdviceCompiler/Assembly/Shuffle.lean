import AdviceCompiler.Advice
import AdviceCompiler.Diagnostic
import AdviceCompiler.Stack.Solver

/-!
# Stack shuffles

Before the calls of a unit, the operands of the intercepted call are copied into
the places where the advice and the call expect them.  A shuffle gives the
layout found and the layout needed.
-/

namespace AdviceCompiler

/-- Why no unit is assembled for an advice. -/
inductive AssemblyError where
  | missingPointcut (signature : String)
  | argumentOutOfBounds (index : Nat)
  | noReceiver (binding : Binding)
  | voidOperand (index : Nat)
  | unsolvable (current target : Layout)
  deriving DecidableEq

namespace AssemblyError

def message : AssemblyError → String
  | .missingPointcut signature => "pointcut `" ++ signature ++ "` has not been parsed"
  | .argumentOutOfBounds index =>
      "argument " ++ toString index ++ " is not declared by the pointcut"
  | .noReceiver binding => "`" ++ binding.text ++ "` cannot be bound on a static pointcut"
  | .voidOperand index => "pointcut parameter " ++ toString index ++ " has type void"
  | .unsolvable current target =>
      "no stack transform from " ++ current.text ++ " to " ++ target.text

def code : AssemblyError → DiagnosticCode
  | .missingPointcut _ => .pointcutInvalid
  | .argumentOutOfBounds _ => .argumentOutOfBounds
  | .noReceiver _ => .receiverOnStatic
  | .voidOperand _ => .parameterIncompatible
  | .unsolvable _ _ => .stackUnsolvable

end AssemblyError

structure Shuffle where
  current : Layout
  target : Layout
  deriving DecidableEq

namespace Shuffle

/-- The slot of the receiver. -/
def receiverSlot : Slot := ⟨0, .narrow⟩

/-- The slot of an argument.  The arguments are numbered after the receiver. -/
def argumentSlot (pointcut : Method) (index : Nat) : Except AssemblyError Slot :=
  match pointcut.params[index]? with
  | none => .error (.argumentOutOfBounds index)
  | some type =>
      match type.category? with
      | none => .error (.voidOperand index)
      | some category => .ok ⟨UInt32.ofNat (index + 1), category⟩

/-- Whether the intercepted call has a receiver among its operands. -/
def hasReceiver (pointcut : Method) (pointcutStatic : Bool) : Bool :=
  pointcut.isConstructor || !pointcutStatic

/-- The operands of the intercepted call: its receiver, if any, and all
arguments. -/
def operands (pointcut : Method) (pointcutStatic : Bool) : Except AssemblyError Layout := do
  let arguments ← (List.range pointcut.params.length).mapM (argumentSlot pointcut)
  return (if hasReceiver pointcut pointcutStatic then [receiverSlot] else []) ++ arguments

/-- The copy that the creation of an object leaves beneath the operands of its
constructor. -/
def created (pointcut : Method) : Layout :=
  if pointcut.isConstructor then [receiverSlot] else []

/-- The slot of a bound value.  The result of the call has none before it. -/
def boundSlot (pointcut : Method) (pointcutStatic : Bool) (binding : Binding) :
    Except AssemblyError Layout :=
  match binding with
  | .receiver =>
      if hasReceiver pointcut pointcutStatic then .ok [receiverSlot]
      else .error (.noReceiver binding)
  | .argument index => (argumentSlot pointcut index).map fun slot => [slot]
  | .result => .ok []

/-- The operands an advice takes, in position order. -/
def bound (advice : Advice) (pointcut : Method) (pointcutStatic : Bool) :
    Except AssemblyError Layout := do
  let slots ← advice.operands.mapM (boundSlot pointcut pointcutStatic)
  return slots.flatten

/-- The shuffle of an advice.  An advice before the call finds its operands on
top of the call's, one after the call beneath them.  An advice around the call
takes the call's operands as they are and needs no shuffle. -/
def ofAdvice (advice : Advice) (pointcut : Method) (pointcutStatic : Bool) :
    Except AssemblyError (Option Shuffle) :=
  if advice.kind = .around then .ok none
  else do
    let operands ← operands pointcut pointcutStatic
    let bound ← bound advice pointcut pointcutStatic
    let current := created pointcut ++ operands
    let target := if advice.kind = .before then current ++ bound else bound ++ operands
    return some ⟨current, target⟩

end Shuffle

end AdviceCompiler
