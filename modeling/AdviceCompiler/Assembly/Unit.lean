import AdviceCompiler.Assembly.Shuffle

/-!
# Advice units

The unit of an advice lists the operations that replace an intercepted call.
-/

namespace AdviceCompiler

inductive Operation where
  | shuffle (instruction : Instruction)
  /-- The static call of the advice method. -/
  | callAdvice (method : Method)
  /-- The intercepted call itself. -/
  | callIntercepted
  /-- A checked cast of the value on top. -/
  | cast (type : JavaType)
  deriving DecidableEq

namespace Operation

def text : Operation → String
  | .shuffle instruction => instruction.mnemonic
  | .callAdvice method => "INVOKESTATIC " ++ method.reference
  | .callIntercepted => "INVOKE <original>"
  | .cast type => "CHECKCAST " ++ type.internalName

def instruction? : Operation → Option Instruction
  | .shuffle instruction => some instruction
  | _ => none

end Operation

structure AdviceUnit where
  name : String
  spi : JavaType
  helpers : List JavaType
  kind : AdviceKind
  pointcut : Method
  operations : List Operation
  deriving DecidableEq

namespace AdviceUnit

/-- The stack instructions of a unit, in order. -/
def instructions (unit : AdviceUnit) : List Instruction :=
  unit.operations.filterMap Operation.instruction?

/-- The header of a unit and its operations, one on each line. -/
def text (unit : AdviceUnit) : String :=
  "unit " ++ unit.name ++ " implements " ++ unit.spi.text ++ "\n" ++
    "  helpers:" ++ String.join (unit.helpers.map fun helper => " " ++ helper.text) ++ "\n" ++
    "  " ++ unit.kind.text ++ " " ++ unit.pointcut.reference ++ "\n" ++
    String.join (unit.operations.map fun operation => "    " ++ operation.text ++ "\n")

/-- The calls of a unit, in the order of its kind. -/
def calls (advice : Advice) : List Operation :=
  match advice.kind with
  | .before => [.callAdvice advice.method, .callIntercepted]
  | .after => [.callIntercepted, .callAdvice advice.method]
  | .around => [.callAdvice advice.method]

/-- The cast of what the advice returns to the type of the intercepted call's
value, where that is a reference of another type. -/
def casts (advice : Advice) (pointcut : Method) : List Operation :=
  if advice.kind ≠ .before ∧ pointcut.valueType.isReference ∧
      advice.method.returnType ≠ pointcut.valueType then
    [.cast pointcut.valueType]
  else []

/-- The instructions of a shuffle, if one is needed. -/
def solve {σ : Type} (solver : Solver σ) (state : σ) :
    Option Shuffle → Except AssemblyError (List Instruction) × σ
  | none => (.ok [], state)
  | some shuffle =>
      match solver.solve state shuffle.current shuffle.target with
      | (some instructions, next) => (.ok instructions, next)
      | (none, next) => (.error (.unsolvable shuffle.current shuffle.target), next)

/-- Assembles the unit of an advice.  `pointcutStatic` is the staticness
established for the pointcut. -/
def assemble {σ : Type} (solver : Solver σ) (state : σ) (spi : JavaType)
    (helpers : List JavaType) (advice : Advice) (name : String) (pointcutStatic : Bool) :
    Except AssemblyError AdviceUnit × σ :=
  match advice.pointcut with
  | none => (.error (.missingPointcut advice.signature), state)
  | some pointcut =>
      match Shuffle.ofAdvice advice pointcut pointcutStatic with
      | .error failure => (.error failure, state)
      | .ok shuffle =>
          match solve solver state shuffle with
          | (.error failure, next) => (.error failure, next)
          | (.ok instructions, next) =>
              (.ok
                { name, spi, helpers, kind := advice.kind, pointcut
                  operations := instructions.map .shuffle ++ calls advice ++
                    casts advice pointcut },
                next)

end AdviceUnit

end AdviceCompiler
