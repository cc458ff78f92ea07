import AdviceCompiler.Method

/-!
# Resolving types and methods

A resolver knows which types and methods exist and which types accept the
values of which others.  Looking a method up or comparing two types may also
break down altogether; a breakdown is kept apart from a negative answer.
-/

namespace AdviceCompiler

inductive ResolutionFailure where
  | unresolvedType (type : JavaType)
  /-- A method that no class declares, by its signature. -/
  | unresolvedMethod (signature : String)
  | several (failures : List ResolutionFailure)

namespace ResolutionFailure

def message : ResolutionFailure → String
  | .unresolvedType type => "type `" ++ type.text ++ "` cannot be resolved"
  | .unresolvedMethod signature => "method `" ++ signature ++ "` cannot be resolved"
  | .several failures => toString failures.length ++ " resolution errors"

/-- All failures as one, if there are any. -/
def ofList? : List ResolutionFailure → Option ResolutionFailure
  | [] => none
  | [single] => some single
  | failures => some (.several failures)

/-- The failures that are no collections themselves, in order. -/
def causes : ResolutionFailure → List ResolutionFailure
  | .several failures => failures.flatMap causes
  | single => [single]

end ResolutionFailure

/-- What is known of a type. -/
structure TypeSummary where
  isInterface : Bool
  declaredMethods : Nat
  deriving DecidableEq

/-- A breakdown, with its message if it has one. -/
structure Crash where
  message : Option String
  deriving DecidableEq

def Crash.reason (crash : Crash) : String :=
  crash.message.getD "unknown panic payload"

structure Resolver where
  /-- What is known of a type. -/
  describeType : JavaType → Except ResolutionFailure TypeSummary
  /-- The flags of the declaration that a method stands for. -/
  locate : Method → Except Crash (Except ResolutionFailure MethodFlags)
  /-- Whether a place of the first type accepts values of the second. -/
  accepts : JavaType → JavaType → Except Crash (Except ResolutionFailure Bool)

namespace Resolver

/-- A resolver that breaks down on the methods of some owners. -/
def crashingOn (resolver : Resolver) (crash? : JavaType → Option Crash) : Resolver :=
  { resolver with
    locate := fun method =>
      match crash? method.owner with
      | some crash => .error crash
      | none => resolver.locate method }

end Resolver

end AdviceCompiler
