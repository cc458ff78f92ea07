import AdviceCompiler.CallSite
import AdviceCompiler.Resolution

/-!
# Diagnostics

A diagnostic says which rule a call site or advice breaks, and where.
-/

namespace AdviceCompiler

/-- Broad classes of diagnostics. -/
inductive DiagnosticKind where
  | structural
  | typeIncompatibility
  | resolution
  | stackUnsolvable
  | uncaught
  deriving DecidableEq

inductive DiagnosticCode where
  | parameterUnbound
  | bindingBeyondArity
  | receiverRepeated
  | receiverNotFirst
  | receiverOnStatic
  | resultRepeated
  | resultNotLast
  | argumentOutOfBounds
  | argumentRepeated
  | argumentOutOfOrder
  | adviceNotPublicStatic
  | beforeReturnsValue
  | beforeBindsResult
  | beforeConstructorBindsReceiver
  | aroundReturnsVoid
  | aroundBindsResult
  | aroundConstructor
  | afterReturnsVoid
  | afterConstructorReceiverNotFirst
  | afterResultNotLast
  | pointcutInvalid
  | pointcutConstructorNotVoid
  | spiNotInterface
  | spiNotEmpty
  | noAdvice
  | resultIncompatible
  | parameterIncompatible
  | unresolvedType
  | unresolvedMethod
  | stackUnsolvable
  | uncaught
  deriving DecidableEq

namespace DiagnosticCode

def number : DiagnosticCode → Nat
  | .parameterUnbound => 100
  | .bindingBeyondArity => 101
  | .receiverRepeated => 102
  | .receiverNotFirst => 103
  | .receiverOnStatic => 104
  | .resultRepeated => 105
  | .resultNotLast => 106
  | .argumentOutOfBounds => 107
  | .argumentRepeated => 108
  | .argumentOutOfOrder => 109
  | .adviceNotPublicStatic => 110
  | .beforeReturnsValue => 200
  | .beforeBindsResult => 201
  | .beforeConstructorBindsReceiver => 202
  | .aroundReturnsVoid => 210
  | .aroundBindsResult => 211
  | .aroundConstructor => 212
  | .afterReturnsVoid => 220
  | .afterConstructorReceiverNotFirst => 221
  | .afterResultNotLast => 222
  | .pointcutInvalid => 300
  | .pointcutConstructorNotVoid => 301
  | .spiNotInterface => 400
  | .spiNotEmpty => 401
  | .noAdvice => 402
  | .resultIncompatible => 500
  | .parameterIncompatible => 501
  | .unresolvedType => 600
  | .unresolvedMethod => 601
  | .stackUnsolvable => 700
  | .uncaught => 900

/-- `CSI` and the number in four digits. -/
def text (code : DiagnosticCode) : String :=
  let digits := toString code.number
  "CSI" ++ String.ofList (List.replicate (4 - digits.length) '0') ++ digits

def kind : DiagnosticCode → DiagnosticKind
  | .resultIncompatible => .typeIncompatibility
  | .parameterIncompatible => .typeIncompatibility
  | .unresolvedType => .resolution
  | .unresolvedMethod => .resolution
  | .stackUnsolvable => .stackUnsolvable
  | .uncaught => .uncaught
  | _ => .structural

end DiagnosticCode

/-- What a diagnostic points at. -/
inductive Location where
  | callSite (owner : JavaType)
  | spi (type : JavaType)
  | advice (index : Nat) (method : String)
  | parameter (index : Nat) (method : String) (position : Nat)
  | pointcut (index : Nat) (signature : String)
  deriving DecidableEq

def Location.text : Location → String
  | .callSite owner => "callsite " ++ owner.text
  | .spi type => "spi " ++ type.text
  | .advice index method => CallSite.adviceLabel index ++ ":" ++ method
  | .parameter index method position =>
      CallSite.adviceLabel index ++ ":" ++ method ++ ":param" ++ toString position
  | .pointcut index signature =>
      CallSite.adviceLabel index ++ ":pointcut `" ++ signature ++ "`"

/-- What a diagnostic belongs to. -/
structure DiagnosticContext where
  callSite : Option String := none
  advice : Option String := none
  pointcut : Option String := none
  deriving DecidableEq

/-- The parts that are present. -/
def DiagnosticContext.parts (context : DiagnosticContext) : List String :=
  [context.callSite, context.advice, context.pointcut].filterMap id

structure Diagnostic where
  code : DiagnosticCode
  message : String
  location : Location
  notes : List String := []
  context : Option DiagnosticContext := none
  snippet : Option String := none
  deriving DecidableEq

namespace Diagnostic

def kind (diagnostic : Diagnostic) : DiagnosticKind :=
  diagnostic.code.kind

def addNote (diagnostic : Diagnostic) (note : String) : Diagnostic :=
  { diagnostic with notes := diagnostic.notes ++ [note] }

def inContext (diagnostic : Diagnostic) (context : DiagnosticContext) : Diagnostic :=
  { diagnostic with context := some context }

/-- The diagnostic of a breakdown while an advice was checked or compiled. -/
def ofCrash (crash : Crash) (location : Location) : Diagnostic where
  code := .uncaught
  message := "unexpected failure: " ++ crash.reason
  location := location

/-- The diagnostic of a failed resolution.  Its first cause decides the code,
and several causes are listed as notes. -/
def ofResolutionFailure (failure : ResolutionFailure) (location : Location) : Diagnostic where
  code :=
    match failure.causes with
    | .unresolvedType _ :: _ => .unresolvedType
    | _ => .unresolvedMethod
  message := failure.message
  location := location
  notes :=
    if 1 < failure.causes.length then failure.causes.map ResolutionFailure.message else []

def text (diagnostic : Diagnostic) : String :=
  let context := (diagnostic.context.map DiagnosticContext.parts).getD []
  "error [" ++ diagnostic.code.text ++ "] " ++ diagnostic.message ++ " @ " ++
    diagnostic.location.text ++
    (if context.isEmpty then "" else " (" ++ ", ".intercalate context ++ ")") ++ "\n" ++
    String.join (diagnostic.notes.map fun note => "  note: " ++ note ++ "\n") ++
    (diagnostic.snippet.map fun snippet => snippet ++ "\n").getD ""

end Diagnostic

end AdviceCompiler
