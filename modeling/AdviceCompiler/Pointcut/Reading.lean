import AdviceCompiler.Method
import AdviceCompiler.Pointcut.Signature

/-!
# The method a pointcut names

A well-formed signature can still make no sense: a primitive type declares no
methods, a constructor is never static, and `void` is neither a parameter nor
the element of an array.  All such faults of a signature are reported together.
-/

namespace AdviceCompiler.Pointcut

/-- A fault of a signature, with its place. -/
inductive Fault where
  | unexpected (failure : Unexpected)
  | missing (rule : Rule) (text : String)
  | primitiveOwner (name : String) (span : Span)
  | staticConstructor (span : Span)
  | voidArray (span : Span)
  | voidParameter (span : Span)
  deriving DecidableEq

namespace Fault

def ofSignatureError : SignatureError → Fault
  | .unexpected failure => .unexpected failure
  | .missing rule text => .missing rule text

def span : Fault → Span
  | .unexpected failure => .ofExtent ⟨failure.offset, failure.offset⟩
  | .missing _ text => .ofExtent ⟨0, text.utf8ByteSize⟩
  | .primitiveOwner _ span => span
  | .staticConstructor span => span
  | .voidArray span => span
  | .voidParameter span => span

/-- A description on one line. -/
def message : Fault → String
  | .unexpected failure => failure.message
  | .missing rule text => "`" ++ rule.name ++ "` missing from `" ++ text ++ "`"
  | .primitiveOwner name _ => "primitive type `" ++ name ++ "` cannot declare methods"
  | .staticConstructor _ => "constructors cannot be `static`"
  | .voidArray _ => "arrays of `void` are not allowed"
  | .voidParameter _ => "`void` is not a valid parameter type"

end Fault

/-- The type a written type stands for. -/
def TypeName.type (name : TypeName) : JavaType :=
  (JavaType.named name.base).arrayOf name.dimensions

/-- An array has an element type other than `void`. -/
def arrayFaults (written : Spanned TypeName) : List Fault :=
  if (JavaType.named written.value.base).isVoid ∧ 0 < written.value.dimensions then
    [.voidArray written.span]
  else []

/-- A parameter is neither `void` nor an array of `void`. -/
def parameterFaults (written : Spanned TypeName) : List Fault :=
  arrayFaults written ++
    if written.value.type.isVoid then [.voidParameter written.span] else []

namespace Signature

def isConstructor (signature : Signature) : Bool :=
  signature.name.value = Method.constructorName

/-- An owner is a class. -/
def ownerFaults (signature : Signature) : List Fault :=
  if (JavaType.ofKeyword? signature.owner.value).isSome then
    [.primitiveOwner signature.owner.value signature.owner.span]
  else []

/-- A constructor is not static. -/
def modifierFaults (signature : Signature) : List Fault :=
  match signature.staticModifier with
  | some span => if signature.isConstructor then [.staticConstructor span] else []
  | none => []

/-- All faults: of the owner, of the modifier, of the result and of the
parameters from left to right. -/
def faults (signature : Signature) : List Fault :=
  signature.ownerFaults ++ signature.modifierFaults ++ arrayFaults signature.returnType ++
    signature.params.flatMap parameterFaults

/-- The method a signature names.  Only public methods can be intercepted. -/
def method (signature : Signature) : Method where
  owner := .object signature.owner.value
  name := signature.name.value
  params := signature.params.map fun written => written.value.type
  returnType := signature.returnType.value.type
  flags := { isStatic := signature.staticModifier.isSome, isPublic := true }

end Signature

/-- The method that a written signature names, or the signature's faults. -/
def read (text : String) : Except (List Fault) Method :=
  match Signature.parse text with
  | .error failure => .error [.ofSignatureError failure]
  | .ok signature =>
      match signature.faults with
      | [] => .ok signature.method
      | faults => .error faults

end AdviceCompiler.Pointcut
