import AdviceCompiler.JavaType

/-!
# Methods

A method or constructor is given by its owner, its name and the types of its
parameters and result.
-/

namespace AdviceCompiler

structure MethodFlags where
  isStatic : Bool := false
  isPublic : Bool := false
  deriving DecidableEq

structure Method where
  owner : JavaType
  name : String
  params : List JavaType
  returnType : JavaType
  flags : MethodFlags := {}
  deriving DecidableEq

namespace Method

/-- The name the JVM gives to constructors. -/
def constructorName : String := "<init>"

/-- The constructor of `owner` with these parameters. -/
def constructor (owner : JavaType) (params : List JavaType) : Method :=
  { owner, name := constructorName, params, returnType := .void }

def isConstructor (method : Method) : Bool :=
  method.name = constructorName

def isStatic (method : Method) : Bool :=
  method.flags.isStatic

def isPublic (method : Method) : Bool :=
  method.flags.isPublic

/-- The type of the value a call gives: the new object for a constructor, and
the result otherwise. -/
def valueType (method : Method) : JavaType :=
  if method.isConstructor then method.owner else method.returnType

/-- JVM method descriptor. -/
def descriptor (method : Method) : String :=
  "(" ++ String.join (method.params.map JavaType.descriptor) ++ ")" ++
    method.returnType.descriptor

/-- The signature as it is written in Java, with the owner in front of the
name. -/
def text (method : Method) : String :=
  (if method.isStatic then "static " else "") ++
    method.returnType.text ++ " " ++ method.owner.text ++ "." ++ method.name ++
    "(" ++ ", ".intercalate (method.params.map JavaType.text) ++ ")"

/-- Owner, name and descriptor in the JVM's spelling. -/
def reference (method : Method) : String :=
  method.owner.internalName ++ "." ++ method.name ++ method.descriptor

/-- Whether two declarations agree in name, parameters and result. -/
def sameSignature (left right : Method) : Bool :=
  left.name = right.name ∧ left.params = right.params ∧ left.returnType = right.returnType

end Method

end AdviceCompiler
