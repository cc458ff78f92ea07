import AdviceCompiler.Stack.Layout

/-!
# Java types

The types of method parameters and results, their Java spelling, their JVM
descriptor and their width on the operand stack.
-/

namespace AdviceCompiler

inductive JavaType where
  | void
  | boolean
  | byte
  | char
  | short
  | int
  | long
  | float
  | double
  /-- A class or interface, by its binary name. -/
  | object (name : String)
  | array (element : JavaType)
  deriving DecidableEq

namespace JavaType

/-- The root of the class hierarchy. -/
def rootClass : String := "java.lang.Object"

/-- The type a Java keyword stands for. -/
def ofKeyword? : String → Option JavaType
  | "void" => some .void
  | "boolean" => some .boolean
  | "byte" => some .byte
  | "char" => some .char
  | "short" => some .short
  | "int" => some .int
  | "long" => some .long
  | "float" => some .float
  | "double" => some .double
  | _ => none

/-- The type written as `name`: a keyword's type, or else the class of that
name. -/
def named (name : String) : JavaType :=
  (ofKeyword? name).getD (.object name)

def isVoid : JavaType → Bool
  | .void => true
  | _ => false

/-- Classes, interfaces and arrays. -/
def isReference : JavaType → Bool
  | .object _ => true
  | .array _ => true
  | _ => false

/-- Every type that is not a reference, `void` included. -/
def isPrimitive (type : JavaType) : Bool :=
  !type.isReference

/-- The width of a value of this type; `void` has no values. -/
def category? : JavaType → Option Category
  | .void => none
  | .long => some .wide
  | .double => some .wide
  | _ => some .narrow

/-- The innermost type, beneath all array dimensions. -/
def base : JavaType → JavaType
  | .array element => element.base
  | type => type

/-- The number of array dimensions. -/
def dimensions : JavaType → Nat
  | .array element => element.dimensions + 1
  | _ => 0

/-- The type with `count` more array dimensions. -/
def arrayOf (type : JavaType) : Nat → JavaType
  | 0 => type
  | count + 1 => .array (type.arrayOf count)

/-- Java source spelling. -/
def text : JavaType → String
  | .void => "void"
  | .boolean => "boolean"
  | .byte => "byte"
  | .char => "char"
  | .short => "short"
  | .int => "int"
  | .long => "long"
  | .float => "float"
  | .double => "double"
  | .object name => name
  | .array element => element.text ++ "[]"

/-- A binary class name with slashes for dots. -/
def slashed (name : String) : String :=
  name.map fun c => if c = '.' then '/' else c

/-- JVM field descriptor. -/
def descriptor : JavaType → String
  | .void => "V"
  | .boolean => "Z"
  | .byte => "B"
  | .char => "C"
  | .short => "S"
  | .int => "I"
  | .long => "J"
  | .float => "F"
  | .double => "D"
  | .object name => "L" ++ slashed name ++ ";"
  | .array element => "[" ++ element.descriptor

/-- JVM internal name: the slashed name of a class, the descriptor of any other
type. -/
def internalName : JavaType → String
  | .object name => slashed name
  | type => type.descriptor

/-- The place of a type's kind in the order of types. -/
def kindRank : JavaType → Nat
  | .void => 0
  | .boolean => 1
  | .byte => 2
  | .char => 3
  | .short => 4
  | .int => 5
  | .long => 6
  | .float => 7
  | .double => 8
  | .object _ => 9
  | .array _ => 10

/-- Types are ordered by kind, classes among themselves by name and arrays by
element. -/
def le : JavaType → JavaType → Bool
  | .object left, .object right => left ≤ right
  | .array left, .array right => left.le right
  | left, right => left.kindRank ≤ right.kindRank

/-- The types in ascending order. -/
def sort (types : List JavaType) : List JavaType :=
  types.mergeSort le

end JavaType

end AdviceCompiler
