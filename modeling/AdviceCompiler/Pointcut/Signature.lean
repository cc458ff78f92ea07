import AdviceCompiler.Pointcut.Expectation

/-!
# Pointcut signatures

The parts of a written signature, each with its place in the text.
-/

namespace AdviceCompiler.Pointcut

/-- A place in a text.  Its ends are kept in 32 bits. -/
structure Span where
  start : UInt32
  stop : UInt32
  deriving DecidableEq

namespace Span

/-- The place of a stretch of text.  Higher bits of its ends are lost. -/
def ofExtent (extent : Extent) : Span :=
  ⟨extent.start.toUInt32, extent.stop.toUInt32⟩

/-- The stretch that a place stands for. -/
def extent (span : Span) : Extent :=
  ⟨span.start.toNat, span.stop.toNat⟩

end Span

/-- A part of a text with its place. -/
structure Spanned (α : Type) where
  span : Span
  value : α
  deriving DecidableEq

/-- A type as it is written: a keyword or class name and its dimensions. -/
structure TypeName where
  base : String
  dimensions : Nat
  deriving DecidableEq

structure Signature where
  /-- The place of the word `static`, if it is there. -/
  staticModifier : Option Span
  returnType : Spanned TypeName
  owner : Spanned String
  name : Spanned String
  params : List (Spanned TypeName)
  deriving DecidableEq

/-- Why a text is no signature. -/
inductive SignatureError where
  | unexpected (failure : Unexpected)
  /-- A tree lacks a part that its rule requires. -/
  | missing (rule : Rule) (text : String)
  deriving DecidableEq

namespace SyntaxTree

/-- The child that the tree's rule requires. -/
def require (tree : SyntaxTree) (rule : Rule) : Except SignatureError SyntaxTree :=
  match tree.child? rule with
  | some child => .ok child
  | none => .error (.missing rule (String.ofList tree.text))

def span (tree : SyntaxTree) : Span :=
  .ofExtent tree.extent

/-- The tree's own text with its place. -/
def spanned (tree : SyntaxTree) : Spanned String :=
  ⟨tree.span, String.ofList tree.text⟩

end SyntaxTree

/-- Reads the tree of a type. -/
def TypeName.ofTree (tree : SyntaxTree) : Except SignatureError (Spanned TypeName) := do
  let base ← tree.require .baseType
  return ⟨tree.span, String.ofList base.text, (tree.childrenOf .arraySuffix).length⟩

namespace Signature

/-- Reads the tree of a pointcut. -/
def ofTree (tree : SyntaxTree) : Except SignatureError Signature := do
  let staticModifier := (tree.child? .staticModifier).map SyntaxTree.span
  let returnType ← TypeName.ofTree (← tree.require .typeName)
  let member ← tree.require .member
  let owner ← member.require .owner
  let name ← member.require .methodName
  let params ←
    match tree.child? .parameters with
    | some list => (list.childrenOf .typeName).mapM TypeName.ofTree
    | none => pure []
  return ⟨staticModifier, returnType, owner.spanned, name.spanned, params⟩

/-- Reads a written signature. -/
def parse (text : String) : Except SignatureError Signature :=
  match Rule.pointcut.parse text with
  | .error failure => .error (.unexpected failure)
  | .ok [] => .error (.missing .pointcut text)
  | .ok (tree :: _) => ofTree tree

end Signature

end AdviceCompiler.Pointcut
