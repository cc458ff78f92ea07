/-!
# Operand-stack layouts

A layout names the values on the operand stack.  Each slot carries the name of
the value it holds and the width of that value; copies of one value share its
name.  Layouts are written bottom first, so the last slot is the top.
-/

namespace AdviceCompiler

/-- The width class of a stack value: `long` and `double` values are wide, all
others are narrow. -/
inductive Category where
  | narrow
  | wide
  deriving DecidableEq

/-- The number of stack words a value takes. -/
def Category.words : Category → Nat
  | .narrow => 1
  | .wide => 2

/-- A value on the stack.  The name is a 32-bit word. -/
structure Slot where
  id : UInt32
  category : Category
  deriving DecidableEq

namespace Slot

def isWide (slot : Slot) : Bool :=
  slot.category = .wide

def text (slot : Slot) : String :=
  match slot.category with
  | .narrow => "s" ++ toString slot.id.toNat
  | .wide => "s" ++ toString slot.id.toNat ++ ":2"

end Slot

/-- The slots of a stack, bottom first. -/
abbrev Layout := List Slot

namespace Layout

/-- The slot `depth` entries below the top; `0` is the top itself. -/
def peek? (layout : Layout) (depth : Nat) : Option Slot :=
  layout.reverse[depth]?

def text (layout : Layout) : String :=
  "[" ++ " ".intercalate (layout.map Slot.text) ++ "]"

end Layout

end AdviceCompiler
