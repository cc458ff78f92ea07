import AdviceCompiler.Stack.Layout

/-!
# Stack instructions

The instructions that copy, drop and exchange stack values, and their effect on
a layout.  Each instruction has several forms, chosen by the widths of the
slots on top; a stack that fits none of them is refused.  `NOP` closes the
enumeration order and changes nothing.
-/

namespace AdviceCompiler

inductive Instruction where
  | dup
  | dupX1
  | dupX2
  | dup2
  | dup2X1
  | dup2X2
  | pop
  | pop2
  | swap
  | nop
  deriving DecidableEq

namespace Instruction

/-- Every instruction that does something, in enumeration order. -/
def alphabet : List Instruction :=
  [.dup, .dupX1, .dupX2, .dup2, .dup2X1, .dup2X2, .pop, .pop2, .swap]

/-- The instruction enumeration starts with. -/
def first : Instruction := .dup

/-- The successor in enumeration order.  `NOP` follows the last instruction and
itself. -/
def successor : Instruction → Instruction
  | .dup => .dupX1
  | .dupX1 => .dupX2
  | .dupX2 => .dup2
  | .dup2 => .dup2X1
  | .dup2X1 => .dup2X2
  | .dup2X2 => .pop
  | .pop => .pop2
  | .pop2 => .swap
  | .swap => .nop
  | .nop => .nop

/-- The place in enumeration order. -/
def position : Instruction → Nat
  | .dup => 0
  | .dupX1 => 1
  | .dupX2 => 2
  | .dup2 => 3
  | .dup2X1 => 4
  | .dup2X2 => 5
  | .pop => 6
  | .pop2 => 7
  | .swap => 8
  | .nop => 9

def mnemonic : Instruction → String
  | .dup => "DUP"
  | .dupX1 => "DUP_X1"
  | .dupX2 => "DUP_X2"
  | .dup2 => "DUP2"
  | .dup2X1 => "DUP2_X1"
  | .dup2X2 => "DUP2_X2"
  | .pop => "POP"
  | .pop2 => "POP2"
  | .swap => "SWAP"
  | .nop => "NOP"

def ofMnemonic? (mnemonic : String) : Option Instruction :=
  (alphabet ++ [Instruction.nop]).find? fun instruction => instruction.mnemonic = mnemonic

def opcode : Instruction → UInt8
  | .nop => 0x00
  | .pop => 0x57
  | .pop2 => 0x58
  | .dup => 0x59
  | .dupX1 => 0x5a
  | .dupX2 => 0x5b
  | .dup2 => 0x5c
  | .dup2X1 => 0x5d
  | .dup2X2 => 0x5e
  | .swap => 0x5f

/-- The effect on a stack given top first, or `none` if no form of the
instruction fits the slots on top. -/
def effectOnTop (instruction : Instruction) (stack : List Slot) : Option (List Slot) :=
  match instruction with
  | .nop => some stack
  | .dup =>
      match stack with
      | a@⟨_, .narrow⟩ :: rest => some (a :: a :: rest)
      | _ => none
  | .dupX1 =>
      match stack with
      | a@⟨_, .narrow⟩ :: b@⟨_, .narrow⟩ :: rest => some (a :: b :: a :: rest)
      | _ => none
  | .dupX2 =>
      match stack with
      | a@⟨_, .narrow⟩ :: b@⟨_, .wide⟩ :: rest => some (a :: b :: a :: rest)
      | a@⟨_, .narrow⟩ :: b@⟨_, .narrow⟩ :: c@⟨_, .narrow⟩ :: rest =>
          some (a :: b :: c :: a :: rest)
      | _ => none
  | .dup2 =>
      match stack with
      | a@⟨_, .wide⟩ :: rest => some (a :: a :: rest)
      | a@⟨_, .narrow⟩ :: b@⟨_, .narrow⟩ :: rest => some (a :: b :: a :: b :: rest)
      | _ => none
  | .dup2X1 =>
      match stack with
      | a@⟨_, .wide⟩ :: b@⟨_, .narrow⟩ :: rest => some (a :: b :: a :: rest)
      | a@⟨_, .narrow⟩ :: b@⟨_, .narrow⟩ :: c@⟨_, .narrow⟩ :: rest =>
          some (a :: b :: c :: a :: b :: rest)
      | _ => none
  | .dup2X2 =>
      match stack with
      | a@⟨_, .wide⟩ :: b@⟨_, .wide⟩ :: rest => some (a :: b :: a :: rest)
      | a@⟨_, .wide⟩ :: b@⟨_, .narrow⟩ :: c@⟨_, .narrow⟩ :: rest =>
          some (a :: b :: c :: a :: rest)
      | a@⟨_, .narrow⟩ :: b@⟨_, .narrow⟩ :: c@⟨_, .wide⟩ :: rest =>
          some (a :: b :: c :: a :: b :: rest)
      | a@⟨_, .narrow⟩ :: b@⟨_, .narrow⟩ :: c@⟨_, .narrow⟩ :: d@⟨_, .narrow⟩ :: rest =>
          some (a :: b :: c :: d :: a :: b :: rest)
      | _ => none
  | .pop =>
      match stack with
      | ⟨_, .narrow⟩ :: rest => some rest
      | _ => none
  | .pop2 =>
      match stack with
      | ⟨_, .wide⟩ :: rest => some rest
      | ⟨_, .narrow⟩ :: ⟨_, .narrow⟩ :: rest => some rest
      | _ => none
  | .swap =>
      match stack with
      | a@⟨_, .narrow⟩ :: b@⟨_, .narrow⟩ :: rest => some (b :: a :: rest)
      | _ => none

/-- The layout after the instruction, or `none` if it does not apply. -/
def effect (instruction : Instruction) (layout : Layout) : Option Layout :=
  (instruction.effectOnTop layout.reverse).map List.reverse

end Instruction

/-- An instruction met a stack that fits none of its forms. -/
structure Inapplicable where
  instruction : Instruction
  deriving DecidableEq

def Inapplicable.message (failure : Inapplicable) : String :=
  "`" ++ failure.instruction.mnemonic ++ "` is not applicable to the current stack"

namespace Layout

def step (layout : Layout) (instruction : Instruction) : Except Inapplicable Layout :=
  match instruction.effect layout with
  | some result => .ok result
  | none => .error ⟨instruction⟩

/-- Runs the instructions in order and stops at the first that does not
apply. -/
def run (layout : Layout) : List Instruction → Except Inapplicable Layout
  | [] => .ok layout
  | instruction :: rest =>
      match layout.step instruction with
      | .ok next => run next rest
      | .error failure => .error failure

end Layout

end AdviceCompiler
