import AdviceCompiler.Stack.Instruction

/-!
# Stepping through instruction sequences

The sequences of one length are visited in lexicographic order.  A step names
the digit to move: all sequences that agree up to that digit are passed over at
once.  Read as a number with one decimal digit per instruction, a sequence only
ever grows, which bounds the number of steps.
-/

namespace AdviceCompiler.Odometer

/-- Moves the leading instruction on and restarts everything after it, or fails
if the leading instruction was the last of the order. -/
def carry (leading : Instruction) (rest : List Instruction) : Option (List Instruction) :=
  if leading.successor = .nop then none
  else some (leading.successor :: rest.map fun _ => .first)

/-- The first sequence after all those that agree with `sequence` up to and
including `digit`, or `none` if there is no such sequence. -/
def advance : List Instruction → Nat → Option (List Instruction)
  | [], _ => none
  | leading :: rest, 0 => carry leading rest
  | leading :: rest, digit + 1 =>
      match advance rest digit with
      | some rest => some (leading :: rest)
      | none => carry leading rest

/-- The number of sequences of a length, those with `NOP` counted in. -/
def count : Nat → Nat
  | 0 => 1
  | length + 1 => 10 * count length

/-- The sequence read as a decimal number. -/
def rank : List Instruction → Nat
  | [] => 0
  | leading :: rest => leading.position * count rest.length + rank rest

theorem rank_lt (sequence : List Instruction) : rank sequence < count sequence.length := by
  induction sequence with
  | nil => simp [rank, count]
  | cons leading rest ih =>
      have hdigit : leading.position ≤ 9 := by cases leading <;> decide
      have hscaled := Nat.mul_le_mul_right (count rest.length) hdigit
      simp only [rank, List.length_cons, count]
      omega

theorem position_successor {instruction : Instruction}
    (hsuccessor : instruction.successor ≠ .nop) :
    instruction.successor.position = instruction.position + 1 := by
  cases instruction <;> first | rfl | exact absurd rfl hsuccessor

theorem length_carry {leading : Instruction} {rest result : List Instruction}
    (hcarry : carry leading rest = some result) : result.length = rest.length + 1 := by
  unfold carry at hcarry
  split at hcarry
  · cases hcarry
  · cases hcarry
    simp

theorem rank_carry {leading : Instruction} {rest result : List Instruction}
    (hcarry : carry leading rest = some result) : rank (leading :: rest) < rank result := by
  unfold carry at hcarry
  split at hcarry
  · cases hcarry
  · next hsuccessor =>
      cases hcarry
      have hrest := rank_lt rest
      simp only [rank, position_successor hsuccessor, List.length_map, Nat.add_mul, Nat.one_mul]
      omega

theorem length_advance {sequence result : List Instruction} {digit : Nat}
    (hadvance : advance sequence digit = some result) : result.length = sequence.length := by
  induction sequence generalizing digit result with
  | nil => simp [advance] at hadvance
  | cons leading rest ih =>
      cases digit with
      | zero => exact length_carry hadvance
      | succ digit =>
          simp only [advance] at hadvance
          split at hadvance
          · next moved hmoved =>
              cases hadvance
              simp [ih hmoved]
          · exact length_carry hadvance

theorem rank_advance {sequence result : List Instruction} {digit : Nat}
    (hadvance : advance sequence digit = some result) : rank sequence < rank result := by
  induction sequence generalizing digit result with
  | nil => simp [advance] at hadvance
  | cons leading rest ih =>
      cases digit with
      | zero => exact rank_carry hadvance
      | succ digit =>
          simp only [advance] at hadvance
          split at hadvance
          · next moved hmoved =>
              cases hadvance
              have hrest := ih hmoved
              simp only [rank, length_advance hmoved]
              omega
          · exact rank_carry hadvance

/-- How far a sequence is from the end of the visit. -/
def remaining (sequence : List Instruction) : Nat :=
  count sequence.length - rank sequence

theorem remaining_advance {sequence result : List Instruction} {digit : Nat}
    (hadvance : advance sequence digit = some result) :
    remaining result < remaining sequence := by
  have hrank := rank_advance hadvance
  have hbound := rank_lt result
  simp only [remaining, length_advance hadvance] at *
  omega

end AdviceCompiler.Odometer
