import AdviceCompiler.Proofs.Enumeration

/-!
# The sequence after a block

A block holds the sequences of one length that agree up to and including some
digit.  A step of the odometer leaves a block for the least sequence after all
of it, and fails only if nothing comes after.  The same step can be made in one
buffer: the digits to the right restart, and a digit that cannot move restarts
and passes the move on to its left.
-/

namespace AdviceCompiler.Odometer

open Instruction

variable {sequence other result : List Instruction} {digit : Nat}

/-- `other` comes after the whole block of `sequence` at `digit`. -/
structure PastBlock (sequence : List Instruction) (digit : Nat) (other : List Instruction) :
    Prop where
  proper : Proper other
  length : other.length = sequence.length
  after : ∀ inside, Proper inside → inside.length = sequence.length →
    inside.take (digit + 1) = sequence.take (digit + 1) → List.Lex Precedes inside other

/-- The least sequence after a block. -/
structure IsBlockSuccessor (sequence : List Instruction) (digit : Nat)
    (next : List Instruction) : Prop where
  past : PastBlock sequence digit next
  least : ∀ other, PastBlock sequence digit other → AtMost next other

theorem lex_carry {leading : Instruction} {rest tail : List Instruction}
    (hcarry : carry leading rest = some result) :
    List.Lex Precedes (leading :: tail) result := by
  unfold carry at hcarry
  split at hcarry
  · cases hcarry
  · next hsuccessor =>
      cases hcarry
      have hposition := position_successor hsuccessor
      exact .rel (precedes_iff.mpr (by omega))

/-- A step lands after every sequence of the block. -/
theorem lex_advance {inside : List Instruction}
    (hadvance : advance sequence digit = some result)
    (hlength : inside.length = sequence.length)
    (hblock : inside.take (digit + 1) = sequence.take (digit + 1)) :
    List.Lex Precedes inside result := by
  induction sequence generalizing digit inside result with
  | nil => simp [advance] at hadvance
  | cons leading rest ih =>
      obtain _ | ⟨head, tail⟩ := inside
      · cases hlength
      · obtain ⟨rfl, htail⟩ := List.cons.inj hblock
        cases digit with
        | zero => exact lex_carry hadvance
        | succ digit =>
            simp only [advance] at hadvance
            split at hadvance
            · next moved hmoved =>
                cases hadvance
                exact .cons (ih hmoved (Nat.succ.inj hlength) htail)
            · exact lex_carry hadvance

theorem pastBlock_of_advance (hproper : Proper sequence)
    (hadvance : advance sequence digit = some result) : PastBlock sequence digit result where
  proper := proper_advance hproper hadvance
  length := length_advance hadvance
  after _ _ hlength hblock := lex_advance hadvance hlength hblock

theorem PastBlock.take_ne (hpast : PastBlock sequence digit other) :
    other.take (digit + 1) ≠ sequence.take (digit + 1) := by
  intro hblock
  have hlex := hpast.after other hpast.proper hpast.length hblock
  exact Std.Asymm.asymm _ _ hlex hlex

theorem isBlockSuccessor_of_advance (hproper : Proper sequence)
    (hadvance : advance sequence digit = some result) :
    IsBlockSuccessor sequence digit result where
  past := pastBlock_of_advance hproper hadvance
  least _ hpast := advance_atMost hadvance hpast.proper hpast.length
    (hpast.after sequence hproper rfl rfl) hpast.take_ne

theorem not_pastBlock_of_advance (hproper : Proper sequence)
    (hadvance : advance sequence digit = none) : ¬ PastBlock sequence digit other := by
  intro hpast
  exact hpast.take_ne (block_of_advance_eq_none hadvance hpast.proper hpast.length
    (hpast.after sequence hproper rfl rfl))

/-- Puts the digits to the right of one back to the first instruction. -/
def restartAfter (buffer : List Instruction) (digit : Nat) : List Instruction :=
  buffer.take (digit + 1) ++ (buffer.drop (digit + 1)).map fun _ => .first

/-- Moves a digit of the buffer on.  If its successor is `NOP`, the digit
restarts and the one to its left is moved instead, down to the first digit at
most.  The flag tells whether a digit could move. -/
def turn (buffer : List Instruction) (digit : Nat) : Bool × List Instruction :=
  let successor := (buffer.getD digit .nop).successor
  if successor = .nop then
    match digit with
    | 0 => (false, buffer.set 0 .first)
    | digit + 1 => turn (buffer.set (digit + 1) .first) digit
  else (true, buffer.set digit successor)

/-- A step of the odometer made in one buffer. -/
def advanceInPlace (buffer : List Instruction) (digit : Nat) : Bool × List Instruction :=
  turn (restartAfter buffer digit) digit

theorem turn_zero (leading : Instruction) (buffer : List Instruction) :
    turn (leading :: buffer) 0 =
      if leading.successor = .nop then (false, .first :: buffer)
      else (true, leading.successor :: buffer) := rfl

/-- The digit on the left is reached only if all digits to its right restart. -/
theorem turn_cons (leading : Instruction) (buffer : List Instruction) (digit : Nat) :
    turn (leading :: buffer) (digit + 1) =
      match turn buffer digit with
      | (true, moved) => (true, leading :: moved)
      | (false, restarted) => turn (leading :: restarted) 0 := by
  induction digit generalizing buffer with
  | zero =>
      rw [turn.eq_def (leading :: buffer), turn.eq_def buffer 0]
      simp only [List.getD_cons_succ, List.set_cons_succ]
      split <;> rfl
  | succ digit ih =>
      rw [turn.eq_def (leading :: buffer), turn.eq_def buffer (digit + 1)]
      simp only [List.getD_cons_succ, List.set_cons_succ]
      split
      · exact ih (buffer.set (digit + 1) .first)
      · rfl

/-- In place, a step that fails has put every digit back to the first
instruction. -/
theorem advanceInPlace_eq (hdigit : digit < sequence.length) :
    advanceInPlace sequence digit =
      match advance sequence digit with
      | some next => (true, next)
      | none => (false, List.replicate sequence.length .first) := by
  induction sequence generalizing digit with
  | nil => cases hdigit
  | cons leading rest ih =>
      -- Once the digits to the right have restarted, moving the leading one is the carry.
      have hcarry : turn (leading :: List.replicate rest.length .first) 0 =
          match carry leading rest with
          | some next => (true, next)
          | none => (false, List.replicate (rest.length + 1) .first) := by
        rw [turn_zero, carry, List.map_const']
        split <;> rfl
      cases digit with
      | zero =>
          rw [advanceInPlace, restartAfter, advance, List.length_cons, ← hcarry]
          simp
      | succ digit =>
          have hrest := ih (Nat.lt_of_succ_lt_succ hdigit)
          rw [advanceInPlace] at hrest
          rw [advanceInPlace, restartAfter, List.take_succ_cons, List.drop_succ_cons,
            List.cons_append, turn_cons, ← restartAfter, hrest, advance, List.length_cons]
          cases advance rest digit with
          | none => exact hcarry
          | some moved => rfl

-- Nothing follows the last sequence of a length, and the buffer starts over.
example : advanceInPlace [.swap, .swap] 1 = (false, [.dup, .dup]) := rfl

theorem nop_not_mem_advanceInPlace (hproper : Proper sequence)
    (hdigit : digit < sequence.length) :
    .nop ∉ (advanceInPlace sequence digit).2 := by
  rw [advanceInPlace_eq hdigit]
  cases hadvance : advance sequence digit with
  | none => exact (proper_replicate_first sequence.length).nop_not_mem
  | some next => exact (proper_advance hproper hadvance).nop_not_mem

/-- A step at a digit is the successor of the block.  If some sequence comes
after the block, the step lands on the least such sequence; if none does, it
fails.  The step in one buffer does the same and never leaves `NOP` in it. -/
theorem advance_gives_block_successor (sequence : List Instruction) (digit : Nat)
    (hproper : Proper sequence) (hdigit : digit < sequence.length) :
    ((∃ other, PastBlock sequence digit other) →
        ∃ next, IsBlockSuccessor sequence digit next ∧
          advance sequence digit = some next ∧
          advanceInPlace sequence digit = (true, next)) ∧
      ((¬ ∃ other, PastBlock sequence digit other) →
        advance sequence digit = none ∧
          advanceInPlace sequence digit =
            (false, List.replicate sequence.length .first)) ∧
      .nop ∉ (advanceInPlace sequence digit).2 := by
  have hplace := advanceInPlace_eq hdigit
  refine ⟨?_, ?_, nop_not_mem_advanceInPlace hproper hdigit⟩
  · rintro ⟨other, hpast⟩
    cases hadvance : advance sequence digit with
    | none => exact absurd hpast (not_pastBlock_of_advance hproper hadvance)
    | some next =>
        rw [hadvance] at hplace
        exact ⟨next, isBlockSuccessor_of_advance hproper hadvance, rfl, hplace⟩
  · intro hnone
    cases hadvance : advance sequence digit with
    | none =>
        rw [hadvance] at hplace
        exact ⟨rfl, hplace⟩
    | some next => exact absurd ⟨next, pastBlock_of_advance hproper hadvance⟩ hnone

/-- A carry over two wrapped digits.  The last digit restarts before it. -/
theorem wrapped_digits_block_successor :
    Proper [.dupX1, .swap, .swap, .pop] ∧
      IsBlockSuccessor [.dupX1, .swap, .swap, .pop] 2 [.dupX2, .dup, .dup, .dup] ∧
      advanceInPlace [.dupX1, .swap, .swap, .pop] 2 = (true, [.dupX2, .dup, .dup, .dup]) := by
  have hproper : Proper [.dupX1, .swap, .swap, .pop] := by
    intro instruction hmem
    rw [mem_alphabet_iff]
    rintro rfl
    simp at hmem
  obtain ⟨hfound, hnone, -⟩ :=
    advance_gives_block_successor [.dupX1, .swap, .swap, .pop] 2 hproper (by decide)
  have hexists : ∃ other, PastBlock [.dupX1, .swap, .swap, .pop] 2 other := by
    by_contra hempty
    cases (hnone hempty).1
  obtain ⟨next, hnext, hadvance, -⟩ := hfound hexists
  cases hadvance
  exact ⟨hproper, hnext, rfl⟩

end AdviceCompiler.Odometer
