import Mathlib.Data.List.Shortlex
import AdviceCompiler.Stack.Odometer

/-!
# The order of instruction sequences

Sequences of instructions are compared digit by digit in the order of the
alphabet.  A step of the odometer passes over a block, the sequences that agree
up to some digit, and lands on the first sequence after it.
-/

namespace AdviceCompiler

namespace Instruction

/-- Instructions are ordered by their place in the alphabet. -/
def Precedes (left right : Instruction) : Prop :=
  alphabet.idxOf left < alphabet.idxOf right

theorem idxOf_alphabet (instruction : Instruction) :
    alphabet.idxOf instruction = instruction.position := by
  cases instruction <;> decide

theorem precedes_iff {left right : Instruction} :
    left.Precedes right ↔ left.position < right.position := by
  rw [Precedes, idxOf_alphabet, idxOf_alphabet]

instance : DecidableRel Precedes := fun left right =>
  inferInstanceAs (Decidable (alphabet.idxOf left < alphabet.idxOf right))

theorem position_injective : Function.Injective position := by
  intro left right heq
  cases left <;> cases right <;> first | rfl | cases heq

theorem mem_alphabet_iff {instruction : Instruction} :
    instruction ∈ alphabet ↔ instruction ≠ .nop := by
  cases instruction <;> decide

theorem first_mem_alphabet : first ∈ alphabet := by
  decide

theorem position_first : first.position = 0 := rfl

instance : Std.Irrefl Precedes where
  irrefl _ := Nat.lt_irrefl _

instance : Std.Asymm Precedes where
  asymm _ _ := Nat.lt_asymm

instance : Std.Trichotomous Precedes where
  trichotomous left right hleft hright := by
    rw [precedes_iff] at hleft hright
    exact position_injective (by omega)

/-- Nothing stands between an instruction and its successor. -/
theorem successor_eq_or_precedes {left right : Instruction}
    (hsuccessor : left.successor ≠ .nop) (hprecedes : left.Precedes right) :
    left.successor = right ∨ left.successor.Precedes right := by
  have hposition := Odometer.position_successor hsuccessor
  rw [precedes_iff] at hprecedes ⊢
  by_cases heq : left.successor.position = right.position
  · exact Or.inl (position_injective heq)
  · exact Or.inr (by omega)

/-- The instruction whose successor is `NOP` is the last of the alphabet. -/
theorem not_precedes_of_successor_eq_nop {left right : Instruction}
    (hsuccessor : left.successor = .nop) (hright : right ∈ alphabet) :
    ¬ left.Precedes right := by
  cases left <;> cases hsuccessor <;> revert right <;> decide

end Instruction

namespace Odometer

open Instruction

/-- A sequence of instructions that each do something. -/
def Proper (sequence : List Instruction) : Prop :=
  ∀ instruction ∈ sequence, instruction ∈ alphabet

/-- `left` is `right` or stands before it, digit by digit. -/
def AtMost (left right : List Instruction) : Prop :=
  left = right ∨ List.Lex Precedes left right

theorem proper_cons {leading : Instruction} {rest : List Instruction} :
    Proper (leading :: rest) ↔ leading ∈ alphabet ∧ Proper rest :=
  List.forall_mem_cons

theorem proper_replicate_first (length : Nat) :
    Proper (List.replicate length Instruction.first) := by
  intro instruction hmem
  rw [List.eq_of_mem_replicate hmem]
  exact first_mem_alphabet

theorem Proper.nop_not_mem {sequence : List Instruction} (hproper : Proper sequence) :
    Instruction.nop ∉ sequence := by
  intro hmem
  exact mem_alphabet_iff.mp (hproper _ hmem) rfl

theorem AtMost.cons {left right : List Instruction} (leading : Instruction)
    (hle : AtMost left right) : AtMost (leading :: left) (leading :: right) := by
  obtain rfl | hlex := hle
  · exact Or.inl rfl
  · exact Or.inr (.cons hlex)

theorem AtMost.not_lex {left right : List Instruction} (hle : AtMost left right) :
    ¬ List.Lex Precedes right left := by
  intro hlex
  obtain rfl | hlater := hle
  · exact Std.Asymm.asymm _ _ hlex hlex
  · exact Std.Asymm.asymm _ _ hlex hlater

/-- The sequence of first instructions comes before all others of its length. -/
theorem replicate_first_atMost {other : List Instruction} (hother : Proper other) :
    AtMost (List.replicate other.length Instruction.first) other := by
  induction other with
  | nil => exact Or.inl rfl
  | cons digit digits ih =>
      have hrest := ih (proper_cons.mp hother).2
      rw [List.length_cons, List.replicate_succ]
      by_cases hdigit : Instruction.first = digit
      · subst hdigit
        exact hrest.cons Instruction.first
      · have hposition : digit.position ≠ 0 := fun hzero =>
          hdigit (position_injective (position_first.trans hzero.symm))
        refine Or.inr (.rel (precedes_iff.mpr ?_))
        rw [position_first]
        omega

theorem proper_carry {leading : Instruction} {rest result : List Instruction}
    (hcarry : carry leading rest = some result) : Proper result := by
  unfold carry at hcarry
  split at hcarry
  · cases hcarry
  · next hsuccessor =>
      cases hcarry
      rw [List.map_const']
      exact proper_cons.mpr
        ⟨mem_alphabet_iff.mpr hsuccessor, proper_replicate_first rest.length⟩

/-- A carry lands on the first sequence with a later leading instruction. -/
theorem carry_atMost {leading digit : Instruction} {rest digits result : List Instruction}
    (hcarry : carry leading rest = some result) (hproper : Proper (digit :: digits))
    (hlength : digits.length = rest.length) (hprecedes : leading.Precedes digit) :
    AtMost result (digit :: digits) := by
  unfold carry at hcarry
  split at hcarry
  · cases hcarry
  · next hsuccessor =>
      cases hcarry
      obtain rfl | hlater := successor_eq_or_precedes hsuccessor hprecedes
      · rw [List.map_const', ← hlength]
        exact (replicate_first_atMost (proper_cons.mp hproper).2).cons _
      · exact Or.inr (.rel hlater)

/-- Without a carry the leading instruction is the last of the alphabet. -/
theorem not_precedes_of_carry_eq_none {leading digit : Instruction} {rest : List Instruction}
    (hcarry : carry leading rest = none) (hdigit : digit ∈ alphabet) :
    ¬ leading.Precedes digit := by
  unfold carry at hcarry
  split at hcarry
  · next hsuccessor => exact not_precedes_of_successor_eq_nop hsuccessor hdigit
  · cases hcarry

theorem proper_advance {sequence result : List Instruction} {digit : Nat}
    (hproper : Proper sequence) (hadvance : advance sequence digit = some result) :
    Proper result := by
  induction sequence generalizing digit result with
  | nil => simp [advance] at hadvance
  | cons leading rest ih =>
      cases digit with
      | zero => exact proper_carry hadvance
      | succ digit =>
          simp only [advance] at hadvance
          split at hadvance
          · next moved hmoved =>
              cases hadvance
              have hparts := proper_cons.mp hproper
              exact proper_cons.mpr ⟨hparts.1, ih hparts.2 hmoved⟩
          · exact proper_carry hadvance

/-- Where no step is possible, every later sequence is in the block. -/
theorem block_of_advance_eq_none {sequence other : List Instruction} {digit : Nat}
    (hadvance : advance sequence digit = none) (hother : Proper other)
    (hlength : other.length = sequence.length) (hlater : List.Lex Precedes sequence other) :
    other.take (digit + 1) = sequence.take (digit + 1) := by
  induction sequence generalizing digit other with
  | nil =>
      cases hlater
      cases hlength
  | cons leading rest ih =>
      cases hlater with
      | rel hprecedes =>
          have hdigit := (proper_cons.mp hother).1
          cases digit with
          | zero => exact absurd hprecedes (not_precedes_of_carry_eq_none hadvance hdigit)
          | succ digit =>
              simp only [advance] at hadvance
              split at hadvance
              · cases hadvance
              · exact absurd hprecedes (not_precedes_of_carry_eq_none hadvance hdigit)
      | cons htail =>
          cases digit with
          | zero => rfl
          | succ digit =>
              simp only [advance] at hadvance
              split at hadvance
              · cases hadvance
              · next hmoved =>
                  have hblock := ih hmoved (proper_cons.mp hother).2
                    (Nat.succ.inj hlength) htail
                  exact congrArg (List.cons leading) hblock

/-- A step lands on the first sequence after the block it leaves: any later
sequence of the same length is in the block or not before the result. -/
theorem advance_atMost {sequence other result : List Instruction} {digit : Nat}
    (hadvance : advance sequence digit = some result) (hother : Proper other)
    (hlength : other.length = sequence.length) (hlater : List.Lex Precedes sequence other)
    (hblock : other.take (digit + 1) ≠ sequence.take (digit + 1)) :
    AtMost result other := by
  induction sequence generalizing digit other result with
  | nil => simp [advance] at hadvance
  | cons leading rest ih =>
      cases hlater with
      | rel hprecedes =>
          cases digit with
          | zero => exact carry_atMost hadvance hother (Nat.succ.inj hlength) hprecedes
          | succ digit =>
              simp only [advance] at hadvance
              split at hadvance
              · cases hadvance
                exact Or.inr (.rel hprecedes)
              · exact carry_atMost hadvance hother (Nat.succ.inj hlength) hprecedes
      | @cons _ _ tail htail =>
          cases digit with
          | zero => exact absurd rfl hblock
          | succ digit =>
              have hrest : tail.take (digit + 1) ≠ rest.take (digit + 1) := fun heq =>
                hblock (congrArg (List.cons leading) heq)
              have hproper := (proper_cons.mp hother).2
              simp only [advance] at hadvance
              split at hadvance
              · next moved hmoved =>
                  cases hadvance
                  exact (ih hmoved hproper (Nat.succ.inj hlength) htail hrest).cons leading
              · next hmoved =>
                  exact absurd
                    (block_of_advance_eq_none hmoved hproper (Nat.succ.inj hlength) htail) hrest

end Odometer

end AdviceCompiler
