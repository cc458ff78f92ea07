import AdviceCompiler.Proofs.StackEffect

/-!
# Instructions on words

A narrow value takes one word of the stack and a wide value two.  On words each
instruction does one thing, whatever values the words belong to; it is refused
only where it would cut a wide value in two, or where words are missing.  The
forms that an instruction has on values are the ways to make up its words from
values.
-/

namespace AdviceCompiler

inductive Word where
  /-- The word of a narrow value. -/
  | whole (slot : Slot)
  /-- The upper word of a wide value. -/
  | upper (slot : Slot)
  /-- The lower word of a wide value, which lies beneath the upper one. -/
  | lower (slot : Slot)
  deriving DecidableEq

def Word.isLower : Word → Bool
  | .lower _ => true
  | _ => false

/-- The words of a value, top first. -/
def Slot.words (slot : Slot) : List Word :=
  match slot.category with
  | .narrow => [.whole slot]
  | .wide => [.upper slot, .lower slot]

/-- The words of a stack, both top first. -/
def stackWords (stack : List Slot) : List Word :=
  stack.flatMap Slot.words

/-- The words of a layout, top first. -/
def Layout.words (layout : Layout) : List Word :=
  stackWords layout.reverse

namespace Word

/-- A stack of words can be cut beneath its top `depth` words: it has as many, and
no wide value has its upper word above the cut and its lower word beneath. -/
def Cuttable (words : List Word) (depth : Nat) : Prop :=
  depth ≤ words.length ∧ (words[depth]?).any isLower = false

instance (words : List Word) (depth : Nat) : Decidable (Cuttable words depth) :=
  inferInstanceAs (Decidable (_ ∧ _))

/-- What an instruction does to the words on top of the stack. -/
inductive Move where
  /-- Copies the top `count` words, and puts the copies beneath them and `beyond`
  more words. -/
  | copy (count beyond : Nat)
  | drop (count : Nat)
  /-- Exchanges the two words on top. -/
  | exchange
  | keep
  deriving DecidableEq

namespace Move

/-- The places where a move cuts the stack, in words beneath the top. -/
def cuts : Move → List Nat
  | .copy count beyond => [count, count + beyond]
  | .drop count => [count]
  | .exchange => [1, 2]
  | .keep => []

def apply (words : List Word) : Move → List Word
  | .copy count beyond =>
      words.take (count + beyond) ++ words.take count ++ words.drop (count + beyond)
  | .drop count => words.drop count
  | .exchange => (words.drop 1).take 1 ++ words.take 1 ++ words.drop 2
  | .keep => words

end Move

end Word

namespace Instruction

open Word

/-- The move of an instruction.  `DUP2_X1`, say, copies two words beneath one
more. -/
def move : Instruction → Move
  | .dup => .copy 1 0
  | .dupX1 => .copy 1 1
  | .dupX2 => .copy 1 2
  | .dup2 => .copy 2 0
  | .dup2X1 => .copy 2 1
  | .dup2X2 => .copy 2 2
  | .pop => .drop 1
  | .pop2 => .drop 2
  | .swap => .exchange
  | .nop => .keep

/-- The words after an instruction, or `none` if it cannot cut the stack where it
has to. -/
def wordEffect (instruction : Instruction) (words : List Word) : Option (List Word) :=
  if ∀ depth ∈ instruction.move.cuts, Cuttable words depth then
    some (instruction.move.apply words)
  else none

end Instruction

/-- Runs the instructions on words and stops at the first that is refused. -/
def Word.run (words : List Word) : List Instruction → Option (List Word)
  | [] => some words
  | instruction :: rest => (instruction.wordEffect words).bind fun next => run next rest

section Words

open Word

theorem stackWords_cons (slot : Slot) (stack : List Slot) :
    stackWords (slot :: stack) = slot.words ++ stackWords stack := rfl

@[simp]
theorem stackWords_append (top rest : List Slot) :
    stackWords (top ++ rest) = stackWords top ++ stackWords rest := by
  simp [stackWords]

theorem stackWords_eq_nil_iff {stack : List Slot} : stackWords stack = [] ↔ stack = [] := by
  cases stack with
  | nil => exact iff_of_true rfl rfl
  | cons slot rest =>
      rcases slot with ⟨id, category⟩
      cases category <;> simp [stackWords_cons, Slot.words]

theorem stackWords_injective : Function.Injective stackWords := by
  intro left
  induction left with
  | nil =>
      intro right heq
      exact (stackWords_eq_nil_iff.mp heq.symm).symm
  | cons slot rest ih =>
      intro right heq
      cases right with
      | nil => exact stackWords_eq_nil_iff.mp heq
      | cons other others =>
          rcases slot with ⟨id, category⟩
          rcases other with ⟨otherId, otherCategory⟩
          cases category <;> cases otherCategory <;>
            simp only [stackWords_cons, Slot.words, List.cons_append, List.nil_append,
              List.cons.injEq, reduceCtorEq, false_and, Word.whole.injEq, Word.upper.injEq,
              Word.lower.injEq] at heq
          · rw [heq.1, ih heq.2]
          · rw [heq.1, ih heq.2.2]

/-- A cut further down is one of the words that are left after an upper cut. -/
theorem cuttable_append_iff (above beneath : List Word) (depth : Nat) :
    Cuttable (above ++ beneath) (above.length + depth) ↔ Cuttable beneath depth := by
  have hindex : (above ++ beneath)[above.length + depth]? = beneath[depth]? := by
    rw [List.getElem?_append_right (Nat.le_add_right _ _), Nat.add_sub_cancel_left]
  rw [Cuttable, Cuttable, hindex, List.length_append, Nat.add_le_add_iff_left]

/-- A stack can be cut exactly between its values. -/
theorem cuttable_stackWords_iff {stack : List Slot} {depth : Nat} :
    Cuttable (stackWords stack) depth ↔
      ∃ top rest, stack = top ++ rest ∧ (stackWords top).length = depth := by
  constructor
  · intro hcut
    induction stack generalizing depth with
    | nil =>
        have hzero : depth = 0 := Nat.le_zero.mp hcut.1
        exact ⟨[], [], rfl, hzero.symm⟩
    | cons slot rest ih =>
        by_cases hzero : depth = 0
        · exact ⟨[], slot :: rest, rfl, hzero.symm⟩
        · -- A cut below the top value is a cut of what lies beneath it.
          have hbelow : ∃ deeper, depth = slot.words.length + deeper := by
            rcases slot with ⟨id, category⟩
            cases category with
            | narrow => exact ⟨depth - 1, by simp [Slot.words]; omega⟩
            | wide =>
                have hinside : depth ≠ 1 := by
                  rintro rfl
                  simp [Cuttable, stackWords, Slot.words, Word.isLower] at hcut
                exact ⟨depth - 2, by simp [Slot.words]; omega⟩
          obtain ⟨deeper, rfl⟩ := hbelow
          rw [stackWords_cons, cuttable_append_iff] at hcut
          obtain ⟨top, others, rfl, hlength⟩ := ih hcut
          refine ⟨slot :: top, others, rfl, ?_⟩
          rw [stackWords_cons, List.length_append, hlength]
  · rintro ⟨top, rest, rfl, rfl⟩
    rw [stackWords_append]
    have hstart : Cuttable (stackWords rest) 0 := by
      cases rest with
      | nil => simp [Cuttable, stackWords]
      | cons slot rest =>
          rcases slot with ⟨id, category⟩
          cases category <;> simp [Cuttable, stackWords, Slot.words, Word.isLower]
    exact (cuttable_append_iff _ _ 0).mpr hstart

end Words

namespace Instruction

open Word

/-- The widths of values that take `count` words together, top first. -/
def spellings : Nat → List (List Category)
  | 0 => [[]]
  | 1 => [[.narrow]]
  | count + 2 =>
      (spellings count).map (.wide :: ·) ++ (spellings (count + 1)).map (.narrow :: ·)

theorem map_category_mem_spellings {taken : List Slot} {count : Nat} :
    taken.map Slot.category ∈ spellings count ↔ (stackWords taken).length = count := by
  induction taken generalizing count with
  | nil =>
      match count with
      | 0 => simp [spellings, stackWords]
      | 1 => simp [spellings, stackWords]
      | count + 2 => simp [spellings, stackWords]
  | cons slot rest ih =>
      rcases slot with ⟨id, category⟩
      match count with
      | 0 => cases category <;> simp [spellings, stackWords, Slot.words]
      | 1 =>
          have hzero := @ih 0
          cases category <;> simp_all [spellings, stackWords_cons, Slot.words]
      | count + 2 =>
          have hwide := @ih count
          have hnarrow := @ih (count + 1)
          cases category <;> simp [spellings, stackWords_cons, Slot.words, hwide, hnarrow]

end Instruction

namespace Word.Move

open Instruction

/-- The form that copies slots of the widths `top` beneath others. -/
def copying (top beyond : List Category) : Form :=
  ⟨top ++ beyond, List.range (top.length + beyond.length) ++ List.range top.length⟩

/-- The forms of a move: one for each way to make up its words from values. -/
def forms : Move → List Form
  | .copy count beyond =>
      (spellings count).flatMap fun top => (spellings beyond).map fun rest => copying top rest
  | .drop count => (spellings count).map fun top => ⟨top, []⟩
  | .exchange => [⟨[.narrow, .narrow], [1, 0]⟩]
  | .keep => [⟨[], []⟩]

/-- A move on values, which are taken off the top in groups of so many words. -/
def Regroups (stack result : List Slot) : Move → Prop
  | .copy count beyond => ∃ top middle rest, stack = top ++ (middle ++ rest) ∧
      (stackWords top).length = count ∧ (stackWords middle).length = beyond ∧
      result = top ++ (middle ++ (top ++ rest))
  | .drop count => ∃ top, stack = top ++ result ∧ (stackWords top).length = count
  | .exchange => ∃ top next rest, stack = top ++ (next ++ rest) ∧
      (stackWords top).length = 1 ∧ (stackWords next).length = 1 ∧
      result = next ++ (top ++ rest)
  | .keep => result = stack

theorem filterMap_range_getElem? {α : Type} (values : List α) (count : Nat) :
    (List.range count).filterMap (fun index => values[index]?) = values.take count := by
  induction count with
  | zero => simp
  | succ count ih =>
      rw [List.range_succ, List.filterMap_append, ih, List.take_add_one]
      cases hvalue : values[count]? <;> simp [hvalue]

theorem put_copying (top middle : List Slot) :
    (copying (top.map Slot.category) (middle.map Slot.category)).put (top ++ middle) =
      top ++ (middle ++ top) := by
  rw [Form.put, copying, List.filterMap_append, filterMap_range_getElem?,
    filterMap_range_getElem?, List.length_map, List.length_map, ← List.length_append,
    List.take_length, List.take_left, List.append_assoc]

theorem regroups_copy_iff {count beyond : Nat} {stack result : List Slot} :
    (Move.copy count beyond).Regroups stack result ↔
      ∃ form ∈ (Move.copy count beyond).forms, form.Rewrites stack result := by
  constructor
  · rintro ⟨top, middle, rest, rfl, hcount, hbeyond, rfl⟩
    refine ⟨copying (top.map Slot.category) (middle.map Slot.category), ?_, top ++ middle, rest,
      (List.append_assoc _ _ _).symm, List.map_append, ?_⟩
    · exact List.mem_flatMap.mpr ⟨_, map_category_mem_spellings.mpr hcount,
        List.mem_map.mpr ⟨_, map_category_mem_spellings.mpr hbeyond, rfl⟩⟩
    · simp [put_copying]
  · rintro ⟨form, hform, taken, rest, rfl, hwidths, rfl⟩
    obtain ⟨topWidths, htop, hform⟩ := List.mem_flatMap.mp hform
    obtain ⟨middleWidths, hmiddle, rfl⟩ := List.mem_map.mp hform
    obtain ⟨top, middle, rfl, rfl, rfl⟩ := List.map_eq_append_iff.mp hwidths
    refine ⟨top, middle, rest, List.append_assoc _ _ _, map_category_mem_spellings.mp htop,
      map_category_mem_spellings.mp hmiddle, ?_⟩
    simp [put_copying]

theorem regroups_drop_iff {count : Nat} {stack result : List Slot} :
    (Move.drop count).Regroups stack result ↔
      ∃ form ∈ (Move.drop count).forms, form.Rewrites stack result := by
  constructor
  · rintro ⟨top, rfl, hcount⟩
    exact ⟨⟨top.map Slot.category, []⟩,
      List.mem_map.mpr ⟨_, map_category_mem_spellings.mpr hcount, rfl⟩, top, result, rfl, rfl, rfl⟩
  · rintro ⟨form, hform, top, rest, rfl, hwidths, rfl⟩
    obtain ⟨widths, hmem, rfl⟩ := List.mem_map.mp hform
    refine ⟨top, rfl, map_category_mem_spellings.mp ?_⟩
    rwa [hwidths]

theorem regroups_exchange_iff {stack result : List Slot} :
    Move.exchange.Regroups stack result ↔
      ∃ form ∈ Move.exchange.forms, form.Rewrites stack result := by
  constructor
  · rintro ⟨top, next, rest, rfl, htop, hnext, rfl⟩
    rw [← map_category_mem_spellings] at htop hnext
    simp only [spellings, List.mem_singleton, map_category_eq_cons, List.map_eq_nil_iff]
      at htop hnext
    obtain ⟨_, _, rfl, rfl⟩ := htop
    obtain ⟨_, _, rfl, rfl⟩ := hnext
    exact ⟨_, .head _, [_, _], rest, rfl, rfl, rfl⟩
  · rintro ⟨form, hform, taken, rest, rfl, hwidths, rfl⟩
    cases List.mem_singleton.mp hform
    simp only [map_category_eq_cons, List.map_eq_nil_iff] at hwidths
    obtain ⟨_, _, rfl, _, _, rfl, rfl⟩ := hwidths
    exact ⟨[_], [_], rest, rfl, rfl, rfl, rfl⟩

theorem regroups_iff {move : Move} {stack result : List Slot} :
    move.Regroups stack result ↔ ∃ form ∈ move.forms, form.Rewrites stack result := by
  cases move with
  | copy count beyond => exact regroups_copy_iff
  | drop count => exact regroups_drop_iff
  | exchange => exact regroups_exchange_iff
  | keep =>
      constructor
      · rintro rfl
        exact ⟨_, .head _, [], result, rfl, rfl, rfl⟩
      · rintro ⟨form, hform, taken, rest, rfl, hwidths, rfl⟩
        cases List.mem_singleton.mp hform
        cases List.map_eq_nil_iff.mp hwidths
        rfl

/-- Two cuts part a stack of values into three. -/
theorem cuttable_and_cuttable_iff {stack : List Slot} {upper more : Nat} :
    Cuttable (stackWords stack) upper ∧ Cuttable (stackWords stack) (upper + more) ↔
      ∃ top middle rest, stack = top ++ (middle ++ rest) ∧ (stackWords top).length = upper ∧
        (stackWords middle).length = more := by
  constructor
  · rintro ⟨hupper, hlower⟩
    obtain ⟨top, beneath, rfl, rfl⟩ := cuttable_stackWords_iff.mp hupper
    rw [stackWords_append, cuttable_append_iff] at hlower
    obtain ⟨middle, rest, rfl, hmore⟩ := cuttable_stackWords_iff.mp hlower
    exact ⟨top, middle, rest, rfl, rfl, hmore⟩
  · rintro ⟨top, middle, rest, rfl, rfl, rfl⟩
    constructor
    · exact cuttable_stackWords_iff.mpr ⟨top, _, rfl, rfl⟩
    · exact cuttable_stackWords_iff.mpr ⟨top ++ middle, rest, by simp, by simp⟩

theorem forall_mem_cuts_copy {words : List Word} {count beyond : Nat} :
    (∀ depth ∈ (Move.copy count beyond).cuts, Cuttable words depth) ↔
      Cuttable words count ∧ Cuttable words (count + beyond) := by
  simp [cuts]

theorem forall_mem_cuts_exchange {words : List Word} :
    (∀ depth ∈ Move.exchange.cuts, Cuttable words depth) ↔
      Cuttable words 1 ∧ Cuttable words (1 + 1) := by
  simp [cuts]

/-- Where a move can cut the words of a stack, it can move its values. -/
theorem forall_cuttable_iff {move : Move} {stack : List Slot} :
    (∀ depth ∈ move.cuts, Cuttable (stackWords stack) depth) ↔
      ∃ result, move.Regroups stack result := by
  cases move with
  | copy count beyond =>
      rw [forall_mem_cuts_copy, cuttable_and_cuttable_iff]
      constructor
      · rintro ⟨top, middle, rest, hparts⟩
        exact ⟨_, top, middle, rest, hparts.1, hparts.2.1, hparts.2.2, rfl⟩
      · rintro ⟨_, top, middle, rest, hstack, hcount, hbeyond, -⟩
        exact ⟨top, middle, rest, hstack, hcount, hbeyond⟩
  | drop count =>
      simp only [cuts, List.mem_singleton, forall_eq, cuttable_stackWords_iff]
      exact exists_comm
  | exchange =>
      rw [forall_mem_cuts_exchange, cuttable_and_cuttable_iff]
      constructor
      · rintro ⟨top, next, rest, hparts⟩
        exact ⟨_, top, next, rest, hparts.1, hparts.2.1, hparts.2.2, rfl⟩
      · rintro ⟨_, top, next, rest, hstack, htop, hnext, -⟩
        exact ⟨top, next, rest, hstack, htop, hnext⟩
  | keep => simp [cuts, Regroups]

/-- A move on values moves their words. -/
theorem Regroups.stackWords_eq {move : Move} {stack result : List Slot}
    (hregroups : move.Regroups stack result) :
    stackWords result = move.apply (stackWords stack) := by
  cases move with
  | copy count beyond =>
      obtain ⟨top, middle, rest, rfl, rfl, rfl, rfl⟩ := hregroups
      simp only [apply, stackWords_append, List.take_left]
      rw [← List.append_assoc (stackWords top) (stackWords middle) (stackWords rest),
        ← List.length_append, List.take_left, List.drop_left]
      simp
  | drop count =>
      obtain ⟨top, rfl, rfl⟩ := hregroups
      rw [apply, stackWords_append, List.drop_left]
  | exchange =>
      obtain ⟨top, next, rest, rfl, htop, hnext, rfl⟩ := hregroups
      have hboth : (stackWords top ++ stackWords next).length = 2 := by simp [htop, hnext]
      simp only [apply, stackWords_append, List.drop_left' htop, List.take_left' htop,
        List.take_left' hnext]
      rw [← List.append_assoc (stackWords top), List.drop_left' hboth, List.append_assoc]
  | keep =>
      cases hregroups
      rfl

end Word.Move

namespace Instruction

open Word

/-- The forms of an instruction are those of its move. -/
theorem forms_eq (instruction : Instruction) : instruction.forms = instruction.move.forms := by
  cases instruction <;> rfl

theorem effectOnTop_eq_some_iff_regroups {instruction : Instruction} {stack result : List Slot} :
    instruction.effectOnTop stack = some result ↔ instruction.move.Regroups stack result := by
  rw [effectOnTop_eq_some_iff, forms_eq, Move.regroups_iff]

/-- An instruction does to the words of a stack what its move does. -/
theorem wordEffect_stackWords (instruction : Instruction) (stack : List Slot) :
    instruction.wordEffect (stackWords stack) =
      (instruction.effectOnTop stack).map stackWords := by
  rw [wordEffect]
  split
  · next hcuts =>
      obtain ⟨result, hregroups⟩ := Move.forall_cuttable_iff.mp hcuts
      rw [effectOnTop_eq_some_iff_regroups.mpr hregroups, Option.map_some,
        hregroups.stackWords_eq]
  · next hrefused =>
      cases heffect : instruction.effectOnTop stack with
      | none => rfl
      | some result =>
          have hregroups := effectOnTop_eq_some_iff_regroups.mp heffect
          exact absurd (Move.forall_cuttable_iff.mpr ⟨result, hregroups⟩) hrefused

end Instruction

namespace Layout

open Instruction

theorem words_injective : Function.Injective words := by
  intro left right heq
  exact List.reverse_injective (stackWords_injective heq)

theorem step_eq_ok_iff_regroups {layout result : Layout} {instruction : Instruction} :
    layout.step instruction = .ok result ↔
      instruction.move.Regroups layout.reverse result.reverse := by
  rw [step_eq_ok_iff, effectOnTop_eq_some_iff_regroups]

theorem toOption_step (layout : Layout) (instruction : Instruction) :
    (layout.step instruction).toOption.map words = instruction.wordEffect layout.words := by
  rw [words, wordEffect_stackWords, step, effect]
  cases instruction.effectOnTop layout.reverse with
  | none => rfl
  | some result => simp [Except.toOption, words]

/-- A run on words is the run on values, word by word. -/
theorem toOption_run (layout : Layout) (instructions : List Instruction) :
    (layout.run instructions).toOption.map words = Word.run layout.words instructions := by
  induction instructions generalizing layout with
  | nil => rfl
  | cons instruction rest ih =>
      rw [run, Word.run, ← toOption_step]
      cases layout.step instruction with
      | error failure => rfl
      | ok next => exact ih next

end Layout

/-- Instructions on values refine the uniform moves of words.  An instruction
applies exactly if there are words enough and it cuts no wide value in two, and it
then moves the words.  A run on values is a run on words, and the words tell the
values. -/
theorem instructions_refine_word_moves :
    (∀ (layout : Layout) (instruction : Instruction),
      ((∃ result, layout.step instruction = .ok result) ↔
        ∀ depth ∈ instruction.move.cuts, Word.Cuttable layout.words depth) ∧
      ∀ result, layout.step instruction = .ok result →
        Layout.words result = instruction.move.apply layout.words) ∧
    (∀ (layout : Layout) (instructions : List Instruction),
      (layout.run instructions).toOption.map Layout.words = Word.run layout.words instructions) ∧
    Function.Injective Layout.words := by
  refine ⟨?_, Layout.toOption_run, Layout.words_injective⟩
  intro layout instruction
  simp only [Layout.step_eq_ok_iff_regroups]
  constructor
  · rw [Layout.words, Word.Move.forall_cuttable_iff]
    constructor
    · rintro ⟨result, hregroups⟩
      exact ⟨result.reverse, hregroups⟩
    · rintro ⟨result, hregroups⟩
      exact ⟨result.reverse, by rwa [List.reverse_reverse]⟩
  · intro result hregroups
    exact hregroups.stackWords_eq

end AdviceCompiler
