import Mathlib.Data.List.Basic
import AdviceCompiler.Stack.Instruction

/-!
# What instructions do to a stack

Every form of an instruction takes slots of given widths off the top and puts
some of them back.  It looks at nothing beneath them and at no slot name, so a
run is the same on a deeper stack and under a renaming of its slots.
-/

namespace AdviceCompiler

namespace Instruction

/-- One form of an instruction. -/
structure Form where
  /-- The widths of the slots taken off the top, top first. -/
  widths : List Category
  /-- The indices of the slots put back among those taken, top first. -/
  picks : List Nat
  deriving DecidableEq

/-- The forms of an instruction. -/
def forms : Instruction → List Form
  | .dup => [⟨[.narrow], [0, 0]⟩]
  | .dupX1 => [⟨[.narrow, .narrow], [0, 1, 0]⟩]
  | .dupX2 => [⟨[.narrow, .wide], [0, 1, 0]⟩, ⟨[.narrow, .narrow, .narrow], [0, 1, 2, 0]⟩]
  | .dup2 => [⟨[.wide], [0, 0]⟩, ⟨[.narrow, .narrow], [0, 1, 0, 1]⟩]
  | .dup2X1 =>
      [⟨[.wide, .narrow], [0, 1, 0]⟩, ⟨[.narrow, .narrow, .narrow], [0, 1, 2, 0, 1]⟩]
  | .dup2X2 =>
      [⟨[.wide, .wide], [0, 1, 0]⟩, ⟨[.wide, .narrow, .narrow], [0, 1, 2, 0]⟩,
        ⟨[.narrow, .narrow, .wide], [0, 1, 2, 0, 1]⟩,
        ⟨[.narrow, .narrow, .narrow, .narrow], [0, 1, 2, 3, 0, 1]⟩]
  | .pop => [⟨[.narrow], []⟩]
  | .pop2 => [⟨[.wide], []⟩, ⟨[.narrow, .narrow], []⟩]
  | .swap => [⟨[.narrow, .narrow], [1, 0]⟩]
  | .nop => [⟨[], []⟩]

/-- The slots a form puts back for those it took. -/
def Form.put (form : Form) (taken : List Slot) : List Slot :=
  form.picks.filterMap fun index => taken[index]?

/-- A form turns one stack into another, both given top first. -/
def Form.Rewrites (form : Form) (stack result : List Slot) : Prop :=
  ∃ taken rest, stack = taken ++ rest ∧ taken.map Slot.category = form.widths ∧
    result = form.put taken ++ rest

theorem rewrites_of_effectOnTop {instruction : Instruction} {stack result : List Slot}
    (heffect : instruction.effectOnTop stack = some result) :
    ∃ form ∈ instruction.forms, form.Rewrites stack result := by
  cases instruction <;> simp only [effectOnTop] at heffect
  case nop =>
    cases heffect
    exact ⟨_, .head _, [], _, rfl, rfl, rfl⟩
  case dup | pop =>
    split at heffect <;> cases heffect
    exact ⟨_, .head _, [_], _, rfl, rfl, rfl⟩
  case dupX1 | swap =>
    split at heffect <;> cases heffect
    exact ⟨_, .head _, [_, _], _, rfl, rfl, rfl⟩
  case dupX2 | dup2X1 =>
    split at heffect <;> cases heffect
    · exact ⟨_, .head _, [_, _], _, rfl, rfl, rfl⟩
    · exact ⟨_, .tail _ (.head _), [_, _, _], _, rfl, rfl, rfl⟩
  case dup2 | pop2 =>
    split at heffect <;> cases heffect
    · exact ⟨_, .head _, [_], _, rfl, rfl, rfl⟩
    · exact ⟨_, .tail _ (.head _), [_, _], _, rfl, rfl, rfl⟩
  case dup2X2 =>
    split at heffect <;> cases heffect
    · exact ⟨_, .head _, [_, _], _, rfl, rfl, rfl⟩
    · exact ⟨_, .tail _ (.head _), [_, _, _], _, rfl, rfl, rfl⟩
    · exact ⟨_, .tail _ (.tail _ (.head _)), [_, _, _], _, rfl, rfl, rfl⟩
    · exact ⟨_, .tail _ (.tail _ (.tail _ (.head _))), [_, _, _, _], _, rfl, rfl, rfl⟩

/-- A list of slots is known up to names by its widths. -/
theorem map_category_eq_cons {taken : List Slot} {width : Category} {widths : List Category} :
    taken.map Slot.category = width :: widths ↔
      ∃ id rest, taken = ⟨id, width⟩ :: rest ∧ rest.map Slot.category = widths := by
  constructor
  · intro hmap
    obtain ⟨⟨id, _⟩, rest, rfl, rfl, hrest⟩ := List.map_eq_cons_iff.mp hmap
    exact ⟨id, rest, rfl, hrest⟩
  · rintro ⟨id, rest, rfl, rfl⟩
    rfl

theorem effectOnTop_of_rewrites {instruction : Instruction} {form : Form}
    {stack result : List Slot} (hform : form ∈ instruction.forms)
    (hrewrites : form.Rewrites stack result) :
    instruction.effectOnTop stack = some result := by
  obtain ⟨taken, rest, rfl, hwidths, rfl⟩ := hrewrites
  cases instruction <;>
    simp only [forms, List.mem_cons, List.not_mem_nil, or_false] at hform
  case nop =>
    subst hform
    cases List.map_eq_nil_iff.mp hwidths
    rfl
  case dup | pop =>
    subst hform
    simp only [map_category_eq_cons, List.map_eq_nil_iff] at hwidths
    obtain ⟨_, _, rfl, rfl⟩ := hwidths
    rfl
  case dupX1 | swap =>
    subst hform
    simp only [map_category_eq_cons, List.map_eq_nil_iff] at hwidths
    obtain ⟨_, _, rfl, _, _, rfl, rfl⟩ := hwidths
    rfl
  case dupX2 | dup2X1 =>
    obtain rfl | rfl := hform <;>
      simp only [map_category_eq_cons, List.map_eq_nil_iff] at hwidths
    · obtain ⟨_, _, rfl, _, _, rfl, rfl⟩ := hwidths
      rfl
    · obtain ⟨_, _, rfl, _, _, rfl, _, _, rfl, rfl⟩ := hwidths
      rfl
  case dup2 | pop2 =>
    obtain rfl | rfl := hform <;>
      simp only [map_category_eq_cons, List.map_eq_nil_iff] at hwidths
    · obtain ⟨_, _, rfl, rfl⟩ := hwidths
      rfl
    · obtain ⟨_, _, rfl, _, _, rfl, rfl⟩ := hwidths
      rfl
  case dup2X2 =>
    obtain rfl | rfl | rfl | rfl := hform <;>
      simp only [map_category_eq_cons, List.map_eq_nil_iff] at hwidths
    · obtain ⟨_, _, rfl, _, _, rfl, rfl⟩ := hwidths
      rfl
    · obtain ⟨_, _, rfl, _, _, rfl, _, _, rfl, rfl⟩ := hwidths
      rfl
    · obtain ⟨_, _, rfl, _, _, rfl, _, _, rfl, rfl⟩ := hwidths
      rfl
    · obtain ⟨_, _, rfl, _, _, rfl, _, _, rfl, _, _, rfl, rfl⟩ := hwidths
      rfl

/-- An instruction does to a stack what one of its forms does. -/
theorem effectOnTop_eq_some_iff {instruction : Instruction} {stack result : List Slot} :
    instruction.effectOnTop stack = some result ↔
      ∃ form ∈ instruction.forms, form.Rewrites stack result :=
  ⟨rewrites_of_effectOnTop, fun ⟨_, hform, hrewrites⟩ =>
    effectOnTop_of_rewrites hform hrewrites⟩

/-- A form leaves alone what is beneath the slots it takes. -/
theorem Form.Rewrites.append {form : Form} {stack result : List Slot}
    (hrewrites : form.Rewrites stack result) (below : List Slot) :
    form.Rewrites (stack ++ below) (result ++ below) := by
  obtain ⟨taken, rest, rfl, hwidths, rfl⟩ := hrewrites
  exact ⟨taken, rest ++ below, List.append_assoc _ _ _, hwidths, List.append_assoc _ _ _⟩

/-- A form makes no new slots. -/
theorem Form.Rewrites.mem {form : Form} {stack result : List Slot} {slot : Slot}
    (hrewrites : form.Rewrites stack result) (hmem : slot ∈ result) : slot ∈ stack := by
  obtain ⟨taken, rest, rfl, -, rfl⟩ := hrewrites
  rw [List.mem_append] at hmem ⊢
  refine hmem.imp_left fun hput => ?_
  obtain ⟨index, -, hindex⟩ := List.mem_filterMap.mp hput
  exact List.mem_of_getElem? hindex

/-- A renaming of slots keeps their widths. -/
def KeepsWidths (rename : Slot → Slot) : Prop :=
  ∀ slot, (rename slot).category = slot.category

theorem Form.put_map (form : Form) (rename : Slot → Slot) (taken : List Slot) :
    form.put (taken.map rename) = (form.put taken).map rename := by
  simp only [put, List.map_filterMap, List.getElem?_map]

theorem KeepsWidths.map_category {rename : Slot → Slot} (hrename : KeepsWidths rename)
    (slots : List Slot) :
    (slots.map rename).map Slot.category = slots.map Slot.category := by
  rw [List.map_map]
  exact List.map_congr_left fun slot _ => hrename slot

/-- A form does the same to a renamed stack. -/
theorem Form.rewrites_map_iff {form : Form} {rename : Slot → Slot}
    (hrename : KeepsWidths rename) {stack result : List Slot} :
    form.Rewrites (stack.map rename) result ↔
      ∃ original, form.Rewrites stack original ∧ result = original.map rename := by
  constructor
  · rintro ⟨taken, rest, hstack, hwidths, rfl⟩
    obtain ⟨taken, rest, rfl, rfl, rfl⟩ := List.map_eq_append_iff.mp hstack
    rw [hrename.map_category] at hwidths
    refine ⟨_, ⟨taken, rest, rfl, hwidths, rfl⟩, ?_⟩
    rw [List.map_append, form.put_map]
  · rintro ⟨_, ⟨taken, rest, rfl, hwidths, rfl⟩, rfl⟩
    refine ⟨taken.map rename, rest.map rename, List.map_append, ?_, ?_⟩
    · rw [hrename.map_category, hwidths]
    · rw [List.map_append, form.put_map]

theorem effectOnTop_append {instruction : Instruction} {stack result : List Slot}
    (heffect : instruction.effectOnTop stack = some result) (below : List Slot) :
    instruction.effectOnTop (stack ++ below) = some (result ++ below) := by
  obtain ⟨form, hform, hrewrites⟩ := rewrites_of_effectOnTop heffect
  exact effectOnTop_of_rewrites hform (hrewrites.append below)

theorem mem_of_effectOnTop {instruction : Instruction} {stack result : List Slot}
    {slot : Slot} (heffect : instruction.effectOnTop stack = some result)
    (hmem : slot ∈ result) : slot ∈ stack := by
  obtain ⟨form, -, hrewrites⟩ := rewrites_of_effectOnTop heffect
  exact hrewrites.mem hmem

theorem effectOnTop_map {rename : Slot → Slot} (hrename : KeepsWidths rename)
    (instruction : Instruction) (stack : List Slot) :
    instruction.effectOnTop (stack.map rename) =
      (instruction.effectOnTop stack).map (List.map rename) := by
  refine Option.ext fun result => ?_
  rw [effectOnTop_eq_some_iff, Option.map_eq_some_iff]
  constructor
  · rintro ⟨form, hform, hrewrites⟩
    obtain ⟨original, horiginal, rfl⟩ := (Form.rewrites_map_iff hrename).mp hrewrites
    exact ⟨original, effectOnTop_of_rewrites hform horiginal, rfl⟩
  · rintro ⟨original, heffect, rfl⟩
    obtain ⟨form, hform, hrewrites⟩ := rewrites_of_effectOnTop heffect
    exact ⟨form, hform, (Form.rewrites_map_iff hrename).mpr ⟨original, hrewrites, rfl⟩⟩

end Instruction

namespace Layout

open Instruction

theorem step_eq_ok_iff {layout result : Layout} {instruction : Instruction} :
    layout.step instruction = .ok result ↔
      instruction.effectOnTop layout.reverse = some result.reverse := by
  unfold step effect
  cases heffect : instruction.effectOnTop layout.reverse with
  | none => simp
  | some next => simp [List.reverse_eq_iff]

theorem run_cons_eq_ok_iff {layout result : Layout} {instruction : Instruction}
    {rest : List Instruction} :
    layout.run (instruction :: rest) = .ok result ↔
      ∃ next, layout.step instruction = .ok next ∧ run next rest = .ok result := by
  rw [run]
  cases layout.step instruction <;> simp

/-- What an instruction does on top, it does on any deeper stack. -/
theorem step_append {layout result : Layout} {instruction : Instruction}
    (hstep : layout.step instruction = .ok result) (below : Layout) :
    step (below ++ layout) instruction = .ok (below ++ result) := by
  rw [step_eq_ok_iff] at hstep ⊢
  rw [List.reverse_append, List.reverse_append]
  exact effectOnTop_append hstep below.reverse

theorem mem_of_step {layout result : Layout} {instruction : Instruction} {slot : Slot}
    (hstep : layout.step instruction = .ok result) (hmem : slot ∈ result) : slot ∈ layout := by
  rw [step_eq_ok_iff] at hstep
  exact List.mem_reverse.mp (mem_of_effectOnTop hstep (List.mem_reverse.mpr hmem))

theorem step_map {rename : Slot → Slot} (hrename : KeepsWidths rename) (layout : Layout)
    (instruction : Instruction) :
    step (layout.map rename) instruction = (layout.step instruction).map (List.map rename) := by
  unfold step effect
  rw [← List.map_reverse, effectOnTop_map hrename]
  cases instruction.effectOnTop layout.reverse with
  | none => rfl
  | some next => simp [Except.map]

/-- A run is the same on a deeper stack. -/
theorem run_append {layout result : Layout} {sequence : List Instruction}
    (hrun : layout.run sequence = .ok result) (below : Layout) :
    run (below ++ layout) sequence = .ok (below ++ result) := by
  induction sequence generalizing layout with
  | nil =>
      cases hrun
      rfl
  | cons instruction rest ih =>
      obtain ⟨next, hstep, hrest⟩ := run_cons_eq_ok_iff.mp hrun
      exact run_cons_eq_ok_iff.mpr ⟨below ++ next, step_append hstep below, ih hrest⟩

theorem mem_of_run {layout result : Layout} {sequence : List Instruction} {slot : Slot}
    (hrun : layout.run sequence = .ok result) (hmem : slot ∈ result) : slot ∈ layout := by
  induction sequence generalizing layout with
  | nil =>
      cases hrun
      exact hmem
  | cons instruction rest ih =>
      obtain ⟨next, hstep, hrest⟩ := run_cons_eq_ok_iff.mp hrun
      exact mem_of_step hstep (ih hrest)

/-- A run is the same on a renamed stack. -/
theorem run_map {rename : Slot → Slot} (hrename : KeepsWidths rename) (layout : Layout)
    (sequence : List Instruction) :
    run (layout.map rename) sequence = (layout.run sequence).map (List.map rename) := by
  induction sequence generalizing layout with
  | nil => rfl
  | cons instruction rest ih =>
      rw [run, run, step_map hrename]
      cases layout.step instruction with
      | error failure => rfl
      | ok next => exact ih next

end Layout

end AdviceCompiler
