import Mathlib.Data.List.Nodup
import Mathlib.Data.List.Perm.Subperm
import AdviceCompiler.Proofs.ShortlexSearch
import AdviceCompiler.Proofs.StackEffect
import AdviceCompiler.Stack.Canonical

/-!
# Canonical pairs have the same solutions

The canonical form of a pair renames both layouts by one list of names without
repeats.  There are no more names than 32-bit words, so the numbers given to
names do not wrap and the renaming can be undone.
-/

namespace AdviceCompiler

open Instruction

namespace Renaming

/-- Renames a slot to the index of its name. -/
def apply (names : Renaming) (slot : Slot) : Slot :=
  ⟨UInt32.ofNat (names.idxOf slot.id), slot.category⟩

/-- Gives a renamed slot its name back. -/
def restore (names : Renaming) (slot : Slot) : Slot :=
  ⟨names[slot.id.toNat]?.getD 0, slot.category⟩

theorem keepsWidths_apply (names : Renaming) : KeepsWidths names.apply := fun _ => rfl

theorem length_le_of_nodup {names : Renaming} (hnodup : names.Nodup) :
    names.length ≤ 2 ^ 32 := by
  have hwords : (names.map UInt32.toNat).Nodup :=
    hnodup.map fun _ _ heq => UInt32.toNat_inj.mp heq
  have hbound : names.map UInt32.toNat ⊆ List.range (2 ^ 32) := by
    intro word hword
    obtain ⟨id, -, rfl⟩ := List.mem_map.mp hword
    exact List.mem_range.mpr id.toNat_lt
  have hlength := (hwords.subperm hbound).length_le
  rwa [List.length_map, List.length_range] at hlength

/-- The numbers of known names do not wrap. -/
theorem restore_apply {names : Renaming} (hnodup : names.Nodup) {slot : Slot}
    (hknown : slot.id ∈ names) : names.restore (names.apply slot) = slot := by
  have hindex : names.idxOf slot.id < names.length := List.idxOf_lt_length_iff.mpr hknown
  have hword : (UInt32.ofNat (names.idxOf slot.id)).toNat = names.idxOf slot.id :=
    UInt32.toNat_ofNat_of_lt (hindex.trans_le (length_le_of_nodup hnodup))
  simp only [restore, apply, hword, List.getElem?_eq_getElem hindex, List.getElem_idxOf,
    Option.getD_some]

theorem map_restore_apply {names : Renaming} (hnodup : names.Nodup) {layout : Layout}
    (hknown : ∀ slot ∈ layout, slot.id ∈ names) :
    (layout.map names.apply).map names.restore = layout := by
  calc
    (layout.map names.apply).map names.restore = layout.map id := by
      rw [List.map_map]
      exact List.map_congr_left fun slot hslot => restore_apply hnodup (hknown slot hslot)
    _ = layout := List.map_id layout

/-- Further names do not change the number of a known one. -/
theorem apply_of_isPrefix {names final : Renaming} (hgrows : names <+: final) {slot : Slot}
    (hknown : slot.id ∈ names) : final.apply slot = names.apply slot := by
  obtain ⟨others, rfl⟩ := hgrows
  rw [apply, List.idxOf_append_of_mem hknown, apply]

/-- What renaming a layout gives: more names, all names of the layout among them,
and each slot renamed to the index of its name. -/
structure Renames (known after : Renaming) (layout renamed : Layout) : Prop where
  grows : known <+: after
  nodup : after.Nodup
  names : ∀ slot ∈ layout, slot.id ∈ after
  numbers : renamed = layout.map after.apply

theorem rename_of_mem {known : Renaming} {id : UInt32} (hknown : id ∈ known) :
    known.rename id = (UInt32.ofNat (known.idxOf id), known) := by
  obtain ⟨index, hindex⟩ := Option.isSome_iff_exists.mp (List.isSome_idxOf?.mpr hknown)
  rw [rename, hindex, List.idxOf_eq_getD_idxOf?, hindex, Option.getD_some]

theorem rename_of_not_mem {known : Renaming} {id : UInt32} (hnew : id ∉ known) :
    known.rename id = (UInt32.ofNat known.length, known ++ [id]) := by
  rw [rename, List.idxOf?_eq_none_iff.mpr hnew]

theorem nodup_append_new {known : Renaming} {id : UInt32} (hnodup : known.Nodup)
    (hnew : id ∉ known) : (known ++ [id]).Nodup := by
  rw [← List.concat_eq_append]
  exact hnodup.concat hnew

theorem rename_eq {known : Renaming} (hnodup : known.Nodup) (id : UInt32) :
    ∃ after, known.rename id = (UInt32.ofNat (after.idxOf id), after) ∧ known <+: after ∧
      after.Nodup ∧ id ∈ after := by
  by_cases hknown : id ∈ known
  · exact ⟨known, rename_of_mem hknown, List.prefix_refl known, hnodup, hknown⟩
  · refine ⟨known ++ [id], ?_, List.prefix_append known [id], nodup_append_new hnodup hknown,
      by simp⟩
    rw [rename_of_not_mem hknown, List.idxOf_append_of_notMem hknown]
    simp

theorem renames_renameLayout {known : Renaming} (hnodup : known.Nodup) (layout : Layout) :
    Renames known (known.renameLayout layout).2 layout (known.renameLayout layout).1 := by
  induction layout generalizing known with
  | nil => exact ⟨List.prefix_refl known, hnodup, by simp [renameLayout], rfl⟩
  | cons slot rest ih =>
      obtain ⟨named, hnamed, hgrows, hdistinct, hmem⟩ := rename_eq hnodup slot.id
      have hrest := ih hdistinct
      simp only [renameLayout, hnamed]
      refine ⟨hgrows.trans hrest.grows, hrest.nodup, ?_, ?_⟩
      · rintro other (_ | ⟨_, hother⟩)
        · exact hrest.grows.subset hmem
        · exact hrest.names other hother
      · rw [List.map_cons, ← hrest.numbers, apply_of_isPrefix hrest.grows hmem]
        rfl

end Renaming

namespace Layout

/-- The canonical pair is the pair itself under a renaming that can be undone. -/
theorem canonicalPair_eq (source target : Layout) :
    ∃ names : Renaming, names.Nodup ∧ (∀ slot ∈ source, slot.id ∈ names) ∧
      (∀ slot ∈ target, slot.id ∈ names) ∧
      canonicalPair source target = (source.map names.apply, target.map names.apply) := by
  have hsource := Renaming.renames_renameLayout List.nodup_nil source
  have htarget := Renaming.renames_renameLayout hsource.nodup target
  refine ⟨_, htarget.nodup, ?_, htarget.names, ?_⟩
  · intro slot hslot
    exact htarget.grows.subset (hsource.names slot hslot)
  · refine Prod.ext ?_ htarget.numbers
    -- The numbers of the source stay as they are while the target is renamed.
    apply hsource.numbers.trans
    apply List.map_congr_left
    intro slot hslot
    exact (Renaming.apply_of_isPrefix htarget.grows (hsource.names slot hslot)).symm

/-- The solutions of a pair are those of its canonical form. -/
theorem run_canonicalPair_iff (current target : Layout) (sequence : List Instruction) :
    (canonicalPair current target).1.run sequence = .ok (canonicalPair current target).2 ↔
      current.run sequence = .ok target := by
  obtain ⟨names, hnodup, hcurrent, htarget, hpair⟩ := canonicalPair_eq current target
  rw [hpair, run_map (names.keepsWidths_apply)]
  constructor
  · intro hrun
    cases hresult : current.run sequence with
    | error failure =>
        rw [hresult] at hrun
        cases hrun
    | ok result =>
        rw [hresult] at hrun
        have hsame : result.map names.apply = target.map names.apply := Except.ok.inj hrun
        have hknown : ∀ slot ∈ result, slot.id ∈ names := fun slot hslot =>
          hcurrent slot (mem_of_run hresult hslot)
        rw [← Renaming.map_restore_apply hnodup hknown, hsame,
          Renaming.map_restore_apply hnodup htarget]
  · intro hrun
    rw [hrun]
    rfl

/-- Canonical layouts are equal exactly if the layouts are. -/
theorem canonicalPair_fst_eq_snd_iff (current target : Layout) :
    (canonicalPair current target).1 = (canonicalPair current target).2 ↔ current = target := by
  have hempty := run_canonicalPair_iff current target []
  simpa [run] using hempty

end Layout

/-- The search does not look at slot names. -/
theorem search_canonicalPair (maxDepth : Nat) (current target : Layout) :
    search maxDepth (Layout.canonicalPair current target).1
        (Layout.canonicalPair current target).2 =
      search maxDepth current target :=
  search_congr maxDepth (Layout.run_canonicalPair_iff current target)

end AdviceCompiler
