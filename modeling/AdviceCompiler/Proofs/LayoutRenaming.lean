import Mathlib.Data.Set.Function
import AdviceCompiler.Proofs.CanonicalPair

/-!
# Layout pairs up to renaming

Two pairs of layouts have the same canonical form exactly if a bijection of their
names turns one into the other.  A pair is itself renamed to its canonical form.
Under other names the table of names grows in step, so a renamed pair gets the
same numbers.  A number is the place of its name in order of first appearance.
-/

namespace AdviceCompiler

section FirstAppearance

variable {α : Type} [BEq α] [LawfulBEq α] {seen rest : List α} {value : α}

theorem eraseDups_append_cons_of_mem (hseen : value ∈ seen) :
    (seen ++ value :: rest).eraseDups = (seen ++ rest).eraseDups := by
  have hcontains : ¬ seen.contains value = false := by simpa using hseen
  rw [List.eraseDups_append, List.eraseDups_append, List.cons_removeAll, if_neg hcontains]

theorem eraseDups_of_nodup {values : List α} (hnodup : values.Nodup) :
    values.eraseDups = values := by
  induction values with
  | nil => rfl
  | cons head tail ih =>
      obtain ⟨hhead, htail⟩ := List.nodup_cons.mp hnodup
      have hkept : tail.filter (fun other => !other == head) = tail := by
        apply List.filter_eq_self.mpr
        intro other hother
        simpa using ne_of_mem_of_not_mem hother hhead
      rw [List.eraseDups_cons, hkept, ih htail]

end FirstAppearance

theorem idxOf_map_of_injOn {α β : Type} [BEq α] [LawfulBEq α] [BEq β] [LawfulBEq β]
    {rename : α → β} {values : List α} {value : α} (hmem : value ∈ values)
    (hinjective : Set.InjOn rename {other | other ∈ values}) :
    (values.map rename).idxOf (rename value) = values.idxOf value := by
  induction values with
  | nil => cases hmem
  | cons head tail ih =>
      by_cases hhead : head = value
      · simp [hhead]
      · have htail : value ∈ tail := (List.mem_cons.mp hmem).resolve_left (Ne.symm hhead)
        have hapart : rename head ≠ rename value := fun heq =>
          hhead (hinjective List.mem_cons_self hmem heq)
        rw [List.map_cons, List.idxOf_cons_ne _ hapart, List.idxOf_cons_ne _ hhead,
          ih htail (hinjective.mono fun _ => List.mem_cons_of_mem head)]

/-- The slot under another name. -/
def Slot.renamed (rename : UInt32 → UInt32) (slot : Slot) : Slot :=
  ⟨rename slot.id, slot.category⟩

namespace Renaming

variable {known : Renaming} {id : UInt32}

/-- There is a number left for a new name, so the count of names has not wrapped. -/
theorem toNat_rename_of_not_mem (hnodup : known.Nodup) (hnew : id ∉ known) :
    (known.rename id).1.toNat = known.length := by
  have hbound := length_le_of_nodup (nodup_append_new hnodup hnew)
  rw [List.length_append, List.length_singleton] at hbound
  rw [rename_of_not_mem hnew]
  exact UInt32.toNat_ofNat_of_lt (Nat.lt_of_succ_le hbound)

theorem toNat_rename_of_mem (hnodup : known.Nodup) (hknown : id ∈ known) :
    (known.rename id).1.toNat = known.idxOf id := by
  have hindex : known.idxOf id < known.length := List.idxOf_lt_length_iff.mpr hknown
  rw [rename_of_mem hknown]
  exact UInt32.toNat_ofNat_of_lt (hindex.trans_le (length_le_of_nodup hnodup))

/-- A new name does not get a number that another name has. -/
theorem rename_ne_of_not_mem (hnodup : known.Nodup) (hnew : id ∉ known) {other : UInt32}
    (hother : other ∈ known) : (known.rename other).1 ≠ (known.rename id).1 := by
  intro hsame
  have hnumber := congrArg UInt32.toNat hsame
  rw [toNat_rename_of_mem hnodup hother, toNat_rename_of_not_mem hnodup hnew] at hnumber
  exact (List.idxOf_lt_length_iff.mpr hother).ne hnumber

/-- The table lists names in order of first appearance. -/
theorem snd_renameLayout (hnodup : known.Nodup) (layout : Layout) :
    (known.renameLayout layout).2 = (known ++ layout.map Slot.id).eraseDups := by
  induction layout generalizing known with
  | nil =>
      rw [List.map_nil, List.append_nil, eraseDups_of_nodup hnodup]
      rfl
  | cons slot rest ih =>
      rw [List.map_cons, renameLayout]
      by_cases hknown : slot.id ∈ known
      · rw [eraseDups_append_cons_of_mem hknown, ← ih hnodup, rename_of_mem hknown]
      · rw [List.append_cons, ← ih (nodup_append_new hnodup hknown), rename_of_not_mem hknown]

/-- The numbers already given and those given to a layout are, in order of first
appearance, all numbers below the size of the table. -/
theorem numbers_renameLayout (hnodup : known.Nodup) (layout : Layout) :
    (List.range known.length ++
        (known.renameLayout layout).1.map fun slot => slot.id.toNat).eraseDups =
      List.range (known.renameLayout layout).2.length := by
  induction layout generalizing known with
  | nil =>
      rw [renameLayout, List.map_nil, List.append_nil]
      exact eraseDups_of_nodup List.nodup_range
  | cons slot rest ih =>
      simp only [renameLayout, List.map_cons]
      by_cases hknown : slot.id ∈ known
      · have hgiven : known.idxOf slot.id ∈ List.range known.length :=
          List.mem_range.mpr (List.idxOf_lt_length_iff.mpr hknown)
        rw [toNat_rename_of_mem hnodup hknown, eraseDups_append_cons_of_mem hgiven,
          rename_of_mem hknown]
        exact ih hnodup
      · have hrest := ih (nodup_append_new hnodup hknown)
        rw [List.length_append, List.length_singleton, List.range_succ,
          List.append_assoc] at hrest
        rw [toNat_rename_of_not_mem hnodup hknown, rename_of_not_mem hknown]
        exact hrest

theorem renameLayout_append (known : Renaming) (first second : Layout) :
    known.renameLayout (first ++ second) =
      ((known.renameLayout first).1 ++ ((known.renameLayout first).2.renameLayout second).1,
        ((known.renameLayout first).2.renameLayout second).2) := by
  induction first generalizing known with
  | nil => rfl
  | cons slot rest ih =>
      simp only [List.cons_append, renameLayout]
      rw [ih]

/-- The table grows in the same way under other names. -/
theorem rename_map {rename : UInt32 → UInt32}
    (hinjective : Set.InjOn rename {name | name ∈ known ++ [id]}) :
    Renaming.rename (known.map rename) (rename id) =
      ((known.rename id).1, (known.rename id).2.map rename) := by
  by_cases hknown : id ∈ known
  · have hrenamed : rename id ∈ known.map rename := List.mem_map_of_mem hknown
    have hnumber : (known.map rename).idxOf (rename id) = known.idxOf id :=
      idxOf_map_of_injOn hknown (hinjective.mono fun _ => List.mem_append_left _)
    rw [rename_of_mem hknown, rename_of_mem hrenamed, hnumber]
  · have hrenamed : rename id ∉ known.map rename := by
      intro hmem
      obtain ⟨name, hname, hsame⟩ := List.mem_map.mp hmem
      have hequal : name = id :=
        hinjective (List.mem_append_left _ hname) (List.mem_append_right _ List.mem_cons_self)
          hsame
      exact hknown (hequal ▸ hname)
    rw [rename_of_not_mem hknown, rename_of_not_mem hrenamed, List.length_map, List.map_append]
    rfl

theorem mem_of_mem_snd_rename {name : UInt32} (hname : name ∈ (known.rename id).2) :
    name ∈ known ++ [id] := by
  by_cases hknown : id ∈ known
  · rw [rename_of_mem hknown] at hname
    exact List.mem_append_left _ hname
  · rwa [rename_of_not_mem hknown] at hname

/-- A layout under other names gets the same numbers. -/
theorem renameLayout_map (known : Renaming) {rename : UInt32 → UInt32} {layout : Layout}
    (hinjective : Set.InjOn rename {name | name ∈ known ++ layout.map Slot.id}) :
    renameLayout (known.map rename) (layout.map (Slot.renamed rename)) =
      ((known.renameLayout layout).1, (known.renameLayout layout).2.map rename) := by
  induction layout generalizing known with
  | nil => rfl
  | cons slot rest ih =>
      rw [List.map_cons, List.append_cons] at hinjective
      have hstep := rename_map (hinjective.mono fun _ => List.mem_append_left _)
      have hnext : Set.InjOn rename
          {name | name ∈ (known.rename slot.id).2 ++ rest.map Slot.id} := by
        apply hinjective.mono
        intro name hname
        exact List.mem_append.mpr ((List.mem_append.mp hname).imp_left mem_of_mem_snd_rename)
      simp only [List.map_cons, renameLayout, Slot.renamed, hstep]
      rw [ih _ hnext]

end Renaming

namespace Layout

/-- The names of a pair of layouts as they appear, first in the source and then in
the target. -/
def names (pair : Layout × Layout) : List UInt32 :=
  (pair.1 ++ pair.2).map Slot.id

/-- The second pair is the first under other names: a bijection between the names
of both turns one into the other slot by slot. -/
def Renamed (pair other : Layout × Layout) : Prop :=
  ∃ rename : UInt32 → UInt32,
    Set.BijOn rename {id | id ∈ names pair} {id | id ∈ names other} ∧
      other.1 = pair.1.map (Slot.renamed rename) ∧ other.2 = pair.2.map (Slot.renamed rename)

variable {pair other third : Layout × Layout} {rename : UInt32 → UInt32}

theorem names_of_map (hsource : other.1 = pair.1.map (Slot.renamed rename))
    (htarget : other.2 = pair.2.map (Slot.renamed rename)) :
    names other = (names pair).map rename := by
  rw [names, hsource, htarget, ← List.map_append, List.map_map, names, List.map_map]
  rfl

/-- A map that keeps names apart is a bijection onto the names it gives. -/
theorem renamed_of_injOn (hinjective : Set.InjOn rename {id | id ∈ names pair})
    (hsource : other.1 = pair.1.map (Slot.renamed rename))
    (htarget : other.2 = pair.2.map (Slot.renamed rename)) : Renamed pair other := by
  refine ⟨rename, ?_, hsource, htarget⟩
  have himage : {id | id ∈ names other} = Set.image rename {id | id ∈ names pair} := by
    ext id
    rw [names_of_map hsource htarget]
    exact List.mem_map
  rw [himage]
  exact hinjective.bijOn_image

theorem Renamed.trans (hother : Renamed pair other) (hthird : Renamed other third) :
    Renamed pair third := by
  obtain ⟨rename, hbijection, hsource, htarget⟩ := hother
  obtain ⟨again, hagain, hsource', htarget'⟩ := hthird
  refine ⟨again ∘ rename, hagain.comp hbijection, ?_, ?_⟩
  · rw [hsource', hsource, List.map_map]
    rfl
  · rw [htarget', htarget, List.map_map]
    rfl

theorem map_renamed_map_renamed {restore : UInt32 → UInt32} {layout : Layout}
    (hrestores : ∀ slot ∈ layout, restore (rename slot.id) = slot.id) :
    (layout.map (Slot.renamed rename)).map (Slot.renamed restore) = layout := by
  calc
    (layout.map (Slot.renamed rename)).map (Slot.renamed restore) = layout.map id := by
      rw [List.map_map]
      apply List.map_congr_left
      intro slot hslot
      exact congrArg (Slot.mk · slot.category) (hrestores slot hslot)
    _ = layout := List.map_id layout

theorem Renamed.symm (hother : Renamed pair other) : Renamed other pair := by
  obtain ⟨rename, hbijection, hsource, htarget⟩ := hother
  have hinverse := hbijection.invOn_invFunOn
  refine ⟨Function.invFunOn rename {id | id ∈ names pair}, hbijection.symm hinverse.symm, ?_, ?_⟩
  · rw [hsource]
    symm
    apply map_renamed_map_renamed
    intro slot hslot
    exact hinverse.1 (List.mem_map_of_mem (List.mem_append_left _ hslot))
  · rw [htarget]
    symm
    apply map_renamed_map_renamed
    intro slot hslot
    exact hinverse.1 (List.mem_map_of_mem (List.mem_append_right _ hslot))

/-- A pair is renamed to its canonical form. -/
theorem renamed_canonicalPair (source target : Layout) :
    Renamed (source, target) (canonicalPair source target) := by
  obtain ⟨known, hnodup, hsource, htarget, hpair⟩ := canonicalPair_eq source target
  have hknown : ∀ id ∈ names (source, target), id ∈ known := by
    intro id hid
    obtain ⟨slot, hslot, rfl⟩ := List.mem_map.mp hid
    exact (List.mem_append.mp hslot).elim (hsource slot) (htarget slot)
  let number : UInt32 → UInt32 := fun id => UInt32.ofNat (known.idxOf id)
  have hinjective : Set.InjOn number {id | id ∈ names (source, target)} := by
    intro left hleft right hright hsame
    have hslots : known.apply ⟨left, .narrow⟩ = known.apply ⟨right, .narrow⟩ :=
      congrArg (Slot.mk · .narrow) hsame
    have hrestored := congrArg known.restore hslots
    rw [Renaming.restore_apply hnodup (hknown left hleft),
      Renaming.restore_apply hnodup (hknown right hright)] at hrestored
    exact congrArg Slot.id hrestored
  apply renamed_of_injOn hinjective
  · exact congrArg Prod.fst hpair
  · exact congrArg Prod.snd hpair

/-- The canonical pair numbers the names of both layouts in one pass. -/
theorem canonicalPair_append (source target : Layout) :
    (canonicalPair source target).1 ++ (canonicalPair source target).2 =
      (Renaming.renameLayout [] (source ++ target)).1 := by
  rw [Renaming.renameLayout_append]
  rfl

theorem length_canonicalPair_fst (source target : Layout) :
    (canonicalPair source target).1.length = source.length := by
  obtain ⟨known, -, -, -, hpair⟩ := canonicalPair_eq source target
  rw [hpair, List.length_map]

theorem Renamed.canonicalPair_eq (hother : Renamed pair other) :
    canonicalPair other.1 other.2 = canonicalPair pair.1 pair.2 := by
  obtain ⟨rename, hbijection, hsource, htarget⟩ := hother
  have hnumbers := congrArg Prod.fst (Renaming.renameLayout_map [] hbijection.injOn)
  rw [List.map_append, ← hsource, ← htarget, List.map_nil, ← canonicalPair_append,
    ← canonicalPair_append] at hnumbers
  have hlength : (canonicalPair other.1 other.2).1.length =
      (canonicalPair pair.1 pair.2).1.length := by
    rw [length_canonicalPair_fst, length_canonicalPair_fst, hsource, List.length_map]
  obtain ⟨hfirst, hsecond⟩ := List.append_inj hnumbers hlength
  exact Prod.ext hfirst hsecond

theorem canonicalPair_eq_iff_renamed {source target source' target' : Layout} :
    canonicalPair source target = canonicalPair source' target' ↔
      Renamed (source, target) (source', target') := by
  constructor
  · intro hsame
    have hcanonical := renamed_canonicalPair source' target'
    rw [← hsame] at hcanonical
    exact (renamed_canonicalPair source target).trans hcanonical.symm
  · intro hrenamed
    exact hrenamed.canonicalPair_eq.symm

/-- Renamed layouts are equal exactly if the layouts are. -/
theorem Renamed.fst_eq_snd_iff (hother : Renamed pair other) :
    other.1 = other.2 ↔ pair.1 = pair.2 := by
  rw [← canonicalPair_fst_eq_snd_iff other.1, hother.canonicalPair_eq,
    canonicalPair_fst_eq_snd_iff]

/-- The names of a canonical pair are numbered in order of first appearance. -/
theorem eraseDups_names_canonicalPair (source target : Layout) :
    ((names (canonicalPair source target)).map UInt32.toNat).eraseDups =
      List.range (names (source, target)).eraseDups.length := by
  have hnumbers := Renaming.numbers_renameLayout List.nodup_nil (source ++ target)
  rw [Renaming.snd_renameLayout List.nodup_nil, ← canonicalPair_append] at hnumbers
  rw [names, List.map_map]
  exact hnumbers

theorem canonicalPair_canonicalPair (source target : Layout) :
    canonicalPair (canonicalPair source target).1 (canonicalPair source target).2 =
      canonicalPair source target :=
  (renamed_canonicalPair source target).canonicalPair_eq

end Layout

/-- The canonical form tells pairs of layouts apart exactly up to renaming.  Its
names are the numbers below the count of names, in order of first appearance; it
is its own canonical form, and its layouts are equal exactly if the layouts are.
However many names have been met, a new one gets a number that is not in use. -/
theorem canonical_pairs_classify_renamings (source target : Layout) :
    let canonical := Layout.canonicalPair source target
    (∀ source' target', canonical = Layout.canonicalPair source' target' ↔
        Layout.Renamed (source, target) (source', target')) ∧
      ((Layout.names canonical).map UInt32.toNat).eraseDups =
        List.range (Layout.names (source, target)).eraseDups.length ∧
      Layout.canonicalPair canonical.1 canonical.2 = canonical ∧
      (source = target ↔ canonical.1 = canonical.2) ∧
      ∀ (met : Layout) (id : UInt32), id ∉ met.map Slot.id →
        let known := (Renaming.renameLayout [] met).2
        (known.rename id).1.toNat = known.length ∧
          ∀ other ∈ met.map Slot.id, (known.rename other).1 ≠ (known.rename id).1 := by
  intro canonical
  refine ⟨fun _ _ => Layout.canonicalPair_eq_iff_renamed,
    Layout.eraseDups_names_canonicalPair source target,
    Layout.canonicalPair_canonicalPair source target,
    (Layout.canonicalPair_fst_eq_snd_iff source target).symm, ?_⟩
  intro met id hnew known
  have hmet : ∀ name, name ∈ known ↔ name ∈ met.map Slot.id := by
    intro name
    rw [show known = _ from Renaming.snd_renameLayout List.nodup_nil met, List.nil_append,
      List.mem_eraseDups]
  have hnodup : known.Nodup := (Renaming.renames_renameLayout List.nodup_nil met).nodup
  have hfresh : id ∉ known := fun hmem => hnew ((hmet id).mp hmem)
  refine ⟨Renaming.toNat_rename_of_not_mem hnodup hfresh, ?_⟩
  intro other hother
  exact Renaming.rename_ne_of_not_mem hnodup hfresh ((hmet other).mpr hother)

end AdviceCompiler
