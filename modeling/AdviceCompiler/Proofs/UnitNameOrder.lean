import Mathlib.Data.List.Sort
import AdviceCompiler.UnitName

/-!
# The order of unit names

Unit names are made group by group and then sorted by index.  Grouping neither
loses nor repeats an index, so the sorted names are one for each advice, in order
of declaration.
-/

namespace AdviceCompiler

open List (Perm perm_middle)

namespace UnitName

theorem flatMap_insert_perm (method : String) (index : Nat) (groups : List Group) :
    Perm ((insert method index groups).flatMap Prod.snd) (index :: groups.flatMap Prod.snd) := by
  induction groups with
  | nil => rfl
  | cons group rest ih =>
      rw [insert]
      split
      · simp only [List.flatMap_cons]
        rw [List.append_assoc]
        exact perm_middle
      · simp only [List.flatMap_cons]
        exact (ih.append_left group.2).trans perm_middle

theorem flatMap_foldl_insert_perm (entries : List (String × Nat)) (groups : List Group) :
    Perm ((entries.foldl (fun groups entry => insert entry.1 entry.2 groups)
        groups).flatMap Prod.snd)
      (groups.flatMap Prod.snd ++ entries.map Prod.snd) := by
  induction entries generalizing groups with
  | nil => simp
  | cons entry rest ih =>
      have hinsert := (flatMap_insert_perm entry.1 entry.2 groups).append_right
        (rest.map Prod.snd)
      exact (ih (insert entry.1 entry.2 groups)).trans (hinsert.trans perm_middle.symm)

/-- The groups hold every index once. -/
theorem flatMap_groups_perm (methods : List String) :
    Perm ((groups methods).flatMap Prod.snd) (List.range methods.length) := by
  have hall := flatMap_foldl_insert_perm methods.zipIdx []
  rwa [List.flatMap_nil, List.nil_append, List.zipIdx_map_snd, ← List.range_eq_range'] at hall

theorem map_fst_ofGroup (owner : String) (group : Group) :
    (ofGroup owner group).map Prod.fst = group.2 := by
  rw [ofGroup, List.map_map]
  exact List.zipIdx_map_fst 0 group.2

/-- There is one name for each method, in their order. -/
theorem map_fst_ofMethods (owner : String) (methods : List String) :
    (ofMethods owner methods).map Prod.fst = List.range methods.length := by
  have hsorted : ((ofMethods owner methods).map Prod.fst).Pairwise (· ≤ ·) := by
    have hmerged : (ofMethods owner methods).Pairwise fun left right =>
        decide (left.1 ≤ right.1) = true :=
      List.pairwise_mergeSort (by simpa using fun _ _ _ => Nat.le_trans) (by simp [Nat.le_total])
        _
    rw [List.pairwise_map]
    simpa using hmerged
  have hindices : ((groups methods).flatMap (ofGroup owner)).map Prod.fst =
      (groups methods).flatMap Prod.snd := by
    rw [List.map_flatMap]
    simp only [map_fst_ofGroup]
  have hperm : Perm ((ofMethods owner methods).map Prod.fst) (List.range methods.length) := by
    refine ((List.mergeSort_perm _ _).map Prod.fst).trans ?_
    rw [hindices]
    exact flatMap_groups_perm methods
  exact hperm.eq_of_pairwise (fun _ _ _ _ => Nat.le_antisymm) hsorted List.pairwise_le_range

end UnitName

namespace CallSite

theorem map_fst_unitNames (site : CallSite) :
    site.unitNames.map Prod.fst = List.range site.advices.length := by
  rw [unitNames, UnitName.map_fst_ofMethods, List.length_map]

theorem length_unitNames (site : CallSite) : site.unitNames.length = site.advices.length := by
  simpa using congrArg List.length site.map_fst_unitNames

/-- The name at an index belongs to the advice at that index. -/
theorem exists_name_of_lt (site : CallSite) {index : Nat} (hindex : index < site.advices.length) :
    ∃ name, site.unitNames[index]? = some (index, name) := by
  have hname : index < site.unitNames.length := by rwa [length_unitNames]
  have hfirst := congrArg (·[index]?) site.map_fst_unitNames
  simp only [List.getElem?_map, List.getElem?_eq_getElem hname, Option.map_some,
    List.getElem?_range hindex, Option.some.injEq] at hfirst
  refine ⟨(site.unitNames[index]).2, ?_⟩
  rw [List.getElem?_eq_getElem hname]
  exact congrArg some (Prod.ext hfirst rfl)

end CallSite

end AdviceCompiler
