import Mathlib.Logic.Relation
import AdviceCompiler.ClassPath

/-!
# The supertypes of a class

A visit of a class path meets the names that lead to the queue or on from it, and
no others, whatever the shape of the hierarchy.  So the ancestry of a class is what
it reaches by declared supertypes, and the search for a supertype decides
reachability wherever all names on the way are known.
-/

namespace AdviceCompiler.ClassPath

open Relation (ReflTransGen)

variable {path : ClassPath} {name target : String} {visited queue names : List String}

/-- There is a class of this name. -/
def Registered (path : ClassPath) (name : String) : Prop :=
  ∃ definition ∈ path.classes, definition.name = name

instance (path : ClassPath) (name : String) : Decidable (path.Registered name) :=
  inferInstanceAs (Decidable (∃ definition ∈ path.classes, definition.name = name))

/-- The class of the first name has the second as its superclass or as one of its
interfaces. -/
def Extends (path : ClassPath) (name super : String) : Prop :=
  ∃ definition ∈ path.find? name,
    definition.superclass = some super ∨ super ∈ definition.interfaces

instance (path : ClassPath) (name super : String) : Decidable (path.Extends name super) :=
  inferInstanceAs (Decidable (∃ definition ∈ path.find? name,
    definition.superclass = some super ∨ super ∈ definition.interfaces))

/-- The superclass of the class of this name, then its interfaces. -/
def parents (path : ClassPath) (name : String) : List String :=
  match path.find? name with
  | some definition => definition.superclass.toList ++ definition.interfaces
  | none => []

theorem supertypes_eq_parents : path.supertypes = path.parents := rfl

theorem mem_supertypes_iff {super : String} :
    super ∈ path.supertypes name ↔ path.Extends name super := by
  rw [supertypes_eq_parents, parents, Extends]
  cases path.find? name with
  | none => simp
  | some definition => simp

theorem exists_find?_iff : (∃ definition, path.find? name = some definition) ↔
    path.Registered name := by
  rw [← Option.isSome_iff_exists, find?, List.find?_isSome]
  simp [Registered]

theorem lookup_of_registered (hname : path.Registered name) :
    ∃ definition, path.lookup name = .ok definition := by
  obtain ⟨definition, hfound⟩ := exists_find?_iff.mpr hname
  exact ⟨definition, by rw [lookup, hfound]⟩

theorem registered_of_lookup {definition : ClassDeclaration}
    (hlookup : path.lookup name = .ok definition) : path.Registered name := by
  rw [lookup] at hlookup
  split at hlookup
  · next found hfound => exact exists_find?_iff.mp ⟨found, hfound⟩
  · cases hlookup

theorem lookup_of_not_registered (hname : ¬ path.Registered name) :
    path.lookup name = .error (.unresolvedType (.object name)) := by
  rw [← exists_find?_iff, not_exists] at hname
  have hnone : path.find? name = none := Option.eq_none_iff_forall_ne_some.mpr hname
  rw [lookup, hnone]

theorem exists_declaration_of_extends {super : String} (hextends : path.Extends name super) :
    ∃ definition ∈ path.classes, definition.name = name ∧
      (definition.superclass = some super ∨ super ∈ definition.interfaces) := by
  obtain ⟨definition, hfound, hsuper⟩ := hextends
  have hname := List.find?_some hfound
  exact ⟨definition, List.mem_of_find?_eq_some hfound, of_decide_eq_true hname, hsuper⟩

theorem Extends.registered {super : String} (hextends : path.Extends name super) :
    path.Registered name := by
  obtain ⟨definition, hmem, hname, -⟩ := exists_declaration_of_extends hextends
  exact ⟨definition, hmem, hname⟩

/-- A visit meets nothing but what was visited or is reached from the queue. -/
theorem reached_of_mem_visit (hmem : name ∈ path.visit visited queue) :
    name ∈ visited ∨ ∃ start ∈ queue, ReflTransGen path.Extends start name := by
  fun_induction visit path visited queue with
  | case1 visited => exact Or.inl hmem
  | case2 visited first rest hseen ih =>
      refine (ih hmem).imp_right ?_
      rintro ⟨start, hstart, hreach⟩
      exact ⟨start, List.mem_cons_of_mem first hstart, hreach⟩
  | case3 visited first rest hfresh ih =>
      obtain hold | ⟨start, hstart, hreach⟩ := ih hmem
      · rcases List.mem_append.mp hold with hold | hfirst
        · exact Or.inl hold
        · rw [List.mem_singleton.mp hfirst]
          exact Or.inr ⟨first, List.mem_cons_self, .refl⟩
      · rcases List.mem_append.mp hstart with hrest | hsuper
        · exact Or.inr ⟨start, List.mem_cons_of_mem first hrest, hreach⟩
        · exact Or.inr ⟨first, List.mem_cons_self, .head (mem_supertypes_iff.mp hsuper) hreach⟩

/-- A visit goes on from what was visited. -/
theorem prefix_visit : visited <+: path.visit visited queue := by
  fun_induction visit path visited queue with
  | case1 visited => exact List.prefix_rfl
  | case2 visited first rest hseen ih => exact ih
  | case3 visited first rest hfresh ih =>
      exact (List.prefix_append visited [first]).trans ih

theorem subset_visit : visited ⊆ path.visit visited queue :=
  prefix_visit.subset

theorem queue_subset_visit : queue ⊆ path.visit visited queue := by
  fun_induction visit path visited queue with
  | case1 visited => exact List.nil_subset visited
  | case2 visited first rest hseen ih => exact List.cons_subset.mpr ⟨subset_visit hseen, ih⟩
  | case3 visited first rest hfresh ih =>
      refine List.cons_subset.mpr ⟨?_, List.Subset.trans (List.subset_append_left rest _) ih⟩
      exact subset_visit (List.mem_append_right visited (List.mem_singleton_self first))

/-- A visit ends with all supertypes of what it has met, if those of the visited
names are in the queue at the start. -/
theorem closed_visit
    (hclosed : ∀ name ∈ visited, ∀ super ∈ path.supertypes name, super ∈ visited ∨ super ∈ queue) :
    ∀ name ∈ path.visit visited queue, ∀ super ∈ path.supertypes name,
      super ∈ path.visit visited queue := by
  fun_induction visit path visited queue with
  | case1 visited =>
      intro name hname super hsuper
      exact (hclosed name hname super hsuper).resolve_right List.not_mem_nil
  | case2 visited first rest hseen ih =>
      refine ih fun name hname super hsuper => ?_
      rcases hclosed name hname super hsuper with hold | hqueued
      · exact Or.inl hold
      · rcases List.mem_cons.mp hqueued with rfl | hrest
        · exact Or.inl hseen
        · exact Or.inr hrest
  | case3 visited first rest hfresh ih =>
      refine ih fun name hname super hsuper => ?_
      rcases List.mem_append.mp hname with hold | hfirst
      · rcases hclosed name hold super hsuper with hvisited | hqueued
        · exact Or.inl (List.mem_append_left _ hvisited)
        · rcases List.mem_cons.mp hqueued with rfl | hrest
          · exact Or.inl (List.mem_append_right _ (List.mem_singleton_self super))
          · exact Or.inr (List.mem_append_left _ hrest)
      · rw [List.mem_singleton.mp hfirst] at hsuper
        exact Or.inr (List.mem_append_right _ hsuper)

/-- The ancestry of a class is what it reaches. -/
theorem mem_ancestry : target ∈ path.ancestry name ↔ ReflTransGen path.Extends name target := by
  constructor
  · intro hmem
    obtain hnone | ⟨start, hstart, hreach⟩ := reached_of_mem_visit hmem
    · cases hnone
    · rwa [List.mem_singleton.mp hstart] at hreach
  · intro hreach
    induction hreach with
    | refl => exact queue_subset_visit (List.mem_singleton_self name)
    | tail _ hextends ih =>
        exact closed_visit (List.forall_mem_nil _) _ ih _ (mem_supertypes_iff.mpr hextends)

/-- Where all names are known, the search tells whether the target is one of them. -/
theorem reaches_of_registered (hnames : ∀ name ∈ names, path.Registered name) :
    path.reaches target names = .ok (decide (target ∈ names)) := by
  induction names with
  | nil => rfl
  | cons first rest ih =>
      obtain ⟨hfirst, hrest⟩ := List.forall_mem_cons.mp hnames
      obtain ⟨definition, hlookup⟩ := lookup_of_registered hfirst
      rw [reaches, hlookup]
      by_cases hsame : first = target
      · simp [hsame]
      · simp [hsame, Ne.symm hsame, ih hrest]

theorem mem_of_reaches (hreaches : path.reaches target names = .ok true) : target ∈ names := by
  induction names with
  | nil => cases hreaches
  | cons first rest ih =>
      rw [reaches] at hreaches
      split at hreaches
      · next hsame => exact hsame ▸ List.mem_cons_self
      · split at hreaches
        · exact List.mem_cons_of_mem first (ih hreaches)
        · cases hreaches

/-- A class that is not there has no supertypes to be found. -/
theorem registered_of_inherits (hinherits : path.inherits name target = .ok true)
    (hdiffer : target ≠ name) : path.Registered name := by
  obtain hsame | ⟨super, hextends, -⟩ :=
    (mem_ancestry.mp (mem_of_reaches hinherits)).cases_head
  · exact absurd hsame.symm hdiffer
  · exact hextends.registered

end AdviceCompiler.ClassPath
