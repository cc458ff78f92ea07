import Mathlib.Data.Nat.Find
import AdviceCompiler.Proofs.Subtyping
import AdviceCompiler.Proofs.SupertypeSearch

/-!
# The nearest declaration of a method

A method is looked for along the ancestry of its owner.  The ancestry begins with
the names of each level of the hierarchy in turn: the names that walks of a given
number of edges end in, each where the first such walk puts it.  So a method is
found exactly where a class that can be reached declares it, and what is found is
the declaration of the first class of the nearest level that has one.
-/

namespace AdviceCompiler

namespace ClassPath

open Relation (ReflTransGen)

variable {path : ClassPath} {name owner : String} {visited names : List String}
variable {α : Type} {ask : String → Option α}

/-- The ends of all walks of this many edges, the walks through the superclass of a
class before those through its interfaces. -/
def level (path : ClassPath) (name : String) : Nat → List String
  | 0 => [name]
  | edges + 1 => (path.level name edges).flatMap path.parents

/-- The names that were not visited before, each where it stands first. -/
def unvisited (visited names : List String) : List String :=
  (names.removeAll visited).eraseDups

@[simp]
theorem unvisited_nil (visited : List String) : unvisited visited [] = [] :=
  rfl

theorem unvisited_cons_of_mem (hseen : name ∈ visited) :
    unvisited visited (name :: names) = unvisited visited names := by
  have hcontains : ¬ visited.contains name = false := by simpa using hseen
  rw [unvisited, List.cons_removeAll, if_neg hcontains, unvisited]

theorem unvisited_cons_of_not_mem (hfresh : name ∉ visited) :
    unvisited visited (name :: names) = name :: unvisited (visited ++ [name]) names := by
  have hcontains : visited.contains name = false := by simpa using hfresh
  have hothers : (names.removeAll visited).filter (fun other => !other == name) =
      names.removeAll (visited ++ [name]) := by
    simp only [List.removeAll, List.filter_filter]
    apply List.filter_congr
    intro other _
    by_cases hsame : other = name
    · simp [hsame]
    · simp [hsame]
  rw [unvisited, List.cons_removeAll, if_pos hcontains, List.eraseDups_cons, hothers, unvisited]

theorem mem_unvisited : name ∈ unvisited visited names ↔ name ∈ names ∧ name ∉ visited := by
  simp [unvisited, List.removeAll]

theorem unvisited_append (visited front back : List String) :
    unvisited visited (front ++ back) =
      unvisited visited front ++ unvisited (visited ++ unvisited visited front) back := by
  induction front generalizing visited with
  | nil => simp
  | cons first rest ih =>
      by_cases hseen : first ∈ visited
      · rw [List.cons_append, unvisited_cons_of_mem hseen, unvisited_cons_of_mem hseen, ih]
      · rw [List.cons_append, unvisited_cons_of_not_mem hseen, unvisited_cons_of_not_mem hseen, ih]
        simp

theorem unvisited_of_subset (hseen : names ⊆ visited) : unvisited visited names = [] := by
  apply List.eq_nil_iff_forall_not_mem.mpr
  intro name hname
  obtain ⟨hmem, hfresh⟩ := mem_unvisited.mp hname
  exact hfresh (hseen hmem)

/-- Repeated names and names known before add nothing to the next level, if the
supertypes of the known names have been visited. -/
theorem unvisited_flatMap_unvisited {supers : String → List String} {known : List String}
    (hknown : ∀ name ∈ known, supers name ⊆ visited) (names : List String) :
    unvisited visited ((unvisited known names).flatMap supers) =
      unvisited visited (names.flatMap supers) := by
  induction names generalizing known visited with
  | nil => rfl
  | cons first rest ih =>
      by_cases hseen : first ∈ known
      · rw [unvisited_cons_of_mem hseen, ih hknown, List.flatMap_cons, unvisited_append,
          unvisited_of_subset (hknown first hseen), List.append_nil, List.nil_append]
      · have hnext : ∀ name ∈ known ++ [first],
            supers name ⊆ visited ++ unvisited visited (supers first) := by
          intro name hname super hsuper
          rw [List.mem_append, mem_unvisited]
          by_cases hvisited : super ∈ visited
          · exact .inl hvisited
          · rcases List.mem_append.mp hname with hold | hfirst
            · exact .inl (hknown name hold hsuper)
            · rw [List.mem_singleton.mp hfirst] at hsuper
              exact .inr ⟨hsuper, hvisited⟩
        rw [unvisited_cons_of_not_mem hseen, List.flatMap_cons, List.flatMap_cons,
          unvisited_append, unvisited_append, ih hnext]

/-- A visit takes the front of its queue as a whole before what stands behind it. -/
theorem visit_append (path : ClassPath) (visited front back : List String) :
    path.visit visited (front ++ back) =
      path.visit (visited ++ unvisited visited front)
        (back ++ (unvisited visited front).flatMap path.supertypes) := by
  induction front generalizing visited back with
  | nil => simp
  | cons first rest ih =>
      rw [List.cons_append, visit]
      by_cases hseen : first ∈ visited
      · rw [dif_pos hseen, ih, unvisited_cons_of_mem hseen]
      · rw [dif_neg hseen, List.append_assoc, ih, unvisited_cons_of_not_mem hseen]
        simp

/-- The names of all levels below this one, in the order of their first walks. -/
def below (path : ClassPath) (name : String) : Nat → List String
  | 0 => []
  | edges + 1 =>
      path.below name edges ++ unvisited (path.below name edges) (path.level name edges)

theorem mem_below {other : String} {edges : Nat} :
    other ∈ path.below name edges ↔ ∃ fewer < edges, other ∈ path.level name fewer := by
  induction edges with
  | zero => simp [below]
  | succ edges ih =>
      rw [below, List.mem_append, mem_unvisited, ih]
      constructor
      · rintro (⟨fewer, hfewer, hmem⟩ | ⟨hmem, -⟩)
        · exact ⟨fewer, by omega, hmem⟩
        · exact ⟨edges, by omega, hmem⟩
      · rintro ⟨fewer, hfewer, hmem⟩
        by_cases hold : ∃ fewer < edges, other ∈ path.level name fewer
        · exact .inl hold
        · rcases Nat.lt_succ_iff_lt_or_eq.mp hfewer with hlt | rfl
          · exact .inl ⟨fewer, hlt, hmem⟩
          · exact .inr ⟨hmem, hold⟩

/-- What is left of a visit of the ancestry once the levels below a given one have
been taken: the names of this level are those of the queue, up to repeats and
visited names. -/
theorem exists_ancestry_eq_visit (path : ClassPath) (name : String) (edges : Nat) :
    ∃ queue, path.ancestry name = path.visit (path.below name edges) queue ∧
      unvisited (path.below name edges) queue =
        unvisited (path.below name edges) (path.level name edges) ∧
      ∀ known ∈ path.below name edges, path.supertypes known ⊆ path.below name edges ++ queue := by
  induction edges with
  | zero => exact ⟨[name], rfl, rfl, List.forall_mem_nil _⟩
  | succ edges ih =>
      obtain ⟨queue, hancestry, hqueue, hclosed⟩ := ih
      have hlevel : path.below name (edges + 1) =
          path.below name edges ++ unvisited (path.below name edges) queue := by
        rw [below, hqueue]
      have hcovered : ∀ known ∈ path.below name edges,
          path.supertypes known ⊆ path.below name (edges + 1) := by
        intro known hknown super hsuper
        rw [hlevel, List.mem_append, mem_unvisited]
        by_cases hbelow : super ∈ path.below name edges
        · exact .inl hbelow
        · have hmem := List.mem_append.mp (hclosed known hknown hsuper)
          exact .inr ⟨hmem.resolve_left hbelow, hbelow⟩
      refine ⟨(unvisited (path.below name edges) queue).flatMap path.supertypes, ?_, ?_, ?_⟩
      · calc
          path.ancestry name = path.visit (path.below name edges) (queue ++ []) := by
            rw [hancestry, List.append_nil]
          _ = _ := by rw [visit_append, hlevel, List.nil_append]
      · rw [hqueue, unvisited_flatMap_unvisited hcovered, level, supertypes_eq_parents]
      · intro known hknown
        rw [hlevel, List.mem_append] at hknown
        rcases hknown with hold | hnew
        · exact List.Subset.trans (hcovered known hold) (List.subset_append_left _ _)
        · exact List.subset_append_of_subset_right _
            fun super hsuper => List.mem_flatMap.mpr ⟨known, hnew, hsuper⟩

/-- The ancestry goes level by level. -/
theorem below_prefix_ancestry (path : ClassPath) (name : String) (edges : Nat) :
    path.below name edges <+: path.ancestry name := by
  obtain ⟨queue, hancestry, -⟩ := path.exists_ancestry_eq_visit name edges
  rw [hancestry]
  exact prefix_visit

theorem exists_mem_level_iff {other : String} :
    (∃ edges, other ∈ path.level name edges) ↔ ReflTransGen path.Extends name other := by
  constructor
  · rintro ⟨edges, hmem⟩
    induction edges generalizing other with
    | zero =>
        rw [List.mem_singleton.mp hmem]
    | succ edges ih =>
        obtain ⟨middle, hmiddle, hextends⟩ := List.mem_flatMap.mp hmem
        exact (ih hmiddle).tail (mem_supertypes_iff.mp hextends)
  · intro hreach
    induction hreach with
    | refl => exact ⟨0, List.mem_singleton_self name⟩
    | tail _ hextends ih =>
        obtain ⟨edges, hmiddle⟩ := ih
        exact ⟨edges + 1,
          List.mem_flatMap.mpr ⟨_, hmiddle, mem_supertypes_iff.mpr hextends⟩⟩

/-- Names that do not answer can be left out of a search. -/
theorem findSome?_unvisited (hvisited : ∀ name ∈ visited, ask name = none)
    (names : List String) : (unvisited visited names).findSome? ask = names.findSome? ask := by
  induction names generalizing visited with
  | nil => rfl
  | cons first rest ih =>
      by_cases hseen : first ∈ visited
      · rw [unvisited_cons_of_mem hseen, ih hvisited, List.findSome?_cons, hvisited first hseen]
      · rw [unvisited_cons_of_not_mem hseen, List.findSome?_cons, List.findSome?_cons]
        cases hask : ask first with
        | some answer => rfl
        | none =>
            refine ih ?_
            exact List.forall_mem_append.mpr ⟨hvisited, List.forall_mem_singleton.mpr hask⟩

/-- Along the ancestry, the first answer is the first of the nearest level that has
one. -/
theorem findSome?_ancestry {edges : Nat}
    (hnearer : ∀ fewer < edges, ∀ other ∈ path.level name fewer, ask other = none)
    (hhere : ∃ other ∈ path.level name edges, ask other ≠ none) :
    (path.ancestry name).findSome? ask = (path.level name edges).findSome? ask := by
  have hsilent : ∀ other ∈ path.below name edges, ask other = none := by
    intro other hother
    obtain ⟨fewer, hfewer, hmem⟩ := mem_below.mp hother
    exact hnearer fewer hfewer other hmem
  have hanswers : (path.level name edges).findSome? ask ≠ none := by
    intro hnone
    obtain ⟨other, hmem, hother⟩ := hhere
    exact hother (List.findSome?_eq_none_iff.mp hnone other hmem)
  obtain ⟨answer, hanswer⟩ := Option.ne_none_iff_exists'.mp hanswers
  obtain ⟨later, hlater⟩ := path.below_prefix_ancestry name (edges + 1)
  rw [← hlater, below, List.findSome?_append, List.findSome?_append,
    List.findSome?_eq_none_iff.mpr hsilent, findSome?_unvisited hsilent, hanswer]
  rfl

/-- An answer along the ancestry comes from the nearest level with an answer, and
there from the first name that has one. -/
theorem exists_level_of_findSome? {answer : α}
    (hfound : (path.ancestry owner).findSome? ask = some answer) :
    ∃ edges earlier name later, path.level owner edges = earlier ++ name :: later ∧
      ask name = some answer ∧ (∀ other ∈ earlier, ask other = none) ∧
      ∀ fewer < edges, ∀ other ∈ path.level owner fewer, ask other = none := by
  have hsome : ∃ edges, ∃ other ∈ path.level owner edges, ask other ≠ none := by
    obtain ⟨other, hmem, hask⟩ := List.exists_of_findSome?_eq_some hfound
    obtain ⟨edges, hlevel⟩ := exists_mem_level_iff.mpr (mem_ancestry.mp hmem)
    exact ⟨edges, other, hlevel, by simp [hask]⟩
  classical
  have hnearer : ∀ fewer < Nat.find hsome, ∀ other ∈ path.level owner fewer,
      ask other = none := by
    intro fewer hfewer other hmem
    by_contra hother
    exact Nat.find_min hsome hfewer ⟨other, hmem, hother⟩
  rw [findSome?_ancestry hnearer (Nat.find_spec hsome)] at hfound
  obtain ⟨earlier, name, later, hlevel, hask, hearlier⟩ := List.findSome?_eq_some_iff.mp hfound
  exact ⟨Nat.find hsome, earlier, name, later, hlevel, hask, hearlier, hnearer⟩

end ClassPath

/-- Two methods have the same name, parameters and result. -/
def Method.Agrees (left right : Method) : Prop :=
  left.name = right.name ∧ left.params = right.params ∧ left.returnType = right.returnType

instance (left right : Method) : Decidable (left.Agrees right) :=
  inferInstanceAs (Decidable (left.name = right.name ∧ left.params = right.params ∧
    left.returnType = right.returnType))

theorem Method.sameSignature_iff {left right : Method} :
    left.sameSignature right = true ↔ left.Agrees right := by
  simp [sameSignature, Agrees]

/-- The types that a method names: owner, parameters and result. -/
def Method.types (method : Method) : List JavaType :=
  method.owner :: method.params ++ [method.returnType]

/-- The first method of a class that agrees with a given one. -/
def ClassDeclaration.FirstMatch (definition : ClassDeclaration) (method found : Method) : Prop :=
  ∃ earlier later, definition.methods = earlier ++ found :: later ∧ found.Agrees method ∧
    ∀ other ∈ earlier, ¬ other.Agrees method

theorem ClassDeclaration.declaration?_eq_some_iff {definition : ClassDeclaration}
    {method found : Method} :
    definition.declaration? method = some found ↔ definition.FirstMatch method found := by
  simp only [declaration?, List.find?_eq_some_iff_append, FirstMatch, Method.sameSignature_iff,
    Bool.not_eq_true', ← Bool.not_eq_true]
  constructor
  · rintro ⟨hfound, earlier, later, hmethods, hearlier⟩
    exact ⟨earlier, later, hmethods, hfound, hearlier⟩
  · rintro ⟨earlier, later, hmethods, hfound, hearlier⟩
    exact ⟨hfound, earlier, later, hmethods, hearlier⟩

namespace ResolutionFailure

theorem ofList?_eq_none_iff {failures : List ResolutionFailure} :
    ofList? failures = none ↔ failures = [] := by
  match failures with
  | [] => simp [ofList?]
  | [single] => simp [ofList?]
  | first :: second :: rest => simp [ofList?]

/-- Unknown classes gathered into one failure are its causes. -/
theorem causes_ofList? {names : List String} {failure : ResolutionFailure}
    (hfailure : ofList? (names.map fun name => unresolvedType (.object name)) = some failure) :
    failure.causes = names.map fun name => unresolvedType (.object name) := by
  match names with
  | [] => cases hfailure
  | [single] =>
      cases hfailure
      simp [causes]
  | first :: second :: rest =>
      cases hfailure
      simp [causes, List.flatMap_map, ← List.map_eq_flatMap]

end ResolutionFailure

namespace ClassPath

open Relation (ReflTransGen)

variable {path : ClassPath} {method found : Method} {name owner : String}

/-- There is a class of this name, with a method that agrees with the given one. -/
def Declares (path : ClassPath) (name : String) (method : Method) : Prop :=
  ∃ definition, path.find? name = some definition ∧
    ∃ declared ∈ definition.methods, declared.Agrees method

/-- What the class of a name declares of a method. -/
def declared? (path : ClassPath) (method : Method) (name : String) : Option Method :=
  (path.find? name).bind fun definition => definition.declaration? method

theorem declared?_eq_some_iff :
    path.declared? method name = some found ↔
      ∃ definition, path.find? name = some definition ∧ definition.FirstMatch method found := by
  simp only [declared?, Option.bind_eq_some_iff, ClassDeclaration.declaration?_eq_some_iff]

theorem declared?_eq_none_iff :
    path.declared? method name = none ↔ ¬ path.Declares name method := by
  rw [declared?, Declares]
  cases path.find? name with
  | none => simp
  | some definition =>
      simp [ClassDeclaration.declaration?, Method.sameSignature_iff]

theorem exists_declared?_iff :
    (∃ found, path.declared? method name = some found) ↔ path.Declares name method := by
  rw [← Option.ne_none_iff_exists', Ne, declared?_eq_none_iff, Classical.not_not]

/-- The class of this name, so many edges above the owner, has the nearest
declaration of a method: no class at fewer edges declares it, nor one that comes
before at as many. -/
structure NearestAt (path : ClassPath) (owner : String) (method found : Method) (edges : Nat)
    (name : String) : Prop where
  declares : ∃ definition, path.find? name = some definition ∧ definition.FirstMatch method found
  first : ∃ earlier later, path.level owner edges = earlier ++ name :: later ∧
    ∀ other ∈ earlier, ¬ path.Declares other method
  nearest : ∀ fewer < edges, ∀ other ∈ path.level owner fewer, ¬ path.Declares other method

theorem Declares.of_firstMatch {definition : ClassDeclaration}
    (hdefinition : path.find? name = some definition)
    (hmatch : definition.FirstMatch method found) : path.Declares name method := by
  obtain ⟨earlier, later, hmethods, hagrees, -⟩ := hmatch
  exact ⟨definition, hdefinition, found, by simp [hmethods], hagrees⟩

namespace NearestAt

variable {edges : Nat}

theorem declares_method (hnearest : path.NearestAt owner method found edges name) :
    path.Declares name method := by
  obtain ⟨definition, hdefinition, hmatch⟩ := hnearest.declares
  exact .of_firstMatch hdefinition hmatch

theorem mem_level (hnearest : path.NearestAt owner method found edges name) :
    name ∈ path.level owner edges := by
  obtain ⟨earlier, later, hlevel, -⟩ := hnearest.first
  simp [hlevel]

/-- There is one nearest declaration at most. -/
theorem unique {others : Nat} {other : String} {second : Method}
    (hleft : path.NearestAt owner method found edges name)
    (hright : path.NearestAt owner method second others other) :
    edges = others ∧ name = other ∧ found = second := by
  have hedges : edges = others := by
    rcases Nat.lt_trichotomy edges others with hless | hsame | hmore
    · exact absurd hleft.declares_method (hright.nearest edges hless name hleft.mem_level)
    · exact hsame
    · exact absurd hright.declares_method (hleft.nearest others hmore other hright.mem_level)
  subst hedges
  classical
  have hfirst : ∀ {name found}, path.NearestAt owner method found edges name →
      (path.level owner edges).find? (fun other => path.Declares other method) = some name := by
    intro name found hnearest
    obtain ⟨earlier, later, hlevel, hearlier⟩ := hnearest.first
    rw [List.find?_eq_some_iff_append]
    refine ⟨decide_eq_true hnearest.declares_method, earlier, later, hlevel, ?_⟩
    simpa using hearlier
  have hname : name = other := Option.some.inj ((hfirst hleft).symm.trans (hfirst hright))
  subst hname
  have hfound : path.declared? method name = some found := declared?_eq_some_iff.mpr hleft.declares
  rw [declared?_eq_some_iff.mpr hright.declares] at hfound
  exact ⟨rfl, rfl, (Option.some.inj hfound).symm⟩

end NearestAt

theorem exists_nearestAt (hfound : (path.ancestry owner).findSome? (path.declared? method) =
    some found) : ∃ edges name, path.NearestAt owner method found edges name := by
  obtain ⟨edges, earlier, name, later, hlevel, hname, hearlier, hnearer⟩ :=
    exists_level_of_findSome? hfound
  simp only [declared?_eq_none_iff] at hearlier hnearer
  exact ⟨edges, name, declared?_eq_some_iff.mp hname, ⟨earlier, later, hlevel, hearlier⟩, hnearer⟩

theorem exists_findSome?_iff :
    (∃ found, (path.ancestry owner).findSome? (path.declared? method) = some found) ↔
      ∃ name, ReflTransGen path.Extends owner name ∧ path.Declares name method := by
  rw [← Option.ne_none_iff_exists', Ne, List.findSome?_eq_none_iff]
  simp only [declared?_eq_none_iff, mem_ancestry]
  simp

/-- The nearest declaration is the first along the ancestry. -/
theorem findSome?_eq_some_iff :
    (path.ancestry owner).findSome? (path.declared? method) = some found ↔
      ∃ edges name, path.NearestAt owner method found edges name := by
  refine ⟨exists_nearestAt, ?_⟩
  rintro ⟨edges, name, hnearest⟩
  have hreach := exists_mem_level_iff.mp ⟨edges, hnearest.mem_level⟩
  obtain ⟨first, hfirst⟩ := exists_findSome?_iff.mpr ⟨name, hreach, hnearest.declares_method⟩
  obtain ⟨fewer, other, hother⟩ := exists_nearestAt hfirst
  rw [hfirst, (hnearest.unique hother).2.2]

/-- Only classes are searched, and from the owner on unless a constructor is asked
for. -/
theorem declaration?_of_owner (howner : method.owner = .object owner) :
    path.declaration? method =
      if method.isConstructor then path.declared? method owner
      else (path.ancestry owner).findSome? (path.declared? method) := by
  simp only [declaration?, howner]
  rfl

theorem exists_owner_of_declaration? (hfound : path.declaration? method = some found) :
    ∃ owner, method.owner = .object owner := by
  rw [declaration?] at hfound
  split at hfound
  · next owner howner => exact ⟨owner, howner⟩
  · cases hfound

theorem declaration?_eq_some_iff :
    path.declaration? method = some found ↔
      ∃ owner, method.owner = .object owner ∧
        (if method.isConstructor then path.declared? method owner
          else (path.ancestry owner).findSome? (path.declared? method)) = some found := by
  constructor
  · intro hfound
    obtain ⟨owner, howner⟩ := exists_owner_of_declaration? hfound
    exact ⟨owner, howner, declaration?_of_owner howner ▸ hfound⟩
  · rintro ⟨owner, howner, hfound⟩
    rw [declaration?_of_owner howner, hfound]

/-- A constructor has a declaration exactly if its own class declares it. -/
theorem exists_declaration?_of_constructor (hconstructor : method.isConstructor = true) :
    (∃ found, path.declaration? method = some found) ↔
      ∃ owner, method.owner = .object owner ∧ path.Declares owner method := by
  simp only [declaration?_eq_some_iff, hconstructor, if_true]
  rw [exists_comm]
  simp only [exists_and_left, exists_declared?_iff]

/-- Any other method has one exactly if a class that the owner reaches declares it. -/
theorem exists_declaration?_of_inherited (hinherited : method.isConstructor = false) :
    (∃ found, path.declaration? method = some found) ↔
      ∃ owner name, method.owner = .object owner ∧
        ReflTransGen path.Extends owner name ∧ path.Declares name method := by
  simp only [declaration?_eq_some_iff, hinherited, Bool.false_eq_true, if_false]
  rw [exists_comm]
  simp only [exists_and_left, exists_findSome?_iff]

theorem filterMap_unknown? (types : List JavaType) :
    types.filterMap path.unknown? =
      ((types.filterMap JavaType.innermostClass?).filter fun name => ¬ path.Registered name).map
        fun name => .unresolvedType (.object name) := by
  induction types with
  | nil => rfl
  | cons first rest ih =>
      cases hinner : first.innermostClass? with
      | none =>
          have hknown : path.Known first := by simp [Known, hinner]
          rw [List.filterMap_cons_none (unknown?_of_known hknown),
            List.filterMap_cons_none hinner, ih]
      | some name =>
          rw [List.filterMap_cons_some hinner]
          by_cases hname : path.Registered name
          · have hknown : path.Known first := by simpa [Known, hinner] using hname
            rw [List.filterMap_cons_none (unknown?_of_known hknown), ih]
            simp [hname]
          · rw [List.filterMap_cons_some (unknown?_of_not_registered hinner hname), ih]
            simp [hname]

/-- Unknown types are reported all together, before the method is looked for. -/
theorem locate_of_not_known (hunknown : ∃ type ∈ method.types, ¬ path.Known type) :
    ∃ failure, path.locate method = .error failure ∧
      failure.causes =
        ((method.types.filterMap JavaType.innermostClass?).filter
          fun name => ¬ path.Registered name).map fun name => .unresolvedType (.object name) := by
  cases hgathered : ResolutionFailure.ofList? (method.types.filterMap path.unknown?) with
  | none =>
      obtain ⟨type, htype, hmissing⟩ := hunknown
      simp only [Known, Classical.not_forall] at hmissing
      obtain ⟨name, hinner, hname⟩ := hmissing
      have hnone := List.filterMap_eq_nil_iff.mp
        (ResolutionFailure.ofList?_eq_none_iff.mp hgathered) type htype
      simp [unknown?_of_not_registered hinner hname] at hnone
  | some failure =>
      refine ⟨failure, ?_, ?_⟩
      · rw [Method.types] at hgathered
        simp only [locate, hgathered]
      · rw [filterMap_unknown?] at hgathered
        exact ResolutionFailure.causes_ofList? hgathered

theorem locate_of_known (hknown : ∀ type ∈ method.types, path.Known type) :
    (∀ found, path.declaration? method = some found → path.locate method = .ok found.flags) ∧
      (path.declaration? method = none →
        path.locate method = .error (.unresolvedMethod method.text)) := by
  have hnone : method.types.filterMap path.unknown? = [] :=
    List.filterMap_eq_nil_iff.mpr fun type htype => unknown?_of_known (hknown type htype)
  rw [Method.types] at hnone
  constructor
  · intro found hfound
    simp only [locate, hnone, ResolutionFailure.ofList?, hfound]
  · intro hundeclared
    simp only [locate, hnone, ResolutionFailure.ofList?, hundeclared]

theorem locate_eq_ok_iff (hknown : ∀ type ∈ method.types, path.Known type) {flags : MethodFlags} :
    path.locate method = .ok flags ↔
      ∃ found, path.declaration? method = some found ∧ found.flags = flags := by
  obtain ⟨hdeclared, hundeclared⟩ := locate_of_known hknown
  cases hfound : path.declaration? method with
  | none => simp [hundeclared hfound]
  | some found => simp [hdeclared found hfound]

theorem exists_locate_iff (hknown : ∀ type ∈ method.types, path.Known type) :
    (∃ flags, path.locate method = .ok flags) ↔
      ∃ found, path.declaration? method = some found := by
  simp only [locate_eq_ok_iff hknown]
  rw [exists_comm]
  simp

end ClassPath

open Relation (ReflTransGen)

/-- Resolving a method.  Types that are not there are all reported, one failure for
each occurrence.  Otherwise a constructor is found exactly if its own class declares
it, and any other method exactly if a class that the owner reaches does.  The flags
are those of the nearest declaration, and a worklist from the owner that stops at
the first declaration ends there.  A method that is not found is reported. -/
theorem methods_resolve_to_nearest_declaration (path : ClassPath) (method : Method) :
    ((∃ type ∈ method.types, ¬ path.Known type) →
      ∃ failure, path.locate method = .error failure ∧
        failure.causes =
          ((method.types.filterMap JavaType.innermostClass?).filter
            fun name => ¬ path.Registered name).map fun name => .unresolvedType (.object name)) ∧
      ((∀ type ∈ method.types, path.Known type) →
        (method.isConstructor = true →
          ((∃ flags, path.locate method = .ok flags) ↔
            ∃ owner, method.owner = .object owner ∧ path.Declares owner method) ∧
          ∀ flags, path.locate method = .ok flags ↔
            ∃ owner definition found, method.owner = .object owner ∧
              path.find? owner = some definition ∧ definition.FirstMatch method found ∧
              found.flags = flags) ∧
        (method.isConstructor = false →
          ((∃ flags, path.locate method = .ok flags) ↔
            ∃ owner name, method.owner = .object owner ∧
              ReflTransGen path.Extends owner name ∧ path.Declares name method) ∧
          ∀ flags, path.locate method = .ok flags ↔
            ∃ owner edges name found, method.owner = .object owner ∧
              path.NearestAt owner method found edges name ∧ found.flags = flags) ∧
        ((¬ ∃ flags, path.locate method = .ok flags) →
          path.locate method = .error (.unresolvedMethod method.text))) ∧
      ∀ owner, method.owner = .object owner → method.isConstructor = false →
        ∀ found, path.Explores (path.declared? method) [] [owner] found ↔
          found = path.declaration? method := by
  refine ⟨ClassPath.locate_of_not_known, ?_, ?_⟩
  · intro hknown
    rw [ClassPath.exists_locate_iff hknown]
    refine ⟨?_, ?_, ?_⟩
    · intro hconstructor
      refine ⟨ClassPath.exists_declaration?_of_constructor hconstructor, ?_⟩
      intro flags
      rw [ClassPath.locate_eq_ok_iff hknown]
      simp only [ClassPath.declaration?_eq_some_iff, if_pos hconstructor,
        ClassPath.declared?_eq_some_iff]
      constructor
      · rintro ⟨found, ⟨owner, howner, definition, hdefinition, hmatch⟩, hsame⟩
        exact ⟨owner, definition, found, howner, hdefinition, hmatch, hsame⟩
      · rintro ⟨owner, definition, found, howner, hdefinition, hmatch, hsame⟩
        exact ⟨found, ⟨owner, howner, definition, hdefinition, hmatch⟩, hsame⟩
    · intro hinherited
      refine ⟨ClassPath.exists_declaration?_of_inherited hinherited, ?_⟩
      intro flags
      rw [ClassPath.locate_eq_ok_iff hknown]
      simp only [ClassPath.declaration?_eq_some_iff, hinherited, Bool.false_eq_true, if_false,
        ClassPath.findSome?_eq_some_iff]
      constructor
      · rintro ⟨found, ⟨owner, howner, edges, name, hnearest⟩, hsame⟩
        exact ⟨owner, edges, name, found, howner, hnearest, hsame⟩
      · rintro ⟨owner, edges, name, found, howner, hnearest, hsame⟩
        exact ⟨found, ⟨owner, howner, edges, name, hnearest⟩, hsame⟩
    · intro hundeclared
      apply (ClassPath.locate_of_known hknown).2
      exact Option.eq_none_iff_forall_ne_some.mpr (not_exists.mp hundeclared)
  · intro owner howner hinherited found
    rw [ClassPath.explores_iff, ClassPath.declaration?_of_owner howner,
      if_neg (by simp [hinherited])]

namespace Sample

/-- A class whose superclass and interface declare the same method.  Only the
superclass has a constructor. -/
def familyPath : ClassPath :=
  ((ClassPath.root.add
    { ClassDeclaration.ofClass "foo.Child" with
      superclass := some "foo.Parent"
      interfaces := ["foo.Runner"] }).add
    (((ClassDeclaration.ofClass "foo.Parent").declareConstructor []).declare
      "run" [] .void true)).add
    ((ClassDeclaration.ofInterface "foo.Runner").declare "run" [] .void false)

def childRun : Method where
  owner := .object "foo.Child"
  name := "run"
  params := []
  returnType := .void

def childConstructor : Method := .constructor (.object "foo.Child") []

/-- A method with types that are not there. -/
def lostMethod : Method where
  owner := .object "foo.Lost"
  name := "run"
  params := [.array (.array (.object "foo.Gone")), .array .int, .object "foo.Child"]
  returnType := .object "foo.Lost"

end Sample

/-- The declaration of the superclass is taken before that of the interface, and a
constructor is not inherited.  Classes that are not there are named once for each
occurrence, also inside arrays. -/
theorem family_methods_located :
    Sample.familyPath.locate Sample.childRun = .ok { isStatic := true, isPublic := true } ∧
      Sample.familyPath.locate Sample.childConstructor =
        .error (.unresolvedMethod "void foo.Child.<init>()") ∧
      ∃ failure, Sample.familyPath.locate Sample.lostMethod = .error failure ∧
        failure.causes = [.unresolvedType (.object "foo.Lost"), .unresolvedType (.object "foo.Gone"),
          .unresolvedType (.object "foo.Lost")] := by
  have hrun : ¬ Sample.familyPath.Declares "foo.Child" Sample.childRun :=
    ClassPath.declared?_eq_none_iff.mp rfl
  have hconstructor : ¬ Sample.familyPath.Declares "foo.Child" Sample.childConstructor :=
    ClassPath.declared?_eq_none_iff.mp rfl
  refine ⟨?_, ?_, ?_⟩
  · have hnearest : Sample.familyPath.NearestAt "foo.Child" Sample.childRun
        { Sample.childRun with
          owner := .object "foo.Parent"
          flags := { isStatic := true, isPublic := true } } 1 "foo.Parent" := by
      refine ⟨⟨_, rfl, [_], [], rfl, ⟨rfl, rfl, rfl⟩, by decide +kernel⟩,
        ⟨[], ["foo.Runner"], rfl, List.forall_mem_nil _⟩, ?_⟩
      intro fewer hfewer other hother
      obtain rfl := Nat.lt_one_iff.mp hfewer
      rw [List.mem_singleton.mp hother]
      exact hrun
    obtain ⟨-, hknown, -⟩ :=
      methods_resolve_to_nearest_declaration Sample.familyPath Sample.childRun
    obtain ⟨-, hinherited, -⟩ := hknown (by decide +kernel)
    exact ((hinherited rfl).2 _).mpr ⟨_, _, _, _, rfl, hnearest, rfl⟩
  · obtain ⟨-, hknown, -⟩ :=
      methods_resolve_to_nearest_declaration Sample.familyPath Sample.childConstructor
    obtain ⟨hown, -, hmissing⟩ := hknown (by decide +kernel)
    apply hmissing
    rw [(hown rfl).1]
    rintro ⟨_, ⟨⟩, hdeclares⟩
    exact hconstructor hdeclares
  · obtain ⟨hunknown, -⟩ :=
      methods_resolve_to_nearest_declaration Sample.familyPath Sample.lostMethod
    obtain ⟨failure, hlocate, hcauses⟩ := hunknown ⟨_, List.mem_cons_self, by decide +kernel⟩
    exact ⟨failure, hlocate, hcauses⟩

end AdviceCompiler
