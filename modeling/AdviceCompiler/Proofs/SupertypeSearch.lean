import AdviceCompiler.Proofs.Ancestry

/-!
# The search for a supertype

A worklist takes names from the front of a queue and asks each for an answer.  The
first answer ends the work; a name without one, met for the first time, puts its
superclass and its interfaces at the end of the queue.  On every class path the work
comes to an end, with the first answer along the ancestry.  In the search for a
supertype the names that answer are the supertype and the classes that are not there,
so each outcome says what can be reached.
-/

namespace AdviceCompiler.ClassPath

open Relation (ReflTransGen)

variable {path : ClassPath} {name target : String} {visited queue names : List String}
variable {α : Type} {ask : String → Option α}

/-- A worklist that ends with an answer, or with `none` where the queue runs
empty. -/
inductive Explores (path : ClassPath) (ask : String → Option α) :
    List String → List String → Option α → Prop
  | exhausted {visited : List String} : Explores path ask visited [] none
  | settled {visited rest : List String} {name : String} {answer : α}
      (hask : ask name = some answer) : Explores path ask visited (name :: rest) (some answer)
  | again {visited rest : List String} {name : String} {answer : Option α}
      (hask : ask name = none) (hseen : name ∈ visited)
      (hrest : Explores path ask visited rest answer) :
      Explores path ask visited (name :: rest) answer
  | onward {visited rest : List String} {name : String} {answer : Option α}
      (hask : ask name = none) (hfresh : name ∉ visited)
      (hrest : Explores path ask (visited ++ [name]) (rest ++ path.parents name) answer) :
      Explores path ask visited (name :: rest) answer

/-- The worklist ends with the first answer of a full visit, if none of the names
visited before has one. -/
theorem explores_visit (hvisited : ∀ name ∈ visited, ask name = none) :
    path.Explores ask visited queue ((path.visit visited queue).findSome? ask) := by
  fun_induction visit path visited queue with
  | case1 visited =>
      rw [List.findSome?_eq_none_iff.mpr hvisited]
      exact .exhausted
  | case2 visited first rest hseen ih =>
      exact .again (hvisited first hseen) hseen (ih hvisited)
  | case3 visited first rest hfresh ih =>
      cases hask : ask first with
      | none =>
          refine .onward hask hfresh (ih ?_)
          exact List.forall_mem_append.mpr ⟨hvisited, List.forall_mem_singleton.mpr hask⟩
      | some answer =>
          -- What the visit would meet later has no part in the answer.
          have hprefix : visited ++ [first] <+:
              path.visit (visited ++ [first]) (rest ++ path.supertypes first) := prefix_visit
          obtain ⟨later, hlater⟩ := hprefix
          rw [← hlater, List.findSome?_append, List.findSome?_append,
            List.findSome?_eq_none_iff.mpr hvisited, List.findSome?_singleton, hask]
          exact .settled hask

theorem Explores.unique {left right : Option α} (hleft : path.Explores ask visited queue left)
    (hright : path.Explores ask visited queue right) : left = right := by
  induction hleft with
  | exhausted =>
      cases hright
      rfl
  | settled hask =>
      cases hright with
      | settled hother => exact hask.symm.trans hother
      | again hnone => simp [hask] at hnone
      | onward hnone => simp [hask] at hnone
  | again hask hseen _ ih =>
      cases hright with
      | settled hother => simp [hask] at hother
      | again _ _ hrest => exact ih hrest
      | onward _ hfresh => exact absurd hseen hfresh
  | onward hask hfresh _ ih =>
      cases hright with
      | settled hother => simp [hask] at hother
      | again _ hseen => exact absurd hseen hfresh
      | onward _ _ hrest => exact ih hrest

/-- The worklist from one name ends, with the first answer along its ancestry. -/
theorem explores_iff {answer : Option α} :
    path.Explores ask [] [name] answer ↔ answer = (path.ancestry name).findSome? ask := by
  have hvisit : path.Explores ask [] [name] ((path.ancestry name).findSome? ask) :=
    explores_visit (List.forall_mem_nil _)
  constructor
  · intro hexplores
    exact hexplores.unique hvisit
  · rintro rfl
    exact hvisit

/-- What a name tells the search: the target ends it, and so does a class that is
not there. -/
def verdict? (path : ClassPath) (target name : String) :
    Option (Except ResolutionFailure Bool) :=
  if name = target then some (.ok true)
  else if path.Registered name then none
  else some (.error (.unresolvedType (.object name)))

theorem verdict?_eq_none_iff :
    path.verdict? target name = none ↔ name ≠ target ∧ path.Registered name := by
  rw [verdict?]
  by_cases hsame : name = target
  · simp [hsame]
  · by_cases hname : path.Registered name
    · simp [hsame, hname]
    · simp [hsame, hname]

theorem verdict?_eq_some {verdict : Except ResolutionFailure Bool}
    (hverdict : path.verdict? target name = some verdict) :
    name = target ∧ verdict = .ok true ∨
      ¬ path.Registered name ∧ verdict = .error (.unresolvedType (.object name)) := by
  rw [verdict?] at hverdict
  split at hverdict
  · next hsame => exact .inl ⟨hsame, (Option.some.inj hverdict).symm⟩
  · split at hverdict
    · cases hverdict
    · next hname => exact .inr ⟨hname, (Option.some.inj hverdict).symm⟩

theorem reaches_eq_findSome? :
    path.reaches target names = (names.findSome? (path.verdict? target)).getD (.ok false) := by
  induction names with
  | nil => rfl
  | cons first rest ih =>
      rw [reaches, List.findSome?_cons, verdict?]
      by_cases hsame : first = target
      · simp [hsame]
      · by_cases hfirst : path.Registered first
        · obtain ⟨definition, hlookup⟩ := lookup_of_registered hfirst
          simp [hsame, hfirst, hlookup, ih]
        · simp [hsame, hfirst, lookup_of_not_registered hfirst]

/-- The search ends in one of three ways, each with its own reason. -/
theorem inherits_cases (path : ClassPath) (name target : String) :
    (path.inherits name target = .ok true ∧ ReflTransGen path.Extends name target) ∨
      (∃ missing, path.inherits name target = .error (.unresolvedType (.object missing)) ∧
        ReflTransGen path.Extends name missing ∧ ¬ path.Registered missing) ∨
      (path.inherits name target = .ok false ∧
        ∀ other, ReflTransGen path.Extends name other →
          other ≠ target ∧ path.Registered other) := by
  rw [inherits, reaches_eq_findSome?]
  cases hfirst : (path.ancestry name).findSome? (path.verdict? target) with
  | none =>
      refine .inr (.inr ⟨rfl, ?_⟩)
      intro other hreach
      have hmem : other ∈ path.ancestry name := mem_ancestry.mpr hreach
      exact verdict?_eq_none_iff.mp (List.findSome?_eq_none_iff.mp hfirst other hmem)
  | some verdict =>
      obtain ⟨speaker, hmem, hspeaks⟩ := List.exists_of_findSome?_eq_some hfirst
      have hreach : ReflTransGen path.Extends name speaker := mem_ancestry.mp hmem
      obtain ⟨rfl, rfl⟩ | ⟨hmissing, rfl⟩ := verdict?_eq_some hspeaks
      · exact .inl ⟨rfl, hreach⟩
      · exact .inr (.inl ⟨speaker, rfl, hreach, hmissing⟩)

end AdviceCompiler.ClassPath

namespace AdviceCompiler

open Relation (ReflTransGen)

/-- On every class path, cyclic and incomplete ones included, the worklist of the
search ends with one answer.  It is positive only for what can be reached, negative
only where all that can be reached is there and the target is not part of it, and a
failure only over a name that can be reached and is not there.  Where all names are
there, it decides. -/
theorem supertype_search_exact (path : ClassPath) (name target : String) :
    (∃ verdict, path.inherits name target = verdict.getD (.ok false) ∧
      ∀ other, path.Explores (path.verdict? target) [] [name] other ↔ other = verdict) ∧
      (path.inherits name target = .ok true → ReflTransGen path.Extends name target) ∧
      (path.inherits name target = .ok false →
        ¬ ReflTransGen path.Extends name target ∧
          ∀ other, ReflTransGen path.Extends name other → path.Registered other) ∧
      (∀ failure, path.inherits name target = .error failure →
        ∃ missing, failure = .unresolvedType (.object missing) ∧
          ReflTransGen path.Extends name missing ∧ ¬ path.Registered missing) ∧
      ((∀ other, ReflTransGen path.Extends name other → path.Registered other) →
        ∃ answer, path.inherits name target = .ok answer ∧
          (answer = true ↔ ReflTransGen path.Extends name target)) := by
  refine ⟨⟨_, ClassPath.reaches_eq_findSome?, fun _ => ClassPath.explores_iff⟩, ?_⟩
  obtain ⟨htrue, hreach⟩ | ⟨missing, herror, hreach, hmissing⟩ | ⟨hfalse, hall⟩ :=
    path.inherits_cases name target
  · simp [htrue, hreach]
  · have hincomplete : ¬ ∀ other, ReflTransGen path.Extends name other → path.Registered other :=
      fun hcomplete => hmissing (hcomplete missing hreach)
    simpa [herror, hincomplete] using ⟨hreach, hmissing⟩
  · have hunreached : ¬ ReflTransGen path.Extends name target :=
      fun hreach => (hall target hreach).1 rfl
    have hcomplete : ∀ other, ReflTransGen path.Extends name other → path.Registered other :=
      fun other hreach => (hall other hreach).2
    simp only [hfalse, hunreached]
    simpa using hcomplete

namespace Sample

/-- Two classes that extend each other, and an interface of one of them that extends
an interface which is not there. -/
def brokenPath : ClassPath :=
  ((ClassPath.root.add
    { ClassDeclaration.ofClass "foo.Pet" with superclass := some "foo.Cat" }).add
    { ClassDeclaration.ofClass "foo.Cat" with
      superclass := some "foo.Pet"
      interfaces := ["foo.Hunter"] }).add
    { ClassDeclaration.ofInterface "foo.Hunter" with interfaces := ["foo.Gone"] }

end Sample

/-- A supertype is found through a superclass and an interface.  A search that has to
go on meets the interface that is not there, and one from the root class has nowhere
to go. -/
theorem broken_hierarchy_searched :
    Sample.brokenPath.inherits "foo.Pet" "foo.Hunter" = .ok true ∧
      ReflTransGen Sample.brokenPath.Extends "foo.Pet" "foo.Hunter" ∧
      Sample.brokenPath.inherits "foo.Pet" JavaType.rootClass =
        .error (.unresolvedType (.object "foo.Gone")) ∧
      ReflTransGen Sample.brokenPath.Extends "foo.Pet" "foo.Gone" ∧
      ¬ Sample.brokenPath.Registered "foo.Gone" ∧
      Sample.brokenPath.inherits JavaType.rootClass "foo.Pet" = .ok false ∧
      ¬ ReflTransGen Sample.brokenPath.Extends JavaType.rootClass "foo.Pet" := by
  have hpet : Sample.brokenPath.ancestry "foo.Pet" =
      ["foo.Pet", "foo.Cat", "foo.Hunter", "foo.Gone"] := by
    decide +kernel
  have hroot : Sample.brokenPath.ancestry JavaType.rootClass = [JavaType.rootClass] := by
    decide +kernel
  have hfound : Sample.brokenPath.inherits "foo.Pet" "foo.Hunter" = .ok true := by
    rw [ClassPath.inherits, hpet]
    rfl
  have hmissing : Sample.brokenPath.inherits "foo.Pet" JavaType.rootClass =
      .error (.unresolvedType (.object "foo.Gone")) := by
    rw [ClassPath.inherits, hpet]
    rfl
  have hnone : Sample.brokenPath.inherits JavaType.rootClass "foo.Pet" = .ok false := by
    rw [ClassPath.inherits, hroot]
    rfl
  obtain ⟨-, hpositive, -⟩ := supertype_search_exact Sample.brokenPath "foo.Pet" "foo.Hunter"
  obtain ⟨-, -, -, hfailure, -⟩ :=
    supertype_search_exact Sample.brokenPath "foo.Pet" JavaType.rootClass
  obtain ⟨-, -, hnegative, -⟩ :=
    supertype_search_exact Sample.brokenPath JavaType.rootClass "foo.Pet"
  obtain ⟨_, ⟨⟩, hreach, hgone⟩ := hfailure _ hmissing
  exact ⟨hfound, hpositive hfound, hmissing, hreach, hgone, hnone, (hnegative hnone).1⟩

end AdviceCompiler
