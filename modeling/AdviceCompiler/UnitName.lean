import AdviceCompiler.CallSite
import AdviceCompiler.Text.Uppercase

/-!
# Unit names

A unit is named after the owner of the call site and the advice method.  Advices
of one call site that share a method name are told apart by a number.
-/

namespace AdviceCompiler.UnitName

/-- The indices of the advices with one method name. -/
abbrev Group := String × List Nat

/-- Adds an index to the group of its method name, or to a new last group. -/
def insert (method : String) (index : Nat) : List Group → List Group
  | [] => [(method, [index])]
  | group :: rest =>
      if group.1 = method then (method, group.2 ++ [index]) :: rest
      else group :: insert method index rest

/-- The groups of a list of method names, in order of first appearance. -/
def groups (methods : List String) : List Group :=
  methods.zipIdx.foldl (fun groups (method, index) => insert method index groups) []

/-- The names of a group.  Only a group of several is numbered. -/
def ofGroup (owner : String) (group : Group) : List (Nat × String) :=
  group.2.zipIdx.map fun (index, ordinal) =>
    (index, owner ++ Text.capitalize group.1 ++
      if group.2.length = 1 then "" else toString ordinal)

/-- The index and unit name of every advice, in order of declaration. -/
def ofMethods (owner : String) (methods : List String) : List (Nat × String) :=
  ((groups methods).flatMap (ofGroup owner)).mergeSort fun left right => left.1 ≤ right.1

end AdviceCompiler.UnitName

namespace AdviceCompiler

/-- The index and unit name of every advice, in order of declaration. -/
def CallSite.unitNames (site : CallSite) : List (Nat × String) :=
  UnitName.ofMethods site.owner.text (site.advices.map fun advice => advice.method.name)

end AdviceCompiler
