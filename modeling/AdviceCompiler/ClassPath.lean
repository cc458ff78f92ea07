import AdviceCompiler.Resolution

/-!
# Class paths

A class path holds the known classes and interfaces by name.  The names
reachable through supertypes are visited breadth first, the superclass of a
class before its interfaces; hierarchies may be cyclic and may name classes that
are not there.
-/

namespace AdviceCompiler

structure ClassDeclaration where
  name : String
  isInterface : Bool
  superclass : Option String
  interfaces : List String
  methods : List Method
  deriving DecidableEq

namespace ClassDeclaration

/-- A class without interfaces and methods. -/
def ofClass (name : String) : ClassDeclaration :=
  { name, isInterface := false, superclass := some JavaType.rootClass, interfaces := [],
    methods := [] }

/-- An interface without superinterfaces and methods. -/
def ofInterface (name : String) : ClassDeclaration :=
  { name, isInterface := true, superclass := none, interfaces := [], methods := [] }

def addMethod (definition : ClassDeclaration) (method : Method) : ClassDeclaration :=
  { definition with methods := definition.methods ++ [method] }

/-- Declares a public method of the class itself. -/
def declare (definition : ClassDeclaration) (name : String) (params : List JavaType)
    (returnType : JavaType) (isStatic : Bool) : ClassDeclaration :=
  definition.addMethod
    { owner := .object definition.name, name, params, returnType,
      flags := { isStatic, isPublic := true } }

/-- Declares a public constructor. -/
def declareConstructor (definition : ClassDeclaration) (params : List JavaType) :
    ClassDeclaration :=
  definition.addMethod
    { Method.constructor (.object definition.name) params with flags := { isPublic := true } }

/-- The superclass, then the interfaces. -/
def supertypes (definition : ClassDeclaration) : List String :=
  definition.superclass.toList ++ definition.interfaces

/-- The first declaration with the signature of `method`. -/
def declaration? (definition : ClassDeclaration) (method : Method) : Option Method :=
  definition.methods.find? fun candidate => candidate.sameSignature method

/-- The number of names a class adds to a visit that has not met it yet. -/
def pending (definition : ClassDeclaration) (visited : List String) : Nat :=
  if definition.name ∈ visited then 0 else definition.supertypes.length

theorem pending_append_le (definition : ClassDeclaration) (visited : List String)
    (name : String) :
    definition.pending (visited ++ [name]) ≤ definition.pending visited := by
  unfold pending
  by_cases hvisited : definition.name ∈ visited
  · simp [hvisited]
  · split <;> simp

theorem pending_append_self (definition : ClassDeclaration) (visited : List String) :
    definition.pending (visited ++ [definition.name]) = 0 := by
  simp [pending]

theorem pending_of_not_mem {definition : ClassDeclaration} {visited : List String}
    (hfresh : definition.name ∉ visited) :
    definition.pending visited = definition.supertypes.length := by
  simp [pending, hfresh]

end ClassDeclaration

/-- The known classes, at most one of each name. -/
structure ClassPath where
  classes : List ClassDeclaration
  deriving DecidableEq

namespace ClassPath

/-- The class path that knows the root class alone. -/
def root : ClassPath :=
  ⟨[{ ClassDeclaration.ofClass JavaType.rootClass with superclass := none }]⟩

/-- Adds a class in place of any other of its name. -/
def add (path : ClassPath) (definition : ClassDeclaration) : ClassPath :=
  ⟨definition :: path.classes.filter fun other => other.name ≠ definition.name⟩

/-- The class of this name. -/
def find? (path : ClassPath) (name : String) : Option ClassDeclaration :=
  path.classes.find? fun definition => definition.name = name

/-- The class of this name, or the error that it is unknown. -/
def lookup (path : ClassPath) (name : String) : Except ResolutionFailure ClassDeclaration :=
  match path.find? name with
  | some definition => .ok definition
  | none => .error (.unresolvedType (.object name))

/-- The supertypes of a known class; an unknown one has none. -/
def supertypes (path : ClassPath) (name : String) : List String :=
  match path.find? name with
  | some definition => definition.supertypes
  | none => []

/-- The number of names that classes can still add to a visit. -/
def pendingOf (visited : List String) : List ClassDeclaration → Nat
  | [] => 0
  | definition :: rest => definition.pending visited + pendingOf visited rest

/-- The number of names the class path can still add to a visit. -/
def pending (path : ClassPath) (visited : List String) : Nat :=
  pendingOf visited path.classes

theorem pendingOf_append_le (classes : List ClassDeclaration) (visited : List String)
    (name : String) : pendingOf (visited ++ [name]) classes ≤ pendingOf visited classes := by
  induction classes with
  | nil => simp [pendingOf]
  | cons head tail ih =>
      have hhead := head.pending_append_le visited name
      simp only [pendingOf]
      omega

/-- Meeting a class takes its supertypes off the sum, so their addition to the
queue is paid for. -/
theorem pendingOf_add_le {classes : List ClassDeclaration} {visited : List String}
    {name : String} (hfresh : name ∉ visited) {definition : ClassDeclaration}
    (hfound : classes.find? (fun other => other.name = name) = some definition) :
    pendingOf (visited ++ [name]) classes + definition.supertypes.length ≤
      pendingOf visited classes := by
  induction classes with
  | nil => simp at hfound
  | cons head tail ih =>
      simp only [pendingOf]
      by_cases hname : head.name = name
      · have hhead : head = definition := by simpa [hname] using hfound
        subst hhead hname
        have hrest := pendingOf_append_le tail visited head.name
        rw [head.pending_append_self, ClassDeclaration.pending_of_not_mem hfresh]
        omega
      · have hrest := ih (by simpa [hname] using hfound)
        have hhead := head.pending_append_le visited name
        omega

theorem pending_add_supertypes_le (path : ClassPath) {visited : List String} {name : String}
    (hfresh : name ∉ visited) :
    path.pending (visited ++ [name]) + (path.supertypes name).length ≤
      path.pending visited := by
  unfold pending supertypes find?
  split
  · next definition hfound => exact pendingOf_add_le hfresh hfound
  · exact pendingOf_append_le path.classes visited name

/-- Visits the queued names and all names reachable from them, each once, and
gives them in the order of the visit. -/
def visit (path : ClassPath) (visited queue : List String) : List String :=
  match queue with
  | [] => visited
  | name :: rest =>
      if _hseen : name ∈ visited then path.visit visited rest
      else path.visit (visited ++ [name]) (rest ++ path.supertypes name)
termination_by path.pending visited + queue.length
decreasing_by
  · simp
  · have := path.pending_add_supertypes_le _hseen
    simp only [List.length_append, List.length_cons]
    omega

/-- A class name and the names of all its supertypes, nearest first. -/
def ancestry (path : ClassPath) (name : String) : List String :=
  path.visit [] [name]

/-- Finds `target` among the names, and stops at an unknown class before it. -/
def reaches (path : ClassPath) (target : String) :
    List String → Except ResolutionFailure Bool
  | [] => .ok false
  | name :: rest =>
      if name = target then .ok true
      else
        match path.lookup name with
        | .ok _ => path.reaches target rest
        | .error failure => .error failure

/-- Whether a class is `target` or has it among its supertypes. -/
def inherits (path : ClassPath) (name target : String) : Except ResolutionFailure Bool :=
  path.reaches target (path.ancestry name)

/-- The error of a type whose innermost class is unknown. -/
def unknown? (path : ClassPath) (type : JavaType) : Option ResolutionFailure :=
  match type.base with
  | .object name =>
      match path.lookup name with
      | .ok _ => none
      | .error failure => some failure
  | _ => none

/-- Fails on a type whose innermost class is unknown. -/
def check (path : ClassPath) (type : JavaType) : Except ResolutionFailure Unit :=
  match path.unknown? type with
  | none => .ok ()
  | some failure => .error failure

/-- The declaration a call to `method` runs.  Constructors are not inherited;
any other method is taken from the nearest class that declares it. -/
def declaration? (path : ClassPath) (method : Method) : Option Method :=
  match method.owner with
  | .object owner =>
      if method.isConstructor then
        (path.find? owner).bind fun definition => definition.declaration? method
      else
        (path.ancestry owner).findSome? fun name =>
          (path.find? name).bind fun definition => definition.declaration? method
  | _ => none

/-- Whether a type is an interface, and how many methods it declares. -/
def describeType (path : ClassPath) : JavaType → Except ResolutionFailure TypeSummary
  | .object name =>
      match path.lookup name with
      | .ok definition => .ok ⟨definition.isInterface, definition.methods.length⟩
      | .error failure => .error failure
  | .array element =>
      match path.check (.array element) with
      | .ok _ => .ok ⟨false, 0⟩
      | .error failure => .error failure
  | _ => .ok ⟨false, 0⟩

/-- The flags of the declaration that a method stands for.  All its types have
to be known first. -/
def locate (path : ClassPath) (method : Method) : Except ResolutionFailure MethodFlags :=
  let types := method.owner :: method.params ++ [method.returnType]
  match ResolutionFailure.ofList? (types.filterMap path.unknown?) with
  | some failure => .error failure
  | none =>
      match path.declaration? method with
      | some found => .ok found.flags
      | none => .error (.unresolvedMethod method.text)

/-- The interfaces of every array. -/
def arrayInterfaces : List String :=
  ["java.lang.Cloneable", "java.io.Serializable"]

/-- Whether a place of the first type accepts values of the second.  Arrays of
references accept arrays of what their elements accept. -/
def accepts (path : ClassPath) : JavaType → JavaType → Except ResolutionFailure Bool
  | target, source =>
      if target = source then (path.check target).map fun _ => true
      else
        match target, source with
        | .object target, .object source =>
            match path.lookup target with
            | .error failure => .error failure
            | .ok _ =>
                if target = JavaType.rootClass then (path.lookup source).map fun _ => true
                else path.inherits source target
        | .object target, .array element =>
            (path.check (.array element)).map fun _ =>
              target = JavaType.rootClass || arrayInterfaces.contains target
        | .array target, .array source =>
            if target.isReference ∧ source.isReference then path.accepts target source
            else .ok false
        | _, _ => .ok false

/-- The class path as a resolver, which never breaks down. -/
def resolver (path : ClassPath) : Resolver where
  describeType := path.describeType
  locate method := .ok (path.locate method)
  accepts target source := .ok (path.accepts target source)

end ClassPath

end AdviceCompiler
