import AdviceCompiler.Proofs.Ancestry

/-!
# What a class path accepts is subtyping

Whether a place of one type accepts values of another is decided by cases on the two
types.  On a class path that is complete, and on which neither the root class nor
the interfaces of arrays have other supertypes, the answer is the least relation
that has the declared supertypes, the rules on arrays and transitivity.
-/

namespace AdviceCompiler

/-- The class inside all array dimensions, if it is one. -/
def JavaType.innermostClass? : JavaType → Option String
  | .object name => some name
  | .array element => element.innermostClass?
  | _ => none

theorem JavaType.base_eq_object_iff {type : JavaType} {name : String} :
    type.base = .object name ↔ type.innermostClass? = some name := by
  induction type with
  | object other => simp [base, innermostClass?]
  | array element ih => exact ih
  | _ => simp [base, innermostClass?]

namespace ClassPath

open Relation (ReflTransGen)

variable {path : ClassPath}

/-- The innermost type is not a class, or a class that is there. -/
def Known (path : ClassPath) (type : JavaType) : Prop :=
  ∀ name ∈ type.innermostClass?, path.Registered name

instance (path : ClassPath) (type : JavaType) : Decidable (path.Known type) :=
  inferInstanceAs (Decidable (∀ name ∈ type.innermostClass?, path.Registered name))

theorem known_object {name : String} : path.Known (.object name) ↔ path.Registered name := by
  simp [Known, JavaType.innermostClass?]

theorem unknown?_of_known {type : JavaType} (hknown : path.Known type) :
    path.unknown? type = none := by
  rw [unknown?]
  split
  · next name hbase =>
      have hname := hknown name (JavaType.base_eq_object_iff.mp hbase)
      obtain ⟨definition, hlookup⟩ := lookup_of_registered hname
      rw [hlookup]
  · rfl

theorem unknown?_of_not_registered {type : JavaType} {name : String}
    (hinner : type.innermostClass? = some name) (hname : ¬ path.Registered name) :
    path.unknown? type = some (.unresolvedType (.object name)) := by
  simp only [unknown?, JavaType.base_eq_object_iff.mpr hinner, lookup_of_not_registered hname]

theorem check_of_known {type : JavaType} (hknown : path.Known type) : path.check type = .ok () := by
  rw [check, unknown?_of_known hknown]

theorem check_of_not_known {type : JavaType} (hunknown : ¬ path.Known type) :
    ∃ failure, path.check type = .error failure := by
  simp only [Known, Classical.not_forall] at hunknown
  obtain ⟨name, hinner, hname⟩ := hunknown
  exact ⟨_, by rw [check, unknown?_of_not_registered hinner hname]⟩

/-- The class paths that there are: classes added to the root class. -/
inductive Built : ClassPath → Prop
  | root : Built ClassPath.root
  | add {path : ClassPath} (hbuilt : Built path) (definition : ClassDeclaration) :
      Built (path.add definition)

theorem Built.registered_rootClass (hbuilt : path.Built) :
    path.Registered JavaType.rootClass := by
  induction hbuilt with
  | root => exact ⟨_, List.mem_singleton_self _, rfl⟩
  | add _ definition ih =>
      by_cases hname : definition.name = JavaType.rootClass
      · exact ⟨definition, List.mem_cons_self, hname⟩
      · obtain ⟨other, hother, hroot⟩ := ih
        refine ⟨other, List.mem_cons_of_mem _ (List.mem_filter.mpr ⟨hother, ?_⟩), hroot⟩
        exact decide_eq_true (hroot ▸ Ne.symm hname)

/-- Every declared supertype is there, the root class has none, and the interfaces
of arrays have no other than the root class. -/
structure Complete (path : ClassPath) : Prop where
  superclass : ∀ definition ∈ path.classes, ∀ super ∈ definition.superclass,
    path.Registered super
  interfaces : ∀ definition ∈ path.classes, ∀ super ∈ definition.interfaces,
    path.Registered super
  root : ∀ definition ∈ path.classes, definition.name = JavaType.rootClass →
    definition.superclass = none ∧ definition.interfaces = []
  arrays : ∀ definition ∈ path.classes,
    definition.name ∈ ["java.lang.Cloneable", "java.io.Serializable"] →
      (∀ super ∈ definition.superclass, super = JavaType.rootClass) ∧
        ∀ super ∈ definition.interfaces, super = JavaType.rootClass

/-- Declarative subtyping, the least transitive relation by which a known type is
itself, a class is what it declares to be, a known reference is the root class, a
known array is its interfaces, and arrays of references follow their elements. -/
inductive Subtype (path : ClassPath) : JavaType → JavaType → Prop
  | refl {type : JavaType} (hknown : path.Known type) : Subtype path type type
  | declared {name super : String} (hextends : path.Extends name super) :
      Subtype path (.object name) (.object super)
  | root {type : JavaType} (hknown : path.Known type) (hreference : type.isReference = true) :
      Subtype path type (.object JavaType.rootClass)
  | arrayInterface {element : JavaType} {interface : String} (hknown : path.Known (.array element))
      (hinterface : interface ∈ ["java.lang.Cloneable", "java.io.Serializable"]) :
      Subtype path (.array element) (.object interface)
  | covariant {source target : JavaType} (hsource : source.isReference = true)
      (htarget : target.isReference = true) (helement : Subtype path source target) :
      Subtype path (.array source) (.array target)
  | trans {source middle target : JavaType} (hleft : Subtype path source middle)
      (hright : Subtype path middle target) : Subtype path source target

namespace Complete

variable (hcomplete : path.Complete) {name target : String}

include hcomplete

theorem registered_of_reach (hname : path.Registered name)
    (hreach : ReflTransGen path.Extends name target) : path.Registered target := by
  induction hreach with
  | refl => exact hname
  | tail _ hextends _ =>
      obtain ⟨definition, hmem, -, hsuper | hsuper⟩ := exists_declaration_of_extends hextends
      · exact hcomplete.superclass definition hmem _ hsuper
      · exact hcomplete.interfaces definition hmem _ hsuper

theorem eq_of_reach_rootClass (hreach : ReflTransGen path.Extends JavaType.rootClass target) :
    target = JavaType.rootClass := by
  induction hreach with
  | refl => rfl
  | tail _ hextends ih =>
      obtain ⟨definition, hmem, hname, hsuper⟩ := exists_declaration_of_extends hextends
      obtain ⟨hsuperclass, hinterfaces⟩ := hcomplete.root definition hmem (hname.trans ih)
      simp [hsuperclass, hinterfaces] at hsuper

theorem reach_arrayInterface (hinterface : name ∈ arrayInterfaces)
    (hreach : ReflTransGen path.Extends name target) :
    target = name ∨ target = JavaType.rootClass := by
  cases hreach.cases_head with
  | inl hsame => exact Or.inl hsame.symm
  | inr hstep =>
      obtain ⟨super, hextends, hrest⟩ := hstep
      obtain ⟨definition, hmem, hname, hsuper⟩ := exists_declaration_of_extends hextends
      obtain ⟨hsuperclass, hinterfaces⟩ := hcomplete.arrays definition hmem (hname ▸ hinterface)
      have hroot : super = JavaType.rootClass :=
        hsuper.elim (hsuperclass super) (hinterfaces super)
      rw [hroot] at hrest
      exact Or.inr (hcomplete.eq_of_reach_rootClass hrest)

theorem inherits_of_registered (hname : path.Registered name) :
    path.inherits name target = .ok (decide (target ∈ path.ancestry name)) :=
  reaches_of_registered fun _ hmem => hcomplete.registered_of_reach hname (mem_ancestry.mp hmem)

end Complete

theorem check_map_eq_ok_true {type : JavaType} {answer : Bool} :
    (path.check type).map (fun _ => answer) = .ok true ↔ path.Known type ∧ answer = true := by
  by_cases hknown : path.Known type
  · simp [check_of_known hknown, hknown, Except.map]
  · obtain ⟨failure, hfailure⟩ := check_of_not_known hknown
    simp [hfailure, hknown, Except.map]

/-- Subtyping by the shape of the two types, without a rule for transitivity. -/
inductive Checked (path : ClassPath) : JavaType → JavaType → Prop
  | same {type : JavaType} (hknown : path.Known type) : Checked path type type
  | classes {source target : String} (hsource : path.Registered source)
      (htarget : path.Registered target)
      (hreach : target = JavaType.rootClass ∨ ReflTransGen path.Extends source target) :
      Checked path (.object source) (.object target)
  | array {element : JavaType} {target : String} (hknown : path.Known element)
      (htarget : target = JavaType.rootClass ∨ target ∈ arrayInterfaces) :
      Checked path (.array element) (.object target)
  | elements {source target : JavaType} (hsource : source.isReference = true)
      (htarget : target.isReference = true) (helement : Checked path source target) :
      Checked path (.array source) (.array target)

namespace Checked

theorem known_source {source target : JavaType} (hchecked : path.Checked source target) :
    path.Known source := by
  induction hchecked with
  | same hknown => exact hknown
  | classes hsource _ _ => exact known_object.mpr hsource
  | array hknown _ => exact hknown
  | elements _ _ _ ih => exact ih

/-- Two steps lead no further than one, also where they go through an array and its
interfaces. -/
theorem trans (hcomplete : path.Complete) {source middle target : JavaType}
    (hleft : path.Checked source middle) (hright : path.Checked middle target) :
    path.Checked source target := by
  induction hright generalizing source with
  | same _ => exact hleft
  | @classes middle target hmiddle htarget hreach =>
      cases hleft with
      | same _ => exact .classes hmiddle htarget hreach
      | classes hsource _ hbefore =>
          refine .classes hsource htarget ?_
          rcases hreach with hroot | hreach
          · exact Or.inl hroot
          · rcases hbefore with rfl | hbefore
            · exact Or.inl (hcomplete.eq_of_reach_rootClass hreach)
            · exact Or.inr (hbefore.trans hreach)
      | array hknown hbefore =>
          -- What an array is leads to the root class only, which leads nowhere.
          refine .array hknown ?_
          rcases hreach with hroot | hreach
          · exact Or.inl hroot
          · rcases hbefore with rfl | hinterface
            · exact Or.inl (hcomplete.eq_of_reach_rootClass hreach)
            · rcases hcomplete.reach_arrayInterface hinterface hreach with rfl | hroot
              · exact Or.inr hinterface
              · exact Or.inl hroot
  | array hknown htarget =>
      have hsource := hleft.known_source
      cases hleft with
      | same _ => exact .array hknown htarget
      | elements _ _ _ => exact .array hsource htarget
  | elements hmiddle htarget helement ih =>
      cases hleft with
      | same _ => exact .elements hmiddle htarget helement
      | elements hsource _ hbefore => exact .elements hsource htarget (ih hbefore)

end Checked

/-- The answer follows the shape of the two types. -/
theorem accepts_iff_checked (hcomplete : path.Complete) {target source : JavaType} :
    path.accepts target source = .ok true ↔ path.Checked source target := by
  fun_induction accepts path target source with
  | case1 type =>
      rw [check_map_eq_ok_true]
      exact ⟨fun hknown => .same hknown.1, fun hchecked => ⟨hchecked.known_source, rfl⟩⟩
  | case2 target source failure hlookup hdiffer =>
      refine ⟨by simp, ?_⟩
      intro hchecked
      cases hchecked with
      | same _ => exact absurd rfl hdiffer
      | classes _ htarget _ =>
          obtain ⟨definition, hfound⟩ := lookup_of_registered htarget
          cases hfound.symm.trans hlookup
  | case3 source definition hlookup hdiffer =>
      constructor
      · intro hsource
        cases hfound : path.lookup source with
        | error failure => cases hfound ▸ hsource
        | ok found =>
            exact .classes (registered_of_lookup hfound) (registered_of_lookup hlookup)
              (Or.inl rfl)
      · intro hchecked
        obtain ⟨found, hfound⟩ := lookup_of_registered (known_object.mp hchecked.known_source)
        rw [hfound]
        rfl
  | case4 target source definition hlookup hroot hdiffer =>
      have hnames : target ≠ source := fun hsame => hdiffer (congrArg _ hsame)
      constructor
      · intro hinherits
        exact .classes (registered_of_inherits hinherits hnames) (registered_of_lookup hlookup)
          (Or.inr (mem_ancestry.mp (mem_of_reaches hinherits)))
      · intro hchecked
        cases hchecked with
        | same _ => exact absurd rfl hdiffer
        | classes hsource _ hreach =>
            have hmem := mem_ancestry.mpr (hreach.resolve_left hroot)
            rw [hcomplete.inherits_of_registered hsource, decide_eq_true hmem]
  | case5 target element hdiffer =>
      rw [check_map_eq_ok_true]
      constructor
      · rintro ⟨hknown, htarget⟩
        exact .array hknown (by simpa using htarget)
      · intro hchecked
        cases hchecked with
        | array hknown htarget => exact ⟨hknown, by simpa using htarget⟩
  | case6 target source hreferences hdiffer ih =>
      rw [ih]
      constructor
      · exact .elements hreferences.2 hreferences.1
      · intro hchecked
        cases hchecked with
        | same _ => exact absurd rfl hdiffer
        | elements _ _ helement => exact helement
  | case7 target source hreferences hdiffer =>
      refine ⟨by simp, ?_⟩
      intro hchecked
      cases hchecked with
      | same _ => exact absurd rfl hdiffer
      | elements hsource htarget _ => exact absurd ⟨htarget, hsource⟩ hreferences
  | case8 target source hdiffer hclasses harray harrays =>
      refine ⟨by simp, ?_⟩
      intro hchecked
      cases hchecked with
      | same _ => exact absurd rfl hdiffer
      | classes _ _ _ => exact (hclasses _ _ rfl rfl).elim
      | array _ _ => exact (harray _ _ rfl rfl).elim
      | elements _ _ _ => exact (harrays _ _ rfl rfl).elim

/-- Known types are always compared. -/
theorem exists_accepts (hcomplete : path.Complete) {target source : JavaType}
    (htarget : path.Known target) (hsource : path.Known source) :
    ∃ answer, path.accepts target source = .ok answer := by
  fun_induction accepts path target source with
  | case1 type =>
      rw [check_of_known hsource]
      exact ⟨true, rfl⟩
  | case2 target source failure hlookup _ =>
      obtain ⟨definition, hfound⟩ := lookup_of_registered (known_object.mp htarget)
      cases hfound.symm.trans hlookup
  | case3 source definition _ _ =>
      obtain ⟨found, hfound⟩ := lookup_of_registered (known_object.mp hsource)
      rw [hfound]
      exact ⟨true, rfl⟩
  | case4 target source definition _ _ _ =>
      exact ⟨_, hcomplete.inherits_of_registered (known_object.mp hsource)⟩
  | case5 target element _ =>
      rw [check_of_known hsource]
      exact ⟨_, rfl⟩
  | case6 target source _ _ ih => exact ih htarget hsource
  | case7 target source _ _ => exact ⟨false, rfl⟩
  | case8 target source _ _ _ _ => exact ⟨false, rfl⟩

theorem subtype_of_reach {source target : String} (hsource : path.Registered source)
    (hreach : ReflTransGen path.Extends source target) :
    path.Subtype (.object source) (.object target) := by
  induction hreach with
  | refl => exact .refl (known_object.mpr hsource)
  | tail _ hextends ih => exact .trans ih (.declared hextends)

theorem Checked.subtype {source target : JavaType} (hchecked : path.Checked source target) :
    path.Subtype source target := by
  induction hchecked with
  | same hknown => exact .refl hknown
  | classes hsource _ hreach =>
      rcases hreach with rfl | hreach
      · exact .root (known_object.mpr hsource) rfl
      · exact subtype_of_reach hsource hreach
  | array hknown htarget =>
      rcases htarget with rfl | hinterface
      · exact .root hknown rfl
      · exact .arrayInterface hknown hinterface
  | elements hsource htarget _ ih => exact .covariant hsource htarget ih

theorem Subtype.checked (hbuilt : path.Built) (hcomplete : path.Complete)
    {source target : JavaType} (hsubtype : path.Subtype source target) :
    path.Checked source target := by
  induction hsubtype with
  | refl hknown => exact .same hknown
  | declared hextends =>
      have hreach := ReflTransGen.single hextends
      exact .classes hextends.registered (hcomplete.registered_of_reach hextends.registered hreach)
        (Or.inr hreach)
  | @root type hknown hreference =>
      cases type with
      | object name =>
          exact .classes (known_object.mp hknown) hbuilt.registered_rootClass (Or.inl rfl)
      | array element => exact .array hknown (Or.inl rfl)
      | _ => cases hreference
  | arrayInterface hknown hinterface => exact .array hknown (Or.inr hinterface)
  | covariant hsource htarget _ ih => exact .elements hsource htarget ih
  | trans _ _ ihleft ihright => exact ihleft.trans hcomplete ihright

end ClassPath

/-- A complete class path accepts values of one type in a place of another exactly
if the one is a subtype of the other.  So on known types what is accepted is
reflexive and transitive, and there is always an answer. -/
theorem accepts_iff_subtype (path : ClassPath) (hbuilt : path.Built) (hcomplete : path.Complete) :
    (∀ target source, path.accepts target source = .ok true ↔ path.Subtype source target) ∧
      (∀ type, path.Known type → path.accepts type type = .ok true) ∧
      (∀ source middle target, path.accepts middle source = .ok true →
        path.accepts target middle = .ok true → path.accepts target source = .ok true) ∧
      ∀ target source, path.Known target → path.Known source →
        ∃ answer, path.accepts target source = .ok answer := by
  have hdecides : ∀ target source,
      path.accepts target source = .ok true ↔ path.Subtype source target := by
    intro target source
    rw [ClassPath.accepts_iff_checked hcomplete]
    exact ⟨ClassPath.Checked.subtype, ClassPath.Subtype.checked hbuilt hcomplete⟩
  refine ⟨hdecides, ?_, ?_, fun target source => ClassPath.exists_accepts hcomplete⟩
  · intro type hknown
    exact (hdecides type type).mpr (.refl hknown)
  · intro source middle target hleft hright
    rw [hdecides] at hleft hright ⊢
    exact hleft.trans hright

namespace Sample

/-- Two classes that extend each other, and an interface of arrays which one of them
implements. -/
def cyclicPath : ClassPath :=
  ((ClassPath.root.add
    { ClassDeclaration.ofClass "foo.Even" with superclass := some "foo.Odd" }).add
    { ClassDeclaration.ofClass "foo.Odd" with
      superclass := some "foo.Even"
      interfaces := ["java.io.Serializable"] }).add
    (ClassDeclaration.ofInterface "java.io.Serializable")

end Sample

/-- Arrays of one class of the cycle are accepted for the interface that the other
implements, and arrays of arrays for interfaces that are not even there.  Arrays of
numbers hold no references. -/
theorem cyclic_arrays_accepted :
    Sample.cyclicPath.Built ∧ Sample.cyclicPath.Complete ∧
      Sample.cyclicPath.accepts (.array (.object "java.io.Serializable"))
        (.array (.object "foo.Even")) = .ok true ∧
      Sample.cyclicPath.accepts (.array (.object "java.lang.Cloneable"))
        (.array (.array .int)) = .ok true ∧
      ¬ Sample.cyclicPath.Subtype (.array .int) (.array (.object JavaType.rootClass)) := by
  have hbuilt : Sample.cyclicPath.Built := .add (.add (.add .root _) _) _
  have hcomplete : Sample.cyclicPath.Complete :=
    ⟨by decide +kernel, by decide +kernel, by decide +kernel, by decide +kernel⟩
  obtain ⟨hdecides, -, -, -⟩ := accepts_iff_subtype Sample.cyclicPath hbuilt hcomplete
  have heven : Sample.cyclicPath.Extends "foo.Even" "foo.Odd" := by decide +kernel
  have hodd : Sample.cyclicPath.Extends "foo.Odd" "java.io.Serializable" := by decide +kernel
  refine ⟨hbuilt, hcomplete, ?_, ?_, ?_⟩
  · rw [hdecides]
    exact .covariant rfl rfl (.trans (.declared heven) (.declared hodd))
  · rw [hdecides]
    exact .covariant rfl rfl (.arrayInterface (by decide) List.mem_cons_self)
  · rw [← hdecides]
    simp [ClassPath.accepts, JavaType.isReference]

end AdviceCompiler
