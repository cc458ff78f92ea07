import AdviceCompiler.Proofs.CompileHistory
import AdviceCompiler.Proofs.UnitNameRanks

/-!
# Finding units by name

The units of a compiled call site are those of some of its advices, in order, so a
unit is found by its name unless a unit before it has the same name.  That happens
to advices of different method names only.
-/

namespace AdviceCompiler

variable {σ : Type}

namespace AdviceUnit

/-- The names of the advice methods that operations call. -/
def calledNames (operations : List Operation) : List String :=
  operations.filterMap fun
    | .callAdvice method => some method.name
    | _ => none

/-- The name of a unit and of the method that it calls. -/
def label (unit : AdviceUnit) : String × List String :=
  (unit.name, calledNames unit.operations)

/-- The label of the unit that an advice has under a name. -/
def labelOf (entry : Advice × Nat × String) : String × List String :=
  (entry.2.2, [entry.1.method.name])

/-- A unit calls the method of its advice and no other. -/
theorem calledNames_operations (instructions : List Instruction) (advice : Advice)
    (pointcut : Method) :
    calledNames (instructions.map .shuffle ++ calls advice ++ casts advice pointcut) =
      [advice.method.name] := by
  have hshuffle : calledNames (instructions.map .shuffle) = [] := by
    simp [calledNames]
  have hcalls : calledNames (calls advice) = [advice.method.name] := by
    rw [calls]
    cases advice.kind <;> rfl
  have hcasts : calledNames (casts advice pointcut) = [] := by
    rw [casts]
    split <;> rfl
  calc
    calledNames (instructions.map .shuffle ++ calls advice ++ casts advice pointcut) =
        calledNames (instructions.map .shuffle) ++ calledNames (calls advice) ++
          calledNames (casts advice pointcut) := by
      rw [calledNames, List.filterMap_append, List.filterMap_append]
      rfl
    _ = [advice.method.name] := by rw [hshuffle, hcalls, hcasts]; rfl

theorem label_of_assemble {solver : Solver σ} {state : σ} {spi : JavaType}
    {helpers : List JavaType} {advice : Advice} {name : String} {isStatic : Bool}
    {unit : AdviceUnit}
    (hunit : (assemble solver state spi helpers advice name isStatic).1 = .ok unit) :
    unit.label = (name, [advice.method.name]) := by
  obtain ⟨shuffle, instructions, -, -, -, hname, -, hoperations⟩ := assemble_eq_ok hunit
  rw [label, hname, hoperations, calledNames_operations]

end AdviceUnit

namespace Compiler

variable {compiler : Compiler σ} {site : CallSite} {state : σ}

theorem label_of_compileSubject {subject : Subject} {rejection : Option Pointcut.Rejection}
    {name : String} {unit : AdviceUnit}
    (hunit : (compiler.compileSubject site subject rejection name state).1 = .ok unit) :
    unit.label = (name, [subject.advice.method.name]) := by
  obtain ⟨report, isStatic, -, hassemble⟩ := compileSubject_eq_ok hunit
  exact AdviceUnit.label_of_assemble hassemble

/-- The units of advices that are compiled in order come in that order. -/
theorem units_compileAdvices (entries : List (Advice × Nat × String)) (compiled : Compiled)
    (state : σ) :
    ∃ added, (compiler.compileAdvices site entries compiled state).1.units =
        compiled.units ++ added ∧
      (added.map AdviceUnit.label).Sublist (entries.map AdviceUnit.labelOf) := by
  induction entries generalizing compiled state with
  | nil => exact ⟨[], (List.append_nil _).symm, .slnil⟩
  | cons entry rest ih =>
      obtain ⟨advice, index, name⟩ := entry
      rcases houtcome : compiler.compileSubject site
        ⟨site.owner, index, (compiler.readPointcut advice).1⟩
        (compiler.readPointcut advice).2 name state with ⟨outcome, next⟩
      have hstep : (compiler.compileAdvices site ((advice, index, name) :: rest) compiled state).1 =
          (compiler.compileAdvices site rest (addOutcome compiled outcome) next).1 := by
        simp only [compileAdvices, houtcome]
      obtain ⟨added, hunits, hsublist⟩ := ih (addOutcome compiled outcome) next
      rw [hstep, hunits]
      cases outcome with
      | error report => exact ⟨added, rfl, hsublist.cons _⟩
      | ok unit =>
          have hlabel := label_of_compileSubject (congrArg Prod.fst houtcome)
          rw [method_readPointcut] at hlabel
          refine ⟨unit :: added, ?_, ?_⟩
          · exact List.append_assoc compiled.units [unit] added
          · rw [List.map_cons, List.map_cons, hlabel]
            exact hsublist.cons_cons _

/-- The units of a call site are those of some of its advices, in order. -/
theorem labels_compile_sublist (compiler : Compiler σ) (site : CallSite) (state : σ) :
    ((compiler.compile site state).1.units.map AdviceUnit.label).Sublist
      ((site.advices.zip site.unitNames).map AdviceUnit.labelOf) := by
  rw [compile]
  simp only
  split
  · obtain ⟨added, hunits, hsublist⟩ :=
      units_compileAdvices (site.advices.zip site.unitNames) (compiler.opened site) state
    exact (congrArg (List.map AdviceUnit.label) hunits).symm ▸ hsublist
  · exact List.nil_sublist _

end Compiler

namespace CallSite

theorem labels_eq (site : CallSite) :
    (site.advices.zip site.unitNames).map AdviceUnit.labelOf =
      site.methodNames.mapIdx fun index method =>
        (site.owner.text ++ UnitName.ending site.methodNames method
          ((site.methodNames.take index).count method), [method]) := by
  apply List.ext_getElem?
  intro index
  have hnames : site.unitNames[index]? = site.methodNames[index]?.map _ :=
    (congrArg (·[index]?) (UnitName.ofMethods_eq site.owner.text site.methodNames)).trans
      List.getElem?_mapIdx
  rw [List.getElem?_map, List.zip, List.getElem?_zipWith, hnames, List.getElem?_mapIdx]
  have hmethod : site.methodNames[index]? = site.advices[index]?.map _ := List.getElem?_map
  rw [hmethod]
  cases site.advices[index]? <;> rfl

/-- An advice is told from the others by its unit name and its method name. -/
theorem nodup_labels (site : CallSite) :
    ((site.advices.zip site.unitNames).map AdviceUnit.labelOf).Nodup := by
  rw [labels_eq, List.nodup_iff_getElem?_ne_getElem?]
  intro index place hless hplace heq
  rw [List.length_mapIdx] at hplace
  have hmethod := List.getElem?_eq_getElem (hless.trans hplace)
  have hother := List.getElem?_eq_getElem hplace
  simp only [List.getElem?_mapIdx, hmethod, hother, Option.map_some, Option.some.injEq,
    Prod.mk.injEq, List.cons.injEq, and_true, String.append_right_inj] at heq
  rw [heq.2] at hmethod heq
  exact hless.ne (UnitName.index_eq_of_ending_eq hmethod hother heq.1)

theorem map_fst_labels (site : CallSite) :
    ((site.advices.zip site.unitNames).map AdviceUnit.labelOf).map Prod.fst =
      site.unitNames.map Prod.snd := by
  have hlength : site.unitNames.length ≤ site.advices.length := site.length_unitNames.le
  calc
    ((site.advices.zip site.unitNames).map AdviceUnit.labelOf).map Prod.fst =
        ((site.advices.zip site.unitNames).map Prod.snd).map Prod.snd := by
      rw [List.map_map, List.map_map]
      rfl
    _ = site.unitNames.map Prod.snd := by rw [List.map_snd_zip hlength]

theorem nodup_unitNames (site : CallSite) :
    (site.unitNames.map Prod.snd).Nodup ↔ UnitName.Apart site.methodNames :=
  UnitName.nodup_map_snd_ofMethods site.owner.text site.methodNames

end CallSite

namespace Compiled

variable {compiled : Compiled} {unit : AdviceUnit} {place : Nat}

/-- Of units that are all different, one is found by its name unless one before it
has that name. -/
theorem unit?_eq_some_iff (hnodup : compiled.units.Nodup)
    (hunit : compiled.units[place]? = some unit) :
    compiled.unit? unit.name = some unit ↔
      ∀ earlier ∈ compiled.units.take place, earlier.name ≠ unit.name := by
  obtain ⟨hplace, rfl⟩ := List.getElem?_eq_some_iff.mp hunit
  rw [unit?, List.find?_eq_some_iff_getElem]
  constructor
  · rintro ⟨-, found, hfound, hsame, hbefore⟩ earlier hearlier
    have hindex : found = place := (hnodup.getElem_inj_iff).mp hsame
    subst hindex
    obtain ⟨index, hindex, rfl⟩ := List.mem_take_iff_getElem.mp hearlier
    have hother := hbefore index (by omega)
    simpa using hother
  · intro hbefore
    refine ⟨by simp, place, hplace, rfl, ?_⟩
    intro index hindex
    have hother := hbefore _ (List.mem_take_iff_getElem.mpr ⟨index, by omega, rfl⟩)
    simpa using hother

theorem unit?_of_nodup_names (hnames : (compiled.units.map AdviceUnit.name).Nodup)
    (hunit : unit ∈ compiled.units) : compiled.unit? unit.name = some unit := by
  obtain ⟨place, hplace, rfl⟩ := List.getElem_of_mem hunit
  rw [unit?_eq_some_iff hnames.of_map (List.getElem?_eq_getElem hplace)]
  intro earlier hearlier
  obtain ⟨index, hindex, rfl⟩ := List.mem_take_iff_getElem.mp hearlier
  exact List.pairwise_iff_getElem.mp (List.pairwise_map.mp hnames) index place _ hplace (by omega)

end Compiled

/-- The names of the units of a call site are all different exactly if no two of its
method names can end a name in the same way.  Then every unit is found by its name.
In general a unit is found exactly if no unit before it has its name. -/
theorem unit_found_by_name_iff (compiler : Compiler σ) (site : CallSite) (state : σ) :
    ((site.unitNames.map Prod.snd).Nodup ↔ UnitName.Apart site.methodNames) ∧
      (UnitName.Apart site.methodNames → ∀ unit ∈ (compiler.compile site state).1.units,
        (compiler.compile site state).1.unit? unit.name = some unit) ∧
      ∀ place unit, (compiler.compile site state).1.units[place]? = some unit →
        ((compiler.compile site state).1.unit? unit.name = some unit ↔
          ∀ earlier ∈ (compiler.compile site state).1.units.take place,
            earlier.name ≠ unit.name) := by
  have hlabels := compiler.labels_compile_sublist site state
  have hnodup : (compiler.compile site state).1.units.Nodup :=
    (site.nodup_labels.sublist hlabels).of_map
  refine ⟨site.nodup_unitNames, ?_, fun place unit => Compiled.unit?_eq_some_iff hnodup⟩
  intro hapart unit hunit
  refine Compiled.unit?_of_nodup_names ?_ hunit
  have hnames := hlabels.map Prod.fst
  rw [site.map_fst_labels, List.map_map] at hnames
  exact (site.nodup_unitNames.mpr hapart).sublist hnames

namespace Sample

/-- An advice whose method name differs from that of another in its first letter. -/
def capitalAdvice : Advice :=
  { concatAdvice with method := { concatAdvice.method with name := "Before" } }

def twinSite : CallSite := (siteOf copyAdvice).addAdvice capitalAdvice

end Sample

/-- Advices named `before` and `Before` have units of one name, by which only the
first is found. -/
theorem twin_unit_not_found :
    ¬ (Sample.twinSite.unitNames.map Prod.snd).Nodup ∧
      ∃ unit, (Sample.compiler.compile Sample.twinSite Sample.start).1.units =
          [Sample.copyUnit, unit] ∧
        (Sample.compiler.compile Sample.twinSite Sample.start).1.unit? unit.name ≠ some unit := by
  obtain ⟨hnames, -, hfound⟩ :=
    unit_found_by_name_iff Sample.compiler Sample.twinSite Sample.start
  have htwins : Sample.twinSite.unitNames =
      [(0, "foo.AdvicesBefore"), (1, "foo.AdvicesBefore")] := by
    rw [CallSite.unitNames, UnitName.ofMethods_eq]
    decide +kernel
  have hunits : (Sample.compiler.compile Sample.twinSite Sample.start).1.units =
      [Sample.copyUnit, { Sample.concatUnit with
        name := "foo.AdvicesBefore"
        operations := [.callAdvice Sample.capitalAdvice.method] }] := by
    rw [Compiler.compile, htwins]
    decide +kernel
  have hshared : ¬ UnitName.Apart Sample.twinSite.methodNames := by
    decide +kernel
  refine ⟨fun hnodup => hshared (hnames.mp hnodup), _, hunits, ?_⟩
  rw [ne_eq, hfound 1 _ (by rw [hunits]; rfl), hunits]
  exact fun hearlier => hearlier Sample.copyUnit (List.mem_singleton_self _) rfl

end AdviceCompiler
