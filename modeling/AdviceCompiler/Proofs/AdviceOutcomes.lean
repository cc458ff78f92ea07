import AdviceCompiler.Proofs.CompiledUnits
import AdviceCompiler.Proofs.SolverHistory
import AdviceCompiler.Proofs.UnitNameOrder

/-!
# Outcomes of single advices

Compiling a call site is compiling its advices one by one.  Each has an outcome
of its own, a unit or a report that is not empty, which the other advices have no
part in: they leave traces in the solver only, and the solver's answers do not
show them.
-/

namespace AdviceCompiler

variable {σ : Type}

namespace Report

theorem Unlimited.explain {report : Report} (hunlimited : report.Unlimited)
    (rejection : Pointcut.Rejection) : (report.explain rejection).Unlimited :=
  ⟨hunlimited.limit, hunlimited.omitted⟩

theorem diagnostics_explain_ne_nil {report : Report} (hreport : report.diagnostics ≠ [])
    (rejection : Pointcut.Rejection) : (report.explain rejection).diagnostics ≠ [] := by
  simpa [Report.explain] using hreport

end Report

namespace AdviceUnit

variable {solver : Solver σ} {left right : σ}
variable (hsame : ∀ current target,
  (solver.solve left current target).1 = (solver.solve right current target).1)

include hsame

theorem solve_congr (shuffle : Option Shuffle) :
    (solve solver left shuffle).1 = (solve solver right shuffle).1 := by
  cases shuffle with
  | none => rfl
  | some shuffle =>
      have hanswer := hsame shuffle.current shuffle.target
      simp only [solve]
      split <;> split <;> simp_all

/-- A unit depends on the answers of the solver, not on its state. -/
theorem assemble_congr (spi : JavaType) (helpers : List JavaType) (advice : Advice)
    (name : String) (isStatic : Bool) :
    (assemble solver left spi helpers advice name isStatic).1 =
      (assemble solver right spi helpers advice name isStatic).1 := by
  simp only [assemble]
  split
  · rfl
  · split
    · rfl
    · next shuffle _ =>
        have hinstructions := solve_congr hsame shuffle
        split <;> split <;> simp_all

end AdviceUnit

/-- What comes of one advice: its unit, or the report that refuses it. -/
abbrev Outcome := Except Report AdviceUnit

namespace Outcome

def units : Outcome → List AdviceUnit
  | .ok unit => [unit]
  | .error _ => []

def diagnostics : Outcome → List Diagnostic
  | .ok _ => []
  | .error report => report.diagnostics

/-- Nothing is left out of the diagnostics. -/
def Unlimited (outcome : Outcome) : Prop :=
  ∀ report, outcome = .error report → report.Unlimited

/-- One unit and no diagnostic, or no unit and at least one diagnostic. -/
def Settled (outcome : Outcome) : Prop :=
  (∃ unit, outcome.units = [unit]) ∧ outcome.diagnostics = [] ∨
    outcome.units = [] ∧ outcome.diagnostics ≠ []

theorem settled_ok (unit : AdviceUnit) : Settled (.ok unit) :=
  Or.inl ⟨⟨unit, rfl⟩, rfl⟩

theorem settled_error {report : Report} : Settled (.error report) ↔ report.diagnostics ≠ [] := by
  simp [Settled, units, diagnostics]

theorem length_units_le_one (outcome : Outcome) : outcome.units.length ≤ 1 := by
  cases outcome <;> simp [units]

theorem length_flatMap_units_le (outcomes : List Outcome) :
    (outcomes.flatMap units).length ≤ outcomes.length := by
  induction outcomes with
  | nil => simp
  | cons outcome rest ih =>
      have hfirst := outcome.length_units_le_one
      rw [List.flatMap_cons, List.length_append, List.length_cons]
      omega

end Outcome

namespace CallSite

variable {site : CallSite} {advices : List Advice}

def withAdvices (site : CallSite) (advices : List Advice) : CallSite :=
  { site with advices }

/-- What the advices of a call site share. -/
def header (site : CallSite) : CallSite :=
  site.withAdvices []

/-- The names of the advice methods, which the unit names are made of. -/
def methodNames (site : CallSite) : List String :=
  site.advices.map fun advice => advice.method.name

theorem unitNames_withAdvices
    (hnames : (site.withAdvices advices).methodNames = site.methodNames) :
    (site.withAdvices advices).unitNames = site.unitNames :=
  congrArg (UnitName.ofMethods site.owner.text) hnames

/-- Of the advices, verification of the header asks only whether there are any. -/
theorem verifyHeader_withAdvices
    (hnames : (site.withAdvices advices).methodNames = site.methodNames) (resolver : Resolver)
    (options : VerificationOptions) :
    (site.withAdvices advices).verifyHeader resolver options =
      site.verifyHeader resolver options := by
  have hempty : advices.isEmpty = site.advices.isEmpty := by
    simpa [methodNames, withAdvices] using congrArg List.isEmpty hnames
  have hadvices : (site.withAdvices advices).adviceDiagnostics = site.adviceDiagnostics := by
    rw [adviceDiagnostics, adviceDiagnostics, withAdvices, hempty]
  rw [verifyHeader, hadvices]
  rfl

theorem unlimited_verifyHeader {options : VerificationOptions}
    (hlimit : options.maxDiagnostics = 0) (site : CallSite) (resolver : Resolver) :
    (site.verifyHeader resolver options).Unlimited := by
  rw [verifyHeader, hlimit]
  exact Report.unlimited_ofList _

theorem methodNames_set {place : Nat} {declared replacement : Advice}
    (hdeclared : site.advices[place]? = some declared)
    (hname : replacement.method.name = declared.method.name) :
    (site.withAdvices (site.advices.set place replacement)).methodNames = site.methodNames := by
  obtain ⟨hplace, rfl⟩ := List.getElem?_eq_some_iff.mp hdeclared
  have hmapped : place < site.methodNames.length := by simpa [methodNames] using hplace
  have hsame : site.methodNames[place] = replacement.method.name := by
    simp [methodNames, hname]
  calc
    (site.withAdvices (site.advices.set place replacement)).methodNames =
        site.methodNames.set place replacement.method.name := List.map_set
    _ = site.methodNames := by rw [← hsame, List.set_getElem_self]

end CallSite

namespace Compiler

variable {compiler : Compiler σ} {site : CallSite} {subject : Subject}
variable {rejection : Option Pointcut.Rejection} {name : String} {fresh state : σ}

/-- What comes of an advice under this header if it is compiled alone, with a new
solver. -/
def outcome (compiler : Compiler σ) (fresh : σ) (header : CallSite) (advice : Advice)
    (index : Nat) (name : String) : Outcome :=
  (compiler.compileSubject header ⟨header.owner, index, (compiler.readPointcut advice).1⟩
    (compiler.readPointcut advice).2 name fresh).1

/-- The outcomes of advices, each with its index and unit name. -/
def outcomesOf (compiler : Compiler σ) (fresh : σ) (header : CallSite)
    (entries : List (Advice × Nat × String)) : List Outcome :=
  entries.map fun entry => compiler.outcome fresh header entry.1 entry.2.1 entry.2.2

/-- The outcomes of the advices of a call site, in order of declaration. -/
def outcomes (compiler : Compiler σ) (fresh : σ) (site : CallSite) : List Outcome :=
  compiler.outcomesOf fresh site.header (site.advices.zip site.unitNames)

/-- Verification that does not pass has something to report. -/
theorem diagnostics_ne_nil_of_verify {verified : Report}
    (hverified : subject.verify compiler.resolver compiler.options.verifier = .ok verified)
    (hunclean : verified.isClean = false) : verified.diagnostics ≠ [] := by
  obtain ⟨diagnostics, -, hboth⟩ := bind_eq_ok_iff.mp hverified
  cases hboth
  apply Report.diagnostics_ofList_ne_nil
  intro hnone
  rw [Report.isClean_ofList.mpr hnone] at hunclean
  cases hunclean

theorem unlimited_of_verify {verified : Report}
    (hlimit : compiler.options.verifier.maxDiagnostics = 0)
    (hverified : subject.verify compiler.resolver compiler.options.verifier = .ok verified) :
    verified.Unlimited := by
  obtain ⟨diagnostics, -, hboth⟩ := bind_eq_ok_iff.mp hverified
  cases hboth
  rw [hlimit]
  exact Report.unlimited_ofList _

theorem unlimited_of_check {report : Report} {passed : Option Bool}
    (hlimit : compiler.options.verifier.maxDiagnostics = 0)
    (hcheck : compiler.check subject rejection = .ok (report, passed)) : report.Unlimited := by
  obtain ⟨verified, hverified, rfl, -⟩ := check_eq_ok hcheck
  have hunlimited := unlimited_of_verify hlimit hverified
  cases rejection with
  | none => exact hunlimited
  | some rejection => exact hunlimited.explain rejection

/-- An advice that is not compiled any further has been refused for a reason. -/
theorem diagnostics_ne_nil_of_check {report : Report}
    (hcheck : compiler.check subject rejection = .ok (report, none)) :
    report.diagnostics ≠ [] := by
  obtain ⟨verified, hverified, rfl, ⟨hunclean, -⟩ | ⟨-, pointcut, isStatic, -, -, hpassed⟩⟩ :=
    check_eq_ok hcheck
  · have hsome := diagnostics_ne_nil_of_verify hverified hunclean
    cases rejection with
    | none => exact hsome
    | some rejection => exact Report.diagnostics_explain_ne_nil hsome rejection
  · cases hpassed

/-- No way of refusing an advice leaves its report empty: not a breakdown of the
resolver, a failed verification or a failed assembly. -/
theorem settled_compileSubject :
    Outcome.Settled (compiler.compileSubject site subject rejection name state).1 := by
  rw [compileSubject]
  split
  · exact Outcome.settled_error.mpr (Report.diagnostics_ofList_ne_nil (List.cons_ne_nil _ _))
  · next report hcheck => exact Outcome.settled_error.mpr (diagnostics_ne_nil_of_check hcheck)
  · split
    · exact Outcome.settled_ok _
    · exact Outcome.settled_error.mpr (Report.diagnostics_add_ne_nil _ _)

theorem unlimited_compileSubject (hlimit : compiler.options.verifier.maxDiagnostics = 0) :
    Outcome.Unlimited (compiler.compileSubject site subject rejection name state).1 := by
  intro report herror
  rw [compileSubject] at herror
  split at herror
  · cases herror
    rw [hlimit]
    exact Report.unlimited_ofList _
  · next hcheck =>
      cases herror
      exact unlimited_of_check hlimit hcheck
  · next hcheck =>
      split at herror
      · cases herror
      · cases herror
        exact (unlimited_of_check hlimit hcheck).add _

theorem compileSubject_congr {left right : σ}
    (hsame : ∀ current target,
      (compiler.solver.solve left current target).1 =
        (compiler.solver.solve right current target).1) :
    (compiler.compileSubject site subject rejection name left).1 =
      (compiler.compileSubject site subject rejection name right).1 := by
  rw [compileSubject, compileSubject]
  split
  · rfl
  · rfl
  · next report isStatic _ =>
      have hunit := AdviceUnit.assemble_congr hsame site.spi site.helpers subject.advice name
        isStatic
      split <;> split <;> simp_all

theorem keeps_reaches : compiler.solver.Keeps (compiler.solver.Reaches fresh) :=
  fun _ hreaches current target => hreaches.solve current target

/-- One advice after the other adds its own outcome. -/
theorem compileAdvices_eq_foldl (hsteady : compiler.solver.Steady fresh)
    (entries : List (Advice × Nat × String)) (compiled : Compiled)
    (hreaches : compiler.solver.Reaches fresh state) :
    (compiler.compileAdvices site entries compiled state).1 =
      (compiler.outcomesOf fresh site.header entries).foldl addOutcome compiled := by
  -- The state changes from advice to advice, but stays one that the solver reaches.
  induction entries generalizing compiled state with
  | nil => rfl
  | cons entry rest ih =>
      have hfirst : (compiler.compileSubject site
          ⟨site.owner, entry.2.1, (compiler.readPointcut entry.1).1⟩
          (compiler.readPointcut entry.1).2 entry.2.2 state).1 =
            compiler.outcome fresh site.header entry.1 entry.2.1 entry.2.2 :=
        compileSubject_congr (hsteady state hreaches)
      rw [compileAdvices]
      simp only [hfirst]
      exact ih _ (compileSubject_keeps keeps_reaches hreaches)

theorem units_foldl_addOutcome (outcomes : List Outcome) (compiled : Compiled) :
    (outcomes.foldl addOutcome compiled).units =
      compiled.units ++ outcomes.flatMap Outcome.units := by
  induction outcomes generalizing compiled with
  | nil => simp
  | cons outcome rest ih =>
      rw [List.foldl_cons, ih, List.flatMap_cons, ← List.append_assoc]
      cases outcome <;> simp [addOutcome, Outcome.units]

/-- Without a limit the diagnostics stay in the order of the outcomes. -/
theorem report_addOutcome {compiled : Compiled} {outcome : Outcome}
    (hcompiled : compiled.report.Unlimited) (houtcome : outcome.Unlimited) :
    (addOutcome compiled outcome).report.Unlimited ∧
      (addOutcome compiled outcome).report.diagnostics =
        compiled.report.diagnostics ++ outcome.diagnostics := by
  cases outcome with
  | ok unit => exact ⟨hcompiled, (List.append_nil _).symm⟩
  | error report =>
      have hmerge := hcompiled.merge_eq (houtcome report rfl)
      rw [addOutcome, hmerge]
      exact ⟨⟨hcompiled.limit, hcompiled.omitted⟩, rfl⟩

theorem report_foldl_addOutcome {outcomes : List Outcome} {compiled : Compiled}
    (hcompiled : compiled.report.Unlimited)
    (houtcomes : ∀ outcome ∈ outcomes, outcome.Unlimited) :
    (outcomes.foldl addOutcome compiled).report.Unlimited ∧
      (outcomes.foldl addOutcome compiled).report.diagnostics =
        compiled.report.diagnostics ++ outcomes.flatMap Outcome.diagnostics := by
  induction outcomes generalizing compiled with
  | nil => exact ⟨hcompiled, (List.append_nil _).symm⟩
  | cons outcome rest ih =>
      obtain ⟨hfirst, hrest⟩ := List.forall_mem_cons.mp houtcomes
      obtain ⟨hnext, hadded⟩ := report_addOutcome hcompiled hfirst
      obtain ⟨hlast, hall⟩ := ih hnext hrest
      refine ⟨hlast, ?_⟩
      rw [List.foldl_cons, hall, hadded, List.flatMap_cons, List.append_assoc]

/-- An advice without a unit shows in the report, whatever its limit. -/
theorem isClean_foldl_addOutcome {outcomes : List Outcome}
    (hsettled : ∀ outcome ∈ outcomes, outcome.Settled) (compiled : Compiled) :
    (outcomes.foldl addOutcome compiled).report.isClean = true ↔
      compiled.report.isClean = true ∧
        (outcomes.flatMap Outcome.units).length = outcomes.length := by
  induction outcomes generalizing compiled with
  | nil => simp
  | cons outcome rest ih =>
      obtain ⟨hfirst, hrest⟩ := List.forall_mem_cons.mp hsettled
      rw [List.foldl_cons, ih hrest]
      cases outcome with
      | ok unit => simp [addOutcome, Outcome.units]
      | error report =>
          -- Both sides fail: the report is spoilt, and a unit is missing for good.
          have hunclean : report.isClean = false := by
            simp [Report.isClean, Outcome.settled_error.mp hfirst]
          have hfewer : (rest.flatMap Outcome.units).length ≠ rest.length + 1 :=
            (Nat.lt_succ_of_le (Outcome.length_flatMap_units_le rest)).ne
          simp only [addOutcome, Report.isClean_merge, hunclean, Bool.and_false,
            Bool.false_eq_true, false_and, List.flatMap_cons, Outcome.units, List.nil_append,
            List.length_cons, hfewer, and_false]

theorem settled_of_mem_outcomes {outcome : Outcome}
    (hmem : outcome ∈ compiler.outcomes fresh site) : outcome.Settled := by
  obtain ⟨entry, -, rfl⟩ := List.mem_map.mp hmem
  exact settled_compileSubject

theorem unlimited_of_mem_outcomes {outcome : Outcome}
    (hlimit : compiler.options.verifier.maxDiagnostics = 0)
    (hmem : outcome ∈ compiler.outcomes fresh site) : outcome.Unlimited := by
  obtain ⟨entry, -, rfl⟩ := List.mem_map.mp hmem
  exact unlimited_compileSubject hlimit

theorem length_outcomes : (compiler.outcomes fresh site).length = site.advices.length := by
  rw [outcomes, outcomesOf, List.length_map, List.length_zip, CallSite.length_unitNames,
    Nat.min_self]

/-- The outcome at an index is that of the advice at that index. -/
theorem getElem?_outcomes {index : Nat} {advice : Advice}
    (hadvice : site.advices[index]? = some advice) :
    ∃ name, site.unitNames[index]? = some (index, name) ∧
      (compiler.outcomes fresh site)[index]? =
        some (compiler.outcome fresh site.header advice index name) := by
  obtain ⟨hindex, -⟩ := List.getElem?_eq_some_iff.mp hadvice
  obtain ⟨name, hname⟩ := site.exists_name_of_lt hindex
  refine ⟨name, hname, ?_⟩
  have hentry : (site.advices.zip site.unitNames)[index]? = some (advice, index, name) :=
    List.getElem?_zip_eq_some.mpr ⟨hadvice, hname⟩
  rw [outcomes, outcomesOf, List.getElem?_map, hentry]
  rfl

/-- An outcome has nothing to do with the other advices, apart from the unit names
that they share. -/
theorem getElem?_outcomes_congr {advices : List Advice} {index : Nat}
    (hnames : (site.withAdvices advices).methodNames = site.methodNames)
    (hadvice : advices[index]? = site.advices[index]?) :
    (compiler.outcomes fresh (site.withAdvices advices))[index]? =
      (compiler.outcomes fresh site)[index]? := by
  have hentry : (advices.zip site.unitNames)[index]? =
      (site.advices.zip site.unitNames)[index]? := by
    simp only [List.zip, List.getElem?_zipWith, hadvice]
  rw [outcomes, outcomesOf, CallSite.unitNames_withAdvices hnames, List.getElem?_map]
  rw [outcomes, outcomesOf, List.getElem?_map, ← hentry]
  rfl

/-- What there is of a compiled call site before its first advice. -/
def opened (compiler : Compiler σ) (site : CallSite) : Compiled :=
  ⟨site.owner, [], site.verifyHeader compiler.resolver compiler.options.verifier⟩

theorem unlimited_opened (hlimit : compiler.options.verifier.maxDiagnostics = 0) :
    (compiler.opened site).report.Unlimited :=
  CallSite.unlimited_verifyHeader hlimit site compiler.resolver

theorem compile_of_header_unclean
    (hheader :
      (site.verifyHeader compiler.resolver compiler.options.verifier).isClean = false) :
    compiler.compile site state = (compiler.opened site, site, state) := by
  simp [compile, hheader, opened]

section HeaderClean

variable (hsteady : compiler.solver.Steady fresh)
  (hreaches : compiler.solver.Reaches fresh state)
  (hheader : (site.verifyHeader compiler.resolver compiler.options.verifier).isClean = true)

include hsteady hreaches hheader

theorem compile_eq_foldl :
    (compiler.compile site state).1 =
      (compiler.outcomes fresh site).foldl addOutcome (compiler.opened site) := by
  rw [compile]
  simp only [hheader, if_true]
  exact compileAdvices_eq_foldl hsteady _ _ hreaches

theorem units_compile :
    (compiler.compile site state).1.units =
      (compiler.outcomes fresh site).flatMap Outcome.units := by
  rw [compile_eq_foldl hsteady hreaches hheader, units_foldl_addOutcome]
  rfl

theorem diagnostics_compile (hlimit : compiler.options.verifier.maxDiagnostics = 0) :
    (compiler.compile site state).1.report.diagnostics =
        (compiler.outcomes fresh site).flatMap Outcome.diagnostics ∧
      (compiler.compile site state).1.report.omitted = 0 := by
  have houtcomes : ∀ outcome ∈ compiler.outcomes fresh site, outcome.Unlimited :=
    fun _ => unlimited_of_mem_outcomes hlimit
  obtain ⟨hlast, hdiagnostics⟩ := report_foldl_addOutcome (unlimited_opened hlimit) houtcomes
  have hnone : (compiler.opened site).report.diagnostics = [] :=
    Report.diagnostics_of_isClean hheader
  rw [compile_eq_foldl hsteady hreaches hheader, hdiagnostics, hnone]
  exact ⟨rfl, hlast.omitted⟩

theorem isClean_compile :
    (compiler.compile site state).1.report.isClean = true ↔
      (compiler.compile site state).1.units.length = site.advices.length := by
  have hopened : (compiler.opened site).report.isClean = true := hheader
  rw [units_compile hsteady hreaches hheader, compile_eq_foldl hsteady hreaches hheader,
    isClean_foldl_addOutcome (fun _ => settled_of_mem_outcomes), length_outcomes]
  exact and_iff_right hopened

end HeaderClean

end Compiler

/-- Compiling a call site puts together what comes of its advices, each compiled
alone.  No advice is lost or has two units, the report is clean exactly if every
advice has its unit, and another advice in one place, of the same method name,
changes no outcome but its own.  If the call site itself is at fault, its report
is all there is. -/
theorem compile_concatenates_outcomes (compiler : Compiler σ) (site : CallSite)
    (fresh state : σ) (hbuilt : compiler.solver.Built fresh)
    (hreaches : compiler.solver.Reaches fresh state) :
    ((site.verifyHeader compiler.resolver compiler.options.verifier).isClean = true →
      (∀ index advice, site.advices[index]? = some advice →
        ∃ name, site.unitNames[index]? = some (index, name) ∧
          (compiler.outcomes fresh site)[index]? =
            some (compiler.outcome fresh site.header advice index name)) ∧
      (compiler.outcomes fresh site).length = site.advices.length ∧
      (∀ outcome ∈ compiler.outcomes fresh site, outcome.Settled) ∧
      (compiler.compile site state).1.units =
        (compiler.outcomes fresh site).flatMap Outcome.units ∧
      (compiler.options.verifier.maxDiagnostics = 0 →
        (compiler.compile site state).1.report.diagnostics =
            (compiler.outcomes fresh site).flatMap Outcome.diagnostics ∧
          (compiler.compile site state).1.report.omitted = 0) ∧
      ((compiler.compile site state).1.report.isClean = true ↔
        (compiler.compile site state).1.units.length = site.advices.length) ∧
      ∀ place declared replacement, site.advices[place]? = some declared →
        replacement.method.name = declared.method.name →
        ((site.withAdvices (site.advices.set place replacement)).verifyHeader compiler.resolver
          compiler.options.verifier).isClean = true ∧
        ∀ index, index ≠ place →
          (compiler.outcomes fresh
              (site.withAdvices (site.advices.set place replacement)))[index]? =
            (compiler.outcomes fresh site)[index]?) ∧
    ((site.verifyHeader compiler.resolver compiler.options.verifier).isClean = false →
      (compiler.compile site state).1.units = [] ∧
      (compiler.compile site state).1.report =
        site.verifyHeader compiler.resolver compiler.options.verifier) := by
  constructor
  · intro hheader
    refine ⟨fun _ _ => Compiler.getElem?_outcomes, Compiler.length_outcomes,
      fun _ => Compiler.settled_of_mem_outcomes,
      Compiler.units_compile hbuilt.steady hreaches hheader,
      Compiler.diagnostics_compile hbuilt.steady hreaches hheader,
      Compiler.isClean_compile hbuilt.steady hreaches hheader, ?_⟩
    intro place declared replacement hdeclared hname
    have hnames := CallSite.methodNames_set hdeclared hname
    constructor
    · rwa [CallSite.verifyHeader_withAdvices hnames]
    · intro index hindex
      exact Compiler.getElem?_outcomes_congr hnames (List.getElem?_set_ne hindex.symm)
  · intro hheader
    rw [Compiler.compile_of_header_unclean hheader]
    exact ⟨rfl, rfl⟩

namespace Sample

def start : Memo × Unit := (Memo.initial true, ())

/-- A call site with two advices that can be compiled. -/
def pairSite : CallSite := (siteOf copyAdvice).addAdvice concatAdvice

/-- An advice whose signature cannot be read. -/
def brokenAdvice : Advice :=
  { concatAdvice with signature := "concat", pointcut := none }

end Sample

/-- Both advices have their units.  The first keeps its own when the second is
replaced by one that cannot be read. -/
theorem pair_units_concatenated :
    (Sample.compiler.compile Sample.pairSite Sample.start).1.units =
        [Sample.copyUnit, Sample.concatUnit] ∧
      (Sample.compiler.compile Sample.pairSite Sample.start).1.report.isClean = true ∧
      (Sample.compiler.outcomes Sample.start (Sample.pairSite.withAdvices
          (Sample.pairSite.advices.set 1 Sample.brokenAdvice)))[0]? =
        some (.ok Sample.copyUnit) := by
  have hheader : (Sample.pairSite.verifyHeader Sample.compiler.resolver
      Sample.compiler.options.verifier).isClean = true := by
    decide +kernel
  have hgroups : (UnitName.groups (Sample.pairSite.advices.map fun advice =>
      advice.method.name)).flatMap (UnitName.ofGroup Sample.pairSite.owner.text) =
        [(0, "foo.AdvicesBefore"), (1, "foo.AdvicesAround")] := by
    decide +kernel
  have hnames : Sample.pairSite.unitNames =
      [(0, "foo.AdvicesBefore"), (1, "foo.AdvicesAround")] := by
    rw [CallSite.unitNames, UnitName.ofMethods, hgroups]
    exact List.mergeSort_of_pairwise (by decide)
  have houtcomes : Sample.compiler.outcomes Sample.start Sample.pairSite =
      [.ok Sample.copyUnit, .ok Sample.concatUnit] := by
    rw [Compiler.outcomes, hnames]
    decide +kernel
  obtain ⟨-, -, -, hunits, -, hclean, hreplaced⟩ :=
    (compile_concatenates_outcomes Sample.compiler Sample.pairSite Sample.start Sample.start
      (.memoized (.stateless _) true) .start).1 hheader
  obtain ⟨-, hothers⟩ := hreplaced 1 Sample.concatAdvice Sample.brokenAdvice rfl rfl
  rw [houtcomes] at hunits
  refine ⟨hunits, hclean.mpr ?_, ?_⟩
  · rw [hunits]
    rfl
  · rw [hothers 0 (by decide), houtcomes]
    rfl

end AdviceCompiler
