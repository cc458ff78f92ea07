import AdviceCompiler.Compiler
import AdviceCompiler.Proofs.AroundCoverage
import AdviceCompiler.Proofs.MemoTransparency

/-!
# The units of a compiled call site

Every unit that compilation gives was assembled for one advice of the call site,
after a clean report and from a state that the solver can be in.  Stack
correctness of compiled units follows from that of assembled ones.
-/

namespace AdviceCompiler

namespace Solver

variable {σ : Type}

/-- A solver never leaves the states of `Good`. -/
def Keeps (solver : Solver σ) (Good : σ → Prop) : Prop :=
  ∀ state, Good state → ∀ current target, Good (solver.solve state current target).2

/-- A solver stays in the states of `Good`, and its answers there are right. -/
structure SoundOn (solver : Solver σ) (Good : σ → Prop) : Prop where
  keeps : solver.Keeps Good
  sound : ∀ state, Good state → ∀ current target instructions,
    (solver.solve state current target).1 = some instructions →
      current.run instructions = .ok target

/-- The solvers of a compiler, each with a state it can be in: a search, or a
memoized search after any calls. -/
inductive Available : {σ : Type} → Solver σ → σ → Prop
  | search (maxDepth : Nat) : Available (Solver.search maxDepth) ()
  | memoized (options : SolverOptions) (requests : List Memo.Request) :
      Available (Solver.search options.maxDepth).memoized
        (Memo.serveAll (Solver.search options.maxDepth) (Memo.initial options.seeded, ())
          requests)

theorem run_of_search {maxDepth : Nat} {current target : Layout}
    {instructions : List Instruction}
    (hsearch : AdviceCompiler.search maxDepth current target = some instructions) :
    current.run instructions = .ok target :=
  (search_eq_some_iff.mp hsearch).solves.reaches

/-- An answer that is due for the canonical pair solves the pair itself. -/
theorem run_of_isDue {options : SolverOptions} {current target : Layout}
    {instructions : List Instruction}
    (hdue : Memo.IsDue options (Layout.canonicalPair current target) (some instructions)) :
    current.run instructions = .ok target := by
  apply (Layout.run_canonicalPair_iff current target instructions).mp
  by_cases hexcepted : Memo.Excepted options (Layout.canonicalPair current target)
  · rcases hexcepted with ⟨hseeded, hdepth, transform, hcommon, hpair⟩
    cases hdue.known hseeded hdepth transform hcommon hpair
    rcases Memo.Transform.common_first transform hcommon
      with ⟨-, instruction, -, hinstructions, heffect, -⟩
    rw [hpair, hinstructions]
    exact run_singleton_eq_ok_iff.mpr heffect
  · exact run_of_search (hdue.searched hexcepted).symm

theorem Available.exists_soundOn {solver : Solver σ} {state : σ}
    (havailable : solver.Available state) :
    ∃ Good : σ → Prop, Good state ∧ solver.SoundOn Good := by
  cases havailable with
  | search maxDepth =>
      refine ⟨fun _ => True, trivial, fun _ _ _ _ => trivial, ?_⟩
      intro _ _ current target instructions hanswer
      exact run_of_search hanswer
  | memoized options requests =>
      refine ⟨fun state => Memo.Faithful options state.1, ?_, ?_, ?_⟩
      · exact (Memo.faithful_initial options).serveAll requests
      · intro state hfaithful current target
        exact (hfaithful.solve current target).2
      · intro state hfaithful current target instructions hanswer
        have hdue := (hfaithful.solve current target).1
        rw [hanswer] at hdue
        exact run_of_isDue hdue

end Solver

variable {σ : Type}

namespace AdviceUnit

variable {solver : Solver σ} {state : σ} {spi : JavaType} {helpers : List JavaType}
variable {advice : Advice} {name : String} {isStatic : Bool}

/-- A unit is assembled for a pointcut, from the instructions of its shuffle. -/
theorem assemble_eq_ok {unit : AdviceUnit}
    (hunit : (assemble solver state spi helpers advice name isStatic).1 = .ok unit) :
    ∃ shuffle instructions, advice.pointcut = some unit.pointcut ∧
      Shuffle.ofAdvice advice unit.pointcut isStatic = .ok shuffle ∧
      (solve solver state shuffle).1 = .ok instructions ∧
      unit.name = name ∧ unit.kind = advice.kind ∧
      unit.operations = instructions.map .shuffle ++ calls advice ++
        casts advice unit.pointcut := by
  unfold assemble at hunit
  split at hunit
  · cases hunit
  · next pointcut hpointcut =>
      split at hunit
      · cases hunit
      · next shuffle hshuffle =>
          split at hunit
          · cases hunit
          · next instructions next hsolve =>
              cases hunit
              exact ⟨shuffle, instructions, hpointcut, hshuffle, by rw [hsolve], rfl, rfl, rfl⟩

theorem run_of_solve {Good : σ → Prop} (hsound : solver.SoundOn Good) (hgood : Good state)
    {shuffle : Shuffle} {instructions : List Instruction}
    (hsolve : (solve solver state (some shuffle)).1 = .ok instructions) :
    shuffle.current.run instructions = .ok shuffle.target := by
  apply hsound.sound state hgood
  simp only [solve] at hsolve
  split at hsolve
  · next answer next hanswer =>
      cases hsolve
      rw [hanswer]
  · cases hsolve

theorem solve_keeps {Good : σ → Prop} (hkeeps : solver.Keeps Good) (hgood : Good state)
    (shuffle : Option Shuffle) : Good (solve solver state shuffle).2 := by
  cases shuffle with
  | none => exact hgood
  | some shuffle =>
      have hnext := hkeeps state hgood shuffle.current shuffle.target
      simp only [solve]
      split <;> simp_all

theorem assemble_keeps {Good : σ → Prop} (hkeeps : solver.Keeps Good) (hgood : Good state) :
    Good (assemble solver state spi helpers advice name isStatic).2 := by
  unfold assemble
  split
  · exact hgood
  · split
    · exact hgood
    · next shuffle _ =>
        have hnext := solve_keeps hkeeps hgood shuffle
        split <;> simp_all

end AdviceUnit

@[simp]
theorem Report.isClean_explain (report : Report) (rejection : Pointcut.Rejection) :
    (report.explain rejection).isClean = report.isClean := by
  simp [Report.explain, Report.isClean]

theorem Report.isClean_explained (report : Report) (rejection : Option Pointcut.Rejection) :
    ((rejection.map report.explain).getD report).isClean = report.isClean := by
  cases rejection <;> simp

namespace Compiler

variable {compiler : Compiler σ} {site : CallSite} {subject : Subject}
variable {rejection : Option Pointcut.Rejection} {name : String} {state : σ}

/-- What the check of an advice can give: a report with faults, or a clean one and
the staticness of the pointcut. -/
theorem check_eq_ok {report : Report} {passed : Option Bool}
    (hcheck : compiler.check subject rejection = .ok (report, passed)) :
    ∃ verified, subject.verify compiler.resolver compiler.options.verifier = .ok verified ∧
      report = (rejection.map verified.explain).getD verified ∧
      (verified.isClean = false ∧ passed = none ∨
        verified.isClean = true ∧ ∃ pointcut isStatic, subject.advice.pointcut = some pointcut ∧
          compiler.isStatic pointcut = .ok isStatic ∧ passed = some isStatic) := by
  obtain ⟨verified, hverified, hrest⟩ := bind_eq_ok_iff.mp hcheck
  refine ⟨verified, hverified, ?_⟩
  simp only [Report.isClean_explained] at hrest
  split at hrest
  · next hclean =>
      obtain ⟨pointcut, hvalid⟩ := (Subject.isClean_iff_validOn hverified).mp hclean
      simp only [hvalid.intercepts] at hrest
      obtain ⟨isStatic, hstatic, hboth⟩ := bind_eq_ok_iff.mp hrest
      cases hboth
      exact ⟨rfl, Or.inr ⟨hclean, pointcut, isStatic, hvalid.intercepts, hstatic, rfl⟩⟩
  · next hunclean =>
      cases hrest
      exact ⟨rfl, Or.inl ⟨Bool.eq_false_iff.mpr hunclean, rfl⟩⟩

/-- An advice is compiled further only after a clean report. -/
theorem check_eq_ok_some {report : Report} {isStatic : Bool}
    (hcheck : compiler.check subject rejection = .ok (report, some isStatic)) :
    ∃ verified pointcut, subject.verify compiler.resolver compiler.options.verifier = .ok verified ∧
      verified.isClean = true ∧ report.isClean = true ∧
      subject.advice.pointcut = some pointcut ∧ compiler.isStatic pointcut = .ok isStatic := by
  obtain ⟨verified, hverified, rfl, ⟨-, hnone⟩ | ⟨hclean, pointcut, found, hread, hfound, hsame⟩⟩ :=
    check_eq_ok hcheck
  · cases hnone
  · cases hsame
    have hexplained := (Report.isClean_explained verified rejection).trans hclean
    exact ⟨verified, pointcut, hverified, hclean, hexplained, hread, hfound⟩

theorem compileSubject_eq_ok {unit : AdviceUnit}
    (hunit : (compiler.compileSubject site subject rejection name state).1 = .ok unit) :
    ∃ report isStatic, compiler.check subject rejection = .ok (report, some isStatic) ∧
      (AdviceUnit.assemble compiler.solver state site.spi site.helpers subject.advice name
        isStatic).1 = .ok unit := by
  unfold compileSubject at hunit
  split at hunit
  · cases hunit
  · cases hunit
  · next report isStatic hcheck =>
      split at hunit
      · next assembled next hassemble =>
          cases hunit
          exact ⟨report, isStatic, hcheck, by rw [hassemble]⟩
      · cases hunit

theorem compileSubject_keeps {Good : σ → Prop} (hkeeps : compiler.solver.Keeps Good)
    (hgood : Good state) :
    Good (compiler.compileSubject site subject rejection name state).2 := by
  unfold compileSubject
  split
  · exact hgood
  · exact hgood
  · next report isStatic _ =>
      have hnext : Good (AdviceUnit.assemble compiler.solver state site.spi site.helpers
          subject.advice name isStatic).2 := AdviceUnit.assemble_keeps hkeeps hgood
      split <;> simp_all

/-- The unit is what the compiler makes, in this state of its solver, of an
advice of the call site, once its pointcut has been read. -/
def Emits (compiler : Compiler σ) (site : CallSite) (state : σ) (advice : Advice)
    (unit : AdviceUnit) : Prop :=
  ∃ declared index rejection, (declared, index, unit.name) ∈ site.advices.zip site.unitNames ∧
    compiler.readPointcut declared = (advice, rejection) ∧
    (compiler.compileSubject site ⟨site.owner, index, advice⟩ rejection unit.name state).1 =
      .ok unit

theorem name_of_compileSubject {unit : AdviceUnit}
    (hunit : (compiler.compileSubject site subject rejection name state).1 = .ok unit) :
    unit.name = name := by
  rcases compileSubject_eq_ok hunit with ⟨report, isStatic, -, hassemble⟩
  rcases AdviceUnit.assemble_eq_ok hassemble with ⟨shuffle, instructions, -, -, -, hname, -⟩
  exact hname

theorem mem_units_addOutcome {compiled : Compiled} {outcome : Except Report AdviceUnit}
    {unit : AdviceUnit} (hunit : unit ∈ (addOutcome compiled outcome).units) :
    unit ∈ compiled.units ∨ outcome = .ok unit := by
  cases outcome with
  | error report => exact Or.inl hunit
  | ok other =>
      rcases List.mem_append.mp hunit with hold | hnew
      · exact Or.inl hold
      · right
        rw [List.mem_singleton.mp hnew]

/-- What a pass over the advices adds comes from one of them. -/
theorem mem_units_compileAdvices {Good : σ → Prop} (hkeeps : compiler.solver.Keeps Good)
    {entries : List (Advice × Nat × String)} {compiled : Compiled} (hgood : Good state)
    {unit : AdviceUnit}
    (hunit : unit ∈ (compiler.compileAdvices site entries compiled state).1.units) :
    unit ∈ compiled.units ∨
      ∃ declared index before, (declared, index, unit.name) ∈ entries ∧ Good before ∧
        (compiler.compileSubject site ⟨site.owner, index, (compiler.readPointcut declared).1⟩
          (compiler.readPointcut declared).2 unit.name before).1 = .ok unit := by
  induction entries generalizing compiled state with
  | nil => exact Or.inl hunit
  | cons entry rest ih =>
      rcases entry with ⟨declared, index, name⟩
      rcases ih (compileSubject_keeps hkeeps hgood) hunit
        with hold | ⟨other, place, before, hmem, hother⟩
      · rcases mem_units_addOutcome hold with hbefore | hnew
        · exact Or.inl hbefore
        · have hname := name_of_compileSubject hnew
          subst hname
          exact Or.inr ⟨declared, index, state, List.mem_cons_self, hgood, hnew⟩
      · exact Or.inr ⟨other, place, before, List.mem_cons_of_mem _ hmem, hother⟩

/-- Every unit of a compiled call site is emitted for one of its advices. -/
theorem exists_emits_of_mem_units {Good : σ → Prop} (hkeeps : compiler.solver.Keeps Good)
    (hgood : Good state) {unit : AdviceUnit}
    (hunit : unit ∈ (compiler.compile site state).1.units) :
    ∃ before advice, Good before ∧ compiler.Emits site before advice unit := by
  unfold compile at hunit
  simp only at hunit
  split at hunit
  · rcases mem_units_compileAdvices hkeeps hgood hunit
      with hnone | ⟨declared, index, before, hmem, hbefore, hcompiled⟩
    · cases hnone
    · exact ⟨before, _, hbefore, declared, index, _, hmem, rfl, hcompiled⟩
  · cases hunit

/-- A resolved pointcut is compiled with the staticness of its declaration, as far
as its operands depend on that. -/
theorem hasReceiver_of_isStatic {pointcut : Method} {flags : MethodFlags} {isStatic : Bool}
    (hresolves : compiler.options.verifier.resolves = true)
    (hlocated : compiler.resolver.locate pointcut = .ok (.ok flags))
    (hstatic : compiler.isStatic pointcut = .ok isStatic) :
    Shuffle.hasReceiver pointcut isStatic = Shuffle.hasReceiver pointcut flags.isStatic := by
  unfold Compiler.isStatic at hstatic
  by_cases hconstructor : pointcut.isConstructor = true
  · simp [Shuffle.hasReceiver, hconstructor]
  · rw [if_neg hconstructor, if_pos hresolves, hlocated] at hstatic
    cases hstatic
    rfl

/-- What is known of an emitted unit: its advice was accepted, and its operations
are those of the advice after the solver's instructions. -/
theorem Emits.accepted {unit : AdviceUnit} {advice : Advice}
    (hcompatibility : compiler.options.verifier.checksCompatibility = true)
    (hemits : compiler.Emits site state advice unit) :
    ∃ flags shuffle instructions, advice.Accepted compiler.resolver unit.pointcut flags ∧
      unit.kind = advice.kind ∧
      Shuffle.ofAdvice advice unit.pointcut flags.isStatic = .ok shuffle ∧
      (AdviceUnit.solve compiler.solver state shuffle).1 = .ok instructions ∧
      unit.operations = instructions.map .shuffle ++ AdviceUnit.calls advice ++
        AdviceUnit.casts advice unit.pointcut := by
  rcases hemits with ⟨declared, index, rejection, -, -, hcompiled⟩
  rcases compileSubject_eq_ok hcompiled with ⟨report, isStatic, hcheck, hassemble⟩
  rcases check_eq_ok_some hcheck with ⟨verified, pointcut, hverified, hclean, -, hread, hstatic⟩
  rcases AdviceUnit.assemble_eq_ok hassemble
    with ⟨shuffle, instructions, hpointcut, hshuffle, hsolve, -, hkind, hoperations⟩
  rcases Subject.accepted_of_verify hcompatibility hverified hclean
    with ⟨accepted, flags, haccepted⟩
  have hsame : pointcut = unit.pointcut := Option.some.inj (hread.symm.trans hpointcut)
  have haccepts : accepted = unit.pointcut :=
    Option.some.inj (haccepted.intercepts.symm.trans hpointcut)
  subst hsame haccepts
  have hresolves := VerificationOptions.resolves_of_checksCompatibility hcompatibility
  have hreceiver := hasReceiver_of_isStatic hresolves haccepted.located hstatic
  refine ⟨flags, shuffle, instructions, haccepted, hkind, ?_, hsolve, hoperations⟩
  rw [← hshuffle]
  exact Shuffle.ofAdvice_congr advice hreceiver.symm

end Compiler

namespace Sample

def text : JavaType := .object "java.lang.String"

/-- Strings with a constructor that copies and a method that joins. -/
def classes : ClassPath :=
  .add .root
    (((ClassDeclaration.ofClass "java.lang.String").declareConstructor [text]).declare
      "concat" [text] text false)

/-- The compiler with its default options. -/
def compiler : Compiler (Memo × Unit) :=
  ⟨Pointcut.readReporting false, classes.resolver, (Solver.search defaultMaxDepth).memoized, {}⟩

/-- Looks at the string that is copied. -/
def copyAdvice : Advice where
  kind := .before
  method := ⟨.object "foo.Advices", "before", [text], .void, ⟨true, true⟩⟩
  signature := "void java.lang.String.<init>(java.lang.String)"
  bindings := [(0, .argument 0)]
  pointcut := some (.constructor text [text])
  ascending := List.pairwise_singleton _ _

def copyUnit : AdviceUnit where
  name := "foo.AdvicesBefore"
  spi := .object CallSite.defaultSpi
  helpers := [.object "foo.Advices"]
  kind := .before
  pointcut := .constructor text [text]
  operations := [.shuffle .dup, .callAdvice copyAdvice.method, .callIntercepted]

/-- Takes the first of the strings that are joined and forgets the second. -/
def concatAdvice : Advice where
  kind := .around
  method := ⟨.object "foo.Advices", "around", [text], text, ⟨true, true⟩⟩
  signature := "java.lang.String java.lang.String.concat(java.lang.String)"
  bindings := [(0, .receiver)]
  pointcut := some ⟨text, "concat", [text], text, ⟨false, true⟩⟩
  ascending := List.pairwise_singleton _ _

def concatUnit : AdviceUnit where
  name := "foo.AdvicesAround"
  spi := .object CallSite.defaultSpi
  helpers := [.object "foo.Advices"]
  kind := .around
  pointcut := ⟨text, "concat", [text], text, ⟨false, true⟩⟩
  operations := [.callAdvice concatAdvice.method]

def siteOf (advice : Advice) : CallSite :=
  (CallSite.ofOwner (.object "foo.Advices")).addAdvice advice

def unitsOf (advice : Advice) : List AdviceUnit :=
  (compiler.compile (siteOf advice) (Memo.initial true, ())).1.units

end Sample

/-- The units of accepted advices before a call are stack correct, and so are
those after it, apart from a constructor whose advice binds the result. -/
theorem before_after_units_stackCorrect (path : ClassPath)
    (read : String → Except Pointcut.Rejection Method) (solver : Solver σ) (state : σ)
    (options : CompilerOptions) (site : CallSite) (unit : AdviceUnit)
    (hcompatibility : options.verifier.checksCompatibility = true)
    (havailable : solver.Available state)
    (hunit : unit ∈
      (Compiler.compile ⟨read, path.resolver, solver, options⟩ site state).1.units) :
    ∃ before advice flags,
      Compiler.Emits ⟨read, path.resolver, solver, options⟩ site before advice unit ∧
      path.locate unit.pointcut = .ok flags ∧
      (unit.kind = .before ∨ unit.kind = .after ∧
          ¬ (unit.pointcut.isConstructor = true ∧ advice.hasResult = true) →
        ∃ shuffle,
          Shuffle.ofAdvice advice unit.pointcut flags.isStatic = .ok (some shuffle) ∧
          Interception.StackCorrect ⟨advice, unit.pointcut, flags.isStatic⟩ unit.operations
            shuffle.current) := by
  rcases havailable.exists_soundOn with ⟨Good, hgood, hsound⟩
  rcases Compiler.exists_emits_of_mem_units hsound.keeps hgood hunit
    with ⟨before, advice, hbefore, hemits⟩
  rcases hemits.accepted hcompatibility
    with ⟨flags, found, instructions, haccepted, hkind, hfound, hsolve, hoperations⟩
  refine ⟨before, advice, flags, hemits, Except.ok.inj haccepted.located, ?_⟩
  intro hcase
  have hshuffled : advice.kind ≠ .around := by
    rcases hcase with hcase | ⟨hcase, -⟩ <;> simp [← hkind, hcase]
  rcases Shuffle.exists_some_of_ofAdvice hshuffled hfound with ⟨shuffle, rfl⟩
  have hrun := AdviceUnit.run_of_solve hsound hbefore hsolve
  refine ⟨shuffle, hfound, ?_⟩
  rw [hoperations]
  rw [hkind] at hcase
  rcases hcase with hcase | ⟨hcase, hexcept⟩
  · exact Interception.stackCorrect_before haccepted hcase hfound hrun
  · exact Interception.stackCorrect_after haccepted hcase hexcept hfound hrun

/-- The constructor leaves the copy beneath its operands, so the argument is
doubled on top of three values. -/
theorem copy_unit_stackCorrect :
    Sample.copyUnit ∈ Sample.unitsOf Sample.copyAdvice ∧
      ∃ before advice flags shuffle,
        Sample.compiler.Emits (Sample.siteOf Sample.copyAdvice) before advice Sample.copyUnit ∧
        Sample.classes.locate Sample.copyUnit.pointcut = .ok flags ∧
        Shuffle.ofAdvice advice Sample.copyUnit.pointcut flags.isStatic = .ok (some shuffle) ∧
        Interception.StackCorrect ⟨advice, Sample.copyUnit.pointcut, flags.isStatic⟩
          Sample.copyUnit.operations shuffle.current := by
  have hunit : Sample.copyUnit ∈ Sample.unitsOf Sample.copyAdvice := by decide +kernel
  rcases before_after_units_stackCorrect Sample.classes (Pointcut.readReporting false) _ _ {}
      (Sample.siteOf Sample.copyAdvice) Sample.copyUnit (by decide) (.memoized {} []) hunit
    with ⟨before, advice, flags, hemits, hlocate, hcorrect⟩
  rcases hcorrect (Or.inl rfl) with ⟨shuffle, hshuffle, hstack⟩
  exact ⟨hunit, before, advice, flags, shuffle, hemits, hlocate, hshuffle, hstack⟩

/-- The unit of an advice around a call is stack correct exactly if the advice has
a parameter for every operand of the call. -/
theorem around_units_stackCorrect_iff (path : ClassPath)
    (read : String → Except Pointcut.Rejection Method) (solver : Solver σ) (state : σ)
    (options : CompilerOptions) (site : CallSite) (unit : AdviceUnit)
    (hcompatibility : options.verifier.checksCompatibility = true)
    (hunit : unit ∈
      (Compiler.compile ⟨read, path.resolver, solver, options⟩ site state).1.units)
    (hkind : unit.kind = .around) :
    ∃ before advice flags,
      Compiler.Emits ⟨read, path.resolver, solver, options⟩ site before advice unit ∧
      path.locate unit.pointcut = .ok flags ∧
      unit.instructions = [] ∧
      let call : Interception := ⟨advice, unit.pointcut, flags.isStatic⟩
      advice.values.Sublist call.operandBindings ∧
        (call.TakesOver unit.operations ↔
          advice.arity = (if call.hasReceiver then 1 else 0) + unit.pointcut.params.length ∧
            ∀ type ∈ unit.pointcut.params, type.isVoid = false) := by
  have hkeeps : solver.Keeps fun _ => True := fun _ _ _ _ => trivial
  rcases Compiler.exists_emits_of_mem_units hkeeps trivial hunit
    with ⟨before, advice, -, hemits⟩
  rcases hemits.accepted hcompatibility
    with ⟨flags, found, instructions, haccepted, hsame, hfound, hsolve, hoperations⟩
  have haround : advice.kind = .around := hsame.symm.trans hkind
  rw [Shuffle.ofAdvice, if_pos haround] at hfound
  cases hfound
  cases hsolve
  let call : Interception := ⟨advice, unit.pointcut, flags.isStatic⟩
  have hcall : call.advice.Accepted path.resolver call.pointcut flags := haccepted
  refine ⟨before, advice, flags, hemits, Except.ok.inj haccepted.located, ?_, ?_, ?_⟩
  · rw [AdviceUnit.instructions, hoperations, AdviceUnit.calls_around haround,
      AdviceUnit.casts]
    split <;> rfl
  · exact Interception.values_sublist_operandBindings hcall rfl haround
  · rw [hoperations]
    exact Interception.takesOver_iff hcall rfl haround

/-- An advice that takes the receiver alone passes all rules, and its unit leaves
the argument on the stack. -/
theorem concat_unit_not_takesOver :
    Sample.concatUnit ∈ Sample.unitsOf Sample.concatAdvice ∧
      ∃ before,
        Sample.compiler.Emits (Sample.siteOf Sample.concatAdvice) before Sample.concatAdvice
          Sample.concatUnit ∧
        ¬ Interception.TakesOver ⟨Sample.concatAdvice, Sample.concatUnit.pointcut, false⟩
          Sample.concatUnit.operations := by
  have hunit : Sample.concatUnit ∈ Sample.unitsOf Sample.concatAdvice := by decide +kernel
  rcases around_units_stackCorrect_iff Sample.classes (Pointcut.readReporting false)
      (Solver.search defaultMaxDepth).memoized (Memo.initial true, ()) {}
      (Sample.siteOf Sample.concatAdvice) Sample.concatUnit (by decide) hunit rfl
    with ⟨before, advice, flags, hemits, hlocate, -, -, htakes⟩
  have hadvice : advice = Sample.concatAdvice := by
    rcases hemits with ⟨declared, index, rejection, hmem, hread, -⟩
    have hdeclared := (List.of_mem_zip hmem).1
    rw [List.mem_singleton.mp hdeclared] at hread
    exact (congrArg Prod.fst hread).symm
  have hflags : flags = ⟨false, true⟩ := by
    have hfound : (Sample.classes.locate Sample.concatUnit.pointcut).toOption =
        some ⟨false, true⟩ := by
      decide +kernel
    rw [hlocate] at hfound
    exact Option.some.inj hfound
  subst hadvice hflags
  refine ⟨hunit, before, hemits, ?_⟩
  intro hcovers
  exact absurd (htakes.mp hcovers).1 (by decide)

end AdviceCompiler
