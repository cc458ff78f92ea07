import AdviceCompiler.Assembly.Unit
import AdviceCompiler.Pointcut.Snippet
import AdviceCompiler.Stack.Memo
import AdviceCompiler.UnitName
import AdviceCompiler.Verification.CallSite

/-!
# Compiling call sites

Compilation reads the pointcuts of a call site, verifies its advices and
assembles a unit for each advice that passes.  A fault of the call site itself rejects all
of it; an advice that fails drops its own unit alone.  Pointcuts that have been
read stay recorded in the call site.
-/

namespace AdviceCompiler

structure CompilerOptions where
  verifier : VerificationOptions := .default
  solver : SolverOptions := {}
  deriving DecidableEq

/-- What compilation relies on. -/
structure Compiler (σ : Type) where
  /-- Reads a written pointcut. -/
  read : String → Except Pointcut.Rejection Method
  resolver : Resolver
  solver : Solver σ
  options : CompilerOptions

/-- The outcome of compiling a call site. -/
structure Compiled where
  owner : JavaType
  units : List AdviceUnit
  report : Report
  deriving DecidableEq

/-- The first unit of this name. -/
def Compiled.unit? (compiled : Compiled) (name : String) : Option AdviceUnit :=
  compiled.units.find? fun unit => unit.name = name

/-- Adds the reason and the excerpts of a refused signature, if there are any, to
the diagnostics that say no more than that it was refused. -/
def Report.explain (report : Report) (rejection : Pointcut.Rejection) : Report :=
  { report with
    diagnostics := report.diagnostics.map fun diagnostic =>
      if diagnostic.code = .pointcutInvalid then
        { diagnostic.addNote rejection.message with snippet := rejection.rendered }
      else diagnostic }

namespace Compiler

variable {σ : Type}

/-- Reads the signature of an advice that has no pointcut yet. -/
def readPointcut (compiler : Compiler σ) (advice : Advice) :
    Advice × Option Pointcut.Rejection :=
  match advice.pointcut with
  | some _ => (advice, none)
  | none =>
      match compiler.read advice.signature with
      | .ok pointcut => ({ advice with pointcut := some pointcut }, none)
      | .error rejection => (advice, some rejection)

/-- Whether the intercepted method is static: by its declaration where it
resolves, and by its signature otherwise. -/
def isStatic (compiler : Compiler σ) (pointcut : Method) : Except Crash Bool :=
  if pointcut.isConstructor then .ok false
  else if compiler.options.verifier.resolves then do
    match ← compiler.resolver.locate pointcut with
    | .ok flags => return flags.isStatic
    | .error _ => return pointcut.isStatic
  else .ok pointcut.isStatic

/-- The diagnostic of an advice that passed verification but has no unit. -/
def assemblyDiagnostic (compiler : Compiler σ) (subject : Subject)
    (failure : AssemblyError) : Diagnostic where
  code := failure.code
  message := failure.message
  location := subject.location
  context := some subject.context
  notes :=
    match failure with
    | .unsolvable _ _ =>
        ["searched sequences of up to " ++ toString compiler.options.solver.maxDepth ++
          " instructions"]
    | _ => []

/-- Verifies an advice whose signature has been read.  An advice that passes
also gets the staticness of its pointcut. -/
def check (compiler : Compiler σ) (subject : Subject)
    (rejection : Option Pointcut.Rejection) : Except Crash (Report × Option Bool) := do
  let verified ← subject.verify compiler.resolver compiler.options.verifier
  let report := (rejection.map verified.explain).getD verified
  if report.isClean then
    match subject.advice.pointcut with
    | none => return (report, none)
    | some pointcut => return (report, some (← compiler.isStatic pointcut))
  else return (report, none)

/-- Compiles one advice whose signature has been read. -/
def compileSubject (compiler : Compiler σ) (site : CallSite) (subject : Subject)
    (rejection : Option Pointcut.Rejection) (name : String) (state : σ) :
    Except Report AdviceUnit × σ :=
  match compiler.check subject rejection with
  | .error crash =>
      let diagnostic := Diagnostic.ofCrash crash subject.location
      (.error (.ofList compiler.options.verifier.maxDiagnostics
        [diagnostic.inContext subject.context]), state)
  | .ok (report, none) => (.error report, state)
  | .ok (report, some pointcutStatic) =>
      match AdviceUnit.assemble compiler.solver state site.spi site.helpers subject.advice name
          pointcutStatic with
      | (.ok unit, next) => (.ok unit, next)
      | (.error failure, next) =>
          (.error (report.add (compiler.assemblyDiagnostic subject failure)), next)

/-- Adds the outcome of one advice to that of the call site. -/
def addOutcome (compiled : Compiled) : Except Report AdviceUnit → Compiled
  | .ok unit => { compiled with units := compiled.units ++ [unit] }
  | .error report => { compiled with report := compiled.report.merge report }

/-- Compiles advices in order, each with its index and unit name, and gives them
back with their pointcuts. -/
def compileAdvices (compiler : Compiler σ) (site : CallSite) :
    List (Advice × Nat × String) → Compiled → σ → Compiled × List Advice × σ
  | [], compiled, state => (compiled, [], state)
  | (advice, index, name) :: rest, compiled, state =>
      let (advice, rejection) := compiler.readPointcut advice
      let (outcome, state) :=
        compiler.compileSubject site ⟨site.owner, index, advice⟩ rejection name state
      let (compiled, advices, state) :=
        compiler.compileAdvices site rest (addOutcome compiled outcome) state
      (compiled, advice :: advices, state)

/-- Compiles a call site.  Gives the outcome, the call site with the pointcuts
that have been read, and the solver's state. -/
def compile (compiler : Compiler σ) (site : CallSite) (state : σ) :
    Compiled × CallSite × σ :=
  let report := site.verifyHeader compiler.resolver compiler.options.verifier
  let compiled : Compiled := ⟨site.owner, [], report⟩
  if report.isClean then
    let (compiled, advices, state) :=
      compiler.compileAdvices site (site.advices.zip site.unitNames) compiled state
    (compiled, { site with advices }, state)
  else (compiled, site, state)

/-- Compiles call sites in order. -/
def compileAll (compiler : Compiler σ) :
    List CallSite → σ → List Compiled × List CallSite × σ
  | [], state => ([], [], state)
  | site :: rest, state =>
      let (compiled, site, state) := compiler.compile site state
      let (others, sites, state) := compiler.compileAll rest state
      (compiled :: others, site :: sites, state)

/-- Compiles the same call sites over and over.  Gives the outcomes of each
round. -/
def compileRounds (compiler : Compiler σ) :
    Nat → List CallSite → σ → List (List Compiled) × List CallSite × σ
  | 0, sites, state => ([], sites, state)
  | rounds + 1, sites, state =>
      let (round, sites, state) := compiler.compileAll sites state
      let (others, sites, state) := compiler.compileRounds rounds sites state
      (round :: others, sites, state)

end Compiler

end AdviceCompiler
