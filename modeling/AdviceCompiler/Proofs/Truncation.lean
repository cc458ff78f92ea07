import AdviceCompiler.Proofs.AdviceOutcomes

/-!
# Limits on diagnostics

The number of diagnostics that are kept is the only thing that a limit changes.
Reports are cut for every advice and again for the call site, and what happens
next depends on reports that have been cut.  Still, verification and compilation
under a limit give the report of a run without one, cut once.
-/

namespace AdviceCompiler

variable {σ : Type}

namespace Report

variable {report other : Report}

/-- The report of the same diagnostics under a limit. -/
def cutTo (limit : Nat) (report : Report) : Report :=
  ofList limit report.diagnostics

/-- A report holds the first diagnostics of another, which leaves nothing out, and
counts the rest. -/
structure Truncates (limit : Nat) (cut full : Report) : Prop where
  complete : full.omitted = 0
  kept : cut.diagnostics = full.diagnostics.take limit
  omitted : cut.omitted = (full.diagnostics.drop limit).length
  isClean : cut.isClean = full.isClean

theorem Unlimited.isClean_cutTo (hunlimited : report.Unlimited) (limit : Nat) :
    (report.cutTo limit).isClean = report.isClean := by
  rw [cutTo, Bool.eq_iff_iff, isClean_ofList, isClean, hunlimited.omitted]
  simp

theorem Unlimited.truncates (hunlimited : report.Unlimited) {limit : Nat} (hlimit : limit ≠ 0) :
    Truncates limit (report.cutTo limit) report where
  complete := hunlimited.omitted
  kept := by rw [cutTo, ofList_of_limit hlimit]
  omitted := by rw [cutTo, ofList_of_limit hlimit, List.length_drop]
  isClean := hunlimited.isClean_cutTo limit

theorem cutTo_ofList_zero (limit : Nat) (diagnostics : List Diagnostic) :
    (ofList 0 diagnostics).cutTo limit = ofList limit diagnostics := by
  rw [cutTo, ofList_zero]

theorem Unlimited.add_cutTo (hunlimited : report.Unlimited) (limit : Nat)
    (diagnostic : Diagnostic) :
    (report.cutTo limit).add diagnostic = (report.add diagnostic).cutTo limit := by
  rw [hunlimited.add_eq, cutTo, cutTo, ofList_append]
  rfl

theorem Unlimited.merge_cutTo (hreport : report.Unlimited) (hother : other.Unlimited)
    (limit : Nat) :
    (report.cutTo limit).merge (other.cutTo limit) = (report.merge other).cutTo limit := by
  rw [hreport.merge_eq hother, cutTo, cutTo, merge_ofList]
  rfl

/-- A refused signature is explained in the diagnostics that are kept, wherever
they are cut. -/
theorem explain_cutTo (report : Report) (limit : Nat) (rejection : Pointcut.Rejection) :
    (report.cutTo limit).explain rejection = (report.explain rejection).cutTo limit := by
  by_cases hlimit : limit = 0
  · subst hlimit
    simp only [cutTo, ofList_zero, explain]
  · simp only [cutTo, ofList_of_limit hlimit, explain, List.map_take, List.length_map]

end Report

def VerificationOptions.withLimit (options : VerificationOptions) (limit : Nat) :
    VerificationOptions :=
  { options with maxDiagnostics := limit }

section Verification

variable (resolver : Resolver) (options : VerificationOptions) (limit : Nat)

/-- The limit has no part in what verification of an advice finds. -/
theorem Subject.verify_withLimit (subject : Subject) :
    subject.verify resolver (options.withLimit limit) =
      (subject.verify resolver (options.withLimit 0)).map (Report.cutTo limit) := by
  have hsame : subject.diagnostics resolver (options.withLimit limit) =
      subject.diagnostics resolver (options.withLimit 0) := rfl
  rw [verify, verify, hsame]
  cases subject.diagnostics resolver (options.withLimit 0) with
  | error crash => rfl
  | ok found => exact congrArg Except.ok (Report.cutTo_ofList_zero limit _).symm

namespace CallSite

theorem verifyHeader_withLimit (site : CallSite) :
    site.verifyHeader resolver (options.withLimit limit) =
      (site.verifyHeader resolver (options.withLimit 0)).cutTo limit :=
  (Report.cutTo_ofList_zero limit _).symm

theorem verifySubject_withLimit (subject : Subject) :
    verifySubject subject resolver (options.withLimit limit) =
      (verifySubject subject resolver (options.withLimit 0)).cutTo limit := by
  rw [verifySubject, verifySubject, subject.verify_withLimit]
  cases subject.verify resolver (options.withLimit 0) with
  | error crash => exact (Report.cutTo_ofList_zero limit _).symm
  | ok report => rfl

/-- All diagnostics on a call site and then on its advices, in order. -/
def findings (site : CallSite) : List Diagnostic :=
  (site.verifyHeader resolver (options.withLimit 0)).diagnostics ++
    site.subjects.flatMap fun subject =>
      (verifySubject subject resolver (options.withLimit 0)).diagnostics

/-- A report on a call site is what its limit leaves of the findings. -/
theorem verify_withLimit (site : CallSite) :
    site.verify resolver (options.withLimit limit) =
      .ofList limit (site.findings resolver options) := by
  have hreports : site.subjects.map
      (fun subject => verifySubject subject resolver (options.withLimit limit)) =
        (site.subjects.map fun subject =>
          (verifySubject subject resolver (options.withLimit 0)).diagnostics).map
            (.ofList limit) := by
    rw [List.map_map]
    exact List.map_congr_left fun subject _ =>
      verifySubject_withLimit resolver options limit subject
  calc
    site.verify resolver (options.withLimit limit) =
        (site.subjects.map fun subject =>
          verifySubject subject resolver (options.withLimit limit)).foldl Report.merge
            (site.verifyHeader resolver (options.withLimit limit)) := by
      rw [verify, List.foldl_map]
    _ = .ofList limit (site.findings resolver options) := by
      rw [hreports, verifyHeader_withLimit, Report.cutTo, Report.foldl_merge_ofList, findings,
        List.flatMap]

end CallSite

end Verification

def Outcome.cutTo (limit : Nat) : Outcome → Outcome
  | .ok unit => .ok unit
  | .error report => .error (report.cutTo limit)

def Compiled.cutTo (limit : Nat) (compiled : Compiled) : Compiled :=
  { compiled with report := compiled.report.cutTo limit }

namespace Compiler

variable (compiler : Compiler σ) (site : CallSite) (limit : Nat)

/-- The compiler with another limit on diagnostics. -/
def withLimit (compiler : Compiler σ) (limit : Nat) : Compiler σ :=
  { compiler with
    options := { compiler.options with verifier := compiler.options.verifier.withLimit limit } }

theorem check_withLimit (subject : Subject) (rejection : Option Pointcut.Rejection) :
    (compiler.withLimit limit).check subject rejection =
      ((compiler.withLimit 0).check subject rejection).map
        fun checked => (checked.1.cutTo limit, checked.2) := by
  have hlimited : subject.verify (compiler.withLimit limit).resolver
      (compiler.withLimit limit).options.verifier =
        (subject.verify (compiler.withLimit 0).resolver
          (compiler.withLimit 0).options.verifier).map (Report.cutTo limit) :=
    subject.verify_withLimit compiler.resolver compiler.options.verifier limit
  rw [check, check, hlimited]
  cases hverified : subject.verify (compiler.withLimit 0).resolver
      (compiler.withLimit 0).options.verifier with
  | error crash => rfl
  | ok verified =>
      have hunlimited : verified.Unlimited := unlimited_of_verify rfl hverified
      have hexplained : (rejection.map (verified.cutTo limit).explain).getD
          (verified.cutTo limit) =
            ((rejection.map verified.explain).getD verified).cutTo limit := by
        cases rejection with
        | none => rfl
        | some rejection => exact verified.explain_cutTo limit rejection
      have hclean : (((rejection.map verified.explain).getD verified).cutTo limit).isClean =
          ((rejection.map verified.explain).getD verified).isClean := by
        rw [← hexplained, Report.isClean_explained, Report.isClean_explained,
          hunlimited.isClean_cutTo]
      simp only [Except.map, bind, Except.bind, hexplained, hclean]
      split
      · cases subject.advice.pointcut with
        | none => rfl
        | some pointcut =>
            have hstatic : (compiler.withLimit limit).isStatic pointcut =
                (compiler.withLimit 0).isStatic pointcut := rfl
            simp only [hstatic]
            cases (compiler.withLimit 0).isStatic pointcut <;> rfl
      · rfl

theorem compileSubject_withLimit (subject : Subject) (rejection : Option Pointcut.Rejection)
    (name : String) (state : σ) :
    (compiler.withLimit limit).compileSubject site subject rejection name state =
      (Outcome.cutTo limit
        ((compiler.withLimit 0).compileSubject site subject rejection name state).1,
        ((compiler.withLimit 0).compileSubject site subject rejection name state).2) := by
  rw [compileSubject, compileSubject, check_withLimit]
  cases hcheck : (compiler.withLimit 0).check subject rejection with
  | error crash =>
      simp only [Except.map, Outcome.cutTo]
      exact congrArg (fun report => (Except.error report, state))
        (Report.cutTo_ofList_zero limit _).symm
  | ok checked =>
      obtain ⟨report, passed⟩ := checked
      have hunlimited : report.Unlimited := unlimited_of_check rfl hcheck
      cases passed with
      | none => rfl
      | some isStatic =>
          rcases hassemble : AdviceUnit.assemble compiler.solver state site.spi site.helpers
            subject.advice name isStatic with ⟨failure | unit, next⟩
          · simp only [Except.map, withLimit, hassemble]
            exact congrArg (fun report => (Except.error report, next))
              (hunlimited.add_cutTo limit _)
          · simp only [Except.map, withLimit, hassemble]
            rfl

theorem addOutcome_cutTo {compiled : Compiled} {outcome : Outcome}
    (hcompiled : compiled.report.Unlimited) (houtcome : outcome.Unlimited) :
    addOutcome (compiled.cutTo limit) (outcome.cutTo limit) =
      (addOutcome compiled outcome).cutTo limit := by
  cases outcome with
  | ok unit => rfl
  | error report =>
      have hmerge := hcompiled.merge_cutTo (houtcome report rfl) limit
      simp only [addOutcome, Outcome.cutTo, Compiled.cutTo, hmerge]

/-- Two runs over the same advices, one of them under a limit, stay in step. -/
theorem compileAdvices_withLimit (entries : List (Advice × Nat × String))
    {compiled : Compiled} (hcompiled : compiled.report.Unlimited) (state : σ) :
    (compiler.withLimit limit).compileAdvices site entries (compiled.cutTo limit) state =
        (((compiler.withLimit 0).compileAdvices site entries compiled state).1.cutTo limit,
          ((compiler.withLimit 0).compileAdvices site entries compiled state).2) ∧
      ((compiler.withLimit 0).compileAdvices site entries compiled state).1.report.Unlimited := by
  induction entries generalizing compiled state with
  | nil => exact ⟨rfl, hcompiled⟩
  | cons entry rest ih =>
      obtain ⟨advice, index, name⟩ := entry
      have houtcome : Outcome.Unlimited ((compiler.withLimit 0).compileSubject site
          ⟨site.owner, index, (compiler.readPointcut advice).1⟩
          (compiler.readPointcut advice).2 name state).1 := unlimited_compileSubject rfl
      have hstep := compileSubject_withLimit compiler site limit
        ⟨site.owner, index, (compiler.readPointcut advice).1⟩
        (compiler.readPointcut advice).2 name state
      have hadded := addOutcome_cutTo limit hcompiled houtcome
      have hnext := report_addOutcome hcompiled houtcome
      obtain ⟨hrest, hlast⟩ := ih hnext.1 ((compiler.withLimit 0).compileSubject site
        ⟨site.owner, index, (compiler.readPointcut advice).1⟩
        (compiler.readPointcut advice).2 name state).2
      rw [← hadded] at hrest
      refine ⟨?_, hlast⟩
      rw [compileAdvices]
      have hread : (compiler.withLimit limit).readPointcut advice =
          compiler.readPointcut advice := rfl
      simp only [hread, hstep, hrest]
      rfl

theorem opened_withLimit :
    (compiler.withLimit limit).opened site = ((compiler.withLimit 0).opened site).cutTo limit :=
  congrArg (Compiled.mk site.owner [])
    (site.verifyHeader_withLimit compiler.resolver compiler.options.verifier limit)

theorem compile_eq_ite (state : σ) :
    compiler.compile site state =
      if (compiler.opened site).report.isClean then
        let run := compiler.compileAdvices site (site.advices.zip site.unitNames)
          (compiler.opened site) state
        (run.1, site.withAdvices run.2.1, run.2.2)
      else (compiler.opened site, site, state) :=
  rfl

/-- Under a limit a call site is compiled, or refused, exactly as without one. -/
theorem compile_withLimit (state : σ) :
    (compiler.withLimit limit).compile site state =
        (((compiler.withLimit 0).compile site state).1.cutTo limit,
          ((compiler.withLimit 0).compile site state).2) ∧
      ((compiler.withLimit 0).compile site state).1.report.Unlimited := by
  have hopened : ((compiler.withLimit 0).opened site).report.Unlimited := unlimited_opened rfl
  have hclean : (((compiler.withLimit 0).opened site).cutTo limit).report.isClean =
      ((compiler.withLimit 0).opened site).report.isClean := hopened.isClean_cutTo limit
  obtain ⟨hrun, hlast⟩ := compileAdvices_withLimit compiler site limit
    (site.advices.zip site.unitNames) hopened state
  rw [compile_eq_ite, compile_eq_ite, opened_withLimit, hclean, hrun]
  split
  · exact ⟨rfl, hlast⟩
  · exact ⟨rfl, hopened⟩

end Compiler

/-- A limit on diagnostics does nothing but cut the report.  Verification and
compilation under a limit keep the first diagnostics of the same run without one
and count the others, succeed exactly if that run does, and compilation also gives
the same units and leaves the call site and the solver the same. -/
theorem limit_only_truncates (compiler : Compiler σ) (site : CallSite) (state : σ) (limit : Nat)
    (hlimit : 0 < limit) :
    Report.Truncates limit
        (site.verify compiler.resolver (compiler.options.verifier.withLimit limit))
        (site.verify compiler.resolver (compiler.options.verifier.withLimit 0)) ∧
      Report.Truncates limit ((compiler.withLimit limit).compile site state).1.report
        ((compiler.withLimit 0).compile site state).1.report ∧
      ((compiler.withLimit limit).compile site state).1.units =
        ((compiler.withLimit 0).compile site state).1.units ∧
      ((compiler.withLimit limit).compile site state).2 =
        ((compiler.withLimit 0).compile site state).2 := by
  have hpositive : limit ≠ 0 := hlimit.ne'
  obtain ⟨hcompile, hunlimited⟩ :=
    Compiler.compile_withLimit compiler site limit state
  rw [hcompile]
  refine ⟨?_, hunlimited.truncates hpositive, rfl, rfl⟩
  rw [CallSite.verify_withLimit, CallSite.verify_withLimit, ← Report.cutTo_ofList_zero limit]
  exact (Report.unlimited_ofList _).truncates hpositive

namespace Sample

/-- An advice that cannot be called, with a signature that cannot be read. -/
def hiddenAdvice : Advice :=
  { brokenAdvice with
    method := ⟨.object "foo.Advices", "around", [text], text, ⟨true, false⟩⟩ }

end Sample

/-- Of the two diagnostics on an advice the first is kept, with the reason why the
signature is refused. -/
theorem hidden_advice_report_cut :
    ((Sample.compiler.withLimit 1).compile (Sample.siteOf Sample.hiddenAdvice)
        Sample.start).1.report.omitted = 1 ∧
      ((Sample.compiler.withLimit 1).compile (Sample.siteOf Sample.hiddenAdvice)
          Sample.start).1.report.diagnostics.map
        (fun diagnostic => (diagnostic.code, diagnostic.notes)) =
          [(.pointcutInvalid, ["expected owner type or `[]`"])] := by
  obtain ⟨-, hcut, -, -⟩ := limit_only_truncates Sample.compiler
    (Sample.siteOf Sample.hiddenAdvice) Sample.start 1 Nat.one_pos
  have hfull : ((Sample.compiler.withLimit 0).compile (Sample.siteOf Sample.hiddenAdvice)
      Sample.start).1.report.diagnostics.map
        (fun diagnostic => (diagnostic.code, diagnostic.notes)) =
          [(.pointcutInvalid, ["expected owner type or `[]`"]),
            (.adviceNotPublicStatic, [])] := by
    decide +kernel
  have hcount := congrArg List.length hfull
  rw [List.length_map] at hcount
  constructor
  · rw [hcut.omitted, List.length_drop, hcount]
    rfl
  · rw [hcut.kept, List.map_take, hfull]
    rfl

end AdviceCompiler
