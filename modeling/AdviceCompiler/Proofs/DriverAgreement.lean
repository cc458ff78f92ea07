import AdviceCompiler.Proofs.AdviceFindings
import AdviceCompiler.Proofs.AssemblyFailures
import AdviceCompiler.Proofs.CompileHistory
import AdviceCompiler.Proofs.Truncation
import AdviceCompiler.Proofs.UnitNameRanks

/-!
# Compilation reports what verification reports

A call site can be verified alone or compiled, which verifies it on the way.
Both tell the same of it.  Compilation adds the reason why a signature was refused
and, for an advice that verification has nothing against, that its shuffle has no
instructions.
-/

namespace AdviceCompiler

variable {σ : Type}

/-- The diagnostic of a refused signature without the reason, which is its last
note, and without the excerpt. -/
def Diagnostic.unexplained (diagnostic : Diagnostic) : Diagnostic :=
  if diagnostic.code = .pointcutInvalid then
    { diagnostic with notes := diagnostic.notes.dropLast, snippet := none }
  else diagnostic

/-- The diagnostics that do not come from the solver, without explanations. -/
def Diagnostic.plain (diagnostics : List Diagnostic) : List Diagnostic :=
  (diagnostics.filter fun diagnostic => diagnostic.code ≠ .stackUnsolvable).map unexplained

theorem Diagnostic.unexplained_explained {diagnostic : Diagnostic}
    (hcode : diagnostic.code = .pointcutInvalid) (hbare : diagnostic.snippet = none)
    (rejection : Pointcut.Rejection) :
    unexplained { diagnostic.addNote rejection.message with snippet := rejection.rendered } =
      diagnostic := by
  obtain ⟨code, message, location, notes, context, snippet⟩ := diagnostic
  subst hcode hbare
  simp only [unexplained, addNote, if_true, List.dropLast_concat]

theorem Diagnostic.plain_append (left right : List Diagnostic) :
    plain (left ++ right) = plain left ++ plain right := by
  simp only [plain, List.filter_append, List.map_append]

theorem Diagnostic.plain_eq_nil {diagnostics : List Diagnostic} :
    plain diagnostics = [] ↔
      ∀ diagnostic ∈ diagnostics, diagnostic.code = .stackUnsolvable := by
  simp [plain]

/-- Whatever is done to diagnostics, they are plain again if it is undone. -/
theorem Diagnostic.plain_map {diagnostics : List Diagnostic} (explain : Diagnostic → Diagnostic)
    (hsolvable : ∀ diagnostic ∈ diagnostics, (explain diagnostic).code ≠ .stackUnsolvable)
    (hundone : ∀ diagnostic ∈ diagnostics, (explain diagnostic).unexplained = diagnostic) :
    plain (diagnostics.map explain) = diagnostics := by
  have hkept : (diagnostics.map explain).filter
      (fun diagnostic => diagnostic.code ≠ .stackUnsolvable) = diagnostics.map explain := by
    rw [List.filter_eq_self, List.forall_mem_map]
    intro diagnostic hmem
    exact decide_eq_true (hsolvable diagnostic hmem)
  rw [plain, hkept, List.map_map]
  exact (List.map_congr_left hundone).trans (List.map_id diagnostics)

namespace Subject

variable {subject : Subject} {report : Report}

/-- What compilation adds to the report on an advice comes off again. -/
theorem plain_explained (hreports : subject.ReportsAll report.diagnostics)
    {rejection : Option Pointcut.Rejection}
    (hread : rejection = none → subject.advice.pointcut ≠ none) :
    Diagnostic.plain ((rejection.map report.explain).getD report).diagnostics =
      report.diagnostics := by
  cases rejection with
  | none =>
      have hplain := Diagnostic.plain_map id
        (fun diagnostic hmem => (hreports diagnostic hmem).solvable) (by
          intro diagnostic hmem
          have hcode : diagnostic.code ≠ .pointcutInvalid := fun hcode =>
            hread rfl ((hreports diagnostic hmem).unread hcode)
          exact if_neg hcode)
      rwa [List.map_id] at hplain
  | some rejection =>
      refine Diagnostic.plain_map _ ?_ ?_
      · intro diagnostic hmem
        have hsolvable := (hreports diagnostic hmem).solvable
        split
        · exact hsolvable
        · exact hsolvable
      · intro diagnostic hmem
        have hbare := (hreports diagnostic hmem).bare
        split
        · next hcode => exact Diagnostic.unexplained_explained hcode hbare rejection
        · next hcode => exact if_neg hcode

/-- No explanation makes a diagnostic one of the solver. -/
theorem solvable_explained (hreports : subject.ReportsAll report.diagnostics)
    (rejection : Option Pointcut.Rejection) {diagnostic : Diagnostic}
    (hmem : diagnostic ∈ ((rejection.map report.explain).getD report).diagnostics) :
    diagnostic.code ≠ .stackUnsolvable := by
  cases rejection with
  | none => exact (hreports diagnostic hmem).solvable
  | some rejection =>
      obtain ⟨found, hfound, rfl⟩ := List.mem_map.mp hmem
      have hsolvable := (hreports found hfound).solvable
      split
      · exact hsolvable
      · exact hsolvable

end Subject

namespace Compiler

variable {compiler : Compiler σ} {site : CallSite} {subject : Subject}
variable {rejection : Option Pointcut.Rejection} {name : String} {state : σ}

/-- An advice that passed verification and has no `void` operand is assembled, or
there are no instructions for its shuffle. -/
theorem unsolvable_of_check {report : Report} {isStatic : Bool} {pointcut : Method}
    {failure : AssemblyError}
    (hcheck : compiler.check subject rejection = .ok (report, some isStatic))
    (hintercepts : subject.advice.pointcut = some pointcut) (hvoid : .void ∉ pointcut.params)
    (herror : (AdviceUnit.assemble compiler.solver state site.spi site.helpers subject.advice
      name isStatic).1 = .error failure) :
    ∃ current target, failure = .unsolvable current target := by
  obtain ⟨verified, checked, hverified, hclean, -, hchecked, hstatic⟩ := check_eq_ok_some hcheck
  obtain ⟨found, hvalid⟩ := (Subject.isClean_iff_validOn hverified).mp hclean
  have hfound : found = pointcut := Option.some.inj (hvalid.intercepts.symm.trans hintercepts)
  have hsame : checked = pointcut := Option.some.inj (hchecked.symm.trans hintercepts)
  subst hfound hsame
  obtain hshuffle | hunsolvable := AdviceUnit.assemble_eq_error hintercepts herror
  · have hreceiver : .receiver ∈ subject.advice.values →
        Shuffle.hasReceiver checked isStatic = true := by
      intro hreceiver
      have hinstance : isStatic = false := by
        rw [← Bool.not_eq_true, isStatic_eq_true_iff hstatic hvalid.located]
        exact fun hboth => hvalid.receiver hboth.2 hreceiver
      simp [Shuffle.hasReceiver, hinstance]
    obtain ⟨index, -, hmem⟩ := Shuffle.ofAdvice_eq_error hvalid.ordered hreceiver hshuffle
    exact absurd hmem hvoid
  · exact hunsolvable

/-- A signature is refused with a reason, or read as a pointcut that has no `void`
parameter. -/
theorem readPointcut_of_unread {styled : Bool}
    (hread : compiler.read = Pointcut.readReporting styled) {advice : Advice}
    (hunread : advice.pointcut = none) :
    ((compiler.readPointcut advice).2 = none → (compiler.readPointcut advice).1.pointcut ≠ none) ∧
      ∀ pointcut, (compiler.readPointcut advice).1.pointcut = some pointcut →
        .void ∉ pointcut.params := by
  rw [readPointcut, hunread, hread, Pointcut.readReporting]
  cases hpointcut : Pointcut.read advice.signature with
  | error faults => simp [hunread]
  | ok method =>
      refine ⟨by simp, ?_⟩
      rintro pointcut ⟨⟩
      exact Pointcut.void_not_mem_params_of_read hpointcut

theorem exists_isStatic (htotal : compiler.resolver.Total) (pointcut : Method) :
    ∃ isStatic, compiler.isStatic pointcut = .ok isStatic := by
  rw [isStatic]
  split
  · exact ⟨_, rfl⟩
  · split
    · refine exists_bind_eq_ok (htotal.locate pointcut) ?_
      rintro (failure | flags)
      · exact ⟨_, rfl⟩
      · exact ⟨_, rfl⟩
    · exact ⟨_, rfl⟩

theorem exists_check (htotal : compiler.resolver.Total) (subject : Subject)
    (rejection : Option Pointcut.Rejection) :
    ∃ report passed, compiler.check subject rejection = .ok (report, passed) := by
  have hchecked : ∃ checked, compiler.check subject rejection = .ok checked := by
    refine exists_bind_eq_ok (Subject.exists_verify htotal subject _) ?_
    intro verified
    simp only
    split
    · split
      · exact ⟨_, rfl⟩
      · next pointcut _ =>
          exact exists_bind_eq_ok (exists_isStatic htotal pointcut) fun _ => ⟨_, rfl⟩
    · exact ⟨_, rfl⟩
  obtain ⟨⟨report, passed⟩, hcheck⟩ := hchecked
  exact ⟨report, passed, hcheck⟩

/-- The diagnostics that verification finds in an advice. -/
def found (compiler : Compiler σ) (subject : Subject) : List Diagnostic :=
  (CallSite.verifySubject subject compiler.resolver compiler.options.verifier).diagnostics

theorem found_of_verify {verified : Report}
    (hverified : subject.verify compiler.resolver compiler.options.verifier = .ok verified) :
    compiler.found subject = verified.diagnostics := by
  rw [found, CallSite.verifySubject, hverified]

/-- What is said when an advice is compiled, against what verification finds in it. -/
structure Agrees (compiler : Compiler σ) (subjects : List Subject)
    (diagnostics : List Diagnostic) : Prop where
  plain : Diagnostic.plain diagnostics = subjects.flatMap compiler.found
  unsolved : ∀ diagnostic ∈ diagnostics, diagnostic.code = .stackUnsolvable →
    ∃ subject ∈ subjects, diagnostic.location.adviceIndex? = some subject.index ∧
      compiler.found subject = []

theorem agrees_nil : compiler.Agrees [] [] :=
  ⟨rfl, List.forall_mem_nil _⟩

theorem Agrees.append {subjects others : List Subject} {left right : List Diagnostic}
    (hleft : compiler.Agrees subjects left) (hright : compiler.Agrees others right) :
    compiler.Agrees (subjects ++ others) (left ++ right) := by
  constructor
  · rw [Diagnostic.plain_append, List.flatMap_append, hleft.plain, hright.plain]
  · intro diagnostic hmem hcode
    rcases List.mem_append.mp hmem with hmem | hmem
    · obtain ⟨subject, hsubject, hplace, hfound⟩ := hleft.unsolved diagnostic hmem hcode
      exact ⟨subject, List.mem_append_left others hsubject, hplace, hfound⟩
    · obtain ⟨subject, hsubject, hplace, hfound⟩ := hright.unsolved diagnostic hmem hcode
      exact ⟨subject, List.mem_append_right subjects hsubject, hplace, hfound⟩

/-- The advice of an entry with its signature read. -/
def subjectOf (compiler : Compiler σ) (site : CallSite) (entry : Advice × Nat × String) : Subject :=
  ⟨site.owner, entry.2.1, (compiler.readPointcut entry.1).1⟩

section Unlimited

variable (htotal : compiler.resolver.Total)
  (hlimit : compiler.options.verifier.maxDiagnostics = 0)

include htotal hlimit

/-- One advice: compilation refuses it with what verification finds, or takes it
from verification without a diagnostic. -/
theorem agrees_compileSubject (site : CallSite) (subject : Subject) (name : String) (state : σ)
    (hread : rejection = none → subject.advice.pointcut ≠ none)
    (hvoid : ∀ pointcut, subject.advice.pointcut = some pointcut → .void ∉ pointcut.params) :
    compiler.Agrees [subject]
      (Outcome.diagnostics (compiler.compileSubject site subject rejection name state).1) := by
  obtain ⟨report, passed, hcheck⟩ := exists_check htotal subject rejection
  obtain ⟨verified, hverified, rfl, hpassed⟩ := check_eq_ok hcheck
  have hreports := Subject.reportsAll_verify hlimit hverified
  have hfound : [subject].flatMap compiler.found = verified.diagnostics := by
    rw [List.flatMap_singleton, found_of_verify hverified]
  obtain ⟨-, rfl⟩ | ⟨hclean, pointcut, isStatic, hintercepts, -, rfl⟩ := hpassed
  · -- The advice is refused with the report of verification, explained.
    simp only [compileSubject, hcheck, Outcome.diagnostics]
    refine ⟨(Subject.plain_explained hreports hread).trans hfound.symm, ?_⟩
    intro diagnostic hmem hcode
    exact absurd hcode (Subject.solvable_explained hreports rejection hmem)
  · -- Verification finds nothing, and all that is left is to find instructions.
    have hnone := Report.diagnostics_of_isClean hclean
    have hempty : ((rejection.map verified.explain).getD verified).diagnostics = [] :=
      Report.diagnostics_of_isClean ((Report.isClean_explained verified rejection).trans hclean)
    have hunlimited := unlimited_of_check hlimit hcheck
    rcases hassemble : AdviceUnit.assemble compiler.solver state site.spi site.helpers
      subject.advice name isStatic with ⟨failure | unit, next⟩
    · obtain ⟨current, target, rfl⟩ := unsolvable_of_check hcheck hintercepts
        (hvoid pointcut hintercepts) (congrArg Prod.fst hassemble)
      simp only [compileSubject, hcheck, hassemble, Outcome.diagnostics, hunlimited.add_eq,
        hempty, List.nil_append]
      refine ⟨hfound.trans hnone |>.symm, ?_⟩
      intro diagnostic hmem _
      rw [List.mem_singleton.mp hmem]
      exact ⟨subject, List.mem_singleton_self subject, rfl, (found_of_verify hverified).trans hnone⟩
    · simp only [compileSubject, hcheck, hassemble, Outcome.diagnostics]
      exact ⟨hfound.trans hnone |>.symm, List.forall_mem_nil _⟩

variable {styled : Bool} (hread : compiler.read = Pointcut.readReporting styled)

include hread

/-- The advices of a call site, one after the other. -/
theorem agrees_compileAdvices (site : CallSite) {entries : List (Advice × Nat × String)}
    (hunread : ∀ entry ∈ entries, entry.1.pointcut = none) {compiled : Compiled}
    (hcompiled : compiled.report.Unlimited) (state : σ) :
    (compiler.compileAdvices site entries compiled state).1.report.Unlimited ∧
      ∃ added, (compiler.compileAdvices site entries compiled state).1.report.diagnostics =
          compiled.report.diagnostics ++ added ∧
        compiler.Agrees (entries.map (compiler.subjectOf site)) added := by
  induction entries generalizing compiled state with
  | nil => exact ⟨hcompiled, [], (List.append_nil _).symm, agrees_nil⟩
  | cons entry rest ih =>
      obtain ⟨hfirst, hrest⟩ := List.forall_mem_cons.mp hunread
      obtain ⟨hpointcut, hvoid⟩ := readPointcut_of_unread hread hfirst
      have hstep := agrees_compileSubject htotal hlimit site (compiler.subjectOf site entry)
        entry.2.2 state hpointcut hvoid
      have houtcome : Outcome.Unlimited (compiler.compileSubject site
          (compiler.subjectOf site entry) (compiler.readPointcut entry.1).2 entry.2.2 state).1 :=
        unlimited_compileSubject hlimit
      obtain ⟨hnext, hadded⟩ := report_addOutcome hcompiled houtcome
      obtain ⟨hlast, added, hall, hagrees⟩ := ih hrest hnext (compiler.compileSubject site
        (compiler.subjectOf site entry) (compiler.readPointcut entry.1).2 entry.2.2 state).2
      refine ⟨hlast, _ ++ added, ?_, hstep.append hagrees⟩
      rw [← List.append_assoc, ← hadded]
      exact hall

end Unlimited

/-- The advices that are compiled are those that verification sees afterwards. -/
theorem map_subjectOf :
    (site.advices.zip site.unitNames).map (compiler.subjectOf site) =
      (compiler.readAll site).subjects := by
  apply List.ext_getElem?
  intro index
  simp only [CallSite.subjects, readAll, CallSite.withAdvices, List.getElem?_map,
    List.getElem?_zipIdx, List.zip, List.getElem?_zipWith]
  cases hadvice : site.advices[index]? with
  | none => rfl
  | some advice =>
      have hindex := (List.getElem?_eq_some_iff.mp hadvice).1
      obtain ⟨name, hname⟩ := site.exists_name_of_lt hindex
      simp [hname, subjectOf]

end Compiler

namespace CallSite

variable {site : CallSite} {resolver : Resolver} {options : VerificationOptions}

theorem adviceIndex?_eq_none (site : CallSite) (resolver : Resolver)
    (options : VerificationOptions) :
    ∀ diagnostic ∈ site.adviceDiagnostics ++ site.spiDiagnostics resolver options,
      diagnostic.location.adviceIndex? = none := by
  refine List.forall_mem_append.mpr ⟨?_, ?_⟩
  · exact Diagnostic.forall_mem_ite (fun _ => rfl) (List.forall_mem_nil _)
  · rw [spiDiagnostics]
    split
    · split
      · exact Diagnostic.forall_mem_ite (fun _ => rfl)
          (Diagnostic.forall_mem_ite (fun _ => rfl) (List.forall_mem_nil _))
      · exact List.forall_mem_singleton.mpr rfl
    · exact List.forall_mem_nil _

/-- A diagnostic on the call site as a whole lies in no advice. -/
theorem adviceIndex?_of_mem_verifyHeader (hlimit : options.maxDiagnostics = 0)
    {diagnostic : Diagnostic}
    (hmem : diagnostic ∈ (site.verifyHeader resolver options).diagnostics) :
    diagnostic.location.adviceIndex? = none := by
  rw [verifyHeader, hlimit, Report.ofList_zero] at hmem
  obtain ⟨bare, hbare, rfl⟩ := List.mem_map.mp hmem
  exact adviceIndex?_eq_none site resolver options bare hbare

theorem adviceIndex?_of_mem_verifySubject {subject : Subject} (hlimit : options.maxDiagnostics = 0)
    {diagnostic : Diagnostic}
    (hmem : diagnostic ∈ (verifySubject subject resolver options).diagnostics) :
    diagnostic.location.adviceIndex? = some subject.index := by
  rw [verifySubject] at hmem
  split at hmem
  · next report hverify => exact (Subject.reportsAll_verify hlimit hverify diagnostic hmem).place
  · rw [hlimit, Report.ofList_zero] at hmem
    rw [List.mem_singleton.mp hmem]
    rfl

/-- Without a limit verification reports all its findings. -/
theorem verify_of_unlimited (hlimit : options.maxDiagnostics = 0) (site : CallSite) :
    site.verify resolver options =
      ⟨0, (site.verifyHeader resolver options).diagnostics ++ site.subjects.flatMap fun subject =>
        (verifySubject subject resolver options).diagnostics, 0⟩ := by
  have hsame : options.withLimit 0 = options := by
    rw [VerificationOptions.withLimit, ← hlimit]
  have hverify := verify_withLimit resolver options 0 site
  rwa [findings, hsame, Report.ofList_zero] at hverify

theorem mem_subjects {subject : Subject} :
    subject ∈ site.subjects ↔
      subject.owner = site.owner ∧ site.advices[subject.index]? = some subject.advice := by
  simp only [subjects, List.mem_map, Prod.exists, List.mem_zipIdx_iff_getElem?]
  constructor
  · rintro ⟨advice, index, hadvice, rfl⟩
    exact ⟨rfl, hadvice⟩
  · rintro ⟨howner, hadvice⟩
    exact ⟨subject.advice, subject.index, hadvice, by rw [← howner]⟩

/-- A call site has one advice at an index. -/
theorem subject_eq_of_index_eq {subject other : Subject} (hsubject : subject ∈ site.subjects)
    (hother : other ∈ site.subjects) (hindex : subject.index = other.index) : subject = other := by
  rw [mem_subjects] at hsubject hother
  have hadvice : some subject.advice = some other.advice := by
    rw [← hsubject.2, ← hother.2, hindex]
  have howner : subject.owner = other.owner := hsubject.1.trans hother.1.symm
  cases subject
  cases other
  cases hindex
  cases hadvice
  cases howner
  rfl

end CallSite

namespace Compiler

variable {compiler : Compiler σ} {site : CallSite}

theorem verifyHeader_leaves :
    (compiler.leaves site).verifyHeader compiler.resolver compiler.options.verifier =
      site.verifyHeader compiler.resolver compiler.options.verifier := by
  rw [leaves]
  split
  · exact verifyHeader_readAll
  · rfl

/-- What verification reports on a call site that has been compiled. -/
theorem verify_leaves (hlimit : compiler.options.verifier.maxDiagnostics = 0) :
    (compiler.leaves site).verify compiler.resolver compiler.options.verifier =
      ⟨0, (site.verifyHeader compiler.resolver compiler.options.verifier).diagnostics ++
        (compiler.leaves site).subjects.flatMap compiler.found, 0⟩ := by
  rw [CallSite.verify_of_unlimited hlimit, verifyHeader_leaves]
  rfl

theorem index_lt_of_mem_leaves {subject : Subject}
    (hsubject : subject ∈ (compiler.leaves site).subjects) :
    subject.index < site.advices.length := by
  have hindex := (List.getElem?_eq_some_iff.mp (CallSite.mem_subjects.mp hsubject).2).1
  have hlength : (compiler.leaves site).advices.length = site.advices.length := by
    rw [leaves]
    split
    · exact List.length_map _
    · rfl
  rwa [hlength] at hindex

theorem adviceIndex?_of_mem_found (hlimit : compiler.options.verifier.maxDiagnostics = 0)
    {subjects : List Subject} {diagnostic : Diagnostic}
    (hmem : diagnostic ∈ subjects.flatMap compiler.found) :
    ∃ subject ∈ subjects, diagnostic ∈ compiler.found subject ∧
      diagnostic.location.adviceIndex? = some subject.index := by
  obtain ⟨subject, hsubject, hfound⟩ := List.mem_flatMap.mp hmem
  exact ⟨subject, hsubject, hfound, CallSite.adviceIndex?_of_mem_verifySubject hlimit hfound⟩

/-- An advice that wants instructions is one in which verification finds nothing. -/
theorem Agrees.unsolved_alone (hlimit : compiler.options.verifier.maxDiagnostics = 0)
    {diagnostics : List Diagnostic}
    (hagrees : compiler.Agrees (compiler.leaves site).subjects diagnostics) :
    ∀ diagnostic ∈ diagnostics, diagnostic.code = .stackUnsolvable →
      ∃ index < site.advices.length, diagnostic.location.adviceIndex? = some index ∧
        ∀ other ∈ (compiler.leaves site).subjects.flatMap compiler.found,
          other.location.adviceIndex? ≠ some index := by
  intro diagnostic hmem hcode
  obtain ⟨subject, hsubject, hplace, hnone⟩ := hagrees.unsolved diagnostic hmem hcode
  refine ⟨subject.index, index_lt_of_mem_leaves hsubject, hplace, ?_⟩
  intro other hother hindex
  obtain ⟨blamed, hblamed, hfound, hother⟩ := adviceIndex?_of_mem_found hlimit hother
  have hsame : blamed = subject :=
    CallSite.subject_eq_of_index_eq hblamed hsubject (Option.some.inj (hother.symm.trans hindex))
  rw [hsame, hnone] at hfound
  cases hfound

/-- The advices of a call site whose header has passed. -/
theorem agrees_compile (htotal : compiler.resolver.Total)
    (hlimit : compiler.options.verifier.maxDiagnostics = 0) {styled : Bool}
    (hread : compiler.read = Pointcut.readReporting styled)
    (hunread : ∀ advice ∈ site.advices, advice.pointcut = none)
    (hheader : (site.verifyHeader compiler.resolver compiler.options.verifier).isClean = true)
    (state : σ) :
    (compiler.compile site state).1.report.Unlimited ∧
      compiler.Agrees (compiler.leaves site).subjects
        (compiler.compile site state).1.report.diagnostics := by
  have hentries : ∀ entry ∈ site.advices.zip site.unitNames, entry.1.pointcut = none :=
    fun entry hmem => hunread entry.1 (List.of_mem_zip hmem).1
  have hopened : (compiler.opened site).report.diagnostics = [] :=
    Report.diagnostics_of_isClean hheader
  obtain ⟨hlast, added, hadded, hagrees⟩ := agrees_compileAdvices htotal hlimit hread site
    hentries (unlimited_opened hlimit) state
  rw [hopened, List.nil_append] at hadded
  have hclean : (compiler.opened site).report.isClean = true := hheader
  rw [compile_eq_ite, if_pos hclean, leaves, if_pos hheader, ← map_subjectOf]
  exact ⟨hlast, hadded ▸ hagrees⟩

end Compiler

/-- A call site whose signatures are all unread is told the same by compilation and
by verification after it.  If the call site itself passes, compilation says what
verification says, with the reasons why signatures were refused, and beyond that
that it has no instructions for advices in which verification finds nothing.  If
it does not pass, compilation stops where verification goes on to the advices. -/
theorem compile_agrees_with_verify (compiler : Compiler σ) (site : CallSite) (state : σ)
    (styled : Bool) (hread : compiler.read = Pointcut.readReporting styled)
    (htotal : compiler.resolver.Total) (hlimit : compiler.options.verifier.maxDiagnostics = 0)
    (hunread : ∀ advice ∈ site.advices, advice.pointcut = none) :
    let header := site.verifyHeader compiler.resolver compiler.options.verifier
    let compiled := (compiler.compile site state).1.report
    let verified :=
      (compiler.compile site state).2.1.verify compiler.resolver compiler.options.verifier
    (compiled.omitted = 0 ∧ verified.omitted = 0) ∧
      (header.isClean = true →
        Diagnostic.plain compiled.diagnostics = verified.diagnostics ∧
          ∀ diagnostic ∈ compiled.diagnostics, diagnostic.code = .stackUnsolvable →
            ∃ index < site.advices.length, diagnostic.location.adviceIndex? = some index ∧
              ∀ other ∈ verified.diagnostics, other.location.adviceIndex? ≠ some index) ∧
      (header.isClean = false →
        (∀ diagnostic ∈ compiled.diagnostics, diagnostic.location.adviceIndex? = none) ∧
          ∃ others, verified.diagnostics = compiled.diagnostics ++ others ∧
            ∀ other ∈ others, other.location.adviceIndex? ≠ none) ∧
      (compiled.isClean = true → verified.isClean = true) ∧
      (verified.isClean = true →
        ∀ diagnostic ∈ compiled.diagnostics, diagnostic.code = .stackUnsolvable) := by
  intro header compiled verified
  have hverified : verified = ⟨0, header.diagnostics ++
      (compiler.leaves site).subjects.flatMap compiler.found, 0⟩ := by
    rw [← Compiler.verify_leaves hlimit, ← Compiler.site_compile]
  have hnothing : verified.isClean = true ↔ verified.diagnostics = [] := by
    simp [hverified, Report.isClean]
  cases hheader : header.isClean with
  | false =>
      have hcompiled : compiled = header :=
        congrArg (fun outcome => outcome.1.report) (Compiler.compile_of_header_unclean hheader)
      have hunlimited : header.Unlimited := Compiler.unlimited_opened hlimit
      rw [hcompiled, hnothing, hverified]
      refine ⟨⟨hunlimited.omitted, rfl⟩, by simp, fun _ => ⟨?_, _, rfl, ?_⟩, ?_, ?_⟩
      · exact fun diagnostic => CallSite.adviceIndex?_of_mem_verifyHeader hlimit
      · intro other hother
        obtain ⟨subject, -, -, hindex⟩ := Compiler.adviceIndex?_of_mem_found hlimit hother
        simp [hindex]
      · simp [hheader]
      · intro hnone
        rw [(List.append_eq_nil_iff.mp hnone).1]
        exact List.forall_mem_nil _
  | true =>
      obtain ⟨hunlimited, hagrees⟩ :=
        Compiler.agrees_compile htotal hlimit hread hunread hheader state
      have hfound : verified.diagnostics =
          (compiler.leaves site).subjects.flatMap compiler.found := by
        rw [hverified, Report.diagnostics_of_isClean hheader, List.nil_append]
      have hplain : Diagnostic.plain compiled.diagnostics = verified.diagnostics :=
        hagrees.plain.trans hfound.symm
      refine ⟨⟨hunlimited.omitted, by rw [hverified]⟩, fun _ => ⟨hplain, ?_⟩, by simp, ?_, ?_⟩
      · rw [hfound]
        exact hagrees.unsolved_alone hlimit
      · intro hclean
        rw [hnothing, ← hplain, Report.diagnostics_of_isClean hclean]
        rfl
      · rw [hnothing, ← hplain, Diagnostic.plain_eq_nil]
        exact id

namespace Sample

/-- A compiler that may not use any instruction and reports all it finds. -/
def candidCompiler : Compiler Unit := idleCompiler.withLimit 0

/-- An advice whose signature is refused, then one that wants instructions. -/
def mixedSite : CallSite := (siteOf brokenAdvice).addAdvice unreadAdvice

end Sample

/-- Verification finds the refused signature only, without the excerpt that
compilation shows of it. -/
theorem mixed_site_agrees :
    Diagnostic.plain
        (Sample.candidCompiler.compile Sample.mixedSite ()).1.report.diagnostics =
      ((Sample.candidCompiler.compile Sample.mixedSite ()).2.1.verify
        Sample.candidCompiler.resolver Sample.candidCompiler.options.verifier).diagnostics ∧
      (Sample.candidCompiler.compile Sample.mixedSite ()).1.report.diagnostics.map
          (fun diagnostic => (diagnostic.code, diagnostic.snippet.isSome)) =
        [(.pointcutInvalid, true), (.stackUnsolvable, false)] ∧
      ((Sample.candidCompiler.compile Sample.mixedSite ()).2.1.verify
          Sample.candidCompiler.resolver Sample.candidCompiler.options.verifier).diagnostics.map
          (fun diagnostic => (diagnostic.code, diagnostic.snippet.isSome)) =
        [(.pointcutInvalid, false)] := by
  have hnames : Sample.mixedSite.unitNames =
      [(0, "foo.AdvicesAround"), (1, "foo.AdvicesBefore")] := by
    rw [CallSite.unitNames, UnitName.ofMethods_eq]
    decide +kernel
  obtain ⟨-, hpasses, -, -, -⟩ := compile_agrees_with_verify Sample.candidCompiler
    Sample.mixedSite () false rfl (ClassPath.total_resolver _) rfl (by decide)
  obtain ⟨hplain, -⟩ := hpasses (by decide +kernel)
  refine ⟨hplain, ?_, ?_⟩
  · rw [Compiler.compile, hnames]
    decide +kernel
  · rw [← hplain, Compiler.compile, hnames]
    decide +kernel

end AdviceCompiler
