import AdviceCompiler.Proofs.CompiledUnits
import AdviceCompiler.Proofs.SignatureRoundTrip

/-!
# What can still fail after verification

An advice that passes verification has a pointcut, binds arguments that exist and
takes a receiver only where the call has one.  Its shuffle can then be planned,
unless the pointcut has a parameter of type `void`, which no written signature
gives it.  What is left to fail is the solver.  Verification and compilation find
out on their own whether a pointcut is static, and differ on constructors only.
-/

namespace AdviceCompiler

theorem bind_eq_error_iff {ε α β : Type} {first : Except ε α} {next : α → Except ε β}
    {failure : ε} :
    first >>= next = .error failure ↔
      first = .error failure ∨ ∃ value, first = .ok value ∧ next value = .error failure := by
  cases first <;> simp [bind, Except.bind]

theorem exists_mem_of_mapM_eq_error {ε α β : Type} {partly : α → Except ε β} {values : List α}
    {failure : ε} (herror : values.mapM partly = .error failure) :
    ∃ value ∈ values, partly value = .error failure := by
  induction values with
  | nil => cases herror
  | cons value rest ih =>
      rw [List.mapM_cons, bind_eq_error_iff] at herror
      obtain hfirst | ⟨first, -, hrest⟩ := herror
      · exact ⟨value, List.mem_cons_self, hfirst⟩
      · rw [bind_eq_error_iff] at hrest
        obtain hothers | ⟨others, -, hboth⟩ := hrest
        · obtain ⟨later, hlater, hfails⟩ := ih hothers
          exact ⟨later, List.mem_cons_of_mem _ hlater, hfails⟩
        · cases hboth

theorem Pointcut.void_not_mem_params_of_read {text : String} {method : Method}
    (hread : read text = .ok method) : .void ∉ method.params :=
  fun hvoid => ((wellFormed_of_read hread).params .void hvoid).2 rfl

namespace Shuffle

variable {advice : Advice} {pointcut : Method} {isStatic : Bool} {failure : AssemblyError}

/-- An argument of the pointcut has a slot unless its type is `void`. -/
theorem argumentSlot_eq_error {index : Nat} (hindex : index < pointcut.params.length)
    (herror : argumentSlot pointcut index = .error failure) :
    failure = .voidOperand index ∧ .void ∈ pointcut.params := by
  simp only [argumentSlot, List.getElem?_eq_getElem hindex] at herror
  split at herror
  · next hcategory =>
      cases herror
      have hvoid := JavaType.isVoid_iff.mp (JavaType.category?_eq_none_iff.mp hcategory)
      exact ⟨rfl, hvoid ▸ List.getElem_mem hindex⟩
  · cases herror

theorem operands_eq_error (herror : operands pointcut isStatic = .error failure) :
    ∃ index, failure = .voidOperand index ∧ .void ∈ pointcut.params := by
  obtain harguments | ⟨arguments, -, hboth⟩ := bind_eq_error_iff.mp herror
  · obtain ⟨index, hindex, hslot⟩ := exists_mem_of_mapM_eq_error harguments
    exact ⟨index, argumentSlot_eq_error (List.mem_range.mp hindex) hslot⟩
  · cases hboth

/-- Bound values that exist at the call have slots, up to arguments of type
`void`. -/
theorem bound_eq_error (hordered : advice.OrderedFor pointcut)
    (hreceiver : .receiver ∈ advice.values → hasReceiver pointcut isStatic = true)
    (herror : bound advice pointcut isStatic = .error failure) :
    ∃ index, failure = .voidOperand index ∧ .void ∈ pointcut.params := by
  obtain hslots | ⟨slots, -, hboth⟩ := bind_eq_error_iff.mp herror
  · obtain ⟨binding, hbinding, hslot⟩ := exists_mem_of_mapM_eq_error hslots
    have hvalue : binding ∈ advice.values := List.mem_of_mem_filter hbinding
    cases binding with
    | receiver =>
        rw [boundSlot, if_pos (hreceiver hvalue)] at hslot
        cases hslot
    | result => cases hslot
    | argument index =>
        have hindex := hordered.lt_of_mem hvalue
        cases hargument : argumentSlot pointcut index with
        | ok slot =>
            rw [boundSlot, hargument] at hslot
            cases hslot
        | error other =>
            rw [boundSlot, hargument] at hslot
            cases hslot
            exact ⟨index, argumentSlot_eq_error hindex hargument⟩
  · cases hboth

theorem ofAdvice_eq_error (hordered : advice.OrderedFor pointcut)
    (hreceiver : .receiver ∈ advice.values → hasReceiver pointcut isStatic = true)
    (herror : ofAdvice advice pointcut isStatic = .error failure) :
    ∃ index, failure = .voidOperand index ∧ .void ∈ pointcut.params := by
  rw [ofAdvice] at herror
  split at herror
  · cases herror
  · obtain hoperands | ⟨operands, -, hrest⟩ := bind_eq_error_iff.mp herror
    · exact operands_eq_error hoperands
    · obtain hbound | ⟨bound, -, hboth⟩ := bind_eq_error_iff.mp hrest
      · exact bound_eq_error hordered hreceiver hbound
      · cases hboth

end Shuffle

variable {σ : Type}

/-- A unit that is not assembled has no shuffle, or no instructions for it. -/
theorem AdviceUnit.assemble_eq_error {solver : Solver σ} {state : σ} {spi : JavaType}
    {helpers : List JavaType} {advice : Advice} {pointcut : Method} {name : String}
    {isStatic : Bool} {failure : AssemblyError} (hintercepts : advice.pointcut = some pointcut)
    (herror : (assemble solver state spi helpers advice name isStatic).1 = .error failure) :
    Shuffle.ofAdvice advice pointcut isStatic = .error failure ∨
      ∃ current target, failure = .unsolvable current target := by
  simp only [assemble, hintercepts] at herror
  split at herror
  · next hshuffle =>
      cases herror
      exact Or.inl hshuffle
  · next shuffle _ =>
      split at herror
      · next next hsolve =>
          cases herror
          right
          cases shuffle with
          | none => cases hsolve
          | some shuffle =>
              simp only [solve] at hsolve
              split at hsolve
              · cases hsolve
              · cases hsolve
                exact ⟨_, _, rfl⟩
      · cases herror

namespace Compiler

variable {compiler : Compiler σ} {pointcut : Method} {isStatic : Bool}

/-- Compilation takes a pointcut that resolves, or need not, to be static exactly
if verification knows it to be static and it is no constructor. -/
theorem isStatic_eq_true_iff (hstatic : compiler.isStatic pointcut = .ok isStatic)
    (hlocated : compiler.options.verifier.resolves = true →
      ∃ flags, compiler.resolver.locate pointcut = .ok (.ok flags)) :
    isStatic = true ↔
      pointcut.isConstructor = false ∧
        compiler.resolver.KnowsStatic compiler.options.verifier pointcut := by
  rw [Compiler.isStatic] at hstatic
  rw [Resolver.KnowsStatic]
  by_cases hconstructor : pointcut.isConstructor = true
  · rw [if_pos hconstructor] at hstatic
    cases hstatic
    simp [hconstructor]
  · rw [if_neg hconstructor] at hstatic
    by_cases hresolves : compiler.options.verifier.resolves = true
    · obtain ⟨flags, hlocate⟩ := hlocated hresolves
      rw [if_pos hresolves, hlocate] at hstatic
      cases hstatic
      simp [hconstructor, hresolves, hlocate]
    · rw [if_neg hresolves] at hstatic
      cases hstatic
      simp [hconstructor, hresolves]

end Compiler

/-- What verification accepts can be planned.  Verification and compilation agree
on the staticness of a method unless it is a constructor, which compilation never
takes to be static, and neither takes a call to be static whose receiver is bound.  Assembly then fails for want of instructions only, or because
of a `void` parameter, which a pointcut that was read does not have. -/
theorem accepted_assembly_fails_only_unsolvable (compiler : Compiler σ) (site : CallSite)
    (subject : Subject) (rejection : Option Pointcut.Rejection) (name : String) (state : σ)
    (report : Report) (isStatic : Bool)
    (hcheck : compiler.check subject rejection = .ok (report, some isStatic)) :
    report.isClean = true ∧ ∃ pointcut findings, subject.advice.pointcut = some pointcut ∧
      subject.inspectPointcut compiler.resolver compiler.options.verifier = .ok findings ∧
      (isStatic = true ↔
        pointcut.isConstructor = false ∧ findings.knownStatic = some true) ∧
      (.receiver ∈ subject.advice.values →
        isStatic = false ∧ findings.knownStatic ≠ some true) ∧
      ∀ failure, (AdviceUnit.assemble compiler.solver state site.spi site.helpers subject.advice
          name isStatic).1 = .error failure →
        ((∃ index, failure = .voidOperand index) ∨
          ∃ current target, failure = .unsolvable current target) ∧
        ((∃ text, Pointcut.read text = .ok pointcut) →
          ∃ current target, failure = .unsolvable current target) := by
  obtain ⟨verified, pointcut, hverified, hclean, hreport, hintercepts, hstatic⟩ :=
    Compiler.check_eq_ok_some hcheck
  obtain ⟨found, hvalid⟩ := (Subject.isClean_iff_validOn hverified).mp hclean
  have hsame : found = pointcut := Option.some.inj (hvalid.intercepts.symm.trans hintercepts)
  subst hsame
  obtain ⟨findings, hfindings, hnone⟩ :=
    (Subject.exists_clean_findings_iff hintercepts).mpr ⟨hvalid.constructorVoid, hvalid.located⟩
  have hknown := Subject.knownStatic_eq_true_iff hintercepts hnone hfindings
  have hagree := Compiler.isStatic_eq_true_iff hstatic hvalid.located
  have hinstance : .receiver ∈ subject.advice.values → isStatic = false := by
    intro hreceiver
    rw [← Bool.not_eq_true, hagree]
    exact fun hboth => hvalid.receiver hboth.2 hreceiver
  refine ⟨hreport, found, findings, hintercepts, hfindings, ?_, ?_, ?_⟩
  · rw [hknown]
    exact hagree
  · intro hreceiver
    rw [ne_eq, hknown]
    exact ⟨hinstance hreceiver, fun hstatic => hvalid.receiver hstatic hreceiver⟩
  · intro failure herror
    obtain hshuffle | hunsolvable := AdviceUnit.assemble_eq_error hintercepts herror
    · have hreceiver : .receiver ∈ subject.advice.values →
          Shuffle.hasReceiver found isStatic = true := by
        intro hreceiver
        simp [Shuffle.hasReceiver, hinstance hreceiver]
      obtain ⟨index, rfl, hvoid⟩ := Shuffle.ofAdvice_eq_error hvalid.ordered hreceiver hshuffle
      refine ⟨Or.inl ⟨index, rfl⟩, ?_⟩
      rintro ⟨text, hread⟩
      exact absurd hvoid (Pointcut.void_not_mem_params_of_read hread)
    · exact ⟨Or.inr hunsolvable, fun _ => hunsolvable⟩

namespace Sample

/-- A compiler that may not use any instruction. -/
def idleCompiler : Compiler Unit :=
  ⟨Pointcut.readReporting false, clockPath.resolver, Solver.search 0, {}⟩

def clockSubject : Subject := ⟨.object "foo.Advices", 0, clockAdvice⟩

end Sample

/-- A valid advice whose values would have to be copied is refused for want of
instructions, and for no other reason. -/
theorem clock_unit_unsolvable :
    ∃ report failure,
      Sample.idleCompiler.check Sample.clockSubject none = .ok (report, some false) ∧
      (AdviceUnit.assemble Sample.idleCompiler.solver () (.object CallSite.defaultSpi) []
        Sample.clockAdvice "foo.AdvicesAfter" false).1 = .error failure ∧
      ∃ current target, failure = .unsolvable current target := by
  have hcheck : Sample.idleCompiler.check Sample.clockSubject none =
      .ok (.limited 500, some false) := by
    decide +kernel
  have hfails : ∃ failure, (AdviceUnit.assemble Sample.idleCompiler.solver ()
      (.object CallSite.defaultSpi) [] Sample.clockAdvice "foo.AdvicesAfter" false).1 =
        .error failure :=
    ⟨.unsolvable [⟨0, .narrow⟩, ⟨1, .wide⟩]
      [⟨0, .narrow⟩, ⟨1, .wide⟩, ⟨0, .narrow⟩, ⟨1, .wide⟩], by decide +kernel⟩
  obtain ⟨failure, hfailure⟩ := hfails
  obtain ⟨-, pointcut, findings, hintercepts, -, -, -, honly⟩ :=
    accepted_assembly_fails_only_unsolvable Sample.idleCompiler
      ⟨.object "foo.Advices", .object CallSite.defaultSpi, [], []⟩ Sample.clockSubject none
      "foo.AdvicesAfter" () (.limited 500) false hcheck
  have hread : Pointcut.read "int foo.Clock.advance(long)" = .ok pointcut := by
    cases hintercepts
    decide +kernel
  exact ⟨_, failure, hcheck, hfailure, (honly failure hfailure).2 ⟨_, hread⟩⟩

namespace Sample

def coin : JavaType := .object "foo.Coin"

/-- A class whose constructor is declared static. -/
def coinPath : ClassPath :=
  .add .root ((ClassDeclaration.ofClass "foo.Coin").declare Method.constructorName [] .void true)

def coinCompiler : Compiler Unit :=
  ⟨Pointcut.readReporting false, coinPath.resolver, Solver.search 0, {}⟩

/-- Takes nothing of the call. -/
def beforeCoin : Subject where
  owner := .object "foo.Advices"
  index := 0
  advice :=
    { kind := .before
      method := ⟨.object "foo.Advices", "before", [], .void, ⟨true, true⟩⟩
      signature := "void foo.Coin.<init>()"
      pointcut := some (.constructor coin []) }

/-- Takes the new coin as its receiver. -/
def afterCoin : Subject where
  owner := .object "foo.Advices"
  index := 0
  advice :=
    { concatAdvice with
      kind := .after
      method := ⟨.object "foo.Advices", "after", [coin], coin, ⟨true, true⟩⟩
      signature := "void foo.Coin.<init>()"
      pointcut := some (.constructor coin []) }

end Sample

/-- A constructor that is declared static is static to verification and not to
compilation, on an advice that is accepted.  So verification refuses its receiver
to an advice that compilation would have one for. -/
theorem static_constructor_told_apart :
    (∃ report findings,
      Sample.coinCompiler.check Sample.beforeCoin none = .ok (report, some false) ∧
      report.isClean = true ∧
      Sample.beforeCoin.inspectPointcut Sample.coinCompiler.resolver
        Sample.coinCompiler.options.verifier = .ok findings ∧
      findings.knownStatic = some true) ∧
    (Sample.coinCompiler.check Sample.afterCoin none).map
        (fun checked => (checked.1.diagnostics.map Diagnostic.code, checked.2)) =
      .ok ([.receiverOnStatic], none) ∧
    Sample.coinCompiler.isStatic (.constructor Sample.coin []) = .ok false ∧
    Shuffle.boundSlot (.constructor Sample.coin []) false .receiver =
      .ok [Shuffle.receiverSlot] := by
  refine ⟨⟨.limited 500, ⟨[], some true, true⟩, ?_, rfl, ?_, rfl⟩, ?_, rfl, rfl⟩
  · decide +kernel
  · decide +kernel
  · decide +kernel

end AdviceCompiler
