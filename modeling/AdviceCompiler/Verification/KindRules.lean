import AdviceCompiler.Verification.Subject

/-!
# Rules of the advice kinds

Each kind of advice has three rules on its return type, its bindings and its
pointcut.
-/

namespace AdviceCompiler

/-- A rule that an advice of some kind breaks on a pointcut when `violated`
holds. -/
structure KindRule where
  violated : Advice → Method → Bool
  code : DiagnosticCode
  message : String

namespace AdviceKind

def rules : AdviceKind → List KindRule
  | .before =>
      [⟨fun advice _ => !advice.method.returnType.isVoid,
          .beforeReturnsValue, "before advice must return void"⟩,
        ⟨fun advice _ => advice.hasResult,
          .beforeBindsResult, "before advice cannot bind @Return"⟩,
        ⟨fun advice pointcut => pointcut.isConstructor && advice.hasReceiver,
          .beforeConstructorBindsReceiver,
          "before advice on a constructor cannot bind @This"⟩]
  | .around =>
      [⟨fun advice _ => advice.method.returnType.isVoid,
          .aroundReturnsVoid, "around advice must not return void"⟩,
        ⟨fun advice _ => advice.hasResult,
          .aroundBindsResult, "around advice cannot bind @Return"⟩,
        ⟨fun _ pointcut => pointcut.isConstructor,
          .aroundConstructor, "around advice cannot target a constructor"⟩]
  | .after =>
      [⟨fun advice _ => advice.method.returnType.isVoid,
          .afterReturnsVoid, "after advice must not return void"⟩,
        ⟨fun advice pointcut =>
            pointcut.isConstructor && advice.values.head? != some .receiver,
          .afterConstructorReceiverNotFirst,
          "after advice on a constructor must bind @This first"⟩,
        ⟨fun advice pointcut =>
            !pointcut.isConstructor && advice.values.getLast? != some .result,
          .afterResultNotLast, "after advice must bind @Return last"⟩]

end AdviceKind

namespace Subject

/-- One diagnostic for each rule of its kind that the advice breaks. -/
def kindDiagnostics (subject : Subject) (pointcut : Method) : List Diagnostic :=
  (subject.advice.kind.rules.filter fun rule => rule.violated subject.advice pointcut).map
    fun rule => { code := rule.code, message := rule.message, location := subject.location }

end Subject

end AdviceCompiler
