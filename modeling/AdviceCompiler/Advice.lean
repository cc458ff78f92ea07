import AdviceCompiler.Method

/-!
# Advice

An advice is a method that runs before, around or after the calls its pointcut
names.  Its parameters are bound by position to values of the intercepted call.
A position is bound at most once, and so is the pointcut.
-/

namespace AdviceCompiler

inductive AdviceKind where
  | before
  | around
  | after
  deriving DecidableEq

namespace AdviceKind

/-- The annotation tag of the kind. -/
def text : AdviceKind → String
  | .before => "Before"
  | .around => "Around"
  | .after => "After"

def ofTag? : String → Option AdviceKind
  | "Before" => some .before
  | "Around" => some .around
  | "After" => some .after
  | _ => none

end AdviceKind

/-- What an advice parameter receives from the intercepted call. -/
inductive Binding where
  /-- The object the method is called on. -/
  | receiver
  /-- The call's argument with this index. -/
  | argument (index : Nat)
  /-- The value the call gives. -/
  | result
  deriving DecidableEq

namespace Binding

def text : Binding → String
  | .receiver => "@This"
  | .argument index => "@Argument(" ++ toString index ++ ")"
  | .result => "@Return"

def isReceiver (binding : Binding) : Bool :=
  binding = .receiver

def isResult (binding : Binding) : Bool :=
  binding = .result

def argument? : Binding → Option Nat
  | .argument index => some index
  | _ => none

end Binding

/-- Why a step in the declaration of an advice is refused. -/
inductive DeclarationError where
  | positionBound (position : Nat)
  | unknownTag (tag : String)
  | missingIndex (tag : String)
  | pointcutSet (advice : String)
  deriving DecidableEq

def DeclarationError.message : DeclarationError → String
  | .positionBound position =>
      "advice parameter " ++ toString position ++ " is bound more than once"
  | .unknownTag tag => "unknown advice annotation `@" ++ tag ++ "`"
  | .missingIndex tag => "annotation `@" ++ tag ++ "` requires an index"
  | .pointcutSet advice => "pointcut of `" ++ advice ++ "` has already been set"

/-- A step in the declaration of an advice. -/
inductive DeclarationStep where
  | bind (position : Nat) (binding : Binding)
  | annotate (position : Nat) (tag : String) (index : Option Nat)
  | setPointcut (pointcut : Method)
  deriving DecidableEq

/-- Reads a parameter annotation; only an argument needs the index. -/
def Binding.ofAnnotation (tag : String) (index : Option Nat) :
    Except DeclarationError Binding :=
  match tag with
  | "This" => .ok .receiver
  | "Argument" =>
      match index with
      | some index => .ok (.argument index)
      | none => .error (.missingIndex tag)
  | "Return" => .ok .result
  | _ => .error (.unknownTag tag)

/-- Bindings in strictly ascending order of position. -/
def Ascending (bindings : List (Nat × Binding)) : Prop :=
  bindings.Pairwise fun left right => left.1 < right.1

theorem ascending_nil : Ascending [] := List.Pairwise.nil

structure Advice where
  kind : AdviceKind
  method : Method
  /-- The pointcut as it was written. -/
  signature : String
  /-- Parameter bindings in ascending order of position. -/
  bindings : List (Nat × Binding) := []
  /-- The intercepted method, once the signature has been read. -/
  pointcut : Option Method := none
  ascending : Ascending bindings := by exact ascending_nil
  deriving DecidableEq

namespace Advice

/-- Reads an advice annotation. -/
def ofAnnotation (tag : String) (method : Method) (signature : String) :
    Except DeclarationError Advice :=
  match AdviceKind.ofTag? tag with
  | some kind => .ok { kind, method, signature }
  | none => .error (.unknownTag tag)

/-- The binding of a parameter position. -/
def binding? (advice : Advice) (position : Nat) : Option Binding :=
  advice.bindings.lookup position

/-- Adds a binding in front of the first one with a greater position. -/
def insertBinding (position : Nat) (binding : Binding) :
    List (Nat × Binding) → List (Nat × Binding)
  | [] => [(position, binding)]
  | entry :: rest =>
      if position < entry.1 then (position, binding) :: entry :: rest
      else entry :: insertBinding position binding rest

theorem mem_insertBinding {position : Nat} {binding : Binding}
    {bindings : List (Nat × Binding)} {entry : Nat × Binding} :
    entry ∈ insertBinding position binding bindings ↔
      entry = (position, binding) ∨ entry ∈ bindings := by
  induction bindings with
  | nil => simp [insertBinding]
  | cons head rest ih =>
      unfold insertBinding
      split
      · simp
      · simp only [List.mem_cons, ih]
        exact or_left_comm

/-- A binding of a free position keeps the order. -/
theorem ascending_insertBinding {position : Nat} (binding : Binding)
    {bindings : List (Nat × Binding)} (hascending : Ascending bindings)
    (hfree : bindings.lookup position = none) :
    Ascending (insertBinding position binding bindings) := by
  induction bindings with
  | nil => exact List.pairwise_singleton _ _
  | cons head rest ih =>
      obtain ⟨hhead, hrest⟩ := List.pairwise_cons.mp hascending
      have hkeys := List.lookup_eq_none_iff.mp hfree
      have hother : position ≠ head.1 := fun heq => by
        simpa [heq] using hkeys head (.head _)
      unfold insertBinding
      split
      · next hlt =>
          refine List.pairwise_cons.mpr ⟨?_, hascending⟩
          rintro entry (_ | ⟨_, hentry⟩)
          · exact hlt
          · exact Nat.lt_trans hlt (hhead entry hentry)
      · next hge =>
          have hfreeRest : rest.lookup position = none :=
            List.lookup_eq_none_iff.mpr fun entry hentry => hkeys entry (.tail _ hentry)
          refine List.pairwise_cons.mpr ⟨?_, ih hrest hfreeRest⟩
          intro entry hentry
          obtain rfl | hentry := mem_insertBinding.mp hentry
          · show head.1 < position
            omega
          · exact hhead entry hentry

/-- Binds a parameter position that is still free. -/
def bind (advice : Advice) (position : Nat) (binding : Binding) :
    Except DeclarationError Advice :=
  match hfree : advice.binding? position with
  | some _ => .error (.positionBound position)
  | none =>
      .ok
        { advice with
          bindings := insertBinding position binding advice.bindings
          ascending := ascending_insertBinding binding advice.ascending hfree }

/-- Binds a parameter position by its annotation. -/
def bindAnnotation (advice : Advice) (position : Nat) (tag : String) (index : Option Nat) :
    Except DeclarationError Advice :=
  match Binding.ofAnnotation tag index with
  | .ok binding => advice.bind position binding
  | .error failure => .error failure

/-- Adds bindings in order and stops at the first that is refused. -/
def bindAll (advice : Advice) : List (Nat × Binding) → Except DeclarationError Advice
  | [] => .ok advice
  | (position, binding) :: rest =>
      match advice.bind position binding with
      | .ok advice => advice.bindAll rest
      | .error failure => .error failure

/-- Records the intercepted method, once. -/
def setPointcut (advice : Advice) (pointcut : Method) : Except DeclarationError Advice :=
  match advice.pointcut with
  | some _ => .error (.pointcutSet advice.method.name)
  | none => .ok { advice with pointcut := some pointcut }

/-- The advice that a step leads to, unless the step is refused. -/
def attempt (advice : Advice) : DeclarationStep → Except DeclarationError Advice
  | .bind position binding => advice.bind position binding
  | .annotate position tag index => Advice.bindAnnotation advice position tag index
  | .setPointcut pointcut => advice.setPointcut pointcut

/-- Takes a step: why it is refused, if it is, and the advice as it then
stands. -/
def perform (advice : Advice) (step : DeclarationStep) : Option DeclarationError × Advice :=
  match advice.attempt step with
  | .ok next => (none, next)
  | .error failure => (some failure, advice)

/-- The number of parameters the advice method takes. -/
def arity (advice : Advice) : Nat :=
  advice.method.params.length

/-- The bindings without their positions, in position order. -/
def values (advice : Advice) : List Binding :=
  advice.bindings.map Prod.snd

def hasReceiver (advice : Advice) : Bool :=
  advice.values.any Binding.isReceiver

def hasResult (advice : Advice) : Bool :=
  advice.values.any Binding.isResult

/-- Position and index of every bound argument. -/
def arguments (advice : Advice) : List (Nat × Nat) :=
  advice.bindings.filterMap fun entry => entry.2.argument?.map fun index => (entry.1, index)

/-- What the advice takes off the stack before the call, in position order. -/
def operands (advice : Advice) : List Binding :=
  advice.values.filter fun binding => !binding.isResult

def text (advice : Advice) : String :=
  "@" ++ advice.kind.text ++ "(\"" ++ advice.signature ++ "\") " ++ advice.method.text

end Advice

end AdviceCompiler
