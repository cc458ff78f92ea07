import AdviceCompiler.Assembly.Unit
import AdviceCompiler.Proofs.StackEffect
import AdviceCompiler.Verification.Compatibility

/-!
# A machine for advice units

The operations of a unit run on a stack of values.  Calls are checked: the
intercepted call finds exactly its operands on top, and the advice finds for
each parameter the value that its binding names.  A run that finds anything else
is stuck.
-/

namespace AdviceCompiler

inductive StackValue where
  /-- A value from before the unit, by its slot. -/
  | held (slot : Slot)
  /-- What the intercepted call gave. -/
  | produced (type : JavaType)
  /-- What the advice gave. -/
  | returned (type : JavaType)
  deriving DecidableEq

namespace StackValue

def slot? : StackValue → Option Slot
  | .held slot => some slot
  | _ => none

def category? : StackValue → Option Category
  | .held slot => some slot.category
  | .produced type => type.category?
  | .returned type => type.category?

end StackValue

/-- An intercepted call and the advice that runs at it. -/
structure Interception where
  advice : Advice
  pointcut : Method
  /-- Whether the intercepted method is declared static. -/
  isStatic : Bool

namespace Interception

variable (call : Interception)

/-- A constructor has the new object for its receiver. -/
def hasReceiver : Bool :=
  call.pointcut.isConstructor || !call.isStatic

/-- The bindings that name the operands of the call: the receiver, if any, and
all arguments. -/
def operandBindings : List Binding :=
  (if call.hasReceiver then [.receiver] else []) ++
    (List.range call.pointcut.params.length).map .argument

/-- The slot of an operand.  The receiver has the number zero, and the arguments
follow in order. -/
def slot? : Binding → Option Slot
  | .receiver => if call.hasReceiver then some ⟨0, .narrow⟩ else none
  | .argument index =>
      (call.pointcut.params[index]?).bind fun type =>
        type.category?.map fun category => ⟨UInt32.ofNat (index + 1), category⟩
  | .result => none

/-- The operands of the call; there are none if an argument has no width. -/
def operands? : Option Layout :=
  call.operandBindings.mapM call.slot?

/-- The value a binding names.  The result is the value the call has given. -/
def value? (binding : Binding) : Option StackValue :=
  match binding with
  | .result =>
      if call.pointcut.returnType.isVoid then none
      else some (.produced call.pointcut.returnType)
  | _ => (call.slot? binding).map .held

/-- What the advice takes for a parameter: the value its binding names, if it has
the width of the parameter's type. -/
def parameter? (position : Nat) : Option StackValue :=
  match call.advice.binding? position, call.advice.method.params[position]? with
  | some binding, some type =>
      (call.value? binding).filter fun value => value.category? = type.category?
  | _, _ => none

def parameters? : Option (List StackValue) :=
  (List.range call.advice.arity).mapM call.parameter?

end Interception

namespace StackMachine

/-- Takes values off the top of a stack, the last of them from the very top. -/
def pop (stack values : List StackValue) : Option (List StackValue) :=
  if values <:+ stack then some (stack.take (stack.length - values.length)) else none

/-- Puts what a call gave on top of a stack, unless it is `void`. -/
def push (stack : List StackValue) (value : JavaType → StackValue) (type : JavaType) :
    List StackValue :=
  if type.isVoid then stack else stack ++ [value type]

/-- Gives the reference on top another type. -/
def retype (stack : List StackValue) (type : JavaType) : Option (List StackValue) :=
  match stack.getLast? with
  | some (.produced actual) =>
      if actual.isReference then some (stack.dropLast ++ [.produced type]) else none
  | some (.returned actual) =>
      if actual.isReference then some (stack.dropLast ++ [.returned type]) else none
  | _ => none

/-- One operation.  Instructions move the slots from before the unit. -/
def step (call : Interception) (stack : List StackValue) : Operation → Option (List StackValue)
  | .shuffle instruction => do
      let layout ← stack.mapM StackValue.slot?
      let result ← (Layout.step layout instruction).toOption
      return result.map .held
  | .callIntercepted => do
      let operands ← call.operands?
      let rest ← pop stack (operands.map .held)
      return push rest .produced call.pointcut.returnType
  | .callAdvice method => do
      let parameters ← if method = call.advice.method then call.parameters? else none
      let rest ← pop stack parameters
      return push rest .returned method.returnType
  | .cast type => retype stack type

def run (call : Interception) (stack : List StackValue) :
    List Operation → Option (List StackValue)
  | [] => some stack
  | operation :: rest => (step call stack operation).bind fun next => run call next rest

@[simp]
theorem pop_append (stack values : List StackValue) :
    pop (stack ++ values) values = some stack := by
  simp [pop]

theorem pop_eq_some_iff {stack values rest : List StackValue} :
    pop stack values = some rest ↔ stack = rest ++ values := by
  constructor
  · intro hpop
    unfold pop at hpop
    split at hpop
    · next hsuffix =>
        rcases hsuffix with ⟨front, rfl⟩
        simpa using hpop
    · cases hpop
  · rintro rfl
    exact pop_append rest values

theorem push_append (below stack : List StackValue) (value : JavaType → StackValue)
    (type : JavaType) : push (below ++ stack) value type = below ++ push stack value type := by
  unfold push
  split
  · rfl
  · exact List.append_assoc below stack [value type]

theorem run_append (call : Interception) (stack : List StackValue)
    (first second : List Operation) :
    run call stack (first ++ second) =
      (run call stack first).bind fun next => run call next second := by
  induction first generalizing stack with
  | nil => rfl
  | cons operation rest ih =>
      simp only [List.cons_append, run, Option.bind_assoc]
      congr 1
      funext next
      exact ih next

theorem mapM_slot?_held (layout : Layout) :
    (layout.map StackValue.held).mapM StackValue.slot? = some layout := by
  induction layout with
  | nil => rfl
  | cons slot rest ih => simp [StackValue.slot?, ih]

variable {call : Interception}

theorem step_shuffle {layout result : Layout} {instruction : Instruction}
    (hstep : layout.step instruction = .ok result) :
    step call (layout.map .held) (.shuffle instruction) = some (result.map .held) := by
  simp only [step, mapM_slot?_held]
  simp [hstep, Except.toOption]

/-- Instructions act on a stack of slots as they do on its layout. -/
theorem run_shuffle {layout result : Layout} {instructions : List Instruction}
    (hrun : layout.run instructions = .ok result) :
    run call (layout.map .held) (instructions.map .shuffle) = some (result.map .held) := by
  induction instructions generalizing layout with
  | nil =>
      cases hrun
      rfl
  | cons instruction rest ih =>
      rcases Layout.run_cons_eq_ok_iff.mp hrun with ⟨next, hstep, hrest⟩
      rw [List.map_cons, run, step_shuffle hstep, Option.bind_some]
      exact ih hrest

/-- The operations after a shuffle find its target, whatever lies beneath. -/
theorem run_shuffle_append {current target : Layout} {instructions : List Instruction}
    (hrun : current.run instructions = .ok target) (below : Layout) (rest : List Operation) :
    run call ((below ++ current).map .held) (instructions.map .shuffle ++ rest) =
      run call ((below ++ target).map .held) rest := by
  rw [run_append, run_shuffle (Layout.run_append hrun below), Option.bind_some]

theorem run_callIntercepted {operands : Layout} (hoperands : call.operands? = some operands)
    (stack : List StackValue) (rest : List Operation) :
    run call (stack ++ operands.map .held) (.callIntercepted :: rest) =
      run call (push stack .produced call.pointcut.returnType) rest := by
  simp [run, step, hoperands]

theorem run_callAdvice {parameters : List StackValue}
    (hparameters : call.parameters? = some parameters) (stack : List StackValue)
    (rest : List Operation) :
    run call (stack ++ parameters) (.callAdvice call.advice.method :: rest) =
      run call (push stack .returned call.advice.method.returnType) rest := by
  simp [run, step, hparameters]

/-- An advice that was called found its parameters. -/
theorem run_callAdvice_eq_some {stack final : List StackValue} {rest : List Operation}
    (hrun : run call stack (.callAdvice call.advice.method :: rest) = some final) :
    ∃ parameters beneath, call.parameters? = some parameters ∧ stack = beneath ++ parameters ∧
      run call (push beneath .returned call.advice.method.returnType) rest = some final := by
  rcases Option.bind_eq_some_iff.mp hrun with ⟨next, hstep, hrest⟩
  simp only [step, if_true, bind, Option.bind_eq_some_iff] at hstep
  rcases hstep with ⟨parameters, hparameters, beneath, hpop, hnext⟩
  cases hnext
  exact ⟨parameters, beneath, hparameters, pop_eq_some_iff.mp hpop, hrest⟩

end StackMachine

namespace Interception

/-- The type of a value.  A slot has the type of any value that it stands for. -/
def HasType (call : Interception) : StackValue → JavaType → Prop
  | .held slot, type => ∃ binding, call.slot? binding = some slot ∧
      binding.typeAt? call.pointcut = some type
  | .produced actual, type => actual = type
  | .returned actual, type => actual = type

/-- One value of the type that the call gives, or nothing if that is `void`. -/
def Gives (call : Interception) (left : List StackValue) : Prop :=
  if call.pointcut.valueType.isVoid then left = []
  else ∃ value, left = [value] ∧ call.HasType value call.pointcut.valueType

/-- On any stack with `found` on top the operations run to their end, and put
what the call gives in the place of `found`. -/
def StackCorrect (call : Interception) (operations : List Operation) (found : Layout) : Prop :=
  ∀ below : Layout, ∃ left,
    StackMachine.run call ((below ++ found).map .held) operations =
      some (below.map .held ++ left) ∧
    call.Gives left

end Interception

end AdviceCompiler
