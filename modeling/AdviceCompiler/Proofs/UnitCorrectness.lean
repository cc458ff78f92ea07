import AdviceCompiler.Proofs.AcceptedAdvice
import AdviceCompiler.Proofs.StackMachine

/-!
# Stack correctness of advice units

The shuffle of an accepted advice puts the values its parameters are bound to
where the machine looks for them.  Each kind of unit is then run operation by
operation, on top of an arbitrary stack.
-/

namespace AdviceCompiler

theorem mapM_congr_of_mem {α β : Type} {left right : α → Option β} {values : List α}
    (hsame : ∀ value ∈ values, left value = right value) :
    values.mapM left = values.mapM right := by
  induction values with
  | nil => rfl
  | cons value rest ih =>
      rcases List.forall_mem_cons.mp hsame with ⟨hvalue, hrest⟩
      rw [List.mapM_cons, List.mapM_cons, hvalue, ih hrest]

/-- The staticness of a pointcut counts only for its receiver. -/
theorem Shuffle.ofAdvice_congr (advice : Advice) {pointcut : Method} {left right : Bool}
    (hreceiver : hasReceiver pointcut left = hasReceiver pointcut right) :
    ofAdvice advice pointcut left = ofAdvice advice pointcut right := by
  have hslots : boundSlot pointcut left = boundSlot pointcut right := by
    funext binding
    cases binding <;> simp only [boundSlot, hreceiver]
  simp only [ofAdvice, operands, bound, hreceiver, hslots]

theorem Shuffle.exists_some_of_ofAdvice {advice : Advice} {pointcut : Method} {isStatic : Bool}
    {found : Option Shuffle} (hkind : advice.kind ≠ .around)
    (hfound : ofAdvice advice pointcut isStatic = .ok found) :
    ∃ shuffle, found = some shuffle := by
  rw [ofAdvice, if_neg hkind] at hfound
  rcases bind_eq_ok_iff.mp hfound with ⟨operands, -, hrest⟩
  rcases bind_eq_ok_iff.mp hrest with ⟨bound, -, hboth⟩
  cases hboth
  exact ⟨_, rfl⟩

theorem Shuffle.exists_of_ofAdvice {advice : Advice} {pointcut : Method} {isStatic : Bool}
    {shuffle : Shuffle} (hshuffle : ofAdvice advice pointcut isStatic = .ok (some shuffle)) :
    ∃ operands bound, Shuffle.operands pointcut isStatic = .ok operands ∧
      Shuffle.bound advice pointcut isStatic = .ok bound ∧
      shuffle.current = created pointcut ++ operands ∧
      shuffle.target =
        if advice.kind = .before then created pointcut ++ operands ++ bound
        else bound ++ operands := by
  unfold ofAdvice at hshuffle
  split at hshuffle
  · cases hshuffle
  · rcases bind_eq_ok_iff.mp hshuffle with ⟨operands, hoperands, hrest⟩
    rcases bind_eq_ok_iff.mp hrest with ⟨bound, hbound, hboth⟩
    cases hboth
    exact ⟨operands, bound, hoperands, hbound, rfl, rfl⟩

namespace Interception

variable {call : Interception}

theorem slot?_of_argumentSlot {index : Nat} {slot : Slot}
    (hslot : Shuffle.argumentSlot call.pointcut index = .ok slot) :
    call.slot? (.argument index) = some slot := by
  unfold Shuffle.argumentSlot at hslot
  unfold slot?
  split at hslot
  · cases hslot
  · next type htype =>
      split at hslot
      · cases hslot
      · next category hcategory =>
          cases hslot
          simp [htype, hcategory]

theorem slot?_of_boundSlot {binding : Binding} {slots : Layout} (hbinding : binding ≠ .result)
    (hbound : Shuffle.boundSlot call.pointcut call.isStatic binding = .ok slots) :
    ∃ slot, slots = [slot] ∧ call.slot? binding = some slot := by
  cases binding with
  | receiver =>
      simp only [Shuffle.boundSlot] at hbound
      split at hbound
      · next hreceiver =>
          cases hbound
          exact ⟨Shuffle.receiverSlot, rfl, if_pos hreceiver⟩
      · cases hbound
  | argument index =>
      simp only [Shuffle.boundSlot] at hbound
      cases hslot : Shuffle.argumentSlot call.pointcut index with
      | error failure =>
          rw [hslot] at hbound
          cases hbound
      | ok slot =>
          rw [hslot] at hbound
          cases hbound
          exact ⟨slot, rfl, slot?_of_argumentSlot hslot⟩
  | result => exact absurd rfl hbinding

theorem mapM_slot?_of_argumentSlot {indices : List Nat} {slots : Layout}
    (hslots : indices.mapM (Shuffle.argumentSlot call.pointcut) = .ok slots) :
    (indices.map .argument).mapM call.slot? = some slots := by
  induction indices generalizing slots with
  | nil =>
      cases hslots
      rfl
  | cons index rest ih =>
      rw [List.mapM_cons] at hslots
      rcases bind_eq_ok_iff.mp hslots with ⟨slot, hslot, htail⟩
      rcases bind_eq_ok_iff.mp htail with ⟨others, hothers, hall⟩
      cases hall
      rw [List.map_cons, List.mapM_cons, slot?_of_argumentSlot hslot, ih hothers]
      rfl

theorem mapM_slot?_of_boundSlot {bindings : List Binding} {slots : List Layout}
    (hbindings : .result ∉ bindings)
    (hslots : bindings.mapM (Shuffle.boundSlot call.pointcut call.isStatic) = .ok slots) :
    bindings.mapM call.slot? = some slots.flatten := by
  induction bindings generalizing slots with
  | nil =>
      cases hslots
      rfl
  | cons binding rest ih =>
      rw [List.mapM_cons] at hslots
      rcases bind_eq_ok_iff.mp hslots with ⟨first, hfirst, htail⟩
      rcases bind_eq_ok_iff.mp htail with ⟨others, hothers, hall⟩
      cases hall
      rw [List.mem_cons, not_or] at hbindings
      rcases hbindings with ⟨hbinding, hrest⟩
      rcases slot?_of_boundSlot (Ne.symm hbinding) hfirst with ⟨slot, rfl, hslot⟩
      rw [List.mapM_cons, hslot, ih hrest hothers]
      rfl

/-- The operands of a shuffle are those of the call. -/
theorem operands?_of_operands {operands : Layout}
    (hoperands : Shuffle.operands call.pointcut call.isStatic = .ok operands) :
    call.operands? = some operands := by
  rcases bind_eq_ok_iff.mp hoperands with ⟨arguments, harguments, hall⟩
  cases hall
  have hsame : Shuffle.hasReceiver call.pointcut call.isStatic = call.hasReceiver := rfl
  unfold operands? operandBindings
  rw [List.mapM_append, mapM_slot?_of_argumentSlot harguments, hsame]
  cases hreceiver : call.hasReceiver with
  | false => rfl
  | true => simp [slot?, hreceiver, Shuffle.receiverSlot]

theorem value?_of_ne_result {binding : Binding} (hbinding : binding ≠ .result) :
    call.value? binding = (call.slot? binding).map .held := by
  cases binding with
  | receiver => rfl
  | argument index => rfl
  | result => exact absurd rfl hbinding

theorem mapM_value?_eq {bindings : List Binding} (hbindings : .result ∉ bindings) :
    bindings.mapM call.value? = (bindings.mapM call.slot?).map (List.map .held) := by
  induction bindings with
  | nil => rfl
  | cons binding rest ih =>
      rw [List.mem_cons, not_or] at hbindings
      rcases hbindings with ⟨hbinding, hrest⟩
      rw [List.mapM_cons, List.mapM_cons, value?_of_ne_result (Ne.symm hbinding), ih hrest]
      cases call.slot? binding <;> cases rest.mapM call.slot? <;> rfl

/-- The values an advice takes before the call are in the slots its shuffle
provides. -/
theorem mapM_value?_operands {bound : Layout}
    (hbound : Shuffle.bound call.advice call.pointcut call.isStatic = .ok bound) :
    call.advice.operands.mapM call.value? = some (bound.map .held) := by
  rcases bind_eq_ok_iff.mp hbound with ⟨slots, hslots, hall⟩
  cases hall
  have hresult : .result ∉ call.advice.operands := by
    simp [Advice.operands, Binding.isResult]
  rw [mapM_value?_eq hresult, mapM_slot?_of_boundSlot hresult hslots]
  rfl

/-- A named value has the width of its declared type. -/
theorem category?_of_value? {binding : Binding} {value : StackValue}
    (howner : call.pointcut.owner.isReference = true)
    (hvoid : call.pointcut.isConstructor = true → call.pointcut.returnType.isVoid = true)
    (hvalue : call.value? binding = some value) :
    ∃ type, binding.typeAt? call.pointcut = some type ∧
      value.category? = type.category? := by
  cases binding with
  | receiver =>
      have hnarrow := JavaType.category?_of_isReference howner
      simp only [value?, slot?] at hvalue
      split at hvalue
      · cases hvalue
        exact ⟨call.pointcut.owner, rfl, hnarrow.symm⟩
      · cases hvalue
  | argument index =>
      simp only [value?, slot?, Option.map_eq_some_iff, Option.bind_eq_some_iff] at hvalue
      rcases hvalue with ⟨slot, ⟨type, htype, category, hcategory, rfl⟩, rfl⟩
      exact ⟨type, htype, hcategory.symm⟩
  | result =>
      simp only [value?] at hvalue
      split at hvalue
      · cases hvalue
      · next hreturn =>
          cases hvalue
          have hmethod : ¬ call.pointcut.isConstructor = true := fun h => hreturn (hvoid h)
          refine ⟨call.pointcut.returnType, ?_, rfl⟩
          simp [Binding.typeAt?, Method.valueType, hmethod]

section Accepted

variable {path : ClassPath} {flags : MethodFlags}
variable (haccepted : call.advice.Accepted path.resolver call.pointcut flags)

include haccepted

/-- A parameter of an accepted advice takes what its binding names. -/
theorem parameter?_eq {position : Nat} {binding : Binding}
    (hmem : (position, binding) ∈ call.advice.bindings) :
    call.parameter? position = call.value? binding := by
  have hbelow : position < call.advice.method.params.length := by
    have hposition := List.mem_map_of_mem (f := Prod.fst) hmem
    rw [haccepted.wellBound.filled] at hposition
    exact List.mem_range.mp hposition
  rw [parameter?, Advice.binding?_of_mem hmem, List.getElem?_eq_getElem hbelow]
  cases hvalue : call.value? binding with
  | none => simp [hvalue]
  | some value =>
      rcases category?_of_value? haccepted.isReference_owner haccepted.constructorVoid hvalue
        with ⟨type, htype, hwidth⟩
      have haccepts := haccepted.parameters position binding hmem _ type
        (List.getElem?_eq_getElem hbelow) htype
      have hcategory := path.category?_eq_of_accepts (Except.ok.inj haccepts)
      simp [hvalue, hwidth, hcategory]

/-- The parameters of an accepted advice are the values of its bindings. -/
theorem parameters?_eq : call.parameters? = call.advice.values.mapM call.value? := by
  rw [parameters?, ← haccepted.wellBound.filled, Advice.values, List.mapM_map, List.mapM_map]
  apply mapM_congr_of_mem
  intro entry hmem
  exact parameter?_eq haccepted hmem

/-- What the shuffle provides, and the result if it is bound, are all that an
accepted advice takes. -/
theorem parameters?_of_bound {bound : Layout}
    (hbound : Shuffle.bound call.advice call.pointcut call.isStatic = .ok bound)
    (hresult : call.advice.hasResult = true → call.pointcut.returnType.isVoid = false) :
    call.parameters? = some (bound.map .held ++
      if call.advice.hasResult then [.produced call.pointcut.returnType] else []) := by
  rcases haccepted.wellBound.shape with ⟨intake, hvalues, -⟩
  have hoperands := mapM_value?_operands hbound
  rw [Intake.operands_eq hvalues] at hoperands
  rw [Intake.hasResult_eq hvalues] at hresult ⊢
  rw [parameters?_eq haccepted, hvalues, Intake.values, List.mapM_append, hoperands]
  cases hlast : intake.result with
  | false => rfl
  | true => simp [value?, hresult hlast]

open StackMachine

/-- A constructor leaves the new object, any other call what it gives. -/
theorem gives_created :
    call.Gives (push ((Shuffle.created call.pointcut).map .held) .produced
      call.pointcut.returnType) := by
  have howner := haccepted.isReference_owner
  unfold Gives
  by_cases hconstructor : call.pointcut.isConstructor = true
  · have hvoid := haccepted.constructorVoid hconstructor
    have hvalue : call.pointcut.owner.isVoid = false := by
      cases htype : call.pointcut.owner <;> simp_all [JavaType.isReference, JavaType.isVoid]
    have hslot : call.slot? .receiver = some Shuffle.receiverSlot := by
      simp [slot?, hasReceiver, hconstructor, Shuffle.receiverSlot]
    simp only [Method.valueType, Shuffle.created, push, hconstructor, hvoid, hvalue, if_true,
      Bool.false_eq_true, if_false, List.map_cons, List.map_nil]
    exact ⟨.held Shuffle.receiverSlot, rfl, .receiver, hslot, rfl⟩
  · simp only [Method.valueType, Shuffle.created, push, hconstructor, Bool.false_eq_true,
      if_false, List.map_nil, List.nil_append]
    split
    · rfl
    · exact ⟨_, rfl, rfl⟩

theorem before_rules (hkind : call.advice.kind = .before) :
    call.advice.method.returnType.isVoid = true ∧ call.advice.hasResult = false := by
  have hrules := haccepted.rules
  simp only [hkind, AdviceKind.rules, List.forall_mem_cons, Bool.not_eq_false'] at hrules
  exact ⟨hrules.1, hrules.2.1⟩

theorem stackCorrect_before {shuffle : Shuffle} {instructions : List Instruction}
    (hkind : call.advice.kind = .before)
    (hshuffle : Shuffle.ofAdvice call.advice call.pointcut call.isStatic = .ok (some shuffle))
    (hrun : shuffle.current.run instructions = .ok shuffle.target) :
    call.StackCorrect (instructions.map .shuffle ++ AdviceUnit.calls call.advice ++
      AdviceUnit.casts call.advice call.pointcut) shuffle.current := by
  rcases Shuffle.exists_of_ofAdvice hshuffle
    with ⟨operands, bound, hoperands, hbound, -, htarget⟩
  rcases before_rules haccepted hkind with ⟨hreturn, hresult⟩
  have hparameters : call.parameters? = some (bound.map .held) := by
    rw [parameters?_of_bound haccepted hbound (by simp [hresult]), hresult]
    simp
  intro below
  refine ⟨_, ?_, gives_created haccepted⟩
  have hcalls : AdviceUnit.calls call.advice ++ AdviceUnit.casts call.advice call.pointcut =
      [.callAdvice call.advice.method, .callIntercepted] := by
    simp [AdviceUnit.calls, AdviceUnit.casts, hkind]
  rw [List.append_assoc, hcalls, run_shuffle_append hrun, htarget, if_pos hkind]
  let created := Shuffle.created call.pointcut
  calc
    run call ((below ++ (created ++ operands ++ bound)).map .held)
        [.callAdvice call.advice.method, .callIntercepted] =
      run call ((below ++ created ++ operands).map .held ++ bound.map .held)
        [.callAdvice call.advice.method, .callIntercepted] := by simp
    _ = run call (push ((below ++ created ++ operands).map .held) .returned
          call.advice.method.returnType) [.callIntercepted] := run_callAdvice hparameters _ _
    _ = run call ((below ++ created).map .held ++ operands.map .held) [.callIntercepted] := by
      simp [push, hreturn]
    _ = run call (push ((below ++ created).map .held) .produced call.pointcut.returnType) [] :=
      run_callIntercepted (operands?_of_operands hoperands) _ _
    _ = some (below.map .held ++ push (created.map .held) .produced call.pointcut.returnType) := by
      rw [run, List.map_append, push_append]

/-- The type an advice returns takes the place of a value, never of `void`. -/
theorem valueType_not_void (hkind : call.advice.kind ≠ .before)
    (hreturn : call.advice.method.returnType.isVoid = false) :
    call.pointcut.valueType.isVoid = false := by
  have haccepts := haccepted.returned hreturn hkind
  have hcategory := path.category?_eq_of_accepts (Except.ok.inj haccepts)
  rw [Bool.eq_false_iff, ne_eq, ← JavaType.category?_eq_none_iff] at hreturn ⊢
  rwa [← hcategory]

/-- What an accepted advice returns has the type of the call's value after the
cast. -/
theorem run_casts (hkind : call.advice.kind ≠ .before)
    (hreturn : call.advice.method.returnType.isVoid = false) (stack : List StackValue) :
    run call (stack ++ [.returned call.advice.method.returnType])
        (AdviceUnit.casts call.advice call.pointcut) =
      some (stack ++ [.returned call.pointcut.valueType]) := by
  have haccepts := haccepted.returned hreturn hkind
  by_cases hsame : call.advice.method.returnType = call.pointcut.valueType
  · simp [AdviceUnit.casts, hsame, run]
  · rcases path.eq_or_references_of_accepts (Except.ok.inj haccepts)
      with hequal | ⟨htarget, hsource⟩
    · exact absurd hequal hsame
    · simp [AdviceUnit.casts, hkind, hsame, htarget, hsource, run, step, retype]

/-- An advice that is called last leaves what it returns. -/
theorem run_lastAdvice {parameters : List StackValue} (hkind : call.advice.kind ≠ .before)
    (hreturn : call.advice.method.returnType.isVoid = false)
    (hparameters : call.parameters? = some parameters) (stack : List StackValue) :
    run call (stack ++ parameters)
        (.callAdvice call.advice.method :: AdviceUnit.casts call.advice call.pointcut) =
      some (stack ++ [.returned call.pointcut.valueType]) := by
  rw [run_callAdvice hparameters, push, hreturn]
  exact run_casts haccepted hkind hreturn stack

theorem gives_returned (hkind : call.advice.kind ≠ .before)
    (hreturn : call.advice.method.returnType.isVoid = false) :
    call.Gives [.returned call.pointcut.valueType] := by
  rw [Gives, valueType_not_void haccepted hkind hreturn]
  exact ⟨_, rfl, rfl⟩

theorem after_rules (hkind : call.advice.kind = .after) :
    call.advice.method.returnType.isVoid = false ∧
      (call.pointcut.isConstructor = false → call.advice.hasResult = true) := by
  have hrules := haccepted.rules
  simp only [hkind, AdviceKind.rules, List.forall_mem_cons] at hrules
  rcases hrules with ⟨hreturn, -, hlast, -⟩
  refine ⟨hreturn, ?_⟩
  intro hmethod
  simp only [hmethod, Bool.not_false, Bool.true_and, bne_eq_false_iff_eq] at hlast
  exact List.any_eq_true.mpr ⟨.result, List.mem_of_getLast? hlast, rfl⟩

/-- The result of an advice after the call is bound exactly if the call gives
one, the constructor that binds it apart. -/
theorem returnType_of_after (hkind : call.advice.kind = .after)
    (hbound : ¬ (call.pointcut.isConstructor = true ∧ call.advice.hasResult = true)) :
    call.pointcut.returnType.isVoid = !call.advice.hasResult := by
  rcases after_rules haccepted hkind with ⟨hreturn, hlast⟩
  cases hconstructor : call.pointcut.isConstructor with
  | true =>
      have hresult : call.advice.hasResult = false :=
        Bool.eq_false_iff.mpr fun hresult => hbound ⟨hconstructor, hresult⟩
      rw [haccepted.constructorVoid hconstructor, hresult]
      rfl
  | false =>
      have hvalue := valueType_not_void haccepted (by simp [hkind]) hreturn
      rw [Method.valueType, hconstructor, if_neg Bool.false_ne_true] at hvalue
      rw [hvalue, hlast hconstructor]
      rfl

theorem stackCorrect_after {shuffle : Shuffle} {instructions : List Instruction}
    (hkind : call.advice.kind = .after)
    (hexcept : ¬ (call.pointcut.isConstructor = true ∧ call.advice.hasResult = true))
    (hshuffle : Shuffle.ofAdvice call.advice call.pointcut call.isStatic = .ok (some shuffle))
    (hrun : shuffle.current.run instructions = .ok shuffle.target) :
    call.StackCorrect (instructions.map .shuffle ++ AdviceUnit.calls call.advice ++
      AdviceUnit.casts call.advice call.pointcut) shuffle.current := by
  rcases Shuffle.exists_of_ofAdvice hshuffle
    with ⟨operands, bound, hoperands, hbound, -, htarget⟩
  have hnotBefore : call.advice.kind ≠ .before := by simp [hkind]
  have hreturn := (after_rules haccepted hkind).1
  have hvoid := returnType_of_after haccepted hkind hexcept
  have hparameters := parameters?_of_bound haccepted hbound (by simp [hvoid])
  intro below
  refine ⟨_, ?_, gives_returned haccepted hnotBefore hreturn⟩
  have hcalls : AdviceUnit.calls call.advice =
      [.callIntercepted, .callAdvice call.advice.method] := by
    rw [AdviceUnit.calls, hkind]
  rw [List.append_assoc, hcalls, run_shuffle_append hrun, htarget, if_neg hnotBefore]
  let casts := AdviceUnit.casts call.advice call.pointcut
  calc
    run call ((below ++ (bound ++ operands)).map .held)
        (.callIntercepted :: .callAdvice call.advice.method :: casts) =
      run call ((below ++ bound).map .held ++ operands.map .held)
        (.callIntercepted :: .callAdvice call.advice.method :: casts) := by simp
    _ = run call (push ((below ++ bound).map .held) .produced call.pointcut.returnType)
          (.callAdvice call.advice.method :: casts) :=
      run_callIntercepted (operands?_of_operands hoperands) _ _
    _ = run call (below.map .held ++ (bound.map .held ++
          if call.advice.hasResult then [.produced call.pointcut.returnType] else []))
          (.callAdvice call.advice.method :: casts) := by
      cases hresult : call.advice.hasResult <;> simp [push, hvoid, hresult]
    _ = some (below.map .held ++ [.returned call.pointcut.valueType]) :=
      run_lastAdvice haccepted hnotBefore hreturn hparameters _

end Accepted

end Interception

end AdviceCompiler
