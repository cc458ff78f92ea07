import AdviceCompiler.Pointcut.Snippet
import AdviceCompiler.Proofs.SignatureRoundTrip

/-!
# The faults of a signature

The rules that a signature can break are stated apart from the check, each with the
part that breaks it and the text at fault.  A signature names a method exactly if it
breaks none.  Otherwise every violation is reported once, in the order of the parts,
at the place where the text at fault stands.
-/

namespace AdviceCompiler

namespace Pointcut

/-- The parts of a signature that can break a rule. -/
inductive SignaturePart where
  | owner
  | modifier
  | result
  | parameter (index : Nat)

/-- The place of a part in the order of reports. -/
def SignaturePart.rank : SignaturePart → Nat
  | .owner => 0
  | .modifier => 1
  | .result => 2
  | .parameter index => index + 3

/-- The words that stand for types other than classes. -/
def typeWords : List String :=
  ["void", "boolean", "byte", "char", "short", "int", "long", "float", "double"]

def TypeName.IsVoid (name : TypeName) : Prop :=
  name.base = "void" ∧ name.dimensions = 0

def TypeName.IsVoidArray (name : TypeName) : Prop :=
  name.base = "void" ∧ 0 < name.dimensions

instance (name : TypeName) : Decidable name.IsVoid :=
  inferInstanceAs (Decidable (name.base = "void" ∧ name.dimensions = 0))

instance (name : TypeName) : Decidable name.IsVoidArray :=
  inferInstanceAs (Decidable (name.base = "void" ∧ 0 < name.dimensions))

/-- A broken rule: the part that breaks it, the fault that is reported and the text at
fault. -/
structure Violation where
  part : SignaturePart
  fault : Fault
  text : List Char

namespace Signature

/-- The signature breaks a rule in this way. -/
inductive Violates (signature : Signature) : Violation → Prop where
  | primitiveOwner (hword : signature.owner.value ∈ typeWords) :
      Violates signature ⟨.owner, .primitiveOwner signature.owner.value signature.owner.span,
        signature.owner.value.toList⟩
  | staticConstructor {span : Span} (hstatic : signature.staticModifier = some span)
      (hconstructor : signature.name.value = "<init>") :
      Violates signature ⟨.modifier, .staticConstructor span, staticWord⟩
  | voidArrayResult (harray : signature.returnType.value.IsVoidArray) :
      Violates signature ⟨.result, .voidArray signature.returnType.span,
        signature.returnType.value.text⟩
  | voidArrayParameter {index : Nat} {param : Spanned TypeName}
      (hparam : signature.params[index]? = some param) (harray : param.value.IsVoidArray) :
      Violates signature ⟨.parameter index, .voidArray param.span, param.value.text⟩
  | voidParameter {index : Nat} {param : Spanned TypeName}
      (hparam : signature.params[index]? = some param) (hvoid : param.value.IsVoid) :
      Violates signature ⟨.parameter index, .voidParameter param.span, param.value.text⟩

/-- The signature keeps all rules. -/
structure Sound (signature : Signature) : Prop where
  owner : signature.owner.value ∉ typeWords
  modifier : ¬ (signature.staticModifier.isSome = true ∧ signature.name.value = "<init>")
  no_void_parameter : ∀ param ∈ signature.params, ¬ param.value.IsVoid
  no_void_array :
    ∀ written ∈ signature.returnType :: signature.params, ¬ written.value.IsVoidArray

end Signature

/-! ### Words and types -/

theorem isSome_ofKeyword?_iff {name : String} :
    (JavaType.ofKeyword? name).isSome = true ↔ name ∈ typeWords := by
  unfold JavaType.ofKeyword?
  split <;> simp_all [typeWords]

theorem isVoid_named_iff {name : String} :
    (JavaType.named name).isVoid = true ↔ name = "void" := by
  rw [JavaType.isVoid_iff]
  constructor
  · intro hvoid
    rw [← JavaType.text_named name, hvoid]
    rfl
  · rintro rfl
    rfl

theorem isVoid_type_iff {name : TypeName} : name.type.isVoid = true ↔ name.IsVoid := by
  rcases name with ⟨base, dimensions⟩
  cases dimensions with
  | zero => simp [TypeName.type, JavaType.arrayOf, TypeName.IsVoid, isVoid_named_iff]
  | succ count => simp [TypeName.type, JavaType.arrayOf, TypeName.IsVoid, JavaType.isVoid]

theorem TypeName.IsVoidArray.not_isVoid {name : TypeName} (harray : name.IsVoidArray) :
    ¬ name.IsVoid :=
  fun hvoid => Nat.ne_of_gt harray.2 hvoid.2

theorem arrayFaults_eq (written : Spanned TypeName) :
    arrayFaults written = if written.value.IsVoidArray then [.voidArray written.span] else [] :=
  if_congr (and_congr_left' isVoid_named_iff) rfl rfl

/-! ### One check for each part -/

namespace Signature

variable {signature : Signature} {violation : Violation}

def ownerViolation? (signature : Signature) : Option Violation :=
  if signature.owner.value ∈ typeWords then
    some ⟨.owner, .primitiveOwner signature.owner.value signature.owner.span,
      signature.owner.value.toList⟩
  else none

def modifierViolation? (signature : Signature) : Option Violation :=
  if signature.name.value = "<init>" then
    signature.staticModifier.map fun span => ⟨.modifier, .staticConstructor span, staticWord⟩
  else none

def resultViolation? (signature : Signature) : Option Violation :=
  if signature.returnType.value.IsVoidArray then
    some ⟨.result, .voidArray signature.returnType.span, signature.returnType.value.text⟩
  else none

def parameterViolation? (index : Nat) (param : Spanned TypeName) : Option Violation :=
  if param.value.IsVoidArray then
    some ⟨.parameter index, .voidArray param.span, param.value.text⟩
  else if param.value.IsVoid then
    some ⟨.parameter index, .voidParameter param.span, param.value.text⟩
  else none

/-- What is wrong with each part, if anything, in the order of their ranks. -/
def checks (signature : Signature) : List (Option Violation) :=
  signature.ownerViolation? :: signature.modifierViolation? :: signature.resultViolation? ::
    signature.params.zipIdx.map fun entry => parameterViolation? entry.2 entry.1

def violations (signature : Signature) : List Violation :=
  signature.checks.filterMap id

theorem map_fault_ownerViolation? (signature : Signature) :
    signature.ownerViolation?.toList.map Violation.fault = signature.ownerFaults := by
  rw [ownerViolation?, ownerFaults]
  simp only [isSome_ofKeyword?_iff]
  split <;> rfl

theorem map_fault_modifierViolation? (signature : Signature) :
    signature.modifierViolation?.toList.map Violation.fault = signature.modifierFaults := by
  rw [modifierViolation?, modifierFaults]
  cases signature.staticModifier with
  | none => split <;> rfl
  | some span =>
      by_cases hconstructor : signature.name.value = "<init>"
      · simp [isConstructor, Method.constructorName, hconstructor]
      · simp [isConstructor, Method.constructorName, hconstructor]

theorem map_fault_resultViolation? (signature : Signature) :
    signature.resultViolation?.toList.map Violation.fault =
      arrayFaults signature.returnType := by
  rw [resultViolation?, arrayFaults_eq]
  split <;> rfl

theorem map_fault_parameterViolation? (index : Nat) (param : Spanned TypeName) :
    (parameterViolation? index param).toList.map Violation.fault = parameterFaults param := by
  rw [parameterViolation?, parameterFaults, arrayFaults_eq]
  simp only [isVoid_type_iff]
  by_cases harray : param.value.IsVoidArray
  · rw [if_pos harray, if_pos harray, if_neg harray.not_isVoid]
    rfl
  · rw [if_neg harray, if_neg harray]
    split <;> rfl

/-- The violations of the parameters, wherever their numbering starts. -/
theorem map_fault_parameters (params : List (Spanned TypeName)) (start : Nat) :
    (((params.zipIdx start).map fun entry => parameterViolation? entry.2 entry.1).filterMap
      id).map Violation.fault = params.flatMap parameterFaults := by
  induction params generalizing start with
  | nil => rfl
  | cons param others ih =>
      rw [List.zipIdx_cons, List.map_cons, List.flatMap_cons, ← map_fault_parameterViolation? start,
        ← ih (start + 1)]
      cases parameterViolation? start param <;> rfl

/-- The faults that are reported are those of the violations. -/
theorem map_fault_violations (signature : Signature) :
    signature.violations.map Violation.fault = signature.faults := by
  rw [faults, ← map_fault_ownerViolation?, ← map_fault_modifierViolation?,
    ← map_fault_resultViolation?, ← map_fault_parameters signature.params 0, violations, checks]
  cases signature.ownerViolation? <;> cases signature.modifierViolation? <;>
    cases signature.resultViolation? <;> rfl

/-- The violations of a part are found by its check. -/
theorem mem_violations_iff : violation ∈ signature.violations ↔ signature.Violates violation := by
  have hchecks : violation ∈ signature.violations ↔ some violation ∈ signature.checks := by
    simp [violations]
  rw [hchecks]
  simp only [checks, List.mem_cons, List.mem_map, Prod.exists, List.mem_zipIdx_iff_getElem?]
  constructor
  · rintro (howner | hmodifier | hresult | ⟨param, index, hparam, hviolation⟩)
    · obtain ⟨hword, ⟨⟩⟩ := Option.ite_none_right_eq_some.mp howner.symm
      exact .primitiveOwner hword
    · obtain ⟨hconstructor, hspan⟩ := Option.ite_none_right_eq_some.mp hmodifier.symm
      obtain ⟨span, hstatic, rfl⟩ := Option.map_eq_some_iff.mp hspan
      exact .staticConstructor hstatic hconstructor
    · obtain ⟨harray, ⟨⟩⟩ := Option.ite_none_right_eq_some.mp hresult.symm
      exact .voidArrayResult harray
    · rw [parameterViolation?] at hviolation
      split at hviolation
      · next harray =>
          cases hviolation
          exact .voidArrayParameter hparam harray
      · obtain ⟨hvoid, ⟨⟩⟩ := Option.ite_none_right_eq_some.mp hviolation
        exact .voidParameter hparam hvoid
  · intro hviolates
    cases hviolates with
    | primitiveOwner hword => exact .inl (if_pos hword).symm
    | staticConstructor hstatic hconstructor =>
        right; left
        rw [modifierViolation?, if_pos hconstructor, hstatic]
        rfl
    | voidArrayResult harray => exact .inr (.inr (.inl (if_pos harray).symm))
    | voidArrayParameter hparam harray =>
        exact .inr (.inr (.inr ⟨_, _, hparam, if_pos harray⟩))
    | voidParameter hparam hvoid =>
        refine .inr (.inr (.inr ⟨_, _, hparam, ?_⟩))
        rw [parameterViolation?, if_neg fun harray => harray.not_isVoid hvoid, if_pos hvoid]

theorem part_of_parameterViolation? {index : Nat} {param : Spanned TypeName}
    (hviolation : parameterViolation? index param = some violation) :
    violation.part = .parameter index := by
  rw [parameterViolation?] at hviolation
  split at hviolation
  · cases hviolation
    rfl
  · obtain ⟨-, ⟨⟩⟩ := Option.ite_none_right_eq_some.mp hviolation
    rfl

/-- The check at a place is that of the part with this rank. -/
theorem rank_of_getElem?_checks {place : Nat}
    (hcheck : signature.checks[place]? = some (some violation)) :
    violation.part.rank = place := by
  match place with
  | 0 =>
      obtain ⟨-, ⟨⟩⟩ := Option.ite_none_right_eq_some.mp (Option.some.inj hcheck)
      rfl
  | 1 =>
      obtain ⟨-, hstatic⟩ := Option.ite_none_right_eq_some.mp (Option.some.inj hcheck)
      obtain ⟨span, -, rfl⟩ := Option.map_eq_some_iff.mp hstatic
      rfl
  | 2 =>
      obtain ⟨-, ⟨⟩⟩ := Option.ite_none_right_eq_some.mp (Option.some.inj hcheck)
      rfl
  | index + 3 =>
      have hentry : ((signature.params.zipIdx.map fun entry =>
          parameterViolation? entry.2 entry.1)[index]?) = some (some violation) := hcheck
      rw [List.getElem?_map, List.getElem?_zipIdx, Option.map_map, Nat.zero_add] at hentry
      obtain ⟨param, -, hviolation⟩ := Option.map_eq_some_iff.mp hentry
      rw [part_of_parameterViolation? hviolation, SignaturePart.rank]

theorem pairwise_violations (signature : Signature) :
    signature.violations.Pairwise fun left right => left.part.rank < right.part.rank := by
  rw [violations, List.pairwise_filterMap, List.pairwise_iff_getElem]
  intro place later hplace hlater hless violation hviolation other hother
  rw [rank_of_getElem?_checks ((List.getElem?_eq_getElem hplace).trans (congrArg some hviolation)),
    rank_of_getElem?_checks ((List.getElem?_eq_getElem hlater).trans (congrArg some hother))]
  exact hless

theorem sound_iff : signature.Sound ↔ ∀ violation, ¬ signature.Violates violation := by
  constructor
  · intro hsound violation hviolates
    cases hviolates with
    | primitiveOwner hword => exact hsound.owner hword
    | staticConstructor hstatic hconstructor =>
        exact hsound.modifier ⟨Option.isSome_iff_exists.mpr ⟨_, hstatic⟩, hconstructor⟩
    | voidArrayResult harray => exact hsound.no_void_array _ List.mem_cons_self harray
    | voidArrayParameter hparam harray =>
        have hmem := List.mem_of_getElem? hparam
        exact hsound.no_void_array _ (List.mem_cons_of_mem _ hmem) harray
    | voidParameter hparam hvoid =>
        exact hsound.no_void_parameter _ (List.mem_of_getElem? hparam) hvoid
  · intro hnone
    refine ⟨fun hword => hnone _ (.primitiveOwner hword), ?_, ?_, ?_⟩
    · rintro ⟨hstatic, hconstructor⟩
      obtain ⟨span, hspan⟩ := Option.isSome_iff_exists.mp hstatic
      exact hnone _ (.staticConstructor hspan hconstructor)
    · intro param hmem hvoid
      obtain ⟨index, hparam⟩ := List.mem_iff_getElem?.mp hmem
      exact hnone _ (.voidParameter hparam hvoid)
    · intro written hmem harray
      obtain rfl | hmem := List.mem_cons.mp hmem
      · exact hnone _ (.voidArrayResult harray)
      · obtain ⟨index, hparam⟩ := List.mem_iff_getElem?.mp hmem
        exact hnone _ (.voidArrayParameter hparam harray)

theorem faults_eq_nil_iff_sound : signature.faults = [] ↔ signature.Sound := by
  rw [← map_fault_violations, List.map_eq_nil_iff, List.eq_nil_iff_forall_not_mem, sound_iff]
  exact forall_congr' fun _ => not_congr mem_violations_iff

/-- The text at fault is the text of a part, with the part's place. -/
theorem Violates.mem_places (hviolates : signature.Violates violation) :
    (violation.fault.span, violation.text) ∈ signature.places := by
  have hparams : ∀ {index : Nat} {param : Spanned TypeName},
      signature.params[index]? = some param →
        (param.span, param.value.text) ∈ signature.places := by
    intro index param hparam
    exact List.mem_append_right _ (List.mem_map_of_mem (List.mem_of_getElem? hparam))
  cases hviolates with
  | primitiveOwner => simp [places, Fault.span]
  | staticConstructor hstatic => simp [places, Fault.span, hstatic]
  | voidArrayResult => simp [places, Fault.span]
  | voidArrayParameter hparam => exact hparams hparam
  | voidParameter hparam => exact hparams hparam

end Signature

theorem read_of_faults {text : String} {signature : Signature} {first : Fault}
    {others : List Fault} (hparse : Signature.parse text = .ok signature)
    (hfaults : signature.faults = first :: others) : read text = .error (first :: others) := by
  simp only [read, hparse, hfaults]

/-! ### The order of places -/

/-- Stretches of text that stand one after the other, the first at the offset or
later. -/
def Extent.InOrder : Nat → List Extent → Prop
  | _, [] => True
  | offset, extent :: others =>
      offset ≤ extent.start ∧ extent.start ≤ extent.stop ∧ InOrder extent.stop others

theorem byteLength_le_append (first second : List Char) :
    byteLength first ≤ byteLength (first ++ second) := by
  rw [byteLength_append]
  exact Nat.le_add_right _ _

theorem Extent.InOrder.of_le {offset earlier : Nat} {extents : List Extent}
    (hextents : InOrder offset extents) (hearlier : earlier ≤ offset) :
    InOrder earlier extents := by
  cases extents with
  | nil => trivial
  | cons extent others => exact ⟨Nat.le_trans hearlier hextents.1, hextents.2⟩

/-- A part goes in front of what stands after it, if 32 bits hold its place. -/
theorem Extent.inOrder_cons_after {offset : Nat} {before part : List Char} {others : List Extent}
    (hshort : byteLength (before ++ part) < UInt32.size) (hbefore : offset ≤ byteLength before)
    (hothers : InOrder (byteLength (before ++ part)) others) :
    InOrder offset ((Span.after before part).extent :: others) := by
  rw [Span.extent_after hshort, Extent.after_eq, ← byteLength_append]
  exact ⟨hbefore, byteLength_le_append before part, hothers⟩

theorem NextParameter.inOrder_placed (all : List NextParameter) (before : List Char)
    (hshort : byteLength (before ++ all.flatMap NextParameter.text) < UInt32.size) :
    Extent.InOrder (byteLength before)
      ((placed all before).map fun param => param.span.extent) := by
  induction all generalizing before with
  | nil => trivial
  | cons next others ih =>
      rw [List.flatMap_cons, ← List.append_assoc] at hshort
      have hfirst := Nat.lt_of_le_of_lt (byteLength_le_append (before ++ next.text) _) hshort
      rw [NextParameter.text, ← List.append_assoc] at hfirst
      apply Extent.inOrder_cons_after hfirst (byteLength_le_append before next.separator)
      rw [List.append_assoc]
      exact ih (before ++ next.text) hshort

theorem ParameterList.inOrder_placed (list : ParameterList) (before : List Char)
    (hshort : byteLength (before ++ list.text) < UInt32.size) :
    Extent.InOrder (byteLength before)
      ((list.placed before).map fun param => param.span.extent) := by
  rcases list with ⟨opening, types, closing⟩
  cases types with
  | none => trivial
  | some types =>
      simp only [text, typesText, ← List.append_assoc, byteLength_append] at hshort
      refine Extent.inOrder_cons_after ?_ (byteLength_le_append before ('(' :: opening.text))
        (NextParameter.inOrder_placed types.2 _ ?_)
      · simp only [byteLength_append]
        omega
      · simp only [byteLength_append]
        omega

namespace WrittenSignature

theorem beforeOwner_eq (written : WrittenSignature) :
    written.beforeOwner = written.beforeResult ++ written.declaration.result.text ++
      written.declaration.gap.text := by
  simp [beforeOwner]

theorem beforeName_eq (written : WrittenSignature) :
    written.beforeName = written.beforeOwner ++ written.declaration.member.owner.text ++ ['.'] := by
  simp [beforeName]

theorem beforeParameters_eq (written : WrittenSignature) :
    written.beforeParameters = written.beforeName ++ written.declaration.member.name.text ++
      written.declaration.beforeList.text := by
  simp [beforeParameters, beforeName, Member.text]

/-- The text up to the end of the parameter list, one part after the other. -/
theorem text_eq_beforeParameters (written : WrittenSignature) :
    written.text = written.beforeParameters ++ written.declaration.list.text ++
      written.declaration.trailing.text := by
  simp [text, beforeParameters, beforeOwner, WrittenDeclaration.text,
    WrittenDeclaration.afterResult, WrittenDeclaration.afterMember]

/-- The parts of a signature stand one after the other, if 32 bits hold their
places. -/
theorem inOrder_places (written : WrittenSignature)
    (hshort : byteLength written.text < UInt32.size) :
    Extent.InOrder 0 (written.signature.places.map fun place => place.1.extent) := by
  have hlist : byteLength (written.beforeParameters ++ written.declaration.list.text) <
      UInt32.size := by
    rw [text_eq_beforeParameters] at hshort
    exact Nat.lt_of_le_of_lt (byteLength_le_append _ _) hshort
  have hname : byteLength (written.beforeName ++ written.declaration.member.name.text) <
      UInt32.size := by
    simp only [beforeParameters_eq, byteLength_append] at hlist ⊢
    omega
  have howner : byteLength (written.beforeOwner ++ written.declaration.member.owner.text) <
      UInt32.size := by
    simp only [beforeName_eq, byteLength_append] at hname ⊢
    omega
  have hresult : byteLength (written.beforeResult ++ written.declaration.result.text) <
      UInt32.size := by
    simp only [beforeOwner_eq, byteLength_append] at howner ⊢
    omega
  have hparams : Extent.InOrder
      (byteLength (written.beforeName ++ written.declaration.member.name.text))
      (written.signature.params.map fun param => param.span.extent) := by
    apply (written.declaration.list.inOrder_placed written.beforeParameters hlist).of_le
    rw [beforeParameters_eq]
    exact byteLength_le_append _ _
  have hmember : Extent.InOrder
      (byteLength (written.beforeResult ++ written.declaration.result.text))
      (written.signature.owner.span.extent :: written.signature.name.span.extent ::
        written.signature.params.map fun param => param.span.extent) := by
    refine Extent.inOrder_cons_after howner ?_ (Extent.inOrder_cons_after hname ?_ hparams)
    · rw [beforeOwner_eq]
      exact byteLength_le_append _ _
    · rw [beforeName_eq]
      exact byteLength_le_append _ _
  have hplaces : (written.signature.places.map fun place => place.1.extent) =
      written.signature.staticModifier.toList.map Span.extent ++
        written.signature.returnType.span.extent :: written.signature.owner.span.extent ::
          written.signature.name.span.extent ::
            written.signature.params.map fun param => param.span.extent := by
    simp [Signature.places, Function.comp_def]
  rw [hplaces]
  cases hmodifier : written.modifier with
  | none =>
      simp only [signature, hmodifier, Option.map_none, Option.toList_none, List.map_nil,
        List.nil_append]
      exact Extent.inOrder_cons_after hresult (Nat.zero_le _) hmember
  | some after =>
      have hbefore : byteLength (written.leading.text ++ staticWord) ≤
          byteLength written.beforeResult := by
        simp only [beforeResult, modifierText, hmodifier, ← List.append_assoc]
        exact byteLength_le_append _ _
      have hstatic := Nat.lt_of_le_of_lt hbefore
        (Nat.lt_of_le_of_lt (byteLength_le_append _ _) hresult)
      simp only [signature, hmodifier, Option.map_some, Option.toList_some, List.map_cons,
        List.map_nil, List.singleton_append]
      exact Extent.inOrder_cons_after hstatic (Nat.zero_le _)
        (Extent.inOrder_cons_after hresult hbefore hmember)

end WrittenSignature

end Pointcut

open Pointcut

/-- A signature that the grammar accepts names a method exactly if it keeps all rules.
Otherwise its violations are reported, each once and in the order of the parts, and the
report as a whole is placed at the first.  Each is placed where its text stands, up to
multiples of 2³² bytes.  In a text of fewer bytes the places are exact and the parts
stand one after the other, so no place is taken for another. -/
theorem signature_violations_reported {text : String} {signature : Signature}
    (hparse : Signature.parse text = .ok signature) :
    ((∃ method, read text = .ok method) ↔ signature.Sound) ∧
      (¬ signature.Sound → ∃ first others,
        (∀ violation, violation ∈ first :: others ↔ signature.Violates violation) ∧
          (first :: others).Pairwise (fun left right => left.part.rank < right.part.rank) ∧
          read text = .error ((first :: others).map Violation.fault) ∧
          ∀ colors, ∃ rejection, readReporting colors text = .error rejection ∧
            rejection.extent = some first.fault.span.extent ∧
            rejection.message =
              "; ".intercalate ((first :: others).map fun violation => violation.fault.message)) ∧
      (∀ violation, signature.Violates violation →
        violation.fault.span.Holds text.toList violation.text) ∧
      (text.utf8ByteSize < UInt32.size →
        (∀ violation, signature.Violates violation →
          violation.fault.span.extent.Holds text.toList violation.text) ∧
        Extent.InOrder 0 (signature.places.map fun place => place.1.extent)) := by
  obtain ⟨written, htext, hwritten⟩ := WrittenSignature.exists_of_parse_eq hparse
  have hholds : ∀ violation, signature.Violates violation →
      violation.fault.span.Holds text.toList violation.text := by
    intro violation hviolates
    rw [htext]
    exact written.hold_places _ (hwritten ▸ hviolates.mem_places)
  refine ⟨?_, ?_, hholds, ?_⟩
  · rw [← Signature.faults_eq_nil_iff_sound]
    constructor
    · rintro ⟨method, hread⟩
      obtain ⟨other, hother, hfaults, -⟩ := read_eq_ok_iff.mp hread
      rw [hparse] at hother
      exact Except.ok.inj hother ▸ hfaults
    · intro hfaults
      exact ⟨signature.method, read_eq_ok_iff.mpr ⟨signature, hparse, hfaults, rfl⟩⟩
  · intro hunsound
    rw [← Signature.faults_eq_nil_iff_sound, ← Signature.map_fault_violations,
      List.map_eq_nil_iff] at hunsound
    obtain ⟨first, others, hviolations⟩ := List.exists_cons_of_ne_nil hunsound
    have hfaults := signature.map_fault_violations
    rw [hviolations, List.map_cons] at hfaults
    have hread := read_of_faults hparse hfaults.symm
    refine ⟨first, others, ?_, ?_, hread, ?_⟩
    · intro violation
      rw [← hviolations, Signature.mem_violations_iff]
    · rw [← hviolations]
      exact signature.pairwise_violations
    · intro colors
      refine ⟨.ofFaults colors text (first.fault :: others.map Violation.fault), ?_, rfl, ?_⟩
      · simp only [readReporting, hread]
      · simp [Rejection.ofFaults, Function.comp_def]
  · intro hshort
    have hmeasured : byteLength text.toList < UInt32.size := by
      rwa [byteLength_eq_utf8ByteSize, String.ofList_toList]
    refine ⟨fun violation hviolates => (hholds violation hviolates).extent hmeasured, ?_⟩
    rw [hwritten]
    exact written.inOrder_places (htext ▸ hmeasured)

namespace Sample

/-- A signature whose owner, modifier and parameters break a rule. -/
def brokenText : String := "static void int.<init>(void, void[])"

def brokenSignature : Signature where
  staticModifier := some ⟨0, 6⟩
  returnType := ⟨⟨7, 11⟩, "void", 0⟩
  owner := ⟨⟨12, 15⟩, "int"⟩
  name := ⟨⟨16, 22⟩, "<init>"⟩
  params := [⟨⟨23, 27⟩, "void", 0⟩, ⟨⟨29, 35⟩, "void", 1⟩]

/-- The same signature after 2³² blanks. -/
def farBrokenText : String := String.ofList (Blanks.spaces UInt32.size).text ++ brokenText

end Sample

/-- The parts of one signature break four rules.  After 2³² blanks the report names the
same place, where the text is blank. -/
theorem far_faults_misplaced :
    Signature.parse Sample.brokenText = .ok Sample.brokenSignature ∧
      Signature.parse Sample.farBrokenText = .ok Sample.brokenSignature ∧
      ¬ Sample.brokenSignature.Sound ∧
      (∀ text ∈ [Sample.brokenText, Sample.farBrokenText],
        ∃ rejection, readReporting false text = .error rejection ∧
          rejection.extent = some ⟨12, 15⟩ ∧
          rejection.message = "primitive type `int` cannot declare methods; " ++
            "constructors cannot be `static`; `void` is not a valid parameter type; " ++
            "arrays of `void` are not allowed") ∧
      Extent.Holds ⟨12, 15⟩ Sample.brokenText.toList "int".toList ∧
      ¬ Extent.Holds ⟨12, 15⟩ Sample.farBrokenText.toList "int".toList := by
  have hnear : Signature.parse Sample.brokenText = .ok Sample.brokenSignature := by
    decide +kernel
  have hfar := parse_after_uncounted Blanks.uncounted_spaces hnear
  have hfaults : Sample.brokenSignature.faults =
      [.primitiveOwner "int" ⟨12, 15⟩, .staticConstructor ⟨0, 6⟩, .voidParameter ⟨23, 27⟩,
        .voidArray ⟨29, 35⟩] := by
    decide +kernel
  have hunsound : ¬ Sample.brokenSignature.Sound := by
    rw [← Signature.faults_eq_nil_iff_sound, hfaults]
    exact List.cons_ne_nil _ _
  refine ⟨hnear, hfar, hunsound, ?_, ?_, ?_⟩
  · intro text htext
    have hparse : Signature.parse text = .ok Sample.brokenSignature := by
      obtain rfl | hothers := List.mem_cons.mp htext
      · exact hnear
      · obtain rfl := List.mem_singleton.mp hothers
        exact hfar
    obtain ⟨first, others, -, -, hread, hreported⟩ :=
      (signature_violations_reported hparse).2.1 hunsound
    obtain ⟨rejection, hrejection, hextent, hmessage⟩ := hreported false
    rw [read_of_faults hparse hfaults] at hread
    have hlisted := Except.error.inj hread
    have hmessages : ((first :: others).map fun violation => violation.fault.message) =
        ((first :: others).map Violation.fault).map Fault.message := by
      rw [List.map_map]
      rfl
    refine ⟨rejection, hrejection, ?_, ?_⟩
    · rw [hextent, ← (List.cons.inj hlisted).1]
      rfl
    · rw [hmessage, hmessages, ← hlisted]
      decide +kernel
  · obtain ⟨-, -, -, hexact⟩ := signature_violations_reported hnear
    exact (hexact (by decide +kernel)).1 _ (.primitiveOwner (by decide))
  · rw [Sample.farBrokenText, String.toList_append, String.toList_ofList]
    exact Extent.not_holds_spaces (by decide) (by decide)

end AdviceCompiler
