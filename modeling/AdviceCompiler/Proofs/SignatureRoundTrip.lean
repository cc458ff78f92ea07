import AdviceCompiler.Pointcut.Reading
import AdviceCompiler.Proofs.SignatureLanguage

/-!
# Reading back a printed signature

The methods that a signature can name are described apart from reading.  Every
method that is read is one of them, and each of them is read back from its own
text.
-/

namespace AdviceCompiler

open Pointcut Expression

/-! ### Types and their texts -/

theorem Pointcut.dimensionText_append_suffix (count : Nat) :
    dimensionText count ++ ['[', ']'] = dimensionText (count + 1) := by
  induction count with
  | zero => rfl
  | succ count ih => exact congrArg ('[' :: ']' :: ·) ih

namespace JavaType

theorem isVoid_iff {type : JavaType} : type.isVoid = true ↔ type = .void := by
  cases type <;> simp [isVoid]

theorem text_named (name : String) : (named name).text = name := by
  unfold named ofKeyword?
  split <;> rfl

theorem base_named (name : String) : (named name).base = named name := by
  unfold named ofKeyword?
  split <;> rfl

theorem dimensions_named (name : String) : (named name).dimensions = 0 := by
  unfold named ofKeyword?
  split <;> rfl

theorem ofKeyword?_ne_object (name className : String) :
    ofKeyword? name ≠ some (.object className) := by
  intro hobject
  unfold ofKeyword? at hobject
  split at hobject <;> cases hobject

theorem eq_of_named_eq_object {name className : String} (heq : named name = .object className) :
    name = className ∧ ofKeyword? name = none := by
  refine ⟨(text_named name).symm.trans (congrArg text heq), ?_⟩
  cases hkeyword : ofKeyword? name with
  | none => rfl
  | some type =>
      rw [named, hkeyword, Option.getD_some] at heq
      exact absurd (heq ▸ hkeyword) (ofKeyword?_ne_object name className)

theorem base_ne_array (type element : JavaType) : type.base ≠ .array element := by
  induction type with
  | array inner ih => exact ih
  | _ => exact JavaType.noConfusion

theorem base_arrayOf (type : JavaType) (count : Nat) : (type.arrayOf count).base = type.base := by
  induction count with
  | zero => rfl
  | succ count ih => exact ih

theorem dimensions_arrayOf (type : JavaType) (count : Nat) :
    (type.arrayOf count).dimensions = type.dimensions + count := by
  induction count with
  | zero => rfl
  | succ count ih => exact congrArg (· + 1) ih

theorem arrayOf_base (type : JavaType) : type.base.arrayOf type.dimensions = type := by
  induction type with
  | array element ih => exact congrArg array ih
  | _ => rfl

theorem toList_text_arrayOf (type : JavaType) (count : Nat) :
    (type.arrayOf count).text.toList = type.text.toList ++ dimensionText count := by
  induction count with
  | zero => simp [arrayOf, dimensionText]
  | succ count ih =>
      rw [arrayOf, text, String.toList_append, ih, List.append_assoc]
      exact congrArg (type.text.toList ++ ·) (dimensionText_append_suffix count)

end JavaType

/-- A class name that can be written and is not taken for a keyword. -/
structure IsClassName (name : String) : Prop where
  dotted : ∃ dotted : DottedName, name.toList = dotted.text
  not_keyword : JavaType.ofKeyword? name = none

/-- A type that can be written: its base is a keyword type or a class, and no
array has elements of type `void`. -/
structure JavaType.WellFormed (type : JavaType) : Prop where
  class_name : ∀ name, type.base = .object name → IsClassName name
  no_void_array : type.base = .void → type.dimensions = 0

/-- The identifier at the start of a text. -/
def firstIdentifier (text : String) : List Char :=
  text.toList.takeWhile isIdentifierCharacter

/-- A method that a signature can name. -/
structure Method.WellFormed (method : Method) : Prop where
  owner : ∃ name, method.owner = .object name ∧ IsClassName name
  name : ∃ name : MethodName, method.name.toList = name.text
  returnType : method.returnType.WellFormed
  params : ∀ param ∈ method.params, param.WellFormed ∧ param ≠ .void
  isPublic : method.isPublic = true
  constructor_not_static : ¬ (method.isStatic = true ∧ method.isConstructor = true)
  result_not_modifier :
    method.isStatic = false → firstIdentifier method.returnType.text ≠ staticWord

namespace Pointcut

/-! ### Written types -/

/-- The name is not that of an array of `void`. -/
def TypeName.HasElements (name : TypeName) : Prop :=
  JavaType.named name.base = .void → name.dimensions = 0

theorem WrittenType.toList_text_type (type : WrittenType) :
    type.name.type.text.toList = type.text := by
  rw [TypeName.type, JavaType.toList_text_arrayOf, JavaType.text_named, name,
    String.toList_ofList, text]

theorem WrittenType.wellFormed_type (type : WrittenType) (helements : type.name.HasElements) :
    type.name.type.WellFormed := by
  have hbase : type.name.type.base = JavaType.named type.name.base := by
    rw [TypeName.type, JavaType.base_arrayOf, JavaType.base_named]
  constructor
  · intro className hclass
    obtain ⟨rfl, hkeyword⟩ := JavaType.eq_of_named_eq_object (hbase.symm.trans hclass)
    exact ⟨⟨type.base, String.toList_ofList⟩, hkeyword⟩
  · intro hvoid
    rw [TypeName.type, JavaType.dimensions_arrayOf, JavaType.dimensions_named,
      helements (hbase.symm.trans hvoid)]

theorem WrittenType.firstIdentifier_type (type : WrittenType) :
    firstIdentifier type.name.type.text = type.base.first.text := by
  have hafter : StopsAt isIdentifierCharacter (type.afterFirst ++ []) :=
    stopsAt_afterFirst_append (type.endsBefore_of_delimits ⟨rfl, rfl, rfl⟩)
  rw [List.append_nil] at hafter
  rw [firstIdentifier, toList_text_type, text_eq,
    takeWhile_append_of_stopsAt type.base.first.all_text hafter]

theorem Identifier.exists_text_eq {text : List Char}
    (hfirst : text.head?.any isIdentifierStart = true)
    (hrest : text.tail.all isIdentifierCharacter = true) :
    ∃ name : Identifier, text = name.text := by
  cases text with
  | nil => cases hfirst
  | cons c rest => exact ⟨⟨c, rest, hfirst, List.all_eq_true.mp hrest⟩, rfl⟩

/-- The base of a well-formed type is written as a dotted name and read back. -/
theorem exists_dotted_of_wellFormed {type : JavaType} (htype : type.WellFormed) :
    ∃ dotted : DottedName, type.base.text.toList = dotted.text ∧
      JavaType.named type.base.text = type.base := by
  have hkeyword : ∀ keyword : String, keyword.toList.head?.any isIdentifierStart = true →
      keyword.toList.tail.all isIdentifierCharacter = true →
      ∃ dotted : DottedName, keyword.toList = dotted.text := by
    intro keyword hfirst hrest
    obtain ⟨name, hname⟩ := Identifier.exists_text_eq hfirst hrest
    exact ⟨⟨name, []⟩, hname.trans (List.append_nil _).symm⟩
  cases hbase : type.base with
  | object name =>
      obtain ⟨⟨dotted, hdotted⟩, hnone⟩ := htype.class_name name hbase
      exact ⟨dotted, hdotted, by rw [JavaType.named, JavaType.text, hnone]; rfl⟩
  | array element => exact absurd hbase (JavaType.base_ne_array type element)
  | _ => exact (hkeyword _ (by decide) (by decide)).imp fun _ hdotted => ⟨hdotted, rfl⟩

/-- A well-formed type can be written. -/
theorem exists_written_of_wellFormed {type : JavaType} (htype : type.WellFormed) :
    ∃ written : WrittenType, written.name.type = type ∧ written.name.HasElements := by
  obtain ⟨dotted, hdotted, hnamed⟩ := exists_dotted_of_wellFormed htype
  have hname : String.ofList dotted.text = type.base.text := by
    rw [← hdotted, String.ofList_toList]
  refine ⟨⟨dotted, type.dimensions⟩, ?_, ?_⟩
  · rw [TypeName.type, WrittenType.name, hname, hnamed, JavaType.arrayOf_base]
  · intro hvoid
    rw [WrittenType.name, hname, hnamed] at hvoid
    exact htype.no_void_array hvoid

/-! ### Faults -/

theorem arrayFaults_eq_nil_iff {written : Spanned TypeName} :
    arrayFaults written = [] ↔ written.value.HasElements := by
  rw [arrayFaults, TypeName.HasElements, ite_eq_right_iff]
  simp [JavaType.isVoid_iff]

theorem parameterFaults_eq_nil_iff {written : Spanned TypeName} :
    parameterFaults written = [] ↔
      written.value.HasElements ∧ written.value.type ≠ .void := by
  rw [parameterFaults, List.append_eq_nil_iff, arrayFaults_eq_nil_iff, ite_eq_right_iff,
    JavaType.isVoid_iff]
  simp

namespace Signature

theorem ownerFaults_eq_nil_iff {signature : Signature} :
    signature.ownerFaults = [] ↔ JavaType.ofKeyword? signature.owner.value = none := by
  rw [ownerFaults, ite_eq_right_iff]
  cases JavaType.ofKeyword? signature.owner.value <;> simp

theorem modifierFaults_eq_nil_iff {signature : Signature} :
    signature.modifierFaults = [] ↔
      ¬ (signature.method.isStatic = true ∧ signature.method.isConstructor = true) := by
  cases hmodifier : signature.staticModifier with
  | none => simp [modifierFaults, Method.isStatic, method, hmodifier]
  | some span =>
      simp [modifierFaults, Method.isStatic, Method.isConstructor, isConstructor, method,
        hmodifier]

theorem faults_eq_nil_iff {signature : Signature} :
    signature.faults = [] ↔
      JavaType.ofKeyword? signature.owner.value = none ∧
      ¬ (signature.method.isStatic = true ∧ signature.method.isConstructor = true) ∧
      signature.returnType.value.HasElements ∧
      ∀ param ∈ signature.params, param.value.HasElements ∧ param.value.type ≠ .void := by
  simp only [faults, List.append_eq_nil_iff, ownerFaults_eq_nil_iff, modifierFaults_eq_nil_iff,
    arrayFaults_eq_nil_iff, List.flatMap_eq_nil_iff, parameterFaults_eq_nil_iff, and_assoc]

end Signature

theorem read_eq_ok_iff {text : String} {method : Method} :
    read text = .ok method ↔
      ∃ signature, Signature.parse text = .ok signature ∧ signature.faults = [] ∧
        signature.method = method := by
  unfold read
  cases hparse : Signature.parse text with
  | error failure => simp
  | ok signature =>
      cases hfaults : signature.faults with
      | nil => simp [hfaults]
      | cons fault others => simp [hfaults]

namespace WrittenSignature

theorem map_value_params (written : WrittenSignature) :
    written.signature.params.map Spanned.value =
      written.declaration.list.parameters.map WrittenType.name :=
  written.declaration.list.map_value_placed _

theorem exists_type_of_mem_params {written : WrittenSignature} {param : Spanned TypeName}
    (hparam : param ∈ written.signature.params) :
    ∃ type ∈ written.declaration.list.parameters, type.name = param.value := by
  have hvalue := List.mem_map_of_mem (f := Spanned.value) hparam
  rw [map_value_params] at hvalue
  exact List.mem_map.mp hvalue

theorem params_method (written : WrittenSignature) :
    written.signature.method.params =
      written.declaration.list.parameters.map fun type => type.name.type := by
  have hparams := congrArg (List.map TypeName.type) written.map_value_params
  rw [List.map_map, List.map_map] at hparams
  exact hparams

/-- A signature without faults names a well-formed method. -/
theorem wellFormed_method {written : WrittenSignature} (hfaults : written.signature.faults = []) :
    written.signature.method.WellFormed := by
  obtain ⟨howner, hconstructor, hresult, hparams⟩ := Signature.faults_eq_nil_iff.mp hfaults
  exact {
    owner := ⟨_, rfl, ⟨written.declaration.member.owner, String.toList_ofList⟩, howner⟩
    name := ⟨written.declaration.member.name, String.toList_ofList⟩
    returnType := written.declaration.result.wellFormed_type hresult
    params := by
      intro param hparam
      obtain ⟨placed, hplaced, rfl⟩ := List.mem_map.mp hparam
      obtain ⟨helements, hvoid⟩ := hparams placed hplaced
      obtain ⟨type, -, hvalue⟩ := exists_type_of_mem_params hplaced
      rw [← hvalue] at helements hvoid ⊢
      exact ⟨type.wellFormed_type helements, hvoid⟩
    isPublic := rfl
    constructor_not_static := hconstructor
    result_not_modifier := by
      intro hstatic
      have hnone : written.modifier = none := by
        simpa [Method.isStatic, Signature.method, signature] using hstatic
      have hfirst := written.declaration.result.firstIdentifier_type
      exact hfirst ▸ written.result_not_modifier hnone }

end WrittenSignature

/-- Every method that is read is well-formed. -/
theorem wellFormed_of_read {text : String} {method : Method} (hread : read text = .ok method) :
    method.WellFormed := by
  obtain ⟨signature, hparse, hfaults, rfl⟩ := read_eq_ok_iff.mp hread
  obtain ⟨written, -, rfl⟩ := WrittenSignature.exists_of_parse_eq hparse
  exact WrittenSignature.wellFormed_method hfaults

/-! ### Printing -/

def Blanks.space : Blanks := ⟨[' '], List.all_eq_true.mp rfl⟩

/-- A parameter after a comma and a blank. -/
def NextParameter.spaced (type : WrittenType) : NextParameter :=
  ⟨Blanks.none, Blanks.space, type⟩

theorem NextParameter.text_append_spaced (first : WrittenType) (others : List WrittenType) :
    first.text ++ (others.map spaced).flatMap NextParameter.text =
      [',', ' '].intercalate ((first :: others).map WrittenType.text) := by
  induction others generalizing first with
  | nil => simp
  | cons next rest ih =>
      calc
        first.text ++ ((next :: rest).map spaced).flatMap NextParameter.text
          = first.text ++ [',', ' '] ++
              (next.text ++ (rest.map spaced).flatMap NextParameter.text) := by
            simp [spaced, NextParameter.text, separator, Blanks.none, Blanks.space]
        _ = first.text ++ [',', ' '] ++
              [',', ' '].intercalate ((next :: rest).map WrittenType.text) := by rw [ih]
        _ = [',', ' '].intercalate ((first :: next :: rest).map WrittenType.text) :=
            List.intercalate_cons_cons.symm

namespace ParameterList

/-- A parameter list with a blank after each comma. -/
def ofTypes : List WrittenType → ParameterList
  | [] => ⟨Blanks.none, none, Blanks.none⟩
  | first :: others => ⟨Blanks.none, some (first, others.map NextParameter.spaced), Blanks.none⟩

theorem parameters_ofTypes (types : List WrittenType) : (ofTypes types).parameters = types := by
  cases types with
  | nil => rfl
  | cons first others =>
      have hothers : (others.map NextParameter.spaced).map NextParameter.type = others := by
        rw [List.map_map]
        exact List.map_id others
      exact congrArg (first :: ·) hothers

theorem text_ofTypes (types : List WrittenType) :
    (ofTypes types).text =
      '(' :: ([',', ' '].intercalate (types.map WrittenType.text) ++ [')']) := by
  cases types with
  | nil => rfl
  | cons first others =>
      rw [← NextParameter.text_append_spaced]
      simp [ofTypes, text, typesText, Blanks.none]

end ParameterList

/-- Well-formed parameter types can be written. -/
theorem exists_types_of_wellFormed {params : List JavaType}
    (hparams : ∀ param ∈ params, param.WellFormed) :
    ∃ types : List WrittenType, types.map (fun type => type.name.type) = params ∧
      ∀ type ∈ types, type.name.HasElements := by
  induction params with
  | nil => exact ⟨[], rfl, by simp⟩
  | cons param others ih =>
      obtain ⟨first, hfirst, helements⟩ :=
        exists_written_of_wellFormed (hparams param List.mem_cons_self)
      obtain ⟨rest, hrest, hall⟩ :=
        ih fun other hother => hparams other (List.mem_cons_of_mem param hother)
      refine ⟨first :: rest, ?_, List.forall_mem_cons.mpr ⟨helements, hall⟩⟩
      rw [List.map_cons, hfirst, hrest]

namespace WrittenSignature

/-- A signature with single blanks where they are needed and after commas. -/
def printed (isStatic : Bool) (result : WrittenType) (member : Member) (types : List WrittenType)
    (hresult : isStatic = false → result.base.first.text ≠ staticWord) : WrittenSignature where
  leading := Blanks.none
  modifier := if isStatic then some Blanks.space else none
  declaration := ⟨result, Blanks.space, member, Blanks.none, ParameterList.ofTypes types,
    Blanks.none, fun _ => List.cons_ne_nil _ _⟩
  modifier_apart := by
    intro after hafter
    cases isStatic with
    | false => cases hafter
    | true =>
        obtain rfl : Blanks.space = after := Option.some.inj hafter
        exact List.cons_ne_nil _ _
  result_not_modifier := by
    intro hnone
    cases isStatic with
    | false => exact hresult rfl
    | true => cases hnone

theorem text_printed {isStatic : Bool} {result : WrittenType} {member : Member}
    {types : List WrittenType}
    {hresult : isStatic = false → result.base.first.text ≠ staticWord} :
    (printed isStatic result member types hresult).text =
      (if isStatic then staticWord ++ [' '] else []) ++
        (result.text ++ ' ' :: (member.text ++ (ParameterList.ofTypes types).text)) := by
  cases isStatic with
  | false =>
      simp [text, beforeResult, modifierText, printed, WrittenDeclaration.text,
        WrittenDeclaration.afterResult, WrittenDeclaration.afterMember, Blanks.none, Blanks.space]
  | true =>
      simp [text, beforeResult, modifierText, printed, WrittenDeclaration.text,
        WrittenDeclaration.afterResult, WrittenDeclaration.afterMember, Blanks.none, Blanks.space]

theorem method_printed {isStatic : Bool} {result : WrittenType} {member : Member}
    {types : List WrittenType}
    {hresult : isStatic = false → result.base.first.text ≠ staticWord} :
    (printed isStatic result member types hresult).signature.method =
      { owner := .object (String.ofList member.owner.text)
        name := String.ofList member.name.text
        params := types.map fun type => type.name.type
        returnType := result.name.type
        flags := { isStatic, isPublic := true } } := by
  have hparams : (printed isStatic result member types hresult).signature.method.params =
      types.map fun type => type.name.type := by
    rw [params_method]
    exact congrArg (List.map _) (ParameterList.parameters_ofTypes types)
  apply Method.mk.injEq .. |>.mpr
  refine ⟨rfl, rfl, hparams, rfl, ?_⟩
  cases isStatic with
  | false => rfl
  | true => rfl

/-- A printed signature is the text of the method it names. -/
theorem toList_text_method_printed {isStatic : Bool} {result : WrittenType} {member : Member}
    {types : List WrittenType}
    {hresult : isStatic = false → result.base.first.text ≠ staticWord} :
    (printed isStatic result member types hresult).signature.method.text.toList =
      (printed isStatic result member types hresult).text := by
  have htypes : ((types.map fun type => type.name.type).map JavaType.text).map String.toList =
      types.map WrittenType.text := by
    rw [List.map_map, List.map_map]
    exact List.map_congr_left fun type _ => type.toList_text_type
  have hword : "static ".toList = staticWord ++ [' '] := rfl
  rw [method_printed, text_printed, ParameterList.text_ofTypes, ← htypes, ← hword]
  cases isStatic with
  | false =>
      simp [Method.text, Method.isStatic, WrittenType.toList_text_type, JavaType.text, Member.text]
  | true =>
      simp [Method.text, Method.isStatic, WrittenType.toList_text_type, JavaType.text, Member.text]

end WrittenSignature

/-- A well-formed method is named by a signature with the method's text. -/
theorem exists_printed_of_wellFormed {method : Method} (hmethod : method.WellFormed) :
    ∃ written : WrittenSignature, method.text.toList = written.text ∧
      written.signature.faults = [] ∧ written.signature.method = method := by
  obtain ⟨className, howner, ⟨dotted, hdotted⟩, hkeyword⟩ := hmethod.owner
  obtain ⟨methodName, hname⟩ := hmethod.name
  obtain ⟨result, hresult, helements⟩ := exists_written_of_wellFormed hmethod.returnType
  obtain ⟨types, htypes, hall⟩ :=
    exists_types_of_wellFormed fun param hparam => (hmethod.params param hparam).1
  have hfirst : method.isStatic = false → result.base.first.text ≠ staticWord := by
    intro hstatic
    rw [← result.firstIdentifier_type, hresult]
    exact hmethod.result_not_modifier hstatic
  let written := WrittenSignature.printed method.isStatic result ⟨dotted, methodName⟩ types hfirst
  have hnamed : written.signature.method = method := by
    rw [WrittenSignature.method_printed, htypes, hresult, ← hdotted, ← hname,
      String.ofList_toList, String.ofList_toList, ← howner, ← hmethod.isPublic]
    rfl
  have hfaults : written.signature.faults = [] := by
    refine Signature.faults_eq_nil_iff.mpr
      ⟨?_, hnamed ▸ hmethod.constructor_not_static, helements, ?_⟩
    · exact (congrArg JavaType.ofKeyword?
        (hdotted ▸ String.ofList_toList : String.ofList dotted.text = className)).trans hkeyword
    · intro param hparam
      obtain ⟨type, htype, hvalue⟩ := WrittenSignature.exists_type_of_mem_params hparam
      rw [← hvalue]
      have htype : type ∈ types := ParameterList.parameters_ofTypes types ▸ htype
      have hparam : type.name.type ∈ method.params := htypes ▸ List.mem_map_of_mem htype
      exact ⟨hall type htype, (hmethod.params _ hparam).2⟩
  exact ⟨written, hnamed ▸ WrittenSignature.toList_text_method_printed, hfaults, hnamed⟩

/-- A well-formed method is read from its own text. -/
theorem read_text_of_wellFormed {method : Method} (hmethod : method.WellFormed) :
    read method.text = .ok method := by
  obtain ⟨written, htext, hfaults, hnamed⟩ := exists_printed_of_wellFormed hmethod
  exact read_eq_ok_iff.mpr
    ⟨written.signature, written.parse_eq_of_text_eq htext, hfaults, hnamed⟩

end Pointcut

/-- Every method that is read is well-formed, and every well-formed method is read
from its own text, so reading the text of a method that was read changes nothing. -/
theorem wellFormed_methods_round_trip :
    (∀ (text : String) (method : Method), read text = .ok method → method.WellFormed) ∧
      (∀ method : Method, method.WellFormed → read method.text = .ok method) ∧
      ∀ (text : String) (method : Method),
        read text = .ok method → read method.text = .ok method := by
  refine ⟨fun text method => wellFormed_of_read, fun method => read_text_of_wellFormed, ?_⟩
  intro text method hread
  exact read_text_of_wellFormed (wellFormed_of_read hread)

example : (read " static  int[]a.B.c(long ,\tx.Y[] ) ").toOption.map Method.text =
    some "static int[] a.B.c(long, x.Y[])" := by
  decide +kernel

end AdviceCompiler
