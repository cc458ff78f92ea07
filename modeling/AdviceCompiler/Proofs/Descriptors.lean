import AdviceCompiler.Proofs.SignatureRoundTrip

/-!
# Reading descriptors back

The descriptors of a method's parameters stand next to each other with nothing
between them.  They can still be told apart, because each says itself where it ends:
a letter stands alone, a class name ends at a semicolon, and brackets go before the
element.  So owner, name and descriptor identify a method that a signature names,
but for its modifier.
-/

namespace AdviceCompiler

open Pointcut Expression

/-- Every class in the type has a name that can be written. -/
def JavaType.Nameable (type : JavaType) : Prop :=
  ∀ name, type.base = .object name → ∃ dotted : DottedName, name.toList = dotted.text

namespace Descriptor

/-- Undoes the slashes of a class name. -/
def dotted (slashed : List Char) : String :=
  String.ofList (slashed.map fun c => if c = '/' then '.' else c)

/-- Reads the type at the start of a text, and gives what follows it. -/
def readType : List Char → Option (JavaType × List Char)
  | 'V' :: rest => some (.void, rest)
  | 'Z' :: rest => some (.boolean, rest)
  | 'B' :: rest => some (.byte, rest)
  | 'C' :: rest => some (.char, rest)
  | 'S' :: rest => some (.short, rest)
  | 'I' :: rest => some (.int, rest)
  | 'J' :: rest => some (.long, rest)
  | 'F' :: rest => some (.float, rest)
  | 'D' :: rest => some (.double, rest)
  | 'L' :: rest =>
      match rest.dropWhile (· ≠ ';') with
      | [] => none
      | _ :: after => some (.object (dotted (rest.takeWhile (· ≠ ';'))), after)
  | '[' :: rest => (readType rest).map fun (element, after) => (.array element, after)
  | _ => none

theorem length_lt_of_readType {input rest : List Char} {type : JavaType}
    (hread : readType input = some (type, rest)) : rest.length < input.length := by
  fun_induction readType input generalizing type with
  | case10 | case13 => cases hread
  | case11 input semicolon after hdrop =>
      cases hread
      have hsuffix := (List.dropWhile_suffix (l := input) (· ≠ ';')).length_le
      rw [hdrop, List.length_cons] at hsuffix
      rw [List.length_cons]
      omega
  | case12 input ih =>
      obtain ⟨⟨element, after⟩, helement, hpair⟩ := Option.map_eq_some_iff.mp hread
      cases hpair
      exact Nat.lt_succ_of_lt (ih helement)
  | _ =>
      cases hread
      exact Nat.lt_succ_self _

/-- Reads types as long as there are any. -/
def readTypes (input : List Char) : List JavaType × List Char :=
  match _hread : readType input with
  | none => ([], input)
  | some (type, rest) => (type :: (readTypes rest).1, (readTypes rest).2)
termination_by input.length
decreasing_by all_goals exact length_lt_of_readType _hread

/-- The parameters and the result of a method with this descriptor. -/
def decode (descriptor : String) : Option (List JavaType × JavaType) :=
  match descriptor.toList with
  | '(' :: input =>
      match readTypes input with
      | (params, ')' :: rest) =>
          match readType rest with
          | some (returnType, []) => some (params, returnType)
          | _ => none
      | _ => none
  | _ => none

/-! ### Types -/

theorem isIdentifierCharacter_or_dot {name : DottedName} {c : Char} (hc : c ∈ name.text) :
    isIdentifierCharacter c = true ∨ c = '.' := by
  rw [DottedName.text, List.mem_append, List.mem_flatMap] at hc
  rcases hc with hfirst | ⟨part, -, hpart⟩
  · exact .inl (name.first.all_text c hfirst)
  · cases hpart with
    | head => exact .inr rfl
    | tail _ hrest => exact .inl (part.all_text c hrest)

theorem ne_of_mem_text {name : DottedName} {c other : Char} (hc : c ∈ name.text)
    (hother : isIdentifierCharacter other = false) (hdot : other ≠ '.') : c ≠ other := by
  rintro rfl
  rcases isIdentifierCharacter_or_dot hc with hcharacter | hsame
  · rw [hother] at hcharacter
    cases hcharacter
  · exact hdot hsame

theorem dotted_slashed {name : String} {written : DottedName}
    (hname : name.toList = written.text) : dotted (JavaType.slashed name).toList = name := by
  have hback : ((JavaType.slashed name).toList.map fun c => if c = '/' then '.' else c) =
      name.toList := by
    rw [JavaType.slashed, String.toList_map, List.map_map]
    refine (List.map_congr_left ?_).trans (List.map_id name.toList)
    intro c hc
    have hslash : c ≠ '/' := ne_of_mem_text (hname ▸ hc) rfl (by decide)
    by_cases hdot : c = '.'
    · simp [hdot]
    · simp [hdot, hslash]
  rw [dotted, hback, String.ofList_toList]

theorem semicolon_not_mem_slashed {name : String} {written : DottedName}
    (hname : name.toList = written.text) :
    ∀ c ∈ (JavaType.slashed name).toList, decide (c ≠ ';') = true := by
  intro c hc
  rw [JavaType.slashed, String.toList_map, List.mem_map] at hc
  obtain ⟨original, horiginal, rfl⟩ := hc
  have hsemicolon : original ≠ ';' := ne_of_mem_text (hname ▸ horiginal) rfl (by decide)
  by_cases hdot : original = '.'
  · simp [hdot]
  · simp [hdot, hsemicolon]

/-- A type is read back from its descriptor, whatever comes after it. -/
theorem readType_descriptor {type : JavaType} (htype : type.Nameable) (rest : List Char) :
    readType (type.descriptor.toList ++ rest) = some (type, rest) := by
  induction type with
  | object name =>
      obtain ⟨written, hname⟩ := htype name rfl
      have hends := semicolon_not_mem_slashed hname
      have htake : ((JavaType.slashed name).toList ++ ';' :: rest).takeWhile (· ≠ ';') =
          (JavaType.slashed name).toList := by
        rw [List.takeWhile_append_of_pos hends]
        simp
      have hdrop : ((JavaType.slashed name).toList ++ ';' :: rest).dropWhile (· ≠ ';') =
          ';' :: rest := by
        rw [List.dropWhile_append_of_pos hends]
        simp
      have htext : (JavaType.object name).descriptor.toList ++ rest =
          'L' :: ((JavaType.slashed name).toList ++ ';' :: rest) := by
        simp [JavaType.descriptor]
      rw [htext, readType, hdrop, htake, dotted_slashed hname]
  | array element ih =>
      have htext : (JavaType.array element).descriptor.toList ++ rest =
          '[' :: (element.descriptor.toList ++ rest) := by
        simp [JavaType.descriptor]
      rw [htext, readType, ih htype]
      rfl
  | _ => rfl

theorem descriptor_injective {left right : JavaType} (hleft : left.Nameable)
    (hright : right.Nameable) (heq : left.descriptor = right.descriptor) : left = right := by
  have hread := readType_descriptor hleft []
  rw [heq, readType_descriptor hright []] at hread
  exact congrArg Prod.fst (Option.some.inj hread).symm

/-! ### Methods -/

theorem readTypes_descriptors {types : List JavaType} (htypes : ∀ type ∈ types, type.Nameable)
    {rest : List Char} (hrest : readType rest = none) :
    readTypes (types.flatMap (fun type => type.descriptor.toList) ++ rest) = (types, rest) := by
  induction types with
  | nil =>
      rw [List.flatMap_nil, List.nil_append, readTypes]
      split
      · rfl
      · next hread => rw [hrest] at hread; cases hread
  | cons type others ih =>
      have hfirst := readType_descriptor (htypes type List.mem_cons_self)
        (others.flatMap (fun type => type.descriptor.toList) ++ rest)
      have hothers := ih fun other hother => htypes other (List.mem_cons_of_mem type hother)
      rw [List.flatMap_cons, List.append_assoc, readTypes]
      split
      · next hread => rw [hfirst] at hread; cases hread
      · next found after hread =>
          rw [hfirst] at hread
          cases hread
          rw [hothers]

theorem decode_descriptor {method : Method} (hparams : ∀ param ∈ method.params, param.Nameable)
    (hresult : method.returnType.Nameable) :
    decode method.descriptor = some (method.params, method.returnType) := by
  have htext : method.descriptor.toList =
      '(' :: (method.params.flatMap (fun type => type.descriptor.toList) ++
        ')' :: method.returnType.descriptor.toList) := by
    simp [Method.descriptor, List.flatMap_map]
  have hclosing : readType (')' :: method.returnType.descriptor.toList) = none := rfl
  have hlast := readType_descriptor hresult []
  rw [List.append_nil] at hlast
  simp only [decode, htext, readTypes_descriptors hparams hclosing, hlast]

end Descriptor

theorem JavaType.WellFormed.nameable {type : JavaType} (htype : type.WellFormed) :
    type.Nameable :=
  fun name hname => (htype.class_name name hname).dotted

namespace Method.WellFormed

variable {method : Method}

theorem nameable_owner (hmethod : method.WellFormed) : method.owner.Nameable := by
  obtain ⟨name, howner, hname⟩ := hmethod.owner
  rw [howner]
  rintro _ ⟨⟩
  exact hname.dotted

theorem decode_descriptor (hmethod : method.WellFormed) :
    Descriptor.decode method.descriptor = some (method.params, method.returnType) :=
  Descriptor.decode_descriptor (fun param hparam => (hmethod.params param hparam).1.nameable)
    hmethod.returnType.nameable

theorem flags_eq (hmethod : method.WellFormed) :
    method.flags = { isStatic := method.isStatic, isPublic := true } := by
  rw [← hmethod.isPublic]
  rfl

end Method.WellFormed

/-- Methods named by signatures that agree in the owner's descriptor, in name and in
descriptor are the same but for the modifier.  For a descriptor can be decoded:
parameters and result are read back from it, if the class names in them can be
written. -/
theorem descriptors_identify_methods :
    (∀ (text other : String) (left right : Method),
      read text = .ok left → read other = .ok right →
        left.owner.descriptor = right.owner.descriptor → left.name = right.name →
          left.descriptor = right.descriptor →
            left.owner = right.owner ∧ left.params = right.params ∧
              left.returnType = right.returnType ∧
              left = { right with flags := { right.flags with isStatic := left.isStatic } }) ∧
      ∀ method : Method, (∀ param ∈ method.params, param.Nameable) →
        method.returnType.Nameable →
          Descriptor.decode method.descriptor = some (method.params, method.returnType) := by
  refine ⟨?_, fun method => Descriptor.decode_descriptor⟩
  intro text other left right hleft hright howner hname hdescriptor
  have hleft := wellFormed_of_read hleft
  have hright := wellFormed_of_read hright
  have howner : left.owner = right.owner :=
    Descriptor.descriptor_injective hleft.nameable_owner hright.nameable_owner howner
  have hdecoded : some (left.params, left.returnType) = some (right.params, right.returnType) := by
    rw [← hleft.decode_descriptor, hdescriptor, hright.decode_descriptor]
  obtain ⟨hparams, hresult⟩ := Prod.mk.inj (Option.some.inj hdecoded)
  refine ⟨howner, hparams, hresult, ?_⟩
  rw [hright.flags_eq]
  exact Method.mk.injEq .. |>.mpr ⟨howner, hname, hparams, hresult, hleft.flags_eq⟩

example : Descriptor.decode "([Lx/Y;J[[I)V" =
    some ([.array (.object "x.Y"), .long, .array (.array .int)], .void) := by
  decide +kernel

end AdviceCompiler
