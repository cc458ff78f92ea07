import Mathlib.Control.Monad.Basic
import AdviceCompiler.Proofs.WrittenSignature

/-!
# The language of signatures

A text is read as a signature exactly if it is a written signature.  It is then
one in a single way, blanks apart, and what is read are its parts, each with the
place in the text where the part stands.  Places are kept in 32 bits, so a part
that ends farther back has the wrong place: that many blanks in front of a
signature change nothing in what is read.
-/

namespace AdviceCompiler

namespace Pointcut

/-! ### Places -/

/-- The stretch of a text that is the part. -/
def Extent.Holds (extent : Extent) (text part : List Char) : Prop :=
  ∃ before after, text = before ++ (part ++ after) ∧ extent = .after before part

/-- The place of a part in a text, as far as 32 bits hold it. -/
def Span.Holds (span : Span) (text part : List Char) : Prop :=
  ∃ before after, text = before ++ (part ++ after) ∧ span = .after before part

theorem Span.extent_after {before part : List Char}
    (hshort : byteLength (before ++ part) < UInt32.size) :
    (Span.after before part).extent = .after before part := by
  rw [byteLength_append] at hshort
  have hstart : byteLength before < UInt32.size := by omega
  rw [← Span.ofExtent_after, Extent.after_eq]
  exact congrArg₂ Extent.mk (UInt32.toNat_ofNat_of_lt hstart) (UInt32.toNat_ofNat_of_lt hshort)

/-- In a text that 32 bits can measure, places are exact. -/
theorem Span.Holds.extent {span : Span} {text part : List Char} (hholds : span.Holds text part)
    (hshort : byteLength text < UInt32.size) : span.extent.Holds text part := by
  obtain ⟨before, after, rfl, rfl⟩ := hholds
  refine ⟨before, after, rfl, Span.extent_after ?_⟩
  simp only [byteLength_append] at hshort ⊢
  omega

theorem Span.Holds.append {span : Span} {text part : List Char} (hholds : span.Holds text part)
    (rest : List Char) : span.Holds (text ++ rest) part := by
  obtain ⟨before, after, rfl, hspan⟩ := hholds
  exact ⟨before, after ++ rest, by simp, hspan⟩

def TypeName.text (name : TypeName) : List Char :=
  name.base.toList ++ dimensionText name.dimensions

/-- The parts of a signature with their places, from left to right. -/
def Signature.places (signature : Signature) : List (Span × List Char) :=
  signature.staticModifier.toList.map (·, staticWord) ++
    [(signature.returnType.span, signature.returnType.value.text),
      (signature.owner.span, signature.owner.value.toList),
      (signature.name.span, signature.name.value.toList)] ++
    signature.params.map fun param => (param.span, param.value.text)

theorem WrittenType.text_name (type : WrittenType) : type.name.text = type.text := by
  rw [TypeName.text, name, String.toList_ofList, text]

/-- Each parameter of a list stands at its place. -/
def ParametersHold (text : List Char) (params : List (Spanned TypeName)) : Prop :=
  ∀ param ∈ params, param.span.Holds text param.value.text

theorem WrittenType.holds_placed (type : WrittenType) (before after : List Char) :
    (type.placed before).span.Holds (before ++ (type.text ++ after))
      (type.placed before).value.text :=
  ⟨before, after, by rw [placed, text_name], by rw [placed, text_name]⟩

theorem NextParameter.hold_placed (all : List NextParameter) (before after : List Char) :
    ParametersHold (before ++ (all.flatMap NextParameter.text ++ after))
      (NextParameter.placed all before) := by
  induction all generalizing before with
  | nil => simp [ParametersHold, placed]
  | cons next others ih =>
      intro param hparam
      obtain rfl | hothers := List.mem_cons.mp hparam
      · have hholds := next.type.holds_placed (before ++ next.separator)
          (others.flatMap NextParameter.text ++ after)
        simpa [NextParameter.text] using hholds
      · have hholds := ih (before ++ next.text) param hothers
        simpa using hholds

theorem ParameterList.hold_placed (list : ParameterList) (before : List Char) :
    ParametersHold (before ++ list.text) (list.placed before) := by
  cases htypes : list.types with
  | none => simp [ParametersHold, placed, htypes]
  | some types =>
      intro param hparam
      simp only [placed, htypes] at hparam
      obtain rfl | hothers := List.mem_cons.mp hparam
      · have hholds := types.1.holds_placed (before ++ '(' :: list.opening.text)
          (types.2.flatMap NextParameter.text ++ (list.closing.text ++ [')']))
        simpa [text, typesText, htypes] using hholds
      · have hholds := NextParameter.hold_placed types.2
          (before ++ '(' :: list.opening.text ++ types.1.text) (list.closing.text ++ [')'])
          param hothers
        simpa [text, typesText, htypes] using hholds

namespace WrittenSignature

/-- Every part that is read stands at its place. -/
theorem hold_places (written : WrittenSignature) :
    ∀ place ∈ written.signature.places, place.1.Holds written.text place.2 := by
  intro place hplace
  simp only [Signature.places, List.mem_append, List.mem_cons, List.not_mem_nil, or_false,
    List.mem_map] at hplace
  rcases hplace with (⟨span, hspan, rfl⟩ | rfl | rfl | rfl) | ⟨param, hparam, rfl⟩
  · cases hmodifier : written.modifier with
    | none => simp [signature, hmodifier] at hspan
    | some after =>
        simp only [signature, hmodifier, Option.map_some, Option.toList_some,
          List.mem_singleton] at hspan
        refine ⟨written.leading.text, after.text ++ written.declaration.text, ?_, hspan⟩
        simp [text, beforeResult, modifierText, hmodifier]
  · exact written.declaration.result.holds_placed _ _
  · refine ⟨written.beforeOwner,
      '.' :: written.declaration.member.name.text ++ written.declaration.afterMember, ?_, ?_⟩
    · simp [signature, text, beforeOwner, WrittenDeclaration.text, WrittenDeclaration.afterResult,
        Member.text]
    · simp [signature]
  · refine ⟨written.beforeName, written.declaration.afterMember, ?_, ?_⟩
    · simp [signature, text, beforeName, beforeOwner, WrittenDeclaration.text,
        WrittenDeclaration.afterResult, Member.text]
    · simp [signature]
  · have hholds := (written.declaration.list.hold_placed _ param hparam).append
      written.declaration.trailing.text
    simpa [text, beforeParameters, beforeOwner, WrittenDeclaration.text,
      WrittenDeclaration.afterResult, WrittenDeclaration.afterMember] using hholds

end WrittenSignature

/-! ### Blanks in front -/

/-- Blanks that a number of 32 bits cannot tell from none. -/
def Blanks.Uncounted (blanks : Blanks) : Prop :=
  UInt32.ofNat (byteLength blanks.text) = 0

variable {blanks : Blanks}

theorem Span.after_uncounted (hblanks : blanks.Uncounted) (before part : List Char) :
    Span.after (blanks.text ++ before) part = .after before part := by
  have hends : ∀ text, UInt32.ofNat (String.ofList (blanks.text ++ text)).utf8ByteSize =
      UInt32.ofNat (String.ofList text).utf8ByteSize := by
    intro text
    rw [← byteLength_eq_utf8ByteSize, ← byteLength_eq_utf8ByteSize, byteLength_append,
      UInt32.ofNat_add, hblanks, UInt32.zero_add]
  rw [after, after, List.append_assoc, hends, hends]

theorem NextParameter.placed_uncounted (hblanks : blanks.Uncounted) (all : List NextParameter)
    (before : List Char) : placed all (blanks.text ++ before) = placed all before := by
  induction all generalizing before with
  | nil => rfl
  | cons next others ih =>
      simp only [placed, WrittenType.placed, List.append_assoc, Span.after_uncounted hblanks, ih]

theorem ParameterList.placed_uncounted (hblanks : blanks.Uncounted) (list : ParameterList)
    (before : List Char) : list.placed (blanks.text ++ before) = list.placed before := by
  cases htypes : list.types with
  | none => simp only [placed, htypes]
  | some types =>
      simp only [placed, htypes, WrittenType.placed, List.append_assoc,
        Span.after_uncounted hblanks, NextParameter.placed_uncounted hblanks]

namespace WrittenSignature

/-- The signature with more blanks in front. -/
def indent (written : WrittenSignature) (blanks : Blanks) : WrittenSignature :=
  { written with leading := blanks.append written.leading }

theorem text_indent (written : WrittenSignature) (blanks : Blanks) :
    (written.indent blanks).text = blanks.text ++ written.text := by
  simp [indent, text, beforeResult, modifierText, Blanks.append]

theorem signature_indent (written : WrittenSignature) (hblanks : blanks.Uncounted) :
    (written.indent blanks).signature = written.signature := by
  have hmodifier : (written.indent blanks).leading.text =
      blanks.text ++ written.leading.text := rfl
  have hresult : (written.indent blanks).beforeResult = blanks.text ++ written.beforeResult :=
    List.append_assoc ..
  have howner : (written.indent blanks).beforeOwner = blanks.text ++ written.beforeOwner := by
    rw [beforeOwner, hresult]
    exact List.append_assoc ..
  have hname : (written.indent blanks).beforeName = blanks.text ++ written.beforeName := by
    rw [beforeName, howner]
    exact List.append_assoc ..
  have hparameters : (written.indent blanks).beforeParameters =
      blanks.text ++ written.beforeParameters := by
    rw [beforeParameters, howner]
    exact List.append_assoc ..
  simp only [signature, WrittenType.placed, hmodifier, hresult, howner, hname, hparameters,
    Span.after_uncounted hblanks, ParameterList.placed_uncounted hblanks]
  rfl

end WrittenSignature

/-! ### Parts -/

theorem NextParameter.map_value_placed (all : List NextParameter) (before : List Char) :
    (NextParameter.placed all before).map Spanned.value =
      all.map fun next => next.type.name := by
  induction all generalizing before with
  | nil => rfl
  | cons next others ih => exact congrArg (next.type.name :: ·) (ih _)

theorem ParameterList.map_value_placed (list : ParameterList) (before : List Char) :
    (list.placed before).map Spanned.value = list.parameters.map WrittenType.name := by
  cases htypes : list.types with
  | none => simp [placed, parameters, htypes]
  | some types =>
      simp [placed, parameters, htypes, NextParameter.map_value_placed, WrittenType.placed]

namespace WrittenSignature

/-- What is written, without blanks: the modifier, the result, the owner, the
method's name and the parameters. -/
def components (written : WrittenSignature) :
    Bool × WrittenType × DottedName × MethodName × List WrittenType :=
  (written.modifier.isSome, written.declaration.result, written.declaration.member.owner,
    written.declaration.member.name, written.declaration.list.parameters)

/-- The parts can be told from what is read. -/
theorem components_eq_of_signature_eq {first second : WrittenSignature}
    (heq : first.signature = second.signature) : first.components = second.components := by
  have hmodifier : first.modifier.isSome = second.modifier.isSome := by
    simpa [signature] using congrArg (fun read => read.staticModifier.isSome) heq
  have hresult : first.declaration.result = second.declaration.result :=
    WrittenType.name_injective (congrArg (fun read => read.returnType.value) heq)
  have howner : first.declaration.member.owner = second.declaration.member.owner :=
    DottedName.text_injective
      (String.ofList_injective (congrArg (fun read => read.owner.value) heq))
  have hname : first.declaration.member.name = second.declaration.member.name :=
    MethodName.text_injective
      (String.ofList_injective (congrArg (fun read => read.name.value) heq))
  have hparameters : first.declaration.list.parameters = second.declaration.list.parameters := by
    apply (List.map_inj_right fun _ _ hname => WrittenType.name_injective hname).mp
    have hparams := congrArg (fun read => read.params.map Spanned.value) heq
    simpa only [signature, ParameterList.map_value_placed] using hparams
  simp only [components, hmodifier, hresult, howner, hname, hparameters]

/-- What is read are the parts of a written signature. -/
theorem exists_of_parse_eq {text : String} {signature : Signature}
    (hparse : Signature.parse text = .ok signature) :
    ∃ written : WrittenSignature, text.toList = written.text ∧ signature = written.signature := by
  obtain ⟨written, htext⟩ | ⟨failure, hfailure⟩ := exists_text_eq_or_unexpected text
  · rw [written.parse_eq_of_text_eq htext] at hparse
    exact ⟨written, htext, (Except.ok.inj hparse).symm⟩
  · rw [hfailure] at hparse
    cases hparse

/-- A text is written in one way, blanks apart. -/
theorem components_eq_of_text_eq {first second : WrittenSignature}
    (heq : first.text = second.text) : first.components = second.components := by
  have htext : (String.ofList first.text).toList = first.text := String.toList_ofList
  have hfirst := first.parse_eq_of_text_eq htext
  rw [second.parse_eq_of_text_eq (htext.trans heq)] at hfirst
  exact components_eq_of_signature_eq (Except.ok.inj hfirst).symm

end WrittenSignature

/-! ### Reading far into a text -/

theorem parse_after_uncounted {text : String} {signature : Signature}
    (hblanks : blanks.Uncounted) (hparse : Signature.parse text = .ok signature) :
    Signature.parse (String.ofList blanks.text ++ text) = .ok signature := by
  obtain ⟨written, htext, rfl⟩ := WrittenSignature.exists_of_parse_eq hparse
  rw [← written.signature_indent hblanks]
  apply WrittenSignature.parse_eq_of_text_eq
  rw [WrittenSignature.text_indent, String.toList_append, String.toList_ofList, htext]

def Blanks.spaces (count : Nat) : Blanks where
  text := List.replicate count ' '
  all_blank := by
    intro c hc
    rw [List.eq_of_mem_replicate hc]
    rfl

theorem Blanks.byteLength_spaces (count : Nat) : byteLength (spaces count).text = count := by
  induction count with
  | zero => rfl
  | succ count ih => exact (congrArg (1 + ·) ih).trans (Nat.add_comm 1 count)

/-- As many blanks as 32 bits can count to and one more. -/
theorem Blanks.uncounted_spaces : (spaces UInt32.size).Uncounted := by
  rw [Uncounted, byteLength_spaces]
  rfl

theorem length_le_byteLength (text : List Char) : text.length ≤ byteLength text := by
  induction text with
  | nil => exact Nat.le_refl 0
  | cons c rest ih =>
      have hsize := c.utf8Size_pos
      rw [List.length_cons, byteLength]
      omega

/-- Where the text is blank, no other text stands. -/
theorem Extent.not_holds_spaces {extent : Extent} {count : Nat} {rest part : List Char} {c : Char}
    (hstart : extent.start < count) (hc : c ≠ ' ') :
    ¬ extent.Holds ((Blanks.spaces count).text ++ rest) (c :: part) := by
  rintro ⟨before, after, htext, rfl⟩
  rw [Extent.after_eq] at hstart
  have hbefore : before.length < count := Nat.lt_of_le_of_lt (length_le_byteLength before) hstart
  have hblank : ((Blanks.spaces count).text ++ rest)[before.length]? = some ' ' := by
    rw [List.getElem?_append_left (by simpa [Blanks.spaces] using hbefore)]
    exact List.getElem?_replicate_of_lt hbefore
  rw [htext, List.getElem?_append_right (Nat.le_refl _), Nat.sub_self] at hblank
  exact hc (Option.some.inj hblank)

end Pointcut

open Pointcut

/-- Reading accepts the written signatures and gives their parts, which are the
only ones of the text and stand at the places that are read, up to multiples of
2³² bytes.  In a text of fewer bytes the places are exact.  No tree lacks a
part. -/
theorem parse_reads_written_signatures (text : String) :
    (∀ signature : Signature,
      Signature.parse text = .ok signature ↔
        ∃ written : WrittenSignature,
          text.toList = written.text ∧ signature = written.signature) ∧
      (∀ first second : WrittenSignature, text.toList = first.text → text.toList = second.text →
        first.components = second.components) ∧
      (∀ signature : Signature, Signature.parse text = .ok signature →
        ∀ place ∈ signature.places, place.1.Holds text.toList place.2 ∧
          (text.utf8ByteSize < UInt32.size → place.1.extent.Holds text.toList place.2)) ∧
      ∀ (rule : Rule) (part : String), Signature.parse text ≠ .error (.missing rule part) := by
  refine ⟨fun signature => ⟨WrittenSignature.exists_of_parse_eq, ?_⟩, ?_, ?_, ?_⟩
  · rintro ⟨written, htext, rfl⟩
    exact written.parse_eq_of_text_eq htext
  · intro first second hfirst hsecond
    exact WrittenSignature.components_eq_of_text_eq (hfirst.symm.trans hsecond)
  · intro signature hparse place hplace
    obtain ⟨written, htext, rfl⟩ := WrittenSignature.exists_of_parse_eq hparse
    have hholds := written.hold_places place hplace
    rw [← htext] at hholds
    refine ⟨hholds, fun hshort => hholds.extent ?_⟩
    rwa [byteLength_eq_utf8ByteSize, String.ofList_toList]
  · intro rule part hmissing
    obtain ⟨written, htext⟩ | ⟨failure, hfailure⟩ :=
      WrittenSignature.exists_text_eq_or_unexpected text
    · rw [written.parse_eq_of_text_eq htext] at hmissing
      cases hmissing
    · rw [hfailure] at hmissing
      cases hmissing

namespace Sample

def nearText : String := "static int[] a.B.c(long)"

def nearSignature : Signature where
  staticModifier := some ⟨0, 6⟩
  returnType := ⟨⟨7, 12⟩, "int", 1⟩
  owner := ⟨⟨13, 16⟩, "a.B"⟩
  name := ⟨⟨17, 18⟩, "c"⟩
  params := [⟨⟨19, 23⟩, "long", 0⟩]

/-- The same signature after 2³² blanks. -/
def farText : String := String.ofList (Blanks.spaces UInt32.size).text ++ nearText

end Sample

/-- After 2³² blanks a signature is read as it is without them.  None of its parts
then stands where it is said to stand. -/
theorem far_signature_misplaced :
    Signature.parse Sample.nearText = .ok Sample.nearSignature ∧
      Signature.parse Sample.farText = .ok Sample.nearSignature ∧
      ∀ place ∈ Sample.nearSignature.places,
        place.1.extent.Holds Sample.nearText.toList place.2 ∧
          place.1.Holds Sample.farText.toList place.2 ∧
          ¬ place.1.extent.Holds Sample.farText.toList place.2 := by
  have hnear : Signature.parse Sample.nearText = .ok Sample.nearSignature := by
    decide +kernel
  have hfar := parse_after_uncounted Blanks.uncounted_spaces hnear
  obtain ⟨-, -, hnearPlaces, -⟩ := parse_reads_written_signatures Sample.nearText
  obtain ⟨-, -, hfarPlaces, -⟩ := parse_reads_written_signatures Sample.farText
  refine ⟨hnear, hfar, fun place hplace => ⟨?_, ?_, ?_⟩⟩
  · exact (hnearPlaces _ hnear place hplace).2 (by decide +kernel)
  · exact (hfarPlaces _ hfar place hplace).1
  · rw [Sample.farText, String.toList_append, String.toList_ofList]
    simp only [Signature.places, Sample.nearSignature, Option.toList_some, List.map_cons,
      List.map_nil, List.cons_append, List.nil_append, List.mem_cons, List.not_mem_nil,
      or_false] at hplace
    rcases hplace with rfl | rfl | rfl | rfl | rfl
    all_goals exact Extent.not_holds_spaces (UInt32.toNat_lt _) (by decide)

-- Brackets set a result apart as a blank does.
example : (Signature.parse "int[]a.B.c( )").toBool = true := by decide +kernel

-- The word `static` is always the modifier, also where only a result could stand.
example : (Signature.parse "static.Foo a.b()").toBool = false := by decide +kernel

end AdviceCompiler
