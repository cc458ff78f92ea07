import Mathlib.Logic.Basic
import AdviceCompiler.Pointcut.Signature
import AdviceCompiler.Proofs.Phrases

/-!
# The parts of a written signature

Blanks, names, types and members as they can be written, each with the expression
of the grammar that reads it and with the texts that may follow it.
-/

namespace AdviceCompiler.Pointcut

open Expression

/-! ### Characters -/

theorem isIdentifierCharacter_of_isIdentifierStart {c : Char}
    (hstart : isIdentifierStart c = true) : isIdentifierCharacter c = true := by
  simp only [isIdentifierStart, Bool.or_eq_true] at hstart
  simp only [isIdentifierCharacter, Char.isAlphanum, Bool.or_eq_true]
  exact hstart.imp_left (Or.imp_left Or.inl)

theorem isIdentifierCharacter_of_isBlank {c : Char} (hblank : isBlank c = true) :
    isIdentifierCharacter c = false := by
  simp only [isBlank, Bool.or_eq_true, decide_eq_true_eq] at hblank
  rcases hblank with ((rfl | rfl) | rfl) | rfl <;> decide

theorem isBlank_of_isIdentifierStart {c : Char} (hstart : isIdentifierStart c = true) :
    isBlank c = false := by
  apply eq_false_of_ne_true
  intro hblank
  have hcharacter := isIdentifierCharacter_of_isIdentifierStart hstart
  simp [isIdentifierCharacter_of_isBlank hblank] at hcharacter

/-- No name, type or member goes on with the text. -/
def Delimits (rest : List Char) : Prop :=
  StopsAt isIdentifierCharacter rest ∧ StopsAt isDot rest ∧ StopsAt (· = '[') rest

theorem delimits_of_isBlank {c : Char} (hblank : isBlank c = true) (rest : List Char) :
    Delimits (c :: rest) := by
  refine ⟨stopsAt_cons.mpr (isIdentifierCharacter_of_isBlank hblank), ?_⟩
  simp only [isBlank, Bool.or_eq_true, decide_eq_true_eq] at hblank
  rcases hblank with ((rfl | rfl) | rfl) | rfl <;> exact ⟨rfl, rfl⟩

/-! ### Blanks -/

/-- A run of spaces, tabs and line breaks, which may be empty. -/
structure Blanks where
  text : List Char
  all_blank : ∀ c ∈ text, isBlank c = true

namespace Blanks

def none : Blanks := ⟨[], by simp⟩

def append (first second : Blanks) : Blanks where
  text := first.text ++ second.text
  all_blank := by
    intro c hc
    exact (List.mem_append.mp hc).elim (first.all_blank c) (second.all_blank c)

@[simp]
def phrases : Phrases Blanks where
  text := Blanks.text
  trees _ _ := []
  EndsBefore _ rest := StopsAt isBlank rest

theorem reads_blanks {hidden : Bool} : blanks.Reads hidden phrases := by
  apply (Reads.run isBlank).of_phrases
  · intro gap rest hends
    exact ⟨⟨gap.text, gap.all_blank⟩, hends, rfl, fun _ => rfl⟩
  · intro run rest hends
    exact ⟨⟨run.val, run.property⟩, rest, hends, rfl⟩

theorem delimits_append (gap : Blanks) {rest : List Char} (hrest : Delimits rest) :
    Delimits (gap.text ++ rest) := by
  cases htext : gap.text with
  | nil => exact hrest
  | cons c others =>
      have hblank := gap.all_blank c (by simp [htext])
      exact delimits_of_isBlank hblank (others ++ rest)

theorem delimits_append_of_ne_nil (gap : Blanks) (hgap : gap.text ≠ []) (rest : List Char) :
    Delimits (gap.text ++ rest) := by
  obtain ⟨c, others, htext⟩ := List.exists_cons_of_ne_nil hgap
  have hblank := gap.all_blank c (by simp [htext])
  rw [htext]
  exact delimits_of_isBlank hblank (others ++ rest)

theorem text_eq_nil_of_stopsAt (gap : Blanks) {rest : List Char}
    (hstops : StopsAt isBlank (gap.text ++ rest)) : gap.text = [] := by
  cases htext : gap.text with
  | nil => rfl
  | cons c others =>
      have hblank := gap.all_blank c (by simp [htext])
      rw [htext] at hstops
      rw [stopsAt_cons.mp hstops] at hblank
      cases hblank

end Blanks

/-! ### Names -/

@[ext]
structure Identifier where
  first : Char
  rest : List Char
  starts : isIdentifierStart first = true
  continues : ∀ c ∈ rest, isIdentifierCharacter c = true

namespace Identifier

def text (name : Identifier) : List Char :=
  name.first :: name.rest

def phrases : Phrases Identifier where
  text := text
  trees _ _ := []
  EndsBefore _ rest := StopsAt isIdentifierCharacter rest

theorem reads_identifier : identifier.Reads true phrases := by
  have hbody : (Expression.sequence (.character isIdentifierStart)
      (.many (.character isIdentifierCharacter))).Reads true _ :=
    (Reads.character isIdentifierStart).sequence (Reads.run isIdentifierCharacter)
  apply hbody.labelled_hidden.of_phrases
  · intro name rest hends
    exact ⟨(⟨name.first, name.starts⟩, ⟨name.rest, name.continues⟩), ⟨trivial, hends⟩, rfl,
      fun _ => rfl⟩
  · intro both rest hends
    exact ⟨⟨both.1.val, both.2.val, both.1.property, both.2.property⟩, rest, hends.2, rfl⟩

theorem all_text (name : Identifier) : ∀ c ∈ name.text, isIdentifierCharacter c = true := by
  intro c hc
  cases hc with
  | head => exact isIdentifierCharacter_of_isIdentifierStart name.starts
  | tail _ hrest => exact name.continues c hrest

theorem first_ne (name : Identifier) {c : Char} (hc : isIdentifierStart c = false) :
    name.first ≠ c := by
  intro hfirst
  have hstart := name.starts
  rw [hfirst, hc] at hstart
  cases hstart

theorem text_injective {first second : Identifier} (heq : first.text = second.text) :
    first = second := by
  injection heq with hfirst hrest
  exact Identifier.ext hfirst hrest

theorem eq_of_text_append_eq {first second : Identifier} {rest others : List Char}
    (heq : first.text ++ rest = second.text ++ others)
    (hrest : StopsAt isIdentifierCharacter rest) (hothers : StopsAt isIdentifierCharacter others) :
    first = second ∧ rest = others :=
  (append_inj_of_stopsAt heq first.all_text second.all_text hrest hothers).imp_left text_injective

/-- The identifier after a dot. -/
def afterDot (name : Identifier) : List Char :=
  '.' :: name.text

end Identifier

/-- Identifiers with dots between them. -/
@[ext]
structure DottedName where
  first : Identifier
  others : List Identifier

namespace DottedName

def text (name : DottedName) : List Char :=
  name.first.text ++ name.others.flatMap Identifier.afterDot

theorem stopsAt_isBlank_text_append (name : DottedName) (rest : List Char) :
    StopsAt isBlank (name.text ++ rest) :=
  stopsAt_cons.mpr (isBlank_of_isIdentifierStart name.first.starts)

theorem not_stopsAt_text_append (name : DottedName) (rest : List Char) :
    ¬ StopsAt isIdentifierCharacter (name.text ++ rest) := by
  intro hstops
  have hfirst := isIdentifierCharacter_of_isIdentifierStart name.first.starts
  rw [stopsAt_cons.mp hstops] at hfirst
  cases hfirst

/-- A further identifier of a base type. -/
def furtherPart : Phrases Identifier where
  text := Identifier.afterDot
  trees _ _ := []
  EndsBefore _ rest := StopsAt isIdentifierCharacter rest

def phrases : Phrases DottedName where
  text := text
  trees _ _ := []
  EndsBefore _ rest := StopsAt isIdentifierCharacter rest ∧ ¬ furtherPart.Starts rest

theorem reads_furtherPart :
    (inOrder (.literal ['.']) [identifier]).Reads true furtherPart := by
  apply ((Reads.literal ['.']).sequence Identifier.reads_identifier).of_phrases
  · intro name rest hends
    exact ⟨((), name), ⟨trivial, hends⟩, rfl, fun _ => rfl⟩
  · intro both rest hends
    exact ⟨both.2, rest, hends.2, rfl⟩

theorem stopsAt_furtherPart (part : Identifier) (rest : List Char)
    (_ : StopsAt isIdentifierCharacter rest) :
    StopsAt isIdentifierCharacter (furtherPart.text part ++ rest) :=
  stopsAt_cons.mpr rfl

theorem reads_body :
    (inOrder identifier [.many (inOrder (.literal ['.']) [identifier])]).Reads true phrases := by
  have hparts := reads_furtherPart.many fun _ => List.cons_ne_nil _ _
  apply (Identifier.reads_identifier.sequence hparts).of_phrases
  · intro name rest hends
    refine ⟨(name.first, name.others), ⟨?_, ?_⟩, rfl, fun offset => ?_⟩
    · exact Phrases.before_flatMap_text stopsAt_furtherPart hends.1 name.others
    · exact Phrases.manyEndBefore_of_before _ (fun _ _ hstops => hstops) stopsAt_furtherPart
        hends.1 hends.2 _
    · exact Phrases.treesOfMany_eq_nil (fun _ _ => rfl) _ _
  · intro both rest hends
    refine ⟨⟨both.1, both.2⟩, rest, ⟨?_, Phrases.not_starts_of_manyEndBefore hends.2⟩, rfl⟩
    exact Phrases.before_of_manyEndBefore _ (fun _ _ hstops => hstops) hends.1 hends.2

theorem stopsAt_flatMap_afterDot (parts : List Identifier) :
    StopsAt isIdentifierCharacter (parts.flatMap Identifier.afterDot) := by
  have hstops : StopsAt isIdentifierCharacter (parts.flatMap furtherPart.text ++ []) :=
    Phrases.before_flatMap_text stopsAt_furtherPart (stopsAt_nil _) parts
  rwa [List.append_nil] at hstops

theorem flatMap_afterDot_injective {first second : List Identifier}
    (heq : first.flatMap Identifier.afterDot = second.flatMap Identifier.afterDot) :
    first = second := by
  induction first generalizing second with
  | nil =>
      cases second with
      | nil => rfl
      | cons part others => cases heq
  | cons part others ih =>
      cases second with
      | nil => cases heq
      | cons next rest =>
          obtain ⟨rfl, hothers⟩ := Identifier.eq_of_text_append_eq (List.cons.inj heq).2
            (stopsAt_flatMap_afterDot others) (stopsAt_flatMap_afterDot rest)
          exact congrArg (part :: ·) (ih hothers)

theorem text_injective {first second : DottedName} (heq : first.text = second.text) :
    first = second := by
  obtain ⟨hfirst, hothers⟩ := Identifier.eq_of_text_append_eq heq
    (stopsAt_flatMap_afterDot first.others) (stopsAt_flatMap_afterDot second.others)
  exact DottedName.ext hfirst (flatMap_afterDot_injective hothers)

theorem not_starts_furtherPart {rest : List Char} (hdot : StopsAt isDot rest) :
    ¬ furtherPart.Starts rest := by
  rintro ⟨part, others, -, rfl⟩
  cases hdot

end DottedName

/-! ### Types -/

/-- The text of `count` array dimensions. -/
def dimensionText : Nat → List Char
  | 0 => []
  | count + 1 => '[' :: ']' :: dimensionText count

@[ext]
structure WrittenType where
  base : DottedName
  dimensions : Nat

namespace WrittenType

def text (type : WrittenType) : List Char :=
  type.base.text ++ dimensionText type.dimensions

/-- The type without its spelling. -/
def name (type : WrittenType) : TypeName :=
  ⟨String.ofList type.base.text, type.dimensions⟩

theorem stopsAt_isBlank_text_append (type : WrittenType) (rest : List Char) :
    StopsAt isBlank (type.text ++ rest) := by
  rw [text, List.append_assoc]
  exact type.base.stopsAt_isBlank_text_append _

theorem not_stopsAt_text_append (type : WrittenType) (rest : List Char) :
    ¬ StopsAt isIdentifierCharacter (type.text ++ rest) := by
  rw [text, List.append_assoc]
  exact type.base.not_stopsAt_text_append _

def dimensionPhrases : Phrases Unit :=
  (Phrases.word ['[', ']']).enclosed .arraySuffix

/-- The tree of the type at an offset. -/
def tree (type : WrittenType) (offset : Nat) : SyntaxTree :=
  .node .typeName ⟨offset, offset + byteLength type.text⟩ type.text
    (.node .baseType ⟨offset, offset + byteLength type.base.text⟩ type.base.text [] ::
      dimensionPhrases.treesOfMany (List.replicate type.dimensions ())
        (offset + byteLength type.base.text))

@[simp]
def phrases : Phrases WrittenType where
  text := text
  trees type offset := [type.tree offset]
  EndsBefore type rest :=
    (type.dimensions = 0 → DottedName.phrases.EndsBefore type.base rest) ∧
      ¬ ['[', ']'] <+: rest

theorem reads_arraySuffix : arraySuffix.Reads false dimensionPhrases := by
  apply Reads.labelled
  apply ((Reads.literal ['[']).sequence (Reads.literal [']'])).of_phrases
  · intro _ rest _
    exact ⟨((), ()), ⟨trivial, trivial⟩, rfl, fun _ => rfl⟩
  · intro _ rest _
    exact ⟨(), rest, trivial, rfl⟩

theorem flatMap_dimensionPhrases (all : List Unit) :
    all.flatMap dimensionPhrases.text = dimensionText all.length := by
  induction all with
  | nil => rfl
  | cons _ others ih => exact congrArg ('[' :: ']' :: ·) ih

theorem starts_dimensionPhrases_iff {rest : List Char} :
    dimensionPhrases.Starts rest ↔ ['[', ']'] <+: rest := by
  constructor
  · rintro ⟨_, others, -, rfl⟩
    exact ⟨others, rfl⟩
  · rintro ⟨others, rfl⟩
    exact ⟨(), others, trivial, rfl⟩

/-- A type ends where its base does, unless dimensions follow. -/
theorem endsBefore_dimensionText {base : DottedName} {count : Nat} {rest : List Char} :
    DottedName.phrases.EndsBefore base (dimensionText count ++ rest) ↔
      (count = 0 → DottedName.phrases.EndsBefore base rest) := by
  cases count with
  | zero => simp [dimensionText]
  | succ count =>
      simp only [Nat.add_one_ne_zero, false_implies, iff_true]
      exact ⟨rfl, DottedName.not_starts_furtherPart rfl⟩

theorem reads_typeName : typeName.Reads false phrases := by
  have hbase : baseType.Reads false (DottedName.phrases.enclosed .baseType) :=
    Reads.labelled DottedName.reads_body
  have hdimensions := reads_arraySuffix.many fun _ => List.cons_ne_nil _ _
  have htype : typeName.Reads false _ := (hbase.sequence hdimensions).labelled
  apply htype.of_phrases
  · intro type rest hends
    have hcount : (List.replicate type.dimensions ()).flatMap dimensionPhrases.text =
        dimensionText type.dimensions := by
      rw [flatMap_dimensionPhrases, List.length_replicate]
    have hbase : DottedName.phrases.EndsBefore type.base
        ((List.replicate type.dimensions ()).flatMap dimensionPhrases.text ++ rest) :=
      hcount ▸ endsBefore_dimensionText.mpr hends.1
    refine ⟨(type.base, List.replicate type.dimensions ()), ⟨hbase, ?_⟩, ?_, fun offset => ?_⟩
    · exact Phrases.manyEndBefore_of_before (fun _ => True) (fun _ _ _ => trivial)
        (fun _ _ _ => trivial) trivial (starts_dimensionPhrases_iff.not.mpr hends.2) _
    · exact congrArg (type.base.text ++ ·) hcount
    · simp [hcount, tree, text, DottedName.phrases]
  · intro both rest hends
    have htext : both.2.flatMap dimensionPhrases.text = dimensionText both.2.length :=
      flatMap_dimensionPhrases both.2
    refine ⟨⟨both.1, both.2.length⟩, rest, ⟨?_, ?_⟩, ?_⟩
    · exact endsBefore_dimensionText.mp (htext ▸ hends.1)
    · exact starts_dimensionPhrases_iff.not.mp (Phrases.not_starts_of_manyEndBefore hends.2)
    · exact congrArg (both.1.text ++ · ++ rest) htext

theorem length_filter_dimensionPhrases (count offset : Nat) :
    ((dimensionPhrases.treesOfMany (List.replicate count ()) offset).filter fun child =>
      child.rule = .arraySuffix).length = count := by
  induction count generalizing offset with
  | zero => rfl
  | succ count ih =>
      rw [List.replicate_succ, Phrases.treesOfMany, List.filter_append, List.length_append, ih]
      exact Nat.add_comm 1 count

/-- Reading the tree of a type gives its name and dimensions. -/
theorem ofTree_tree (type : WrittenType) (offset : Nat) :
    TypeName.ofTree (type.tree offset) =
      .ok ⟨.ofExtent ⟨offset, offset + byteLength type.text⟩, type.name⟩ := by
  have hbase : (type.tree offset).require .baseType =
      .ok (.node .baseType ⟨offset, offset + byteLength type.base.text⟩ type.base.text []) := rfl
  have hdimensions : ((type.tree offset).childrenOf .arraySuffix).length = type.dimensions :=
    length_filter_dimensionPhrases _ _
  rw [TypeName.ofTree, hbase, hdimensions]
  rfl

theorem name_injective : Function.Injective name := by
  intro first second heq
  have hbase : first.base.text = second.base.text :=
    String.ofList_injective (congrArg TypeName.base heq)
  have hdimensions : first.dimensions = second.dimensions := congrArg TypeName.dimensions heq
  exact WrittenType.ext (DottedName.text_injective hbase) hdimensions

/-- Nothing that could go on with a type follows a delimiter. -/
theorem endsBefore_of_delimits (type : WrittenType) {rest : List Char} (hrest : Delimits rest) :
    phrases.EndsBefore type rest := by
  refine ⟨fun _ => ⟨hrest.1, DottedName.not_starts_furtherPart hrest.2.1⟩, ?_⟩
  rintro ⟨others, rfl⟩
  cases hrest.2.2

/-- The text after the first identifier. -/
def afterFirst (type : WrittenType) : List Char :=
  type.base.others.flatMap Identifier.afterDot ++ dimensionText type.dimensions

theorem text_eq (type : WrittenType) : type.text = type.base.first.text ++ type.afterFirst :=
  List.append_assoc _ _ _

theorem stopsAt_afterFirst_append {type : WrittenType} {rest : List Char}
    (hends : phrases.EndsBefore type rest) :
    StopsAt isIdentifierCharacter (type.afterFirst ++ rest) := by
  rw [afterFirst, List.append_assoc]
  exact Phrases.before_flatMap_text DottedName.stopsAt_furtherPart
    (endsBefore_dimensionText.mpr hends.1).1 _

end WrittenType

/-! ### Members -/

inductive MethodName where
  /-- The name of every constructor. -/
  | initializer
  | named (name : Identifier)

namespace MethodName

def text : MethodName → List Char
  | .initializer => "<init>".toList
  | .named name => name.text

def EndsBefore : MethodName → List Char → Prop
  | .initializer, _ => True
  | .named _, rest => StopsAt isIdentifierCharacter rest

def phrases : Phrases MethodName where
  text := text
  trees name offset :=
    [.node .methodName ⟨offset, offset + byteLength name.text⟩ name.text []]
  EndsBefore := EndsBefore

theorem text_injective {first second : MethodName} (heq : first.text = second.text) :
    first = second := by
  have hnamed (name : Identifier) : name.text ≠ "<init>".toList := by
    intro htext
    exact name.first_ne rfl (List.cons.inj htext).1
  cases first with
  | initializer =>
      cases second with
      | initializer => rfl
      | named second => exact absurd heq.symm (hnamed second)
  | named first =>
      cases second with
      | initializer => exact absurd heq (hnamed first)
      | named second => exact congrArg named (Identifier.text_injective heq)

theorem not_prefix_text_append (name : Identifier) (rest : List Char) :
    ¬ (Phrases.word "<init>".toList).Starts (name.text ++ rest) := by
  rintro ⟨_, others, -, heq⟩
  exact name.first_ne rfl (List.cons.inj heq).1

theorem reads_methodName : methodName.Reads false phrases := by
  have hname : methodName.Reads false _ :=
    ((Reads.literal "<init>".toList).choice Identifier.reads_identifier).labelled
  apply hname.of_phrases
  · intro name rest hends
    cases name with
    | initializer => exact ⟨.inl (), hends, rfl, fun _ => rfl⟩
    | named name =>
        exact ⟨.inr name, ⟨hends, not_prefix_text_append name rest⟩, rfl, fun _ => rfl⟩
  · intro either rest hends
    cases either with
    | inl _ => exact ⟨.initializer, rest, trivial, rfl⟩
    | inr name => exact ⟨.named name, rest, hends.1, rfl⟩

end MethodName

/-- A method with the class that owns it. -/
structure Member where
  owner : DottedName
  name : MethodName

namespace Member

def text (member : Member) : List Char :=
  member.owner.text ++ '.' :: member.name.text

theorem stopsAt_isBlank_text_append (member : Member) (rest : List Char) :
    StopsAt isBlank (member.text ++ rest) := by
  rw [text, List.append_assoc]
  exact member.owner.stopsAt_isBlank_text_append _

theorem not_stopsAt_text_append (member : Member) (rest : List Char) :
    ¬ StopsAt isIdentifierCharacter (member.text ++ rest) := by
  rw [text, List.append_assoc]
  exact member.owner.not_stopsAt_text_append _

/-- The tree of the member at an offset. -/
def tree (member : Member) (offset : Nat) : SyntaxTree :=
  let nameOffset := offset + byteLength (member.owner.text ++ ['.'])
  .node .member ⟨offset, offset + byteLength member.text⟩ member.text
    [.node .owner ⟨offset, offset + byteLength member.owner.text⟩ member.owner.text [],
      .node .methodName ⟨nameOffset, nameOffset + byteLength member.name.text⟩
        member.name.text []]

/-- A name that could go on, or be the last part of the owner, has to end. -/
def EndsBefore (member : Member) (rest : List Char) : Prop :=
  member.name.EndsBefore rest ∧ (member.name ≠ .initializer → StopsAt isDot rest)

@[simp]
def phrases : Phrases Member where
  text := text
  trees member offset := [member.tree offset]
  EndsBefore := EndsBefore

/-- A further identifier of an owner. -/
def ownerPart : Phrases Identifier where
  text := Identifier.afterDot
  trees _ _ := []
  EndsBefore _ rest := rest.head?.any isDot = true

theorem stopsAt_of_dot {rest : List Char} (hdot : rest.head?.any isDot = true) :
    StopsAt isIdentifierCharacter rest := by
  cases rest with
  | nil => cases hdot
  | cons c others =>
      have hc : c = '.' := by simpa [isDot] using hdot
      exact stopsAt_cons.mpr (hc ▸ rfl)

theorem reads_ownerPart :
    (inOrder (.literal ['.']) [identifier, .followedBy isDot]).Reads true ownerPart := by
  apply ((Reads.literal ['.']).sequence
    (Identifier.reads_identifier.sequence (Reads.followedBy isDot))).of_phrases
  · intro name rest hdot
    exact ⟨((), name, ()), ⟨trivial, stopsAt_of_dot hdot, hdot⟩,
      congrArg ('.' :: ·) (List.append_nil _), fun _ => rfl⟩
  · intro parts rest hends
    refine ⟨parts.2.1, rest, hends.2.2, ?_⟩
    exact congrArg ('.' :: · ++ rest) (List.append_nil _)

/-- The name of a method is no part of its owner if and only if no dot follows
it. -/
theorem not_starts_ownerPart_iff {name : MethodName} {rest : List Char}
    (hends : name.EndsBefore rest) :
    ¬ ownerPart.Starts ('.' :: name.text ++ rest) ↔
      (name ≠ .initializer → StopsAt isDot rest) := by
  cases name with
  | initializer =>
      simp only [ne_eq, not_true_eq_false, false_implies, iff_true]
      rintro ⟨part, others, -, heq⟩
      exact part.first_ne rfl (List.cons.inj (List.cons.inj heq).2).1.symm
  | named name =>
      constructor
      · intro hstarts _
        apply eq_false_of_ne_true
        intro hdot
        exact hstarts ⟨name, rest, hdot, rfl⟩
      · -- a part that starts here has to be the whole name, and a dot follows it
        rintro hstops ⟨part, others, hdot, heq⟩
        have hrest : name = part ∧ rest = others :=
          Identifier.eq_of_text_append_eq (List.cons.inj heq).2 hends (stopsAt_of_dot hdot)
        have hstops : rest.head?.any isDot = false := hstops (by simp)
        rw [hrest.2, hdot] at hstops
        cases hstops

/-- An owner goes on as long as a dot follows its parts. -/
def ownerPhrases : Phrases DottedName where
  text := DottedName.text
  trees owner offset :=
    [.node .owner ⟨offset, offset + byteLength owner.text⟩ owner.text []]
  EndsBefore owner := (Identifier.phrases.append ownerPart.many).EndsBefore
    (owner.first, owner.others)

theorem reads_owner : Expression.owner.Reads false ownerPhrases := by
  have howner : Expression.owner.Reads false _ :=
    Reads.labelled (Identifier.reads_identifier.sequence
      (reads_ownerPart.many fun _ => List.cons_ne_nil _ _))
  apply howner.of_phrases
  · intro owner rest hends
    have hnone (offset : Nat) : ownerPart.treesOfMany owner.others offset = [] :=
      Phrases.treesOfMany_eq_nil (fun _ _ => rfl) _ offset
    refine ⟨(owner.first, owner.others), hends, rfl, fun offset => ?_⟩
    exact congrArg (fun trees => [SyntaxTree.node .owner _ owner.text trees]) (hnone _)
  · intro both rest hends
    exact ⟨⟨both.1, both.2⟩, rest, hends, rfl⟩

theorem ownerPhrases_endsBefore (owner : DottedName) {rest : List Char}
    (hdot : rest.head?.any isDot = true) (hstarts : ¬ ownerPart.Starts rest) :
    ownerPhrases.EndsBefore owner rest := by
  have htext (part : Identifier) (rest : List Char) (_ : rest.head?.any isDot = true) :
      (ownerPart.text part ++ rest).head?.any isDot = true :=
    rfl
  constructor
  · exact stopsAt_of_dot (Phrases.before_flatMap_text htext hdot owner.others)
  · exact Phrases.manyEndBefore_of_before _ (fun _ _ hdot => hdot) htext hdot hstarts _

theorem reads_member : Expression.member.Reads false phrases := by
  have hmember : Expression.member.Reads false _ :=
    (reads_owner.sequence ((Reads.literal ['.']).sequence MethodName.reads_methodName)).labelled
  apply hmember.of_phrases
  · intro member rest hends
    have howner := ownerPhrases_endsBefore member.owner rfl
      ((not_starts_ownerPart_iff hends.1).mpr hends.2)
    refine ⟨(member.owner, (), member.name), ⟨howner, trivial, hends.1⟩, rfl, fun offset => ?_⟩
    simp [ownerPhrases, MethodName.phrases, tree, text, Nat.add_assoc]
  · intro parts rest hends
    have hname : parts.2.2.EndsBefore rest := hends.2.2
    refine ⟨⟨parts.1, parts.2.2⟩, rest, ⟨hname, ?_⟩, rfl⟩
    exact (not_starts_ownerPart_iff hname).mp (Phrases.not_starts_of_manyEndBefore hends.1.2)

theorem endsBefore_of_delimits (member : Member) {rest : List Char} (hrest : Delimits rest) :
    phrases.EndsBefore member rest := by
  refine ⟨?_, fun _ => hrest.2.1⟩
  cases member.name with
  | initializer => trivial
  | named name => exact hrest.1

end Member

end AdviceCompiler.Pointcut
