import AdviceCompiler.Proofs.SignatureParts

/-!
# Written signatures

A signature is written from its parts: blanks, the word `static`, a result, a
member and a parameter list.  The grammar reads every such text as a whole, and
the tree it builds has the parts at their places.
-/

namespace AdviceCompiler.Pointcut

open Expression

/-- The stretch of a text that stands after another, in bytes. -/
def Extent.after (before part : List Char) : Extent :=
  ⟨(String.ofList before).utf8ByteSize, (String.ofList (before ++ part)).utf8ByteSize⟩

/-- The place of a text that stands after another, as far as 32 bits hold it. -/
def Span.after (before part : List Char) : Span :=
  ⟨UInt32.ofNat (String.ofList before).utf8ByteSize,
    UInt32.ofNat (String.ofList (before ++ part)).utf8ByteSize⟩

theorem Extent.after_eq (before part : List Char) :
    Extent.after before part = ⟨byteLength before, byteLength before + byteLength part⟩ := by
  rw [after, ← byteLength_eq_utf8ByteSize, ← byteLength_eq_utf8ByteSize, byteLength_append]

theorem Span.ofExtent_after (before part : List Char) :
    Span.ofExtent (.after before part) = .after before part := rfl

/-- The type with its place after a text. -/
def WrittenType.placed (type : WrittenType) (before : List Char) : Spanned TypeName :=
  ⟨.after before type.text, type.name⟩

theorem WrittenType.ofTree_placed (type : WrittenType) (before : List Char) :
    TypeName.ofTree (type.tree (byteLength before)) = .ok (type.placed before) := by
  rw [ofTree_tree, placed, ← Extent.after_eq, Span.ofExtent_after]

/-! ### Parameter lists -/

/-- A parameter after a comma. -/
structure NextParameter where
  before : Blanks
  after : Blanks
  type : WrittenType

namespace NextParameter

def separator (next : NextParameter) : List Char :=
  next.before.text ++ ',' :: next.after.text

def text (next : NextParameter) : List Char :=
  next.separator ++ next.type.text

/-- The types with their places after a text. -/
def placed : List NextParameter → List Char → List (Spanned TypeName)
  | [], _ => []
  | next :: others, before =>
      next.type.placed (before ++ next.separator) :: placed others (before ++ next.text)

@[simp]
def phrases : Phrases NextParameter where
  text := text
  trees next offset := [next.type.tree (offset + byteLength next.separator)]
  EndsBefore next rest := WrittenType.phrases.EndsBefore next.type rest

theorem reads_nextParameter :
    (inOrder blanks [spaced (.literal [',']) [typeName]]).Reads false phrases := by
  have hparts := Blanks.reads_blanks.sequence
    ((Reads.literal [',']).sequence (Blanks.reads_blanks.sequence WrittenType.reads_typeName))
  apply hparts.of_phrases
  · intro next rest hends
    refine ⟨(next.before, (), next.after, next.type),
      ⟨stopsAt_cons.mpr rfl, trivial, ?_, hends⟩, ?_, fun offset => ?_⟩
    · exact next.type.stopsAt_isBlank_text_append rest
    · simp [text, separator]
    · simp [separator, byteLength, Nat.add_assoc]
  · intro parts rest hends
    refine ⟨⟨parts.1, parts.2.2.1, parts.2.2.2⟩, rest, hends.2.2.2, ?_⟩
    simp [text, separator]

theorem delimits_text_append (next : NextParameter) (rest : List Char) :
    Delimits (next.text ++ rest) := by
  have hcomma : Delimits (',' :: (next.after.text ++ next.type.text ++ rest)) :=
    ⟨rfl, rfl, rfl⟩
  simpa [text, separator] using next.before.delimits_append hcomma

/-- The end of a list is no further parameter. -/
theorem not_starts_closing (closing : Blanks) (rest : List Char) :
    ¬ phrases.Starts (closing.text ++ ')' :: rest) := by
  rintro ⟨next, others, -, heq⟩
  have hsplit : closing.text ++ ')' :: rest = next.before.text ++
      ',' :: (next.after.text ++ next.type.text ++ others) := by
    simpa [phrases, text, separator] using heq
  have hrest := (append_inj_of_stopsAt hsplit closing.all_blank next.before.all_blank
    (stopsAt_cons.mpr rfl) (stopsAt_cons.mpr rfl)).2
  cases hrest

theorem mapM_ofTree_treesOfMany (all : List NextParameter) (before : List Char) :
    (phrases.treesOfMany all (byteLength before)).mapM TypeName.ofTree =
      .ok (placed all before) := by
  induction all generalizing before with
  | nil => rfl
  | cons next others ih =>
      have hcons : phrases.treesOfMany (next :: others) (byteLength before) =
          next.type.tree (byteLength (before ++ next.separator)) ::
            phrases.treesOfMany others (byteLength (before ++ next.text)) := by
        rw [byteLength_append, byteLength_append]
        rfl
      rw [hcons, List.mapM_cons, next.type.ofTree_placed, ih (before ++ next.text)]
      rfl

theorem rule_of_mem_treesOfMany {all : List NextParameter} {offset : Nat} {tree : SyntaxTree}
    (htree : tree ∈ phrases.treesOfMany all offset) : tree.rule = .typeName := by
  induction all generalizing offset with
  | nil => cases htree
  | cons next others ih =>
      cases htree with
      | head => rfl
      | tail _ hothers => exact ih hothers

end NextParameter

/-- A parameter list in parentheses. -/
structure ParameterList where
  opening : Blanks
  /-- The first parameter and those that follow it. -/
  types : Option (WrittenType × List NextParameter)
  closing : Blanks

namespace ParameterList

def typesText (list : ParameterList) : List Char :=
  match list.types with
  | none => []
  | some (first, others) => first.text ++ others.flatMap NextParameter.text

def text (list : ParameterList) : List Char :=
  '(' :: list.opening.text ++ list.typesText ++ list.closing.text ++ [')']

/-- The parameters from left to right. -/
def parameters (list : ParameterList) : List WrittenType :=
  match list.types with
  | none => []
  | some (first, others) => first :: others.map NextParameter.type

/-- The parameters with their places in a list that stands after a text. -/
def placed (list : ParameterList) (before : List Char) : List (Spanned TypeName) :=
  match list.types with
  | none => []
  | some (first, others) =>
      let start := before ++ '(' :: list.opening.text
      first.placed start :: NextParameter.placed others (start ++ first.text)

def typesPhrases : Phrases (Option (WrittenType × List NextParameter)) :=
  (WrittenType.phrases.append NextParameter.phrases.many).optional

/-- The tree of the list at an offset. -/
def tree (list : ParameterList) (offset : Nat) : SyntaxTree :=
  .node .parameters ⟨offset, offset + byteLength list.text⟩ list.text
    (typesPhrases.trees list.types (offset + byteLength ('(' :: list.opening.text)))

@[simp]
def phrases : Phrases ParameterList where
  text := text
  trees list offset := [list.tree offset]
  EndsBefore _ _ := True

theorem text_typesPhrases (list : ParameterList) :
    typesPhrases.text list.types = list.typesText := by
  cases list with
  | mk opening types closing =>
      cases types with
      | none => rfl
      | some types => rfl

/-- What the grammar reads of a list. -/
def piecePhrases : Phrases
    (Unit × Blanks × Option (WrittenType × List NextParameter) × Blanks × Unit) :=
  (Phrases.word ['(']).append (Blanks.phrases.append
    (typesPhrases.append (Blanks.phrases.append (Phrases.word [')']))))

theorem reads_pieces : Expression.parameters.Reads false (piecePhrases.enclosed .parameters) := by
  have hothers := NextParameter.reads_nextParameter.many fun next => by
    simp [NextParameter.text, NextParameter.separator]
  have htypes := (WrittenType.reads_typeName.sequence hothers).optional
  exact ((Reads.literal ['(']).sequence (Blanks.reads_blanks.sequence
    (htypes.sequence (Blanks.reads_blanks.sequence (Reads.literal [')']))))).labelled

/-- Before a list without parameters closes, no type stands. -/
theorem not_starts_types (rest : List Char) :
    ¬ (WrittenType.phrases.append NextParameter.phrases.many).Starts (')' :: rest) := by
  rintro ⟨⟨type, others⟩, after, -, heq⟩
  exact type.base.first.first_ne rfl (List.cons.inj heq).1.symm

theorem endsBefore_types (first : WrittenType) (others : List NextParameter) (closing : Blanks)
    (rest : List Char) :
    (WrittenType.phrases.append NextParameter.phrases.many).EndsBefore (first, others)
      (closing.text ++ ')' :: rest) := by
  have hclosing : Delimits (closing.text ++ ')' :: rest) :=
    closing.delimits_append ⟨rfl, rfl, rfl⟩
  have htext (next : NextParameter) (rest : List Char) (_ : Delimits rest) :
      Delimits (NextParameter.phrases.text next ++ rest) :=
    next.delimits_text_append rest
  constructor
  · exact first.endsBefore_of_delimits (Phrases.before_flatMap_text htext hclosing others)
  · exact Phrases.manyEndBefore_of_before Delimits
      (fun next _ hrest => next.type.endsBefore_of_delimits hrest) htext hclosing
      (NextParameter.not_starts_closing closing rest) others

/-- The list as the grammar reads it.  Blanks around no parameters are one run. -/
def pieces (list : ParameterList) :
    Unit × Blanks × Option (WrittenType × List NextParameter) × Blanks × Unit :=
  match list.types with
  | none => ((), list.opening.append list.closing, none, Blanks.none, ())
  | some types => ((), list.opening, some types, list.closing, ())

theorem endsBefore_pieces (list : ParameterList) (rest : List Char) :
    piecePhrases.EndsBefore list.pieces rest := by
  cases htypes : list.types with
  | none =>
      rw [pieces, htypes]
      exact ⟨trivial, stopsAt_cons.mpr rfl, not_starts_types rest, stopsAt_cons.mpr rfl, trivial⟩
  | some types =>
      have hends : typesPhrases.EndsBefore (some types)
          ((list.closing.text ++ [')']) ++ rest) := by
        rw [List.append_assoc]
        exact endsBefore_types types.1 types.2 list.closing rest
      rw [pieces, htypes]
      refine ⟨trivial, ?_, hends, stopsAt_cons.mpr rfl, trivial⟩
      exact stopsAt_cons.mpr (isBlank_of_isIdentifierStart types.1.base.first.starts)

theorem text_pieces (list : ParameterList) : piecePhrases.text list.pieces = list.text := by
  cases htypes : list.types with
  | none =>
      simp [pieces, piecePhrases, text, htypes, typesPhrases, typesText, Blanks.append, Blanks.none]
  | some types =>
      simp [pieces, piecePhrases, text, htypes, typesPhrases, typesText]

theorem trees_pieces (list : ParameterList) (offset : Nat) :
    piecePhrases.trees list.pieces offset =
      typesPhrases.trees list.types (offset + byteLength ('(' :: list.opening.text)) := by
  cases htypes : list.types with
  | none =>
      simp [pieces, piecePhrases, htypes, typesPhrases]
  | some types =>
      simp [pieces, piecePhrases, htypes, byteLength, Nat.add_assoc]

theorem reads_parameters : Expression.parameters.Reads false phrases := by
  apply reads_pieces.of_phrases
  · intro list rest _
    refine ⟨list.pieces, list.endsBefore_pieces rest, list.text_pieces, fun offset => ?_⟩
    simp only [Phrases.enclosed, text_pieces, trees_pieces, phrases, tree]
  · intro pieces rest hends
    refine ⟨⟨pieces.2.1, pieces.2.2.1, pieces.2.2.2.1⟩, rest, trivial, ?_⟩
    simp [piecePhrases, text, ← text_typesPhrases]

/-- Reading the tree of a list gives its parameters. -/
theorem mapM_ofTree_childrenOf (list : ParameterList) (before : List Char) :
    ((list.tree (byteLength before)).childrenOf .typeName).mapM TypeName.ofTree =
      .ok (list.placed before) := by
  rcases list with ⟨opening, types, closing⟩
  cases types with
  | none => rfl
  | some types =>
      let all := types.1.tree (byteLength (before ++ '(' :: opening.text)) ::
        NextParameter.phrases.treesOfMany types.2
          (byteLength (before ++ '(' :: opening.text ++ types.1.text))
      have hchildren :
          (tree ⟨opening, some types, closing⟩ (byteLength before)).children = all := by
        simp only [all, byteLength_append]
        rfl
      have hrules : ∀ child ∈ all, decide (child.rule = .typeName) = true := by
        intro child hchild
        obtain rfl | hothers := List.mem_cons.mp hchild
        · rfl
        · exact decide_eq_true (NextParameter.rule_of_mem_treesOfMany hothers)
      rw [SyntaxTree.childrenOf, hchildren, List.filter_eq_self.mpr hrules, List.mapM_cons,
        types.1.ofTree_placed, NextParameter.mapM_ofTree_treesOfMany]
      rfl

end ParameterList

/-! ### Signatures -/

/-- The word in front of a static method. -/
def staticWord : List Char := "static".toList

def staticPhrases : Phrases Unit where
  text _ := staticWord
  trees _ offset :=
    [.node .staticModifier ⟨offset, offset + byteLength staticWord⟩ staticWord []]
  EndsBefore _ rest := StopsAt isIdentifierCharacter rest

theorem reads_staticModifier : staticModifier.Reads false staticPhrases := by
  have hword : staticModifier.Reads false _ :=
    Reads.labelled ((Reads.literal staticWord).sequence
      (Reads.notFollowedBy isIdentifierCharacter))
  apply hword.of_phrases
  · intro _ rest hstops
    exact ⟨((), ()), ⟨trivial, hstops⟩, rfl, fun _ => rfl⟩
  · intro both rest hends
    exact ⟨(), rest, hends.2, rfl⟩

/-- The word `static` stands before a type if it is the type's first identifier. -/
theorem starts_staticPhrases_iff {type : WrittenType} {rest : List Char}
    (hends : WrittenType.phrases.EndsBefore type rest) :
    staticPhrases.Starts (type.text ++ rest) ↔ type.base.first.text = staticWord := by
  have hafter := WrittenType.stopsAt_afterFirst_append hends
  rw [type.text_eq, List.append_assoc]
  constructor
  · rintro ⟨_, others, hothers, heq⟩
    have hword : ∀ c ∈ staticWord, isIdentifierCharacter c = true := List.all_eq_true.mp rfl
    exact (append_inj_of_stopsAt heq type.base.first.all_text hword hafter hothers).1
  · intro hstatic
    rw [hstatic]
    exact ⟨(), _, hafter, rfl⟩

/-- A signature without its modifier. -/
structure WrittenDeclaration where
  result : WrittenType
  gap : Blanks
  member : Member
  beforeList : Blanks
  list : ParameterList
  trailing : Blanks
  result_apart : result.dimensions = 0 → gap.text ≠ []

namespace WrittenDeclaration

/-- The text after the member. -/
def afterMember (written : WrittenDeclaration) : List Char :=
  written.beforeList.text ++ (written.list.text ++ written.trailing.text)

/-- The text after the result. -/
def afterResult (written : WrittenDeclaration) : List Char :=
  written.gap.text ++ (written.member.text ++ written.afterMember)

def text (written : WrittenDeclaration) : List Char :=
  written.result.text ++ written.afterResult

/-- The tree of the end of the text. -/
def endTree (offset : Nat) : SyntaxTree :=
  .node .endOfInput ⟨offset, offset⟩ [] []

/-- The trees of the parts at an offset. -/
def trees (written : WrittenDeclaration) (offset : Nat) : List SyntaxTree :=
  let memberOffset := offset + byteLength (written.result.text ++ written.gap.text)
  let listOffset := memberOffset + byteLength (written.member.text ++ written.beforeList.text)
  [written.result.tree offset, written.member.tree memberOffset, written.list.tree listOffset,
    endTree (offset + byteLength written.text)]

@[simp]
def phrases : Phrases WrittenDeclaration where
  text := text
  trees := trees
  EndsBefore _ rest := rest = []

theorem stopsAt_isBlank_text (written : WrittenDeclaration) : StopsAt isBlank written.text :=
  written.result.stopsAt_isBlank_text_append _

/-- What the grammar reads after the modifier. -/
def piecePhrases :
    Phrases (WrittenType × Blanks × Member × Blanks × ParameterList × Blanks × Unit) :=
  WrittenType.phrases.append (Blanks.phrases.append (Member.phrases.append
    (Blanks.phrases.append (ParameterList.phrases.append (Blanks.phrases.append
      ((Phrases.nothing (· = [])).enclosed .endOfInput))))))

theorem reads_pieces :
    (spaced typeName [Expression.member, parameters, endOfInput]).Reads false piecePhrases := by
  have hend : endOfInput.Reads false _ := Reads.labelled Reads.finished
  have hlist := Blanks.reads_blanks.sequence
    (ParameterList.reads_parameters.sequence (Blanks.reads_blanks.sequence hend))
  have hmember := Blanks.reads_blanks.sequence (Member.reads_member.sequence hlist)
  exact WrittenType.reads_typeName.sequence hmember

/-- The result ends where the gap or the owner begins. -/
theorem endsBefore_result (written : WrittenDeclaration) :
    WrittenType.phrases.EndsBefore written.result written.afterResult := by
  rw [afterResult]
  by_cases hgap : written.gap.text = []
  · rw [hgap]
    refine ⟨fun hdimensions => absurd hgap (written.result_apart hdimensions), ?_⟩
    rintro ⟨others, heq⟩
    exact written.member.owner.first.first_ne rfl (List.cons.inj heq).1.symm
  · exact written.result.endsBefore_of_delimits
      (written.gap.delimits_append_of_ne_nil hgap _)

/-- After the result, the pieces always stand apart. -/
theorem endsBefore_pieces_iff {result : WrittenType} {gap beforeList trailing : Blanks}
    {member : Member} {list : ParameterList} {rest : List Char} :
    piecePhrases.EndsBefore (result, gap, member, beforeList, list, trailing, ()) rest ↔
      WrittenType.phrases.EndsBefore result
        (gap.text ++ (member.text ++ (beforeList.text ++ (list.text ++ trailing.text)))) ∧
        rest = [] := by
  have hlist : Delimits (beforeList.text ++ (list.text ++ trailing.text)) :=
    beforeList.delimits_append ⟨rfl, rfl, rfl⟩
  simp only [piecePhrases, Phrases.append, Blanks.phrases, Phrases.enclosed, Phrases.nothing,
    Member.phrases, ParameterList.phrases, List.append_assoc, List.nil_append]
  constructor
  · rintro ⟨hresult, -, -, -, -, -, rfl⟩
    rw [List.append_nil] at hresult
    exact ⟨hresult, rfl⟩
  · rintro ⟨hresult, rfl⟩
    rw [List.append_nil]
    exact ⟨hresult, member.stopsAt_isBlank_text_append _, member.endsBefore_of_delimits hlist,
      stopsAt_cons.mpr rfl, trivial, rfl, rfl⟩

theorem reads_declaration :
    (spaced typeName [Expression.member, parameters, endOfInput]).Reads false phrases := by
  apply reads_pieces.of_phrases
  · intro written rest hrest
    refine ⟨(written.result, written.gap, written.member, written.beforeList, written.list,
      written.trailing, ()), endsBefore_pieces_iff.mpr ⟨written.endsBefore_result, hrest⟩, ?_,
      fun offset => ?_⟩
    · simp [piecePhrases, text, afterResult, afterMember]
    · simp [piecePhrases, trees, endTree, text, afterResult, afterMember, Nat.add_assoc]
  · intro pieces rest hends
    obtain ⟨result, gap, member, beforeList, list, trailing, _⟩ := pieces
    obtain ⟨hresult, rfl⟩ := endsBefore_pieces_iff.mp hends
    -- without a gap the owner would go on with the last identifier of the result
    have hgap : result.dimensions = 0 → gap.text ≠ [] := by
      intro hdimensions hgap
      rw [hgap] at hresult
      exact member.not_stopsAt_text_append _ (hresult.1 hdimensions).1
    refine ⟨⟨result, gap, member, beforeList, list, trailing, hgap⟩, [], rfl, ?_⟩
    simp [piecePhrases, text, afterResult, afterMember]

end WrittenDeclaration

/-- A signature written from its parts. -/
structure WrittenSignature where
  leading : Blanks
  /-- The blanks after the word `static`, if it is there. -/
  modifier : Option Blanks
  declaration : WrittenDeclaration
  modifier_apart : ∀ after ∈ modifier, after.text ≠ []
  result_not_modifier : modifier = none → declaration.result.base.first.text ≠ staticWord

namespace WrittenSignature

def modifierText (written : WrittenSignature) : List Char :=
  match written.modifier with
  | none => []
  | some after => staticWord ++ after.text

/-- The text in front of the result. -/
def beforeResult (written : WrittenSignature) : List Char :=
  written.leading.text ++ written.modifierText

def text (written : WrittenSignature) : List Char :=
  written.beforeResult ++ written.declaration.text

/-- The text in front of the owner. -/
def beforeOwner (written : WrittenSignature) : List Char :=
  written.beforeResult ++ (written.declaration.result.text ++ written.declaration.gap.text)

/-- The text in front of the method's name. -/
def beforeName (written : WrittenSignature) : List Char :=
  written.beforeOwner ++ (written.declaration.member.owner.text ++ ['.'])

/-- The text in front of the parameter list. -/
def beforeParameters (written : WrittenSignature) : List Char :=
  written.beforeOwner ++
    (written.declaration.member.text ++ written.declaration.beforeList.text)

/-- The parts with their places. -/
def signature (written : WrittenSignature) : Signature where
  staticModifier := written.modifier.map fun _ => .after written.leading.text staticWord
  returnType := written.declaration.result.placed written.beforeResult
  owner := ⟨.after written.beforeOwner written.declaration.member.owner.text,
    String.ofList written.declaration.member.owner.text⟩
  name := ⟨.after written.beforeName written.declaration.member.name.text,
    String.ofList written.declaration.member.name.text⟩
  params := written.declaration.list.placed written.beforeParameters

/-- The tree of the modifier, if it is there. -/
def modifierTrees (written : WrittenSignature) : List SyntaxTree :=
  (written.modifier.map fun _ =>
    .node .staticModifier (.after written.leading.text staticWord) staticWord []).toList

/-- The tree of the signature. -/
def tree (written : WrittenSignature) : SyntaxTree :=
  .node .pointcut (.after [] written.text) written.text
    (written.modifierTrees ++ written.declaration.trees (byteLength written.beforeResult))

/-- What the grammar reads of a signature. -/
def piecePhrases : Phrases (Blanks × Option Unit × Blanks × WrittenDeclaration) :=
  Blanks.phrases.append (staticPhrases.optional.append
    (Blanks.phrases.append WrittenDeclaration.phrases))

theorem reads_pieces : pointcut.Reads false (piecePhrases.enclosed .pointcut) := by
  have hdeclaration := Blanks.reads_blanks.sequence WrittenDeclaration.reads_declaration
  exact Reads.labelled
    (Blanks.reads_blanks.sequence (reads_staticModifier.optional.sequence hdeclaration))

def pieces (written : WrittenSignature) : Blanks × Option Unit × Blanks × WrittenDeclaration :=
  (written.leading, written.modifier.map fun _ => (), written.modifier.getD Blanks.none,
    written.declaration)

theorem text_pieces (written : WrittenSignature) :
    piecePhrases.text written.pieces = written.text := by
  cases hmodifier : written.modifier with
  | none =>
      simp [pieces, piecePhrases, text, beforeResult, modifierText, hmodifier, Blanks.none]
  | some after =>
      simp [pieces, piecePhrases, staticPhrases, text, beforeResult, modifierText, hmodifier]

theorem trees_pieces (written : WrittenSignature) :
    piecePhrases.trees written.pieces 0 =
      written.modifierTrees ++ written.declaration.trees (byteLength written.beforeResult) := by
  cases hmodifier : written.modifier with
  | none =>
      simp [pieces, piecePhrases, beforeResult, modifierText, modifierTrees, hmodifier, Blanks.none]
  | some after =>
      simp [pieces, piecePhrases, staticPhrases, beforeResult, modifierText, modifierTrees,
        hmodifier, Extent.after_eq, Nat.add_assoc]

theorem endsBefore_pieces (written : WrittenSignature) :
    piecePhrases.EndsBefore written.pieces [] := by
  -- blanks end before the modifier and before the result, whichever comes next
  have hdeclaration := written.declaration.stopsAt_isBlank_text
  simp only [piecePhrases, Phrases.append, Blanks.phrases, WrittenDeclaration.phrases,
    List.append_nil]
  cases hmodifier : written.modifier with
  | none =>
      simp only [pieces, hmodifier, Option.map_none, Option.getD_none]
      have hresult := starts_staticPhrases_iff written.declaration.endsBefore_result
      exact ⟨hdeclaration, hresult.not.mpr (written.result_not_modifier hmodifier),
        hdeclaration, trivial⟩
  | some after =>
      simp only [pieces, hmodifier, Option.map_some, Option.getD_some]
      have hafter := after.delimits_append_of_ne_nil (written.modifier_apart after hmodifier)
        written.declaration.text
      exact ⟨stopsAt_cons.mpr rfl, hafter.1, hdeclaration, trivial⟩

/-- The grammar reads a written signature as a whole. -/
theorem matchAt_text (written : WrittenSignature) :
    pointcut.matchAt false 0 written.text = some ⟨written.text, [], [written.tree]⟩ := by
  have hmatch := reads_pieces.matches_phrase written.endsBefore_pieces 0
  simp only [Phrases.enclosed, text_pieces, trees_pieces, List.append_nil] at hmatch
  simpa [tree, Extent.after_eq] using hmatch

/-- What the grammar reads is a written signature. -/
theorem exists_text_eq {input : List Char} {found : Match}
    (hmatch : pointcut.matchAt false 0 input = some found) :
    ∃ written : WrittenSignature, input = written.text := by
  obtain ⟨⟨leading, modifier, second, declaration⟩, rest, hends, rfl⟩ := reads_pieces.starts hmatch
  simp only [Phrases.enclosed, piecePhrases, Phrases.append, Blanks.phrases,
    WrittenDeclaration.phrases, List.append_assoc] at hends ⊢
  obtain ⟨hleading, hmodifier, -, rfl⟩ := hends
  rw [List.append_nil] at hleading hmodifier ⊢
  cases modifier with
  | none =>
      -- the blanks in front have taken all there are
      have hsecond : second.text = [] := second.text_eq_nil_of_stopsAt hleading
      rw [hsecond] at hmodifier ⊢
      have hresult := (starts_staticPhrases_iff declaration.endsBefore_result).not.mp hmodifier
      exact ⟨⟨leading, none, declaration, by simp, fun _ => hresult⟩,
        congrArg (· ++ declaration.text) (List.append_nil _).symm⟩
  | some _ =>
      have hsecond : second.text ≠ [] := by
        intro hsecond
        rw [hsecond] at hmodifier
        exact declaration.result.not_stopsAt_text_append _ hmodifier
      refine ⟨⟨leading, some second, declaration, by simpa using hsecond, by simp⟩, ?_⟩
      simp [text, beforeResult, modifierText, staticPhrases]

theorem trees_declaration (written : WrittenSignature) :
    written.declaration.trees (byteLength written.beforeResult) =
      [written.declaration.result.tree (byteLength written.beforeResult),
        written.declaration.member.tree (byteLength written.beforeOwner),
        written.declaration.list.tree (byteLength written.beforeParameters),
        WrittenDeclaration.endTree (byteLength written.text)] := by
  simp only [WrittenDeclaration.trees, beforeOwner, beforeParameters, text, byteLength_append]

theorem require_owner (written : WrittenSignature) :
    (written.declaration.member.tree (byteLength written.beforeOwner)).require .owner =
      .ok (.node .owner (.after written.beforeOwner written.declaration.member.owner.text)
        written.declaration.member.owner.text []) := by
  rw [Extent.after_eq]
  rfl

theorem require_methodName (written : WrittenSignature) :
    (written.declaration.member.tree (byteLength written.beforeOwner)).require .methodName =
      .ok (.node .methodName (.after written.beforeName written.declaration.member.name.text)
        written.declaration.member.name.text []) := by
  rw [Extent.after_eq, beforeName, byteLength_append]
  rfl

/-- The parts of a signature are found in its tree. -/
theorem child?_tree (written : WrittenSignature) :
    (written.tree.child? .staticModifier).map SyntaxTree.span = written.signature.staticModifier ∧
      written.tree.child? .typeName =
        some (written.declaration.result.tree (byteLength written.beforeResult)) ∧
      written.tree.child? .member =
        some (written.declaration.member.tree (byteLength written.beforeOwner)) ∧
      written.tree.child? .parameters =
        some (written.declaration.list.tree (byteLength written.beforeParameters)) := by
  cases hmodifier : written.modifier with
  | none =>
      simp only [tree, trees_declaration, modifierTrees, signature, hmodifier, Option.map_none,
        Option.toList_none]
      exact ⟨rfl, rfl, rfl, rfl⟩
  | some after =>
      simp only [tree, trees_declaration, modifierTrees, signature, hmodifier, Option.map_some,
        Option.toList_some]
      exact ⟨rfl, rfl, rfl, rfl⟩

/-- Reading the tree of a signature gives its parts. -/
theorem ofTree_tree (written : WrittenSignature) :
    Signature.ofTree written.tree = .ok written.signature := by
  obtain ⟨hstatic, hresult, hmember, hlist⟩ := written.child?_tree
  have hrequire : ∀ {rule child}, written.tree.child? rule = some child →
      written.tree.require rule = .ok child := by
    intro rule child hchild
    rw [SyntaxTree.require, hchild]
  rw [Signature.ofTree, hstatic, hrequire hresult, hrequire hmember, hlist]
  simp only [bind, Except.bind, written.declaration.result.ofTree_placed, require_owner,
    require_methodName, written.declaration.list.mapM_ofTree_childrenOf]
  rfl

/-! ### Reading -/

theorem parse_eq_of_text_eq {text : String} (written : WrittenSignature)
    (htext : text.toList = written.text) : Signature.parse text = .ok written.signature := by
  have htrees : Rule.pointcut.parse text = .ok [written.tree] := by
    simp only [Rule.parse, ofRule, htext, matchAt_text]
  rw [Signature.parse, htrees]
  exact written.ofTree_tree

/-- A text is written from the parts of a signature, or the grammar rejects it. -/
theorem exists_text_eq_or_unexpected (text : String) :
    (∃ written : WrittenSignature, text.toList = written.text) ∨
      ∃ failure, Signature.parse text = .error (.unexpected failure) := by
  cases hmatch : pointcut.matchAt false 0 text.toList with
  | some found => exact .inl (exists_text_eq hmatch)
  | none =>
      right
      simp only [Signature.parse, Rule.parse, ofRule, hmatch]
      exact ⟨_, rfl⟩

end WrittenSignature

end AdviceCompiler.Pointcut
