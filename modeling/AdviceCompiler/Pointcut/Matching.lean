import AdviceCompiler.Pointcut.Grammar

/-!
# Matching text against the grammar

Matching takes a beginning of the text and gives the syntax trees of the rules
that matched in it.  Places in the text are counted in bytes of its UTF-8
encoding.
-/

namespace AdviceCompiler.Pointcut

/-- A stretch of text, from its first byte to the byte after its last. -/
structure Extent where
  start : Nat
  stop : Nat
  deriving DecidableEq

/-- The length of a text in bytes. -/
def byteLength : List Char → Nat
  | [] => 0
  | c :: rest => c.utf8Size + byteLength rest

/-- A rule with the text it matched and the rules inside it. -/
inductive SyntaxTree where
  | node (rule : Rule) (extent : Extent) (text : List Char) (children : List SyntaxTree)

namespace SyntaxTree

def rule : SyntaxTree → Rule
  | .node rule _ _ _ => rule

def extent : SyntaxTree → Extent
  | .node _ extent _ _ => extent

def text : SyntaxTree → List Char
  | .node _ _ text _ => text

def children : SyntaxTree → List SyntaxTree
  | .node _ _ _ children => children

/-- The children with this rule. -/
def childrenOf (tree : SyntaxTree) (rule : Rule) : List SyntaxTree :=
  tree.children.filter fun child => child.rule = rule

/-- The first child with this rule. -/
def child? (tree : SyntaxTree) (rule : Rule) : Option SyntaxTree :=
  tree.children.find? fun child => child.rule = rule

end SyntaxTree

/-- A beginning of the text that matched, what follows it, and the trees of the
match. -/
structure Match where
  taken : List Char
  rest : List Char
  trees : List SyntaxTree

namespace Match

/-- The match that takes nothing. -/
def nothing (input : List Char) : Match :=
  ⟨[], input, []⟩

/-- Two matches, one after the other. -/
def append (first second : Match) : Match :=
  ⟨first.taken ++ second.taken, second.rest, first.trees ++ second.trees⟩

/-- Puts the trees of a match under a rule that started at `offset`. -/
def enclose (inner : Match) (rule : Rule) (offset : Nat) : Match :=
  ⟨inner.taken, inner.rest,
    [.node rule ⟨offset, offset + byteLength inner.taken⟩ inner.taken inner.trees]⟩

end Match

namespace Expression

/-- Matches again and again, as long as text is taken. -/
def matchRepeatedly (step : Nat → List Char → Option Match) (offset : Nat)
    (input : List Char) : Match :=
  match step offset input with
  | none => .nothing input
  | some first =>
      if _hshorter : first.rest.length < input.length then
        first.append (matchRepeatedly step (offset + byteLength first.taken) first.rest)
      else first
termination_by input.length

/-- Matches an expression at the start of `input`, which stands at `offset` in
the text.  Rules leave no trace where they are hidden. -/
def matchAt : Expression → Bool → Nat → List Char → Option Match
  | .literal characters, _, _, input =>
      if characters.isPrefixOf input then
        some ⟨characters, input.drop characters.length, []⟩
      else none
  | .character accepts, _, _, input =>
      match input with
      | c :: rest => if accepts c then some ⟨[c], rest, []⟩ else none
      | [] => none
  | .followedBy accepts, _, _, input =>
      if input.head?.any accepts then some (.nothing input) else none
  | .notFollowedBy accepts, _, _, input =>
      if input.head?.any accepts then none else some (.nothing input)
  | .finished, _, _, input =>
      if input.isEmpty then some (.nothing input) else none
  | .sequence first second, hidden, offset, input =>
      match first.matchAt hidden offset input with
      | none => none
      | some before =>
          (second.matchAt hidden (offset + byteLength before.taken) before.rest).map
            before.append
  | .choice first second, hidden, offset, input =>
      match first.matchAt hidden offset input with
      | some found => some found
      | none => second.matchAt hidden offset input
  | .optional inner, hidden, offset, input =>
      match inner.matchAt hidden offset input with
      | some found => some found
      | none => some (.nothing input)
  | .many inner, hidden, offset, input =>
      some (matchRepeatedly (inner.matchAt hidden) offset input)
  | .labelled rule scope body, hidden, offset, input =>
      match body.matchAt (scope.hides hidden) offset input with
      | none => none
      | some inner => some (if hidden then inner else inner.enclose rule offset)

end Expression

end AdviceCompiler.Pointcut
