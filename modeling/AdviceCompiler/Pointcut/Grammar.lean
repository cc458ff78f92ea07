/-!
# The grammar of pointcut signatures

A signature is written `[static] <result> <owner>.<method>(<parameter>, ...)`.
The grammar is a parsing expression grammar: choices are ordered, and `optional`
and `many` take what they can and never give it back.  Blanks may stand between
the parts of a signature and of a parameter list, nowhere else.
-/

namespace AdviceCompiler.Pointcut

inductive Rule where
  | endOfInput
  | blank
  | pointcut
  | staticModifier
  | member
  | owner
  | methodName
  | parameters
  | typeName
  | baseType
  | arraySuffix
  | identifier
  | identifierCharacter
  deriving DecidableEq

namespace Rule

/-- All rules in the order in which they are listed to the reader. -/
def all : List Rule :=
  [.endOfInput, .blank, .pointcut, .staticModifier, .member, .owner, .methodName,
    .parameters, .typeName, .baseType, .arraySuffix, .identifier, .identifierCharacter]

/-- The name of the rule in a syntax tree. -/
def name : Rule → String
  | .endOfInput => "EOI"
  | .blank => "WHITESPACE"
  | .pointcut => "pointcut"
  | .staticModifier => "static_kw"
  | .member => "member"
  | .owner => "owner"
  | .methodName => "method_name"
  | .parameters => "params"
  | .typeName => "type_name"
  | .baseType => "base_type"
  | .arraySuffix => "array_suffix"
  | .identifier => "identifier"
  | .identifierCharacter => "ident_char"

def ofName? (name : String) : Option Rule :=
  all.find? fun rule => rule.name = name

/-- The rule in the words of an error message. -/
def description : Rule → String
  | .staticModifier => "`static`"
  | .typeName => "type"
  | .baseType => "type"
  | .member => "member"
  | .owner => "owner type"
  | .methodName => "identifier"
  | .identifier => "identifier"
  | .parameters => "`(`"
  | .arraySuffix => "`[]`"
  | .endOfInput => "end of input"
  | _ => "token"

end Rule

/-- How a rule changes the treatment of the rules inside it. -/
inductive Scope where
  /-- Inner rules are treated as outside. -/
  | inherited
  /-- The rule is one token: inner rules leave no trace. -/
  | token
  /-- Inner rules show, whatever the outside. -/
  | shown
  deriving DecidableEq

/-- Whether rules inside a rule of this scope leave no trace. -/
def Scope.hides : Scope → Bool → Bool
  | .inherited, hidden => hidden
  | .token, _ => true
  | .shown, _ => false

inductive Expression where
  | literal (characters : List Char)
  | character (accepts : Char → Bool)
  /-- The next character is of the class; nothing is taken. -/
  | followedBy (accepts : Char → Bool)
  /-- No character of the class comes next; nothing is taken. -/
  | notFollowedBy (accepts : Char → Bool)
  /-- Nothing is left. -/
  | finished
  | sequence (first second : Expression)
  | choice (first second : Expression)
  | optional (inner : Expression)
  | many (inner : Expression)
  /-- The text of a rule. -/
  | labelled (rule : Rule) (scope : Scope) (body : Expression)

namespace Expression

def isBlank (c : Char) : Bool :=
  c = ' ' || c = '\t' || c = '\n' || c = '\r'

def isIdentifierStart (c : Char) : Bool :=
  c.isAlpha || c = '_' || c = '$'

def isIdentifierCharacter (c : Char) : Bool :=
  c.isAlphanum || c = '_' || c = '$'

def isDot (c : Char) : Bool :=
  c = '.'

/-- One expression after the other, with nothing between them. -/
def inOrder : Expression → List Expression → Expression
  | first, [] => first
  | first, second :: rest => .sequence first (inOrder second rest)

def blanks : Expression :=
  .many (.character isBlank)

/-- One expression after the other, with blanks between them. -/
def spaced : Expression → List Expression → Expression
  | first, [] => first
  | first, second :: rest => .sequence first (.sequence blanks (spaced second rest))

def identifier : Expression :=
  .labelled .identifier .token
    (inOrder (.character isIdentifierStart) [.many (.character isIdentifierCharacter)])

def arraySuffix : Expression :=
  .labelled .arraySuffix .token (inOrder (.literal ['[']) [.literal [']']])

/-- An identifier, and further ones after dots. -/
def baseType : Expression :=
  .labelled .baseType .token
    (inOrder identifier [.many (inOrder (.literal ['.']) [identifier])])

def typeName : Expression :=
  .labelled .typeName .shown (inOrder baseType [.many arraySuffix])

/-- A parameter list in parentheses. -/
def parameters : Expression :=
  .labelled .parameters .inherited
    (spaced (.literal ['('])
      [.optional (inOrder typeName
          [.many (inOrder blanks [spaced (.literal [',']) [typeName]])]),
        .literal [')']])

def methodName : Expression :=
  .labelled .methodName .token (.choice (.literal "<init>".toList) identifier)

/-- The identifiers of a dotted name that are followed by a dot. -/
def owner : Expression :=
  .labelled .owner .token
    (inOrder identifier
      [.many (inOrder (.literal ['.']) [identifier, .followedBy isDot])])

def member : Expression :=
  .labelled .member .shown (inOrder owner [.literal ['.'], methodName])

/-- The word `static` that no identifier continues. -/
def staticModifier : Expression :=
  .labelled .staticModifier .token
    (inOrder (.literal "static".toList) [.notFollowedBy isIdentifierCharacter])

def endOfInput : Expression :=
  .labelled .endOfInput .inherited .finished

def pointcut : Expression :=
  .labelled .pointcut .inherited
    (inOrder blanks
      [spaced (.optional staticModifier) [typeName, member, parameters, endOfInput]])

/-- The expression of each rule.  The two rules for single characters leave no
trace of themselves. -/
def ofRule : Rule → Expression
  | .endOfInput => endOfInput
  | .blank => .character isBlank
  | .pointcut => pointcut
  | .staticModifier => staticModifier
  | .member => member
  | .owner => owner
  | .methodName => methodName
  | .parameters => parameters
  | .typeName => typeName
  | .baseType => baseType
  | .arraySuffix => arraySuffix
  | .identifier => identifier
  | .identifierCharacter => .character isIdentifierCharacter

end Expression

end AdviceCompiler.Pointcut
