import AdviceCompiler.Pointcut.Reading

/-!
# Excerpts that show a fault

An excerpt shows the line of the signature that holds a fault and underlines
the fault.  The columns assume that each character of the line is one column
wide, which holds for ASCII text; a tab is shown as four blanks and any other
control character as its picture.  Deep indentation is shortened, and the mark
moves with the text.
-/

namespace AdviceCompiler.Pointcut

/-- Terminal styles of an excerpt. -/
inductive Style where
  | plain
  /-- The title. -/
  | bold
  /-- Line numbers and the frame. -/
  | frame
  /-- The fault itself. -/
  | fault
  deriving DecidableEq

namespace Style

/-- The escape sequence that switches the style on. -/
def escape : Style → String
  | .plain => ""
  | .bold => "\x1b[1m"
  | .frame => "\x1b[1m\x1b[94m"
  | .fault => "\x1b[1m\x1b[91m"

def apply (style : Style) (colors : Bool) (text : String) : String :=
  if colors ∧ style ≠ .plain then style.escape ++ text ++ "\x1b[0m" else text

end Style

/-- A line of text without its line end. -/
structure Line where
  number : Nat
  /-- The place of the line's first byte. -/
  start : Nat
  /-- The place after the line and its end. -/
  stop : Nat
  characters : List Char
  deriving DecidableEq

namespace Line

/-- Splits off the first line: its characters, the bytes of its end, and the
text after it.  A carriage return before the line feed belongs to the line
end. -/
def split : List Char → List Char × Nat × List Char
  | [] => ([], 0, [])
  | '\n' :: rest => ([], 1, rest)
  | '\r' :: '\n' :: rest => ([], 2, rest)
  | c :: rest =>
      let (characters, ending, after) := split rest
      (c :: characters, ending, after)

theorem length_split_lt {input : List Char} (hinput : input ≠ []) :
    (split input).2.2.length < input.length := by
  fun_induction split input with
  | case1 => exact absurd rfl hinput
  | case2 => simp
  | case3 => simp +arith
  | case4 c rest _ _ characters ending after hsplit ih =>
      cases rest with
      | nil =>
          simp only [split, Prod.mk.injEq] at hsplit
          simp [← hsplit.2.2]
      | cons d tail =>
          have := ih (by simp)
          simp only [hsplit, List.length_cons] at this ⊢
          omega

/-- The lines of a text, numbered from `number` on.  Nothing after the last line
end is no line. -/
def ofText (number start : Nat) (input : List Char) : List Line :=
  if hinput : input = [] then []
  else
    let characters := (split input).1
    let stop := start + byteLength characters + (split input).2.1
    ⟨number, start, stop, characters⟩ :: ofText (number + 1) stop (split input).2.2
termination_by input.length
decreasing_by exact length_split_lt hinput

/-- The line that holds a place.  The end of the text is on the last line, and
an empty text has one empty line. -/
def holding (input : List Char) (offset : Nat) : Line :=
  let lines := ofText 1 0 input
  match lines.find? fun line => line.start ≤ offset ∧ offset < line.stop with
  | some line => line
  | none => lines.getLast?.getD ⟨1, 0, 0, []⟩

/-- The characters of the first `count` bytes. -/
def takeBytes : List Char → Nat → List Char
  | [], _ => []
  | c :: rest, count =>
      if count < c.utf8Size then [] else c :: takeBytes rest (count - c.utf8Size)

/-- The characters of the line in front of a place. -/
def before (line : Line) (offset : Nat) : List Char :=
  takeBytes line.characters (offset - line.start)

/-- The column of a place, counted from one.  A line end counts as one
character. -/
def column (line : Line) (offset : Nat) : Nat :=
  (line.before offset).length + 1 +
    if byteLength line.characters < offset - line.start then 1 else 0

end Line

/-- A character as an excerpt shows it. -/
def shown (c : Char) : List Char :=
  if c = '\t' then [' ', ' ', ' ', ' ']
  else if c.toNat < 0x20 then [Char.ofNat (0x2400 + c.toNat)]
  else if c.toNat = 0x7f then [Char.ofNat 0x2421]
  else [c]

namespace Line

/-- The line as an excerpt shows it, one character for each column. -/
def columns (line : Line) : List Char :=
  line.characters.flatMap shown

/-- How many blank columns the line starts with.  A line of blanks alone has
no text to indent, so its blanks do not count. -/
def indentation (line : Line) : Nat :=
  if line.columns.all (· = ' ') then 0
  else (line.columns.takeWhile (· = ' ')).length

/-- The deepest indentation that is shown in full. -/
def fullIndentation : Nat := 26

/-- The columns in front of the text that remain of a deeper indentation. -/
def keptIndentation : Nat := 22

/-- How many columns are left out at the start of the line. -/
def hidden (line : Line) : Nat :=
  if fullIndentation < line.indentation then line.indentation - keptIndentation else 0

/-- The part of the line that is shown.  If columns are left out, dots take the
place of the first three that remain. -/
def text (line : Line) (colors : Bool) : String :=
  if line.hidden = 0 then String.ofList line.columns
  else Style.frame.apply colors "..." ++ String.ofList (line.columns.drop (line.hidden + 3))

/-- How many columns of the full line stand in front of a place. -/
def indent (line : Line) (offset : Nat) : Nat :=
  ((line.before offset).flatMap shown).length

/-- The width set aside for line numbers when a fault ends at a place.  It suits
the last line with a character in front of that place. -/
def gutter (line : Line) (offset : Nat) : Nat :=
  (toString (if line.start < offset then line.number else line.number - 1)).length

/-- The number of the line and the bar beside it.  A number too wide for the
gutter takes up the blank before the bar. -/
def label (line : Line) (gutter : Nat) (colors : Bool) : String :=
  let number := toString line.number
  if gutter < number.length then Style.frame.apply colors (number ++ "|")
  else Style.frame.apply colors number ++ " " ++ Style.frame.apply colors "|"

end Line

/-- The same character over and over. -/
def fill (count : Nat) (c : Char) : String :=
  String.ofList (List.replicate count c)

/-- The excerpt of a fault: title, place, and the marked line in a frame. -/
def Fault.excerpt (fault : Fault) (text : String) (colors : Bool) : String :=
  let extent := fault.span.extent
  let line := Line.holding text.toList extent.start
  let gutter := line.gutter extent.stop
  let margin := fill gutter ' '
  let bar := Style.frame.apply colors "|"
  let indent := line.indent extent.start
  let width := max 1 (line.indent extent.stop - indent)
  let title := Style.fault.apply colors "error" ++
    Style.bold.apply colors ": invalid pointcut"
  let place := margin ++ Style.frame.apply colors "--> " ++ "<pointcut>:" ++
    toString line.number ++ ":" ++ toString (line.column extent.start)
  let content := line.label gutter colors ++
    if line.characters.isEmpty then "" else " " ++ line.text colors
  let mark := margin ++ " " ++ bar ++ " " ++ fill (indent - line.hidden) ' ' ++
    Style.fault.apply colors (fill width '^') ++ " " ++
    Style.fault.apply colors fault.message
  "\n".intercalate [title, place, margin ++ " " ++ bar, content, mark]

/-- A refused signature, as it is reported. -/
structure Rejection where
  signature : String
  message : String
  extent : Option Extent
  /-- The excerpts, if the reader makes any. -/
  rendered : Option String
  deriving DecidableEq

namespace Rejection

/-- Collects the faults of a signature into one report. -/
def ofFaults (colors : Bool) (signature : String) (faults : List Fault) : Rejection where
  signature := signature
  message := "; ".intercalate (faults.map Fault.message)
  extent := faults.head?.map fun fault => fault.span.extent
  rendered := some (String.join (faults.map fun fault => fault.excerpt signature colors ++ "\n"))

def text (rejection : Rejection) : String :=
  "invalid pointcut `" ++ rejection.signature ++ "`: " ++ rejection.message

end Rejection

/-- Reads a signature and reports its faults with excerpts. -/
def readReporting (colors : Bool) (text : String) : Except Rejection Method :=
  match read text with
  | .ok method => .ok method
  | .error faults => .error (.ofFaults colors text faults)

end AdviceCompiler.Pointcut
