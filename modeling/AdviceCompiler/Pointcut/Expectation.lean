import AdviceCompiler.Pointcut.Matching

/-!
# What was expected where matching failed

A text that does not match is reported at the farthest place where a rule
failed, with the rules that were tried there.  A rule stands for the rules
tried inside it at its own start, unless exactly one of them was.
-/

namespace AdviceCompiler.Pointcut

/-- The farthest failure so far: its place, and the rules tried there. -/
structure Frontier where
  offset : Nat := 0
  expected : List Rule := []
  deriving DecidableEq

namespace Frontier

/-- The number of rules recorded at this place. -/
def count (frontier : Frontier) (offset : Nat) : Nat :=
  if frontier.offset = offset then frontier.expected.length else 0

/-- Records that `rule` failed at `offset`.  The frontier was `before` when the
rule started and `after` once its body had failed. -/
def record (before after : Frontier) (rule : Rule) (offset : Nat) : Frontier :=
  if after.count offset = before.count offset + 1 then after
  else if after.offset < offset then ⟨offset, [rule]⟩
  else if after.offset = offset then
    ⟨offset, after.expected.take (before.count offset) ++ [rule]⟩
  else after

end Frontier

namespace Expression

/-- Follows the failures of `matchRepeatedly`. -/
def followRepeatedly (step : Nat → List Char → Option Match)
    (follow : Nat → List Char → Frontier → Frontier) (offset : Nat) (input : List Char)
    (frontier : Frontier) : Frontier :=
  let frontier := follow offset input frontier
  match step offset input with
  | none => frontier
  | some first =>
      if _hshorter : first.rest.length < input.length then
        followRepeatedly step follow (offset + byteLength first.taken) first.rest frontier
      else frontier
termination_by input.length

/-- The frontier after matching an expression as `matchAt` does. -/
def follow : Expression → Bool → Nat → List Char → Frontier → Frontier
  | .sequence first second, hidden, offset, input, frontier =>
      let frontier := first.follow hidden offset input frontier
      match first.matchAt hidden offset input with
      | none => frontier
      | some before =>
          second.follow hidden (offset + byteLength before.taken) before.rest frontier
  | .choice first second, hidden, offset, input, frontier =>
      let frontier := first.follow hidden offset input frontier
      match first.matchAt hidden offset input with
      | some _ => frontier
      | none => second.follow hidden offset input frontier
  | .optional inner, hidden, offset, input, frontier =>
      inner.follow hidden offset input frontier
  | .many inner, hidden, offset, input, frontier =>
      followRepeatedly (inner.matchAt hidden) (inner.follow hidden) offset input frontier
  | .labelled rule scope body, hidden, offset, input, frontier =>
      let after := body.follow (scope.hides hidden) offset input frontier
      match body.matchAt (scope.hides hidden) offset input with
      | some _ => after
      | none => if hidden then after else frontier.record after rule offset
  | _, _, _, _, frontier => frontier

end Expression

/-- The place of a failed match and the rules expected there. -/
structure Unexpected where
  offset : Nat
  expected : List Rule
  deriving DecidableEq

def Unexpected.message (failure : Unexpected) : String :=
  if failure.expected.isEmpty then "unknown parsing error"
  else "expected " ++ " or ".intercalate (failure.expected.map Rule.description)

/-- The trees of the beginning of `text` that a rule matches. -/
def Rule.parse (rule : Rule) (text : String) : Except Unexpected (List SyntaxTree) :=
  let expression := Expression.ofRule rule
  match expression.matchAt false 0 text.toList with
  | some found => .ok found.trees
  | none =>
      let frontier := expression.follow false 0 text.toList {}
      .error ⟨frontier.offset, Rule.all.filter fun rule => frontier.expected.contains rule⟩

end AdviceCompiler.Pointcut
