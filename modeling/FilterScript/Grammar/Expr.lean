import FilterScript.Grammar.Import
import FilterScript.Grammar.Type
import FilterScript.Tree.Expr

/-! # Expressions

Operators are read by precedence: an operand, then operators that hold at least
as tightly as asked for, each with an operand of its own that holds tighter. An
operand is a prefixed operator, an early exit, or a primary expression with
accesses, calls and question marks behind it.

Expressions and blocks contain each other. The productions of this module and
of the next are therefore given the three on which recursion goes back, and are
tied together afterwards.
-/

namespace FilterScript.Grammar

open Parse

/-- The productions that others go back to: an expression of operators that hold
at least as tightly as a number says, a block, and a conditional behind
`else`. -/
structure Rules where
  expr : Nat → Parse (Expr Span Symbol)
  block : Parse (Block Span Symbol)
  elseIf : Parse (Expr Span Symbol)

/-- One more operator and its right operand, if it holds tightly enough. -/
def operatorRound (rules : Rules) (least : Nat) (left : Expr Span Symbol) :
    Parse (Round (Expr Span Symbol) (Expr Span Symbol)) := do
  match BinaryOp.ofKind? (← peek).kind with
  | some op =>
      if op.precedence < least then
        return .done left
      else
        let _ ← advance
        let right ← rules.expr (op.precedence + 1)
        return .more (.binary op left right (left.span.hull right.span))
  | none => return .done left

/-- Operators and operands that follow a first operand, grouped to the left. -/
def operators (rules : Rules) (least : Nat) (first : Expr Span Symbol) :
    Parse (Expr Span Symbol) :=
  repeated (operatorRound rules least) first

/-- One more access, call or question mark behind an expression. -/
def postfixRound (rules : Rules) (expr : Expr Span Symbol) :
    Parse (Round (Expr Span Symbol) (Expr Span Symbol)) := do
  if ← takes Punct.dot then
    let name ← ident
    return .more (.access expr name (expr.span.hull name.span))
  else if ← takes Punct.lparen then
    let arguments ← withRecords true (commaList Punct.rparen (rules.expr 0))
    let right ← expect Punct.rparen
    return .more (.call expr arguments (expr.span.hull right.span))
  else if ← nextIs Punct.question then
    let mark ← advance
    return .more (.question expr (expr.span.hull mark.span))
  else
    return .done expr

/-- Accesses, calls and question marks behind an expression, in any order. -/
def postfixes (rules : Rules) (first : Expr Span Symbol) : Parse (Expr Span Symbol) :=
  repeated (postfixRound rules) first

/-- What follows `else`, if that follows. -/
def alternative (rules : Rules) : Parse (Option (Alternative Span Symbol)) := do
  if ← takes Keyword.else_ then
    if ← nextIs Keyword.if_ then
      return some (.conditional (← rules.elseIf))
    else
      return some (.block (← rules.block))
  else
    return none

/-- `if`, with any number of `else if` behind it. A brace after the condition
opens its block, never a record. -/
def conditional (rules : Rules) : Parse (Expr Span Symbol) := do
  let start ← expect Keyword.if_
  let condition ← withRecords false (rules.expr 0)
  let consequence ← rules.block
  let other ← alternative rules
  -- What comes last ends the whole.
  let stop := (other.map Alternative.span).getD consequence.span
  return .conditional condition consequence other ⟨start.span.start, stop.stop⟩

/-- `while`, a condition and a block. -/
def whileLoop (rules : Rules) : Parse (Expr Span Symbol) := do
  let start ← expect Keyword.while_
  let condition ← withRecords false (rules.expr 0)
  let body ← rules.block
  return .loop condition body ⟨start.span.start, body.span.stop⟩

/-- A variant, and in parentheses the names for what it holds. -/
def pattern : Parse (Pattern Span Symbol) := do
  if (← peek).kind.isName then
    let variant ← path
    if ← nextIs Punct.lparen then
      let _ ← advance
      let names ← commaList Punct.rparen ident
      let right ← expect Punct.rparen
      return ⟨variant, some names, variant.span.hull right.span⟩
    else
      return ⟨variant, none, variant.span⟩
  else
    want .pattern
    refuse

/-- The condition behind a bar, if there is one. -/
def guard (rules : Rules) : Parse (Option (Expr Span Symbol)) := do
  if ← takes Punct.bar then
    return some (← rules.expr 0)
  else
    return none

/-- Whether a block comes next. A brace opens one, except in front of a name
with a colon: that is the first field of a record. -/
def blockNext : Parse Bool := do
  if ← nextIs Punct.lbrace then
    if (← peekAt 1).kind.isName then
      return (← peekAt 2).kind.variant != Kind.variant Punct.colon
    else
      return true
  else
    return false

/-- The body of an arm and the comma behind it. Behind an expression the comma
is left out only at the end of the match. -/
def armBody (rules : Rules) : Parse (ArmBody Span Symbol) := do
  if ← blockNext then
    let body ← rules.block
    -- Behind a block the comma is free.
    let _ ← takes Punct.comma
    return .block body
  else
    let value ← rules.expr 0
    if ← takes Punct.comma then
      return .expr value
    else if ← accepts Punct.rbrace then
      return .expr value
    else
      refuse

/-- A pattern, perhaps a guard, and behind the arrow a body. -/
def arm (rules : Rules) : Parse (Arm Span Symbol) := do
  let variant ← pattern
  let condition ← guard rules
  let _ ← expect Punct.arrow
  let body ← armBody rules
  let last ← nextIs Punct.rbrace
  return ⟨variant, condition, body, last, variant.span.hull body.span⟩

/-- One more arm, unless the match closes. -/
def armRound (rules : Rules) (arms : List (Arm Span Symbol)) :
    Parse (Round (List (Arm Span Symbol)) (List (Arm Span Symbol))) := do
  if ← accepts Punct.rbrace then
    return .done arms
  else
    return .more (arms ++ [← arm rules])

/-- `match` and its arms. One without any is odd. -/
def select (rules : Rules) : Parse (Expr Span Symbol) := do
  let start ← expect Keyword.match_
  let scrutinee ← withRecords false (rules.expr 0)
  let _ ← expect Punct.lbrace
  let arms ← withRecords true (repeated (armRound rules) [])
  let right ← expect Punct.rbrace
  let span := start.span.hull right.span
  if arms.isEmpty then
    warn .emptyMatch span
  return .select scrutinee arms span

/-- Parentheses around an expression, or around nothing. -/
def parenthesized (rules : Rules) : Parse (Expr Span Symbol) := do
  let left ← expect Punct.lparen
  if ← nextIs Punct.rparen then
    let right ← advance
    return .literal .unit (left.span.hull right.span)
  else
    let inner ← withRecords true (rules.expr 0)
    let right ← expect Punct.rparen
    return .paren inner (left.span.hull right.span)

/-- Whether a brace that comes next opens a record. -/
def recordNext : Parse Bool := do
  if (← get).context.records then
    nextIs Punct.lbrace
  else
    return false

/-- A path, or a record behind its type. -/
def pathExpr (rules : Rules) : Parse (Expr Span Symbol) := do
  let name ← path
  if ← recordNext then
    let fields ← record Expr.span (rules.expr 0)
    return .typedRecord name fields (name.span.hull fields.span)
  else
    return .path name

/-- The literal that a token spells. -/
def literal? : Kind → Option Literal
  | .integer digits => some (.integer digits)
  | .ipv4 digits => some (.ipv4 digits)
  | .string content => some (.string content)
  | .keyword .true_ => some (.bool true)
  | .keyword .false_ => some (.bool false)
  | _ => none

/-- An expression that its first token tells apart from all others. -/
def primary (rules : Rules) : Parse (Expr Span Symbol) := do
  let token ← peek
  match literal? token.kind with
  | some value =>
      let _ ← advance
      return .literal value token.span
  | none =>
      match token.kind with
      | .keyword .if_ => conditional rules
      | .keyword .while_ => whileLoop rules
      | .keyword .match_ => select rules
      | .punct .lparen => parenthesized rules
      | .name _ _ => pathExpr rules
      | _ =>
          if ← recordNext then
            return .record (← record Expr.span (rules.expr 0))
          else
            want .expression
            refuse

/-- Whether the next token may start an expression in this context. -/
def exprNext : Parse Bool := do
  let kind := (← peek).kind
  let allowed := (← get).context.records
  return kind.beginsExpression && (allowed || kind.variant != Kind.variant Punct.lbrace)

/-- An early exit. Its value, if it has one, goes as far as it can. -/
def earlyExit (rules : Rules) (kind : ExitKind) : Parse (Expr Span Symbol) := do
  let keyword ← advance
  if ← exprNext then
    let value ← rules.expr 0
    return .exit kind (some value) (keyword.span.hull value.span)
  else
    return .exit kind none keyword.span

/-- What stands between binary operators. -/
def operand (rules : Rules) : Parse (Expr Span Symbol) := do
  let token ← peek
  match UnaryOp.ofKind? token.kind, ExitKind.ofKind? token.kind with
  | some op, _ =>
      let _ ← advance
      let inner ← rules.expr (op.precedence + 1)
      return .unary op inner (token.span.hull inner.span)
  | none, some kind => earlyExit rules kind
  | none, none => do
      let first ← primary rules
      postfixes rules first

/-- An expression of operators that hold at least as tightly as a number says. -/
def operation (rules : Rules) (least : Nat) : Parse (Expr Span Symbol) :=
  nested do
    let first ← operand rules
    operators rules least first

end FilterScript.Grammar
