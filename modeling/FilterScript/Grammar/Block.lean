import FilterScript.Grammar.Expr

/-! # Blocks

A block is a list of statements in braces. What tells a statement from the
expression at the end is the token behind it; conditionals, loops and matches
need no semicolon unless they are only the first operand of something larger.
-/

namespace FilterScript.Grammar

open Parse

/-- The type behind a colon, if there is one. -/
def annotation : Parse (Option (TypeExpr Span Symbol)) := do
  if ← takes Punct.colon then
    return some (← type)
  else
    return none

/-- `let`, a name with or without its type, and a value. -/
def binding (rules : Rules) : Parse (Statement Span Symbol) := do
  let start ← expect Keyword.let_
  let name ← ident
  let type ← annotation
  let _ ← expect Punct.assign
  let value ← rules.expr 0
  let stop ← expect Punct.semicolon
  return .binding name type value (start.span.hull stop.span)

/-- An import among statements. -/
def importStatement : Parse (Statement Span Symbol) := do
  let (path, span) ← importDeclaration
  return .import path span

/-- The conditional, loop or match that comes next, if one does. -/
def control? (rules : Rules) : Kind → Option (Parse (Expr Span Symbol))
  | .keyword .if_ => some (conditional rules)
  | .keyword .while_ => some (whileLoop rules)
  | .keyword .match_ => some (select rules)
  | _ => none

/-- Whether a token can go on with an expression but not start a new one. -/
def continuesExpr : Kind → Bool
  | .punct .minus => false
  | .punct .dot | .punct .question => true
  | kind => (BinaryOp.ofKind? kind).isSome

/-- An expression at the start of a statement. A conditional, loop or match ends
it, unless what follows can only go on with it. -/
def leadingExpr (rules : Rules) : Parse (Expr Span Symbol) := do
  match control? rules (← peek).kind with
  | some production =>
      let control ← production
      -- Here `-` and `(` start a statement of their own.
      if continuesExpr (← peek).kind then
        let first ← postfixes rules control
        operators rules 0 first
      else
        return control
  | none => rules.expr 0

/-- What a block holds between its braces. -/
abbrev Contents :=
  List (Statement Span Symbol) × Option (Expr Span Symbol)

/-- One more statement, or the end of the block with or without an expression
in front of it. -/
def statementRound (rules : Rules) (statements : List (Statement Span Symbol)) :
    Parse (Round (List (Statement Span Symbol)) Contents) := do
  if ← accepts Punct.rbrace then
    return .done (statements, none)
  else if ← nextIs Keyword.let_ then
    return .more (statements ++ [← binding rules])
  else if ← nextIs Keyword.import_ then
    return .more (statements ++ [← importStatement])
  else
    let value ← leadingExpr rules
    if ← accepts Punct.semicolon then
      let stop ← advance
      return .more (statements ++ [.expr value (value.span.hull stop.span)])
    else if ← accepts Punct.rbrace then
      return .done (statements, some value)
    else if value.isControl then
      return .more (statements ++ [.control value])
    else
      refuse

/-- Statements in braces. Inside them a brace may open a record again. -/
def braces (rules : Rules) : Parse (Block Span Symbol) :=
  nested do
    let left ← expect Punct.lbrace
    let (statements, tail) ← withRecords true (repeated (statementRound rules) [])
    let right ← expect Punct.rbrace
    return ⟨statements, tail, left.span.hull right.span⟩

/-- The productions written out once, in terms of those they go back to. -/
def Rules.unfold (rules : Rules) : Rules where
  expr := operation rules
  block := braces rules
  elseIf := conditional rules

/-- Productions that refuse whatever comes. -/
def Rules.refusing : Rules where
  expr _ := refuse
  block := refuse
  elseIf := refuse

/-- The productions, with calls at most as deep as the number says. Between a
call and the next one inside it at least one token is taken. Each level is built
only when parsing gets to it. -/
def rulesWithin : Nat → Rules
  | 0 => Rules.refusing
  | levels + 1 =>
      { expr := fun least state => operation (rulesWithin levels) least state
        block := fun state => braces (rulesWithin levels) state
        elseIf := fun state => conditional (rulesWithin levels) state }

theorem rulesWithin_succ (levels : Nat) :
    rulesWithin (levels + 1) = (rulesWithin levels).unfold :=
  rfl

/-- A block, as deep as its tokens reach. -/
def block : Parse (Block Span Symbol) :=
  bounded fun levels => (rulesWithin levels).block

/-- An expression of any operators, as deep as its tokens reach. -/
def expr : Parse (Expr Span Symbol) :=
  bounded fun levels => (rulesWithin levels).expr 0

end FilterScript.Grammar
