import FilterScript.Grammar.List
import FilterScript.Tree.Type

/-! # Types

A type may hold types in brackets and in record fields. The production calls
itself there and nowhere else.
-/

namespace FilterScript.Grammar

open Parse

/-- A path, and the types in brackets behind it. -/
def namedType (type : Parse (TypeExpr Span Symbol)) : Parse (TypeExpr Span Symbol) := do
  let name ← path
  if ← nextIs Punct.lbracket then
    let _ ← advance
    let arguments ← commaList Punct.rbracket type
    let right ← expect Punct.rbracket
    return .named name arguments (name.span.hull right.span)
  else
    return .named name [] name.span

/-- A type without question marks. -/
def typeAtom (type : Parse (TypeExpr Span Symbol)) : Parse (TypeExpr Span Symbol) := do
  match (← peek).kind with
  | .punct .bang =>
      let mark ← advance
      return .never mark.span
  | .punct .lparen =>
      let left ← advance
      let right ← expect Punct.rparen
      return .unit (left.span.hull right.span)
  | .punct .lbrace => return .record (← record TypeExpr.span type)
  | .name _ _ => namedType type
  | _ =>
      want .type
      refuse

/-- One more question mark behind a type. The second in a row is odd. -/
def optionalRound (type : TypeExpr Span Symbol) :
    Parse (Round (TypeExpr Span Symbol) (TypeExpr Span Symbol)) := do
  if ← nextIs Punct.question then
    let mark ← advance
    let span := type.span.hull mark.span
    if type.isOptional then
      warn .redundantOptional span
    return .more (.optional type span)
  else
    return .done type

/-- A type, with calls at most as deep as the number says. -/
def typeWithin : Nat → Parse (TypeExpr Span Symbol)
  | 0 => refuse
  | levels + 1 => nested do
      let atom ← typeAtom (typeWithin levels)
      repeated optionalRound atom

/-- A type, as deep as its tokens reach. -/
def type : Parse (TypeExpr Span Symbol) :=
  bounded typeWithin

/-- Parameters in parentheses. -/
def parameters : Parse (List (Parameter Span Symbol)) := do
  let _ ← expect Punct.lparen
  let list ← commaList Punct.rparen (field TypeExpr.span type)
  let _ ← expect Punct.rparen
  return list

end FilterScript.Grammar
