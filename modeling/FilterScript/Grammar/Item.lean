import FilterScript.Grammar.Block
import FilterScript.Tree.Item

/-! # Items and scripts

The first word of an item tells what it declares.
-/

namespace FilterScript.Grammar

open Parse

/-- An import among items. -/
def importItem : Parse (Item Span Symbol) := do
  let (path, span) ← importDeclaration
  return .import path span

/-- A filter, whose keyword has been seen to come next. -/
def filterItem (kind : FilterKind) : Parse (Item Span Symbol) := do
  let start ← advance
  let name ← ident
  let parameters ← parameters
  let body ← block
  return .filter kind name parameters body (start.span.hull body.span)

/-- The type behind an arrow, if there is one. -/
def returnType : Parse (Option (TypeExpr Span Symbol)) := do
  if ← takes Punct.arrow then
    return some (← type)
  else
    return none

/-- A function: name, parameters, the type it returns and a body. -/
def functionItem : Parse (Item Span Symbol) := do
  let start ← expect Keyword.fn
  let name ← ident
  let parameters ← parameters
  let returns ← returnType
  let body ← block
  return .function name parameters returns body (start.span.hull body.span)

/-- A record type with a name. -/
def recordItem : Parse (Item Span Symbol) := do
  let start ← expect Keyword.type_
  let name ← ident
  let fields ← record TypeExpr.span type
  return .record name fields (start.span.hull fields.span)

/-- A test: a name and a body. -/
def testItem : Parse (Item Span Symbol) := do
  let start ← expect Keyword.test
  let name ← ident
  let body ← block
  return .test name body (start.span.hull body.span)

/-- One item. -/
def item : Parse (Item Span Symbol) := do
  match (← peek).kind with
  | .keyword .import_ => importItem
  | .keyword .filtermap => filterItem .filtermap
  | .keyword .filter => filterItem .filter
  | .keyword .fn => functionItem
  | .keyword .type_ => recordItem
  | .keyword .test => testItem
  | _ =>
      want .item
      refuse

/-- One more item, unless the source ends. -/
def itemRound (items : List (Item Span Symbol)) :
    Parse (Round (List (Item Span Symbol)) (List (Item Span Symbol))) := do
  if ← nextIs .endOfFile then
    return .done items
  else
    return .more (items ++ [← item])

/-- All items up to the end of the source. -/
def script : Parse (Script Span Symbol) := do
  let first ← peek
  let items ← repeated itemRound []
  let stop ← peek
  -- Blanks and comments after the last item belong to the script, those before
  -- the first do not.
  return ⟨items, ⟨min first.span.start stop.span.start, stop.span.stop⟩⟩

/-- An expression and nothing else. -/
def loneExpr : Parse (Expr Span Symbol) := do
  let value ← expr
  if ← accepts .endOfFile then
    return value
  else
    refuse

end FilterScript.Grammar
