import FilterScript.Grammar.Parse
import FilterScript.Tree.Ident

/-! # Names, paths and lists

The productions that all others share.
-/

namespace FilterScript.Grammar

open Parse

variable {α : Type}

/-- A name, entered into the table. -/
def ident : Parse (Ident Span Symbol) := do
  match (← peek).kind with
  | .name text raw =>
      let token ← advance
      let symbol ← intern text
      return ⟨symbol, raw, token.span⟩
  | _ =>
      want .identifier
      refuse

/-- Whether a dot follows that is itself followed by a name. -/
def pathContinues : Parse Bool := do
  if ← nextIs Punct.dot then
    return (← peekAt 1).kind.isName
  else
    return false

/-- One more name of a path, if it continues. -/
def pathRound (rest : List (Ident Span Symbol)) :
    Parse (Round (List (Ident Span Symbol)) (List (Ident Span Symbol))) := do
  if ← pathContinues then
    let _ ← advance
    let next ← ident
    return .more (rest ++ [next])
  else
    return .done rest

/-- Names with dots between them. A dot without a name behind it is left for
others. -/
def path : Parse (Path Span Symbol) := do
  let first ← ident
  let rest ← repeated pathRound []
  return ⟨first, rest, first.span.hull (rest.getLastD first).span⟩

/-- Whether nothing but a comma stands before the closing token. -/
def loneComma (close : Kind) : Parse Bool := do
  if ← nextIs Punct.comma then
    return (← peekAt 1).kind.variant == close.variant
  else
    return false

/-- One more element of a list, unless it closes. No comma after an element ends
the list. -/
def listRound (close : Kind) (element : Parse α) (elements : List α) :
    Parse (Round (List α) (List α)) := do
  if ← accepts close then
    return .done elements
  else
    let next ← element
    if ← takes Punct.comma then
      return .more (elements ++ [next])
    else
      return .done (elements ++ [next])

/-- Elements with commas between them, up to a closing token that is left in
place. A comma may follow the last element, or stand in a list without any. -/
def commaList (close : Kind) (element : Parse α) : Parse (List α) := do
  if ← loneComma close then
    let _ ← advance
    return []
  else
    repeated (listRound close element) []

/-- A name and, after a colon, what it is given. -/
def field (spanOf : α → Span) (value : Parse α) : Parse (Field Span Symbol α) := do
  let name ← ident
  let _ ← expect Punct.colon
  let given ← value
  return ⟨name, given, name.span.hull (spanOf given)⟩

/-- Fields in braces. Inside them a brace may open a record again. -/
def record (spanOf : α → Span) (value : Parse α) : Parse (Record Span Symbol α) := do
  let left ← expect Punct.lbrace
  let fields ← withRecords true (commaList Punct.rbrace (field spanOf value))
  let right ← expect Punct.rbrace
  return ⟨fields, left.span.hull right.span⟩

end FilterScript.Grammar
