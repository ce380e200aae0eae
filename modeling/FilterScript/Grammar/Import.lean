import FilterScript.Grammar.List
import FilterScript.Tree.Import

/-! # Imports

An import path may hold groups, and a group holds import paths.
-/

namespace FilterScript.Grammar

open Parse

/-- A group in braces, or a name. With it comes the span of its last token. -/
def importPart (member : Parse (ImportPath Span Symbol)) :
    Parse (ImportPart Span Symbol × Span) := do
  match (← peek).kind with
  | .punct .lbrace =>
      let left ← advance
      let members ← commaList Punct.rbrace member
      let right ← expect Punct.rbrace
      return (.group members (left.span.hull right.span), right.span)
  | .name _ _ =>
      let name ← ident
      return (.name name, name.span)
  | _ =>
      want .identifier
      want (.token Punct.lbrace)
      refuse

/-- One more part of a path. It is the last unless a dot follows. -/
def importRound (member : Parse (ImportPath Span Symbol)) (parts : List (ImportPart Span Symbol)) :
    Parse (Round (List (ImportPart Span Symbol)) (List (ImportPart Span Symbol) × Span)) := do
  let (part, span) ← importPart member
  if ← takes Punct.dot then
    return .more (parts ++ [part])
  else
    return .done (parts ++ [part], span)

/-- An import path, with groups at most as deep as the number says. -/
def importPathWithin : Nat → Parse (ImportPath Span Symbol)
  | 0 => refuse
  | levels + 1 => nested do
      let start ← peek
      let (parts, last) ← repeated (importRound (importPathWithin levels)) []
      return ⟨parts, start.span.hull last⟩

/-- An import path, as deep as its tokens reach. -/
def importPath : Parse (ImportPath Span Symbol) :=
  bounded importPathWithin

/-- A whole import up to its semicolon: the path, and the span of it all. -/
def importDeclaration : Parse (ImportPath Span Symbol × Span) := do
  let start ← expect Keyword.import_
  let path ← importPath
  let stop ← expect Punct.semicolon
  return (path, start.span.hull stop.span)

end FilterScript.Grammar
