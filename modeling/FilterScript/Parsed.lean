import FilterScript.Grammar.Item
import FilterScript.Tree.Map
import FilterScript.Tree.Render

/-! # Parsing a source

The way in: a source gives a script with its table of names and its warnings, or
the first error.
-/

namespace FilterScript

/-- What parsing gives: a tree, the table of its names, and the warnings in the
order in which they came up. -/
structure Parsed (α : Type) where
  tree : α
  names : Names
  warnings : List Warning
deriving DecidableEq

/-- How many levels may be open at once, so that trees stay shallow enough for
recursion. -/
def nestingLimit : Nat :=
  256

/-- Run a production on a whole source. -/
def runOn {α : Type} (production : Parse α) (limit : Option Nat) (source : String) :
    Except ParseError (Parsed α) :=
  match production (State.ofSource limit source) with
  | .ok tree state => .ok ⟨tree, state.names, state.warnings⟩
  | .error fault _ => .error (fault.locate source)

/-- Parse a script with a limit of one's own, or without one. -/
def parseWithin (limit : Option Nat) (source : String) :
    Except ParseError (Parsed (Script Span Symbol)) :=
  runOn Grammar.script limit source

/-- Parse a script. -/
def parse (source : String) : Except ParseError (Parsed (Script Span Symbol)) :=
  parseWithin nestingLimit source

/-- Parse a source that is a single expression. -/
def parseExpr (source : String) : Except ParseError (Parsed (Expr Span Symbol)) :=
  runOn Grammar.loneExpr nestingLimit source

/-- All tokens of a source with the end of it, or the first text that is none. -/
def tokenize (source : String) : Except ParseError (List Token) :=
  match (Stream.ofSource source).tokens with
  | .ok tokens => .ok tokens
  | .error flaw => .error (flaw.toFault.locate source)

/-- The script of a parse as nested lists, one item per line. -/
def Parsed.render (parsed : Parsed (Script Span Symbol)) : String :=
  (parsed.tree.resolve parsed.names).render

end FilterScript
