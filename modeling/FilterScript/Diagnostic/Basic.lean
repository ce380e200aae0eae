import FilterScript.Error

/-! # Diagnostics

A message to the author of a script: how grave it is, what it says, and the text
it points at.
-/

namespace FilterScript

inductive Severity where
  | error | warning
deriving DecidableEq, Repr

def Severity.text : Severity → String
  | error => "error"
  | warning => "warning"

/-- A message with a title, and a label for the text that it points at. A label
may be empty. -/
structure Diagnostic where
  severity : Severity
  title : String
  label : String
  span : Span
deriving Repr

namespace Diagnostic

/-- The stage at which a script is refused. -/
def titleOf : Cause → String
  | .lexical _ => "Lexer error"
  | .unexpected _ _ | .tooDeep _ => "Syntax error"

def ofError (error : ParseError) : Diagnostic :=
  ⟨.error, titleOf error.cause, error.cause.label, error.span⟩

def ofWarning (warning : Warning) : Diagnostic :=
  ⟨.warning, warning.lint.message, "", warning.span⟩

end Diagnostic

end FilterScript
