import FilterScript.Source.Position
import FilterScript.Token.Stream

/-! # Errors and warnings

A script is refused for one of three causes, each at a place. Warnings are
about scripts that are accepted.
-/

namespace FilterScript

/-- Something that would have been accepted where a script went wrong. -/
inductive Expected where
  | token (kind : Kind)
  | identifier
  | expression
  | type
  | pattern
  | item
deriving DecidableEq, Repr

namespace Expected

def text : Expected → String
  | token kind => s!"`{kind.spelling}`"
  | identifier => "identifier"
  | expression => "expression"
  | type => "type"
  | pattern => "pattern"
  | item => "item"

/-- An enumeration: commas between the first ones, `or` before the last. -/
def enumerate : List Expected → String
  | [] => "nothing"
  | [only] => only.text
  | several =>
      ", ".intercalate (several.dropLast.map text) ++ " or " ++
        ((several.getLast?.map text).getD "")

end Expected

/-- Why a script is refused. -/
inductive Cause where
  /-- Some text is no token. -/
  | lexical (error : LexError)
  /-- A token stands where only others are allowed. -/
  | unexpected (found : Kind) (expected : List Expected)
  /-- The script is nested deeper than the limit allows. -/
  | tooDeep (limit : Nat)
deriving DecidableEq, Repr

namespace Cause

/-- The cause in a few words, for the line under the place of the error. -/
def label : Cause → String
  | lexical error => error.describe
  | unexpected found expected =>
      s!"expected {Expected.enumerate expected}, found {found.describe}"
  | tooDeep limit => s!"nesting exceeds {limit} levels"

/-- The cause as the opening of a full message. -/
def message : Cause → String
  | tooDeep limit => s!"nesting deeper than {limit} levels"
  | cause => cause.label

/-- What was expected, if the cause is an unexpected token. -/
def expected : Cause → List Expected
  | unexpected _ expected => expected
  | _ => []

end Cause

/-- A cause and the text it is about. -/
structure Fault where
  cause : Cause
  span : Span
deriving DecidableEq, Repr

/-- A flaw of the text is a fault of the script. -/
def Flaw.toFault (flaw : Flaw) : Fault :=
  ⟨.lexical flaw.error, flaw.span⟩

/-- A fault together with the position of its first byte. -/
structure ParseError extends Fault where
  position : Position
deriving DecidableEq, Repr

namespace ParseError

/-- The full message: the cause and the position. -/
def message (error : ParseError) : String :=
  s!"{error.cause.message} at {error.position.text}"

end ParseError

/-- Find the position of a fault in its source. -/
def Fault.locate (fault : Fault) (source : String) : ParseError :=
  ⟨fault, Position.resolve source fault.span.start⟩

/-- What is odd about an accepted script. -/
inductive Lint where
  /-- `T??`: the second mark adds nothing. -/
  | redundantOptional
  /-- A match without arms. -/
  | emptyMatch
deriving DecidableEq, Repr

def Lint.message : Lint → String
  | redundantOptional => "optional type is already optional"
  | emptyMatch => "match has no arms"

/-- A lint and the text it is about. -/
structure Warning where
  lint : Lint
  span : Span
deriving DecidableEq, Repr

end FilterScript
