import FilterScript.Diagnostic.Excerpt
import FilterScript.Parsed

/-! # Checking a script

A script is checked by parsing it and printing what there is to say about it. On
request its tokens are listed first, and its tree last. Those who watch the program
are told about the parsing by events, apart from what is printed.
-/

namespace FilterScript

/-- What to print besides diagnostics. -/
structure CheckOptions where
  listTokens : Bool
  showTree : Bool
deriving DecidableEq, Repr

/-- How to check: what to print, and whether to tell when parsing begins. -/
structure CheckConfig extends CheckOptions where
  verbose : Bool
deriving DecidableEq, Repr

/-- Unless asked to, a check does not tell when parsing begins. -/
instance : Coe CheckOptions CheckConfig :=
  ⟨fun options => ⟨options, false⟩⟩

/-- What those who watch the program are told about a source with this name. -/
inductive Event where
  /-- Parsing begins, with so many bytes before it. -/
  | parsing (name : String) (bytes : Nat)
  | failed (name message : String)
  | finished (name : String) (items warnings : Nat)
deriving DecidableEq, Repr

/-- What came out of a check, what was printed on the way, and what was told. -/
structure Checked where
  outcome : Except ParseError (Parsed (Script Span Symbol))
  log : String
  events : List Event

/-- A number with blanks behind it. -/
def paddedRight (width number : Nat) : String :=
  let digits := toString number
  digits ++ String.ofList (List.replicate (width - digits.length) ' ')

/-- The line for a token in the list of tokens. -/
def Token.listing (token : Token) : String :=
  padded 5 token.span.start ++ ".." ++ paddedRight 5 token.span.stop ++ " " ++
    token.kind.describe ++ "\n"

/-- The list of tokens with a line before and after it. -/
def tokenListing (tokens : List Token) : String :=
  "=== Tokens ===\n" ++ String.join (tokens.map Token.listing) ++ "=== End Tokens ===\n\n"

/-- The tree with a line before and after it. -/
def treeListing (parsed : Parsed (Script Span Symbol)) : String :=
  "=== AST ===\n" ++ parsed.render ++ "\n=== End AST ===\n\n"

/-- An error as it is printed about a named source. -/
def ParseError.render (error : ParseError) (name source : String) : String :=
  (Diagnostic.ofError error).render name source

/-- A warning as it is printed about a named source. -/
def Warning.render (warning : Warning) (name source : String) : String :=
  (Diagnostic.ofWarning warning).render name source

/-- The event that tells of the beginning, if it is asked for. -/
def CheckConfig.announcement (config : CheckConfig) (name source : String) : List Event :=
  if config.verbose then [.parsing name (byteLength source.toList)] else []

/-- Parse a script and print its error, or its warnings and then its tree. -/
def checkTree (config : CheckConfig) (name source : String) : Checked :=
  let announcement := config.announcement name source
  match parse source with
  | .error error =>
      ⟨.error error, error.render name source, announcement ++ [.failed name error.message]⟩
  | .ok parsed =>
      let warnings := String.join (parsed.warnings.map fun warning => warning.render name source)
      ⟨.ok parsed, warnings ++ if config.showTree then treeListing parsed else "",
        announcement ++ [.finished name parsed.tree.items.length parsed.warnings.length]⟩

/-- Check a script. When its tokens are to be listed and some text is none, that
is all that is printed, and nothing is told. -/
def check (config : CheckConfig) (name source : String) : Checked :=
  if config.listTokens then
    match tokenize source with
    | .error error => ⟨.error error, error.render name source, []⟩
    | .ok tokens =>
        let checked := checkTree config name source
        { checked with log := tokenListing tokens ++ checked.log }
  else checkTree config name source

end FilterScript
