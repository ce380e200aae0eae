import FilterScript.Token.Basic
import FilterScript.Unicode.Identifier

/-! # Lexemes

The piece of text at the front of a source, cut off as long as some token can
be, together with the token it spells. Which family of tokens it belongs to is
settled by its first character.
-/

namespace FilterScript

/-- Why a piece of text is no token. -/
inductive LexError where
  /-- A quote after which there is no other. -/
  | unterminatedString
  /-- A character that no token starts with. -/
  | invalidCharacter
deriving DecidableEq, Repr

/-- How messages name the error. -/
def LexError.describe : LexError → String
  | unterminatedString => "unterminated string literal"
  | invalidCharacter => "invalid character"

/-- The characters cut off the front of a text and what they are read as. -/
structure Lexeme where
  reading : Except LexError Kind
  letters : List Char
deriving Repr

namespace Lexeme

/-- The name behind an escape mark `r#`, when the mark is followed by one. -/
def escapedName? : List Char → Option (List Char)
  | 'r' :: '#' :: first :: rest =>
      if Unicode.isIdentifierStart first then
        some (first :: rest.takeWhile Unicode.isIdentifierContinue)
      else none
  | _ => none

/-- A word is a keyword if it is spelled like one, else a name. When the next
character could not be told from a letter by its first byte, the word was being
read as a name up to there and stays one. -/
def wordKind (word : List Char) (next : Option Char) : Kind :=
  match Keyword.ofSpelling? word with
  | some keyword =>
      if next.any Unicode.sharesIdentifierLead then .name (String.ofList word) false
      else .keyword keyword
  | none => .name (String.ofList word) false

/-- A text that opens with a letter: an escaped name, a plain one or a keyword. -/
def word (text : List Char) : Lexeme :=
  match escapedName? text with
  | some name => ⟨.ok (.name (String.ofList name) true), 'r' :: '#' :: name⟩
  | none =>
      let letters := text.takeWhile Unicode.isIdentifierContinue
      ⟨.ok (wordKind letters (text.drop letters.length).head?), letters⟩

/-- One run of digits and then as many more as asked for, each after a dot. -/
def dottedRuns? : Nat → List Char → Option (List Char)
  | 0, text =>
      let run := text.takeWhile Char.isDigit
      if run.isEmpty then none else some run
  | more + 1, text =>
      let run := text.takeWhile Char.isDigit
      if run.isEmpty then none
      else
        match text.drop run.length with
        | '.' :: rest => (dottedRuns? more rest).map fun tail => run ++ '.' :: tail
        | _ => none

/-- A text that opens with a digit: an address when all its four numbers are
there, else an integer. -/
def number (text : List Char) : Lexeme :=
  match dottedRuns? 3 text with
  | some letters => ⟨.ok (.ipv4 (String.ofList letters)), letters⟩
  | none =>
      let letters := text.takeWhile fun c => c.isDigit || c = '_'
      ⟨.ok (.integer (String.ofList letters)), letters⟩

/-- A quote and the text after it: a string up to the next quote. Without one,
everything to the end is lost. -/
def quoted (rest : List Char) : Lexeme :=
  let content := rest.takeWhile fun c => c ≠ '"'
  if content.length < rest.length then
    ⟨.ok (.string (String.ofList content)), '"' :: (content ++ ['"'])⟩
  else ⟨.error .unterminatedString, '"' :: rest⟩

/-- The longest lexeme at the front of a text that is not blank. -/
def ofText (first : Char) (rest : List Char) : Lexeme :=
  if Unicode.isIdentifierStart first then word (first :: rest)
  else if first.isDigit then number (first :: rest)
  else if first = '"' then quoted rest
  else
    match Punct.longestAt? (first :: rest) with
    | some mark => ⟨.ok (.punct mark), mark.spelling.toList⟩
    | none => ⟨.error .invalidCharacter, [first]⟩

end Lexeme

end FilterScript
