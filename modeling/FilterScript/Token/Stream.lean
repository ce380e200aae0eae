import FilterScript.Source.Position
import FilterScript.Token.Lexeme

/-! # The stream of a source

Scanning a source from front to back gives a finite list of tokens and flaws;
a flaw uses up the text that is at fault, and scanning goes on behind it. After
the list there is the end of the source, as often as one asks.
-/

namespace FilterScript

/-- A piece of text that is no token, and where it stands. -/
structure Flaw where
  error : LexError
  span : Span
deriving DecidableEq, Repr

/-- One result of scanning. -/
abbrev Scan := Except Flaw Token

/-- A place in a source: the text still to be read and its byte offset. -/
structure Cursor where
  rest : List Char
  offset : Nat
deriving Repr

namespace Cursor

def ofSource (source : String) : Cursor :=
  ⟨source.toList, 0⟩

/-- The characters that may stand between tokens. -/
def isSeparator (c : Char) : Bool :=
  c = ' ' || c = '\t' || c = '\n' || c = '\r' || c = '\x0c'

/-- Skip separators, and comments from `#` to the end of the line. The flag
tells whether a comment is open. -/
def skipFrom : Bool → List Char → Nat → Cursor
  | _, [], offset => ⟨[], offset⟩
  | true, c :: rest, offset => skipFrom (c != '\n') rest (offset + c.utf8Size)
  | false, c :: rest, offset =>
      if isSeparator c then skipFrom false rest (offset + c.utf8Size)
      else if c = '#' then skipFrom true rest (offset + c.utf8Size)
      else ⟨c :: rest, offset⟩

def skip (cursor : Cursor) : Cursor :=
  skipFrom false cursor.rest cursor.offset

/-- Read the next token or flaw, if the source is not at its end. -/
def scan (cursor : Cursor) : Option (Scan × Cursor) :=
  let here := cursor.skip
  match here.rest with
  | [] => none
  | first :: rest =>
      let lexeme := Lexeme.ofText first rest
      let span : Span := ⟨here.offset, here.offset + byteLength lexeme.letters⟩
      let result :=
        match lexeme.reading with
        | .ok kind => .ok ⟨kind, span⟩
        | .error error => .error ⟨error, span⟩
      some (result, ⟨here.rest.drop lexeme.letters.length, span.stop⟩)

/-- Scan to the end. Every scan takes at least one character, so the number of
characters is enough rounds. -/
def scans : Nat → Cursor → List Scan
  | 0, _ => []
  | rounds + 1, cursor =>
      match cursor.scan with
      | none => []
      | some (result, next) => result :: next.scans rounds

end Cursor

/-- The token that stands for the end of a source of this length. -/
def Token.atEnd (length : Nat) : Token :=
  ⟨.endOfFile, ⟨length, length⟩⟩

/-- What scanning still has to give, and the length of the source in bytes. -/
structure Stream where
  scans : List Scan
  length : Nat
deriving Repr

namespace Stream

def ofSource (source : String) : Stream :=
  ⟨(Cursor.ofSource source).scans source.toList.length, byteLength source.toList⟩

/-- The token after `ahead` others, unless a flaw comes first. -/
def lookahead (stream : Stream) (ahead : Nat) : Scan :=
  go stream.scans ahead
where
  go : List Scan → Nat → Scan
    | [], _ => .ok (Token.atEnd stream.length)
    | .error flaw :: _, _ => .error flaw
    | .ok token :: _, 0 => .ok token
    | .ok _ :: rest, ahead + 1 => go rest ahead

/-- All tokens up to and including the end, unless there is a flaw. -/
def tokens (stream : Stream) : Except Flaw (List Token) :=
  go stream.scans
where
  go : List Scan → Except Flaw (List Token)
    | [] => .ok [Token.atEnd stream.length]
    | .error flaw :: _ => .error flaw
    | .ok token :: rest => (go rest).map (token :: ·)

end Stream

end FilterScript
