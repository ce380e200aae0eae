import FilterScript.Source.Span

/-! # Tokens

What a script is made of once blanks and comments are gone: keywords,
punctuation, literals and names. Keywords and punctuation have one spelling
each; the others carry the text that they were written with.
-/

namespace FilterScript

/-- Words that cannot be used as names. -/
inductive Keyword where
  | import_ | filtermap | filter | fn | type_ | test
  | let_ | if_ | else_ | while_ | match_ | return_ | accept | reject | not_
  | true_ | false_
deriving DecidableEq, Repr

namespace Keyword

/-- Every keyword once. -/
def all : List Keyword :=
  [import_, filtermap, filter, fn, type_, test, let_, if_, else_, while_, match_, return_,
    accept, reject, not_, true_, false_]

def spelling : Keyword → String
  | import_ => "import"
  | filtermap => "filtermap"
  | filter => "filter"
  | fn => "fn"
  | type_ => "type"
  | test => "test"
  | let_ => "let"
  | if_ => "if"
  | else_ => "else"
  | while_ => "while"
  | match_ => "match"
  | return_ => "return"
  | accept => "accept"
  | reject => "reject"
  | not_ => "not"
  | true_ => "true"
  | false_ => "false"

/-- The keyword with this spelling, if there is one. -/
def ofSpelling? (word : List Char) : Option Keyword :=
  all.find? fun keyword => keyword.spelling.toList == word

theorem mem_all (keyword : Keyword) : keyword ∈ all := by
  cases keyword <;> decide

end Keyword

/-- Operators, brackets and separators. -/
inductive Punct where
  | arrow | lessEq | greaterEq | equal | notEqual | andAnd | orOr
  | plus | minus | star | slash | bang | assign | less | greater | question | bar
  | lparen | rparen | lbrace | rbrace | lbracket | rbracket
  | semicolon | comma | colon | dot
deriving DecidableEq, Repr

namespace Punct

/-- Every punctuation mark once, those of two characters before the others: the
first one that a text begins with is then the longest. -/
def all : List Punct :=
  [arrow, lessEq, greaterEq, equal, notEqual, andAnd, orOr,
    plus, minus, star, slash, bang, assign, less, greater, question, bar,
    lparen, rparen, lbrace, rbrace, lbracket, rbracket, semicolon, comma, colon, dot]

def spelling : Punct → String
  | arrow => "->"
  | lessEq => "<="
  | greaterEq => ">="
  | equal => "=="
  | notEqual => "!="
  | andAnd => "&&"
  | orOr => "||"
  | plus => "+"
  | minus => "-"
  | star => "*"
  | slash => "/"
  | bang => "!"
  | assign => "="
  | less => "<"
  | greater => ">"
  | question => "?"
  | bar => "|"
  | lparen => "("
  | rparen => ")"
  | lbrace => "\x7b"
  | rbrace => "\x7d"
  | lbracket => "["
  | rbracket => "]"
  | semicolon => ";"
  | comma => ","
  | colon => ":"
  | dot => "."

/-- The longest punctuation mark that a text begins with. -/
def longestAt? (text : List Char) : Option Punct :=
  all.find? fun mark => mark.spelling.toList.isPrefixOf text

theorem mem_all (mark : Punct) : mark ∈ all := by
  cases mark <;> decide

end Punct

/-- What a token is, with its text where the text matters. -/
inductive Kind where
  | keyword (word : Keyword)
  | punct (mark : Punct)
  /-- Digits as written, separators included. -/
  | integer (digits : String)
  /-- Four runs of digits with dots between them, as written. -/
  | ipv4 (digits : String)
  /-- The text between two quotes. -/
  | string (content : String)
  /-- A name, without the escape mark that makes it `raw`. -/
  | name (text : String) (raw : Bool)
  /-- The end of the source, after the last token. -/
  | endOfFile
deriving DecidableEq, Repr

/-- What is left of a token's kind when its text is set aside. -/
inductive Variant where
  | keyword (word : Keyword)
  | punct (mark : Punct)
  | integer
  | ipv4
  | string
  | name (raw : Bool)
  | endOfFile
deriving DecidableEq, Repr

namespace Kind

instance : Coe Keyword Kind := ⟨Kind.keyword⟩

instance : Coe Punct Kind := ⟨Kind.punct⟩

def variant : Kind → Variant
  | keyword word => .keyword word
  | punct mark => .punct mark
  | integer _ => .integer
  | ipv4 _ => .ipv4
  | string _ => .string
  | name _ raw => .name raw
  | endOfFile => .endOfFile

/-- Names are the only tokens that can stand for something. -/
def isName : Kind → Bool
  | name _ _ => true
  | _ => false

/-- Whether an expression may start with this token. -/
def beginsExpression : Kind → Bool
  | name _ _ | integer _ | ipv4 _ | string _ => true
  | punct .lparen | punct .lbrace | punct .minus => true
  | keyword .true_ | keyword .false_ | keyword .not_ => true
  | keyword .if_ | keyword .while_ | keyword .match_ => true
  | keyword .return_ | keyword .accept | keyword .reject => true
  | _ => false

/-- A name as it is written, with the mark of an escaped one. -/
def nameText (text : String) (raw : Bool) : String :=
  if raw then "r#" ++ text else text

/-- The text that a token is written with. The end of the source has none and
shows as a word. -/
def spelling : Kind → String
  | keyword word => word.spelling
  | punct mark => mark.spelling
  | integer digits => digits
  | ipv4 digits => digits
  | string content => "\"" ++ content ++ "\""
  | name text raw => nameText text raw
  | endOfFile => "EOF"

/-- How messages speak of a token. -/
def describe : Kind → String
  | name text raw => s!"identifier `{nameText text raw}`"
  | integer digits => s!"integer literal `{digits}`"
  | ipv4 digits => s!"IPv4 literal `{digits}`"
  | string content => s!"string literal \"{content}\""
  | endOfFile => "end of file"
  | kind => s!"`{kind.spelling}`"

end Kind

/-- A kind of token at a place. -/
structure Token where
  kind : Kind
  span : Span
deriving DecidableEq, Repr

end FilterScript
