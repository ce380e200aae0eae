/-! # Positions

A byte offset is shown to people as a line and a column, both counted from one.
Only `\n` ends a line. A column counts characters, so an offset inside a
character has the column of that character.
-/

namespace FilterScript

/-- The number of bytes a text takes in UTF-8. -/
def byteLength (text : List Char) : Nat :=
  text.foldr (fun c bytes => c.utf8Size + bytes) 0

@[simp] theorem byteLength_nil : byteLength [] = 0 := rfl

@[simp] theorem byteLength_cons (c : Char) (rest : List Char) :
    byteLength (c :: rest) = c.utf8Size + byteLength rest := rfl

@[simp] theorem byteLength_append (left right : List Char) :
    byteLength (left ++ right) = byteLength left + byteLength right := by
  induction left <;> simp_all [Nat.add_assoc]

/-- A byte offset together with the line and the column it falls in. -/
structure Position where
  offset : Nat
  line : Nat
  column : Nat
deriving DecidableEq, Repr, Inhabited

namespace Position

/-- Walk over the characters that end within the first `bytes` bytes, starting
from the given line and column. -/
def walk : List Char → Nat → Nat → Nat → Nat × Nat
  | [], _, line, column => (line, column)
  | c :: rest, bytes, line, column =>
      if bytes < c.utf8Size then (line, column)
      else if c = '\n' then walk rest (bytes - c.utf8Size) (line + 1) 1
      else walk rest (bytes - c.utf8Size) line (column + 1)

/-- The position of a byte offset in a source. An offset past the end has the
line and column of the end. -/
def resolve (source : String) (offset : Nat) : Position :=
  let (line, column) := walk source.toList offset 1 1
  ⟨offset, line, column⟩

/-- Line and column with a colon between them. -/
def text (position : Position) : String :=
  s!"{position.line}:{position.column}"

end Position

end FilterScript
