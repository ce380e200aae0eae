import FilterScript.Source.Position
import FilterScript.Unicode.Blank
import FilterScript.Unicode.Width

/-! # Lines and columns of a printed source

A source is shown line by line on a terminal, where characters have widths and
tabs reach to the next stop. Marks below a line are placed by these columns.
-/

namespace FilterScript

/-- A line of a source: where it starts, in bytes, and its characters with the
line break at its end. -/
structure Line where
  start : Nat
  letters : List Char
deriving Repr

/-- Cut a text behind each line break. There is always a last line, which may be
empty. -/
def splitLines : List Char → List (List Char)
  | [] => [[]]
  | c :: rest =>
      match splitLines rest with
      | line :: others => if c = '\n' then [c] :: line :: others else (c :: line) :: others
      | [] => [[c]]

/-- Cutting a text into lines loses nothing. -/
theorem flatten_splitLines (text : List Char) : (splitLines text).flatten = text := by
  induction text with
  | nil => rfl
  | cons c rest ih =>
      unfold splitLines
      split
      next line others h =>
        rw [h] at ih
        split <;> simp_all
      next h => simp_all

namespace Line

/-- Number the bytes of lines that follow one another. -/
def place (start : Nat) : List (List Char) → List Line
  | [] => []
  | letters :: rest => ⟨start, letters⟩ :: place (start + byteLength letters) rest

/-- All lines of a source. -/
def ofSource (source : String) : List Line :=
  place 0 (splitLines source.toList)

/-- The characters of a line that are shown: breaks and null characters at its
end are not. -/
def shown (line : Line) : List Char :=
  (line.letters.reverse.dropWhile fun c => c = '\n' || c = '\r' || c = '\x00').reverse

/-- The bytes of white space that a line opens with. -/
def indentation (line : Line) : Nat :=
  byteLength (line.shown.takeWhile Unicode.isBlank)

end Line

/-- The number of the line that a byte offset falls in, counted from zero: the
last one that starts at or before it. -/
def lineIndex (lines : List Line) (offset : Nat) : Nat :=
  (lines.takeWhile fun line => line.start ≤ offset).length - 1

/-- A place on a line that may carry a mark: its first byte within the line, its
bytes, and its columns. -/
structure Cell where
  offset : Nat
  size : Nat
  width : Nat
deriving Repr

/-- Tabs reach to the next multiple of this many columns. -/
def tabStop : Nat :=
  4

/-- The columns of a character that is printed at a column. -/
def widthAt (column : Nat) (c : Char) : Nat :=
  if c = '\t' then tabStop - column % tabStop else Unicode.width c

/-- The cells of characters that are printed from a byte offset and a column
on. -/
def cellsFrom (offset column : Nat) : List Char → List Cell
  | [] => []
  | c :: rest =>
      ⟨offset, c.utf8Size, widthAt column c⟩ ::
        cellsFrom (offset + c.utf8Size) (column + widthAt column c) rest

/-- The cells of a line. -/
def Line.cells (line : Line) : List Cell :=
  cellsFrom 0 0 line.shown

/-- Characters as they are printed from a column on: tabs become blanks. -/
def printFrom (column : Nat) : List Char → List Char
  | [] => []
  | c :: rest =>
      (if c = '\t' then List.replicate (widthAt column c) ' ' else [c]) ++
        printFrom (column + widthAt column c) rest

/-- A line as it is printed. -/
def Line.text (line : Line) : String :=
  String.ofList (printFrom 0 line.shown)

end FilterScript
