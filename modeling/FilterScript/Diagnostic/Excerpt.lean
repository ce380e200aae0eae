import FilterScript.Diagnostic.Basic
import FilterScript.Diagnostic.Line

/-! # Excerpts

A diagnostic is printed with the lines that it points at, numbered in a margin.
Text within one line is underlined. Text that spans lines is bracketed from its
first line to its last, with long stretches in between left out. A span may also
end on a line above the one that it starts on: then each end is drawn where it
is, and what lies between belongs to neither.
-/

namespace FilterScript

/-- How many lines are always shown below the first line of a bracket. -/
def leadingContext : Nat :=
  3

/-- How many lines are always shown above the last line of a bracket. -/
def trailingContext : Nat :=
  1

/-- A number with blanks before it. -/
def padded (width number : Nat) : String :=
  let digits := toString number
  String.ofList (List.replicate (width - digits.length) ' ') ++ digits

/-- What printing an excerpt needs at every line: the lines of the source and
the width of the margin. -/
structure Margin where
  lines : List Line
  width : Nat

namespace Margin

def blank (margin : Margin) : String :=
  String.ofList (List.replicate margin.width ' ')

/-- The margin beside a line that is not of the source. -/
def gutter (margin : Margin) : String :=
  margin.blank ++ " │"

/-- The margin beside a line of the source. -/
def numbered (margin : Margin) (index : Nat) : String :=
  padded margin.width (index + 1) ++ " │"

def line (margin : Margin) (index : Nat) : Line :=
  margin.lines.getD index ⟨0, []⟩

end Margin

/-- The mark under one cell when the bytes from `first` up to `stop` are to be
underlined: cells that come later carry none. -/
def Cell.mark (first stop : Nat) (cell : Cell) : String :=
  if cell.offset < stop then
    let sign := if first < cell.offset + cell.size then '^' else ' '
    String.ofList (List.replicate cell.width sign)
  else ""

/-- The message behind a mark. -/
def labelSuffix (label : String) : String :=
  if label = "" then "" else " " ++ label

/-- The lines for a span within one line. At least one place is underlined, if
need be the one behind the end of the line. -/
def underlined (margin : Margin) (index : Nat) (span : Span) (label : String) : List String :=
  let line := margin.line index
  let first := span.start - line.start
  let stop := max (span.stop - line.start) (first + 1)
  let atEnd : Cell := ⟨byteLength line.shown, 1, 1⟩
  let marks := (line.cells ++ [atEnd]).map (Cell.mark first stop)
  [margin.numbered index ++ " " ++ line.text,
    margin.gutter ++ " " ++ String.join marks ++ labelSuffix label]

/-- The stroke of a bracket, up to a byte offset of a line. -/
def stroke (line : Line) (stop : Nat) : String :=
  let cells := line.cells.takeWhile fun cell => cell.offset < stop
  String.join (cells.map fun cell => String.ofList (List.replicate cell.width '─')) ++ "^"

/-- The upper end of a bracket. One that starts in the indentation of its line
stands beside it, else it points at the place below. -/
def bracketTop (margin : Margin) (index start : Nat) : List String :=
  let line := margin.line index
  let first := start - line.start
  if first ≤ line.indentation then [margin.numbered index ++ " ╭ " ++ line.text]
  else
    [margin.numbered index ++ "   " ++ line.text,
      margin.gutter ++ " ╭" ++ stroke line (first + 1)]

/-- The lines between the ends of a bracket. Those far from both are left out if
there are two or more of them. -/
def bracketMiddle (margin : Margin) (top bottom : Nat) : List String :=
  let shown := fun index => margin.numbered index ++ " │ " ++ (margin.line index).text
  let far := top + leadingContext + 1
  let near := bottom - trailingContext
  if far + 2 ≤ near then
    (List.range' (top + 1) (far - (top + 1))).map shown ++ [margin.blank ++ " · │"] ++
      (List.range' near (bottom - near)).map shown
  else (List.range' (top + 1) (bottom - (top + 1))).map shown

/-- The lower end of a bracket. -/
def bracketBottom (margin : Margin) (index stop : Nat) (label : String) : List String :=
  let line := margin.line index
  [margin.numbered index ++ " │ " ++ line.text,
    margin.gutter ++ " ╰" ++ stroke line (stop - line.start) ++ labelSuffix label]

/-- The lines between the ends of a span that ends on an earlier line, `top`, than
it starts on. A single one is shown, several are left out. -/
def backwardMiddle (margin : Margin) (top bottom : Nat) : List String :=
  match bottom - (top + 1) with
  | 0 => []
  | 1 => [margin.numbered (top + 1) ++ "   " ++ (margin.line (top + 1)).text]
  | _ => [margin.blank ++ " · │"]

/-- The lines for a span from the line `first` to the line `last`. -/
def excerpt (margin : Margin) (first last : Nat) (span : Span) (label : String) : List String :=
  if first = last then margin.gutter :: underlined margin first span label
  else
    let upper := bracketTop margin first span.start
    let lower := bracketBottom margin last span.stop label
    (margin.gutter ++ "  ") ::
      if first < last then upper ++ bracketMiddle margin first last ++ lower
      else lower ++ backwardMiddle margin last first ++ upper

/-- A diagnostic about a named source, as lines of text. The last is empty. -/
def Diagnostic.lines (diagnostic : Diagnostic) (name source : String) : List String :=
  let span := diagnostic.span
  let sourceLines := Line.ofSource source
  let first := lineIndex sourceLines span.start
  let last := lineIndex sourceLines span.stop
  let margin : Margin := ⟨sourceLines, (toString (max first last + 1)).length⟩
  let position := Position.resolve source span.start
  [diagnostic.severity.text ++ ": " ++ diagnostic.title,
    margin.blank ++ " ┌─ " ++ name ++ ":" ++ position.text] ++
    excerpt margin first last span diagnostic.label ++ [""]

/-- A diagnostic about a named source, as text. -/
def Diagnostic.render (diagnostic : Diagnostic) (name source : String) : String :=
  String.join ((diagnostic.lines name source).map (· ++ "\n"))

end FilterScript
