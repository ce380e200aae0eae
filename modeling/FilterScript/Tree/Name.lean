/-! # Names of a script

Every name in a script is replaced by a small number when it is read, the same
number for the same text. The table that goes with it lists the texts in the
order of their first use.
-/

namespace FilterScript

/-- The place of a name in the table of names. -/
structure Symbol where
  index : Nat
deriving DecidableEq, Repr

/-- The texts of all names, each once, in the order of first use. -/
structure Names where
  texts : List String
deriving DecidableEq, Repr

namespace Names

def empty : Names :=
  ⟨[]⟩

/-- The symbol of a text, and the table with the text in it. -/
def intern (names : Names) (text : String) : Symbol × Names :=
  match names.texts.idxOf? text with
  | some index => (⟨index⟩, names)
  | none => (⟨names.texts.length⟩, ⟨names.texts ++ [text]⟩)

/-- The text of a symbol of this table. -/
def text? (names : Names) (symbol : Symbol) : Option String :=
  names.texts[symbol.index]?

/-- The text of a symbol, with a stand-in for symbols of other tables. -/
def text (names : Names) (symbol : Symbol) : String :=
  (names.text? symbol).getD "<unknown>"

end Names

end FilterScript
