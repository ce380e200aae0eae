/-! # Runs of code points

Character properties are tables of ranges in ascending order, each a first and
a last code point.
-/

namespace FilterScript.Unicode

/-- The code points from `first` to `last`, both included. -/
structure Range where
  first : Nat
  last : Nat
deriving DecidableEq, Repr

/-- Whether a code point lies in one of the ranges of an ascending table. -/
def containsCode : List Range → Nat → Bool
  | [], _ => false
  | range :: rest, code =>
      if code < range.first then false
      else code ≤ range.last || containsCode rest code

/-- Whether a character lies in one of the ranges of an ascending table. -/
def contains (table : List Range) (c : Char) : Bool :=
  containsCode table c.toNat

/-- The first byte of a code point's UTF-8 encoding. -/
def leadByte (code : Nat) : Nat :=
  if code < 0x80 then code
  else if code < 0x800 then 0xC0 + code / 0x40
  else if code < 0x10000 then 0xE0 + code / 0x1000
  else 0xF0 + code / 0x40000

end FilterScript.Unicode
