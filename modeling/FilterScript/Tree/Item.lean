import FilterScript.Tree.Expr
import FilterScript.Tree.Name

/-! # Items

What a script declares, one after the other.
-/

namespace FilterScript

/-- The two keywords for a filter. -/
inductive FilterKind where
  | filtermap | filter
deriving DecidableEq, Repr

def FilterKind.keyword : FilterKind → Keyword
  | filtermap => .filtermap
  | filter => .filter

/-- A declaration at the top of a script. -/
inductive Item (σ ν : Type) where
  | filter (kind : FilterKind) (name : Ident σ ν) (parameters : List (Parameter σ ν))
      (body : Block σ ν) (span : σ)
  | function (name : Ident σ ν) (parameters : List (Parameter σ ν))
      (returns : Option (TypeExpr σ ν)) (body : Block σ ν) (span : σ)
  | record (name : Ident σ ν) (fields : Record σ ν (TypeExpr σ ν)) (span : σ)
  | test (name : Ident σ ν) (body : Block σ ν) (span : σ)
  | import (path : ImportPath σ ν) (span : σ)

namespace Item

variable {σ ν : Type}

def span : Item σ ν → σ
  | filter _ _ _ _ span => span
  | function _ _ _ _ span => span
  | record _ _ span => span
  | test _ _ span => span
  | .import _ span => span

/-- The name that an item declares. An import declares none of its own. -/
def name? : Item σ ν → Option (Ident σ ν)
  | filter _ name _ _ _ => some name
  | function name _ _ _ _ => some name
  | record name _ _ => some name
  | test name _ _ => some name
  | .import _ _ => none

end Item

/-- A whole script. -/
structure Script (σ ν : Type) where
  items : List (Item σ ν)
  span : σ

end FilterScript
