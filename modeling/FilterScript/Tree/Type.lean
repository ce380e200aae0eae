import FilterScript.Tree.Ident

/-! # Types

Types as they are written. What they stand for is not decided here.
-/

namespace FilterScript

/-- A type expression. -/
inductive TypeExpr (σ ν : Type) where
  /-- A path, with the types in brackets behind it if there are any. -/
  | named (path : Path σ ν) (arguments : List (TypeExpr σ ν)) (span : σ)
  /-- A type with a question mark. The inner type may have one too. -/
  | optional (inner : TypeExpr σ ν) (span : σ)
  /-- The type of what never returns, `!`. -/
  | never (span : σ)
  /-- The empty type `()`. -/
  | unit (span : σ)
  | record (fields : Record σ ν (TypeExpr σ ν))

namespace TypeExpr

variable {σ ν : Type}

def span : TypeExpr σ ν → σ
  | named _ _ span => span
  | optional _ span => span
  | never span => span
  | unit span => span
  | record fields => fields.span

def isOptional : TypeExpr σ ν → Bool
  | optional _ _ => true
  | _ => false

end TypeExpr

/-- A parameter of a function or filter: a name with its type. -/
abbrev Parameter (σ ν : Type) :=
  Field σ ν (TypeExpr σ ν)

end FilterScript
