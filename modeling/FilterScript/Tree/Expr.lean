import FilterScript.Token.Basic
import FilterScript.Tree.Import
import FilterScript.Tree.Type

/-! # Expressions, statements and blocks

The tree keeps what was written: parentheses have a node of their own, literals
keep their text, and statements know whether a semicolon ended them.
-/

namespace FilterScript

/-- A literal as it is written. A string has lost its quotes. -/
inductive Literal where
  | unit
  | bool (value : Bool)
  | integer (digits : String)
  | ipv4 (digits : String)
  | string (content : String)
deriving DecidableEq, Repr

/-- Operators with one operand. -/
inductive UnaryOp where
  | neg | not
deriving DecidableEq, Repr

/-- Operators between two operands. -/
inductive BinaryOp where
  | and | or | eq | ne | lt | le | gt | ge | add | sub | mul | div
deriving DecidableEq, Repr

/-- The ways to leave a function or filter early. -/
inductive ExitKind where
  | return | accept | reject
deriving DecidableEq, Repr

namespace UnaryOp

def kind : UnaryOp → Kind
  | neg => Punct.minus
  | not => Keyword.not_

def ofKind? : Kind → Option UnaryOp
  | .punct .minus => some neg
  | .keyword .not_ => some not
  | _ => none

/-- How tightly the operator holds its operand. The minus sign takes in products
and quotients, `not` takes in no binary operator at all. -/
def precedence : UnaryOp → Nat
  | neg => 3
  | not => 5

end UnaryOp

namespace BinaryOp

def punct : BinaryOp → Punct
  | and => .andAnd
  | or => .orOr
  | eq => .equal
  | ne => .notEqual
  | lt => .less
  | le => .lessEq
  | gt => .greater
  | ge => .greaterEq
  | add => .plus
  | sub => .minus
  | mul => .star
  | div => .slash

def ofKind? : Kind → Option BinaryOp
  | .punct .andAnd => some and
  | .punct .orOr => some or
  | .punct .equal => some eq
  | .punct .notEqual => some ne
  | .punct .less => some lt
  | .punct .lessEq => some le
  | .punct .greater => some gt
  | .punct .greaterEq => some ge
  | .punct .plus => some add
  | .punct .minus => some sub
  | .punct .star => some mul
  | .punct .slash => some div
  | _ => none

theorem ofKind?_eq_some_iff {kind : Kind} {op : BinaryOp} :
    ofKind? kind = some op ↔ kind = op.punct := by
  constructor
  · intro h
    unfold ofKind? at h
    split at h <;> simp at h <;> subst h <;> rfl
  · rintro rfl
    cases op <;> rfl

/-- How tightly the operator holds its operands. All operators group to the left;
`&&` and `||` share the lowest level. -/
def precedence : BinaryOp → Nat
  | and | or => 1
  | eq | ne | lt | le | gt | ge => 2
  | add | sub => 3
  | mul | div => 4

end BinaryOp

namespace ExitKind

def keyword : ExitKind → Keyword
  | .return => .return_
  | accept => .accept
  | reject => .reject

def ofKind? : Kind → Option ExitKind
  | .keyword .return_ => some .return
  | .keyword .accept => some accept
  | .keyword .reject => some reject
  | _ => none

end ExitKind

/-- What an arm of a match looks for: a variant, and names for what it holds.
No parentheses at all differ from empty ones. -/
structure Pattern (σ ν : Type) where
  path : Path σ ν
  bindings : Option (List (Ident σ ν))
  span : σ

mutual

/-- An expression. -/
inductive Expr (σ ν : Type) where
  | literal (value : Literal) (span : σ)
  | path (whole : Path σ ν)
  /-- A field of something that is not itself a path: `f(x).y`. -/
  | access (receiver : Expr σ ν) (field : Ident σ ν) (span : σ)
  | call (callee : Expr σ ν) (arguments : List (Expr σ ν)) (span : σ)
  | record (fields : Record σ ν (Expr σ ν))
  | typedRecord (path : Path σ ν) (fields : Record σ ν (Expr σ ν)) (span : σ)
  | unary (op : UnaryOp) (operand : Expr σ ν) (span : σ)
  | binary (op : BinaryOp) (left right : Expr σ ν) (span : σ)
  /-- An expression with a question mark: leave early if it has no value. -/
  | question (inner : Expr σ ν) (span : σ)
  | exit (kind : ExitKind) (value : Option (Expr σ ν)) (span : σ)
  | conditional (condition : Expr σ ν) (consequence : Block σ ν)
      (alternative : Option (Alternative σ ν)) (span : σ)
  | loop (condition : Expr σ ν) (body : Block σ ν) (span : σ)
  | select (scrutinee : Expr σ ν) (arms : List (Arm σ ν)) (span : σ)
  | paren (inner : Expr σ ν) (span : σ)

/-- What follows `else`: a block, or another conditional. -/
inductive Alternative (σ ν : Type) where
  | block (body : Block σ ν)
  | conditional (next : Expr σ ν)

/-- Statements in braces, and the expression without a semicolon that may come
last. -/
structure Block (σ ν : Type) where
  statements : List (Statement σ ν)
  tail : Option (Expr σ ν)
  span : σ

/-- A statement of a block. -/
inductive Statement (σ ν : Type) where
  | import (path : ImportPath σ ν) (span : σ)
  | binding (name : Ident σ ν) (type : Option (TypeExpr σ ν)) (value : Expr σ ν) (span : σ)
  /-- An expression with a semicolon. -/
  | expr (value : Expr σ ν) (span : σ)
  /-- A conditional, loop or match that stands without a semicolon. -/
  | control (value : Expr σ ν)

/-- An arm of a match. `last` says that the match ends after it. -/
structure Arm (σ ν : Type) where
  pattern : Pattern σ ν
  guard : Option (Expr σ ν)
  body : ArmBody σ ν
  last : Bool
  span : σ

/-- What an arm does: a block, or an expression. -/
inductive ArmBody (σ ν : Type) where
  | block (body : Block σ ν)
  | expr (value : Expr σ ν)

end

variable {σ ν : Type}

namespace Expr

def span : Expr σ ν → σ
  | literal _ span => span
  | path whole => whole.span
  | access _ _ span => span
  | call _ _ span => span
  | record fields => fields.span
  | typedRecord _ _ span => span
  | unary _ _ span => span
  | binary _ _ _ span => span
  | question _ span => span
  | exit _ _ span => span
  | conditional _ _ _ span => span
  | loop _ _ span => span
  | select _ _ span => span
  | paren _ span => span

/-- The expressions that may stand as statements without a semicolon. -/
def isControl : Expr σ ν → Bool
  | conditional .. | loop .. | select .. => true
  | _ => false

end Expr

namespace Alternative

def span : Alternative σ ν → σ
  | block body => body.span
  | conditional next => next.span

end Alternative

namespace ArmBody

def span : ArmBody σ ν → σ
  | block body => body.span
  | expr value => value.span

end ArmBody

namespace Statement

def span : Statement σ ν → σ
  | .import _ span => span
  | binding _ _ _ span => span
  | expr _ span => span
  | control value => value.span

end Statement

end FilterScript
