import FilterScript.Parsed
import FilterScript.Proofs.Levels.Tree
import FilterScript.Proofs.Spelling.Slots

/-!
# Trees that can be written down and read back

Not every tree is what its written form is read as: an operand may hold less
tightly than its operator, a record in a condition would be taken for a block.
The conditions here are those under which a written tree has only one reading.
What the names and literals of a tree are made of is a matter of its tokens and
is asked of them.
-/

namespace FilterScript

variable {σ ν : Type}

/-! ## Operators -/

/-- If the expression is a binary operation, its operator holds at least as
tightly as the number says. -/
def Expr.HoldsAtLeast (least : Nat) : Expr σ ν → Prop
  | .binary op _ _ _ => least ≤ op.precedence
  | _ => True

/-- The operator may stand behind the expression without being drawn into it. On
the right edge an early exit with a value draws in everything, one without a
value takes a minus sign for the start of one, and a negation draws in products
and quotients. -/
def Expr.EndsBefore (op : BinaryOp) : Expr σ ν → Prop
  | .binary _ _ right _ => right.EndsBefore op
  | .unary .neg operand _ => op.precedence ≤ 3 ∧ operand.EndsBefore op
  | .unary .not operand _ => operand.EndsBefore op
  | .exit _ (some _) _ => False
  | .exit _ none _ => op ≠ .sub
  | _ => True

/-- An access, a call or a question mark may follow. -/
def Expr.TakesPostfix : Expr σ ν → Prop
  | .unary .. | .binary .. | .exit .. => False
  | _ => True

def Expr.IsPath : Expr σ ν → Prop
  | .path _ => True
  | _ => False

def Expr.IsConditional : Expr σ ν → Prop
  | .conditional .. => True
  | _ => False

/-! ## Places where an expression could be read as something else -/

/-- At the start of a statement, what follows a conditional, loop or match must
not be a token that could start a statement of its own. -/
def Expr.GoesOn : Expr σ ν → Prop
  | .access receiver _ _ => receiver.GoesOn
  | .call callee _ _ => callee.isControl = false ∧ callee.GoesOn
  | .question inner _ => inner.GoesOn
  | .binary op left _ _ => (left.isControl = true → op ≠ .sub) ∧ left.GoesOn
  | _ => True

/-- The written expression begins with braces that have nothing between them. -/
def Expr.BeginsWithEmptyRecord : Expr σ ν → Prop
  | .record ⟨fields, _⟩ => fields = []
  | .access receiver _ _ => receiver.BeginsWithEmptyRecord
  | .call callee _ _ => callee.BeginsWithEmptyRecord
  | .question inner _ => inner.BeginsWithEmptyRecord
  | .binary _ left _ _ => left.BeginsWithEmptyRecord
  | _ => False

mutual

/-- Every path has a part, in groups too. -/
def ImportPath.Fits : ImportPath σ ν → Prop
  | ⟨parts, _⟩ => parts ≠ [] ∧ ImportPart.FitsList parts

def ImportPart.FitsList : List (ImportPart σ ν) → Prop
  | [] => True
  | .name _ :: rest => ImportPart.FitsList rest
  | .group members _ :: rest => ImportPath.FitsList members ∧ ImportPart.FitsList rest

def ImportPath.FitsList : List (ImportPath σ ν) → Prop
  | [] => True
  | path :: rest => path.Fits ∧ ImportPath.FitsList rest

end

mutual

/-- The written expression is read as this expression and no other, in a place
where braces open records or where they do not. -/
def Expr.Fits (records : Bool) : Expr σ ν → Prop
  | .literal _ _ => True
  | .path _ => True
  | .access receiver _ _ =>
      receiver.TakesPostfix ∧ ¬ receiver.IsPath ∧ receiver.Fits records
  | .call callee arguments _ =>
      callee.TakesPostfix ∧ callee.Fits records ∧ Expr.FitsList arguments
  | .record ⟨fields, _⟩ => records = true ∧ Expr.FitsFields fields
  | .typedRecord _ ⟨fields, _⟩ _ => records = true ∧ Expr.FitsFields fields
  | .unary op operand _ => operand.HoldsAtLeast (op.precedence + 1) ∧ operand.Fits records
  | .binary op left right _ =>
      left.HoldsAtLeast op.precedence ∧ left.EndsBefore op ∧ left.Fits records ∧
        right.HoldsAtLeast (op.precedence + 1) ∧ right.Fits records
  | .question inner _ => inner.TakesPostfix ∧ inner.Fits records
  | .exit _ none _ => True
  | .exit _ (some value) _ => value.Fits records
  | .conditional condition consequence none _ => condition.Fits false ∧ consequence.Fits
  | .conditional condition consequence (some (.block body)) _ =>
      condition.Fits false ∧ consequence.Fits ∧ body.Fits
  | .conditional condition consequence (some (.conditional next)) _ =>
      condition.Fits false ∧ consequence.Fits ∧ next.IsConditional ∧ next.Fits records
  | .loop condition body _ => condition.Fits false ∧ body.Fits
  | .select scrutinee arms _ => scrutinee.Fits false ∧ Arm.FitsList arms
  | .paren inner _ => inner.Fits true

def Expr.FitsList : List (Expr σ ν) → Prop
  | [] => True
  | expr :: rest => expr.Fits true ∧ Expr.FitsList rest

def Expr.FitsFields : List (Field σ ν (Expr σ ν)) → Prop
  | [] => True
  | ⟨_, value, _⟩ :: rest => value.Fits true ∧ Expr.FitsFields rest

/-- A block does not end with a conditional, loop or match as a statement: that
is its last expression. -/
def Block.Fits : Block σ ν → Prop
  | ⟨statements, none, _⟩ => Statement.FitsList false statements
  | ⟨statements, some tail, _⟩ =>
      Statement.FitsList true statements ∧ tail.GoesOn ∧ tail.Fits true

/-- A statement with or without something behind it in its block. -/
def Statement.Fits (followed : Bool) : Statement σ ν → Prop
  | .import path _ => path.Fits
  | .binding _ _ value _ => value.Fits true
  | .expr value _ => value.GoesOn ∧ value.Fits true
  | .control value => value.isControl = true ∧ followed = true ∧ value.Fits true

/-- Statements with or without an expression behind them. -/
def Statement.FitsList (tail : Bool) : List (Statement σ ν) → Prop
  | [] => True
  | statement :: rest =>
      statement.Fits (tail || !rest.isEmpty) ∧ Statement.FitsList tail rest

def Arm.Fits : Arm σ ν → Prop
  | ⟨_, none, body, _, _⟩ => body.Fits
  | ⟨_, some guard, body, _, _⟩ => guard.Fits true ∧ body.Fits

/-- Arms know which of them is the last. -/
def Arm.FitsList : List (Arm σ ν) → Prop
  | [] => True
  | arm :: rest => arm.last = rest.isEmpty ∧ arm.Fits ∧ Arm.FitsList rest

/-- Empty braces behind the arrow are a block. -/
def ArmBody.Fits : ArmBody σ ν → Prop
  | .block body => body.Fits
  | .expr value => ¬ value.BeginsWithEmptyRecord ∧ value.Fits true

end

attribute [simp] Expr.HoldsAtLeast Expr.EndsBefore Expr.TakesPostfix Expr.IsPath Expr.GoesOn
  Expr.BeginsWithEmptyRecord ImportPath.Fits ImportPart.FitsList ImportPath.FitsList Expr.Fits
  Expr.FitsList Expr.FitsFields Block.Fits Statement.Fits Statement.FitsList Arm.Fits Arm.FitsList
  ArmBody.Fits

def Item.Fits : Item σ ν → Prop
  | .filter _ _ _ body _ => body.Fits
  | .function _ _ _ body _ => body.Fits
  | .record _ _ _ => True
  | .test _ body _ => body.Fits
  | .import path _ => path.Fits

theorem ImportPath.fitsList_iff {paths : List (ImportPath σ ν)} :
    ImportPath.FitsList paths ↔ ∀ path ∈ paths, path.Fits := by
  induction paths with
  | nil => simp
  | cons first rest ih => rw [FitsList, ih, List.forall_mem_cons]

theorem Expr.fitsList_iff {exprs : List (Expr σ ν)} :
    Expr.FitsList exprs ↔ ∀ expr ∈ exprs, expr.Fits true := by
  induction exprs with
  | nil => simp
  | cons first rest ih => rw [FitsList, ih, List.forall_mem_cons]

theorem Expr.fitsFields_iff {fields : List (Field σ ν (Expr σ ν))} :
    Expr.FitsFields fields ↔ ∀ field ∈ fields, field.value.Fits true := by
  induction fields with
  | nil => simp
  | cons first rest ih => rw [FitsFields, ih, List.forall_mem_cons]

end FilterScript
