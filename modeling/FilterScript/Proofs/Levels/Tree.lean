import FilterScript.Tree.Item

/-!
# The levels of a tree

A block, a type and an import path each open a level, and so does every operand
that is a whole expression of its own: the right operand of an operator, an
argument, a condition, whatever stands in parentheses, and so on. The first
operand of an operator, the receiver of an access, a callee and the conditional
behind `else` continue the level that they stand in.
-/

namespace FilterScript

/-- The largest of the numbers that the elements have, zero if there are none. -/
def most {α : Type} (number : α → Nat) : List α → Nat
  | [] => 0
  | element :: rest => max (number element) (most number rest)

theorem most_append {α : Type} (number : α → Nat) (first second : List α) :
    most number (first ++ second) = max (most number first) (most number second) := by
  induction first with
  | nil => exact (Nat.zero_max _).symm
  | cons element rest ih => rw [List.cons_append, most, most, ih, Nat.max_assoc]

variable {σ ν : Type}

mutual

/-- The levels that are open at once in a type, its own included. Question marks
open none. -/
def TypeExpr.levels : TypeExpr σ ν → Nat
  | .named _ arguments _ => TypeExpr.levelsList arguments + 1
  | .optional inner _ => inner.levels
  | .never _ => 1
  | .unit _ => 1
  | .record ⟨fields, _⟩ => TypeExpr.levelsFields fields + 1

def TypeExpr.levelsList : List (TypeExpr σ ν) → Nat
  | [] => 0
  | type :: rest => max type.levels (TypeExpr.levelsList rest)

def TypeExpr.levelsFields : List (Field σ ν (TypeExpr σ ν)) → Nat
  | [] => 0
  | ⟨_, type, _⟩ :: rest => max type.levels (TypeExpr.levelsFields rest)

end

def TypeExpr.levelsOption : Option (TypeExpr σ ν) → Nat
  | none => 0
  | some type => type.levels

mutual

/-- The levels that are open at once in an import path, its own included. -/
def ImportPath.levels : ImportPath σ ν → Nat
  | ⟨parts, _⟩ => ImportPart.levelsList parts + 1

def ImportPart.levelsList : List (ImportPart σ ν) → Nat
  | [] => 0
  | .name _ :: rest => ImportPart.levelsList rest
  | .group members _ :: rest => max (ImportPath.levelsList members) (ImportPart.levelsList rest)

def ImportPath.levelsList : List (ImportPath σ ν) → Nat
  | [] => 0
  | path :: rest => max path.levels (ImportPath.levelsList rest)

end

/-- Whether the first word of an expression is that of a conditional, loop or
match. -/
def Expr.beginsWithControl : Expr σ ν → Bool
  | .conditional .. | .loop .. | .select .. => true
  | .access receiver _ _ => receiver.beginsWithControl
  | .call callee _ _ => callee.beginsWithControl
  | .question inner _ => inner.beginsWithControl
  | .binary _ left _ _ => left.beginsWithControl
  | _ => false

mutual

/-- The levels that are open at once in an expression, apart from the one that
it stands in. -/
def Expr.levels : Expr σ ν → Nat
  | .literal _ _ => 0
  | .path _ => 0
  | .access receiver _ _ => receiver.levels
  | .call callee arguments _ => max callee.levels (Expr.levelsList arguments)
  | .record ⟨fields, _⟩ => Expr.levelsFields fields
  | .typedRecord _ ⟨fields, _⟩ _ => Expr.levelsFields fields
  | .unary _ operand _ => operand.levels + 1
  | .binary _ left right _ => max left.levels (right.levels + 1)
  | .question inner _ => inner.levels
  | .exit _ value _ => Expr.levelsOption value
  | .conditional condition consequence alternative _ =>
      max (condition.levels + 1)
        (max consequence.levels (Alternative.levelsOption alternative))
  | .loop condition body _ => max (condition.levels + 1) body.levels
  | .select scrutinee arms _ => max (scrutinee.levels + 1) (Arm.levelsList arms)
  | .paren inner _ => inner.levels + 1

/-- Operands of their own, each with a level of its own. -/
def Expr.levelsList : List (Expr σ ν) → Nat
  | [] => 0
  | expr :: rest => max (expr.levels + 1) (Expr.levelsList rest)

def Expr.levelsOption : Option (Expr σ ν) → Nat
  | none => 0
  | some expr => expr.levels + 1

def Expr.levelsFields : List (Field σ ν (Expr σ ν)) → Nat
  | [] => 0
  | ⟨_, value, _⟩ :: rest => max (value.levels + 1) (Expr.levelsFields rest)

def Alternative.levelsOption : Option (Alternative σ ν) → Nat
  | none => 0
  | some (.block body) => body.levels
  | some (.conditional next) => next.levels

/-- The levels that are open at once in a block, its own included. -/
def Block.levels : Block σ ν → Nat
  | ⟨statements, tail, _⟩ =>
      max (Statement.levelsList statements) (Expr.levelsOfTail tail) + 1

/-- An expression at the start of a statement opens a level of its own unless it
begins with a conditional, loop or match. -/
def Expr.levelsOfTail : Option (Expr σ ν) → Nat
  | none => 0
  | some expr => if expr.beginsWithControl then expr.levels else expr.levels + 1

def Statement.levels : Statement σ ν → Nat
  | .import path _ => path.levels
  | .binding _ type value _ => max (TypeExpr.levelsOption type) (value.levels + 1)
  | .expr value _ => if value.beginsWithControl then value.levels else value.levels + 1
  | .control value => value.levels

def Statement.levelsList : List (Statement σ ν) → Nat
  | [] => 0
  | statement :: rest => max statement.levels (Statement.levelsList rest)

def Arm.levels : Arm σ ν → Nat
  | ⟨_, guard, body, _, _⟩ => max (Expr.levelsOption guard) body.levels

def Arm.levelsList : List (Arm σ ν) → Nat
  | [] => 0
  | arm :: rest => max arm.levels (Arm.levelsList rest)

def ArmBody.levels : ArmBody σ ν → Nat
  | .block body => body.levels
  | .expr value => value.levels + 1

end

attribute [simp] most TypeExpr.levels TypeExpr.levelsOption ImportPath.levels ImportPart.levelsList
  Expr.beginsWithControl Expr.levels Expr.levelsOption Alternative.levelsOption Block.levels
  Expr.levelsOfTail Statement.levels Arm.levels ArmBody.levels

def Item.levels : Item σ ν → Nat
  | .filter _ _ parameters body _ => max (TypeExpr.levelsFields parameters) body.levels
  | .function _ parameters returns body _ =>
      max (TypeExpr.levelsFields parameters) (max (TypeExpr.levelsOption returns) body.levels)
  | .record _ ⟨fields, _⟩ _ => TypeExpr.levelsFields fields
  | .test _ body _ => body.levels
  | .import path _ => path.levels

/-- The largest number of levels that are open at one place of a script. -/
def Script.nest (script : Script σ ν) : Nat :=
  most Item.levels script.items

/-! ## Levels of lists -/

/-- The levels of an expression at the start of a statement. -/
def Expr.leadingLevels (expr : Expr σ ν) : Nat :=
  if expr.beginsWithControl then expr.levels else expr.levels + 1

theorem TypeExpr.levelsList_eq_most (types : List (TypeExpr σ ν)) :
    TypeExpr.levelsList types = most TypeExpr.levels types := by
  induction types with
  | nil => rfl
  | cons type rest ih => rw [levelsList, ih, most]

theorem TypeExpr.levelsFields_eq_most (fields : List (Field σ ν (TypeExpr σ ν))) :
    TypeExpr.levelsFields fields = most (fun field => field.value.levels) fields := by
  induction fields with
  | nil => rfl
  | cons field rest ih => rw [levelsFields, ih, most]

theorem ImportPath.levelsList_eq_most (paths : List (ImportPath σ ν)) :
    ImportPath.levelsList paths = most ImportPath.levels paths := by
  induction paths with
  | nil => simp [levelsList, most]
  | cons path rest ih => rw [levelsList, ih, most]

theorem ImportPart.levelsList_append (first second : List (ImportPart σ ν)) :
    ImportPart.levelsList (first ++ second) =
      max (ImportPart.levelsList first) (ImportPart.levelsList second) := by
  induction first with
  | nil => simp [levelsList]
  | cons part rest ih =>
      cases part with
      | name ident => rw [List.cons_append, levelsList, levelsList, ih]
      | group members span => rw [List.cons_append, levelsList, levelsList, ih, Nat.max_assoc]

theorem Expr.levelsList_eq_most (exprs : List (Expr σ ν)) :
    Expr.levelsList exprs = most (fun expr => expr.levels + 1) exprs := by
  induction exprs with
  | nil => simp [levelsList, most]
  | cons expr rest ih => rw [levelsList, ih, most]

theorem Expr.levelsFields_eq_most (fields : List (Field σ ν (Expr σ ν))) :
    Expr.levelsFields fields = most (fun field => field.value.levels + 1) fields := by
  induction fields with
  | nil => simp [levelsFields, most]
  | cons field rest ih => rw [levelsFields, ih, most]

theorem Statement.levelsList_eq_most (statements : List (Statement σ ν)) :
    Statement.levelsList statements = most Statement.levels statements := by
  induction statements with
  | nil => simp [levelsList, most]
  | cons statement rest ih => rw [levelsList, ih, most]

theorem Arm.levelsList_eq_most (arms : List (Arm σ ν)) :
    Arm.levelsList arms = most Arm.levels arms := by
  induction arms with
  | nil => simp [levelsList, most]
  | cons arm rest ih => rw [levelsList, ih, most]

end FilterScript
