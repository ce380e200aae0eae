import FilterScript.Tree.Item

/-! # Trees as nested lists

Every tree has a written form in which each node is a list in parentheses, its
head word first. Two levels of nesting never look alike: `1 + 2 * 3` is written
`(+ 1 (* 2 3))`.
-/

namespace FilterScript

variable {σ : Type}

/-- Words in parentheses with blanks between them. -/
def listForm (words : List String) : String :=
  "(" ++ " ".intercalate words ++ ")"

/-- Entries in braces with commas between them. -/
def braceForm (entries : List String) : String :=
  "\x7b" ++ ", ".intercalate entries ++ "\x7d"

def Ident.render (ident : Ident σ String) : String :=
  Kind.nameText ident.name ident.raw

def Path.render (path : Path σ String) : String :=
  ".".intercalate (path.segments.map Ident.render)

def Pattern.render (pattern : Pattern σ String) : String :=
  match pattern.bindings with
  | some names =>
      pattern.path.render ++ "(" ++ ", ".intercalate (names.map Ident.render) ++ ")"
  | none => pattern.path.render

mutual

def TypeExpr.render : TypeExpr σ String → String
  | .named path [] _ => path.render
  | .named path arguments _ =>
      path.render ++ "[" ++ ", ".intercalate (TypeExpr.renderList arguments) ++ "]"
  | .optional inner _ => inner.render ++ "?"
  | .never _ => "!"
  | .unit _ => "()"
  | .record ⟨fields, _⟩ => braceForm (TypeExpr.renderFields fields)

def TypeExpr.renderList : List (TypeExpr σ String) → List String
  | [] => []
  | type :: rest => type.render :: TypeExpr.renderList rest

def TypeExpr.renderFields : List (Field σ String (TypeExpr σ String)) → List String
  | [] => []
  | ⟨name, type, _⟩ :: rest =>
      (name.render ++ ": " ++ type.render) :: TypeExpr.renderFields rest

end

def Parameter.words (parameter : Parameter σ String) : List String :=
  [parameter.name.render, parameter.value.render]

def Parameter.render (parameter : Parameter σ String) : String :=
  listForm parameter.words

/-- Parameters as a list of lists. -/
def renderParameters (parameters : List (Parameter σ String)) : String :=
  listForm (parameters.map Parameter.render)

mutual

def ImportPath.render : ImportPath σ String → String
  | ⟨parts, _⟩ => ".".intercalate (ImportPart.renderList parts)

def ImportPart.renderList : List (ImportPart σ String) → List String
  | [] => []
  | .name ident :: rest => ident.render :: ImportPart.renderList rest
  | .group members _ :: rest =>
      braceForm (ImportPath.renderList members) :: ImportPart.renderList rest

def ImportPath.renderList : List (ImportPath σ String) → List String
  | [] => []
  | path :: rest => path.render :: ImportPath.renderList rest

end

def Literal.render : Literal → String
  | unit => "()"
  | bool true => "true"
  | bool false => "false"
  | integer digits => digits
  | ipv4 digits => digits
  | string content => "\"" ++ content ++ "\""

/-- What a node is written as: a text of its own, or a list of words. -/
inductive Written where
  | leaf (text : String)
  | list (words : List String)

def Written.render : Written → String
  | leaf text => text
  | list words => listForm words

/-- The words of the list. A leaf has none. -/
def Written.words : Written → List String
  | leaf _ => []
  | list words => words

mutual

/-- Literals and paths are leaves, all other expressions are lists. -/
def Expr.written : Expr σ String → Written
  | .literal value _ => .leaf value.render
  | .path whole => .leaf whole.render
  | .access receiver field _ => .list [".", receiver.written.render, field.render]
  | .call callee arguments _ =>
      .list ("call" :: callee.written.render :: Expr.renderList arguments)
  | .record ⟨fields, _⟩ => .list ["record", braceForm (Expr.renderFields fields)]
  | .typedRecord path ⟨fields, _⟩ _ =>
      .list ["record", path.render, braceForm (Expr.renderFields fields)]
  | .unary op operand _ => .list [op.kind.spelling, operand.written.render]
  | .binary op left right _ =>
      .list [op.punct.spelling, left.written.render, right.written.render]
  | .question inner _ => .list ["?", inner.written.render]
  | .exit kind value _ => .list (kind.keyword.spelling :: Expr.renderOption value)
  | .conditional condition consequence alternative _ =>
      .list ("if" :: condition.written.render :: listForm consequence.words ::
        Alternative.renderOption alternative)
  | .loop condition body _ => .list ["while", condition.written.render, listForm body.words]
  | .select scrutinee arms _ =>
      .list ("match" :: scrutinee.written.render :: Arm.renderList arms)
  | .paren inner _ => .list ["paren", inner.written.render]

def Expr.renderList : List (Expr σ String) → List String
  | [] => []
  | expr :: rest => expr.written.render :: Expr.renderList rest

def Expr.renderOption : Option (Expr σ String) → List String
  | none => []
  | some expr => [expr.written.render]

def Expr.renderFields : List (Field σ String (Expr σ String)) → List String
  | [] => []
  | ⟨name, value, _⟩ :: rest =>
      (name.render ++ ": " ++ value.written.render) :: Expr.renderFields rest

def Alternative.renderOption : Option (Alternative σ String) → List String
  | none => []
  | some (.block body) => [listForm body.words]
  | some (.conditional next) => [next.written.render]

def Block.words : Block σ String → List String
  | ⟨statements, tail, _⟩ => "block" :: Statement.renderList statements ++ Expr.renderTail tail

def Expr.renderTail : Option (Expr σ String) → List String
  | none => []
  | some expr => [listForm ["tail", expr.written.render]]

/-- A control expression is written without a list around it. -/
def Statement.written : Statement σ String → Written
  | .import path _ => .list ["import", path.render]
  | .binding name none value _ => .list ["let", name.render, value.written.render]
  | .binding name (some type) value _ =>
      .list ["let", name.render, type.render, value.written.render]
  | .expr value _ => .list ["expr", value.written.render]
  | .control value => value.written

def Statement.renderList : List (Statement σ String) → List String
  | [] => []
  | statement :: rest => statement.written.render :: Statement.renderList rest

def Arm.words : Arm σ String → List String
  | ⟨pattern, none, body, _, _⟩ => ["arm", pattern.render, body.render]
  | ⟨pattern, some guard, body, _, _⟩ =>
      ["arm", pattern.render, "|", guard.written.render, body.render]

def Arm.renderList : List (Arm σ String) → List String
  | [] => []
  | arm :: rest => listForm arm.words :: Arm.renderList rest

def ArmBody.render : ArmBody σ String → String
  | .block body => listForm body.words
  | .expr value => value.written.render

end

def Expr.words (expr : Expr σ String) : List String :=
  expr.written.words

def Expr.render (expr : Expr σ String) : String :=
  expr.written.render

def Block.render (block : Block σ String) : String :=
  listForm block.words

def Statement.words (statement : Statement σ String) : List String :=
  statement.written.words

def Statement.render (statement : Statement σ String) : String :=
  statement.written.render

def Arm.render (arm : Arm σ String) : String :=
  listForm arm.words

def Item.words : Item σ String → List String
  | .filter kind name parameters body _ =>
      [kind.keyword.spelling, name.render, renderParameters parameters, body.render]
  | .function name parameters none body _ =>
      ["fn", name.render, renderParameters parameters, body.render]
  | .function name parameters (some returns) body _ =>
      ["fn", name.render, renderParameters parameters, "->", returns.render, body.render]
  | .record name ⟨fields, _⟩ _ =>
      ["type", name.render, braceForm (TypeExpr.renderFields fields)]
  | .test name body _ => ["test", name.render, body.render]
  | .import path _ => ["import", path.render]

def Item.render (item : Item σ String) : String :=
  listForm item.words

/-- One item per line. -/
def Script.render (script : Script σ String) : String :=
  "\n".intercalate (script.items.map Item.render)

end FilterScript
