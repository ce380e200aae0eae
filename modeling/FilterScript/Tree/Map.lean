import FilterScript.Tree.Item

/-! # Changing notes and names

A tree keeps its shape when what is noted at its nodes and what its names are
are exchanged for something else. With a constant for the notes this forgets the
spans, with a table for the names it turns symbols into texts.
-/

namespace FilterScript

variable {σ τ ν μ : Type}

def Ident.map (f : σ → τ) (g : ν → μ) (ident : Ident σ ν) : Ident τ μ :=
  ⟨g ident.name, ident.raw, f ident.span⟩

def Path.map (f : σ → τ) (g : ν → μ) (path : Path σ ν) : Path τ μ :=
  ⟨path.first.map f g, path.rest.map (Ident.map f g), f path.span⟩

def Pattern.map (f : σ → τ) (g : ν → μ) (pattern : Pattern σ ν) : Pattern τ μ :=
  ⟨pattern.path.map f g, pattern.bindings.map (List.map (Ident.map f g)), f pattern.span⟩

mutual

def TypeExpr.map (f : σ → τ) (g : ν → μ) : TypeExpr σ ν → TypeExpr τ μ
  | .named path arguments span => .named (path.map f g) (TypeExpr.mapList f g arguments) (f span)
  | .optional inner span => .optional (inner.map f g) (f span)
  | .never span => .never (f span)
  | .unit span => .unit (f span)
  | .record ⟨fields, span⟩ => .record ⟨TypeExpr.mapFields f g fields, f span⟩

def TypeExpr.mapList (f : σ → τ) (g : ν → μ) : List (TypeExpr σ ν) → List (TypeExpr τ μ)
  | [] => []
  | type :: rest => type.map f g :: TypeExpr.mapList f g rest

def TypeExpr.mapFields (f : σ → τ) (g : ν → μ) :
    List (Field σ ν (TypeExpr σ ν)) → List (Field τ μ (TypeExpr τ μ))
  | [] => []
  | ⟨name, type, span⟩ :: rest =>
      ⟨name.map f g, type.map f g, f span⟩ :: TypeExpr.mapFields f g rest

end

mutual

def ImportPath.map (f : σ → τ) (g : ν → μ) : ImportPath σ ν → ImportPath τ μ
  | ⟨parts, span⟩ => ⟨ImportPart.mapList f g parts, f span⟩

def ImportPart.mapList (f : σ → τ) (g : ν → μ) : List (ImportPart σ ν) → List (ImportPart τ μ)
  | [] => []
  | .name ident :: rest => .name (ident.map f g) :: ImportPart.mapList f g rest
  | .group members span :: rest =>
      .group (ImportPath.mapList f g members) (f span) :: ImportPart.mapList f g rest

def ImportPath.mapList (f : σ → τ) (g : ν → μ) : List (ImportPath σ ν) → List (ImportPath τ μ)
  | [] => []
  | path :: rest => path.map f g :: ImportPath.mapList f g rest

end

mutual

def Expr.map (f : σ → τ) (g : ν → μ) : Expr σ ν → Expr τ μ
  | .literal value span => .literal value (f span)
  | .path whole => .path (whole.map f g)
  | .access receiver field span => .access (receiver.map f g) (field.map f g) (f span)
  | .call callee arguments span =>
      .call (callee.map f g) (Expr.mapList f g arguments) (f span)
  | .record ⟨fields, span⟩ => .record ⟨Expr.mapFields f g fields, f span⟩
  | .typedRecord path ⟨fields, inner⟩ span =>
      .typedRecord (path.map f g) ⟨Expr.mapFields f g fields, f inner⟩ (f span)
  | .unary op operand span => .unary op (operand.map f g) (f span)
  | .binary op left right span => .binary op (left.map f g) (right.map f g) (f span)
  | .question inner span => .question (inner.map f g) (f span)
  | .exit kind value span => .exit kind (Expr.mapOption f g value) (f span)
  | .conditional condition consequence alternative span =>
      .conditional (condition.map f g) (consequence.map f g)
        (Alternative.mapOption f g alternative) (f span)
  | .loop condition body span => .loop (condition.map f g) (body.map f g) (f span)
  | .select scrutinee arms span => .select (scrutinee.map f g) (Arm.mapList f g arms) (f span)
  | .paren inner span => .paren (inner.map f g) (f span)

def Expr.mapList (f : σ → τ) (g : ν → μ) : List (Expr σ ν) → List (Expr τ μ)
  | [] => []
  | expr :: rest => expr.map f g :: Expr.mapList f g rest

def Expr.mapOption (f : σ → τ) (g : ν → μ) : Option (Expr σ ν) → Option (Expr τ μ)
  | none => none
  | some expr => some (expr.map f g)

def Expr.mapFields (f : σ → τ) (g : ν → μ) :
    List (Field σ ν (Expr σ ν)) → List (Field τ μ (Expr τ μ))
  | [] => []
  | ⟨name, value, span⟩ :: rest =>
      ⟨name.map f g, value.map f g, f span⟩ :: Expr.mapFields f g rest

def Alternative.mapOption (f : σ → τ) (g : ν → μ) :
    Option (Alternative σ ν) → Option (Alternative τ μ)
  | none => none
  | some (.block body) => some (.block (body.map f g))
  | some (.conditional next) => some (.conditional (next.map f g))

def Block.map (f : σ → τ) (g : ν → μ) : Block σ ν → Block τ μ
  | ⟨statements, tail, span⟩ =>
      ⟨Statement.mapList f g statements, Expr.mapOption f g tail, f span⟩

def Statement.map (f : σ → τ) (g : ν → μ) : Statement σ ν → Statement τ μ
  | .import path span => .import (path.map f g) (f span)
  | .binding name type value span =>
      .binding (name.map f g) (type.map (TypeExpr.map f g)) (value.map f g) (f span)
  | .expr value span => .expr (value.map f g) (f span)
  | .control value => .control (value.map f g)

def Statement.mapList (f : σ → τ) (g : ν → μ) : List (Statement σ ν) → List (Statement τ μ)
  | [] => []
  | statement :: rest => statement.map f g :: Statement.mapList f g rest

def Arm.map (f : σ → τ) (g : ν → μ) : Arm σ ν → Arm τ μ
  | ⟨pattern, guard, body, last, span⟩ =>
      ⟨pattern.map f g, Expr.mapOption f g guard, body.map f g, last, f span⟩

def Arm.mapList (f : σ → τ) (g : ν → μ) : List (Arm σ ν) → List (Arm τ μ)
  | [] => []
  | arm :: rest => arm.map f g :: Arm.mapList f g rest

def ArmBody.map (f : σ → τ) (g : ν → μ) : ArmBody σ ν → ArmBody τ μ
  | .block body => .block (body.map f g)
  | .expr value => .expr (value.map f g)

end

def Item.map (f : σ → τ) (g : ν → μ) : Item σ ν → Item τ μ
  | .filter kind name parameters body span =>
      .filter kind (name.map f g) (TypeExpr.mapFields f g parameters) (body.map f g) (f span)
  | .function name parameters returns body span =>
      .function (name.map f g) (TypeExpr.mapFields f g parameters)
        (returns.map (TypeExpr.map f g)) (body.map f g) (f span)
  | .record name ⟨fields, inner⟩ span =>
      .record (name.map f g) ⟨TypeExpr.mapFields f g fields, f inner⟩ (f span)
  | .test name body span => .test (name.map f g) (body.map f g) (f span)
  | .import path span => .import (path.map f g) (f span)

def Script.map (f : σ → τ) (g : ν → μ) (script : Script σ ν) : Script τ μ :=
  ⟨script.items.map (Item.map f g), f script.span⟩

/-- The tree with the texts of its names in place of their symbols. -/
def Expr.resolve (names : Names) (expr : Expr σ Symbol) : Expr σ String :=
  expr.map id names.text

/-- The script with the texts of its names in place of their symbols. -/
def Script.resolve (names : Names) (script : Script σ Symbol) : Script σ String :=
  script.map id names.text

end FilterScript
