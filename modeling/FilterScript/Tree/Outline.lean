import FilterScript.Tree.Item

/-! # Outlines

An outline is the tree seen uniformly: every node, whatever its type, has a tag,
a note and a list of children in the order in which they are written. It leaves
nothing out, and one recursion walks over all of it.
-/

namespace FilterScript

/-- What sort of node one looks at, with all that it holds besides its
children. -/
inductive Tag (σ ν : Type) where
  | script
  | filter (kind : FilterKind)
  | function
  | recordItem
  | test
  | importItem (path : ImportPath σ ν)
  | importStatement (path : ImportPath σ ν)
  | parameter
  | ident (name : ν) (raw : Bool)
  | path
  | importPath
  | group
  | namedType
  | optionalType
  | neverType
  | unitType
  | recordType
  | typeFields
  | typeField
  | block (tail : Bool)
  | binding
  | exprStatement
  | controlStatement
  | literal (value : Literal)
  | pathExpr
  | access
  | call
  | recordExpr
  | typedRecord
  | fields
  | field
  | unary (op : UnaryOp)
  | binary (op : BinaryOp)
  | question
  | paren
  | exit (kind : ExitKind)
  | conditional
  | loop
  | select
  | arm (guarded last : Bool)
  | pattern (bindings : Option Nat)

/-- A node with its tag, its note and its children. -/
inductive Outline (σ ν : Type) where
  | node (tag : Tag σ ν) (note : σ) (children : List (Outline σ ν))

variable {σ ν : Type}

def Ident.outline (ident : Ident σ ν) : Outline σ ν :=
  .node (.ident ident.name ident.raw) ident.span []

def Path.outline (path : Path σ ν) : Outline σ ν :=
  .node .path path.span (path.segments.map Ident.outline)

def Pattern.outline (pattern : Pattern σ ν) : Outline σ ν :=
  .node (.pattern (pattern.bindings.map List.length)) pattern.span
    (pattern.path.outline :: (pattern.bindings.getD []).map Ident.outline)

mutual

def TypeExpr.outline : TypeExpr σ ν → Outline σ ν
  | .named path arguments span =>
      .node .namedType span (path.outline :: TypeExpr.outlineList arguments)
  | .optional inner span => .node .optionalType span [inner.outline]
  | .never span => .node .neverType span []
  | .unit span => .node .unitType span []
  | .record ⟨fields, span⟩ =>
      .node .recordType span [.node .typeFields span (TypeExpr.outlineFields fields)]

def TypeExpr.outlineList : List (TypeExpr σ ν) → List (Outline σ ν)
  | [] => []
  | type :: rest => type.outline :: TypeExpr.outlineList rest

def TypeExpr.outlineFields : List (Field σ ν (TypeExpr σ ν)) → List (Outline σ ν)
  | [] => []
  | ⟨name, type, span⟩ :: rest =>
      .node .typeField span [name.outline, type.outline] :: TypeExpr.outlineFields rest

end

def Parameter.outline (parameter : Parameter σ ν) : Outline σ ν :=
  .node .parameter parameter.span [parameter.name.outline, parameter.value.outline]

mutual

def ImportPath.outline : ImportPath σ ν → Outline σ ν
  | ⟨parts, span⟩ => .node .importPath span (ImportPart.outlineList parts)

def ImportPart.outlineList : List (ImportPart σ ν) → List (Outline σ ν)
  | [] => []
  | .name ident :: rest => ident.outline :: ImportPart.outlineList rest
  | .group members span :: rest =>
      .node .group span (ImportPath.outlineList members) :: ImportPart.outlineList rest

def ImportPath.outlineList : List (ImportPath σ ν) → List (Outline σ ν)
  | [] => []
  | path :: rest => path.outline :: ImportPath.outlineList rest

end

mutual

def Expr.outline : Expr σ ν → Outline σ ν
  | .literal value span => .node (.literal value) span []
  | .path whole => .node .pathExpr whole.span [whole.outline]
  | .access receiver field span => .node .access span [receiver.outline, field.outline]
  | .call callee arguments span =>
      .node .call span (callee.outline :: Expr.outlineList arguments)
  | .record ⟨fields, span⟩ =>
      .node .recordExpr span [.node .fields span (Expr.outlineFields fields)]
  | .typedRecord path ⟨fields, inner⟩ span =>
      .node .typedRecord span [path.outline, .node .fields inner (Expr.outlineFields fields)]
  | .unary op operand span => .node (.unary op) span [operand.outline]
  | .binary op left right span => .node (.binary op) span [left.outline, right.outline]
  | .question inner span => .node .question span [inner.outline]
  | .exit kind value span => .node (.exit kind) span (Expr.outlineOption value)
  | .conditional condition consequence alternative span =>
      .node .conditional span
        (condition.outline :: consequence.outline :: Alternative.outlineOption alternative)
  | .loop condition body span => .node .loop span [condition.outline, body.outline]
  | .select scrutinee arms span =>
      .node .select span (scrutinee.outline :: Arm.outlineList arms)
  | .paren inner span => .node .paren span [inner.outline]

def Expr.outlineList : List (Expr σ ν) → List (Outline σ ν)
  | [] => []
  | expr :: rest => expr.outline :: Expr.outlineList rest

def Expr.outlineOption : Option (Expr σ ν) → List (Outline σ ν)
  | none => []
  | some expr => [expr.outline]

def Expr.outlineFields : List (Field σ ν (Expr σ ν)) → List (Outline σ ν)
  | [] => []
  | ⟨name, value, span⟩ :: rest =>
      .node .field span [name.outline, value.outline] :: Expr.outlineFields rest

def Alternative.outlineOption : Option (Alternative σ ν) → List (Outline σ ν)
  | none => []
  | some (.block body) => [body.outline]
  | some (.conditional next) => [next.outline]

def Block.outline : Block σ ν → Outline σ ν
  | ⟨statements, tail, span⟩ =>
      .node (.block tail.isSome) span
        (Statement.outlineList statements ++ Expr.outlineOption tail)

def Statement.outline : Statement σ ν → Outline σ ν
  | .import path span => .node (.importStatement path) span [path.outline]
  | .binding name type value span =>
      .node .binding span
        (name.outline :: (type.map TypeExpr.outline).toList ++ [value.outline])
  | .expr value span => .node .exprStatement span [value.outline]
  | .control value => .node .controlStatement value.span [value.outline]

def Statement.outlineList : List (Statement σ ν) → List (Outline σ ν)
  | [] => []
  | statement :: rest => statement.outline :: Statement.outlineList rest

def Arm.outline : Arm σ ν → Outline σ ν
  | ⟨pattern, guard, body, last, span⟩ =>
      .node (.arm guard.isSome last) span
        (pattern.outline :: Expr.outlineOption guard ++ [body.outline])

def Arm.outlineList : List (Arm σ ν) → List (Outline σ ν)
  | [] => []
  | arm :: rest => arm.outline :: Arm.outlineList rest

def ArmBody.outline : ArmBody σ ν → Outline σ ν
  | .block body => body.outline
  | .expr value => value.outline

end

def Item.outline : Item σ ν → Outline σ ν
  | .filter kind name parameters body span =>
      .node (.filter kind) span
        (name.outline :: parameters.map Parameter.outline ++ [body.outline])
  | .function name parameters returns body span =>
      .node .function span
        (name.outline :: parameters.map Parameter.outline ++
          (returns.map TypeExpr.outline).toList ++ [body.outline])
  | .record name ⟨fields, inner⟩ span =>
      .node .recordItem span
        [name.outline, .node .typeFields inner (TypeExpr.outlineFields fields)]
  | .test name body span => .node .test span [name.outline, body.outline]
  | .import path span => .node (.importItem path) span [path.outline]

def Script.outline (script : Script σ ν) : Outline σ ν :=
  .node .script script.span (script.items.map Item.outline)

namespace Outline

mutual

/-- Every node with its depth, a node before its children. -/
def preorder (depth : Nat) : Outline σ ν → List (Nat × Tag σ ν × σ)
  | node tag note children => (depth, tag, note) :: preorderList (depth + 1) children

def preorderList (depth : Nat) : List (Outline σ ν) → List (Nat × Tag σ ν × σ)
  | [] => []
  | outline :: rest => outline.preorder depth ++ preorderList depth rest

end

/-- The import paths of all import items and statements, in the order they are
written. -/
def imports (outline : Outline σ ν) : List (ImportPath σ ν) :=
  (outline.preorder 0).filterMap fun (_, tag, _) =>
    match tag with
    | .importItem path | .importStatement path => some path
    | _ => none

end Outline

end FilterScript
