import FilterScript.Proofs.Lints.Reports
import FilterScript.Proofs.Parallel.Shape
import FilterScript.Tree.Map

/-!
# Trees that differ in their spans have the same lints

What is odd about a tree is told by the tags of its nodes alone. Whatever becomes of
its spans and its names, the tree keeps its shape, and with it the lints that are
reported for it.
-/

namespace FilterScript

variable {σ τ ν μ : Type} (f : σ → τ) (g : ν → μ)

/-! ## Shapes of changed trees -/

theorem Path.shape_map (path : Path σ ν) :
    (path.map f g).outline.shape = path.outline.shape := by
  simp [Path.map, Path.outline, Path.segments, Tag.shape]

theorem Pattern.shape_map (pattern : Pattern σ ν) :
    (pattern.map f g).outline.shape = pattern.outline.shape := by
  obtain ⟨path, bindings, span⟩ := pattern
  cases bindings <;> simp [Pattern.map, Pattern.outline, Path.shape_map, Tag.shape]

mutual

theorem TypeExpr.shape_map (type : TypeExpr σ ν) :
    (type.map f g).outline.shape = type.outline.shape := by
  match type with
  | .named path arguments _ =>
      simp [TypeExpr.map, TypeExpr.outline, Tag.shape, path.shape_map,
        TypeExpr.shapes_mapList arguments]
  | .optional inner _ => simp [TypeExpr.map, TypeExpr.outline, Tag.shape, TypeExpr.shape_map inner]
  | .never _ => simp [TypeExpr.map, TypeExpr.outline, Tag.shape]
  | .unit _ => simp [TypeExpr.map, TypeExpr.outline, Tag.shape]
  | .record ⟨fields, _⟩ =>
      simp [TypeExpr.map, TypeExpr.outline, Tag.shape, TypeExpr.shapes_mapFields fields]

theorem TypeExpr.shapes_mapList (types : List (TypeExpr σ ν)) :
    (TypeExpr.outlineList (TypeExpr.mapList f g types)).map Outline.shape =
      (TypeExpr.outlineList types).map Outline.shape := by
  match types with
  | [] => rfl
  | type :: rest =>
      simp [TypeExpr.mapList, TypeExpr.outlineList, TypeExpr.shape_map type,
        TypeExpr.shapes_mapList rest]

theorem TypeExpr.shapes_mapFields (fields : List (Field σ ν (TypeExpr σ ν))) :
    (TypeExpr.outlineFields (TypeExpr.mapFields f g fields)).map Outline.shape =
      (TypeExpr.outlineFields fields).map Outline.shape := by
  match fields with
  | [] => rfl
  | ⟨_, type, _⟩ :: rest =>
      simp [TypeExpr.mapFields, TypeExpr.outlineFields, Tag.shape, TypeExpr.shape_map type,
        TypeExpr.shapes_mapFields rest]

end

theorem Parameter.shapes_map (parameters : List (Parameter σ ν)) :
    ((TypeExpr.mapFields f g parameters).map Parameter.outline).map Outline.shape =
      (parameters.map Parameter.outline).map Outline.shape := by
  match parameters with
  | [] => rfl
  | ⟨_, type, _⟩ :: rest =>
      simpa [TypeExpr.mapFields, Parameter.outline, Tag.shape, TypeExpr.shape_map] using
        Parameter.shapes_map rest

mutual

theorem ImportPath.shape_map (path : ImportPath σ ν) :
    (path.map f g).outline.shape = path.outline.shape := by
  match path with
  | ⟨parts, _⟩ =>
      simp [ImportPath.map, ImportPath.outline, Tag.shape, ImportPart.shapes_mapList parts]

theorem ImportPart.shapes_mapList (parts : List (ImportPart σ ν)) :
    (ImportPart.outlineList (ImportPart.mapList f g parts)).map Outline.shape =
      (ImportPart.outlineList parts).map Outline.shape := by
  match parts with
  | [] => rfl
  | .name _ :: rest =>
      simp [ImportPart.mapList, ImportPart.outlineList, ImportPart.shapes_mapList rest]
  | .group members _ :: rest =>
      simp [ImportPart.mapList, ImportPart.outlineList, Tag.shape,
        ImportPath.shapes_mapList members, ImportPart.shapes_mapList rest]

theorem ImportPath.shapes_mapList (paths : List (ImportPath σ ν)) :
    (ImportPath.outlineList (ImportPath.mapList f g paths)).map Outline.shape =
      (ImportPath.outlineList paths).map Outline.shape := by
  match paths with
  | [] => rfl
  | path :: rest =>
      simp [ImportPath.mapList, ImportPath.outlineList, ImportPath.shape_map path,
        ImportPath.shapes_mapList rest]

end

mutual

theorem Expr.shape_map (expr : Expr σ ν) : (expr.map f g).outline.shape = expr.outline.shape := by
  match expr with
  | .literal _ _ => simp [Expr.map, Expr.outline, Tag.shape]
  | .path whole => simp [Expr.map, Expr.outline, Tag.shape, Path.shape_map]
  | .access receiver _ _ => simp [Expr.map, Expr.outline, Tag.shape, Expr.shape_map receiver]
  | .call callee arguments _ =>
      simp [Expr.map, Expr.outline, Tag.shape, Expr.shape_map callee, Expr.shapes_mapList arguments]
  | .record ⟨fields, _⟩ => simp [Expr.map, Expr.outline, Tag.shape, Expr.shapes_mapFields fields]
  | .typedRecord path ⟨fields, _⟩ _ =>
      simp [Expr.map, Expr.outline, Tag.shape, Path.shape_map, Expr.shapes_mapFields fields]
  | .unary _ operand _ => simp [Expr.map, Expr.outline, Tag.shape, Expr.shape_map operand]
  | .binary _ left right _ =>
      simp [Expr.map, Expr.outline, Tag.shape, Expr.shape_map left, Expr.shape_map right]
  | .question inner _ => simp [Expr.map, Expr.outline, Tag.shape, Expr.shape_map inner]
  | .exit _ value _ => simp [Expr.map, Expr.outline, Tag.shape, Expr.shapes_mapOption value]
  | .conditional condition consequence alternative _ =>
      simp [Expr.map, Expr.outline, Tag.shape, Expr.shape_map condition,
        Block.shape_map consequence, Alternative.shapes_mapOption alternative]
  | .loop condition body _ =>
      simp [Expr.map, Expr.outline, Tag.shape, Expr.shape_map condition, Block.shape_map body]
  | .select scrutinee arms _ =>
      simp [Expr.map, Expr.outline, Tag.shape, Expr.shape_map scrutinee, Arm.shapes_mapList arms]
  | .paren inner _ => simp [Expr.map, Expr.outline, Tag.shape, Expr.shape_map inner]

theorem Expr.shapes_mapList (exprs : List (Expr σ ν)) :
    (Expr.outlineList (Expr.mapList f g exprs)).map Outline.shape =
      (Expr.outlineList exprs).map Outline.shape := by
  match exprs with
  | [] => simp [Expr.mapList, Expr.outlineList]
  | expr :: rest =>
      simp [Expr.mapList, Expr.outlineList, Expr.shape_map expr, Expr.shapes_mapList rest]

theorem Expr.shapes_mapOption (expr : Option (Expr σ ν)) :
    (Expr.outlineOption (Expr.mapOption f g expr)).map Outline.shape =
      (Expr.outlineOption expr).map Outline.shape := by
  match expr with
  | none => simp [Expr.mapOption, Expr.outlineOption]
  | some expr => simp [Expr.mapOption, Expr.outlineOption, Expr.shape_map expr]

theorem Expr.shapes_mapFields (fields : List (Field σ ν (Expr σ ν))) :
    (Expr.outlineFields (Expr.mapFields f g fields)).map Outline.shape =
      (Expr.outlineFields fields).map Outline.shape := by
  match fields with
  | [] => simp [Expr.mapFields, Expr.outlineFields]
  | ⟨_, value, _⟩ :: rest =>
      simp [Expr.mapFields, Expr.outlineFields, Tag.shape, Expr.shape_map value,
        Expr.shapes_mapFields rest]

theorem Alternative.shapes_mapOption (alternative : Option (Alternative σ ν)) :
    (Alternative.outlineOption (Alternative.mapOption f g alternative)).map Outline.shape =
      (Alternative.outlineOption alternative).map Outline.shape := by
  match alternative with
  | none => simp [Alternative.mapOption, Alternative.outlineOption]
  | some (.block body) =>
      simp [Alternative.mapOption, Alternative.outlineOption, Block.shape_map body]
  | some (.conditional next) =>
      simp [Alternative.mapOption, Alternative.outlineOption, Expr.shape_map next]

theorem Block.shape_map (block : Block σ ν) :
    (block.map f g).outline.shape = block.outline.shape := by
  match block with
  | ⟨statements, tail, _⟩ =>
      have htail : (Expr.mapOption f g tail).isSome = tail.isSome := by
        cases tail <;> simp [Expr.mapOption]
      simp [Block.map, Block.outline, Tag.shape, htail, Statement.shapes_mapList statements,
        Expr.shapes_mapOption tail]

theorem Statement.shape_map (statement : Statement σ ν) :
    (statement.map f g).outline.shape = statement.outline.shape := by
  match statement with
  | .import path _ => simp [Statement.map, Statement.outline, Tag.shape, ImportPath.shape_map]
  | .binding _ type value _ =>
      cases type <;>
        simp [Statement.map, Statement.outline, Tag.shape, TypeExpr.shape_map, Expr.shape_map value]
  | .expr value _ => simp [Statement.map, Statement.outline, Tag.shape, Expr.shape_map value]
  | .control value => simp [Statement.map, Statement.outline, Tag.shape, Expr.shape_map value]

theorem Statement.shapes_mapList (statements : List (Statement σ ν)) :
    (Statement.outlineList (Statement.mapList f g statements)).map Outline.shape =
      (Statement.outlineList statements).map Outline.shape := by
  match statements with
  | [] => simp [Statement.mapList, Statement.outlineList]
  | statement :: rest =>
      simp [Statement.mapList, Statement.outlineList, Statement.shape_map statement,
        Statement.shapes_mapList rest]

theorem Arm.shape_map (arm : Arm σ ν) : (arm.map f g).outline.shape = arm.outline.shape := by
  match arm with
  | ⟨pattern, guard, body, _, _⟩ =>
      have hguard : (Expr.mapOption f g guard).isSome = guard.isSome := by
        cases guard <;> simp [Expr.mapOption]
      simp [Arm.map, Arm.outline, Tag.shape, hguard, Pattern.shape_map,
        Expr.shapes_mapOption guard, ArmBody.shape_map body]

theorem Arm.shapes_mapList (arms : List (Arm σ ν)) :
    (Arm.outlineList (Arm.mapList f g arms)).map Outline.shape =
      (Arm.outlineList arms).map Outline.shape := by
  match arms with
  | [] => simp [Arm.mapList, Arm.outlineList]
  | arm :: rest => simp [Arm.mapList, Arm.outlineList, Arm.shape_map arm, Arm.shapes_mapList rest]

theorem ArmBody.shape_map (body : ArmBody σ ν) :
    (body.map f g).outline.shape = body.outline.shape := by
  match body with
  | .block body => simp [ArmBody.map, ArmBody.outline, Block.shape_map body]
  | .expr value => simp [ArmBody.map, ArmBody.outline, Expr.shape_map value]

end

theorem Item.shape_map (item : Item σ ν) : (item.map f g).outline.shape = item.outline.shape := by
  match item with
  | .filter _ _ parameters body _ =>
      have hparameters := Parameter.shapes_map f g parameters
      simp only [List.map_map] at hparameters
      simp [Item.map, Item.outline, Tag.shape, hparameters, Block.shape_map]
  | .function _ parameters returns body _ =>
      have hparameters := Parameter.shapes_map f g parameters
      simp only [List.map_map] at hparameters
      cases returns <;>
        simp [Item.map, Item.outline, Tag.shape, hparameters, TypeExpr.shape_map, Block.shape_map]
  | .record _ ⟨fields, _⟩ _ =>
      simp [Item.map, Item.outline, Tag.shape, TypeExpr.shapes_mapFields f g fields]
  | .test _ body _ => simp [Item.map, Item.outline, Tag.shape, Block.shape_map]
  | .import path _ => simp [Item.map, Item.outline, Tag.shape, ImportPath.shape_map]

theorem Script.shape_map (script : Script σ ν) :
    (script.map f g).outline.shape = script.outline.shape := by
  simp [Script.map, Script.outline, Tag.shape, Item.shape_map]

/-! ## Lints -/

namespace Outline

/-- The lint of a node with this shape. -/
def shapeLint? : Outline Unit Unit → Option Lint
  | node .select _ [_] => some .emptyMatch
  | node .optionalType _ [node .optionalType _ _] => some .redundantOptional
  | _ => none

theorem lint?_eq_shapeLint? (outline : Outline Span ν) :
    outline.lint?.map Warning.lint = outline.shape.shapeLint? := by
  obtain ⟨tag, span, children⟩ := outline
  rw [shape_node]
  cases tag with
  | select => rcases children with _ | ⟨first, _ | ⟨second, rest⟩⟩ <;> rfl
  | optionalType =>
      rcases children with _ | ⟨⟨tag, _, _⟩, _ | ⟨second, rest⟩⟩
      · rfl
      · rw [List.map_singleton, shape_node]
        cases tag <;> rfl
      · rw [List.map_cons, shape_node]
        cases tag <;> rfl
  | _ => rfl

mutual

/-- Trees of one shape have the same lints in the same order. -/
theorem lints_eq_of_shape (outline : Outline Span ν) (other : Outline Span μ)
    (h : outline.shape = other.shape) :
    outline.reports.map Warning.lint = other.reports.map Warning.lint := by
  match outline, other with
  | .node tag span children, .node tag' span' children' =>
      have hlint : (node tag span children).lint?.map Warning.lint =
          (node tag' span' children').lint?.map Warning.lint := by
        rw [lint?_eq_shapeLint?, lint?_eq_shapeLint?, h]
      rw [shape_node, shape_node, Outline.node.injEq] at h
      have hlints : (node tag span children).lint?.toList.map Warning.lint =
          (node tag' span' children').lint?.toList.map Warning.lint := by
        rw [← Option.toList_map, ← Option.toList_map, hlint]
      rw [reports, reports, List.map_append, List.map_append, hlints,
        listLints_eq_of_shape children children' h.2.2]

theorem listLints_eq_of_shape (outlines : List (Outline Span ν)) (others : List (Outline Span μ))
    (h : outlines.map shape = others.map shape) :
    (reportsList outlines).map Warning.lint = (reportsList others).map Warning.lint := by
  match outlines, others with
  | [], [] => rfl
  | outline :: rest, other :: rest' =>
      rw [List.map_cons, List.map_cons, List.cons.injEq] at h
      rw [reportsList_cons, reportsList_cons, List.map_append, List.map_append,
        lints_eq_of_shape outline other h.1, listLints_eq_of_shape rest rest' h.2]

end

end Outline

end FilterScript
