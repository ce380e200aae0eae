import FilterScript.Tree.Map
import FilterScript.Tree.Render

/-!
# Notes are not written

What is noted at the nodes of a tree does not show in its text: two trees that
differ in their notes only have the same.
-/

namespace FilterScript

variable {σ τ ρ ν : Type} (f : σ → τ) (f' : σ → ρ) (g : ν → String)

theorem Ident.render_map (ident : Ident σ ν) :
    (ident.map f g).render = (ident.map f' g).render := rfl

theorem Path.render_map (path : Path σ ν) : (path.map f g).render = (path.map f' g).render := by
  simp [Path.render, Path.segments, Path.map, Function.comp_def, Ident.render_map f f']

theorem Pattern.render_map (pattern : Pattern σ ν) :
    (pattern.map f g).render = (pattern.map f' g).render := by
  obtain ⟨path, bindings, span⟩ := pattern
  cases bindings <;>
    simp [Pattern.render, Pattern.map, Path.render_map f f', Function.comp_def,
      Ident.render_map f f']

mutual

theorem TypeExpr.render_map (type : TypeExpr σ ν) :
    (type.map f g).render = (type.map f' g).render := by
  match type with
  | .named path [] _ => simp [TypeExpr.map, TypeExpr.mapList, TypeExpr.render, Path.render_map f f']
  | .named path (first :: rest) _ =>
      simp [TypeExpr.map, TypeExpr.mapList, TypeExpr.render, TypeExpr.renderList,
        Path.render_map f f', TypeExpr.render_map first, TypeExpr.renderList_map rest]
  | .optional inner _ => simp [TypeExpr.map, TypeExpr.render, TypeExpr.render_map inner]
  | .never _ => rfl
  | .unit _ => rfl
  | .record ⟨fields, _⟩ => simp [TypeExpr.map, TypeExpr.render, TypeExpr.renderFields_map fields]

theorem TypeExpr.renderList_map (types : List (TypeExpr σ ν)) :
    TypeExpr.renderList (TypeExpr.mapList f g types) =
      TypeExpr.renderList (TypeExpr.mapList f' g types) := by
  match types with
  | [] => rfl
  | type :: rest =>
      simp [TypeExpr.mapList, TypeExpr.renderList, TypeExpr.render_map type,
        TypeExpr.renderList_map rest]

theorem TypeExpr.renderFields_map (fields : List (Field σ ν (TypeExpr σ ν))) :
    TypeExpr.renderFields (TypeExpr.mapFields f g fields) =
      TypeExpr.renderFields (TypeExpr.mapFields f' g fields) := by
  match fields with
  | [] => rfl
  | ⟨name, type, _⟩ :: rest =>
      simp [TypeExpr.mapFields, TypeExpr.renderFields, Ident.render_map f f' g name,
        TypeExpr.render_map type, TypeExpr.renderFields_map rest]

end

mutual

theorem ImportPath.render_map (path : ImportPath σ ν) :
    (path.map f g).render = (path.map f' g).render := by
  match path with
  | ⟨parts, _⟩ => simp [ImportPath.map, ImportPath.render, ImportPart.renderList_map parts]

theorem ImportPart.renderList_map (parts : List (ImportPart σ ν)) :
    ImportPart.renderList (ImportPart.mapList f g parts) =
      ImportPart.renderList (ImportPart.mapList f' g parts) := by
  match parts with
  | [] => simp [ImportPart.mapList, ImportPart.renderList]
  | .name ident :: rest =>
      simp [ImportPart.mapList, ImportPart.renderList, Ident.render_map f f' g ident,
        ImportPart.renderList_map rest]
  | .group members _ :: rest =>
      simp [ImportPart.mapList, ImportPart.renderList, ImportPath.renderList_map members,
        ImportPart.renderList_map rest]

theorem ImportPath.renderList_map (paths : List (ImportPath σ ν)) :
    ImportPath.renderList (ImportPath.mapList f g paths) =
      ImportPath.renderList (ImportPath.mapList f' g paths) := by
  match paths with
  | [] => simp [ImportPath.mapList, ImportPath.renderList]
  | path :: rest =>
      simp [ImportPath.mapList, ImportPath.renderList, ImportPath.render_map path,
        ImportPath.renderList_map rest]

end

mutual

theorem Expr.written_map (expr : Expr σ ν) : (expr.map f g).written = (expr.map f' g).written := by
  match expr with
  | .literal _ _ => rfl
  | .path whole => simp [Expr.map, Expr.written, Path.render_map f f' g whole]
  | .access receiver field _ =>
      simp [Expr.map, Expr.written, Expr.written_map receiver, Ident.render_map f f' g field]
  | .call callee arguments _ =>
      simp [Expr.map, Expr.written, Expr.written_map callee, Expr.renderList_map arguments]
  | .record ⟨fields, _⟩ => simp [Expr.map, Expr.written, Expr.renderFields_map fields]
  | .typedRecord path ⟨fields, _⟩ _ =>
      simp [Expr.map, Expr.written, Path.render_map f f' g path, Expr.renderFields_map fields]
  | .unary _ operand _ => simp [Expr.map, Expr.written, Expr.written_map operand]
  | .binary _ left right _ =>
      simp [Expr.map, Expr.written, Expr.written_map left, Expr.written_map right]
  | .question inner _ => simp [Expr.map, Expr.written, Expr.written_map inner]
  | .exit _ value _ => simp [Expr.map, Expr.written, Expr.renderOption_map value]
  | .conditional condition consequence alternative _ =>
      simp [Expr.map, Expr.written, Expr.written_map condition, Block.words_map consequence,
        Alternative.renderOption_map alternative]
  | .loop condition body _ =>
      simp [Expr.map, Expr.written, Expr.written_map condition, Block.words_map body]
  | .select scrutinee arms _ =>
      simp [Expr.map, Expr.written, Expr.written_map scrutinee, Arm.renderList_map arms]
  | .paren inner _ => simp [Expr.map, Expr.written, Expr.written_map inner]

theorem Expr.renderList_map (exprs : List (Expr σ ν)) :
    Expr.renderList (Expr.mapList f g exprs) = Expr.renderList (Expr.mapList f' g exprs) := by
  match exprs with
  | [] => simp [Expr.mapList, Expr.renderList]
  | expr :: rest =>
      simp [Expr.mapList, Expr.renderList, Expr.written_map expr, Expr.renderList_map rest]

theorem Expr.renderOption_map (expr : Option (Expr σ ν)) :
    Expr.renderOption (Expr.mapOption f g expr) = Expr.renderOption (Expr.mapOption f' g expr) := by
  match expr with
  | none => simp [Expr.mapOption, Expr.renderOption]
  | some expr => simp [Expr.mapOption, Expr.renderOption, Expr.written_map expr]

theorem Expr.renderFields_map (fields : List (Field σ ν (Expr σ ν))) :
    Expr.renderFields (Expr.mapFields f g fields) =
      Expr.renderFields (Expr.mapFields f' g fields) := by
  match fields with
  | [] => simp [Expr.mapFields, Expr.renderFields]
  | ⟨name, value, _⟩ :: rest =>
      simp [Expr.mapFields, Expr.renderFields, Ident.render_map f f' g name, Expr.written_map value,
        Expr.renderFields_map rest]

theorem Alternative.renderOption_map (alternative : Option (Alternative σ ν)) :
    Alternative.renderOption (Alternative.mapOption f g alternative) =
      Alternative.renderOption (Alternative.mapOption f' g alternative) := by
  match alternative with
  | none => simp [Alternative.mapOption, Alternative.renderOption]
  | some (.block body) =>
      simp [Alternative.mapOption, Alternative.renderOption, Block.words_map body]
  | some (.conditional next) =>
      simp [Alternative.mapOption, Alternative.renderOption, Expr.written_map next]

theorem Block.words_map (block : Block σ ν) : (block.map f g).words = (block.map f' g).words := by
  match block with
  | ⟨statements, none, _⟩ =>
      simp [Block.map, Block.words, Expr.mapOption, Expr.renderTail,
        Statement.renderList_map statements]
  | ⟨statements, some tail, _⟩ =>
      simp [Block.map, Block.words, Expr.mapOption, Expr.renderTail,
        Statement.renderList_map statements, Expr.written_map tail]

theorem Statement.written_map (statement : Statement σ ν) :
    (statement.map f g).written = (statement.map f' g).written := by
  match statement with
  | .import path _ => simp [Statement.map, Statement.written, ImportPath.render_map f f' g path]
  | .binding name type value _ =>
      cases type <;>
        simp [Statement.map, Statement.written, Ident.render_map f f' g name,
          TypeExpr.render_map f f', Expr.written_map value]
  | .expr value _ => simp [Statement.map, Statement.written, Expr.written_map value]
  | .control value => simp [Statement.map, Statement.written, Expr.written_map value]

theorem Statement.renderList_map (statements : List (Statement σ ν)) :
    Statement.renderList (Statement.mapList f g statements) =
      Statement.renderList (Statement.mapList f' g statements) := by
  match statements with
  | [] => simp [Statement.mapList, Statement.renderList]
  | statement :: rest =>
      simp [Statement.mapList, Statement.renderList, Statement.written_map statement,
        Statement.renderList_map rest]

theorem Arm.words_map (arm : Arm σ ν) : (arm.map f g).words = (arm.map f' g).words := by
  match arm with
  | ⟨pattern, none, body, _, _⟩ =>
      simp [Arm.map, Arm.words, Expr.mapOption, Pattern.render_map f f' g pattern,
        ArmBody.render_map body]
  | ⟨pattern, some guard, body, _, _⟩ =>
      simp [Arm.map, Arm.words, Expr.mapOption, Pattern.render_map f f' g pattern,
        Expr.written_map guard, ArmBody.render_map body]

theorem Arm.renderList_map (arms : List (Arm σ ν)) :
    Arm.renderList (Arm.mapList f g arms) = Arm.renderList (Arm.mapList f' g arms) := by
  match arms with
  | [] => simp [Arm.mapList, Arm.renderList]
  | arm :: rest => simp [Arm.mapList, Arm.renderList, Arm.words_map arm, Arm.renderList_map rest]

theorem ArmBody.render_map (body : ArmBody σ ν) :
    (body.map f g).render = (body.map f' g).render := by
  match body with
  | .block body => simp [ArmBody.map, ArmBody.render, Block.words_map body]
  | .expr value => simp [ArmBody.map, ArmBody.render, Expr.written_map value]

end

theorem Block.render_map (block : Block σ ν) : (block.map f g).render = (block.map f' g).render :=
  congrArg listForm (block.words_map f f' g)

theorem renderParameters_map (parameters : List (Parameter σ ν)) :
    renderParameters (TypeExpr.mapFields f g parameters) =
      renderParameters (TypeExpr.mapFields f' g parameters) := by
  unfold renderParameters
  congr 1
  induction parameters with
  | nil => rfl
  | cons first rest ih =>
      rw [TypeExpr.mapFields, TypeExpr.mapFields, List.map_cons, List.map_cons, ih]
      simp only [Parameter.render, Parameter.words, Ident.render_map f f', TypeExpr.render_map f f']

theorem Item.words_map (item : Item σ ν) : (item.map f g).words = (item.map f' g).words := by
  match item with
  | .filter _ name parameters body _ =>
      simp [Item.map, Item.words, Ident.render_map f f' g name,
        renderParameters_map f f' g parameters, Block.render_map f f' g body]
  | .function name parameters returns body _ =>
      cases returns <;>
        simp [Item.map, Item.words, Ident.render_map f f' g name,
          renderParameters_map f f' g parameters, TypeExpr.render_map f f',
          Block.render_map f f' g body]
  | .record name ⟨fields, _⟩ _ =>
      simp [Item.map, Item.words, Ident.render_map f f' g name,
        TypeExpr.renderFields_map f f' g fields]
  | .test name body _ =>
      simp [Item.map, Item.words, Ident.render_map f f' g name, Block.render_map f f' g body]
  | .import path _ => simp [Item.map, Item.words, ImportPath.render_map f f' g path]

theorem Script.render_map (script : Script σ ν) :
    (script.map f g).render = (script.map f' g).render := by
  simp [Script.render, Script.map, Function.comp_def, Item.render, Item.words_map f f']

end FilterScript
