import FilterScript.Proofs.Completeness.Blocks
import FilterScript.Tree.Map

/-!
# Facts about a tree are facts about its shape

How many levels a tree opens, whether its parts fit where they stand and how it
is written do not change when its spans are forgotten and its symbols are turned
into the texts they stand for.
-/

namespace FilterScript

variable {σ τ ν μ : Type} (f : σ → τ) (g : ν → μ)

/-! ## Levels -/

mutual

theorem TypeExpr.levels_map (type : TypeExpr σ ν) : (type.map f g).levels = type.levels := by
  match type with
  | .named _ arguments _ => simp [TypeExpr.levelsList_map arguments]
  | .optional inner _ => simp [TypeExpr.levels_map inner]
  | .never _ => rfl
  | .unit _ => rfl
  | .record ⟨fields, _⟩ => simp [TypeExpr.levelsFields_map fields]

theorem TypeExpr.levelsList_map (types : List (TypeExpr σ ν)) :
    TypeExpr.levelsList (TypeExpr.mapList f g types) = TypeExpr.levelsList types := by
  match types with
  | [] => rfl
  | type :: rest =>
      simp [TypeExpr.mapList, TypeExpr.levelsList, TypeExpr.levels_map type,
        TypeExpr.levelsList_map rest]

theorem TypeExpr.levelsFields_map (fields : List (Field σ ν (TypeExpr σ ν))) :
    TypeExpr.levelsFields (TypeExpr.mapFields f g fields) = TypeExpr.levelsFields fields := by
  match fields with
  | [] => rfl
  | ⟨_, type, _⟩ :: rest =>
      simp [TypeExpr.mapFields, TypeExpr.levelsFields, TypeExpr.levels_map type,
        TypeExpr.levelsFields_map rest]

end

mutual

theorem ImportPath.levels_map (path : ImportPath σ ν) : (path.map f g).levels = path.levels := by
  match path with
  | ⟨parts, _⟩ => simp [ImportPart.levelsList_map parts]

theorem ImportPart.levelsList_map (parts : List (ImportPart σ ν)) :
    ImportPart.levelsList (ImportPart.mapList f g parts) = ImportPart.levelsList parts := by
  match parts with
  | [] => rfl
  | .name _ :: rest => simp [ImportPart.levelsList_map rest]
  | .group members _ :: rest =>
      simp [ImportPath.levelsList_map members, ImportPart.levelsList_map rest]

theorem ImportPath.levelsList_map (paths : List (ImportPath σ ν)) :
    ImportPath.levelsList (ImportPath.mapList f g paths) = ImportPath.levelsList paths := by
  match paths with
  | [] => rfl
  | path :: rest =>
      simp [ImportPath.mapList, ImportPath.levelsList, ImportPath.levels_map path,
        ImportPath.levelsList_map rest]

end

theorem Expr.beginsWithControl_map (expr : Expr σ ν) :
    (expr.map f g).beginsWithControl = expr.beginsWithControl := by
  match expr with
  | .access receiver _ _ => simp [receiver.beginsWithControl_map]
  | .call callee _ _ => simp [callee.beginsWithControl_map]
  | .question inner _ => simp [inner.beginsWithControl_map]
  | .binary _ left _ _ => simp [left.beginsWithControl_map]
  | .record ⟨_, _⟩ | .typedRecord _ ⟨_, _⟩ _ => simp
  | .literal .. | .path _ | .unary .. | .exit .. | .conditional .. | .loop .. | .select ..
  | .paren .. => simp

mutual

theorem Expr.levels_map (expr : Expr σ ν) : (expr.map f g).levels = expr.levels := by
  match expr with
  | .literal _ _ => simp
  | .path _ => simp
  | .access receiver _ _ => simp [Expr.levels_map receiver]
  | .call callee arguments _ => simp [Expr.levels_map callee, Expr.levelsList_map arguments]
  | .record ⟨fields, _⟩ => simp [Expr.levelsFields_map fields]
  | .typedRecord _ ⟨fields, _⟩ _ => simp [Expr.levelsFields_map fields]
  | .unary _ operand _ => simp [Expr.levels_map operand]
  | .binary _ left right _ => simp [Expr.levels_map left, Expr.levels_map right]
  | .question inner _ => simp [Expr.levels_map inner]
  | .exit _ value _ => simp [Expr.levelsOption_map value]
  | .conditional condition consequence alternative _ =>
      simp [Expr.levels_map condition, Block.levels_map consequence,
        Alternative.levelsOption_map alternative]
  | .loop condition body _ => simp [Expr.levels_map condition, Block.levels_map body]
  | .select scrutinee arms _ => simp [Expr.levels_map scrutinee, Arm.levelsList_map arms]
  | .paren inner _ => simp [Expr.levels_map inner]

theorem Expr.levelsList_map (exprs : List (Expr σ ν)) :
    Expr.levelsList (Expr.mapList f g exprs) = Expr.levelsList exprs := by
  match exprs with
  | [] => simp [Expr.mapList, Expr.levelsList]
  | expr :: rest =>
      simp [Expr.mapList, Expr.levelsList, Expr.levels_map expr, Expr.levelsList_map rest]

theorem Expr.levelsOption_map (expr : Option (Expr σ ν)) :
    Expr.levelsOption (Expr.mapOption f g expr) = Expr.levelsOption expr := by
  match expr with
  | none => simp
  | some expr => simp [Expr.levels_map expr]

theorem Expr.levelsFields_map (fields : List (Field σ ν (Expr σ ν))) :
    Expr.levelsFields (Expr.mapFields f g fields) = Expr.levelsFields fields := by
  match fields with
  | [] => simp [Expr.mapFields, Expr.levelsFields]
  | ⟨_, value, _⟩ :: rest =>
      simp [Expr.mapFields, Expr.levelsFields, Expr.levels_map value, Expr.levelsFields_map rest]

theorem Alternative.levelsOption_map (alternative : Option (Alternative σ ν)) :
    Alternative.levelsOption (Alternative.mapOption f g alternative) =
      Alternative.levelsOption alternative := by
  match alternative with
  | none => simp
  | some (.block body) => simp [Block.levels_map body]
  | some (.conditional next) => simp [Expr.levels_map next]

theorem Block.levels_map (block : Block σ ν) : (block.map f g).levels = block.levels := by
  match block with
  | ⟨statements, tail, _⟩ => simp [Statement.levelsList_map statements, Expr.levelsOfTail_map tail]

theorem Expr.levelsOfTail_map (tail : Option (Expr σ ν)) :
    Expr.levelsOfTail (Expr.mapOption f g tail) = Expr.levelsOfTail tail := by
  match tail with
  | none => simp
  | some expr => simp [Expr.levels_map expr, Expr.beginsWithControl_map]

theorem Statement.levels_map (statement : Statement σ ν) :
    (statement.map f g).levels = statement.levels := by
  match statement with
  | .import path _ => simp [ImportPath.levels_map f g path]
  | .binding _ type value _ =>
      cases type <;> simp [TypeExpr.levels_map, Expr.levels_map value]
  | .expr value _ => simp [Expr.levels_map value, Expr.beginsWithControl_map]
  | .control value => simp [Expr.levels_map value]

theorem Statement.levelsList_map (statements : List (Statement σ ν)) :
    Statement.levelsList (Statement.mapList f g statements) = Statement.levelsList statements := by
  match statements with
  | [] => simp [Statement.mapList, Statement.levelsList]
  | statement :: rest =>
      simp [Statement.mapList, Statement.levelsList, Statement.levels_map statement,
        Statement.levelsList_map rest]

theorem Arm.levels_map (arm : Arm σ ν) : (arm.map f g).levels = arm.levels := by
  match arm with
  | ⟨_, guard, body, _, _⟩ => simp [Expr.levelsOption_map guard, ArmBody.levels_map body]

theorem Arm.levelsList_map (arms : List (Arm σ ν)) :
    Arm.levelsList (Arm.mapList f g arms) = Arm.levelsList arms := by
  match arms with
  | [] => simp [Arm.mapList, Arm.levelsList]
  | arm :: rest => simp [Arm.mapList, Arm.levelsList, Arm.levels_map arm, Arm.levelsList_map rest]

theorem ArmBody.levels_map (body : ArmBody σ ν) : (body.map f g).levels = body.levels := by
  match body with
  | .block body => simp [Block.levels_map body]
  | .expr value => simp [Expr.levels_map value]

end

theorem Item.levels_map (item : Item σ ν) : (item.map f g).levels = item.levels := by
  match item with
  | .filter _ _ parameters body _ =>
      simp [Item.map, Item.levels, TypeExpr.levelsFields_map, Block.levels_map]
  | .function _ parameters returns body _ =>
      cases returns <;>
        simp [Item.map, Item.levels, TypeExpr.levelsFields_map, TypeExpr.levels_map, Block.levels_map]
  | .record _ ⟨fields, _⟩ _ => simp [Item.map, Item.levels, TypeExpr.levelsFields_map]
  | .test _ body _ => simp [Item.map, Item.levels, Block.levels_map]
  | .import path _ => simp [Item.map, Item.levels, ImportPath.levels_map]

theorem Script.nest_map (script : Script σ ν) : (script.map f g).nest = script.nest := by
  obtain ⟨items, span⟩ := script
  unfold Script.map Script.nest
  induction items with
  | nil => rfl
  | cons item rest ih =>
      simp only [List.map_cons, most, Item.levels_map]
      exact congrArg (max item.levels) ih

/-! ## Fitting -/

mutual

theorem ImportPath.fits_map (path : ImportPath σ ν) : (path.map f g).Fits ↔ path.Fits := by
  match path with
  | ⟨parts, _⟩ =>
      have hparts : ImportPart.mapList f g parts = [] ↔ parts = [] := by
        rcases parts with _ | ⟨_ | ⟨_, _⟩, _⟩ <;> simp
      simp [ImportPart.fitsList_map parts, hparts]

theorem ImportPart.fitsList_map (parts : List (ImportPart σ ν)) :
    ImportPart.FitsList (ImportPart.mapList f g parts) ↔ ImportPart.FitsList parts := by
  match parts with
  | [] => rfl
  | .name _ :: rest => simp [ImportPart.fitsList_map rest]
  | .group members _ :: rest =>
      simp [ImportPath.fitsList_map members, ImportPart.fitsList_map rest]

theorem ImportPath.fitsList_map (paths : List (ImportPath σ ν)) :
    ImportPath.FitsList (ImportPath.mapList f g paths) ↔ ImportPath.FitsList paths := by
  match paths with
  | [] => rfl
  | path :: rest => simp [ImportPath.mapList, ImportPath.fits_map path, ImportPath.fitsList_map rest]

end

theorem Expr.holdsAtLeast_map (least : Nat) (expr : Expr σ ν) :
    (expr.map f g).HoldsAtLeast least ↔ expr.HoldsAtLeast least := by
  rcases expr with _ | _ | _ | _ | ⟨_, _⟩ | ⟨_, ⟨_, _⟩⟩ | _ | _ | _ | _ | _ | _ | _ | _ <;> simp

theorem Expr.takesPostfix_map (expr : Expr σ ν) :
    (expr.map f g).TakesPostfix ↔ expr.TakesPostfix := by
  rcases expr with _ | _ | _ | _ | ⟨_, _⟩ | ⟨_, ⟨_, _⟩⟩ | _ | _ | _ | _ | _ | _ | _ | _ <;> simp

theorem Expr.isPath_map (expr : Expr σ ν) : (expr.map f g).IsPath ↔ expr.IsPath := by
  rcases expr with _ | _ | _ | _ | ⟨_, _⟩ | ⟨_, ⟨_, _⟩⟩ | _ | _ | _ | _ | _ | _ | _ | _ <;> simp

theorem Expr.isConditional_map (expr : Expr σ ν) :
    (expr.map f g).IsConditional ↔ expr.IsConditional := by
  rcases expr with _ | _ | _ | _ | ⟨_, _⟩ | ⟨_, ⟨_, _⟩⟩ | _ | _ | _ | _ | _ | _ | _ | _ <;>
    simp [IsConditional]

theorem Expr.endsBefore_map (op : BinaryOp) (expr : Expr σ ν) :
    (expr.map f g).EndsBefore op ↔ expr.EndsBefore op := by
  match expr with
  | .binary _ _ right _ => simp [right.endsBefore_map op]
  | .unary .neg operand _ => simp [operand.endsBefore_map op]
  | .unary .not operand _ => simp [operand.endsBefore_map op]
  | .exit _ (some _) _ => simp
  | .exit _ none _ => simp
  | .record ⟨_, _⟩ | .typedRecord _ ⟨_, _⟩ _ => simp
  | .literal .. | .path _ | .access .. | .call .. | .question .. | .conditional .. | .loop ..
  | .select .. | .paren .. => simp

theorem Expr.goesOn_map (expr : Expr σ ν) : (expr.map f g).GoesOn ↔ expr.GoesOn := by
  match expr with
  | .access receiver _ _ => simp [receiver.goesOn_map]
  | .call callee _ _ => simp [callee.goesOn_map, callee.isControl_map]
  | .question inner _ => simp [inner.goesOn_map]
  | .binary _ left _ _ => simp [left.goesOn_map, left.isControl_map]
  | .record ⟨_, _⟩ | .typedRecord _ ⟨_, _⟩ _ => simp
  | .literal .. | .path _ | .unary .. | .exit .. | .conditional .. | .loop .. | .select ..
  | .paren .. => simp

theorem Expr.beginsWithEmptyRecord_map (expr : Expr σ ν) :
    (expr.map f g).BeginsWithEmptyRecord ↔ expr.BeginsWithEmptyRecord := by
  match expr with
  | .access receiver _ _ => simp [receiver.beginsWithEmptyRecord_map]
  | .call callee _ _ => simp [callee.beginsWithEmptyRecord_map]
  | .question inner _ => simp [inner.beginsWithEmptyRecord_map]
  | .binary _ left _ _ => simp [left.beginsWithEmptyRecord_map]
  | .record ⟨[], _⟩ => simp [Expr.mapFields]
  | .record ⟨⟨_, _, _⟩ :: _, _⟩ => simp [Expr.mapFields]
  | .typedRecord _ ⟨_, _⟩ _ => simp
  | .literal .. | .path _ | .unary .. | .exit .. | .conditional .. | .loop .. | .select ..
  | .paren .. => simp

mutual

theorem Expr.fits_map (records : Bool) (expr : Expr σ ν) :
    (expr.map f g).Fits records ↔ expr.Fits records := by
  match expr with
  | .literal _ _ => simp
  | .path _ => simp
  | .access receiver _ _ =>
      simp only [Expr.map, Expr.Fits, receiver.takesPostfix_map, receiver.isPath_map,
        Expr.fits_map records receiver]
  | .call callee arguments _ =>
      simp only [Expr.map, Expr.Fits, callee.takesPostfix_map, Expr.fits_map records callee,
        Expr.fitsList_map arguments]
  | .record ⟨fields, _⟩ => simp [Expr.fitsFields_map fields]
  | .typedRecord _ ⟨fields, _⟩ _ => simp [Expr.fitsFields_map fields]
  | .unary _ operand _ =>
      simp only [Expr.map, Expr.Fits, operand.holdsAtLeast_map, Expr.fits_map records operand]
  | .binary _ left right _ =>
      simp only [Expr.map, Expr.Fits, left.holdsAtLeast_map, left.endsBefore_map,
        Expr.fits_map records left, right.holdsAtLeast_map, Expr.fits_map records right]
  | .question inner _ =>
      simp only [Expr.map, Expr.Fits, inner.takesPostfix_map, Expr.fits_map records inner]
  | .exit _ none _ => simp
  | .exit _ (some value) _ => simp [Expr.fits_map records value]
  | .conditional condition consequence none _ =>
      simp [Expr.fits_map false condition, Block.fits_map consequence]
  | .conditional condition consequence (some (.block body)) _ =>
      simp [Expr.fits_map false condition, Block.fits_map consequence, Block.fits_map body]
  | .conditional condition consequence (some (.conditional next)) _ =>
      simp [Expr.fits_map false condition, Block.fits_map consequence, next.isConditional_map,
        Expr.fits_map records next]
  | .loop condition body _ => simp [Expr.fits_map false condition, Block.fits_map body]
  | .select scrutinee arms _ => simp [Expr.fits_map false scrutinee, Arm.fitsList_map arms]
  | .paren inner _ => simp [Expr.fits_map true inner]

theorem Expr.fitsList_map (exprs : List (Expr σ ν)) :
    Expr.FitsList (Expr.mapList f g exprs) ↔ Expr.FitsList exprs := by
  match exprs with
  | [] => simp [Expr.mapList]
  | expr :: rest => simp [Expr.mapList, Expr.fits_map true expr, Expr.fitsList_map rest]

theorem Expr.fitsFields_map (fields : List (Field σ ν (Expr σ ν))) :
    Expr.FitsFields (Expr.mapFields f g fields) ↔ Expr.FitsFields fields := by
  match fields with
  | [] => simp [Expr.mapFields]
  | ⟨_, value, _⟩ :: rest =>
      simp [Expr.mapFields, Expr.fits_map true value, Expr.fitsFields_map rest]

theorem Block.fits_map (block : Block σ ν) : (block.map f g).Fits ↔ block.Fits := by
  match block with
  | ⟨statements, none, _⟩ => simp [Statement.fitsList_map false statements]
  | ⟨statements, some tail, _⟩ =>
      simp [Statement.fitsList_map true statements, tail.goesOn_map, Expr.fits_map true tail]

theorem Statement.fits_map (followed : Bool) (statement : Statement σ ν) :
    (statement.map f g).Fits followed ↔ statement.Fits followed := by
  match statement with
  | .import path _ => simp [ImportPath.fits_map f g path]
  | .binding _ _ value _ => simp [Expr.fits_map true value]
  | .expr value _ => simp [value.goesOn_map, Expr.fits_map true value]
  | .control value => simp [value.isControl_map, Expr.fits_map true value]

theorem Statement.fitsList_map (tail : Bool) (statements : List (Statement σ ν)) :
    Statement.FitsList tail (Statement.mapList f g statements) ↔
      Statement.FitsList tail statements := by
  match statements with
  | [] => simp [Statement.mapList]
  | [statement] => simp [Statement.mapList, Statement.fits_map tail statement]
  | first :: second :: rest =>
      have hrest := Statement.fitsList_map tail (second :: rest)
      rw [Statement.mapList] at hrest
      rw [Statement.mapList, Statement.mapList, Statement.FitsList, hrest]
      simp [Statement.fits_map _ first]

theorem Arm.fits_map (arm : Arm σ ν) : (arm.map f g).Fits ↔ arm.Fits := by
  match arm with
  | ⟨_, none, body, _, _⟩ => simp [ArmBody.fits_map body]
  | ⟨_, some guard, body, _, _⟩ => simp [Expr.fits_map true guard, ArmBody.fits_map body]

theorem Arm.fitsList_map (arms : List (Arm σ ν)) :
    Arm.FitsList (Arm.mapList f g arms) ↔ Arm.FitsList arms := by
  match arms with
  | [] => simp [Arm.mapList]
  | arm :: rest =>
      have hrest := Arm.fitsList_map rest
      have hempty : (Arm.mapList f g rest).isEmpty = rest.isEmpty := by
        cases rest <;> simp [Arm.mapList]
      have hlast : (arm.map f g).last = arm.last := by
        cases arm
        simp
      rw [Arm.mapList, Arm.FitsList, Arm.FitsList, hrest, hempty, hlast, Arm.fits_map arm]

theorem ArmBody.fits_map (body : ArmBody σ ν) : (body.map f g).Fits ↔ body.Fits := by
  match body with
  | .block body => simp [Block.fits_map body]
  | .expr value => simp [value.beginsWithEmptyRecord_map, Expr.fits_map true value]

end

theorem Item.fits_map (item : Item σ ν) : (item.map f g).Fits ↔ item.Fits := by
  match item with
  | .filter _ _ _ body _ => exact Block.fits_map f g body
  | .function _ _ _ body _ => exact Block.fits_map f g body
  | .record _ ⟨_, _⟩ _ => rfl
  | .test _ body _ => exact Block.fits_map f g body
  | .import path _ => exact ImportPath.fits_map f g path

/-! ## Written forms -/

section Slots

variable (text : μ → String)

theorem Ident.slots_map (ident : Ident σ ν) :
    (ident.map f g).slots text = ident.slots (text ∘ g) := rfl

theorem Path.slots_map (path : Path σ ν) : (path.map f g).slots text = path.slots (text ∘ g) := by
  simp [Path.slots, Path.segments, Path.map, Ident.slots_map, Function.comp_def]

theorem Pattern.slots_map (pattern : Pattern σ ν) :
    (pattern.map f g).slots text = pattern.slots (text ∘ g) := by
  obtain ⟨path, bindings, span⟩ := pattern
  cases bindings with
  | none => simp [Pattern.slots, Pattern.map, Path.slots_map]
  | some names =>
      simp [Pattern.slots, Pattern.map, Path.slots_map, Ident.slots_map, Function.comp_def]

mutual

theorem TypeExpr.slots_map (type : TypeExpr σ ν) :
    (type.map f g).slots text = type.slots (text ∘ g) := by
  match type with
  | .named path [] _ => simp [TypeExpr.mapList, Path.slots_map]
  | .named path (first :: rest) _ =>
      simp [TypeExpr.mapList, Path.slots_map, TypeExpr.slots_map first, TypeExpr.slotsList_map rest]
  | .optional inner _ => simp [TypeExpr.slots_map inner]
  | .never _ => rfl
  | .unit _ => rfl
  | .record ⟨fields, _⟩ => simp [TypeExpr.slotsFields_map fields]

theorem TypeExpr.slotsList_map (types : List (TypeExpr σ ν)) :
    TypeExpr.slotsList text (TypeExpr.mapList f g types) =
      TypeExpr.slotsList (text ∘ g) types := by
  match types with
  | [] => rfl
  | type :: rest =>
      simp [TypeExpr.mapList, TypeExpr.slotsList, TypeExpr.slots_map type,
        TypeExpr.slotsList_map rest]

theorem TypeExpr.slotsFields_map (fields : List (Field σ ν (TypeExpr σ ν))) :
    TypeExpr.slotsFields text (TypeExpr.mapFields f g fields) =
      TypeExpr.slotsFields (text ∘ g) fields := by
  match fields with
  | [] => rfl
  | ⟨_, type, _⟩ :: rest =>
      simp [TypeExpr.mapFields, TypeExpr.slotsFields, Ident.slots_map, TypeExpr.slots_map type,
        TypeExpr.slotsFields_map rest]

end

mutual

theorem ImportPath.slots_map (path : ImportPath σ ν) :
    (path.map f g).slots text = path.slots (text ∘ g) := by
  match path with
  | ⟨parts, _⟩ => simp [ImportPart.slotsList_map parts]

theorem ImportPart.slotsList_map (parts : List (ImportPart σ ν)) :
    ImportPart.slotsList text (ImportPart.mapList f g parts) =
      ImportPart.slotsList (text ∘ g) parts := by
  match parts with
  | [] => simp [ImportPart.slotsList]
  | .name _ :: rest => simp [ImportPart.slotsList, Ident.slots_map, ImportPart.slotsList_map rest]
  | .group members _ :: rest =>
      simp [ImportPart.slotsList, ImportPath.slotsList_map members, ImportPart.slotsList_map rest]

theorem ImportPath.slotsList_map (paths : List (ImportPath σ ν)) :
    ImportPath.slotsList text (ImportPath.mapList f g paths) =
      ImportPath.slotsList (text ∘ g) paths := by
  match paths with
  | [] => simp [ImportPath.mapList, ImportPath.slotsList]
  | path :: rest =>
      simp [ImportPath.mapList, ImportPath.slotsList, ImportPath.slots_map path,
        ImportPath.slotsList_map rest]

end

theorem ImportPath.declarationSlots_map (path : ImportPath σ ν) :
    (path.map f g).declarationSlots text = path.declarationSlots (text ∘ g) := by
  simp [ImportPath.declarationSlots, ImportPath.slots_map]

mutual

theorem Expr.slots_map (expr : Expr σ ν) : (expr.map f g).slots text = expr.slots (text ∘ g) := by
  match expr with
  | .literal _ _ => simp
  | .path _ => simp [Path.slots_map]
  | .access receiver _ _ => simp [Expr.slots_map receiver, Ident.slots_map]
  | .call callee arguments _ => simp [Expr.slots_map callee, Expr.slotsList_map arguments]
  | .record ⟨fields, _⟩ => simp [Expr.slotsFields_map fields]
  | .typedRecord _ ⟨fields, _⟩ _ => simp [Path.slots_map, Expr.slotsFields_map fields]
  | .unary _ operand _ => simp [Expr.slots_map operand]
  | .binary _ left right _ => simp [Expr.slots_map left, Expr.slots_map right]
  | .question inner _ => simp [Expr.slots_map inner]
  | .exit _ value _ => simp [Expr.slotsOption_map value]
  | .conditional condition consequence alternative _ =>
      simp [Expr.slots_map condition, Block.slots_map consequence,
        Alternative.slotsOption_map alternative]
  | .loop condition body _ => simp [Expr.slots_map condition, Block.slots_map body]
  | .select scrutinee arms _ => simp [Expr.slots_map scrutinee, Arm.slotsList_map arms]
  | .paren inner _ => simp [Expr.slots_map inner]

theorem Expr.slotsList_map (exprs : List (Expr σ ν)) :
    Expr.slotsList text (Expr.mapList f g exprs) = Expr.slotsList (text ∘ g) exprs := by
  match exprs with
  | [] => simp [Expr.mapList, Expr.slotsList]
  | expr :: rest =>
      simp [Expr.mapList, Expr.slotsList, Expr.slots_map expr, Expr.slotsList_map rest]

theorem Expr.slotsOption_map (expr : Option (Expr σ ν)) :
    Expr.slotsOption text (Expr.mapOption f g expr) = Expr.slotsOption (text ∘ g) expr := by
  match expr with
  | none => simp
  | some expr => simp [Expr.slots_map expr]

theorem Expr.slotsFields_map (fields : List (Field σ ν (Expr σ ν))) :
    Expr.slotsFields text (Expr.mapFields f g fields) = Expr.slotsFields (text ∘ g) fields := by
  match fields with
  | [] => simp [Expr.mapFields, Expr.slotsFields]
  | ⟨_, value, _⟩ :: rest =>
      simp [Expr.mapFields, Expr.slotsFields, Ident.slots_map, Expr.slots_map value,
        Expr.slotsFields_map rest]

theorem Alternative.slotsOption_map (alternative : Option (Alternative σ ν)) :
    Alternative.slotsOption text (Alternative.mapOption f g alternative) =
      Alternative.slotsOption (text ∘ g) alternative := by
  match alternative with
  | none => simp
  | some (.block body) => simp [Block.slots_map body]
  | some (.conditional next) => simp [Expr.slots_map next]

theorem Block.slots_map (block : Block σ ν) :
    (block.map f g).slots text = block.slots (text ∘ g) := by
  match block with
  | ⟨statements, tail, _⟩ => simp [Statement.slotsList_map statements, Expr.slotsOption_map tail]

theorem Statement.slots_map (statement : Statement σ ν) :
    (statement.map f g).slots text = statement.slots (text ∘ g) := by
  match statement with
  | .import path _ => simp [ImportPath.declarationSlots_map f g text path]
  | .binding _ type value _ =>
      cases type <;> simp [Ident.slots_map, TypeExpr.slots_map, Expr.slots_map value]
  | .expr value _ => simp [Expr.slots_map value]
  | .control value => simp [Expr.slots_map value]

theorem Statement.slotsList_map (statements : List (Statement σ ν)) :
    Statement.slotsList text (Statement.mapList f g statements) =
      Statement.slotsList (text ∘ g) statements := by
  match statements with
  | [] => simp [Statement.mapList, Statement.slotsList]
  | statement :: rest =>
      simp [Statement.mapList, Statement.slotsList, Statement.slots_map statement,
        Statement.slotsList_map rest]

theorem Arm.slots_map (arm : Arm σ ν) : (arm.map f g).slots text = arm.slots (text ∘ g) := by
  match arm with
  | ⟨_, none, body, _, _⟩ => simp [Pattern.slots_map, ArmBody.slots_map body]
  | ⟨_, some guard, body, _, _⟩ =>
      simp [Pattern.slots_map, Expr.slots_map guard, ArmBody.slots_map body]

theorem Arm.slotsList_map (arms : List (Arm σ ν)) :
    Arm.slotsList text (Arm.mapList f g arms) = Arm.slotsList (text ∘ g) arms := by
  match arms with
  | [] => simp [Arm.mapList, Arm.slotsList]
  | arm :: rest =>
      have hempty : (Arm.mapList f g rest).isEmpty = rest.isEmpty := by
        cases rest <;> simp [Arm.mapList]
      have hseparator : (arm.map f g).body.separator rest.isEmpty = arm.body.separator rest.isEmpty := by
        rcases arm with ⟨_, _, _ | _, _, _⟩ <;> simp [ArmBody.separator]
      rw [Arm.mapList, Arm.slotsList, Arm.slotsList, hempty, hseparator, Arm.slots_map arm,
        Arm.slotsList_map rest]

theorem ArmBody.slots_map (body : ArmBody σ ν) :
    (body.map f g).slots text = body.slots (text ∘ g) := by
  match body with
  | .block body => simp [Block.slots_map body]
  | .expr value => simp [Expr.slots_map value]

end

theorem Item.slots_map (item : Item σ ν) : (item.map f g).slots text = item.slots (text ∘ g) := by
  match item with
  | .filter _ _ parameters body _ =>
      simp [Item.map, Item.slots, Ident.slots_map, Parameter.slotsList, TypeExpr.slotsFields_map,
        Block.slots_map]
  | .function _ parameters returns body _ =>
      cases returns <;>
        simp [Item.map, Item.slots, Ident.slots_map, Parameter.slotsList, TypeExpr.slotsFields_map,
          TypeExpr.slots_map, Block.slots_map]
  | .record _ ⟨fields, _⟩ _ =>
      simp [Item.map, Item.slots, Ident.slots_map, TypeExpr.slotsFields_map]
  | .test _ body _ => simp [Item.map, Item.slots, Ident.slots_map, Block.slots_map]
  | .import path _ => simp [Item.map, Item.slots, ImportPath.declarationSlots_map]

theorem Script.slots_map (script : Script σ ν) :
    (script.map f g).slots text = script.slots (text ∘ g) := by
  simp [Script.slots, Script.map, List.flatMap_map, Item.slots_map]

end Slots

end FilterScript
