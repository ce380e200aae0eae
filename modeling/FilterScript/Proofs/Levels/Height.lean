import FilterScript.Proofs.Levels.Tree
import FilterScript.Proofs.Spans.Covers

/-!
# How deep a tree can be

A limit on levels bounds only those ways through a tree that open levels. The
loops that group operators to the left, that read accesses, calls and question
marks, and `else if` put one node under another without opening a level. These
steps are counted apart: the nodes on a way are at most the steps without a
level and a fixed number for each level.
-/

namespace FilterScript

variable {σ ν : Type}

/-- Whether no level is opened between a node and its child of this number. -/
def Tag.isLoose : Tag σ ν → Nat → Tag σ ν → Bool
  | .binary _, 0, _ | .access, 0, _ | .call, 0, _ | .question, 0, _ | .optionalType, 0, _ => true
  | .conditional, 2, .block _ => false
  | .conditional, 2, _ => true
  | _, _, _ => false

namespace Outline

mutual

/-- The nodes on the longest way from a node down to a leaf. -/
def height : Outline σ ν → Nat
  | node _ _ children => heightList children + 1

def heightList : List (Outline σ ν) → Nat
  | [] => 0
  | child :: rest => max child.height (heightList rest)

end

mutual

/-- The steps without a level on the way down that has most of them. -/
def links : Outline σ ν → Nat
  | node tag _ children => linksBelow tag 0 children

/-- The same below a node with this tag, from its child of this number on. -/
def linksBelow (tag : Tag σ ν) (number : Nat) : List (Outline σ ν) → Nat
  | [] => 0
  | child :: rest =>
      max (child.links + if tag.isLoose number child.tag then 1 else 0)
        (linksBelow tag (number + 1) rest)

end

attribute [simp] height heightList links linksBelow

mutual

theorem links_lt_height (outline : Outline σ ν) : outline.links < outline.height := by
  match outline with
  | node tag _ children =>
      rw [links, height]
      exact Nat.lt_succ_of_le (linksBelow_le_heightList tag 0 children)

theorem linksBelow_le_heightList (tag : Tag σ ν) (number : Nat) (children : List (Outline σ ν)) :
    linksBelow tag number children ≤ heightList children := by
  match children with
  | [] => simp
  | child :: rest =>
      have hchild := links_lt_height child
      have hrest := linksBelow_le_heightList tag (number + 1) rest
      rw [linksBelow, heightList]
      split <;> omega

end

theorem heightList_append (first second : List (Outline σ ν)) :
    heightList (first ++ second) = max (heightList first) (heightList second) := by
  induction first with
  | nil => simp
  | cons child rest ih => simp [ih, Nat.max_assoc]

/-- The steps without a level below any of these nodes. -/
theorem most_links_le_linksBelow (tag : Tag σ ν) (number : Nat) (children : List (Outline σ ν)) :
    most links children ≤ linksBelow tag number children := by
  induction children generalizing number with
  | nil => simp
  | cons child rest ih =>
      have hrest := ih (number + 1)
      rw [most, linksBelow]
      split <;> omega

end Outline

open Outline

/-! ## Names and paths -/

theorem Ident.heightList_le (idents : List (Ident σ ν)) :
    heightList (idents.map Ident.outline) ≤ 1 := by
  induction idents with
  | nil => simp
  | cons ident rest ih =>
      rw [List.map_cons, heightList, Ident.outline]
      simp only [height, heightList]
      omega

theorem Path.height_outline (path : Path σ ν) : path.outline.height = 2 := by
  have hrest := Ident.heightList_le path.rest
  rw [Path.outline, height, Path.segments, List.map_cons, heightList, Ident.outline]
  simp only [height, heightList]
  omega

theorem Pattern.height_outline (pattern : Pattern σ ν) : pattern.outline.height = 3 := by
  have hpath := pattern.path.height_outline
  have hnames := Ident.heightList_le (pattern.bindings.getD [])
  simp only [Pattern.outline, height, heightList]
  omega

attribute [simp] TypeExpr.outline Expr.outline Expr.outlineOption Alternative.outlineOption
  Block.outline Statement.outline Arm.outline ArmBody.outline ImportPath.outline
  ImportPart.outlineList

theorem Ident.height_outline (ident : Ident σ ν) : ident.outline.height = 1 := rfl

/-! ## Types and imports -/

mutual

theorem TypeExpr.height_le (type : TypeExpr σ ν) :
    type.outline.height ≤ type.outline.links + 4 * type.levels := by
  match type with
  | .named path arguments _ =>
      have hpath := path.height_outline
      have harguments := TypeExpr.heightList_le arguments
      have hlinks := most_links_le_linksBelow (.namedType : Tag σ ν) 1 (TypeExpr.outlineList arguments)
      simp only [TypeExpr.outline, height, heightList, links, linksBelow, TypeExpr.levels, Nat.zero_add]
      omega
  | .optional inner _ =>
      have hinner := TypeExpr.height_le inner
      simp only [TypeExpr.outline, height, heightList, links, linksBelow, TypeExpr.levels, Tag.isLoose,
        if_true]
      omega
  | .never _ => simp
  | .unit _ => simp
  | .record ⟨fields, _⟩ =>
      have hfields := TypeExpr.heightFields_le fields
      have hlinks := most_links_le_linksBelow (.typeFields : Tag σ ν) 0 (TypeExpr.outlineFields fields)
      simp only [TypeExpr.outline, height, heightList, links, linksBelow, TypeExpr.levels]
      omega

theorem TypeExpr.heightList_le (types : List (TypeExpr σ ν)) :
    heightList (TypeExpr.outlineList types) ≤
      most links (TypeExpr.outlineList types) + 4 * TypeExpr.levelsList types := by
  match types with
  | [] => simp [TypeExpr.outlineList]
  | type :: rest =>
      have htype := TypeExpr.height_le type
      have hrest := TypeExpr.heightList_le rest
      simp only [TypeExpr.outlineList, heightList, most, TypeExpr.levelsList]
      omega

theorem TypeExpr.heightFields_le (fields : List (Field σ ν (TypeExpr σ ν))) :
    heightList (TypeExpr.outlineFields fields) ≤
      most links (TypeExpr.outlineFields fields) + 4 * TypeExpr.levelsFields fields + 2 := by
  match fields with
  | [] => simp [TypeExpr.outlineFields]
  | ⟨name, type, _⟩ :: rest =>
      have hname := name.height_outline
      have htype := TypeExpr.height_le type
      have hrest := TypeExpr.heightFields_le rest
      simp only [TypeExpr.outlineFields, height, heightList, links, linksBelow, most,
        TypeExpr.levelsFields]
      omega

end

theorem TypeExpr.heightOption_le (type : Option (TypeExpr σ ν)) :
    heightList (type.map TypeExpr.outline).toList ≤
      most links (type.map TypeExpr.outline).toList + 4 * TypeExpr.levelsOption type := by
  cases type with
  | none => simp
  | some type =>
      have htype := type.height_le
      simp only [Option.map_some, Option.toList_some, heightList, most, TypeExpr.levelsOption]
      omega

mutual

theorem ImportPath.height_le (path : ImportPath σ ν) :
    path.outline.height ≤ path.outline.links + 4 * path.levels := by
  match path with
  | ⟨parts, _⟩ =>
      have hparts := ImportPart.heightList_le parts
      have hlinks := most_links_le_linksBelow (.importPath : Tag σ ν) 0 (ImportPart.outlineList parts)
      simp only [ImportPath.outline, height, links, ImportPath.levels]
      omega

theorem ImportPart.heightList_le (parts : List (ImportPart σ ν)) :
    heightList (ImportPart.outlineList parts) ≤
      most links (ImportPart.outlineList parts) + 4 * ImportPart.levelsList parts + 1 := by
  match parts with
  | [] => simp
  | .name name :: rest =>
      have hname := name.height_outline
      have hrest := ImportPart.heightList_le rest
      simp only [ImportPart.outlineList, heightList, most, ImportPart.levelsList]
      omega
  | .group members _ :: rest =>
      have hmembers := ImportPath.heightList_le members
      have hrest := ImportPart.heightList_le rest
      have hlinks := most_links_le_linksBelow (.group : Tag σ ν) 0 (ImportPath.outlineList members)
      simp only [ImportPart.outlineList, height, heightList, links, most, ImportPart.levelsList]
      omega

theorem ImportPath.heightList_le (paths : List (ImportPath σ ν)) :
    heightList (ImportPath.outlineList paths) ≤
      most links (ImportPath.outlineList paths) + 4 * ImportPath.levelsList paths := by
  match paths with
  | [] => simp [ImportPath.outlineList]
  | path :: rest =>
      have hpath := ImportPath.height_le path
      have hrest := ImportPath.heightList_le rest
      simp only [ImportPath.outlineList, heightList, most, ImportPath.levelsList]
      omega

end

/-! ## Expressions and blocks -/

theorem ArmBody.levels_pos (body : ArmBody σ ν) : 0 < body.levels := by
  cases body with
  | block body =>
      obtain ⟨statements, tail, _⟩ := body
      exact Nat.succ_pos _
  | expr value => exact Nat.succ_pos _

theorem Expr.isLoose_outline (expr : Expr σ ν) :
    (Tag.conditional : Tag σ ν).isLoose 2 expr.outline.tag = true := by
  rcases expr with _ | _ | _ | _ | ⟨_, _⟩ | ⟨_, ⟨_, _⟩⟩ | _ | _ | _ | _ | _ | _ | _ | _ <;>
    simp [tag, Tag.isLoose]

mutual

/-- The height of an expression is at most its steps without a level, and four
nodes for each level. -/
theorem Expr.height_le (expr : Expr σ ν) :
    expr.outline.height ≤ expr.outline.links + 4 * expr.levels + 3 := by
  match expr with
  | .literal _ _ => simp
  | .path whole =>
      have hpath := whole.height_outline
      simp only [Expr.outline, height, heightList]
      omega
  | .access receiver field _ =>
      have hreceiver := Expr.height_le receiver
      have hfield := field.height_outline
      simp only [Expr.outline, height, heightList, links, linksBelow, Expr.levels, Tag.isLoose, if_true]
      omega
  | .call callee arguments _ =>
      have hcallee := Expr.height_le callee
      have harguments := Expr.heightList_le arguments
      have hlinks := most_links_le_linksBelow (.call : Tag σ ν) 1 (Expr.outlineList arguments)
      simp only [Expr.outline, height, heightList, links, linksBelow, Expr.levels, Tag.isLoose, if_true,
        Nat.zero_add]
      omega
  | .record ⟨fields, _⟩ =>
      have hfields := Expr.heightFields_le fields
      have hlinks := most_links_le_linksBelow (.fields : Tag σ ν) 0 (Expr.outlineFields fields)
      simp only [Expr.outline, height, heightList, links, linksBelow, Expr.levels]
      omega
  | .typedRecord path ⟨fields, _⟩ _ =>
      have hpath := path.height_outline
      have hfields := Expr.heightFields_le fields
      have hlinks := most_links_le_linksBelow (.fields : Tag σ ν) 0 (Expr.outlineFields fields)
      simp only [Expr.outline, height, heightList, links, linksBelow, Expr.levels]
      omega
  | .unary _ operand _ =>
      have hoperand := Expr.height_le operand
      simp only [Expr.outline, height, heightList, links, linksBelow, Expr.levels]
      omega
  | .binary _ left right _ =>
      have hleft := Expr.height_le left
      have hright := Expr.height_le right
      simp only [Expr.outline, height, heightList, links, linksBelow, Expr.levels, Tag.isLoose, if_true]
      omega
  | .question inner _ =>
      have hinner := Expr.height_le inner
      simp only [Expr.outline, height, heightList, links, linksBelow, Expr.levels, Tag.isLoose, if_true]
      omega
  | .exit kind value _ =>
      have hvalue := Expr.heightOption_le value
      have hlinks := most_links_le_linksBelow (.exit kind : Tag σ ν) 0 (Expr.outlineOption value)
      simp only [Expr.outline, height, links, Expr.levels]
      omega
  | .conditional condition consequence alternative _ =>
      have hcondition := Expr.height_le condition
      have hconsequence := Block.height_le consequence
      have halternative := Alternative.heightOption_le alternative
      simp only [Expr.outline, height, heightList, links, linksBelow, Expr.levels, Nat.reduceAdd]
      omega
  | .loop condition body _ =>
      have hcondition := Expr.height_le condition
      have hbody := Block.height_le body
      simp only [Expr.outline, height, heightList, links, linksBelow, Expr.levels]
      omega
  | .select scrutinee arms _ =>
      have hscrutinee := Expr.height_le scrutinee
      have harms := Arm.heightList_le arms
      have hlinks := most_links_le_linksBelow (.select : Tag σ ν) 1 (Arm.outlineList arms)
      simp only [Expr.outline, height, heightList, links, linksBelow, Expr.levels, Nat.zero_add]
      omega
  | .paren inner _ =>
      have hinner := Expr.height_le inner
      simp only [Expr.outline, height, heightList, links, linksBelow, Expr.levels]
      omega

theorem Expr.heightList_le (exprs : List (Expr σ ν)) :
    heightList (Expr.outlineList exprs) ≤
      most links (Expr.outlineList exprs) + 4 * Expr.levelsList exprs := by
  match exprs with
  | [] => simp [Expr.outlineList]
  | expr :: rest =>
      have hexpr := Expr.height_le expr
      have hrest := Expr.heightList_le rest
      simp only [Expr.outlineList, heightList, most, Expr.levelsList]
      omega

theorem Expr.heightOption_le (expr : Option (Expr σ ν)) :
    heightList (Expr.outlineOption expr) ≤
      most links (Expr.outlineOption expr) + 4 * Expr.levelsOption expr := by
  match expr with
  | none => simp
  | some expr =>
      have hexpr := Expr.height_le expr
      simp only [Expr.outlineOption, heightList, most, Expr.levelsOption]
      omega

theorem Expr.heightFields_le (fields : List (Field σ ν (Expr σ ν))) :
    heightList (Expr.outlineFields fields) ≤
      most links (Expr.outlineFields fields) + 4 * Expr.levelsFields fields + 1 := by
  match fields with
  | [] => simp [Expr.outlineFields]
  | ⟨name, value, _⟩ :: rest =>
      have hname := name.height_outline
      have hvalue := Expr.height_le value
      have hrest := Expr.heightFields_le rest
      simp only [Expr.outlineFields, height, heightList, links, linksBelow, most, Expr.levelsFields]
      omega

/-- What stands behind `else`, as a child of its conditional. -/
theorem Alternative.heightOption_le (alternative : Option (Alternative σ ν)) :
    heightList (Alternative.outlineOption alternative) ≤
      linksBelow .conditional 2 (Alternative.outlineOption alternative) +
        4 * Alternative.levelsOption alternative + 2 := by
  match alternative with
  | none => simp
  | some (.block body) =>
      have hbody := Block.height_le body
      simp only [Alternative.outlineOption, heightList, linksBelow, Alternative.levelsOption]
      omega
  | some (.conditional next) =>
      have hnext := Expr.height_le next
      have hloose := next.isLoose_outline
      simp only [Alternative.outlineOption, heightList, linksBelow, Alternative.levelsOption, hloose,
        if_true]
      omega

theorem Block.height_le (block : Block σ ν) :
    block.outline.height ≤ block.outline.links + 4 * block.levels + 1 := by
  match block with
  | ⟨statements, tail, _⟩ =>
      have hstatements := Statement.heightList_le statements
      have htail := Expr.heightTail_le tail
      have hlinks := most_links_le_linksBelow (.block tail.isSome : Tag σ ν) 0
        (Statement.outlineList statements ++ Expr.outlineOption tail)
      rw [most_append] at hlinks
      simp only [Block.outline, height, links, Block.levels, heightList_append]
      omega

theorem Expr.heightTail_le (tail : Option (Expr σ ν)) :
    heightList (Expr.outlineOption tail) ≤
      most links (Expr.outlineOption tail) + 4 * Expr.levelsOfTail tail + 3 := by
  match tail with
  | none => simp
  | some expr =>
      have hexpr := Expr.height_le expr
      simp only [Expr.outlineOption, heightList, most, Expr.levelsOfTail]
      split <;> omega

theorem Statement.height_le (statement : Statement σ ν) :
    statement.outline.height ≤ statement.outline.links + 4 * statement.levels + 4 := by
  match statement with
  | .import path _ =>
      have hpath := path.height_le
      simp only [Statement.outline, height, heightList, links, linksBelow, Statement.levels]
      omega
  | .binding name none value _ =>
      have hname := name.height_outline
      have hvalue := Expr.height_le value
      simp only [Statement.outline, height, heightList, links, linksBelow, Statement.levels,
        Option.map_none, Option.toList_none, List.cons_append, List.nil_append]
      omega
  | .binding name (some type) value _ =>
      have hname := name.height_outline
      have htype := type.height_le
      have hvalue := Expr.height_le value
      simp only [Statement.outline, height, heightList, links, linksBelow, Statement.levels,
        Option.map_some, Option.toList_some, List.cons_append, List.nil_append,
        TypeExpr.levelsOption]
      omega
  | .expr value _ =>
      have hvalue := Expr.height_le value
      simp only [Statement.outline, height, heightList, links, linksBelow, Statement.levels,
        Tag.isLoose, Bool.false_eq_true, if_false]
      split <;> omega
  | .control value =>
      have hvalue := Expr.height_le value
      simp only [Statement.outline, height, heightList, links, linksBelow, Statement.levels]
      omega

theorem Statement.heightList_le (statements : List (Statement σ ν)) :
    heightList (Statement.outlineList statements) ≤
      most links (Statement.outlineList statements) + 4 * Statement.levelsList statements + 4 := by
  match statements with
  | [] => simp [Statement.outlineList]
  | statement :: rest =>
      have hstatement := Statement.height_le statement
      have hrest := Statement.heightList_le rest
      simp only [Statement.outlineList, heightList, most, Statement.levelsList]
      omega

theorem Arm.height_le (arm : Arm σ ν) :
    arm.outline.height ≤ arm.outline.links + 4 * arm.levels + 2 := by
  match arm with
  | ⟨pattern, guard, body, last, _⟩ =>
      have hpattern := pattern.height_outline
      have hlevels := body.levels_pos
      have hguard := Expr.heightOption_le guard
      have hbody := ArmBody.height_le body
      have hlinks := most_links_le_linksBelow (.arm guard.isSome last : Tag σ ν) 1
        (Expr.outlineOption guard ++ [body.outline])
      rw [most_append] at hlinks
      simp only [Arm.outline, height, heightList, links, linksBelow, Arm.levels, List.cons_append,
        heightList_append, most, Nat.zero_add] at hlinks ⊢
      omega

theorem Arm.heightList_le (arms : List (Arm σ ν)) :
    heightList (Arm.outlineList arms) ≤
      most links (Arm.outlineList arms) + 4 * Arm.levelsList arms + 2 := by
  match arms with
  | [] => simp [Arm.outlineList]
  | arm :: rest =>
      have harm := Arm.height_le arm
      have hrest := Arm.heightList_le rest
      simp only [Arm.outlineList, heightList, most, Arm.levelsList]
      omega

theorem ArmBody.height_le (body : ArmBody σ ν) :
    body.outline.height ≤ body.outline.links + 4 * body.levels + 1 := by
  match body with
  | .block body =>
      have hbody := Block.height_le body
      simpa using hbody
  | .expr value =>
      have hvalue := Expr.height_le value
      simp only [ArmBody.outline, ArmBody.levels]
      omega

end

/-! ## Scripts -/

theorem Parameter.heightList_le (parameters : List (Parameter σ ν)) :
    heightList (parameters.map Parameter.outline) ≤
      most links (parameters.map Parameter.outline) + 4 * TypeExpr.levelsFields parameters + 2 := by
  induction parameters with
  | nil => simp
  | cons parameter rest ih =>
      obtain ⟨name, type, _⟩ := parameter
      have hname := name.height_outline
      have htype := type.height_le
      simp only [List.map_cons, Parameter.outline, height, heightList, links, linksBelow, most,
        TypeExpr.levelsFields]
      omega

theorem Item.height_le (item : Item σ ν) :
    item.outline.height ≤ item.outline.links + 4 * item.levels + 4 := by
  match item with
  | .filter kind name parameters body _ =>
      have hname := name.height_outline
      have hparameters := Parameter.heightList_le parameters
      have hbody := body.height_le
      have hlinks := most_links_le_linksBelow (.filter kind : Tag σ ν) 1
        (parameters.map Parameter.outline ++ [body.outline])
      rw [most_append] at hlinks
      simp only [Item.outline, height, heightList, links, linksBelow, Item.levels, List.cons_append,
        heightList_append, most, Nat.zero_add] at hlinks ⊢
      omega
  | .function name parameters returns body _ =>
      have hname := name.height_outline
      have hparameters := Parameter.heightList_le parameters
      have hreturns := TypeExpr.heightOption_le returns
      have hbody := body.height_le
      have hlinks := most_links_le_linksBelow (.function : Tag σ ν) 1
        (parameters.map Parameter.outline ++ (returns.map TypeExpr.outline).toList ++ [body.outline])
      have hheader : max (heightList (parameters.map Parameter.outline))
            (heightList (returns.map TypeExpr.outline).toList) ≤
          max (most links (parameters.map Parameter.outline))
              (most links (returns.map TypeExpr.outline).toList) +
            4 * max (TypeExpr.levelsFields parameters) (TypeExpr.levelsOption returns) + 2 := by
        omega
      rw [most_append, most_append] at hlinks
      simp only [Item.outline, height, heightList, links, linksBelow, Item.levels, List.cons_append,
        heightList_append, most, Nat.zero_add, ← Nat.max_assoc] at hlinks ⊢
      omega
  | .record name ⟨fields, _⟩ _ =>
      have hname := name.height_outline
      have hfields := TypeExpr.heightFields_le fields
      have hlinks := most_links_le_linksBelow (.typeFields : Tag σ ν) 0 (TypeExpr.outlineFields fields)
      simp only [Item.outline, height, heightList, links, linksBelow, Item.levels]
      omega
  | .test name body _ =>
      have hname := name.height_outline
      have hbody := body.height_le
      simp only [Item.outline, height, heightList, links, linksBelow, Item.levels]
      omega
  | .import path _ =>
      have hpath := path.height_le
      simp only [Item.outline, height, heightList, links, linksBelow, Item.levels]
      omega

theorem Script.height_le (script : Script σ ν) :
    script.outline.height ≤ script.outline.links + 4 * script.nest + 5 := by
  have hitems : heightList (script.items.map Item.outline) ≤
      most links (script.items.map Item.outline) + 4 * most Item.levels script.items + 4 := by
    induction script.items with
    | nil => simp
    | cons item rest ih =>
        have hitem := item.height_le
        simp only [List.map_cons, heightList, most]
        omega
  have hlinks := most_links_le_linksBelow (.script : Tag σ ν) 0 (script.items.map Item.outline)
  simp only [Script.outline, height, links, Script.nest]
  omega

end FilterScript
