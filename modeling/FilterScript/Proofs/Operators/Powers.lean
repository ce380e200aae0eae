import FilterScript.Proofs.Completeness.Fitting
import FilterScript.Proofs.Outlines
import FilterScript.Proofs.Parts

/-!
# Operators hold their operands

How tightly operators hold decides which operand belongs to which of them. On the
right of an operator stands nothing that holds as loosely as it does, on the left
nothing that holds more loosely, and nothing whose right edge would have drawn the
operator in.
-/

namespace FilterScript

variable {σ ν : Type}

namespace Expr

/-- The operator of an expression that is one between two operands. -/
def operator? : Expr σ ν → Option BinaryOp
  | .binary op _ _ _ => some op
  | _ => none

mutual

/-- The expression and what ends where it ends without a token behind it: right
operands, operands of prefixed operators and values of early exits, from the outside
in. -/
def rightEdge : Expr σ ν → List (Expr σ ν)
  | .binary op left right span => .binary op left right span :: right.rightEdge
  | .unary op operand span => .unary op operand span :: operand.rightEdge
  | .exit kind value span => .exit kind value span :: rightEdgeOption value
  | expr => [expr]

def rightEdgeOption : Option (Expr σ ν) → List (Expr σ ν)
  | none => []
  | some expr => expr.rightEdge

end

end Expr

/-- The operator has these operands rightly, as far as binding powers go. -/
structure BinaryOp.Holds (op : BinaryOp) (left right : Expr σ ν) : Prop where
  tighter : ∀ inner ∈ right.operator?, op.precedence < inner.precedence
  noLooser : ∀ inner ∈ left.operator?, op.precedence ≤ inner.precedence
  /-- No early exit at the end of the left operand has a value. -/
  values : ∀ reached ∈ left.rightEdge, ∀ kind value span, reached ≠ .exit kind (some value) span
  /-- A minus sign in front of something at the end of the left operand would have
  drawn a product in. -/
  negations : ∀ reached ∈ left.rightEdge, ∀ operand span,
    reached = .unary .neg operand span → op.precedence ≤ 3
  /-- A minus sign behind an early exit would have begun its value. -/
  exits : ∀ kind span, left.rightEdge.getLast? = some (.exit kind none span) → op ≠ .sub

/-- What binding powers ask of a node. -/
def Expr.ObeysPowers : Expr σ ν → Prop
  | .binary op left right _ => op.Holds left right
  | .unary .neg operand _ => ∀ inner ∈ operand.operator?, inner = .mul ∨ inner = .div
  | .unary .not operand _ => operand.operator? = none
  | .access receiver _ _ => receiver.TakesPostfix ∧ ¬ receiver.IsPath
  | .call callee _ _ => callee.TakesPostfix
  | .question inner _ => inner.TakesPostfix
  | _ => True

/-! ## The right edge -/

namespace Expr

theorem rightEdge_ne_nil (expr : Expr σ ν) : expr.rightEdge ≠ [] := by
  cases expr <;> simp [rightEdge]

theorem EndsBefore.values {op : BinaryOp} {expr : Expr σ ν} (h : expr.EndsBefore op) :
    ∀ reached ∈ expr.rightEdge, ∀ kind value span, reached ≠ .exit kind (some value) span := by
  match expr with
  | .binary _ _ right _ =>
      have hright : right.EndsBefore op := h
      rw [rightEdge]
      exact List.forall_mem_cons.mpr ⟨by simp, hright.values⟩
  | .unary .neg operand _ =>
      obtain ⟨-, hoperand⟩ := h
      rw [rightEdge]
      exact List.forall_mem_cons.mpr ⟨by simp, EndsBefore.values hoperand⟩
  | .unary .not operand _ =>
      have hoperand : operand.EndsBefore op := h
      rw [rightEdge]
      exact List.forall_mem_cons.mpr ⟨by simp, hoperand.values⟩
  | .exit _ none _ => simp [rightEdge, rightEdgeOption]
  | .literal .. | .path _ | .access .. | .call .. | .record _ | .typedRecord .. | .question ..
  | .conditional .. | .loop .. | .select .. | .paren .. => simp [rightEdge]

theorem EndsBefore.negations {op : BinaryOp} {expr : Expr σ ν} (h : expr.EndsBefore op) :
    ∀ reached ∈ expr.rightEdge, ∀ operand span,
      reached = .unary .neg operand span → op.precedence ≤ 3 := by
  match expr with
  | .binary _ _ right _ =>
      have hright : right.EndsBefore op := h
      rw [rightEdge]
      exact List.forall_mem_cons.mpr ⟨by simp, hright.negations⟩
  | .unary .neg operand _ =>
      obtain ⟨hle, hoperand⟩ := h
      rw [rightEdge]
      exact List.forall_mem_cons.mpr ⟨fun _ _ _ => hle, EndsBefore.negations hoperand⟩
  | .unary .not operand _ =>
      have hoperand : operand.EndsBefore op := h
      rw [rightEdge]
      exact List.forall_mem_cons.mpr ⟨by simp, hoperand.negations⟩
  | .exit _ none _ => simp [rightEdge, rightEdgeOption]
  | .literal .. | .path _ | .access .. | .call .. | .record _ | .typedRecord .. | .question ..
  | .conditional .. | .loop .. | .select .. | .paren .. => simp [rightEdge]

theorem EndsBefore.exits {op : BinaryOp} {expr : Expr σ ν} (h : expr.EndsBefore op) :
    ∀ kind span, expr.rightEdge.getLast? = some (.exit kind none span) → op ≠ .sub := by
  -- The last of an edge that goes on is the last of what it goes on to.
  have hlast (first inner : Expr σ ν) : (first :: inner.rightEdge).getLast? =
      inner.rightEdge.getLast? := by
    obtain ⟨next, rest, hedge⟩ := List.exists_cons_of_ne_nil inner.rightEdge_ne_nil
    simp [hedge]
  match expr with
  | .binary _ _ right _ =>
      have hright : right.EndsBefore op := h
      rw [rightEdge, hlast]
      exact hright.exits
  | .unary .neg operand _ =>
      obtain ⟨-, hoperand⟩ := h
      rw [rightEdge, hlast]
      exact EndsBefore.exits hoperand
  | .unary .not operand _ =>
      have hoperand : operand.EndsBefore op := h
      rw [rightEdge, hlast]
      exact hoperand.exits
  | .exit _ none _ => exact fun _ _ _ => h
  | .literal .. | .path _ | .access .. | .call .. | .record _ | .typedRecord .. | .question ..
  | .conditional .. | .loop .. | .select .. | .paren .. => simp [rightEdge]

theorem HoldsAtLeast.operator? {least : Nat} {expr : Expr σ ν} (h : expr.HoldsAtLeast least) :
    ∀ op ∈ expr.operator?, least ≤ op.precedence := by
  cases expr <;> simp_all [Expr.operator?]

/-- What is read back as it was written obeys the binding powers. -/
theorem Fits.obeysPowers {records : Bool} {expr : Expr σ ν} (h : expr.Fits records) :
    expr.ObeysPowers := by
  match expr with
  | .binary op left right _ =>
      obtain ⟨hleft, hends, -, hright, -⟩ := h
      exact ⟨hright.operator?, hleft.operator?, hends.values, hends.negations, hends.exits⟩
  | .unary .neg operand _ =>
      intro inner hinner
      have hle : 4 ≤ inner.precedence := HoldsAtLeast.operator? h.1 inner hinner
      cases inner <;> simp_all [BinaryOp.precedence]
  | .unary .not operand _ =>
      refine Option.eq_none_iff_forall_not_mem.mpr fun inner hinner => ?_
      have hle : 6 ≤ inner.precedence := HoldsAtLeast.operator? h.1 inner hinner
      cases inner <;> simp [BinaryOp.precedence] at hle
  | .access receiver _ _ => exact ⟨h.1, h.2.1⟩
  | .call callee _ _ => exact h.1
  | .question inner _ => exact h.1
  | .literal .. | .path _ | .record _ | .typedRecord .. | .exit .. | .conditional .. | .loop ..
  | .select .. | .paren .. => trivial

end Expr

/-! ## Every node -/

namespace Outline

/-- Every expression among the nodes fits, with braces that open records or
without. -/
def AllFit (outlines : List (Outline σ ν)) : Prop :=
  ∀ part : Expr σ ν, part.outline ∈ subtreesList outlines → ∃ records, part.Fits records

section

variable {outlines others : List (Outline σ ν)} {outline : Outline σ ν}

theorem AllFit.nil : AllFit ([] : List (Outline σ ν)) := by
  intro part hpart
  simp [subtreesList] at hpart

theorem AllFit.append (h : AllFit outlines) (h' : AllFit others) : AllFit (outlines ++ others) := by
  intro part hpart
  rw [subtreesList_append] at hpart
  exact (List.mem_append.mp hpart).elim (h part) (h' part)

theorem AllFit.cons (h : AllFit [outline]) (h' : AllFit outlines) : AllFit (outline :: outlines) :=
  h.append h'

/-- Only the node itself and those below it are looked at. -/
theorem AllFit.under (h : AllFit outline.children)
    (hroot : ∀ part : Expr σ ν, part.outline = outline → ∃ records, part.Fits records) :
    AllFit [outline] := by
  intro part hpart
  obtain ⟨tag, note, children⟩ := outline
  rw [subtreesList_singleton, subtrees] at hpart
  exact (List.mem_cons.mp hpart).elim (hroot part) (h part)

/-- A node that is no expression. -/
theorem AllFit.node (h : AllFit outline.children) (htag : outline.tag.isExpr = false) :
    AllFit [outline] := by
  refine h.under fun part hpart => ?_
  rw [← hpart, part.isExpr_tag_outline] at htag
  cases htag

theorem AllFit.expr {expr : Expr σ ν} {records : Bool} (h : AllFit expr.outline.children)
    (hfits : expr.Fits records) : AllFit [expr.outline] := by
  refine h.under fun part hpart => ⟨records, ?_⟩
  rwa [Expr.eq_of_outline part expr hpart]

theorem AllFit.declarative (h : ∀ outline ∈ outlines, outline.Declarative) : AllFit outlines := by
  intro part hpart
  obtain ⟨outline, houtline, hpart⟩ := mem_subtreesList.mp hpart
  have htag := (h outline houtline).not_isExpr hpart
  rw [part.isExpr_tag_outline] at htag
  cases htag

theorem AllFit.single (h : outline.Declarative) : AllFit [outline] :=
  .declarative (List.forall_mem_singleton.mpr h)

end

end Outline

open Outline

mutual

theorem Expr.allFit {records : Bool} : (expr : Expr σ ν) → expr.Fits records →
    AllFit [expr.outline]
  | .literal .., h => .expr .nil h
  | .path whole, h => .expr (.single whole.declarative_outline) h
  | .access receiver field _, h =>
      .expr (.cons (receiver.allFit h.2.2) (.single field.declarative_outline)) h
  | .call callee arguments _, h =>
      .expr (.cons (callee.allFit h.2.1) (Expr.allFit_list arguments h.2.2)) h
  | .record ⟨fields, _⟩, h =>
      .expr (.node (Expr.allFit_fields fields h.2) rfl) h
  | .typedRecord path ⟨fields, _⟩ _, h =>
      .expr (.cons (.single path.declarative_outline)
        (.node (Expr.allFit_fields fields h.2) rfl)) h
  | .unary _ operand _, h => .expr (operand.allFit h.2) h
  | .binary _ left right _, h =>
      .expr (.cons (left.allFit h.2.2.1) (right.allFit h.2.2.2.2)) h
  | .question inner _, h => .expr (inner.allFit h.2) h
  | .exit _ none _, h => .expr .nil h
  | .exit _ (some value) _, h => .expr (value.allFit h) h
  | .conditional condition consequence none _, h =>
      .expr (.cons (condition.allFit h.1) (.cons (consequence.allFit h.2) .nil)) h
  | .conditional condition consequence (some (.block body)) _, h =>
      .expr (.cons (condition.allFit h.1) (.cons (consequence.allFit h.2.1) (body.allFit h.2.2))) h
  | .conditional condition consequence (some (.conditional next)) _, h =>
      .expr (.cons (condition.allFit h.1)
        (.cons (consequence.allFit h.2.1) (next.allFit h.2.2.2))) h
  | .loop condition body _, h => .expr (.cons (condition.allFit h.1) (body.allFit h.2)) h
  | .select scrutinee arms _, h =>
      .expr (.cons (scrutinee.allFit h.1) (Arm.allFit_list arms h.2)) h
  | .paren inner _, h => .expr (inner.allFit h) h

theorem Expr.allFit_list : (exprs : List (Expr σ ν)) → Expr.FitsList exprs →
    AllFit (Expr.outlineList exprs)
  | [], _ => .nil
  | expr :: rest, h => .cons (expr.allFit h.1) (Expr.allFit_list rest h.2)

theorem Expr.allFit_fields : (fields : List (Field σ ν (Expr σ ν))) → Expr.FitsFields fields →
    AllFit (Expr.outlineFields fields)
  | [], _ => .nil
  | ⟨name, value, _⟩ :: rest, h =>
      .cons (.node (.cons (.single name.declarative_outline) (value.allFit h.1)) rfl)
        (Expr.allFit_fields rest h.2)

theorem Block.allFit : (block : Block σ ν) → block.Fits → AllFit [block.outline]
  | ⟨statements, none, _⟩, h => .node (.append (Statement.allFit_list statements h) .nil) rfl
  | ⟨statements, some tail, _⟩, h =>
      .node (.append (Statement.allFit_list statements h.1) (tail.allFit h.2.2)) rfl

theorem Statement.allFit {followed : Bool} : (statement : Statement σ ν) →
    statement.Fits followed → AllFit [statement.outline]
  | .import path _, _ => .node (.single path.declarative_outline) rfl
  | .binding name type value _, h =>
      .node (.cons (.single name.declarative_outline)
        (.append (.declarative (TypeExpr.declarative_outlineOption type)) (value.allFit h))) rfl
  | .expr value _, h => .node (value.allFit h.2) rfl
  | .control value, h => .node (value.allFit h.2.2) rfl

theorem Statement.allFit_list {tail : Bool} : (statements : List (Statement σ ν)) →
    Statement.FitsList tail statements → AllFit (Statement.outlineList statements)
  | [], _ => .nil
  | statement :: rest, h => .cons (statement.allFit h.1) (Statement.allFit_list rest h.2)

theorem Arm.allFit : (arm : Arm σ ν) → arm.Fits → AllFit [arm.outline]
  | ⟨pattern, none, body, _, _⟩, h =>
      .node (.cons (.single pattern.declarative_outline) (body.allFit h)) rfl
  | ⟨pattern, some guard, body, _, _⟩, h =>
      .node (.cons (.single pattern.declarative_outline)
        (.cons (guard.allFit h.1) (body.allFit h.2))) rfl

theorem Arm.allFit_list : (arms : List (Arm σ ν)) → Arm.FitsList arms →
    AllFit (Arm.outlineList arms)
  | [], _ => .nil
  | arm :: rest, h => .cons (arm.allFit h.2.1) (Arm.allFit_list rest h.2.2)

theorem ArmBody.allFit : (body : ArmBody σ ν) → body.Fits → AllFit [body.outline]
  | .block body, h => body.allFit h
  | .expr value, h => value.allFit h.2

end

theorem Item.allFit (item : Item σ ν) (h : item.Fits) : AllFit [item.outline] := by
  have hparameters (parameters : List (Parameter σ ν)) :
      AllFit (parameters.map Parameter.outline) :=
    .declarative (List.forall_mem_map.mpr fun parameter _ => parameter.declarative_outline)
  match item with
  | .filter _ name parameters body _ =>
      exact .node (.cons (.single name.declarative_outline)
        ((hparameters parameters).append (body.allFit h))) rfl
  | .function name parameters returns body _ =>
      exact .node (.cons (.single name.declarative_outline) (((hparameters parameters).append
        (.declarative (TypeExpr.declarative_outlineOption returns))).append (body.allFit h))) rfl
  | .record name ⟨fields, _⟩ _ =>
      exact .node (.cons (.single name.declarative_outline) (.single
        (declarative_node rfl (TypeExpr.declarative_outlineFields fields)))) rfl
  | .test name body _ =>
      exact .node (.cons (.single name.declarative_outline) (body.allFit h)) rfl
  | .import path _ => exact .node (.single path.declarative_outline) rfl

theorem Script.allFit (script : Script σ ν) (h : ∀ item ∈ script.items, item.Fits) :
    AllFit [script.outline] := by
  refine .node (fun part hpart => ?_) rfl
  obtain ⟨outline, houtline, hpart⟩ := mem_subtreesList.mp hpart
  obtain ⟨item, hitem, rfl⟩ := List.mem_map.mp houtline
  exact item.allFit (h item hitem) part (by simpa using hpart)

theorem Outline.AllFit.obeysPowers {outline : Outline σ ν} (h : AllFit [outline])
    (expr : Expr σ ν) (hexpr : expr.outline ∈ outline.subtrees) : expr.ObeysPowers := by
  obtain ⟨records, hfits⟩ := h expr (by simpa using hexpr)
  exact hfits.obeysPowers

/-- In every accepted source all expressions obey the binding powers, wherever they
stand, and likewise in a source that is one expression. -/
theorem parse_obeysPowers (source : String) :
    (∀ parsed, parse source = .ok parsed →
      ∀ expr : Expr Span Symbol, expr.outline ∈ parsed.tree.outline.subtrees →
        expr.ObeysPowers) ∧
    (∀ parsed, parseExpr source = .ok parsed →
      ∀ expr : Expr Span Symbol, expr.outline ∈ parsed.tree.outline.subtrees →
        expr.ObeysPowers) :=
  ⟨fun parsed h => (parsed.tree.allFit (fits_of_parse h)).obeysPowers,
    fun parsed h => (parsed.tree.allFit (fits_of_parseExpr h)).obeysPowers⟩

theorem parse_obeysPowers_of_negation :
    ∃ parsed, parse "test a \x7b return -b * c - d; \x7d" = .ok parsed ∧
      ∀ expr : Expr Span Symbol, expr.outline ∈ parsed.tree.outline.subtrees →
        expr.ObeysPowers := by
  have haccepted : (parse "test a \x7b return -b * c - d; \x7d").toBool = true := by decide +kernel
  cases hparsed : parse "test a \x7b return -b * c - d; \x7d" with
  | ok parsed => exact ⟨parsed, rfl, (parse_obeysPowers _).1 parsed hparsed⟩
  | error error => simp [hparsed, Except.toBool] at haccepted

end FilterScript
