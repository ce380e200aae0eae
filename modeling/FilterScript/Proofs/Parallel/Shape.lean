import FilterScript.Grammar.Block
import FilterScript.Proofs.Spans.Lists

/-!
# Shapes

What is left of tokens, trees and faults once texts and places are set aside.
The grammar tells tokens apart by their shapes alone: every question that a
production asks about a token has the same answer for the shape of the token.
-/

namespace FilterScript

/-- The same kind without its text, and without the mark of an escaped name. -/
def Kind.shape : Kind → Kind
  | .keyword word => .keyword word
  | .punct mark => .punct mark
  | .integer _ => .integer ""
  | .ipv4 _ => .ipv4 ""
  | .string _ => .string ""
  | .name _ _ => .name "" false
  | .endOfFile => .endOfFile

/-- The shape of a token. All flaws look the same. -/
def Scan.shape : Scan → Option Kind
  | .ok token => some token.kind.shape
  | .error _ => none

def Literal.shape : Literal → Literal
  | .unit => .unit
  | .bool value => .bool value
  | .integer _ => .integer ""
  | .ipv4 _ => .ipv4 ""
  | .string _ => .string ""

/-- Why a script is refused, whatever was found there. -/
def Cause.shape : Cause → Cause
  | .lexical _ => .lexical .invalidCharacter
  | .unexpected _ expected => .unexpected .endOfFile expected
  | .tooDeep limit => .tooDeep limit

section

variable {σ ν : Type}

/-- The tag without texts, symbols and marks. The path of an import stands below
its node as well and is left out here. -/
def Tag.shape : Tag σ ν → Tag Unit Unit
  | .script => .script
  | .filter kind => .filter kind
  | .function => .function
  | .recordItem => .recordItem
  | .test => .test
  | .importItem _ => .importItem ⟨[], ()⟩
  | .importStatement _ => .importStatement ⟨[], ()⟩
  | .parameter => .parameter
  | .ident _ _ => .ident () false
  | .path => .path
  | .importPath => .importPath
  | .group => .group
  | .namedType => .namedType
  | .optionalType => .optionalType
  | .neverType => .neverType
  | .unitType => .unitType
  | .recordType => .recordType
  | .typeFields => .typeFields
  | .typeField => .typeField
  | .block tail => .block tail
  | .binding => .binding
  | .exprStatement => .exprStatement
  | .controlStatement => .controlStatement
  | .literal value => .literal value.shape
  | .pathExpr => .pathExpr
  | .access => .access
  | .call => .call
  | .recordExpr => .recordExpr
  | .typedRecord => .typedRecord
  | .fields => .fields
  | .field => .field
  | .unary op => .unary op
  | .binary op => .binary op
  | .question => .question
  | .paren => .paren
  | .exit kind => .exit kind
  | .conditional => .conditional
  | .loop => .loop
  | .select => .select
  | .arm guarded last => .arm guarded last
  | .pattern bindings => .pattern bindings

namespace Outline

mutual

/-- The tree without spans, symbols, texts and marks. -/
def shape : Outline σ ν → Outline Unit Unit
  | node tag _ children => node tag.shape () (shapeList children)

def shapeList : List (Outline σ ν) → List (Outline Unit Unit)
  | [] => []
  | outline :: rest => outline.shape :: shapeList rest

end

theorem shapeList_eq_map (outlines : List (Outline σ ν)) :
    shapeList outlines = outlines.map shape := by
  induction outlines with
  | nil => simp [shapeList]
  | cons outline rest ih => rw [shapeList, ih, List.map_cons]

@[simp] theorem shape_node (tag : Tag σ ν) (note : σ) (children : List (Outline σ ν)) :
    (node tag note children).shape = node tag.shape () (children.map shape) := by
  rw [shape, shapeList_eq_map]

end Outline

@[simp] theorem Ident.shape_outline (ident : Ident σ ν) :
    ident.outline.shape = .node (.ident () false) () [] := by
  simp [outline, Tag.shape]

end

namespace Kind

@[simp] theorem isName_shape (kind : Kind) : kind.shape.isName = kind.isName := by
  cases kind <;> rfl

@[simp] theorem continuesExpr_shape (kind : Kind) :
    Grammar.continuesExpr kind.shape = Grammar.continuesExpr kind := by
  cases kind <;> rfl

@[simp] theorem binaryOp_shape (kind : Kind) :
    BinaryOp.ofKind? kind.shape = BinaryOp.ofKind? kind := by
  cases kind <;> rfl

@[simp] theorem unaryOp_shape (kind : Kind) :
    UnaryOp.ofKind? kind.shape = UnaryOp.ofKind? kind := by
  cases kind <;> rfl

@[simp] theorem exitKind_shape (kind : Kind) :
    ExitKind.ofKind? kind.shape = ExitKind.ofKind? kind := by
  cases kind <;> rfl

theorem literal?_shape (kind : Kind) :
    Grammar.literal? kind.shape = (Grammar.literal? kind).map Literal.shape := by
  cases kind with
  | keyword word => cases word <;> rfl
  | _ => rfl

theorem eq_name_of_isName {kind : Kind} (h : kind.isName = true) :
    ∃ text raw, kind = .name text raw := by
  cases kind with
  | name text raw => exact ⟨text, raw, rfl⟩
  | _ => cases h

theorem variant_beq_of_isName {kind other : Kind} (hname : kind.isName = true)
    (hother : other.isFixed) : (kind.variant == other.variant) = false := by
  obtain ⟨text, raw, rfl⟩ := eq_name_of_isName hname
  cases other with
  | keyword word => rfl
  | punct mark => rfl
  | _ => cases hother

/-- Keywords, punctuation and the end have no text that a shape could lose. -/
theorem eq_of_shape_eq {found kind : Kind} (hfixed : kind.isFixed)
    (h : found.shape = kind) : found = kind := by
  cases found <;> first | exact h | (subst h; cases hfixed)

theorem variant_endOfFile_ne {kind : Kind} (hfixed : kind.isFixed) :
    Kind.endOfFile.variant ≠ kind.variant :=
  fun h => ne_endOfFile_of_isFixed hfixed (eq_of_variant_eq hfixed h).symm

/-- Whether a token is some keyword or punctuation mark can be told by its shape. -/
theorem variant_shape_beq {kind : Kind} (hfixed : kind.isFixed) (found : Kind) :
    (found.shape.variant == kind.variant) = (found.variant == kind.variant) := by
  cases kind with
  | keyword word => cases found <;> rfl
  | punct mark => cases found <;> rfl
  | _ => cases hfixed

end Kind

end FilterScript
