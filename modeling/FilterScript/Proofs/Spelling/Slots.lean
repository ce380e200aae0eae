import FilterScript.Tree.Item

/-!
# Trees as they are written

Every tree has a written form, a list of kinds of tokens. In a few places the
writer has a choice: a comma may follow the last element of a list or stand in
an empty one, it may follow an arm whose body is a block and the last arm of a
match, and a type without arguments may have empty brackets. The places of a
tree are listed with the choices left open; `flatten` leaves out all that can be
left out.
-/

namespace FilterScript

/-- A place in the written form of a tree. -/
inductive Slot where
  /-- A token that is always there. -/
  | token (kind : Kind)
  /-- A comma that may be left out. -/
  | spareComma
  /-- Brackets without a type in them that may be left out. -/
  | spareBrackets
deriving DecidableEq, Repr

namespace Slot

/-- The token that always stands in a place. -/
def required? : Slot → Option Kind
  | token kind => some kind
  | spareComma => none
  | spareBrackets => none

/-- What may stand in a place where nothing has to. -/
inductive Spare : Slot → List Kind → Prop
  | noComma : Spare spareComma []
  | comma : Spare spareComma [Punct.comma]
  | noBrackets : Spare spareBrackets []
  | brackets : Spare spareBrackets [Punct.lbracket, Punct.rbracket]
  | bracketsAroundComma : Spare spareBrackets [Punct.lbracket, Punct.comma, Punct.rbracket]

end Slot

/-- The first list of kinds is one way to write the places. Once the tokens that
could have been left out are deleted from it, the second list remains. -/
inductive Trims : List Slot → List Kind → List Kind → Prop
  | nil : Trims [] [] []
  | token {slots : List Slot} {written kept : List Kind} (kind : Kind)
      (rest : Trims slots written kept) :
      Trims (.token kind :: slots) (kind :: written) (kind :: kept)
  | spare {slot : Slot} {piece : List Kind} {slots : List Slot} {written kept : List Kind}
      (choice : slot.Spare piece) (rest : Trims slots written kept) :
      Trims (slot :: slots) (piece ++ written) kept

/-- The tokens that have to be there. -/
def required (slots : List Slot) : List Kind :=
  slots.filterMap Slot.required?

/-- Elements with a separator between them. -/
def joined (separator : Punct) (elements : List (List Slot)) : List Slot :=
  [Slot.token separator].intercalate elements

/-- Elements with commas between them, and perhaps one behind them. -/
def commaSlots (elements : List (List Slot)) : List Slot :=
  joined .comma elements ++ [.spareComma]

variable {σ ν : Type}

def Ident.kind (text : ν → String) (ident : Ident σ ν) : Kind :=
  .name (text ident.name) ident.raw

def Ident.slots (text : ν → String) (ident : Ident σ ν) : List Slot :=
  [.token (ident.kind text)]

def Path.slots (text : ν → String) (path : Path σ ν) : List Slot :=
  joined .dot (path.segments.map (Ident.slots text))

/-- A variant, and in parentheses the names for what it holds. -/
def Pattern.slots (text : ν → String) (pattern : Pattern σ ν) : List Slot :=
  pattern.path.slots text ++
    match pattern.bindings with
    | none => []
    | some names =>
        .token Punct.lparen :: commaSlots (names.map (Ident.slots text)) ++ [.token Punct.rparen]

mutual

def TypeExpr.slots (text : ν → String) : TypeExpr σ ν → List Slot
  | .named path [] _ => path.slots text ++ [.spareBrackets]
  | .named path (first :: rest) _ =>
      path.slots text ++ .token Punct.lbracket ::
        commaSlots (first.slots text :: TypeExpr.slotsList text rest) ++ [.token Punct.rbracket]
  | .optional inner _ => inner.slots text ++ [.token Punct.question]
  | .never _ => [.token Punct.bang]
  | .unit _ => [.token Punct.lparen, .token Punct.rparen]
  | .record ⟨fields, _⟩ =>
      .token Punct.lbrace :: commaSlots (TypeExpr.slotsFields text fields) ++ [.token Punct.rbrace]

def TypeExpr.slotsList (text : ν → String) : List (TypeExpr σ ν) → List (List Slot)
  | [] => []
  | type :: rest => type.slots text :: TypeExpr.slotsList text rest

def TypeExpr.slotsFields (text : ν → String) :
    List (Field σ ν (TypeExpr σ ν)) → List (List Slot)
  | [] => []
  | ⟨name, type, _⟩ :: rest =>
      (name.slots text ++ .token Punct.colon :: type.slots text) ::
        TypeExpr.slotsFields text rest

end

mutual

def ImportPath.slots (text : ν → String) : ImportPath σ ν → List Slot
  | ⟨parts, _⟩ => joined .dot (ImportPart.slotsList text parts)

def ImportPart.slotsList (text : ν → String) : List (ImportPart σ ν) → List (List Slot)
  | [] => []
  | .name ident :: rest => ident.slots text :: ImportPart.slotsList text rest
  | .group members _ :: rest =>
      (.token Punct.lbrace :: commaSlots (ImportPath.slotsList text members) ++
        [.token Punct.rbrace]) :: ImportPart.slotsList text rest

def ImportPath.slotsList (text : ν → String) : List (ImportPath σ ν) → List (List Slot)
  | [] => []
  | path :: rest => path.slots text :: ImportPath.slotsList text rest

end

/-- A whole import up to its semicolon. -/
def ImportPath.declarationSlots (text : ν → String) (path : ImportPath σ ν) : List Slot :=
  .token Keyword.import_ :: path.slots text ++ [.token Punct.semicolon]

/-- The type behind a mark, if there is one. -/
def TypeExpr.slotsAfter (text : ν → String) (mark : Punct) : Option (TypeExpr σ ν) → List Slot
  | none => []
  | some type => .token mark :: type.slots text

def Literal.slots : Literal → List Slot
  | unit => [.token Punct.lparen, .token Punct.rparen]
  | bool true => [.token Keyword.true_]
  | bool false => [.token Keyword.false_]
  | integer digits => [.token (.integer digits)]
  | ipv4 digits => [.token (.ipv4 digits)]
  | string content => [.token (.string content)]

/-- What stands behind an arm: a comma, which may be left out behind a block and
behind the last arm. -/
def ArmBody.separator (last : Bool) : ArmBody σ ν → Slot
  | .block _ => .spareComma
  | .expr _ => if last then .spareComma else .token Punct.comma

mutual

def Expr.slots (text : ν → String) : Expr σ ν → List Slot
  | .literal value _ => value.slots
  | .path whole => whole.slots text
  | .access receiver field _ =>
      receiver.slots text ++ .token Punct.dot :: field.slots text
  | .call callee arguments _ =>
      callee.slots text ++ .token Punct.lparen ::
        commaSlots (Expr.slotsList text arguments) ++ [.token Punct.rparen]
  | .record ⟨fields, _⟩ =>
      .token Punct.lbrace :: commaSlots (Expr.slotsFields text fields) ++ [.token Punct.rbrace]
  | .typedRecord path ⟨fields, _⟩ _ =>
      path.slots text ++ .token Punct.lbrace ::
        commaSlots (Expr.slotsFields text fields) ++ [.token Punct.rbrace]
  | .unary op operand _ => .token op.kind :: operand.slots text
  | .binary op left right _ => left.slots text ++ .token op.punct :: right.slots text
  | .question inner _ => inner.slots text ++ [.token Punct.question]
  | .exit kind value _ => .token kind.keyword :: Expr.slotsOption text value
  | .conditional condition consequence alternative _ =>
      .token Keyword.if_ :: condition.slots text ++ consequence.slots text ++
        Alternative.slotsOption text alternative
  | .loop condition body _ => .token Keyword.while_ :: condition.slots text ++ body.slots text
  | .select scrutinee arms _ =>
      .token Keyword.match_ :: scrutinee.slots text ++ .token Punct.lbrace ::
        Arm.slotsList text arms ++ [.token Punct.rbrace]
  | .paren inner _ => .token Punct.lparen :: inner.slots text ++ [.token Punct.rparen]

def Expr.slotsList (text : ν → String) : List (Expr σ ν) → List (List Slot)
  | [] => []
  | expr :: rest => expr.slots text :: Expr.slotsList text rest

def Expr.slotsOption (text : ν → String) : Option (Expr σ ν) → List Slot
  | none => []
  | some expr => expr.slots text

def Expr.slotsFields (text : ν → String) : List (Field σ ν (Expr σ ν)) → List (List Slot)
  | [] => []
  | ⟨name, value, _⟩ :: rest =>
      (name.slots text ++ .token Punct.colon :: value.slots text) :: Expr.slotsFields text rest

def Alternative.slotsOption (text : ν → String) : Option (Alternative σ ν) → List Slot
  | none => []
  | some (.block body) => .token Keyword.else_ :: body.slots text
  | some (.conditional next) => .token Keyword.else_ :: next.slots text

def Block.slots (text : ν → String) : Block σ ν → List Slot
  | ⟨statements, tail, _⟩ =>
      .token Punct.lbrace :: Statement.slotsList text statements ++
        Expr.slotsOption text tail ++ [.token Punct.rbrace]

def Statement.slots (text : ν → String) : Statement σ ν → List Slot
  | .import path _ => path.declarationSlots text
  | .binding name type value _ =>
      .token Keyword.let_ :: name.slots text ++ TypeExpr.slotsAfter text .colon type ++
        .token Punct.assign :: value.slots text ++ [.token Punct.semicolon]
  | .expr value _ => value.slots text ++ [.token Punct.semicolon]
  | .control value => value.slots text

def Statement.slotsList (text : ν → String) : List (Statement σ ν) → List Slot
  | [] => []
  | statement :: rest => statement.slots text ++ Statement.slotsList text rest

/-- An arm without the comma behind it. -/
def Arm.slots (text : ν → String) : Arm σ ν → List Slot
  | ⟨pattern, none, body, _, _⟩ =>
      pattern.slots text ++ .token Punct.arrow :: body.slots text
  | ⟨pattern, some guard, body, _, _⟩ =>
      pattern.slots text ++ .token Punct.bar :: guard.slots text ++
        .token Punct.arrow :: body.slots text

def Arm.slotsList (text : ν → String) : List (Arm σ ν) → List Slot
  | [] => []
  | arm :: rest =>
      arm.slots text ++ arm.body.separator rest.isEmpty :: Arm.slotsList text rest

def ArmBody.slots (text : ν → String) : ArmBody σ ν → List Slot
  | .block body => body.slots text
  | .expr value => value.slots text

end

attribute [simp] TypeExpr.slots ImportPath.slots Expr.slots Expr.slotsOption Alternative.slotsOption
  Block.slots Statement.slots Arm.slots ArmBody.slots TypeExpr.slotsAfter

/-- Parameters in parentheses. -/
def Parameter.slotsList (text : ν → String) (parameters : List (Parameter σ ν)) : List Slot :=
  .token Punct.lparen :: commaSlots (TypeExpr.slotsFields text parameters) ++
    [.token Punct.rparen]

def Item.slots (text : ν → String) : Item σ ν → List Slot
  | .filter kind name parameters body _ =>
      .token kind.keyword :: name.slots text ++ Parameter.slotsList text parameters ++
        body.slots text
  | .function name parameters returns body _ =>
      .token Keyword.fn :: name.slots text ++ Parameter.slotsList text parameters ++
        TypeExpr.slotsAfter text .arrow returns ++ body.slots text
  | .record name ⟨fields, _⟩ _ =>
      .token Keyword.type_ :: name.slots text ++ .token Punct.lbrace ::
        commaSlots (TypeExpr.slotsFields text fields) ++ [.token Punct.rbrace]
  | .test name body _ => .token Keyword.test :: name.slots text ++ body.slots text
  | .import path _ => path.declarationSlots text

def Script.slots (text : ν → String) (script : Script σ ν) : List Slot :=
  script.items.flatMap (Item.slots text)

/-- An expression in concrete syntax, with nothing that could be left out. -/
def Expr.flatten (text : ν → String) (expr : Expr σ ν) : List Kind :=
  required (expr.slots text)

/-- A script in concrete syntax, with nothing that could be left out. -/
def Script.flatten (text : ν → String) (script : Script σ ν) : List Kind :=
  required (script.slots text)

end FilterScript
