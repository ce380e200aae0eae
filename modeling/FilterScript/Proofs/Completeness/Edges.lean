import FilterScript.Grammar.Block
import FilterScript.Proofs.Completeness.Lists
import FilterScript.Proofs.Levels.Expressions

/-!
# The first tokens of written expressions and statements

What the productions look at before they decide: how an expression, a block and
a statement begin.
-/

namespace FilterScript

namespace Grammar

/-- An expression may begin with this token: where braces open no records it is no
brace, and it is the word of a conditional, loop or match just if the expression
begins with one. -/
def BeginsExpr (records control : Bool) (kind : Kind) : Prop :=
  kind.beginsExpression = true ∧ (records = false → kind ≠ Punct.lbrace) ∧
    kind.isControl = control

theorem expr_begins {records : Bool} (expr : Expr Unit String) (h : expr.Fits records) :
    BeginsWith (BeginsExpr records expr.beginsWithControl) (expr.slots id) := by
  match expr with
  | .literal value _ =>
      cases value with
      | bool value => cases value <;> exact ⟨_, _, rfl, rfl, by simp, rfl⟩
      | _ => exact ⟨_, _, rfl, rfl, by simp, rfl⟩
  | .path whole =>
      obtain ⟨_, more, hpath, _, _, rfl⟩ := path_begins whole
      exact ⟨_, more, by rw [Expr.slots, hpath], rfl, by simp, rfl⟩
  | .access receiver field _ => exact (expr_begins receiver h.2.2).append _
  | .call callee arguments _ => exact ((expr_begins callee h.2.1).append _).append _
  | .record ⟨fields, _⟩ => exact ⟨_, _, rfl, rfl, by simp [h.1], rfl⟩
  | .typedRecord path ⟨fields, _⟩ _ =>
      obtain ⟨_, more, hpath, _, _, rfl⟩ := path_begins path
      exact ⟨_, _, by rw [Expr.slots, hpath]; rfl, rfl, by simp, rfl⟩
  | .unary op operand _ => cases op <;> exact ⟨_, _, rfl, rfl, by simp [UnaryOp.kind], rfl⟩
  | .binary op left right _ => exact (expr_begins left h.2.2.1).append _
  | .question inner _ => exact (expr_begins inner h.2).append _
  | .exit kind value _ => cases kind <;> exact ⟨_, _, rfl, rfl, by simp, rfl⟩
  | .conditional condition consequence alternative _ => exact ⟨_, _, rfl, rfl, by simp, rfl⟩
  | .loop condition body _ => exact ⟨_, _, rfl, rfl, by simp, rfl⟩
  | .select scrutinee arms _ => exact ⟨_, _, rfl, rfl, by simp, rfl⟩
  | .paren inner _ => exact ⟨_, _, rfl, rfl, by simp, rfl⟩

/-- An expression that accesses, calls and question marks may stand behind begins
with no prefix operator and no word of an early exit. -/
theorem postfix_begins {records : Bool} (expr : Expr Unit String) (h : expr.Fits records)
    (htakes : expr.TakesPostfix) :
    BeginsWith (fun kind => UnaryOp.ofKind? kind = none ∧ ExitKind.ofKind? kind = none)
      (expr.slots id) := by
  match expr with
  | .access receiver field _ => exact (postfix_begins receiver h.2.2 h.1).append _
  | .call callee arguments _ => exact ((postfix_begins callee h.2.1 h.1).append _).append _
  | .question inner _ => exact (postfix_begins inner h.2 h.1).append _
  | .literal value _ =>
      cases value with
      | bool value => cases value <;> exact ⟨_, _, rfl, rfl, rfl⟩
      | _ => exact ⟨_, _, rfl, rfl, rfl⟩
  | .path whole =>
      obtain ⟨_, more, hpath, _, _, rfl⟩ := path_begins whole
      exact ⟨_, more, by rw [Expr.slots, hpath], rfl, rfl⟩
  | .typedRecord path ⟨fields, _⟩ _ =>
      obtain ⟨_, more, hpath, _, _, rfl⟩ := path_begins path
      exact ⟨_, _, by rw [Expr.slots, hpath]; rfl, rfl, rfl⟩
  | .record ⟨fields, _⟩ => exact ⟨_, _, rfl, rfl, rfl⟩
  | .conditional condition consequence alternative _ => exact ⟨_, _, rfl, rfl, rfl⟩
  | .loop condition body _ => exact ⟨_, _, rfl, rfl, rfl⟩
  | .select scrutinee arms _ => exact ⟨_, _, rfl, rfl, rfl⟩
  | .paren inner _ => exact ⟨_, _, rfl, rfl, rfl⟩

theorem block_begins (block : Block Unit String) :
    BeginsWith (· = Kind.punct .lbrace) (block.slots id) := by
  obtain ⟨statements, tail, span⟩ := block
  exact ⟨_, _, rfl, rfl⟩

/-- A statement may begin with this token. -/
def BeginsStatement (kind : Kind) : Prop :=
  kind = Keyword.let_ ∨ kind = Keyword.import_ ∨ kind.beginsExpression = true

theorem statement_begins {followed : Bool} (statement : Statement Unit String)
    (h : statement.Fits followed) : BeginsWith BeginsStatement (statement.slots id) := by
  match statement with
  | .import path _ => exact ⟨_, _, rfl, .inr (.inl rfl)⟩
  | .binding name type value _ => exact ⟨_, _, rfl, .inl rfl⟩
  | .expr value _ =>
      obtain ⟨kind, more, hslots, hbegins, _⟩ := expr_begins value h.2
      exact ⟨kind, _, by rw [Statement.slots, hslots]; rfl, .inr (.inr hbegins)⟩
  | .control value =>
      obtain ⟨kind, more, hslots, hbegins, _⟩ := expr_begins value h.2.2
      exact ⟨kind, _, by rw [Statement.slots, hslots], .inr (.inr hbegins)⟩

/-- A token that may begin a statement neither goes on with an expression nor ends
a statement. -/
theorem BeginsStatement.stops {kind : Kind} (h : BeginsStatement kind) :
    continuesExpr kind = false ∧ kind ≠ Punct.semicolon ∧ kind ≠ Punct.rbrace ∧
      kind ≠ Keyword.else_ := by
  rcases h with rfl | rfl | h
  · exact ⟨rfl, by simp, by simp, by simp⟩
  · exact ⟨rfl, by simp, by simp, by simp⟩
  · unfold Kind.beginsExpression at h
    split at h <;> first | exact ⟨rfl, by simp, by simp, by simp⟩ | cases h

/-! ## Records and blocks -/

/-- What begins like this is not taken for the fields of a record: if the first
token is a name, no colon stands behind it. -/
def NoFieldFirst (slots : List Slot) : Prop :=
  ∃ kind more, slots = .token kind :: more ∧
    (kind.isName = true → ∃ next others, more = .token next :: others ∧ next ≠ Punct.colon)

theorem BeginsWith.noFieldFirst {slots : List Slot} (h : BeginsWith (Kind.isName · = false) slots)
    (more : List Slot) : NoFieldFirst (slots ++ more) := by
  obtain ⟨kind, others, rfl, hkind⟩ := h
  exact ⟨kind, others ++ more, rfl, fun hname => by simp [hkind] at hname⟩

theorem path_noFieldFirst {kind : Kind} (hkind : kind ≠ Punct.colon) (more : List Slot)
    (path : Path Unit String) : NoFieldFirst (path.slots id ++ .token kind :: more) := by
  rw [Path.slots, Path.segments, List.map_cons, joined_cons]
  cases path.rest with
  | nil => exact ⟨_, _, rfl, fun _ => ⟨kind, more, rfl, hkind⟩⟩
  | cons second others => exact ⟨_, _, rfl, fun _ => ⟨_, _, rfl, by simp⟩⟩

theorem expr_noFieldFirst {records : Bool} {kind : Kind} (hkind : kind ≠ Punct.colon)
    (more : List Slot) (expr : Expr Unit String) (h : expr.Fits records) :
    NoFieldFirst (expr.slots id ++ .token kind :: more) := by
  have hbegins : ∀ {others : List Slot}, BeginsWith (Kind.isName · = false) others →
      NoFieldFirst (others ++ .token kind :: more) :=
    fun h => BeginsWith.noFieldFirst h _
  match expr with
  | .literal value _ =>
      apply hbegins
      cases value with
      | bool value => cases value <;> exact ⟨_, _, rfl, rfl⟩
      | _ => exact ⟨_, _, rfl, rfl⟩
  | .path whole => exact path_noFieldFirst hkind more whole
  | .access receiver field _ =>
      have hdot : Kind.punct .dot ≠ Punct.colon := by simp
      simpa using expr_noFieldFirst hdot (field.slots id ++ .token kind :: more) receiver h.2.2
  | .call callee arguments _ =>
      have hparen : Kind.punct .lparen ≠ Punct.colon := by simp
      simpa using expr_noFieldFirst hparen
        (commaSlots (Expr.slotsList id arguments) ++ .token Punct.rparen :: .token kind :: more)
        callee h.2.1
  | .record ⟨fields, _⟩ => exact hbegins ⟨_, _, rfl, rfl⟩
  | .typedRecord path ⟨fields, _⟩ _ =>
      have hbrace : Kind.punct .lbrace ≠ Punct.colon := by simp
      simpa using path_noFieldFirst hbrace
        (commaSlots (Expr.slotsFields id fields) ++ .token Punct.rbrace :: .token kind :: more) path
  | .unary op operand _ =>
      apply hbegins
      cases op <;> exact ⟨_, _, rfl, rfl⟩
  | .binary op left right _ =>
      have hop : Kind.punct op.punct ≠ Punct.colon := by cases op <;> simp [BinaryOp.punct]
      simpa using expr_noFieldFirst hop (right.slots id ++ .token kind :: more) left h.2.2.1
  | .question inner _ =>
      have hmark : Kind.punct .question ≠ Punct.colon := by simp
      simpa using expr_noFieldFirst hmark (.token kind :: more) inner h.2
  | .exit exit value _ =>
      apply hbegins
      cases exit <;> exact ⟨_, _, rfl, rfl⟩
  | .conditional condition consequence alternative _ => exact hbegins ⟨_, _, rfl, rfl⟩
  | .loop condition body _ => exact hbegins ⟨_, _, rfl, rfl⟩
  | .select scrutinee arms _ => exact hbegins ⟨_, _, rfl, rfl⟩
  | .paren inner _ => exact hbegins ⟨_, _, rfl, rfl⟩

theorem statement_noFieldFirst {followed : Bool} (statement : Statement Unit String)
    (h : statement.Fits followed) (more : List Slot) :
    NoFieldFirst (statement.slots id ++ more) := by
  match statement with
  | .import path _ => exact BeginsWith.noFieldFirst ⟨_, _, rfl, rfl⟩ more
  | .binding name type value _ => exact BeginsWith.noFieldFirst ⟨_, _, rfl, rfl⟩ more
  | .expr value _ =>
      have hsemicolon : Kind.punct .semicolon ≠ Punct.colon := by simp
      simpa using expr_noFieldFirst hsemicolon more value h.2
  | .control value =>
      obtain ⟨kind, others, hslots, _, _, hcontrol⟩ := expr_begins value h.2.2
      rw [Expr.beginsWithControl_of_isControl h.1] at hcontrol
      refine BeginsWith.noFieldFirst ⟨kind, others, hslots, ?_⟩ more
      cases kind <;> first | rfl | cases hcontrol

/-- What stands in a block is not taken for the fields of a record. -/
theorem block_noFieldFirst {block : Block Unit String} (h : block.Fits) :
    ∃ slots, block.slots id = .token Punct.lbrace :: slots ∧ NoFieldFirst slots := by
  obtain ⟨statements, tail, span⟩ := block
  refine ⟨_, rfl, ?_⟩
  cases statements with
  | nil =>
      cases tail with
      | none => exact ⟨_, _, rfl, by simp [Kind.isName]⟩
      | some tail =>
          have hbrace : Kind.punct .rbrace ≠ Punct.colon := by simp
          exact expr_noFieldFirst hbrace [] tail h.2.2
  | cons first others =>
      have hfirst : ∃ followed, first.Fits followed := by
        cases tail with
        | none => exact ⟨_, h.1⟩
        | some tail => exact ⟨_, h.1.1⟩
      obtain ⟨followed, hfirst⟩ := hfirst
      have hslots := statement_noFieldFirst first hfirst
        (Statement.slotsList id others ++ Expr.slotsOption id tail ++ [.token Punct.rbrace])
      simpa [Statement.slotsList] using hslots

/-- Nothing that begins like this is taken for a block: another token than a
brace, or a brace with a field behind it. -/
def NoBlockFirst (slots : List Slot) : Prop :=
  BeginsWith (· ≠ Kind.punct .lbrace) slots ∨
    ∃ text raw more,
      slots = .token Punct.lbrace :: .token (.name text raw) :: .token Punct.colon :: more

theorem NoBlockFirst.append {slots : List Slot} (h : NoBlockFirst slots) (more : List Slot) :
    NoBlockFirst (slots ++ more) := by
  rcases h with hbegins | ⟨text, raw, others, rfl⟩
  · exact .inl (hbegins.append more)
  · exact .inr ⟨text, raw, others ++ more, rfl⟩

theorem expr_noBlockFirst {records : Bool} (expr : Expr Unit String) (h : expr.Fits records)
    (hrecord : ¬ expr.BeginsWithEmptyRecord) : NoBlockFirst (expr.slots id) := by
  match expr with
  | .access receiver field _ => exact (expr_noBlockFirst receiver h.2.2 hrecord).append _
  | .call callee arguments _ =>
      exact ((expr_noBlockFirst callee h.2.1 hrecord).append _).append _
  | .question inner _ => exact (expr_noBlockFirst inner h.2 hrecord).append _
  | .binary op left right _ => exact (expr_noBlockFirst left h.2.2.1 hrecord).append _
  | .record ⟨fields, _⟩ =>
      cases fields with
      | nil => exact absurd rfl hrecord
      | cons first others =>
          rw [Expr.slots, Expr.slotsFields_eq_map, List.map_cons, commaSlots, joined_cons]
          exact .inr ⟨_, _, _, rfl⟩
  | .literal value _ =>
      cases value with
      | bool value => cases value <;> exact .inl ⟨_, _, rfl, by simp⟩
      | _ => exact .inl ⟨_, _, rfl, by simp⟩
  | .path whole =>
      obtain ⟨_, more, hpath, _, _, rfl⟩ := path_begins whole
      exact .inl ⟨_, more, by rw [Expr.slots, hpath], by simp⟩
  | .typedRecord path ⟨fields, _⟩ _ =>
      obtain ⟨_, more, hpath, _, _, rfl⟩ := path_begins path
      exact .inl ⟨_, _, by rw [Expr.slots, hpath]; rfl, by simp⟩
  | .unary op operand _ => cases op <;> exact .inl ⟨_, _, rfl, by simp [UnaryOp.kind]⟩
  | .exit kind value _ => cases kind <;> exact .inl ⟨_, _, rfl, by simp⟩
  | .conditional condition consequence alternative _ => exact .inl ⟨_, _, rfl, by simp⟩
  | .loop condition body _ => exact .inl ⟨_, _, rfl, by simp⟩
  | .select scrutinee arms _ => exact .inl ⟨_, _, rfl, by simp⟩
  | .paren inner _ => exact .inl ⟨_, _, rfl, by simp⟩

end Grammar

end FilterScript
