import FilterScript.Proofs.Levels.Expressions
import FilterScript.Proofs.Parallel.Lists

/-!
# Expressions with the fork ahead

Which tokens get a single run of an expression or a block past the place that it
stands in front of. Most of them are the ones that the production begins with. A
brace may also be opened in front of the place before it is known what it opens.
-/

namespace FilterScript

namespace Grammar

open Parse Parallel

variable {records : Bool} {place : Stream} {token : Token} {bound : Nat}

/-- Whether an expression may start with this token, where a brace opens a record
or not as told. -/
def beginsOperand (records : Bool) (kind : Kind) : Bool :=
  kind.beginsExpression && (records || kind.variant != Kind.variant Punct.lbrace)

theorem beginsOperand_shape (kind : Kind) :
    beginsOperand records kind.shape = beginsOperand records kind := by
  cases kind <;> rfl

/-- Tokens that get a run of the productions that others go back to past a place.
In front of the place it may have taken a brace. Whether that opens a block or a
record, the name behind it is taken, and so is a colon behind the name of a first
field. -/
structure RulesPass (place : Stream) (bound : Nat) (rules : Rules) : Prop where
  expr : ∀ {least records token}, 0 < bound → place.lookahead 0 = .ok token →
    beginsOperand records token.kind = true →
      Passes place [] records (rules.expr least) Never
  elseIf : ∀ {records token}, 0 < bound → place.lookahead 0 = .ok token →
    token.kind = Keyword.if_ → Passes place [] records rules.elseIf Never
  block : ∀ {records token}, 0 < bound → place.lookahead 0 = .ok token →
    token.kind = Punct.lbrace → Passes place [] records rules.block Never
  blockName : ∀ {records token} {left : Token}, 1 < bound → left.kind = Punct.lbrace →
    place.lookahead 0 = .ok token → token.kind.isName = true →
      Passes place [left] records rules.block Never
  exprName : ∀ {least token} {left : Token}, 1 < bound → left.kind = Punct.lbrace →
    place.lookahead 0 = .ok token → token.kind.isName = true →
      Passes place [left] true (rules.expr least) Never
  exprColon : ∀ {least token} {left name : Token}, 2 < bound → left.kind = Punct.lbrace →
    name.kind.isName = true → place.lookahead 0 = .ok token → token.kind = Punct.colon →
      Passes place [left, name] true (rules.expr least) Never

/-- An operator that holds tightly enough. -/
def continuesOperators (least : Nat) (kind : Kind) : Bool :=
  (BinaryOp.ofKind? kind).any fun op => least ≤ op.precedence

theorem isControl_iff {kind : Kind} : kind.isControl = true ↔
    kind = Keyword.if_ ∨ kind = Keyword.while_ ∨ kind = Keyword.match_ := by
  cases kind with
  | keyword word => cases word <;> simp [Kind.isControl]
  | _ => simp [Kind.isControl]

/-- Whether a primary expression may start with this token. -/
def beginsPrimary (records : Bool) : Kind → Bool
  | .integer _ | .ipv4 _ | .string _ | .name _ _ => true
  | .keyword .true_ | .keyword .false_ => true
  | .keyword .if_ | .keyword .while_ | .keyword .match_ => true
  | .punct .lparen => true
  | .punct .lbrace => records
  | _ => false

theorem beginsPrimary_iff {kind : Kind} : beginsPrimary records kind = true ↔
    (∃ value, literal? kind = some value) ∨ kind = Keyword.if_ ∨ kind = Keyword.while_ ∨
      kind = Keyword.match_ ∨ kind = Punct.lparen ∨ kind.isName = true ∨
        records = true ∧ kind = Punct.lbrace := by
  cases kind with
  | keyword word => cases word <;> simp [beginsPrimary, literal?, Kind.isName]
  | punct mark => cases mark <;> simp [beginsPrimary, literal?, Kind.isName]
  | _ => simp [beginsPrimary, literal?, Kind.isName]

/-- An operand begins with a primary expression, or with the operator or the word
in front of one. -/
theorem beginsOperand_eq (records : Bool) (kind : Kind) :
    beginsOperand records kind = (beginsPrimary records kind ||
      ((UnaryOp.ofKind? kind).isSome || (ExitKind.ofKind? kind).isSome)) := by
  cases kind with
  | keyword word => cases word <;> cases records <;> rfl
  | punct mark => cases mark <;> cases records <;> rfl
  | _ => cases records <;> rfl

theorem recordNext_passes {β : Type} {yes no : Parse β} {stop : β → Kind → Prop}
    {ahead : List Token}
    (h : Passes place ahead true (do if ← nextIs Punct.lbrace then yes else no) stop) :
    Passes place ahead true (do if ← recordNext then yes else no) stop := by
  unfold recordNext
  rw [bind_assoc]
  apply Passes.bind_get
  intro state hrecords
  rwa [if_pos hrecords]

section

/-- Where records are allowed, a brace opens one. -/
theorem primary_record_passes {rules : Rules} {ahead : List Token}
    (hshown : (place.before ahead).lookahead 0 = .ok token) (hkind : token.kind = Punct.lbrace)
    (h : Passes place ahead true (record Expr.span (rules.expr 0)) Never) :
    Passes place ahead true (primary rules) Never := by
  obtain ⟨kind, span⟩ := token
  obtain rfl : kind = Punct.lbrace := hkind
  refine Passes.bind_peek hshown ?_
  apply recordNext_passes
  refine Passes.if_nextIs hshown rfl ?_
  exact .bind_any h

variable {rules : Rules} [RulesSteady rules]

theorem operatorRound_passes {least : Nat} {left : Expr Span Symbol}
    (hshown : place.lookahead 0 = .ok token) (hop : continuesOperators least token.kind = true) :
    Passes place [] records (operatorRound rules least left) Never := by
  obtain ⟨op, hop, hleast⟩ := (Option.any_eq_true _ _).mp hop
  have hend : token.kind ≠ .endOfFile := by
    intro hend
    rw [hend] at hop
    cases hop
  refine Passes.bind_peek hshown ?_
  simp only [hop, if_neg (Nat.not_lt.mpr (of_decide_eq_true hleast))]
  exact .bind_any (.advance hshown hend)

theorem operators_passes {least : Nat} {left : Expr Span Symbol}
    (hshown : place.lookahead 0 = .ok token) (hop : continuesOperators least token.kind = true) :
    Passes place [] records (operators rules least left) Never :=
  .repeated (operatorRound_passes hshown hop).of_never

/-- Behind a conditional, a loop or a match, what can only go on with it is taken
as an access, a question mark or an operator. -/
theorem continued_passes {control : Expr Span Symbol} (hshown : place.lookahead 0 = .ok token)
    (hcontinues : continuesExpr token.kind = true) :
    Passes place [] records (do
      let first ← postfixes rules control
      operators rules 0 first) Never := by
  rcases continuesExpr_iff.mp hcontinues with hdot | hmark | ⟨op, -, hop⟩
  · exact .bind_any (.repeated (.if_takes hshown Kind.noConfusion hdot))
  · apply Passes.bind_any
    apply Passes.repeated
    refine Passes.if_takes_not hshown (by rw [hmark]; rfl) ?_
    refine Passes.if_takes_not hshown (by rw [hmark]; rfl) ?_
    refine Passes.if_nextIs hshown hmark ?_
    exact .bind_any (.advance hshown (hmark ▸ Kind.noConfusion))
  · -- No operator is a postfix, so the run stops in front of it.
    have hpostfixes : Passes place [] records (postfixes rules control)
        fun _ found => found = token.kind := by
      apply Passes.repeated
      refine Passes.if_takes_not hshown (by rw [hop]; cases op <;> rfl) ?_
      refine Passes.if_takes_not hshown (by rw [hop]; cases op <;> rfl) ?_
      refine Passes.if_nextIs_not hshown (by rw [hop]; cases op <;> rfl) ?_
      exact .pure hshown ⟨control, rfl, rfl⟩
    apply hpostfixes.bind
    intro first other hother hfound records
    apply operators_passes hother
    rw [hfound, hop]
    cases op <;> rfl

theorem conditional_passes (hshown : place.lookahead 0 = .ok token)
    (hkind : token.kind = Keyword.if_) : Passes place [] records (conditional rules) Never :=
  .bind_any (.expect hshown Kind.noConfusion hkind)

theorem whileLoop_passes (hshown : place.lookahead 0 = .ok token)
    (hkind : token.kind = Keyword.while_) : Passes place [] records (whileLoop rules) Never :=
  .bind_any (.expect hshown Kind.noConfusion hkind)

theorem select_passes (hshown : place.lookahead 0 = .ok token)
    (hkind : token.kind = Keyword.match_) : Passes place [] records (select rules) Never :=
  .bind_any (.expect hshown Kind.noConfusion hkind)

theorem parenthesized_passes (hshown : place.lookahead 0 = .ok token)
    (hkind : token.kind = Punct.lparen) : Passes place [] records (parenthesized rules) Never :=
  .bind_any (.expect hshown Kind.noConfusion hkind)

theorem pattern_passes (hshown : place.lookahead 0 = .ok token)
    (hname : token.kind.isName = true) : Passes place [] records pattern Never := by
  refine Passes.bind_peek hshown ?_
  rw [if_pos hname]
  exact .bind_any (path_passes hshown hname)

theorem pathExpr_passes (hshown : place.lookahead 0 = .ok token)
    (hname : token.kind.isName = true) : Passes place [] records (pathExpr rules) Never :=
  .bind_any (path_passes hshown hname)

theorem primary_passes (hshown : place.lookahead 0 = .ok token)
    (hbegins : beginsPrimary records token.kind = true) :
    Passes place [] records (primary rules) Never := by
  obtain ⟨kind, span⟩ := token
  rcases beginsPrimary_iff.mp hbegins with ⟨value, hvalue⟩ | rfl | rfl | rfl | rfl | hname | ⟨rfl, rfl⟩
  · refine Passes.bind_peek hshown ?_
    simp only [hvalue]
    refine .bind_any (.advance hshown ?_)
    rintro rfl
    cases hvalue
  · exact Passes.bind_peek hshown (conditional_passes hshown rfl)
  · exact Passes.bind_peek hshown (whileLoop_passes hshown rfl)
  · exact Passes.bind_peek hshown (select_passes hshown rfl)
  · exact Passes.bind_peek hshown (parenthesized_passes hshown rfl)
  · obtain ⟨text, raw, rfl⟩ := Kind.eq_name_of_isName hname
    exact Passes.bind_peek hshown (pathExpr_passes hshown rfl)
  · exact primary_record_passes hshown rfl (record_passes hshown rfl)

theorem operand_passes (hshown : place.lookahead 0 = .ok token)
    (hbegins : beginsOperand records token.kind = true) :
    Passes place [] records (operand rules) Never := by
  have hend : token.kind ≠ .endOfFile := by
    intro hend
    rw [hend] at hbegins
    cases hbegins
  refine Passes.bind_peek hshown ?_
  split
  next => exact .bind_any (.advance hshown hend)
  next => exact .bind_any (.advance hshown hend)
  next hunary hexit =>
    rw [beginsOperand_eq] at hbegins
    simp only [hunary, hexit, Option.isSome_none, Bool.or_false] at hbegins
    exact .bind_any (primary_passes hshown hbegins)

theorem operation_passes {least : Nat} (hshown : place.lookahead 0 = .ok token)
    (hbegins : beginsOperand records token.kind = true) :
    Passes place [] records (operation rules least) Never :=
  .nested (.bind_any (operand_passes hshown hbegins))

/-- A record at the start of an expression, once its brace is taken. -/
theorem operation_record_passes {least : Nat} {left : Token} {ahead : List Token}
    (hleft : left.kind = Punct.lbrace)
    (h : Passes place (left :: ahead) true (record Expr.span (rules.expr 0)) Never) :
    Passes place (left :: ahead) true (operation rules least) Never := by
  have hoperand : Passes place (left :: ahead) true (operand rules) Never := by
    refine Passes.bind_peek (Stream.lookahead_zero _ _ _) ?_
    rw [hleft]
    exact .bind_any (primary_record_passes (Stream.lookahead_zero _ _ _) hleft h)
  exact .nested (.bind_any hoperand)

theorem binding_passes (hshown : place.lookahead 0 = .ok token)
    (hkind : token.kind = Keyword.let_) : Passes place [] records (binding rules) Never :=
  .bind_any (.expect hshown Kind.noConfusion hkind)

/-- A conditional, loop or match at the start of a statement. -/
theorem leadingExpr_passes (hshown : place.lookahead 0 = .ok token)
    (hcontrol : token.kind.isControl = true) :
    Passes place [] records (leadingExpr rules) Never := by
  refine Passes.bind_peek hshown ?_
  rcases isControl_iff.mp hcontrol with hkind | hkind | hkind
  · rw [hkind]
    exact .bind_any (conditional_passes hshown hkind)
  · rw [hkind]
    exact .bind_any (whileLoop_passes hshown hkind)
  · rw [hkind]
    exact .bind_any (select_passes hshown hkind)

theorem braces_passes (hshown : place.lookahead 0 = .ok token)
    (hkind : token.kind = Punct.lbrace) : Passes place [] records (braces rules) Never :=
  .nested (.bind_any (.expect hshown Kind.noConfusion hkind))

/-- A name behind the brace that opens a block begins an expression. -/
theorem braces_name_passes {left : Token} (hleft : left.kind = Punct.lbrace)
    (hshown : place.lookahead 0 = .ok token) (hname : token.kind.isName = true)
    (h : Passes place [] true (rules.expr 0) Never) :
    Passes place [left] records (braces rules) Never := by
  have hother {kind : Kind} (hfixed : kind.isFixed) := Kind.variant_beq_of_isName hname hfixed
  have hleading : Passes place [] true (leadingExpr rules) Never := by
    refine Passes.bind_peek hshown ?_
    obtain ⟨text, raw, hkind⟩ := Kind.eq_name_of_isName hname
    rw [hkind]
    exact h
  apply Passes.nested
  apply Passes.bind_expect hleft
  apply Passes.bind_any
  apply Passes.withRecords
  apply Passes.repeated
  -- A name closes no block and begins neither a binding nor an import.
  refine Passes.if_accepts_not hshown (hother rfl) ?_
  refine Passes.if_nextIs_not hshown (hother rfl) ?_
  refine Passes.if_nextIs_not hshown (hother rfl) ?_
  exact .bind_any hleading

end

theorem meets_expression_of_not_begins {kind : Kind} (h : beginsOperand records kind = false) :
    Expected.expression.meets kind = false := by
  rcases Bool.and_eq_false_iff.mp h with hbegins | hbrace
  · simp only [Expected.meets, hbegins, Bool.false_and]
  · have hvariant : kind.variant = Kind.variant Punct.lbrace := by
      simpa using (Bool.or_eq_false_iff.mp hbrace).2
    rw [Kind.eq_of_variant_eq rfl hvariant]
    rfl

theorem beginsOperand_of_isName {kind : Kind} (hname : kind.isName = true) :
    beginsOperand records kind = true := by
  obtain ⟨text, raw, rfl⟩ := Kind.eq_name_of_isName hname
  cases records <;> rfl

/-- One more level takes one more token in front of the place. -/
theorem unfold_pass {rules : Rules} [RulesSteady rules] (h : RulesPass place bound rules) :
    RulesPass place (bound + 1) rules.unfold where
  expr _ hshown hbegins := operation_passes hshown hbegins
  elseIf _ hshown hkind := conditional_passes hshown hkind
  block _ hshown hkind := braces_passes hshown hkind
  blockName hbound hleft hshown hname :=
    braces_name_passes hleft hshown hname
      (h.expr (Nat.lt_of_succ_lt_succ hbound) hshown (beginsOperand_of_isName hname))
  exprName _ hleft hshown hname :=
    operation_record_passes hleft
      (record_field_passes hleft hshown hname (field_passes hshown hname))
  exprColon _ hleft hname hshown hkind :=
    operation_record_passes hleft
      (record_field_passes hleft (Stream.lookahead_zero _ _ _) hname
        (field_colon_passes hname hshown hkind))

theorem rulesWithin_pass {levels : Nat} (hlevels : bound ≤ levels) :
    RulesPass place bound (rulesWithin levels) := by
  induction bound generalizing levels with
  | zero => constructor <;> exact fun hbound => absurd hbound (by omega)
  | succ bound ih =>
      cases levels with
      | zero => cases hlevels
      | succ levels =>
          rw [rulesWithin_succ]
          exact unfold_pass (ih (Nat.le_of_succ_le_succ hlevels))

end Grammar

end FilterScript
