import FilterScript.Proofs.Layout.Lists
import FilterScript.Proofs.Spans.Expressions

/-!
# The layout of expressions and blocks

A loop builds its tree from the inside out, and every node is arranged at the moment
it is built. The row of arms grows with each round of the match: whether an arm is the
last one is read off the token behind its comma, and so it is known before the next
round whether there is one.
-/

namespace FilterScript

namespace Grammar

open Parse Outline

variable {final : Names} {rules : Rules} {records : Bool} {input : List Scan}

/-- The nodes of all that the three productions give are arranged. -/
structure RulesArranged (final : Names) (rules : Rules) : Prop where
  covered : RulesCovered final rules
  expr : ∀ least, Arranges final Expr.outline (rules.expr least)
  block : Arranges final Block.outline rules.block
  elseIf : Arranges final Expr.outline rules.elseIf

theorem operators_arrange (h : RulesArranged final rules) {least : Nat} {first : Expr Span Symbol}
    {before : List Token} (hfirst : Every (Arranged final) [first.outline] before) :
    Reads final records input (operators rules least first) fun expr taken _ =>
      Every (Arranged final) [expr.outline] (before ++ taken) := by
  refine .repeated (fun expr taken _ => Every (Arranged final) [expr.outline] (before ++ taken))
    (by simpa using hfirst) fun left taken rest hleft => .bind_peek fun token hshows => ?_
  split
  next op hop =>
    split
    · exact .pure (by simpa using hleft)
    · have hkind := BinaryOp.ofKind?_eq_some_iff.mp hop
      refine .bind_advance ⟨token, hshows, congrArg Kind.variant hkind⟩ rfl fun mark rest _ _ => ?_
      refine .bind (h.expr _ records rest) fun right more rest _ hright => .pure ?_
      simp only [Reads.Keeps, Expr.outline]
      refine .node trivial ?_
      simpa using hleft.append (hright.skip [mark])
  next => exact .pure (by simpa using hleft)

theorem postfixes_arrange (h : RulesArranged final rules) {first : Expr Span Symbol}
    {before : List Token} (hfirst : Laid final first.outline before) :
    Reads final records input (postfixes rules first) fun expr taken _ =>
      Laid final expr.outline (before ++ taken) := by
  refine .repeated (fun expr taken _ => Laid final expr.outline (before ++ taken))
    (by simpa using hfirst) fun expr taken rest hexpr => ?_
  have hcovers := hexpr.covers
  refine .bind_takes rfl (fun dot rest _ _ => ?_) fun _ => ?_
  · refine .bind (ident_covered.laid ident_arranges) fun name more rest _ hname => ?_
    refine .pure ⟨?_, ?_⟩ <;> rw [Expr.outline]
    · refine covers_node.mpr ⟨?_, ?_⟩
      · simpa using hcovers.joins.hull [dot] hname.covers.joins
      · simpa using hcovers.cons (hname.covers.coverIn.skip [dot])
    · exact .node trivial (by simpa using hexpr.every.append (hname.every.skip [dot]))
  refine .bind_takes rfl (fun left rest _ hleft => ?_) fun _ => ?_
  · refine .bind (.withRecords ((commaList_covered (h.covered.expr 0)).and
      (commaList_arranges (h.covered.expr 0) (h.expr 0)))) ?_
    rintro arguments more rest _ ⟨hcovered, hlisted, harguments⟩
    refine .bind_expect rfl fun right rest _ hright => ?_
    have hjoins : (expr.span.hull right.span).Joins
        (before ++ taken ++ left :: (more ++ [right])) := by
      simpa using hcovers.joins.hull (left :: more) (.single right)
    refine .pure ⟨?_, ?_⟩ <;> rw [Expr.outline, Expr.outlineList_eq_map]
    · refine covers_node.mpr ⟨by simpa using hjoins, ?_⟩
      simpa using hcovers.cons ((hcovered.skip [left]).trail [right])
    · refine .node ⟨by simpa using hjoins, ?_⟩ ?_
      · simpa using Enclosed.of_tokens (before ++ taken) more hcovers.joins hleft hlisted hright
      · simpa using hexpr.every.append ((harguments.skip [left]).trail [right])
  refine .bind_nextIs (fun hnext => ?_) fun _ => .pure (by simpa using hexpr)
  refine .bind_advance hnext rfl fun mark rest _ _ => .pure ⟨?_, ?_⟩ <;> rw [Expr.outline]
  · refine covers_node.mpr ⟨?_, ?_⟩
    · simpa using hcovers.joins.hull [] (.single mark)
    · simpa using hcovers.coverIn.trail [mark]
  · exact .node trivial (by simpa using hexpr.every.trail [mark])

/-! ## Conditionals, loops and matches -/

theorem alternative_arranges (h : RulesArranged final rules) :
    Reads final records input (alternative rules) fun other taken _ =>
      Every (Arranged final) (Alternative.outlineOption other) taken := by
  refine .bind_takes rfl (fun mark rest _ _ => ?_) fun _ =>
    .pure (by simpa [Alternative.outlineOption] using Every.nil)
  refine .bind_nextIs (fun _ => ?_) fun _ => ?_
  · refine .bind (h.elseIf records rest) fun next more rest _ hnext => .pure ?_
    simpa [Alternative.outlineOption] using hnext.skip [mark]
  · refine .bind (h.block records rest) fun body more rest _ hbody => .pure ?_
    simpa [Alternative.outlineOption] using hbody.skip [mark]

theorem conditional_arranges (h : RulesArranged final rules) :
    Arranges final Expr.outline (conditional rules) := by
  intro records input
  refine .bind_expect rfl fun start rest _ _ => ?_
  refine .bind (.withRecords (h.expr 0 false rest)) fun condition taken rest _ hcondition => ?_
  refine .bind (h.block records rest) fun consequence more rest _ hconsequence => ?_
  refine .bind (alternative_arranges h) fun other last rest _ hother => .pure ?_
  rw [Expr.outline]
  refine .node trivial ?_
  simpa using (hcondition.append (hconsequence.append hother)).skip [start]

theorem whileLoop_arranges (h : RulesArranged final rules) :
    Arranges final Expr.outline (whileLoop rules) := by
  intro records input
  refine .bind_expect rfl fun start rest _ _ => ?_
  refine .bind (.withRecords (h.expr 0 false rest)) fun condition taken rest _ hcondition => ?_
  refine .bind (h.block records rest) fun body more rest _ hbody => .pure ?_
  rw [Expr.outline]
  exact .node trivial (by simpa using (hcondition.append hbody).skip [start])

theorem pattern_arranges : Arranges final Pattern.outline pattern := by
  intro records input
  refine .bind_peek fun token _ => ?_
  split
  · refine .bind (path_covered.laid path_arranges) fun variant taken rest _ hvariant => ?_
    refine .bind_nextIs (fun hnext => ?_) fun _ => .pure ?_
    · refine .bind_advance hnext rfl fun left rest _ hleft => ?_
      refine .bind (commaList_arranges ident_covered ident_arranges) ?_
      rintro names more rest _ ⟨hlisted, hnames⟩
      refine .bind_expect rfl fun right rest _ hright => .pure (.node ⟨?_, ?_⟩ ?_)
      · simpa using hvariant.covers.joins.hull (left :: more) (.single right)
      · exact .of_tokens taken more hvariant.covers.joins hleft hlisted hright
      · simpa using hvariant.every.append ((hnames.skip [left]).trail [right])
    · rw [List.append_nil]
      exact .node trivial hvariant.every
  · exact .bind_want .refuse

theorem guard_arranges (h : RulesArranged final rules) :
    Reads final records input (guard rules) fun condition taken _ =>
      Every (Arranged final) (Expr.outlineOption condition) taken := by
  refine .bind_takes rfl (fun bar rest _ _ => ?_) fun _ =>
    .pure (by simpa [Expr.outlineOption] using Every.nil)
  refine .bind (h.expr 0 records rest) fun condition taken rest _ hcondition => .pure ?_
  simpa [Expr.outlineOption] using hcondition.skip [bar]

/-- What a body has taken: its own tokens, and then a comma unless it is a block or the
match closes. -/
def BodyTaken (body : ArmBody Span Symbol) (taken : List Token) (rest : List Scan) : Prop :=
  ∃ front more : List Token, taken = front ++ more ∧ body.outline.Covers front ∧
    ((∃ mark : Token, more = [mark] ∧ mark.kind = Punct.comma) ∨
      more = [] ∧ (Next Punct.rbrace rest ∨ ∃ block, body = .block block))

theorem armBody_arranges (h : RulesArranged final rules) :
    Reads final records input (armBody rules) fun body taken rest =>
      BodyTaken body taken rest ∧ Every (Arranged final) [body.outline] taken := by
  refine .bind blockNext_reads ?_
  rintro found _ _ _ ⟨rfl, rfl, -⟩
  cases found with
  | true =>
      refine .bind (h.covered.block.laid h.block) fun block front rest _ hblock => ?_
      have hbody : Laid final (ArmBody.block block).outline front := by
        rwa [ArmBody.outline]
      refine .bind_takes rfl (fun comma rest _ hcomma => .pure ⟨?_, ?_⟩) fun _ => .pure ⟨?_, ?_⟩
      · exact ⟨front, [comma], by simp, hbody.covers, .inl ⟨comma, rfl, hcomma⟩⟩
      · simpa using hbody.every.trail [comma]
      · exact ⟨front, [], by simp, hbody.covers, .inr ⟨rfl, .inr ⟨block, rfl⟩⟩⟩
      · simpa using hbody.every
  | false =>
      refine .bind ((h.covered.expr 0).laid (h.expr 0)) fun value front rest _ hvalue => ?_
      have hbody : Laid final (ArmBody.expr value).outline front := by
        rwa [ArmBody.outline]
      refine .bind_takes rfl (fun comma rest _ hcomma => .pure ⟨?_, ?_⟩) fun _ => ?_
      · exact ⟨front, [comma], by simp, hbody.covers, .inl ⟨comma, rfl, hcomma⟩⟩
      · simpa using hbody.every.trail [comma]
      -- Without a comma the match has to end here.
      refine .bind_accepts (fun hnext => .pure ⟨?_, ?_⟩) fun _ => .refuse
      · exact ⟨front, [], by simp, hbody.covers, .inr ⟨rfl, .inl hnext⟩⟩
      · simpa using hbody.every

/-- What an arm has taken: its own tokens and what follows it. It is the last arm just
if the match closes there. -/
def ArmTaken (arm : Arm Span Symbol) (taken : List Token) (rest : List Scan) : Prop :=
  ∃ front more, taken = front ++ more ∧ arm.span.Joins front ∧ arm.EndsWith more ∧
    (arm.last = true ↔ Next Punct.rbrace rest)

theorem arm_arranges (h : RulesArranged final rules) :
    Reads final records input (arm rules) fun arm taken rest =>
      ArmTaken arm taken rest ∧ Every (Arranged final) [arm.outline] taken := by
  refine .bind (pattern_covered.laid pattern_arranges) fun variant first rest _ hvariant => ?_
  refine .bind (guard_arranges h) fun condition second rest _ hcondition => ?_
  refine .bind_expect rfl fun arrow rest _ _ => ?_
  refine .bind (armBody_arranges h) ?_
  rintro body _ rest _ ⟨⟨front, more, rfl, hcovers, hends⟩, hbody⟩
  have hjoins : (variant.span.hull body.span).Joins (first ++ (second ++ arrow :: front)) := by
    simpa using hvariant.covers.joins.hull (second ++ [arrow]) hcovers.joins
  have harm (last : Bool) : Every (Arranged final) [(Arm.mk variant condition body last
      (variant.span.hull body.span)).outline] (first ++ (second ++ arrow :: (front ++ more))) := by
    rw [Arm.outline]
    refine .node trivial ?_
    simpa using hvariant.every.append (hcondition.append (hbody.skip [arrow]))
  refine .bind_nextIs (fun hnext => .pure ⟨?_, by simpa using harm true⟩)
    fun hnext => .pure ⟨?_, by simpa using harm false⟩
  · refine ⟨_, more, by simp, hjoins, ?_, by simpa using hnext⟩
    exact hends.imp_right fun hmore => ⟨hmore.1, .inl rfl⟩
  · refine ⟨_, more, by simp, hjoins, ?_, by simpa using hnext⟩
    exact hends.imp_right fun hmore => ⟨hmore.1, .inr (hmore.2.resolve_left hnext)⟩

/-- The arms make up a row, and the one at the end of it is the last. -/
theorem arms_arrange (h : RulesArranged final rules) :
    Reads final records input (repeated (armRound rules) []) fun arms taken _ =>
      ArmRow (!arms.isEmpty) arms taken ∧ Every (Arranged final) (arms.map Arm.outline) taken := by
  -- An arm that says it is the last one has seen the brace that ends the loop.
  refine .repeated (fun arms taken rest =>
    (∃ last, ArmRow last arms taken ∧ (last = true ↔ arms ≠ [] ∧ Next Punct.rbrace rest)) ∧
      Every (Arranged final) (arms.map Arm.outline) taken) ⟨⟨false, .nil, by simp⟩, .nil⟩ ?_
  rintro arms taken rest ⟨⟨last, hrow, hlast⟩, harms⟩
  refine .bind_accepts (fun hnext => .pure ⟨?_, by simpa using harms⟩) fun hnext => ?_
  · obtain rfl : last = !arms.isEmpty := by
      rw [Bool.eq_iff_iff, hlast]
      simp [hnext]
    simpa using hrow
  · obtain rfl : last = false := by simpa [hnext] using hlast
    refine .bind (arm_arranges h) ?_
    rintro arm _ rest _ ⟨⟨front, more, rfl, hjoins, hends, hlast⟩, harm⟩
    refine .pure ⟨⟨arm.last, ?_, by simpa using hlast⟩, by simpa using harms.append harm⟩
    simpa using hrow.arm hjoins hends

theorem select_arranges (h : RulesArranged final rules) :
    Arranges final Expr.outline (select rules) := by
  intro records input
  refine .bind_expect rfl fun start rest _ _ => ?_
  refine .bind (.withRecords ((h.covered.expr 0).laid (h.expr 0)))
    fun scrutinee taken rest _ hscrutinee => ?_
  refine .bind_expect rfl fun left rest _ hleft => ?_
  refine .bind (.withRecords (arms_arrange h)) ?_
  rintro arms more rest _ ⟨hrow, harms⟩
  refine .bind_expect rfl fun right rest _ hright => ?_
  have hselect : Every (Arranged final)
      [(Expr.select scrutinee arms (start.span.hull right.span)).outline]
      (start :: (taken ++ left :: (more ++ [right]))) := by
    rw [Expr.outline, Arm.outlineList_eq_map]
    refine .node ⟨?_, scrutinee.outline, arms, rfl, .of_tokens (start :: taken) more
      (hscrutinee.covers.coverIn.skip [start]) hleft hrow hright⟩ ?_
    · simpa using (Span.Joins.single start).hull (taken ++ left :: more) (.single right)
    · simpa using (hscrutinee.every.append ((harms.skip [left]).trail [right])).skip [start]
  cases arms.isEmpty with
  | true => exact .bind_warn (.pure (by simpa using hselect))
  | false => exact .pure (by simpa using hselect)

/-! ## Operands -/

theorem parenthesized_arranges (h : RulesArranged final rules) :
    Arranges final Expr.outline (parenthesized rules) := by
  intro records input
  refine .bind_expect rfl fun left rest _ _ => ?_
  refine .bind_nextIs (fun hnext => ?_) fun _ => ?_
  · refine .bind_advance hnext rfl fun right rest _ _ => .pure ?_
    rw [Expr.outline]
    exact .node trivial .nil
  · refine .bind (.withRecords (h.expr 0 true rest)) fun inner taken rest _ hinner => ?_
    refine .bind_expect rfl fun right rest _ _ => .pure ?_
    rw [Expr.outline]
    exact .node trivial (by simpa using (hinner.skip [left]).trail [right])

/-- The fields of a record, the braces with them. -/
theorem fields_arrange (h : RulesArranged final rules) :
    Arranges final (fun fields => .node .fields fields.span (Expr.outlineFields fields.fields))
      (record Expr.span (rules.expr 0)) := by
  intro records input
  refine .mono (record_arranges .field (fun _ _ _ => trivial) Expr.note_outline
    (h.covered.expr 0) (h.expr 0)) ?_
  rintro fields taken rest _ ⟨hlists, hfields⟩
  simp only [Expr.outlineFields_eq_map]
  exact .node hlists hfields

theorem pathExpr_arranges (h : RulesArranged final rules) :
    Arranges final Expr.outline (pathExpr rules) := by
  intro records input
  refine .bind (path_arranges records input) fun name taken rest _ hname => ?_
  refine .bind recordNext_reads ?_
  rintro found _ _ _ ⟨rfl, rfl, -⟩
  cases found with
  | true =>
      refine .bind (fields_arrange h records _) fun fields more rest _ hfields => .pure ?_
      cases fields
      rw [Expr.outline]
      exact .node trivial (by simpa using hname.append hfields)
  | false =>
      refine .pure ?_
      rw [Expr.outline]
      exact .node trivial (by simpa using hname)

theorem primary_arranges (h : RulesArranged final rules) :
    Arranges final Expr.outline (primary rules) := by
  refine fun records input => .bind_peek fun token hshows => ?_
  split
  next value hvalue =>
    obtain ⟨-, hname, hend⟩ := slots_of_literal? hvalue
    obtain ⟨rest, rfl⟩ := hshows.cons hend
    refine .bind (.advance hname) fun mark _ _ _ _ => .pure ?_
    rw [Expr.outline]
    exact .node trivial .nil
  next =>
    split
    next => exact conditional_arranges h records input
    next => exact whileLoop_arranges h records input
    next => exact select_arranges h records input
    next => exact parenthesized_arranges h records input
    next => exact pathExpr_arranges h records input
    next =>
      refine .bind recordNext_reads ?_
      rintro found _ _ _ ⟨rfl, rfl, -⟩
      cases found with
      | true =>
          refine .bind (fields_arrange h records _) fun fields taken rest _ hfields => .pure ?_
          cases fields
          rw [Expr.outline]
          exact .node trivial (by simpa using hfields)
      | false => exact .bind_want .refuse

theorem earlyExit_arranges (h : RulesArranged final rules) {exit : ExitKind}
    (hnext : Next exit.keyword input) :
    Reads final records input (earlyExit rules exit) fun expr taken _ =>
      Every (Arranged final) [expr.outline] taken := by
  refine .bind_advance hnext rfl fun keyword rest _ _ => ?_
  refine .bind exprNext_reads ?_
  rintro found _ _ _ ⟨rfl, rfl, -⟩
  cases found with
  | true =>
      refine .bind (h.expr 0 records _) fun value taken rest _ hvalue => .pure ?_
      rw [Expr.outline, Expr.outlineOption]
      exact .node trivial (by simpa using hvalue.skip [keyword])
  | false =>
      refine .pure ?_
      rw [Expr.outline, Expr.outlineOption]
      exact .node trivial .nil

theorem operand_arranges (h : RulesArranged final rules) :
    Arranges final Expr.outline (operand rules) := by
  refine fun records input => .bind_peek fun token hshows => ?_
  split
  next _ _ op hop =>
    have hkind := UnaryOp.ofKind?_eq_some_iff.mp hop
    refine .bind_advance ⟨token, hshows, congrArg Kind.variant hkind⟩ op.isFixed_kind
      fun mark rest _ _ => ?_
    refine .bind (h.expr _ records rest) fun inner taken rest _ hinner => .pure ?_
    rw [Expr.outline]
    exact .node trivial (by simpa using hinner.skip [mark])
  next exit _ hexit =>
    have hkind := ExitKind.ofKind?_eq_some_iff.mp hexit
    exact earlyExit_arranges h ⟨token, hshows, congrArg Kind.variant hkind⟩
  next =>
    refine .bind ((primary_covered h.covered).laid (primary_arranges h)) fun _ _ _ _ hfirst => ?_
    exact (postfixes_arrange h hfirst).mono fun _ _ _ _ hexpr => hexpr.every

theorem operation_arranges (h : RulesArranged final rules) (least : Nat) :
    Arranges final Expr.outline (operation rules least) :=
  fun records input => .nested (.bind (operand_arranges h records input)
    fun _ _ _ _ hfirst => operators_arrange h hfirst)

/-! ## Statements and blocks -/

theorem binding_arranges (h : RulesArranged final rules) :
    Arranges final Statement.outline (binding rules) := by
  intro records input
  refine .bind_expect rfl fun start rest _ _ => ?_
  refine .bind (ident_arranges records rest) fun name first rest _ hname => ?_
  refine .bind (typeAfter_arranges .colon) fun type second rest _ htype => ?_
  refine .bind_expect rfl fun assign rest _ _ => ?_
  refine .bind (h.expr 0 records rest) fun value third rest _ hvalue => ?_
  refine .bind_expect rfl fun stop rest _ _ => .pure ?_
  rw [Statement.outline]
  refine .node trivial ?_
  simpa using (hname.append (htype.append ((hvalue.skip [assign]).trail [stop]))).skip [start]

theorem importStatement_arranges : Arranges final Statement.outline importStatement := by
  intro records input
  refine .bind importDeclaration_arranges ?_
  rintro ⟨path, span⟩ taken rest _ hpath
  refine .pure ?_
  rw [Statement.outline]
  exact .node trivial (by simpa using hpath)

theorem control?_arranges (h : RulesArranged final rules) {kind : Kind}
    {production : Parse (Expr Span Symbol)} (hcontrol : control? rules kind = some production) :
    Arranges final Expr.outline production := by
  unfold control? at hcontrol
  split at hcontrol <;> cases hcontrol
  · exact conditional_arranges h
  · exact whileLoop_arranges h
  · exact select_arranges h

theorem leadingExpr_arranges (h : RulesArranged final rules) :
    Arranges final Expr.outline (leadingExpr rules) := by
  refine fun records input => .bind_peek fun token _ => ?_
  split
  next production hproduction =>
    refine .bind ((control?_covered h.covered hproduction).laid
      (control?_arranges h hproduction)) fun control taken rest _ hcontrol => ?_
    refine .bind_peek fun token _ => ?_
    split
    · refine .bind (postfixes_arrange h hcontrol) fun first more rest _ hfirst => ?_
      refine (operators_arrange h hfirst.every).mono fun expr last rest _ hexpr => ?_
      simpa using hexpr
    · exact .pure (by simpa using hcontrol.every)
  next => exact h.expr 0 records input

theorem statementRound_arranges (h : RulesArranged final rules)
    {statements : List (Statement Span Symbol)} {taken : List Token}
    (hstatements : Every (Arranged final) (statements.map Statement.outline) taken) :
    Reads final records input (statementRound rules statements)
      (Reads.Keeps
        (fun statements taken _ => Every (Arranged final) (statements.map Statement.outline) taken)
        (fun contents taken _ => Every (Arranged final) (Contents.outline contents) taken)
        taken) := by
  -- Whatever sort of statement comes next, it is put behind those before.
  have hmore : ∀ {statement : Statement Span Symbol} {more},
      Every (Arranged final) [statement.outline] more →
        Every (Arranged final) ((statements ++ [statement]).map Statement.outline)
          (taken ++ more) := by
    intro statement more hstatement
    simpa using hstatements.append hstatement
  refine .bind_accepts (fun _ => .pure ?_) fun _ => ?_
  · simpa [Contents.outline, Expr.outlineOption] using hstatements
  refine .bind_nextIs (fun _ => ?_) fun _ => ?_
  · refine .bind (binding_arranges h records input) fun statement more rest _ hstatement => ?_
    exact .pure (by simpa using hmore hstatement)
  refine .bind_nextIs (fun _ => ?_) fun _ => ?_
  · refine .bind (importStatement_arranges records input) fun statement more rest _ hstatement => ?_
    exact .pure (by simpa using hmore hstatement)
  refine .bind (leadingExpr_arranges h records input) fun value more rest _ hvalue => ?_
  refine .bind_accepts (fun hnext => ?_) fun _ => ?_
  · refine .bind_advance hnext rfl fun stop rest _ _ => .pure (hmore ?_)
    rw [Statement.outline]
    exact .node trivial (by simpa using hvalue.trail [stop])
  refine .bind_accepts (fun _ => .pure ?_) fun _ => ?_
  · simpa [Contents.outline, Expr.outlineOption] using hstatements.append hvalue
  cases value.isControl with
  | true =>
      have hcontrol : Every (Arranged final) [(Statement.control value).outline] more := by
        rw [Statement.outline]
        exact .node trivial hvalue
      exact .pure (by simpa using hmore hcontrol)
  | false => exact .refuse

theorem braces_arrange (h : RulesArranged final rules) :
    Arranges final Block.outline (braces rules) := by
  refine fun records input => .nested (.bind_expect rfl fun left rest _ _ => ?_)
  have hcontents : Reads final true rest (repeated (statementRound rules) []) fun contents more _ =>
      Every (Arranged final) (Contents.outline contents) more :=
    .repeated
      (fun statements taken _ => Every (Arranged final) (statements.map Statement.outline) taken)
      .nil fun statements taken rest => statementRound_arranges h
  refine .bind (.withRecords hcontents) ?_
  rintro ⟨statements, tail⟩ taken rest _ hcontents
  refine .bind_expect rfl fun right rest _ _ => .pure ?_
  rw [Block.outline, Statement.outlineList_eq_map]
  exact .node trivial (by simpa [Contents.outline] using (hcontents.trail [right]).skip [left])

theorem rulesWithin_arranged (levels : Nat) : RulesArranged final (rulesWithin levels) := by
  induction levels with
  | zero =>
      exact ⟨rulesWithin_covered 0, fun _ _ _ => .refuse, fun _ _ => .refuse, fun _ _ => .refuse⟩
  | succ levels ih =>
      have hcovered : RulesCovered final (rulesWithin (levels + 1)) := rulesWithin_covered _
      rw [rulesWithin_succ] at hcovered ⊢
      exact ⟨hcovered, operation_arranges ih, braces_arrange ih, conditional_arranges ih⟩

theorem block_arranges : Arranges final Block.outline block :=
  fun records input => .bounded fun levels => (rulesWithin_arranged levels).block records input

theorem expr_arranges : Arranges final Expr.outline expr :=
  fun records input => .bounded fun levels => (rulesWithin_arranged levels).expr 0 records input

end Grammar

end FilterScript
