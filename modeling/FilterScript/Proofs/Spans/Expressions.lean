import FilterScript.Proofs.Spans.Lists

/-!
# The spans of expressions, blocks and items

Loops build a tree from the inside out: the tree so far covers what the rounds so
far have taken. The comma behind an arm belongs to no part of the match.
-/

namespace FilterScript

namespace Grammar

open Parse Outline

variable {final : Names} {rules : Rules} {records : Bool} {input : List Scan}

/-- All three productions that others go back to build covering trees. -/
structure RulesCovered (final : Names) (rules : Rules) : Prop where
  expr : ∀ least, Covered final Expr.outline (rules.expr least)
  block : Covered final Block.outline rules.block
  elseIf : Covered final Expr.outline rules.elseIf

theorem operators_covered (h : RulesCovered final rules) {least : Nat} {first : Expr Span Symbol}
    {before : List Token} (hfirst : first.outline.Covers before) :
    Reads final records input (operators rules least first) fun expr taken _ =>
      expr.outline.Covers (before ++ taken) := by
  refine .repeated (fun expr taken _ => expr.outline.Covers (before ++ taken))
    (by simpa using hfirst) fun left taken rest hleft => .bind_peek fun token hshows => ?_
  split
  next op hop =>
    split
    · exact .pure (by simpa using hleft)
    · have hkind := BinaryOp.ofKind?_eq_some_iff.mp hop
      refine .bind_advance ⟨token, hshows, congrArg Kind.variant hkind⟩ rfl fun mark rest _ _ => ?_
      refine .bind (h.expr _ records rest) fun right more rest _ hright => .pure ?_
      simp only [Reads.Keeps, Expr.outline]
      refine covers_node.mpr ⟨?_, ?_⟩
      · simpa using hleft.joins.hull [mark] hright.joins
      · simpa using hleft.cons (hright.coverIn.skip [mark])
  next => exact .pure (by simpa using hleft)

theorem postfixes_covered (h : RulesCovered final rules) {first : Expr Span Symbol}
    {before : List Token} (hfirst : first.outline.Covers before) :
    Reads final records input (postfixes rules first) fun expr taken _ =>
      expr.outline.Covers (before ++ taken) := by
  refine .repeated (fun expr taken _ => expr.outline.Covers (before ++ taken))
    (by simpa using hfirst) fun expr taken rest hexpr => ?_
  refine .bind_takes rfl (fun dot rest _ _ => ?_) fun _ => ?_
  · refine .bind (ident_covered records rest) fun name more rest _ hname => .pure ?_
    simp only [Reads.Keeps, Expr.outline]
    refine covers_node.mpr ⟨?_, ?_⟩
    · simpa using hexpr.joins.hull [dot] hname.joins
    · simpa using hexpr.cons (hname.coverIn.skip [dot])
  refine .bind_takes rfl (fun left rest _ _ => ?_) fun _ => ?_
  · refine .bind (.withRecords (commaList_covered (h.expr 0))) fun arguments more rest _ hlist => ?_
    refine .bind_expect rfl fun right rest _ _ => .pure ?_
    simp only [Reads.Keeps, Expr.outline, Expr.outlineList_eq_map]
    refine covers_node.mpr ⟨?_, ?_⟩
    · simpa using hexpr.joins.hull (left :: more) (.single right)
    · simpa using hexpr.cons ((hlist.skip [left]).trail [right])
  refine .bind_nextIs (fun hnext => ?_) fun _ => .pure (by simpa using hexpr)
  refine .bind_advance hnext rfl fun mark rest _ _ => .pure ?_
  simp only [Reads.Keeps, Expr.outline]
  refine covers_node.mpr ⟨?_, ?_⟩
  · simpa using hexpr.joins.hull [] (.single mark)
  · simpa using hexpr.coverIn.trail [mark]

/-! ## Conditionals, loops and matches -/

/-- What follows `else` is covered up to its end. -/
def CoveredAlternative (other : Option (Alternative Span Symbol)) (taken : List Token) : Prop :=
  match other with
  | none => taken = []
  | some alternative => ∃ mark rest, taken = mark :: rest ∧ alternative.span.Joins rest ∧
      CoverIn (Alternative.outlineOption (some alternative)) rest

theorem alternative_covered (h : RulesCovered final rules) :
    Reads final records input (alternative rules) fun other taken _ =>
      CoveredAlternative other taken := by
  refine .bind_takes rfl (fun mark rest _ _ => ?_) fun _ => .pure rfl
  refine .bind_nextIs (fun _ => ?_) fun _ => ?_
  · refine .bind (h.elseIf records rest) fun next more rest _ hnext => .pure ?_
    refine ⟨mark, more, by simp, ?_, ?_⟩
    · simpa [Alternative.span] using hnext.joins
    · simpa [Alternative.outlineOption] using hnext.coverIn
  · refine .bind (h.block records rest) fun body more rest _ hbody => .pure ?_
    refine ⟨mark, more, by simp, ?_, ?_⟩
    · simpa [Alternative.span] using hbody.joins
    · simpa [Alternative.outlineOption] using hbody.coverIn

theorem conditional_covered (h : RulesCovered final rules) :
    Covered final Expr.outline (conditional rules) := by
  intro records input
  refine .bind_expect rfl fun start rest _ _ => ?_
  refine .bind (.withRecords (h.expr 0 false rest)) fun condition taken rest _ hcondition => ?_
  refine .bind (h.block records rest) fun consequence more rest _ hconsequence => ?_
  refine .bind (alternative_covered h) fun other last rest _ hother => .pure ?_
  have hstart := Span.Joins.single start
  simp only [Expr.outline]
  -- The last thing that the conditional covers is its block or what follows `else`.
  cases other with
  | none =>
      obtain rfl : last = [] := hother
      refine covers_node.mpr ⟨?_, ?_⟩
      · simpa using hstart.ends taken hconsequence.joins
      · simpa [Alternative.outlineOption] using
          (hcondition.cons hconsequence.coverIn).skip [start]
  | some alternative =>
      obtain ⟨mark, last, rfl, hjoins, hother⟩ := hother
      refine covers_node.mpr ⟨?_, ?_⟩
      · simpa using hstart.ends (taken ++ (more ++ [mark])) hjoins
      · simpa only [List.cons_append, List.nil_append, List.append_nil] using
          (hcondition.cons (hconsequence.cons (hother.skip [mark]))).skip [start]

theorem whileLoop_covered (h : RulesCovered final rules) :
    Covered final Expr.outline (whileLoop rules) := by
  intro records input
  refine .bind_expect rfl fun start rest _ _ => ?_
  refine .bind (.withRecords (h.expr 0 false rest)) fun condition taken rest _ hcondition => ?_
  refine .bind (h.block records rest) fun body more rest _ hbody => .pure ?_
  simp only [Expr.outline]
  refine covers_node.mpr ⟨?_, ?_⟩
  · simpa using (Span.Joins.single start).ends taken hbody.joins
  · simpa using (hcondition.cons hbody.coverIn).skip [start]

theorem pattern_covered : Covered final Pattern.outline pattern := by
  intro records input
  refine .bind_peek fun token _ => ?_
  split
  · refine .bind (path_covered records input) fun variant taken rest _ hvariant => ?_
    refine .bind_nextIs (fun hnext => ?_) fun _ => .pure ?_
    · refine .bind_advance hnext rfl fun left rest _ _ => ?_
      refine .bind (commaList_covered ident_covered) fun names more rest _ hnames => ?_
      refine .bind_expect rfl fun right rest _ _ => .pure (covers_node.mpr ⟨?_, ?_⟩)
      · simpa using hvariant.joins.hull (left :: more) (.single right)
      · simpa using hvariant.cons ((hnames.skip [left]).trail [right])
    · rw [List.append_nil]
      exact covers_node.mpr ⟨hvariant.joins, hvariant.coverIn⟩
  · exact .bind_want .refuse

theorem guard_covered (h : RulesCovered final rules) :
    Reads final records input (guard rules) fun condition taken _ =>
      CoverIn (Expr.outlineOption condition) taken := by
  refine .bind_takes rfl (fun bar rest _ _ => ?_) fun _ => .pure (by simp [Expr.outlineOption])
  refine .bind (h.expr 0 records rest) fun condition taken rest _ hcondition => .pure ?_
  simpa [Expr.outlineOption] using hcondition.coverIn.skip [bar]

/-- The node covers the tokens up to a comma that may stand behind it. -/
def CoversBefore (outline : Outline Span Symbol) (taken : List Token) : Prop :=
  ∃ front back, taken = front ++ back ∧ outline.Covers front

theorem armBody_covered (h : RulesCovered final rules) :
    Reads final records input (armBody rules) fun body taken _ => CoversBefore body.outline taken := by
  refine .bind blockNext_reads ?_
  rintro found _ _ _ ⟨rfl, rfl, -⟩
  cases found with
  | true =>
      refine .bind (h.block records _) fun body front rest _ hbody => ?_
      have hcovers : (ArmBody.block body).outline.Covers front := by
        simpa [ArmBody.outline] using hbody
      -- The comma is taken with the body but is no part of what its node covers.
      refine .bind_takes rfl (fun comma rest _ _ => .pure ?_) fun _ => .pure ?_
      · exact ⟨front, [comma], by simp, hcovers⟩
      · exact ⟨front, [], by simp, hcovers⟩
  | false =>
      refine .bind (h.expr 0 records _) fun value front rest _ hvalue => ?_
      have hcovers : (ArmBody.expr value).outline.Covers front := by
        simpa [ArmBody.outline] using hvalue
      refine .bind_takes rfl (fun comma rest _ _ => .pure ?_) fun _ => ?_
      · exact ⟨front, [comma], by simp, hcovers⟩
      · exact .bind_accepts (fun _ => .pure ⟨front, [], by simp, hcovers⟩) fun _ => .refuse

theorem arm_covered (h : RulesCovered final rules) :
    Reads final records input (arm rules) fun arm taken _ => CoversBefore arm.outline taken := by
  refine .bind (pattern_covered records input) fun variant first rest _ hvariant => ?_
  refine .bind (guard_covered h) fun condition second rest _ hcondition => ?_
  refine .bind_expect rfl fun arrow rest _ _ => ?_
  refine .bind (armBody_covered h) ?_
  rintro body _ rest _ ⟨front, back, rfl, hbody⟩
  have hcovers : ∀ last, (Arm.mk variant condition body last
      (variant.span.hull body.span)).outline.Covers (first ++ (second ++ arrow :: front)) := by
    intro last
    rw [Arm.outline]
    refine covers_node.mpr ⟨?_, ?_⟩
    · simpa using hvariant.joins.hull (second ++ [arrow]) hbody.joins
    · simpa using hvariant.cons (hcondition.append (hbody.coverIn.skip [arrow]))
  exact .bind_nextIs (fun _ => .pure ⟨_, back, by simp, hcovers true⟩)
    fun _ => .pure ⟨_, back, by simp, hcovers false⟩

theorem arms_covered (h : RulesCovered final rules) :
    Reads final records input (repeated (armRound rules) []) fun arms taken _ =>
      CoverIn (Arm.outlineList arms) taken := by
  simp only [Arm.outlineList_eq_map]
  refine .repeated (fun arms taken _ => CoverIn (arms.map Arm.outline) taken) coverIn_nil
    fun arms taken rest harms => ?_
  refine .bind_accepts (fun _ => .pure (by simpa using harms)) fun _ => .bind (arm_covered h) ?_
  rintro arm _ rest _ ⟨front, back, rfl, harm⟩
  exact .pure (by simpa using harms.append (harm.coverIn.trail back))

theorem select_covered (h : RulesCovered final rules) :
    Covered final Expr.outline (select rules) := by
  intro records input
  refine .bind_expect rfl fun start rest _ _ => ?_
  refine .bind (.withRecords (h.expr 0 false rest)) fun scrutinee taken rest _ hscrutinee => ?_
  refine .bind_expect rfl fun left rest _ _ => ?_
  refine .bind (.withRecords (arms_covered h)) fun arms more rest _ harms => ?_
  refine .bind_expect rfl fun right rest _ _ => ?_
  have hcovers : (Expr.select scrutinee arms (start.span.hull right.span)).outline.Covers
      (start :: (taken ++ left :: (more ++ [right]))) := by
    rw [Expr.outline]
    refine covers_node.mpr ⟨?_, ?_⟩
    · simpa using (Span.Joins.single start).hull (taken ++ left :: more) (.single right)
    · simpa using (hscrutinee.cons ((harms.skip [left]).trail [right])).skip [start]
  cases arms.isEmpty with
  | true => exact .bind_warn (.pure (by simpa using hcovers))
  | false => exact .pure (by simpa using hcovers)

/-! ## Operands -/

theorem parenthesized_covered (h : RulesCovered final rules) :
    Covered final Expr.outline (parenthesized rules) := by
  intro records input
  refine .bind_expect rfl fun left rest _ _ => ?_
  refine .bind_nextIs (fun hnext => ?_) fun _ => ?_
  · refine .bind_advance hnext rfl fun right rest _ _ => .pure ?_
    rw [Expr.outline]
    exact covers_leaf ((Span.Joins.single left).hull [] (.single right))
  · refine .bind (.withRecords (h.expr 0 true rest)) fun inner taken rest _ hinner => ?_
    refine .bind_expect rfl fun right rest _ _ => .pure ?_
    rw [Expr.outline]
    refine covers_node.mpr ⟨?_, ?_⟩
    · simpa using (Span.Joins.single left).hull taken (.single right)
    · simpa using (hinner.coverIn.skip [left]).trail [right]

/-- The fields of a record, the braces with them. -/
theorem fields_covered (h : RulesCovered final rules) :
    Covered final (fun fields => .node .fields fields.span (Expr.outlineFields fields.fields))
      (record Expr.span (rules.expr 0)) := by
  simp only [Expr.outlineFields_eq_map]
  exact record_covered .fields .field Expr.note_outline (h.expr 0)

theorem pathExpr_covered (h : RulesCovered final rules) :
    Covered final Expr.outline (pathExpr rules) := by
  intro records input
  refine .bind (path_covered records input) fun name taken rest _ hname => ?_
  refine .bind recordNext_reads ?_
  rintro found _ _ _ ⟨rfl, rfl, -⟩
  cases found with
  | true =>
      refine .bind (fields_covered h records _) fun ⟨fields, span⟩ more rest _ hfields => .pure ?_
      rw [Expr.outline]
      refine covers_node.mpr ⟨?_, ?_⟩
      · simpa using hname.joins.hull [] hfields.joins
      · simpa using hname.cons hfields.coverIn
  | false =>
      refine .pure ?_
      rw [Expr.outline]
      refine covers_node.mpr ⟨?_, ?_⟩
      · simpa using hname.joins
      · simpa using hname.coverIn

theorem primary_covered (h : RulesCovered final rules) :
    Covered final Expr.outline (primary rules) := by
  refine fun records input => .bind_peek fun token hshows => ?_
  split
  next value hvalue =>
    obtain ⟨-, hname, hend⟩ := slots_of_literal? hvalue
    obtain ⟨rest, rfl⟩ := hshows.cons hend
    refine .bind (.advance hname) ?_
    rintro mark _ _ _ ⟨rfl, rfl, rfl⟩
    refine .pure ?_
    rw [Expr.outline]
    exact covers_leaf (.single mark)
  next =>
    split
    next => exact conditional_covered h records input
    next => exact whileLoop_covered h records input
    next => exact select_covered h records input
    next => exact parenthesized_covered h records input
    next => exact pathExpr_covered h records input
    next =>
      refine .bind recordNext_reads ?_
      rintro found _ _ _ ⟨rfl, rfl, -⟩
      cases found with
      | true =>
          refine .bind (fields_covered h records _) fun ⟨fields, span⟩ taken rest _ hfields => .pure ?_
          rw [Expr.outline]
          refine covers_node.mpr ⟨?_, ?_⟩
          · simpa using hfields.joins
          · simpa using hfields.coverIn
      | false => exact .bind_want .refuse

theorem earlyExit_covered (h : RulesCovered final rules) {exit : ExitKind}
    (hnext : Next exit.keyword input) :
    Reads final records input (earlyExit rules exit) fun expr taken _ =>
      expr.outline.Covers taken := by
  refine .bind_advance hnext rfl fun keyword rest _ _ => ?_
  refine .bind exprNext_reads ?_
  rintro found _ _ _ ⟨rfl, rfl, -⟩
  cases found with
  | true =>
      refine .bind (h.expr 0 records _) fun value taken rest _ hvalue => .pure ?_
      rw [Expr.outline, Expr.outlineOption]
      refine covers_node.mpr ⟨?_, ?_⟩
      · simpa using (Span.Joins.single keyword).hull [] hvalue.joins
      · simpa using hvalue.coverIn.skip [keyword]
  | false =>
      refine .pure ?_
      rw [Expr.outline, Expr.outlineOption]
      exact covers_leaf (.single keyword)

theorem operand_covered (h : RulesCovered final rules) :
    Covered final Expr.outline (operand rules) := by
  refine fun records input => .bind_peek fun token hshows => ?_
  split
  next _ _ op hop =>
    have hkind := UnaryOp.ofKind?_eq_some_iff.mp hop
    refine .bind_advance ⟨token, hshows, congrArg Kind.variant hkind⟩ op.isFixed_kind
      fun mark rest hinput _ => ?_
    subst hinput
    obtain rfl : token = mark := hshows
    refine .bind (h.expr _ records rest) fun inner taken rest _ hinner => .pure ?_
    rw [Expr.outline]
    refine covers_node.mpr ⟨?_, ?_⟩
    · simpa using (Span.Joins.single token).hull [] hinner.joins
    · simpa using hinner.coverIn.skip [token]
  next exit _ hexit =>
    have hkind := ExitKind.ofKind?_eq_some_iff.mp hexit
    exact earlyExit_covered h ⟨token, hshows, congrArg Kind.variant hkind⟩
  next =>
    refine .bind (primary_covered h records input) fun first taken rest _ hfirst => ?_
    exact postfixes_covered h hfirst

theorem operation_covered (h : RulesCovered final rules) (least : Nat) :
    Covered final Expr.outline (operation rules least) := by
  refine fun records input => .nested ?_
  refine .bind (operand_covered h records input) fun first taken rest _ hfirst => ?_
  exact operators_covered h hfirst

/-! ## Blocks -/

theorem binding_covered (h : RulesCovered final rules) :
    Covered final Statement.outline (binding rules) := by
  intro records input
  refine .bind_expect rfl fun start rest _ _ => ?_
  refine .bind (ident_covered records rest) fun name first rest _ hname => ?_
  refine .bind (typeAfter_covered .colon) fun type second rest _ htype => ?_
  refine .bind_expect rfl fun assign rest _ _ => ?_
  refine .bind (h.expr 0 records rest) fun value third rest _ hvalue => ?_
  refine .bind_expect rfl fun stop rest _ _ => .pure ?_
  rw [Statement.outline]
  refine covers_node.mpr ⟨?_, ?_⟩
  · simpa using
      (Span.Joins.single start).hull (first ++ (second ++ assign :: third)) (.single stop)
  · simpa using
      (hname.cons (htype.append ((hvalue.coverIn.skip [assign]).trail [stop]))).skip [start]

theorem importStatement_covered : Covered final Statement.outline importStatement := by
  intro records input
  refine .bind importDeclaration_covered ?_
  rintro ⟨path, span⟩ taken rest _ ⟨hspan, hpath⟩
  refine .pure ?_
  rw [Statement.outline, List.append_nil]
  exact covers_node.mpr ⟨hspan, hpath⟩

theorem control?_covered (h : RulesCovered final rules) {kind : Kind}
    {production : Parse (Expr Span Symbol)} (hcontrol : control? rules kind = some production) :
    Covered final Expr.outline production := by
  unfold control? at hcontrol
  split at hcontrol <;> cases hcontrol
  · exact conditional_covered h
  · exact whileLoop_covered h
  · exact select_covered h

theorem leadingExpr_covered (h : RulesCovered final rules) :
    Covered final Expr.outline (leadingExpr rules) := by
  refine fun records input => .bind_peek fun token _ => ?_
  split
  next production hproduction =>
    refine .bind (control?_covered h hproduction records input) fun control taken rest _ hcontrol => ?_
    refine .bind_peek fun token _ => ?_
    split
    · refine .bind (postfixes_covered h hcontrol) fun first more rest _ hfirst => ?_
      refine (operators_covered h hfirst).mono fun expr last rest _ hexpr => ?_
      simpa using hexpr
    · exact .pure (by simpa using hcontrol)
  next => exact h.expr 0 records input

/-- The nodes of what stands between the braces of a block. -/
def Contents.outline (contents : Contents) : List (Outline Span Symbol) :=
  contents.1.map Statement.outline ++ Expr.outlineOption contents.2

theorem statementRound_covered (h : RulesCovered final rules)
    {statements : List (Statement Span Symbol)} {taken : List Token}
    (hstatements : CoverIn (statements.map Statement.outline) taken) :
    Reads final records input (statementRound rules statements)
      (Reads.Keeps (fun statements taken _ => CoverIn (statements.map Statement.outline) taken)
        (fun contents taken _ => CoverIn (Contents.outline contents) taken) taken) := by
  -- Whatever sort of statement comes next, it is put behind those before.
  have hmore : ∀ {statement : Statement Span Symbol} {more}, statement.outline.Covers more →
      CoverIn ((statements ++ [statement]).map Statement.outline) (taken ++ more) := by
    intro statement more hstatement
    simpa using hstatements.append hstatement.coverIn
  refine .bind_accepts (fun _ => .pure ?_) fun _ => ?_
  · simpa [Contents.outline, Expr.outlineOption] using hstatements
  refine .bind_nextIs (fun _ => ?_) fun _ => ?_
  · refine .bind (binding_covered h records input) fun statement more rest _ hstatement => ?_
    exact .pure (by simpa using hmore hstatement)
  refine .bind_nextIs (fun _ => ?_) fun _ => ?_
  · refine .bind (importStatement_covered records input) fun statement more rest _ hstatement => ?_
    exact .pure (by simpa using hmore hstatement)
  refine .bind (leadingExpr_covered h records input) fun value more rest _ hvalue => ?_
  refine .bind_accepts (fun hnext => ?_) fun _ => ?_
  · refine .bind_advance hnext rfl fun stop rest _ _ => .pure (hmore ?_)
    rw [Statement.outline]
    refine covers_node.mpr ⟨?_, hvalue.coverIn.trail [stop]⟩
    simpa using hvalue.joins.hull [] (.single stop)
  refine .bind_accepts (fun _ => .pure ?_) fun _ => ?_
  · simpa [Contents.outline, Expr.outlineOption] using hstatements.append hvalue.coverIn
  cases value.isControl with
  | true =>
      have hcontrol : (Statement.control value).outline.Covers more := by
        rw [Statement.outline]
        exact covers_node.mpr ⟨by simpa using hvalue.joins, hvalue.coverIn⟩
      exact .pure (by simpa using hmore hcontrol)
  | false => exact .refuse

theorem braces_covered (h : RulesCovered final rules) :
    Covered final Block.outline (braces rules) := by
  refine fun records input => .nested (.bind_expect rfl fun left rest _ _ => ?_)
  have hcontents : Reads final true rest (repeated (statementRound rules) []) fun contents more _ =>
      CoverIn (Contents.outline contents) more :=
    .repeated (fun statements taken _ => CoverIn (statements.map Statement.outline) taken)
      coverIn_nil fun statements taken rest => statementRound_covered h
  refine .bind (.withRecords hcontents) ?_
  rintro ⟨statements, tail⟩ taken rest _ hcontents
  refine .bind_expect rfl fun right rest _ _ => .pure ?_
  rw [Block.outline, Statement.outlineList_eq_map]
  refine covers_node.mpr ⟨?_, ?_⟩
  · simpa using (Span.Joins.single left).hull taken (.single right)
  · simpa [Contents.outline] using (hcontents.skip [left]).trail [right]

theorem rulesWithin_covered (levels : Nat) : RulesCovered final (rulesWithin levels) := by
  induction levels with
  | zero => exact ⟨fun _ _ _ => .refuse, fun _ _ => .refuse, fun _ _ => .refuse⟩
  | succ levels ih =>
      rw [rulesWithin_succ]
      exact ⟨operation_covered ih, braces_covered ih, conditional_covered ih⟩

theorem block_covered : Covered final Block.outline block :=
  fun records input => .bounded fun levels => (rulesWithin_covered levels).block records input

theorem expr_covered : Covered final Expr.outline expr :=
  fun records input => .bounded fun levels => (rulesWithin_covered levels).expr 0 records input

/-! ## Items -/

theorem filterItem_covered {kind : FilterKind} (hnext : Next kind.keyword input) :
    Reads final records input (filterItem kind) fun item taken _ => item.outline.Covers taken := by
  refine .bind_advance hnext rfl fun start rest _ _ => ?_
  refine .bind (ident_covered records rest) fun name first rest _ hname => ?_
  refine .bind parameters_covered fun parameters second rest _ hparameters => ?_
  refine .bind (block_covered records rest) fun body third rest _ hbody => .pure ?_
  refine covers_node.mpr ⟨?_, ?_⟩
  · simpa using (Span.Joins.single start).hull (first ++ second) hbody.joins
  · simpa using (hname.cons (hparameters.append hbody.coverIn)).skip [start]

theorem functionItem_covered : Covered final Item.outline functionItem := by
  intro records input
  refine .bind_expect rfl fun start rest _ _ => ?_
  refine .bind (ident_covered records rest) fun name first rest _ hname => ?_
  refine .bind parameters_covered fun parameters second rest _ hparameters => ?_
  refine .bind (typeAfter_covered .arrow) fun returns third rest _ hreturns => ?_
  refine .bind (block_covered records rest) fun body fourth rest _ hbody => .pure ?_
  refine covers_node.mpr ⟨?_, ?_⟩
  · simpa using (Span.Joins.single start).hull (first ++ (second ++ third)) hbody.joins
  · simpa using
      (hname.cons (hparameters.append (hreturns.append hbody.coverIn))).skip [start]

theorem recordItem_covered : Covered final Item.outline recordItem := by
  intro records input
  refine .bind_expect rfl fun start rest _ _ => ?_
  refine .bind (ident_covered records rest) fun name first rest _ hname => ?_
  refine .bind (record_covered .typeFields .typeField TypeExpr.note_outline type_covered records rest) ?_
  rintro ⟨fields, span⟩ second rest _ hfields
  refine .pure ?_
  rw [Item.outline, TypeExpr.outlineFields_eq_map]
  refine covers_node.mpr ⟨?_, ?_⟩
  · simpa using (Span.Joins.single start).hull first hfields.joins
  · simpa using (hname.cons hfields.coverIn).skip [start]

theorem testItem_covered : Covered final Item.outline testItem := by
  intro records input
  refine .bind_expect rfl fun start rest _ _ => ?_
  refine .bind (ident_covered records rest) fun name first rest _ hname => ?_
  refine .bind (block_covered records rest) fun body second rest _ hbody => .pure ?_
  refine covers_node.mpr ⟨?_, ?_⟩
  · simpa using (Span.Joins.single start).hull first hbody.joins
  · simpa using (hname.cons hbody.coverIn).skip [start]

theorem importItem_covered : Covered final Item.outline importItem := by
  intro records input
  refine .bind importDeclaration_covered ?_
  rintro ⟨path, span⟩ taken rest _ ⟨hspan, hpath⟩
  refine .pure ?_
  rw [List.append_nil]
  exact covers_node.mpr ⟨hspan, hpath⟩

theorem item_covered : Covered final Item.outline item := by
  refine fun records input => .bind_peek fun token hshows => ?_
  split
  next => exact importItem_covered records input
  next hkind => exact filterItem_covered ⟨token, hshows, congrArg Kind.variant hkind⟩
  next hkind => exact filterItem_covered ⟨token, hshows, congrArg Kind.variant hkind⟩
  next => exact functionItem_covered records input
  next => exact recordItem_covered records input
  next => exact testItem_covered records input
  next => exact .bind_want .refuse

end Grammar

end FilterScript
