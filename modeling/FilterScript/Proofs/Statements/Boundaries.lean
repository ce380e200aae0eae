import FilterScript.Proofs.Braces.Scripts
import FilterScript.Proofs.Completeness.Fitting
import FilterScript.Proofs.Statements.Blocks

/-!
# Where statements end

One token tells a statement that is a conditional, loop or match from an expression
that only begins with one: the token behind it. All other statements end with a
semicolon, and what comes without one in front of the closing brace is the value of
the block.
-/

namespace FilterScript

variable {σ ν : Type}

/-- The conditional, loop or match that an expression begins with. -/
def Expr.leader? : Expr σ ν → Option (Expr σ ν)
  | .access receiver _ _ => receiver.leader?
  | .call callee _ _ => callee.leader?
  | .question inner _ => inner.leader?
  | .binary _ left _ _ => left.leader?
  | expr => if expr.isControl then some expr else none

theorem Expr.leader?_of_isControl {expr : Expr σ ν} (h : expr.isControl = true) :
    expr.leader? = some expr := by
  cases expr <;> first | rfl | cases h

theorem Expr.isSome_leader? (expr : Expr σ ν) : expr.leader?.isSome = expr.beginsWithControl := by
  match expr with
  | .access receiver _ _ | .call receiver _ _ | .question receiver _ | .binary _ receiver _ _ =>
      exact receiver.isSome_leader?
  | .literal .. | .path _ | .record _ | .typedRecord .. | .unary .. | .exit .. | .conditional ..
  | .loop .. | .select .. | .paren .. => rfl

/-! ## Tokens behind spans -/

namespace Span

variable {span : Span} {ahead : Kind → Prop} {kind : Kind} {tokens : List Token} {rest : List Scan}

/-- The span joins some of the tokens, and the kind of the token behind them, be it one
of the others or the first of what is left, is as asked for. -/
def Meets (span : Span) (ahead : Kind → Prop) (tokens : List Token) (rest : List Scan) : Prop :=
  ∃ before part back, tokens = before ++ (part ++ back) ∧ span.Joins part ∧
    ∀ token, Shows 0 (back.map .ok ++ rest) token → ahead token.kind

/-- The span joins some of the tokens, and the last of these is of this kind. -/
def EndsWith (span : Span) (kind : Kind) (tokens : List Token) : Prop :=
  ∃ before part stop back, tokens = before ++ (part ++ stop :: back) ∧ stop.kind = kind ∧
    span.Joins (part ++ [stop])

theorem Meets.skip (h : span.Meets ahead tokens rest) (gap : List Token) :
    span.Meets ahead (gap ++ tokens) rest := by
  obtain ⟨before, part, back, rfl, hjoins, hahead⟩ := h
  exact ⟨gap ++ before, part, back, by simp, hjoins, hahead⟩

theorem Meets.later {more : List Token} (h : span.Meets ahead tokens (more.map .ok ++ rest)) :
    span.Meets ahead (tokens ++ more) rest := by
  obtain ⟨before, part, back, rfl, hjoins, hahead⟩ := h
  exact ⟨before, part, back ++ more, by simp, hjoins, by simpa using hahead⟩

theorem EndsWith.skip (h : span.EndsWith kind tokens) (gap : List Token) :
    span.EndsWith kind (gap ++ tokens) := by
  obtain ⟨before, part, stop, back, rfl, hkind, hjoins⟩ := h
  exact ⟨gap ++ before, part, stop, back, by simp, hkind, hjoins⟩

theorem EndsWith.trail (h : span.EndsWith kind tokens) (more : List Token) :
    span.EndsWith kind (tokens ++ more) := by
  obtain ⟨before, part, stop, back, rfl, hkind, hjoins⟩ := h
  exact ⟨before, part, stop, back ++ more, by simp, hkind, hjoins⟩

/-- In order, the last of the tokens that a span joins ends where the span does. -/
theorem Joins.stop_eq {part : List Token} {stop : Token} (h : span.Joins (part ++ [stop]))
    (horder : InOrder (part ++ [stop])) : stop.span.stop = span.stop := by
  obtain ⟨first, -, last, hlast, hspan⟩ := h
  obtain rfl : stop = last := by simpa using hlast
  rw [hspan horder]

theorem Joins.exists_last {part : List Token} (h : span.Joins part) :
    ∃ front last, part = front ++ [last] := by
  obtain ⟨-, -, last, hlast, -⟩ := h
  obtain ⟨front, rfl⟩ := List.getLast?_eq_some_iff.mp hlast
  exact ⟨front, last, rfl⟩

theorem Meets.follows {last : Token} (h : span.Meets ahead tokens (.ok last :: rest))
    (horder : InOrder tokens) :
    ∃ next : Token, next.Follows (tokens ++ [last]) span.stop ∧ ahead next.kind := by
  obtain ⟨before, part, back, rfl, hjoins, hahead⟩ := h
  obtain ⟨front, stop, rfl⟩ := hjoins.exists_last
  have hstop := hjoins.stop_eq (horder.of_part ⟨before, back, by simp⟩)
  cases back with
  | nil => exact ⟨last, ⟨before ++ front, stop, [], by simp, hstop⟩, hahead last rfl⟩
  | cons next others =>
      exact ⟨next, ⟨before ++ front, stop, others ++ [last], by simp, hstop⟩, hahead next rfl⟩

theorem EndsWith.exists_token (h : span.EndsWith kind tokens) (horder : InOrder tokens) :
    ∃ stop ∈ tokens, stop.kind = kind ∧ stop.span.stop = span.stop := by
  obtain ⟨before, part, stop, back, rfl, hkind, hjoins⟩ := h
  exact ⟨stop, by simp, hkind, hjoins.stop_eq (horder.of_part ⟨before, back, by simp⟩)⟩

end Span

theorem Token.Follows.mono {token : Token} {part tokens : List Token} {place : Nat}
    (h : token.Follows part place) (hpart : part <:+: tokens) : token.Follows tokens place := by
  obtain ⟨front, last, back, rfl, hplace⟩ := h
  obtain ⟨before, behind, rfl⟩ := hpart
  exact ⟨before ++ front, last, back ++ behind, by simp, hplace⟩

/-! ## Statements -/

/-- The token ends a statement that is a conditional, loop or match: the block goes on,
and the token does not go on with the expression. -/
def Kind.BeginsAnew (kind : Kind) : Prop :=
  kind ≠ Punct.semicolon ∧ kind ≠ Punct.rbrace ∧ ¬ kind.Continues

/-- If the expression begins with a conditional, loop or match and is more than that,
the token behind that goes on with it. -/
def Expr.LeadsOn (expr : Expr Span ν) (tokens : List Token) (rest : List Scan) : Prop :=
  ∀ leader ∈ expr.leader?, leader ≠ expr → leader.span.Meets Kind.Continues tokens rest

/-- Where the statement ends, among the tokens taken and before those that are left. -/
def Statement.EndsRightly (statement : Statement Span ν) (tokens : List Token)
    (rest : List Scan) : Prop :=
  match statement with
  | .import _ span | .binding _ _ _ span => span.EndsWith Punct.semicolon tokens
  | .expr value span => span.EndsWith Punct.semicolon tokens ∧ value.LeadsOn tokens rest
  | .control value => value.isControl = true ∧ value.span.Meets Kind.BeginsAnew tokens rest

section

variable {tokens : List Token} {rest : List Scan}

theorem Expr.LeadsOn.skip {expr : Expr Span ν} (h : expr.LeadsOn tokens rest) (gap : List Token) :
    expr.LeadsOn (gap ++ tokens) rest :=
  fun leader hleader hne => (h leader hleader hne).skip gap

theorem Expr.LeadsOn.later {expr : Expr Span ν} {more : List Token}
    (h : expr.LeadsOn tokens (more.map .ok ++ rest)) : expr.LeadsOn (tokens ++ more) rest :=
  fun leader hleader hne => (h leader hleader hne).later

theorem Statement.EndsRightly.skip {statement : Statement Span ν}
    (h : statement.EndsRightly tokens rest) (gap : List Token) :
    statement.EndsRightly (gap ++ tokens) rest := by
  match statement with
  | .import _ _ | .binding _ _ _ _ => exact Span.EndsWith.skip h gap
  | .expr _ _ => exact ⟨h.1.skip gap, h.2.skip gap⟩
  | .control _ => exact ⟨h.1, h.2.skip gap⟩

theorem Statement.EndsRightly.later {statement : Statement Span ν} {more : List Token}
    (h : statement.EndsRightly tokens (more.map .ok ++ rest)) :
    statement.EndsRightly (tokens ++ more) rest := by
  match statement with
  | .import _ _ | .binding _ _ _ _ => exact Span.EndsWith.trail h more
  | .expr _ _ => exact ⟨h.1.trail more, h.2.later⟩
  | .control _ => exact ⟨h.1, h.2.later⟩

theorem Statement.EndsRightly.semicolon {statement : Statement Span ν}
    (h : statement.EndsRightly tokens rest) (hcontrol : ∀ value, statement ≠ .control value) :
    statement.span.EndsWith Punct.semicolon tokens := by
  match statement with
  | .import _ _ | .binding _ _ _ _ => exact h
  | .expr _ _ => exact h.1
  | .control value => exact absurd rfl (hcontrol value)

end

/-- The statements of a block and its last expression end where they should, as the
tokens tell. -/
structure Block.Delimited (block : Block Span ν) (tokens : List Token) : Prop where
  semicolons : ∀ statement ∈ block.statements, (∀ value, statement ≠ .control value) →
    ∃ mark ∈ tokens, mark.kind = Punct.semicolon ∧ mark.span.stop = statement.span.stop
  /-- Behind the last expression stands the brace that closes the block. -/
  tail : ∀ tail ∈ block.tail, ∃ brace : Token, brace.Follows tokens tail.span.stop ∧
    brace.kind = Punct.rbrace ∧ brace.span.stop = block.span.stop
  controls : ∀ value, .control value ∈ block.statements → value.isControl = true ∧
    ∃ next : Token, next.Follows tokens value.span.stop ∧ next.kind ≠ Punct.semicolon ∧
      next.kind ≠ Punct.rbrace ∧ ¬ next.kind.Continues
  last : block.tail = none → ∀ value, block.statements.getLast? ≠ some (.control value)
  leaders : ∀ value, (block.tail = some value ∨ ∃ span, .expr value span ∈ block.statements) →
    ∀ leader ∈ value.leader?, leader ≠ value →
      ∃ next : Token, next.Follows tokens leader.span.stop ∧ next.kind.Continues

theorem Block.Delimited.mono {block : Block Span ν} {part tokens : List Token}
    (h : block.Delimited part) (hpart : part <:+: tokens) : block.Delimited tokens where
  semicolons statement hstatement hcontrol := by
    obtain ⟨mark, hmark, hkind, hstop⟩ := h.semicolons statement hstatement hcontrol
    exact ⟨mark, hpart.subset hmark, hkind, hstop⟩
  tail tail htail := by
    obtain ⟨brace, hfollows, hbrace⟩ := h.tail tail htail
    exact ⟨brace, hfollows.mono hpart, hbrace⟩
  controls value hvalue := by
    obtain ⟨hcontrol, next, hfollows, hnext⟩ := h.controls value hvalue
    exact ⟨hcontrol, next, hfollows.mono hpart, hnext⟩
  last := h.last
  leaders value hvalue leader hleader hne := by
    obtain ⟨next, hfollows, hnext⟩ := h.leaders value hvalue leader hleader hne
    exact ⟨next, hfollows.mono hpart, hnext⟩

/-- Statements that fit with nothing behind them do not end with a conditional, loop or
match. -/
theorem Statement.FitsList.getLast?_ne {statements : List (Statement σ ν)}
    (h : Statement.FitsList false statements) (value : Expr σ ν) :
    statements.getLast? ≠ some (.control value) := by
  intro hlast
  obtain ⟨front, rfl⟩ := List.getLast?_eq_some_iff.mp hlast
  obtain ⟨-, -, hfollowed, -⟩ := Statement.fitsList_append.mp h
  cases hfollowed

namespace Grammar

open Parse Outline

variable {final : Names} {rules : Rules} {records : Bool} {input : List Scan}

/-! ## Expressions at the start of a statement -/

theorem postfixes_keep_leader (h : RulesCovered final rules) {first control : Expr Span Symbol}
    (hfirst : first.leader? = some control) :
    Reads final records input (postfixes rules first) fun expr taken rest =>
      expr.leader? = some control ∧
        (expr.isControl = true → taken = [] ∧ ¬ Next Punct.dot rest ∧ ¬ Next Punct.question rest) := by
  refine .repeated (fun expr taken _ =>
    expr.leader? = some control ∧ (expr.isControl = true → taken = [])) ⟨hfirst, fun _ => rfl⟩
    fun expr taken rest ⟨hexpr, hnone⟩ => ?_
  refine .bind_takes rfl (fun dot rest _ _ => ?_) fun hdot => ?_
  · refine .bind (ident_covered records rest) fun name more rest _ _ => .pure ?_
    exact ⟨hexpr, fun hcontrol => by cases hcontrol⟩
  refine .bind_takes rfl (fun left rest _ _ => ?_) fun _ => ?_
  · refine .bind (.withRecords (commaList_covered (h.expr 0))) fun arguments more rest _ _ => ?_
    refine .bind_expect rfl fun right rest _ _ => .pure ?_
    exact ⟨hexpr, fun hcontrol => by cases hcontrol⟩
  refine .bind_nextIs (fun hnext => ?_) fun hmark => .pure ?_
  · refine .bind_advance hnext rfl fun mark rest _ _ => .pure ?_
    exact ⟨hexpr, fun hcontrol => by cases hcontrol⟩
  · exact ⟨hexpr, fun hcontrol => ⟨by simpa using hnone hcontrol, hdot, hmark⟩⟩

theorem operators_keep_leader (h : RulesCovered final rules) {first control : Expr Span Symbol}
    (hfirst : first.leader? = some control) :
    Reads final records input (operators rules 0 first) fun expr taken rest =>
      expr.leader? = some control ∧
        (expr.isControl = true → taken = [] ∧ expr = first ∧ ∀ op : BinaryOp, ¬ Next op.punct rest) := by
  refine .repeated (fun expr taken _ =>
    expr.leader? = some control ∧ (expr.isControl = true → taken = [] ∧ expr = first))
    ⟨hfirst, fun _ => ⟨rfl, rfl⟩⟩ fun expr taken rest ⟨hexpr, hnone⟩ => .bind_peek fun token hshows => ?_
  split
  next op hop =>
    rw [if_neg (Nat.not_lt_zero _)]
    have hkind := BinaryOp.ofKind?_eq_some_iff.mp hop
    refine .bind_advance ⟨token, hshows, congrArg Kind.variant hkind⟩ rfl fun mark rest _ _ => ?_
    refine .bind (h.expr _ records rest) fun right more rest _ _ => .pure ?_
    exact ⟨hexpr, fun hcontrol => by cases hcontrol⟩
  next hop =>
    refine .pure ⟨hexpr, fun hcontrol => ⟨by simpa using (hnone hcontrol).1, (hnone hcontrol).2, ?_⟩⟩
    intro op hnext
    rw [ofKind?_of_next hshows hnext] at hop
    cases hop

/-- What is needed of the productions that others go back to. -/
structure RulesRead (final : Names) (rules : Rules) : Prop where
  covered : RulesCovered final rules
  fit : RulesFit final rules
  spelled : RulesSpelled final rules

theorem rulesWithin_read (levels : Nat) : RulesRead final (rulesWithin levels) :=
  ⟨rulesWithin_covered levels, rulesWithin_fit levels, rulesWithin_spelled levels⟩

/-- Behind a conditional, loop or match at the start of a statement stands a token that
goes on with it just if the expression is more than that. -/
theorem leadingExpr_leads_on (h : RulesRead final rules) :
    Reads final records input (leadingExpr rules) fun value taken rest =>
      value.LeadsOn taken rest ∧
        (value.isControl = true → ∀ token, Shows 0 rest token → ¬ token.kind.Continues) := by
  refine .bind_peek fun token hshows => ?_
  split
  next production hproduction =>
    refine .bind ((control?_covered h.covered hproduction records input).and
      (control?_builds h.fit h.spelled hproduction input)) ?_
    rintro control taken rest - ⟨hcovers, hcontrol, -⟩
    have hleader := Expr.leader?_of_isControl hcontrol
    have hjoins : control.span.Joins taken := by simpa using hcovers.joins
    refine .bind_peek fun next hnext => ?_
    split
    next hcontinues =>
      have hkind := continuesExpr_iff.mp hcontinues
      refine .bind (postfixes_keep_leader h.covered hleader) ?_
      rintro first more rest' rfl ⟨hfirst, hdots⟩
      refine (operators_keep_leader h.covered hfirst).mono ?_
      rintro value last rest rfl ⟨hvalue, hoperators⟩
      refine ⟨fun leader hmem _ => ?_, fun hsame => ?_⟩
      · obtain rfl : control = leader := Option.some.inj (hvalue.symm.trans hmem)
        refine ⟨[], taken, more ++ last, by simp, hjoins, fun other hother => ?_⟩
        have hsame : next.kind = other.kind := hnext.kind_unique (by simpa using hother)
        rwa [← hsame]
      · -- The token would have been taken.
        obtain ⟨rfl, rfl, hop⟩ := hoperators hsame
        obtain ⟨rfl, hdot, hmark⟩ := hdots hsame
        rcases hkind with hkind | hkind | ⟨op, -, hkind⟩
        · exact absurd ⟨next, hnext, congrArg Kind.variant hkind⟩ hdot
        · exact absurd ⟨next, hnext, congrArg Kind.variant hkind⟩ hmark
        · exact absurd ⟨next, hnext, congrArg Kind.variant hkind⟩ (hop op)
    next hcontinues =>
      refine .pure ⟨fun leader hmem hne => ?_, fun _ other hother hkind => ?_⟩
      · exact absurd (Option.some.inj (hleader.symm.trans hmem)).symm hne
      · rw [hnext.kind_unique hother] at hcontinues
        exact hcontinues (continuesExpr_iff.mpr hkind)
  next hnone =>
    refine (h.spelled.expr 0 records input).mono ?_
    rintro value taken rest rfl hspells
    have hbegins := beginsWithControl_of_control? hspells hshows hnone
    refine ⟨fun leader hmem _ => ?_, fun hcontrol => ?_⟩
    · rw [← value.isSome_leader?, Option.mem_def.mp hmem] at hbegins
      cases hbegins
    · rw [Expr.beginsWithControl_of_isControl hcontrol] at hbegins
      cases hbegins

/-! ## Statements and blocks -/

theorem binding_endsRightly (h : RulesCovered final rules) :
    Reads final records input (binding rules) fun statement taken rest =>
      statement.EndsRightly taken rest := by
  refine .bind_expect rfl fun start rest _ _ => ?_
  refine .bind (ident_covered records rest) fun name first rest _ _ => ?_
  refine .bind (typeAfter_covered .colon) fun type second rest _ _ => ?_
  refine .bind_expect rfl fun assign rest _ _ => ?_
  refine .bind (h.expr 0 records rest) fun value third rest _ _ => ?_
  refine .bind_expect rfl fun stop rest _ hstop => .pure ?_
  refine ⟨[], start :: (first ++ (second ++ assign :: third)), stop, [], by simp, hstop, ?_⟩
  simpa using (Span.Joins.single start).hull (first ++ (second ++ assign :: third)) (.single stop)

theorem importStatement_endsRightly :
    Reads final records input importStatement fun statement taken rest =>
      statement.EndsRightly taken rest := by
  have hdeclared : Reads final records input importDeclaration fun declared taken _ =>
      declared.2.EndsWith Punct.semicolon taken := by
    refine .bind_expect rfl fun start rest _ _ => ?_
    refine .bind (importPath_covered records rest) fun path taken rest _ _ => ?_
    refine .bind_expect rfl fun stop rest _ hstop => .pure ?_
    refine ⟨[], start :: taken, stop, [], by simp, hstop, ?_⟩
    simpa using (Span.Joins.single start).hull taken (.single stop)
  refine .bind hdeclared ?_
  rintro ⟨path, span⟩ taken rest _ hspan
  refine .pure ?_
  rw [List.append_nil]
  exact hspan

/-- All statements end rightly, and the last expression ends with the tokens. -/
structure ContentsEnd (contents : Contents) (tokens : List Token) (rest : List Scan) : Prop where
  statements : ∀ statement ∈ contents.1, statement.EndsRightly tokens rest
  tail : ∀ tail ∈ contents.2, tail.LeadsOn tokens rest ∧
    ∃ before part, tokens = before ++ part ∧ tail.span.Joins part

theorem statementRound_endsRightly (h : RulesRead final rules)
    {statements : List (Statement Span Symbol)} {taken : List Token}
    (hstatements : ∀ statement ∈ statements, statement.EndsRightly taken input) :
    Reads final records input (statementRound rules statements)
      (Reads.Keeps
        (fun statements taken rest => ∀ statement ∈ statements, statement.EndsRightly taken rest)
        ContentsEnd taken) := by
  have hbefore {more : List Token} {rest : List Scan} (hinput : input = more.map .ok ++ rest) :
      ∀ statement ∈ statements, statement.EndsRightly (taken ++ more) rest := by
    subst hinput
    exact fun statement hstatement => (hstatements statement hstatement).later
  -- Whatever sort of statement comes next, it is put behind those before.
  have hmore {statement : Statement Span Symbol} {more : List Token} {rest : List Scan}
      (hinput : input = more.map .ok ++ rest) (hstatement : statement.EndsRightly more rest) :
      ∀ other ∈ statements ++ [statement], other.EndsRightly (taken ++ more) rest :=
    List.forall_mem_append.mpr
      ⟨hbefore hinput, List.forall_mem_singleton.mpr (hstatement.skip taken)⟩
  refine .bind_accepts (fun _ => .pure ⟨hbefore (by simp), by simp⟩) fun _ => ?_
  refine .bind_nextIs (fun _ => ?_) fun _ => ?_
  · refine .bind (binding_endsRightly h.covered) fun statement more rest hinput hstatement => ?_
    exact .pure (by simpa using hmore hinput hstatement)
  refine .bind_nextIs (fun _ => ?_) fun _ => ?_
  · refine .bind importStatement_endsRightly fun statement more rest hinput hstatement => ?_
    exact .pure (by simpa using hmore hinput hstatement)
  refine .bind ((leadingExpr_covered h.covered records input).and (leadingExpr_leads_on h)) ?_
  rintro value more rest hinput ⟨hcovers, hleads, hends⟩
  have hjoins : value.span.Joins more := by simpa using hcovers.joins
  refine .bind_accepts (fun hnext => ?_) fun hsemicolon => ?_
  · refine .bind_advance hnext rfl ?_
    rintro stop rest rfl hstop
    refine .pure (hmore (by simpa using hinput) ⟨⟨[], more, stop, [], rfl, hstop, ?_⟩, ?_⟩)
    · simpa using hjoins.hull [] (.single stop)
    · exact Expr.LeadsOn.later hleads
  refine .bind_accepts (fun _ => .pure ⟨?_, fun tail htail => ?_⟩) fun hbrace => ?_
  · simpa using hbefore hinput
  · obtain rfl := Option.some.inj htail
    rw [List.append_nil]
    exact ⟨hleads.skip taken, taken, more, rfl, hjoins⟩
  cases hcontrol : value.isControl with
  | false => exact .refuse
  | true =>
      have hnext : ∀ token, Shows 0 rest token → token.kind.BeginsAnew := fun token hshows =>
        ⟨fun hkind => hsemicolon ⟨token, hshows, congrArg Kind.variant hkind⟩,
          fun hkind => hbrace ⟨token, hshows, congrArg Kind.variant hkind⟩,
          hends hcontrol token hshows⟩
      have hstatement : (Statement.control value).EndsRightly more rest :=
        ⟨hcontrol, [], more, [], by simp, hjoins, by simpa using hnext⟩
      exact .pure (by simpa using hmore hinput hstatement)

/-- With the brace behind it, what ends rightly makes a block that is delimited. -/
theorem ContentsEnd.delimited {statements : List (Statement Span Symbol)}
    {tail : Option (Expr Span Symbol)} {span : Span} {taken : List Token} {right : Token}
    {rest : List Scan} (h : ContentsEnd (statements, tail) taken (.ok right :: rest))
    (horder : InOrder taken) (hright : right.kind = Punct.rbrace)
    (hstop : right.span.stop = span.stop) (hfits : (Block.mk statements tail span).Fits) :
    (Block.mk statements tail span).Delimited (taken ++ [right]) where
  semicolons statement hstatement hcontrol := by
    obtain ⟨mark, hmark, hkind, hstop⟩ :=
      ((h.statements statement hstatement).semicolon hcontrol).exists_token horder
    exact ⟨mark, List.mem_append_left _ hmark, hkind, hstop⟩
  tail tail htail := by
    obtain ⟨-, before, part, rfl, hjoins⟩ := h.tail tail htail
    obtain ⟨front, last, rfl⟩ := hjoins.exists_last
    have hplace := hjoins.stop_eq (horder.of_part ⟨before, [], by simp⟩)
    exact ⟨right, ⟨before ++ front, last, [], by simp, hplace⟩, hright, hstop⟩
  controls value hvalue := by
    obtain ⟨hcontrol, hmeets⟩ := h.statements (.control value) hvalue
    exact ⟨hcontrol, hmeets.follows horder⟩
  last hnone := by
    obtain rfl : tail = none := hnone
    exact Statement.FitsList.getLast?_ne hfits
  leaders value hvalue leader hleader hne := by
    have hleads : value.LeadsOn taken (.ok right :: rest) := by
      rcases hvalue with htail | ⟨span, hvalue⟩
      · exact (h.tail value htail).1
      · exact (h.statements (.expr value span) hvalue).2
    exact (hleads leader hleader hne).follows horder

/-- Every block that is read is delimited by the tokens taken for it. -/
theorem braces_delimited (levels : Nat) :
    Reads final records input (braces (rulesWithin levels)) fun block taken _ =>
      InOrder taken → block.Delimited taken := by
  have h : RulesRead final (rulesWithin levels) := rulesWithin_read levels
  have hdelimited : Reads final records input (braces (rulesWithin levels)) fun block taken _ =>
      block.Fits → InOrder taken → block.Delimited taken := by
    refine .nested (.bind_expect rfl fun left rest _ _ => ?_)
    have hcontents : Reads final true rest (repeated (statementRound (rulesWithin levels)) [])
        ContentsEnd :=
      .repeated
        (fun statements taken rest => ∀ statement ∈ statements, statement.EndsRightly taken rest)
        (by simp) fun statements taken rest => statementRound_endsRightly h
    refine .bind (.withRecords hcontents) ?_
    rintro ⟨statements, tail⟩ taken _ - hends
    refine .bind_expect rfl ?_
    rintro right rest rfl hright
    refine .pure fun hfits horder => ?_
    have hinner : InOrder taken := horder.of_part ⟨[left], [right], by simp⟩
    have hjoins : (left.span.hull right.span).Joins ((left :: taken) ++ [right]) :=
      (Span.Joins.single left).hull taken (.single right)
    have hblock := hends.delimited hinner hright (hjoins.stop_eq horder) hfits
    exact hblock.mono (List.suffix_cons left _).isInfix
  exact ((braces_builds h.fit h.spelled input).and hdelimited).mono
    fun block taken rest _ ⟨hfits, hblock⟩ => hblock hfits

end Grammar

/-- In every accepted source each block is delimited by the tokens, and likewise in a
source that is one expression. -/
theorem parse_delimited (source : String) :
    (∀ parsed, parse source = .ok parsed →
      ∃ tokens, tokenize source = .ok (tokens ++ [Token.atEnd (byteLength source.toList)]) ∧
        ∀ block : Block Span Symbol, block.outline ∈ parsed.tree.outline.subtrees →
          block.Delimited tokens) ∧
    (∀ parsed, parseExpr source = .ok parsed →
      ∃ tokens, tokenize source = .ok (tokens ++ [Token.atEnd (byteLength source.toList)]) ∧
        ∀ block : Block Span Symbol, block.outline ∈ parsed.tree.outline.subtrees →
          block.Delimited tokens) := by
  have hblocks {tokens : List Token} {tree : Outline Span Symbol}
      (hscans : (Stream.ofSource source).scans = tokens.map .ok)
      (h : Outline.EveryBlock (fun block part => InOrder part → block.Delimited part) [tree] tokens) :
      ∀ block : Block Span Symbol, block.outline ∈ tree.subtrees → block.Delimited tokens := by
    intro block hblock
    obtain ⟨part, hpart, hdelimited⟩ := h block (by simpa using hblock)
    exact (hdelimited ((inOrder_of_scans hscans).1.of_part hpart)).mono hpart
  obtain ⟨hscript, hexpr⟩ :=
    everyBlock_of_runOn source fun _ levels _ _ => Grammar.braces_delimited levels
  constructor
  · intro parsed hrun
    obtain ⟨tokens, hscans, h⟩ := hscript parsed hrun
    exact ⟨tokens, tokenize_of_scans hscans, hblocks hscans h⟩
  · intro parsed hrun
    obtain ⟨tokens, hscans, h⟩ := hexpr parsed hrun
    exact ⟨tokens, tokenize_of_scans hscans, hblocks hscans h⟩

theorem parse_delimited_of_control :
    ∃ parsed, parse "test a \x7b if b \x7b \x7d - c; if b \x7b \x7d .d \x7d" = .ok parsed ∧
      ∃ tokens, tokenize "test a \x7b if b \x7b \x7d - c; if b \x7b \x7d .d \x7d" =
          .ok (tokens ++ [Token.atEnd 36]) ∧
        ∀ block : Block Span Symbol, block.outline ∈ parsed.tree.outline.subtrees →
          block.Delimited tokens := by
  have haccepted :
      (parse "test a \x7b if b \x7b \x7d - c; if b \x7b \x7d .d \x7d").toBool = true := by
    decide +kernel
  cases hparsed : parse "test a \x7b if b \x7b \x7d - c; if b \x7b \x7d .d \x7d" with
  | ok parsed => exact ⟨parsed, rfl, (parse_delimited _).1 parsed hparsed⟩
  | error error => simp [hparsed, Except.toBool] at haccepted

end FilterScript
