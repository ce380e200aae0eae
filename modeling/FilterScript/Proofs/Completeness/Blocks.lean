import FilterScript.Proofs.Completeness.Expressions

/-!
# Reading written blocks

A statement is told apart by its first token, except that a conditional, loop or
match may also be the first operand of something larger. With blocks the circle
of productions closes.
-/

namespace FilterScript

variable {σ τ ν μ : Type}

theorem Statement.mapList_append (f : σ → τ) (g : ν → μ) (first second : List (Statement σ ν)) :
    Statement.mapList f g (first ++ second) =
      Statement.mapList f g first ++ Statement.mapList f g second := by
  induction first with
  | nil => simp [mapList]
  | cons statement rest ih => simp [mapList, ih]

theorem Expr.isControl_map (f : σ → τ) (g : ν → μ) (expr : Expr σ ν) :
    (expr.map f g).isControl = expr.isControl := by
  rcases expr with _ | _ | _ | _ | ⟨_, _⟩ | ⟨_, ⟨_, _⟩⟩ | _ | _ | _ | _ | _ | _ | _ | _ <;> simp [isControl]

theorem Expr.beginsWithControl_firstOperand (expr : Expr σ ν) :
    expr.firstOperand.beginsWithControl = expr.beginsWithControl := by
  match expr with
  | .binary _ left _ _ => exact left.beginsWithControl_firstOperand
  | .literal .. | .path _ | .access .. | .call .. | .record _ | .typedRecord .. | .unary ..
  | .question .. | .exit .. | .conditional .. | .loop .. | .select .. | .paren .. => rfl

theorem Expr.beginsWithControl_base (expr : Expr σ ν) :
    expr.base.beginsWithControl = expr.beginsWithControl := by
  match expr with
  | .access receiver _ _ => exact receiver.beginsWithControl_base
  | .call callee _ _ => exact callee.beginsWithControl_base
  | .question inner _ => exact inner.beginsWithControl_base
  | .literal .. | .path _ | .record _ | .typedRecord .. | .unary .. | .binary .. | .exit ..
  | .conditional .. | .loop .. | .select .. | .paren .. => rfl

theorem Expr.isControl_of_isPrimary {expr : Expr σ ν} (h : expr.IsPrimary)
    (hbegins : expr.beginsWithControl = true) : expr.isControl = true := by
  cases expr with
  | conditional | loop | select => rfl
  | access | call | question | unary | binary | exit => cases h
  | _ => simp [beginsWithControl] at hbegins

theorem Expr.takesPostfix_of_beginsWithControl {expr : Expr σ ν} (h : ¬ expr.IsBinary)
    (hbegins : expr.beginsWithControl = true) : expr.TakesPostfix := by
  cases expr with
  | binary => exact absurd trivial h
  | unary | exit => cases hbegins
  | _ => trivial

namespace Grammar

open Parse Parse.Gives

variable {final : Names} {rules : Rules} {bound : Nat} {records : Bool} {taken rest : List Token}

/-! ## Expressions at the start of a statement -/

theorem continuesExpr_of_closes {kind : Kind} (h : Closes kind) : continuesExpr kind = false := by
  obtain ⟨_, hnone, hdot, hmark, _⟩ := h
  unfold continuesExpr
  split <;> simp_all

/-- A conditional, loop or match has a production of its own. -/
theorem control?_gives (h : RulesGive final rules bound) {target : Expr Unit String}
    (hcontrol : target.isControl = true) (hfits : target.Fits records)
    (hspells : Spells (target.slots id) taken) (hbound : taken.length ≤ bound)
    (hrest : kindAt 0 rest ≠ Keyword.else_) :
    ∃ production, (∀ more, control? rules (kindAt 0 (taken ++ more)) = some production) ∧
      GivesExpr final records taken rest production target := by
  have hfirst : ∀ {kind : Kind} {slots : List Slot}, Spells (.token kind :: slots) taken →
      ∀ more, control? rules (kindAt 0 (taken ++ more)) = control? rules kind :=
    fun hspells more => by rw [kindAt_of_spells hspells]
  match target with
  | .conditional condition consequence alternative span =>
      exact ⟨_, hfirst hspells, conditional_gives h trivial hfits hspells hbound hrest⟩
  | .loop condition body span => exact ⟨_, hfirst hspells, whileLoop_gives h hfits hspells hbound⟩
  | .select scrutinee arms span => exact ⟨_, hfirst hspells, select_gives h hfits hspells hbound⟩

/-- A conditional, loop or match with nothing behind it that could go on with
it. -/
theorem leadingExpr_gives_control (h : RulesGive final rules bound) {target : Expr Unit String}
    (hcontrol : target.isControl = true) (hfits : target.Fits records)
    (hspells : Spells (target.slots id) taken) (hbound : taken.length ≤ bound)
    (helse : kindAt 0 rest ≠ Keyword.else_) (hrest : continuesExpr (kindAt 0 rest) = false) :
    GivesExpr final records taken rest (leadingExpr rules) target := by
  obtain ⟨production, hproduction, hgives⟩ := control?_gives h hcontrol hfits hspells hbound helse
  refine bind_peek fun shown hshown => ?_
  rw [hshown, hproduction, ← List.append_nil taken]
  refine .bind hgives fun value hvalue => bind_peek fun next hnext => ?_
  rw [hnext, List.nil_append, hrest]
  exact .pure hvalue

/-- An expression at the start of a statement, up to what ends it. -/
theorem leadingExpr_gives (h : RulesGive final rules bound) {target : Expr Unit String}
    (hgoes : target.GoesOn) (hfits : target.Fits records)
    (hspells : Spells (target.slots id) taken) (hbound : taken.length < bound)
    (hrest : Closes (kindAt 0 rest)) :
    GivesExpr final records taken rest (leadingExpr rules) target := by
  have hstops : ∀ least, StopsExpr records least target (kindAt 0 rest) :=
    fun least => hrest.stops least target
  cases hcontrol : target.isControl with
  | true =>
      exact leadingExpr_gives_control h hcontrol hfits hspells (by omega) hrest.2.2.2.2
        (continuesExpr_of_closes hrest)
  | false =>
      cases hbegins : target.beginsWithControl with
      | false =>
          obtain ⟨_, _, hkind⟩ : BeginsExpr records target.beginsWithControl
              (kindAt 0 (taken ++ rest)) := (expr_begins target hfits).kindAt hspells
          refine bind_peek fun shown hshown => ?_
          rw [hshown, control?_eq_none (hkind.trans hbegins)]
          exact h.whole hfits hspells hbound (hstops 0)
      | true =>
          -- The first operand is read up to its last postfix, then the operators.
          obtain ⟨tokens, back, rfl, hoperand, hoperators⟩ := operators_lead h hfits
            (holdsAtLeast_zero target) hspells (by omega) (hstops 0)
          have hfirst := target.beginsWithControl_firstOperand.trans hbegins
          have htakes :=
            Expr.takesPostfix_of_beginsWithControl target.not_isBinary_firstOperand hfirst
          rw [List.length_append] at hbound
          obtain ⟨front, middle, rfl, hprimary, hpostfixes⟩ := postfixes_lead h htakes
            hoperators.fits hoperators.spells (by omega) hoperand.1
          rw [List.length_append] at hbound
          have hbase : target.firstOperand.base.isControl = true :=
            Expr.isControl_of_isPrimary
              (target.firstOperand.isPrimary_base hoperators.fits htakes)
              (target.firstOperand.beginsWithControl_base.trans hfirst)
          obtain ⟨production, hproduction, hgives⟩ := control?_gives h hbase hpostfixes.fits
            hpostfixes.spells (by omega) hprimary.1
          have hgoesOn : continuesExpr (kindAt 0 (middle ++ back ++ rest)) = true := by
            rw [List.append_assoc]
            rcases hpostfixes.control (hoperators.goesOn hgoes) hbase with ⟨rfl, hwhole⟩ | hmiddle
            · rw [← hwhole] at hbase
              rcases hoperators.control hgoes hbase with ⟨_, hwhole⟩ | hback
              · rw [← hwhole, hcontrol] at hbase
                cases hbase
              · exact hback rest
            · exact hmiddle (back ++ rest)
          refine bind_peek fun shown hshown => ?_
          rw [List.append_assoc] at hshown ⊢
          rw [hshown, List.append_assoc, hproduction]
          rw [← List.append_assoc] at hgives
          refine .bind hgives fun value hvalue => bind_peek fun next hnext => ?_
          rw [hnext, hgoesOn]
          refine .bind (hpostfixes.gives hvalue) fun first hfirst => ?_
          exact hoperators.gives hfirst

/-! ## Statements -/

theorem binding_gives (h : RulesGive final rules bound) {name : Ident Unit String}
    {type : Option (TypeExpr Unit String)} {value : Expr Unit String} {span : Unit}
    (hfits : value.Fits records)
    (hspells : Spells ((Statement.binding name type value span).slots id) taken)
    (hbound : taken.length < bound) :
    Gives final records taken rest (binding rules) fun result =>
      result.map noNote final.text = .binding name type value span := by
  rw [Statement.slots, List.append_assoc] at hspells
  obtain ⟨tokens, others, rfl, hspells, hothers⟩ := Spells.append_iff.mp hspells
  obtain ⟨tokens, middle, rfl, hspells, hmiddle⟩ := Spells.append_iff.mp hspells
  obtain ⟨start, front, rfl, hstart, hfront⟩ := Spells.token_iff.mp hspells
  obtain ⟨assign, tokens, rfl, hassign, hspells⟩ := Spells.token_iff.mp hothers
  obtain ⟨back, last, rfl, hback, hlast⟩ := Spells.append_iff.mp hspells
  obtain ⟨stop, rfl, hstop⟩ := Spells.single_iff.mp hlast
  simp only [List.length_append, List.length_cons] at hbound
  have htype : StopsType (kindAt 0 (assign :: (back ++ [stop]) ++ rest)) ∧
      kindAt 0 (assign :: (back ++ [stop]) ++ rest) ≠ Punct.colon := by
    rw [List.cons_append, kindAt_zero, hassign]
    exact ⟨⟨by simp, by simp, by simp⟩, by simp⟩
  have hvalue : StopsExpr records 0 value (kindAt 0 ([stop] ++ rest)) := by
    rw [List.singleton_append, kindAt_zero, hstop]
    exact Closes.stops ⟨rfl, rfl, by simp, by simp, by simp⟩ 0 value
  rw [List.append_assoc, List.cons_append]
  refine bind_expect rfl hstart (.bind (ident_gives hfront) fun name hname => ?_)
  refine .bind (typeAfter_gives hmiddle htype.1 htype.2) fun type htype => ?_
  refine bind_expect rfl hassign (.bind (h.whole hfits hback (by omega) hvalue) fun value hvalue => ?_)
  refine bind_expect rfl hstop (.pure ?_)
  rw [Statement.map, hname, htype, hvalue]

theorem importStatement_gives {path : ImportPath Unit String} {span : Unit} (hfits : path.Fits)
    (hspells : Spells ((Statement.import path span).slots id) taken) :
    Gives final records taken rest importStatement fun result =>
      result.map noNote final.text = .import path span := by
  unfold importStatement
  rw [← List.append_nil taken]
  refine .bind (importDeclaration_gives hfits hspells) fun result hresult => .pure ?_
  rw [Statement.map, hresult]

/-- A token that begins an expression begins no other statement and ends none. -/
theorem ne_of_beginsExpression {kind : Kind} (h : kind.beginsExpression = true) :
    kind ≠ Punct.rbrace ∧ kind ≠ Keyword.let_ ∧ kind ≠ Keyword.import_ := by
  refine ⟨?_, ?_, ?_⟩ <;> rintro rfl <;> cases h

/-- One more statement. Behind one without a semicolon something else begins. -/
theorem statementRound_gives (h : RulesGive final rules bound) {statement : Statement Unit String}
    {statements : List (Statement Span Symbol)} {followed : Bool} (hfits : statement.Fits followed)
    (hspells : Spells (statement.slots id) taken) (hbound : taken.length < bound)
    (hnext : followed = true → BeginsStatement (kindAt 0 rest)) :
    Gives final true taken rest (statementRound rules statements) fun result =>
      ∃ longer, result = .more longer ∧ Statement.mapList noNote final.text longer =
        Statement.mapList noNote final.text statements ++ [statement] := by
  have hlonger : ∀ result : Statement Span Symbol, result.map noNote final.text = statement →
      Statement.mapList noNote final.text (statements ++ [result]) =
        Statement.mapList noNote final.text statements ++ [statement] := by
    rintro result rfl
    simp [Statement.mapList_append, Statement.mapList]
  cases statement with
  | «import» path span =>
      have hfirst : kindAt 0 (taken ++ rest) = Keyword.import_ := kindAt_of_spells hspells
      refine bind_accepts_no rfl (by rw [hfirst]; simp) (bind_nextIs_no rfl (by rw [hfirst]; simp)
        (bind_nextIs_yes hfirst ?_))
      rw [← List.append_nil taken]
      refine .bind (importStatement_gives hfits hspells) fun result hresult => ?_
      exact .pure ⟨_, rfl, hlonger result hresult⟩
  | binding name type value span =>
      have hfirst : kindAt 0 (taken ++ rest) = Keyword.let_ := kindAt_of_spells hspells
      refine bind_accepts_no rfl (by rw [hfirst]; simp) (bind_nextIs_yes hfirst ?_)
      rw [← List.append_nil taken]
      refine .bind (binding_gives h hfits hspells hbound) fun result hresult => ?_
      exact .pure ⟨_, rfl, hlonger result hresult⟩
  | expr value span =>
      obtain ⟨hgoes, hfits⟩ := hfits
      obtain ⟨hbegins, _, _⟩ : BeginsExpr true value.beginsWithControl (kindAt 0 (taken ++ rest)) :=
        ((expr_begins value hfits).append _).kindAt hspells
      obtain ⟨hbrace, hlet, himport⟩ := ne_of_beginsExpression hbegins
      refine bind_accepts_no rfl hbrace (bind_nextIs_no rfl hlet (bind_nextIs_no rfl himport ?_))
      obtain ⟨front, last, rfl, hfront, hlast⟩ := Spells.append_iff.mp hspells
      obtain ⟨stop, rfl, hstop⟩ := Spells.single_iff.mp hlast
      rw [List.length_append] at hbound
      have hcloses : Closes (kindAt 0 ([stop] ++ rest)) := by
        rw [List.singleton_append, kindAt_zero, hstop]
        exact ⟨rfl, rfl, by simp, by simp, by simp⟩
      refine .bind (leadingExpr_gives h hgoes hfits hfront (by omega) hcloses) fun result hresult => ?_
      refine bind_accepts_yes hstop (bind_advance (by rw [hstop]; rfl) (.pure ⟨_, rfl, hlonger _ ?_⟩))
      rw [Statement.map, hresult]
  | control value =>
      obtain ⟨hcontrol, hfollowed, hfits⟩ := hfits
      obtain ⟨hbegins, _, _⟩ : BeginsExpr true value.beginsWithControl (kindAt 0 (taken ++ rest)) :=
        (expr_begins value hfits).kindAt hspells
      obtain ⟨hbrace, hlet, himport⟩ := ne_of_beginsExpression hbegins
      obtain ⟨hends, hsemicolon, hclose, helse⟩ := (hnext hfollowed).stops
      refine bind_accepts_no rfl hbrace (bind_nextIs_no rfl hlet (bind_nextIs_no rfl himport ?_))
      rw [← List.append_nil taken]
      refine .bind (leadingExpr_gives_control h hcontrol hfits hspells (by omega) helse hends)
        fun result hresult => ?_
      refine bind_accepts_no rfl hsemicolon (bind_accepts_no rfl hclose ?_)
      rw [← Expr.isControl_map noNote final.text, hresult, hcontrol]
      refine .pure ⟨_, rfl, hlonger _ ?_⟩
      rw [Statement.map, hresult]

/-- The statements that are still to come, and the expression behind them. -/
theorem statementRounds_give (h : RulesGive final rules bound) {targets : List (Statement Unit String)}
    {tail : Option (Expr Unit String)} {statements : List (Statement Span Symbol)}
    (hfits : Statement.FitsList tail.isSome targets)
    (htail : ∀ value ∈ tail, value.GoesOn ∧ value.Fits true)
    (hspells : Spells (Statement.slotsList id targets ++ Expr.slotsOption id tail) taken)
    (hbound : taken.length < bound) (hrest : kindAt 0 rest = Punct.rbrace) :
    Loops final true taken rest (statementRound rules) statements fun result =>
      Statement.mapList noNote final.text result.1 =
        Statement.mapList noNote final.text statements ++ targets ∧
        Expr.mapOption noNote final.text result.2 = tail := by
  induction targets generalizing statements taken with
  | nil =>
      apply Loops.finish
      cases tail with
      | none =>
          obtain rfl := Spells.nil_iff.mp hspells
          exact bind_accepts_yes hrest (.pure ⟨_, rfl, (List.append_nil _).symm, rfl⟩)
      | some value =>
          obtain ⟨hgoes, hfits⟩ := htail value rfl
          obtain ⟨hbegins, _, _⟩ : BeginsExpr true value.beginsWithControl
              (kindAt 0 (taken ++ rest)) := (expr_begins value hfits).kindAt hspells
          obtain ⟨hbrace, hlet, himport⟩ := ne_of_beginsExpression hbegins
          have hcloses : Closes (kindAt 0 rest) := by
            rw [hrest]
            exact ⟨rfl, rfl, by simp, by simp, by simp⟩
          refine bind_accepts_no rfl hbrace (bind_nextIs_no rfl hlet (bind_nextIs_no rfl himport ?_))
          rw [← List.append_nil taken]
          refine .bind (leadingExpr_gives h hgoes hfits hspells hbound hcloses)
            fun result hresult => ?_
          refine bind_accepts_no rfl (by rw [List.nil_append, hrest]; simp)
            (bind_accepts_yes hrest (.pure ⟨_, rfl, (List.append_nil _).symm, ?_⟩))
          rw [Expr.mapOption, hresult]
  | cons target others ih =>
      obtain ⟨hfirst, hothers⟩ := hfits
      rw [Statement.slotsList, List.append_assoc] at hspells
      obtain ⟨front, back, rfl, hfront, hback⟩ := Spells.append_iff.mp hspells
      rw [List.length_append] at hbound
      -- What stands behind a statement without a semicolon is the next one or the tail.
      have hnext : (tail.isSome || !others.isEmpty) = true → BeginsStatement (kindAt 0 (back ++ rest)) := by
        intro hfollowed
        cases others with
        | cons second others =>
            exact (((statement_begins second hothers.1).append _).append _).kindAt hback
        | nil =>
            cases tail with
            | none => cases hfollowed
            | some value =>
                obtain ⟨hbegins, _, _⟩ : BeginsExpr true value.beginsWithControl
                    (kindAt 0 (back ++ rest)) := (expr_begins value (htail value rfl).2).kindAt hback
                exact .inr (.inr hbegins)
      have hround : Gives final true front (back ++ rest) (statementRound rules statements) _ :=
        statementRound_gives h hfirst hfront (by omega) hnext
      refine Loops.step ((statement_begins target hfirst).ne_nil hfront) (hround.mono ?_)
      rintro _ ⟨longer, rfl, hlonger⟩
      have hloops : Loops final true back rest (statementRound rules) longer _ :=
        ih hothers hback (by omega)
      rw [hlonger, List.append_assoc] at hloops
      exact ⟨longer, rfl, hloops⟩

theorem braces_gives (h : RulesGive final rules bound) {target : Block Unit String}
    (hfits : target.Fits) (hspells : Spells (target.slots id) taken)
    (hbound : taken.length ≤ bound) :
    Gives final records taken rest (braces rules) fun result =>
      result.map noNote final.text = target := by
  obtain ⟨statements, tail, span⟩ := target
  have hfits : Statement.FitsList tail.isSome statements ∧
      ∀ value ∈ tail, value.GoesOn ∧ value.Fits true := by
    cases tail with
    | none => exact ⟨hfits, by simp⟩
    | some value => exact ⟨hfits.1, by simpa using hfits.2⟩
  rw [Block.slots, List.append_assoc, List.cons_append, ← List.append_assoc] at hspells
  obtain ⟨left, tokens, rfl, hleft, hspells⟩ := Spells.token_iff.mp hspells
  obtain ⟨inner, last, rfl, hinner, hlast⟩ := Spells.append_iff.mp hspells
  obtain ⟨right, rfl, hright⟩ := Spells.single_iff.mp hlast
  simp only [List.length_append, List.length_cons] at hbound
  have hrounds : Loops final true inner ([right] ++ rest) (statementRound rules) [] _ :=
    statementRounds_give h hfits.1 hfits.2 hinner (by omega) hright
  refine .nested (bind_expect rfl hleft (.bind hrounds.repeated.withRecords fun result hresult =>
    bind_expect rfl hright (.pure ?_)))
  rw [Block.map, hresult.1, hresult.2]
  rfl

/-! ## All productions -/

/-- Levels enough for all the tokens are enough for what is written with them. -/
theorem rulesWithin_give (levels : Nat) : RulesGive final (rulesWithin levels) levels := by
  induction levels with
  | zero =>
      exact ⟨fun _ _ _ h => absurd h (Nat.not_lt_zero _), fun _ _ h => absurd h (Nat.not_lt_zero _),
        fun _ _ _ h => absurd h (Nat.not_lt_zero _)⟩
  | succ levels ih =>
      rw [rulesWithin_succ]
      exact
        { expr := fun hfits hleast hspells hlength hrest =>
            operation_gives ih hfits hleast hspells (Nat.le_of_lt_succ hlength) hrest
          block := fun hfits hspells hlength =>
            braces_gives ih hfits hspells (Nat.le_of_lt_succ hlength)
          elseIf := fun hnext hfits hspells hlength hrest =>
            conditional_gives ih hnext hfits hspells (Nat.le_of_lt_succ hlength) hrest }

theorem block_gives {target : Block Unit String} (hfits : target.Fits)
    (hspells : Spells (target.slots id) taken) :
    Gives final records taken rest block fun result => result.map noNote final.text = target :=
  .bounded fun levels hlevels => (rulesWithin_give levels).block hfits hspells hlevels

end Grammar

end FilterScript
