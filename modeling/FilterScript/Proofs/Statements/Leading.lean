import FilterScript.Proofs.Levels.Lifting
import FilterScript.Proofs.Statements.Boundaries

/-!
# Reading a conditional, loop or match at the start of a statement

A statement may begin with a conditional, loop or match, and so may an expression
anywhere else. The first is read without a level of its own and looks at one token to
tell whether the construct goes on; the second opens a level and lets the loops for
postfixes and operators find out. The two give the same, except in front of a minus
sign or a parenthesis: there a statement ends.
-/

namespace FilterScript

open Parse

namespace Parse

variable {α β : Type}

/-- What holds of the results of all runs holds of this one. -/
theorem Reads.holds {production : Parse α} {state after : State} {result : α} (post : α → Prop)
    (h : ∀ final records input, Reads final records input production fun result _ _ => post result)
    (hrun : production state = .ok result after) : post result := by
  obtain ⟨_, _, _, _, hpost⟩ :=
    h _ _ _ state result after rfl rfl (.refl (state.names.enter state.input.scans)) hrun
  exact hpost

/-- A loop whose first round is the last. -/
theorem repeated_eq_of_done {round : α → Parse (Round α β)} {first : α} {result : β}
    {state after : State} (h : round first state = .ok (.done result) after) :
    repeated round first state = .ok result after :=
  bind_eq_of_ok h

end Parse

namespace Grammar

variable {rules : Rules} {state after : State} {token next : Token}
  {production : Parse (Expr Span Symbol)} {first control value : Expr Span Symbol}

/-! ## Where nothing goes on -/

/-- What a postfix begins with. -/
def beginsPostfix : Kind → Bool
  | .punct .dot | .punct .lparen | .punct .question => true
  | _ => false

theorem postfixes_eq_of_stop (hnext : state.input.lookahead 0 = .ok next)
    (hstop : beginsPostfix next.kind = false) :
    postfixes rules first state =
      .ok first ((state.noting (.token Punct.dot)).noting (.token Punct.lparen)) := by
  have hvariant (mark : Punct) (hmark : beginsPostfix mark = true) :
      (next.kind.variant == Kind.variant mark) = false :=
    Kind.beq_variant_of_ne rfl fun hsame => by
      rw [hsame, hmark] at hstop
      cases hstop
  apply repeated_eq_of_done
  unfold postfixRound
  rw [bind_eq_of_ok (takes_eq_false hnext (hvariant .dot rfl))]
  rw [← State.noting_input (.token Punct.dot)] at hnext
  rw [if_neg (by simp), bind_eq_of_ok (takes_eq_false hnext (hvariant .lparen rfl))]
  rw [← State.noting_input (.token Punct.lparen)] at hnext
  rw [if_neg (by simp), bind_eq_of_ok (nextIs_eq hnext), hvariant .question rfl]
  rfl

theorem operators_eq_of_stop {least : Nat} (hnext : state.input.lookahead 0 = .ok next)
    (hstop : BinaryOp.ofKind? next.kind = none) :
    operators rules least first state = .ok first state := by
  apply repeated_eq_of_done
  unfold operatorRound
  rw [bind_eq_of_ok (peek_eq hnext), hstop]
  rfl

/-- In front of a token that begins no postfix and is no operator nothing is read. -/
theorem unchanged_of_stop {least : Nat} {between : State}
    (hnext : state.input.lookahead 0 = .ok next) (hmark : beginsPostfix next.kind = false)
    (hoperator : BinaryOp.ofKind? next.kind = none)
    (hpostfixes : postfixes rules first state = .ok control between)
    (hoperators : operators rules least control between = .ok value after) :
    value = first ∧ after.input = state.input ∧ after.warnings = state.warnings ∧
      after.names = state.names := by
  rw [postfixes_eq_of_stop hnext hmark] at hpostfixes
  cases hpostfixes
  rw [operators_eq_of_stop (by simpa using hnext) hoperator] at hoperators
  cases hoperators
  simp

theorem exists_next_of_postfixes (h : postfixes rules first state = .ok value after) :
    ∃ next, state.input.lookahead 0 = .ok next := by
  obtain ⟨_, _, hround, -⟩ := bind_eq_ok_iff.mp h
  obtain ⟨_, _, htakes, -⟩ := bind_eq_ok_iff.mp hround
  obtain ⟨_, _, haccepts, -⟩ := bind_eq_ok_iff.mp htakes
  obtain ⟨_, _, hnextIs, -⟩ := bind_eq_ok_iff.mp haccepts
  obtain ⟨next, _, hpeek, -⟩ := bind_eq_ok_iff.mp hnextIs
  exact ⟨next, (peekAt_eq_ok_iff.mp hpeek).1⟩

/-- A token that neither goes on with an expression nor is one of the two that may
begin a statement too is no postfix and no operator. -/
theorem stops_of_not_continues {kind : Kind} (h : continuesExpr kind = false)
    (hminus : kind ≠ Punct.minus) (hparen : kind ≠ Punct.lparen) :
    beginsPostfix kind = false ∧ BinaryOp.ofKind? kind = none := by
  unfold continuesExpr at h
  split at h
  next => exact absurd rfl hminus
  next => cases h
  next => cases h
  next hdot hmark =>
    refine ⟨?_, by simpa using h⟩
    unfold beginsPostfix
    split <;> first | rfl | contradiction

/-! ## The two ways -/

/-- The production of the construct that the next token begins is what reads an
operand there. -/
theorem operand_eq_of_control (htoken : state.input.lookahead 0 = .ok token)
    (h : control? rules token.kind = some production) :
    operand rules state = (do let first ← production; postfixes rules first) state := by
  have hprimary : primary rules state = production state := by
    unfold primary
    rw [bind_eq_of_ok (peek_eq htoken)]
    unfold control? at h
    split at h <;> cases h <;> simp only [*, literal?]
  have hbegins : operand rules state = (do let first ← primary rules; postfixes rules first) state := by
    unfold operand
    rw [bind_eq_of_ok (peek_eq htoken)]
    unfold control? at h
    split at h <;> cases h <;> simp only [*, UnaryOp.ofKind?, ExitKind.ofKind?]
  rw [hbegins]
  change EStateM.bind _ _ _ = EStateM.bind _ _ _
  unfold EStateM.bind
  rw [hprimary]

/-- At the start of a statement the token behind the construct decides. -/
theorem leadingExpr_eq_of_control (htoken : state.input.lookahead 0 = .ok token)
    (h : control? rules token.kind = some production) (hrun : production state = .ok control after)
    (hnext : after.input.lookahead 0 = .ok next) :
    leadingExpr rules state =
      (if continuesExpr next.kind = true then do
        let first ← postfixes rules control
        operators rules 0 first
      else pure control) after := by
  unfold leadingExpr
  rw [bind_eq_of_ok (peek_eq htoken), h]
  change (production >>= _) state = _
  rw [bind_eq_of_ok hrun, bind_eq_of_ok (peek_eq hnext)]

theorem exists_control? (rules : Rules) {kind : Kind} (h : kind.isControl = true) :
    ∃ production, control? rules kind = some production := by
  rw [← Option.ne_none_iff_exists']
  intro hnone
  rw [isControl_of_control? hnone] at h
  cases h

/-- An expression that begins with a construct is read one level deeper, the construct
first. -/
theorem operation_eq_ok_of_control [RulesSteady rules] {least : Nat}
    (htoken : state.input.lookahead 0 = .ok token) (h : control? rules token.kind = some production)
    (hrun : operation rules least state = .ok value after) :
    ∃ control between first middle inner,
      production (state.atDepth (state.context.depth + 1)) = .ok control between ∧
        postfixes rules control between = .ok first middle ∧
          operators rules least first middle = .ok value inner ∧
            after = inner.atDepth state.context.depth := by
  obtain ⟨-, hnested⟩ := nested_eq_ok_iff.mp hrun
  obtain ⟨inner, hinner, rfl⟩ := within_eq_ok_iff.mp hnested
  change (operand rules >>= operators rules least) (state.atDepth (state.context.depth + 1)) = _
    at hinner
  obtain ⟨first, middle, hoperand, hoperators⟩ := bind_eq_ok_iff.mp hinner
  rw [← State.atDepth_input (state.context.depth + 1)] at htoken
  rw [operand_eq_of_control htoken h] at hoperand
  obtain ⟨control, between, hcontrol, hpostfixes⟩ := bind_eq_ok_iff.mp hoperand
  refine ⟨control, between, first, middle, inner, hcontrol, hpostfixes, hoperators, ?_⟩
  have hcontext := (Steady.follows hinner).context
  rw [State.atDepth, hcontext]
  rfl

/-- What is read behind a construct begins with it. -/
theorem leader?_of_operators {levels : Nat} {between : State} (hcontrol : control.isControl = true)
    (hpostfixes : postfixes (rulesWithin levels) control state = .ok first between)
    (hoperators : operators (rulesWithin levels) 0 first between = .ok value after) :
    value.leader? = some control := by
  have hleader : control.leader? = some control := Expr.leader?_of_isControl hcontrol
  have hfirst : first.leader? = some control :=
    Reads.holds (fun expr => expr.leader? = some control)
      (fun _ _ _ => (postfixes_keep_leader (rulesWithin_covered levels) hleader).mono
        fun _ _ _ _ h => h.1) hpostfixes
  exact Reads.holds (fun expr => expr.leader? = some control)
    (fun _ _ _ => (operators_keep_leader (rulesWithin_covered levels) hfirst).mono
      fun _ _ _ _ h => h.1) hoperators

theorem isControl_of_production {levels : Nat} {kind : Kind}
    (h : control? (rulesWithin levels) kind = some production)
    (hrun : production state = .ok control after) : control.isControl = true :=
  Reads.holds (fun expr => expr.isControl = true)
    (fun _ _ input => (control?_builds (rulesWithin_fit levels) (rulesWithin_spelled levels) h
      input).mono fun _ _ _ _ h => h.1) hrun

/-- Where an expression is read that begins with a conditional, loop or match, the
construct is read at the start of a statement as well. Unless a minus sign or an
opening parenthesis comes next, so is the whole expression, with the same input left,
the same warnings and the same names. The levels are as many as the tokens left, or
more: a block sets out with enough of them, and every level takes a token. -/
theorem leadingExpr_of_expr {levels : Nat} (htoken : state.input.lookahead 0 = .ok token)
    (hcontrol : token.kind.isControl = true) (hlevels : state.input.scans.length ≤ levels)
    (hrun : expr state = .ok value after) :
    ∃ production control between next,
      control? (rulesWithin levels) token.kind = some production ∧
        production state = .ok control between ∧ value.leader? = some control ∧
          between.input.lookahead 0 = .ok next ∧
            (next.kind ≠ Punct.minus → next.kind ≠ Punct.lparen →
              ∃ last, leadingExpr (rulesWithin levels) state = .ok value last ∧
                last.input = after.input ∧ last.warnings = after.warnings ∧
                  last.names = after.names) := by
  obtain ⟨deep, hdeep⟩ := exists_control? (rulesWithin state.input.scans.length) hcontrol
  obtain ⟨control, between, first, middle, inner, hproduction, hpostfixes, hoperators, rfl⟩ :=
    operation_eq_ok_of_control htoken hdeep hrun
  obtain ⟨next, hnext⟩ := exists_next_of_postfixes hpostfixes
  have hleader : value.leader? = some control :=
    leader?_of_operators (isControl_of_production hdeep hproduction) hpostfixes hoperators
  -- The same runs are there one level up, and with more levels to come.
  have := rulesWithin_lift hlevels
  obtain ⟨production, hother, hlifts⟩ := control?_lifts _ (rulesWithin levels) hdeep
  have hshallow : production state = .ok control (between.atDepth state.context.depth) :=
    hlifts.lifts hproduction state.context.depth (Nat.le_succ _)
  refine ⟨production, control, between.atDepth state.context.depth, next, hother, hshallow,
    hleader, hnext, fun hminus hparen => ?_⟩
  rw [leadingExpr_eq_of_control htoken hother hshallow hnext]
  cases hcontinues : continuesExpr next.kind with
  | true =>
      have hsteady := control?_steady _ hdeep
      have hbetween : between.context.depth = state.context.depth + 1 :=
        congrArg Context.depth (hsteady.follows hproduction).context
      have hmiddle : middle.context.depth = state.context.depth + 1 := by
        rw [(Steady.follows hpostfixes).context, hbetween]
      have hfirst : postfixes (rulesWithin levels) control (between.atDepth state.context.depth) =
          .ok first (middle.atDepth state.context.depth) :=
        Lifts.lifts hpostfixes state.context.depth (by omega)
      have hvalue : operators (rulesWithin levels) 0 first (middle.atDepth state.context.depth) =
          .ok value (inner.atDepth state.context.depth) :=
        Lifts.lifts hoperators state.context.depth (by omega)
      refine ⟨inner.atDepth state.context.depth, ?_, rfl, rfl, rfl⟩
      rw [if_pos rfl, bind_eq_of_ok hfirst, hvalue]
  | false =>
      obtain ⟨hmark, hoperator⟩ := stops_of_not_continues hcontinues hminus hparen
      obtain ⟨rfl, hinput, hwarnings, hnames⟩ :=
        unchanged_of_stop hnext hmark hoperator hpostfixes hoperators
      exact ⟨between.atDepth state.context.depth, rfl, hinput.symm, hwarnings.symm, hnames.symm⟩

/-- Two more levels may be opened here, and both are. -/
theorem leadingExpr_of_expr_of_access :
    let state : State :=
      { State.ofSource (some 256) "if a \x7b \x7d .b + c - d" with context := ⟨254, true⟩ }
    ∃ value after last, expr state = .ok value after ∧
      leadingExpr (rulesWithin 10) state = .ok value last ∧ last.input = after.input ∧
        last.warnings = after.warnings ∧ last.names = after.names := by
  intro state
  have htoken : state.input.lookahead 0 = .ok ⟨Keyword.if_, ⟨0, 2⟩⟩ := by decide +kernel
  have hlength : state.input.scans.length ≤ 10 := by decide +kernel
  have haccepted : (EStateM.run' expr state).isSome = true := by decide +kernel
  have hdot : EStateM.run' (conditional (rulesWithin 10) >>= fun _ => nextIs Punct.dot) state =
      some true := by decide +kernel
  clear_value state
  unfold EStateM.run' EStateM.run at haccepted hdot
  cases hrun : expr state with
  | error fault after =>
      rw [hrun] at haccepted
      cases haccepted
  | ok value after =>
      obtain ⟨production, control, between, next, hproduction, hcontrol, -, hnext, hsame⟩ :=
        leadingExpr_of_expr htoken rfl hlength hrun
      cases hproduction
      have hkind : next.kind = Punct.dot := by
        rw [bind_eq_of_ok hcontrol, nextIs_eq hnext] at hdot
        exact Kind.eq_of_variant_eq rfl (beq_iff_eq.mp (Option.some.inj hdot))
      obtain ⟨last, hlast⟩ := hsame (by rw [hkind]; decide) (by rw [hkind]; decide)
      exact ⟨value, after, last, rfl, hlast⟩

end Grammar

end FilterScript
