import FilterScript.Grammar.Block
import FilterScript.Proofs.Levels.Lists

/-!
# The levels of expressions, blocks and statements

Whether an expression at the start of a statement opens a level depends on its
first word, which productions therefore tell along with their levels. Loops keep
the first word of what they start from.
-/

namespace FilterScript

/-- The words that conditionals, loops and matches begin with. -/
def Kind.isControl : Kind → Bool
  | .keyword .if_ | .keyword .while_ | .keyword .match_ => true
  | _ => false

/-- The token goes on with an expression and cannot begin a statement: a dot, a
question mark or a binary operator that is no minus sign. -/
def Kind.Continues (kind : Kind) : Prop :=
  kind = Punct.dot ∨ kind = Punct.question ∨ ∃ op : BinaryOp, op ≠ .sub ∧ kind = op.punct

theorem Expr.beginsWithControl_of_isControl {σ ν : Type} {expr : Expr σ ν}
    (h : expr.isControl = true) : expr.beginsWithControl = true := by
  cases expr <;> simp_all [isControl, beginsWithControl]

namespace Grammar

open Parse

variable {rules : Rules} {input : List Scan}

/-- The result has a first word that begins a conditional, loop or match just if
the input has one. -/
def SameStart (input : List Scan) (expr : Expr Span Symbol) : Prop :=
  ∀ token, Shows 0 input token → expr.beginsWithControl = token.kind.isControl

/-- The production opens a level and those of the expression that it gives. -/
def OpensExpr (production : Parse (Expr Span Symbol)) : Prop :=
  ∀ input, Counts input production fun expr levels =>
    levels = expr.levels + 1 ∧ SameStart input expr

/-- All three productions that others go back to open as many levels as their
results have. -/
structure RulesOpen (rules : Rules) : Prop where
  expr : ∀ least, OpensExpr (rules.expr least)
  block : Opens Block.levels rules.block
  elseIf : Opens Expr.levels rules.elseIf

theorem RulesOpen.operand (h : RulesOpen rules) (least : Nat) :
    Opens (fun expr => expr.levels + 1) (rules.expr least) :=
  fun input => (h.expr least input).mono fun _ _ hexpr => hexpr.1

theorem arguments_open (h : RulesOpen rules) :
    Opens Expr.levelsList (commaList Punct.rparen (rules.expr 0)) :=
  fun input => (commaList_opens (h.operand 0) input).mono fun arguments _ hlevels => by
    rw [hlevels, Expr.levelsList_eq_most]

/-- A loop around a first operand opens the levels that the whole has beyond it,
and keeps the first word. -/
def Extends (first : Expr Span Symbol) (expr : Expr Span Symbol) (levels : Nat) : Prop :=
  expr.levels = max first.levels levels ∧ expr.beginsWithControl = first.beginsWithControl

theorem operators_open (h : RulesOpen rules) {least : Nat} (first : Expr Span Symbol) :
    Counts input (operators rules least first) (Extends first) := by
  refine .repeated (Extends first) ⟨by simp, rfl⟩ fun left levels rest hleft => ?_
  refine .bind_peek fun token _ => ?_
  split
  next op _ =>
    split
    next => exact .pure (by simpa using hleft)
    next =>
      refine .bind_plain .advance fun mark rest => .bind (h.operand _ rest) ?_
      rintro right _ rest rfl
      refine .pure ⟨?_, hleft.2⟩
      simp [Expr.levels, hleft.1, Nat.max_assoc]
  next => exact .pure (by simpa using hleft)

theorem postfixes_open (h : RulesOpen rules) (first : Expr Span Symbol) :
    Counts input (postfixes rules first) (Extends first) := by
  refine .repeated (Extends first) ⟨by simp, rfl⟩ fun expr levels rest hexpr => ?_
  refine .bind_plain (.takes _) fun found rest => ?_
  cases found with
  | true =>
      refine .bind_plain .ident fun name rest => .pure ⟨?_, hexpr.2⟩
      simp [Expr.levels, hexpr.1]
  | false =>
    refine .bind_plain (.takes _) fun found rest => ?_
    cases found with
    | true =>
        refine .bind (.withRecords (arguments_open h rest)) ?_
        rintro arguments _ rest rfl
        refine .bind_plain (.expect _) fun right rest => .pure ⟨?_, hexpr.2⟩
        simp [Expr.levels, hexpr.1, Nat.max_assoc]
    | false =>
        refine .bind_plain (.nextIs _) fun found rest => ?_
        cases found with
        | true =>
            refine .bind_plain .advance fun mark rest => .pure ⟨?_, hexpr.2⟩
            simp [Expr.levels, hexpr.1]
        | false => exact .pure (by simpa using hexpr)

/-! ## Conditionals, loops and matches -/

/-- The production gives a conditional, loop or match and opens its levels. -/
def OpensControl (production : Parse (Expr Span Symbol)) : Prop :=
  ∀ input, Counts input production fun expr levels => levels = expr.levels ∧ expr.isControl = true

theorem alternative_opens (h : RulesOpen rules) :
    Opens Alternative.levelsOption (alternative rules) := by
  refine fun input => .bind_plain (.takes _) fun found rest => ?_
  cases found with
  | false => exact .pure (by simp [Alternative.levelsOption])
  | true =>
      refine .bind_plain (.nextIs _) fun found rest => ?_
      cases found with
      | true =>
          refine .bind (h.elseIf rest) ?_
          rintro next _ rest rfl
          exact .pure (by simp [Alternative.levelsOption])
      | false =>
          refine .bind (h.block rest) ?_
          rintro body _ rest rfl
          exact .pure (by simp [Alternative.levelsOption])

theorem conditional_opens (h : RulesOpen rules) : OpensControl (conditional rules) := by
  refine fun input => .bind_plain (.expect _) fun start rest => ?_
  refine .bind (.withRecords (h.operand 0 rest)) ?_
  rintro condition _ rest rfl
  refine .bind (h.block rest) ?_
  rintro consequence _ rest rfl
  refine .bind (alternative_opens h rest) ?_
  rintro other _ rest rfl
  exact .pure ⟨by simp [Expr.levels], rfl⟩

theorem whileLoop_opens (h : RulesOpen rules) : OpensControl (whileLoop rules) := by
  refine fun input => .bind_plain (.expect _) fun start rest => ?_
  refine .bind (.withRecords (h.operand 0 rest)) ?_
  rintro condition _ rest rfl
  refine .bind (h.block rest) ?_
  rintro body _ rest rfl
  exact .pure ⟨by simp [Expr.levels], rfl⟩

theorem pattern_opens : Opens (fun _ => 0) pattern := by
  refine fun input => .bind_peek fun token _ => ?_
  split
  · refine .bind (path_opens input) ?_
    rintro variant _ rest rfl
    refine .bind_plain (.nextIs _) fun found rest => ?_
    cases found with
    | false => exact .pure rfl
    | true =>
        refine .bind_plain .advance fun left rest => ?_
        refine .bind (commaList_opens (opens_of_plain .ident) rest) ?_
        rintro names _ rest rfl
        refine .bind_plain (.expect _) fun right rest => .pure ?_
        induction names with
        | nil => rfl
        | cons name rest ih => simpa [most] using ih
  · exact .bind_plain (.want _) fun _ _ => .refuse

theorem guard_opens (h : RulesOpen rules) : Opens Expr.levelsOption (guard rules) := by
  refine fun input => .bind_plain (.takes _) fun found rest => ?_
  cases found with
  | false => exact .pure (by simp [Expr.levelsOption])
  | true =>
      refine .bind (h.operand 0 rest) ?_
      rintro condition _ rest rfl
      exact .pure (by simp [Expr.levelsOption])

theorem blockNext_plain : Plain blockNext :=
  (Plain.nextIs _).bind fun found => by
    cases found
    · exact .pure _
    · refine (Plain.peekAt 1).bind fun token => ?_
      split
      · exact (Plain.peekAt 2).bind fun _ => .pure _
      · exact .pure _

theorem armBody_opens (h : RulesOpen rules) : Opens ArmBody.levels (armBody rules) := by
  refine fun input => .bind_plain blockNext_plain fun found rest => ?_
  cases found with
  | true =>
      refine .bind (h.block rest) ?_
      rintro body _ rest rfl
      exact .bind_plain (.takes _) fun _ rest => .pure (by simp [ArmBody.levels])
  | false =>
      refine .bind (h.operand 0 rest) ?_
      rintro value _ rest rfl
      refine .bind_plain (.takes _) fun found rest => ?_
      cases found with
      | true => exact .pure (by simp [ArmBody.levels])
      | false =>
          refine .bind_plain (.accepts _) fun found rest => ?_
          cases found with
          | true => exact .pure (by simp [ArmBody.levels])
          | false => exact .refuse

theorem arm_opens (h : RulesOpen rules) : Opens Arm.levels (arm rules) := by
  refine fun input => .bind (pattern_opens input) ?_
  rintro variant _ rest rfl
  refine .bind (guard_opens h rest) ?_
  rintro condition _ rest rfl
  refine .bind_plain (.expect _) fun arrow rest => .bind (armBody_opens h rest) ?_
  rintro body _ rest rfl
  exact .bind_plain (.nextIs _) fun last rest => .pure (by simp [Arm.levels])

theorem select_opens (h : RulesOpen rules) : OpensControl (select rules) := by
  refine fun input => .bind_plain (.expect _) fun start rest => ?_
  refine .bind (.withRecords (h.operand 0 rest)) ?_
  rintro scrutinee _ rest rfl
  refine .bind_plain (.expect _) fun left rest => ?_
  have harms : Counts rest (repeated (armRound rules) []) fun arms levels =>
      levels = most Arm.levels arms := by
    refine .repeated (fun arms levels => levels = most Arm.levels arms) rfl ?_
    rintro arms _ rest rfl
    refine .bind_plain (.accepts _) fun found rest => ?_
    cases found with
    | true => exact .pure (by simp)
    | false =>
        refine .bind (arm_opens h rest) ?_
        rintro arm _ rest rfl
        exact .pure (by simp [most_append, most])
  refine .bind (.withRecords harms) ?_
  rintro arms _ rest rfl
  refine .bind_plain (.expect _) fun right rest => ?_
  cases arms.isEmpty with
  | true => exact .bind_plain (.warn _ _) fun _ _ => .pure ⟨by simp [Arm.levelsList_eq_most], rfl⟩
  | false => exact .pure ⟨by simp [Arm.levelsList_eq_most], rfl⟩

/-! ## Operands -/

theorem SameStart.of_shows {token : Token} {expr : Expr Span Symbol} (hshows : Shows 0 input token)
    (h : expr.beginsWithControl = token.kind.isControl) : SameStart input expr :=
  fun _ hother => by rw [h, hshows.kind_unique hother]

theorem parenthesized_opens (h : RulesOpen rules) :
    Counts input (parenthesized rules) fun expr levels =>
      levels = expr.levels ∧ expr.beginsWithControl = false := by
  refine .bind_plain (.expect _) fun left rest => .bind_plain (.nextIs _) fun found rest => ?_
  cases found with
  | true => exact .bind_plain .advance fun right rest => .pure ⟨by simp [Expr.levels], rfl⟩
  | false =>
      refine .bind (.withRecords (h.operand 0 rest)) ?_
      rintro inner _ rest rfl
      exact .bind_plain (.expect _) fun right rest => .pure ⟨by simp [Expr.levels], rfl⟩

theorem recordNext_plain : Plain recordNext := by
  refine .get (fun state => ?_) fun _ _ => rfl
  split
  · exact .nextIs _
  · exact .pure _

theorem fields_open (h : RulesOpen rules) :
    Opens (fun record => Expr.levelsFields record.fields) (record Expr.span (rules.expr 0)) := by
  refine fun input => (record_opens (h.operand 0) input).mono fun fields _ hlevels => ?_
  exact hlevels.trans (Expr.levelsFields_eq_most _).symm

theorem pathExpr_opens (h : RulesOpen rules) :
    Counts input (pathExpr rules) fun expr levels =>
      levels = expr.levels ∧ expr.beginsWithControl = false := by
  refine .bind (path_opens input) ?_
  rintro name _ rest rfl
  refine .bind_plain recordNext_plain fun found rest => ?_
  cases found with
  | false => exact .pure ⟨by simp [Expr.levels], rfl⟩
  | true =>
      refine .bind (fields_open h rest) ?_
      rintro ⟨fields, span⟩ _ rest rfl
      exact .pure ⟨by simp [Expr.levels], rfl⟩

theorem isControl_of_literal? {kind : Kind} {value : Literal} (h : literal? kind = some value) :
    kind.isControl = false := by
  unfold literal? at h
  split at h <;> simp at h <;> rfl

theorem primary_opens (h : RulesOpen rules) :
    Counts input (primary rules) fun expr levels =>
      levels = expr.levels ∧ SameStart input expr := by
  refine .bind_peek fun token hshows => ?_
  have hcontrol : ∀ {expr : Expr Span Symbol}, expr.isControl = true → token.kind.isControl = true →
      SameStart input expr := by
    intro expr hexpr hkind
    exact .of_shows hshows ((Expr.beginsWithControl_of_isControl hexpr).trans hkind.symm)
  have hother : ∀ {expr : Expr Span Symbol}, expr.beginsWithControl = false →
      token.kind.isControl = false → SameStart input expr :=
    fun hexpr hkind => .of_shows hshows (hexpr.trans hkind.symm)
  split
  next value hvalue =>
    refine .bind_plain .advance fun _ rest => .pure ⟨by simp [Expr.levels], ?_⟩
    exact hother rfl (isControl_of_literal? hvalue)
  next =>
    split
    next hkind => exact (conditional_opens h input).mono fun expr _ hexpr =>
      ⟨hexpr.1, hcontrol hexpr.2 (by rw [hkind]; rfl)⟩
    next hkind => exact (whileLoop_opens h input).mono fun expr _ hexpr =>
      ⟨hexpr.1, hcontrol hexpr.2 (by rw [hkind]; rfl)⟩
    next hkind => exact (select_opens h input).mono fun expr _ hexpr =>
      ⟨hexpr.1, hcontrol hexpr.2 (by rw [hkind]; rfl)⟩
    next hkind => exact (parenthesized_opens h).mono fun expr _ hexpr =>
      ⟨hexpr.1, hother hexpr.2 (by rw [hkind]; rfl)⟩
    next hkind => exact (pathExpr_opens h).mono fun expr _ hexpr =>
      ⟨hexpr.1, hother hexpr.2 (by rw [hkind]; rfl)⟩
    next hif hwhile hmatch _ _ =>
      refine .bind_plain recordNext_plain fun found rest => ?_
      cases found with
      | false => exact .bind_plain (.want _) fun _ _ => .refuse
      | true =>
          refine .bind (fields_open h rest) ?_
          rintro ⟨fields, span⟩ _ rest rfl
          refine .pure ⟨by simp [Expr.levels], hother rfl ?_⟩
          unfold Kind.isControl
          split <;> first | rfl | (exfalso; simp_all)

theorem exprNext_plain : Plain exprNext :=
  Plain.peek.bind fun _ => .get (fun _ => .pure _) fun _ _ => rfl

theorem operand_opens (h : RulesOpen rules) :
    Counts input (operand rules) fun expr levels =>
      levels = expr.levels ∧ SameStart input expr := by
  refine .bind_peek fun token hshows => ?_
  have hother : ∀ {expr : Expr Span Symbol}, expr.beginsWithControl = false →
      token.kind.isControl = false → SameStart input expr :=
    fun hexpr hkind => .of_shows hshows (hexpr.trans hkind.symm)
  split
  next _ _ op hop =>
    refine .bind_plain .advance fun mark rest => .bind (h.operand _ rest) ?_
    rintro inner _ rest rfl
    refine .pure ⟨by simp [Expr.levels], hother rfl ?_⟩
    unfold UnaryOp.ofKind? at hop
    split at hop <;> simp_all [Kind.isControl]
  next exit _ hexit =>
    have hkind : token.kind.isControl = false := by
      unfold ExitKind.ofKind? at hexit
      split at hexit <;> simp_all [Kind.isControl]
    refine .bind_plain .advance fun keyword rest => .bind_plain exprNext_plain fun found rest => ?_
    cases found with
    | false => exact .pure ⟨by simp [Expr.levels, Expr.levelsOption], hother rfl hkind⟩
    | true =>
        refine .bind (h.operand 0 rest) ?_
        rintro value _ rest rfl
        exact .pure ⟨by simp [Expr.levels, Expr.levelsOption], hother rfl hkind⟩
  next =>
    refine .bind (primary_opens h) ?_
    rintro first _ rest ⟨rfl, hstart⟩
    refine (postfixes_open h first).mono fun expr levels hexpr => ⟨hexpr.1.symm, ?_⟩
    exact fun token htoken => hexpr.2.trans (hstart token htoken)

theorem operation_opens (h : RulesOpen rules) (least : Nat) : OpensExpr (operation rules least) := by
  refine fun input => .nested (.bind (.bind .peek)) (.bind (operand_opens h) ?_)
  rintro first _ rest ⟨rfl, hstart⟩
  refine (operators_open h first).mono fun expr levels hexpr => ⟨by rw [hexpr.1], ?_⟩
  exact fun token htoken => hexpr.2.trans (hstart token htoken)

/-! ## Blocks -/

theorem binding_opens (h : RulesOpen rules) : Opens Statement.levels (binding rules) := by
  refine fun input => .bind_plain (.expect _) fun start rest => .bind_plain .ident fun name rest => ?_
  refine .bind (typeAfter_opens .colon rest) ?_
  rintro type _ rest rfl
  refine .bind_plain (.expect _) fun assign rest => .bind (h.operand 0 rest) ?_
  rintro value _ rest rfl
  exact .bind_plain (.expect _) fun stop rest => .pure (by simp [Statement.levels])

theorem importStatement_opens : Opens Statement.levels importStatement := by
  refine fun input => .bind (importDeclaration_opens input) ?_
  rintro ⟨path, span⟩ _ rest rfl
  exact .pure (by simp [Statement.levels])

theorem control?_opens (h : RulesOpen rules) {kind : Kind} {production : Parse (Expr Span Symbol)}
    (hcontrol : control? rules kind = some production) : OpensControl production := by
  unfold control? at hcontrol
  split at hcontrol <;> cases hcontrol
  · exact conditional_opens h
  · exact whileLoop_opens h
  · exact select_opens h

theorem isControl_of_control? {kind : Kind} (h : control? rules kind = none) :
    kind.isControl = false := by
  unfold control? at h
  unfold Kind.isControl
  split at h <;> simp_all

theorem control?_eq_none {kind : Kind} (h : kind.isControl = false) : control? rules kind = none := by
  unfold control?
  split <;> first | rfl | cases h

theorem continuesExpr_iff {kind : Kind} : continuesExpr kind = true ↔ kind.Continues := by
  constructor
  · intro h
    unfold continuesExpr at h
    split at h
    next => cases h
    next => exact .inl rfl
    next => exact .inr (.inl rfl)
    next hminus _ _ =>
      obtain ⟨op, hop⟩ := Option.isSome_iff_exists.mp h
      obtain rfl := BinaryOp.ofKind?_eq_some_iff.mp hop
      exact .inr (.inr ⟨op, fun hsub => hminus (by rw [hsub]; rfl), rfl⟩)
  · rintro (rfl | rfl | ⟨op, hop, rfl⟩)
    · rfl
    · rfl
    · cases op <;> first | rfl | exact absurd rfl hop

theorem leadingExpr_opens (h : RulesOpen rules) : Opens Expr.leadingLevels (leadingExpr rules) := by
  refine fun input => .bind_peek fun token hshows => ?_
  split
  next production hproduction =>
    refine .bind (control?_opens h hproduction input) ?_
    rintro control _ rest ⟨rfl, hcontrol⟩
    have hbegins := Expr.beginsWithControl_of_isControl hcontrol
    refine .bind_peek fun token _ => ?_
    split
    · refine .bind (postfixes_open h control) fun first levels rest hfirst => ?_
      refine (operators_open h first).mono fun expr more hexpr => ?_
      rw [Expr.leadingLevels, if_pos (by rw [hexpr.2, hfirst.2, hbegins]), hexpr.1, hfirst.1,
        Nat.max_assoc]
    · exact .pure (by rw [Expr.leadingLevels, if_pos hbegins, Nat.max_zero])
  next hnone =>
    refine (h.expr 0 input).mono fun expr levels hexpr => ?_
    have hbegins := (hexpr.2 token hshows).trans (isControl_of_control? hnone)
    rw [Expr.leadingLevels, if_neg (by simp [hbegins]), hexpr.1]

/-- The levels of what stands between the braces of a block. -/
def Contents.levels (contents : Contents) : Nat :=
  max (Statement.levelsList contents.1) (Expr.levelsOfTail contents.2)

theorem statementRound_opens (h : RulesOpen rules) (statements : List (Statement Span Symbol)) :
    Counts input (statementRound rules statements)
      (Counts.Keeps (fun statements levels => levels = most Statement.levels statements)
        (fun contents levels => levels = Contents.levels contents)
        (most Statement.levels statements)) := by
  refine .bind_plain (.accepts _) fun found rest => ?_
  cases found with
  | true =>
    refine .pure ?_
    simp [Contents.levels, Expr.levelsOfTail, Statement.levelsList_eq_most]
  | false =>
  refine .bind_plain (.nextIs _) fun found rest => ?_
  cases found with
  | true =>
    refine .bind (binding_opens h rest) ?_
    rintro statement _ rest rfl
    exact .pure (by simp [most_append, most])
  | false =>
  refine .bind_plain (.nextIs _) fun found rest => ?_
  cases found with
  | true =>
    refine .bind (importStatement_opens rest) ?_
    rintro statement _ rest rfl
    exact .pure (by simp [most_append, most])
  | false =>
  refine .bind (leadingExpr_opens h rest) ?_
  rintro value _ rest rfl
  refine .bind_plain (.accepts _) fun found rest => ?_
  cases found with
  | true =>
    refine .bind_plain .advance fun stop rest => .pure ?_
    simp [most_append, most, Statement.levels, Expr.leadingLevels]
  | false =>
  refine .bind_plain (.accepts _) fun found rest => ?_
  cases found with
  | true =>
    refine .pure ?_
    simp [Contents.levels, Expr.levelsOfTail, Expr.leadingLevels, Statement.levelsList_eq_most]
  | false =>
  cases hcontrol : value.isControl with
  | true =>
    have hbegins := Expr.beginsWithControl_of_isControl hcontrol
    exact .pure (by simp [most_append, most, Statement.levels, Expr.leadingLevels, hbegins])
  | false => exact .refuse

theorem braces_opens (h : RulesOpen rules) : Opens Block.levels (braces rules) := by
  refine fun input => .nested (.bind (.expect _)) (.bind_plain (.expect _) fun left rest => ?_)
  have hcontents : Counts rest (repeated (statementRound rules) []) fun contents levels =>
      levels = Contents.levels contents := by
    refine .repeated (fun statements levels => levels = most Statement.levels statements) rfl ?_
    rintro statements _ rest rfl
    exact statementRound_opens h statements
  refine .bind (.withRecords hcontents) ?_
  rintro ⟨statements, tail⟩ _ rest rfl
  exact .bind_plain (.expect _) fun right rest => .pure (by simp [Block.levels, Contents.levels])

theorem rulesWithin_open (levels : Nat) : RulesOpen (rulesWithin levels) := by
  induction levels with
  | zero => exact ⟨fun _ _ => .refuse, fun _ => .refuse, fun _ => .refuse⟩
  | succ levels ih =>
      rw [rulesWithin_succ]
      exact ⟨operation_opens ih, braces_opens ih, fun input =>
        (conditional_opens ih input).mono fun _ _ hexpr => hexpr.1⟩

theorem block_opens : Opens Block.levels block :=
  fun input => .bounded fun levels => (rulesWithin_open levels).block input

theorem expr_opens : Opens (fun expr => expr.levels + 1) expr :=
  fun input => .bounded fun levels => (rulesWithin_open levels).operand 0 input

end Grammar

end FilterScript
