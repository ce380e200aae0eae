import FilterScript.Grammar.Block
import FilterScript.Proofs.Spelling.Lists

/-!
# The tokens of expressions, blocks and statements

Loops build a tree from the inside out: what the rounds so far have taken spells
the tree so far. The productions that others go back to are taken to be spelled,
and then so is every level built on them.
-/

namespace FilterScript

theorem UnaryOp.ofKind?_eq_some_iff {kind : Kind} {op : UnaryOp} :
    ofKind? kind = some op ↔ kind = op.kind := by
  constructor
  · intro h
    unfold ofKind? at h
    split at h <;> simp at h <;> subst h <;> rfl
  · rintro rfl
    cases op <;> rfl

theorem ExitKind.ofKind?_eq_some_iff {kind : Kind} {exit : ExitKind} :
    ofKind? kind = some exit ↔ kind = exit.keyword := by
  constructor
  · intro h
    unfold ofKind? at h
    split at h <;> simp at h <;> subst h <;> rfl
  · rintro rfl
    cases exit <;> rfl

theorem UnaryOp.isFixed_kind (op : UnaryOp) : op.kind.isFixed := by
  cases op <;> rfl

variable {σ ν : Type} (text : ν → String)

/-- Arms while the match still goes on: behind every expression a comma. -/
def Arm.openSlots (arms : List (Arm σ ν)) : List Slot :=
  arms.flatMap fun arm => arm.slots text ++ [arm.body.separator false]

theorem Arm.slotsList_append (arms : List (Arm σ ν)) (last : Arm σ ν) :
    Arm.slotsList text (arms ++ [last]) =
      Arm.openSlots text arms ++ (last.slots text ++ [last.body.separator true]) := by
  induction arms with
  | nil => simp [slotsList, openSlots]
  | cons arm rest ih =>
      have hmore : (rest ++ [last]).isEmpty = false := by simp
      rw [List.cons_append, slotsList, ih, hmore]
      simp [openSlots]

/-- The comma behind an arm is spare if the arm turns out to be the last. -/
theorem ArmBody.separator_last {body : ArmBody σ ν} {tokens : List Token}
    (h : Spells [body.separator false] tokens) : Spells [body.separator true] tokens := by
  cases body with
  | block body => exact h
  | expr value => exact Spells.spareComma_iff.mpr (.inr (Spells.single_iff.mp h))

/-- Behind the last arm nothing has to stand. -/
theorem ArmBody.separator_missing (body : ArmBody σ ν) : Spells [body.separator true] [] := by
  cases body <;> exact Spells.spareComma_iff.mpr (.inl rfl)

theorem Arm.slotsList_of_openSlots {arms : List (Arm σ ν)} {tokens : List Token}
    (h : Spells (Arm.openSlots text arms) tokens) : Spells (Arm.slotsList text arms) tokens := by
  rcases List.eq_nil_or_concat arms with rfl | ⟨front, last, rfl⟩
  · exact h
  · rw [List.concat_eq_append] at h ⊢
    rw [openSlots, List.flatMap_append, List.flatMap_singleton] at h
    obtain ⟨before, tokens, rfl, hfront, hlast⟩ := Spells.append_iff.mp h
    obtain ⟨tokens, comma, rfl, htokens, hcomma⟩ := Spells.append_iff.mp hlast
    rw [Arm.slotsList_append]
    exact Spells.append hfront (htokens.append (ArmBody.separator_last hcomma))

namespace Grammar

open Parse

variable {final : Names} {rules : Rules} {records : Bool} {input : List Scan}

/-- All three productions that others go back to are spelled. -/
structure RulesSpelled (final : Names) (rules : Rules) : Prop where
  expr : ∀ least, Spelled final (Expr.slots final.text) (rules.expr least)
  block : Spelled final (Block.slots final.text) rules.block
  elseIf : Spelled final (Expr.slots final.text) rules.elseIf

theorem arguments_spelled (h : RulesSpelled final rules) :
    Spelled final (fun arguments => commaSlots (Expr.slotsList final.text arguments))
      (commaList Punct.rparen (rules.expr 0)) := by
  simp only [Expr.slotsList_eq_map]
  exact commaList_spelled (h.expr 0)

theorem operators_spelled (h : RulesSpelled final rules) {least : Nat} {first : Expr Span Symbol}
    {before : List Token} (hfirst : Spells (first.slots final.text) before) :
    Reads final records input (operators rules least first) fun expr taken _ =>
      Spells (expr.slots final.text) (before ++ taken) := by
  refine .repeated (fun expr taken _ => Spells (expr.slots final.text) (before ++ taken))
    (by simpa using hfirst) fun left taken rest hleft => .bind_peek fun token hshows => ?_
  split
  next op hop =>
    split
    · exact .pure (by simpa using hleft)
    · have hkind := BinaryOp.ofKind?_eq_some_iff.mp hop
      refine .bind_advance ⟨token, hshows, congrArg Kind.variant hkind⟩ rfl fun mark rest _ hmark => ?_
      refine .bind (h.expr _ records rest) fun right more rest _ hright => .pure ?_
      simpa [Expr.slots] using hleft.append (.token hmark hright)
  next => exact .pure (by simpa using hleft)

theorem postfixes_spelled (h : RulesSpelled final rules) {first : Expr Span Symbol}
    {before : List Token} (hfirst : Spells (first.slots final.text) before) :
    Reads final records input (postfixes rules first) fun expr taken _ =>
      Spells (expr.slots final.text) (before ++ taken) := by
  refine .repeated (fun expr taken _ => Spells (expr.slots final.text) (before ++ taken))
    (by simpa using hfirst) fun expr taken rest hexpr => ?_
  refine .bind_takes rfl (fun dot rest _ hdot => ?_) fun _ => ?_
  · refine .bind (ident_spelled records rest) fun name more rest _ hname => .pure ?_
    simpa [Expr.slots] using hexpr.append (.token hdot hname)
  refine .bind_takes rfl (fun left rest _ hleft => ?_) fun _ => ?_
  · refine .bind (.withRecords (arguments_spelled h true rest)) fun arguments more rest _ hlist => ?_
    refine .bind_expect rfl fun right rest _ hright => .pure ?_
    simpa [Expr.slots] using hexpr.append (.token hleft (hlist.append (.single hright)))
  refine .bind_nextIs (fun hnext => ?_) fun _ => .pure (by simpa using hexpr)
  refine .bind_advance hnext rfl fun mark rest _ hmark => .pure ?_
  simpa [Expr.slots] using hexpr.append (.single hmark)

/-! ## Conditionals, loops and matches -/

theorem alternative_spelled (h : RulesSpelled final rules) :
    Spelled final (Alternative.slotsOption final.text) (alternative rules) := by
  intro records input
  refine .bind_takes rfl (fun mark rest _ hmark => ?_) fun _ => .pure ?_
  · refine .bind_nextIs (fun _ => ?_) fun _ => ?_
    · refine .bind (h.elseIf records rest) fun next more rest _ hnext => .pure ?_
      simpa [Alternative.slotsOption] using Spells.token hmark hnext
    · refine .bind (h.block records rest) fun body more rest _ hbody => .pure ?_
      simpa [Alternative.slotsOption] using Spells.token hmark hbody
  · simpa [Alternative.slotsOption] using Spells.nil

theorem conditional_spelled (h : RulesSpelled final rules) :
    Spelled final (Expr.slots final.text) (conditional rules) := by
  intro records input
  refine .bind_expect rfl fun start rest _ hstart => ?_
  refine .bind (.withRecords (h.expr 0 false rest)) fun condition taken rest _ hcondition => ?_
  refine .bind (h.block records rest) fun consequence more rest _ hconsequence => ?_
  refine .bind (alternative_spelled h records rest) fun other last rest _ hother => .pure ?_
  simpa [Expr.slots] using Spells.token hstart (hcondition.append (hconsequence.append hother))

theorem whileLoop_spelled (h : RulesSpelled final rules) :
    Spelled final (Expr.slots final.text) (whileLoop rules) := by
  intro records input
  refine .bind_expect rfl fun start rest _ hstart => ?_
  refine .bind (.withRecords (h.expr 0 false rest)) fun condition taken rest _ hcondition => ?_
  refine .bind (h.block records rest) fun body more rest _ hbody => .pure ?_
  simpa [Expr.slots] using Spells.token hstart (hcondition.append hbody)

theorem pattern_spelled : Spelled final (Pattern.slots final.text) pattern := by
  intro records input
  refine .bind_peek fun token _ => ?_
  split
  · refine .bind (path_spelled records input) fun variant taken rest _ hvariant => ?_
    refine .bind_nextIs (fun hnext => ?_) fun _ => .pure ?_
    · refine .bind_advance hnext rfl fun left rest _ hleft => ?_
      refine .bind (commaList_spelled ident_spelled records rest) fun names more rest _ hnames => ?_
      refine .bind_expect rfl fun right rest _ hright => .pure ?_
      simpa [Pattern.slots] using
        hvariant.append (.token hleft (hnames.append (.single hright)))
    · simpa [Pattern.slots] using hvariant
  · exact .bind_want .refuse

/-- The condition of an arm with the bar in front of it. -/
def guardSlots {σ ν : Type} (text : ν → String) : Option (Expr σ ν) → List Slot
  | none => []
  | some guard => .token Punct.bar :: guard.slots text

theorem guard_spelled (h : RulesSpelled final rules) :
    Spelled final (guardSlots final.text) (guard rules) := by
  intro records input
  refine .bind_takes rfl (fun bar rest _ hbar => ?_) fun _ => .pure .nil
  refine .bind (h.expr 0 records rest) fun condition taken rest _ hcondition => .pure ?_
  simpa [guardSlots] using Spells.token hbar hcondition

/-- What is behind an arm: a separator, or the end of the match. -/
def Separated (body : ArmBody Span Symbol) (tokens : List Token) (rest : List Scan) : Prop :=
  Spells [body.separator false] tokens ∨ tokens = [] ∧ Next Punct.rbrace rest

/-- Where a brace is taken for no block, a name stands behind it. -/
theorem blockNext_reads :
    Reads final records input blockNext fun found taken rest =>
      taken = [] ∧ rest = input ∧
        (found = false → Next Punct.lbrace input →
          ∃ token, Shows 1 input token ∧ token.kind.isName = true) := by
  refine .bind_nextIs (fun _ => .bind_peekAt fun token hshows => ?_)
    fun hno => .pure ⟨rfl, rfl, fun _ hnext => absurd hnext hno⟩
  split
  next hname => exact .bind_peekAt fun _ _ => .pure ⟨rfl, rfl, fun _ _ => ⟨token, hshows, hname⟩⟩
  next => exact .pure ⟨rfl, rfl, fun hfound => by cases hfound⟩

theorem armBody_reads (h : RulesSpelled final rules) :
    Reads final records input (armBody rules) fun body taken rest =>
      ∃ front back, taken = front ++ back ∧ Spells (body.slots final.text) front ∧
        Separated body back rest := by
  refine .bind blockNext_reads ?_
  rintro found _ _ _ ⟨rfl, rfl, -⟩
  cases found with
  | true =>
      refine .bind (h.block records _) fun body front rest _ hbody => ?_
      have hslots : Spells ((ArmBody.block body).slots final.text) front := by
        simpa [ArmBody.slots] using hbody
      refine .bind_takes rfl (fun comma rest _ hcomma => .pure ?_) fun _ => .pure ?_
      · exact ⟨front, [comma], by simp, hslots,
          .inl (Spells.spareComma_iff.mpr (.inr ⟨comma, rfl, hcomma⟩))⟩
      · exact ⟨front, [], by simp, hslots, .inl (Spells.spareComma_iff.mpr (.inl rfl))⟩
  | false =>
      refine .bind (h.expr 0 records _) fun value front rest _ hvalue => ?_
      have hslots : Spells ((ArmBody.expr value).slots final.text) front := by
        simpa [ArmBody.slots] using hvalue
      refine .bind_takes rfl (fun comma rest _ hcomma => .pure ?_) fun _ => ?_
      · exact ⟨front, [comma], by simp, hslots, .inl (.single hcomma)⟩
      · refine .bind_accepts (fun hnext => .pure ?_) fun _ => .refuse
        exact ⟨front, [], by simp, hslots, .inr ⟨rfl, hnext⟩⟩

theorem arm_reads (h : RulesSpelled final rules) :
    Reads final records input (arm rules) fun arm taken rest =>
      ∃ front back, taken = front ++ back ∧ Spells (arm.slots final.text) front ∧
        Separated arm.body back rest := by
  refine .bind (pattern_spelled records input) fun variant first rest _ hvariant => ?_
  refine .bind (guard_spelled h records rest) fun condition second rest _ hcondition => ?_
  refine .bind_expect rfl fun arrow rest _ harrow => ?_
  refine .bind (armBody_reads h) ?_
  rintro body _ rest _ ⟨front, back, rfl, hbody, hback⟩
  have hslots : ∀ last span,
      Spells (Arm.slots final.text ⟨variant, condition, body, last, span⟩)
        (first ++ (second ++ arrow :: front)) := by
    intro last span
    have hall := hvariant.append (hcondition.append (.token harrow hbody))
    cases condition <;> simpa [Arm.slots, guardSlots] using hall
  exact .bind_nextIs (fun _ => .pure ⟨_, back, by simp, hslots _ _, hback⟩)
    fun _ => .pure ⟨_, back, by simp, hslots _ _, hback⟩

/-- Arms that have been read, before the next one or before the end. -/
def ArmsRead (final : Names) (arms : List (Arm Span Symbol)) (taken : List Token)
    (rest : List Scan) : Prop :=
  Spells (Arm.openSlots final.text arms) taken ∨
    Next Punct.rbrace rest ∧ Spells (Arm.slotsList final.text arms) taken

theorem armRound_reads (h : RulesSpelled final rules) {arms : List (Arm Span Symbol)}
    {taken : List Token} (harms : ArmsRead final arms taken input) :
    Reads final records input (armRound rules arms)
      (Reads.Keeps (ArmsRead final) (fun arms taken _ => Spells (Arm.slotsList final.text arms) taken)
        taken) := by
  refine .bind_accepts (fun _ => .pure ?_) fun hno => ?_
  · simpa using harms.elim (Arm.slotsList_of_openSlots _) And.right
  have hopen := harms.resolve_right fun hlast => hno hlast.1
  refine .bind (arm_reads h) ?_
  rintro arm _ rest _ ⟨front, back, rfl, hfront, hback⟩
  refine .pure ?_
  rcases hback with hback | ⟨rfl, hnext⟩
  · exact .inl (by simpa [Arm.openSlots] using hopen.append (hfront.append hback))
  · refine .inr ⟨hnext, ?_⟩
    rw [Arm.slotsList_append]
    simpa using hopen.append (hfront.append (ArmBody.separator_missing arm.body))

theorem select_spelled (h : RulesSpelled final rules) :
    Spelled final (Expr.slots final.text) (select rules) := by
  intro records input
  refine .bind_expect rfl fun start rest _ hstart => ?_
  refine .bind (.withRecords (h.expr 0 false rest)) fun scrutinee taken rest _ hscrutinee => ?_
  refine .bind_expect rfl fun left rest _ hleft => ?_
  have harms : Reads final true rest (repeated (armRound rules) []) fun arms more _ =>
      Spells (Arm.slotsList final.text arms) more :=
    .repeated (ArmsRead final) (.inl .nil) fun arms taken rest => armRound_reads h
  refine .bind (.withRecords harms) fun arms more rest _ harms => ?_
  refine .bind_expect rfl fun right rest _ hright => ?_
  have hslots := Spells.token hstart (hscrutinee.append (.token hleft (harms.append (.single hright))))
  cases arms.isEmpty with
  | true => exact .bind_warn (.pure (by simpa using hslots))
  | false => exact .pure (by simpa using hslots)

/-! ## Operands -/

theorem parenthesized_spelled (h : RulesSpelled final rules) :
    Spelled final (Expr.slots final.text) (parenthesized rules) := by
  intro records input
  refine .bind_expect rfl fun left rest _ hleft => ?_
  refine .bind_nextIs (fun hnext => ?_) fun _ => ?_
  · refine .bind_advance hnext rfl fun right rest _ hright => .pure ?_
    simpa [Expr.slots, Literal.slots] using Spells.token hleft (.single hright)
  · refine .bind (.withRecords (h.expr 0 true rest)) fun inner taken rest _ hinner => ?_
    refine .bind_expect rfl fun right rest _ hright => .pure ?_
    simpa [Expr.slots] using Spells.token hleft (hinner.append (.single hright))

/-- A brace opens a record only where that is allowed. -/
theorem recordNext_reads :
    Reads final records input recordNext fun found taken rest =>
      taken = [] ∧ rest = input ∧ (found = true ↔ records = true ∧ Next Punct.lbrace input) := by
  refine .bind_get fun state hstate => ?_
  subst hstate
  cases hallowed : state.context.records with
  | false => exact .pure (by simp)
  | true => exact .mono (.nextIs _) (by simp)

theorem fields_spelled (h : RulesSpelled final rules) :
    Spelled final (fun fields => Expr.slots final.text (.record fields))
      (record Expr.span (rules.expr 0)) := by
  intro records input
  refine (record_spelled (h.expr 0) records input).mono fun ⟨fields, span⟩ taken rest _ hfields => ?_
  simpa [Expr.slots, Expr.slotsFields_eq_map, Record.slots] using hfields

theorem pathExpr_spelled (h : RulesSpelled final rules) :
    Spelled final (Expr.slots final.text) (pathExpr rules) := by
  intro records input
  refine .bind (path_spelled records input) fun name taken rest _ hname => ?_
  refine .bind recordNext_reads ?_
  rintro found _ _ _ ⟨rfl, rfl, -⟩
  cases found with
  | true =>
      refine .bind (fields_spelled h records _) fun ⟨fields, span⟩ more rest _ hfields => .pure ?_
      simpa [Expr.slots] using hname.append hfields
  | false => exact .pure (by simpa [Expr.slots] using hname)

theorem slots_of_literal? {kind : Kind} {value : Literal} (h : literal? kind = some value) :
    value.slots = [.token kind] ∧ kind.isName = false ∧ kind ≠ .endOfFile := by
  unfold literal? at h
  split at h <;> simp at h <;> subst h <;> simp [Literal.slots, Kind.isName]

theorem primary_spelled (h : RulesSpelled final rules) :
    Spelled final (Expr.slots final.text) (primary rules) := by
  refine fun records input => .bind_peek fun token hshows => ?_
  split
  next value hvalue =>
    obtain ⟨hslots, hname, hend⟩ := slots_of_literal? hvalue
    obtain ⟨rest, rfl⟩ := hshows.cons hend
    refine .bind (.advance hname) ?_
    rintro _ _ _ _ ⟨rfl, rfl, rfl⟩
    exact .pure (by simpa [Expr.slots, hslots] using Spells.single rfl)
  next =>
    split
    next => exact conditional_spelled h records input
    next => exact whileLoop_spelled h records input
    next => exact select_spelled h records input
    next => exact parenthesized_spelled h records input
    next => exact pathExpr_spelled h records input
    next =>
      refine .bind recordNext_reads ?_
      rintro found _ _ _ ⟨rfl, rfl, -⟩
      cases found with
      | true =>
          exact .bind (fields_spelled h records _) fun fields taken rest _ hfields =>
            .pure (by simpa using hfields)
      | false => exact .bind_want .refuse

/-- A minus sign is taken for the start of an expression. -/
theorem exprNext_reads :
    Reads final records input exprNext fun found taken rest =>
      taken = [] ∧ rest = input ∧ (found = false → ¬ Next Punct.minus input) := by
  refine .bind_peek fun token hshows => .bind_get fun state _ => .pure ⟨rfl, rfl, ?_⟩
  rintro hfound ⟨other, hother, hvariant⟩
  have hkind : token.kind = Punct.minus :=
    (hshows.kind_unique hother).trans (Kind.eq_of_variant_eq rfl hvariant)
  rw [hkind] at hfound
  simp [Kind.beginsExpression, Kind.variant] at hfound

theorem earlyExit_spelled (h : RulesSpelled final rules) {exit : ExitKind}
    (hnext : Next exit.keyword input) :
    Reads final records input (earlyExit rules exit) fun expr taken _ =>
      Spells (expr.slots final.text) taken := by
  refine .bind_advance hnext rfl fun keyword rest _ hkeyword => ?_
  refine .bind exprNext_reads ?_
  rintro found _ _ _ ⟨rfl, rfl, -⟩
  cases found with
  | true =>
      refine .bind (h.expr 0 records _) fun value taken rest _ hvalue => .pure ?_
      simpa [Expr.slots, Expr.slotsOption] using Spells.token hkeyword hvalue
  | false => exact .pure (by simpa [Expr.slots, Expr.slotsOption] using Spells.single hkeyword)

theorem operand_spelled (h : RulesSpelled final rules) :
    Spelled final (Expr.slots final.text) (operand rules) := by
  refine fun records input => .bind_peek fun token hshows => ?_
  split
  next _ _ op hop =>
    have hkind := UnaryOp.ofKind?_eq_some_iff.mp hop
    refine .bind_advance ⟨token, hshows, congrArg Kind.variant hkind⟩ op.isFixed_kind
      fun mark rest _ hmark => ?_
    refine .bind (h.expr _ records rest) fun inner taken rest _ hinner => .pure ?_
    simpa [Expr.slots] using Spells.token hmark hinner
  next exit _ hexit =>
    have hkind := ExitKind.ofKind?_eq_some_iff.mp hexit
    exact earlyExit_spelled h ⟨token, hshows, congrArg Kind.variant hkind⟩
  next =>
    refine .bind (primary_spelled h records input) fun first taken rest _ hfirst => ?_
    exact postfixes_spelled h hfirst

theorem operation_spelled (h : RulesSpelled final rules) (least : Nat) :
    Spelled final (Expr.slots final.text) (operation rules least) := by
  refine fun records input => .nested ?_
  refine .bind (operand_spelled h records input) fun first taken rest _ hfirst => ?_
  exact operators_spelled h hfirst

/-! ## Blocks -/

theorem binding_spelled (h : RulesSpelled final rules) :
    Spelled final (Statement.slots final.text) (binding rules) := by
  intro records input
  refine .bind_expect rfl fun start rest _ hstart => ?_
  refine .bind (ident_spelled records rest) fun name first rest _ hname => ?_
  refine .bind (typeAfter_spelled .colon records rest) fun type second rest _ htype => ?_
  refine .bind_expect rfl fun assign rest _ hassign => ?_
  refine .bind (h.expr 0 records rest) fun value third rest _ hvalue => ?_
  refine .bind_expect rfl fun stop rest _ hstop => .pure ?_
  simpa [Statement.slots] using Spells.token hstart
    (hname.append (htype.append (.token hassign (hvalue.append (.single hstop)))))

theorem importStatement_spelled : Spelled final (Statement.slots final.text) importStatement := by
  intro records input
  refine .bind (importDeclaration_spelled records input) ?_
  rintro ⟨path, span⟩ taken rest _ hpath
  exact .pure (by simpa [Statement.slots] using hpath)

theorem control?_spelled (h : RulesSpelled final rules) {kind : Kind}
    {production : Parse (Expr Span Symbol)} (hcontrol : control? rules kind = some production) :
    Spelled final (Expr.slots final.text) production := by
  unfold control? at hcontrol
  split at hcontrol <;> cases hcontrol
  · exact conditional_spelled h
  · exact whileLoop_spelled h
  · exact select_spelled h

theorem leadingExpr_spelled (h : RulesSpelled final rules) :
    Spelled final (Expr.slots final.text) (leadingExpr rules) := by
  refine fun records input => .bind_peek fun token _ => ?_
  split
  next production hproduction =>
    have hspelled := control?_spelled h hproduction
    refine .bind (hspelled records input) fun control taken rest _ hcontrol => ?_
    refine .bind_peek fun token _ => ?_
    split
    · refine .bind (postfixes_spelled h hcontrol) fun first more rest _ hfirst => ?_
      refine (operators_spelled h hfirst).mono fun expr last rest _ hexpr => ?_
      simpa using hexpr
    · exact .pure (by simpa using hcontrol)
  next => exact h.expr 0 records input

/-- The places of what stands between the braces of a block. -/
def Contents.slots (text : Symbol → String) (contents : Contents) : List Slot :=
  Statement.slotsList text contents.1 ++ Expr.slotsOption text contents.2

theorem statementRound_reads (h : RulesSpelled final rules)
    {statements : List (Statement Span Symbol)} {taken : List Token}
    (hstatements : Spells (Statement.slotsList final.text statements) taken) :
    Reads final records input (statementRound rules statements)
      (Reads.Keeps (fun statements taken _ => Spells (Statement.slotsList final.text statements) taken)
        (fun contents taken _ => Spells (Contents.slots final.text contents) taken) taken) := by
  have hmore : ∀ {statement more}, Spells (Statement.slots final.text statement) more →
      Spells (Statement.slotsList final.text (statements ++ [statement])) (taken ++ more) := by
    intro statement more hstatement
    rw [Statement.slotsList_append]
    exact hstatements.append hstatement
  refine .bind_accepts (fun _ => .pure ?_) fun _ => ?_
  · simpa [Contents.slots, Expr.slotsOption] using hstatements
  refine .bind_nextIs (fun _ => ?_) fun _ => ?_
  · refine .bind (binding_spelled h records input) fun statement more rest _ hstatement => ?_
    exact .pure (by simpa using hmore hstatement)
  refine .bind_nextIs (fun _ => ?_) fun _ => ?_
  · refine .bind (importStatement_spelled records input) fun statement more rest _ hstatement => ?_
    exact .pure (by simpa using hmore hstatement)
  refine .bind (leadingExpr_spelled h records input) fun value more rest _ hvalue => ?_
  refine .bind_accepts (fun hnext => ?_) fun _ => ?_
  · refine .bind_advance hnext rfl fun stop rest _ hstop => .pure ?_
    exact hmore (by simpa [Statement.slots] using hvalue.append (.single hstop))
  refine .bind_accepts (fun _ => .pure ?_) fun _ => ?_
  · simpa [Contents.slots, Expr.slotsOption] using hstatements.append hvalue
  cases value.isControl with
  | true => exact .pure (by simpa using hmore (by simpa [Statement.slots] using hvalue))
  | false => exact .refuse

theorem braces_spelled (h : RulesSpelled final rules) :
    Spelled final (Block.slots final.text) (braces rules) := by
  refine fun records input => .nested (.bind_expect rfl fun left rest _ hleft => ?_)
  have hcontents : Reads final true rest (repeated (statementRound rules) []) fun contents more _ =>
      Spells (Contents.slots final.text contents) more :=
    .repeated (fun statements taken _ => Spells (Statement.slotsList final.text statements) taken)
      (by simpa [Statement.slotsList] using Spells.nil) fun statements taken rest =>
        statementRound_reads h
  refine .bind (.withRecords hcontents) ?_
  rintro ⟨statements, tail⟩ taken rest _ hcontents
  refine .bind_expect rfl fun right rest _ hright => .pure ?_
  simpa [Block.slots, Contents.slots] using Spells.token hleft (hcontents.append (.single hright))

theorem rulesWithin_spelled (levels : Nat) : RulesSpelled final (rulesWithin levels) := by
  induction levels with
  | zero => exact ⟨fun _ _ _ => .refuse, fun _ _ => .refuse, fun _ _ => .refuse⟩
  | succ levels ih =>
      rw [rulesWithin_succ]
      exact ⟨operation_spelled ih, braces_spelled ih, conditional_spelled ih⟩

theorem block_spelled : Spelled final (Block.slots final.text) block :=
  fun records input => .bounded fun levels => (rulesWithin_spelled levels).block records input

theorem expr_spelled : Spelled final (Expr.slots final.text) expr :=
  fun records input => .bounded fun levels => (rulesWithin_spelled levels).expr 0 records input

end Grammar

end FilterScript
