import FilterScript.Grammar.Item
import FilterScript.Proofs.Completeness.Canonical
import FilterScript.Proofs.Levels.Expressions
import FilterScript.Proofs.Spelling.Scripts

/-!
# Whatever is read fits

The conditions under which a written tree is read back ask for no more than they
must: every tree that a production builds meets them. Where an expression ends,
the token behind it tells which operators cannot have been meant to go on with
it, and with that every operand is known to end before its operator.
-/

namespace FilterScript

section Shapes

variable {σ ν : Type} {records : Bool}

theorem ImportPart.fitsList_append {first second : List (ImportPart σ ν)} :
    ImportPart.FitsList (first ++ second) ↔
      ImportPart.FitsList first ∧ ImportPart.FitsList second := by
  induction first with
  | nil => simp
  | cons part rest ih =>
      cases part with
      | name ident => simp [ih]
      | group members span => simp [ih, and_assoc]

/-- Only the last of some statements can be the last of its block. -/
theorem Statement.fitsList_append {tail : Bool} {statements : List (Statement σ ν)}
    {last : Statement σ ν} :
    Statement.FitsList tail (statements ++ [last]) ↔
      Statement.FitsList true statements ∧ last.Fits tail := by
  induction statements with
  | nil => simp
  | cons first rest ih =>
      have hmore : (rest ++ [last]).isEmpty = false := by simp
      rw [List.cons_append, FitsList, FitsList, ih, and_assoc, hmore]
      simp

/-- Arms that are not the last fit together with one that is. -/
theorem Arm.fitsList_append {arms : List (Arm σ ν)} {arm : Arm σ ν}
    (harms : ∀ arm ∈ arms, arm.last = false ∧ arm.Fits) (hlast : arm.last = true) (harm : arm.Fits) :
    Arm.FitsList (arms ++ [arm]) := by
  induction arms with
  | nil => simp [hlast, harm]
  | cons first rest ih =>
      obtain ⟨⟨hfirst, hfits⟩, hrest⟩ := List.forall_mem_cons.mp harms
      rw [List.cons_append, FitsList]
      exact ⟨by simp [hfirst], hfits, ih hrest⟩

theorem Expr.goesOn_of_beginsWithControl {expr : Expr σ ν} (h : expr.beginsWithControl = false) :
    expr.GoesOn := by
  have hcontrol : ∀ {expr : Expr σ ν}, expr.beginsWithControl = false → expr.isControl = false := by
    intro expr hbegins
    cases hcontrol : expr.isControl with
    | false => rfl
    | true => rw [Expr.beginsWithControl_of_isControl hcontrol] at hbegins; cases hbegins
  match expr with
  | .access receiver _ _ => exact receiver.goesOn_of_beginsWithControl h
  | .call callee _ _ => exact ⟨hcontrol h, callee.goesOn_of_beginsWithControl h⟩
  | .question inner _ => exact inner.goesOn_of_beginsWithControl h
  | .binary op left _ _ =>
      have hloose : left.isControl = false := hcontrol h
      exact ⟨fun hleft => by simp [hloose] at hleft, left.goesOn_of_beginsWithControl h⟩
  | .literal .. | .path _ | .record _ | .typedRecord .. | .unary .. | .exit .. | .conditional ..
  | .loop .. | .select .. | .paren .. => exact trivial

theorem Expr.TakesPostfix.holdsAtLeast {expr : Expr σ ν} (h : expr.TakesPostfix) (least : Nat) :
    expr.HoldsAtLeast least := by
  cases expr <;> simp_all

theorem Expr.TakesPostfix.endsBefore {expr : Expr σ ν} (h : expr.TakesPostfix) (op : BinaryOp) :
    expr.EndsBefore op := by
  cases expr <;> simp_all

/-- An expression that begins with a conditional, loop or match is written with
its word first. -/
theorem Expr.slots_of_beginsWithControl (text : ν → String) {expr : Expr σ ν}
    (h : expr.beginsWithControl = true) :
    ∃ kind more, expr.slots text = .token kind :: more ∧ kind.isControl = true := by
  match expr with
  | .access receiver _ _ | .question receiver _ | .binary _ receiver _ _ | .call receiver _ _ =>
      obtain ⟨kind, more, hslots, hkind⟩ := receiver.slots_of_beginsWithControl text h
      exact ⟨kind, _, by rw [Expr.slots, hslots]; rfl, hkind⟩
  | .conditional .. | .loop .. | .select .. => exact ⟨_, _, rfl, rfl⟩

theorem Expr.slots_of_beginsWithEmptyRecord (text : ν → String) {expr : Expr σ ν}
    (h : expr.BeginsWithEmptyRecord) :
    ∃ more, expr.slots text =
      .token Punct.lbrace :: .spareComma :: .token Punct.rbrace :: more := by
  match expr with
  | .access receiver _ _ | .question receiver _ | .binary _ receiver _ _ | .call receiver _ _ =>
      obtain ⟨more, hslots⟩ := receiver.slots_of_beginsWithEmptyRecord text h
      exact ⟨_, by rw [Expr.slots, hslots]; rfl⟩
  | .record ⟨[], _⟩ => exact ⟨[], rfl⟩

end Shapes

namespace Grammar

open Parse

variable {α : Type} {final : Names} {records : Bool} {input : List Scan} {rules : Rules}

/-- Whatever the production gives is of this sort. -/
def Builds (final : Names) (records : Bool) (sort : α → Prop) (production : Parse α) : Prop :=
  ∀ input, Reads final records input production fun result _ _ => sort result

/-! ## Lists and imports -/

theorem commaList_builds {sort : α → Prop} {close : Kind} {element : Parse α}
    (h : Builds final records sort element) :
    Builds final records (fun elements => ∀ element ∈ elements, sort element)
      (commaList close element) := by
  intro input
  refine .bind loneComma_reads ?_
  rintro lone _ _ _ ⟨rfl, rfl, hlone⟩
  cases lone with
  | true => exact .bind_advance (hlone rfl) rfl fun comma rest _ _ => .pure (by simp)
  | false =>
      refine .repeated (fun elements _ _ => ∀ element ∈ elements, sort element) (by simp)
        fun elements taken rest helements => ?_
      refine .bind_accepts (fun _ => .pure helements) fun _ => ?_
      refine .bind (h rest) fun next more rest _ hnext => ?_
      have hall : ∀ element ∈ elements ++ [next], sort element := by
        rw [List.forall_mem_append]
        exact ⟨helements, by simpa using hnext⟩
      exact .bind_takes rfl (fun _ _ _ _ => .pure hall) fun _ => .pure hall

theorem record_builds {sort : α → Prop} {spanOf : α → Span} {value : Parse α}
    (h : Builds final true sort value) :
    Builds final records (fun record => ∀ field ∈ record.fields, sort field.value)
      (record spanOf value) := by
  have hfield : Builds final true (fun given => sort given.value) (field spanOf value) := by
    intro input
    refine .bind (ident_spelled true input) fun name taken rest _ _ => ?_
    refine .bind_expect rfl fun colon rest _ _ => ?_
    exact .bind (h rest) fun given more rest _ hgiven => .pure hgiven
  intro input
  refine .bind_expect rfl fun left rest _ _ => ?_
  refine .bind (.withRecords (commaList_builds hfield rest)) fun fields taken rest _ hfields => ?_
  exact .bind_expect rfl fun right rest _ _ => .pure hfields

theorem importPart_builds {member : Parse (ImportPath Span Symbol)}
    (h : Builds final records ImportPath.Fits member) :
    Builds final records (fun part => ImportPart.FitsList [part.1]) (importPart member) := by
  intro input
  refine .bind_peek fun token hshows => ?_
  split
  next hkind =>
    refine .bind_advance ⟨token, hshows, congrArg Kind.variant hkind⟩ rfl fun left rest _ _ => ?_
    refine .bind (commaList_builds h rest) fun members taken rest _ hmembers => ?_
    refine .bind_expect rfl fun right rest _ _ => .pure ?_
    exact ⟨ImportPath.fitsList_iff.mpr hmembers, trivial⟩
  next => exact .bind (ident_spelled records input) fun name taken rest _ _ => .pure trivial
  next => exact .bind_want (.bind_want .refuse)

theorem importPathWithin_builds (levels : Nat) :
    Builds final records ImportPath.Fits (importPathWithin levels) := by
  induction levels with
  | zero => exact fun _ => .refuse
  | succ levels ih =>
      refine fun input => .nested (.bind_peek fun start _ => ?_)
      have hparts : Reads final records input (repeated (importRound (importPathWithin levels)) [])
          fun parts _ _ => parts.1 ≠ [] ∧ ImportPart.FitsList parts.1 := by
        refine .repeated (fun parts _ _ => ImportPart.FitsList parts) trivial
          fun parts taken rest hparts => ?_
        refine .bind (importPart_builds ih rest) fun part more rest _ hpart => ?_
        have hall : ImportPart.FitsList (parts ++ [part.1]) :=
          ImportPart.fitsList_append.mpr ⟨hparts, hpart⟩
        exact .bind_takes rfl (fun _ _ _ _ => .pure hall) fun _ => .pure ⟨by simp, hall⟩
      exact .bind hparts fun parts taken rest _ hparts => .pure hparts

theorem importDeclaration_builds :
    Builds final records (fun declared => declared.1.Fits) importDeclaration := by
  have hpath : Builds final records ImportPath.Fits importPath :=
    fun input => .bounded fun levels => importPathWithin_builds levels input
  intro input
  refine .bind_expect rfl fun start rest _ _ => ?_
  refine .bind (hpath rest) fun path taken rest _ hfits => ?_
  exact .bind_expect rfl fun stop rest _ _ => .pure hfits

/-! ## Operators -/

/-- The operand fits, and so it does as the left operand of what comes next. -/
structure OperandFits (records : Bool) (operand : Expr Span Symbol) (rest : List Scan) : Prop where
  fits : operand.Fits records
  yields : ∀ op : BinaryOp, Next op.punct rest →
    operand.HoldsAtLeast op.precedence ∧ operand.EndsBefore op

/-- The expression fits where operators are read that hold at least as tightly as
the number says, and no such operator comes next. -/
structure WholeFits (records : Bool) (least : Nat) (expr : Expr Span Symbol) (rest : List Scan) :
    Prop where
  fits : expr.Fits records
  holds : expr.HoldsAtLeast least
  stops : ∀ op : BinaryOp, Next op.punct rest → op.precedence < least ∧ expr.EndsBefore op

/-- All three productions that others go back to build what fits. -/
structure RulesFit (final : Names) (rules : Rules) : Prop where
  expr : ∀ least records input, Reads final records input (rules.expr least) fun expr _ rest =>
    WholeFits records least expr rest
  block : ∀ records, Builds final records Block.Fits rules.block
  elseIf : ∀ records, Builds final records (fun expr => expr.IsConditional ∧ expr.Fits records)
    rules.elseIf

theorem RulesFit.operand (h : RulesFit final rules) (least : Nat) :
    Builds final records (Expr.Fits records) (rules.expr least) :=
  fun input => (h.expr least records input).mono fun _ _ _ _ hfits => hfits.fits

/-- An operator comes next just if the next token is its mark. -/
theorem ofKind?_of_next {op : BinaryOp} {token : Token} (hshows : Shows 0 input token)
    (h : Next op.punct input) : BinaryOp.ofKind? token.kind = some op := by
  obtain ⟨other, hother, hvariant⟩ := h
  rw [BinaryOp.ofKind?_eq_some_iff, hshows.kind_unique hother]
  exact Kind.eq_of_variant_eq rfl hvariant

theorem operators_fit (h : RulesFit final rules) {least : Nat} {first : Expr Span Symbol}
    (hfirst : OperandFits records first input) (hholds : first.HoldsAtLeast least) :
    Reads final records input (operators rules least first) fun expr _ rest =>
      WholeFits records least expr rest := by
  refine .repeated (fun left _ rest => OperandFits records left rest ∧ left.HoldsAtLeast least)
    ⟨hfirst, hholds⟩ fun left taken rest ⟨hleft, hholds⟩ => .bind_peek fun token hshows => ?_
  split
  next op hop =>
    have hkind := BinaryOp.ofKind?_eq_some_iff.mp hop
    have hnext : Next op.punct rest := ⟨token, hshows, congrArg Kind.variant hkind⟩
    obtain ⟨hleftHolds, hleftEnds⟩ := hleft.yields op hnext
    split
    next hlt =>
      refine .pure ⟨hleft.fits, hholds, fun other hother => ?_⟩
      have hsame : some op = some other := hop.symm.trans (ofKind?_of_next hshows hother)
      obtain rfl : op = other := Option.some.inj hsame
      exact ⟨hlt, hleftEnds⟩
    next hle =>
      refine .bind_advance hnext rfl fun mark rest _ _ => ?_
      refine .bind (h.expr _ records rest) fun right more rest _ hright => .pure ?_
      refine ⟨⟨⟨hleftHolds, hleftEnds, hleft.fits, hright.holds, hright.fits⟩, ?_⟩, Nat.le_of_not_lt hle⟩
      -- The right operand has been read up to an operator that holds no tighter.
      intro next hnext
      obtain ⟨hlt, hends⟩ := hright.stops next hnext
      exact ⟨Nat.le_of_lt_succ hlt, hends⟩
  next hnone =>
    refine .pure ⟨hleft.fits, hholds, fun op hop => ?_⟩
    rw [ofKind?_of_next hshows hop] at hnone
    cases hnone

/-- Accesses, calls and question marks may follow, and a dot behind a path has no
name behind it. -/
structure PostfixFits (records : Bool) (expr : Expr Span Symbol) (rest : List Scan) : Prop where
  fits : expr.Fits records
  takes : expr.TakesPostfix
  path : expr.IsPath → ¬ PathContinues rest

theorem postfixes_fit (h : RulesFit final rules) {first : Expr Span Symbol}
    (hfirst : PostfixFits records first input) :
    Reads final records input (postfixes rules first) fun expr _ rest =>
      PostfixFits records expr rest := by
  refine .repeated (fun expr _ rest => PostfixFits records expr rest) hfirst
    fun expr taken rest hexpr => ?_
  refine .bind_takes rfl (fun dot rest hrest hdot => ?_) fun _ => ?_
  · refine .bind .ident fun name more rest _ ⟨token, _, hname, hkind, _⟩ => .pure ?_
    have hpath : ¬ expr.IsPath := by
      intro hpath
      subst hrest hname
      exact hexpr.path hpath ⟨.of_kind hdot, token, rfl, by rw [hkind]; rfl⟩
    exact ⟨⟨hexpr.takes, hpath, hexpr.fits⟩, trivial, False.elim⟩
  refine .bind_takes rfl (fun left rest _ _ => ?_) fun _ => ?_
  · refine .bind (.withRecords (commaList_builds (h.operand 0) rest)) fun arguments more rest _ hall => ?_
    refine .bind_expect rfl fun right rest _ _ => .pure ?_
    exact ⟨⟨hexpr.takes, hexpr.fits, Expr.fitsList_iff.mpr hall⟩, trivial, False.elim⟩
  refine .bind_nextIs (fun hnext => ?_) fun _ => .pure hexpr
  refine .bind_advance hnext rfl fun mark rest _ _ => .pure ?_
  exact ⟨⟨hexpr.takes, hexpr.fits⟩, trivial, False.elim⟩

/-! ## Conditionals, loops and matches -/

theorem conditional_builds (h : RulesFit final rules) :
    Builds final records (fun expr => expr.IsConditional ∧ expr.Fits records) (conditional rules) := by
  intro input
  refine .bind_expect rfl fun start rest _ _ => ?_
  refine .bind (.withRecords (h.operand 0 rest)) fun condition taken rest _ hcondition => ?_
  refine .bind (h.block records rest) fun consequence more rest _ hconsequence => ?_
  have hother : Reads final records rest (alternative rules) fun other _ _ =>
      ∀ span, (Expr.conditional condition consequence other span).Fits records := by
    refine .bind_takes rfl (fun mark rest _ _ => ?_) fun _ => .pure fun _ => ?_
    · refine .bind_nextIs (fun _ => ?_) fun _ => ?_
      · refine .bind (h.elseIf records rest) fun next last rest _ hnext => .pure fun _ => ?_
        exact ⟨hcondition, hconsequence, hnext⟩
      · refine .bind (h.block records rest) fun body last rest _ hbody => .pure fun _ => ?_
        exact ⟨hcondition, hconsequence, hbody⟩
    · exact ⟨hcondition, hconsequence⟩
  exact .bind hother fun other last rest _ hfits => .pure ⟨trivial, hfits _⟩

theorem whileLoop_builds (h : RulesFit final rules) :
    Builds final records (fun expr => expr.isControl = true ∧ expr.Fits records)
      (whileLoop rules) := by
  intro input
  refine .bind_expect rfl fun start rest _ _ => ?_
  refine .bind (.withRecords (h.operand 0 rest)) fun condition taken rest _ hcondition => ?_
  refine .bind (h.block records rest) fun body more rest _ hbody => .pure ?_
  exact ⟨rfl, hcondition, hbody⟩

theorem armBody_builds (h : RulesFit final rules) (hspelled : RulesSpelled final rules) :
    Builds final true ArmBody.Fits (armBody rules) := by
  intro input
  refine .bind blockNext_reads ?_
  rintro found _ _ _ ⟨rfl, rfl, hbrace⟩
  cases found with
  | true =>
      refine .bind (h.block true _) fun body taken rest _ hbody => ?_
      exact .bind_takes rfl (fun _ _ _ _ => .pure hbody) fun _ => .pure hbody
  | false =>
      refine .bind ((hspelled.expr 0 true _).and (h.expr 0 true _)) ?_
      rintro value taken rest hinput ⟨hvalue, hfits⟩
      have hrecord : ¬ value.BeginsWithEmptyRecord := by
        intro hempty
        obtain ⟨more, hslots⟩ := value.slots_of_beginsWithEmptyRecord final.text hempty
        rw [hslots] at hvalue
        obtain ⟨left, tokens, rfl, hleft, hvalue⟩ := Spells.token_iff.mp hvalue
        obtain ⟨comma, back, rfl, hcomma, hback⟩ :=
          Spells.append_iff.mp (show Spells ([.spareComma] ++ _) tokens from hvalue)
        obtain ⟨right, others, rfl, hright, _⟩ := Spells.token_iff.mp hback
        subst hinput
        obtain ⟨second, hsecond, hname⟩ := hbrace rfl (.of_kind hleft)
        -- Behind the brace stands a comma or the closing brace, and neither is a name.
        rcases Spells.spareComma_iff.mp hcomma with rfl | ⟨mark, rfl, hmark⟩
        · obtain rfl : second = right := hsecond
          simp [hright, Kind.isName] at hname
        · obtain rfl : second = mark := hsecond
          simp [hmark, Kind.isName] at hname
      have hbody : (ArmBody.expr value).Fits := ⟨hrecord, hfits.fits⟩
      refine .bind_takes rfl (fun _ _ _ _ => .pure hbody) fun _ => ?_
      exact .bind_accepts (fun _ => .pure hbody) fun _ => .refuse

theorem arm_fits (h : RulesFit final rules) (hspelled : RulesSpelled final rules) :
    Reads final true input (arm rules) fun arm _ rest =>
      arm.Fits ∧ (arm.last = true ↔ Next Punct.rbrace rest) := by
  refine .bind (pattern_spelled true input) fun variant first rest _ _ => ?_
  have hguard : Builds final true
      (fun guard => ∀ body last span, body.Fits →
        (⟨variant, guard, body, last, span⟩ : Arm Span Symbol).Fits) (guard rules) := by
    intro input
    refine .bind_takes rfl (fun bar rest _ _ => ?_) fun _ => .pure fun _ _ _ hbody => hbody
    refine .bind (h.operand 0 rest) fun condition taken rest _ hcondition => .pure ?_
    exact fun _ _ _ hbody => ⟨hcondition, hbody⟩
  refine .bind (hguard rest) fun condition second rest _ hcondition => ?_
  refine .bind_expect rfl fun arrow rest _ _ => ?_
  refine .bind (armBody_builds h hspelled rest) fun body third rest _ hbody => ?_
  exact .bind_nextIs (fun hnext => .pure ⟨hcondition _ _ _ hbody, by simp [hnext]⟩)
    fun hno => .pure ⟨hcondition _ _ _ hbody, by simp [hno]⟩

theorem select_builds (h : RulesFit final rules) (hspelled : RulesSpelled final rules) :
    Builds final records (fun expr => expr.isControl = true ∧ expr.Fits records) (select rules) := by
  intro input
  refine .bind_expect rfl fun start rest _ _ => ?_
  refine .bind (.withRecords (h.operand 0 rest)) fun scrutinee taken rest _ hscrutinee => ?_
  refine .bind_expect rfl fun left rest _ _ => ?_
  have harms : Reads final true rest (repeated (armRound rules) []) fun arms _ _ =>
      Arm.FitsList arms := by
    refine .repeated (fun arms _ rest => (Next Punct.rbrace rest → Arm.FitsList arms) ∧
      (¬ Next Punct.rbrace rest → ∀ arm ∈ arms, arm.last = false ∧ arm.Fits)) (by simp)
      fun arms taken rest ⟨hclosed, hopen⟩ => ?_
    refine .bind_accepts (fun hnext => .pure (hclosed hnext)) fun hno => ?_
    refine .bind (arm_fits h hspelled) fun arm more rest _ ⟨harm, hlast⟩ => .pure ⟨?_, ?_⟩
    · exact fun hnext => Arm.fitsList_append (hopen hno) (hlast.mpr hnext) harm
    · intro hnext
      rw [List.forall_mem_append]
      refine ⟨hopen hno, ?_⟩
      simpa [harm] using mt hlast.mp hnext
  refine .bind (.withRecords harms) fun arms more rest _ harms => ?_
  refine .bind_expect rfl fun right rest _ _ => ?_
  cases arms.isEmpty with
  | true => exact .bind_warn (.pure ⟨rfl, hscrutinee, harms⟩)
  | false => exact .pure ⟨rfl, hscrutinee, harms⟩

/-! ## Operands -/

theorem parenthesized_fits (h : RulesFit final rules) :
    Reads final records input (parenthesized rules) fun expr _ rest =>
      PostfixFits records expr rest := by
  refine .bind_expect rfl fun left rest _ _ => ?_
  refine .bind_nextIs (fun hnext => ?_) fun _ => ?_
  · exact .bind_advance hnext rfl fun right rest _ _ => .pure ⟨trivial, trivial, False.elim⟩
  · refine .bind (.withRecords (h.operand 0 rest)) fun inner taken rest _ hinner => ?_
    exact .bind_expect rfl fun right rest _ _ => .pure ⟨hinner, trivial, False.elim⟩

theorem path_reads :
    Reads final records input path fun _ _ rest => ¬ PathContinues rest := by
  refine .bind (ident_spelled records input) fun first taken rest _ _ => ?_
  have hrounds : Reads final records rest (repeated pathRound []) fun _ _ rest =>
      ¬ PathContinues rest := by
    refine .repeated (fun _ _ _ => True) trivial fun names taken rest _ => ?_
    refine .bind pathContinues_reads ?_
    rintro continues _ _ _ ⟨rfl, rfl, hcontinues⟩
    cases continues with
    | false => exact .pure fun hpath => by simpa using hcontinues.mpr hpath
    | true =>
        refine .bind_advance (hcontinues.mp rfl).1 rfl fun dot rest _ _ => ?_
        exact .bind (ident_spelled records rest) fun name more rest _ _ => .pure trivial
  exact .bind hrounds fun names more rest _ hstop => .pure hstop

theorem record_fits (h : RulesFit final rules) :
    Builds final records (fun record => Expr.FitsFields record.fields)
      (record Expr.span (rules.expr 0)) :=
  fun input => (record_builds (h.operand 0) input).mono fun _ _ _ _ hfields =>
    Expr.fitsFields_iff.mpr hfields

theorem pathExpr_fits (h : RulesFit final rules) :
    Reads final records input (pathExpr rules) fun expr _ rest => PostfixFits records expr rest := by
  refine .bind path_reads fun name taken rest _ hstop => ?_
  refine .bind recordNext_reads ?_
  rintro found _ _ _ ⟨rfl, rfl, hfound⟩
  cases found with
  | true =>
      refine .bind (record_fits h _) fun fields more rest _ hfields => .pure ?_
      exact ⟨⟨(hfound.mp rfl).1, hfields⟩, trivial, False.elim⟩
  | false => exact .pure ⟨trivial, trivial, fun _ => hstop⟩

theorem PostfixFits.of_isControl {expr : Expr Span Symbol}
    (h : expr.isControl = true ∧ expr.Fits records) : PostfixFits records expr input := by
  obtain ⟨hcontrol, hfits⟩ := h
  refine ⟨hfits, ?_, ?_⟩ <;> cases expr <;> simp_all [Expr.isControl]

theorem conditional_isControl (h : RulesFit final rules) :
    Builds final records (fun expr => expr.isControl = true ∧ expr.Fits records)
      (conditional rules) := by
  refine fun input => (conditional_builds h input).mono fun expr _ _ _ ⟨hconditional, hfits⟩ => ?_
  refine ⟨?_, hfits⟩
  cases expr <;> first | rfl | exact hconditional.elim

theorem primary_fits (h : RulesFit final rules) (hspelled : RulesSpelled final rules) :
    Reads final records input (primary rules) fun expr _ rest => PostfixFits records expr rest := by
  refine .bind_peek fun token hshows => ?_
  split
  next value hvalue =>
    obtain ⟨_, hname, hend⟩ := slots_of_literal? hvalue
    obtain ⟨rest, rfl⟩ := hshows.cons hend
    exact .bind (.advance hname) fun _ _ _ _ _ => .pure ⟨trivial, trivial, False.elim⟩
  next =>
    split
    next => exact (conditional_isControl h input).mono fun _ _ _ _ => .of_isControl
    next => exact (whileLoop_builds h input).mono fun _ _ _ _ => .of_isControl
    next => exact (select_builds h hspelled input).mono fun _ _ _ _ => .of_isControl
    next => exact parenthesized_fits h
    next => exact pathExpr_fits h
    next =>
      refine .bind recordNext_reads ?_
      rintro found _ _ _ ⟨rfl, rfl, hfound⟩
      cases found with
      | true =>
          refine .bind (record_fits h _) fun fields taken rest _ hfields => .pure ?_
          exact ⟨⟨(hfound.mp rfl).1, hfields⟩, trivial, False.elim⟩
      | false => exact .bind_want .refuse

theorem earlyExit_fits (h : RulesFit final rules) {exit : ExitKind} {least : Nat}
    (hnext : Next exit.keyword input) :
    Reads final records input (earlyExit rules exit) fun expr _ rest =>
      OperandFits records expr rest ∧ expr.HoldsAtLeast least := by
  refine .bind_advance hnext rfl fun keyword rest _ _ => ?_
  refine .bind exprNext_reads ?_
  rintro found _ _ _ ⟨rfl, rfl, hminus⟩
  cases found with
  | true =>
      refine .bind (h.expr 0 records _) fun value taken rest _ hvalue => .pure ?_
      refine ⟨⟨hvalue.fits, fun op hop => ?_⟩, trivial⟩
      -- No operator holds so loosely that it could stop the value.
      exact absurd (hvalue.stops op hop).1 (Nat.not_lt_zero _)
  | false =>
      refine .pure ⟨⟨trivial, fun op hop => ⟨trivial, ?_⟩⟩, trivial⟩
      rintro rfl
      exact hminus rfl hop

theorem operand_fits (h : RulesFit final rules) (hspelled : RulesSpelled final rules) (least : Nat) :
    Reads final records input (operand rules) fun expr _ rest =>
      OperandFits records expr rest ∧ expr.HoldsAtLeast least := by
  refine .bind_peek fun token hshows => ?_
  split
  next _ _ op hop =>
    have hkind := UnaryOp.ofKind?_eq_some_iff.mp hop
    refine .bind_advance ⟨token, hshows, congrArg Kind.variant hkind⟩ op.isFixed_kind
      fun mark rest _ _ => ?_
    refine .bind (h.expr _ records rest) fun inner taken rest _ hinner => .pure ?_
    refine ⟨⟨⟨hinner.holds, hinner.fits⟩, fun next hnext => ⟨trivial, ?_⟩⟩, trivial⟩
    obtain ⟨hlt, hends⟩ := hinner.stops next hnext
    cases op with
    | neg => exact ⟨Nat.le_of_lt_succ hlt, hends⟩
    | not => exact hends
  next exit _ hexit =>
    have hkind := ExitKind.ofKind?_eq_some_iff.mp hexit
    exact earlyExit_fits h ⟨token, hshows, congrArg Kind.variant hkind⟩
  next =>
    refine .bind (primary_fits h hspelled) fun first taken rest _ hfirst => ?_
    refine (postfixes_fit h hfirst).mono fun expr more rest _ hexpr => ?_
    exact ⟨⟨hexpr.fits, fun op _ => ⟨hexpr.takes.holdsAtLeast _, hexpr.takes.endsBefore op⟩⟩,
      hexpr.takes.holdsAtLeast least⟩

theorem operation_fits (h : RulesFit final rules) (hspelled : RulesSpelled final rules)
    (least : Nat) :
    Reads final records input (operation rules least) fun expr _ rest =>
      WholeFits records least expr rest := by
  refine .nested (.bind (operand_fits h hspelled least) fun first taken rest _ ⟨hfirst, hholds⟩ => ?_)
  exact operators_fit h hfirst hholds

/-! ## Statements and blocks -/

/-- The expression goes on at the start of a statement: it is no conditional, loop
or match with a token behind it that could start a statement of its own. -/
structure Leading (expr : Expr Span Symbol) (rest : List Scan) : Prop where
  goesOn : expr.GoesOn
  behind : expr.isControl = true → ¬ Next Punct.lparen rest ∧ ¬ Next Punct.minus rest

theorem postfixes_lead_on (h : RulesFit final rules) {first : Expr Span Symbol}
    (hfirst : Leading first input) :
    Reads final records input (postfixes rules first) fun expr _ rest => Leading expr rest := by
  refine .repeated (fun expr _ rest => Leading expr rest) hfirst fun expr taken rest hexpr => ?_
  refine .bind_takes rfl (fun dot rest _ _ => ?_) fun _ => ?_
  · refine .bind (ident_spelled records rest) fun name more rest _ _ => .pure ?_
    exact ⟨hexpr.goesOn, fun hcontrol => by cases hcontrol⟩
  refine .bind_takes rfl (fun left rest hrest hleft => ?_) fun _ => ?_
  · have hcallee : expr.isControl = false := by
      rw [← Bool.not_eq_true]
      intro hcontrol
      subst hrest
      exact (hexpr.behind hcontrol).1 (.of_kind hleft)
    refine .bind (.withRecords (commaList_builds (h.operand 0) rest)) fun arguments more rest _ _ => ?_
    refine .bind_expect rfl fun right rest _ _ => .pure ?_
    exact ⟨⟨hcallee, hexpr.goesOn⟩, fun hcontrol => by cases hcontrol⟩
  refine .bind_nextIs (fun hnext => ?_) fun _ => .pure hexpr
  refine .bind_advance hnext rfl fun mark rest _ _ => .pure ?_
  exact ⟨hexpr.goesOn, fun hcontrol => by cases hcontrol⟩

theorem operators_lead_on (h : RulesFit final rules) {least : Nat} {first : Expr Span Symbol}
    (hfirst : Leading first input) :
    Reads final records input (operators rules least first) fun expr _ rest => Leading expr rest := by
  refine .repeated (fun left _ rest => Leading left rest) hfirst fun left taken rest hleft =>
    .bind_peek fun token hshows => ?_
  split
  next op hop =>
    split
    · exact .pure hleft
    · have hkind := BinaryOp.ofKind?_eq_some_iff.mp hop
      have hnext : Next op.punct rest := ⟨token, hshows, congrArg Kind.variant hkind⟩
      have hminus : left.isControl = true → op ≠ .sub := by
        rintro hcontrol rfl
        exact (hleft.behind hcontrol).2 hnext
      refine .bind_advance hnext rfl fun mark rest _ _ => ?_
      refine .bind (h.expr _ records rest) fun right more rest _ _ => .pure ?_
      exact ⟨⟨hminus, hleft.goesOn⟩, fun hcontrol => by cases hcontrol⟩
  next => exact .pure hleft

theorem control?_builds (h : RulesFit final rules) (hspelled : RulesSpelled final rules)
    {kind : Kind} {production : Parse (Expr Span Symbol)}
    (hcontrol : control? rules kind = some production) :
    Builds final records (fun expr => expr.isControl = true ∧ expr.Fits records) production := by
  unfold control? at hcontrol
  split at hcontrol <;> cases hcontrol
  · exact conditional_isControl h
  · exact whileLoop_builds h
  · exact select_builds h hspelled

/-- An expression that is spelled where no construct comes next begins with none. -/
theorem beginsWithControl_of_control? {expr : Expr Span Symbol} {token : Token}
    {taken : List Token} {rest : List Scan} (hspells : Spells (expr.slots final.text) taken)
    (hshows : Shows 0 (taken.map .ok ++ rest) token) (hnone : control? rules token.kind = none) :
    expr.beginsWithControl = false := by
  rw [← Bool.not_eq_true]
  intro hbegins
  obtain ⟨kind, more, hslots, hkind⟩ := expr.slots_of_beginsWithControl final.text hbegins
  rw [hslots] at hspells
  obtain ⟨first, others, rfl, hfirst, _⟩ := Spells.token_iff.mp hspells
  rw [show token = first from hshows] at hnone
  rw [← hfirst, isControl_of_control? hnone] at hkind
  cases hkind

theorem leadingExpr_builds (h : RulesFit final rules) (hspelled : RulesSpelled final rules) :
    Builds final records (fun expr => expr.GoesOn ∧ expr.Fits records) (leadingExpr rules) := by
  refine fun input => .bind_peek fun token hshows => ?_
  split
  next production hproduction =>
    refine .bind (control?_builds h hspelled hproduction input) fun control taken rest _ hcontrol => ?_
    have hgoesOn : control.GoesOn := by
      obtain ⟨hcontrol, _⟩ := hcontrol
      cases control <;> trivial
    refine .bind_peek fun next hnext => ?_
    split
    next hcontinues =>
      have hlead : Leading control rest := by
        refine ⟨hgoesOn, fun _ => ⟨?_, ?_⟩⟩ <;>
        · rintro ⟨other, hother, hvariant⟩
          rw [hnext.kind_unique hother, Kind.eq_of_variant_eq rfl hvariant] at hcontinues
          cases hcontinues
      refine .bind ((postfixes_lead_on h hlead).and (postfixes_fit h (.of_isControl hcontrol)))
        fun first more rest _ ⟨hfirst, hfits⟩ => ?_
      have hoperand : OperandFits records first rest :=
        ⟨hfits.fits, fun op _ => ⟨hfits.takes.holdsAtLeast _, hfits.takes.endsBefore op⟩⟩
      refine ((operators_lead_on h hfirst).and
        (operators_fit h hoperand (hfits.takes.holdsAtLeast 0))).mono ?_
      rintro expr last rest _ ⟨hexpr, hwhole⟩
      exact ⟨hexpr.goesOn, hwhole.fits⟩
    next => exact .pure ⟨hgoesOn, hcontrol.2⟩
  next hnone =>
    refine ((hspelled.expr 0 records input).and (h.expr 0 records input)).mono ?_
    rintro expr taken rest rfl ⟨hexpr, hfits⟩
    have hbegins := beginsWithControl_of_control? hexpr hshows hnone
    exact ⟨Expr.goesOn_of_beginsWithControl hbegins, hfits.fits⟩

theorem binding_builds (h : RulesFit final rules) :
    Builds final true (fun statement => ∀ followed, statement.Fits followed) (binding rules) := by
  intro input
  refine .bind_expect rfl fun start rest _ _ => ?_
  refine .bind (ident_spelled true rest) fun name first rest _ _ => ?_
  refine .bind (typeAfter_spelled .colon true rest) fun type second rest _ _ => ?_
  refine .bind_expect rfl fun assign rest _ _ => ?_
  refine .bind (h.operand 0 rest) fun value third rest _ hvalue => ?_
  exact .bind_expect rfl fun stop rest _ _ => .pure fun _ => hvalue

/-- What has been read of a block so far: the last statement needs something behind
it only if the block does not close. -/
structure StatementsFit (statements : List (Statement Span Symbol)) (rest : List Scan) : Prop where
  followed : Statement.FitsList true statements
  closed : Next Punct.rbrace rest → Statement.FitsList false statements

theorem StatementsFit.append {statements : List (Statement Span Symbol)}
    {statement : Statement Span Symbol} {rest : List Scan} (h : StatementsFit statements input)
    (hstatement : ∀ followed, statement.Fits followed) :
    StatementsFit (statements ++ [statement]) rest where
  followed := Statement.fitsList_append.mpr ⟨h.followed, hstatement true⟩
  closed _ := Statement.fitsList_append.mpr ⟨h.followed, hstatement false⟩

theorem statementRound_fits (h : RulesFit final rules) (hspelled : RulesSpelled final rules)
    {statements : List (Statement Span Symbol)} (hstatements : StatementsFit statements input) :
    Reads final true input (statementRound rules statements) fun result _ rest =>
      match result with
      | .more statements => StatementsFit statements rest
      | .done (statements, tail) => ∀ span, (⟨statements, tail, span⟩ : Block Span Symbol).Fits := by
  refine .bind_accepts (fun hnext => .pure fun _ => hstatements.closed hnext) fun _ => ?_
  refine .bind_nextIs (fun _ => ?_) fun _ => ?_
  · exact .bind (binding_builds h input) fun statement more rest _ hstatement =>
      .pure (hstatements.append hstatement)
  refine .bind_nextIs (fun _ => ?_) fun _ => ?_
  · refine .bind (.bind (importDeclaration_builds input) fun declared more rest _ hdeclared => ?_)
      fun statement more rest _ hstatement => .pure (hstatements.append hstatement)
    exact .pure fun _ => hdeclared
  refine .bind (leadingExpr_builds h hspelled input) fun value more rest _ ⟨hgoesOn, hfits⟩ => ?_
  refine .bind_accepts (fun hnext => ?_) fun _ => ?_
  · refine .bind_advance hnext rfl fun stop rest _ _ => .pure (hstatements.append fun _ => ?_)
    exact ⟨hgoesOn, hfits⟩
  refine .bind_accepts (fun _ => .pure fun _ => ⟨hstatements.followed, hgoesOn, hfits⟩) fun hno => ?_
  cases hcontrol : value.isControl with
  | false => exact .refuse
  | true =>
      refine .pure ⟨?_, fun hnext => absurd hnext hno⟩
      exact Statement.fitsList_append.mpr ⟨hstatements.followed, hcontrol, rfl, hfits⟩

theorem braces_builds (h : RulesFit final rules) (hspelled : RulesSpelled final rules) :
    Builds final records Block.Fits (braces rules) := by
  refine fun input => .nested (.bind_expect rfl fun left rest _ _ => ?_)
  have hcontents : Reads final true rest (repeated (statementRound rules) []) fun contents _ _ =>
      ∀ span, (⟨contents.1, contents.2, span⟩ : Block Span Symbol).Fits := by
    refine .repeated (fun statements _ rest => StatementsFit statements rest) ⟨trivial, fun _ => trivial⟩
      fun statements taken rest hstatements => ?_
    refine (statementRound_fits h hspelled hstatements).mono fun result more rest _ hresult => ?_
    cases result with
    | more statements => exact hresult
    | done contents => exact hresult
  refine .bind (.withRecords hcontents) fun contents taken rest _ hfits => ?_
  exact .bind_expect rfl fun right rest _ _ => .pure (hfits _)

theorem rulesWithin_fit (levels : Nat) : RulesFit final (rulesWithin levels) := by
  induction levels with
  | zero => exact ⟨fun _ _ _ => .refuse, fun _ _ => .refuse, fun _ _ => .refuse⟩
  | succ levels ih =>
      have hspelled : RulesSpelled final (rulesWithin levels) := rulesWithin_spelled levels
      rw [rulesWithin_succ]
      exact ⟨fun least records input => operation_fits ih hspelled least,
        fun records => braces_builds ih hspelled, fun records => conditional_builds ih⟩

theorem block_builds : Builds final records Block.Fits block :=
  fun input => .bounded fun levels => (rulesWithin_fit levels).block records input

/-! ## Items and scripts -/

theorem filterItem_builds {kind : FilterKind} (hnext : Next kind.keyword input) :
    Reads final records input (filterItem kind) fun item _ _ => item.Fits := by
  refine .bind_advance hnext rfl fun start rest _ _ => ?_
  refine .bind (ident_spelled records rest) fun name first rest _ _ => ?_
  refine .bind (parameters_spelled records rest) fun parameters second rest _ _ => ?_
  exact .bind (block_builds rest) fun body third rest _ hbody => .pure hbody

theorem item_builds : Builds final records Item.Fits item := by
  refine fun input => .bind_peek fun token hshows => ?_
  split
  next => exact .bind (importDeclaration_builds input) fun _ _ _ _ hpath => .pure hpath
  next hkind => exact filterItem_builds ⟨token, hshows, congrArg Kind.variant hkind⟩
  next hkind => exact filterItem_builds ⟨token, hshows, congrArg Kind.variant hkind⟩
  next =>
    refine .bind_expect rfl fun start rest _ _ => ?_
    refine .bind (ident_spelled records rest) fun name first rest _ _ => ?_
    refine .bind (parameters_spelled records rest) fun parameters second rest _ _ => ?_
    refine .bind (typeAfter_spelled .arrow records rest) fun returns third rest _ _ => ?_
    exact .bind (block_builds rest) fun body fourth rest _ hbody => .pure hbody
  next =>
    refine .bind_expect rfl fun start rest _ _ => ?_
    refine .bind (ident_spelled records rest) fun name first rest _ _ => ?_
    exact .bind (record_spelled type_spelled records rest) fun _ _ _ _ _ => .pure trivial
  next =>
    refine .bind_expect rfl fun start rest _ _ => ?_
    refine .bind (ident_spelled records rest) fun name first rest _ _ => ?_
    exact .bind (block_builds rest) fun body second rest _ hbody => .pure hbody
  next => exact .bind_want .refuse

theorem script_builds :
    Builds final records (fun script => ∀ item ∈ script.items, item.Fits) script := by
  refine fun input => .bind_peek fun first _ => ?_
  have hitems : Reads final records input (repeated itemRound []) fun items _ _ =>
      ∀ item ∈ items, item.Fits := by
    refine .repeated (fun items _ _ => ∀ item ∈ items, item.Fits) (by simp)
      fun items taken rest hitems => ?_
    refine .bind_nextIs (fun _ => .pure hitems) fun _ => ?_
    refine .bind (item_builds rest) fun item more rest _ hitem => .pure ?_
    simpa [or_imp, forall_and] using ⟨hitems, hitem⟩
  exact .bind hitems fun items taken rest _ hitems => .bind_peek fun stop _ => .pure hitems

theorem loneExpr_builds : Builds final records (Expr.Fits records) loneExpr := by
  intro input
  refine .bind (.bounded fun levels => (rulesWithin_fit levels).operand 0 input)
    fun value taken rest _ hvalue => ?_
  exact .bind_accepts (fun _ => .pure hvalue) fun _ => .refuse

end Grammar

/-- The items of every script that is accepted fit. -/
theorem fits_of_parse {source : String} {parsed : Parsed (Script Span Symbol)}
    (h : parse source = .ok parsed) : ∀ item ∈ parsed.tree.items, item.Fits := by
  obtain ⟨tokens, -, hfits⟩ := runOn_reads (fun _ input =>
    (((Grammar.script_builds input).and Grammar.script_reads).mono
      fun _ _ _ _ ⟨hfits, _, hend⟩ => ⟨hfits, hend⟩)) h
  exact hfits

/-- Every expression that is accepted by itself fits. -/
theorem fits_of_parseExpr {source : String} {parsed : Parsed (Expr Span Symbol)}
    (h : parseExpr source = .ok parsed) : parsed.tree.Fits true := by
  obtain ⟨tokens, -, hfits⟩ := runOn_reads (fun _ input =>
    (((Grammar.loneExpr_builds input).and Grammar.loneExpr_reads).mono
      fun _ _ _ _ ⟨hfits, _, hend⟩ => ⟨hfits, hend⟩)) h
  exact hfits

end FilterScript
