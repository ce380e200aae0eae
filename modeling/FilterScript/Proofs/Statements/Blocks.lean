import FilterScript.Proofs.Outlines
import FilterScript.Proofs.Parts
import FilterScript.Proofs.Spans.Scripts

/-!
# The blocks of a tree

Every block of a tree has been read from some of the tokens, wherever it stands. What
holds of every block that is read, given the tokens that were taken for it, therefore
holds of all blocks of a tree.
-/

namespace FilterScript

variable {α : Type} {property : Block Span Symbol → List Token → Prop}

namespace Outline

/-- Every block among the nodes has the property, given some of the tokens that stand
together. -/
def EveryBlock (property : Block Span Symbol → List Token → Prop)
    (outlines : List (Outline Span Symbol)) (tokens : List Token) : Prop :=
  ∀ block : Block Span Symbol, block.outline ∈ subtreesList outlines →
    ∃ part, part <:+: tokens ∧ property block part

section

variable {outline : Outline Span Symbol} {outlines others : List (Outline Span Symbol)}
  {tokens front back : List Token}

theorem EveryBlock.mono (h : EveryBlock property outlines front) (hpart : front <:+: tokens) :
    EveryBlock property outlines tokens := by
  intro block hblock
  obtain ⟨part, hinfix, hproperty⟩ := h block hblock
  exact ⟨part, hinfix.trans hpart, hproperty⟩

theorem EveryBlock.nil : EveryBlock property [] tokens := by
  intro block hblock
  simp [subtreesList] at hblock

theorem EveryBlock.append (h : EveryBlock property outlines front)
    (h' : EveryBlock property others back) :
    EveryBlock property (outlines ++ others) (front ++ back) := by
  intro block hblock
  rw [subtreesList_append] at hblock
  rcases List.mem_append.mp hblock with hblock | hblock
  · exact h.mono (List.prefix_append front back).isInfix block hblock
  · exact h'.mono (List.suffix_append front back).isInfix block hblock

theorem EveryBlock.skip (h : EveryBlock property outlines tokens) (gap : List Token) :
    EveryBlock property outlines (gap ++ tokens) :=
  h.mono (List.suffix_append gap tokens).isInfix

theorem EveryBlock.trail (h : EveryBlock property outlines tokens) (more : List Token) :
    EveryBlock property outlines (tokens ++ more) :=
  h.mono (List.prefix_append tokens more).isInfix

theorem EveryBlock.declarative (h : ∀ outline ∈ outlines, outline.Declarative) :
    EveryBlock property outlines tokens := by
  intro block hblock
  obtain ⟨outline, houtline, hblock⟩ := mem_subtreesList.mp hblock
  have htag := (h outline houtline).not_isBlock hblock
  rw [block.isBlock_tag_outline] at htag
  cases htag

theorem EveryBlock.single (h : outline.Declarative) : EveryBlock property [outline] tokens :=
  .declarative (List.forall_mem_singleton.mpr h)

/-- Only the node itself and those below it are looked at. -/
theorem EveryBlock.under (h : EveryBlock property outline.children tokens)
    (hroot : ∀ block : Block Span Symbol, block.outline = outline → property block tokens) :
    EveryBlock property [outline] tokens := by
  intro block hblock
  obtain ⟨tag, span, children⟩ := outline
  rw [subtreesList_singleton, subtrees] at hblock
  rcases List.mem_cons.mp hblock with hblock | hblock
  · exact ⟨tokens, List.infix_refl _, hroot block hblock⟩
  · exact h block hblock

theorem EveryBlock.node {tag : Tag Span Symbol} {span : Span}
    (h : EveryBlock property outlines tokens) (htag : tag.isBlock = false) :
    EveryBlock property [.node tag span outlines] tokens := by
  refine EveryBlock.under h fun block hblock => ?_
  have hsame := block.isBlock_tag_outline
  rw [hblock, tag_node, htag] at hsame
  cases hsame

theorem EveryBlock.block {block : Block Span Symbol} (hproperty : property block tokens)
    (h : EveryBlock property block.outline.children tokens) :
    EveryBlock property [block.outline] tokens :=
  EveryBlock.under h fun other hother => by rwa [Block.eq_of_outline other block hother]

end

end Outline

namespace Grammar

open Parse Outline

variable {final : Names} {rules : Rules} {records : Bool} {input : List Scan}

/-! ## Lists -/

/-- The blocks of every result have the property. -/
def Tells (final : Names) (property : Block Span Symbol → List Token → Prop)
    (outline : α → Outline Span Symbol) (production : Parse α) : Prop :=
  ∀ records input, Reads final records input production fun result taken _ =>
    EveryBlock property [outline result] taken

theorem commaList_tells {close : Kind} {outline : α → Outline Span Symbol} {element : Parse α}
    (helement : Tells final property outline element) :
    Reads final records input (commaList close element) fun elements taken _ =>
      EveryBlock property (elements.map outline) taken := by
  refine .bind loneComma_reads ?_
  rintro lone _ _ _ ⟨rfl, rfl, hlone⟩
  cases lone with
  | true => exact .bind_advance (hlone rfl) rfl fun comma rest _ _ => .pure .nil
  | false =>
      refine .repeated (fun elements taken _ => EveryBlock property (elements.map outline) taken)
        .nil fun elements taken rest helements => ?_
      refine .bind_accepts (fun _ => .pure (by simpa using helements)) fun _ => ?_
      refine .bind (helement _ _) fun next more rest _ hnext => ?_
      refine .bind_takes rfl (fun comma rest _ _ => .pure ?_) fun _ => .pure ?_
      · simpa using helements.append (hnext.trail [comma])
      · simpa using helements.append hnext

/-- The fields of a record. -/
theorem fields_tell {value : Parse (Expr Span Symbol)}
    (hvalue : Tells final property Expr.outline value) :
    Reads final records input (record Expr.span value) fun record taken _ =>
      EveryBlock property (Expr.outlineFields record.fields) taken := by
  have hfield : Tells final property (Field.outline .field Expr.outline) (field Expr.span value) := by
    intro records input
    refine .bind (ident_covered records input) fun name taken rest _ _ => ?_
    refine .bind_expect rfl fun colon rest _ _ => ?_
    refine .bind (hvalue records rest) fun given more rest _ hgiven => .pure (.node ?_ rfl)
    have hname : EveryBlock property [name.outline] (taken ++ [colon]) :=
      .single name.declarative_outline
    simpa using hname.append hgiven
  simp only [Expr.outlineFields_eq_map]
  refine .bind_expect rfl fun left rest _ _ => ?_
  refine .bind (.withRecords (commaList_tells hfield)) fun fields taken rest _ hfields => ?_
  refine .bind_expect rfl fun right rest _ _ => .pure ?_
  simpa using (hfields.trail [right]).skip [left]

/-! ## Operators and postfixes -/

/-- The blocks of all that the three productions give have the property. -/
structure RulesTell (final : Names) (property : Block Span Symbol → List Token → Prop)
    (rules : Rules) : Prop where
  expr : ∀ least, Tells final property Expr.outline (rules.expr least)
  block : Tells final property Block.outline rules.block
  elseIf : Tells final property Expr.outline rules.elseIf

theorem operators_tell (h : RulesTell final property rules) {least : Nat}
    {first : Expr Span Symbol} {before : List Token}
    (hfirst : EveryBlock property [first.outline] before) :
    Reads final records input (operators rules least first) fun expr taken _ =>
      EveryBlock property [expr.outline] (before ++ taken) := by
  refine .repeated (fun expr taken _ => EveryBlock property [expr.outline] (before ++ taken))
    (by simpa using hfirst) fun left taken rest hleft => .bind_peek fun token hshows => ?_
  split
  next op hop =>
    split
    · exact .pure (by simpa using hleft)
    · have hkind := BinaryOp.ofKind?_eq_some_iff.mp hop
      refine .bind_advance ⟨token, hshows, congrArg Kind.variant hkind⟩ rfl fun mark rest _ _ => ?_
      refine .bind (h.expr _ records rest) fun right more rest _ hright => .pure ?_
      simp only [Reads.Keeps, Expr.outline]
      refine .node ?_ rfl
      simpa using hleft.append (hright.skip [mark])
  next => exact .pure (by simpa using hleft)

theorem postfixes_tell (h : RulesTell final property rules) {first : Expr Span Symbol}
    {before : List Token} (hfirst : EveryBlock property [first.outline] before) :
    Reads final records input (postfixes rules first) fun expr taken _ =>
      EveryBlock property [expr.outline] (before ++ taken) := by
  refine .repeated (fun expr taken _ => EveryBlock property [expr.outline] (before ++ taken))
    (by simpa using hfirst) fun expr taken rest hexpr => ?_
  refine .bind_takes rfl (fun dot rest _ _ => ?_) fun _ => ?_
  · refine .bind (ident_covered records rest) fun name more rest _ _ => .pure ?_
    simp only [Reads.Keeps, Expr.outline]
    have hname : EveryBlock property [name.outline] (dot :: more) := .single name.declarative_outline
    exact .node (by simpa using hexpr.append hname) rfl
  refine .bind_takes rfl (fun left rest _ _ => ?_) fun _ => ?_
  · refine .bind (.withRecords (commaList_tells (h.expr 0))) fun arguments more rest _ hlist => ?_
    refine .bind_expect rfl fun right rest _ _ => .pure ?_
    simp only [Reads.Keeps, Expr.outline, Expr.outlineList_eq_map]
    exact .node (by simpa using hexpr.append ((hlist.skip [left]).trail [right])) rfl
  refine .bind_nextIs (fun hnext => ?_) fun _ => .pure (by simpa using hexpr)
  refine .bind_advance hnext rfl fun mark rest _ _ => .pure ?_
  simp only [Reads.Keeps, Expr.outline]
  exact .node (by simpa using hexpr.trail [mark]) rfl

/-! ## Conditionals, loops and matches -/

theorem alternative_tells (h : RulesTell final property rules) :
    Reads final records input (alternative rules) fun other taken _ =>
      EveryBlock property (Alternative.outlineOption other) taken := by
  refine .bind_takes rfl (fun mark rest _ _ => ?_) fun _ =>
    .pure (by simpa [Alternative.outlineOption] using EveryBlock.nil)
  refine .bind_nextIs (fun _ => ?_) fun _ => ?_
  · refine .bind (h.elseIf records rest) fun next more rest _ hnext => .pure ?_
    simpa [Alternative.outlineOption] using hnext.skip [mark]
  · refine .bind (h.block records rest) fun body more rest _ hbody => .pure ?_
    simpa [Alternative.outlineOption] using hbody.skip [mark]

theorem conditional_tells (h : RulesTell final property rules) :
    Tells final property Expr.outline (conditional rules) := by
  intro records input
  refine .bind_expect rfl fun start rest _ _ => ?_
  refine .bind (.withRecords (h.expr 0 false rest)) fun condition taken rest _ hcondition => ?_
  refine .bind (h.block records rest) fun consequence more rest _ hconsequence => ?_
  refine .bind (alternative_tells h) fun other last rest _ hother => .pure ?_
  rw [Expr.outline]
  exact .node (by simpa using (hcondition.append (hconsequence.append hother)).skip [start]) rfl

theorem whileLoop_tells (h : RulesTell final property rules) :
    Tells final property Expr.outline (whileLoop rules) := by
  intro records input
  refine .bind_expect rfl fun start rest _ _ => ?_
  refine .bind (.withRecords (h.expr 0 false rest)) fun condition taken rest _ hcondition => ?_
  refine .bind (h.block records rest) fun body more rest _ hbody => .pure ?_
  rw [Expr.outline]
  exact .node (by simpa using (hcondition.append hbody).skip [start]) rfl

theorem guard_tells (h : RulesTell final property rules) :
    Reads final records input (guard rules) fun condition taken _ =>
      EveryBlock property (Expr.outlineOption condition) taken := by
  refine .bind_takes rfl (fun bar rest _ _ => ?_) fun _ =>
    .pure (by simpa [Expr.outlineOption] using EveryBlock.nil)
  refine .bind (h.expr 0 records rest) fun condition taken rest _ hcondition => .pure ?_
  simpa [Expr.outlineOption] using hcondition.skip [bar]

theorem armBody_tells (h : RulesTell final property rules) :
    Tells final property ArmBody.outline (armBody rules) := by
  intro records input
  refine .bind blockNext_reads ?_
  rintro found _ _ _ ⟨rfl, rfl, -⟩
  cases found with
  | true =>
      refine .bind (h.block records _) fun body front rest _ hbody => ?_
      refine .bind_takes rfl (fun comma rest _ _ => .pure ?_) fun _ => .pure ?_
      · simpa [ArmBody.outline] using hbody.trail [comma]
      · simpa [ArmBody.outline] using hbody
  | false =>
      refine .bind (h.expr 0 records _) fun value front rest _ hvalue => ?_
      refine .bind_takes rfl (fun comma rest _ _ => .pure ?_) fun _ => ?_
      · simpa [ArmBody.outline] using hvalue.trail [comma]
      · exact .bind_accepts (fun _ => .pure (by simpa [ArmBody.outline] using hvalue))
          fun _ => .refuse

theorem arm_tells (h : RulesTell final property rules) :
    Tells final property Arm.outline (arm rules) := by
  intro records input
  refine .bind (pattern_covered records input) fun variant first rest _ _ => ?_
  refine .bind (guard_tells h) fun condition second rest _ hcondition => ?_
  refine .bind_expect rfl fun arrow rest _ _ => ?_
  refine .bind (armBody_tells h records rest) fun body third rest _ hbody => ?_
  have harm : ∀ last, EveryBlock property [(Arm.mk variant condition body last
      (variant.span.hull body.span)).outline] (first ++ (second ++ arrow :: third)) := by
    intro last
    have hvariant : EveryBlock property [variant.outline] first :=
      .single variant.declarative_outline
    rw [Arm.outline]
    exact .node (by simpa using hvariant.append (hcondition.append (hbody.skip [arrow]))) rfl
  exact .bind_nextIs (fun _ => .pure (by simpa using harm true))
    fun _ => .pure (by simpa using harm false)

theorem select_tells (h : RulesTell final property rules) :
    Tells final property Expr.outline (select rules) := by
  intro records input
  refine .bind_expect rfl fun start rest _ _ => ?_
  refine .bind (.withRecords (h.expr 0 false rest)) fun scrutinee taken rest _ hscrutinee => ?_
  refine .bind_expect rfl fun left rest _ _ => ?_
  have harms : Reads final true rest (repeated (armRound rules) []) fun arms more _ =>
      EveryBlock property (Arm.outlineList arms) more := by
    simp only [Arm.outlineList_eq_map]
    refine .repeated (fun arms taken _ => EveryBlock property (arms.map Arm.outline) taken) .nil
      fun arms taken rest harms => ?_
    refine .bind_accepts (fun _ => .pure (by simpa using harms)) fun _ => ?_
    refine .bind (arm_tells h true rest) fun arm more rest _ harm => .pure ?_
    simpa using harms.append harm
  refine .bind (.withRecords harms) fun arms more rest _ harms => ?_
  refine .bind_expect rfl fun right rest _ _ => ?_
  have hselect : EveryBlock property
      [(Expr.select scrutinee arms (start.span.hull right.span)).outline]
      (start :: (taken ++ left :: (more ++ [right]))) := by
    rw [Expr.outline]
    exact .node
      (by simpa using (hscrutinee.append ((harms.skip [left]).trail [right])).skip [start]) rfl
  cases arms.isEmpty with
  | true => exact .bind_warn (.pure (by simpa using hselect))
  | false => exact .pure (by simpa using hselect)

/-! ## Operands -/

theorem parenthesized_tells (h : RulesTell final property rules) :
    Tells final property Expr.outline (parenthesized rules) := by
  intro records input
  refine .bind_expect rfl fun left rest _ _ => ?_
  refine .bind_nextIs (fun hnext => ?_) fun _ => ?_
  · refine .bind_advance hnext rfl fun right rest _ _ => .pure ?_
    rw [Expr.outline]
    exact .node .nil rfl
  · refine .bind (.withRecords (h.expr 0 true rest)) fun inner taken rest _ hinner => ?_
    refine .bind_expect rfl fun right rest _ _ => .pure ?_
    rw [Expr.outline]
    exact .node (by simpa using (hinner.skip [left]).trail [right]) rfl

theorem pathExpr_tells (h : RulesTell final property rules) :
    Tells final property Expr.outline (pathExpr rules) := by
  intro records input
  refine .bind (path_covered records input) fun name taken rest _ _ => ?_
  have hname : EveryBlock property [name.outline] taken := .single name.declarative_outline
  refine .bind recordNext_reads ?_
  rintro found _ _ _ ⟨rfl, rfl, -⟩
  cases found with
  | true =>
      refine .bind (fields_tell (h.expr 0)) fun ⟨fields, span⟩ more rest _ hfields => .pure ?_
      have hinner : EveryBlock property [.node .fields span (Expr.outlineFields fields)] more :=
        .node hfields rfl
      rw [Expr.outline]
      exact .node (by simpa using hname.append hinner) rfl
  | false =>
      refine .pure ?_
      rw [Expr.outline]
      exact .node (by simpa using hname) rfl

theorem primary_tells (h : RulesTell final property rules) :
    Tells final property Expr.outline (primary rules) := by
  refine fun records input => .bind_peek fun token hshows => ?_
  split
  next value hvalue =>
    obtain ⟨-, hname, hend⟩ := slots_of_literal? hvalue
    obtain ⟨rest, rfl⟩ := hshows.cons hend
    refine .bind (.advance hname) fun mark _ _ _ _ => .pure ?_
    rw [Expr.outline]
    exact .node .nil rfl
  next =>
    split
    next => exact conditional_tells h records input
    next => exact whileLoop_tells h records input
    next => exact select_tells h records input
    next => exact parenthesized_tells h records input
    next => exact pathExpr_tells h records input
    next =>
      refine .bind recordNext_reads ?_
      rintro found _ _ _ ⟨rfl, rfl, -⟩
      cases found with
      | true =>
          refine .bind (fields_tell (h.expr 0)) ?_
          rintro ⟨fields, span⟩ taken rest _ hfields
          refine .pure ?_
          rw [Expr.outline]
          exact .node (.node (by simpa using hfields) rfl) rfl
      | false => exact .bind_want .refuse

theorem earlyExit_tells (h : RulesTell final property rules) {exit : ExitKind}
    (hnext : Next exit.keyword input) :
    Reads final records input (earlyExit rules exit) fun expr taken _ =>
      EveryBlock property [expr.outline] taken := by
  refine .bind_advance hnext rfl fun keyword rest _ _ => ?_
  refine .bind exprNext_reads ?_
  rintro found _ _ _ ⟨rfl, rfl, -⟩
  cases found with
  | true =>
      refine .bind (h.expr 0 records _) fun value taken rest _ hvalue => .pure ?_
      rw [Expr.outline, Expr.outlineOption]
      exact .node (by simpa using hvalue.skip [keyword]) rfl
  | false =>
      refine .pure ?_
      rw [Expr.outline, Expr.outlineOption]
      exact .node .nil rfl

theorem operand_tells (h : RulesTell final property rules) :
    Tells final property Expr.outline (operand rules) := by
  refine fun records input => .bind_peek fun token hshows => ?_
  split
  next _ _ op hop =>
    have hkind := UnaryOp.ofKind?_eq_some_iff.mp hop
    refine .bind_advance ⟨token, hshows, congrArg Kind.variant hkind⟩ op.isFixed_kind
      fun mark rest _ _ => ?_
    refine .bind (h.expr _ records rest) fun inner taken rest _ hinner => .pure ?_
    rw [Expr.outline]
    exact .node (by simpa using hinner.skip [mark]) rfl
  next exit _ hexit =>
    have hkind := ExitKind.ofKind?_eq_some_iff.mp hexit
    exact earlyExit_tells h ⟨token, hshows, congrArg Kind.variant hkind⟩
  next =>
    exact .bind (primary_tells h records input) fun _ _ _ _ hfirst => postfixes_tell h hfirst

theorem operation_tells (h : RulesTell final property rules) (least : Nat) :
    Tells final property Expr.outline (operation rules least) :=
  fun records input => .nested (.bind (operand_tells h records input)
    fun _ _ _ _ hfirst => operators_tell h hfirst)

/-! ## Statements and blocks -/

theorem binding_tells (h : RulesTell final property rules) :
    Tells final property Statement.outline (binding rules) := by
  intro records input
  refine .bind_expect rfl fun start rest _ _ => ?_
  refine .bind (ident_covered records rest) fun name first rest _ _ => ?_
  refine .bind (typeAfter_covered .colon) fun type second rest _ _ => ?_
  refine .bind_expect rfl fun assign rest _ _ => ?_
  refine .bind (h.expr 0 records rest) fun value third rest _ hvalue => ?_
  refine .bind_expect rfl fun stop rest _ _ => .pure ?_
  have hname : EveryBlock property [name.outline] (start :: first) :=
    .single name.declarative_outline
  have htype : EveryBlock property (type.map TypeExpr.outline).toList (second ++ [assign]) :=
    .declarative (TypeExpr.declarative_outlineOption type)
  rw [Statement.outline]
  exact .node (by simpa using hname.append (htype.append (hvalue.trail [stop]))) rfl

theorem importStatement_tells : Tells final property Statement.outline importStatement := by
  intro records input
  refine .bind importDeclaration_covered ?_
  rintro ⟨path, span⟩ taken rest _ -
  refine .pure ?_
  rw [Statement.outline]
  exact .node (.single path.declarative_outline) rfl

theorem control?_tells (h : RulesTell final property rules) {kind : Kind}
    {production : Parse (Expr Span Symbol)} (hcontrol : control? rules kind = some production) :
    Tells final property Expr.outline production := by
  unfold control? at hcontrol
  split at hcontrol <;> cases hcontrol
  · exact conditional_tells h
  · exact whileLoop_tells h
  · exact select_tells h

theorem leadingExpr_tells (h : RulesTell final property rules) :
    Tells final property Expr.outline (leadingExpr rules) := by
  refine fun records input => .bind_peek fun token _ => ?_
  split
  next production hproduction =>
    refine .bind (control?_tells h hproduction records input) fun control taken rest _ hcontrol => ?_
    refine .bind_peek fun token _ => ?_
    split
    · refine .bind (postfixes_tell h hcontrol) fun first more rest _ hfirst => ?_
      refine (operators_tell h hfirst).mono fun expr last rest _ hexpr => ?_
      simpa using hexpr
    · exact .pure (by simpa using hcontrol)
  next => exact h.expr 0 records input

theorem statementRound_tells (h : RulesTell final property rules)
    {statements : List (Statement Span Symbol)} {taken : List Token}
    (hstatements : EveryBlock property (statements.map Statement.outline) taken) :
    Reads final records input (statementRound rules statements)
      (Reads.Keeps
        (fun statements taken _ => EveryBlock property (statements.map Statement.outline) taken)
        (fun contents taken _ => EveryBlock property (Contents.outline contents) taken) taken) := by
  -- Whatever sort of statement comes next, it is put behind those before.
  have hmore : ∀ {statement : Statement Span Symbol} {more},
      EveryBlock property [statement.outline] more →
        EveryBlock property ((statements ++ [statement]).map Statement.outline) (taken ++ more) := by
    intro statement more hstatement
    simpa using hstatements.append hstatement
  refine .bind_accepts (fun _ => .pure ?_) fun _ => ?_
  · simpa [Contents.outline, Expr.outlineOption] using hstatements
  refine .bind_nextIs (fun _ => ?_) fun _ => ?_
  · refine .bind (binding_tells h records input) fun statement more rest _ hstatement => ?_
    exact .pure (by simpa using hmore hstatement)
  refine .bind_nextIs (fun _ => ?_) fun _ => ?_
  · have himport : Tells final property Statement.outline importStatement := importStatement_tells
    refine .bind (himport records input) fun statement more rest _ hstatement => ?_
    exact .pure (by simpa using hmore hstatement)
  refine .bind (leadingExpr_tells h records input) fun value more rest _ hvalue => ?_
  refine .bind_accepts (fun hnext => ?_) fun _ => ?_
  · refine .bind_advance hnext rfl fun stop rest _ _ => .pure (hmore ?_)
    rw [Statement.outline]
    exact .node (by simpa using hvalue.trail [stop]) rfl
  refine .bind_accepts (fun _ => .pure ?_) fun _ => ?_
  · simpa [Contents.outline, Expr.outlineOption] using hstatements.append hvalue
  cases value.isControl with
  | true =>
      have hcontrol : EveryBlock property [(Statement.control value).outline] more := by
        rw [Statement.outline]
        exact .node hvalue rfl
      exact .pure (by simpa using hmore hcontrol)
  | false => exact .refuse

/-- The blocks below one that is read. -/
theorem braces_tell (h : RulesTell final property rules) :
    Reads final records input (braces rules) fun block taken _ =>
      EveryBlock property block.outline.children taken := by
  refine .nested (.bind_expect rfl fun left rest _ _ => ?_)
  have hcontents : Reads final true rest (repeated (statementRound rules) []) fun contents more _ =>
      EveryBlock property (Contents.outline contents) more :=
    .repeated (fun statements taken _ => EveryBlock property (statements.map Statement.outline) taken)
      .nil fun statements taken rest => statementRound_tells h
  refine .bind (.withRecords hcontents) ?_
  rintro ⟨statements, tail⟩ taken rest _ hcontents
  refine .bind_expect rfl fun right rest _ _ => .pure ?_
  rw [Block.outline, Statement.outlineList_eq_map]
  simpa [Contents.outline] using (hcontents.trail [right]).skip [left]

/-- What holds of every block that is read holds of all blocks below it too. -/
theorem rulesWithin_tell
    (hbraces : ∀ levels records input, Reads final records input (braces (rulesWithin levels))
      fun block taken _ => property block taken) (levels : Nat) :
    RulesTell final property (rulesWithin levels) := by
  induction levels with
  | zero => exact ⟨fun _ _ _ => .refuse, fun _ _ => .refuse, fun _ _ => .refuse⟩
  | succ levels ih =>
      rw [rulesWithin_succ]
      refine ⟨operation_tells ih, fun records input => ?_, conditional_tells ih⟩
      refine ((hbraces levels records input).and (braces_tell ih)).mono ?_
      exact fun block taken rest _ ⟨hproperty, hblocks⟩ => .block hproperty hblocks

/-! ## Items and scripts -/

section Items

variable (hbraces : ∀ levels records input, Reads final records input (braces (rulesWithin levels))
  fun block taken _ => property block taken)

include hbraces

theorem block_tells : Tells final property Block.outline block :=
  fun records input => .bounded fun levels => (rulesWithin_tell hbraces levels).block records input

theorem item_tells : Tells final property Item.outline item := by
  have hparameters (parameters : List (Parameter Span Symbol)) {tokens : List Token} :
      EveryBlock property (parameters.map Parameter.outline) tokens :=
    .declarative (List.forall_mem_map.mpr fun parameter _ => parameter.declarative_outline)
  have hname (name : Ident Span Symbol) {tokens : List Token} :
      EveryBlock property [name.outline] tokens := .single name.declarative_outline
  have hfilter {kind : FilterKind} {records : Bool} {input : List Scan}
      (hnext : Next kind.keyword input) :
      Reads final records input (filterItem kind) fun item taken _ =>
        EveryBlock property [item.outline] taken := by
    refine .bind_advance hnext rfl fun start rest _ _ => ?_
    refine .bind (ident_covered records rest) fun name first rest _ _ => ?_
    refine .bind parameters_covered fun parameters second rest _ _ => ?_
    refine .bind (block_tells hbraces records rest) fun body third rest _ hbody => .pure ?_
    exact .node (by
      simpa using ((hname name).append ((hparameters parameters).append hbody)).skip [start]) rfl
  refine fun records input => .bind_peek fun token hshows => ?_
  split
  next =>
    refine .bind importDeclaration_covered ?_
    rintro ⟨path, span⟩ taken rest _ -
    exact .pure (.node (.single path.declarative_outline) rfl)
  next hkind => exact hfilter ⟨token, hshows, congrArg Kind.variant hkind⟩
  next hkind => exact hfilter ⟨token, hshows, congrArg Kind.variant hkind⟩
  next =>
    refine .bind_expect rfl fun start rest _ _ => ?_
    refine .bind (ident_covered records rest) fun name first rest _ _ => ?_
    refine .bind parameters_covered fun parameters second rest _ _ => ?_
    refine .bind (typeAfter_covered .arrow) fun returns third rest _ _ => ?_
    refine .bind (block_tells hbraces records rest) fun body fourth rest _ hbody => .pure ?_
    have hreturns : EveryBlock property (returns.map TypeExpr.outline).toList third :=
      .declarative (TypeExpr.declarative_outlineOption returns)
    exact .node (by simpa using ((hname name).append
      ((hparameters parameters).append (hreturns.append hbody))).skip [start]) rfl
  next =>
    refine .bind_expect rfl fun start rest _ _ => ?_
    refine .bind (ident_covered records rest) fun name first rest _ _ => ?_
    refine .bind (record_covered .typeFields .typeField TypeExpr.note_outline type_covered
      records rest) ?_
    rintro ⟨fields, span⟩ second rest _ -
    refine .pure (.node (.declarative (List.forall_mem_cons.mpr
      ⟨name.declarative_outline, List.forall_mem_singleton.mpr ?_⟩)) rfl)
    exact declarative_node rfl (TypeExpr.declarative_outlineFields fields)
  next =>
    refine .bind_expect rfl fun start rest _ _ => ?_
    refine .bind (ident_covered records rest) fun name first rest _ _ => ?_
    refine .bind (block_tells hbraces records rest) fun body second rest _ hbody => .pure ?_
    exact .node (by simpa using ((hname name).append hbody).skip [start]) rfl
  next => exact .bind_want .refuse

theorem script_tells :
    Reads final records input script fun script taken rest =>
      EveryBlock property [script.outline] taken ∧ Next .endOfFile rest := by
  refine .bind_peek fun first _ => ?_
  have hitems : Reads final records input (repeated itemRound []) fun items taken rest =>
      EveryBlock property (items.map Item.outline) taken ∧ Next .endOfFile rest := by
    refine .repeated (fun items taken _ => EveryBlock property (items.map Item.outline) taken)
      .nil fun items taken rest hitems => ?_
    refine .bind_nextIs (fun hend => .pure ?_) fun _ => ?_
    · simpa using ⟨hitems, hend⟩
    · refine .bind (item_tells hbraces records rest) fun item more rest _ hitem => .pure ?_
      simpa using hitems.append hitem
  refine .bind hitems fun items taken rest _ ⟨hitems, hend⟩ => .bind_peek fun stop _ => .pure ?_
  rw [List.append_nil]
  exact ⟨.node hitems rfl, hend⟩

theorem loneExpr_tells :
    Reads final records input loneExpr fun expr taken rest =>
      EveryBlock property [expr.outline] taken ∧ Next .endOfFile rest := by
  have hexpr : Tells final property Expr.outline expr := fun records input =>
    .bounded fun levels => (rulesWithin_tell hbraces levels).expr 0 records input
  refine .bind (hexpr records input) fun value taken rest _ hvalue => ?_
  refine .bind_accepts (fun hend => .pure ?_) fun _ => .refuse
  simpa using ⟨hvalue, hend⟩

end Items

end Grammar

/-- What holds of every block that is read, given the tokens taken for it, holds of
every block of an accepted source. -/
theorem everyBlock_of_runOn (source : String)
    (hbraces : ∀ final levels records input, Parse.Reads final records input
      (Grammar.braces (Grammar.rulesWithin levels)) fun block taken _ => property block taken) :
    (∀ parsed, parse source = .ok parsed →
      ∃ tokens : List Token, (Stream.ofSource source).scans = tokens.map .ok ∧
        Outline.EveryBlock property [parsed.tree.outline] tokens) ∧
    (∀ parsed, parseExpr source = .ok parsed →
      ∃ tokens : List Token, (Stream.ofSource source).scans = tokens.map .ok ∧
        Outline.EveryBlock property [parsed.tree.outline] tokens) :=
  ⟨fun _ hrun => runOn_reads (fun final _ => Grammar.script_tells (hbraces final)) hrun,
    fun _ hrun => runOn_reads (fun final _ => Grammar.loneExpr_tells (hbraces final)) hrun⟩

end FilterScript
