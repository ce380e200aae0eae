import FilterScript.Proofs.Parallel.Expressions
import FilterScript.Proofs.Seams.Lists

/-!
# Expressions in front of a seam

The productions that others go back to are given with a bound on the common scans:
with fewer of them in front of the seam, two runs echo each other.
-/

namespace FilterScript

/-! ## Trees that are the same but for their place -/

section Spans

variable {σ τ ν μ : Type} (f : σ → τ) (g : ν → μ)

theorem Expr.span_map (expr : Expr σ ν) : (expr.map f g).span = f expr.span := by
  rcases expr with _ | ⟨⟨_, _, _⟩⟩ | _ | _ | ⟨_, _⟩ | ⟨_, ⟨_, _⟩⟩ | _ | _ | _ | _ | _ | _ | _ | _ <;>
    simp [span, Path.map]

theorem Expr.mapOption_eq_map (value : Option (Expr σ ν)) :
    Expr.mapOption f g value = value.map (Expr.map f g) := by
  cases value <;> simp

theorem Block.span_map (block : Block σ ν) : (block.map f g).span = f block.span := by
  cases block
  simp

theorem ArmBody.span_map (body : ArmBody σ ν) : (body.map f g).span = f body.span := by
  cases body <;> simp [span, Block.span_map, Expr.span_map]

theorem Alternative.span_mapOption (other : Option (Alternative σ ν)) (span : σ) :
    ((Alternative.mapOption f g other).map Alternative.span).getD (f span) =
      f ((other.map Alternative.span).getD span) := by
  rcases other with _ | _ | _ <;> simp [Alternative.span, Block.span_map, Expr.span_map]

end Spans

namespace Seam

variable {seam : Seam}

theorem Same.expr_span {first second : Expr Span Symbol} (h : seam.Same Expr.map first second) :
    second.span = first.span.shift seam.bytes :=
  h.span Expr.span_map

theorem Same.block_span {first second : Block Span Symbol} (h : seam.Same Block.map first second) :
    second.span = first.span.shift seam.bytes :=
  h.span Block.span_map

theorem Same.armBody_span {first second : ArmBody Span Symbol}
    (h : seam.Same ArmBody.map first second) : second.span = first.span.shift seam.bytes :=
  h.span ArmBody.span_map

theorem Same.pattern_span {first second : Pattern Span Symbol}
    (h : seam.Same Pattern.map first second) : second.span = first.span.shift seam.bytes :=
  (congrArg Pattern.span h).symm

/-- What comes last ends a conditional. -/
theorem Same.alternative_span {other other' : Option (Alternative Span Symbol)}
    {block block' : Block Span Symbol} (h : seam.Same Alternative.mapOption other other')
    (hblock : seam.Same Block.map block block') :
    (other'.map Alternative.span).getD block'.span =
      ((other.map Alternative.span).getD block.span).shift seam.bytes := by
  have hleft := Alternative.span_mapOption (·.shift seam.bytes) seam.leftNames.text other block.span
  have hright := Alternative.span_mapOption id seam.rightNames.text other' block'.span
  rw [← hleft, h.eq, ← hblock.block_span]
  exact hright.symm

end Seam

namespace Grammar

open Parse Parse.Echoes

variable {seam : Seam} {common : List Scan} {bound : Nat} {rules rules' : Rules}

/-- With fewer common scans than the bound says, the productions that others go
back to echo each other. A block may end at the edge. -/
structure RulesEcho (seam : Seam) (bound : Nat) (rules rules' : Rules) : Prop where
  expr : ∀ least common, common.length < bound →
    Echoes seam common false (rules.expr least) (rules'.expr least) (seam.Same Expr.map)
  block : ∀ common, common.length < bound →
    Echoes seam common true rules.block rules'.block (seam.Same Block.map)
  elseIf : ∀ common, common.length < bound →
    Echoes seam common false rules.elseIf rules'.elseIf (seam.Same Expr.map)

variable [RulesSteady rules]

/-! ## Operators and postfixes -/

theorem operatorRound_echoes (h : RulesEcho seam bound rules rules') (hbound : common.length ≤ bound)
    {least : Nat} {left left' : Expr Span Symbol} (hleft : seam.Same Expr.map left left') :
    Echoes seam common false (operatorRound rules least left) (operatorRound rules' least left')
      (Round.Related (seam.Same Expr.map) (seam.Same Expr.map)) := by
  apply bind_peek
  intro token hshown
  rw [Token.kind_shift]
  cases hop : BinaryOp.ofKind? token.kind with
  | none => exact .pure (.done hleft)
  | some op =>
      have hkind := BinaryOp.ofKind?_eq_some_iff.mp hop
      dsimp only
      split
      · exact .pure (.done hleft)
      · apply bind_advance hshown (hkind ▸ rfl) (hkind ▸ Kind.noConfusion)
        rintro rest rfl
        apply (h.expr _ rest hbound).map
        intro right right' hright
        have hspan := hleft.expr_span
        have hspan' := hright.expr_span
        apply Round.Related.more
        simp_all [Seam.Same, Span.hull_shift]

theorem operators_echoes (h : RulesEcho seam bound rules rules') (hbound : common.length ≤ bound)
    {least : Nat} {first first' : Expr Span Symbol} (hfirst : seam.Same Expr.map first first') :
    Echoes seam common false (operators rules least first) (operators rules' least first')
      (seam.Same Expr.map) :=
  .repeated _ hfirst fun _ _ _ hle hleft => operatorRound_echoes h (hle.trans hbound) hleft

/-- Arguments in parentheses, behind the opening one. -/
theorem arguments_echo (h : RulesEcho seam bound rules rules') (hbound : common.length < bound) :
    Echoes seam common false (withRecords true (commaList Punct.rparen (rules.expr 0)))
      (withRecords true (commaList Punct.rparen (rules'.expr 0)))
      (seam.Same (Seam.listOf Expr.map)) :=
  .withRecords (commaList_echoes fun rest hle => h.expr 0 rest (Nat.lt_of_le_of_lt hle hbound))

theorem postfixRound_echoes (h : RulesEcho seam bound rules rules') (hbound : common.length ≤ bound)
    {expr expr' : Expr Span Symbol} (hexpr : seam.Same Expr.map expr expr') :
    Echoes seam common false (postfixRound rules expr) (postfixRound rules' expr')
      (Round.Related (seam.Same Expr.map) (seam.Same Expr.map)) := by
  have hspan := hexpr.expr_span
  apply if_takes rfl
  · intro dot rest _
    apply ident_echoes.map
    intro name name' hname
    have hspan' := hname.ident_span
    apply Round.Related.more
    simp_all [Seam.Same, Span.hull_shift]
  · apply if_takes rfl
    · rintro left rest rfl
      apply (arguments_echo h hbound).bind
      intro later arguments arguments' _ harguments
      apply (Echoes.expect rfl).map
      rintro right _ rfl
      apply Round.Related.more
      simp_all [Seam.Same, Expr.mapList_eq_map, Span.hull_shift]
    · apply if_nextIs _ (.pure (.done hexpr))
      intro mark hshown hvariant
      apply advance_of_variant rfl hshown hvariant
      intro rest _
      apply Echoes.pure
      apply Round.Related.more
      simp_all [Seam.Same, Span.hull_shift]

theorem postfixes_echoes (h : RulesEcho seam bound rules rules') (hbound : common.length ≤ bound)
    {first first' : Expr Span Symbol} (hfirst : seam.Same Expr.map first first') :
    Echoes seam common false (postfixes rules first) (postfixes rules' first')
      (seam.Same Expr.map) :=
  .repeated _ hfirst fun _ _ _ hle hexpr => postfixRound_echoes h (hle.trans hbound) hexpr

/-! ## Conditionals, loops and matches -/

theorem alternative_echoes (h : RulesEcho seam bound rules rules')
    (hbound : common.length ≤ bound) :
    Echoes seam common false (alternative rules) (alternative rules')
      (seam.Same Alternative.mapOption) := by
  apply if_takes rfl
  · rintro mark rest rfl
    apply if_nextIs
    · intro _ _ _
      apply (h.elseIf rest hbound).map
      intro _ _ _
      simp_all [Seam.Same]
    · apply (h.block rest hbound).inside.map
      intro _ _ _
      simp_all [Seam.Same]
  · exact .pure (by simp [Seam.Same])

theorem conditional_echoes (h : RulesEcho seam bound rules rules')
    (hbound : common.length ≤ bound) :
    Echoes seam common false (conditional rules) (conditional rules') (seam.Same Expr.map) := by
  apply bind_expect rfl
  rintro start rest rfl
  apply (Echoes.withRecords (h.expr 0 rest hbound)).bind
  intro rest' condition condition' hle hcondition
  apply (h.block rest' (Nat.lt_of_le_of_lt hle hbound)).bind
  intro later consequence consequence' hle' hconsequence
  have hlater : later.length ≤ bound := hle'.trans (hle.trans (Nat.le_of_lt hbound))
  apply (alternative_echoes h hlater).map
  intro other other' hother
  have hspan := hother.alternative_span hconsequence
  simp_all [Seam.Same, Span.shift]

theorem whileLoop_echoes (h : RulesEcho seam bound rules rules')
    (hbound : common.length ≤ bound) :
    Echoes seam common false (whileLoop rules) (whileLoop rules') (seam.Same Expr.map) := by
  apply bind_expect rfl
  rintro start rest rfl
  apply (Echoes.withRecords (h.expr 0 rest hbound)).bind
  intro rest' condition condition' hle hcondition
  apply (h.block rest' (Nat.lt_of_le_of_lt hle hbound)).inside.map
  intro body body' hbody
  have hspan := hbody.block_span
  simp_all [Seam.Same, Span.shift]

theorem pattern_echoes :
    Echoes seam common false pattern pattern (seam.Same Pattern.map) := by
  apply bind_peek
  intro token hshown
  rw [Token.kind_shift]
  split
  next =>
    apply path_echoes.bind
    intro rest variant variant' _ hvariant
    have hspan := hvariant.path_span
    apply if_nextIs
    · intro left hshown hleft
      apply advance_of_variant rfl hshown hleft
      intro later _
      have hnames : Echoes seam later false (commaList Punct.rparen ident)
          (commaList Punct.rparen ident) (seam.Same (Seam.listOf Ident.map)) :=
        commaList_echoes fun _ _ => ident_echoes
      apply hnames.bind
      intro last names names' _ hnames
      apply (Echoes.expect rfl).map
      rintro right _ rfl
      simp_all [Seam.Same, Pattern.map, Span.hull_shift]
    · apply Echoes.pure
      simp_all [Seam.Same, Pattern.map]
  next => exact bind_want .refuse

theorem guard_echoes (h : RulesEcho seam bound rules rules') (hbound : common.length ≤ bound) :
    Echoes seam common false (guard rules) (guard rules') (seam.Same (Seam.optionOf Expr.map)) :=
  optional_echoes rfl fun rest hrest => h.expr 0 rest (Nat.lt_of_lt_of_le hrest hbound)

theorem blockBody_echoes (h : RulesEcho seam bound rules rules') (hbound : common.length < bound) :
    Echoes seam common false (blockBody rules) (blockBody rules') (seam.Same ArmBody.map) := by
  apply (h.block common hbound).bind
  intro rest body body' _ hbody
  have hlast : seam.Same ArmBody.map (.block body) (.block body') := by
    simp_all [Seam.Same]
  exact (Echoes.takes rfl).map fun _ _ _ => hlast

theorem exprBody_echoes (h : RulesEcho seam bound rules rules') (hbound : common.length < bound) :
    Echoes seam common false (exprBody rules) (exprBody rules') (seam.Same ArmBody.map) := by
  apply (h.expr 0 common hbound).bind
  intro rest value value' _ hvalue
  have hlast : seam.Same ArmBody.map (.expr value) (.expr value') := by
    simp_all [Seam.Same]
  apply if_takes rfl
  · exact fun _ _ _ => .pure hlast
  · apply if_accepts
    · exact fun _ _ _ => .pure hlast
    · exact .refuse

/-- Behind a brace and a name, one more token is looked at. -/
theorem armBody_echoes (h : RulesEcho seam bound rules rules') (hbound : common.length < bound) :
    Echoes seam common false (armBody rules) (armBody rules') (seam.Same ArmBody.map) := by
  change Echoes seam common false (do if ← blockNext then blockBody rules else exprBody rules)
    (do if ← blockNext then blockBody rules' else exprBody rules') _
  have hblock := blockBody_echoes h hbound
  have hexpr := exprBody_echoes h hbound
  rw [if_blockNext_eq, if_blockNext_eq]
  apply if_nextIs _ hexpr
  intro left hleft hvariant
  have hkind : left.kind = Punct.lbrace := Kind.eq_of_variant_eq rfl hvariant
  apply bind_peekAt fun hclear => hclear.second hleft (hkind ▸ rfl)
  intro name hname
  rw [Token.kind_shift]
  split
  next hisName =>
    apply bind_peekAt fun hclear => hclear.third hleft hkind hname hisName
    intro colon _
    rw [Token.kind_shift]
    split
    next => exact hexpr
    next => exact hblock
  next => exact hblock

theorem arm_echoes (h : RulesEcho seam bound rules rules') (hbound : common.length < bound) :
    Echoes seam common false (arm rules) (arm rules') (seam.Same Arm.map) := by
  apply pattern_echoes.bind
  intro rest variant variant' hle hvariant
  have hspan := hvariant.pattern_span
  apply (guard_echoes h (Nat.le_of_lt (Nat.lt_of_le_of_lt hle hbound))).bind
  intro rest' condition condition' hle' hcondition
  apply bind_expect rfl
  rintro arrow later rfl
  have hlater : later.length < bound :=
    Nat.lt_of_succ_lt (Nat.lt_of_le_of_lt (hle'.trans hle) hbound)
  apply (armBody_echoes h hlater).bind
  intro last body body' _ hbody
  have hspan' := hbody.armBody_span
  -- Whatever stands behind the arm, both runs see it.
  have harm (last : Bool) : seam.Same Arm.map
      ⟨variant, condition, body, last, variant.span.hull body.span⟩
      ⟨variant', condition', body', last, variant'.span.hull body'.span⟩ := by
    simp_all [Seam.Same, Expr.mapOption_eq_map, Span.hull_shift]
  apply Echoes.nextIs.map
  rintro last _ rfl
  exact harm last

theorem armRound_echoes (h : RulesEcho seam bound rules rules') (hbound : common.length < bound)
    {arms arms' : List (Arm Span Symbol)} (harms : seam.Same (Seam.listOf Arm.map) arms arms') :
    Echoes seam common false (armRound rules arms) (armRound rules' arms')
      (Round.Related (seam.Same (Seam.listOf Arm.map)) (seam.Same (Seam.listOf Arm.map))) := by
  apply if_accepts
  · exact fun _ _ _ => .pure (.done harms)
  · exact (arm_echoes h hbound).map fun _ _ harm => .more (harms.snoc harm)

theorem select_echoes (h : RulesEcho seam bound rules rules') (hbound : common.length ≤ bound) :
    Echoes seam common false (select rules) (select rules') (seam.Same Expr.map) := by
  apply bind_expect rfl
  rintro start rest rfl
  apply (Echoes.withRecords (h.expr 0 rest hbound)).bind
  intro rest' scrutinee scrutinee' hle hscrutinee
  apply bind_expect rfl
  rintro left later rfl
  have hlater : later.length < bound := Nat.lt_of_succ_lt (Nat.lt_of_le_of_lt hle hbound)
  have harms : Echoes seam later false (withRecords true (repeated (armRound rules) []))
      (withRecords true (repeated (armRound rules') [])) (seam.Same (Seam.listOf Arm.map)) := by
    apply Echoes.withRecords
    apply Echoes.repeated (seam.Same (Seam.listOf Arm.map)) .nil
    exact fun last _ _ hlast harms => armRound_echoes h (Nat.lt_of_le_of_lt hlast hlater) harms
  apply harms.bind
  intro last arms arms' _ harms
  apply bind_expect rfl
  intro right _ _
  have hspan : (start.shift seam.bytes).span.hull (right.shift seam.bytes).span =
      (start.span.hull right.span).shift seam.bytes := Span.hull_shift _ _ _
  have hselect : seam.Same Expr.map (.select scrutinee arms (start.span.hull right.span))
      (.select scrutinee' arms' ((start.shift seam.bytes).span.hull
        (right.shift seam.bytes).span)) := by
    simp_all [Seam.Same, Arm.mapList_eq_map]
  have hempty : arms'.isEmpty = arms.isEmpty := by
    simpa using (congrArg List.isEmpty harms).symm
  -- Both runs warn of a match without arms, or none does.
  dsimp only
  rw [hspan] at hselect ⊢
  rw [hempty]
  cases arms.isEmpty with
  | true => exact bind_warn (.pure hselect)
  | false => exact .pure hselect

theorem parenthesized_echoes (h : RulesEcho seam bound rules rules')
    (hbound : common.length ≤ bound) :
    Echoes seam common false (parenthesized rules) (parenthesized rules') (seam.Same Expr.map) := by
  apply bind_expect rfl
  rintro left rest rfl
  apply if_nextIs
  · intro right hshown hvariant
    apply advance_of_variant rfl hshown hvariant
    intro later _
    apply Echoes.pure
    simp [Seam.Same, Span.hull_shift]
  · apply (Echoes.withRecords (h.expr 0 rest hbound)).bind
    intro later inner inner' _ hinner
    apply (Echoes.expect rfl).map
    rintro right _ rfl
    simp_all [Seam.Same, Span.hull_shift]

/-! ## Operands -/

/-- Both runs allow records, or neither does. -/
theorem if_recordNext_echoes {β : Type} {last : β → β → Prop} {yes yes' no no' : Parse β}
    (hyes : Echoes seam common false yes yes' last) (hno : Echoes seam common false no no' last) :
    Echoes seam common false (do if ← recordNext then yes else no)
      (do if ← recordNext then yes' else no') last := by
  rw [if_recordNext_eq, if_recordNext_eq]
  apply bind_get
  intro state other _ hcontext
  rw [hcontext]
  cases state.context.records with
  | true => exact if_nextIs (fun _ _ _ => hyes) hno
  | false => exact hno

theorem fields_echo (h : RulesEcho seam bound rules rules') (hbound : common.length ≤ bound) :
    Echoes seam common false (record Expr.span (rules.expr 0)) (record Expr.span (rules'.expr 0))
      (seam.Same fun f g => Record.mapValues f g (Expr.map f g)) :=
  (record_echoes (fun _ _ => Seam.Same.expr_span)
    fun rest hrest => h.expr 0 rest (Nat.lt_of_lt_of_le hrest hbound)).inside

theorem pathExpr_echoes (h : RulesEcho seam bound rules rules') (hbound : common.length ≤ bound) :
    Echoes seam common false (pathExpr rules) (pathExpr rules') (seam.Same Expr.map) := by
  apply path_echoes.bind
  intro rest name name' hle hname
  have hspan := hname.path_span
  apply if_recordNext_echoes
  · apply (fields_echo h (hle.trans hbound)).map
    rintro ⟨fields, span⟩ ⟨fields', span'⟩ hfields
    obtain rfl := hfields.record_span
    simp_all [Seam.Same, Record.mapValues, Expr.mapFields_eq_map, Span.hull_shift]
  · apply Echoes.pure
    simp_all [Seam.Same]

theorem primary_echoes (h : RulesEcho seam bound rules rules') (hbound : common.length ≤ bound) :
    Echoes seam common false (primary rules) (primary rules') (seam.Same Expr.map) := by
  have hbare : Echoes seam common false
      (do
        if ← recordNext then
          return .record (← record Expr.span (rules.expr 0))
        else
          want .expression
          refuse)
      (do
        if ← recordNext then
          return .record (← record Expr.span (rules'.expr 0))
        else
          want .expression
          refuse) (seam.Same Expr.map) := by
    apply if_recordNext_echoes
    · apply (fields_echo h hbound).map
      rintro ⟨fields, span⟩ ⟨fields', span'⟩ hfields
      simp_all [Seam.Same, Record.mapValues, Expr.mapFields_eq_map]
    · exact bind_want .refuse
  apply bind_peek
  rintro ⟨kind, span⟩ hshown
  rw [Token.kind_shift]
  cases hliteral : literal? kind with
  | some value =>
      apply bind_advance hshown
      · rcases kind with _ | _ | _ | _ | _ | _ | _ <;> first | rfl | cases hliteral
      · rintro rfl
        cases hliteral
      · intro rest _
        apply Echoes.pure
        simp [Seam.Same]
  | none =>
      dsimp only
      split
      · exact conditional_echoes h hbound
      · exact whileLoop_echoes h hbound
      · exact select_echoes h hbound
      · exact parenthesized_echoes h hbound
      · exact pathExpr_echoes h hbound
      · exact hbare

theorem earlyExit_echoes (h : RulesEcho seam bound rules rules') (hbound : common.length ≤ bound)
    {kind : ExitKind} {token : Token}
    (hshown : (seam.left.precededBy common).lookahead 0 = .ok token)
    (hkind : ExitKind.ofKind? token.kind = some kind) :
    Echoes seam common false (earlyExit rules kind) (earlyExit rules' kind)
      (seam.Same Expr.map) := by
  apply bind_advance hshown
  · cases hname : token.kind <;> first | rfl | (rw [hname] at hkind; cases hkind)
  · intro hend
    rw [hend] at hkind
    cases hkind
  rintro rest rfl
  rw [if_exprNext_eq, if_exprNext_eq]
  apply bind_peek
  intro next _
  apply bind_get
  intro state other _ hcontext
  rw [hcontext, Token.kind_shift]
  split
  next =>
    apply (h.expr 0 rest hbound).map
    intro value value' hvalue
    have hspan := hvalue.expr_span
    simp_all [Seam.Same, Span.hull_shift]
  next =>
    apply Echoes.pure
    simp [Seam.Same]

theorem operand_echoes (h : RulesEcho seam bound rules rules') (hbound : common.length ≤ bound) :
    Echoes seam common false (operand rules) (operand rules') (seam.Same Expr.map) := by
  apply bind_peek
  intro token hshown
  rw [Token.kind_shift]
  cases hop : UnaryOp.ofKind? token.kind with
  | some op =>
      apply bind_advance hshown
      · cases hname : token.kind <;> first | rfl | (rw [hname] at hop; cases hop)
      · intro hend
        rw [hend] at hop
        cases hop
      rintro rest rfl
      apply (h.expr _ rest hbound).map
      intro inner inner' hinner
      have hspan := hinner.expr_span
      simp_all [Seam.Same, Span.hull_shift]
  | none =>
      cases hkind : ExitKind.ofKind? token.kind with
      | some kind => exact earlyExit_echoes h hbound hshown hkind
      | none =>
          apply (primary_echoes h hbound).bind
          intro rest first first' hle hfirst
          exact postfixes_echoes h (hle.trans hbound) hfirst

theorem operation_echoes (h : RulesEcho seam bound rules rules') (hbound : common.length ≤ bound)
    (least : Nat) :
    Echoes seam common false (operation rules least) (operation rules' least)
      (seam.Same Expr.map) := by
  apply Echoes.nested
  apply (operand_echoes h hbound).bind
  intro rest first first' hle hfirst
  exact operators_echoes h (hle.trans hbound) hfirst

end Grammar

end FilterScript
