import FilterScript.Proofs.Parallel.Expressions

/-!
# Two runs through blocks

A block is the last of the productions that contain each other. With it two runs
of all of them stay together, as deep as the tokens that they have in common can
lead.
-/

namespace FilterScript

/-- Whether the node of an expression is a conditional, a loop or a match. -/
def Outline.isControl {σ ν : Type} : Outline σ ν → Bool
  | .node .conditional _ _ | .node .loop _ _ | .node .select _ _ => true
  | _ => false

theorem Expr.isControl_shape (expr : Expr Span Symbol) :
    expr.outline.shape.isControl = expr.isControl := by
  cases expr with
  | typedRecord path fields span =>
      cases fields
      simp [outline, Tag.shape, Outline.isControl, isControl]
  | _ => simp [outline, Tag.shape, Outline.isControl, isControl]

namespace Grammar

open Parse Parallel

variable {fork : Fork} {records : Bool} {common : List Twin} {bound : Nat}

/-! ## Statements -/

theorem annotation_parallel : Parallel fork records common (fun _ => annotation) Never
    (Same (Option.map (Outline.shape ∘ TypeExpr.outline))) :=
  optional_parallel rfl type_mirrors (Nat.le_refl _)

theorem shape_toList (type : Option (TypeExpr Span Symbol)) :
    (type.map TypeExpr.outline).toList.map Outline.shape =
      (type.map (Outline.shape ∘ TypeExpr.outline)).toList := by
  cases type <;> rfl

theorem importStatement_parallel : Parallel fork records common (fun _ => importStatement) Never
    (Alike (Outline.shape ∘ Statement.outline) common) := by
  apply importDeclaration_parallel.bind_never
  intro results rest _ hresults
  refine .pure ⟨hresults.shorter, ?_⟩
  have := hresults.view
  simp_all [Statement.outline, Tag.shape]

/-- The shape of an expression tells whether it is a conditional, loop or match. -/
theorem isControl_eq {expr other : Expr Span Symbol}
    (h : expr.outline.shape = other.outline.shape) : expr.isControl = other.isControl := by
  rw [← Expr.isControl_shape, ← Expr.isControl_shape, h]

section

variable {rules : Side → Rules} [∀ side, RulesSteady (rules side)]

theorem binding_parallel (h : RulesMirror fork bound rules) (hbound : common.length ≤ bound) :
    Parallel fork records common (fun side => binding (rules side)) Never
      (Alike (Outline.shape ∘ Statement.outline) common) := by
  apply bind_expect rfl
  rintro start rest rfl _
  apply ident_parallel.bind_never
  intro names rest' _ hnames
  apply annotation_parallel.bind_never
  intro types rest'' hrest'' htypes
  apply bind_expect rfl
  rintro assign tail rfl _
  have htail : tail.length < rest.length :=
    (Nat.lt_of_succ_le hrest''.length_le).trans hnames.shorter
  apply (h.expr 0 records tail (htail.trans hbound)).bind_never
  intro values left _ hvalues
  apply bind_expect rfl
  rintro stop last rfl _
  refine .pure ⟨?_, ?_⟩
  · exact Nat.lt_succ_of_lt ((Nat.lt_of_succ_lt hvalues.shorter).trans htail)
  · have := hvalues.view
    simp_all [Same, Statement.outline, shape_toList]

/-- Two runs behind a conditional, loop or match. -/
theorem continued_parallel (h : RulesMirror fork bound rules) (hbound : common.length < bound)
    {controls : Side → Expr Span Symbol}
    (hcontrols : Same (Outline.shape ∘ Expr.outline) controls common) :
    Parallel fork records common (fun side => do
      if continuesExpr (← peek).kind then
        let first ← postfixes (rules side) (controls side)
        operators (rules side) 0 first
      else
        return controls side) Never (Same (Outline.shape ∘ Expr.outline)) := by
  apply if_peekAt continuesExpr rfl Kind.continuesExpr_shape
  · intro _ _ _
    apply (postfixes_parallel h hbound hcontrols).bind_never
    intro firsts rest hrest hfirsts
    exact operators_parallel h (Nat.lt_of_le_of_lt hrest.length_le hbound) hfirsts
  · exact .pure hcontrols
  · intro _ hlong side token hshown hcontinues
    obtain rfl := List.eq_nil_of_length_eq_zero (Nat.le_zero.mp hlong)
    exact continued_passes hshown hcontinues

theorem leadingExpr_parallel (h : RulesMirror fork bound rules) (hbound : common.length < bound) :
    Parallel fork records common (fun side => leadingExpr (rules side)) Never
      (Alike (Outline.shape ∘ Expr.outline) common) := by
  -- What all three sorts of control have in common.
  have hcontrol {production : Side → Parse (Expr Span Symbol)}
      [∀ side, Steady (production side)]
      (hproduction : Parallel fork records common production Never
        (Alike (Outline.shape ∘ Expr.outline) common)) :
      Parallel fork records common (fun side => do
        let control ← production side
        if continuesExpr (← peek).kind then
          let first ← postfixes (rules side) control
          operators (rules side) 0 first
        else
          return control) Never (Alike (Outline.shape ∘ Expr.outline) common) := by
    apply hproduction.bind_never
    intro controls rest _ hcontrols
    have hrest : rest.length < bound := hcontrols.shorter.trans hbound
    exact alike_of_same hcontrols.shorter (continued_parallel h hrest hcontrols.view)
  apply bind_peek Kind.isControl rfl
  · intro kind
    cases kind <;> rfl
  · rintro twin rest rfl hword
    rcases isControl_iff.mp hword with hif | hwhile | hmatch
    · simp only [twin.kind_of_shape rfl hif]
      exact hcontrol (conditional_parallel h (Nat.le_of_lt hbound))
    · simp only [twin.kind_of_shape rfl hwhile]
      exact hcontrol (whileLoop_parallel h (Nat.le_of_lt hbound))
    · simp only [twin.kind_of_shape rfl hmatch]
      exact hcontrol (select_parallel h (Nat.le_of_lt hbound))
  · intro tokens _ hword
    apply (h.expr 0 records common hbound).congr
    intro side
    have hside := hword side
    split
    next production hproduction =>
      unfold control? at hproduction
      split at hproduction <;> simp_all [Kind.isControl]
    next => rfl
  · intro _ _ side token hshown hword
    exact leadingExpr_passes hshown hword

/-- Two runs that see the same contents of a block. -/
structure SameContents (contents : Side → Contents) (common : List Twin) : Prop where
  statements : Same (List.map (Outline.shape ∘ Statement.outline))
    (fun side => (contents side).1) common
  tail : Same (Option.map (Outline.shape ∘ Expr.outline)) (fun side => (contents side).2) common

/-- An expression in a block, and what stands behind it. -/
theorem exprStatement_parallel (h : RulesMirror fork bound rules) (hbound : common.length < bound)
    {statements : Side → List (Statement Span Symbol)}
    (hstatements : Same (List.map (Outline.shape ∘ Statement.outline)) statements common) :
    Parallel fork records common (fun side => do
      let value ← leadingExpr (rules side)
      if ← accepts Punct.semicolon then
        let stop ← advance
        return .more (statements side ++ [.expr value (value.span.hull stop.span)])
      else if ← accepts Punct.rbrace then
        return .done (statements side, some value)
      else if value.isControl then
        return .more (statements side ++ [.control value])
      else
        refuse) (Round.Stops Never (StopsAt Punct.rbrace))
      (Round.Agree (Same (List.map (Outline.shape ∘ Statement.outline))) SameContents common) := by
  apply (leadingExpr_parallel h hbound).bind_never
  intro values rest _ hvalues
  have hview := hvalues.view
  apply if_accepts rfl
  · rintro stop tail rfl _
    refine bind_advance (.pure (.more (Nat.lt_of_succ_lt hvalues.shorter) ?_))
    apply hstatements.snoc
    simp_all [Statement.outline]
  · apply if_accepts rfl
    · exact fun _ _ _ _ => .pure (.done ⟨hstatements, congrArg some hview⟩)
    · have hcontrol : ∀ side, (values side).isControl = (values .left).isControl :=
        Side.eq_left (fun side => (values side).isControl) (isControl_eq hview)
      simp only [hcontrol]
      cases (values .left).isControl with
      | true =>
          refine .pure (.more hvalues.shorter ?_)
          apply hstatements.snoc
          simp_all [Statement.outline]
      | false => exact .refuse
    · intro _ _ side token hshown hkind
      exact .pure hshown hkind
  · intro _ _ side token hshown hkind
    exact .bind_any (.advance hshown (hkind ▸ Kind.noConfusion))

theorem statementRound_parallel (h : RulesMirror fork bound rules) (hbound : common.length < bound)
    {statements : Side → List (Statement Span Symbol)}
    (hstatements : Same (List.map (Outline.shape ∘ Statement.outline)) statements common) :
    Parallel fork records common (fun side => statementRound (rules side) (statements side))
      (Round.Stops Never (StopsAt Punct.rbrace))
      (Round.Agree (Same (List.map (Outline.shape ∘ Statement.outline))) SameContents common) := by
  apply if_accepts rfl
  · exact fun _ _ _ _ => .pure (.done ⟨hstatements, rfl⟩)
  · apply if_nextIs rfl
    · rintro _ _ _ _
      apply (binding_parallel h (Nat.le_of_lt hbound)).bind_never
      intro results rest _ hresults
      exact .pure (.more hresults.shorter (hstatements.snoc hresults.view))
    · intro _
      apply if_nextIs rfl
      · rintro _ _ _ _
        apply importStatement_parallel.bind_never
        intro results rest _ hresults
        exact .pure (.more hresults.shorter (hstatements.snoc hresults.view))
      · exact fun _ => exprStatement_parallel h hbound hstatements
      · intro _ _ side token hshown hkind
        exact .bind_any (.bind_any (importDeclaration_passes hshown hkind))
    · intro _ _ side token hshown hkind
      exact .bind_any (binding_passes hshown hkind)
  · intro _ _ side token hshown hkind
    exact .pure hshown hkind

theorem braces_parallel (h : RulesMirror fork bound rules) (hbound : common.length ≤ bound) :
    Parallel fork records common (fun side => braces (rules side)) Never
      (Alike (Outline.shape ∘ Block.outline) common) := by
  apply Parallel.nested
  apply bind_expect rfl
  rintro left rest rfl _
  have hcontents : Parallel fork records rest
      (fun side => withRecords true (repeated (statementRound (rules side)) []))
      (StopsAt Punct.rbrace) SameContents := by
    apply Parallel.withRecords
    apply repeated_never (Same (List.map (Outline.shape ∘ Statement.outline))) .nil
    intro statements tail htail hstatements
    exact statementRound_parallel h (Nat.lt_of_le_of_lt htail.length_le hbound) hstatements
  apply bind_closed hcontents rfl
  intro contents right last hlast hcontents
  refine .pure ⟨?_, ?_⟩
  · exact Nat.lt_succ_of_lt (Nat.lt_of_succ_le hlast.length_le)
  · have := hcontents.statements
    have := hcontents.tail
    have := isSome_eq hcontents.tail
    simp_all [Same, Block.outline, Statement.outlineList_eq_map, shape_outlineOption, Tag.shape]

/-! ## All levels -/

/-- One more level takes one more token that the runs have in common. -/
theorem unfold_mirror (h : RulesMirror fork bound rules) :
    RulesMirror fork (bound + 1) fun side => (rules side).unfold where
  expr least _ _ hbound := operation_parallel h (Nat.le_of_lt_succ hbound) least
  block _ _ hbound := braces_parallel h (Nat.le_of_lt_succ hbound)
  elseIf _ _ hbound := conditional_parallel h (Nat.le_of_lt_succ hbound)
  passes hfree side := unfold_pass (h.passes hfree side)

end

theorem rulesWithin_mirror {levels : Side → Nat} (hlevels : ∀ side, bound ≤ levels side) :
    RulesMirror fork bound fun side => rulesWithin (levels side) := by
  induction bound generalizing levels with
  | zero =>
      constructor
      · exact fun _ _ _ hbound => absurd hbound (Nat.not_lt_zero _)
      · exact fun _ _ hbound => absurd hbound (Nat.not_lt_zero _)
      · exact fun _ _ hbound => absurd hbound (Nat.not_lt_zero _)
      · exact fun _ _ => rulesWithin_pass (Nat.zero_le _)
  | succ bound ih =>
      obtain ⟨less, hless⟩ := Side.exists_less hlevels
      simp only [hless] at hlevels ⊢
      exact unfold_mirror (ih fun side => Nat.le_of_succ_le_succ (hlevels side))

theorem block_parallel : Parallel fork records common (fun _ => block) Never
    (Alike (Outline.shape ∘ Block.outline) common) :=
  Mirrors.bounded fun hlevels => (rulesWithin_mirror hlevels).block

end Grammar

end FilterScript
