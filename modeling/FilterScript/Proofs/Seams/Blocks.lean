import FilterScript.Proofs.Parallel.Blocks
import FilterScript.Proofs.Seams.Expressions

/-!
# Blocks in front of a seam

A block closes the circle of the productions that contain each other. As deep as
the common scans can lead, two runs of all of them echo each other.
-/

namespace FilterScript

/-- Which of two trees that are the same but for their place stand as statements. -/
theorem Seam.Same.isControl {seam : Seam} {first second : Expr Span Symbol}
    (h : seam.Same Expr.map first second) : second.isControl = first.isControl := by
  have := congrArg Expr.isControl h
  rw [Expr.isControl_map, Expr.isControl_map] at this
  exact this.symm

namespace Grammar

open Parse Parse.Echoes

variable {seam : Seam} {common : List Scan} {bound : Nat} {rules rules' : Rules}

/-! ## Statements -/

theorem annotation_echoes : Echoes seam common false annotation annotation
    (seam.Same (Seam.optionOf TypeExpr.map)) :=
  optional_echoes rfl fun _ _ => type_echoes

theorem importStatement_echoes : Echoes seam common false importStatement importStatement
    (seam.Same Statement.map) := by
  apply importDeclaration_echoes.inside.map
  rintro ⟨path, span⟩ ⟨path', span'⟩ ⟨hpath, rfl⟩
  simp_all [Seam.Same]

section

variable [RulesSteady rules]

theorem binding_echoes (h : RulesEcho seam bound rules rules') (hbound : common.length ≤ bound) :
    Echoes seam common false (binding rules) (binding rules') (seam.Same Statement.map) := by
  apply bind_expect rfl
  rintro start rest rfl
  apply ident_echoes.bind
  intro rest' name name' hle hname
  apply annotation_echoes.bind
  intro later type type' hle' htype
  apply bind_expect rfl
  rintro assign last rfl
  have hlast : last.length < bound :=
    Nat.lt_of_succ_lt (Nat.lt_of_le_of_lt (hle'.trans hle) hbound)
  apply (h.expr 0 last hlast).bind
  intro _ value value' _ hvalue
  apply (Echoes.expect rfl).map
  rintro stop _ rfl
  simp_all [Seam.Same, Span.hull_shift]

/-- What may follow a conditional, loop or match. -/
theorem continued_echoes (h : RulesEcho seam bound rules rules') (hbound : common.length ≤ bound)
    {control control' : Expr Span Symbol} (hcontrol : seam.Same Expr.map control control') :
    Echoes seam common false
      (do
        if continuesExpr (← peek).kind then
          let first ← postfixes rules control
          operators rules 0 first
        else
          return control)
      (do
        if continuesExpr (← peek).kind then
          let first ← postfixes rules' control'
          operators rules' 0 first
        else
          return control') (seam.Same Expr.map) := by
  apply bind_peek
  intro token _
  rw [Token.kind_shift]
  split
  next =>
    apply (postfixes_echoes h hbound hcontrol).bind
    intro rest first first' hle hfirst
    exact operators_echoes h (hle.trans hbound) hfirst
  next => exact .pure hcontrol

theorem leadingExpr_echoes (h : RulesEcho seam bound rules rules')
    (hbound : common.length < bound) :
    Echoes seam common false (leadingExpr rules) (leadingExpr rules') (seam.Same Expr.map) := by
  have hle := Nat.le_of_lt hbound
  -- What all three sorts of control have in common.
  have hcontrol {production production' : Parse (Expr Span Symbol)} [Steady production]
      (hproduction : Echoes seam common false production production' (seam.Same Expr.map)) :
      Echoes seam common false
        (do
          let control ← production
          if continuesExpr (← peek).kind then
            let first ← postfixes rules control
            operators rules 0 first
          else
            return control)
        (do
          let control ← production'
          if continuesExpr (← peek).kind then
            let first ← postfixes rules' control
            operators rules' 0 first
          else
            return control) (seam.Same Expr.map) := by
    apply hproduction.bind
    exact fun rest _ _ hrest hcontrol => continued_echoes h (hrest.trans hle) hcontrol
  apply bind_peek
  rintro ⟨kind, span⟩ _
  rw [Token.kind_shift]
  dsimp only
  cases hword : kind.isControl with
  | true =>
      rcases isControl_iff.mp hword with rfl | rfl | rfl
      · exact hcontrol (conditional_echoes h hle)
      · exact hcontrol (whileLoop_echoes h hle)
      · exact hcontrol (select_echoes h hle)
  | false =>
      have hnone (rules : Rules) : control? rules kind = none := by
        unfold control?
        split <;> first | rfl | cases hword
      simp only [hnone]
      exact h.expr 0 common hbound

def Contents.map (f : Span → Span) (g : Symbol → String) (contents : Contents) :
    List (Statement Span String) × Option (Expr Span String) :=
  (Statement.mapList f g contents.1, Expr.mapOption f g contents.2)

theorem Same.snoc_statement {statements statements' : List (Statement Span Symbol)}
    {statement statement' : Statement Span Symbol}
    (h : seam.Same Statement.mapList statements statements')
    (hstatement : seam.Same Statement.map statement statement') :
    seam.Same Statement.mapList (statements ++ [statement]) (statements' ++ [statement']) := by
  simp_all [Seam.Same, Statement.mapList_append, Statement.mapList]

theorem statementRound_echoes (h : RulesEcho seam bound rules rules')
    (hbound : common.length < bound) {statements statements' : List (Statement Span Symbol)}
    (hstatements : seam.Same Statement.mapList statements statements') :
    Echoes seam common false (statementRound rules statements) (statementRound rules' statements')
      (Round.Related (seam.Same Statement.mapList) (seam.Same Contents.map)) := by
  apply if_accepts
  · exact fun _ _ _ => .pure (.done (by simp_all [Seam.Same, Contents.map]))
  apply if_nextIs
  · intro _ _ _
    apply (binding_echoes h (Nat.le_of_lt hbound)).map
    exact fun _ _ hstatement => .more (Same.snoc_statement hstatements hstatement)
  apply if_nextIs
  · intro _ _ _
    apply importStatement_echoes.map
    exact fun _ _ hstatement => .more (Same.snoc_statement hstatements hstatement)
  apply (leadingExpr_echoes h hbound).bind
  intro rest value value' _ hvalue
  have hspan := hvalue.expr_span
  apply if_accepts
  · intro stop hshown hvariant
    apply advance_of_variant rfl hshown hvariant
    intro _ _
    apply Echoes.pure
    apply Round.Related.more
    apply Same.snoc_statement hstatements
    simp_all [Seam.Same, Span.hull_shift]
  apply if_accepts
  · intro _ _ _
    apply Echoes.pure
    apply Round.Related.done
    simp_all [Seam.Same, Contents.map]
  rw [hvalue.isControl]
  split
  next =>
    apply Echoes.pure
    apply Round.Related.more
    apply Same.snoc_statement hstatements
    simp_all [Seam.Same]
  next => exact .refuse

variable [RulesProgress rules]

/-- What closes a block leads no further. -/
theorem braces_steady_settles (left : Token) (contents : Contents) :
    let close : Parse (Block Span Symbol) := do
      let (statements, tail) := contents
      let right ← expect Punct.rbrace
      return ⟨statements, tail, left.span.hull right.span⟩
    Steady close ∧ Settles true close :=
  ⟨inferInstance, inferInstance⟩

instance : Settles true (braces rules) := by
  have hsteady left contents := (braces_steady_settles left contents).1
  have hsettles left contents := (braces_steady_settles left contents).2
  exact inferInstanceAs (Settles true (nested _))

/-- A block may end at the edge. -/
theorem braces_echoes (h : RulesEcho seam bound rules rules') (hbound : common.length ≤ bound) :
    Echoes seam common true (braces rules) (braces rules') (seam.Same Block.map) := by
  have hsteady left contents := (braces_steady_settles left contents).1
  have hsettles left contents := (braces_steady_settles left contents).2
  apply Echoes.nested
  apply bind_expect rfl
  rintro left rest rfl
  have hcontents : Echoes seam rest false (withRecords true (repeated (statementRound rules) []))
      (withRecords true (repeated (statementRound rules') [])) (seam.Same Contents.map) := by
    apply Echoes.withRecords
    apply Echoes.repeated (seam.Same Statement.mapList) (by simp [Seam.Same, Statement.mapList])
    exact fun last _ _ hlast hstatements =>
      statementRound_echoes h (Nat.lt_of_le_of_lt hlast hbound) hstatements
  apply hcontents.bind
  rintro later ⟨statements, tail⟩ ⟨statements', tail'⟩ _ hcontents
  apply (Echoes.expect rfl).map
  rintro right _ rfl
  simp_all [Seam.Same, Contents.map, Span.hull_shift]

/-! ## All levels -/

/-- One more level takes one more of the common scans. -/
theorem unfold_echo (h : RulesEcho seam bound rules rules') :
    RulesEcho seam (bound + 1) rules.unfold rules'.unfold where
  expr least _ hbound := operation_echoes h (Nat.le_of_lt_succ hbound) least
  block _ hbound := braces_echoes h (Nat.le_of_lt_succ hbound)
  elseIf _ hbound := conditional_echoes h (Nat.le_of_lt_succ hbound)

end

theorem rulesWithin_echo {levels levels' : Nat} (h : bound ≤ levels) (h' : bound ≤ levels') :
    RulesEcho seam bound (rulesWithin levels) (rulesWithin levels') := by
  induction bound generalizing levels levels' with
  | zero =>
      constructor
      · exact fun _ _ hbound => absurd hbound (Nat.not_lt_zero _)
      · exact fun _ hbound => absurd hbound (Nat.not_lt_zero _)
      · exact fun _ hbound => absurd hbound (Nat.not_lt_zero _)
  | succ bound ih =>
      obtain ⟨less, rfl⟩ : ∃ less, levels = less + 1 := ⟨levels - 1, by omega⟩
      obtain ⟨less', rfl⟩ : ∃ less, levels' = less + 1 := ⟨levels' - 1, by omega⟩
      exact unfold_echo (ih (Nat.le_of_succ_le_succ h) (Nat.le_of_succ_le_succ h'))

instance (levels : Nat) : Settles true (rulesWithin levels).block := by
  cases levels with
  | zero => exact inferInstanceAs (Settles true refuse)
  | succ levels => exact inferInstanceAs (Settles true (braces (rulesWithin levels)))

instance : Settles true block := by
  unfold block
  infer_instance

theorem block_echoes : Echoes seam common true block block (seam.Same Block.map) :=
  .bounded fun _ _ h h' => (rulesWithin_echo h h').block common (Nat.lt_succ_self _)

end Grammar

end FilterScript
