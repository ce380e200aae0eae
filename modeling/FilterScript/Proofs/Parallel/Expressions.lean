import FilterScript.Proofs.Parallel.Commitment

/-!
# Two runs through expressions

Expressions and blocks go back to each other. Two runs that have fewer tokens in
common than a bound says stay together in the productions that they go back to;
the bound then grows with the levels of the productions.
-/

namespace FilterScript

namespace Grammar

open Parse Parallel

variable {fork : Fork} {records : Bool} {common : List Twin} {bound : Nat}

/-- Two runs of the productions that others go back to stay together. -/
structure RulesMirror (fork : Fork) (bound : Nat) (rules : Side → Rules) : Prop where
  expr : ∀ least, Mirrors fork bound (Outline.shape ∘ Expr.outline) fun side => (rules side).expr least
  block : Mirrors fork bound (Outline.shape ∘ Block.outline) fun side => (rules side).block
  elseIf : Mirrors fork bound (Outline.shape ∘ Expr.outline) fun side => (rules side).elseIf
  passes : fork.free → ∀ side, RulesPass (fork.place side) bound (rules side)

theorem shape_outlineOption (value : Option (Expr Span Symbol)) :
    (Expr.outlineOption value).map Outline.shape =
      (value.map (Outline.shape ∘ Expr.outline)).toList := by
  cases value <;> simp [Expr.outlineOption]

theorem isSome_eq {α γ : Type} {view : α → γ} {values : Side → Option α}
    (h : Same (Option.map view) values common) :
    (values .left).isSome = (values .right).isSome := by
  simpa using congrArg Option.isSome h

/-! ## Looking for a record, an expression or a block -/

section Questions

variable {β : Type} {yes no : Side → Parse β} {stop : β → Kind → Prop}
  {last : (Side → β) → List Twin → Prop}

theorem if_blockNext_eq {yes no : Parse β} :
    (do if ← blockNext then yes else no) =
      (do
        if ← nextIs Punct.lbrace then
          if (← peekAt 1).kind.isName then
            if (← peekAt 2).kind.variant == Kind.variant Punct.colon then no else yes
          else yes
        else no) := by
  unfold blockNext
  rw [bind_assoc]
  refine congrArg (nextIs Punct.lbrace >>= ·) (funext fun found => ?_)
  cases found with
  | false => rfl
  | true =>
      simp only [↓reduceIte, bind_assoc]
      refine congrArg (peekAt 1 >>= ·) (funext fun name => ?_)
      cases name.kind.isName with
      | false => rfl
      | true =>
          simp only [↓reduceIte, bind_assoc, pure_bind]
          refine congrArg (peekAt 2 >>= ·) (funext fun colon => ?_)
          unfold bne
          cases colon.kind.variant == Kind.variant Punct.colon <;> rfl

theorem if_recordNext_eq {yes no : Parse β} :
    (do if ← recordNext then yes else no) =
      (do
        let state ← get
        if state.context.records then
          if ← nextIs Punct.lbrace then yes else no
        else no) := by
  unfold recordNext
  rw [bind_assoc]
  refine congrArg (get >>= ·) (funext fun state => ?_)
  cases state.context.records <;> rfl

theorem if_exprNext_eq {yes no : Parse β} :
    (do if ← exprNext then yes else no) =
      (do
        let token ← peek
        let state ← get
        if beginsOperand state.context.records token.kind then yes else no) := by
  unfold exprNext
  simp only [bind_assoc, pure_bind]
  rfl

/-- A brace opens a record only where records are allowed. -/
theorem if_recordNext
    (hyes : records = true → ∀ twin rest, common = twin :: rest →
      (∀ side, (twin.token side).kind = Punct.lbrace) →
        Parallel fork true common yes stop last)
    (hno : Parallel fork records common no stop last)
    (hpass : fork.free → records = true → common = [] → ∀ side token,
      (fork.place side).lookahead 0 = .ok token → token.kind = Punct.lbrace →
        Passes (fork.place side) [] true (yes side) stop) :
    Parallel fork records common (fun side => do if ← recordNext then yes side else no side)
      stop last := by
  simp only [if_recordNext_eq]
  apply bind_get
  intro states htogether
  simp only [htogether.records]
  cases records with
  | false => exact hno
  | true =>
      apply if_nextIs rfl
      · exact hyes rfl
      · exact fun _ => hno
      · exact fun hfree => hpass hfree rfl

theorem if_exprNext
    (hyes : ∀ twin rest, common = twin :: rest → beginsOperand records twin.shape = true →
      Parallel fork records common yes stop last)
    (hno : Parallel fork records common no stop last)
    (hpass : fork.free → common = [] → ∀ side token, (fork.place side).lookahead 0 = .ok token →
      beginsOperand records token.kind = true → Passes (fork.place side) [] records (yes side) stop) :
    Parallel fork records common (fun side => do if ← exprNext then yes side else no side)
      stop last := by
  simp only [if_exprNext_eq]
  apply bind_peek (beginsOperand records)
  · rfl
  · exact beginsOperand_shape
  · intro twin rest hcommon hbegins
    have hkind (side : Side) : beginsOperand records (twin.token side).kind = true := by
      rw [← beginsOperand_shape, twin.shape_token, hbegins]
    apply bind_get
    intro states htogether
    simp only [htogether.records, hkind]
    exact hyes twin rest hcommon hbegins
  · intro tokens hshown hbegins
    apply bind_get
    intro states htogether
    simp only [htogether.records, hbegins]
    exact hno
  · intro hfree hcommon side token hshown hbegins
    refine Passes.bind_peek hshown ?_
    apply Passes.bind_get
    intro state hrecords
    rw [hrecords, if_pos hbegins]
    exact hpass hfree hcommon side token hshown hbegins

end Questions

/-! ## Patterns and bodies of arms -/

theorem pattern_parallel : Parallel fork records common (fun _ => pattern) Never
    (Alike (Outline.shape ∘ Pattern.outline) common) := by
  apply bind_peek Kind.isName rfl Kind.isName_shape
  · rintro twin rest rfl hname
    have hname (side : Side) : (twin.token side).kind.isName = true := by
      rw [← Kind.isName_shape, twin.shape_token, hname]
    simp only [hname]
    apply path_parallel.bind_never
    intro paths left _ hpaths
    have hpath := hpaths.view
    apply if_nextIs rfl
    · rintro paren tail rfl _
      apply bind_advance
      have hmirrors : Mirrors fork (tail.length + 1) (Outline.shape ∘ Ident.outline)
          fun _ => ident := ident_mirrors
      apply bind_closed (commaList_parallel rfl hmirrors (Nat.lt_succ_self _)) rfl
      intro names right last hlast hnames
      have hlength := hnames.length_eq .right
      refine .pure ⟨?_, ?_⟩
      · exact Nat.lt_trans (Nat.lt_of_succ_le hlast.length_le) (Nat.lt_of_succ_lt hpaths.shorter)
      · simp_all [Same, Pattern.outline, Tag.shape]
    · intro _
      refine .pure ⟨hpaths.shorter, ?_⟩
      simp_all [Pattern.outline, Tag.shape]
    · intro _ _ side token hshown hkind
      exact .bind_any (.advance hshown (hkind ▸ Kind.noConfusion))
  · intro tokens hshown hname
    simp only [hname]
    exact want_refuse .pattern hshown hname
  · intro _ _ side token hshown hname
    exact pattern_passes hshown hname

theorem eq_singleton_of_second {first second : Twin} {rest : List Twin}
    (h : (first :: rest)[1]? = some second) (hlong : (first :: rest).length ≤ 2) :
    rest = [second] := by
  cases rest with
  | nil => cases h
  | cons other rest =>
      obtain rfl : rest = [] := List.eq_nil_of_length_eq_zero (by simpa using hlong)
      rw [Option.some.inj h]

/-- The body of an arm that is a block. -/
def blockBody (rules : Rules) : Parse (ArmBody Span Symbol) := do
  let body ← rules.block
  let _ ← takes Punct.comma
  return .block body

/-- The body of an arm that is an expression. -/
def exprBody (rules : Rules) : Parse (ArmBody Span Symbol) := do
  let value ← rules.expr 0
  if ← takes Punct.comma then
    return .expr value
  else if ← accepts Punct.rbrace then
    return .expr value
  else
    refuse

instance (rules : Rules) [RulesSteady rules] : Steady (blockBody rules) := by
  unfold blockBody
  infer_instance

instance (rules : Rules) [RulesSteady rules] : Steady (exprBody rules) := by
  unfold exprBody
  infer_instance

section

variable {rules : Side → Rules}

theorem blockBody_parallel (h : RulesMirror fork bound rules) (hbound : common.length < bound) :
    Parallel fork records common (fun side => blockBody (rules side)) (StopsAt Punct.rbrace)
      (Alike (Outline.shape ∘ ArmBody.outline) common) := by
  apply (h.block records common hbound).bind_never
  intro bodies rest _ hbodies
  have hview := hbodies.view
  refine Parallel.congr ?_ fun side => bind_eq_if _ _
  apply if_takes rfl
  · rintro comma left rfl _
    refine .pure ⟨Nat.lt_of_succ_lt hbodies.shorter, ?_⟩
    simp_all [ArmBody.outline]
  · refine .pure ⟨hbodies.shorter, ?_⟩
    simp_all [ArmBody.outline]

/-- Behind an expression a run stops where the match is closed. -/
theorem exprBody_parallel (h : RulesMirror fork bound rules) (hbound : common.length < bound) :
    Parallel fork records common (fun side => exprBody (rules side)) (StopsAt Punct.rbrace)
      (Alike (Outline.shape ∘ ArmBody.outline) common) := by
  apply (h.expr 0 records common hbound).bind_never
  intro values rest _ hvalues
  have hview := hvalues.view
  apply if_takes rfl
  · rintro comma left rfl _
    refine .pure ⟨Nat.lt_of_succ_lt hvalues.shorter, ?_⟩
    simp_all [ArmBody.outline]
  apply if_accepts rfl
  · intro _ _ _ _
    refine .pure ⟨hvalues.shorter, ?_⟩
    simp_all [ArmBody.outline]
  · exact .refuse
  · intro _ _ side token hshown hkind
    exact .pure hshown hkind

/-- Once a brace is open, a run may turn out to be in a block or in a record. -/
theorem armBody_parallel (h : RulesMirror fork bound rules) (hbound : common.length < bound) :
    Parallel fork true common (fun side => armBody (rules side)) (StopsAt Punct.rbrace)
      (Alike (Outline.shape ∘ ArmBody.outline) common) := by
  change Parallel fork true common (fun side => do
    if ← blockNext then blockBody (rules side) else exprBody (rules side)) _ _
  have hblock : Parallel fork true common (fun side => blockBody (rules side))
      (StopsAt Punct.rbrace) (Alike (Outline.shape ∘ ArmBody.outline) common) :=
    blockBody_parallel h hbound
  have hexpr : Parallel fork true common (fun side => exprBody (rules side))
      (StopsAt Punct.rbrace) (Alike (Outline.shape ∘ ArmBody.outline) common) :=
    exprBody_parallel h hbound
  simp only [if_blockNext_eq]
  apply if_nextIs rfl
  · rintro left rest rfl hleft
    apply if_peekAt Kind.isName rfl Kind.isName_shape
    · intro name hname hisName
      apply if_peekAt (fun found => found.variant == Kind.variant Punct.colon) rfl
      · exact Kind.variant_shape_beq rfl
      · exact fun _ _ _ => hexpr
      · exact hblock
      · -- The fork is right behind the name, and a colon there tells of a record.
        intro hfree hlong side token hshown hcolon
        obtain rfl : rest = [name] := eq_singleton_of_second hname hlong
        simp only [Fork.lookahead_cons_succ, Fork.behind_nil] at hshown
        have hname : (name.token side).kind.isName = true := by
          rw [← Kind.isName_shape, name.shape_token, hisName]
        exact .bind_any ((h.passes hfree side).exprColon hbound (hleft side) hname hshown
          (Kind.eq_of_variant_eq rfl (beq_iff_eq.mp hcolon)))
    · exact hblock
    · -- The fork is right behind the brace. A name there is taken either way.
      intro hfree hlong side token hshown hname
      obtain rfl : rest = [] := List.eq_nil_of_length_eq_zero (by simpa using hlong)
      simp only [Fork.lookahead_cons_succ, Fork.behind_nil] at hshown
      apply Passes.bind_peekAt
      intro colon _
      split
      · exact .bind_any ((h.passes hfree side).exprName hbound (hleft side) hshown hname)
      · exact .bind_any ((h.passes hfree side).blockName hbound (hleft side) hshown hname)
  · exact fun _ => hexpr
  · -- The fork is the brace itself.
    rintro hfree rfl side token hshown hkind
    have hpasses := h.passes hfree side
    have hexpr : Passes (fork.place side) [] true (exprBody (rules side)) (StopsAt Punct.rbrace) :=
      .bind_any (hpasses.expr hbound hshown (hkind ▸ rfl))
    have hblock : Passes (fork.place side) [] true (blockBody (rules side))
        (StopsAt Punct.rbrace) := .bind_any (hpasses.block hbound hshown hkind)
    apply Passes.bind_peekAt
    intro name _
    split
    · apply Passes.bind_peekAt
      intro colon _
      split
      · exact hexpr
      · exact hblock
    · exact hblock

theorem earlyExit_parallel (h : RulesMirror fork bound rules) {kind : ExitKind} {twin : Twin}
    (hbound : common.length < bound) :
    Parallel fork records (twin :: common) (fun side => earlyExit (rules side) kind) Never
      (Alike (Outline.shape ∘ Expr.outline) (twin :: common)) := by
  apply bind_advance
  apply if_exprNext
  · intro _ _ _ _
    apply (h.expr 0 records common hbound).bind_never
    intro values rest _ hvalues
    refine .pure ⟨Nat.lt_succ_of_lt hvalues.shorter, ?_⟩
    have := hvalues.view
    simp_all [Expr.outline, Expr.outlineOption]
  · refine .pure ⟨Nat.lt_succ_self _, ?_⟩
    simp [Expr.outline, Expr.outlineOption]
  · rintro hfree rfl side token hshown hbegins
    exact .bind_any ((h.passes hfree side).expr hbound hshown hbegins)

variable [∀ side, RulesSteady (rules side)]

/-! ## Operators -/

theorem operators_parallel (h : RulesMirror fork bound rules) (hbound : common.length < bound)
    {least : Nat} {lefts : Side → Expr Span Symbol}
    (hlefts : Same (Outline.shape ∘ Expr.outline) lefts common) :
    Parallel fork records common (fun side => operators (rules side) least (lefts side)) Never
      (Same (Outline.shape ∘ Expr.outline)) := by
  apply repeated_never (Same (Outline.shape ∘ Expr.outline)) hlefts
  intro lefts rest hrest hlefts
  apply bind_peek (continuesOperators least) rfl
  · intro kind
    simp only [continuesOperators, Kind.binaryOp_shape]
  · rintro twin tail rfl hop
    obtain ⟨op, hop, hleast⟩ := (Option.any_eq_true _ _).mp hop
    have hkind (side : Side) : BinaryOp.ofKind? (twin.token side).kind = some op := by
      rw [← Kind.binaryOp_shape, twin.shape_token, hop]
    simp only [hkind, if_neg (Nat.not_lt.mpr (of_decide_eq_true hleast))]
    apply bind_advance
    have hshorter : tail.length < bound :=
      Nat.lt_of_lt_of_le hrest.length_le (Nat.le_of_lt hbound)
    apply (h.expr _ records tail hshorter).bind_never
    intro rights left _ hrights
    refine .pure (.more (Nat.lt_succ_of_lt hrights.shorter) ?_)
    have := hrights.view
    simp_all [Same, Expr.outline]
  · intro tokens _ hop
    apply Parallel.congr (.pure (.done hlefts))
    intro side
    have hside := hop side
    split
    next op hkind =>
      rw [if_pos]
      simpa [continuesOperators, hkind] using hside
    next => rfl
  · intro _ _ side token hshown hop
    exact (operatorRound_passes hshown hop).of_never

theorem postfixes_parallel (h : RulesMirror fork bound rules) (hbound : common.length < bound)
    {firsts : Side → Expr Span Symbol} (hfirsts : Same (Outline.shape ∘ Expr.outline) firsts common) :
    Parallel fork records common (fun side => postfixes (rules side) (firsts side)) Never
      (Same (Outline.shape ∘ Expr.outline)) := by
  apply repeated_never (Same (Outline.shape ∘ Expr.outline)) hfirsts
  intro exprs rest hrest hexprs
  have hrest := hrest.length_le
  apply if_takes rfl
  · rintro dot tail rfl _
    apply ident_parallel.bind_never
    intro names left _ hnames
    refine .pure (.more (Nat.lt_succ_of_lt hnames.shorter) ?_)
    simp_all [Same, Expr.outline]
  apply if_takes rfl
  · rintro paren tail rfl _
    have harguments : Parallel fork records tail
        (fun side => withRecords true (commaList Punct.rparen ((rules side).expr 0)))
        (StopsAt Punct.rparen) (Same (List.map (Outline.shape ∘ Expr.outline))) :=
      .withRecords (commaList_parallel rfl (h.expr 0)
        (Nat.lt_of_lt_of_le hrest (Nat.le_of_lt hbound)))
    apply bind_closed harguments rfl
    intro arguments right last hlast harguments
    refine .pure (.more ?_ ?_)
    · exact Nat.lt_succ_of_lt (Nat.lt_of_succ_le hlast.length_le)
    · simp_all [Same, Expr.outline, Expr.outlineList_eq_map]
  apply if_nextIs rfl
  · rintro mark tail rfl _
    refine bind_advance (.pure (.more (Nat.lt_succ_self _) ?_))
    simp_all [Same, Expr.outline]
  · exact fun _ => .pure (.done hexprs)
  · intro _ _ side token hshown hkind
    exact .bind_any (.advance hshown (hkind ▸ Kind.noConfusion))

/-! ## Conditionals, loops and matches -/

theorem alternative_parallel (h : RulesMirror fork bound rules) (hbound : common.length ≤ bound) :
    Parallel fork records common (fun side => alternative (rules side)) Never
      (Same fun other => (Alternative.outlineOption other).map Outline.shape) := by
  apply if_takes rfl
  · rintro mark rest rfl _
    apply if_nextIs rfl
    · intro _ _ _ _
      apply (h.elseIf records rest hbound).bind_never
      intro nexts left _ hnexts
      have := hnexts.view
      exact .pure (by simp_all [Same, Alternative.outlineOption])
    · intro _
      apply (h.block records rest hbound).bind_never
      intro bodies left _ hbodies
      have := hbodies.view
      exact .pure (by simp_all [Same, Alternative.outlineOption])
    · rintro hfree rfl side token hshown hkind
      exact .bind_any ((h.passes hfree side).elseIf hbound hshown hkind)
  · exact .pure (by simp [Same, Alternative.outlineOption])

theorem conditional_parallel (h : RulesMirror fork bound rules) (hbound : common.length ≤ bound) :
    Parallel fork records common (fun side => conditional (rules side)) Never
      (Alike (Outline.shape ∘ Expr.outline) common) := by
  apply bind_expect rfl
  rintro start rest rfl _
  apply (Parallel.withRecords (h.expr 0 false rest hbound)).bind_never
  intro conditions rest' hrest hconditions
  have hbound' : rest'.length < bound := hconditions.shorter.trans hbound
  apply (h.block records rest' hbound').bind_never
  intro consequences left _ hconsequences
  have hbound'' : left.length < bound := hconsequences.shorter.trans hbound'
  apply (alternative_parallel h (Nat.le_of_lt hbound'')).bind_never
  intro others last hlast hothers
  refine .pure ⟨?_, ?_⟩
  · have := hlast.length_le
    have := hconsequences.shorter
    have := hconditions.shorter
    simp only [List.length_cons]
    omega
  · have := hconditions.view
    have := hconsequences.view
    simp_all [Same, Expr.outline]

theorem whileLoop_parallel (h : RulesMirror fork bound rules) (hbound : common.length ≤ bound) :
    Parallel fork records common (fun side => whileLoop (rules side)) Never
      (Alike (Outline.shape ∘ Expr.outline) common) := by
  apply bind_expect rfl
  rintro start rest rfl _
  apply (Parallel.withRecords (h.expr 0 false rest hbound)).bind_never
  intro conditions rest' _ hconditions
  apply (h.block records rest' (hconditions.shorter.trans hbound)).bind_never
  intro bodies left _ hbodies
  refine .pure ⟨Nat.lt_succ_of_lt (hbodies.shorter.trans hconditions.shorter), ?_⟩
  have := hconditions.view
  have := hbodies.view
  simp_all [Expr.outline]

theorem guard_parallel (h : RulesMirror fork bound rules) (hbound : common.length ≤ bound) :
    Parallel fork records common (fun side => guard (rules side)) Never
      (Same (Option.map (Outline.shape ∘ Expr.outline))) :=
  optional_parallel rfl (h.expr 0) hbound

/-- The last arm is known as such by the brace behind it. -/
theorem arm_parallel (h : RulesMirror fork bound rules) (hbound : common.length < bound) :
    Parallel fork true common (fun side => arm (rules side)) (StopsAt Punct.rbrace)
      (Alike (Outline.shape ∘ Arm.outline) common) := by
  apply pattern_parallel.bind_never
  intro patterns rest _ hpatterns
  have hbound := hpatterns.shorter.trans hbound
  apply (guard_parallel h (Nat.le_of_lt hbound)).bind_never
  intro conditions rest' hrest' hconditions
  apply bind_expect rfl
  rintro arrow tail rfl _
  have htail : tail.length < rest.length := Nat.lt_of_succ_le hrest'.length_le
  apply (armBody_parallel h (htail.trans hbound)).bind
  · intro _ side body token hshown hkind records
    rw [bind_eq_if]
    refine Passes.if_nextIs hshown hkind ?_
    exact .pure hshown hkind
  · intro bodies left _ hbodies
    have hshorter : left.length < common.length :=
      (hbodies.shorter.trans htail).trans hpatterns.shorter
    -- Whatever stands behind the arm, both runs see the same there.
    have harm (last : Bool) : Alike (Outline.shape ∘ Arm.outline) common (fun side =>
        ⟨patterns side, conditions side, bodies side, last,
          (patterns side).span.hull (bodies side).span⟩) left := by
      refine ⟨hshorter, ?_⟩
      have := hpatterns.view
      have := hbodies.view
      have := isSome_eq hconditions
      simp_all [Same, Arm.outline, Tag.shape, shape_outlineOption]
    refine Parallel.congr ?_ fun side => bind_eq_if _ _
    apply if_nextIs rfl
    · exact fun _ _ _ _ => .pure (harm true)
    · exact fun _ => .pure (harm false)
    · intro _ _ side token hshown hkind
      exact .pure hshown hkind

theorem armRound_parallel (h : RulesMirror fork bound rules) (hbound : common.length < bound)
    {arms : Side → List (Arm Span Symbol)}
    (harms : Same (List.map (Outline.shape ∘ Arm.outline)) arms common) :
    Parallel fork true common (fun side => armRound (rules side) (arms side))
      (Round.Stops (StopsAt Punct.rbrace) (StopsAt Punct.rbrace))
      (Round.Agree (Same (List.map (Outline.shape ∘ Arm.outline)))
        (Same (List.map (Outline.shape ∘ Arm.outline))) common) := by
  apply if_accepts rfl
  · exact fun _ _ _ _ => .pure (.done harms)
  · apply (arm_parallel h hbound).bind
    · intro _ side arm token hshown hkind records
      exact .pure hshown hkind
    · intro results rest _ hresults
      exact .pure (.more hresults.shorter (harms.snoc hresults.view))
  · intro _ _ side token hshown hkind
    exact .pure hshown hkind

theorem select_parallel (h : RulesMirror fork bound rules) (hbound : common.length ≤ bound) :
    Parallel fork records common (fun side => select (rules side)) Never
      (Alike (Outline.shape ∘ Expr.outline) common) := by
  apply bind_expect rfl
  rintro start rest rfl _
  apply (Parallel.withRecords (h.expr 0 false rest hbound)).bind_never
  intro scrutinees rest' _ hscrutinees
  apply bind_expect rfl
  rintro left tail rfl _
  have htail : tail.length < rest.length := Nat.lt_of_succ_lt hscrutinees.shorter
  have harms : Parallel fork records tail
      (fun side => withRecords true (repeated (armRound (rules side)) []))
      (StopsAt Punct.rbrace) (Same (List.map (Outline.shape ∘ Arm.outline))) := by
    apply Parallel.withRecords
    apply Parallel.repeated (StopsAt Punct.rbrace) (Same (List.map (Outline.shape ∘ Arm.outline)))
    · exact .nil
    · intro arms left hleft harms
      exact armRound_parallel h (Nat.lt_of_le_of_lt hleft.length_le (htail.trans hbound)) harms
    · intro _ side arms token hshown hkind
      refine ⟨hkind ▸ Kind.noConfusion, fun records => ?_⟩
      refine Passes.if_accepts hshown hkind ?_
      exact .pure hshown ⟨arms, rfl, hkind⟩
  apply bind_closed harms rfl
  intro arms right last hlast harms
  have hselect : Alike (Outline.shape ∘ Expr.outline) (start :: rest) (fun side =>
      .select (scrutinees side) (arms side)
        ((start.token side).span.hull (right.token side).span)) last := by
    refine ⟨?_, ?_⟩
    · exact Nat.lt_succ_of_lt ((Nat.lt_of_succ_le hlast.length_le).trans htail)
    · have := hscrutinees.view
      simp_all [Same, Expr.outline, Arm.outlineList_eq_map]
  -- Both runs warn of a match without arms, or none does.
  have hempty : ∀ side, (arms side).isEmpty = (arms .left).isEmpty :=
    Side.eq_left (fun side => (arms side).isEmpty) (by simpa using congrArg List.isEmpty harms)
  simp only [hempty]
  cases (arms .left).isEmpty with
  | true => exact bind_warn (.pure hselect)
  | false => exact .pure hselect

theorem parenthesized_parallel (h : RulesMirror fork bound rules) (hbound : common.length ≤ bound) :
    Parallel fork records common (fun side => parenthesized (rules side)) Never
      (Alike (Outline.shape ∘ Expr.outline) common) := by
  apply bind_expect rfl
  rintro left rest rfl _
  apply if_nextIs rfl
  · rintro right tail rfl _
    refine bind_advance (.pure ⟨Nat.lt_succ_of_lt (Nat.lt_succ_self _), ?_⟩)
    simp [Expr.outline]
  · intro _
    apply (Parallel.withRecords (h.expr 0 true rest hbound)).bind_never
    intro inners rest' _ hinners
    apply bind_expect rfl
    rintro right tail rfl _
    refine .pure ⟨Nat.lt_succ_of_lt (Nat.lt_of_succ_lt hinners.shorter), ?_⟩
    have := hinners.view
    simp_all [Expr.outline]
  · intro _ _ side token hshown hkind
    exact .bind_any (.advance hshown (hkind ▸ Kind.noConfusion))

/-! ## Operands -/

theorem pathExpr_parallel (h : RulesMirror fork bound rules) (hbound : common.length ≤ bound) :
    Parallel fork records common (fun side => pathExpr (rules side)) Never
      (Alike (Outline.shape ∘ Expr.outline) common) := by
  apply path_parallel.bind_never
  intro names rest _ hnames
  have hview := hnames.view
  have hrest : rest.length ≤ bound := Nat.le_of_lt (Nat.lt_of_lt_of_le hnames.shorter hbound)
  apply if_recordNext
  · rintro rfl _ _ _ _
    have hrecord : Parallel fork true rest (fun side => record Expr.span ((rules side).expr 0)) Never
        (Alike (fun record => record.fields.map
          (Outline.shape ∘ Field.outline .field Expr.outline)) rest) :=
      record_parallel (h.expr 0) hrest
    apply hrecord.bind_never
    intro fields left _ hfields
    refine .pure ⟨hfields.shorter.trans hnames.shorter, ?_⟩
    have := hfields.view
    simp_all [Expr.outline, Expr.outlineFields_eq_map]
  · refine .pure ⟨hnames.shorter, ?_⟩
    simp_all [Expr.outline]
  · intro _ _ _ side token hshown hkind
    exact .bind_any (record_passes hshown hkind)

/-- A record, or nothing that an expression begins with. -/
theorem bareRecord_parallel (h : RulesMirror fork bound rules) (hbound : common.length ≤ bound)
    (hunmet : ∀ side token, (fork.behind common side).lookahead 0 = .ok token →
      Expected.expression.meets token.kind = false) :
    Parallel fork records common (fun side => do
      if ← recordNext then
        return .record (← record Expr.span ((rules side).expr 0))
      else
        want .expression
        refuse) Never (Alike (Outline.shape ∘ Expr.outline) common) := by
  apply if_recordNext
  · rintro rfl _ _ _ _
    have hrecord : Parallel fork true common (fun side => record Expr.span ((rules side).expr 0))
        Never (Alike (fun record => record.fields.map
          (Outline.shape ∘ Field.outline .field Expr.outline)) common) :=
      record_parallel (h.expr 0) hbound
    apply hrecord.bind_never
    intro fields rest _ hfields
    refine .pure ⟨hfields.shorter, ?_⟩
    have := hfields.view
    simp_all [Expr.outline, Expr.outlineFields_eq_map]
  · exact bind_want hunmet .refuse
  · intro _ _ _ side token hshown hkind
    exact .bind_any (record_passes hshown hkind)

/-- Two runs that see no prefix operator and no early exit. -/
theorem primary_parallel (h : RulesMirror fork bound rules) (hbound : common.length ≤ bound)
    (hplain : ∀ side token, (fork.behind common side).lookahead 0 = .ok token →
      UnaryOp.ofKind? token.kind = none ∧ ExitKind.ofKind? token.kind = none) :
    Parallel fork records common (fun side => primary (rules side)) Never
      (Alike (Outline.shape ∘ Expr.outline) common) := by
  apply bind_peek (beginsPrimary records) rfl
  · intro kind
    cases kind <;> rfl
  · rintro twin rest rfl hbegins
    rcases beginsPrimary_iff.mp hbegins with
      hliteral | hif | hwhile | hmatch | hparen | hname | ⟨rfl, hbrace⟩
    · obtain ⟨value, hvalue⟩ := hliteral
      have hvalues (side : Side) : ∃ literal, literal? (twin.token side).kind = some literal ∧
          literal.shape = value := by
        rw [← twin.shape_token side, Kind.literal?_shape] at hvalue
        exact Option.map_eq_some_iff.mp hvalue
      choose values hvalues hshape using hvalues
      simp only [hvalues]
      refine bind_advance (.pure ⟨Nat.lt_succ_self _, ?_⟩)
      simp [Expr.outline, Tag.shape, hshape]
    · simp only [twin.kind_of_shape rfl hif]
      exact conditional_parallel h hbound
    · simp only [twin.kind_of_shape rfl hwhile]
      exact whileLoop_parallel h hbound
    · simp only [twin.kind_of_shape rfl hmatch]
      exact select_parallel h hbound
    · simp only [twin.kind_of_shape rfl hparen]
      exact parenthesized_parallel h hbound
    · choose text raw hkind using twin.exists_name hname
      simp only [hkind]
      exact pathExpr_parallel h hbound
    · have hkind := twin.kind_of_shape rfl hbrace
      simp only [hkind]
      apply bareRecord_parallel h hbound
      intro side token hshown
      obtain rfl := Except.ok.inj hshown
      rw [hkind side]
      rfl
  · intro tokens hshown hbegins
    have hunmet (side : Side) (token : Token)
        (htoken : (fork.behind common side).lookahead 0 = .ok token) :
        Expected.expression.meets token.kind = false := by
      obtain rfl := Except.ok.inj ((hshown side).symm.trans htoken)
      obtain ⟨hunary, hexit⟩ := hplain side _ htoken
      apply meets_expression_of_not_begins
      rw [beginsOperand_eq, hbegins side, hunary, hexit]
      rfl
    apply (bareRecord_parallel h hbound hunmet).congr
    intro side
    have hside := hbegins side
    split
    next value hvalue =>
      rw [beginsPrimary_iff.mpr (.inl ⟨value, hvalue⟩)] at hside
      cases hside
    next => split <;> first | rfl | simp_all [beginsPrimary]
  · intro _ _ side token hshown hbegins
    exact primary_passes hshown hbegins

theorem operand_parallel (h : RulesMirror fork bound rules) (hbound : common.length ≤ bound) :
    Parallel fork records common (fun side => operand (rules side)) Never
      (Alike (Outline.shape ∘ Expr.outline) common) := by
  apply bind_peek fun kind => (UnaryOp.ofKind? kind).isSome || (ExitKind.ofKind? kind).isSome
  · rfl
  · intro kind
    simp only [Kind.unaryOp_shape, Kind.exitKind_shape]
  · rintro twin rest rfl hcommits
    have hunary (side : Side) :
        UnaryOp.ofKind? (twin.token side).kind = UnaryOp.ofKind? twin.shape := by
      rw [← Kind.unaryOp_shape, twin.shape_token]
    have hexit (side : Side) :
        ExitKind.ofKind? (twin.token side).kind = ExitKind.ofKind? twin.shape := by
      rw [← Kind.exitKind_shape, twin.shape_token]
    simp only [hunary, hexit]
    cases hop : UnaryOp.ofKind? twin.shape with
    | some op =>
        apply bind_advance
        apply (h.expr _ records rest hbound).bind_never
        intro inners left _ hinners
        refine .pure ⟨Nat.lt_succ_of_lt hinners.shorter, ?_⟩
        have := hinners.view
        simp_all [Expr.outline]
    | none =>
        cases hkind : ExitKind.ofKind? twin.shape with
        | some kind => exact earlyExit_parallel h hbound
        | none => simp [hop, hkind] at hcommits
  · intro tokens hshown hcommits
    have hplain (side : Side) : UnaryOp.ofKind? (tokens side).kind = none ∧
        ExitKind.ofKind? (tokens side).kind = none := by
      simpa using hcommits side
    simp only [hplain]
    have hprimary : Parallel fork records common (fun side => primary (rules side)) Never
        (Alike (Outline.shape ∘ Expr.outline) common) := by
      apply primary_parallel h hbound
      intro side token htoken
      obtain rfl := Except.ok.inj ((hshown side).symm.trans htoken)
      exact hplain side
    apply hprimary.bind_never
    intro firsts rest _ hfirsts
    apply alike_of_same hfirsts.shorter
    exact postfixes_parallel h (Nat.lt_of_lt_of_le hfirsts.shorter hbound) hfirsts.view
  · intro _ _ side token hshown hcommits
    apply operand_passes hshown
    rw [beginsOperand_eq, hcommits, Bool.or_true]

theorem operation_parallel (h : RulesMirror fork bound rules) (hbound : common.length ≤ bound)
    (least : Nat) :
    Parallel fork records common (fun side => operation (rules side) least) Never
      (Alike (Outline.shape ∘ Expr.outline) common) := by
  apply Parallel.nested
  apply (operand_parallel h hbound).bind_never
  intro firsts rest _ hfirsts
  apply alike_of_same hfirsts.shorter
  exact operators_parallel h (Nat.lt_of_lt_of_le hfirsts.shorter hbound) hfirsts.view

end

end Grammar

end FilterScript
