import FilterScript.Proofs.Braces.Trees
import FilterScript.Proofs.Spans.Expressions

/-!
# Braces behind expressions

Where braces open records, an expression leaves no path in front of a brace. In a
condition or scrutinee it may leave one, at its very end, and has no record exposed.
-/

namespace FilterScript

variable {α : Type}

/-- The tokens begin with a brace and the span begins with it. -/
def Span.OpensWithBrace (span : Span) (tokens : List Token) : Prop :=
  ∃ brace behind, tokens = brace :: behind ∧ brace.kind = Punct.lbrace ∧
    (InOrder tokens → span.start = brace.span.start)

theorem Span.opensWithBrace_hull {left : Token} (hleft : left.kind = Punct.lbrace)
    (mid : List Token) (right : Token) :
    (left.span.hull right.span).OpensWithBrace (left :: (mid ++ [right])) := by
  refine ⟨left, mid ++ [right], rfl, hleft, fun horder => ?_⟩
  obtain ⟨first, hfirst, last, -, hspan⟩ := (Span.Joins.single left).hull mid (.single right)
  obtain rfl : left = first := Option.some.inj hfirst
  rw [hspan horder]

namespace Grammar

open Parse Outline

variable {final : Names} {rules : Rules} {records : Bool} {input : List Scan}

/-! ## Lists -/

/-- Where braces open records, the outline of every result is settled. -/
def ReadsSettled (final : Names) (outline : α → Outline Span Symbol) (production : Parse α) :
    Prop :=
  ∀ input, Reads final true input production fun result taken rest =>
    SettledIn [outline result] taken rest

theorem commaList_settled {close : Kind} {outline : α → Outline Span Symbol} {element : Parse α}
    (helement : ReadsSettled final outline element) :
    Reads final true input (commaList close element) fun elements taken rest =>
      SettledIn (elements.map outline) taken rest := by
  refine .bind loneComma_reads ?_
  rintro lone _ _ _ ⟨rfl, rfl, hlone⟩
  cases lone with
  | true => exact .bind_advance (hlone rfl) rfl fun comma rest _ _ => .pure .nil
  | false =>
      refine .repeated (fun elements taken rest => SettledIn (elements.map outline) taken rest)
        .nil fun elements taken rest helements => ?_
      refine .bind_accepts (fun _ => .pure (by simpa using helements)) fun _ => ?_
      refine .bind (helement _) ?_
      rintro next more rest rfl hnext
      refine .bind_takes rfl ?_ fun _ => .pure ?_
      · rintro comma rest rfl -
        have hmore : SettledIn [outline next] (more ++ [comma]) rest := hnext.trail
        refine .pure ?_
        simpa using SettledBut.append (by simpa using helements) hmore
      · simpa using helements.append hnext

theorem field_settled {value : Parse (Expr Span Symbol)}
    (hvalue : ReadsSettled final Expr.outline value) :
    ReadsSettled final (Field.outline .field Expr.outline) (field Expr.span value) := by
  intro input
  refine .bind .ident ?_
  rintro name _ rest _ ⟨token, rfl, -⟩
  refine .bind_expect rfl fun colon rest _ _ => ?_
  refine .bind (hvalue rest) fun given more rest _ hgiven => .pure ?_
  have hname : SettledIn [name.outline] [token, colon] (more.map .ok ++ rest) :=
    settledBut_of_plain (by simpa using name.plain_outline)
  have hfield : SettledIn
      [Field.outline .field Expr.outline ⟨name, given, name.span.hull given.span⟩]
      ([token, colon] ++ more) rest := (hname.append hgiven).node rfl
  simpa using hfield

/-- The fields of a record are settled, and its opening brace is where its span starts. -/
theorem fields_settled {value : Parse (Expr Span Symbol)}
    (hvalue : ReadsSettled final Expr.outline value) :
    Reads final records input (record Expr.span value) fun record taken rest =>
      record.span.OpensWithBrace taken ∧
        SettledIn (Expr.outlineFields record.fields) taken rest := by
  refine .bind_expect rfl fun left rest _ hleft => ?_
  refine .bind (.withRecords (commaList_settled (field_settled hvalue))) ?_
  rintro fields taken _ rfl hfields
  refine .bind_expect rfl ?_
  rintro right rest rfl -
  refine .pure ⟨Span.opensWithBrace_hull hleft taken right, ?_⟩
  have htrail : SettledIn (fields.map (Field.outline .field Expr.outline)) (taken ++ [right])
      rest := hfields.trail
  rw [Expr.outlineFields_eq_map]
  simpa using htrail.skip [left]

/-! ## Operators and postfixes -/

/-- What is known of the results of the productions that others go back to. -/
structure RulesSettled (final : Names) (rules : Rules) : Prop where
  expr : ∀ least records input, Reads final records input (rules.expr least) fun expr taken rest =>
    Reading records expr.outline taken rest
  block : ∀ records input, Reads final records input rules.block fun block taken rest =>
    block.span.OpensWithBrace taken ∧ SettledIn [block.outline] taken rest
  elseIf : ∀ records input, Reads final records input rules.elseIf fun expr taken rest =>
    expr.outline.RecordFree ∧ SettledIn [expr.outline] taken rest

theorem RulesSettled.settles (h : RulesSettled final rules) (least : Nat) :
    ReadsSettled final Expr.outline (rules.expr least) :=
  fun input => (h.expr least true input).mono fun _ _ _ _ hexpr => hexpr.close_true

theorem operators_reading (h : RulesSettled final rules) {least : Nat} {first : Expr Span Symbol}
    {before : List Token} (hfirst : Reading records first.outline before input) :
    Reads final records input (operators rules least first) fun expr taken rest =>
      Reading records expr.outline (before ++ taken) rest := by
  refine .repeated (fun expr taken rest => Reading records expr.outline (before ++ taken) rest)
    (by simpa using hfirst) fun left taken rest hleft => .bind_peek fun token hshows => ?_
  split
  next op hop =>
    split
    · exact .pure (by simpa using hleft)
    · have hkind := BinaryOp.ofKind?_eq_some_iff.mp hop
      refine .bind_advance ⟨token, hshows, congrArg Kind.variant hkind⟩ rfl ?_
      rintro mark rest rfl hmark
      refine .bind (h.expr _ records rest) ?_
      rintro right more rest rfl hright
      refine .pure ?_
      simp only [Reads.Keeps, Expr.outline]
      refine .node rfl rfl (fun hrecords => ?_) ?_
      · simpa using ⟨hleft.free hrecords, hright.free hrecords⟩
      · have hlast : SettledBut (Waits records (.node (.binary op) (left.span.hull right.span)
            [left.outline, right.outline]) (before ++ (taken ++ mark :: more)) rest)
            [right.outline] more rest :=
          hright.last ⟨before ++ (taken ++ [mark]), by simp⟩
            fun node hnode => by simp [exposed, exposedList, hnode]
        simpa using (hleft.close_token hmark (by cases op <;> decide)).append (hlast.skip [mark])
  next => exact .pure (by simpa using hleft)

theorem postfixes_reading (h : RulesSettled final rules) {first : Expr Span Symbol}
    {before : List Token} (hfirst : Reading records first.outline before input) :
    Reads final records input (postfixes rules first) fun expr taken rest =>
      Reading records expr.outline (before ++ taken) rest := by
  refine .repeated (fun expr taken rest => Reading records expr.outline (before ++ taken) rest)
    (by simpa using hfirst) fun expr taken rest hexpr => ?_
  refine .bind_takes rfl ?_ fun _ => ?_
  · rintro dot rest rfl hdot
    refine .bind .ident ?_
    rintro name _ rest rfl ⟨token, rfl, -⟩
    refine .pure ?_
    simp only [Reads.Keeps, Expr.outline]
    have hname : ∀ spare, SettledBut spare [name.outline] [dot, token] rest :=
      fun _ => settledBut_of_plain (by simpa using name.plain_outline)
    refine .node rfl rfl (fun hrecords => ?_) ?_
    · simpa using ⟨hexpr.free hrecords, name.plain_outline.recordFree⟩
    · simpa using (hexpr.close_token hdot (by decide)).append (hname _)
  refine .bind_takes rfl ?_ fun _ => ?_
  · rintro left rest rfl hleft
    refine .bind (.withRecords (commaList_settled (h.settles 0))) ?_
    rintro arguments more _ rfl hlist
    refine .bind_expect rfl ?_
    rintro right rest rfl -
    refine .pure ?_
    simp only [Reads.Keeps, Expr.outline, Expr.outlineList_eq_map]
    have hcallee : ∀ spare, SettledBut spare [expr.outline] (before ++ taken)
        ((left :: (more ++ [right])).map .ok ++ rest) := by
      simpa using fun _ => hexpr.close_token hleft (by decide)
    have hlist' : SettledIn (arguments.map Expr.outline) (more ++ [right]) rest := hlist.trail
    refine ⟨fun hrecords => recordFree_call (hexpr.free hrecords), SettledBut.node ?_ rfl⟩
    simpa using (hcallee _).append (hlist'.loosen.skip [left])
  refine .bind_nextIs (fun hnext => ?_) fun _ => .pure (by simpa using hexpr)
  refine .bind_advance hnext rfl ?_
  rintro mark rest rfl hmark
  refine .pure ?_
  simp only [Reads.Keeps, Expr.outline]
  refine .node rfl rfl (fun hrecords => by simpa using hexpr.free hrecords) ?_
  have hinner : ∀ spare, SettledBut spare [expr.outline] (before ++ taken ++ [mark]) rest :=
    fun _ => SettledBut.trail (hexpr.close_token hmark (by decide))
  simpa using hinner _

/-! ## Conditionals, loops and matches -/

theorem recordFree_block (block : Block Span Symbol) : block.outline.RecordFree := by
  obtain ⟨statements, tail, span⟩ := block
  rw [Block.outline]
  simp [RecordFree, exposed, Tag.isRecord]

theorem recordFree_arm (arm : Arm Span Symbol) : arm.outline.RecordFree := by
  obtain ⟨pattern, guard, body, last, span⟩ := arm
  rw [Arm.outline]
  simp [RecordFree, exposed, Tag.isRecord]

theorem alternative_settled (h : RulesSettled final rules) :
    Reads final records input (alternative rules) fun other taken rest =>
      (∀ outline ∈ Alternative.outlineOption other, outline.RecordFree) ∧
        SettledIn (Alternative.outlineOption other) taken rest := by
  refine .bind_takes rfl (fun mark rest _ _ => ?_) fun _ =>
    .pure ⟨by simp [Alternative.outlineOption], ?_⟩
  · refine .bind_nextIs (fun _ => ?_) fun _ => ?_
    · refine .bind (h.elseIf records rest) fun next more rest _ ⟨hfree, hnext⟩ => .pure ⟨?_, ?_⟩
      · simpa [Alternative.outlineOption] using hfree
      · simpa [Alternative.outlineOption] using hnext.skip [mark]
    · refine .bind (h.block records rest) fun body more rest _ ⟨_, hbody⟩ => .pure ⟨?_, ?_⟩
      · simpa [Alternative.outlineOption] using recordFree_block body
      · simpa [Alternative.outlineOption] using hbody.skip [mark]
  · rw [Alternative.outlineOption]
    exact .nil

/-- What is known of conditionals, loops and matches, wherever they stand. -/
def ReadsFree (final : Names) (production : Parse (Expr Span Symbol)) : Prop :=
  ∀ records input, Reads final records input production fun expr taken rest =>
    expr.outline.RecordFree ∧ SettledIn [expr.outline] taken rest

theorem conditional_readsFree (h : RulesSettled final rules) :
    ReadsFree final (conditional rules) := by
  intro records input
  refine .bind_expect rfl fun start rest _ _ => ?_
  refine .bind (.withRecords (h.expr 0 false rest)) ?_
  rintro condition taken _ rfl hcondition
  refine .bind (h.block records _) ?_
  rintro consequence _ _ rfl ⟨⟨brace, behind, rfl, hbrace, hopens⟩, hconsequence⟩
  refine .bind (alternative_settled h) ?_
  rintro other last rest rfl ⟨hfree, hother⟩
  refine .pure ⟨?_, ?_⟩
  · rw [Expr.outline]
    refine recordFree_node rfl (List.forall_mem_cons.mpr ⟨hcondition.free rfl, ?_⟩)
    exact List.forall_mem_cons.mpr ⟨recordFree_block consequence, hfree⟩
  · have hothers : SettledIn (consequence.outline :: Alternative.outlineOption other)
        (brace :: (behind ++ last)) rest := hconsequence.append hother
    rw [Expr.outline]
    refine Reading.headed (by simpa using hcondition) hbrace rfl (fun horder => ?_)
      (by simpa using hothers)
    have hblock : InOrder (brace :: behind) := horder.of_part ⟨start :: taken, last, by simp⟩
    simpa [BodyOpens] using hopens hblock

theorem whileLoop_readsFree (h : RulesSettled final rules) :
    ReadsFree final (whileLoop rules) := by
  intro records input
  refine .bind_expect rfl fun start rest _ _ => ?_
  refine .bind (.withRecords (h.expr 0 false rest)) ?_
  rintro condition taken _ rfl hcondition
  refine .bind (h.block records _) ?_
  rintro body _ rest rfl ⟨⟨brace, behind, rfl, hbrace, hopens⟩, hbody⟩
  refine .pure ⟨?_, ?_⟩
  · rw [Expr.outline]
    refine recordFree_node rfl (List.forall_mem_cons.mpr ⟨hcondition.free rfl, ?_⟩)
    exact List.forall_mem_singleton.mpr (recordFree_block body)
  · rw [Expr.outline]
    refine Reading.headed (by simpa using hcondition) hbrace rfl (fun horder => ?_)
      (by simpa using hbody)
    have hblock : InOrder (brace :: behind) := horder.of_part ⟨start :: taken, [], by simp⟩
    simpa [BodyOpens] using hopens hblock

theorem pattern_settled :
    Reads final records input pattern fun variant taken rest =>
      SettledIn [variant.outline] taken rest :=
  (pattern_covered records input).mono fun variant _ _ _ _ =>
    settledBut_of_plain (List.forall_mem_singleton.mpr variant.plain_outline)

theorem guard_settled (h : RulesSettled final rules) :
    Reads final true input (guard rules) fun condition taken rest =>
      SettledIn (Expr.outlineOption condition) taken rest := by
  refine .bind_takes rfl (fun bar rest _ _ => ?_) fun _ => .pure ?_
  · refine .bind (h.settles 0 rest) fun condition taken rest _ hcondition => .pure ?_
    simpa [Expr.outlineOption] using hcondition.skip [bar]
  · rw [Expr.outlineOption]
    exact .nil

theorem armBody_settled (h : RulesSettled final rules) :
    ReadsSettled final ArmBody.outline (armBody rules) := by
  intro input
  refine .bind blockNext_reads ?_
  rintro found _ _ _ ⟨rfl, rfl, -⟩
  cases found with
  | true =>
      refine .bind (h.block true _) ?_
      rintro body front rest rfl ⟨-, hbody⟩
      refine .bind_takes rfl ?_ fun _ => .pure (by simpa [ArmBody.outline] using hbody)
      rintro comma rest rfl -
      have hbody' : SettledIn [body.outline] (front ++ [comma]) rest := hbody.trail
      exact .pure (by simpa [ArmBody.outline] using hbody')
  | false =>
      refine .bind (h.settles 0 _) ?_
      rintro value front rest rfl hvalue
      refine .bind_takes rfl ?_ fun _ => ?_
      · rintro comma rest rfl -
        have hvalue' : SettledIn [value.outline] (front ++ [comma]) rest := hvalue.trail
        exact .pure (by simpa [ArmBody.outline] using hvalue')
      · exact .bind_accepts (fun _ => .pure (by simpa [ArmBody.outline] using hvalue)) fun _ => .refuse

theorem arm_settled (h : RulesSettled final rules) :
    ReadsSettled final Arm.outline (arm rules) := by
  intro input
  refine .bind pattern_settled ?_
  rintro variant first _ rfl hvariant
  refine .bind (guard_settled h) ?_
  rintro condition second _ rfl hcondition
  refine .bind_expect rfl ?_
  rintro arrow rest rfl -
  refine .bind (armBody_settled h rest) ?_
  rintro body third rest rfl hbody
  have hsettled : ∀ last, SettledIn [(Arm.mk variant condition body last
      (variant.span.hull body.span)).outline] (first ++ (second ++ arrow :: third)) rest := by
    intro last
    rw [Arm.outline]
    refine SettledBut.node ?_ rfl
    have hcondition' : SettledIn (Expr.outlineOption condition) second
        ((arrow :: third).map .ok ++ rest) := by simpa using hcondition
    have hvariant' : SettledIn [variant.outline] first
        ((second ++ arrow :: third).map .ok ++ rest) := by simpa using hvariant
    have hall := hvariant'.append (hcondition'.append (hbody.skip [arrow]))
    exact hall
  exact .bind_nextIs (fun _ => .pure (by simpa using hsettled true))
    fun _ => .pure (by simpa using hsettled false)

/-- The scrutinee ends in front of the brace, and all arms start behind it. -/
theorem bodyOpens_select {start brace right : Token} {taken more : List Token}
    {scrutinee : Expr Span Symbol} {arms : List (Outline Span Symbol)}
    (hscrutinee : scrutinee.outline.Covers taken) (harms : CoverIn arms more)
    (horder : InOrder (start :: (taken ++ brace :: (more ++ [right])))) :
    (Outline.node .select (start.span.hull right.span) (scrutinee.outline :: arms)).BodyOpens
      brace := by
  have hfront : InOrder (taken ++ [brace]) := horder.of_part ⟨[start], more ++ [right], by simp⟩
  have hbehind : InOrder (brace :: (more ++ [right])) :=
    horder.of_part ⟨start :: taken, [], by simp⟩
  have hmore : InOrder more := hbehind.of_part ⟨[brace], [right], by simp⟩
  obtain ⟨htaken, -, hbefore⟩ := hfront.of_append
  have hlater := (List.pairwise_cons.mp hbehind.ordered).1
  refine ⟨?scrutinee, ?inside, fun arm harm => ?arm⟩
  case scrutinee =>
    obtain ⟨last, hlast, hstop⟩ := (hscrutinee.joins.bounded htaken).ends
    rw [← hstop]
    exact hbefore last hlast brace List.mem_cons_self
  case inside =>
    have hright := hlater right (by simp)
    have hnonempty := hbehind.nonempty right (by simp)
    simp only [Span.hull]
    omega
  case arm =>
    obtain ⟨token, htoken, hstart⟩ := ((harms.ordered hmore).1 arm harm).starts
    rw [← hstart]
    exact hlater token (by simp [htoken])

theorem select_readsFree (h : RulesSettled final rules) (hcovered : RulesCovered final rules) :
    ReadsFree final (select rules) := by
  intro records input
  refine .bind_expect rfl fun start rest _ _ => ?_
  refine .bind (.withRecords ((h.expr 0 false rest).and (hcovered.expr 0 false rest))) ?_
  rintro scrutinee taken _ rfl ⟨hscrutinee, htaken⟩
  refine .bind_expect rfl ?_
  rintro brace rest rfl hbrace
  have harms : Reads final true rest (repeated (armRound rules) []) fun arms more rest =>
      SettledIn (Arm.outlineList arms) more rest := by
    simp only [Arm.outlineList_eq_map]
    refine .repeated (fun arms taken rest => SettledIn (arms.map Arm.outline) taken rest) .nil
      fun arms taken rest harms => ?_
    refine .bind_accepts (fun _ => .pure (by simpa using harms)) fun _ => .bind (arm_settled h _) ?_
    rintro arm more rest rfl harm
    exact .pure (by simpa using harms.append harm)
  refine .bind (.withRecords (harms.and (arms_covered hcovered))) ?_
  rintro arms more _ rfl ⟨harms, hcovers⟩
  refine .bind_expect rfl ?_
  rintro right rest rfl -
  have hothers : SettledIn (Arm.outlineList arms) (more ++ [right]) rest := harms.trail
  have hsettled : SettledIn [(Expr.select scrutinee arms (start.span.hull right.span)).outline]
      (start :: (taken ++ brace :: (more ++ [right]))) rest := by
    rw [Expr.outline]
    exact Reading.headed (by simpa using hscrutinee) hbrace rfl (bodyOpens_select htaken hcovers)
      (by simpa using hothers.skip [brace])
  have hfree : (Expr.select scrutinee arms (start.span.hull right.span)).outline.RecordFree := by
    rw [Expr.outline]
    refine recordFree_node rfl (List.forall_mem_cons.mpr ⟨hscrutinee.free rfl, ?_⟩)
    rw [Arm.outlineList_eq_map]
    exact List.forall_mem_map.mpr fun arm _ => recordFree_arm arm
  cases arms.isEmpty with
  | true => exact .bind_warn (.pure ⟨hfree, by simpa using hsettled⟩)
  | false => exact .pure ⟨hfree, by simpa using hsettled⟩

/-! ## Operands -/

theorem reading_leaf {tag : Tag Span Symbol} {span : Span} {taken : List Token} {rest : List Scan}
    (htag : tag.isSettled = true) (hrecord : tag.isRecord = false) :
    Reading records (.node tag span []) taken rest :=
  .node htag hrecord (by simp) .nil

theorem parenthesized_reading (h : RulesSettled final rules) :
    Reads final records input (parenthesized rules) fun expr taken rest =>
      Reading records expr.outline taken rest := by
  refine .bind_expect rfl fun left rest _ _ => ?_
  refine .bind_nextIs (fun hnext => ?_) fun _ => ?_
  · refine .bind_advance hnext rfl fun right rest _ _ => .pure ?_
    rw [Expr.outline]
    exact reading_leaf rfl rfl
  · refine .bind (.withRecords (h.settles 0 rest)) ?_
    rintro inner taken _ rfl hinner
    refine .bind_expect rfl ?_
    rintro right rest rfl -
    refine .pure ?_
    have hinner' : SettledIn [inner.outline] (taken ++ [right]) rest := hinner.trail
    rw [Expr.outline]
    refine .of_settled (fun _ => ?_) (SettledBut.node (by simpa using hinner'.skip [left]) rfl)
    simp [RecordFree, exposed, Tag.isRecord]

/-- Without a brace that opens a record, a path in front of a brace waits for what
the brace opens. -/
theorem pathExpr_reading (h : RulesSettled final rules) :
    Reads final records input (pathExpr rules) fun expr taken rest =>
      Reading records expr.outline taken rest := by
  refine .bind (path_covered records input) ?_
  rintro name taken rest rfl hname
  obtain ⟨first, -, last, hlast, hspan⟩ := hname.joins
  have hplace (horder : InOrder taken) : last.span.stop = name.span.stop := by
    rw [← Path.note_outline, hspan horder]
  refine .bind recordNext_reads ?_
  rintro found _ left _ ⟨rfl, rfl, hfound⟩
  cases found with
  | true =>
      obtain ⟨rfl, -⟩ := hfound.mp rfl
      refine .bind (fields_settled (h.settles 0)) ?_
      rintro ⟨fields, inner⟩ _ rest rfl ⟨⟨brace, behind, rfl, hbrace, hopens⟩, hfields⟩
      refine .pure (.of_settled (fun hrecords => by cases hrecords) ?_)
      have hname' : SettledIn [name.outline] taken ((brace :: behind).map .ok ++ rest) :=
        settledBut_of_plain (List.forall_mem_singleton.mpr name.plain_outline)
      have hfields' : SettledIn [.node .fields inner (Expr.outlineFields fields)] (brace :: behind) rest :=
        hfields.node rfl
      rw [Expr.outline]
      have hchildren := hname'.append hfields'
      refine SettledBut.under (by simpa using hchildren) fun horder => .inr fun nodes => ?_
      have hfront : InOrder taken := horder.of_part ⟨[], brace :: behind, by simp⟩
      have hback : InOrder (brace :: behind) := horder.of_part ⟨taken, [], by simp⟩
      have hbehind : Behind (taken.map .ok ++ .ok brace :: (behind.map .ok ++ rest)) name.span.stop
          (.ok brace :: (behind.map .ok ++ rest)) := hplace hfront ▸ behind_of_getLast? hlast
      exact settled_of_typedRecord rfl rfl (by simpa using hbehind) hbrace (hopens hback)
  | false =>
      refine .pure ?_
      rw [Expr.outline, List.append_nil, List.append_nil]
      refine ⟨fun _ => recordFree_node rfl (by simpa using name.plain_outline.recordFree), ?_⟩
      have hname' : ∀ spare, SettledBut spare [name.outline] taken left :=
        fun _ => settledBut_of_plain (List.forall_mem_singleton.mpr name.plain_outline)
      refine SettledBut.under (hname' _) fun horder => ?_
      by_cases hnext : Next Punct.lbrace left
      · have hrecords : records = false :=
          Bool.eq_false_iff.mpr fun hrecords => by simpa using hfound.mpr ⟨hrecords, hnext⟩
        refine .inl ⟨hrecords, hnext, rfl, by simp [exposed], last, hlast, hplace horder⟩
      · refine .inr fun nodes => settled_of_path rfl (.inl ⟨left, ?_, hnext⟩)
        exact hplace horder ▸ behind_of_getLast? hlast

theorem primary_reading (h : RulesSettled final rules) (hcovered : RulesCovered final rules) :
    Reads final records input (primary rules) fun expr taken rest =>
      Reading records expr.outline taken rest := by
  refine .bind_peek fun token hshows => ?_
  split
  next value hvalue =>
    obtain ⟨-, hname, hend⟩ := slots_of_literal? hvalue
    obtain ⟨rest, rfl⟩ := hshows.cons hend
    refine .bind (.advance hname) ?_
    rintro mark _ _ _ ⟨rfl, rfl, rfl⟩
    refine .pure ?_
    rw [Expr.outline]
    exact reading_leaf rfl rfl
  next =>
    split
    next => exact (conditional_readsFree h records input).mono fun _ _ _ _ hexpr => .of_free hexpr
    next => exact (whileLoop_readsFree h records input).mono fun _ _ _ _ hexpr => .of_free hexpr
    next =>
      exact (select_readsFree h hcovered records input).mono fun _ _ _ _ hexpr => .of_free hexpr
    next => exact parenthesized_reading h
    next => exact pathExpr_reading h
    next =>
      refine .bind recordNext_reads ?_
      rintro found _ left _ ⟨rfl, rfl, hfound⟩
      cases found with
      | true =>
          obtain ⟨rfl, -⟩ := hfound.mp rfl
          refine .bind (fields_settled (h.settles 0)) ?_
          rintro ⟨fields, span⟩ taken rest rfl ⟨-, hfields⟩
          refine .pure (.of_settled (fun hrecords => by cases hrecords) ?_)
          rw [Expr.outline]
          have hinner : SettledIn [.node .fields span (Expr.outlineFields fields)] taken rest :=
            hfields.node rfl
          exact SettledBut.node (by simpa using hinner) rfl
      | false => exact .bind_want .refuse

theorem earlyExit_reading (h : RulesSettled final rules) {exit : ExitKind}
    (hnext : Next exit.keyword input) :
    Reads final records input (earlyExit rules exit) fun expr taken rest =>
      Reading records expr.outline taken rest := by
  refine .bind_advance hnext rfl fun keyword rest _ _ => ?_
  refine .bind exprNext_reads ?_
  rintro found _ _ _ ⟨rfl, rfl, -⟩
  cases found with
  | true =>
      refine .bind (h.expr 0 records _) fun value taken rest _ hvalue => .pure ?_
      rw [Expr.outline, Expr.outlineOption, List.append_nil]
      exact hvalue.prefixed keyword rfl rfl fun node hnode => by simp [exposed, exposedList, hnode]
  | false =>
      refine .pure ?_
      rw [Expr.outline, Expr.outlineOption]
      exact reading_leaf rfl rfl

theorem operand_reading (h : RulesSettled final rules) (hcovered : RulesCovered final rules) :
    Reads final records input (operand rules) fun expr taken rest =>
      Reading records expr.outline taken rest := by
  refine .bind_peek fun token hshows => ?_
  split
  next _ _ op hop =>
    have hkind := UnaryOp.ofKind?_eq_some_iff.mp hop
    refine .bind_advance ⟨token, hshows, congrArg Kind.variant hkind⟩ op.isFixed_kind
      fun mark rest _ _ => ?_
    refine .bind (h.expr _ records rest) fun inner taken rest _ hinner => .pure ?_
    rw [Expr.outline, List.append_nil]
    exact hinner.prefixed mark rfl rfl fun node hnode => by simp [exposed, exposedList, hnode]
  next exit _ hexit =>
    have hkind := ExitKind.ofKind?_eq_some_iff.mp hexit
    exact earlyExit_reading h ⟨token, hshows, congrArg Kind.variant hkind⟩
  next =>
    refine .bind (primary_reading h hcovered) ?_
    rintro first taken rest rfl hfirst
    exact postfixes_reading h hfirst

theorem operation_reading (h : RulesSettled final rules) (hcovered : RulesCovered final rules)
    (least : Nat) :
    Reads final records input (operation rules least) fun expr taken rest =>
      Reading records expr.outline taken rest := by
  refine .nested (.bind (operand_reading h hcovered) ?_)
  rintro first taken rest rfl hfirst
  exact operators_reading h hfirst

/-! ## Blocks -/

theorem typeAfter_settled (mark : Punct) :
    Reads final records input (do if ← takes mark then return some (← type) else return none)
      fun found taken rest => SettledIn (found.map TypeExpr.outline).toList taken rest :=
  (typeAfter_covered mark).mono fun found _ _ _ _ => settledBut_of_plain <| by
    cases found with
    | none => simp
    | some type => simpa using type.plain_outline

theorem binding_settled (h : RulesSettled final rules) :
    ReadsSettled final Statement.outline (binding rules) := by
  intro input
  refine .bind_expect rfl fun start rest _ _ => ?_
  refine .bind .ident ?_
  rintro name _ rest _ ⟨token, rfl, -⟩
  refine .bind (typeAfter_settled .colon) ?_
  rintro type second _ rfl htype
  refine .bind_expect rfl ?_
  rintro assign rest rfl -
  refine .bind (h.settles 0 rest) ?_
  rintro value third _ rfl hvalue
  refine .bind_expect rfl ?_
  rintro stop rest rfl -
  refine .pure ?_
  have hvalue' : SettledIn [value.outline] (third ++ [stop]) rest := hvalue.trail
  have htype' : SettledIn (type.map TypeExpr.outline).toList second
      ((assign :: (third ++ [stop])).map .ok ++ rest) := by simpa using htype
  have hname : SettledIn [name.outline] [start, token]
      ((second ++ assign :: (third ++ [stop])).map .ok ++ rest) :=
    settledBut_of_plain (List.forall_mem_singleton.mpr name.plain_outline)
  have hchildren := hname.append (htype'.append (hvalue'.skip [assign]))
  rw [Statement.outline]
  exact SettledBut.node (by simpa using hchildren) rfl

theorem importStatement_settled : ReadsSettled final Statement.outline importStatement := by
  intro input
  refine .bind importDeclaration_covered ?_
  rintro ⟨path, span⟩ taken rest _ -
  refine .pure ?_
  rw [Statement.outline]
  exact SettledBut.node (settledBut_of_plain (List.forall_mem_singleton.mpr path.plain_outline)) rfl

theorem control?_readsFree (h : RulesSettled final rules) (hcovered : RulesCovered final rules)
    {kind : Kind} {production : Parse (Expr Span Symbol)}
    (hcontrol : control? rules kind = some production) : ReadsFree final production := by
  unfold control? at hcontrol
  split at hcontrol <;> cases hcontrol
  · exact conditional_readsFree h
  · exact whileLoop_readsFree h
  · exact select_readsFree h hcovered

theorem leadingExpr_settled (h : RulesSettled final rules) (hcovered : RulesCovered final rules) :
    ReadsSettled final Expr.outline (leadingExpr rules) := by
  refine fun input => .bind_peek fun token _ => ?_
  split
  next production hproduction =>
    refine .bind (control?_readsFree h hcovered hproduction true input) ?_
    rintro control taken rest rfl hcontrol
    refine .bind_peek fun token _ => ?_
    split
    · refine .bind (postfixes_reading h (.of_free hcontrol)) ?_
      rintro first more rest rfl hfirst
      refine (operators_reading h hfirst).mono fun expr last rest _ hexpr => ?_
      simpa using hexpr.close_true
    · exact .pure (by simpa using hcontrol.2)
  next => exact h.settles 0 input

theorem statementRound_settled (h : RulesSettled final rules) (hcovered : RulesCovered final rules)
    {statements : List (Statement Span Symbol)} {taken : List Token}
    (hstatements : SettledIn (statements.map Statement.outline) taken input) :
    Reads final true input (statementRound rules statements)
      (Reads.Keeps (fun statements taken rest => SettledIn (statements.map Statement.outline) taken rest)
        (fun contents taken rest => SettledIn (Contents.outline contents) taken rest) taken) := by
  -- Whatever sort of statement comes next, it is put behind those before.
  have hmore {statement : Statement Span Symbol} {more : List Token} {rest : List Scan}
      (hinput : input = more.map .ok ++ rest) (hstatement : SettledIn [statement.outline] more rest) :
      SettledIn ((statements ++ [statement]).map Statement.outline) (taken ++ more) rest := by
    subst hinput
    simpa using hstatements.append hstatement
  refine .bind_accepts (fun _ => .pure ?_) fun _ => ?_
  · simpa [Contents.outline, Expr.outlineOption] using hstatements
  refine .bind_nextIs (fun _ => ?_) fun _ => ?_
  · refine .bind (binding_settled h input) fun statement more rest hinput hstatement => .pure ?_
    simpa using hmore hinput hstatement
  refine .bind_nextIs (fun _ => ?_) fun _ => ?_
  · refine .bind (importStatement_settled input) fun statement more rest hinput hstatement => .pure ?_
    simpa using hmore hinput hstatement
  refine .bind (leadingExpr_settled h hcovered input) fun value more rest hinput hvalue => ?_
  refine .bind_accepts (fun hnext => ?_) fun _ => ?_
  · refine .bind_advance hnext rfl ?_
    rintro stop rest rfl -
    have hvalue' : SettledIn [value.outline] (more ++ [stop]) rest := hvalue.trail
    have hstatement : SettledIn [(Statement.expr value (value.span.hull stop.span)).outline]
        (more ++ [stop]) rest := by
      rw [Statement.outline]
      exact hvalue'.node rfl
    exact .pure (hmore (by simpa using hinput) hstatement)
  refine .bind_accepts (fun _ => .pure ?_) fun _ => ?_
  · subst hinput
    simpa [Contents.outline, Expr.outlineOption] using hstatements.append hvalue
  cases value.isControl with
  | true =>
      have hcontrol : SettledIn [(Statement.control value).outline] more rest := by
        rw [Statement.outline]
        exact hvalue.node rfl
      exact .pure (by simpa using hmore hinput hcontrol)
  | false => exact .refuse

theorem braces_settled (h : RulesSettled final rules) (hcovered : RulesCovered final rules) :
    Reads final records input (braces rules) fun block taken rest =>
      block.span.OpensWithBrace taken ∧ SettledIn [block.outline] taken rest := by
  refine .nested (.bind_expect rfl fun left rest _ hleft => ?_)
  have hcontents : Reads final true rest (repeated (statementRound rules) []) fun contents more rest =>
      SettledIn (Contents.outline contents) more rest :=
    .repeated (fun statements taken rest => SettledIn (statements.map Statement.outline) taken rest)
      .nil fun statements taken rest => statementRound_settled h hcovered
  refine .bind (.withRecords hcontents) ?_
  rintro ⟨statements, tail⟩ taken _ rfl hcontents
  refine .bind_expect rfl ?_
  rintro right rest rfl -
  refine .pure ⟨Span.opensWithBrace_hull hleft taken right, ?_⟩
  have hcontents' : SettledIn (Contents.outline (statements, tail)) (taken ++ [right]) rest :=
    hcontents.trail
  rw [Block.outline, Statement.outlineList_eq_map]
  exact SettledBut.node (hcontents'.skip [left]) rfl

theorem rulesWithin_settled (levels : Nat) : RulesSettled final (rulesWithin levels) := by
  induction levels with
  | zero => exact ⟨fun _ _ _ => .refuse, fun _ _ => .refuse, fun _ _ => .refuse⟩
  | succ levels ih =>
      rw [rulesWithin_succ]
      have hcovered : RulesCovered final (rulesWithin levels) := rulesWithin_covered levels
      exact ⟨fun least _ _ => operation_reading ih hcovered least, fun _ _ => braces_settled ih hcovered,
        conditional_readsFree ih⟩

theorem block_settled : Reads final records input block fun block taken rest =>
    SettledIn [block.outline] taken rest :=
  .bounded fun levels => ((rulesWithin_settled levels).block records input).mono
    fun _ _ _ _ hblock => hblock.2

theorem expr_settled : ReadsSettled final Expr.outline expr :=
  fun input => .bounded fun levels => (rulesWithin_settled levels).settles 0 input

end Grammar

end FilterScript
