import FilterScript.Proofs.Lints.Steps
import FilterScript.Proofs.Parts
import FilterScript.Proofs.Spans.Expressions

/-!
# Lints of trees are the warnings of runs

Two sorts of nodes are odd by themselves: a match that has no arms, and an optional
type around another one. The warnings of a run are the lints of the tree that it
gives, in the order in which the nodes end: a production warns about a node when all
of it is read, after everything below the node and before anything behind it.
-/

namespace FilterScript

variable {ν : Type}

namespace Outline

/-- What is odd about a node, if anything is. The only child of a match without arms
is its scrutinee. -/
def lint? : Outline Span ν → Option Warning
  | node .select span [_] => some ⟨.emptyMatch, span⟩
  | node .optionalType span [node .optionalType _ _] => some ⟨.redundantOptional, span⟩
  | _ => none

/-- One warning for every odd node of the tree. -/
def lints (outline : Outline Span ν) : List Warning :=
  outline.subtrees.filterMap lint?

mutual

/-- The same warnings in the order in which the nodes end. -/
def reports : Outline Span ν → List Warning
  | node tag span children => reportsList children ++ (node tag span children).lint?.toList

def reportsList : List (Outline Span ν) → List Warning
  | [] => []
  | outline :: rest => outline.reports ++ reportsList rest

end

@[simp] theorem reportsList_nil : reportsList ([] : List (Outline Span ν)) = [] := by
  rw [reportsList]

@[simp] theorem reportsList_cons (outline : Outline Span ν) (rest : List (Outline Span ν)) :
    reportsList (outline :: rest) = outline.reports ++ reportsList rest := by
  rw [reportsList]

@[simp] theorem reportsList_append (first second : List (Outline Span ν)) :
    reportsList (first ++ second) = reportsList first ++ reportsList second := by
  induction first with
  | nil => simp
  | cons outline rest ih => simp [ih]

/-- Only the two sorts of nodes are odd. -/
theorem reports_node {tag : Tag Span ν} {span : Span} {children : List (Outline Span ν)}
    (h : (node tag span children).lint? = none) :
    (node tag span children).reports = reportsList children := by
  rw [reports, h]
  simp

mutual

theorem reports_perm_lints : (outline : Outline Span ν) → outline.reports.Perm outline.lints
  | .node tag span children => by
      have hchildren := reportsList_perm children
      rw [reports, lints, subtrees, ← List.singleton_append, List.filterMap_append]
      refine List.perm_append_comm.trans (.append ?_ hchildren)
      cases h : (node tag span children).lint? <;> simp [h]

theorem reportsList_perm : (outlines : List (Outline Span ν)) →
    (reportsList outlines).Perm ((subtreesList outlines).filterMap lint?)
  | [] => by simp [subtreesList]
  | outline :: rest => by
      rw [reportsList, subtreesList, List.filterMap_append]
      exact (reports_perm_lints outline).append (reportsList_perm rest)

end

end Outline

/-! ## Nodes that may be odd -/

theorem TypeExpr.reports_optional (inner : TypeExpr Span ν) (span : Span) :
    (TypeExpr.optional inner span).outline.reports =
      inner.outline.reports ++ if inner.isOptional then [⟨.redundantOptional, span⟩] else [] := by
  cases inner with
  | record fields =>
      cases fields
      simp [outline, Outline.reports, Outline.lint?, isOptional]
  | _ => simp [outline, Outline.reports, Outline.lint?, isOptional]

theorem Expr.reports_select (scrutinee : Expr Span ν) (arms : List (Arm Span ν)) (span : Span) :
    (Expr.select scrutinee arms span).outline.reports =
      scrutinee.outline.reports ++ (Outline.reportsList (Arm.outlineList arms) ++
        if arms.isEmpty then [⟨.emptyMatch, span⟩] else []) := by
  cases arms <;> simp [outline, Arm.outlineList, Outline.reports, Outline.lint?]

/-! ## Nodes that are never odd -/

@[simp] theorem Ident.reports_outline (ident : Ident Span ν) : ident.outline.reports = [] :=
  Outline.reports_node rfl

theorem Ident.reportsList_outline (idents : List (Ident Span ν)) :
    Outline.reportsList (idents.map Ident.outline) = [] := by
  induction idents with
  | nil => rfl
  | cons ident rest ih => simp [ih]

@[simp] theorem Path.reports_outline (path : Path Span ν) : path.outline.reports = [] :=
  (Outline.reports_node rfl).trans (Ident.reportsList_outline _)

@[simp] theorem Pattern.reports_outline (pattern : Pattern Span ν) :
    pattern.outline.reports = [] := by
  rw [Pattern.outline, Outline.reports_node rfl, Outline.reportsList_cons,
    Ident.reportsList_outline]
  simp

mutual

@[simp] theorem ImportPath.reports_outline : (path : ImportPath Span ν) → path.outline.reports = []
  | ⟨parts, span⟩ => by
      rw [ImportPath.outline, Outline.reports_node rfl, ImportPart.reportsList_outline parts]

theorem ImportPart.reportsList_outline : (parts : List (ImportPart Span ν)) →
    Outline.reportsList (ImportPart.outlineList parts) = []
  | [] => by simp [ImportPart.outlineList]
  | .name ident :: rest => by
      simp [ImportPart.outlineList, ImportPart.reportsList_outline rest]
  | .group members span :: rest => by
      rw [ImportPart.outlineList, Outline.reportsList_cons, Outline.reports_node rfl,
        ImportPath.reportsList_outline members, ImportPart.reportsList_outline rest]
      rfl

theorem ImportPath.reportsList_outline : (paths : List (ImportPath Span ν)) →
    Outline.reportsList (ImportPath.outlineList paths) = []
  | [] => by simp [ImportPath.outlineList]
  | path :: rest => by
      simp [ImportPath.outlineList, path.reports_outline, ImportPath.reportsList_outline rest]

end

namespace Grammar

open Parse Outline

variable {α : Type} {rules : Rules}

/-! ## Lists and types -/

theorem commaList_reports {close : Kind} {outline : α → Outline Span Symbol} {element : Parse α}
    (helement : Reports (fun result => (outline result).reports) element) :
    Reports (fun elements => reportsList (elements.map outline)) (commaList close element) := by
  refine .bind_branch (.bind_quiet fun _ => .pure rfl) ?_
  refine .repeated (fun elements added => added = reportsList (elements.map outline)) rfl
    fun elements added hadded => .bind_branch (.pure (by simpa using hadded)) ?_
  exact .bind_reports helement fun next =>
    .bind_branch (.pure (by simp [hadded])) (.pure (by simp [hadded]))

section Fields

variable (tag : Tag Span Symbol) {spanOf : α → Span} {outline : α → Outline Span Symbol}
  {value : Parse α}

/-- A node with two children is never odd. -/
theorem field_reports (hvalue : Reports (fun result => (outline result).reports) value) :
    Reports (fun field => (Field.outline tag outline field).reports) (field spanOf value) := by
  refine .bind_quiet fun name => .bind_quiet fun _ => .bind_reports hvalue fun given => .pure ?_
  simp [Field.outline, reports, lint?]

theorem record_reports (hvalue : Reports (fun result => (outline result).reports) value) :
    Reports (fun record => reportsList (record.fields.map (Field.outline tag outline)))
      (record spanOf value) :=
  .bind_quiet fun _ => .bind_reports (Adds.withRecords (commaList_reports
    (field_reports tag hvalue))) fun _ => .bind_quiet fun _ => .pure (by simp)

end Fields

theorem namedType_reports {type : Parse (TypeExpr Span Symbol)}
    (htype : Reports (fun type => type.outline.reports) type) :
    Reports (fun type => type.outline.reports) (namedType type) := by
  refine .bind_quiet fun name => .bind_branch ?_ ?_
  · refine .bind_quiet fun _ => .bind_reports (commaList_reports htype) fun arguments =>
      .bind_quiet fun _ => .pure ?_
    simp [TypeExpr.outline, TypeExpr.outlineList_eq_map, reports, lint?]
  · exact .pure (by simp [TypeExpr.outline, TypeExpr.outlineList, reports, lint?])

theorem typeAtom_reports {type : Parse (TypeExpr Span Symbol)}
    (htype : Reports (fun type => type.outline.reports) type) :
    Reports (fun type => type.outline.reports) (typeAtom type) := by
  refine .bind_quiet fun token => ?_
  split
  next => exact .bind_quiet fun _ => .pure (by simp [TypeExpr.outline, reports, lint?])
  next =>
    exact .bind_quiet fun _ => .bind_quiet fun _ =>
      .pure (by simp [TypeExpr.outline, reports, lint?])
  next =>
    refine .bind_reports (record_reports .typeField htype) fun ⟨fields, span⟩ => .pure ?_
    simp [TypeExpr.outline, TypeExpr.outlineFields_eq_map, reports, lint?]
  next => exact namedType_reports htype
  next => exact .bind_quiet fun _ => .refuse

/-- A question mark behind an optional type is the odd one. -/
theorem optionalRound_reports (type : TypeExpr Span Symbol) :
    Adds (optionalRound type) (Adds.Keeps (fun type added => added = type.outline.reports)
      (fun type added => added = type.outline.reports) type.outline.reports) := by
  refine .bind_branch (.bind_quiet fun mark => ?_) (.pure (by simp))
  have hreports := TypeExpr.reports_optional type (type.span.hull mark.span)
  cases hoptional : type.isOptional with
  | true => exact .bind_warn (.pure (hreports.trans (by simp [hoptional])).symm)
  | false => exact .pure (hreports.trans (by simp [hoptional])).symm

theorem typeWithin_reports (levels : Nat) :
    Reports (fun type => type.outline.reports) (typeWithin levels) := by
  induction levels with
  | zero => exact .refuse
  | succ levels ih =>
      refine .nested (.bind_reports (typeAtom_reports ih) fun atom => ?_)
      -- Every mark is put around the type so far, whose warnings stay in front.
      refine .repeated (fun type added => atom.outline.reports ++ added = type.outline.reports)
        (by simp) fun type added hadded => ?_
      refine (optionalRound_reports type).mono fun result more hmore => ?_
      cases result <;> simpa [← hadded] using hmore

theorem type_reports : Reports (fun type => type.outline.reports) type :=
  .bounded typeWithin_reports

theorem parameters_reports :
    Reports (fun list => reportsList (list.map Parameter.outline)) parameters :=
  .bind_quiet fun _ => .bind_reports (commaList_reports (field_reports .parameter type_reports))
    fun _ => .bind_quiet fun _ => .pure (List.append_nil _)

/-- The type behind a mark, whatever the mark is. -/
theorem typeAfter_reports (mark : Punct) :
    Reports (fun found => reportsList (found.map TypeExpr.outline).toList)
      (do if ← takes mark then return some (← type) else return none) :=
  .bind_branch (.bind_reports type_reports fun type => .pure (by simp)) (.pure rfl)

/-! ## Expressions -/

/-- The warnings of the three productions are those of the trees that they give. -/
structure RulesReport (rules : Rules) : Prop where
  expr : ∀ least, Reports (fun expr => expr.outline.reports) (rules.expr least)
  block : Reports (fun block => block.outline.reports) rules.block
  elseIf : Reports (fun expr => expr.outline.reports) rules.elseIf

theorem operators_report (h : RulesReport rules) {least : Nat} (first : Expr Span Symbol) :
    Adds (operators rules least first) fun expr added =>
      first.outline.reports ++ added = expr.outline.reports := by
  refine .repeated (fun expr added => first.outline.reports ++ added = expr.outline.reports)
    (by simp) fun left added hleft => .bind_quiet fun token => ?_
  split
  next op hop =>
    split
    · exact .pure (by simpa using hleft)
    · refine .bind_quiet fun _ => .bind_reports (h.expr _) fun right => .pure ?_
      simp [Expr.outline, reports, lint?, ← hleft]
  next => exact .pure (by simpa using hleft)

theorem postfixes_report (h : RulesReport rules) (first : Expr Span Symbol) :
    Adds (postfixes rules first) fun expr added =>
      first.outline.reports ++ added = expr.outline.reports := by
  refine .repeated (fun expr added => first.outline.reports ++ added = expr.outline.reports)
    (by simp) fun expr added hexpr => ?_
  refine .bind_branch ?_ (.bind_branch ?_ (.bind_branch ?_ (.pure (by simpa using hexpr))))
  · exact .bind_quiet fun name => .pure (by simp [Expr.outline, reports, lint?, hexpr])
  · refine .bind_reports (Adds.withRecords (commaList_reports (h.expr 0))) fun arguments =>
      .bind_quiet fun _ => .pure ?_
    simp [Expr.outline, Expr.outlineList_eq_map, reports, lint?, ← hexpr]
  · exact .bind_quiet fun _ => .pure (by simp [Expr.outline, reports, lint?, hexpr])

theorem alternative_reports (h : RulesReport rules) :
    Reports (fun other => reportsList (Alternative.outlineOption other)) (alternative rules) := by
  refine .bind_branch (.bind_branch ?_ ?_) (.pure (by simp [Alternative.outlineOption]))
  · exact .bind_reports h.elseIf fun next => .pure (by simp [Alternative.outlineOption])
  · exact .bind_reports h.block fun body => .pure (by simp [Alternative.outlineOption])

theorem conditional_reports (h : RulesReport rules) :
    Reports (fun expr => expr.outline.reports) (conditional rules) := by
  refine .bind_quiet fun start => .bind_reports (Adds.withRecords (h.expr 0)) fun condition => ?_
  refine .bind_reports h.block fun consequence => ?_
  refine .bind_reports (alternative_reports h) fun other => ?_
  exact .pure (by simp [Expr.outline, reports, lint?])

theorem whileLoop_reports (h : RulesReport rules) :
    Reports (fun expr => expr.outline.reports) (whileLoop rules) := by
  refine .bind_quiet fun start => .bind_reports (Adds.withRecords (h.expr 0)) fun condition => ?_
  exact .bind_reports h.block fun body => .pure (by simp [Expr.outline, reports, lint?])

theorem guard_reports (h : RulesReport rules) :
    Reports (fun condition => reportsList (Expr.outlineOption condition)) (guard rules) :=
  .bind_branch (.bind_reports (h.expr 0) fun condition => .pure (by simp [Expr.outlineOption]))
    (.pure (by simp [Expr.outlineOption]))

theorem armBody_reports (h : RulesReport rules) :
    Reports (fun body => body.outline.reports) (armBody rules) := by
  refine .bind_branch ?_ ?_
  · exact .bind_reports h.block fun body => .bind_quiet fun _ => .pure (by simp [ArmBody.outline])
  · refine .bind_reports (h.expr 0) fun value => .bind_branch ?_ (.bind_branch ?_ .refuse)
    · exact .pure (by simp [ArmBody.outline])
    · exact .pure (by simp [ArmBody.outline])

theorem arm_reports (h : RulesReport rules) :
    Reports (fun arm => arm.outline.reports) (arm rules) := by
  refine .bind_quiet fun variant => .bind_reports (guard_reports h) fun condition => ?_
  refine .bind_quiet fun _ => .bind_reports (armBody_reports h) fun body => ?_
  refine .bind_quiet fun last => ?_
  exact .pure (by simp [Arm.outline, reports, lint?])

/-- A match warns when it is at its end, and only if it has no arms. -/
theorem select_reports (h : RulesReport rules) :
    Reports (fun expr => expr.outline.reports) (select rules) := by
  have harms : Reports (fun arms => reportsList (Arm.outlineList arms))
      (repeated (armRound rules) []) := by
    simp only [Arm.outlineList_eq_map]
    refine .repeated (fun arms added => added = reportsList (arms.map Arm.outline)) rfl
      fun arms added hadded => .bind_branch (.pure (by simpa using hadded)) ?_
    exact .bind_reports (arm_reports h) fun arm => .pure (by simp [hadded])
  refine .bind_quiet fun start => .bind_reports (Adds.withRecords (h.expr 0)) fun scrutinee => ?_
  refine .bind_quiet fun _ => .bind_reports (Adds.withRecords harms) fun arms => ?_
  refine .bind_quiet fun right => ?_
  have hreports := Expr.reports_select scrutinee arms (start.span.hull right.span)
  cases hempty : arms.isEmpty with
  | true => exact .bind_warn (.pure (hreports.trans (by simp [hempty])).symm)
  | false => exact .pure (hreports.trans (by simp [hempty])).symm

/-! ## Operands -/

theorem parenthesized_reports (h : RulesReport rules) :
    Reports (fun expr => expr.outline.reports) (parenthesized rules) := by
  refine .bind_quiet fun left => .bind_branch ?_ ?_
  · exact .bind_quiet fun _ => .pure (by simp [Expr.outline, reports, lint?])
  · exact .bind_reports (Adds.withRecords (h.expr 0)) fun inner => .bind_quiet fun _ =>
      .pure (by simp [Expr.outline, reports, lint?])

theorem pathExpr_reports (h : RulesReport rules) :
    Reports (fun expr => expr.outline.reports) (pathExpr rules) := by
  refine .bind_quiet fun name => .bind_branch ?_ ?_
  · refine .bind_reports (record_reports .field (h.expr 0)) fun ⟨fields, span⟩ => .pure ?_
    simp [Expr.outline, Expr.outlineFields_eq_map, reports, lint?]
  · exact .pure (by simp [Expr.outline, reports, lint?])

theorem primary_reports (h : RulesReport rules) :
    Reports (fun expr => expr.outline.reports) (primary rules) := by
  refine .bind_quiet fun token => ?_
  split
  next => exact .bind_quiet fun _ => .pure (by simp [Expr.outline, reports, lint?])
  next =>
    split
    next => exact conditional_reports h
    next => exact whileLoop_reports h
    next => exact select_reports h
    next => exact parenthesized_reports h
    next => exact pathExpr_reports h
    next =>
      refine .bind_branch ?_ (.bind_quiet fun _ => .refuse)
      refine .bind_reports (record_reports .field (h.expr 0)) fun ⟨fields, span⟩ => .pure ?_
      simp [Expr.outline, Expr.outlineFields_eq_map, reports, lint?]

theorem earlyExit_reports (h : RulesReport rules) (exit : ExitKind) :
    Reports (fun expr => expr.outline.reports) (earlyExit rules exit) := by
  refine .bind_quiet fun keyword => .bind_branch ?_ ?_
  · exact .bind_reports (h.expr 0) fun value =>
      .pure (by simp [Expr.outline, Expr.outlineOption, reports, lint?])
  · exact .pure (by simp [Expr.outline, Expr.outlineOption, reports, lint?])

theorem operand_reports (h : RulesReport rules) :
    Reports (fun expr => expr.outline.reports) (operand rules) := by
  refine .bind_quiet fun token => ?_
  split
  next =>
    exact .bind_quiet fun _ => .bind_reports (h.expr _) fun inner =>
      .pure (by simp [Expr.outline, reports, lint?])
  next => exact earlyExit_reports h _
  next => exact .bind_reports (primary_reports h) fun first => postfixes_report h first

theorem operation_reports (h : RulesReport rules) (least : Nat) :
    Reports (fun expr => expr.outline.reports) (operation rules least) :=
  .nested (.bind_reports (operand_reports h) fun first => operators_report h first)

/-! ## Blocks -/

theorem binding_reports (h : RulesReport rules) :
    Reports (fun statement => statement.outline.reports) (binding rules) := by
  refine .bind_quiet fun start => .bind_quiet fun name => ?_
  refine .bind_reports (typeAfter_reports .colon) fun type => .bind_quiet fun _ => ?_
  refine .bind_reports (h.expr 0) fun value => .bind_quiet fun stop => .pure ?_
  simp [Statement.outline, reports, lint?]

theorem importStatement_reports :
    Reports (fun statement => statement.outline.reports) importStatement :=
  .bind_quiet fun (path, span) => .pure (by simp [Statement.outline, reports, lint?])

theorem control?_reports (h : RulesReport rules) {kind : Kind}
    {production : Parse (Expr Span Symbol)} (hcontrol : control? rules kind = some production) :
    Reports (fun expr => expr.outline.reports) production := by
  unfold control? at hcontrol
  split at hcontrol <;> cases hcontrol
  · exact conditional_reports h
  · exact whileLoop_reports h
  · exact select_reports h

theorem leadingExpr_reports (h : RulesReport rules) :
    Reports (fun expr => expr.outline.reports) (leadingExpr rules) := by
  refine .bind_quiet fun token => ?_
  split
  next production hproduction =>
    refine .bind_reports (control?_reports h hproduction) fun control => .bind_quiet fun token => ?_
    split
    · refine .bind (postfixes_report h control) fun first added hfirst => ?_
      exact (operators_report h first).mono fun expr more hexpr => by simp [← hexpr, ← hfirst]
    · exact .pure (by simp)
  next => exact h.expr 0

theorem statementRound_reports (h : RulesReport rules) {statements : List (Statement Span Symbol)}
    {added : List Warning} (hadded : added = reportsList (statements.map Statement.outline)) :
    Adds (statementRound rules statements)
      (Adds.Keeps (fun statements added => added = reportsList (statements.map Statement.outline))
        (fun contents added => added = reportsList (Contents.outline contents)) added) := by
  refine .bind_branch ?closes (.bind_branch ?binds (.bind_branch ?imports ?leads))
  case closes => exact .pure (by simp [Contents.outline, Expr.outlineOption, hadded])
  case binds => exact .bind_reports (binding_reports h) fun statement => .pure (by simp [hadded])
  case imports =>
    exact .bind_reports importStatement_reports fun statement => .pure (by simp [hadded])
  case leads =>
    refine .bind_reports (leadingExpr_reports h) fun value => .bind_branch ?_ (.bind_branch ?_ ?_)
    · exact .bind_quiet fun _ => .pure (by simp [Statement.outline, reports, lint?, hadded])
    · exact .pure (by simp [Contents.outline, Expr.outlineOption, hadded])
    · cases value.isControl with
      | true => exact .pure (by simp [Statement.outline, reports, lint?, hadded])
      | false => exact .refuse

theorem braces_report (h : RulesReport rules) :
    Reports (fun block => block.outline.reports) (braces rules) := by
  have hcontents : Reports (fun contents => reportsList (Contents.outline contents))
      (repeated (statementRound rules) []) :=
    .repeated (fun statements added => added = reportsList (statements.map Statement.outline)) rfl
      fun statements added hadded => statementRound_reports h hadded
  refine .nested (.bind_quiet fun left => .bind_reports (Adds.withRecords hcontents) ?_)
  rintro ⟨statements, tail⟩
  refine .bind_quiet fun right => .pure ?_
  simp [Block.outline, Contents.outline, Statement.outlineList_eq_map, reports, lint?]

theorem rulesWithin_report (levels : Nat) : RulesReport (rulesWithin levels) := by
  induction levels with
  | zero => exact ⟨fun _ => .refuse, .refuse, .refuse⟩
  | succ levels ih =>
      rw [rulesWithin_succ]
      exact ⟨operation_reports ih, braces_report ih, conditional_reports ih⟩

theorem block_reports : Reports (fun block => block.outline.reports) block :=
  .bounded fun levels => (rulesWithin_report levels).block

theorem expr_reports : Reports (fun expr => expr.outline.reports) expr :=
  .bounded fun levels => (rulesWithin_report levels).expr 0

/-! ## Items -/

theorem filterItem_reports (kind : FilterKind) :
    Reports (fun item => item.outline.reports) (filterItem kind) := by
  refine .bind_quiet fun start => .bind_quiet fun name => ?_
  refine .bind_reports parameters_reports fun parameters => ?_
  refine .bind_reports block_reports fun body => ?_
  exact .pure (by simp [Item.outline, reports, lint?])

theorem functionItem_reports : Reports (fun item => item.outline.reports) functionItem := by
  refine .bind_quiet fun start => .bind_quiet fun name => ?_
  refine .bind_reports parameters_reports fun parameters => ?_
  refine .bind_reports (typeAfter_reports .arrow) fun returns => ?_
  refine .bind_reports block_reports fun body => ?_
  exact .pure (by simp [Item.outline, reports, lint?])

theorem recordItem_reports : Reports (fun item => item.outline.reports) recordItem := by
  refine .bind_quiet fun start => .bind_quiet fun name => ?_
  refine .bind_reports (record_reports .typeField type_reports) fun fields => .pure ?_
  cases fields
  simp [Item.outline, TypeExpr.outlineFields_eq_map, reports, lint?]

theorem item_reports : Reports (fun item => item.outline.reports) item := by
  refine .bind_quiet fun token => ?_
  split
  next =>
    refine .bind_quiet fun imported => .pure ?_
    cases imported
    simp [Item.outline, reports, lint?]
  next => exact filterItem_reports .filtermap
  next => exact filterItem_reports .filter
  next => exact functionItem_reports
  next => exact recordItem_reports
  next =>
    refine .bind_quiet fun start => .bind_quiet fun name => ?_
    refine .bind_reports block_reports fun body => ?_
    exact .pure (by simp [Item.outline, reports, lint?])
  next => exact .bind_quiet fun _ => .refuse

theorem script_reports : Reports (fun script => script.outline.reports) script := by
  have hitems : Reports (fun items => reportsList (items.map Item.outline))
      (repeated itemRound []) := by
    refine .repeated (fun items added => added = reportsList (items.map Item.outline)) rfl
      fun items added hadded => .bind_branch (.pure (by simpa using hadded)) ?_
    exact .bind_reports item_reports fun item => .pure (by simp [hadded])
  refine .bind_quiet fun first => .bind_reports hitems fun items => .bind_quiet fun stop => ?_
  exact .pure (by simp [Script.outline, reports, lint?])

theorem loneExpr_reports : Reports (fun expr => expr.outline.reports) loneExpr :=
  .bind_reports expr_reports fun _ => .bind_branch (.pure (by simp)) .refuse

end Grammar

/-- A run from the start of a source has the warnings that its production adds. -/
theorem warnings_of_runOn {α : Type} {production : Parse α} {warnings : α → List Warning}
    {limit : Option Nat} {source : String} {parsed : Parsed α}
    (hreports : Parse.Reports warnings production)
    (h : runOn production limit source = .ok parsed) : parsed.warnings = warnings parsed.tree := by
  unfold runOn at h
  split at h
  next tree after hrun =>
    cases h
    obtain ⟨added, hadded, hreports⟩ := hreports _ tree after hrun
    exact hadded.trans hreports
  next => cases h

end FilterScript
