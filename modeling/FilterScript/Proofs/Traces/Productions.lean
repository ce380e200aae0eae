import FilterScript.Parsed
import FilterScript.Proofs.Traces.Runs

/-!
# Every production has its run

The steps of a run are those of the production, so there is a run from every state
to whatever the production gives. With what holds of runs, every production comes
back to the context it was started in and stays within the limit on the way.
-/

namespace FilterScript

namespace Parse

variable {α β : Type}

/-- A production that can be followed step by step from every state. -/
class Traced (production : Parse α) : Prop where
  exists_runs : ∀ state, ∃ visited, Runs production state visited (production state)

namespace Traced

instance (result : α) : Traced (pure result) :=
  ⟨fun state => ⟨_, .pure result state⟩⟩

instance (fault : Fault) : Traced (throw fault : Parse α) :=
  ⟨fun state => ⟨_, .throw fault state⟩⟩

instance : Traced (get : Parse State) :=
  ⟨fun state => ⟨_, .get state⟩⟩

instance (ahead : Nat) : Traced (peekAt ahead) :=
  ⟨fun state => ⟨_, .peekAt ahead state⟩⟩

instance : Traced advance :=
  ⟨fun state => ⟨_, .advance state⟩⟩

instance (expected : Expected) : Traced (want expected) :=
  ⟨fun state => ⟨_, .want expected state⟩⟩

instance (lint : Lint) (span : Span) : Traced (warn lint span) :=
  ⟨fun state => ⟨_, .warn lint span state⟩⟩

instance (text : String) : Traced (intern text) :=
  ⟨fun state => ⟨_, .intern text state⟩⟩

protected theorem bind {production : Parse α} {next : α → Parse β} (h : Traced production)
    (hnext : ∀ result, Traced (next result)) : Traced (production >>= next) where
  exists_runs state := by
    obtain ⟨visited, hfirst⟩ := h.exists_runs state
    cases hrun : production state with
    | ok result between =>
        rw [hrun] at hfirst
        obtain ⟨others, hrest⟩ := (hnext result).exists_runs between
        rw [bind_eq_of_ok hrun]
        exact ⟨visited ++ others, .bind hfirst hrest⟩
    | error fault after =>
        rw [hrun] at hfirst
        rw [bind_eq_of_error hrun]
        exact ⟨visited, .stop hfirst⟩

instance {production : Parse α} {next : α → Parse β} [Traced production]
    [∀ result, Traced (next result)] : Traced (production >>= next) :=
  .bind inferInstance inferInstance

instance {condition : Prop} [Decidable condition] {yes no : Parse α} [Traced yes] [Traced no] :
    Traced (if condition then yes else no) := by
  split <;> infer_instance

instance : Traced peek :=
  inferInstanceAs (Traced (peekAt 0))

instance : Traced (refuse : Parse α) :=
  .bind inferInstance fun _ => .bind inferInstance fun _ => inferInstance

instance (limit : Nat) : Traced (refuseLevel limit : Parse α) :=
  .bind inferInstance fun _ => inferInstance

instance (kind : Kind) : Traced (nextIs kind) :=
  inferInstanceAs (Traced (peek >>= fun token => pure (token.kind.variant == kind.variant)))

instance (kind : Kind) : Traced (accepts kind) := by
  unfold accepts
  infer_instance

instance (kind : Kind) : Traced (takes kind) := by
  unfold takes
  infer_instance

instance (kind : Kind) : Traced (expect kind) := by
  unfold expect
  infer_instance

instance (allowed : Bool) (production : Parse α) [h : Traced production] :
    Traced (withRecords allowed production) where
  exists_runs state := by
    obtain ⟨visited, hinner⟩ := h.exists_runs (allowing allowed state)
    rw [withRecords_eq]
    exact ⟨_, .withRecords hinner⟩

protected theorem nested {production : Parse α} (h : Traced production) :
    Traced (nested production) where
  exists_runs state := by
    cases hreached : state.reachedLimit? with
    | none =>
        obtain ⟨visited, hinner⟩ := h.exists_runs (deeper state)
        rw [nested_of_room hreached]
        exact ⟨_, .nested hreached hinner⟩
    | some limit =>
        have hrefusal : Traced (refuseLevel limit : Parse α) := inferInstance
        obtain ⟨visited, hrefuse⟩ := hrefusal.exists_runs state
        rw [nested_of_limit hreached]
        exact ⟨_, .tooDeep hreached hrefuse⟩

instance (production : Parse α) [Traced production] : Traced (nested production) :=
  .nested inferInstance

instance (production : Nat → Parse α) [h : ∀ most, Traced (production most)] :
    Traced (bounded production) where
  exists_runs state := by
    obtain ⟨visited, hinner⟩ := (h _).exists_runs state
    exact ⟨visited, .bounded hinner⟩

instance (round : α → Parse (Round α β)) [∀ value, Traced (round value)] (most : Nat) (value : α) :
    Traced (rounds round most value) := by
  induction most generalizing value with
  | zero => exact inferInstanceAs (Traced refuse)
  | succ most ih =>
      exact .bind inferInstance fun result => by
        cases result <;> infer_instance

instance (round : α → Parse (Round α β)) [∀ value, Traced (round value)] (first : α) :
    Traced (repeated round first) :=
  inferInstanceAs (Traced (bounded fun most => rounds round most first))

end Traced

end Parse

namespace Grammar

open Parse

variable {α : Type}

instance : Traced ident :=
  .bind inferInstance fun token => by
    split <;> infer_instance

instance : Traced pathContinues := by
  unfold pathContinues
  infer_instance

instance (rest : List (Ident Span Symbol)) : Traced (pathRound rest) := by
  unfold pathRound
  infer_instance

instance : Traced path := by
  unfold path
  infer_instance

instance (close : Kind) : Traced (loneComma close) := by
  unfold loneComma
  infer_instance

section Lists

variable (close : Kind) (element : Parse α) [Traced element]

instance (elements : List α) : Traced (listRound close element elements) := by
  unfold listRound
  infer_instance

instance : Traced (commaList close element) := by
  unfold commaList
  infer_instance

instance (spanOf : α → Span) : Traced (field spanOf element) := by
  unfold field
  infer_instance

instance (spanOf : α → Span) : Traced (record spanOf element) := by
  unfold record
  infer_instance

end Lists

/-! ## Imports and types -/

section

variable (member : Parse (ImportPath Span Symbol)) [Traced member]

instance : Traced (importPart member) :=
  .bind inferInstance fun token => by
    split <;> infer_instance

instance (parts : List (ImportPart Span Symbol)) : Traced (importRound member parts) :=
  .bind inferInstance fun part => by
    cases part
    infer_instance

end

instance (levels : Nat) : Traced (importPathWithin levels) := by
  induction levels with
  | zero => exact inferInstanceAs (Traced refuse)
  | succ levels ih =>
      exact .nested (.bind inferInstance fun start => .bind inferInstance fun ends => by
        cases ends
        infer_instance)

instance : Traced importPath := by
  unfold importPath
  infer_instance

instance : Traced importDeclaration := by
  unfold importDeclaration
  infer_instance

section

variable (type : Parse (TypeExpr Span Symbol)) [Traced type]

instance : Traced (namedType type) := by
  unfold namedType
  infer_instance

instance : Traced (typeAtom type) :=
  .bind inferInstance fun token => by
    split <;> infer_instance

end

instance (type : TypeExpr Span Symbol) : Traced (optionalRound type) := by
  unfold optionalRound
  infer_instance

instance (levels : Nat) : Traced (typeWithin levels) := by
  induction levels with
  | zero => exact inferInstanceAs (Traced refuse)
  | succ levels ih =>
      unfold typeWithin
      infer_instance

instance : Traced type := by
  unfold type
  infer_instance

instance : Traced parameters := by
  unfold parameters
  infer_instance

/-! ## Expressions and blocks -/

/-- The productions that others go back to can be followed. -/
class RulesTraced (rules : Rules) : Prop where
  expr : ∀ least, Traced (rules.expr least)
  block : Traced rules.block
  elseIf : Traced rules.elseIf

attribute [instance] RulesTraced.expr RulesTraced.block RulesTraced.elseIf

section

variable (rules : Rules) [RulesTraced rules]

instance (least : Nat) (left : Expr Span Symbol) : Traced (operatorRound rules least left) :=
  .bind inferInstance fun token => by
    split <;> infer_instance

instance (least : Nat) (first : Expr Span Symbol) : Traced (operators rules least first) := by
  unfold operators
  infer_instance

instance (expr : Expr Span Symbol) : Traced (postfixRound rules expr) := by
  unfold postfixRound
  infer_instance

instance (first : Expr Span Symbol) : Traced (postfixes rules first) := by
  unfold postfixes
  infer_instance

instance : Traced (alternative rules) := by
  unfold alternative
  infer_instance

instance : Traced (conditional rules) := by
  unfold conditional
  infer_instance

instance : Traced (whileLoop rules) := by
  unfold whileLoop
  infer_instance

instance : Traced pattern := by
  unfold pattern
  infer_instance

instance : Traced (guard rules) := by
  unfold guard
  infer_instance

instance : Traced blockNext := by
  unfold blockNext
  infer_instance

instance : Traced (armBody rules) := by
  unfold armBody
  infer_instance

instance : Traced (arm rules) := by
  unfold arm
  infer_instance

instance (arms : List (Arm Span Symbol)) : Traced (armRound rules arms) := by
  unfold armRound
  infer_instance

instance : Traced (select rules) := by
  unfold select
  infer_instance

instance : Traced (parenthesized rules) := by
  unfold parenthesized
  infer_instance

instance : Traced recordNext := by
  unfold recordNext
  infer_instance

instance : Traced (pathExpr rules) := by
  unfold pathExpr
  infer_instance

instance : Traced (primary rules) :=
  .bind inferInstance fun token => by
    split
    · infer_instance
    · split <;> infer_instance

instance : Traced exprNext := by
  unfold exprNext
  infer_instance

instance (kind : ExitKind) : Traced (earlyExit rules kind) := by
  unfold earlyExit
  infer_instance

instance : Traced (operand rules) :=
  .bind inferInstance fun token => by
    split <;> infer_instance

instance (least : Nat) : Traced (operation rules least) := by
  unfold operation
  infer_instance

instance : Traced annotation := by
  unfold annotation
  infer_instance

instance : Traced (binding rules) := by
  unfold binding
  infer_instance

instance : Traced importStatement :=
  .bind inferInstance fun declared => by
    cases declared
    infer_instance

theorem control?_traced {kind : Kind} {production : Parse (Expr Span Symbol)}
    (h : control? rules kind = some production) : Traced production := by
  unfold control? at h
  split at h <;> cases h <;> infer_instance

instance : Traced (leadingExpr rules) :=
  .bind inferInstance fun token => by
    split
    next production hproduction =>
      have := control?_traced rules hproduction
      infer_instance
    next => infer_instance

set_option synthInstance.maxSize 512 in
instance (statements : List (Statement Span Symbol)) : Traced (statementRound rules statements) := by
  unfold statementRound
  infer_instance

instance : Traced (braces rules) :=
  .nested (.bind inferInstance fun left => .bind inferInstance fun contents => by
    cases contents
    infer_instance)

end

instance (levels : Nat) : RulesTraced (rulesWithin levels) := by
  induction levels with
  | zero => exact ⟨fun _ => inferInstanceAs (Traced refuse), inferInstanceAs (Traced refuse),
      inferInstanceAs (Traced refuse)⟩
  | succ levels ih =>
      rw [rulesWithin_succ]
      exact ⟨fun least => inferInstanceAs (Traced (operation _ least)),
        inferInstanceAs (Traced (braces _)), inferInstanceAs (Traced (conditional _))⟩

instance : Traced block := by
  unfold block
  infer_instance

instance : Traced expr := by
  unfold expr
  infer_instance

/-! ## Items -/

instance : Traced importItem :=
  .bind inferInstance fun declared => by
    cases declared
    infer_instance

instance (kind : FilterKind) : Traced (filterItem kind) := by
  unfold filterItem
  infer_instance

instance : Traced returnType := by
  unfold returnType
  infer_instance

instance : Traced functionItem := by
  unfold functionItem
  infer_instance

instance : Traced recordItem := by
  unfold recordItem
  infer_instance

instance : Traced testItem := by
  unfold testItem
  infer_instance

instance : Traced item :=
  .bind inferInstance fun token => by
    split <;> infer_instance

/-- The productions, and the lists of any of them. -/
inductive IsProduction : {α : Type} → Parse α → Prop
  | item : IsProduction item
  | block (levels : Nat) : IsProduction (rulesWithin levels).block
  | expr (levels least : Nat) : IsProduction ((rulesWithin levels).expr least)
  | operators (levels least : Nat) (first : Expr Span Symbol) :
      IsProduction (operators (rulesWithin levels) least first)
  | postfixes (levels : Nat) (first : Expr Span Symbol) :
      IsProduction (postfixes (rulesWithin levels) first)
  | select (levels : Nat) : IsProduction (select (rulesWithin levels))
  | pattern : IsProduction pattern
  | type (levels : Nat) : IsProduction (typeWithin levels)
  | importPath (levels : Nat) : IsProduction (importPathWithin levels)
  | ident : IsProduction ident
  | field {α : Type} (spanOf : α → Span) {value : Parse α} (h : IsProduction value) :
      IsProduction (field spanOf value)
  | commaList {α : Type} (close : Kind) {element : Parse α} (h : IsProduction element) :
      IsProduction (commaList close element)
  | bounded {α : Type} {production : Nat → Parse α} (h : ∀ levels, IsProduction (production levels)) :
      IsProduction (bounded production)

theorem IsProduction.traced {production : Parse α} (h : IsProduction production) :
    Traced production := by
  induction h with
  | item | block | expr | operators | postfixes | select | pattern | type | importPath | ident =>
      infer_instance
  | field spanOf h ih => infer_instance
  | commaList close h ih => infer_instance
  | bounded h ih => infer_instance

/-- Every production, started in a state with at most as many open levels as may be
open at once, is run step by step, and in no step more levels are open. Whether it
succeeds or fails, in the end as many levels are open as before and braces open
records if they did before, warnings and names are those from before and more behind
them, and what is left of the input is the last part of what there was. -/
theorem production_restores {production : Parse α} (hproduction : IsProduction production)
    {state : State} (hlimit : state.limit = nestingLimit)
    (hdepth : state.context.depth ≤ nestingLimit) :
    (∃ visited, Runs production state visited (production state)) ∧
    ∀ visited last, Runs production state visited last →
      production state = last ∧
      (∀ context ∈ visited, context.depth ≤ nestingLimit) ∧
      (lastState last).context.depth = state.context.depth ∧
      (lastState last).context.records = state.context.records ∧
      state.warnings <+: (lastState last).warnings ∧
      state.names.texts <+: (lastState last).names.texts ∧
      (lastState last).input.scans <:+ state.input.scans := by
  constructor
  · exact hproduction.traced.exists_runs state
  · intro visited last hrun
    have hextends := hrun.extends_state
    exact ⟨hrun.eq_last, hrun.depth_le hlimit hdepth, congrArg Context.depth hextends.context,
      congrArg Context.records hextends.context, hextends.warnings, hextends.names,
      hextends.scans⟩

/-- Arguments that start at the last level but one, and fail for the second
parenthesis. -/
theorem production_restores_of_parentheses :
    ∃ state : State, IsProduction (commaList Punct.rparen expr) ∧
      state.limit = nestingLimit ∧ state.context.depth ≤ nestingLimit ∧
      ∃ visited fault after,
        Runs (commaList Punct.rparen expr) state visited (.error fault after) ∧
        fault.cause = .tooDeep nestingLimit ∧
        (∀ context ∈ visited, context.depth ≤ nestingLimit) ∧
        after.context.depth = state.context.depth ∧
        after.context.records = state.context.records ∧
        state.warnings <+: after.warnings ∧ state.names.texts <+: after.names.texts ∧
        after.input.scans <:+ state.input.scans := by
  let state : State := { State.ofSource nestingLimit "((1" with context := ⟨255, false⟩ }
  have hproduction : IsProduction (commaList Punct.rparen expr) :=
    .commaList _ (.bounded fun levels => .expr levels 0)
  have hlimit : state.limit = nestingLimit := rfl
  have hdepth : state.context.depth ≤ nestingLimit := by decide
  obtain ⟨⟨visited, hruns⟩, hrestores⟩ := production_restores hproduction hlimit hdepth
  have hfault : commaList Punct.rparen expr state = .error ⟨.tooDeep 256, ⟨1, 2⟩⟩
      { state with input := ⟨[.ok ⟨.punct .lparen, ⟨1, 2⟩⟩, .ok ⟨.integer "1", ⟨2, 3⟩⟩], 3⟩ } := by
    rfl
  rw [hfault] at hruns
  obtain ⟨-, hlevels, hkept⟩ := hrestores _ _ hruns
  exact ⟨state, hproduction, hlimit, hdepth, visited, _, _, hruns, rfl, hlevels, hkept⟩

end Grammar

end FilterScript
