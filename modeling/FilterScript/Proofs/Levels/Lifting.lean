import FilterScript.Proofs.Levels.Expressions
import FilterScript.Proofs.Steady

/-!
# Fewer open levels

A run that succeeds does the same where fewer levels are open. The limit is not
reached there either, and nothing else asks how many levels there are. It also does
the same if the productions that others go back to may be called more deeply. Both
hold of every step and are kept by every way of combining steps, so they are one
class whose instances follow the productions.
-/

namespace FilterScript

namespace State

/-- The state with this many levels open. -/
def atDepth (depth : Nat) (state : State) : State :=
  { state with context := { state.context with depth } }

@[simp] theorem atDepth_input (depth : Nat) (state : State) :
    (state.atDepth depth).input = state.input := rfl

@[simp] theorem atDepth_warnings (depth : Nat) (state : State) :
    (state.atDepth depth).warnings = state.warnings := rfl

@[simp] theorem atDepth_names (depth : Nat) (state : State) :
    (state.atDepth depth).names = state.names := rfl

@[simp] theorem atDepth_records (depth : Nat) (state : State) :
    (state.atDepth depth).context.records = state.context.records := rfl

theorem atDepth_noting (depth : Nat) (expected : Expected) (state : State) :
    (state.atDepth depth).noting expected = (state.noting expected).atDepth depth := by
  change (if expected ∈ state.expected then _ else _) = (ite _ _ _ : State).atDepth depth
  split <;> rfl

theorem atDepth_reachedLimit? {depth : Nat} {state : State} (h : state.reachedLimit? = none)
    (hdepth : depth ≤ state.context.depth) : (state.atDepth depth).reachedLimit? = none := by
  rw [reachedLimit?, Option.filter_eq_none_iff] at h ⊢
  intro limit hlimit
  have hbelow := h limit hlimit
  rw [decide_eq_true_eq] at hbelow ⊢
  exact fun hreached => hbelow (Nat.le_trans hreached hdepth)

end State

namespace Parse

variable {α β : Type}

/-- The run of what stands one level deeper, if there is room for it. -/
theorem nested_eq_ok_iff {production : Parse α} {state after : State} {result : α} :
    nested production state = .ok result after ↔ state.reachedLimit? = none ∧
      within .level production state = .ok result after := by
  rw [nested_eq]
  cases state.reachedLimit? with
  | none => simp
  | some limit =>
      refine ⟨fun hrun => ?_, fun h => by cases h.1⟩
      obtain ⟨_, _, _, hthrow⟩ := bind_eq_ok_iff.mp hrun
      cases hthrow

/-- What the one production does when it succeeds, the other does where fewer levels
are open. -/
class Lifts (production other : Parse α) : Prop where
  lifts : ∀ {state result after}, production state = .ok result after →
    ∀ depth ≤ state.context.depth, other (state.atDepth depth) = .ok result (after.atDepth depth)

namespace Lifts

/-- A step that cannot fail and does not ask how many levels are open. -/
theorem of_step {production : Parse α} {result : State → α} {step : State → State}
    (hrun : ∀ state, production state = .ok (result state) (step state))
    (hresult : ∀ depth state, result (state.atDepth depth) = result state)
    (hstep : ∀ depth state, step (state.atDepth depth) = (step state).atDepth depth) :
    Lifts production production where
  lifts {state _ _} h depth _ := by
    cases (hrun state).symm.trans h
    rw [hrun, hresult, hstep]

instance (result : α) : Lifts (pure result : Parse α) (pure result) :=
  of_step (fun _ => rfl) (fun _ _ => rfl) fun _ _ => rfl

protected theorem bind {production other : Parse α} {next next' : α → Parse β} [Steady production]
    (h : Lifts production other) (hnext : ∀ result, Lifts (next result) (next' result)) :
    Lifts (production >>= next) (other >>= next') where
  lifts hrun depth hdepth := by
    obtain ⟨result, between, hproduction, hrest⟩ := bind_eq_ok_iff.mp hrun
    rw [bind_eq_of_ok (h.lifts hproduction depth hdepth)]
    rw [← (Steady.follows hproduction).context] at hdepth
    exact (hnext result).lifts hrest depth hdepth

instance {production other : Parse α} {next next' : α → Parse β} [Steady production]
    [Lifts production other] [∀ result, Lifts (next result) (next' result)] :
    Lifts (production >>= next) (other >>= next') :=
  .bind inferInstance inferInstance

theorem bind_get {next next' : State → Parse β}
    (h : ∀ depth state, Lifts (next state) (next' (state.atDepth depth))) :
    Lifts (get >>= next) (get >>= next') where
  lifts {state _ _} hrun depth hdepth := (h depth state).lifts hrun depth hdepth

instance {condition : Prop} [Decidable condition] {yes yes' no no' : Parse α} [Lifts yes yes']
    [Lifts no no'] : Lifts (if condition then yes else no) (if condition then yes' else no') := by
  split <;> infer_instance

instance (ahead : Nat) : Lifts (peekAt ahead) (peekAt ahead) where
  lifts hrun depth _ := by
    obtain ⟨hshown, rfl⟩ := peekAt_eq_ok_iff.mp hrun
    exact peekAt_eq_ok_iff.mpr ⟨hshown, rfl⟩

instance : Lifts peek peek :=
  inferInstanceAs (Lifts (peekAt 0) (peekAt 0))

instance : Lifts advance advance where
  lifts {state _ _} hrun depth _ := by
    unfold advance at hrun ⊢
    rw [State.atDepth_input]
    split at hrun <;> cases hrun <;> rfl

instance (expected : Expected) : Lifts (want expected) (want expected) :=
  of_step (want_eq expected) (fun _ _ => rfl) fun depth state =>
    state.atDepth_noting depth expected

instance (lint : Lint) (span : Span) : Lifts (warn lint span) (warn lint span) :=
  of_step (fun _ => rfl) (fun _ _ => rfl) fun _ _ => rfl

instance (text : String) : Lifts (intern text) (intern text) :=
  of_step (fun _ => rfl) (fun _ _ => rfl) fun _ _ => rfl

/-- What never succeeds may be done in any way instead. -/
instance (other : Parse α) : Lifts refuse other where
  lifts hrun := (refuse_ne_ok hrun).elim

instance (kind : Kind) : Lifts (nextIs kind) (nextIs kind) := by
  unfold nextIs
  infer_instance

instance (kind : Kind) : Lifts (accepts kind) (accepts kind) := by
  unfold accepts
  infer_instance

instance (kind : Kind) : Lifts (takes kind) (takes kind) := by
  unfold takes
  infer_instance

instance (kind : Kind) : Lifts (expect kind) (expect kind) := by
  unfold expect
  infer_instance

instance (allowed : Bool) (production other : Parse α) [Lifts production other] :
    Lifts (withRecords allowed production) (withRecords allowed other) where
  lifts hrun depth hdepth := by
    obtain ⟨inner, hinner, rfl⟩ := within_eq_ok_iff.mp hrun
    exact within_eq_ok_iff.mpr ⟨_, Lifts.lifts hinner depth hdepth, rfl⟩

instance (production other : Parse α) [Lifts production other] :
    Lifts (nested production) (nested other) where
  lifts hrun depth hdepth := by
    obtain ⟨hlimit, hrun⟩ := nested_eq_ok_iff.mp hrun
    obtain ⟨inner, hinner, rfl⟩ := within_eq_ok_iff.mp hrun
    have hother : other _ = .ok _ (inner.atDepth (depth + 1)) :=
      Lifts.lifts hinner (depth + 1) (Nat.succ_le_succ hdepth)
    exact nested_eq_ok_iff.mpr
      ⟨State.atDepth_reachedLimit? hlimit hdepth, within_eq_ok_iff.mpr ⟨_, hother, rfl⟩⟩

instance (production other : Nat → Parse α) [h : ∀ most, Lifts (production most) (other most)] :
    Lifts (bounded production) (bounded other) where
  lifts hrun := (h _).lifts hrun

section

variable (round round' : α → Parse (Round α β)) [∀ value, Steady (round value)]
  [∀ value, Lifts (round value) (round' value)]

instance (most : Nat) (value : α) : Lifts (rounds round most value) (rounds round' most value) := by
  induction most generalizing value with
  | zero => exact inferInstanceAs (Lifts refuse _)
  | succ most ih =>
      exact .bind inferInstance fun result => by
        cases result <;> infer_instance

instance (first : α) : Lifts (repeated round first) (repeated round' first) :=
  inferInstanceAs (Lifts (bounded fun most => rounds round most first) (bounded _))

end

end Lifts

end Parse

namespace Grammar

open Parse

variable {α : Type}

instance : Lifts ident ident :=
  .bind inferInstance fun token => by
    split <;> infer_instance

instance : Lifts pathContinues pathContinues := by
  unfold pathContinues
  infer_instance

instance (rest : List (Ident Span Symbol)) : Lifts (pathRound rest) (pathRound rest) := by
  unfold pathRound
  infer_instance

instance : Lifts path path := by
  unfold path
  infer_instance

instance (close : Kind) : Lifts (loneComma close) (loneComma close) := by
  unfold loneComma
  infer_instance

section Lists

variable (close : Kind) (element element' : Parse α) [Steady element] [Lifts element element']

instance (elements : List α) :
    Lifts (listRound close element elements) (listRound close element' elements) := by
  unfold listRound
  infer_instance

instance : Lifts (commaList close element) (commaList close element') := by
  unfold commaList
  infer_instance

instance (spanOf : α → Span) : Lifts (field spanOf element) (field spanOf element') := by
  unfold field
  infer_instance

instance (spanOf : α → Span) : Lifts (record spanOf element) (record spanOf element') := by
  unfold record
  infer_instance

end Lists

/-! ## Imports and types -/

section

variable (member : Parse (ImportPath Span Symbol)) [Steady member] [Lifts member member]

instance : Lifts (importPart member) (importPart member) :=
  .bind inferInstance fun token => by
    split <;> infer_instance

instance (parts : List (ImportPart Span Symbol)) :
    Lifts (importRound member parts) (importRound member parts) :=
  .bind inferInstance fun (part, span) => by
    infer_instance

end

instance (levels : Nat) : Lifts (importPathWithin levels) (importPathWithin levels) := by
  induction levels with
  | zero => exact inferInstanceAs (Lifts refuse _)
  | succ levels ih =>
      have (start : Token) : Lifts (do
          let (parts, last) ← repeated (importRound (importPathWithin levels)) []
          return (⟨parts, start.span.hull last⟩ : ImportPath Span Symbol)) (do
          let (parts, last) ← repeated (importRound (importPathWithin levels)) []
          return (⟨parts, start.span.hull last⟩ : ImportPath Span Symbol)) :=
        .bind inferInstance fun (parts, last) => inferInstanceAs (Lifts (pure _) (pure _))
      exact inferInstanceAs (Lifts (nested _) (nested _))

instance : Lifts importPath importPath := by
  unfold importPath
  infer_instance

instance : Lifts importDeclaration importDeclaration := by
  unfold importDeclaration
  infer_instance

section

variable (type : Parse (TypeExpr Span Symbol)) [Steady type] [Lifts type type]

instance : Lifts (namedType type) (namedType type) := by
  unfold namedType
  infer_instance

instance : Lifts (typeAtom type) (typeAtom type) :=
  .bind inferInstance fun token => by
    split <;> infer_instance

end

instance (type : TypeExpr Span Symbol) : Lifts (optionalRound type) (optionalRound type) := by
  unfold optionalRound
  infer_instance

instance (levels : Nat) : Lifts (typeWithin levels) (typeWithin levels) := by
  induction levels with
  | zero => exact inferInstanceAs (Lifts refuse _)
  | succ levels ih =>
      unfold typeWithin
      infer_instance

instance : Lifts type type := by
  unfold type
  infer_instance

/-! ## Expressions and blocks -/

/-- The productions that others go back to lift. -/
class RulesLift (rules rules' : Rules) : Prop where
  expr : ∀ least, Lifts (rules.expr least) (rules'.expr least)
  block : Lifts rules.block rules'.block
  elseIf : Lifts rules.elseIf rules'.elseIf

attribute [instance] RulesLift.expr RulesLift.block RulesLift.elseIf

section

variable (rules rules' : Rules) [RulesSteady rules] [RulesLift rules rules']

instance (least : Nat) (left : Expr Span Symbol) :
    Lifts (operatorRound rules least left) (operatorRound rules' least left) :=
  .bind inferInstance fun token => by
    cases BinaryOp.ofKind? token.kind <;> infer_instance

instance (least : Nat) (first : Expr Span Symbol) :
    Lifts (operators rules least first) (operators rules' least first) := by
  unfold operators
  infer_instance

set_option synthInstance.maxSize 512 in
instance (expr : Expr Span Symbol) : Lifts (postfixRound rules expr) (postfixRound rules' expr) := by
  unfold postfixRound
  infer_instance

instance (first : Expr Span Symbol) : Lifts (postfixes rules first) (postfixes rules' first) := by
  unfold postfixes
  infer_instance

instance : Lifts (alternative rules) (alternative rules') := by
  unfold alternative
  infer_instance

instance : Lifts (conditional rules) (conditional rules') := by
  unfold conditional
  infer_instance

instance : Lifts (whileLoop rules) (whileLoop rules') := by
  unfold whileLoop
  infer_instance

set_option synthInstance.maxSize 512 in
instance : Lifts pattern pattern := by
  unfold pattern
  infer_instance

instance : Lifts (guard rules) (guard rules') := by
  unfold guard
  infer_instance

instance : Lifts blockNext blockNext := by
  unfold blockNext
  infer_instance

instance : Lifts (armBody rules) (armBody rules') := by
  unfold armBody
  infer_instance

instance : Lifts (arm rules) (arm rules') := by
  unfold arm
  infer_instance

instance (arms : List (Arm Span Symbol)) : Lifts (armRound rules arms) (armRound rules' arms) := by
  unfold armRound
  infer_instance

instance : Lifts (select rules) (select rules') := by
  unfold select
  infer_instance

instance : Lifts (parenthesized rules) (parenthesized rules') := by
  unfold parenthesized
  infer_instance

instance : Lifts recordNext recordNext :=
  .bind_get fun depth state => by
    rw [State.atDepth_records]
    infer_instance

instance : Lifts (pathExpr rules) (pathExpr rules') := by
  unfold pathExpr
  infer_instance

instance : Lifts (primary rules) (primary rules') :=
  .bind inferInstance fun token => by
    cases literal? token.kind with
    | some value => infer_instance
    | none =>
        dsimp only
        split <;> infer_instance

instance : Lifts exprNext exprNext :=
  .bind inferInstance fun token => .bind_get fun depth state => by
    rw [State.atDepth_records]
    infer_instance

instance (kind : ExitKind) : Lifts (earlyExit rules kind) (earlyExit rules' kind) := by
  unfold earlyExit
  infer_instance

instance : Lifts (operand rules) (operand rules') :=
  .bind inferInstance fun token => by
    cases UnaryOp.ofKind? token.kind <;> cases ExitKind.ofKind? token.kind <;> infer_instance

instance (least : Nat) : Lifts (operation rules least) (operation rules' least) := by
  unfold operation
  infer_instance

instance : Lifts annotation annotation := by
  unfold annotation
  infer_instance

instance : Lifts (binding rules) (binding rules') := by
  unfold binding
  infer_instance

instance : Lifts importStatement importStatement :=
  .bind inferInstance fun (_, _) => inferInstanceAs (Lifts (pure _) (pure _))

theorem control?_lifts {kind : Kind} {production : Parse (Expr Span Symbol)}
    (h : control? rules kind = some production) :
    ∃ other, control? rules' kind = some other ∧ Lifts production other := by
  unfold control? at h
  split at h <;> cases h <;> exact ⟨_, rfl, inferInstance⟩

instance : Lifts (leadingExpr rules) (leadingExpr rules') :=
  .bind inferInstance fun token => by
    cases hcontrol : control? rules token.kind with
    | some production =>
        obtain ⟨other, hother, _⟩ := control?_lifts rules rules' hcontrol
        have := control?_steady rules hcontrol
        rw [hother]
        infer_instance
    | none =>
        rw [control?_eq_none (isControl_of_control? hcontrol)]
        infer_instance

set_option synthInstance.maxSize 512 in
instance (statements : List (Statement Span Symbol)) :
    Lifts (statementRound rules statements) (statementRound rules' statements) := by
  unfold statementRound
  infer_instance

instance : Lifts (braces rules) (braces rules') := by
  have (left : Token) (contents : Contents) : Lifts (do
      let (statements, tail) := contents
      let right ← expect Punct.rbrace
      return (⟨statements, tail, left.span.hull right.span⟩ : Block Span Symbol)) (do
      let (statements, tail) := contents
      let right ← expect Punct.rbrace
      return (⟨statements, tail, left.span.hull right.span⟩ : Block Span Symbol)) := by
    infer_instance
  exact inferInstanceAs (Lifts (nested _) (nested _))

end

/-- Calls may be deeper than those that are made. -/
theorem rulesWithin_lift {levels more : Nat} (h : levels ≤ more) :
    RulesLift (rulesWithin levels) (rulesWithin more) := by
  induction levels generalizing more with
  | zero => exact ⟨fun _ => inferInstanceAs (Lifts refuse _), inferInstanceAs (Lifts refuse _),
      inferInstanceAs (Lifts refuse _)⟩
  | succ levels ih =>
      obtain ⟨more, rfl⟩ : ∃ fewer, more = fewer + 1 := ⟨more - 1, by omega⟩
      have := ih (Nat.le_of_succ_le_succ h)
      rw [rulesWithin_succ, rulesWithin_succ]
      exact ⟨fun least => inferInstanceAs (Lifts (operation _ least) (operation _ least)),
        inferInstanceAs (Lifts (braces _) (braces _)),
        inferInstanceAs (Lifts (conditional _) (conditional _))⟩

end Grammar

end FilterScript
