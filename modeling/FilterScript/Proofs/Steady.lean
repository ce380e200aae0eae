import FilterScript.Grammar.Item
import FilterScript.Proofs.Levels.Counts

/-!
# Productions only go forward

Whatever a production does, it leaves a rest of the input it was given and comes
back to the context it was started in, and if it fails, the fault is about what
comes next at some rest of that input. This holds of every step and is kept by
every way of combining steps, so it is a class whose instances follow the
productions.
-/

namespace FilterScript

/-- The fault is about what comes next in this stream. -/
inductive Fault.At (stream : Stream) : Fault → Prop
  | lexical {flaw : Flaw} (h : stream.lookahead 0 = .error flaw) : At stream flaw.toFault
  | unexpected {token : Token} (expected : List Expected) (h : stream.lookahead 0 = .ok token) :
      At stream ⟨.unexpected token.kind expected, token.span⟩
  | tooDeep {token : Token} (limit : Nat) (h : stream.lookahead 0 = .ok token) :
      At stream ⟨.tooDeep limit, token.span⟩

/-- A flaw found ahead comes next in some rest of the stream. -/
theorem Stream.exists_rest_of_lookahead {stream : Stream} {ahead : Nat} {flaw : Flaw}
    (h : stream.lookahead ahead = .error flaw) :
    ∃ rest, .error flaw :: rest <:+ stream.scans := by
  obtain ⟨before, rest, hscans⟩ := List.append_of_mem (mem_of_lookahead h)
  exact ⟨rest, before, hscans.symm⟩

namespace Parse

variable {α β : Type}

/-- Runs go forward whether they succeed or fail, and faults arise at what is still
to come. -/
class Steady (production : Parse α) : Prop where
  follows : ∀ {state result after}, production state = .ok result after → after.Follows state
  fault : ∀ {state fault after}, production state = .error fault after →
    ∃ rest, rest <:+ state.input.scans ∧ fault.At ⟨rest, state.input.length⟩
  stops : ∀ {state fault after}, production state = .error fault after →
    after.input.scans <:+ state.input.scans

namespace Steady

theorem of_flaw {state : State} {ahead : Nat} {flaw : Flaw}
    (h : state.input.lookahead ahead = .error flaw) :
    ∃ rest, rest <:+ state.input.scans ∧ flaw.toFault.At ⟨rest, state.input.length⟩ := by
  obtain ⟨rest, hrest⟩ := Stream.exists_rest_of_lookahead h
  exact ⟨_, hrest, .lexical rfl⟩

/-- A step that cannot fail. -/
theorem of_ne_error {production : Parse α} (h : Plain production)
    (hrun : ∀ state fault after, production state ≠ .error fault after) : Steady production where
  follows := h.follows
  fault hfault := absurd hfault (hrun _ _ _)
  stops hfault := absurd hfault (hrun _ _ _)

instance (result : α) : Steady (pure result) :=
  of_ne_error (.pure result) fun _ _ _ h => by cases h

protected theorem bind {production : Parse α} {next : α → Parse β} (h : Steady production)
    (hnext : ∀ result, Steady (next result)) : Steady (production >>= next) where
  follows hrun := by
    obtain ⟨result, between, hproduction, hrest⟩ := bind_eq_ok_iff.mp hrun
    exact (follows hrest).trans (follows hproduction)
  fault {state _ _} hrun := by
    cases hproduction : production state with
    | ok result between =>
        rw [bind_eq_of_ok hproduction] at hrun
        have hfollows := follows hproduction
        obtain ⟨rest, hrest, hat⟩ := fault hrun
        exact ⟨rest, hrest.trans hfollows.scans, hfollows.length ▸ hat⟩
    | error fault after =>
        rw [bind_eq_of_error hproduction] at hrun
        cases hrun
        exact Steady.fault hproduction
  stops {state _ _} hrun := by
    cases hproduction : production state with
    | ok result between =>
        rw [bind_eq_of_ok hproduction] at hrun
        exact (stops hrun).trans (follows hproduction).scans
    | error fault after =>
        rw [bind_eq_of_error hproduction] at hrun
        cases hrun
        exact Steady.stops hproduction

instance {production : Parse α} {next : α → Parse β} [Steady production]
    [∀ result, Steady (next result)] : Steady (production >>= next) :=
  .bind inferInstance inferInstance

instance {condition : Prop} [Decidable condition] {yes no : Parse α} [Steady yes] [Steady no] :
    Steady (if condition then yes else no) := by
  split <;> infer_instance

instance (ahead : Nat) : Steady (peekAt ahead) where
  follows := (Plain.peekAt ahead).follows
  fault {state _ _} hrun := by
    unfold peekAt at hrun
    split at hrun
    next => cases hrun
    next flaw hflaw =>
      cases hrun
      exact of_flaw hflaw
  stops hrun := by
    unfold peekAt at hrun
    split at hrun <;> cases hrun
    exact List.suffix_refl _

instance : Steady peek :=
  inferInstanceAs (Steady (peekAt 0))

instance : Steady advance where
  follows := Plain.advance.follows
  fault {state _ _} hrun := by
    unfold advance at hrun
    split at hrun
    next => cases hrun
    next flaw rest hscans =>
      cases hrun
      refine ⟨state.input.scans, List.suffix_refl _, .lexical ?_⟩
      unfold Stream.lookahead
      rw [hscans]
      rfl
    next => cases hrun
  stops hrun := by
    unfold advance at hrun
    split at hrun <;> cases hrun
    exact List.suffix_refl _

instance (expected : Expected) : Steady (want expected) :=
  of_ne_error (.want expected) fun _ _ _ h => by cases h

instance (lint : Lint) (span : Span) : Steady (warn lint span) :=
  of_ne_error (.warn lint span) fun _ _ _ h => by cases h

instance (text : String) : Steady (intern text) :=
  of_ne_error (.intern text) fun _ _ _ h => by cases h

instance : Steady (get : Parse State) where
  follows hrun := by
    cases hrun
    exact .refl _
  fault hrun := by cases hrun
  stops hrun := by cases hrun

instance : Steady (refuse : Parse α) where
  follows hrun := (refuse_ne_ok hrun).elim
  fault {state _ _} hrun := by
    -- Refusing looks at the next token, so a flaw there comes first.
    change (peek >>= _) state = _ at hrun
    cases hpeek : peek state with
    | ok token between =>
        rw [bind_eq_of_ok hpeek] at hrun
        obtain ⟨hshown, rfl⟩ := peekAt_eq_ok_iff.mp hpeek
        cases hrun
        exact ⟨_, List.suffix_refl _, .unexpected _ hshown⟩
    | error fault after =>
        rw [bind_eq_of_error hpeek] at hrun
        cases hrun
        exact Steady.fault hpeek
  stops {state _ _} hrun := by
    change (peek >>= _) state = _ at hrun
    cases hpeek : peek state with
    | ok token between =>
        rw [bind_eq_of_ok hpeek] at hrun
        obtain ⟨-, rfl⟩ := peekAt_eq_ok_iff.mp hpeek
        cases hrun
        exact List.suffix_refl _
    | error fault after =>
        rw [bind_eq_of_error hpeek] at hrun
        cases hrun
        exact Steady.stops hpeek

instance (kind : Kind) : Steady (nextIs kind) :=
  inferInstanceAs (Steady (peek >>= fun token => pure (token.kind.variant == kind.variant)))

instance (kind : Kind) : Steady (accepts kind) := by
  unfold accepts
  infer_instance

instance (kind : Kind) : Steady (takes kind) := by
  unfold takes
  infer_instance

instance (kind : Kind) : Steady (expect kind) := by
  unfold expect
  infer_instance

instance (change : Change) (production : Parse α) [Steady production] :
    Steady (within change production) where
  follows hrun := by
    obtain ⟨inner, hinner, rfl⟩ := within_eq_ok_iff.mp hrun
    exact (follows hinner).undo
  fault hrun := by
    obtain ⟨inner, hinner, rfl⟩ := within_eq_error_iff.mp hrun
    have hfault := Steady.fault hinner
    exact hfault
  stops hrun := by
    obtain ⟨inner, hinner, rfl⟩ := within_eq_error_iff.mp hrun
    have hstops := Steady.stops hinner
    exact hstops

instance (allowed : Bool) (production : Parse α) [Steady production] :
    Steady (withRecords allowed production) :=
  inferInstanceAs (Steady (within (.records allowed) production))

/-- A run that is too deep takes nothing. -/
theorem input_of_reachedLimit {limit : Nat} {state after : State} {fault : Fault}
    (hrun : (do let token ← peek; throw ⟨.tooDeep limit, token.span⟩ : Parse α) state =
      .error fault after) : after.input = state.input := by
  cases hpeek : peek state with
  | ok token between =>
      rw [bind_eq_of_ok hpeek] at hrun
      obtain ⟨-, rfl⟩ := peekAt_eq_ok_iff.mp hpeek
      cases hrun
      rfl
  | error fault after =>
      rw [bind_eq_of_error hpeek] at hrun
      cases hrun
      unfold peek peekAt at hpeek
      split at hpeek <;> cases hpeek
      rfl

/-- A run that is too deep stops at the next token. -/
theorem fault_of_reachedLimit {limit : Nat} {state after : State} {fault : Fault}
    (hrun : (do let token ← peek; throw ⟨.tooDeep limit, token.span⟩ : Parse α) state =
      .error fault after) :
    ∃ rest, rest <:+ state.input.scans ∧ fault.At ⟨rest, state.input.length⟩ := by
  cases hpeek : peek state with
  | ok token between =>
      rw [bind_eq_of_ok hpeek] at hrun
      obtain ⟨hshown, rfl⟩ := peekAt_eq_ok_iff.mp hpeek
      cases hrun
      exact ⟨_, List.suffix_refl _, .tooDeep limit hshown⟩
  | error fault after =>
      rw [bind_eq_of_error hpeek] at hrun
      cases hrun
      exact Steady.fault hpeek

instance (production : Parse α) [Steady production] : Steady (nested production) where
  follows hrun := by
    rw [nested_eq] at hrun
    split at hrun
    next =>
      obtain ⟨_, _, _, hthrow⟩ := bind_eq_ok_iff.mp hrun
      cases hthrow
    next => exact follows hrun
  fault hrun := by
    rw [nested_eq] at hrun
    split at hrun
    next => exact fault_of_reachedLimit hrun
    next => exact Steady.fault hrun
  stops hrun := by
    rw [nested_eq] at hrun
    split at hrun
    next => exact input_of_reachedLimit hrun ▸ List.suffix_refl _
    next => exact Steady.stops hrun

instance (production : Nat → Parse α) [h : ∀ most, Steady (production most)] :
    Steady (bounded production) where
  follows hrun := (h _).follows hrun
  fault hrun := (h _).fault hrun
  stops hrun := (h _).stops hrun

instance (round : α → Parse (Round α β)) [∀ value, Steady (round value)] (most : Nat) (value : α) :
    Steady (rounds round most value) := by
  induction most generalizing value with
  | zero => exact inferInstanceAs (Steady refuse)
  | succ most ih =>
      exact .bind inferInstance fun result => by
        cases result <;> infer_instance

instance (round : α → Parse (Round α β)) [∀ value, Steady (round value)] (first : α) :
    Steady (repeated round first) :=
  inferInstanceAs (Steady (bounded fun most => rounds round most first))

end Steady

end Parse

namespace Grammar

open Parse

variable {α : Type}

instance : Steady ident :=
  .bind inferInstance fun token => by
    split <;> infer_instance

instance : Steady pathContinues := by
  unfold pathContinues
  infer_instance

instance (rest : List (Ident Span Symbol)) : Steady (pathRound rest) := by
  unfold pathRound
  infer_instance

instance : Steady path := by
  unfold path
  infer_instance

instance (close : Kind) : Steady (loneComma close) := by
  unfold loneComma
  infer_instance

section Lists

variable (close : Kind) (element : Parse α) [Steady element]

instance (elements : List α) : Steady (listRound close element elements) := by
  unfold listRound
  infer_instance

instance : Steady (commaList close element) := by
  unfold commaList
  infer_instance

instance (spanOf : α → Span) : Steady (field spanOf element) := by
  unfold field
  infer_instance

instance (spanOf : α → Span) : Steady (record spanOf element) := by
  unfold record
  infer_instance

end Lists

/-! ## Imports and types -/

section

variable (member : Parse (ImportPath Span Symbol)) [Steady member]

instance : Steady (importPart member) :=
  .bind inferInstance fun token => by
    split <;> infer_instance

instance (parts : List (ImportPart Span Symbol)) : Steady (importRound member parts) :=
  .bind inferInstance fun (part, span) => by
    infer_instance

end

instance (levels : Nat) : Steady (importPathWithin levels) := by
  induction levels with
  | zero => exact inferInstanceAs (Steady refuse)
  | succ levels ih =>
      have (start : Token) : Steady (do
          let (parts, last) ← repeated (importRound (importPathWithin levels)) []
          return (⟨parts, start.span.hull last⟩ : ImportPath Span Symbol)) :=
        .bind inferInstance fun (parts, last) => inferInstanceAs (Steady (pure _))
      exact inferInstanceAs (Steady (nested _))

instance : Steady importPath := by
  unfold importPath
  infer_instance

instance : Steady importDeclaration := by
  unfold importDeclaration
  infer_instance

section

variable (type : Parse (TypeExpr Span Symbol)) [Steady type]

instance : Steady (namedType type) := by
  unfold namedType
  infer_instance

instance : Steady (typeAtom type) :=
  .bind inferInstance fun token => by
    split <;> infer_instance

end

instance (type : TypeExpr Span Symbol) : Steady (optionalRound type) := by
  unfold optionalRound
  infer_instance

instance (levels : Nat) : Steady (typeWithin levels) := by
  induction levels with
  | zero => exact inferInstanceAs (Steady refuse)
  | succ levels ih =>
      unfold typeWithin
      infer_instance

instance : Steady type := by
  unfold type
  infer_instance

instance : Steady parameters := by
  unfold parameters
  infer_instance

/-! ## Expressions and blocks -/

/-- The productions that others go back to go forward. -/
class RulesSteady (rules : Rules) : Prop where
  expr : ∀ least, Steady (rules.expr least)
  block : Steady rules.block
  elseIf : Steady rules.elseIf

attribute [instance] RulesSteady.expr RulesSteady.block RulesSteady.elseIf

section

variable (rules : Rules) [RulesSteady rules]

instance (least : Nat) (left : Expr Span Symbol) : Steady (operatorRound rules least left) :=
  .bind inferInstance fun token => by
    split <;> infer_instance

instance (least : Nat) (first : Expr Span Symbol) : Steady (operators rules least first) := by
  unfold operators
  infer_instance

instance (expr : Expr Span Symbol) : Steady (postfixRound rules expr) := by
  unfold postfixRound
  infer_instance

instance (first : Expr Span Symbol) : Steady (postfixes rules first) := by
  unfold postfixes
  infer_instance

instance : Steady (alternative rules) := by
  unfold alternative
  infer_instance

instance : Steady (conditional rules) := by
  unfold conditional
  infer_instance

instance : Steady (whileLoop rules) := by
  unfold whileLoop
  infer_instance

instance : Steady pattern := by
  unfold pattern
  infer_instance

instance : Steady (guard rules) := by
  unfold guard
  infer_instance

instance : Steady blockNext := by
  unfold blockNext
  infer_instance

instance : Steady (armBody rules) := by
  unfold armBody
  infer_instance

instance : Steady (arm rules) := by
  unfold arm
  infer_instance

instance (arms : List (Arm Span Symbol)) : Steady (armRound rules arms) := by
  unfold armRound
  infer_instance

instance : Steady (select rules) := by
  unfold select
  infer_instance

instance : Steady (parenthesized rules) := by
  unfold parenthesized
  infer_instance

instance : Steady recordNext := by
  unfold recordNext
  infer_instance

instance : Steady (pathExpr rules) := by
  unfold pathExpr
  infer_instance

instance : Steady (primary rules) :=
  .bind inferInstance fun token => by
    split
    · infer_instance
    · split <;> infer_instance

instance : Steady exprNext := by
  unfold exprNext
  infer_instance

instance (kind : ExitKind) : Steady (earlyExit rules kind) := by
  unfold earlyExit
  infer_instance

instance : Steady (operand rules) :=
  .bind inferInstance fun token => by
    split <;> infer_instance

instance (least : Nat) : Steady (operation rules least) := by
  unfold operation
  infer_instance

instance : Steady annotation := by
  unfold annotation
  infer_instance

instance : Steady (binding rules) := by
  unfold binding
  infer_instance

instance : Steady importStatement :=
  .bind inferInstance fun (_, _) => inferInstanceAs (Steady (pure _))

theorem control?_steady {kind : Kind} {production : Parse (Expr Span Symbol)}
    (h : control? rules kind = some production) : Steady production := by
  unfold control? at h
  split at h <;> cases h <;> infer_instance

instance : Steady (leadingExpr rules) :=
  .bind inferInstance fun token => by
    split
    next production hproduction =>
      have := control?_steady rules hproduction
      infer_instance
    next => infer_instance

set_option synthInstance.maxSize 512 in
instance (statements : List (Statement Span Symbol)) : Steady (statementRound rules statements) := by
  unfold statementRound
  infer_instance

instance : Steady (braces rules) := by
  have (left : Token) (contents : Contents) : Steady (do
      let (statements, tail) := contents
      let right ← expect Punct.rbrace
      return (⟨statements, tail, left.span.hull right.span⟩ : Block Span Symbol)) := by
    infer_instance
  exact inferInstanceAs (Steady (nested _))

end

instance (levels : Nat) : RulesSteady (rulesWithin levels) := by
  induction levels with
  | zero => exact ⟨fun _ => inferInstanceAs (Steady refuse), inferInstanceAs (Steady refuse),
      inferInstanceAs (Steady refuse)⟩
  | succ levels ih =>
      rw [rulesWithin_succ]
      exact ⟨fun least => inferInstanceAs (Steady (operation _ least)),
        inferInstanceAs (Steady (braces _)), inferInstanceAs (Steady (conditional _))⟩

instance : Steady block := by
  unfold block
  infer_instance

instance : Steady expr := by
  unfold expr
  infer_instance

/-! ## Items -/

instance : Steady importItem :=
  .bind inferInstance fun (_, _) => inferInstanceAs (Steady (pure _))

instance (kind : FilterKind) : Steady (filterItem kind) := by
  unfold filterItem
  infer_instance

instance : Steady returnType := by
  unfold returnType
  infer_instance

instance : Steady functionItem := by
  unfold functionItem
  infer_instance

instance : Steady recordItem := by
  unfold recordItem
  infer_instance

instance : Steady testItem := by
  unfold testItem
  infer_instance

instance : Steady item :=
  .bind inferInstance fun token => by
    split <;> infer_instance

instance (items : List (Item Span Symbol)) : Steady (itemRound items) := by
  unfold itemRound
  infer_instance

instance : Steady script := by
  unfold script
  infer_instance

instance : Steady loneExpr := by
  unfold loneExpr
  infer_instance

end Grammar

end FilterScript
