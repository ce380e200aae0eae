import FilterScript.Proofs.Progress

/-!
# Productions that agree on short inputs

Two productions agree below a bound if they do the same wherever fewer scans are
left than the bound says. Productions that are given others to call agree as far as
those do, and one scan further if they take a token before they call.
-/

namespace FilterScript

namespace Parse

variable {α β : Type} {bound : Nat}

/-- With fewer scans left than the bound says, both do the same. -/
class Agree (bound : Nat) (first second : Parse α) : Prop where
  eq : ∀ {state : State}, state.input.scans.length < bound → first state = second state

/-- Two productions run one after another do what two others do, if both pairs do the
same on the way. -/
theorem bind_congr_of_ok {first second : Parse α} {next next' : α → Parse β} {state : State}
    (h : first state = second state)
    (hnext : ∀ result after, first state = .ok result after →
      next result after = next' result after) :
    (first >>= next) state = (second >>= next') state := by
  cases hrun : first state with
  | ok result between =>
      rw [bind_eq_of_ok hrun, bind_eq_of_ok (h.symm.trans hrun)]
      exact hnext result between hrun
  | error fault after => rw [bind_eq_of_error hrun, bind_eq_of_error (h.symm.trans hrun)]

namespace Agree

variable {first second : Parse α} {next next' : α → Parse β} {kind : Kind}

theorem mono {more : Nat} (h : Agree more first second) (hle : bound ≤ more) :
    Agree bound first second :=
  ⟨fun hbound => h.eq (Nat.lt_of_lt_of_le hbound hle)⟩

/-- Nothing is run with fewer scans than none. -/
theorem zero : Agree 0 first second :=
  ⟨fun hbound => absurd hbound (Nat.not_lt_zero _)⟩

instance (production : Parse α) : Agree bound production production :=
  ⟨fun _ => rfl⟩

protected theorem bind [Steady first] (h : Agree bound first second)
    (hnext : ∀ result, Agree bound (next result) (next' result)) :
    Agree bound (first >>= next) (second >>= next') where
  eq hbound := by
    refine bind_congr_of_ok (h.eq hbound) fun result after hrun => (hnext result).eq ?_
    exact Nat.lt_of_le_of_lt (Steady.follows hrun).scans.length_le hbound

instance [Steady first] [Agree bound first second] [∀ result, Agree bound (next result) (next' result)] :
    Agree bound (first >>= next) (second >>= next') :=
  .bind inferInstance inferInstance

/-- Behind something that takes a token a smaller bound is enough. -/
instance [hfirst : Progresses Always first] [h : Agree (bound + 1) first second]
    [hnext : ∀ result, Agree bound (next result) (next' result)] :
    Agree (bound + 1) (first >>= next) (second >>= next') where
  eq hbound := by
    refine bind_congr_of_ok (h.eq hbound) fun result after hrun => (hnext result).eq ?_
    exact Nat.lt_of_lt_of_le (hfirst.shorter hrun trivial) (Nat.le_of_lt_succ hbound)

instance {condition : Prop} [Decidable condition] {yes yes' no no' : Parse α} [Agree bound yes yes']
    [Agree bound no no'] :
    Agree bound (if condition then yes else no) (if condition then yes' else no') := by
  split <;> infer_instance

/-! ### Taking a token that has been looked at -/

theorem advance_bind {next next' : Token → Parse β} {state : State} {token : Token}
    (h : Agree bound (next token) (next' token)) (hshown : state.input.lookahead 0 = .ok token)
    (hend : token.kind ≠ .endOfFile) (hbound : state.input.scans.length < bound + 1) :
    (advance >>= next) state = (advance >>= next') state := by
  obtain ⟨rest, hscans⟩ := (Shows.of_lookahead hshown).cons hend
  have hrun : advance state = .ok token
      { state with input := { state.input with scans := rest }, expected := [] } := by
    unfold advance
    rw [hscans]
  rw [bind_eq_of_ok hrun, bind_eq_of_ok hrun]
  rw [hscans, List.length_cons] at hbound
  exact h.eq (Nat.lt_of_succ_lt_succ hbound)

/-- Productions that look at the next token first. -/
theorem of_peek {next next' : Token → Parse β}
    (h : ∀ {token} {state : State}, state.input.lookahead 0 = .ok token →
      state.input.scans.length < bound → next token state = next' token state) :
    Agree bound (peek >>= next) (peek >>= next') where
  eq hbound := by
    refine bind_congr_of_ok rfl fun token after hpeek => ?_
    obtain ⟨hshown, rfl⟩ := peekAt_eq_ok_iff.mp hpeek
    exact h hshown hbound

section Questions

variable [kind.IsMark] {yes yes' no no' : Parse β}

instance {next next' : Token → Parse β} [∀ token, Agree bound (next token) (next' token)]
    [Agree (bound + 1) no no'] :
    Agree (bound + 1) (do if ← nextIs kind then advance >>= next else no)
      (do if ← nextIs kind then advance >>= next' else no') := by
  have hfixed : kind.isFixed := Kind.IsMark.fixed
  rw [nextIs_bind, nextIs_bind]
  apply of_peek
  intro token state hshown hbound
  split
  next hvariant =>
    have hkind := Kind.eq_of_variant_eq hfixed (beq_iff_eq.mp hvariant)
    exact advance_bind inferInstance hshown (hkind ▸ Kind.ne_endOfFile_of_isFixed hfixed) hbound
  next => exact eq hbound

instance [Agree bound yes yes'] [Agree (bound + 1) no no'] :
    Agree (bound + 1) (do if ← takes kind then yes else no)
      (do if ← takes kind then yes' else no') := by
  rw [if_takes_eq, if_takes_eq, if_accepts_eq, if_accepts_eq]
  infer_instance

end Questions

/-! ### Ways to run a production -/

instance (change : Change) [h : Agree bound first second] :
    Agree bound (within change first) (within change second) where
  eq {state} hbound := by
    have hinner : first { state with context := change.enter state.context } =
        second { state with context := change.enter state.context } := h.eq hbound
    unfold within
    rw [hinner]

instance (allowed : Bool) [Agree bound first second] :
    Agree bound (withRecords allowed first) (withRecords allowed second) :=
  inferInstanceAs (Agree bound (within (.records allowed) first) (within (.records allowed) second))

protected theorem nested (h : Agree bound first second) : Agree bound (nested first) (nested second) where
  eq hbound := by
    rw [nested_eq, nested_eq]
    split
    next => rfl
    next => exact eq hbound

instance [Agree bound first second] : Agree bound (nested first) (nested second) :=
  .nested inferInstance

instance (round round' : α → Parse (Round α β)) [∀ value, Steady (round value)]
    [h : ∀ value, Agree bound (round value) (round' value)] (most : Nat) (value : α) :
    Agree bound (rounds round most value) (rounds round' most value) := by
  induction most generalizing value with
  | zero => exact inferInstanceAs (Agree bound refuse refuse)
  | succ most ih =>
      rw [rounds_succ, rounds_succ]
      refine .bind (h value) fun result => ?_
      cases result with
      | more next => exact ih next
      | done last => exact inferInstanceAs (Agree bound (pure last) (pure last))

instance (round round' : α → Parse (Round α β)) [∀ value, Steady (round value)]
    [h : ∀ value, Agree bound (round value) (round' value)] (value : α) :
    Agree bound (repeated round value) (repeated round' value) where
  eq {state} hbound := by
    have hrounds : Agree bound (rounds round (state.input.scans.length + 1) value)
        (rounds round' (state.input.scans.length + 1) value) := inferInstance
    exact hrounds.eq hbound

end Agree

end Parse

namespace Grammar

open Parse Agree

variable {α : Type} {bound : Nat}

/-! ## Lists -/

section

variable (element element' : Parse α) [Steady element] [h : Agree bound element element']

instance (close : Kind) (elements : List α) :
    Agree bound (listRound close element elements) (listRound close element' elements) := by
  unfold listRound
  infer_instance

instance (close : Kind) : Agree bound (commaList close element) (commaList close element') := by
  unfold commaList
  infer_instance

/-- The name comes before the value. -/
instance (spanOf : α → Span) : Agree (bound + 1) (field spanOf element) (field spanOf element') := by
  unfold field
  infer_instance

instance (spanOf : α → Span) : Agree (bound + 1) (record spanOf element) (record spanOf element') := by
  have : Agree bound (field spanOf element) (field spanOf element') :=
    mono inferInstance (Nat.le_succ bound)
  unfold record
  infer_instance

end

/-! ## Imports and types -/

section

variable (member member' : Parse (ImportPath Span Symbol)) [Steady member] [Agree bound member member']

/-- Members of a group are read behind its brace. -/
instance : Agree (bound + 1) (importPart member) (importPart member') := by
  apply of_peek
  rintro ⟨kind, span⟩ state hshown hbound
  cases kind with
  | punct mark =>
      cases mark with
      | lbrace => exact advance_bind inferInstance hshown Kind.noConfusion hbound
      | _ => rfl
  | _ => rfl

instance (parts : List (ImportPart Span Symbol)) :
    Agree (bound + 1) (importRound member parts) (importRound member' parts) :=
  .bind inferInstance fun (_, _) => inferInstanceAs (Agree (bound + 1) _ _)

end

section

variable (type type' : Parse (TypeExpr Span Symbol)) [Steady type] [Agree bound type type']

instance : Agree (bound + 1) (namedType type) (namedType type') := by
  unfold namedType
  infer_instance

instance : Agree (bound + 1) (typeAtom type) (typeAtom type') := by
  apply of_peek
  rintro ⟨kind, span⟩ state hshown hbound
  cases kind with
  | punct mark =>
      cases mark with
      | lbrace => exact eq hbound
      | _ => rfl
  | name text raw => exact eq hbound
  | _ => rfl

end

/-! ## Expressions and blocks -/

/-- The productions that others go back to do the same below the bound. -/
class RulesAgree (bound : Nat) (rules rules' : Rules) : Prop where
  expr : ∀ least, Agree bound (rules.expr least) (rules'.expr least)
  block : Agree bound rules.block rules'.block
  elseIf : Agree bound rules.elseIf rules'.elseIf

attribute [instance] RulesAgree.expr RulesAgree.block RulesAgree.elseIf

section

variable (rules rules' : Rules) [RulesSteady rules] [RulesAgree bound rules rules']

instance (least : Nat) (left : Expr Span Symbol) :
    Agree (bound + 1) (operatorRound rules least left) (operatorRound rules' least left) := by
  apply of_peek
  rintro ⟨kind, span⟩ state hshown hbound
  cases hop : BinaryOp.ofKind? kind with
  | none => rfl
  | some op =>
      dsimp only
      split
      · rfl
      · have hkind := BinaryOp.ofKind?_eq_some_iff.mp hop
        exact advance_bind inferInstance hshown (hkind ▸ Kind.noConfusion) hbound

/-- Operators come before their right operands. -/
instance (least : Nat) (first : Expr Span Symbol) :
    Agree (bound + 1) (operators rules least first) (operators rules' least first) := by
  unfold operators
  infer_instance

/-- Parentheses come before their arguments. -/
instance (expr : Expr Span Symbol) :
    Agree (bound + 1) (postfixRound rules expr) (postfixRound rules' expr) := by
  unfold postfixRound
  infer_instance

instance (first : Expr Span Symbol) :
    Agree (bound + 1) (postfixes rules first) (postfixes rules' first) := by
  unfold postfixes
  infer_instance

instance : Agree (bound + 1) (alternative rules) (alternative rules') := by
  unfold alternative
  infer_instance

instance : Agree (bound + 1) (conditional rules) (conditional rules') := by
  have : Agree bound (alternative rules) (alternative rules') :=
    mono inferInstance (Nat.le_succ bound)
  unfold conditional
  infer_instance

instance : Agree (bound + 1) (whileLoop rules) (whileLoop rules') := by
  unfold whileLoop
  infer_instance

instance : Agree (bound + 1) (guard rules) (guard rules') := by
  unfold guard
  infer_instance

/-- A body may begin with the call. -/
instance : Agree bound (armBody rules) (armBody rules') := by
  unfold armBody
  infer_instance

/-- The pattern comes first. -/
instance : Agree (bound + 1) (arm rules) (arm rules') := by
  have : Agree bound (guard rules) (guard rules') := mono inferInstance (Nat.le_succ bound)
  unfold arm
  infer_instance

instance (arms : List (Arm Span Symbol)) :
    Agree (bound + 1) (armRound rules arms) (armRound rules' arms) := by
  unfold armRound
  infer_instance

instance : Agree (bound + 1) (select rules) (select rules') := by
  have (arms : List (Arm Span Symbol)) : Agree bound (armRound rules arms) (armRound rules' arms) :=
    mono inferInstance (Nat.le_succ bound)
  unfold select
  infer_instance

instance : Agree (bound + 1) (parenthesized rules) (parenthesized rules') := by
  unfold parenthesized
  infer_instance

instance : Agree (bound + 1) (pathExpr rules) (pathExpr rules') := by
  unfold pathExpr
  infer_instance

instance : Agree (bound + 1) (primary rules) (primary rules') :=
  .bind inferInstance fun token => by
    split
    · infer_instance
    · split <;> infer_instance

/-- At the end of the source no value follows, and elsewhere a token comes first. -/
instance (kind : ExitKind) : Agree (bound + 1) (earlyExit rules kind) (earlyExit rules' kind) where
  eq {state} hbound := by
    unfold earlyExit
    refine bind_congr_of_ok rfl fun keyword after hadvance => ?_
    obtain ⟨⟨scans, length⟩, expected, warnings, names, context, limit⟩ := state
    cases scans with
    | nil =>
        cases hadvance
        rfl
    | cons scan rest =>
        cases scan with
        | error flaw => cases hadvance
        | ok token =>
            cases hadvance
            exact @eq _ bound _ _ inferInstance _ (Nat.lt_of_succ_lt_succ hbound)

/-- An operator or exit comes before what it holds. -/
instance : Agree (bound + 1) (operand rules) (operand rules') := by
  apply of_peek
  rintro ⟨kind, span⟩ state hshown hbound
  cases hunary : UnaryOp.ofKind? kind with
  | some op =>
      refine advance_bind inferInstance hshown ?_ hbound
      rintro rfl
      cases hunary
  | none =>
      cases ExitKind.ofKind? kind with
      | some exit => exact eq hbound
      | none => exact eq hbound

instance (least : Nat) : Agree (bound + 1) (operation rules least) (operation rules' least) := by
  unfold operation
  infer_instance

instance : Agree (bound + 1) (binding rules) (binding rules') := by
  unfold binding
  infer_instance

variable (bound) in
/-- What comes next is a conditional, loop or match for both, or for neither. -/
theorem control?_agree (kind : Kind) :
    (control? rules kind = none ∧ control? rules' kind = none) ∨
      ∃ production production', control? rules kind = some production ∧
        control? rules' kind = some production' ∧ Agree (bound + 1) production production' := by
  cases kind with
  | keyword word =>
      cases word with
      | if_ | while_ | match_ => exact .inr ⟨_, _, rfl, rfl, inferInstance⟩
      | _ => exact .inl ⟨rfl, rfl⟩
  | _ => exact .inl ⟨rfl, rfl⟩

/-- A statement may begin with the call. -/
instance : Agree bound (leadingExpr rules) (leadingExpr rules') := by
  refine .bind inferInstance fun token => ?_
  obtain ⟨hnone, hnone'⟩ | ⟨production, production', hcontrol, hcontrol', hagree⟩ :=
    control?_agree bound rules rules' token.kind
  · rw [hnone, hnone']
    infer_instance
  · have := control?_steady rules hcontrol
    have (first : Expr Span Symbol) : Agree bound (postfixes rules first) (postfixes rules' first) :=
      mono inferInstance (Nat.le_succ bound)
    have (first : Expr Span Symbol) : Agree bound (operators rules 0 first) (operators rules' 0 first) :=
      mono inferInstance (Nat.le_succ bound)
    rw [hcontrol, hcontrol']
    exact .bind (mono hagree (Nat.le_succ bound)) inferInstance

set_option synthInstance.maxSize 512 in
instance (statements : List (Statement Span Symbol)) :
    Agree bound (statementRound rules statements) (statementRound rules' statements) := by
  have : Agree bound (binding rules) (binding rules') := mono inferInstance (Nat.le_succ bound)
  unfold statementRound
  infer_instance

/-- The brace comes before the statements. -/
instance : Agree (bound + 1) (braces rules) (braces rules') := by
  unfold braces
  infer_instance

end

end Grammar

end FilterScript
