import FilterScript.Proofs.Parallel.Passing

/-!
# Productions that take something

A name, a type, an expression, a block and an item take at least one token, and
so does every round of a loop that is not its last. This is what bounds the
rounds of loops and the levels of recursion by the tokens that are left.
-/

namespace FilterScript

/-- Keywords and punctuation. -/
class Kind.IsMark (kind : Kind) : Prop where
  fixed : kind.isFixed

instance (word : Keyword) : (Kind.keyword word).IsMark := ⟨rfl⟩

instance (mark : Punct) : (Kind.punct mark).IsMark := ⟨rfl⟩

namespace Parse

variable {α β : Type}

/-- Every result. -/
def Always : α → Prop :=
  fun _ => True

/-- The loop goes on behind this round. -/
def Round.IsMore : Round α β → Prop
  | .more _ => True
  | .done _ => False

/-- Successful runs with such a result take at least one scan. -/
class Progresses (counts : α → Prop) (production : Parse α) : Prop where
  shorter : ∀ {state result after}, production state = .ok result after → counts result →
    after.input.scans.length < state.input.scans.length

namespace Progresses

variable {counts : β → Prop} {kind : Kind}

/-- The next token is there to be taken, and whatever follows goes forward. -/
theorem of_advance {next : Token → Parse β} [∀ token, Steady (next token)] {state after : State}
    {result : β} {token : Token} (hshown : state.input.lookahead 0 = .ok token)
    (hend : token.kind ≠ .endOfFile) (hrun : (advance >>= next) state = .ok result after) :
    after.input.scans.length < state.input.scans.length := by
  obtain ⟨rest, hscans⟩ := (Shows.of_lookahead hshown).cons hend
  obtain ⟨taken, between, hadvance, hnext⟩ := bind_eq_ok_iff.mp hrun
  unfold advance at hadvance
  rw [hscans] at hadvance
  cases hadvance
  have hle := (Steady.follows hnext).scans.length_le
  rw [hscans, List.length_cons]
  exact Nat.lt_succ_of_le hle

/-- A production that looks at the next token first. -/
theorem of_peek {next : Token → Parse β}
    (h : ∀ {token state result after}, state.input.lookahead 0 = .ok token →
      next token state = .ok result after → counts result →
        after.input.scans.length < state.input.scans.length) :
    Progresses counts (peek >>= next) where
  shorter hrun hresult := by
    obtain ⟨token, between, hpeek, hnext⟩ := bind_eq_ok_iff.mp hrun
    obtain ⟨hshown, rfl⟩ := peekAt_eq_ok_iff.mp hpeek
    exact h hshown hnext hresult

instance (result : α) : Progresses (Round.IsMore : Round β α → Prop) (pure (.done result)) where
  shorter hrun hmore := by
    cases hrun
    exact hmore.elim

instance (counts : α → Prop) : Progresses counts (refuse : Parse α) where
  shorter hrun := (refuse_ne_ok hrun).elim

/-- What follows takes something. -/
instance {production : Parse α} {next : α → Parse β} [Steady production]
    [∀ result, Progresses counts (next result)] : Progresses counts (production >>= next) where
  shorter hrun hresult := by
    obtain ⟨first, between, hproduction, hnext⟩ := bind_eq_ok_iff.mp hrun
    exact Nat.lt_of_lt_of_le (shorter hnext hresult) (Steady.follows hproduction).scans.length_le

/-- What comes first takes something. -/
instance {production : Parse α} {next : α → Parse β} [Progresses Always production]
    [∀ result, Steady (next result)] : Progresses counts (production >>= next) where
  shorter hrun _ := by
    obtain ⟨first, between, hproduction, hnext⟩ := bind_eq_ok_iff.mp hrun
    have hfirst : Progresses Always production := inferInstance
    exact Nat.lt_of_le_of_lt (Steady.follows hnext).scans.length_le
      (hfirst.shorter hproduction trivial)

instance {condition : Prop} [Decidable condition] {yes no : Parse β} [Progresses counts yes]
    [Progresses counts no] : Progresses counts (if condition then yes else no) := by
  split <;> infer_instance

section Questions

variable {next : Token → Parse β} {yes no : Parse β} [kind.IsMark]

/-- Taking the token that was asked for. -/
instance [∀ token, Steady (next token)] [Progresses counts no] :
    Progresses counts (do if ← nextIs kind then advance >>= next else no) := by
  have hfixed : kind.isFixed := Kind.IsMark.fixed
  rw [nextIs_bind]
  apply of_peek
  intro token state result after hshown hrun hresult
  split at hrun
  next hvariant =>
    have hkind := Kind.eq_of_variant_eq hfixed (beq_iff_eq.mp hvariant)
    exact of_advance hshown (hkind ▸ Kind.ne_endOfFile_of_isFixed hfixed) hrun
  next => exact shorter hrun hresult

instance [∀ token, Steady (next token)] [Progresses counts no] :
    Progresses counts (do if ← accepts kind then advance >>= next else no) := by
  rw [if_accepts_eq]
  infer_instance

instance [Steady yes] [Progresses counts no] :
    Progresses counts (do if ← takes kind then yes else no) := by
  rw [if_takes_eq]
  infer_instance

instance : Progresses Always (expect kind) := by
  rw [← bind_pure (expect kind), expect_bind]
  infer_instance

end Questions

/-! ### Ways to run a production -/

instance (counts : α → Prop) (change : Change) (production : Parse α)
    [Progresses counts production] : Progresses counts (within change production) where
  shorter hrun hresult := by
    obtain ⟨inner, hinner, rfl⟩ := within_eq_ok_iff.mp hrun
    have hshorter := shorter hinner hresult
    exact hshorter

instance (counts : α → Prop) (allowed : Bool) (production : Parse α)
    [Progresses counts production] : Progresses counts (withRecords allowed production) :=
  inferInstanceAs (Progresses counts (within (.records allowed) production))

instance (counts : α → Prop) (production : Parse α) [Progresses counts production] :
    Progresses counts (nested production) where
  shorter hrun hresult := by
    rw [nested_eq] at hrun
    split at hrun
    next =>
      obtain ⟨_, _, _, hthrow⟩ := bind_eq_ok_iff.mp hrun
      cases hthrow
    next => exact shorter hrun hresult

instance (counts : α → Prop) (production : Nat → Parse α)
    [h : ∀ most, Progresses counts (production most)] : Progresses counts (bounded production) where
  shorter hrun := (h _).shorter hrun

/-- A loop has at least one round. -/
instance (round : α → Parse (Round α β)) [∀ value, Steady (round value)]
    [∀ value, Progresses Always (round value)] (most : Nat) (value : α) :
    Progresses counts (rounds round most value) := by
  cases most with
  | zero => exact inferInstanceAs (Progresses counts refuse)
  | succ most =>
      rw [rounds_succ]
      infer_instance

instance (round : α → Parse (Round α β)) [∀ value, Steady (round value)]
    [∀ value, Progresses Always (round value)] (first : α) :
    Progresses counts (repeated round first) :=
  inferInstanceAs (Progresses counts (bounded fun most => rounds round most first))

end Progresses

end Parse

namespace Grammar

open Parse Progresses

variable {α : Type}

instance : Progresses Always ident := by
  apply of_peek
  rintro ⟨kind, span⟩ state result after hshown hrun hresult
  cases kind with
  | name text raw => exact of_advance hshown Kind.noConfusion hrun
  | _ => exact shorter hrun hresult

instance (rest : List (Ident Span Symbol)) : Progresses Round.IsMore (pathRound rest) := by
  unfold pathRound
  infer_instance

instance : Progresses Always path := by
  unfold path
  infer_instance

section Lists

variable (element : Parse α) [Steady element]

instance (close : Kind) (elements : List α) :
    Progresses Round.IsMore (listRound close element elements) := by
  unfold listRound
  infer_instance

instance (spanOf : α → Span) : Progresses Always (record spanOf element) := by
  unfold record
  infer_instance

end Lists

/-! ## Imports and types -/

section

variable (member : Parse (ImportPath Span Symbol)) [Steady member]

instance : Progresses Always (importPart member) := by
  apply of_peek
  rintro ⟨kind, span⟩ state result after hshown hrun hresult
  cases kind with
  | punct mark =>
      cases mark with
      | lbrace => exact of_advance hshown Kind.noConfusion hrun
      | _ => exact shorter hrun hresult
  | name text raw => exact shorter hrun hresult
  | _ => exact shorter hrun hresult

instance (counts : Round (List (ImportPart Span Symbol)) _ → Prop)
    (parts : List (ImportPart Span Symbol)) : Progresses counts (importRound member parts) := by
  have (first : ImportPart Span Symbol × Span) : Steady (do
      let (part, span) := first
      if ← takes Punct.dot then
        return Round.more (parts ++ [part])
      else
        return Round.done (parts ++ [part], span)) := by
    infer_instance
  exact inferInstanceAs (Progresses counts (importPart member >>= _))

end

instance : Progresses Always importDeclaration := by
  unfold importDeclaration
  infer_instance

section

variable (type : Parse (TypeExpr Span Symbol)) [Steady type]

instance : Progresses Always (namedType type) := by
  unfold namedType
  infer_instance

instance : Progresses Always (typeAtom type) := by
  apply of_peek
  rintro ⟨kind, span⟩ state result after hshown hrun hresult
  cases kind with
  | punct mark =>
      cases mark with
      | bang | lparen => exact of_advance hshown Kind.noConfusion hrun
      | _ => exact shorter hrun hresult
  | name text raw => exact shorter hrun hresult
  | _ => exact shorter hrun hresult

end

instance (type : TypeExpr Span Symbol) : Progresses Round.IsMore (optionalRound type) := by
  unfold optionalRound
  infer_instance

/-- The levels that are run take something, and none is run without levels. -/
instance (levels : Nat) : Progresses Always (importPathWithin levels) := by
  cases levels with
  | zero => exact inferInstanceAs (Progresses Always refuse)
  | succ levels =>
      have (start : Token) : Progresses Always (do
          let (parts, last) ← repeated (importRound (importPathWithin levels)) []
          return (⟨parts, start.span.hull last⟩ : ImportPath Span Symbol)) :=
        inferInstanceAs (Progresses Always (repeated _ _ >>= fun _ => pure _))
      exact inferInstanceAs (Progresses Always (nested _))

instance (levels : Nat) : Progresses Always (typeWithin levels) := by
  cases levels with
  | zero => exact inferInstanceAs (Progresses Always refuse)
  | succ levels =>
      unfold typeWithin
      infer_instance

instance : Progresses Always type := by
  unfold type
  infer_instance

/-! ## Expressions and blocks -/

/-- The productions that others go back to take something. -/
class RulesProgress (rules : Rules) : Prop where
  expr : ∀ least, Progresses Always (rules.expr least)
  block : Progresses Always rules.block
  elseIf : Progresses Always rules.elseIf

attribute [instance] RulesProgress.expr RulesProgress.block RulesProgress.elseIf

section

variable (rules : Rules) [RulesSteady rules]

instance (least : Nat) (left : Expr Span Symbol) :
    Progresses Round.IsMore (operatorRound rules least left) := by
  apply of_peek
  intro token state result after hshown hrun hresult
  cases hop : BinaryOp.ofKind? token.kind with
  | none =>
      simp only [hop] at hrun
      exact shorter hrun hresult
  | some op =>
      simp only [hop] at hrun
      split at hrun
      · exact shorter hrun hresult
      · have hkind := BinaryOp.ofKind?_eq_some_iff.mp hop
        exact of_advance hshown (hkind ▸ Kind.noConfusion) hrun

instance (expr : Expr Span Symbol) : Progresses Round.IsMore (postfixRound rules expr) := by
  unfold postfixRound
  infer_instance

instance : Progresses Always (conditional rules) := by
  unfold conditional
  infer_instance

instance : Progresses Always (whileLoop rules) := by
  unfold whileLoop
  infer_instance

instance : Progresses Always pattern := by
  unfold pattern
  infer_instance

instance : Progresses Always (arm rules) := by
  unfold arm
  infer_instance

instance (arms : List (Arm Span Symbol)) : Progresses Round.IsMore (armRound rules arms) := by
  unfold armRound
  infer_instance

instance : Progresses Always (select rules) := by
  unfold select
  infer_instance

instance : Progresses Always (parenthesized rules) := by
  unfold parenthesized
  infer_instance

instance : Progresses Always (pathExpr rules) := by
  unfold pathExpr
  infer_instance

instance : Progresses Always (primary rules) := by
  apply of_peek
  rintro ⟨kind, span⟩ state result after hshown hrun hresult
  cases hliteral : literal? kind with
  | some value =>
      simp only [hliteral] at hrun
      refine of_advance hshown ?_ hrun
      rintro rfl
      cases hliteral
  | none =>
      simp only [hliteral] at hrun
      refine @shorter _ Always _ ?_ _ _ _ hrun hresult
      split <;> infer_instance

variable [RulesProgress rules]

instance : Progresses Always (operand rules) := by
  apply of_peek
  rintro ⟨kind, span⟩ state result after hshown hrun hresult
  cases hunary : UnaryOp.ofKind? kind with
  | some op =>
      simp only [hunary] at hrun
      refine of_advance hshown ?_ hrun
      rintro rfl
      cases hunary
  | none =>
      cases hexit : ExitKind.ofKind? kind with
      | some exit =>
          simp only [hunary, hexit] at hrun
          refine of_advance hshown ?_ hrun
          rintro rfl
          cases hexit
      | none =>
          simp only [hunary, hexit] at hrun
          exact shorter hrun hresult

instance (least : Nat) : Progresses Always (operation rules least) := by
  unfold operation
  infer_instance

instance : Progresses Always (binding rules) := by
  unfold binding
  infer_instance

instance : Progresses Always importStatement :=
  inferInstanceAs (Progresses Always (importDeclaration >>= _))

omit [RulesProgress rules] in
theorem control?_progress {kind : Kind} {production : Parse (Expr Span Symbol)}
    (h : control? rules kind = some production) : Progresses Always production := by
  unfold control? at h
  split at h <;> cases h <;> infer_instance

instance : Progresses Always (leadingExpr rules) := by
  apply of_peek
  rintro ⟨kind, span⟩ state result after hshown hrun hresult
  cases hcontrol : control? rules kind with
  | some production =>
      have := control?_steady rules hcontrol
      have := control?_progress rules hcontrol
      simp only [hcontrol] at hrun
      exact shorter hrun hresult
  | none =>
      simp only [hcontrol] at hrun
      exact shorter hrun hresult

set_option synthInstance.maxSize 512 in
instance (statements : List (Statement Span Symbol)) :
    Progresses Round.IsMore (statementRound rules statements) := by
  unfold statementRound
  infer_instance

instance : Progresses Always (braces rules) := by
  have (left : Token) (contents : Contents) : Steady (do
      let (statements, tail) := contents
      let right ← expect Punct.rbrace
      return (⟨statements, tail, left.span.hull right.span⟩ : Block Span Symbol)) := by
    infer_instance
  exact inferInstanceAs (Progresses Always (nested _))

end

instance (levels : Nat) : RulesProgress (rulesWithin levels) := by
  induction levels with
  | zero => exact ⟨fun _ => inferInstanceAs (Progresses Always refuse),
      inferInstanceAs (Progresses Always refuse), inferInstanceAs (Progresses Always refuse)⟩
  | succ levels ih =>
      rw [rulesWithin_succ]
      exact ⟨fun least => inferInstanceAs (Progresses Always (operation _ least)),
        inferInstanceAs (Progresses Always (braces _)),
        inferInstanceAs (Progresses Always (conditional _))⟩

instance : Progresses Always block := by
  unfold block
  infer_instance

instance : Progresses Always expr := by
  unfold expr
  infer_instance

/-! ## Items -/

instance : Progresses Always importItem :=
  inferInstanceAs (Progresses Always (importDeclaration >>= _))

instance (kind : FilterKind) : Progresses Always (filterItem kind) := by
  unfold filterItem
  infer_instance

instance : Progresses Always functionItem := by
  unfold functionItem
  infer_instance

instance : Progresses Always recordItem := by
  unfold recordItem
  infer_instance

instance : Progresses Always testItem := by
  unfold testItem
  infer_instance

instance : Progresses Always item := by
  apply of_peek
  rintro ⟨kind, span⟩ state result after hshown hrun hresult
  refine @shorter _ Always _ ?_ _ _ _ hrun hresult
  split <;> infer_instance

instance (items : List (Item Span Symbol)) : Progresses Round.IsMore (itemRound items) := by
  unfold itemRound
  infer_instance

end Grammar

end FilterScript
