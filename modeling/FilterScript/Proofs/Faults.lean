import FilterScript.Proofs.Progress
import FilterScript.Proofs.Parallel.Sources
import FilterScript.Proofs.Spelling.Scripts
import Mathlib.Data.List.Nodup

/-!
# Where faults come from

A production takes tokens only, so a flaw of the source is never skipped, and when
it refuses a token it says what would have been accepted. The bounds of loops and
of recursion have no part in that: with fewer scans left than the bound says,
they are never reached.
-/

namespace FilterScript

/-- Nothing but tokens stands in front of the rest. -/
def TokensBefore (rest scans : List Scan) : Prop :=
  ∃ taken : List Token, scans = taken.map .ok ++ rest

namespace TokensBefore

variable {first second third : List Scan}

theorem refl (scans : List Scan) : TokensBefore scans scans :=
  ⟨[], rfl⟩

theorem trans (h : TokensBefore third second) (h' : TokensBefore second first) :
    TokensBefore third first := by
  obtain ⟨more, rfl⟩ := h
  obtain ⟨taken, rfl⟩ := h'
  exact ⟨taken ++ more, by simp⟩

theorem cons (token : Token) (rest : List Scan) : TokensBefore rest (.ok token :: rest) :=
  ⟨[token], rfl⟩

end TokensBefore

/-- Looking ahead stops at the first flaw. -/
theorem Stream.tokensBefore_of_lookahead {stream : Stream} {ahead : Nat} {flaw : Flaw}
    (h : stream.lookahead ahead = .error flaw) :
    ∃ rest, TokensBefore (.error flaw :: rest) stream.scans := by
  suffices ∀ scans ahead, lookahead.go stream scans ahead = .error flaw →
      ∃ rest, TokensBefore (.error flaw :: rest) scans from this _ _ h
  intro scans
  induction scans with
  | nil =>
      intro _ hgo
      cases hgo
  | cons scan rest ih =>
      intro ahead hgo
      match scan, ahead, hgo with
      | .error _, _, hgo =>
          cases hgo
          exact ⟨rest, .refl _⟩
      | .ok token, ahead + 1, hgo =>
          obtain ⟨later, hlater⟩ := ih ahead hgo
          exact ⟨later, hlater.trans (.cons token rest)⟩

/-- Why a run may have stopped at a place: a flaw that was looked at from there, or
a token that stands right there. An unexpected token comes with what was expected
instead, and nothing twice. -/
inductive Fault.Arises (place : Stream) : Fault → Prop
  | lexical {flaw : Flaw} {rest : List Scan} (h : TokensBefore (.error flaw :: rest) place.scans) :
      Arises place flaw.toFault
  | unexpected {token : Token} {expected : List Expected} (hshown : place.lookahead 0 = .ok token)
      (hsome : expected ≠ []) (hnodup : expected.Nodup) :
      Arises place ⟨.unexpected token.kind expected, token.span⟩
  | tooDeep {token : Token} (limit : Nat) (hshown : place.lookahead 0 = .ok token) :
      Arises place ⟨.tooDeep limit, token.span⟩

theorem Fault.Arises.of_flaw {place : Stream} {ahead : Nat} {flaw : Flaw}
    (h : place.lookahead ahead = .error flaw) : flaw.toFault.Arises place := by
  obtain ⟨rest, hrest⟩ := Stream.tokensBefore_of_lookahead h
  exact .lexical hrest

/-- Noting something more that was expected. -/
theorem State.noting_nodup {state : State} (expected : Expected) (h : state.expected.Nodup) :
    (state.noting expected).expected.Nodup := by
  unfold noting
  split
  next => exact h
  next hnew =>
    refine List.nodup_append.mpr ⟨h, List.nodup_singleton _, ?_⟩
    intro first hfirst second hsecond heq
    rw [List.mem_singleton.mp hsecond] at heq
    exact hnew (heq ▸ hfirst)

theorem State.noting_ne_nil (expected : Expected) (state : State) :
    (state.noting expected).expected ≠ [] := by
  unfold noting
  split
  next hmem => exact List.ne_nil_of_mem hmem
  next => simp

/-- How a run on this input may end: behind some tokens, and then with nothing
noted twice, or with a fault that arises there. -/
inductive Accounted {α : Type} (input : Stream) : EStateM.Result Fault State α → Prop
  | ok {result : α} {after : State} (hscans : TokensBefore after.input.scans input.scans)
      (hlength : after.input.length = input.length) (hexpected : after.expected.Nodup) :
      Accounted input (.ok result after)
  | error {fault : Fault} {after : State} (hscans : TokensBefore after.input.scans input.scans)
      (hlength : after.input.length = input.length) (h : fault.Arises after.input) :
      Accounted input (.error fault after)

theorem Accounted.of_later {α : Type} {input later : Stream}
    {result : EStateM.Result Fault State α} (h : Accounted later result)
    (hscans : TokensBefore later.scans input.scans) (hlength : later.length = input.length) :
    Accounted input result := by
  cases h with
  | ok hafter hafterLength hexpected =>
      exact .ok (hafter.trans hscans) (hafterLength.trans hlength) hexpected
  | error hafter hafterLength harises =>
      exact .error (hafter.trans hscans) (hafterLength.trans hlength) harises

namespace Parse

variable {α β : Type} {bound : Nat}

/-- With fewer scans to come than the bound says, every run takes tokens only and
every fault explains itself. -/
class Accounts (bound : Nat) (production : Parse α) : Prop where
  accounted : ∀ state : State, state.input.scans.length < bound → state.expected.Nodup →
    Accounted state.input (production state)

namespace Accounts

theorem mono {less : Nat} {production : Parse α} [h : Accounts bound production]
    (hle : less ≤ bound) : Accounts less production where
  accounted state hbound := h.accounted state (Nat.lt_of_lt_of_le hbound hle)

/-- A step that takes nothing and cannot fail. -/
theorem of_stay {production : Parse α} {result : α} {step : State → State}
    (hrun : ∀ state, production state = .ok result (step state))
    (hinput : ∀ state, (step state).input = state.input)
    (hexpected : ∀ state, state.expected.Nodup → (step state).expected.Nodup) :
    Accounts bound production where
  accounted state _ hnodup := by
    rw [hrun]
    exact .ok (hinput state ▸ .refl _) (hinput state ▸ rfl) (hexpected state hnodup)

theorem bind_accounted {production : Parse α} {next : α → Parse β} {state : State}
    (h : Accounted state.input (production state))
    (hnext : ∀ result after, production state = .ok result after → after.expected.Nodup →
      Accounted after.input (next result after)) :
    Accounted state.input ((production >>= next) state) := by
  cases hrun : production state with
  | ok result between =>
      rw [hrun] at h
      rw [bind_eq_of_ok hrun]
      cases h with
      | ok hscans hlength hexpected =>
          exact (hnext result between hrun hexpected).of_later hscans hlength
  | error fault after =>
      rw [hrun] at h
      rw [bind_eq_of_error hrun]
      cases h with
      | error hscans hlength harises => exact .error hscans hlength harises

instance (result : α) : Accounts bound (pure result) :=
  of_stay (fun _ => rfl) (fun _ => rfl) fun _ h => h

protected theorem bind {production : Parse α} {next : α → Parse β} [Steady production]
    (h : Accounts bound production) (hnext : ∀ result, Accounts bound (next result)) :
    Accounts bound (production >>= next) where
  accounted state hbound hnodup := by
    refine bind_accounted (h.accounted state hbound hnodup) fun result after hrun hexpected => ?_
    have hle := (Steady.follows hrun).scans.length_le
    exact (hnext result).accounted after (Nat.lt_of_le_of_lt hle hbound) hexpected

instance {production : Parse α} {next : α → Parse β} [Steady production]
    [Accounts bound production] [∀ result, Accounts bound (next result)] :
    Accounts bound (production >>= next) :=
  .bind inferInstance inferInstance

/-- Behind something that takes a token a smaller bound is enough. -/
instance {production : Parse α} {next : α → Parse β} [Progresses Always production]
    [h : Accounts (bound + 1) production] [hnext : ∀ result, Accounts bound (next result)] :
    Accounts (bound + 1) (production >>= next) where
  accounted state hbound hnodup := by
    refine bind_accounted (h.accounted state hbound hnodup) fun result after hrun hexpected => ?_
    have hfirst : Progresses Always production := inferInstance
    have hlt := hfirst.shorter hrun trivial
    exact (hnext result).accounted after (Nat.lt_of_lt_of_le hlt (Nat.le_of_lt_succ hbound)) hexpected

instance {condition : Prop} [Decidable condition] {yes no : Parse α} [Accounts bound yes]
    [Accounts bound no] : Accounts bound (if condition then yes else no) := by
  split <;> infer_instance

instance (ahead : Nat) : Accounts bound (peekAt ahead) where
  accounted state _ hnodup := by
    unfold peekAt
    split
    next => exact .ok (.refl _) rfl hnodup
    next flaw hflaw => exact .error (.refl _) rfl (.of_flaw hflaw)

instance : Accounts bound peek :=
  inferInstanceAs (Accounts bound (peekAt 0))

instance : Accounts bound advance where
  accounted state _ _ := by
    unfold advance
    split
    next token rest hscans => exact .ok (hscans ▸ .cons token rest) rfl List.nodup_nil
    next flaw rest hscans =>
      have hshown : state.input.lookahead 0 = .error flaw := Stream.lookahead_error hscans 0
      exact .error (.refl _) rfl (.of_flaw hshown)
    next => exact .ok (.refl _) rfl List.nodup_nil

instance (expected : Expected) : Accounts bound (want expected) :=
  of_stay (want_eq expected) (State.noting_input expected) fun _ => State.noting_nodup expected

instance (lint : Lint) (span : Span) : Accounts bound (warn lint span) :=
  of_stay (fun _ => rfl) (fun _ => rfl) fun _ h => h

instance (text : String) : Accounts bound (intern text) where
  accounted _ _ hnodup := .ok (.refl _) rfl hnodup

instance : Accounts bound (get : Parse State) where
  accounted _ _ hnodup := .ok (.refl _) rfl hnodup

/-- Refusing accounts for itself once something is noted. -/
theorem refuse_accounted {state : State} (hnodup : state.expected.Nodup)
    (hsome : state.expected ≠ []) : Accounted state.input ((refuse : Parse α) state) := by
  refine bind_accounted ((inferInstance : Accounts (_ + 1) peek).accounted state (Nat.lt_succ_self _) hnodup)
    fun token after hpeek _ => ?_
  obtain ⟨hshown, rfl⟩ := peekAt_eq_ok_iff.mp hpeek
  exact .error (.refl _) rfl (.unexpected hshown hsome hnodup)

instance (expected : Expected) : Accounts bound (want expected >>= fun _ => (refuse : Parse α)) where
  accounted state _ hnodup := by
    rw [bind_eq_of_ok (want_eq expected state)]
    have h : Accounted (state.noting expected).input ((refuse : Parse α) (state.noting expected)) :=
      refuse_accounted (State.noting_nodup expected hnodup) (State.noting_ne_nil expected state)
    rwa [State.noting_input] at h

instance (kind : Kind) : Accounts bound (nextIs kind) :=
  inferInstanceAs (Accounts bound (peek >>= fun _ => pure _))

section Questions

variable {kind : Kind} {yes no : Parse β}

/-- Whatever is done in place of what was asked for, that it was asked for is
noted. -/
instance [Accounts bound yes] [Accounts bound (want (.token kind) >>= fun _ => no)] :
    Accounts bound (do if ← accepts kind then yes else no) := by
  rw [if_accepts_eq]
  infer_instance

instance (kind : Kind) : Accounts bound (accepts kind) := by
  unfold accepts
  infer_instance

instance (kind : Kind) : Accounts bound (takes kind) := by
  unfold takes
  infer_instance

instance (kind : Kind) : Accounts bound (expect kind) := by
  unfold expect
  infer_instance

/-- Whether to go on or to refuse may depend on something else. -/
instance {condition : Prop} [Decidable condition] {expected : Expected}
    [Accounts bound (want expected >>= fun _ => yes)]
    [Accounts bound (want expected >>= fun _ => no)] :
    Accounts bound (want expected >>= fun _ => if condition then yes else no) := by
  split <;> infer_instance

end Questions

/-- Taking the token that was looked at. -/
theorem of_advance {next : Token → Parse β} {state : State} {token : Token}
    [h : Accounts bound (next token)] (hshown : state.input.lookahead 0 = .ok token)
    (hend : token.kind ≠ .endOfFile) (hbound : state.input.scans.length < bound + 1) :
    Accounted state.input ((advance >>= next) state) := by
  obtain ⟨rest, hscans⟩ := (Shows.of_lookahead hshown).cons hend
  have hrun : advance state = .ok token
      { state with input := { state.input with scans := rest }, expected := [] } := by
    unfold advance
    rw [hscans]
  rw [bind_eq_of_ok hrun]
  rw [hscans, List.length_cons] at hbound
  have hnext := h.accounted { state with input := ⟨rest, state.input.length⟩, expected := [] }
    (Nat.lt_of_succ_lt_succ hbound) List.nodup_nil
  exact hnext.of_later (hscans ▸ .cons token rest) rfl

/-! ### Ways to run a production -/

instance (change : Change) (production : Parse α) [h : Accounts bound production] :
    Accounts bound (within change production) where
  accounted state hbound hnodup := by
    have hinner := h.accounted { state with context := change.enter state.context } hbound hnodup
    unfold within
    split
    next hrun =>
      rw [hrun] at hinner
      cases hinner with
      | ok hscans hlength hexpected => exact .ok hscans hlength hexpected
    next hrun =>
      rw [hrun] at hinner
      cases hinner with
      | error hscans hlength harises => exact .error hscans hlength harises

instance (allowed : Bool) (production : Parse α) [Accounts bound production] :
    Accounts bound (withRecords allowed production) :=
  inferInstanceAs (Accounts bound (within (.records allowed) production))

instance (production : Parse α) [Accounts bound production] :
    Accounts bound (nested production) where
  accounted state hbound hnodup := by
    rw [nested_eq]
    split
    next limit _ =>
      refine bind_accounted (accounted state hbound hnodup) fun token after hpeek _ => ?_
      obtain ⟨hshown, rfl⟩ := peekAt_eq_ok_iff.mp hpeek
      exact .error (.refl _) rfl (.tooDeep limit hshown)
    next => exact accounted state hbound hnodup

/-- The bound that a production is supplied with is large enough. -/
instance (production : Nat → Parse α) [h : ∀ most, Accounts (min bound most) (production most)] :
    Accounts bound (bounded production) where
  accounted state hbound hnodup :=
    (h _).accounted state (Nat.lt_min.mpr ⟨hbound, Nat.lt_succ_self _⟩) hnodup

/-- Every round but the last takes something, so the rounds do not run out. -/
instance (round : α → Parse (Round α β)) [∀ value, Steady (round value)]
    [∀ value, Progresses Round.IsMore (round value)] [h : ∀ value, Accounts bound (round value)]
    (most : Nat) (value : α) : Accounts (min bound most) (rounds round most value) := by
  induction most generalizing value with
  | zero => exact ⟨fun _ hbound => absurd hbound (by simp)⟩
  | succ most ih =>
      constructor
      intro state hbound hnodup
      obtain ⟨hscans, hrounds⟩ := Nat.lt_min.mp hbound
      rw [rounds_succ]
      refine bind_accounted ((h value).accounted state hscans hnodup) fun result after hrun hexpected => ?_
      cases result with
      | done last => exact .ok (.refl _) rfl hexpected
      | more next =>
          have hround : Progresses Round.IsMore (round value) := inferInstance
          have hlt := hround.shorter hrun trivial
          exact (ih next).accounted after (by omega) hexpected

instance (round : α → Parse (Round α β)) [∀ value, Steady (round value)]
    [∀ value, Progresses Round.IsMore (round value)] [∀ value, Accounts bound (round value)]
    (first : α) : Accounts bound (repeated round first) :=
  inferInstanceAs (Accounts bound (bounded fun most => rounds round most first))

end Accounts

end Parse

namespace Grammar

open Parse Accounts

variable {α : Type} {bound : Nat}

instance : Accounts bound ident :=
  .bind inferInstance fun token => by
    split <;> infer_instance

instance : Accounts bound pathContinues := by
  unfold pathContinues
  infer_instance

instance (rest : List (Ident Span Symbol)) : Accounts bound (pathRound rest) := by
  unfold pathRound
  infer_instance

instance : Accounts bound path := by
  unfold path
  infer_instance

instance (close : Kind) : Accounts bound (loneComma close) := by
  unfold loneComma
  infer_instance

section Lists

variable (element : Parse α) [Steady element] [Accounts bound element]

instance (close : Kind) (elements : List α) : Accounts bound (listRound close element elements) := by
  unfold listRound
  infer_instance

instance (close : Kind) : Accounts bound (commaList close element) := by
  unfold commaList
  infer_instance

instance (spanOf : α → Span) : Accounts bound (field spanOf element) := by
  unfold field
  infer_instance

/-- The brace comes before the fields. -/
instance (spanOf : α → Span) : Accounts (bound + 1) (record spanOf element) := by
  unfold record
  infer_instance

end Lists

/-! ## Imports and types -/

section

variable (member : Parse (ImportPath Span Symbol)) [Steady member] [Accounts bound member]

instance : Accounts (bound + 1) (importPart member) where
  accounted state hbound hnodup := by
    refine bind_accounted (accounted state hbound hnodup) ?_
    rintro ⟨kind, span⟩ after hpeek hexpected
    obtain ⟨hshown, rfl⟩ := peekAt_eq_ok_iff.mp hpeek
    -- Members of a group are read behind its brace.
    cases kind with
    | punct mark =>
        cases mark with
        | lbrace => exact of_advance hshown Kind.noConfusion hbound
        | _ => exact accounted _ hbound hexpected
    | _ => exact accounted _ hbound hexpected

instance (parts : List (ImportPart Span Symbol)) : Accounts (bound + 1) (importRound member parts) :=
  .bind inferInstance fun (part, span) => by
    infer_instance

end

instance (levels : Nat) : Accounts levels (importPathWithin levels) := by
  induction levels with
  | zero => exact ⟨fun _ hbound => absurd hbound (Nat.not_lt_zero _)⟩
  | succ levels ih =>
      have (start : Token) : Accounts (levels + 1) (do
          let (parts, last) ← repeated (importRound (importPathWithin levels)) []
          return (⟨parts, start.span.hull last⟩ : ImportPath Span Symbol)) :=
        .bind inferInstance fun (parts, last) => inferInstanceAs (Accounts _ (pure _))
      exact inferInstanceAs (Accounts _ (nested _))

instance : Accounts bound importPath := by
  have (most : Nat) : Accounts (min bound most) (importPathWithin most) := mono (Nat.min_le_right _ _)
  unfold importPath
  infer_instance

instance : Accounts bound importDeclaration := by
  unfold importDeclaration
  infer_instance

section

variable (type : Parse (TypeExpr Span Symbol)) [Steady type] [Accounts bound type]

instance : Accounts (bound + 1) (namedType type) := by
  unfold namedType
  infer_instance

instance : Accounts (bound + 1) (typeAtom type) :=
  .bind inferInstance fun token => by
    split <;> infer_instance

end

instance (type : TypeExpr Span Symbol) : Accounts bound (optionalRound type) := by
  unfold optionalRound
  infer_instance

instance (levels : Nat) : Accounts levels (typeWithin levels) := by
  induction levels with
  | zero => exact ⟨fun _ hbound => absurd hbound (Nat.not_lt_zero _)⟩
  | succ levels ih =>
      unfold typeWithin
      infer_instance

instance : Accounts bound type := by
  have (most : Nat) : Accounts (min bound most) (typeWithin most) := mono (Nat.min_le_right _ _)
  unfold type
  infer_instance

instance : Accounts bound parameters := by
  unfold parameters
  infer_instance

/-! ## Expressions and blocks -/

/-- The productions that others go back to account for all they do, if fewer scans
are left than the bound says. -/
class RulesAccount (bound : Nat) (rules : Rules) : Prop where
  expr : ∀ least, Accounts bound (rules.expr least)
  block : Accounts bound rules.block
  elseIf : Accounts bound rules.elseIf

attribute [instance] RulesAccount.expr RulesAccount.block RulesAccount.elseIf

section

variable (rules : Rules) [RulesSteady rules] [RulesAccount bound rules]

instance (least : Nat) (left : Expr Span Symbol) :
    Accounts (bound + 1) (operatorRound rules least left) where
  accounted state hbound hnodup := by
    refine bind_accounted (accounted state hbound hnodup) ?_
    rintro ⟨kind, span⟩ after hpeek hexpected
    obtain ⟨hshown, rfl⟩ := peekAt_eq_ok_iff.mp hpeek
    cases hop : BinaryOp.ofKind? kind with
    | none => exact accounted _ hbound hexpected
    | some op =>
        dsimp only
        split
        · exact accounted _ hbound hexpected
        · have hkind := BinaryOp.ofKind?_eq_some_iff.mp hop
          exact of_advance hshown (hkind ▸ Kind.noConfusion) hbound

set_option synthInstance.maxSize 512 in
instance (expr : Expr Span Symbol) : Accounts bound (postfixRound rules expr) := by
  unfold postfixRound
  infer_instance

instance (first : Expr Span Symbol) : Accounts bound (postfixes rules first) := by
  unfold postfixes
  infer_instance

/-- Operators come before their right operands. -/
instance (least : Nat) (first : Expr Span Symbol) :
    Accounts (bound + 1) (operators rules least first) := by
  unfold operators
  infer_instance

instance : Accounts bound (alternative rules) := by
  unfold alternative
  infer_instance

instance : Accounts (bound + 1) (conditional rules) := by
  unfold conditional
  infer_instance

instance : Accounts (bound + 1) (whileLoop rules) := by
  unfold whileLoop
  infer_instance

set_option synthInstance.maxSize 512 in
instance : Accounts bound pattern := by
  unfold pattern
  infer_instance

instance : Accounts bound (guard rules) := by
  unfold guard
  infer_instance

instance : Accounts bound blockNext := by
  unfold blockNext
  infer_instance

instance : Accounts bound (armBody rules) := by
  unfold armBody
  infer_instance

instance : Accounts bound (arm rules) := by
  unfold arm
  infer_instance

instance (arms : List (Arm Span Symbol)) : Accounts bound (armRound rules arms) := by
  unfold armRound
  infer_instance

instance : Accounts (bound + 1) (select rules) := by
  unfold select
  infer_instance

instance : Accounts (bound + 1) (parenthesized rules) := by
  unfold parenthesized
  infer_instance

instance : Accounts bound recordNext := by
  unfold recordNext
  infer_instance

instance : Accounts (bound + 1) (pathExpr rules) := by
  unfold pathExpr
  infer_instance

instance : Accounts (bound + 1) (primary rules) :=
  .bind inferInstance fun token => by
    split
    · infer_instance
    · split <;> infer_instance

instance : Accounts bound exprNext := by
  unfold exprNext
  infer_instance

instance : Accounts (bound + 1) (operand rules) where
  accounted state hbound hnodup := by
    refine bind_accounted (accounted state hbound hnodup) ?_
    rintro ⟨kind, span⟩ after hpeek hexpected
    obtain ⟨hshown, rfl⟩ := peekAt_eq_ok_iff.mp hpeek
    cases hunary : UnaryOp.ofKind? kind with
    | some op =>
        refine of_advance hshown ?_ hbound
        rintro rfl
        cases hunary
    | none =>
        cases hexit : ExitKind.ofKind? kind with
        | some exit =>
            refine of_advance hshown ?_ hbound
            rintro rfl
            cases hexit
        | none => exact accounted _ hbound hexpected

instance (least : Nat) : Accounts (bound + 1) (operation rules least) := by
  unfold operation
  infer_instance

instance : Accounts bound annotation := by
  unfold annotation
  infer_instance

instance : Accounts bound (binding rules) := by
  unfold binding
  infer_instance

instance : Accounts bound importStatement :=
  .bind inferInstance fun (_, _) => inferInstanceAs (Accounts _ (pure _))

theorem control?_accounts {kind : Kind} {production : Parse (Expr Span Symbol)}
    (h : control? rules kind = some production) : Accounts (bound + 1) production := by
  unfold control? at h
  split at h <;> cases h <;> infer_instance

instance : Accounts bound (leadingExpr rules) :=
  .bind inferInstance fun token => by
    split
    next production hproduction =>
      have := control?_steady rules hproduction
      have hcontrol : Accounts (bound + 1) production := control?_accounts rules hproduction
      have : Accounts bound production := mono (Nat.le_succ bound)
      have (first : Expr Span Symbol) : Accounts bound (operators rules 0 first) :=
        mono (Nat.le_succ bound)
      infer_instance
    next => infer_instance

set_option synthInstance.maxSize 512 in
instance (statements : List (Statement Span Symbol)) :
    Accounts bound (statementRound rules statements) := by
  unfold statementRound
  infer_instance

instance [RulesProgress rules] : Accounts (bound + 1) (braces rules) := by
  have (left : Token) (contents : Contents) : Accounts bound (do
      let (statements, tail) := contents
      let right ← expect Punct.rbrace
      return (⟨statements, tail, left.span.hull right.span⟩ : Block Span Symbol)) := by
    infer_instance
  exact inferInstanceAs (Accounts _ (nested _))

end

instance (levels : Nat) : RulesAccount levels (rulesWithin levels) := by
  induction levels with
  | zero =>
      have none {β : Type} {production : Parse β} : Accounts 0 production :=
        ⟨fun _ hbound => absurd hbound (Nat.not_lt_zero _)⟩
      exact ⟨fun _ => none, none, none⟩
  | succ levels ih =>
      rw [rulesWithin_succ]
      exact ⟨fun least => inferInstanceAs (Accounts _ (operation _ least)),
        inferInstanceAs (Accounts _ (braces _)), inferInstanceAs (Accounts _ (conditional _))⟩

instance : Accounts bound block := by
  have (most : Nat) : Accounts (min bound most) (rulesWithin most).block := mono (Nat.min_le_right _ _)
  unfold block
  infer_instance

instance : Accounts bound expr := by
  have (most : Nat) : Accounts (min bound most) ((rulesWithin most).expr 0) :=
    mono (Nat.min_le_right _ _)
  unfold expr
  infer_instance

/-! ## Items and scripts -/

instance : Accounts bound importItem :=
  .bind inferInstance fun (_, _) => inferInstanceAs (Accounts _ (pure _))

instance (kind : FilterKind) : Accounts bound (filterItem kind) := by
  unfold filterItem
  infer_instance

instance : Accounts bound returnType := by
  unfold returnType
  infer_instance

instance : Accounts bound functionItem := by
  unfold functionItem
  infer_instance

instance : Accounts bound recordItem := by
  have : Accounts bound (record TypeExpr.span type) := mono (Nat.le_succ bound)
  unfold recordItem
  infer_instance

instance : Accounts bound testItem := by
  unfold testItem
  infer_instance

instance : Accounts bound item :=
  .bind inferInstance fun token => by
    split <;> infer_instance

instance (items : List (Item Span Symbol)) : Accounts bound (itemRound items) := by
  unfold itemRound
  infer_instance

instance : Accounts bound script := by
  unfold script
  infer_instance

end Grammar

/-- A run of a whole script. -/
theorem script_accounted (state : State) (hnodup : state.expected.Nodup) :
    Accounted state.input (Grammar.script state) := by
  have hscript : Parse.Accounts (state.input.scans.length + 1) Grammar.script := inferInstance
  exact hscript.accounted state (Nat.lt_succ_self _) hnodup

/-! ## Sources -/

/-- The token is one of the source, or its end, and no flaw comes before it. -/
def Token.IsReached (token : Token) (source : String) : Prop :=
  ∃ (before : List Token) (after : List Scan),
    (Stream.ofSource source).results = before.map .ok ++ .ok token :: after

theorem Stream.results_of_lookahead {stream : Stream} {token : Token}
    (h : stream.lookahead 0 = .ok token) : ∃ after, stream.results = .ok token :: after := by
  obtain ⟨scans, length⟩ := stream
  cases scans with
  | nil =>
      cases h
      exact ⟨[], rfl⟩
  | cons scan rest =>
      cases scan with
      | ok first =>
          cases h
          exact ⟨rest ++ [Scan.atEnd length], rfl⟩
      | error flaw => cases h

theorem Token.isReached_of_lookahead {source : String} {place : Stream} {token : Token}
    (hscans : TokensBefore place.scans (Stream.ofSource source).scans)
    (hlength : place.length = (Stream.ofSource source).length)
    (hshown : place.lookahead 0 = .ok token) : token.IsReached source := by
  obtain ⟨taken, htaken⟩ := hscans
  obtain ⟨after, hafter⟩ := Stream.results_of_lookahead hshown
  refine ⟨taken, after, ?_⟩
  rw [← hafter, Stream.results, htaken, ← hlength, List.append_assoc]
  rfl

/-- The first flaw of a source is why it has no tokens. -/
theorem tokenize_of_flaw {source : String} {flaw : Flaw} {rest : List Scan}
    (h : TokensBefore (.error flaw :: rest) (Stream.ofSource source).scans) :
    tokenize source = .error (flaw.toFault.locate source) := by
  obtain ⟨taken, htaken⟩ := h
  have htokens : (Stream.ofSource source).tokens = .error flaw := by
    unfold Stream.tokens
    rw [htaken]
    clear htaken
    induction taken with
    | nil => rfl
    | cons token rest ih =>
        rw [List.map_cons, List.cons_append, Stream.tokens.go, ih]
        rfl
  unfold tokenize
  rw [htokens]

/-- Where errors come from. A source that is accepted has tokens. If it is refused
for a flaw, that is what its tokens are refused for. Otherwise the error is at a
token with no flaw before it; an unexpected token is the one that was found, and
the error says what was expected instead, nothing twice. -/
theorem parse_error_origin (source : String) :
    match parse source with
    | .ok _ => ∃ tokens, tokenize source = .ok tokens
    | .error error =>
        match error.cause with
        | .lexical _ => tokenize source = .error error
        | .unexpected found expected =>
            (∃ token : Token, token.IsReached source ∧ error.span = token.span ∧
              token.kind = found) ∧ expected ≠ [] ∧ expected.Nodup
        | .tooDeep _ => ∃ token : Token, token.IsReached source ∧ error.span = token.span := by
  cases hparsed : parse source with
  | ok parsed =>
      obtain ⟨tokens, hscans, -⟩ := runOn_reads (fun _ _ => Grammar.script_reads) hparsed
      exact ⟨_, tokenize_of_scans hscans⟩
  | error error =>
      obtain ⟨fault, after, hrun, rfl⟩ := exists_of_parse_error hparsed
      have haccounted := script_accounted (State.ofSource nestingLimit source) List.nodup_nil
      rw [hrun] at haccounted
      cases haccounted with
      | error hscans hlength harises =>
          cases harises with
          | lexical hflaw => exact tokenize_of_flaw (hflaw.trans hscans)
          | unexpected hshown hsome hnodup =>
              exact ⟨⟨_, Token.isReached_of_lookahead hscans hlength hshown, rfl, rfl⟩, hsome, hnodup⟩
          | tooDeep limit hshown =>
              exact ⟨_, Token.isReached_of_lookahead hscans hlength hshown, rfl⟩

end FilterScript
