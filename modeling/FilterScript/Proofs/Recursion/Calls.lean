import FilterScript.Proofs.Recursion.Agreement
import Mathlib.Logic.Function.Basic
import Mathlib.Logic.Function.Iterate
import Mathlib.Order.RelClasses

/-!
# Calls go down

Recursion goes back to five productions only. Written out once, each of them takes a
token before it calls one of the five, so that the calls inside of a call have fewer
scans left. How deep they may go is no part of the grammar then: the productions are
what they would be without a bound, and a bound of one more than the scans left is
never reached.
-/

namespace FilterScript

namespace Grammar

open Parse

variable {α : Type} {bound : Nat}

/-- A type, given a production for the types inside of it. -/
def typeOver (type : Parse (TypeExpr Span Symbol)) : Parse (TypeExpr Span Symbol) :=
  nested do
    let atom ← typeAtom type
    repeated optionalRound atom

/-- An import path, given a production for the members of its groups. -/
def importPathOver (member : Parse (ImportPath Span Symbol)) : Parse (ImportPath Span Symbol) :=
  nested do
    let start ← peek
    let (parts, last) ← repeated (importRound member) []
    return ⟨parts, start.span.hull last⟩

instance (type type' : Parse (TypeExpr Span Symbol)) [Steady type] [Agree bound type type'] :
    Agree (bound + 1) (typeOver type) (typeOver type') := by
  unfold typeOver
  infer_instance

instance (member member' : Parse (ImportPath Span Symbol)) [Steady member]
    [Agree bound member member'] :
    Agree (bound + 1) (importPathOver member) (importPathOver member') :=
  .nested (.bind inferInstance fun _ => .bind inferInstance fun (_, _) =>
    inferInstanceAs (Agree _ (pure _) (pure _)))

/-- The productions that recursion goes back to. -/
inductive Callee where
  | expr (least : Nat)
  | block
  | elseIf
  | type
  | importPath
deriving DecidableEq

/-- What they give. -/
abbrev Callee.Result : Callee → Type
  | expr _ | elseIf => Expr Span Symbol
  | block => Block Span Symbol
  | type => TypeExpr Span Symbol
  | importPath => ImportPath Span Symbol

/-- A production in place of each of them. -/
abbrev Callees :=
  ∀ callee : Callee, Parse callee.Result

namespace Callees

/-- Those that expressions and blocks go back to. -/
def rules (callees : Callees) : Rules where
  expr least := callees (.expr least)
  block := callees .block
  elseIf := callees .elseIf

/-- The productions written out once, in terms of those they go back to. -/
def unfold (callees : Callees) : Callees
  | .expr least => operation callees.rules least
  | .block => braces callees.rules
  | .elseIf => conditional callees.rules
  | .type => typeOver (callees .type)
  | .importPath => importPathOver (callees .importPath)

/-- The productions with calls at most as deep as the number says. -/
def within (levels : Nat) : Callees
  | .expr least => (rulesWithin levels).expr least
  | .block => (rulesWithin levels).block
  | .elseIf => (rulesWithin levels).elseIf
  | .type => typeWithin levels
  | .importPath => importPathWithin levels

/-- The productions, each as deep as its tokens reach. -/
def deep : Callees :=
  fun callee => bounded fun levels => within levels callee

theorem within_succ (levels : Nat) : within (levels + 1) = (within levels).unfold := by
  funext callee
  cases callee <;> rfl

instance (levels : Nat) (callee : Callee) : Steady (within levels callee) := by
  cases callee with
  | expr least => exact inferInstanceAs (Steady ((rulesWithin levels).expr least))
  | block => exact inferInstanceAs (Steady (rulesWithin levels).block)
  | elseIf => exact inferInstanceAs (Steady (rulesWithin levels).elseIf)
  | type => exact inferInstanceAs (Steady (typeWithin levels))
  | importPath => exact inferInstanceAs (Steady (importPathWithin levels))

instance (callee : Callee) : Steady (deep callee) := by
  unfold deep
  infer_instance

instance (levels : Nat) (callee : Callee) : Progresses Always (within levels callee) := by
  cases callee with
  | expr least => exact inferInstanceAs (Progresses Always ((rulesWithin levels).expr least))
  | block => exact inferInstanceAs (Progresses Always (rulesWithin levels).block)
  | elseIf => exact inferInstanceAs (Progresses Always (rulesWithin levels).elseIf)
  | type => exact inferInstanceAs (Progresses Always (typeWithin levels))
  | importPath => exact inferInstanceAs (Progresses Always (importPathWithin levels))

instance (callee : Callee) : Progresses Always (deep callee) := by
  unfold deep
  infer_instance

section

variable (callees : Callees)

instance [h : ∀ callee, Steady (callees callee)] : RulesSteady callees.rules :=
  ⟨fun least => h (.expr least), h .block, h .elseIf⟩

instance [h : ∀ callee, Progresses Always (callees callee)] : RulesProgress callees.rules :=
  ⟨fun least => h (.expr least), h .block, h .elseIf⟩

end

/-! ## As deep as the tokens reach -/

variable {callees others : Callees}

theorem rulesAgree (h : ∀ callee, Agree bound (callees callee) (others callee)) :
    RulesAgree bound callees.rules others.rules :=
  ⟨fun least => h (.expr least), h .block, h .elseIf⟩

/-- Written out once more, productions agree on inputs with one more scan. -/
theorem unfold_agree [∀ callee, Steady (callees callee)]
    (h : ∀ callee, Agree bound (callees callee) (others callee)) (callee : Callee) :
    Agree (bound + 1) (callees.unfold callee) (others.unfold callee) := by
  have := rulesAgree h
  cases callee with
  | expr least => exact inferInstanceAs (Agree _ (operation _ least) (operation _ least))
  | block => exact inferInstanceAs (Agree _ (braces _) (braces _))
  | elseIf => exact inferInstanceAs (Agree _ (conditional _) (conditional _))
  | type =>
      have : Agree bound (callees .type) (others .type) := h .type
      exact inferInstanceAs (Agree _ (typeOver _) (typeOver _))
  | importPath =>
      have : Agree bound (callees .importPath) (others .importPath) := h .importPath
      exact inferInstanceAs (Agree _ (importPathOver _) (importPathOver _))

/-- As many levels as there are scans are enough, whatever stands below them. -/
theorem within_agree_iterate (others : Callees) {levels more : Nat} (h : bound ≤ levels)
    (h' : bound ≤ more) (callee : Callee) :
    Agree bound (within levels callee) (unfold^[more] others callee) := by
  induction bound generalizing levels more callee with
  | zero => exact .zero
  | succ bound ih =>
      obtain ⟨levels, rfl⟩ : ∃ less, levels = less + 1 := ⟨levels - 1, by omega⟩
      obtain ⟨more, rfl⟩ : ∃ less, more = less + 1 := ⟨more - 1, by omega⟩
      rw [within_succ, Function.iterate_succ_apply']
      exact unfold_agree (ih (Nat.le_of_succ_le_succ h) (Nat.le_of_succ_le_succ h')) callee

theorem within_eq_iterate (levels : Nat) : within levels = unfold^[levels] (within 0) := by
  induction levels with
  | zero => rfl
  | succ levels ih => rw [within_succ, Function.iterate_succ_apply', ih]

/-- The levels that a production is supplied with are enough. -/
theorem deep_eq_iterate (others : Callees) {levels : Nat} (callee : Callee) {state : State}
    (h : state.input.scans.length < levels) :
    deep callee state = unfold^[levels] others callee state := by
  have hagree : Agree (state.input.scans.length + 1) (within (state.input.scans.length + 1) callee)
      (unfold^[levels] others callee) := within_agree_iterate others (Nat.le_refl _) h callee
  exact hagree.eq (Nat.lt_succ_self _)

/-- Written out, the productions are the same as before: nothing tells that they are
bounded. -/
theorem unfold_deep : unfold deep = deep := by
  funext callee state
  have hbelow (callee : Callee) :
      Agree state.input.scans.length (deep callee) (within state.input.scans.length callee) := by
    constructor
    intro state hlt
    rw [deep_eq_iterate (within 0) callee hlt, ← within_eq_iterate]
  have hdeep : deep callee state = within (state.input.scans.length + 1) callee state := rfl
  rw [hdeep, within_succ]
  exact (unfold_agree hbelow callee).eq (Nat.lt_succ_self _)

/-- No others are the same written out. If a run went on for ever, it could as well give
anything. -/
theorem unfold_eq_iff : callees.unfold = callees ↔ callees = deep := by
  constructor
  · intro hfixed
    funext callee state
    rw [deep_eq_iterate callees callee (Nat.lt_succ_self _), Function.iterate_fixed hfixed]
  · rintro rfl
    exact unfold_deep

end Callees

/-! ## Calls -/

open Classical in
/-- The same production, but in this state it fails. -/
noncomputable def failingAt (place : State) (fault : Fault) (production : Parse α) : Parse α :=
  fun state => if state = place then .error fault state else production state

theorem failingAt_of_ne {state place : State} (fault : Fault) (production : Parse α)
    (h : state ≠ place) : failingAt place fault production state = production state :=
  if_neg h

/-- The same productions, but this one fails in this state. -/
noncomputable def Callees.failingAt (callees : Callees) (callee : Callee) (place : State)
    (fault : Fault) : Callees :=
  Function.update callees callee (Grammar.failingAt place fault (callees callee))

/-- A run of the production from the first state calls another one in the inner state.
If that call fails so does the run, and whatever fault the call is given is the fault
of the run. -/
def Calls (production : Callees → Parse α) (state : State) (callee : Callee) (inner : State) :
    Prop :=
  ∀ fault, ∃ after,
    production (Callees.deep.failingAt callee inner fault) state = .error fault after

/-- Only the state with the failure makes a difference. -/
theorem Callees.failingAt_agree {callee : Callee} {place : State} (fault : Fault)
    (h : bound ≤ place.input.scans.length) (other : Callee) :
    Agree bound (deep other) (deep.failingAt callee place fault other) := by
  unfold Callees.failingAt
  by_cases hother : other = callee
  · subst hother
    rw [Function.update_self]
    constructor
    intro state hlt
    have hne : state ≠ place := by
      rintro rfl
      exact Nat.not_le_of_lt hlt h
    exact (failingAt_of_ne fault _ hne).symm
  · rw [Function.update_of_ne hother]
    infer_instance

/-- If it is enough to know the productions on inputs shorter than the bound, they are
called on no others. -/
theorem Calls.length_lt {production : Callees → Parse α} {state inner : State} {callee : Callee}
    (hcalls : Calls production state callee inner)
    (h : ∀ others, (∀ callee, Agree bound (Callees.deep callee) (others callee)) →
      production Callees.deep state = production others state) :
    inner.input.scans.length < bound := by
  by_contra hge
  -- No run ends with two faults.
  have hrun (fault : Fault) : ∃ after, production Callees.deep state = .error fault after := by
    rw [h _ (Callees.failingAt_agree fault (Nat.le_of_not_lt hge))]
    exact hcalls fault
  obtain ⟨_, hfirst⟩ := hrun ⟨.tooDeep 0, ⟨0, 0⟩⟩
  obtain ⟨_, hsecond⟩ := hrun ⟨.tooDeep 1, ⟨0, 0⟩⟩
  cases hfirst.symm.trans hsecond

/-- How high a production stands that others go back to. -/
def Callee.rank : Callee → Nat
  | block | elseIf => 0
  | type | importPath => 2
  | expr _ => 3

/-- The productions that call those that recursion goes back to, and how high they
stand. Where a production may begin with another one, it stands above that one. What
they call otherwise has been defined before them. -/
inductive IsCaller : Nat → {α : Type} → (Callees → Parse α) → Prop
  | conditional : IsCaller 0 fun callees => conditional callees.rules
  | alternative : IsCaller 0 fun callees => alternative callees.rules
  | whileLoop : IsCaller 0 fun callees => whileLoop callees.rules
  | select : IsCaller 0 fun callees => select callees.rules
  | arms : IsCaller 0 fun callees => repeated (armRound callees.rules) []
  | arm : IsCaller 0 fun callees => arm callees.rules
  | guard : IsCaller 0 fun callees => guard callees.rules
  | parenthesized : IsCaller 0 fun callees => parenthesized callees.rules
  | earlyExit (kind : ExitKind) : IsCaller 0 fun callees => earlyExit callees.rules kind
  | pathExpr : IsCaller 0 fun callees => pathExpr callees.rules
  | operators (least : Nat) (first : Expr Span Symbol) :
      IsCaller 0 fun callees => operators callees.rules least first
  | postfixes (first : Expr Span Symbol) :
      IsCaller 0 fun callees => postfixes callees.rules first
  | binding : IsCaller 0 fun callees => binding callees.rules
  | braces : IsCaller 0 fun callees => braces callees.rules
  | namedType : IsCaller 0 fun callees => namedType (callees .type)
  | field (callee : Callee) (spanOf : callee.Result → Span) :
      IsCaller 0 fun callees => field spanOf (callees callee)
  | record (callee : Callee) (spanOf : callee.Result → Span) :
      IsCaller 0 fun callees => record spanOf (callees callee)
  | primary : IsCaller 1 fun callees => primary callees.rules
  | typeAtom : IsCaller 1 fun callees => typeAtom (callees .type)
  | importPart : IsCaller 1 fun callees => importPart (callees .importPath)
  | operand : IsCaller 2 fun callees => operand callees.rules
  | type : IsCaller 2 fun callees => typeOver (callees .type)
  | importPath : IsCaller 2 fun callees => importPathOver (callees .importPath)
  | operation (least : Nat) : IsCaller 3 fun callees => operation callees.rules least
  | commaList (close : Kind) (callee : Callee) :
      IsCaller 4 fun callees => commaList close (callees callee)
  | armBody : IsCaller 4 fun callees => armBody callees.rules
  | leadingExpr : IsCaller 4 fun callees => leadingExpr callees.rules
  | statements : IsCaller 5 fun callees => repeated (statementRound callees.rules) []

theorem Callee.rank_le (callee : Callee) : callee.rank ≤ 3 := by
  cases callee <;> simp [rank]

/-- What recursion goes back to, written out, is one of these. -/
theorem Callee.isCaller (callee : Callee) :
    IsCaller callee.rank fun callees => callees.unfold callee := by
  cases callee with
  | expr least => exact .operation least
  | block => exact .braces
  | elseIf => exact .conditional
  | type => exact .type
  | importPath => exact .importPath

namespace IsCaller

variable {rank : Nat} {production : Callees → Parse α}

/-- Productions that stand no higher than any of those called take a token before
they call. -/
theorem agree (h : IsCaller rank production) {others : Callees}
    (hagree : ∀ callee, Agree bound (Callees.deep callee) (others callee)) :
    Agree bound (production Callees.deep) (production others) ∧
      (rank ≤ 3 → Agree (bound + 1) (production Callees.deep) (production others)) := by
  have (callee : Callee) : Steady (Callees.deep callee) := inferInstance
  have := Callees.rulesAgree hagree
  have : Agree bound (Callees.deep .type) (others .type) := hagree .type
  have : Agree bound (Callees.deep .importPath) (others .importPath) := hagree .importPath
  have hstrict {first second : Parse α} (h : Agree (bound + 1) first second) :
      Agree bound first second ∧ (rank ≤ 3 → Agree (bound + 1) first second) :=
    ⟨h.mono (Nat.le_succ bound), fun _ => h⟩
  have hlate {first second : Parse α} (h : Agree bound first second) (hrank : 3 < rank) :
      Agree bound first second ∧ (rank ≤ 3 → Agree (bound + 1) first second) :=
    ⟨h, fun hle => absurd hle (Nat.not_le_of_lt hrank)⟩
  cases h with
  | conditional | alternative | whileLoop | select | arms | arm | guard | parenthesized | earlyExit
  | pathExpr | operators | postfixes | binding | braces | namedType | primary | typeAtom
  | importPart | operand | type | importPath | operation => exact hstrict inferInstance
  | field callee spanOf | record callee spanOf =>
      have := hagree callee
      exact hstrict inferInstance
  | commaList close callee =>
      have := hagree callee
      exact hlate inferInstance (by decide)
  | armBody | leadingExpr | statements => exact hlate inferInstance (by decide)

/-- Calls have fewer scans left than the production that makes them, or as many and
stand below it. -/
theorem descends (h : IsCaller rank production) {state inner : State} {callee : Callee}
    (hcalls : Calls production state callee inner) :
    inner.input.scans.length < state.input.scans.length ∨
      inner.input.scans.length = state.input.scans.length ∧ callee.rank < rank := by
  by_cases hrank : rank ≤ 3
  · exact .inl (hcalls.length_lt fun _ hagree => ((h.agree hagree).2 hrank).eq (Nat.lt_succ_self _))
  · have hle := hcalls.length_lt fun _ hagree => (h.agree hagree).1.eq (Nat.lt_succ_self _)
    have hlow := callee.rank_le
    omega

end IsCaller

/-- A call that recursion goes back to: the production and the state it starts in. -/
abbrev Call :=
  Callee × State

/-- The first call is made by the second one. -/
def Call.IsInside (inner outer : Call) : Prop :=
  Calls (fun callees => callees.unfold outer.1) outer.2 inner.1 inner.2

/-- Between a call and one inside of it at least one scan is taken. -/
theorem Call.IsInside.shorter {inner outer : Call} (h : inner.IsInside outer) :
    inner.2.input.scans.length < outer.2.input.scans.length :=
  Calls.length_lt h fun _ hagree => (Callees.unfold_agree hagree outer.1).eq (Nat.lt_succ_self _)

/-- No call has calls inside of calls without end. -/
theorem Call.isInside_wellFounded : WellFounded Call.IsInside :=
  Subrelation.wf Call.IsInside.shorter (measure fun call : Call => call.2.input.scans.length).wf

end Grammar

end FilterScript
