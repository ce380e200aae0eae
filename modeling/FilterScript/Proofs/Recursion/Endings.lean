import FilterScript.Proofs.Faults
import FilterScript.Proofs.Outlines
import FilterScript.Proofs.Recursion.Calls
import FilterScript.Proofs.Traces.Productions

/-!
# Parsing ends

A run is made of rounds of loops and of calls inside of calls. A round that is not the
last of its loop takes a token, and so does every construct of the language; a call
that recursion goes back to has fewer tokens left than the one around it. So there are
only finitely many of both, with or without a limit on levels.
-/

namespace FilterScript

/-- Between the two states tokens have been taken, at least one, and none of them is
the end. -/
def State.Past (after before : State) : Prop :=
  ∃ taken : List Token, taken ≠ [] ∧ (∀ token ∈ taken, token.kind ≠ .endOfFile) ∧
    before.input.scans = taken.map .ok ++ after.input.scans

namespace Parse

variable {α β : Type}

/-! ## Tokens taken -/

/-- Runs take tokens only. -/
theorem Runs.tokensBefore {production : Parse α} {state : State} {visited : List Context}
    {last : EStateM.Result Fault State α} (h : Runs production state visited last) :
    TokensBefore (lastState last).input.scans state.input.scans := by
  induction h with
  | pure | throw | get | warn | intern => exact .refl _
  | peekAt ahead state =>
      unfold Parse.peekAt
      split <;> exact .refl _
  | advance state =>
      unfold Parse.advance
      split
      next token rest hscans =>
        rw [hscans]
        exact .cons token rest
      next => exact .refl _
      next => exact .refl _
  | want expected state =>
      rw [want_eq, lastState, State.noting_input]
      exact .refl _
  | bind hfirst hrest ihfirst ihrest => exact ihrest.trans ihfirst
  | withRecords hinner ih | nested hroom hinner ih =>
      rw [lastState_undo]
      exact ih
  | stop hfirst ih | tooDeep hlimit hrefuse ih | bounded hinner ih => exact ih

/-- On what is left of a source, a run that takes something takes tokens of it. -/
theorem Progresses.past {production : Parse α} {counts : α → Prop}
    (hprogress : Progresses counts production) (htraced : Traced production) {source : String}
    {state after : State} {result : α}
    (hsource : state.input.scans <:+ (Stream.ofSource source).scans)
    (hrun : production state = .ok result after) (hcounts : counts result) : after.Past state := by
  obtain ⟨visited, hruns⟩ := htraced.exists_runs state
  rw [hrun] at hruns
  obtain ⟨taken, htaken⟩ := hruns.tokensBefore
  refine ⟨taken, ?_, ?_, htaken⟩
  · rintro rfl
    have hlt := hprogress.shorter hrun hcounts
    exact absurd hlt (by simp [htaken, lastState])
  · intro token hmem
    have hscan : .ok token ∈ state.input.scans := by
      rw [htaken]
      exact List.mem_append_left _ (List.mem_map_of_mem hmem)
    exact Cursor.scans_ne_endOfFile (hsource.subset hscan)

/-! ## Loops -/

/-- One round, and what the loop does after it. -/
def turn (round : α → Parse (Round α β)) (again : α → Parse β) (value : α) : Parse β := do
  match ← round value with
  | .more next => again next
  | .done result => return result

theorem rounds_eq_iterate (round : α → Parse (Round α β)) (most : Nat) :
    rounds round most = (turn round)^[most] fun _ => refuse := by
  induction most with
  | zero => rfl
  | succ most ih =>
      rw [Function.iterate_succ_apply', ← ih]
      rfl

section

variable {round : α → Parse (Round α β)}
  [hprogress : ∀ value, Progresses Round.IsMore (round value)]

/-- Of rounds that take something, no more are run than there are scans, and one last:
what stands behind them does not matter. -/
theorem iterate_turn_congr (others others' : α → Parse β) {most most' : Nat} {value : α}
    {state : State} (h : state.input.scans.length < most) (h' : state.input.scans.length < most') :
    (turn round)^[most] others value state = (turn round)^[most'] others' value state := by
  induction most generalizing most' value state with
  | zero => exact absurd h (Nat.not_lt_zero _)
  | succ most ih =>
      obtain ⟨most', rfl⟩ : ∃ less, most' = less + 1 := ⟨most' - 1, by omega⟩
      rw [Function.iterate_succ_apply', Function.iterate_succ_apply']
      refine bind_congr_of_ok rfl fun result after hround => ?_
      cases result with
      | more next =>
          have hlt := (hprogress value).shorter hround trivial
          exact ih (by omega) (by omega)
      | done last => rfl

theorem repeated_eq_iterate (others : α → Parse β) {most : Nat} {value : α} {state : State}
    (h : state.input.scans.length < most) :
    repeated round value state = (turn round)^[most] others value state := by
  have hrounds : repeated round value state =
      rounds round (state.input.scans.length + 1) value state := rfl
  rw [hrounds, rounds_eq_iterate]
  exact iterate_turn_congr _ _ (Nat.lt_succ_self _) h

/-- A loop goes on after a round as it began: nothing tells that its rounds are
counted. -/
theorem repeated_eq_turn : repeated round = turn round (repeated round) := by
  funext value state
  rw [repeated_eq_iterate (repeated round) (Nat.lt_succ_self _), Function.iterate_succ_apply']
  refine bind_congr_of_ok rfl fun result after hround => ?_
  cases result with
  | more next =>
      have hlt := (hprogress value).shorter hround trivial
      exact (repeated_eq_iterate _ hlt).symm
  | done last => rfl

/-- Nothing else goes on after a round as it began. -/
theorem eq_turn_iff {again : α → Parse β} : again = turn round again ↔ again = repeated round := by
  constructor
  · intro hfixed
    funext value state
    rw [repeated_eq_iterate again (Nat.lt_succ_self _), Function.iterate_fixed hfixed.symm]
  · rintro rfl
    exact repeated_eq_turn

end

end Parse

namespace Grammar

open Parse

variable {α β : Type}

namespace Callees

instance (levels : Nat) (callee : Callee) : Traced (within levels callee) := by
  cases callee with
  | expr least => exact inferInstanceAs (Traced ((rulesWithin levels).expr least))
  | block => exact inferInstanceAs (Traced (rulesWithin levels).block)
  | elseIf => exact inferInstanceAs (Traced (rulesWithin levels).elseIf)
  | type => exact inferInstanceAs (Traced (typeWithin levels))
  | importPath => exact inferInstanceAs (Traced (importPathWithin levels))

instance (callee : Callee) : Traced (deep callee) := by
  unfold deep
  infer_instance

instance (callees : Callees) [h : ∀ callee, Traced (callees callee)] : RulesTraced callees.rules :=
  ⟨fun least => h (.expr least), h .block, h .elseIf⟩

end Callees

theorem IsProduction.steady {production : Parse α} (h : IsProduction production) :
    Steady production := by
  induction h with
  | item | block | expr | operators | postfixes | select | pattern | type | importPath | ident =>
      infer_instance
  | field spanOf h ih => infer_instance
  | commaList close h ih => infer_instance
  | bounded h ih => infer_instance

instance (items : List (Item Span Symbol)) : Traced (itemRound items) := by
  unfold itemRound
  infer_instance

/-- What scripts are made of. -/
inductive IsConstruct : {α : Type} → Parse α → Prop
  | item : IsConstruct item
  | block : IsConstruct block
  | expr (least : Nat) : IsConstruct (Callees.deep (.expr least))
  | primary : IsConstruct (primary Callees.deep.rules)
  | arm : IsConstruct (arm Callees.deep.rules)
  | pattern : IsConstruct pattern
  | type : IsConstruct type
  | path : IsConstruct path
  | importPath : IsConstruct importPath

theorem IsConstruct.progresses {production : Parse α} (h : IsConstruct production) :
    Progresses Always production := by
  have (callee : Callee) : Progresses Always (Callees.deep callee) := inferInstance
  cases h with
  | importPath => exact this .importPath
  | expr least => exact this (.expr least)
  | _ => infer_instance

theorem IsConstruct.traced {production : Parse α} (h : IsConstruct production) :
    Traced production := by
  have (callee : Callee) : Traced (Callees.deep callee) := inferInstance
  cases h with
  | importPath => exact this .importPath
  | expr least => exact this (.expr least)
  | _ => infer_instance

/-- The loops of the grammar, each by its rounds. -/
inductive IsLoop : {α β : Type} → (α → Parse (Round α β)) → Prop
  | items : IsLoop itemRound
  | statements : IsLoop (statementRound Callees.deep.rules)
  | arms : IsLoop (armRound Callees.deep.rules)
  | list {α : Type} (close : Kind) {element : Parse α} (h : IsProduction element) :
      IsLoop (listRound close element)
  | path : IsLoop pathRound
  | importParts : IsLoop (importRound importPath)
  | operators (least : Nat) : IsLoop (operatorRound Callees.deep.rules least)
  | postfixes : IsLoop (postfixRound Callees.deep.rules)
  | questionMarks : IsLoop optionalRound

theorem IsLoop.progresses {round : α → Parse (Round α β)} (h : IsLoop round) (value : α) :
    Progresses Round.IsMore (round value) := by
  cases h with
  | list close h =>
      have := h.steady
      infer_instance
  | _ => infer_instance

theorem IsLoop.traced {round : α → Parse (Round α β)} (h : IsLoop round) (value : α) :
    Traced (round value) := by
  cases h with
  | list close h =>
      have := h.traced
      infer_instance
  | _ => infer_instance

/-- In front of an alternative that is a conditional `else` is taken, and `if` comes next. -/
theorem exists_elseIf_of_alternative {rules : Rules} {closed after : State}
    {other : Expr Span Symbol}
    (h : alternative rules closed = .ok (some (.conditional other)) after) :
    ∃ between inner, takes Keyword.else_ closed = .ok true between ∧
      nextIs Keyword.if_ between = .ok true inner := by
  unfold alternative at h
  obtain ⟨taken, between, helse, h⟩ := bind_eq_ok_iff.mp h
  cases taken with
  | false => cases h
  | true =>
      obtain ⟨again, inner, hnext, h⟩ := bind_eq_ok_iff.mp h
      cases again with
      | false =>
          obtain ⟨body, _, _, h⟩ := bind_eq_ok_iff.mp h
          cases h
      | true => exact ⟨between, inner, helse, hnext⟩

/-- A conditional with another one behind `else` calls itself, once a condition and a block
have been read. -/
theorem conditional_calls {state after : State} {condition other : Expr Span Symbol}
    {consequence : Block Span Symbol} {span : Span}
    (h : conditional Callees.deep.rules state =
      .ok (.conditional condition consequence (some (.conditional other)) span) after) :
    ∃ tested closed inner : State, tested.input.scans <:+ state.input.scans ∧
      Callees.deep .block tested = .ok consequence closed ∧
      Calls (fun callees => conditional callees.rules) state .elseIf inner := by
  unfold conditional at h
  obtain ⟨start, opened, hif, h⟩ := bind_eq_ok_iff.mp h
  obtain ⟨_, tested, hcondition, h⟩ := bind_eq_ok_iff.mp h
  obtain ⟨_, closed, hblock, h⟩ := bind_eq_ok_iff.mp h
  obtain ⟨_, _, hother, h⟩ := bind_eq_ok_iff.mp h
  cases h
  obtain ⟨between, inner, helse, hnext⟩ := exists_elseIf_of_alternative hother
  have hscans : tested.input.scans <:+ state.input.scans :=
    (Steady.follows hcondition).scans.trans (Steady.follows hif).scans
  refine ⟨tested, closed, inner, hscans, hblock, fun fault => ⟨inner, ?_⟩⟩
  let rules := (Callees.deep.failingAt .elseIf inner fault).rules
  have hfails : rules.elseIf inner = .error fault inner := if_pos rfl
  have hother' : alternative rules closed = .error fault inner := by
    unfold alternative
    rw [bind_eq_of_ok helse, if_pos rfl, bind_eq_of_ok hnext, if_pos rfl]
    exact bind_eq_of_error hfails
  -- The condition and the block are those from before: only what follows `else` fails.
  have hcondition' : withRecords false (rules.expr 0) opened = .ok _ tested := hcondition
  have hblock' : rules.block tested = .ok _ closed := hblock
  change conditional rules state = .error fault inner
  unfold conditional
  rw [bind_eq_of_ok hif, bind_eq_of_ok hcondition', bind_eq_of_ok hblock']
  exact bind_eq_of_error hother'

/-- Parsing ends, on every source and with any limit on levels or none. It gives a
result or an error, and nothing in it goes on for ever. Every construct takes tokens,
and none of them is the end. So does every round of a loop but the last, and a loop
is the only thing that goes on after a round as it began: what stands behind more
rounds than there are scans does not matter. A call that recursion goes back to has
fewer scans left than the production that makes it, or as many and stands below it.
So there are no calls inside of calls without end, the productions are the only ones
that are the same written out, and what stands below more levels than there are scans
does not matter. -/
theorem parsing_ends (source : String) (limit : Option Nat) :
    ((∃ parsed, parseWithin limit source = .ok parsed) ∨
      ∃ error, parseWithin limit source = .error error) ∧
    ((∃ parsed, runOn loneExpr limit source = .ok parsed) ∨
      ∃ error, runOn loneExpr limit source = .error error) ∧
    (∀ {α : Type} {production : Parse α}, IsConstruct production → ∀ state result after,
      state.input.scans <:+ (Stream.ofSource source).scans →
        production state = .ok result after → after.Past state) ∧
    (∀ {α β : Type} {round : α → Parse (Round α β)}, IsLoop round →
      (∀ value state next after, state.input.scans <:+ (Stream.ofSource source).scans →
        round value state = .ok (.more next) after → after.Past state) ∧
      (∀ again, again = turn round again ↔ again = repeated round) ∧
      ∀ others most value state, state.input.scans.length < most →
        (turn round)^[most] others value state = repeated round value state) ∧
    (∀ {rank : Nat} {α : Type} {production : Callees → Parse α}, IsCaller rank production →
      ∀ state callee inner, Calls production state callee inner →
        inner.input.scans.length < state.input.scans.length ∨
          inner.input.scans.length = state.input.scans.length ∧ callee.rank < rank) ∧
    -- What recursion goes back to is among the callers, and its calls end.
    (∀ callee : Callee, IsCaller callee.rank fun callees => callees.unfold callee) ∧
    WellFounded Call.IsInside ∧
    -- The parser runs the productions that are tied together here.
    (expr = Callees.deep (.expr 0) ∧ block = Callees.deep .block ∧ type = Callees.deep .type ∧
      importPath = Callees.deep .importPath) ∧
    (∀ callees : Callees, callees.unfold = callees ↔ callees = Callees.deep) ∧
    (∀ others levels callee state, state.input.scans.length < levels →
      Callees.unfold^[levels] others callee state = Callees.deep callee state) := by
  refine ⟨?_, ?_, ?_, fun h => ⟨?_, ?_, ?_⟩, fun h _ _ _ => h.descends, Callee.isCaller,
    Call.isInside_wellFounded, ⟨rfl, rfl, rfl, rfl⟩, fun _ => Callees.unfold_eq_iff, ?_⟩
  · cases parseWithin limit source <;> simp
  · cases runOn loneExpr limit source <;> simp
  · intro α production h state result after hsource hrun
    exact h.progresses.past h.traced hsource hrun trivial
  · intro value state next after hsource hrun
    exact (h.progresses value).past (h.traced value) hsource hrun trivial
  · have := h.progresses
    exact fun _ => eq_turn_iff
  · intro others most value state hlt
    have := h.progresses
    exact (repeated_eq_iterate others hlt).symm
  · intro others levels callee state hlt
    exact (Callees.deep_eq_iterate others callee hlt).symm

/-- A condition with a dot, a block behind it, and what follows `else`. -/
theorem parsing_ends_of_else_if :
    ∃ outer dot brace inner : State,
      outer = State.ofSource nestingLimit "if a.b \x7b \x7d else if c \x7b \x7d" ∧
      (∃ body after, block brace = .ok body after ∧ after.Past brace) ∧
      (∃ next after, pathRound [] dot = .ok (.more next) after ∧ after.Past dot) ∧
      Calls (fun callees => conditional callees.rules) outer .elseIf inner ∧
      inner.input.scans.length < outer.input.scans.length := by
  let outer := State.ofSource nestingLimit "if a.b \x7b \x7d else if c \x7b \x7d"
  let left (taken : Nat) (names : List String) : State :=
    { outer with input := ⟨outer.input.scans.drop taken, 24⟩, names := ⟨names⟩ }
  have hround : pathRound [] (left 2 ["a"]) =
      .ok (.more [⟨⟨1⟩, false, ⟨5, 6⟩⟩]) (left 4 ["a", "b"]) := rfl
  have haccepted : EStateM.run' (conditional Callees.deep.rules) outer =
      some (.conditional (.path ⟨⟨⟨0⟩, false, ⟨3, 4⟩⟩, [⟨⟨1⟩, false, ⟨5, 6⟩⟩], ⟨3, 6⟩⟩)
        ⟨[], none, ⟨7, 10⟩⟩
        (some (.conditional (.conditional (.path ⟨⟨⟨2⟩, false, ⟨19, 20⟩⟩, [], ⟨19, 20⟩⟩)
          ⟨[], none, ⟨21, 24⟩⟩ none ⟨16, 24⟩)))
        ⟨0, 24⟩) := by
    decide +kernel
  obtain ⟨after, hconditional⟩ := run'_eq_some_iff.mp haccepted
  obtain ⟨brace, closed, inner, hbrace, hblock, hcalls⟩ := conditional_calls hconditional
  obtain ⟨-, -, hconstructs, hloops, hcallers, -⟩ :=
    parsing_ends "if a.b \x7b \x7d else if c \x7b \x7d" nestingLimit
  refine ⟨outer, left 2 ["a"], brace, inner, rfl,
    ⟨_, _, hblock, hconstructs .block _ _ _ hbrace hblock⟩,
    ⟨_, _, hround, (hloops .path).1 _ _ _ _ (List.drop_suffix 2 _) hround⟩, hcalls, ?_⟩
  rcases hcallers .conditional _ _ _ hcalls with hless | ⟨-, hbelow⟩
  · exact hless
  · exact absurd hbelow (by decide)

end Grammar

end FilterScript
