import FilterScript.Proofs.Levels.Counts

/-!
# Runs step by step

A production is put together from few steps, and what it does on the way is what
these steps do. `Runs` follows a run through them and collects the contexts that it
comes through. Only two ways of putting productions together change the context, and
both undo their own change, whatever comes of the production inside. As that comes back
to the context it was started in, the old one is back behind them.
-/

namespace FilterScript

/-- A state that a run leads to, whether it succeeds or fails: input has been taken
from the front, warnings and names have been added at the end, and the context is the
one from before. -/
structure State.Extends (after before : State) : Prop where
  scans : after.input.scans <:+ before.input.scans
  warnings : before.warnings <+: after.warnings
  names : before.names.texts <+: after.names.texts
  context : after.context = before.context
  limit : after.limit = before.limit

namespace State.Extends

variable {first second third : State}

theorem refl (state : State) : state.Extends state :=
  ⟨List.suffix_refl _, List.prefix_refl _, List.prefix_refl _, rfl, rfl⟩

theorem trans (h : third.Extends second) (h' : second.Extends first) : third.Extends first where
  scans := h.scans.trans h'.scans
  warnings := h'.warnings.trans h.warnings
  names := h'.names.trans h.names
  context := h.context.trans h'.context
  limit := h.limit.trans h'.limit

/-- Where a run has come back to the changed context, undoing the change leads back to the
one from before. -/
theorem undo (change : Parse.Change)
    (h : second.Extends { first with context := change.enter first.context }) :
    { second with context := change.leave first.context second.context }.Extends first where
  scans := h.scans
  warnings := h.warnings
  names := h.names
  context := by rw [h.context, change.back]
  limit := h.limit

end State.Extends

theorem Names.intern_grows (names : Names) (text : String) :
    names.texts <+: (names.intern text).2.texts := by
  unfold Names.intern
  split
  · exact List.prefix_refl _
  · exact List.prefix_append _ _

namespace Parse

variable {α β : Type}

/-- The state in which a run ends. -/
def lastState : EStateM.Result Fault State α → State
  | .ok _ after => after
  | .error _ after => after

/-- The same outcome with a change undone that was made in this context. -/
def Change.undo (change : Change) (before : Context) :
    EStateM.Result Fault State α → EStateM.Result Fault State α
  | .ok result after => .ok result { after with context := change.leave before after.context }
  | .error fault after => .error fault { after with context := change.leave before after.context }

@[simp] theorem lastState_undo (change : Change) (before : Context)
    (last : EStateM.Result Fault State α) :
    lastState (change.undo before last) =
      { lastState last with context := change.leave before (lastState last).context } := by
  cases last <;> rfl

theorem within_eq (change : Change) (production : Parse α) (state : State) :
    within change production state =
      change.undo state.context
        (production { state with context := change.enter state.context }) := by
  unfold within
  cases production { state with context := change.enter state.context } with
  | ok result after => rfl
  | error fault after => rfl

/-- The state one level deeper. -/
def deeper (state : State) : State :=
  { state with context := { state.context with depth := state.context.depth + 1 } }

/-- The state in which braces open records, or do not. -/
def allowing (records : Bool) (state : State) : State :=
  { state with context := { state.context with records } }

/-- Fail at the next token because no more levels may be opened. -/
def refuseLevel (limit : Nat) : Parse α := do
  let token ← peek
  throw ⟨.tooDeep limit, token.span⟩

/-- A run of a production from a state to its result, and the contexts in which its
steps are taken, in order. -/
inductive Runs : {α : Type} → Parse α → State → List Context →
    EStateM.Result Fault State α → Prop
  | pure {α : Type} (result : α) (state : State) :
      Runs (pure result) state [state.context] (.ok result state)
  | throw {α : Type} (fault : Fault) (state : State) :
      Runs (throw fault : Parse α) state [state.context] (.error fault state)
  | get (state : State) : Runs get state [state.context] (.ok state state)
  | peekAt (ahead : Nat) (state : State) :
      Runs (peekAt ahead) state [state.context] (peekAt ahead state)
  | advance (state : State) : Runs advance state [state.context] (advance state)
  | want (expected : Expected) (state : State) :
      Runs (want expected) state [state.context] (want expected state)
  | warn (lint : Lint) (span : Span) (state : State) :
      Runs (warn lint span) state [state.context] (warn lint span state)
  | intern (text : String) (state : State) :
      Runs (intern text) state [state.context] (intern text state)
  | bind {α β : Type} {production : Parse α} {next : α → Parse β} {state between : State}
      {result : α} {visited others : List Context} {last : EStateM.Result Fault State β}
      (hfirst : Runs production state visited (.ok result between))
      (hrest : Runs (next result) between others last) :
      Runs (production >>= next) state (visited ++ others) last
  | stop {α β : Type} {production : Parse α} {next : α → Parse β} {state after : State}
      {fault : Fault} {visited : List Context}
      (hfirst : Runs production state visited (.error fault after)) :
      Runs (production >>= next) state visited (.error fault after)
  | withRecords {α : Type} {production : Parse α} {allowed : Bool} {state : State}
      {visited : List Context} {last : EStateM.Result Fault State α}
      (hinner : Runs production (allowing allowed state) visited last) :
      Runs (withRecords allowed production) state (state.context :: visited)
        ((Change.records allowed).undo state.context last)
  | nested {α : Type} {production : Parse α} {state : State} {visited : List Context}
      {last : EStateM.Result Fault State α} (hroom : state.reachedLimit? = none)
      (hinner : Runs production (deeper state) visited last) :
      Runs (nested production) state (state.context :: visited)
        (Change.level.undo state.context last)
  | tooDeep {α : Type} {production : Parse α} {state : State} {limit : Nat}
      {visited : List Context} {last : EStateM.Result Fault State α}
      (hlimit : state.reachedLimit? = some limit)
      (hrefuse : Runs (refuseLevel limit : Parse α) state visited last) :
      Runs (nested production) state visited last
  | bounded {α : Type} {production : Nat → Parse α} {state : State} {visited : List Context}
      {last : EStateM.Result Fault State α}
      (hinner : Runs (production (state.input.scans.length + 1)) state visited last) :
      Runs (bounded production) state visited last

theorem withRecords_eq (allowed : Bool) (production : Parse α) (state : State) :
    withRecords allowed production state =
      (Change.records allowed).undo state.context (production (allowing allowed state)) :=
  within_eq _ production state

theorem nested_of_room {production : Parse α} {state : State} (h : state.reachedLimit? = none) :
    nested production state = Change.level.undo state.context (production (deeper state)) := by
  rw [nested_eq, h]
  exact within_eq _ _ _

theorem nested_of_limit {production : Parse α} {state : State} {limit : Nat}
    (h : state.reachedLimit? = some limit) :
    nested production state = refuseLevel limit state := by
  rw [nested_eq, h]
  rfl

namespace Runs

variable {production : Parse α} {state : State} {visited : List Context}
  {last : EStateM.Result Fault State α}

/-- A run ends with what the production gives. -/
theorem eq_last (h : Runs production state visited last) : production state = last := by
  induction h with
  | pure | throw | get | peekAt | advance | want | warn | intern => rfl
  | bind hfirst hrest ihfirst ihrest => rw [bind_eq_of_ok ihfirst, ihrest]
  | stop hfirst ih => exact bind_eq_of_error ih
  | withRecords hinner ih => rw [withRecords_eq, ih]
  | nested hroom hinner ih => rw [nested_of_room hroom, ih]
  | tooDeep hlimit hrefuse ih => rw [nested_of_limit hlimit, ih]
  | bounded hinner ih => exact ih

theorem peekAt_extends (ahead : Nat) (state : State) :
    (lastState (Parse.peekAt ahead state)).Extends state := by
  unfold Parse.peekAt
  split <;> exact .refl state

theorem advance_extends (state : State) : (lastState (Parse.advance state)).Extends state := by
  unfold Parse.advance
  split
  next token rest hscans =>
    refine ⟨?_, List.prefix_refl _, List.prefix_refl _, rfl, rfl⟩
    rw [hscans]
    exact List.suffix_cons _ _
  next => exact ⟨List.suffix_refl _, List.prefix_refl _, List.prefix_refl _, rfl, rfl⟩
  next => exact ⟨List.suffix_refl _, List.prefix_refl _, List.prefix_refl _, rfl, rfl⟩

theorem want_extends (expected : Expected) (state : State) :
    (lastState (Parse.want expected state)).Extends state := by
  change (if expected ∈ state.expected then state else _ : State).Extends state
  split
  · exact .refl state
  · exact ⟨List.suffix_refl _, List.prefix_refl _, List.prefix_refl _, rfl, rfl⟩

/-- Every step keeps what a run keeps. The two that change the context undo the change in
the context that the run inside has come back to. -/
theorem extends_state (h : Runs production state visited last) :
    (lastState last).Extends state := by
  induction h with
  | pure | throw | get => exact .refl _
  | peekAt ahead state => exact peekAt_extends ahead state
  | advance state => exact advance_extends state
  | want expected state => exact want_extends expected state
  | warn lint span state =>
      exact ⟨List.suffix_refl _, List.prefix_append _ _, List.prefix_refl _, rfl, rfl⟩
  | intern text state =>
      exact ⟨List.suffix_refl _, List.prefix_refl _, Names.intern_grows _ _, rfl, rfl⟩
  | bind hfirst hrest ihfirst ihrest => exact ihrest.trans ihfirst
  | stop hfirst ih => exact ih
  | @withRecords _ _ allowed _ _ _ hinner ih =>
      rw [lastState_undo]
      exact ih.undo (.records allowed)
  | nested hroom hinner ih =>
      rw [lastState_undo]
      exact ih.undo .level
  | tooDeep hlimit hrefuse ih => exact ih
  | bounded hinner ih => exact ih

/-- With room below the limit one more level does not exceed it. -/
theorem depth_deeper_le {state : State} {limit : Nat} (hlimit : state.limit = some limit)
    (hroom : state.reachedLimit? = none) : (deeper state).context.depth ≤ limit := by
  have hbelow : ¬ limit ≤ state.context.depth := by
    intro hle
    simp [State.reachedLimit?, hlimit, Option.filter, hle] at hroom
  exact Nat.lt_of_not_le hbelow

/-- A run that starts within the limit stays within it. -/
theorem depth_le {limit : Nat} (h : Runs production state visited last)
    (hlimit : state.limit = some limit) (hdepth : state.context.depth ≤ limit) :
    ∀ context ∈ visited, context.depth ≤ limit := by
  induction h with
  | pure | throw | get | peekAt | advance | want | warn | intern =>
      intro context hmem
      rw [List.mem_singleton.mp hmem]
      exact hdepth
  | bind hfirst hrest ihfirst ihrest =>
      -- The second part starts in the context and with the limit of the first.
      have hbetween := hfirst.extends_state
      intro context hmem
      rcases List.mem_append.mp hmem with hmem | hmem
      · exact ihfirst hlimit hdepth context hmem
      · exact ihrest (hbetween.limit.trans hlimit) (hbetween.context ▸ hdepth) context hmem
  | stop hfirst ih => exact ih hlimit hdepth
  | withRecords hinner ih =>
      intro context hmem
      rcases List.mem_cons.mp hmem with rfl | hmem
      · exact hdepth
      · exact ih hlimit hdepth context hmem
  | nested hroom hinner ih =>
      intro context hmem
      rcases List.mem_cons.mp hmem with rfl | hmem
      · exact hdepth
      · exact ih hlimit (depth_deeper_le hlimit hroom) context hmem
  | tooDeep hreached hrefuse ih => exact ih hlimit hdepth
  | bounded hinner ih => exact ih hlimit hdepth

end Runs

end Parse

end FilterScript
