import FilterScript.Error
import FilterScript.Tree.Name

/-! # Reading a script token by token

The productions of the grammar are written in terms of a few steps: look ahead,
take a token, say what was expected, refuse, warn, enter a name, and run another
production in a changed context. Each step says all it does to the state.
-/

namespace FilterScript

/-- What the productions around a place say about it: how many levels are open,
and whether a brace may open a record. -/
structure Context where
  depth : Nat
  records : Bool
deriving DecidableEq, Repr

/-- Where parsing stands. -/
structure State where
  input : Stream
  /-- What would have been accepted at the next token, each once. -/
  expected : List Expected
  warnings : List Warning
  names : Names
  context : Context
  /-- How many levels may be open at once, if there is a limit. -/
  limit : Option Nat
deriving Repr

/-- The state before the first token of a source. -/
def State.ofSource (limit : Option Nat) (source : String) : State :=
  ⟨Stream.ofSource source, [], [], Names.empty, ⟨0, true⟩, limit⟩

/-- The limit, once that many levels are open. -/
def State.reachedLimit? (state : State) : Option Nat :=
  state.limit.filter fun limit => limit ≤ state.context.depth

/-- A step of parsing: it changes the state and gives a result or a fault. The
state is there after a fault too. -/
abbrev Parse := EStateM Fault State

namespace Parse

variable {α β : Type}

/-- Look at the token after `ahead` others. A flaw on the way is a fault. -/
def peekAt (ahead : Nat) : Parse Token := fun state =>
  match state.input.lookahead ahead with
  | .ok token => .ok token state
  | .error flaw => .error flaw.toFault state

/-- Look at the next token. -/
def peek : Parse Token :=
  peekAt 0

/-- Take the next token. What was expected before it is of no more interest. -/
def advance : Parse Token := fun state =>
  match state.input.scans with
  | .ok token :: rest =>
      .ok token { state with input := { state.input with scans := rest }, expected := [] }
  | .error flaw :: _ => .error flaw.toFault { state with expected := [] }
  | [] => .ok (Token.atEnd state.input.length) { state with expected := [] }

/-- Note that something would have been accepted here, unless that is known. -/
def want (expected : Expected) : Parse Unit :=
  modify fun state =>
    if expected ∈ state.expected then state
    else { state with expected := state.expected ++ [expected] }

/-- Fail at the next token with all that was expected there. -/
def refuse : Parse α := do
  -- If the text here is no token, that is the fault instead.
  let token ← peek
  let state ← get
  throw ⟨.unexpected token.kind state.expected, token.span⟩

/-- Whether the next token is of this kind, whatever its text. -/
def nextIs (kind : Kind) : Parse Bool := do
  return (← peek).kind.variant == kind.variant

/-- Whether the next token is of this kind; if not, note that it could have
been. -/
def accepts (kind : Kind) : Parse Bool := do
  if ← nextIs kind then
    return true
  else
    want (.token kind)
    return false

/-- Take the next token if it is of this kind, and tell whether it was. -/
def takes (kind : Kind) : Parse Bool := do
  if ← accepts kind then
    let _ ← advance
    return true
  else
    return false

/-- Take a token of this kind, or fail. -/
def expect (kind : Kind) : Parse Token := do
  if ← accepts kind then
    advance
  else
    refuse

/-- Report something odd. -/
def warn (lint : Lint) (span : Span) : Parse Unit :=
  modify fun state => { state with warnings := state.warnings ++ [⟨lint, span⟩] }

/-- Enter a name into the table. -/
def intern (text : String) : Parse Symbol :=
  modifyGet fun state =>
    let (symbol, names) := state.names.intern text
    (symbol, { state with names })

/-- A change of the context for the time of a production: what is set in front of it, and
what is set behind it, where the context from before is still known. -/
structure Change where
  enter : Context → Context
  leave : (before now : Context) → Context
  /-- Together the two change nothing. -/
  back : ∀ before, leave before (enter before) = before

/-- A brace may open a record, or may not. Behind it the flag from before is set. -/
def Change.records (allowed : Bool) : Change where
  enter context := { context with records := allowed }
  leave before now := { now with records := before.records }
  back _ := rfl

/-- One level more is open. Behind it one level is closed. -/
def Change.level : Change where
  enter context := { context with depth := context.depth + 1 }
  leave _ now := { now with depth := now.depth - 1 }
  back _ := rfl

/-- Run a production in a changed context. The change is taken back behind it, whether it
succeeds or fails. -/
def within (change : Change) (production : Parse α) : Parse α := fun state =>
  match production { state with context := change.enter state.context } with
  | .ok result after =>
      .ok result { after with context := change.leave state.context after.context }
  | .error fault after =>
      .error fault { after with context := change.leave state.context after.context }

/-- Run a production in which a brace opens a record, or never does. -/
def withRecords (allowed : Bool) (production : Parse α) : Parse α :=
  within (.records allowed) production

/-- Run a production one level deeper, if the limit allows. -/
def nested (production : Parse α) : Parse α := do
  match (← get).reachedLimit? with
  | some limit =>
      -- No level has been opened yet, so none is left to close.
      let token ← peek
      throw ⟨.tooDeep limit, token.span⟩
  | none => within .level production

/-- Supply a bound on the rounds or levels of a production: every one of them
takes a token, so there are at most as many as tokens are left, and one last. -/
def bounded (production : Nat → Parse α) : Parse α := fun state =>
  production (state.input.scans.length + 1) state

/-- How a round of a loop ends: with a value to go on from, or with the result
of the loop. -/
inductive Round (α β : Type) where
  | more (value : α)
  | done (result : β)

/-- Repeat a round, at most the given number of times. -/
def rounds (round : α → Parse (Round α β)) : Nat → α → Parse β
  | 0, _ => refuse
  | most + 1, value => do
      match ← round value with
      | .more value => rounds round most value
      | .done result => return result

/-- Repeat a round from a first value until it is done. -/
def repeated (round : α → Parse (Round α β)) (first : α) : Parse β :=
  bounded fun most => rounds round most first

end Parse

end FilterScript
