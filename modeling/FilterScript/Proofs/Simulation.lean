import FilterScript.Proofs.Buffering
import FilterScript.Proofs.Levels.Counts

/-!
# Scanning on demand

The input of a parser holds what all scans of a source give. A reader scans when it is
asked to, and keeps in a buffer what was only looked at. Either still has an endless row
of scans to give, and as long as the two rows are equal every question is answered alike
by both, up to the first flaw: there parsing ends.
-/

namespace FilterScript

/-! ## Rows of scans -/

/-- What one meets on the way to the scan behind `ahead` others: the first flaw, else
that scan. -/
def meet : Nat → Stream' Scan → Scan
  | 0, row => row.head
  | ahead + 1, row =>
      match row.head with
      | .ok _ => meet ahead row.tail
      | .error flaw => .error flaw

theorem meet_error (ahead : Nat) (flaw : Flaw) (row : Stream' Scan) :
    meet ahead (Stream'.cons (.error flaw) row) = .error flaw := by
  cases ahead <;> rfl

theorem meet_const (ahead : Nat) (token : Token) :
    meet ahead (Stream'.const (.ok token)) = .ok token := by
  induction ahead with
  | zero => rfl
  | succ ahead ih => exact ih

theorem meet_token {ahead : Nat} {tokens : List Token} (h : ahead < tokens.length)
    (row : Stream' Scan) : meet ahead (tokens.map .ok ++ₛ row) = .ok tokens[ahead] := by
  induction tokens generalizing ahead with
  | nil => exact absurd h (Nat.not_lt_zero _)
  | cons first rest ih =>
      cases ahead with
      | zero => rfl
      | succ ahead => exact ih (Nat.lt_of_succ_lt_succ h)

theorem meet_flaw {ahead : Nat} {tokens : List Token} (h : tokens.length ≤ ahead) (flaw : Flaw)
    (row : Stream' Scan) :
    meet ahead (tokens.map .ok ++ₛ Stream'.cons (.error flaw) row) = .error flaw := by
  induction tokens generalizing ahead with
  | nil => exact meet_error ahead flaw row
  | cons first rest ih =>
      obtain ⟨ahead, rfl⟩ : ∃ fewer, ahead = fewer + 1 := ⟨ahead - 1, by simp at h; omega⟩
      exact ih (Nat.le_of_succ_le_succ h)

namespace Stream

/-- All that a stream still has to give: its scans, and then the end as often as one
asks. -/
def row (stream : Stream) : Stream' Scan :=
  stream.scans ++ₛ Stream'.const (.ok (Token.atEnd stream.length))

theorem lookahead_eq_meet (stream : Stream) (ahead : Nat) :
    stream.lookahead ahead = meet ahead stream.row := by
  unfold lookahead row
  induction stream.scans generalizing ahead with
  | nil => exact (meet_const ahead _).symm
  | cons first rest ih =>
      cases first with
      | error flaw => exact (meet_error ahead flaw _).symm
      | ok token =>
          cases ahead with
          | zero => rfl
          | succ ahead => exact ih ahead

end Stream

namespace Reader

variable {reader after : Reader}

/-- What scanning behind the buffer has to give. -/
def unscanned (reader : Reader) : Stream' Scan :=
  reader.upcoming ++ₛ Stream'.const (.ok (Token.atEnd reader.length))

/-- All that a reader still has to give: the tokens of its buffer, and then what it scans. -/
def row (reader : Reader) : Stream' Scan :=
  reader.buffer.map .ok ++ₛ reader.unscanned

theorem scan_unscanned (reader : Reader) :
    ∃ after, reader.scan = (reader.unscanned.head, after) ∧ after.buffer = reader.buffer ∧
      after.unscanned = reader.unscanned.tail := by
  unfold unscanned
  rcases reader.scan_cases with ⟨hend, hscan⟩ | ⟨result, cursor, hupcoming, hscan⟩
  · refine ⟨reader, ?_, rfl, ?_⟩
    · rw [hend, hscan]
      rfl
    · rw [hend]
      rfl
  · refine ⟨{ reader with cursor }, ?_, rfl, ?_⟩
    · rw [hupcoming, hscan]
      rfl
    · rw [hupcoming]
      rfl

theorem next_row (reader : Reader) :
    ∃ after, reader.next = (reader.row.head, after) ∧ after.row = reader.row.tail := by
  unfold next row
  cases hbuffer : reader.buffer with
  | cons token rest => exact ⟨_, rfl, rfl⟩
  | nil =>
      obtain ⟨after, hscan, hafter, hrest⟩ := reader.scan_unscanned
      refine ⟨after, hscan, ?_⟩
      rw [hafter, hbuffer]
      exact hrest

/-- A token that is scanned into the buffer stays where it is in the row. -/
theorem row_of_buffered {token : Token} (h : reader.scan = (.ok token, after)) :
    { after with buffer := after.buffer ++ [token] }.row = reader.row := by
  obtain ⟨after', hscan, hbuffer, hrest⟩ := reader.scan_unscanned
  rw [h, Prod.mk.injEq] at hscan
  obtain ⟨hhead, rfl⟩ := hscan
  unfold row
  have hcons : reader.unscanned = Stream'.cons (.ok token) after.unscanned := by
    rw [hrest, hhead, Stream'.eta]
  rw [hbuffer, hcons, List.map_append, Stream'.append_append_stream]
  rfl

/-- Filling the buffer leaves the row as it is. A flaw that ends it early is met on the
way. -/
theorem fill_row (missing : Nat) (reader : Reader) :
    (∃ after, reader.fill missing = (.ok (), after) ∧ after.row = reader.row ∧
      after.buffer.length = reader.buffer.length + missing) ∨
    ∃ flaw after tokens row, reader.fill missing = (.error flaw, after) ∧
      reader.row = List.map .ok tokens ++ₛ Stream'.cons (.error flaw) row ∧
      reader.buffer.length ≤ tokens.length ∧ tokens.length < reader.buffer.length + missing := by
  induction missing generalizing reader with
  | zero => exact .inl ⟨reader, rfl, rfl, rfl⟩
  | succ missing ih =>
      obtain ⟨after, hscan, hbuffer, hrest⟩ := reader.scan_unscanned
      rw [fill]
      cases hhead : reader.unscanned.head with
      | error flaw =>
          have hrow : reader.row =
              reader.buffer.map .ok ++ₛ Stream'.cons (.error flaw) after.unscanned := by
            rw [row, hrest, ← hhead, Stream'.eta]
          rw [hscan, hhead]
          exact .inr ⟨flaw, after, reader.buffer, _, rfl, hrow, Nat.le_refl _, by omega⟩
      | ok token =>
          rw [hhead] at hscan
          have hlength : (after.buffer ++ [token]).length = reader.buffer.length + 1 := by
            rw [hbuffer, List.length_append, List.length_singleton]
          rw [hscan]
          dsimp only
          rcases ih { after with buffer := after.buffer ++ [token] } with
            ⟨last, hfill, hrow, hfilled⟩ | ⟨flaw, last, tokens, row, hfill, hrow, hbehind, hshort⟩
          · refine .inl ⟨last, hfill, hrow.trans (row_of_buffered hscan), ?_⟩
            rw [hfilled, hlength]
            omega
          · rw [hlength] at hbehind hshort
            exact .inr ⟨flaw, last, tokens, row, hfill, (row_of_buffered hscan).symm.trans hrow,
              by omega, by omega⟩

/-- A reader is asked for what is met in its row, and then has the same row. -/
theorem peekAt_row (ahead : Nat) (reader : Reader) :
    ∃ after, reader.peekAt ahead = (meet ahead reader.row, after) ∧
      ∀ token, meet ahead reader.row = .ok token → after.row = reader.row := by
  unfold peekAt
  rcases fill_row (ahead + 1 - reader.buffer.length) reader with
    ⟨after, hfill, hrow, hlength⟩ | ⟨flaw, after, tokens, row, hfill, hrow, hbehind, hshort⟩
  · have hlt : ahead < after.buffer.length := by omega
    have hmeet : meet ahead reader.row = .ok after.buffer[ahead] := by
      rw [← hrow]
      exact meet_token hlt _
    rw [hfill, hmeet]
    refine ⟨after, ?_, fun _ _ => hrow⟩
    simp only [List.getElem?_eq_getElem hlt, Option.getD_some]
  · have hmeet : meet ahead reader.row = .error flaw := by
      rw [hrow]
      exact meet_flaw (by omega) flaw row
    rw [hfill, hmeet]
    exact ⟨after, rfl, fun token hok => by cases hok⟩

/-- The verdict on a kind is one on the token that is looked at. -/
theorem check_eq (reader : Reader) (kind : Kind) :
    reader.check kind =
      ((reader.peekAt 0).1.map fun token => token.kind.variant == kind.variant,
        (reader.peekAt 0).2) := by
  unfold check
  split <;> simp [*, Except.map]

end Reader

/-! ## The steps of a parser -/

namespace Parse

theorem peekAt_eq_meet (ahead : Nat) (state : State) :
    peekAt ahead state =
      match meet ahead state.input.row with
      | .ok token => .ok token state
      | .error flaw => .error flaw.toFault state := by
  rw [← Stream.lookahead_eq_meet]
  rfl

theorem advance_row (state : State) :
    (∃ token after, state.input.row.head = .ok token ∧ advance state = .ok token after ∧
      after.input.row = state.input.row.tail) ∨
    ∃ flaw after, state.input.row.head = .error flaw ∧
      advance state = .error flaw.toFault after := by
  unfold advance Stream.row
  cases hscans : state.input.scans with
  | nil => exact .inl ⟨_, _, rfl, rfl, by rw [hscans]; rfl⟩
  | cons first rest =>
      cases first with
      | ok token => exact .inl ⟨token, _, rfl, rfl, rfl⟩
      | error flaw => exact .inr ⟨flaw, _, rfl, rfl⟩

/-- Ask the input what one may ask a reader. -/
def ask : Reader.Call → Parse Reader.Answer
  | .next => .token <$> advance
  | .peek => .token <$> peek
  | .peekAt ahead => .token <$> peekAt ahead
  | .check kind => .verdict <$> nextIs kind

end Parse

namespace Reader

open Parse

/-! ## In step -/

/-- A reader has the same still to give as the input of a parser. -/
def InStep (reader : Reader) (input : Stream) : Prop :=
  reader.row = input.row

variable {α β : Type} {reader : Reader} {state : State}

theorem inStep_ofSource (source : String) :
    (ofSource source).InStep (Stream.ofSource source) :=
  rfl

/-- A reader and a parser are told the same: an answer, and then they are in step, or a
flaw, at which parsing ends. -/
inductive ToldAlike : Except Flaw α × Reader → EStateM.Result Fault State α → Prop
  | answer {value : α} {reader : Reader} {state : State} (h : reader.InStep state.input) :
      ToldAlike (.ok value, reader) (.ok value state)
  | flaw {flaw : Flaw} {reader : Reader} {state : State} :
      ToldAlike (.error flaw, reader) (.error flaw.toFault state)

theorem ToldAlike.map {told : Except Flaw α × Reader} {production : Parse α}
    (h : ToldAlike told (production state)) (f : α → β) :
    ToldAlike (told.1.map f, told.2) ((f <$> production) state) := by
  change ToldAlike _ (EStateM.map f production state)
  unfold EStateM.map
  generalize production state = result at h
  cases h with
  | answer hstep => exact .answer hstep
  | flaw => exact .flaw

namespace InStep

theorem next (h : reader.InStep state.input) : ToldAlike reader.next (advance state) := by
  obtain ⟨after, hnext, hrow⟩ := reader.next_row
  rcases advance_row state with ⟨token, rest, hhead, hadvance, hrest⟩ |
    ⟨flaw, rest, hhead, hadvance⟩
  · rw [hnext, hadvance, h, hhead]
    refine .answer (hrow.trans ?_)
    rw [h, hrest]
  · rw [hnext, hadvance, h, hhead]
    exact .flaw

theorem peekAt (h : reader.InStep state.input) (ahead : Nat) :
    ToldAlike (reader.peekAt ahead) (Parse.peekAt ahead state) := by
  obtain ⟨after, hpeek, hrow⟩ := reader.peekAt_row ahead
  rw [hpeek, peekAt_eq_meet, ← h]
  cases hmeet : meet ahead reader.row with
  | ok token => exact .answer ((hrow token hmeet).trans h)
  | error flaw => exact .flaw

theorem check (h : reader.InStep state.input) (kind : Kind) :
    ToldAlike (reader.check kind) (nextIs kind state) := by
  rw [check_eq]
  exact (h.peekAt 0).map _

theorem call (h : reader.InStep state.input) (call : Call) :
    ToldAlike (reader.call call) (ask call state) := by
  cases call with
  | next => exact h.next.map _
  | peek => exact (h.peekAt 0).map _
  | peekAt ahead => exact (h.peekAt ahead).map _
  | check kind => exact (h.check kind).map _

end InStep

/-- The answers to some calls, or the first flaw that one of them is answered with. -/
def answers (reader : Reader) (calls : List Call) : Except Flaw (List Answer) :=
  ((reader.log calls).map Prod.snd).mapM id

theorem answers_cons (reader : Reader) (call : Call) (calls : List Call) :
    reader.answers (call :: calls) =
      (reader.call call).1.bind fun answer =>
        ((reader.call call).2.answers calls).map (answer :: ·) := by
  unfold answers
  rw [log, List.map_cons, List.mapM_cons]
  rfl

/-- Whatever is asked, a reader that scans on demand is told what a parser is told that
it is in step with. -/
theorem InStep.calls (h : reader.InStep state.input) (calls : List Call) :
    ToldAlike (reader.answers calls, reader.after calls) (calls.mapM ask state) := by
  induction calls generalizing reader state with
  | nil => exact .answer h
  | cons call calls ih =>
      have htold := h.call call
      rw [answers_cons, after, List.mapM_cons]
      generalize hcall : reader.call call = told at htold
      generalize hask : ask call state = result at htold
      cases htold with
      | answer hstep =>
          rw [bind_eq_of_ok hask, bind_pure_comp]
          exact (ih hstep).map _
      | flaw =>
          rw [bind_eq_of_error hask]
          exact .flaw

/-- A parser of a source is told what a reader of the source is told, whatever its limit. -/
theorem ofSource_toldAlike (limit : Option Nat) (source : String) (calls : List Call) :
    ToldAlike ((ofSource source).answers calls, (ofSource source).after calls)
      (calls.mapM ask (State.ofSource limit source)) :=
  InStep.calls (inStep_ofSource source) calls

/-- The tokens of a source are those that a reader gives one after the other, unless it
gives a flaw. -/
theorem tokens_eq_drain {source : String} {most : Nat}
    (h : (Stream.ofSource source).scans.length < most) :
    (Stream.ofSource source).tokens = ((ofSource source).drain most).1.mapM id := by
  have hdrain : ((ofSource source).drain most).1 =
      (Stream.ofSource source).scans ++ [Scan.atEnd (Stream.ofSource source).length] :=
    drain_eq (Cursor.ofSource source) (Nat.le_refl _) h
  rw [hdrain, Stream.tokens]
  induction (Stream.ofSource source).scans with
  | nil => rfl
  | cons first rest ih =>
      rw [List.cons_append, List.mapM_cons]
      cases first with
      | error flaw => rfl
      | ok token =>
          rw [Stream.tokens.go, ih]
          rfl

end Reader

end FilterScript
