import FilterScript.Proofs.Scanning.Lines
import Mathlib.Data.Stream.Init

/-!
# Looking ahead changes nothing

What a reader still has to give is an endless row of tokens, the end of the source
over and over, and a finite list of flaws. A call takes at most one off either: only
taking a token takes one off the row, and a flaw is off the list once it is reported.
Whatever calls are made, tokens and flaws therefore come as they would if nothing
was ever looked at.
-/

namespace FilterScript

/-- The tokens among some scans. -/
def tokensAmong (scans : List Scan) : List Token :=
  scans.filterMap fun
    | .ok token => some token
    | .error _ => none

/-- The flaws among some scans. -/
def flawsAmong (scans : List Scan) : List Flaw :=
  scans.filterMap fun
    | .ok _ => none
    | .error flaw => some flaw

@[simp] theorem tokensAmong_nil : tokensAmong [] = [] := rfl

@[simp] theorem tokensAmong_ok (token : Token) (scans : List Scan) :
    tokensAmong (.ok token :: scans) = token :: tokensAmong scans := rfl

@[simp] theorem tokensAmong_error (flaw : Flaw) (scans : List Scan) :
    tokensAmong (.error flaw :: scans) = tokensAmong scans := rfl

@[simp] theorem flawsAmong_nil : flawsAmong [] = [] := rfl

/-- Of two lists at the front of one stream the shorter one begins the other. -/
theorem prefix_of_append_stream {α : Type} {first second : List α} {rest rest' : Stream' α}
    (h : first ++ₛ rest = second ++ₛ rest') (hle : first.length ≤ second.length) :
    first <+: second := by
  have hfirst := Stream'.take_append_of_le_length _ first rest (Nat.le_refl _)
  have hsecond := Stream'.take_append_of_le_length _ second rest' hle
  rw [h, hsecond, List.take_length] at hfirst
  exact hfirst ▸ List.take_prefix _ _

namespace Reader

/-- What can be asked of a reader. -/
inductive Call where
  | next
  | peek
  | peekAt (ahead : Nat)
  | check (kind : Kind)
deriving DecidableEq, Repr

/-- What a call answers when it comes upon no flaw. -/
inductive Answer where
  | token (token : Token)
  | verdict (same : Bool)
deriving DecidableEq, Repr

/-- Make a call. -/
def call (reader : Reader) : Call → Except Flaw Answer × Reader
  | .next => (reader.next.1.map .token, reader.next.2)
  | .peek => ((reader.peekAt 0).1.map .token, (reader.peekAt 0).2)
  | .peekAt ahead => ((reader.peekAt ahead).1.map .token, (reader.peekAt ahead).2)
  | .check kind => ((reader.check kind).1.map .verdict, (reader.check kind).2)

/-- Calls made one after the other, with what each of them answers. -/
def log (reader : Reader) : List Call → List (Call × Except Flaw Answer)
  | [] => []
  | call :: calls => (call, (reader.call call).1) :: (reader.call call).2.log calls

/-- The reader after some calls. -/
def after (reader : Reader) : List Call → Reader
  | [] => reader
  | call :: calls => (reader.call call).2.after calls

/-- The tokens that were taken, and not only looked at. -/
def taken (log : List (Call × Except Flaw Answer)) : List Token :=
  log.filterMap fun
    | (.next, .ok (.token token)) => some token
    | _ => none

/-- The flaws that calls of any kind were answered with. -/
def reported (log : List (Call × Except Flaw Answer)) : List Flaw :=
  log.filterMap fun
    | (_, .error flaw) => some flaw
    | _ => none

/-- What scanning behind the buffer still gives. -/
def upcoming (reader : Reader) : List Scan :=
  reader.cursor.scans reader.cursor.rest.length

/-- The tokens still to be taken: those of the buffer, those that scanning gives and
then the end, as often as one asks. -/
def supply (reader : Reader) : Stream' Token :=
  (reader.buffer ++ tokensAmong reader.upcoming) ++ₛ Stream'.const (Token.atEnd reader.length)

/-- Between two readers these tokens were taken and these flaws reported. -/
structure Moves (reader : Reader) (tokens : List Token) (flaws : List Flaw) (after : Reader) :
    Prop where
  supply : reader.supply = tokens ++ₛ after.supply
  flaws : flawsAmong reader.upcoming = flaws ++ flawsAmong after.upcoming

variable {reader between last : Reader} {token : Token} {flaw : Flaw}

theorem Moves.trans {tokens tokens' : List Token} {flaws flaws' : List Flaw}
    (h : Moves reader tokens flaws between) (h' : Moves between tokens' flaws' last) :
    Moves reader (tokens ++ tokens') (flaws ++ flaws') last where
  supply := by rw [h.supply, h'.supply, Stream'.append_append_stream]
  flaws := by rw [h.flaws, h'.flaws, List.append_assoc]

/-! ## One scan -/

/-- A scan takes the first of what is upcoming. With nothing left it finds the end and
stays where it is. -/
theorem scan_cases (reader : Reader) :
    (reader.upcoming = [] ∧ reader.scan = (.ok (Token.atEnd reader.length), reader)) ∨
      ∃ result cursor, reader.upcoming = result :: { reader with cursor }.upcoming ∧
        reader.scan = (result, { reader with cursor }) := by
  unfold upcoming scan
  cases hscan : reader.cursor.scan with
  | none =>
      refine .inl ⟨?_, rfl⟩
      cases reader.cursor.rest.length with
      | zero => rfl
      | succ rounds => rw [Cursor.scans, hscan]
  | some found =>
      obtain ⟨result, next⟩ := found
      refine .inr ⟨result, next, ?_, rfl⟩
      have hshorter := Cursor.rest_shorter_of_scan hscan
      obtain ⟨rounds, hrounds⟩ := Nat.exists_eq_add_one.mpr (Nat.zero_lt_of_lt hshorter)
      rw [hrounds, Cursor.scans, hscan]
      exact congrArg _ (Cursor.scans_eq_of_le (by omega) (Nat.le_refl _))

/-- A token that is scanned into the buffer is still to be taken. -/
theorem moves_of_buffered (h : reader.scan = (.ok token, between)) :
    Moves reader [] [] { between with buffer := between.buffer ++ [token] } ∧
      between.buffer = reader.buffer ∧
      (between.upcoming ≠ [] → reader.upcoming = .ok token :: between.upcoming) := by
  rcases reader.scan_cases with ⟨hend, hscan⟩ | ⟨result, cursor, hupcoming, hscan⟩
  · cases hscan.symm.trans h
    refine ⟨⟨?_, rfl⟩, rfl, fun hmore => absurd hend hmore⟩
    have hupcoming :
        { reader with buffer := reader.buffer ++ [Token.atEnd reader.length] }.upcoming = [] := hend
    -- The end that is put into the buffer is the first of those behind it.
    have hfirst : [Token.atEnd reader.length] ++ₛ Stream'.const (Token.atEnd reader.length) =
        Stream'.const (Token.atEnd reader.length) := (Stream'.const_eq _).symm
    unfold supply
    rw [hupcoming, hend]
    simp only [tokensAmong_nil, List.append_nil, Stream'.nil_append_stream,
      Stream'.append_append_stream, hfirst]
  · cases hscan.symm.trans h
    refine ⟨⟨?_, by rw [hupcoming]; rfl⟩, rfl, fun _ => hupcoming⟩
    unfold supply
    rw [hupcoming, tokensAmong_ok]
    simp [upcoming]

/-- A flaw is reported and gone. -/
theorem moves_of_flaw (h : reader.scan = (.error flaw, between)) :
    Moves reader [] [flaw] between ∧ between.buffer = reader.buffer ∧
      reader.upcoming = .error flaw :: between.upcoming := by
  rcases reader.scan_cases with ⟨hend, hscan⟩ | ⟨result, cursor, hupcoming, hscan⟩
  · cases hscan.symm.trans h
  · cases hscan.symm.trans h
    refine ⟨⟨?_, by rw [hupcoming]; rfl⟩, rfl, hupcoming⟩
    unfold supply
    rw [hupcoming, tokensAmong_error]
    rfl

/-! ## One call -/

theorem next_moves (reader : Reader) :
    Moves reader (tokensAmong [reader.next.1]) (flawsAmong [reader.next.1]) reader.next.2 ∧
      reader.next.2.buffer.length + reader.next.2.upcoming.length =
        reader.buffer.length + reader.upcoming.length - 1 := by
  obtain ⟨cursor, length, buffer⟩ := reader
  cases buffer with
  | cons token rest =>
      refine ⟨⟨rfl, rfl⟩, ?_⟩
      simp only [next, upcoming, List.length_cons]
      omega
  | nil =>
      let reader : Reader := ⟨cursor, length, []⟩
      rcases reader.scan_cases with ⟨hend, hscan⟩ | ⟨result, after, hupcoming, hscan⟩
      · have hnext : next reader = (.ok (Token.atEnd length), reader) := hscan
        rw [hnext, hend]
        refine ⟨⟨?_, rfl⟩, rfl⟩
        unfold supply
        rw [hend]
        exact Stream'.const_eq _
      · have hnext : next reader = (result, ⟨after, length, []⟩) := hscan
        rw [hnext, hupcoming]
        refine ⟨⟨?_, ?_⟩, ?_⟩
        · unfold supply
          rw [hupcoming]
          cases result <;> rfl
        · rw [hupcoming]
          cases result <;> rfl
        · rfl

/-- The flaw is come upon: the tokens scanned in front of it wait in the buffer, behind
those that were there. -/
def ComesUpon (reader : Reader) (flaw : Flaw) (after : Reader) : Prop :=
  ∃ scanned : List Token, after.buffer = reader.buffer ++ scanned ∧
    reader.upcoming = scanned.map .ok ++ .error flaw :: after.upcoming

/-- What is scanned into the buffer takes nothing away, and a flaw ends it. -/
theorem fill_cases (missing : Nat) (reader : Reader) :
    (∃ after, reader.fill missing = (.ok (), after) ∧ Moves reader [] [] after ∧
      after.buffer.length = reader.buffer.length + missing) ∨
    ∃ flaw after, reader.fill missing = (.error flaw, after) ∧ Moves reader [] [flaw] after ∧
      reader.ComesUpon flaw after := by
  induction missing generalizing reader with
  | zero => exact .inl ⟨reader, rfl, ⟨rfl, rfl⟩, rfl⟩
  | succ missing ih =>
      rw [fill]
      cases hscan : reader.scan with
      | mk result between =>
          cases result with
          | error flaw =>
              obtain ⟨hmoves, hbuffer, hupcoming⟩ := moves_of_flaw hscan
              exact .inr ⟨flaw, between, rfl, hmoves, [], by simp [hbuffer], hupcoming⟩
          | ok token =>
              obtain ⟨hmoves, hbuffer, hbehind⟩ := moves_of_buffered hscan
              rcases ih { between with buffer := between.buffer ++ [token] } with
                ⟨after, hfill, hrest, hlength⟩ |
                  ⟨flaw, after, hfill, hrest, scanned, hafter, hupcoming⟩
              · refine .inl ⟨after, hfill, hmoves.trans hrest, ?_⟩
                rw [hlength, hbuffer, List.length_append, List.length_singleton]
                omega
              · have hupcoming' :
                    between.upcoming = scanned.map .ok ++ .error flaw :: after.upcoming := hupcoming
                refine .inr ⟨flaw, after, hfill, hmoves.trans hrest, token :: scanned, ?_, ?_⟩
                · rw [hafter, hbuffer]
                  simp
                · rw [hbehind (by simp [hupcoming']), hupcoming']
                  rfl

/-- What is looked at is the token that will be taken after so many others. -/
theorem peekAt_cases (ahead : Nat) (reader : Reader) :
    (∃ token after, reader.peekAt ahead = (.ok token, after) ∧ Moves reader [] [] after ∧
      after.supply.get ahead = token) ∨
    ∃ flaw after, reader.peekAt ahead = (.error flaw, after) ∧ Moves reader [] [flaw] after ∧
      reader.ComesUpon flaw after := by
  unfold peekAt
  rcases fill_cases (ahead + 1 - reader.buffer.length) reader with
    ⟨after, hfill, hmoves, hlength⟩ | ⟨flaw, after, hfill, hmoves, hupon⟩
  · have hlt : ahead < after.buffer.length := by omega
    have hlt' : ahead < (after.buffer ++ tokensAmong after.upcoming).length := by
      rw [List.length_append]
      omega
    rw [hfill]
    refine .inl ⟨_, after, rfl, hmoves, ?_⟩
    unfold supply
    rw [Stream'.get_append_left _ _ _ hlt', List.getElem_append_left hlt,
      List.getElem?_eq_getElem hlt, Option.getD_some]
  · rw [hfill]
    exact .inr ⟨flaw, after, rfl, hmoves, hupon⟩

theorem peekAt_moves (ahead : Nat) (reader : Reader) :
    Moves reader [] (flawsAmong [(reader.peekAt ahead).1]) (reader.peekAt ahead).2 := by
  rcases peekAt_cases ahead reader with ⟨_, _, hpeek, hmoves, -⟩ | ⟨_, _, hpeek, hmoves, -⟩
  · rw [hpeek]
    exact hmoves
  · rw [hpeek]
    exact hmoves

/-- Only taking a token takes it, and a flaw is reported to the call that comes upon
it. -/
theorem call_moves (call : Call) (reader : Reader) :
    Moves reader (taken [(call, (reader.call call).1)]) (reported [(call, (reader.call call).1)])
      (reader.call call).2 := by
  cases call with
  | next =>
      have hmoves := (next_moves reader).1
      dsimp only [Reader.call]
      generalize reader.next = found at hmoves ⊢
      obtain ⟨result, after⟩ := found
      cases result <;> exact hmoves
  | peek =>
      have hmoves := peekAt_moves 0 reader
      dsimp only [Reader.call]
      generalize reader.peekAt 0 = found at hmoves ⊢
      obtain ⟨result, after⟩ := found
      cases result <;> exact hmoves
  | peekAt ahead =>
      have hmoves := peekAt_moves ahead reader
      dsimp only [Reader.call]
      generalize reader.peekAt ahead = found at hmoves ⊢
      obtain ⟨result, after⟩ := found
      cases result <;> exact hmoves
  | check kind =>
      have hmoves := peekAt_moves 0 reader
      dsimp only [Reader.call, check]
      generalize reader.peekAt 0 = found at hmoves ⊢
      obtain ⟨result, after⟩ := found
      cases result <;> exact hmoves

/-! ## Many calls -/

theorem taken_cons (entry : Call × Except Flaw Answer) (log : List (Call × Except Flaw Answer)) :
    taken (entry :: log) = taken [entry] ++ taken log :=
  @List.filterMap_append _ _ [entry] log _

theorem reported_cons (entry : Call × Except Flaw Answer)
    (log : List (Call × Except Flaw Answer)) :
    reported (entry :: log) = reported [entry] ++ reported log :=
  @List.filterMap_append _ _ [entry] log _

theorem log_moves (calls : List Call) (reader : Reader) :
    Moves reader (taken (reader.log calls)) (reported (reader.log calls)) (reader.after calls) := by
  induction calls generalizing reader with
  | nil => exact ⟨rfl, rfl⟩
  | cons call calls ih =>
      rw [log, taken_cons, reported_cons]
      exact (call_moves call reader).trans (ih (reader.call call).2)

/-- Every call that takes a token takes one or reports a flaw. -/
theorem length_log_next (count : Nat) (reader : Reader) :
    (taken (reader.log (List.replicate count .next))).length +
      (reported (reader.log (List.replicate count .next))).length = count := by
  induction count generalizing reader with
  | zero => rfl
  | succ count ih =>
      have hrest := ih (reader.call .next).2
      have hone : (taken [(Call.next, (reader.call .next).1)]).length +
          (reported [(Call.next, (reader.call .next).1)]).length = 1 := by
        dsimp only [Reader.call]
        cases reader.next.1 <;> rfl
      rw [List.replicate_succ, log, taken_cons, reported_cons, List.length_append,
        List.length_append]
      omega

theorem upcoming_after_next {count : Nat} {reader : Reader}
    (h : reader.buffer.length + reader.upcoming.length ≤ count) :
    (reader.after (List.replicate count .next)).upcoming = [] := by
  induction count generalizing reader with
  | zero => exact List.eq_nil_of_length_eq_zero (Nat.le_zero.mp (Nat.le_of_add_left_le h))
  | succ count ih =>
      have hnext := (next_moves reader).2
      have hcall : (reader.call .next).2 = reader.next.2 := rfl
      rw [List.replicate_succ, after, hcall]
      exact ih (by omega)

/-- The flaws of a source stand at different places. -/
theorem nodup_flawsAmong (source : String) : (flawsAmong (ofSource source).upcoming).Nodup := by
  have hordered := (Stream.ofSource_tiling source).ordered
  have hscans : (Stream.ofSource source).scans = (ofSource source).upcoming := rfl
  rw [hscans] at hordered
  have hapart {first second : Scan} (h : first.span.start < second.span.start ∧
      first.span.stop ≤ second.span.start) : first ≠ second := by
    rintro rfl
    omega
  refine List.Pairwise.filterMap _ ?_ (List.pairwise_append.mp hordered).1
  intro first second h flaw hflaw flaw' hflaw'
  cases first <;> cases second <;> cases hflaw <;> cases hflaw'
  exact fun heq => hapart h (congrArg _ heq)

/-- Looking ahead changes nothing. Whatever calls are made of a reader, the tokens
that are taken and the flaws that are reported are, in order, the first of those that
come when tokens are only taken, and no flaw is reported twice. A token that is looked
at is the one that is taken after so many others, whatever calls are made before. A
flaw that is come upon leaves the buffer as it was, with the tokens behind it that
were scanned up to the flaw. -/
theorem lookahead_changes_nothing (source : String) (calls : List Call) :
    (∃ count,
      taken ((ofSource source).log calls) <+:
        taken ((ofSource source).log (List.replicate count .next)) ∧
      reported ((ofSource source).log calls) <+:
        reported ((ofSource source).log (List.replicate count .next))) ∧
    (reported ((ofSource source).log calls)).Nodup ∧
    ∀ ahead,
      (∃ token after, ((ofSource source).after calls).peekAt ahead = (.ok token, after) ∧
        ∀ more found, (taken (after.log more))[ahead]? = some found → found = token) ∨
      ∃ flaw after, ((ofSource source).after calls).peekAt ahead = (.error flaw, after) ∧
        ((ofSource source).after calls).ComesUpon flaw after := by
  have hmoves := log_moves calls (ofSource source)
  refine ⟨?_, ?_, ?_⟩
  · -- So many tokens are taken after all flaws, and the reader starts with nothing buffered.
    let count := (ofSource source).upcoming.length + (taken ((ofSource source).log calls)).length
    have htaking := log_moves (List.replicate count .next) (ofSource source)
    have hlength := length_log_next count (ofSource source)
    have hdone : ((ofSource source).after (List.replicate count .next)).upcoming = [] :=
      upcoming_after_next (by simp [count, ofSource])
    have hflaws : flawsAmong (ofSource source).upcoming =
        reported ((ofSource source).log (List.replicate count .next)) := by
      rw [htaking.flaws, hdone, flawsAmong_nil, List.append_nil]
    have hfew : (flawsAmong (ofSource source).upcoming).length ≤
        (ofSource source).upcoming.length := List.length_filterMap_le _ _
    refine ⟨count, ?_, ?_⟩
    · rw [hflaws] at hfew
      refine prefix_of_append_stream (hmoves.supply.symm.trans htaking.supply) ?_
      omega
    · rw [← hflaws, hmoves.flaws]
      exact List.prefix_append _ _
  · have hnodup := nodup_flawsAmong source
    rw [hmoves.flaws] at hnodup
    exact (List.nodup_append.mp hnodup).1
  · intro ahead
    rcases peekAt_cases ahead ((ofSource source).after calls) with
      ⟨token, after, hpeek, -, hget⟩ | ⟨flaw, after, hpeek, -, hupon⟩
    · refine .inl ⟨token, after, hpeek, fun more found hfound => ?_⟩
      obtain ⟨hlt, hfound⟩ := List.getElem?_eq_some_iff.mp hfound
      rw [← hget, (log_moves more after).supply, Stream'.get_append_left _ _ _ hlt, hfound]
    · exact .inr ⟨flaw, after, hpeek, hupon⟩

end Reader

end FilterScript
