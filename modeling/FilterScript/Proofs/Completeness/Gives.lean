import FilterScript.Proofs.Levels.Counts

/-!
# Productions that succeed

`Gives` is the other half of `Reads`: on the given tokens, with others behind
them, the production does succeed, takes just these tokens and gives a result of
which the statement holds. No limit stands in the way, and all the input is free
of flaws, so that looking ahead always shows a token.
-/

namespace FilterScript

/-- The kind of the token after `ahead` others, or the end behind all of them. -/
def kindAt (ahead : Nat) (tokens : List Token) : Kind :=
  match tokens[ahead]? with
  | some token => token.kind
  | none => .endOfFile

@[simp] theorem kindAt_nil (ahead : Nat) : kindAt ahead [] = .endOfFile := rfl

@[simp] theorem kindAt_zero (token : Token) (rest : List Token) :
    kindAt 0 (token :: rest) = token.kind := rfl

@[simp] theorem kindAt_succ (ahead : Nat) (token : Token) (rest : List Token) :
    kindAt (ahead + 1) (token :: rest) = kindAt ahead rest := rfl

/-- Looking ahead in input without flaws shows the token there. -/
theorem Stream.lookahead_of_scans {stream : Stream} {tokens : List Token}
    (h : stream.scans = tokens.map .ok) (ahead : Nat) :
    ∃ token, stream.lookahead ahead = .ok token ∧ token.kind = kindAt ahead tokens := by
  unfold lookahead
  rw [h]
  clear h
  induction tokens generalizing ahead with
  | nil => exact ⟨_, rfl, rfl⟩
  | cons token rest ih =>
      cases ahead with
      | zero => exact ⟨token, rfl, rfl⟩
      | succ ahead => exact ih ahead

/-- A state in which these tokens are left and no limit is set. Their names have
their places in the final table. -/
structure State.Ready (final : Names) (records : Bool) (tokens : List Token)
    (state : State) : Prop where
  scans : state.input.scans = tokens.map .ok
  limit : state.limit = none
  records : state.context.records = records
  names : (state.names.enter (tokens.map .ok)).Within final

namespace Parse

variable {α β : Type} {final : Names} {records : Bool} {taken rest : List Token}

/-- On the first of these tokens, with the second behind them, the production
succeeds with a result of which the statement holds. -/
def Gives (final : Names) (records : Bool) (taken rest : List Token) (production : Parse α)
    (post : α → Prop) : Prop :=
  ∀ state : State, state.Ready final records (taken ++ rest) →
    ∃ result after, production state = .ok result after ∧ after.Ready final records rest ∧
      post result

namespace Gives

variable {post : α → Prop} {last : β → Prop}

theorem mono {post' : α → Prop} {production : Parse α}
    (h : Gives final records taken rest production post) (himp : ∀ result, post result → post' result) :
    Gives final records taken rest production post' := by
  intro state hready
  obtain ⟨result, after, hrun, hafter, hpost⟩ := h state hready
  exact ⟨result, after, hrun, hafter, himp result hpost⟩

protected theorem pure {result : α} (h : post result) :
    Gives final records [] rest (pure result) post :=
  fun state hready => ⟨result, state, rfl, hready, h⟩

/-- One production after another, on one part of the tokens after the other. -/
protected theorem bind {production : Parse α} {next : α → Parse β} {first second : List Token}
    (h : Gives final records first (second ++ rest) production post)
    (hnext : ∀ result, post result → Gives final records second rest (next result) last) :
    Gives final records (first ++ second) rest (production >>= next) last := by
  intro state hready
  rw [List.append_assoc] at hready
  obtain ⟨result, between, hrun, hbetween, hpost⟩ := h state hready
  obtain ⟨value, after, hrest, hafter, hlast⟩ := hnext result hpost between hbetween
  exact ⟨value, after, by rw [bind_eq_of_ok hrun, hrest], hafter, hlast⟩

/-- A step that takes nothing and leaves the state as ready as it was. -/
theorem bind_stay {production : Parse α} {next : α → Parse β} {result : α} {step : State → State}
    (hrun : ∀ state, production state = .ok result (step state))
    (hready : ∀ {state : State} {tokens : List Token}, state.Ready final records tokens →
      (step state).Ready final records tokens)
    (hnext : Gives final records taken rest (next result) last) :
    Gives final records taken rest (production >>= next) last := by
  intro state hstate
  rw [bind_eq_of_ok (hrun state)]
  exact hnext (step state) (hready hstate)

theorem bind_peekAt {ahead : Nat} {next : Token → Parse β}
    (h : ∀ token, token.kind = kindAt ahead (taken ++ rest) →
      Gives final records taken rest (next token) last) :
    Gives final records taken rest (Parse.peekAt ahead >>= next) last := by
  intro state hready
  obtain ⟨token, hlookahead, hkind⟩ := Stream.lookahead_of_scans hready.scans ahead
  have hpeek : Parse.peekAt ahead state = .ok token state := peekAt_eq_ok_iff.mpr ⟨hlookahead, rfl⟩
  rw [bind_eq_of_ok hpeek]
  exact h token hkind state hready

theorem bind_peek {next : Token → Parse β}
    (h : ∀ token, token.kind = kindAt 0 (taken ++ rest) →
      Gives final records taken rest (next token) last) :
    Gives final records taken rest (Parse.peek >>= next) last :=
  bind_peekAt h

theorem ready_noting {state : State} {tokens : List Token} (expected : Expected)
    (h : state.Ready final records tokens) : (state.noting expected).Ready final records tokens where
  scans := by rw [State.noting_input, h.scans]
  limit := by
    unfold State.noting
    split <;> exact h.limit
  records := by rw [State.noting_context, h.records]
  names := by rw [State.noting_names]; exact h.names

theorem bind_warn {lint : Lint} {span : Span} {next : Unit → Parse β}
    (h : Gives final records taken rest (next ()) last) :
    Gives final records taken rest (Parse.warn lint span >>= next) last :=
  bind_stay (fun _ => rfl) (fun hready => ⟨hready.scans, hready.limit, hready.records, hready.names⟩) h

theorem bind_get {next : State → Parse β}
    (h : ∀ state, state.context.records = records → Gives final records taken rest (next state) last) :
    Gives final records taken rest (get >>= next) last :=
  fun state hready => h state hready.records state hready

/-! ### Telling what comes next -/

section Kinds

variable {kind : Kind} {token : Token} {more : List Token}

theorem bind_nextIs {next : Bool → Parse β}
    (h : Gives final records taken rest
      (next ((kindAt 0 (taken ++ rest)).variant == kind.variant)) last) :
    Gives final records taken rest (Parse.nextIs kind >>= next) last := by
  intro state hready
  obtain ⟨shown, hlookahead, hkind⟩ := Stream.lookahead_of_scans hready.scans 0
  rw [bind_eq_of_ok (nextIs_eq hlookahead), hkind]
  exact h state hready

theorem bind_accepts {next : Bool → Parse β}
    (h : Gives final records taken rest
      (next ((kindAt 0 (taken ++ rest)).variant == kind.variant)) last) :
    Gives final records taken rest (Parse.accepts kind >>= next) last := by
  intro state hready
  obtain ⟨shown, hlookahead, hkind⟩ := Stream.lookahead_of_scans hready.scans 0
  rw [← hkind] at h
  cases hfound : shown.kind.variant == kind.variant with
  | true =>
      rw [hfound] at h
      rw [bind_eq_of_ok (accepts_eq_true hlookahead hfound)]
      exact h state hready
  | false =>
      rw [hfound] at h
      rw [bind_eq_of_ok (accepts_eq_false hlookahead hfound)]
      exact h _ (ready_noting _ hready)

theorem bind_nextIs_yes {next : Bool → Parse β} (hkind : kindAt 0 (taken ++ rest) = kind)
    (h : Gives final records taken rest (next true) last) :
    Gives final records taken rest (Parse.nextIs kind >>= next) last := by
  apply bind_nextIs
  rwa [hkind, beq_self_eq_true]

theorem bind_nextIs_no {next : Bool → Parse β} (hfixed : kind.isFixed)
    (hkind : kindAt 0 (taken ++ rest) ≠ kind)
    (h : Gives final records taken rest (next false) last) :
    Gives final records taken rest (Parse.nextIs kind >>= next) last := by
  apply bind_nextIs
  rwa [Kind.beq_variant_of_ne hfixed hkind]

theorem bind_accepts_yes {next : Bool → Parse β} (hkind : kindAt 0 (taken ++ rest) = kind)
    (h : Gives final records taken rest (next true) last) :
    Gives final records taken rest (Parse.accepts kind >>= next) last := by
  apply bind_accepts
  rwa [hkind, beq_self_eq_true]

theorem bind_accepts_no {next : Bool → Parse β} (hfixed : kind.isFixed)
    (hkind : kindAt 0 (taken ++ rest) ≠ kind)
    (h : Gives final records taken rest (next false) last) :
    Gives final records taken rest (Parse.accepts kind >>= next) last := by
  apply bind_accepts
  rwa [Kind.beq_variant_of_ne hfixed hkind]

/-- Taking a token that is no name. Names are taken where they are entered into
the table. -/
theorem bind_advance {next : Token → Parse β} (hname : token.kind.isName = false)
    (h : Gives final records more rest (next token) last) :
    Gives final records (token :: more) rest (Parse.advance >>= next) last := by
  intro state hready
  let after : State :=
    { state with input := { state.input with scans := (more ++ rest).map .ok }, expected := [] }
  have hadvance : Parse.advance state = .ok token after := by
    unfold Parse.advance
    rw [hready.scans]
    rfl
  rw [bind_eq_of_ok hadvance]
  refine h after ⟨rfl, hready.limit, hready.records, ?_⟩
  have hnames := hready.names
  rwa [List.cons_append, List.map_cons, Names.enter_of_not_isName hname] at hnames

theorem bind_takes_yes {next : Bool → Parse β} (hfixed : kind.isFixed) (hkind : token.kind = kind)
    (h : Gives final records more rest (next true) last) :
    Gives final records (token :: more) rest (Parse.takes kind >>= next) last := by
  have hname : token.kind.isName = false := hkind ▸ Kind.isName_of_isFixed hfixed
  unfold Parse.takes
  rw [bind_assoc]
  refine bind_accepts_yes hkind ?_
  simp only [if_true, bind_assoc, pure_bind]
  exact bind_advance hname h

theorem bind_takes_no {next : Bool → Parse β} (hfixed : kind.isFixed)
    (hkind : kindAt 0 (taken ++ rest) ≠ kind)
    (h : Gives final records taken rest (next false) last) :
    Gives final records taken rest (Parse.takes kind >>= next) last := by
  unfold Parse.takes
  rw [bind_assoc]
  apply bind_accepts_no hfixed hkind
  simpa using h

theorem bind_expect {next : Token → Parse β} (hfixed : kind.isFixed) (hkind : token.kind = kind)
    (h : Gives final records more rest (next token) last) :
    Gives final records (token :: more) rest (Parse.expect kind >>= next) last := by
  have hname : token.kind.isName = false := hkind ▸ Kind.isName_of_isFixed hfixed
  unfold Parse.expect
  rw [bind_assoc]
  refine bind_accepts_yes hkind ?_
  exact bind_advance hname h

end Kinds

/-- A name is read from a token that spells it. -/
protected theorem ident {token : Token} {text : String} {raw : Bool}
    (hkind : token.kind = .name text raw) :
    Gives final records [token] rest Grammar.ident fun ident =>
      final.text ident.name = text ∧ ident.raw = raw := by
  obtain ⟨_, span⟩ := token
  subst hkind
  unfold Grammar.ident
  refine bind_peek fun shown hshown => ?_
  obtain ⟨kind, shownSpan⟩ := shown
  obtain rfl : kind = .name text raw := hshown
  intro state hready
  let after : State :=
    { state with input := { state.input with scans := rest.map .ok }, expected := [] }
  have hadvance : Parse.advance state = .ok ⟨.name text raw, span⟩ after := by
    unfold Parse.advance
    rw [hready.scans]
    rfl
  have hnames : ((state.names.intern text).2.enter (rest.map .ok)).Within final := hready.names
  have htext := Names.text_intern ((Names.within_enter _ _).trans hnames)
  refine ⟨⟨(state.names.intern text).1, raw, span⟩,
    { after with names := (state.names.intern text).2 }, ?_,
    ⟨rfl, hready.limit, hready.records, hnames⟩, htext, rfl⟩
  exact bind_eq_of_ok hadvance

protected theorem withRecords {allowed : Bool} {production : Parse α}
    (h : Gives final allowed taken rest production post) :
    Gives final records taken rest (withRecords allowed production) post := by
  intro state hready
  obtain ⟨result, inner, hrun, hinner, hpost⟩ :=
    h { state with context := (Change.records allowed).enter state.context }
      ⟨hready.scans, hready.limit, rfl, hready.names⟩
  exact ⟨result, _, within_eq_ok_iff.mpr ⟨inner, hrun, rfl⟩,
    ⟨hinner.scans, hinner.limit, hready.records, hinner.names⟩, hpost⟩

protected theorem nested {production : Parse α}
    (h : Gives final records taken rest production post) :
    Gives final records taken rest (nested production) post := by
  intro state hready
  obtain ⟨result, inner, hrun, hinner, hpost⟩ :=
    h { state with context := Change.level.enter state.context }
      ⟨hready.scans, hready.limit, hready.records, hready.names⟩
  refine ⟨result, { inner with context := Change.level.leave state.context inner.context }, ?_,
    ⟨hinner.scans, hinner.limit, hinner.records, hinner.names⟩, hpost⟩
  rw [nested_eq]
  simp only [State.reachedLimit?, hready.limit, Option.filter_none]
  exact within_eq_ok_iff.mpr ⟨inner, hrun, rfl⟩

/-- The bound that is supplied is larger than the number of tokens taken. -/
protected theorem bounded {production : Nat → Parse α}
    (h : ∀ most, taken.length < most → Gives final records taken rest (production most) post) :
    Gives final records taken rest (bounded production) post := by
  intro state hready
  refine h (state.input.scans.length + 1) ?_ state hready
  rw [hready.scans, List.length_map, List.length_append]
  omega

/-! ### Loops -/

/-- From a value on, a loop takes these tokens, as long as it may go around more
often than there are tokens to take. -/
def Loops (final : Names) (records : Bool) (taken rest : List Token) (round : α → Parse (Round α β))
    (value : α) (last : β → Prop) : Prop :=
  ∀ most, taken.length < most → Gives final records taken rest (rounds round most value) last

section Loops

variable {round : α → Parse (Round α β)} {value : α}

theorem Loops.repeated (h : Loops final records taken rest round value last) :
    Gives final records taken rest (Parse.repeated round value) last :=
  .bounded h

/-- The loop ends with what one more round takes. -/
theorem Loops.finish
    (h : Gives final records taken rest (round value) fun result =>
      ∃ value, result = .done value ∧ last value) :
    Loops final records taken rest round value last := by
  intro most hmost
  match most, hmost with
  | most + 1, _ =>
    unfold rounds
    rw [← List.append_nil taken]
    refine .bind h ?_
    rintro _ ⟨value, rfl, hlast⟩
    exact .pure hlast

/-- The loop goes around once, on some of the tokens, and then on. -/
theorem Loops.step {front back : List Token} (hfront : front ≠ [])
    (h : Gives final records front (back ++ rest) (round value) fun result =>
      ∃ value, result = .more value ∧ Loops final records back rest round value last) :
    Loops final records (front ++ back) rest round value last := by
  intro most hmost
  have hlength : 0 < front.length := List.length_pos_iff.mpr hfront
  rw [List.length_append] at hmost
  match most, hmost with
  | most + 1, hmost =>
    unfold rounds
    refine .bind h ?_
    rintro _ ⟨value, rfl, hloops⟩
    exact hloops most (by omega)

end Loops

end Gives

end Parse

end FilterScript
