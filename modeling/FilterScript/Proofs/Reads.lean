import FilterScript.Grammar.List

/-!
# What a successful run takes

Every successful run of a production takes some tokens off the front of the
input, enters the names among them into the table and comes back to the context
it was started in. `Reads` says this together with a statement about the result,
the tokens taken and the input left behind. One rule per step and one per way of
combining steps are all that the productions need.
-/

namespace FilterScript

namespace Names

/-- All names of one table stand in another one at the same places. -/
def Within (names final : Names) : Prop :=
  names.texts <+: final.texts

theorem Within.refl (names : Names) : names.Within names :=
  List.prefix_refl _

theorem Within.trans {first second third : Names} (h : first.Within second)
    (h' : second.Within third) : first.Within third :=
  List.IsPrefix.trans h h'

theorem within_intern (names : Names) (text : String) : names.Within (names.intern text).2 := by
  unfold intern
  split
  · exact .refl _
  · exact List.prefix_append _ _

/-- A text can be looked up by its symbol from the moment it is interned. -/
theorem text?_intern {names final : Names} {text : String}
    (h : (names.intern text).2.Within final) : final.text? (names.intern text).1 = some text := by
  obtain ⟨later, hlater⟩ := h
  unfold intern at hlater ⊢
  unfold text?
  split at hlater
  next index hindex =>
    obtain ⟨hlt, heq, _⟩ := List.idxOf?_eq_some_iff.mp hindex
    rw [← hlater, List.getElem?_append_left hlt, List.getElem?_eq_getElem hlt]
    simpa using heq
  next hnone =>
    simp only [← hlater, List.append_assoc, List.getElem?_append_right (Nat.le_refl _)]
    simp

theorem text_intern {names final : Names} {text : String}
    (h : (names.intern text).2.Within final) : final.text (names.intern text).1 = text := by
  rw [Names.text, text?_intern h]
  rfl

/-- The table once all names of an input are in it, in the order in which they
stand there. -/
def enter (names : Names) : List Scan → Names
  | [] => names
  | .ok ⟨.name text _, _⟩ :: rest => (names.intern text).2.enter rest
  | _ :: rest => names.enter rest

@[simp] theorem enter_nil (names : Names) : names.enter [] = names := rfl

theorem enter_name {names : Names} {text : String} {raw : Bool} {span : Span}
    {rest : List Scan} :
    names.enter (.ok ⟨.name text raw, span⟩ :: rest) = (names.intern text).2.enter rest := rfl

theorem enter_of_not_isName {names : Names} {token : Token} {rest : List Scan}
    (h : token.kind.isName = false) : names.enter (.ok token :: rest) = names.enter rest := by
  obtain ⟨kind, span⟩ := token
  cases kind <;> first | rfl | cases h

theorem enter_append (names : Names) (first second : List Scan) :
    names.enter (first ++ second) = (names.enter first).enter second := by
  fun_induction names.enter first with
  | case1 => rfl
  | case2 names text raw span rest ih => exact ih
  | case3 names scan rest hscan ih =>
      rw [List.cons_append, ← ih]
      match scan, hscan with
      | .error _, _ => rfl
      | .ok ⟨kind, span⟩, hscan =>
          refine enter_of_not_isName ?_
          cases kind with
          | name text raw => exact absurd rfl (hscan text raw span)
          | _ => rfl

theorem within_enter (names : Names) (input : List Scan) : names.Within (names.enter input) := by
  fun_induction names.enter input with
  | case1 => exact .refl _
  | case2 names text raw span rest ih => exact (names.within_intern text).trans ih
  | case3 names scan rest hscan ih => exact ih

end Names

namespace Kind

/-- Keywords and punctuation are told by their variant alone. -/
def isFixed : Kind → Bool
  | keyword _ | punct _ => true
  | _ => false

theorem eq_of_variant_eq {found kind : Kind} (hfixed : kind.isFixed)
    (h : found.variant = kind.variant) : found = kind := by
  cases kind <;> simp [isFixed] at hfixed <;> cases found <;> simp_all [variant]

theorem beq_variant_of_ne {found kind : Kind} (hfixed : kind.isFixed) (h : found ≠ kind) :
    (found.variant == kind.variant) = false :=
  beq_eq_false_iff_ne.mpr fun hvariant => h (eq_of_variant_eq hfixed hvariant)

theorem isName_of_isFixed {kind : Kind} (hfixed : kind.isFixed) : kind.isName = false := by
  cases kind <;> simp_all [isFixed, isName]

theorem ne_endOfFile_of_isFixed {kind : Kind} (hfixed : kind.isFixed) : kind ≠ .endOfFile := by
  rintro rfl
  simp [isFixed] at hfixed

end Kind

/-- What looking ahead shows: a token of the input, or the end behind all of
them. A flaw shows nothing. -/
def Shows : Nat → List Scan → Token → Prop
  | _, [], token => token.kind = .endOfFile
  | _, .error _ :: _, _ => False
  | 0, .ok first :: _, token => token = first
  | ahead + 1, .ok _ :: rest, token => Shows ahead rest token

/-- A token of this kind comes next, whatever its text. -/
def Next (kind : Kind) (input : List Scan) : Prop :=
  ∃ token, Shows 0 input token ∧ token.kind.variant = kind.variant

namespace Shows

theorem cons {input : List Scan} {token : Token} (h : Shows 0 input token)
    (hkind : token.kind ≠ .endOfFile) : ∃ rest, input = .ok token :: rest := by
  match input, h with
  | [], h => exact absurd h hkind
  | .ok first :: rest, h => exact ⟨rest, by rw [show token = first from h]⟩

theorem kind_unique {ahead : Nat} {input : List Scan} {token other : Token}
    (h : Shows ahead input token) (h' : Shows ahead input other) : token.kind = other.kind := by
  induction ahead generalizing input with
  | zero =>
      match input, h, h' with
      | [], h, h' => exact h.trans h'.symm
      | .ok _ :: _, h, h' => rw [show token = _ from h, show other = _ from h']
  | succ ahead ih =>
      match input, h, h' with
      | [], h, h' => exact h.trans h'.symm
      | .ok _ :: _, h, h' => exact ih h h'

theorem of_lookahead {stream : Stream} {ahead : Nat} {token : Token}
    (h : stream.lookahead ahead = .ok token) : Shows ahead stream.scans token := by
  suffices ∀ scans ahead, Stream.lookahead.go stream scans ahead = .ok token →
      Shows ahead scans token from this _ _ h
  intro scans ahead hgo
  induction scans generalizing ahead with
  | nil =>
      cases hgo
      simp [Shows, Token.atEnd]
  | cons scan rest ih =>
      match scan, ahead, hgo with
      | .ok first, 0, hgo =>
          cases hgo
          simp [Shows]
      | .ok first, ahead + 1, hgo => exact ih ahead hgo

end Shows

theorem Next.cons {input : List Scan} {kind : Kind} (h : Next kind input) (hfixed : kind.isFixed) :
    ∃ token rest, input = .ok token :: rest ∧ token.kind = kind := by
  obtain ⟨token, hshows, hvariant⟩ := h
  have hkind := Kind.eq_of_variant_eq hfixed hvariant
  obtain ⟨rest, hrest⟩ := hshows.cons (hkind ▸ Kind.ne_endOfFile_of_isFixed hfixed)
  exact ⟨token, rest, hrest, hkind⟩

theorem Next.of_kind {token : Token} {rest : List Scan} {kind : Kind} (h : token.kind = kind) :
    Next kind (.ok token :: rest) :=
  ⟨token, rfl, congrArg Kind.variant h⟩

namespace State

/-- The state once it is noted what would have been accepted here. -/
def noting (expected : Expected) (state : State) : State :=
  if expected ∈ state.expected then state
  else { state with expected := state.expected ++ [expected] }

@[simp] theorem noting_input (expected : Expected) (state : State) :
    (state.noting expected).input = state.input := by
  unfold noting
  split <;> rfl

@[simp] theorem noting_context (expected : Expected) (state : State) :
    (state.noting expected).context = state.context := by
  unfold noting
  split <;> rfl

@[simp] theorem noting_warnings (expected : Expected) (state : State) :
    (state.noting expected).warnings = state.warnings := by
  unfold noting
  split <;> rfl

@[simp] theorem noting_names (expected : Expected) (state : State) :
    (state.noting expected).names = state.names := by
  unfold noting
  split <;> rfl

end State

namespace Parse

variable {α β : Type} {final : Names} {records : Bool} {input : List Scan}

theorem want_eq (expected : Expected) (state : State) :
    want expected state = .ok () (state.noting expected) := rfl

theorem nested_eq (production : Parse α) (state : State) :
    nested production state =
      match state.reachedLimit? with
      | some limit => (do let token ← peek; throw ⟨.tooDeep limit, token.span⟩ : Parse α) state
      | none => within .level production state := by
  unfold nested
  change (match state.reachedLimit? with | some _ => _ | none => _ : Parse α) state = _
  cases state.reachedLimit? <;> rfl

theorem peekAt_eq_ok_iff {ahead : Nat} {state after : State} {token : Token} :
    peekAt ahead state = .ok token after ↔
      state.input.lookahead ahead = .ok token ∧ after = state := by
  unfold peekAt
  cases state.input.lookahead ahead with
  | ok shown =>
      simp only [EStateM.Result.ok.injEq, Except.ok.injEq]
      exact and_congr_right fun _ => eq_comm
  | error flaw => simp

theorem bind_eq_ok_iff {production : Parse α} {next : α → Parse β} {state after : State}
    {last : β} :
    (production >>= next) state = .ok last after ↔
      ∃ result between, production state = .ok result between ∧
        next result between = .ok last after := by
  change EStateM.bind production next state = _ ↔ _
  unfold EStateM.bind
  split
  next result between hrun =>
    constructor
    · exact fun h => ⟨result, between, hrun, h⟩
    · rintro ⟨_, _, h, hnext⟩
      cases hrun.symm.trans h
      exact hnext
  next hrun => simp [hrun]

theorem run'_eq_some_iff {production : Parse α} {state : State} {result : α} :
    EStateM.run' production state = some result ↔ ∃ after, production state = .ok result after := by
  unfold EStateM.run' EStateM.run
  cases production state <;> simp

theorem refuse_ne_ok {state after : State} {result : α} : refuse state ≠ .ok result after := by
  intro hrun
  obtain ⟨_, _, _, hget⟩ := bind_eq_ok_iff.mp hrun
  obtain ⟨_, _, _, hthrow⟩ := bind_eq_ok_iff.mp hget
  cases hthrow

/-- Every successful run of the production on this input, with braces opening
records or not as told, ends in a result of which the statement holds, given the
tokens taken and the input left. All names of the input are in the final table. -/
def Reads (final : Names) (records : Bool) (input : List Scan) (production : Parse α)
    (post : α → List Token → List Scan → Prop) : Prop :=
  ∀ state result after, state.input.scans = input → state.context.records = records →
    (state.names.enter input).Within final → production state = .ok result after →
    ∃ taken, input = taken.map .ok ++ after.input.scans ∧ after.context.records = records ∧
      after.names = state.names.enter (taken.map .ok) ∧ post result taken after.input.scans

namespace Reads

variable {post post' : α → List Token → List Scan → Prop}

theorem mono {production : Parse α} (h : Reads final records input production post)
    (himp : ∀ result taken rest, input = taken.map .ok ++ rest →
      post result taken rest → post' result taken rest) :
    Reads final records input production post' := by
  intro state result after hinput hrecords hnames hrun
  obtain ⟨taken, htaken, hafter, htable, hpost⟩ := h state result after hinput hrecords hnames hrun
  exact ⟨taken, htaken, hafter, htable, himp _ _ _ htaken hpost⟩

/-- Two statements about a run speak of the same tokens. -/
protected theorem and {production : Parse α} (h : Reads final records input production post)
    (h' : Reads final records input production post') :
    Reads final records input production fun result taken rest =>
      post result taken rest ∧ post' result taken rest := by
  intro state result after hinput hrecords hnames hrun
  obtain ⟨taken, htaken, hafter, htable, hpost⟩ := h state result after hinput hrecords hnames hrun
  obtain ⟨same, hsame, _, _, hpost'⟩ := h' state result after hinput hrecords hnames hrun
  have heq : same.map Except.ok = taken.map Except.ok :=
    List.append_cancel_right (hsame.symm.trans htaken)
  obtain rfl : same = taken := (List.map_inj_right fun _ _ => Except.ok.inj).mp heq
  exact ⟨same, htaken, hafter, htable, hpost, hpost'⟩

/-- A step that takes nothing. -/
theorem of_stay {production : Parse α} {result : α} {step : State → State}
    (hrun : ∀ state, production state = .ok result (step state))
    (hinput : ∀ state, (step state).input = state.input)
    (hcontext : ∀ state, (step state).context = state.context)
    (hnames : ∀ state, (step state).names = state.names) (h : post result [] input) :
    Reads final records input production post := by
  intro state _ after hscans hrecords _ hrun'
  cases (hrun state).symm.trans hrun'
  exact ⟨[], by simp [hinput, hscans], by rw [hcontext, hrecords], hnames state,
    by rwa [hinput, hscans]⟩

protected theorem pure {result : α} (h : post result [] input) :
    Reads final records input (pure result) post :=
  of_stay (fun _ => rfl) (fun _ => rfl) (fun _ => rfl) (fun _ => rfl) h

/-- One production after another: the second starts where the first one ends,
with what is known of its result. -/
protected theorem bind {production : Parse α} {next : α → Parse β}
    {last : β → List Token → List Scan → Prop}
    (hfirst : Reads final records input production post)
    (hnext : ∀ result taken rest, input = taken.map .ok ++ rest → post result taken rest →
      Reads final records rest (next result) fun value more => last value (taken ++ more)) :
    Reads final records input (production >>= next) last := by
  intro state value after hinput hrecords hnames hrun
  obtain ⟨result, between, hproduction, hrest⟩ := bind_eq_ok_iff.mp hrun
  obtain ⟨taken, htaken, hbetween, htable, hpost⟩ :=
    hfirst state result between hinput hrecords hnames hproduction
  have hnames' : (between.names.enter between.input.scans).Within final := by
    rwa [htable, ← Names.enter_append, ← htaken]
  obtain ⟨more, hmore, hafter, htable', hlast⟩ :=
    hnext result taken between.input.scans htaken hpost between value after rfl hbetween hnames' hrest
  exact ⟨taken ++ more, by simp [htaken, hmore], hafter,
    by rw [htable', htable, List.map_append, Names.enter_append], hlast⟩

protected theorem peekAt (ahead : Nat) :
    Reads final records input (peekAt ahead) fun token taken rest =>
      taken = [] ∧ rest = input ∧ Shows ahead input token := by
  intro state token after hinput hrecords _ hrun
  obtain ⟨hshown, rfl⟩ := peekAt_eq_ok_iff.mp hrun
  subst hinput
  exact ⟨[], rfl, hrecords, rfl, rfl, rfl, .of_lookahead hshown⟩

protected theorem peek :
    Reads final records input peek fun token taken rest =>
      taken = [] ∧ rest = input ∧ Shows 0 input token :=
  .peekAt 0

/-- Taking the token that is known to come next and to be no name. -/
protected theorem advance {token : Token} {rest : List Scan} (hname : token.kind.isName = false) :
    Reads final records (.ok token :: rest) advance fun result taken left =>
      result = token ∧ taken = [token] ∧ left = rest := by
  intro state result after hinput hrecords _ hrun
  unfold Parse.advance at hrun
  rw [hinput] at hrun
  cases hrun
  have htable : state.names.enter [.ok token] = state.names := Names.enter_of_not_isName hname
  exact ⟨[token], rfl, hrecords, htable.symm, rfl, rfl, rfl⟩

protected theorem want (expected : Expected) :
    Reads final records input (want expected) fun _ taken rest => taken = [] ∧ rest = input := by
  exact of_stay (want_eq expected) (State.noting_input expected) (State.noting_context expected)
    (State.noting_names expected) ⟨rfl, rfl⟩

/-- A refusal is no success. -/
protected theorem refuse : Reads final records input refuse post := by
  intro state result after _ _ _ hrun
  exact (refuse_ne_ok hrun).elim

protected theorem nextIs (kind : Kind) :
    Reads final records input (nextIs kind) fun found taken rest =>
      taken = [] ∧ rest = input ∧ (found = true ↔ Next kind input) := by
  unfold Parse.nextIs
  refine .bind .peek fun token taken rest hinput ⟨htaken, hrest, hshows⟩ => .pure ?_
  subst htaken hrest
  refine ⟨rfl, rfl, ?_⟩
  constructor
  · intro hfound
    exact ⟨token, hshows, by simpa using hfound⟩
  · rintro ⟨other, hother, hvariant⟩
    simpa [hshows.kind_unique hother] using hvariant

protected theorem accepts (kind : Kind) :
    Reads final records input (accepts kind) fun found taken rest =>
      taken = [] ∧ rest = input ∧ (found = true ↔ Next kind input) := by
  unfold Parse.accepts
  refine .bind (.nextIs kind) fun found taken rest _ ⟨htaken, hrest, hfound⟩ => ?_
  subst htaken hrest
  cases found with
  | true => exact .pure ⟨rfl, rfl, hfound⟩
  | false =>
      refine .bind (.want _) fun _ taken rest' _ ⟨htaken, hrest⟩ => .pure ?_
      subst htaken hrest
      exact ⟨rfl, rfl, hfound⟩

protected theorem takes {kind : Kind} (hfixed : kind.isFixed) :
    Reads final records input (takes kind) fun found taken rest =>
      (found = true ∧ ∃ token, taken = [token] ∧ input = .ok token :: rest ∧ token.kind = kind) ∨
        (found = false ∧ taken = [] ∧ rest = input ∧ ¬ Next kind input) := by
  unfold Parse.takes
  refine .bind (.accepts kind) fun found taken rest _ ⟨htaken, hrest, hfound⟩ => ?_
  subst htaken hrest
  cases found with
  | true =>
      obtain ⟨token, tail, rfl, hkind⟩ := (hfound.mp rfl).cons hfixed
      refine .bind (.advance (hkind ▸ Kind.isName_of_isFixed hfixed))
        fun result taken left _ ⟨hresult, htaken, hleft⟩ => .pure ?_
      subst hresult htaken hleft
      exact .inl ⟨rfl, _, rfl, rfl, hkind⟩
  | false => exact .pure (.inr ⟨rfl, rfl, rfl, fun h => by simpa using hfound.mpr h⟩)

protected theorem expect {kind : Kind} (hfixed : kind.isFixed) :
    Reads final records input (expect kind) fun token taken rest =>
      taken = [token] ∧ input = .ok token :: rest ∧ token.kind = kind := by
  unfold Parse.expect
  refine .bind (.accepts kind) fun found taken rest _ ⟨htaken, hrest, hfound⟩ => ?_
  subst htaken hrest
  cases found with
  | true =>
      obtain ⟨token, tail, rfl, hkind⟩ := (hfound.mp rfl).cons hfixed
      refine .mono (.advance (hkind ▸ Kind.isName_of_isFixed hfixed))
        fun result taken left _ ⟨hresult, htaken, hleft⟩ => ?_
      subst hresult htaken hleft
      exact ⟨rfl, rfl, hkind⟩
  | false => exact .refuse

protected theorem warn (lint : Lint) (span : Span) :
    Reads final records input (warn lint span) fun _ taken rest => taken = [] ∧ rest = input :=
  of_stay (fun _ => rfl) (fun _ => rfl) (fun _ => rfl) (fun _ => rfl) ⟨rfl, rfl⟩

/-- A name is one token, and its symbol stands for the text of that token. -/
protected theorem named :
    Reads final records input Grammar.ident fun ident taken rest =>
      ∃ token text, taken = [token] ∧ input = .ok token :: rest ∧
        token.kind = .name text ident.raw ∧ token.span = ident.span ∧
        final.text? ident.name = some text := by
  intro state ident after hinput hrecords hnames hrun
  unfold Grammar.ident at hrun
  obtain ⟨token, between, hpeek, hkind⟩ := bind_eq_ok_iff.mp hrun
  obtain ⟨hshown, rfl⟩ := peekAt_eq_ok_iff.mp hpeek
  obtain ⟨kind, span⟩ := token
  cases kind with
  | name text raw =>
    obtain ⟨rest, hrest⟩ := (Shows.of_lookahead hshown).cons (by simp)
    obtain ⟨taken, advanced, hadvance, hintern⟩ := bind_eq_ok_iff.mp hkind
    unfold Parse.advance at hadvance
    rw [hrest] at hadvance
    cases hadvance
    cases hintern
    subst hinput
    rw [hrest, Names.enter_name] at hnames
    have htext := Names.text?_intern ((Names.within_enter _ rest).trans hnames)
    exact ⟨[_], hrest, hrecords, rfl, _, text, rfl, hrest, rfl, rfl, htext⟩
  | _ =>
    obtain ⟨_, _, _, hrefuse⟩ := bind_eq_ok_iff.mp hkind
    exact (refuse_ne_ok hrefuse).elim

protected theorem ident :
    Reads final records input Grammar.ident fun ident taken rest =>
      ∃ token, taken = [token] ∧ input = .ok token :: rest ∧
        token.kind = .name (final.text ident.name) ident.raw ∧ token.span = ident.span := by
  refine Reads.named.mono ?_
  rintro ident taken rest - ⟨token, text, htaken, hinput, hkind, hspan, htext⟩
  refine ⟨token, htaken, hinput, ?_, hspan⟩
  rw [hkind, Names.text, htext]
  rfl

/-! ### What goes on after one step

The steps that tell what comes next branch the production, and each branch
starts with what its answer says about the input. -/

section Steps

variable {kind : Kind} {last : β → List Token → List Scan → Prop}

theorem bind_peekAt {ahead : Nat} {next : Token → Parse β}
    (h : ∀ token, Shows ahead input token → Reads final records input (next token) last) :
    Reads final records input (Parse.peekAt ahead >>= next) last := by
  refine .bind (.peekAt ahead) fun token taken rest _ ⟨htaken, hrest, hshows⟩ => ?_
  subst htaken hrest
  exact h token hshows

theorem bind_peek {next : Token → Parse β}
    (h : ∀ token, Shows 0 input token → Reads final records input (next token) last) :
    Reads final records input (Parse.peek >>= next) last :=
  bind_peekAt h

theorem bind_want {expected : Expected} {next : Unit → Parse β}
    (h : Reads final records input (next ()) last) :
    Reads final records input (Parse.want expected >>= next) last := by
  refine .bind (.want expected) fun _ taken rest _ ⟨htaken, hrest⟩ => ?_
  subst htaken hrest
  exact h

theorem bind_warn {lint : Lint} {span : Span} {next : Unit → Parse β}
    (h : Reads final records input (next ()) last) :
    Reads final records input (Parse.warn lint span >>= next) last := by
  refine .bind (.warn lint span) fun _ taken rest _ ⟨htaken, hrest⟩ => ?_
  subst htaken hrest
  exact h

theorem bind_nextIs {next : Bool → Parse β}
    (hyes : Next kind input → Reads final records input (next true) last)
    (hno : ¬ Next kind input → Reads final records input (next false) last) :
    Reads final records input (Parse.nextIs kind >>= next) last := by
  refine .bind (.nextIs kind) fun found taken rest _ ⟨htaken, hrest, hfound⟩ => ?_
  subst htaken hrest
  cases found with
  | true => exact hyes (hfound.mp rfl)
  | false => exact hno fun h => by simpa using hfound.mpr h

theorem bind_accepts {next : Bool → Parse β}
    (hyes : Next kind input → Reads final records input (next true) last)
    (hno : ¬ Next kind input → Reads final records input (next false) last) :
    Reads final records input (Parse.accepts kind >>= next) last := by
  refine .bind (.accepts kind) fun found taken rest _ ⟨htaken, hrest, hfound⟩ => ?_
  subst htaken hrest
  cases found with
  | true => exact hyes (hfound.mp rfl)
  | false => exact hno fun h => by simpa using hfound.mpr h

theorem bind_takes {next : Bool → Parse β} (hfixed : kind.isFixed)
    (hyes : ∀ token rest, input = .ok token :: rest → token.kind = kind →
      Reads final records rest (next true) fun value more => last value (token :: more))
    (hno : ¬ Next kind input → Reads final records input (next false) last) :
    Reads final records input (Parse.takes kind >>= next) last := by
  refine .bind (.takes hfixed) fun found taken rest _ htakes => ?_
  rcases htakes with ⟨rfl, token, rfl, hinput, hkind⟩ | ⟨rfl, rfl, rfl, hnext⟩
  · exact hyes token rest hinput hkind
  · exact hno hnext

theorem bind_expect {next : Token → Parse β} (hfixed : kind.isFixed)
    (h : ∀ token rest, input = .ok token :: rest → token.kind = kind →
      Reads final records rest (next token) fun value more => last value (token :: more)) :
    Reads final records input (Parse.expect kind >>= next) last := by
  refine .bind (.expect hfixed) fun token taken rest _ ⟨htaken, hinput, hkind⟩ => ?_
  subst htaken
  exact h token rest hinput hkind

/-- Reading off the state tells whether braces open records. -/
theorem bind_get {next : State → Parse β}
    (h : ∀ state, state.context.records = records → Reads final records input (next state) last) :
    Reads final records input (get >>= next) last :=
  fun state result after hinput hrecords hnames hrun =>
    h state hrecords state result after hinput hrecords hnames hrun

/-- Taking a token that is known to come next. -/
theorem bind_advance {next : Token → Parse β} (hnext : Next kind input) (hfixed : kind.isFixed)
    (h : ∀ token rest, input = .ok token :: rest → token.kind = kind →
      Reads final records rest (next token) fun value more => last value (token :: more)) :
    Reads final records input (Parse.advance >>= next) last := by
  obtain ⟨token, rest, rfl, hkind⟩ := hnext.cons hfixed
  refine .bind (.advance (hkind ▸ Kind.isName_of_isFixed hfixed)) ?_
  rintro result taken left _ ⟨rfl, rfl, rfl⟩
  exact h _ _ rfl hkind

end Steps

protected theorem withRecords {allowed : Bool} {production : Parse α}
    (h : Reads final allowed input production post) :
    Reads final records input (withRecords allowed production) post := by
  intro state result after hinput hrecords hnames hrun
  unfold Parse.withRecords within at hrun
  split at hrun
  next value inner hinner =>
    cases hrun
    obtain ⟨taken, htaken, _, htable, hpost⟩ :=
      h { state with context := (Change.records allowed).enter state.context } result inner hinput
        rfl hnames hinner
    exact ⟨taken, htaken, hrecords, htable, hpost⟩
  next => cases hrun

protected theorem nested {production : Parse α} (h : Reads final records input production post) :
    Reads final records input (nested production) post := by
  intro state result after hinput hrecords hnames hrun
  rw [nested_eq] at hrun
  split at hrun
  next =>
    obtain ⟨_, _, _, hthrow⟩ := bind_eq_ok_iff.mp hrun
    cases hthrow
  next =>
    unfold within at hrun
    split at hrun
    next value inner hinner =>
      cases hrun
      obtain ⟨taken, htaken, hinside, htable, hpost⟩ :=
        h { state with context := Change.level.enter state.context } result inner hinput hrecords
          hnames hinner
      exact ⟨taken, htaken, hinside, htable, hpost⟩
    next => cases hrun

protected theorem bounded {production : Nat → Parse α}
    (h : ∀ most, Reads final records input (production most) post) :
    Reads final records input (bounded production) post :=
  fun state => h (state.input.scans.length + 1) state

/-- What a round of a loop keeps when the rounds before it have taken the given
tokens. -/
@[simp] def Keeps (invariant : α → List Token → List Scan → Prop)
    (last : β → List Token → List Scan → Prop) (taken : List Token) :
    Round α β → List Token → List Scan → Prop
  | .more value, more, rest => invariant value (taken ++ more) rest
  | .done result, more, rest => last result (taken ++ more) rest

/-- A loop keeps what every round keeps. The invariant speaks of all tokens that
the rounds so far have taken. -/
protected theorem repeated {round : α → Parse (Round α β)} {first : α}
    {last : β → List Token → List Scan → Prop} (invariant : α → List Token → List Scan → Prop)
    (hfirst : invariant first [] input)
    (hround : ∀ value taken rest, invariant value taken rest →
      Reads final records rest (round value) (Keeps invariant last taken)) :
    Reads final records input (repeated round first) last := by
  suffices ∀ most value taken rest, invariant value taken rest →
      Reads final records rest (rounds round most value) fun result more =>
        last result (taken ++ more) from
    .bounded fun most => this most first [] input hfirst
  intro most
  induction most with
  | zero => exact fun _ _ _ _ => .refuse
  | succ most ih =>
      intro value taken rest hinvariant
      unfold rounds
      refine .bind (hround value taken rest hinvariant) fun result more rest' _ hresult => ?_
      cases result with
      | more value =>
          refine (ih value (taken ++ more) rest' hresult).mono fun result further rest _ hlast => ?_
          rwa [← List.append_assoc]
      | done result => exact .pure (by simpa using hresult)

end Reads

end Parse

end FilterScript
