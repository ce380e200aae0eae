import FilterScript.Proofs.Steady

/-!
# Getting past a place

A run that starts in front of a place in its source gets past the place, unless
it fails right there for an unexpected token. `Passes` says so of every run of a
production that starts there, with known tokens in between. A production that
takes the token at the place passes it, whatever it does later, because
productions only go forward.
-/

namespace FilterScript

namespace Stream

/-- The input while these tokens are still to come in front of a place. -/
def before (place : Stream) (ahead : List Token) : Stream :=
  ⟨ahead.map .ok ++ place.scans, place.length⟩

@[simp] theorem before_nil (place : Stream) : place.before [] = place := rfl

theorem lookahead_go_congr {stream other : Stream} (h : stream.length = other.length)
    (scans : List Scan) (ahead : Nat) :
    lookahead.go stream scans ahead = lookahead.go other scans ahead := by
  induction scans generalizing ahead with
  | nil => rw [lookahead.go, lookahead.go, h]
  | cons scan rest ih =>
      cases scan with
      | error flaw => rfl
      | ok token =>
          cases ahead with
          | zero => rfl
          | succ ahead => exact ih ahead

@[simp] theorem lookahead_zero (place : Stream) (token : Token) (ahead : List Token) :
    (place.before (token :: ahead)).lookahead 0 = .ok token := rfl

@[simp] theorem lookahead_succ (place : Stream) (token : Token) (ahead : List Token)
    (distance : Nat) :
    (place.before (token :: ahead)).lookahead (distance + 1) =
      (place.before ahead).lookahead distance := by
  change lookahead.go (place.before (token :: ahead)) (ahead.map .ok ++ place.scans) distance =
    lookahead.go (place.before ahead) (ahead.map .ok ++ place.scans) distance
  apply lookahead_go_congr
  rfl

theorem lookahead_error {stream : Stream} {flaw : Flaw} {rest : List Scan}
    (h : stream.scans = .error flaw :: rest) (ahead : Nat) :
    stream.lookahead ahead = .error flaw := by
  unfold lookahead
  rw [h]
  cases ahead <;> rfl

theorem lookahead_nil {stream : Stream} (h : stream.scans = []) (ahead : Nat) :
    stream.lookahead ahead = .ok (Token.atEnd stream.length) := by
  unfold lookahead
  rw [h]
  cases ahead <;> rfl

/-- A token that is shown stands in the input, unless it is the end. -/
theorem scans_of_lookahead {stream : Stream} {token : Token} (h : stream.lookahead 0 = .ok token)
    (hend : token.kind ≠ .endOfFile) : ∃ rest, stream.scans = .ok token :: rest :=
  (Shows.of_lookahead h).cons hend

/-- Further on in the same source, with at least one scan taken. -/
structure Beyond (later place : Stream) : Prop where
  scans : later.scans <:+ place.scans
  shorter : later.scans.length < place.scans.length
  length : later.length = place.length

theorem Beyond.trans {last later place : Stream} (h : later.Beyond place)
    (hscans : last.scans <:+ later.scans) (hlength : last.length = later.length) :
    last.Beyond place :=
  ⟨hscans.trans h.scans, Nat.lt_of_le_of_lt hscans.length_le h.shorter, hlength.trans h.length⟩

end Stream

/-- A run that got past a place: it succeeded beyond it, or failed beyond it or
for another reason than an unexpected token. It may also have succeeded right
there, if what comes next is where its result has to stop. -/
inductive Passed {α : Type} (place : Stream) (stop : α → Kind → Prop) :
    EStateM.Result Fault State α → Prop
  | beyond {result : α} {after : State} (h : after.input.Beyond place) :
      Passed place stop (.ok result after)
  | stopped {result : α} {after : State} {token : Token} (hinput : after.input = place)
      (hshown : place.lookahead 0 = .ok token) (hstop : stop result token.kind) :
      Passed place stop (.ok result after)
  | late {fault : Fault} {after : State} {later : Stream} (hlater : later.Beyond place)
      (hat : fault.At later) : Passed place stop (.error fault after)
  | other {fault : Fault} {after : State}
      (h : ∀ found expected, fault.cause ≠ .unexpected found expected) :
      Passed place stop (.error fault after)

/-- No result has to stop. -/
def Never {α : Type} : α → Kind → Prop := fun _ _ => False

/-- Every result has to stop in front of this token. -/
def StopsAt {α : Type} (kind : Kind) : α → Kind → Prop := fun _ found => found = kind

namespace Passed

open Parse

variable {α β : Type} {place : Stream} {stop : α → Kind → Prop} {stop' : β → Kind → Prop}

/-- What got past a place stays past it, whatever comes next. -/
theorem bind {production : Parse α} {next : α → Parse β} [∀ result, Steady (next result)]
    {state : State} (h : Passed place stop (production state))
    (hstop : ∀ result after token, after.input = place → place.lookahead 0 = .ok token →
      stop result token.kind → Passed place stop' (next result after)) :
    Passed place stop' ((production >>= next) state) := by
  cases hrun : production state with
  | ok result between =>
      rw [hrun] at h
      rw [bind_eq_of_ok hrun]
      cases h with
      | stopped hinput hshown hresult => exact hstop _ _ _ hinput hshown hresult
      | beyond hbeyond =>
          cases hnext : next result between with
          | ok last after =>
              have hfollows := Steady.follows hnext
              exact .beyond (hbeyond.trans hfollows.scans hfollows.length)
          | error fault after =>
              obtain ⟨rest, hrest, hat⟩ := Steady.fault hnext
              have hlater : Stream.Beyond ⟨rest, between.input.length⟩ place :=
                hbeyond.trans hrest rfl
              exact .late hlater hat
  | error fault after =>
      rw [hrun] at h
      rw [bind_eq_of_error hrun]
      cases h with
      | late hlater hat => exact .late hlater hat
      | other hcause => exact .other hcause

theorem within {change : Change} {production : Parse α} {state : State}
    (h : Passed place stop (production { state with context := change.enter state.context })) :
    Passed place stop (within change production state) := by
  unfold Parse.within
  split
  next hrun =>
    rw [hrun] at h
    cases h with
    | beyond hbeyond => exact .beyond hbeyond
    | stopped hinput hshown hresult => exact .stopped hinput hshown hresult
  next hrun =>
    rw [hrun] at h
    cases h with
    | late hlater hat => exact .late hlater hat
    | other hcause => exact .other hcause

end Passed

namespace Parse

variable {α β : Type}

section Questions

variable {yes no : Parse β}

theorem nextIs_bind (kind : Kind) (next : Bool → Parse β) :
    nextIs kind >>= next = peek >>= fun token => next (token.kind.variant == kind.variant) := by
  unfold nextIs
  rw [bind_assoc]
  simp only [pure_bind]

/-- Going on with an answer is going on by cases. -/
theorem bind_eq_if (ask : Parse Bool) (next : Bool → Parse β) :
    ask >>= next = (do if ← ask then next true else next false) := by
  refine congrArg (ask >>= ·) (funext fun answer => ?_)
  cases answer <;> rfl

theorem if_accepts_eq (kind : Kind) :
    (do if ← accepts kind then yes else no) =
      (do if ← nextIs kind then yes else (do want (.token kind); no)) := by
  unfold accepts
  rw [bind_assoc]
  refine congrArg (nextIs kind >>= ·) (funext fun found => ?_)
  cases found with
  | true => rfl
  | false => exact bind_assoc _ _ _

theorem if_takes_eq (kind : Kind) :
    (do if ← takes kind then yes else no) =
      (do if ← accepts kind then (do let _ ← advance; yes) else no) := by
  unfold takes
  rw [bind_assoc]
  refine congrArg (accepts kind >>= ·) (funext fun found => ?_)
  cases found with
  | true => exact bind_assoc _ _ _
  | false => rfl

theorem expect_bind (kind : Kind) (next : Token → Parse β) :
    expect kind >>= next = (do if ← accepts kind then advance >>= next else refuse >>= next) := by
  unfold expect
  rw [bind_assoc]
  refine congrArg (accepts kind >>= ·) (funext fun found => ?_)
  cases found <;> rfl

end Questions

theorem peekAt_eq_error {distance : Nat} {state : State} {flaw : Flaw}
    (h : state.input.lookahead distance = .error flaw) :
    peekAt distance state = .error flaw.toFault state := by
  unfold peekAt
  rw [h]

/-- What a loop does after a round. -/
def resume (round : α → Parse (Round α β)) (most : Nat) : Round α β → Parse β
  | .more value => rounds round most value
  | .done result => pure result

theorem rounds_succ (round : α → Parse (Round α β)) (most : Nat) (value : α) :
    rounds round (most + 1) value = round value >>= resume round most := by
  unfold rounds
  refine congrArg (round value >>= ·) (funext fun result => ?_)
  cases result <;> rfl

instance (round : α → Parse (Round α β)) [∀ value, Steady (round value)] (most : Nat)
    (result : Round α β) : Steady (resume round most result) := by
  cases result <;> unfold resume <;> infer_instance

/-- Every run of the production gets past the place if it starts in front of it,
with these tokens in between and with braces opening records or not as told. -/
def Passes (place : Stream) (ahead : List Token) (records : Bool) (production : Parse α)
    (stop : α → Kind → Prop) : Prop :=
  ∀ state, state.input = place.before ahead → state.context.records = records →
    Passed place stop (production state)

namespace Passes

variable {place : Stream} {ahead : List Token} {token : Token} {records : Bool} {kind : Kind}
  {stop : α → Kind → Prop} {stop' : β → Kind → Prop}

protected theorem pure {result : α} (hshown : place.lookahead 0 = .ok token)
    (hstop : stop result token.kind) : Passes place [] records (pure result) stop :=
  fun _ hinput _ => .stopped hinput hshown hstop

protected theorem bind {production : Parse α} {next : α → Parse β}
    [∀ result, Steady (next result)] (h : Passes place ahead records production stop)
    (hstop : ∀ result token, place.lookahead 0 = .ok token → stop result token.kind →
      ∀ records, Passes place [] records (next result) stop') :
    Passes place ahead records (production >>= next) stop' := by
  intro state hinput hrecords
  apply (h state hinput hrecords).bind
  intro result after token hafter hshown hresult
  exact hstop result token hshown hresult _ after hafter rfl

/-- Once past the place, anything may follow. -/
theorem bind_any {production : Parse α} {next : α → Parse β} [∀ result, Steady (next result)]
    (h : Passes place ahead records production Never) :
    Passes place ahead records (production >>= next) stop' :=
  h.bind fun _ _ _ hresult => hresult.elim

theorem bind_peekAt {distance : Nat} {next : Token → Parse β}
    (h : ∀ token, (place.before ahead).lookahead distance = .ok token →
      Passes place ahead records (next token) stop') :
    Passes place ahead records (peekAt distance >>= next) stop' := by
  intro state hinput hrecords
  cases hshown : state.input.lookahead distance with
  | ok token =>
      rw [bind_eq_of_ok (peekAt_eq_ok_iff.mpr ⟨hshown, rfl⟩)]
      exact h token (hinput ▸ hshown) state hinput hrecords
  | error flaw =>
      rw [bind_eq_of_error (peekAt_eq_error hshown)]
      apply Passed.other
      intro _ _ hcause
      cases hcause

theorem bind_peek {next : Token → Parse β}
    (hshown : (place.before ahead).lookahead 0 = .ok token)
    (h : Passes place ahead records (next token) stop') :
    Passes place ahead records (peek >>= next) stop' := by
  apply bind_peekAt
  intro other hother
  obtain rfl : token = other := Except.ok.inj (hshown.symm.trans hother)
  exact h

theorem bind_want {expected : Expected} {next : Unit → Parse β}
    (h : Passes place ahead records (next ()) stop') :
    Passes place ahead records (want expected >>= next) stop' := by
  intro state hinput hrecords
  rw [bind_eq_of_ok (want_eq expected state)]
  apply h
  · exact (State.noting_input expected state).trans hinput
  · exact (congrArg Context.records (State.noting_context expected state)).trans hrecords

theorem bind_get {next : State → Parse β}
    (h : ∀ state, state.context.records = records → Passes place ahead records (next state) stop') :
    Passes place ahead records (get >>= next) stop' :=
  fun state hinput hrecords => h state hrecords state hinput hrecords

theorem bind_intern {text : String} {next : Symbol → Parse β}
    (h : ∀ symbol, Passes place ahead records (next symbol) stop') :
    Passes place ahead records (intern text >>= next) stop' :=
  fun state hinput hrecords =>
    h _ { state with names := (state.names.intern text).2 } hinput hrecords

/-- Taking a token in front of the place. -/
theorem bind_advance {next : Token → Parse β} (h : Passes place ahead records (next token) stop') :
    Passes place (token :: ahead) records (advance >>= next) stop' := by
  intro state hinput hrecords
  have hrun : advance state = .ok token
      { state with input := place.before ahead, expected := [] } := by
    unfold advance
    rw [hinput]
    rfl
  rw [bind_eq_of_ok hrun]
  exact h _ rfl hrecords

/-- Taking the token at the place. -/
protected theorem advance (hshown : place.lookahead 0 = .ok token)
    (hend : token.kind ≠ .endOfFile) : Passes place [] records advance Never := by
  intro state hinput _
  obtain ⟨rest, hscans⟩ := Stream.scans_of_lookahead hshown hend
  have hrun : advance state = .ok token
      { state with input := ⟨rest, place.length⟩, expected := [] } := by
    unfold advance
    rw [hinput, Stream.before_nil, hscans]
  rw [hrun]
  exact .beyond ⟨by simp [hscans], by simp [hscans], rfl⟩

section Questions

variable {yes no : Parse β}

theorem if_nextIs (hshown : (place.before ahead).lookahead 0 = .ok token) (hkind : token.kind = kind)
    (h : Passes place ahead records yes stop') :
    Passes place ahead records (do if ← nextIs kind then yes else no) stop' := by
  rw [nextIs_bind]
  apply bind_peek hshown
  rwa [hkind, beq_self_eq_true]

theorem if_nextIs_not (hshown : (place.before ahead).lookahead 0 = .ok token)
    (hkind : (token.kind.variant == kind.variant) = false)
    (h : Passes place ahead records no stop') :
    Passes place ahead records (do if ← nextIs kind then yes else no) stop' := by
  rw [nextIs_bind]
  apply bind_peek hshown
  rwa [hkind]

theorem if_accepts (hshown : (place.before ahead).lookahead 0 = .ok token) (hkind : token.kind = kind)
    (h : Passes place ahead records yes stop') :
    Passes place ahead records (do if ← accepts kind then yes else no) stop' := by
  rw [if_accepts_eq]
  exact if_nextIs hshown hkind h

theorem if_accepts_not (hshown : (place.before ahead).lookahead 0 = .ok token)
    (hkind : (token.kind.variant == kind.variant) = false)
    (h : Passes place ahead records no stop') :
    Passes place ahead records (do if ← accepts kind then yes else no) stop' := by
  rw [if_accepts_eq]
  exact if_nextIs_not hshown hkind (bind_want h)

/-- The token at the place is taken. -/
theorem if_takes [Steady yes] (hshown : place.lookahead 0 = .ok token) (hend : kind ≠ .endOfFile)
    (hkind : token.kind = kind) :
    Passes place [] records (do if ← takes kind then yes else no) stop' := by
  rw [if_takes_eq]
  refine if_accepts hshown hkind ?_
  exact bind_any (.advance hshown (hkind ▸ hend))

theorem if_takes_not (hshown : (place.before ahead).lookahead 0 = .ok token)
    (hkind : (token.kind.variant == kind.variant) = false)
    (h : Passes place ahead records no stop') :
    Passes place ahead records (do if ← takes kind then yes else no) stop' := by
  rw [if_takes_eq]
  exact if_accepts_not hshown hkind h

end Questions

/-- The expected token is taken in front of the place. -/
theorem bind_expect {next : Token → Parse β} (hkind : token.kind = kind)
    (h : Passes place ahead records (next token) stop') :
    Passes place (token :: ahead) records (expect kind >>= next) stop' := by
  rw [expect_bind]
  exact if_accepts (Stream.lookahead_zero _ _ _) hkind (bind_advance h)

/-- The expected token is the one at the place. -/
protected theorem expect (hshown : place.lookahead 0 = .ok token) (hend : kind ≠ .endOfFile)
    (hkind : token.kind = kind) : Passes place [] records (expect kind) Never := by
  unfold Parse.expect
  refine if_accepts hshown hkind ?_
  exact Passes.advance hshown (hkind ▸ hend)

protected theorem withRecords {allowed : Bool} {production : Parse α}
    (h : Passes place ahead allowed production stop) :
    Passes place ahead records (withRecords allowed production) stop :=
  fun _ hinput _ => .within (h _ hinput rfl)

protected theorem nested {production : Parse α} (h : Passes place ahead records production stop) :
    Passes place ahead records (nested production) stop := by
  intro state hinput hrecords
  rw [nested_eq]
  split
  next limit _ =>
    have hthrow : Passes place ahead records
        (do let token ← peek; throw ⟨.tooDeep limit, token.span⟩ : Parse α) stop := by
      apply bind_peekAt
      intro token _ state _ _
      apply Passed.other
      intro _ _ hcause
      cases hcause
    exact hthrow state hinput hrecords
  next => exact .within (h _ hinput hrecords)

/-- There is always a bound to run with. -/
protected theorem bounded {production : Nat → Parse α}
    (h : ∀ most, 0 < most → Passes place ahead records (production most) stop) :
    Passes place ahead records (bounded production) stop :=
  fun state hinput hrecords => h _ (Nat.succ_pos _) state hinput hrecords

/-- A loop gets past the place if its first round does. It may stop there only
where the round is the last one. -/
protected theorem rounds {round : α → Parse (Round α β)} {most : Nat} {value : α}
    [∀ value, Steady (round value)] (hmost : 0 < most)
    (h : Passes place ahead records (round value) fun result found =>
      ∃ last, result = .done last ∧ stop' last found) :
    Passes place ahead records (rounds round most value) stop' := by
  obtain ⟨less, rfl⟩ : ∃ less, most = less + 1 := ⟨most - 1, by omega⟩
  rw [rounds_succ]
  apply Passes.bind h
  rintro _ token hshown ⟨last, rfl, hlast⟩ _
  exact .pure hshown hlast

protected theorem repeated {round : α → Parse (Round α β)} {value : α}
    [∀ value, Steady (round value)]
    (h : Passes place ahead records (round value) fun result found =>
      ∃ last, result = .done last ∧ stop' last found) :
    Passes place ahead records (repeated round value) stop' := by
  apply Passes.bounded
  intro most hmost
  exact .rounds hmost h

/-- Where a result may stop is only ever weakened. -/
theorem mono {production : Parse α} {weaker : α → Kind → Prop}
    (h : Passes place ahead records production stop)
    (himp : ∀ result found, stop result found → weaker result found) :
    Passes place ahead records production weaker := by
  intro state hinput hrecords
  cases hrun : production state with
  | ok result after =>
      have hpassed := hrun ▸ h state hinput hrecords
      cases hpassed with
      | beyond hbeyond => exact .beyond hbeyond
      | stopped hinput hshown hstop => exact .stopped hinput hshown (himp _ _ hstop)
  | error fault after =>
      have hpassed := hrun ▸ h state hinput hrecords
      cases hpassed with
      | late hlater hat => exact .late hlater hat
      | other hcause => exact .other hcause

/-- What gets past the place without stopping there does so anyway. -/
theorem of_never {production : Parse α} (h : Passes place ahead records production Never) :
    Passes place ahead records production stop :=
  h.mono fun _ _ hnever => hnever.elim

end Passes

end Parse

end FilterScript
