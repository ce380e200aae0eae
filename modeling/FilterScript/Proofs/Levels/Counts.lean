import FilterScript.Proofs.Reads
import FilterScript.Proofs.Scanning

/-!
# How many levels a production opens

A production is run twice from one state, without a limit and with one. `Counts`
says how many levels the run without a limit opens, and that this number settles
the other run: where the limit leaves room for it both do the same, and elsewhere
the limited one stops at a token that is too deep, no later than the first one
ends.
-/

namespace FilterScript

namespace State

/-- The state with a limit put in. -/
def limited (limit : Nat) (state : State) : State :=
  { state with limit := some limit }

/-- Where the next token starts. -/
def front (state : State) : Nat :=
  match state.input.scans with
  | [] => state.input.length
  | scan :: _ => Scan.start scan

/-- A state that a successful run leads to: some of the input has been taken, and
nothing else of what limits parsing has changed. -/
structure Follows (after before : State) : Prop where
  scans : after.input.scans <:+ before.input.scans
  length : after.input.length = before.input.length
  context : after.context = before.context
  limit : after.limit = before.limit

namespace Follows

variable {first second third before after : State}

theorem refl (state : State) : state.Follows state :=
  ⟨List.suffix_refl _, rfl, rfl, rfl⟩

theorem trans (h : third.Follows second) (h' : second.Follows first) : third.Follows first :=
  ⟨h.scans.trans h'.scans, h.length.trans h'.length, h.context.trans h'.context,
    h.limit.trans h'.limit⟩

/-- A change is undone where the production inside has come back to what it made. -/
theorem undo {change : Parse.Change}
    (h : after.Follows { before with context := change.enter before.context }) :
    { after with context := change.leave before.context after.context }.Follows before where
  scans := h.scans
  length := h.length
  context := by rw [h.context, change.back]
  limit := h.limit

theorem ordered (h : after.Follows before) (hordered : before.input.Ordered) :
    after.input.Ordered where
  sorted := hordered.sorted.sublist h.scans.sublist
  bounded scan hscan := h.length ▸ hordered.bounded scan (h.scans.subset hscan)

end Follows

/-- No scan of ordered input starts before the first one. -/
theorem front_le_start {state : State} (hordered : state.input.Ordered) {scan : Scan}
    (h : scan ∈ state.input.scans) : state.front ≤ Scan.start scan := by
  have hsorted := hordered.sorted
  unfold front
  cases hscans : state.input.scans with
  | nil => simp [hscans] at h
  | cons first rest =>
      rw [hscans] at h hsorted
      rcases List.mem_cons.mp h with rfl | h
      · exact Nat.le_refl _
      · exact (List.pairwise_cons.mp hsorted).1 scan h

theorem front_le_length {state : State} (hordered : state.input.Ordered) :
    state.front ≤ state.input.length := by
  unfold front
  split
  next => exact Nat.le_refl _
  next scan rest hscans => exact hordered.bounded scan (by simp [hscans])

theorem Follows.front_le {before after : State} (h : after.Follows before)
    (hordered : before.input.Ordered) : before.front ≤ after.front := by
  cases hscans : after.input.scans with
  | nil =>
      have hfront : after.front = before.input.length := by simp [front, hscans, h.length]
      exact hfront ▸ front_le_length hordered
  | cons scan rest =>
      have hfront : after.front = Scan.start scan := by simp [front, hscans]
      exact hfront ▸ front_le_start hordered (h.scans.subset (by simp [hscans]))

end State

/-- The flaw that stops looking ahead is one of the input. -/
theorem Stream.mem_of_lookahead {stream : Stream} {ahead : Nat} {flaw : Flaw}
    (h : stream.lookahead ahead = .error flaw) : .error flaw ∈ stream.scans := by
  suffices ∀ scans ahead, lookahead.go stream scans ahead = .error flaw → .error flaw ∈ scans from
    this _ _ h
  intro scans
  induction scans with
  | nil =>
      intro _ hgo
      cases hgo
  | cons scan rest ih =>
      intro ahead hgo
      match scan, ahead, hgo with
      | .error _, _, hgo =>
          cases hgo
          exact List.mem_cons_self
      | .ok _, ahead + 1, hgo => exact List.mem_cons_of_mem _ (ih ahead hgo)

theorem State.front_of_lookahead {state : State} {token : Token}
    (h : state.input.lookahead 0 = .ok token) : token.span.start = state.front := by
  unfold Stream.lookahead at h
  unfold front
  match state.input.scans, h with
  | [], h =>
      cases h
      rfl
  | .ok first :: rest, h =>
      cases h
      rfl

namespace Parse

variable {α β : Type} {input : List Scan}

/-- The same outcome, with a limit in the last state. -/
def limitedResult (limit : Nat) : EStateM.Result Fault State α → EStateM.Result Fault State α
  | .ok result after => .ok result (after.limited limit)
  | .error fault after => .error fault (after.limited limit)

/-- A run that stopped at a token that is too deep, at this place or before. -/
def StoppedBy (limit place : Nat) : EStateM.Result Fault State α → Prop
  | .ok _ _ => False
  | .error fault _ => fault.cause = .tooDeep limit ∧ fault.span.start ≤ place

theorem StoppedBy.mono {limit place later : Nat} {result : EStateM.Result Fault State α}
    (h : StoppedBy limit place result) (hle : place ≤ later) : StoppedBy limit later result := by
  cases result with
  | ok => exact h
  | error fault after => exact ⟨h.1, Nat.le_trans h.2 hle⟩

theorem bind_eq_of_ok {production : Parse α} {next : α → Parse β} {state between : State}
    {result : α} (h : production state = .ok result between) :
    (production >>= next) state = next result between := by
  change EStateM.bind production next state = _
  unfold EStateM.bind
  rw [h]

theorem bind_eq_of_error {production : Parse α} {next : α → Parse β} {state after : State}
    {fault : Fault} (h : production state = .error fault after) :
    (production >>= next) state = .error fault after := by
  change EStateM.bind production next state = _
  unfold EStateM.bind
  rw [h]

section Questions

variable {state : State} {token : Token} {kind : Kind}

theorem peek_eq (h : state.input.lookahead 0 = .ok token) : peek state = .ok token state :=
  peekAt_eq_ok_iff.mpr ⟨h, rfl⟩

theorem nextIs_eq (h : state.input.lookahead 0 = .ok token) :
    nextIs kind state = .ok (token.kind.variant == kind.variant) state :=
  bind_eq_of_ok (peek_eq h)

theorem accepts_eq_true (h : state.input.lookahead 0 = .ok token)
    (hkind : (token.kind.variant == kind.variant) = true) : accepts kind state = .ok true state := by
  unfold accepts
  rw [bind_eq_of_ok (nextIs_eq h), hkind]
  rfl

/-- A token that could have come next is noted. -/
theorem accepts_eq_false (h : state.input.lookahead 0 = .ok token)
    (hkind : (token.kind.variant == kind.variant) = false) :
    accepts kind state = .ok false (state.noting (.token kind)) := by
  unfold accepts
  rw [bind_eq_of_ok (nextIs_eq h), hkind]
  rfl

theorem takes_eq_false (h : state.input.lookahead 0 = .ok token)
    (hkind : (token.kind.variant == kind.variant) = false) :
    takes kind state = .ok false (state.noting (.token kind)) := by
  unfold takes
  rw [bind_eq_of_ok (accepts_eq_false h hkind)]
  rfl

end Questions

theorem StoppedBy.bind {production : Parse α} {next : α → Parse β} {state : State}
    {limit place : Nat} (h : StoppedBy limit place (production state)) :
    StoppedBy limit place ((production >>= next) state) := by
  cases hrun : production state with
  | ok result after =>
      rw [hrun] at h
      exact h.elim
  | error fault after =>
      rw [hrun] at h
      rw [bind_eq_of_error hrun]
      exact h

/-! ## Productions that open no levels -/

/-- The production takes no notice of the limit, and if it fails, it does so at
the next token or behind it. -/
structure Plain (production : Parse α) : Prop where
  limited : ∀ limit state,
    production (state.limited limit) = limitedResult limit (production state)
  follows : ∀ {state result after}, production state = .ok result after → after.Follows state
  fault : ∀ {state fault after}, state.input.Ordered → production state = .error fault after →
    state.front ≤ fault.span.start

namespace Plain

protected theorem pure (result : α) : Plain (pure result) where
  limited _ _ := rfl
  follows h := by
    cases h
    exact .refl _
  fault _ h := by cases h

protected theorem bind {production : Parse α} {next : α → Parse β} (h : Plain production)
    (hnext : ∀ result, Plain (next result)) : Plain (production >>= next) where
  limited limit state := by
    have hlimited := h.limited limit state
    cases hrun : production state with
    | ok result between =>
        rw [hrun] at hlimited
        rw [bind_eq_of_ok hrun, bind_eq_of_ok hlimited, (hnext result).limited]
    | error fault after =>
        rw [hrun] at hlimited
        rw [bind_eq_of_error hrun, bind_eq_of_error hlimited]
        rfl
  follows hrun := by
    obtain ⟨result, between, hproduction, hrest⟩ := bind_eq_ok_iff.mp hrun
    exact ((hnext result).follows hrest).trans (h.follows hproduction)
  fault hordered hrun := by
    cases hproduction : production _ with
    | ok result between =>
        rw [bind_eq_of_ok hproduction] at hrun
        have hfollows := h.follows hproduction
        exact Nat.le_trans (hfollows.front_le hordered)
          ((hnext result).fault (hfollows.ordered hordered) hrun)
    | error fault after =>
        rw [bind_eq_of_error hproduction] at hrun
        cases hrun
        exact h.fault hordered hproduction

/-- A step that takes nothing and cannot fail. -/
theorem of_stay {production : Parse α} {result : α} {step : State → State}
    (hrun : ∀ state, production state = .ok result (step state))
    (hlimited : ∀ limit state, step (state.limited limit) = (step state).limited limit)
    (hfollows : ∀ state, (step state).Follows state) : Plain production where
  limited limit state := by rw [hrun, hrun, hlimited, limitedResult]
  follows h := by
    cases (hrun _).symm.trans h
    exact hfollows _
  fault _ h := by cases (hrun _).symm.trans h

protected theorem peekAt (ahead : Nat) : Plain (peekAt ahead) where
  limited limit state := by
    have hinput : (state.limited limit).input = state.input := rfl
    unfold Parse.peekAt
    rw [hinput]
    cases state.input.lookahead ahead <;> rfl
  follows h := by
    obtain ⟨_, rfl⟩ := peekAt_eq_ok_iff.mp h
    exact .refl _
  fault hordered h := by
    unfold Parse.peekAt at h
    split at h
    next => cases h
    next flaw hflaw =>
      cases h
      exact State.front_le_start hordered (Stream.mem_of_lookahead hflaw)

protected theorem peek : Plain peek :=
  .peekAt 0

protected theorem advance : Plain advance where
  limited limit state := by
    obtain ⟨⟨scans, length⟩, _, _, _, _, _⟩ := state
    match scans with
    | [] => rfl
    | .ok _ :: _ => rfl
    | .error _ :: _ => rfl
  follows {state _ _} h := by
    unfold Parse.advance at h
    split at h
    next token rest hscans =>
      cases h
      exact ⟨by simp [hscans], rfl, rfl, rfl⟩
    next => cases h
    next =>
      cases h
      exact ⟨List.suffix_refl _, rfl, rfl, rfl⟩
  fault {state _ _} hordered h := by
    unfold Parse.advance at h
    split at h
    next => cases h
    next flaw rest hscans =>
      cases h
      have hmem : .error flaw ∈ state.input.scans := by simp [hscans]
      exact State.front_le_start hordered hmem
    next => cases h

protected theorem want (expected : Expected) : Plain (want expected) := by
  refine of_stay (want_eq expected) (fun limit state => ?_) fun state => ?_
  · unfold State.noting
    change (if expected ∈ state.expected then _ else _) = _
    split <;> rfl
  · unfold State.noting
    split <;> exact ⟨List.suffix_refl _, rfl, rfl, rfl⟩

protected theorem warn (lint : Lint) (span : Span) : Plain (warn lint span) :=
  of_stay (fun _ => rfl) (fun _ _ => rfl) fun _ => ⟨List.suffix_refl _, rfl, rfl, rfl⟩

protected theorem intern (text : String) : Plain (intern text) where
  limited _ _ := rfl
  follows h := by
    cases h
    exact ⟨List.suffix_refl _, rfl, rfl, rfl⟩
  fault _ h := by cases h

/-- Reading the state, as long as the limit is not looked at. -/
protected theorem get {next : State → Parse α} (h : ∀ state, Plain (next state))
    (hlimited : ∀ limit state, next (state.limited limit) = next state) :
    Plain (get >>= next) where
  limited limit state := by
    change next (state.limited limit) (state.limited limit) = limitedResult limit (next state state)
    rw [hlimited, (h state).limited]
  follows {state _ _} hrun := (h state).follows hrun
  fault {state _ _} hordered hrun := (h state).fault hordered hrun

protected theorem refuse : Plain (refuse : Parse α) where
  limited limit state := by
    change (peek >>= _) _ = limitedResult limit ((peek >>= _) _)
    have hlimited := Plain.peek.limited limit state
    cases hpeek : peek state with
    | ok token between =>
        rw [hpeek] at hlimited
        rw [bind_eq_of_ok hpeek, bind_eq_of_ok hlimited]
        rfl
    | error fault after =>
        rw [hpeek] at hlimited
        rw [bind_eq_of_error hpeek, bind_eq_of_error hlimited]
        rfl
  follows h := (refuse_ne_ok h).elim
  fault {state _ _} hordered h := by
    change (peek >>= _) _ = _ at h
    cases hpeek : peek state with
    | ok token between =>
        rw [bind_eq_of_ok hpeek] at h
        obtain ⟨hshown, rfl⟩ := peekAt_eq_ok_iff.mp hpeek
        cases h
        exact Nat.le_of_eq (State.front_of_lookahead hshown).symm
    | error fault after =>
        rw [bind_eq_of_error hpeek] at h
        cases h
        exact Plain.peek.fault hordered hpeek

protected theorem nextIs (kind : Kind) : Plain (nextIs kind) :=
  Plain.peek.bind fun _ => .pure _

protected theorem accepts (kind : Kind) : Plain (accepts kind) :=
  (Plain.nextIs kind).bind fun found => by
    cases found
    · exact (Plain.want _).bind fun _ => .pure _
    · exact .pure _

protected theorem takes (kind : Kind) : Plain (takes kind) :=
  (Plain.accepts kind).bind fun found => by
    cases found
    · exact .pure _
    · exact Plain.advance.bind fun _ => .pure _

protected theorem expect (kind : Kind) : Plain (expect kind) :=
  (Plain.accepts kind).bind fun found => by
    cases found
    · exact .refuse
    · exact .advance

protected theorem ident : Plain Grammar.ident :=
  Plain.peek.bind fun token => by
    obtain ⟨kind, span⟩ := token
    cases kind
    case name => exact Plain.advance.bind fun _ => (Plain.intern _).bind fun _ => .pure _
    all_goals exact (Plain.want _).bind fun _ => .refuse

end Plain

/-! ## Productions that open levels -/

/-- What two runs from one state come to when so many levels are open: the run
without a limit opens as many more as the statement about its result says, and a
limit either leaves room for them or stops the other run before this one ends. -/
structure Counted (depth : Nat) (state : State) (production : Parse α)
    (post : α → Nat → Prop) : Prop where
  success : ∀ {result after}, production state = .ok result after → after.Follows state ∧
    ∃ levels, post result levels ∧ ∀ limit, depth ≤ limit →
      if depth + levels ≤ limit then
        production (state.limited limit) = .ok result (after.limited limit)
      else StoppedBy limit after.front (production (state.limited limit))
  failure : ∀ {fault after}, production state = .error fault after →
    state.front ≤ fault.span.start ∧ ∀ limit, depth ≤ limit →
      (∃ after, production (state.limited limit) = .error fault after) ∨
        StoppedBy limit fault.span.start (production (state.limited limit))

/-- From every state without a limit that has this input, the production opens as
many levels as the statement about its result says. -/
def Counts (input : List Scan) (production : Parse α) (post : α → Nat → Prop) : Prop :=
  ∀ state, state.input.scans = input → state.input.Ordered → state.limit = none →
    Counted state.context.depth state production post

theorem within_eq_ok_iff {change : Change} {production : Parse α}
    {state after : State} {result : α} :
    within change production state = .ok result after ↔
      ∃ inner,
        production { state with context := change.enter state.context } = .ok result inner ∧
        after = { inner with context := change.leave state.context inner.context } := by
  unfold within
  split
  next value inner hrun =>
    constructor
    · rintro ⟨⟩
      exact ⟨inner, hrun, rfl⟩
    · rintro ⟨_, h, rfl⟩
      cases hrun.symm.trans h
      rfl
  next fault inner hrun => simp [hrun]

theorem within_eq_error_iff {change : Change} {production : Parse α}
    {state after : State} {fault : Fault} :
    within change production state = .error fault after ↔
      ∃ inner,
        production { state with context := change.enter state.context } = .error fault inner ∧
        after = { inner with context := change.leave state.context inner.context } := by
  unfold within
  split
  next value inner hrun => simp [hrun]
  next fault inner hrun =>
    constructor
    · rintro ⟨⟩
      exact ⟨inner, hrun, rfl⟩
    · rintro ⟨_, h, rfl⟩
      cases hrun.symm.trans h
      rfl

theorem StoppedBy.within {change : Change} {production : Parse α}
    {limit place : Nat} (state : State)
    (h : StoppedBy limit place (production { state with context := change.enter state.context })) :
    StoppedBy limit place (within change production state) := by
  unfold Parse.within
  split
  next hrun => rwa [hrun] at h
  next hrun => rwa [hrun] at h

/-- Another context on the way changes nothing about the levels. -/
theorem Counted.within {change : Change} {production : Parse α}
    {post : α → Nat → Prop} {depth : Nat} {state : State}
    (h : Counted depth { state with context := change.enter state.context } production post) :
    Counted depth state (within change production) post := by
  constructor
  · intro result after hrun
    obtain ⟨inner, hinner, rfl⟩ := within_eq_ok_iff.mp hrun
    obtain ⟨hfollows, levels, hpost, hruns⟩ := h.success hinner
    refine ⟨hfollows.undo, levels, hpost, ?_⟩
    intro limit hdepth
    have hlimited := hruns limit hdepth
    split at hlimited
    next hroom =>
      rw [if_pos hroom]
      exact within_eq_ok_iff.mpr ⟨_, hlimited, rfl⟩
    next hroom =>
      rw [if_neg hroom]
      exact StoppedBy.within (state.limited limit) hlimited
  · intro fault after hrun
    obtain ⟨inner, hinner, rfl⟩ := within_eq_error_iff.mp hrun
    obtain ⟨hfault, hruns⟩ := h.failure hinner
    refine ⟨hfault, fun limit hdepth => (hruns limit hdepth).imp ?_ ?_⟩
    · exact fun ⟨after, hlimited⟩ => ⟨_, within_eq_error_iff.mpr ⟨after, hlimited, rfl⟩⟩
    · exact StoppedBy.within (state.limited limit)

namespace Counts

variable {post post' : α → Nat → Prop}

theorem mono {production : Parse α} (h : Counts input production post)
    (himp : ∀ result levels, post result levels → post' result levels) :
    Counts input production post' := by
  intro state hinput hordered hlimit
  obtain ⟨hsuccess, hfailure⟩ := h state hinput hordered hlimit
  refine ⟨fun hrun => ?_, hfailure⟩
  obtain ⟨hfollows, levels, hpost, hruns⟩ := hsuccess hrun
  exact ⟨hfollows, levels, himp _ _ hpost, hruns⟩

theorem of_plain {production : Parse α} (h : Plain production)
    (hpost : ∀ {state result after}, state.input.scans = input →
      production state = .ok result after → post result 0) : Counts input production post := by
  intro state hinput hordered hlimit
  constructor
  · intro result after hrun
    refine ⟨h.follows hrun, 0, hpost hinput hrun, fun limit hdepth => ?_⟩
    rw [if_pos (by omega), h.limited, hrun, limitedResult]
  · intro fault after hrun
    refine ⟨h.fault hordered hrun, fun limit hdepth => .inl ⟨after.limited limit, ?_⟩⟩
    rw [h.limited, hrun, limitedResult]

protected theorem pure {result : α} (h : post result 0) : Counts input (pure result) post :=
  of_plain (.pure result) fun _ hrun => by
    cases hrun
    exact h

protected theorem refuse : Counts input refuse post :=
  of_plain .refuse fun _ hrun => (refuse_ne_ok hrun).elim

/-- One production after another needs as many levels as the one of the two that
needs more. -/
protected theorem bind {production : Parse α} {next : α → Parse β} {last : β → Nat → Prop}
    (h : Counts input production post)
    (hnext : ∀ result levels rest, post result levels →
      Counts rest (next result) fun value more => last value (max levels more)) :
    Counts input (production >>= next) last := by
  intro state hinput hordered hlimit
  obtain ⟨hsuccess, hfailure⟩ := h state hinput hordered hlimit
  cases hrun : production state with
  | error fault after =>
      obtain ⟨hfault, hruns⟩ := hfailure hrun
      have hbind : (production >>= next) state = .error fault after := bind_eq_of_error hrun
      refine ⟨fun h => by simp [hbind] at h, fun h => ?_⟩
      cases hbind.symm.trans h
      refine ⟨hfault, fun limit hdepth => (hruns limit hdepth).imp ?_ StoppedBy.bind⟩
      exact fun ⟨after, hlimited⟩ => ⟨after, bind_eq_of_error hlimited⟩
  | ok result between =>
      obtain ⟨hfollows, levels, hpost, hruns⟩ := hsuccess hrun
      have hbetween := hfollows.ordered hordered
      have hfront := hfollows.front_le hordered
      obtain ⟨hsuccess', hfailure'⟩ := hnext result levels _ hpost between rfl hbetween
        (hfollows.limit.trans hlimit)
      rw [hfollows.context] at hsuccess' hfailure'
      have hbind : (production >>= next) state = next result between := bind_eq_of_ok hrun
      constructor
      · intro value after h
        obtain ⟨hafter, more, hlast, hruns'⟩ := hsuccess' (hbind.symm.trans h)
        refine ⟨hafter.trans hfollows, _, hlast, fun limit hdepth => ?_⟩
        have hfirst := hruns limit hdepth
        have hsecond := hruns' limit hdepth
        split at hfirst
        next hroom =>
          rw [bind_eq_of_ok hfirst]
          split at hsecond
          next => rwa [if_pos (by omega)]
          next => rwa [if_neg (by omega)]
        next =>
          rw [if_neg (by omega)]
          exact (hfirst.mono (hafter.front_le hbetween)).bind
      · intro fault after h
        obtain ⟨hfault, hruns'⟩ := hfailure' (hbind.symm.trans h)
        refine ⟨Nat.le_trans hfront hfault, fun limit hdepth => ?_⟩
        have hfirst := hruns limit hdepth
        split at hfirst
        next hroom =>
          rw [bind_eq_of_ok hfirst]
          exact hruns' limit hdepth
        next => exact .inr (hfirst.mono hfault).bind

/-- A step that opens no levels in front of a production. -/
theorem bind_plain {production : Parse α} {next : α → Parse β} {last : β → Nat → Prop}
    (h : Plain production) (hnext : ∀ result rest, Counts rest (next result) last) :
    Counts input (production >>= next) last := by
  have hplain : Counts input production fun _ levels => levels = 0 := of_plain h fun _ _ => rfl
  refine .bind hplain ?_
  rintro result _ rest rfl
  exact (hnext result rest).mono fun value levels hlast => by rwa [Nat.zero_max]

/-- What looking at the next token shows is known afterwards. -/
theorem bind_peek {next : Token → Parse β} {last : β → Nat → Prop}
    (h : ∀ token, Shows 0 input token → Counts input (next token) last) :
    Counts input (peek >>= next) last := by
  intro state hinput hordered hlimit
  cases hpeek : peek state with
  | ok token between =>
      obtain ⟨hshown, rfl⟩ := peekAt_eq_ok_iff.mp hpeek
      obtain ⟨hsuccess, hfailure⟩ :=
        h token (hinput ▸ .of_lookahead hshown) between hinput hordered hlimit
      have hlimited : ∀ limit,
          (peek >>= next) (between.limited limit) = next token (between.limited limit) :=
        fun limit => bind_eq_of_ok (by rw [Plain.peek.limited, hpeek, limitedResult])
      have hfree : (peek >>= next) between = next token between := bind_eq_of_ok hpeek
      simp only [← hlimited, ← hfree] at hsuccess hfailure
      exact ⟨hsuccess, hfailure⟩
  | error fault after =>
      have hbind : (peek >>= next) state = .error fault after := bind_eq_of_error hpeek
      refine ⟨fun hrun => by simp [hbind] at hrun, fun hrun => ?_⟩
      cases hbind.symm.trans hrun
      refine ⟨Plain.peek.fault hordered hpeek, fun limit _ => .inl ⟨after.limited limit, ?_⟩⟩
      exact bind_eq_of_error (by rw [Plain.peek.limited, hpeek, limitedResult])

protected theorem withRecords {allowed : Bool} {production : Parse α}
    (h : Counts input production post) : Counts input (withRecords allowed production) post := by
  intro state hinput hordered hlimit
  exact .within (h { state with context := (Change.records allowed).enter state.context } hinput
    hordered hlimit)

end Counts

/-- The production starts by looking at the next token: a flaw there is what it
fails with. -/
def Starts (production : Parse α) : Prop :=
  ∀ state flaw rest, state.input.scans = .error flaw :: rest →
    ∃ after, production state = .error flaw.toFault after

theorem Starts.peek : Starts peek := by
  intro state flaw rest hscans
  refine ⟨state, ?_⟩
  unfold Parse.peek peekAt Stream.lookahead
  rw [hscans]
  rfl

theorem Starts.bind {production : Parse α} {next : α → Parse β} (h : Starts production) :
    Starts (production >>= next) := by
  intro state flaw rest hscans
  obtain ⟨after, hrun⟩ := h state flaw rest hscans
  exact ⟨after, bind_eq_of_error hrun⟩

theorem Starts.expect (kind : Kind) : Starts (expect kind) :=
  .bind (.bind (.bind .peek))

/-- Where the limit is reached the next token is too deep, unless it is none. -/
theorem stops_of_reachedLimit (production : Parse α) {state : State} {limit : Nat}
    (hreached : state.reachedLimit? = some limit) :
    (∃ flaw rest, state.input.scans = .error flaw :: rest ∧
      nested production state = .error flaw.toFault state) ∨
    StoppedBy limit state.front (nested production state) := by
  have hnested : nested production state =
      (do let token ← peek; throw ⟨.tooDeep limit, token.span⟩ : Parse α) state := by
    rw [nested_eq, hreached]
  cases hpeek : peek state with
  | ok token between =>
      obtain ⟨hshown, rfl⟩ := peekAt_eq_ok_iff.mp hpeek
      rw [hnested, bind_eq_of_ok hpeek]
      exact .inr ⟨rfl, Nat.le_of_eq (State.front_of_lookahead hshown)⟩
  | error fault after =>
      rw [hnested, bind_eq_of_error hpeek]
      unfold Parse.peek peekAt Stream.lookahead at hpeek
      left
      match hscans : state.input.scans with
      | [] => simp [hscans, Stream.lookahead.go] at hpeek
      | .ok token :: rest => simp [hscans, Stream.lookahead.go] at hpeek
      | .error flaw :: rest =>
          rw [hscans] at hpeek
          cases hpeek
          exact ⟨flaw, rest, rfl, rfl⟩

/-- One level more than what stands inside it. At the limit the production is
not even started, and then it is the next token that is too deep. -/
protected theorem Counts.nested {production : Parse α} {post : α → Nat → Prop}
    (hstarts : Starts production)
    (h : Counts input production fun result levels => post result (levels + 1)) :
    Counts input (nested production) post := by
  intro state hinput hordered hlimit
  have hcounted : Counted (state.context.depth + 1) state (within .level production)
      fun result levels => post result (levels + 1) :=
    .within (h { state with context := Change.level.enter state.context } hinput hordered hlimit)
  obtain ⟨hsuccess, hfailure⟩ := hcounted
  have hfree : nested production state = within .level production state := by
    rw [nested_eq]
    simp [State.reachedLimit?, hlimit]
  have hbelow : ∀ limit, state.context.depth + 1 ≤ limit →
      nested production (state.limited limit) = within .level production (state.limited limit) := by
    intro limit hdepth
    have hreached : (state.limited limit).reachedLimit? = none :=
      Option.filter_eq_none_iff.mpr fun _ h => by
        cases h
        rw [decide_eq_true_eq]
        exact Nat.not_le.mpr hdepth
    rw [nested_eq, hreached]
  have hreached : (state.limited state.context.depth).reachedLimit? =
      some state.context.depth := by
    simp [State.reachedLimit?, State.limited]
  have hstopped := stops_of_reachedLimit production hreached
  rw [← hfree] at hsuccess hfailure
  constructor
  · intro result after hrun
    obtain ⟨hfollows, levels, hpost, hruns⟩ := hsuccess hrun
    refine ⟨hfollows, levels + 1, hpost, fun limit hdepth => ?_⟩
    rcases Nat.eq_or_lt_of_le hdepth with rfl | hdeeper
    · rw [if_neg (by omega)]
      refine hstopped.elim ?_ fun h => h.mono (hfollows.front_le hordered)
      rintro ⟨flaw, rest, hscans, -⟩
      obtain ⟨_, hflaw⟩ :=
        hstarts { state with context := Change.level.enter state.context } _ _ hscans
      rw [hfree] at hrun
      obtain ⟨_, hinner, _⟩ := within_eq_ok_iff.mp hrun
      cases hinner.symm.trans hflaw
    · have hlimited := hruns limit hdeeper
      rw [← hbelow limit hdeeper] at hlimited
      rwa [show state.context.depth + (levels + 1) = state.context.depth + 1 + levels by omega]
  · intro fault after hrun
    obtain ⟨hfault, hruns⟩ := hfailure hrun
    refine ⟨hfault, fun limit hdepth => ?_⟩
    rcases Nat.eq_or_lt_of_le hdepth with rfl | hdeeper
    · refine hstopped.elim ?_ fun h => .inr (h.mono hfault)
      rintro ⟨flaw, rest, hscans, hlimited⟩
      obtain ⟨_, hflaw⟩ :=
        hstarts { state with context := Change.level.enter state.context } _ _ hscans
      rw [hfree] at hrun
      obtain ⟨_, hinner, _⟩ := within_eq_error_iff.mp hrun
      cases hinner.symm.trans hflaw
      exact .inl ⟨_, hlimited⟩
    · rw [hbelow limit hdeeper]
      exact hruns limit hdeeper

namespace Counts

variable {post : α → Nat → Prop}

protected theorem bounded {production : Nat → Parse α}
    (h : ∀ most, Counts input (production most) post) : Counts input (bounded production) post := by
  rintro state rfl hordered hlimit
  obtain ⟨hsuccess, hfailure⟩ := h (state.input.scans.length + 1) state rfl hordered hlimit
  exact ⟨hsuccess, hfailure⟩

/-- What a round of a loop keeps when the rounds before it have opened so many
levels. -/
@[simp] def Keeps (invariant : α → Nat → Prop) (last : β → Nat → Prop) (levels : Nat) :
    Round α β → Nat → Prop
  | .more value, more => invariant value (max levels more)
  | .done result, more => last result (max levels more)

/-- A loop keeps what every round keeps. The invariant speaks of the most levels
that a round so far has opened. -/
protected theorem repeated {round : α → Parse (Round α β)} {first : α} {last : β → Nat → Prop}
    (invariant : α → Nat → Prop) (hfirst : invariant first 0)
    (hround : ∀ value levels rest, invariant value levels →
      Counts rest (round value) (Keeps invariant last levels)) :
    Counts input (repeated round first) last := by
  suffices ∀ most value levels rest, invariant value levels →
      Counts rest (rounds round most value) fun result more => last result (max levels more) by
    refine .bounded fun most => (this most first 0 input hfirst).mono fun _ _ h => ?_
    rwa [Nat.zero_max] at h
  intro most
  induction most with
  | zero => exact fun _ _ _ _ => .refuse
  | succ most ih =>
      intro value levels rest hinvariant
      unfold rounds
      refine .bind (hround value levels rest hinvariant) fun result more rest' hresult => ?_
      cases result with
      | more value =>
          refine (ih value (max levels more) rest' hresult).mono fun result further h => ?_
          rwa [← Nat.max_assoc]
      | done result => exact .pure (by simpa using hresult)

end Counts

end Parse

end FilterScript
