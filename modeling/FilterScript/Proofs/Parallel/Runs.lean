import FilterScript.Proofs.Parallel.Passing
import FilterScript.Proofs.Parallel.Shape

/-!
# Two runs side by side

Two inputs begin with tokens of the same shapes and then come to a fork, where
they may differ. Two runs of one production stay together as long as they see the
same shapes. At the fork they either still agree, or one of them gets past it.
`Parallel` says this together with a statement about the two results; one rule
per step and one per way of combining steps are all that the productions need.
-/

namespace FilterScript

/-- One of two runs. -/
inductive Side where
  | left | right

/-- Tokens of the same shape, one for each run. -/
structure Twin where
  token : Side → Token
  alike : (token .left).kind.shape = (token .right).kind.shape

namespace Side

variable {α : Type}

/-- Something for each of the sides. -/
def pick (first second : α) : Side → α
  | left => first
  | right => second

/-- What both sides have in common, each side has. -/
theorem eq_left (value : Side → α) (h : value .left = value .right) (side : Side) :
    value side = value .left := by
  cases side with
  | left => rfl
  | right => exact h.symm

/-- Numbers that are large enough on both sides have numbers below them. -/
theorem exists_less {bound : Nat} {number : Side → Nat} (h : ∀ side, bound < number side) :
    ∃ less : Side → Nat, ∀ side, number side = less side + 1 := by
  refine ⟨fun side => number side - 1, fun side => ?_⟩
  exact (Nat.sub_add_cancel (Nat.one_le_of_lt (h side))).symm

end Side

namespace Twin

def shape (twin : Twin) : Kind :=
  (twin.token .left).kind.shape

theorem shape_token (twin : Twin) (side : Side) : (twin.token side).kind.shape = twin.shape :=
  Side.eq_left (fun side => (twin.token side).kind.shape) twin.alike side

theorem kind_of_shape {twin : Twin} {kind : Kind} (hfixed : kind.isFixed) (h : twin.shape = kind)
    (side : Side) : (twin.token side).kind = kind :=
  Kind.eq_of_shape_eq hfixed ((twin.shape_token side).trans h)

theorem exists_name {twin : Twin} (hname : twin.shape.isName = true) (side : Side) :
    ∃ text raw, (twin.token side).kind = .name text raw := by
  apply Kind.eq_name_of_isName
  rw [← Kind.isName_shape, twin.shape_token, hname]

end Twin

/-- What two inputs have behind the tokens that they share. Where it is free to
differ both have a token there or their end. Otherwise both are at the end, or
both have a flaw. -/
structure Fork where
  place : Side → Stream
  free : Prop
  shown : free → ∀ side, ∃ token, (place side).lookahead 0 = .ok token
  alike : ¬ free → (∀ side, (place side).scans = []) ∨
    ∀ side, ∃ flaw rest, (place side).scans = .error flaw :: rest

/-- The tokens that one run has still in front of the fork. -/
def Twin.tokens (common : List Twin) (side : Side) : List Token :=
  common.map fun twin => twin.token side

/-- The input of one run while these tokens and the fork are still to come. -/
def Fork.behind (fork : Fork) (common : List Twin) (side : Side) : Stream :=
  (fork.place side).before (Twin.tokens common side)

/-- Whether a token is what was expected. A record may not stand everywhere that
an expression does, so a brace does not count as one. -/
def Expected.meets : Expected → Kind → Bool
  | .token kind, found => found.variant == kind.variant
  | .identifier, found | .pattern, found => found.isName
  | .expression, found => found.beginsExpression && found != Punct.lbrace
  | .type, found =>
      found.isName || found == Punct.bang || found == Punct.lparen || found == Punct.lbrace
  | .item, found =>
      [Keyword.import_, .filtermap, .filter, .fn, .type_, .test].any fun word => found == word

namespace State

@[simp] theorem noting_limit (expected : Expected) (state : State) :
    (state.noting expected).limit = state.limit := by
  unfold noting
  split <;> rfl

theorem noting_expected (expected : Expected) (state : State) :
    (state.noting expected).expected =
      if expected ∈ state.expected then state.expected else state.expected ++ [expected] := by
  unfold noting
  split <;> rfl

end State

/-- Two states at the same place. Both expect the same, and nothing that comes
next would have been accepted. -/
structure Together (fork : Fork) (records : Bool) (common : List Twin) (states : Side → State) :
    Prop where
  input : ∀ side, (states side).input = fork.behind common side
  records : ∀ side, (states side).context.records = records
  depth : (states .left).context.depth = (states .right).context.depth
  limit : (states .left).limit = (states .right).limit
  expected : (states .left).expected = (states .right).expected
  unmet : ∀ side, ∀ expected ∈ (states side).expected, ∀ token,
    (fork.behind common side).lookahead 0 = .ok token → expected.meets token.kind = false
  lints : (states .left).warnings.map Warning.lint = (states .right).warnings.map Warning.lint

/-- Two faults at the same place, for the same cause. None of what was expected
was found. -/
structure FaultsTogether (fork : Fork) (common : List Twin) (faults : Side → Fault) : Prop where
  place : ∀ side, (faults side).At (fork.behind common side)
  cause : (faults .left).cause.shape = (faults .right).cause.shape
  unmet : ∀ side found expected, (faults side).cause = .unexpected found expected →
    ∀ each ∈ expected, each.meets found = false

/-- How two runs end that were together at the start: together, or one of them
past the fork. -/
inductive Outcome {α : Type} (fork : Fork) (records : Bool) (common : List Twin)
    (stop : α → Kind → Prop) (post : (Side → α) → List Twin → Prop)
    (runs : Side → EStateM.Result Fault State α) : Prop
  | ok {results : Side → α} {after : Side → State} {rest : List Twin}
      (hruns : ∀ side, runs side = .ok (results side) (after side)) (hrest : rest <:+ common)
      (htogether : Together fork records rest after) (hpost : post results rest)
  | error {faults : Side → Fault} {after : Side → State} {rest : List Twin}
      (hruns : ∀ side, runs side = .error (faults side) (after side)) (hrest : rest <:+ common)
      (htogether : FaultsTogether fork rest faults)
  | passed (hfree : fork.free) (side : Side) (h : Passed (fork.place side) stop (runs side))

/-! ## Looking ahead -/

namespace Fork

variable {fork : Fork} {common : List Twin}

@[simp] theorem behind_nil (side : Side) : fork.behind [] side = fork.place side := rfl

theorem length_behind (fork : Fork) (common : List Twin) (side : Side) :
    (fork.behind common side).scans.length = common.length + (fork.place side).scans.length := by
  simp [behind, Stream.before, Twin.tokens]

theorem behind_suffix {rest : List Twin} (h : rest <:+ common) (side : Side) :
    (fork.behind rest side).scans <:+ (fork.behind common side).scans := by
  obtain ⟨taken, rfl⟩ := h
  refine ⟨(Twin.tokens taken side).map .ok, ?_⟩
  simp [behind, Stream.before, Twin.tokens]

@[simp] theorem lookahead_cons_succ (twin : Twin) (rest : List Twin) (side : Side)
    (distance : Nat) :
    (fork.behind (twin :: rest) side).lookahead (distance + 1) =
      (fork.behind rest side).lookahead distance :=
  Stream.lookahead_succ _ _ _ distance

/-- What two runs see so far ahead: tokens of the same shape, the end, or a flaw
at the fork. Behind a fork that is free they may see anything. -/
inductive Sees (fork : Fork) (common : List Twin) (distance : Nat) : Prop
  | twin (twin : Twin) (h : common[distance]? = some twin)
      (hshown : ∀ side, (fork.behind common side).lookahead distance = .ok (twin.token side))
  | ends (hlong : common.length ≤ distance)
      (hshown : ∀ side, (fork.behind common side).lookahead distance =
        .ok (Token.atEnd (fork.place side).length))
  | flaws (flaws : Side → Flaw)
      (hshown : ∀ side, (fork.behind common side).lookahead distance = .error (flaws side))
      (hplace : ∀ side, (fork.place side).lookahead 0 = .error (flaws side))
  | free (hfree : fork.free) (hlong : common.length ≤ distance)

theorem sees (fork : Fork) (common : List Twin) (distance : Nat) : fork.Sees common distance := by
  induction common generalizing distance with
  | nil =>
      by_cases hfree : fork.free
      · exact .free hfree (Nat.zero_le _)
      rcases fork.alike hfree with hends | hflaws
      · exact .ends (Nat.zero_le _) fun side => Stream.lookahead_nil (hends side) distance
      · choose flaws rest hflaws using hflaws
        apply Sees.flaws flaws
        · exact fun side => Stream.lookahead_error (hflaws side) distance
        · exact fun side => Stream.lookahead_error (hflaws side) 0
  | cons twin rest ih =>
      cases distance with
      | zero => exact .twin twin rfl fun side => rfl
      | succ distance =>
          cases ih distance with
          | twin other hother hshown =>
              exact .twin other hother (by simpa only [lookahead_cons_succ] using hshown)
          | ends hlong hshown =>
              exact .ends (Nat.succ_le_succ hlong) (by simpa only [lookahead_cons_succ] using hshown)
          | flaws flaws hshown hplace =>
              exact .flaws flaws (by simpa only [lookahead_cons_succ] using hshown) hplace
          | free hfree hlong => exact .free hfree (Nat.succ_le_succ hlong)

end Fork

theorem Outcome.of_suffix {α : Type} {fork : Fork} {records : Bool} {common rest : List Twin}
    {stop : α → Kind → Prop} {post : (Side → α) → List Twin → Prop}
    {runs : Side → EStateM.Result Fault State α} (h : Outcome fork records rest stop post runs)
    (hrest : rest <:+ common) : Outcome fork records common stop post runs := by
  cases h with
  | ok hruns hleft htogether hpost => exact .ok hruns (hleft.trans hrest) htogether hpost
  | error hruns hleft htogether => exact .error hruns (hleft.trans hrest) htogether
  | passed hfree side hpassed => exact .passed hfree side hpassed

/-- Both runs note what none of them has. -/
theorem Together.noting {fork : Fork} {records : Bool} {common : List Twin}
    {states : Side → State} {expected : Expected} (h : Together fork records common states)
    (hunmet : ∀ side token, (fork.behind common side).lookahead 0 = .ok token →
      expected.meets token.kind = false) :
    Together fork records common fun side => (states side).noting expected where
  input side := (State.noting_input _ _).trans (h.input side)
  records side := (congrArg Context.records (State.noting_context _ _)).trans (h.records side)
  depth := by simpa only [State.noting_context] using h.depth
  limit := by simpa only [State.noting_limit] using h.limit
  expected := by simp only [State.noting_expected, h.expected]
  unmet side each heach token hshown := by
    rw [State.noting_expected] at heach
    split at heach
    · exact h.unmet side each heach token hshown
    · rcases List.mem_append.mp heach with heach | heach
      · exact h.unmet side each heach token hshown
      · rw [List.mem_singleton.mp heach]
        exact hunmet side token hshown
  lints := by simpa only [State.noting_warnings] using h.lints

namespace Parse

variable {α β : Type} {fork : Fork} {records : Bool} {common : List Twin}

/-- The change turns the flag for records from one value to another and back, and of
contexts that are equally deep it makes such ones again. -/
structure Change.Turns (change : Change) (outer inner : Bool) : Prop where
  enter_records {context : Context} :
    context.records = outer → (change.enter context).records = inner
  leave_records {before now : Context} :
    before.records = outer → now.records = inner → (change.leave before now).records = outer
  enter_depth {context other : Context} :
    context.depth = other.depth → (change.enter context).depth = (change.enter other).depth
  leave_depth {before before' now now' : Context} :
    before.depth = before'.depth → now.depth = now'.depth →
      (change.leave before now).depth = (change.leave before' now').depth

theorem Change.records_turns (outer allowed : Bool) :
    (Change.records allowed).Turns outer allowed where
  enter_records _ := rfl
  leave_records houter _ := houter
  enter_depth hdepth := hdepth
  leave_depth _ hdepth := hdepth

theorem Change.level_turns (records : Bool) : Change.level.Turns records records where
  enter_records hrecords := hrecords
  leave_records _ hrecords := hrecords
  enter_depth hdepth := congrArg (· + 1) hdepth
  leave_depth _ hdepth := congrArg (· - 1) hdepth

/-- Two runs that start together end together, or one of them gets past the
fork. The statement is about the results of two runs that succeed together, and
the tokens that they have still in common. -/
def Parallel (fork : Fork) (records : Bool) (common : List Twin) (production : Side → Parse α)
    (stop : α → Kind → Prop) (post : (Side → α) → List Twin → Prop) : Prop :=
  ∀ states, Together fork records common states →
    Outcome fork records common stop post fun side => production side (states side)

namespace Parallel

variable {stop : α → Kind → Prop} {stop' : β → Kind → Prop}
  {post : (Side → α) → List Twin → Prop} {last : (Side → β) → List Twin → Prop}

theorem congr {production other : Side → Parse α}
    (h : Parallel fork records common other stop post) (heq : ∀ side, production side = other side) :
    Parallel fork records common production stop post := by
  rwa [funext heq]

/-- One of the runs gets past the fork. -/
theorem of_passes {production : Side → Parse α} (hfree : fork.free) (side : Side)
    (h : Passes (fork.place side) (Twin.tokens common side) records (production side) stop) :
    Parallel fork records common production stop post :=
  fun _ htogether => .passed hfree side (h _ (htogether.input side) (htogether.records side))

theorem mono {production : Side → Parse α} {post' : (Side → α) → List Twin → Prop}
    (h : Parallel fork records common production stop post)
    (himp : ∀ results rest, rest <:+ common → post results rest → post' results rest) :
    Parallel fork records common production stop post' := by
  intro states htogether
  cases h states htogether with
  | ok hruns hrest hafter hpost => exact .ok hruns hrest hafter (himp _ _ hrest hpost)
  | error hruns hrest hfaults => exact .error hruns hrest hfaults
  | passed hfree side hpassed => exact .passed hfree side hpassed

protected theorem pure {results : Side → α} (h : post results common) :
    Parallel fork records common (fun side => pure (results side)) stop post :=
  fun _ htogether => .ok (fun _ => rfl) (List.suffix_refl _) htogether h

/-- One production after another. Where the first stopped at the fork, the second
must get past it. -/
protected theorem bind {production : Side → Parse α} {next : Side → α → Parse β}
    [∀ side result, Steady (next side result)]
    (h : Parallel fork records common production stop post)
    (hstop : fork.free → ∀ side result token, (fork.place side).lookahead 0 = .ok token →
      stop result token.kind → ∀ records,
        Passes (fork.place side) [] records (next side result) stop')
    (hnext : ∀ results rest, rest <:+ common → post results rest →
      Parallel fork records rest (fun side => next side (results side)) stop' last) :
    Parallel fork records common (fun side => production side >>= next side) stop' last := by
  intro states htogether
  cases h states htogether with
  | ok hruns hrest hafter hpost =>
      simp only [bind_eq_of_ok (hruns _)]
      cases hnext _ _ hrest hpost _ hafter with
      | ok hruns' hrest' hafter' hlast => exact .ok hruns' (hrest'.trans hrest) hafter' hlast
      | error hruns' hrest' hfaults => exact .error hruns' (hrest'.trans hrest) hfaults
      | passed hfree side hpassed => exact .passed hfree side hpassed
  | error hruns hrest hfaults =>
      exact .error (fun side => bind_eq_of_error (hruns side)) hrest hfaults
  | passed hfree side hpassed =>
      apply Outcome.passed hfree side
      apply hpassed.bind
      intro result after token hinput hshown hresult
      exact hstop hfree side result token hshown hresult _ after hinput rfl

/-- The first production never stops at the fork. -/
theorem bind_never {production : Side → Parse α} {next : Side → α → Parse β}
    [∀ side result, Steady (next side result)]
    (h : Parallel fork records common production Never post)
    (hnext : ∀ results rest, rest <:+ common → post results rest →
      Parallel fork records rest (fun side => next side (results side)) stop' last) :
    Parallel fork records common (fun side => production side >>= next side) stop' last :=
  h.bind (fun _ _ _ _ _ hresult => hresult.elim) hnext

/-! ### Steps that look ahead -/

/-- Both runs meet a flaw, or both look at a token: a shared one, the end, or
anything behind a fork that is free. -/
theorem bind_peekAt {distance : Nat} {next : Side → Token → Parse β}
    (htwin : ∀ twin, common[distance]? = some twin →
      (∀ side, (fork.behind common side).lookahead distance = .ok (twin.token side)) →
        Parallel fork records common (fun side => next side (twin.token side)) stop' last)
    (hends : common.length ≤ distance → (∀ side, (fork.behind common side).lookahead distance =
        .ok (Token.atEnd (fork.place side).length)) → Parallel fork records common
          (fun side => next side (Token.atEnd (fork.place side).length)) stop' last)
    (hfree : fork.free → common.length ≤ distance → ∀ tokens : Side → Token,
      (∀ side, (fork.behind common side).lookahead distance = .ok (tokens side)) →
        Parallel fork records common (fun side => next side (tokens side)) stop' last) :
    Parallel fork records common (fun side => peekAt distance >>= next side) stop' last := by
  intro states htogether
  -- What the two runs do once they both see a token.
  have hrun {tokens : Side → Token}
      (hshown : ∀ side, (fork.behind common side).lookahead distance = .ok (tokens side))
      (h : Parallel fork records common (fun side => next side (tokens side)) stop' last) :
      Outcome fork records common stop' last
        fun side => (peekAt distance >>= next side) (states side) := by
    have hpeek (side : Side) : peekAt distance (states side) = .ok (tokens side) (states side) := by
      apply peekAt_eq_ok_iff.mpr
      exact ⟨htogether.input side ▸ hshown side, rfl⟩
    simp only [bind_eq_of_ok (hpeek _)]
    exact h states htogether
  have hflaw {side : Side} {flaw : Flaw}
      (hshown : (fork.behind common side).lookahead distance = .error flaw) :
      (peekAt distance >>= next side) (states side) = .error flaw.toFault (states side) :=
    bind_eq_of_error (peekAt_eq_error (htogether.input side ▸ hshown))
  cases fork.sees common distance with
  | twin twin h hshown => exact hrun hshown (htwin twin h hshown)
  | ends hlong hshown => exact hrun hshown (hends hlong hshown)
  | flaws flaws hshown hplace =>
      -- Looking ahead ends at the first flaw, and that stands at the fork.
      apply Outcome.error (fun side => hflaw (hshown side)) List.nil_suffix
      exact ⟨fun side => .lexical (hplace side), rfl, fun _ _ _ hcause => by cases hcause⟩
  | free hfree' hlong =>
      -- A run that meets a flaw does not fail for an unexpected token, so it counts
      -- as one that got past the fork.
      by_cases h : ∃ side flaw, (fork.behind common side).lookahead distance = .error flaw
      · obtain ⟨side, flaw, hshown⟩ := h
        apply Outcome.passed hfree' side
        change Passed _ _ ((peekAt distance >>= next side) (states side))
        rw [hflaw hshown]
        apply Passed.other
        intro _ _ hcause
        cases hcause
      · have hshown (side : Side) :
            ∃ token, (fork.behind common side).lookahead distance = .ok token := by
          cases hshown : (fork.behind common side).lookahead distance with
          | ok token => exact ⟨token, rfl⟩
          | error flaw => exact absurd ⟨side, flaw, hshown⟩ h
        choose tokens htokens using hshown
        exact hrun htokens (hfree hfree' hlong tokens htokens)

/-- Looking ahead for something that does not bear on what comes next. -/
theorem bind_peek_any {next : Side → Token → Parse β}
    (h : ∀ tokens : Side → Token,
      Parallel fork records common (fun side => next side (tokens side)) stop' last) :
    Parallel fork records common (fun side => peek >>= next side) stop' last := by
  apply bind_peekAt
  · exact fun _ _ _ => h _
  · exact fun _ _ => h _
  · exact fun _ _ tokens _ => h tokens

/-- A production that tells by the shape of the next token whether it takes over.
If it does not for any of the two runs, it must do without that token. -/
theorem bind_peek {next : Side → Token → Parse β} (commits : Kind → Bool)
    (hend : commits .endOfFile = false) (hshape : ∀ kind, commits kind.shape = commits kind)
    (hyes : ∀ twin rest, common = twin :: rest → commits twin.shape = true →
      Parallel fork records common (fun side => next side (twin.token side)) stop' last)
    (hno : ∀ tokens : Side → Token,
      (∀ side, (fork.behind common side).lookahead 0 = .ok (tokens side)) →
      (∀ side, commits (tokens side).kind = false) →
        Parallel fork records common (fun side => next side (tokens side)) stop' last)
    (hpass : fork.free → common = [] → ∀ side token, (fork.place side).lookahead 0 = .ok token →
      commits token.kind = true →
        Passes (fork.place side) [] records (peek >>= next side) stop') :
    Parallel fork records common (fun side => peek >>= next side) stop' last := by
  cases common with
  | nil =>
      -- Right at the fork one run may take over where the other does not.
      by_cases h : fork.free ∧ ∃ side token, (fork.place side).lookahead 0 = .ok token ∧
          commits token.kind = true
      · obtain ⟨hfree, side, token, hshown, hcommits⟩ := h
        exact of_passes hfree side (hpass hfree rfl side token hshown hcommits)
      apply bind_peekAt
      · intro twin htwin
        cases htwin
      · intro _ hshown
        exact hno _ hshown fun _ => hend
      · intro hfree _ tokens hshown
        apply hno tokens hshown
        intro side
        exact eq_false_of_ne_true fun hcommits =>
          h ⟨hfree, side, tokens side, hshown side, hcommits⟩
  | cons twin rest =>
      apply bind_peekAt
      · intro other hother hshown
        obtain rfl : twin = other := Option.some.inj hother
        by_cases hcommits : commits twin.shape = true
        · exact hyes twin rest rfl hcommits
        · apply hno twin.token hshown
          intro side
          rw [← hshape, twin.shape_token]
          exact eq_false_of_ne_true hcommits
      · intro hlong
        cases hlong
      · intro _ hlong
        cases hlong

/-- A test of the shape of a token further ahead. -/
theorem if_peekAt {distance : Nat} {yes no : Side → Parse β} (test : Kind → Bool)
    (hend : test .endOfFile = false) (hshape : ∀ kind, test kind.shape = test kind)
    (hyes : ∀ twin, common[distance]? = some twin → test twin.shape = true →
      Parallel fork records common yes stop' last)
    (hno : Parallel fork records common no stop' last)
    (hpass : fork.free → common.length ≤ distance → ∀ side token,
      (fork.behind common side).lookahead distance = .ok token → test token.kind = true →
        Passes (fork.place side) (Twin.tokens common side) records (yes side) stop') :
    Parallel fork records common
      (fun side => do if test (← peekAt distance).kind then yes side else no side) stop' last := by
  apply bind_peekAt
  · intro twin htwin _
    have htest (side : Side) : test (twin.token side).kind = test twin.shape := by
      rw [← hshape, twin.shape_token]
    simp only [htest]
    cases h : test twin.shape with
    | true => exact hyes twin htwin h
    | false => exact hno
  · intro _ _
    simp only [Token.atEnd, hend]
    exact hno
  · intro hfree hlong tokens hshown
    by_cases h : ∃ side, test (tokens side).kind = true
    · obtain ⟨side, hside⟩ := h
      apply of_passes hfree side
      rw [if_pos hside]
      exact hpass hfree hlong side _ (hshown side) hside
    · have htest (side : Side) : test (tokens side).kind = false :=
        eq_false_of_ne_true fun hside => h ⟨side, hside⟩
      simp only [htest]
      exact hno

section Questions

variable {kind : Kind} {yes no : Side → Parse β}

theorem if_nextIs (hfixed : kind.isFixed)
    (hyes : ∀ twin rest, common = twin :: rest → (∀ side, (twin.token side).kind = kind) →
      Parallel fork records common yes stop' last)
    (hno : (∀ side token, (fork.behind common side).lookahead 0 = .ok token →
        (token.kind.variant == kind.variant) = false) →
      Parallel fork records common no stop' last)
    (hpass : fork.free → common = [] → ∀ side token, (fork.place side).lookahead 0 = .ok token →
      token.kind = kind → Passes (fork.place side) [] records (yes side) stop') :
    Parallel fork records common (fun side => do if ← nextIs kind then yes side else no side)
      stop' last := by
  simp only [nextIs_bind]
  apply bind_peek fun found => found.variant == kind.variant
  · exact beq_false_of_ne (Kind.variant_endOfFile_ne hfixed)
  · exact Kind.variant_shape_beq hfixed
  · intro twin rest hcommon hvariant
    have hkind := twin.kind_of_shape hfixed (Kind.eq_of_variant_eq hfixed (beq_iff_eq.mp hvariant))
    simp only [hkind, beq_self_eq_true]
    exact hyes twin rest hcommon hkind
  · intro tokens hshown hvariant
    simp only [hvariant]
    apply hno
    intro side token htoken
    obtain rfl : tokens side = token := Except.ok.inj ((hshown side).symm.trans htoken)
    exact hvariant side
  · intro hfree hcommon side token hshown hvariant
    refine Passes.bind_peek hshown ?_
    rw [hvariant]
    exact hpass hfree hcommon side token hshown
      (Kind.eq_of_variant_eq hfixed (beq_iff_eq.mp hvariant))

/-- A question about the next two tokens is answered by no if the first is not of
that kind or the second fails the test. -/
theorem nextTwo_eq_no {yes no : Parse β} {test : Kind → Bool} {state : State} {token : Token}
    (hfixed : kind.isFixed) (hshown : state.input.lookahead 0 = .ok token)
    (hsecond : token.kind = kind →
      ∃ second, state.input.lookahead 1 = .ok second ∧ test second.kind = false) :
    (do if ← nextIs kind then
          if test (← peekAt 1).kind then yes else no
        else no : Parse β) state = no state := by
  have hpeek : peek state = .ok token state := peekAt_eq_ok_iff.mpr ⟨hshown, rfl⟩
  rw [nextIs_bind, bind_eq_of_ok hpeek]
  split
  next hvariant =>
    obtain ⟨second, hsecond, htest⟩ :=
      hsecond (Kind.eq_of_variant_eq hfixed (beq_iff_eq.mp hvariant))
    have hpeek : peekAt 1 state = .ok second state := peekAt_eq_ok_iff.mpr ⟨hsecond, rfl⟩
    rw [bind_eq_of_ok hpeek, htest]
    rfl
  next => rfl

/-- A question about the next two tokens. Where the fork is right ahead, the first
of them alone does not commit a run: it may still answer no. -/
theorem if_nextTwo (hfixed : kind.isFixed) (test : Kind → Bool) (hend : test .endOfFile = false)
    (hshape : ∀ kind, test kind.shape = test kind)
    (hyes : ∀ first second rest, common = first :: second :: rest →
      (∀ side, (first.token side).kind = kind) → test second.shape = true →
        Parallel fork records common yes stop' last)
    (hno : Parallel fork records common no stop' last)
    (hnear : fork.free → common = [] → ∀ side token, (fork.place side).lookahead 0 = .ok token →
      token.kind = kind → Passes (fork.place side) [] records (yes side) stop')
    (hfar : fork.free → ∀ first, common = [first] → ∀ side token,
      (fork.place side).lookahead 0 = .ok token → test token.kind = true →
        Passes (fork.place side) [first.token side] records (yes side) stop') :
    Parallel fork records common (fun side => do
      if ← nextIs kind then
        if test (← peekAt 1).kind then yes side else no side
      else no side) stop' last := by
  by_cases hcommon : fork.free ∧ common = []
  · obtain ⟨hfree, rfl⟩ := hcommon
    choose tokens hshown using fork.shown hfree
    by_cases h : ∃ side, (tokens side).kind = kind ∧
        ∀ second, (fork.place side).lookahead 1 = .ok second → test second.kind = true
    · obtain ⟨side, hkind, htest⟩ := h
      apply of_passes hfree side
      refine Passes.if_nextIs (hshown side) hkind ?_
      apply Passes.bind_peekAt
      intro second hsecond
      rw [if_pos (htest second hsecond)]
      exact hnear hfree rfl side _ (hshown side) hkind
    · -- Each of the runs sees a token that makes it answer no.
      intro states htogether
      have hrun (side : Side) : (do
          if ← nextIs kind then
            if test (← peekAt 1).kind then yes side else no side
          else no side : Parse β) (states side) = no side (states side) := by
        have hinput : (states side).input = fork.place side := htogether.input side
        apply nextTwo_eq_no hfixed (hinput ▸ hshown side)
        intro hkind
        rw [hinput]
        by_contra hnone
        refine h ⟨side, hkind, fun second hsecond => ?_⟩
        by_contra htest
        exact hnone ⟨second, hsecond, eq_false_of_ne_true htest⟩
      simp only [hrun]
      exact hno states htogether
  · apply if_nextIs hfixed
    · rintro first rest rfl hkind
      apply if_peekAt test hend hshape
      · intro second hsecond htest
        cases rest with
        | nil => cases hsecond
        | cons other rest =>
            obtain rfl : other = second := Option.some.inj hsecond
            exact hyes first other rest rfl hkind htest
      · exact hno
      · intro hfree hlong side token hshown htest
        obtain rfl : rest = [] := List.eq_nil_of_length_eq_zero (by simpa using hlong)
        rw [Fork.lookahead_cons_succ] at hshown
        exact hfar hfree first rfl side token hshown htest
    · exact fun _ => hno
    · exact fun hfree hnil => absurd ⟨hfree, hnil⟩ hcommon

end Questions

/-! ### Steps that take nothing -/

/-- Noting what was expected, when no run has it. -/
theorem bind_want {expected : Expected} {next : Side → Unit → Parse β}
    (hunmet : ∀ side token, (fork.behind common side).lookahead 0 = .ok token →
      expected.meets token.kind = false)
    (h : Parallel fork records common (fun side => next side ()) stop' last) :
    Parallel fork records common (fun side => want expected >>= next side) stop' last := by
  intro states htogether
  simp only [bind_eq_of_ok (want_eq expected _)]
  apply h
  exact htogether.noting hunmet

theorem bind_warn {lint : Lint} {span : Side → Span} {next : Side → Unit → Parse β}
    (h : Parallel fork records common (fun side => next side ()) stop' last) :
    Parallel fork records common (fun side => warn lint (span side) >>= next side) stop' last := by
  intro states htogether
  apply h fun side =>
    { states side with warnings := (states side).warnings ++ [⟨lint, span side⟩] }
  exact ⟨htogether.input, htogether.records, htogether.depth, htogether.limit, htogether.expected,
    htogether.unmet, by simp [htogether.lints]⟩

/-- The texts may differ, and so may the symbols. -/
theorem bind_intern {text : Side → String} {next : Side → Symbol → Parse β}
    (h : ∀ symbols : Side → Symbol,
      Parallel fork records common (fun side => next side (symbols side)) stop' last) :
    Parallel fork records common (fun side => intern (text side) >>= next side) stop' last := by
  intro states htogether
  apply h (fun side => ((states side).names.intern (text side)).1)
    fun side => { states side with names := ((states side).names.intern (text side)).2 }
  exact ⟨htogether.input, htogether.records, htogether.depth, htogether.limit, htogether.expected,
    htogether.unmet, htogether.lints⟩

theorem bind_get {next : Side → State → Parse β}
    (h : ∀ states, Together fork records common states →
      Parallel fork records common (fun side => next side (states side)) stop' last) :
    Parallel fork records common (fun side => get >>= next side) stop' last :=
  fun states htogether => h states htogether states htogether

protected theorem throw {faults : Side → Fault} (h : FaultsTogether fork common faults) :
    Parallel fork records common (fun side => throw (faults side)) stop post :=
  fun _ _ => .error (fun _ => rfl) (List.suffix_refl _) h

/-- Both runs fail here, expecting the same, unless there is a flaw. -/
protected theorem refuse : Parallel fork records common (fun _ => refuse) stop post := by
  have hrefuse {tokens : Side → Token}
      (hshown : ∀ side, (fork.behind common side).lookahead 0 = .ok (tokens side)) :
      Parallel fork records common (fun side => do
        let state ← get
        throw ⟨.unexpected (tokens side).kind state.expected, (tokens side).span⟩) stop post := by
    apply bind_get
    intro states htogether
    apply Parallel.throw
    constructor
    · exact fun side => .unexpected _ (hshown side)
    · simp [Cause.shape, htogether.expected]
    · rintro side found expected ⟨⟩ each heach
      exact htogether.unmet side each heach _ (hshown side)
  apply bind_peekAt
  · exact fun _ _ hshown => hrefuse hshown
  · exact fun _ hshown => hrefuse hshown
  · exact fun _ _ _ hshown => hrefuse hshown

/-- Noting what was expected, when the tokens that come next are known. -/
theorem bind_want_shown {expected : Expected} {tokens : Side → Token}
    {next : Side → Unit → Parse β}
    (hshown : ∀ side, (fork.behind common side).lookahead 0 = .ok (tokens side))
    (hunmet : ∀ side, expected.meets (tokens side).kind = false)
    (h : Parallel fork records common (fun side => next side ()) stop' last) :
    Parallel fork records common (fun side => want expected >>= next side) stop' last := by
  refine bind_want ?_ h
  intro side token htoken
  obtain rfl : tokens side = token := Except.ok.inj ((hshown side).symm.trans htoken)
  exact hunmet side

/-- Both runs fail here, expecting one thing more that none of them has. -/
theorem want_refuse (expected : Expected) {tokens : Side → Token}
    (hshown : ∀ side, (fork.behind common side).lookahead 0 = .ok (tokens side))
    (hunmet : ∀ side, expected.meets (tokens side).kind = false) :
    Parallel fork records common (fun _ => want expected >>= fun _ => refuse) stop post :=
  bind_want_shown hshown hunmet .refuse

/-! ### Steps that take a token -/

/-- Both runs take the next shared token. -/
theorem bind_advance {twin : Twin} {next : Side → Token → Parse β}
    (h : Parallel fork records common (fun side => next side (twin.token side)) stop' last) :
    Parallel fork records (twin :: common) (fun side => advance >>= next side) stop' last := by
  intro states htogether
  have hrun (side : Side) : advance (states side) = .ok (twin.token side)
      { states side with input := fork.behind common side, expected := [] } := by
    unfold advance
    rw [htogether.input side]
    rfl
  simp only [bind_eq_of_ok (hrun _)]
  refine .of_suffix (h _ ?_) (List.suffix_cons twin common)
  exact ⟨fun _ => rfl, htogether.records, htogether.depth, htogether.limit, rfl,
    fun _ _ h => absurd h List.not_mem_nil, htogether.lints⟩

section Questions

variable {kind : Kind} {yes no : Side → Parse β}

theorem if_accepts (hfixed : kind.isFixed)
    (hyes : ∀ twin rest, common = twin :: rest → (∀ side, (twin.token side).kind = kind) →
      Parallel fork records common yes stop' last)
    (hno : Parallel fork records common no stop' last)
    (hpass : fork.free → common = [] → ∀ side token, (fork.place side).lookahead 0 = .ok token →
      token.kind = kind → Passes (fork.place side) [] records (yes side) stop') :
    Parallel fork records common (fun side => do if ← accepts kind then yes side else no side)
      stop' last := by
  simp only [if_accepts_eq]
  apply if_nextIs hfixed
  · exact hyes
  · exact fun hother => bind_want hother hno
  · exact hpass

theorem if_takes [∀ side, Steady (yes side)] (hfixed : kind.isFixed)
    (hyes : ∀ twin rest, common = twin :: rest → (∀ side, (twin.token side).kind = kind) →
      Parallel fork records rest yes stop' last)
    (hno : Parallel fork records common no stop' last) :
    Parallel fork records common (fun side => do if ← takes kind then yes side else no side)
      stop' last := by
  simp only [if_takes_eq]
  apply if_accepts hfixed
  · rintro twin rest rfl hkind
    exact bind_advance (hyes twin rest rfl hkind)
  · exact hno
  · intro _ _ side token hshown hkind
    exact .bind_any (.advance hshown (hkind ▸ Kind.ne_endOfFile_of_isFixed hfixed))

end Questions

theorem bind_expect {kind : Kind} {next : Side → Token → Parse β}
    [∀ side token, Steady (next side token)] (hfixed : kind.isFixed)
    (h : ∀ twin rest, common = twin :: rest → (∀ side, (twin.token side).kind = kind) →
      Parallel fork records rest (fun side => next side (twin.token side)) stop' last) :
    Parallel fork records common (fun side => expect kind >>= next side) stop' last := by
  simp only [expect_bind]
  apply if_accepts hfixed
  · rintro twin rest rfl hkind
    exact bind_advance (h twin rest rfl hkind)
  · have hrefuse : Parallel fork records common (fun _ => refuse) Never
        fun (_ : Side → Token) _ => False := .refuse
    exact hrefuse.bind_never fun _ _ _ h => h.elim
  · intro _ _ side token hshown hkind
    exact .bind_any (.advance hshown (hkind ▸ Kind.ne_endOfFile_of_isFixed hfixed))

/-- What stands between brackets, and the bracket that closes it. A run stops only
in front of that bracket. -/
theorem bind_closed {production : Side → Parse α} {close : Kind}
    {next : Side → α → Token → Parse β} [∀ side result token, Steady (next side result token)]
    (h : Parallel fork records common production (StopsAt close) post) (hfixed : close.isFixed)
    (hnext : ∀ results right rest, right :: rest <:+ common → post results (right :: rest) →
      Parallel fork records rest (fun side => next side (results side) (right.token side))
        stop' last) :
    Parallel fork records common
      (fun side => production side >>= fun result => expect close >>= next side result)
      stop' last := by
  apply h.bind
  · intro _ side result token hshown hkind records
    exact .bind_any (.expect hshown (Kind.ne_endOfFile_of_isFixed hfixed) hkind)
  · intro results rest hrest hpost
    apply bind_expect hfixed
    rintro right tail rfl _
    exact hnext results right tail hrest hpost

/-! ### Ways to run a production -/

protected theorem within {production : Side → Parse α} {change : Change} {inner : Bool}
    (h : Parallel fork inner common production stop post) (hchange : change.Turns records inner) :
    Parallel fork records common (fun side => within change (production side)) stop post := by
  intro states htogether
  have hinner : Together fork inner common
      fun side => { states side with context := change.enter (states side).context } :=
    ⟨htogether.input, fun side => hchange.enter_records (htogether.records side),
      hchange.enter_depth htogether.depth, htogether.limit, htogether.expected, htogether.unmet,
      htogether.lints⟩
  cases h _ hinner with
  | @ok results after rest hruns hrest hafter hpost =>
      have hruns' (side : Side) : within change (production side) (states side) =
          .ok (results side) { after side with
            context := change.leave (states side).context (after side).context } :=
        within_eq_ok_iff.mpr ⟨_, hruns side, rfl⟩
      exact .ok hruns' hrest ⟨hafter.input,
        fun side => hchange.leave_records (htogether.records side) (hafter.records side),
        hchange.leave_depth htogether.depth hafter.depth, hafter.limit,
        hafter.expected, hafter.unmet, hafter.lints⟩ hpost
  | @error faults after rest hruns hrest hfaults =>
      have hruns' (side : Side) : within change (production side) (states side) =
          .error (faults side) { after side with
            context := change.leave (states side).context (after side).context } :=
        within_eq_error_iff.mpr ⟨_, hruns side, rfl⟩
      exact .error hruns' hrest hfaults
  | passed hfree side hpassed => exact .passed hfree side (.within hpassed)

protected theorem withRecords {production : Side → Parse α} {allowed : Bool}
    (h : Parallel fork allowed common production stop post) :
    Parallel fork records common (fun side => withRecords allowed (production side)) stop post :=
  h.within (Change.records_turns records allowed)

/-- Both runs have reached the limit, or none of them has. -/
protected theorem nested {production : Side → Parse α}
    (h : Parallel fork records common production stop post) :
    Parallel fork records common (fun side => nested (production side)) stop post := by
  intro states htogether
  have hlimit : (states .left).reachedLimit? = (states .right).reachedLimit? := by
    simp only [State.reachedLimit?, htogether.limit, htogether.depth]
  simp only [nested_eq, Side.eq_left (fun side => (states side).reachedLimit?) hlimit]
  -- The two runs are equally deep.
  cases (states .left).reachedLimit? with
  | some limit =>
      have hthrow {tokens : Side → Token}
          (hshown : ∀ side, (fork.behind common side).lookahead 0 = .ok (tokens side)) :
          Parallel fork records common
            (fun side => throw ⟨.tooDeep limit, (tokens side).span⟩) stop post :=
        .throw ⟨fun side => .tooDeep limit (hshown side), rfl, fun _ _ _ hcause => by cases hcause⟩
      refine bind_peekAt ?_ ?_ ?_ states htogether
      · exact fun _ _ hshown => hthrow hshown
      · exact fun _ hshown => hthrow hshown
      · exact fun _ _ _ hshown => hthrow hshown
  | none =>
      exact h.within (Change.level_turns records) states htogether

/-- Each run has a bound of its own. Both are as large as the tokens to come are
many. -/
protected theorem bounded {production : Side → Nat → Parse α}
    (h : ∀ most : Side → Nat,
      (∀ side, common.length + (fork.place side).scans.length < most side) →
        Parallel fork records common (fun side => production side (most side)) stop post) :
    Parallel fork records common (fun side => bounded (production side)) stop post := by
  intro states htogether
  apply h (fun side => (states side).input.scans.length + 1) _ states htogether
  intro side
  rw [htogether.input, fork.length_behind]
  exact Nat.lt_succ_self _

end Parallel

/-- Where a round of a loop may stop, given where its values and its results
may. -/
def Round.Stops (again : α → Kind → Prop) (stop : β → Kind → Prop) : Round α β → Kind → Prop
  | .more value, found => again value found
  | .done result, found => stop result found

/-- How two rounds of a loop end together: both go on, with fewer tokens left, or
both are done. -/
inductive Round.Agree (invariant : (Side → α) → List Twin → Prop)
    (last : (Side → β) → List Twin → Prop) (common : List Twin) :
    (Side → Round α β) → List Twin → Prop
  | more {values : Side → α} {rest : List Twin} (hshorter : rest.length < common.length)
      (h : invariant values rest) : Agree invariant last common (fun side => .more (values side)) rest
  | done {results : Side → β} {rest : List Twin} (h : last results rest) :
      Agree invariant last common (fun side => .done (results side)) rest

namespace Parallel

variable {stop : β → Kind → Prop} {again : α → Kind → Prop}
  {invariant : (Side → α) → List Twin → Prop} {last : (Side → β) → List Twin → Prop}

/-- Rounds stay together as long as each of them does. The induction is on the
tokens that are left in common. A round that goes on from the fork must be
followed by one that ends there. -/
protected theorem rounds {round : Side → α → Parse (Round α β)} {values : Side → α}
    {most : Side → Nat} [∀ side value, Steady (round side value)]
    (hmost : ∀ side, common.length + (fork.place side).scans.length < most side)
    (hvalues : invariant values common)
    (hround : ∀ values rest, rest <:+ common → invariant values rest →
      Parallel fork records rest (fun side => round side (values side))
        (Round.Stops again stop) (Round.Agree invariant last rest))
    (hagain : fork.free → ∀ side value token, (fork.place side).lookahead 0 = .ok token →
      again value token.kind → token.kind ≠ .endOfFile ∧ ∀ records,
        Passes (fork.place side) [] records (round side value) fun result found =>
          ∃ last, result = .done last ∧ stop last found) :
    Parallel fork records common (fun side => rounds (round side) (most side) (values side))
      stop last := by
  induction hlength : common.length using Nat.strong_induction_on generalizing common values most with
  | _ length ih =>
      subst hlength
      obtain ⟨less, hless⟩ := Side.exists_less fun side =>
        Nat.lt_of_le_of_lt (Nat.le_add_right _ _) (hmost side)
      simp only [hless, rounds_succ] at hmost ⊢
      apply Parallel.bind (hround values common (List.suffix_refl _) hvalues)
      · intro hfree side result token hshown hstop records
        cases result with
        | more value =>
            obtain ⟨hend, hpasses⟩ := hagain hfree side value token hshown hstop
            obtain ⟨rest, hscans⟩ := Stream.scans_of_lookahead hshown hend
            have := hmost side
            rw [hscans, List.length_cons] at this
            exact Passes.rounds (by omega) (hpasses records)
        | done result => exact .pure hshown hstop
      · intro results rest hrest hagree
        cases hagree with
        | done hlast => exact .pure hlast
        | more hshorter hmore =>
            apply ih _ hshorter _ hmore _ rfl
            · intro side
              have := hmost side
              omega
            · exact fun values left hleft => hround values left (hleft.trans hrest)

protected theorem repeated {round : Side → α → Parse (Round α β)} {first : Side → α}
    [∀ side value, Steady (round side value)] (again : α → Kind → Prop)
    (invariant : (Side → α) → List Twin → Prop) (hfirst : invariant first common)
    (hround : ∀ values rest, rest <:+ common → invariant values rest →
      Parallel fork records rest (fun side => round side (values side))
        (Round.Stops again stop) (Round.Agree invariant last rest))
    (hagain : fork.free → ∀ side value token, (fork.place side).lookahead 0 = .ok token →
      again value token.kind → token.kind ≠ .endOfFile ∧ ∀ records,
        Passes (fork.place side) [] records (round side value) fun result found =>
          ∃ last, result = .done last ∧ stop last found) :
    Parallel fork records common (fun side => repeated (round side) (first side)) stop last := by
  apply Parallel.bounded
  intro most hmost
  exact Parallel.rounds hmost hfirst hround hagain

/-- Rounds that never go on from the fork. -/
theorem repeated_never {round : Side → α → Parse (Round α β)} {first : Side → α}
    [∀ side value, Steady (round side value)] (invariant : (Side → α) → List Twin → Prop)
    (hfirst : invariant first common)
    (hround : ∀ values rest, rest <:+ common → invariant values rest →
      Parallel fork records rest (fun side => round side (values side))
        (Round.Stops Never stop) (Round.Agree invariant last rest)) :
    Parallel fork records common (fun side => repeated (round side) (first side)) stop last :=
  .repeated Never invariant hfirst hround fun _ _ _ _ _ hstop => hstop.elim

end Parallel

end Parse

end FilterScript
