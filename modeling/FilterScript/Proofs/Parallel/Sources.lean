import FilterScript.Proofs.Parallel.Scripts
import FilterScript.Proofs.Scanning.Tiling

/-!
# Two sources

Two sources whose scans look alike are read alike. Where they come to differ, one
that goes on with what the other was expected to go on with gets further.
-/

namespace FilterScript

namespace Stream

/-- All that scanning gives, with the end behind it. -/
def results (stream : Stream) : List Scan :=
  stream.scans ++ [Scan.atEnd stream.length]

theorem results_zero (stream : Stream) : stream.results[0]? = some (stream.lookahead 0) := by
  obtain ⟨scans, length⟩ := stream
  cases scans with
  | nil => rfl
  | cons scan rest => cases scan <;> rfl

/-- What is left of a stream gives the results behind those already taken. -/
theorem results_suffix {later whole : Stream} (hscans : later.scans <:+ whole.scans)
    (hlength : later.length = whole.length) :
    whole.results[whole.scans.length - later.scans.length]? = some (later.lookahead 0) := by
  obtain ⟨taken, htaken⟩ := hscans
  rw [← results_zero]
  unfold results
  rw [← htaken, ← hlength, List.append_assoc, List.length_append, Nat.add_sub_cancel,
    List.getElem?_append_right (Nat.le_refl _), Nat.sub_self]

end Stream

namespace Fault

/-- The fault is about the scan with this number. The end of a source counts as
its last scan. -/
def Concerns (fault : Fault) (source : String) (index : Nat) : Prop :=
  (Stream.ofSource source).results[index]?.map Scan.span = some fault.span

variable {fault : Fault} {source : String}

theorem At.span_eq {stream : Stream} (h : fault.At stream) :
    (stream.lookahead 0).span = fault.span := by
  cases h with
  | lexical h | unexpected _ h | tooDeep _ h =>
      rw [h]
      rfl

/-- An unexpected token is a token, or the end. -/
theorem At.exists_token {stream : Stream} {found : Kind} {expected : List Expected}
    (h : fault.At stream) (hcause : fault.cause = .unexpected found expected) :
    ∃ token, stream.lookahead 0 = .ok token ∧ token.kind = found := by
  cases h with
  | lexical => cases hcause
  | unexpected _ hshown =>
      cases hcause
      exact ⟨_, hshown, rfl⟩
  | tooDeep => cases hcause

theorem At.concerns {later : Stream} (h : fault.At later)
    (hscans : later.scans <:+ (Stream.ofSource source).scans)
    (hlength : later.length = (Stream.ofSource source).length) :
    fault.Concerns source ((Stream.ofSource source).scans.length - later.scans.length) := by
  rw [Concerns, Stream.results_suffix hscans hlength, Option.map_some, h.span_eq]

/-- A fault is about one scan only. -/
theorem Concerns.unique {index other : Nat} (h : fault.Concerns source index)
    (h' : fault.Concerns source other) : index = other := by
  have hordered : (Stream.ofSource source).results.Pairwise fun scan later =>
      scan.span.start < later.span.start := by
    apply (Stream.ofSource_tiling source).ordered.imp
    exact And.left
  obtain ⟨scan, hscan, hspan⟩ := Option.map_eq_some_iff.mp h
  obtain ⟨scan', hscan', hspan'⟩ := Option.map_eq_some_iff.mp h'
  obtain ⟨hlt, rfl⟩ := List.getElem?_eq_some_iff.mp hscan
  obtain ⟨hlt', rfl⟩ := List.getElem?_eq_some_iff.mp hscan'
  rcases Nat.lt_trichotomy index other with hless | heq | hmore
  · have := List.pairwise_iff_getElem.mp hordered _ _ hlt hlt' hless
    rw [hspan, hspan'] at this
    omega
  · exact heq
  · have := List.pairwise_iff_getElem.mp hordered _ _ hlt' hlt hmore
    rw [hspan, hspan'] at this
    omega

end Fault

/-! ## Where two sources part -/

/-- Two lists of scans that look alike up to some number share that many tokens,
or less if both end or have a flaw before. -/
theorem exists_common (number : Nat) (scans : Side → List Scan)
    (h : ((scans .left).take number).map Scan.shape =
      ((scans .right).take number).map Scan.shape) :
    ∃ (common : List Twin) (rests : Side → List Scan),
      (∀ side, scans side = (Twin.tokens common side).map .ok ++ rests side) ∧
      (common.length = number ∨ common.length < number ∧
        ((∀ side, rests side = []) ∨ ∀ side, ∃ flaw rest, rests side = .error flaw :: rest)) := by
  induction number generalizing scans with
  | zero => exact ⟨[], scans, fun _ => rfl, .inl rfl⟩
  | succ number ih =>
      cases hleft : scans .left with
      | nil =>
          have hright : scans .right = [] := by
            rw [hleft] at h
            simpa using h.symm
          refine ⟨[], scans, fun _ => rfl, .inr ⟨Nat.succ_pos _, .inl ?_⟩⟩
          rintro (_ | _)
          · exact hleft
          · exact hright
      | cons scan rest =>
          cases hright : scans .right with
          | nil => simp [hleft, hright] at h
          | cons scan' rest' =>
              simp only [hleft, hright, List.take_succ_cons, List.map_cons, List.cons.injEq] at h
              obtain ⟨hshape, hrest⟩ := h
              cases scan with
              | error flaw =>
                  cases scan' with
                  | ok token' => cases hshape
                  | error flaw' =>
                      refine ⟨[], scans, fun _ => rfl, .inr ⟨Nat.succ_pos _, .inr ?_⟩⟩
                      rintro (_ | _)
                      · exact ⟨flaw, rest, hleft⟩
                      · exact ⟨flaw', rest', hright⟩
              | ok token =>
                  cases scan' with
                  | error flaw' => cases hshape
                  | ok token' =>
                      obtain ⟨common, rests, hscans, hends⟩ := ih (Side.pick rest rest') hrest
                      let twin : Twin := ⟨Side.pick token token', Option.some.inj hshape⟩
                      refine ⟨twin :: common, rests, ?_, ?_⟩
                      · rintro (_ | _)
                        · exact hleft.trans (congrArg _ (hscans .left))
                        · exact hright.trans (congrArg _ (hscans .right))
                      · simpa [Nat.succ_lt_succ_iff] using hends

variable {sources : Side → String}

/-- The fork of two sources that look alike up to some scan. It is free if that is
the first scan in which they may differ; they must both have a token there. -/
theorem exists_fork (sources : Side → String) (number : Nat)
    (h : ((Stream.ofSource (sources .left)).scans.take number).map Scan.shape =
      ((Stream.ofSource (sources .right)).scans.take number).map Scan.shape)
    (hshown : ∀ side scan, (Stream.ofSource (sources side)).results[number]? = some scan →
      ∃ token, scan = .ok token) :
    ∃ (fork : Fork) (common : List Twin),
      (∀ side, fork.behind common side = Stream.ofSource (sources side)) ∧
      common.length ≤ number ∧ (fork.free ↔ common.length = number) := by
  obtain ⟨common, rests, hscans, hends⟩ :=
    exists_common number (fun side => (Stream.ofSource (sources side)).scans) h
  let place (side : Side) : Stream := ⟨rests side, (Stream.ofSource (sources side)).length⟩
  have hbehind (side : Side) :
      (place side).before (Twin.tokens common side) = Stream.ofSource (sources side) := by
    rw [Stream.before, ← hscans side]
  have hnumber (side : Side) : (Stream.ofSource (sources side)).results[common.length]? =
      some ((place side).lookahead 0) := by
    have hsuffix : (place side).scans <:+ (Stream.ofSource (sources side)).scans :=
      ⟨_, (hscans side).symm⟩
    rw [← Stream.results_suffix hsuffix rfl, hscans side]
    simp [place, Twin.tokens]
  let fork : Fork :=
    { place
      free := common.length = number
      shown := fun hfree side => hshown side _ (hfree ▸ hnumber side)
      alike := fun hfree => (hends.resolve_left hfree).2 }
  refine ⟨fork, common, hbehind, ?_, Iff.rfl⟩
  rcases hends with heq | ⟨hlt, -⟩
  · exact Nat.le_of_eq heq
  · exact Nat.le_of_lt hlt

/-- The fork of two sources at a number where both have a token. -/
theorem exists_fork_of_tokens (sources : Side → String) {index : Nat} (tokens : Side → Token)
    (htokens : ∀ side,
      (Stream.ofSource (sources side)).results[index]? = some (.ok (tokens side)))
    (h : ((Stream.ofSource (sources .left)).results.take index).map Scan.shape =
      ((Stream.ofSource (sources .right)).results.take index).map Scan.shape) :
    ∃ (fork : Fork) (common : List Twin),
      (∀ side, fork.behind common side = Stream.ofSource (sources side)) ∧
      common.length ≤ index ∧ (fork.free ↔ common.length = index) := by
  -- In front of a token there is no end, so the results there are scans.
  have htake (side : Side) : (Stream.ofSource (sources side)).results.take index =
      (Stream.ofSource (sources side)).scans.take index := by
    have hlt := (List.getElem?_eq_some_iff.mp (htokens side)).1
    rw [Stream.results, List.length_append, List.length_singleton] at hlt
    exact List.take_append_of_le_length (Nat.le_of_lt_succ hlt)
  rw [htake, htake] at h
  apply exists_fork sources index h
  intro side scan hscan
  exact ⟨tokens side, Option.some.inj (hscan.symm.trans (htokens side))⟩

/-- What two runs of a script come to when the fork is where their sources part. -/
theorem script_outcome {fork : Fork} {common : List Twin} (limit : Option Nat)
    (hsources : ∀ side, fork.behind common side = Stream.ofSource (sources side)) :
    Outcome fork true common (StopsAt .endOfFile) (Same (Outline.shape ∘ Script.outline))
      fun side => Grammar.script (State.ofSource limit (sources side)) := by
  apply Grammar.script_parallel fun side => State.ofSource limit (sources side)
  exact ⟨fun side => (hsources side).symm, fun _ => rfl, rfl, rfl, rfl,
    fun _ _ hnone => absurd hnone List.not_mem_nil, rfl⟩

theorem parse_of_ok {source : String} {tree : Script Span Symbol} {after : State}
    (h : Grammar.script (State.ofSource nestingLimit source) = .ok tree after) :
    parse source = .ok ⟨tree, after.names, after.warnings⟩ := by
  unfold parse parseWithin runOn
  rw [h]

theorem parse_of_error {source : String} {fault : Fault} {after : State}
    (h : Grammar.script (State.ofSource nestingLimit source) = .error fault after) :
    parse source = .error (fault.locate source) := by
  unfold parse parseWithin runOn
  rw [h]

theorem exists_of_parse_error {source : String} {error : ParseError}
    (h : parse source = .error error) :
    ∃ fault after, Grammar.script (State.ofSource nestingLimit source) = .error fault after ∧
      error = fault.locate source := by
  cases hrun : Grammar.script (State.ofSource nestingLimit source) with
  | ok tree after => cases (parse_of_ok hrun).symm.trans h
  | error fault after =>
      cases (parse_of_error hrun).symm.trans h
      exact ⟨fault, after, rfl, rfl⟩

theorem exists_token_of_unexpected {source : String} {fault : Fault} {after : State} {found : Kind}
    {expected : List Expected} {index : Nat}
    (hrun : Grammar.script (State.ofSource nestingLimit source) = .error fault after)
    (hcause : fault.cause = .unexpected found expected) (hindex : fault.Concerns source index) :
    ∃ token, (Stream.ofSource source).results[index]? = some (.ok token) := by
  obtain ⟨rest, hrest, hat⟩ := Parse.Steady.fault hrun
  let later : Stream := ⟨rest, (Stream.ofSource source).length⟩
  have hsuffix : later.scans <:+ (Stream.ofSource source).scans := hrest
  have hresult := Stream.results_suffix hsuffix rfl
  rw [(hat.concerns hrest rfl).unique hindex] at hresult
  obtain ⟨token, hshown, -⟩ := hat.exists_token hcause
  exact ⟨token, hshown ▸ hresult⟩

/-- What a source has at the fork. -/
theorem Fork.results_place {fork : Fork} {common : List Twin}
    (hsources : ∀ side, fork.behind common side = Stream.ofSource (sources side)) (side : Side) :
    (Stream.ofSource (sources side)).results[common.length]? =
      some ((fork.place side).lookahead 0) := by
  have hplace := fork.behind_suffix (List.nil_suffix : [] <:+ common) side
  have hresult := Stream.results_suffix hplace rfl
  rwa [fork.length_behind, fork.length_behind, Nat.add_sub_add_right, hsources side] at hresult

/-- A fault beyond the fork is about a scan behind the shared tokens. -/
theorem Fork.concerns_of_beyond {fork : Fork} {common : List Twin} {fault : Fault} {later : Stream}
    (hsources : ∀ side, fork.behind common side = Stream.ofSource (sources side)) {side : Side}
    (hlater : later.Beyond (fork.place side)) (hat : fault.At later) :
    ∃ index, common.length < index ∧ fault.Concerns (sources side) index := by
  have hplace := fork.behind_suffix (List.nil_suffix : [] <:+ common) side
  have hlength := fork.length_behind common side
  have hshorter := hlater.shorter
  rw [hsources side] at hplace hlength
  refine ⟨_, ?_, hat.concerns (hlater.scans.trans hplace) ?_⟩
  · omega
  · rw [hlater.length, ← hsources side]
    rfl

/-- A run that got past the fork and met an unexpected token met it behind the shared
tokens. -/
theorem Fork.concerns_of_passed {α : Type} {fork : Fork} {common : List Twin} {fault : Fault}
    {after : State} {stop : α → Kind → Prop} {found : Kind} {expected : List Expected}
    (hsources : ∀ side, fork.behind common side = Stream.ofSource (sources side)) {side : Side}
    (hpassed : Passed (fork.place side) stop (.error fault after))
    (hcause : fault.cause = .unexpected found expected) :
    ∃ index, common.length < index ∧ fault.Concerns (sources side) index := by
  cases hpassed with
  | late hlater hat => exact fork.concerns_of_beyond hsources hlater hat
  | other hother => exact absurd hcause (hother _ _)

/-- Two faults behind the same shared tokens are about scans with the same
number. -/
theorem FaultsTogether.concerns {fork : Fork} {common rest : List Twin} {faults : Side → Fault}
    (hsources : ∀ side, fork.behind common side = Stream.ofSource (sources side))
    (hrest : rest <:+ common) (h : FaultsTogether fork rest faults) (side : Side) :
    (faults side).Concerns (sources side) (common.length - rest.length) := by
  have hlength : (fork.behind rest side).length = (Stream.ofSource (sources side)).length := by
    rw [← hsources side]
    rfl
  have hplace := (h.place side).concerns (hsources side ▸ fork.behind_suffix hrest side) hlength
  rwa [← hsources side, fork.length_behind, fork.length_behind, Nat.add_sub_add_right] at hplace

/-- Of two faults right at the fork, none expects what the other has there. -/
theorem FaultsTogether.not_meets {fork : Fork} {faults : Side → Fault} {found found' : Kind}
    {expected expected' : List Expected} {each : Expected} {token : Token}
    (h : FaultsTogether fork [] faults) (hcause : (faults .left).cause = .unexpected found expected)
    (hcause' : (faults .right).cause = .unexpected found' expected')
    (hshown : (fork.place .right).lookahead 0 = .ok token) (heach : each ∈ expected) :
    each.meets token.kind = false := by
  have hexpected : expected' = expected := by
    have hsame := h.cause
    rw [hcause, hcause'] at hsame
    simpa [Cause.shape, eq_comm] using hsame
  obtain ⟨shown, hshown', rfl⟩ := (h.place .right).exists_token hcause'
  obtain rfl : token = shown := Except.ok.inj (hshown.symm.trans hshown')
  exact h.unmet .right _ _ hcause' each (hexpected ▸ heach)

/-- Two sources that look alike are read alike: with results that look alike and
the same lints, or with faults for the same cause at the scan with the same
number. Names, numbers and texts do not count, nor does the mark of an escaped
name, nor what stands between tokens. -/
theorem parse_alike {source other : String}
    (h : (Stream.ofSource source).scans.map Scan.shape =
      (Stream.ofSource other).scans.map Scan.shape) :
    (∃ parsed parsed', parse source = .ok parsed ∧ parse other = .ok parsed' ∧
      parsed.tree.outline.shape = parsed'.tree.outline.shape ∧
      parsed.warnings.map Warning.lint = parsed'.warnings.map Warning.lint) ∨
    ∃ error error' index, parse source = .error error ∧ parse other = .error error' ∧
      error.cause.shape = error'.cause.shape ∧
      error.Concerns source index ∧ error'.Concerns other index := by
  have hlength : (Stream.ofSource source).scans.length = (Stream.ofSource other).scans.length := by
    simpa using congrArg List.length h
  have hlong (side : Side) : (Stream.ofSource (Side.pick source other side)).scans.length =
      (Stream.ofSource source).scans.length := by
    cases side with
    | left => rfl
    | right => exact hlength.symm
  -- The fork is the first flaw of both sources, or the end of both.
  obtain ⟨fork, common, hsources, -, hfree⟩ : ∃ (fork : Fork) (common : List Twin),
      (∀ side, fork.behind common side = Stream.ofSource (Side.pick source other side)) ∧ _ ∧ _ := by
    apply exists_fork (Side.pick source other) ((Stream.ofSource source).scans.length + 1)
    · rw [List.take_of_length_le, List.take_of_length_le]
      · exact h
      · rw [hlong]
        exact Nat.le_succ _
      · rw [hlong]
        exact Nat.le_succ _
    · intro side scan hscan
      have hnone := (List.getElem?_eq_some_iff.mp hscan).1
      rw [Stream.results, List.length_append, hlong] at hnone
      exact absurd hnone (Nat.lt_irrefl _)
  have hfixed : ¬ fork.free := by
    rw [hfree]
    have := fork.length_behind common .left
    rw [hsources, hlong] at this
    omega
  cases script_outcome nestingLimit hsources with
  | ok hruns _ htogether hsame =>
      exact .inl ⟨_, _, parse_of_ok (hruns .left), parse_of_ok (hruns .right), hsame,
        htogether.lints⟩
  | error hruns hrest hfaults =>
      exact .inr ⟨_, _, _, parse_of_error (hruns .left), parse_of_error (hruns .right),
        hfaults.cause, hfaults.concerns hsources hrest .left, hfaults.concerns hsources hrest .right⟩
  | passed hfree => exact absurd hfree hfixed

/-- Other names, another number, a comment and the mark of an escaped name. -/
theorem parse_alike_of_renaming :
    (Stream.ofSource "fn f # c\n(a: A??) \x7b 1 \x7d").scans.map Scan.shape =
      (Stream.ofSource "fn r#in(b:B??)\x7b22\x7d").scans.map Scan.shape ∧
    ((∃ parsed parsed', parse "fn f # c\n(a: A??) \x7b 1 \x7d" = .ok parsed ∧
        parse "fn r#in(b:B??)\x7b22\x7d" = .ok parsed' ∧
        parsed.tree.outline.shape = parsed'.tree.outline.shape ∧
        parsed.warnings.map Warning.lint = parsed'.warnings.map Warning.lint) ∨
      ∃ error error' index, parse "fn f # c\n(a: A??) \x7b 1 \x7d" = .error error ∧
        parse "fn r#in(b:B??)\x7b22\x7d" = .error error' ∧
        error.cause.shape = error'.cause.shape ∧
        error.Concerns "fn f # c\n(a: A??) \x7b 1 \x7d" index ∧
        error'.Concerns "fn r#in(b:B??)\x7b22\x7d" index) := by
  have halike : (Stream.ofSource "fn f # c\n(a: A??) \x7b 1 \x7d").scans.map Scan.shape =
      (Stream.ofSource "fn r#in(b:B??)\x7b22\x7d").scans.map Scan.shape := by decide +kernel
  exact ⟨halike, parse_alike halike⟩

/-- What a script was expected to go on with, it can go on with. If it stops at
some token, and another source looks alike up to there and has a token in its
place that was expected, then an unexpected token is found only further on. -/
theorem parse_expected_sound {source other : String} {error : ParseError} {found : Kind}
    {expected : List Expected} {index : Nat} {each : Expected} {token : Token}
    (hparse : parse source = .error error) (hcause : error.cause = .unexpected found expected)
    (hindex : error.Concerns source index) (heach : each ∈ expected)
    (hbefore : ((Stream.ofSource source).results.take index).map Scan.shape =
      ((Stream.ofSource other).results.take index).map Scan.shape)
    (htoken : (Stream.ofSource other).results[index]? = some (.ok token))
    (hmeets : each.meets token.kind = true) :
    ∀ error' found' expected', parse other = .error error' →
      error'.cause = .unexpected found' expected' →
        ∃ later, index < later ∧ error'.Concerns other later := by
  intro error' found' expected' hparse' hcause'
  obtain ⟨fault, after, hrun, rfl⟩ := exists_of_parse_error hparse
  obtain ⟨fault', after', hrun', rfl⟩ := exists_of_parse_error hparse'
  obtain ⟨first, hfirst⟩ := exists_token_of_unexpected hrun hcause hindex
  obtain ⟨fork, common, hsources, hlong, hfree'⟩ : ∃ (fork : Fork) (common : List Twin),
      (∀ side, fork.behind common side = Stream.ofSource (Side.pick source other side)) ∧ _ ∧ _ := by
    apply exists_fork_of_tokens (Side.pick source other) (Side.pick first token) _ hbefore
    rintro (_ | _)
    · exact hfirst
    · exact htoken
  cases script_outcome nestingLimit hsources with
  | ok hruns => cases (hruns .left).symm.trans hrun
  | @error faults _ rest hruns hrest hfaults =>
      -- The fault of the first source shows that both stop right at the fork.
      have hfault : faults .left = fault := by
        cases (hruns .left).symm.trans hrun
        rfl
      have hfault' : faults .right = fault' := by
        cases (hruns .right).symm.trans hrun'
        rfl
      have hstop : common.length - rest.length = index :=
        (hfaults.concerns hsources hrest .left).unique (hfault ▸ hindex)
      obtain rfl : rest = [] := List.eq_nil_of_length_eq_zero (by
        have := hrest.length_le
        omega)
      have hcommon : common.length = index := by simpa using hstop
      have hshown : (fork.place .right).lookahead 0 = .ok token := by
        have hresult := fork.results_place hsources .right
        rw [hcommon] at hresult
        exact Option.some.inj (hresult.symm.trans htoken)
      subst hfault hfault'
      rw [hfaults.not_meets hcause hcause' hshown heach] at hmeets
      cases hmeets
  | passed hfree side hpassed =>
      -- The first source is at fault right at the fork, so it is the other that got past it.
      have hcommon : common.length = index := hfree'.mp hfree
      cases side with
      | left =>
          simp only [Side.pick, hrun] at hpassed
          obtain ⟨later, hlt, hlater⟩ := fork.concerns_of_passed hsources hpassed hcause
          have := hindex.unique hlater
          omega
      | right =>
          simp only [Side.pick, hrun'] at hpassed
          obtain ⟨later, hlt, hlater⟩ := fork.concerns_of_passed hsources hpassed hcause'
          exact ⟨later, hcommon ▸ hlt, hlater⟩

/-- A function may go on with a parenthesis, and then it is what stands behind the
parenthesis that is not expected. -/
theorem parse_expected_sound_of_parenthesis :
    ∃ error, parse "fn f" = .error error ∧
      error.cause = .unexpected .endOfFile [.token Punct.lparen] ∧ error.Concerns "fn f" 2 ∧
      ∀ error' found' expected', parse "fn g(" = .error error' →
        error'.cause = .unexpected found' expected' →
          ∃ later, 2 < later ∧ error'.Concerns "fn g(" later := by
  have hparse : parse "fn f" =
      .error ⟨⟨.unexpected .endOfFile [.token Punct.lparen], ⟨4, 4⟩⟩, ⟨4, 1, 5⟩⟩ := rfl
  have hindex : Fault.Concerns ⟨.unexpected .endOfFile [.token Punct.lparen], ⟨4, 4⟩⟩ "fn f" 2 := by
    unfold Fault.Concerns
    decide +kernel
  have hbefore : ((Stream.ofSource "fn f").results.take 2).map Scan.shape =
      ((Stream.ofSource "fn g(").results.take 2).map Scan.shape := by decide +kernel
  have htoken : (Stream.ofSource "fn g(").results[2]? =
      some (.ok ⟨Punct.lparen, ⟨4, 5⟩⟩) := by decide +kernel
  exact ⟨_, hparse, rfl, hindex,
    parse_expected_sound hparse rfl hindex (List.mem_singleton.mpr rfl) hbefore htoken rfl⟩

end FilterScript
