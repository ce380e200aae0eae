import FilterScript.Proofs.Parallel.Lists
import FilterScript.Proofs.Seams.Moving

/-!
# Two runs in front of a seam

Two runs of one production that stand side by side in front of a seam do the same
as long as they stay in front of it. The first run decides how far that is: the
second one ends like it, with a result that differs in spans and symbols only, or
with the same fault. One rule per step and one per way of combining steps are all
that the productions need.
-/

namespace FilterScript

/-- Two states with the same scans to come. The second run began further to the
right, with other names in its table and with warnings of its own. -/
structure Beside (seam : Seam) (common : List Scan) (state other : State) : Prop where
  left : state.input = seam.left.precededBy common
  right : other.input = seam.moved common
  expected : other.expected = state.expected
  context : other.context = state.context
  limit : other.limit = state.limit
  warnings : other.warnings = seam.warnings ++ state.warnings.map (Warning.shift · seam.bytes)
  leftNames : (state.names.enter state.input.scans).Within seam.leftNames
  rightNames : (other.names.enter other.input.scans).Within seam.rightNames

/-- The second run ends like the first one, if that ends where nothing behind the
seam can have been looked at. A run that ends right at the seam counts if it may
end at the edge. -/
structure Echo {α : Type} (seam : Seam) (edge : Bool) (related : α → α → Prop)
    (first second : EStateM.Result Fault State α) : Prop where
  ok : ∀ {result after rest}, first = .ok result after →
    after.input = seam.left.precededBy rest → (edge = false → seam.Clear rest) →
    ∃ result' after', second = .ok result' after' ∧ related result result' ∧
      Beside seam rest after after'
  error : ∀ {fault after rest}, first = .error fault after →
    after.input = seam.left.precededBy rest → seam.Clear rest →
    ∃ after', second = .error (fault.shift seam.bytes) after'

/-- What a run leaves in between is in front of the seam as well. -/
theorem State.Follows.exists_mid {place : Stream} {common rest : List Scan} {state between : State}
    (h : between.Follows state) (hstate : state.input = place.precededBy common)
    (hrest : (place.precededBy rest).scans <:+ between.input.scans) :
    ∃ mid, between.input = place.precededBy mid ∧ rest <:+ mid ∧ mid <:+ common := by
  apply Stream.exists_between
  · rw [h.length, hstate]
    rfl
  · exact hstate ▸ h.scans
  · exact hrest

/-- The last token taken on the way leads no further, and nothing has been noted
behind it. -/
structure State.Settled (after state : State) : Prop where
  expected : after.expected = []
  taken : ∃ token : Token, token.kind.leadsOn = false ∧
    .ok token :: after.input.scans <:+ state.input.scans

namespace State.Settled

variable {state after : State}

theorem trans {before : State} (h : after.Settled state)
    (hscans : state.input.scans <:+ before.input.scans) : after.Settled before := by
  obtain ⟨token, hleads, htaken⟩ := h.taken
  exact ⟨h.expected, token, hleads, htaken.trans hscans⟩

/-- Nothing in front of that token needs to look behind it. -/
theorem ample {place : Stream} {common rest : List Scan} (h : after.Settled state)
    (hstate : state.input = place.precededBy common) (hafter : after.input = place.precededBy rest) :
    Ample common := by
  obtain ⟨token, hleads, before, htaken⟩ := h.taken
  rw [hstate, hafter] at htaken
  have hscans : (before ++ .ok token :: rest) ++ place.scans = common ++ place.scans := by
    rw [List.append_assoc]
    exact htaken
  have hcommon := List.append_cancel_right hscans
  exact hcommon ▸ (Ample.of_leadsOn hleads rest).append before

end State.Settled

namespace Parse

variable {α β : Type}

/-- A run that may end at the edge ends with a token that leads no further. -/
class Settles (edge : Bool) (production : Parse α) : Prop where
  settled : edge = true → ∀ {state result after}, production state = .ok result after →
    after.Settled state

/-- Two runs that stand side by side echo each other. -/
def Echoes (seam : Seam) (common : List Scan) (edge : Bool) (first second : Parse α)
    (related : α → α → Prop) : Prop :=
  ∀ state other, seam.Clear common → Beside seam common state other →
    Echo seam edge related (first state) (second other)

namespace Settles

instance (production : Parse α) : Settles false production where
  settled h := by cases h

instance : Settles true (refuse : Parse α) where
  settled _ _ _ _ hrun := (refuse_ne_ok hrun).elim

instance {kind : Kind} [hkind : kind.IsClosing] : Settles true (expect kind) where
  settled _ state result after hrun := by
    have hrun' : (do if ← accepts kind then advance else refuse) state = .ok result after := hrun
    rw [if_accepts_eq, nextIs_bind] at hrun'
    obtain ⟨token, between, hpeek, hnext⟩ := bind_eq_ok_iff.mp hrun'
    obtain ⟨hshown, rfl⟩ := peekAt_eq_ok_iff.mp hpeek
    split at hnext
    next hvariant =>
      have htoken := Kind.eq_of_variant_eq hkind.fixed (beq_iff_eq.mp hvariant)
      obtain ⟨later, hscans⟩ := Stream.scans_of_lookahead hshown
        (htoken ▸ Kind.ne_endOfFile_of_isFixed hkind.fixed)
      unfold advance at hnext
      rw [hscans] at hnext
      cases hnext
      exact ⟨rfl, result, htoken ▸ hkind.closing, hscans ▸ List.suffix_refl _⟩
    next =>
      obtain ⟨_, _, _, hrefuse⟩ := bind_eq_ok_iff.mp hnext
      exact (refuse_ne_ok hrefuse).elim

/-- What comes last decides. -/
instance {production : Parse α} {next : α → Parse β} [Steady production]
    [h : ∀ result, Settles true (next result)] : Settles true (production >>= next) where
  settled _ state result after hrun := by
    obtain ⟨first, between, hproduction, hnext⟩ := bind_eq_ok_iff.mp hrun
    exact ((h first).settled rfl hnext).trans (Steady.follows hproduction).scans

/-- The result may still be made into something else. -/
instance {production : Parse α} {make : α → β} [Settles true production] :
    Settles true (production >>= fun result => pure (make result)) where
  settled _ state result after hrun := by
    obtain ⟨first, between, hproduction, hpure⟩ := bind_eq_ok_iff.mp hrun
    cases hpure
    exact settled rfl hproduction

instance (production : Parse α) [h : Settles true production] : Settles true (nested production) where
  settled _ state result after hrun := by
    rw [nested_eq] at hrun
    split at hrun
    next =>
      obtain ⟨_, _, _, hthrow⟩ := bind_eq_ok_iff.mp hrun
      cases hthrow
    next =>
      obtain ⟨inner, hinner, rfl⟩ := within_eq_ok_iff.mp hrun
      have hsettled := h.settled rfl hinner
      exact ⟨hsettled.expected, hsettled.taken⟩

instance (production : Nat → Parse α) [h : ∀ most, Settles true (production most)] :
    Settles true (bounded production) where
  settled _ _ _ _ hrun := (h _).settled rfl hrun

end Settles

namespace Echoes

variable {seam : Seam} {common : List Scan} {edge : Bool} {first second : Parse α}
  {related : α → α → Prop} {next next' : α → Parse β} {last : β → β → Prop}

/-- What a run ends in front of, it begins in front of. -/
theorem of_clear {state : State} {other : EStateM.Result Fault State α} [Steady first]
    [Settles edge first] (hstate : state.input = seam.left.precededBy common)
    (h : seam.Clear common → Echo seam edge related (first state) other) :
    Echo seam edge related (first state) other := by
  have hsuffix {last : List Scan} (hlast : (seam.left.precededBy last).scans <:+ state.input.scans) :
      last <:+ common := by
    obtain ⟨mid, hmid, hsuffix, -⟩ := (State.Follows.refl state).exists_mid hstate hlast
    rwa [Stream.precededBy_injective (hstate.symm.trans hmid)]
  constructor
  · intro result after last hrun hafter hlast
    have hclear : seam.Clear common := by
      cases hcase : edge with
      | false => exact (hlast hcase).of_suffix (hsuffix (hafter ▸ (Steady.follows hrun).scans))
      | true =>
          subst hcase
          exact .inr ((Settles.settled rfl hrun).ample hstate hafter)
    exact (h hclear).ok hrun hafter hlast
  · intro fault after last hrun hafter hlast
    have hclear := hlast.of_suffix (hsuffix (hafter ▸ Steady.stops hrun))
    exact (h hclear).error hrun hafter hlast

theorem mono {weaker : α → α → Prop} (h : Echoes seam common edge first second related)
    (himp : ∀ result result', related result result' → weaker result result') :
    Echoes seam common edge first second weaker := by
  intro state other hclear hbeside
  have hecho := h state other hclear hbeside
  refine ⟨fun hrun hafter hrest => ?_, hecho.error⟩
  obtain ⟨result', after', hrun', hrelated, hbeside'⟩ := hecho.ok hrun hafter hrest
  exact ⟨result', after', hrun', himp _ _ hrelated, hbeside'⟩

/-- What may end at the edge may end anywhere in front of it. -/
theorem inside (h : Echoes seam common true first second related) :
    Echoes seam common false first second related := by
  intro state other hclear hbeside
  have hecho := h state other hclear hbeside
  exact ⟨fun hrun hafter _ => hecho.ok hrun hafter Bool.noConfusion, hecho.error⟩

protected theorem pure {result result' : α} (h : related result result') :
    Echoes seam common edge (pure result) (pure result') related := by
  intro state other _ hbeside
  constructor
  · intro _ _ rest hrun hafter _
    cases hrun
    obtain rfl : common = rest := Stream.precededBy_injective (hbeside.left.symm.trans hafter)
    exact ⟨_, _, rfl, h, hbeside⟩
  · intro _ _ _ hrun
    cases hrun

/-- One production after another. With some results of the first one fewer scans
are left in front of the seam. -/
theorem bind_counting {other : Bool} (counts : α → Prop) [Steady first] [Progresses counts first]
    [∀ result, Steady (next result)] [∀ result, Settles edge (next result)]
    (h : Echoes seam common other first second related)
    (hnext : ∀ rest result result', rest.length ≤ common.length →
      (counts result → rest.length < common.length) → related result result' →
        Echoes seam rest edge (next result) (next' result') last) :
    Echoes seam common edge (first >>= next) (second >>= next') last := by
  intro state beside hclear hbeside
  have hecho := h state beside hclear hbeside
  -- The second production runs where the first one ended on both sides.
  have hrest {result : α} {between : State} {mid : List Scan} (hmid : seam.Clear mid)
      (hfirst : first state = .ok result between)
      (hbetween : between.input = seam.left.precededBy mid) (hle : mid <:+ common) :
      ∃ result' between', second beside = .ok result' between' ∧
        Echo seam edge last (next result between) (next' result' between') := by
    obtain ⟨result', between', hsecond, hrelated, hafter⟩ :=
      hecho.ok hfirst hbetween fun _ => hmid
    refine ⟨result', between', hsecond, hnext mid result result' hle.length_le ?_ hrelated _ _
      hmid hafter⟩
    intro hcounts
    have hlt := Progresses.shorter hfirst hcounts
    rw [hbetween, hbeside.left] at hlt
    simpa [Stream.precededBy] using hlt
  constructor
  · intro result after rest hrun hafter hedge
    obtain ⟨value, between, hfirst, hlast⟩ := bind_eq_ok_iff.mp hrun
    obtain ⟨mid, hbetween, hsuffix, hle⟩ := (Steady.follows hfirst).exists_mid hbeside.left
      (hafter ▸ (Steady.follows hlast).scans)
    have hmid : seam.Clear mid := by
      cases hcase : edge with
      | false => exact (hedge hcase).of_suffix hsuffix
      | true =>
          subst hcase
          exact .inr ((Settles.settled rfl hlast).ample hbetween hafter)
    obtain ⟨value', between', hsecond, hnextEcho⟩ := hrest hmid hfirst hbetween hle
    rw [bind_eq_of_ok hsecond]
    exact hnextEcho.ok hlast hafter hedge
  · intro fault after rest hrun hafter hplace
    cases hfirst : first state with
    | ok value between =>
        rw [bind_eq_of_ok hfirst] at hrun
        obtain ⟨mid, hbetween, hsuffix, hle⟩ := (Steady.follows hfirst).exists_mid hbeside.left
          (hafter ▸ Steady.stops hrun)
        obtain ⟨value', between', hsecond, hnextEcho⟩ :=
          hrest (hplace.of_suffix hsuffix) hfirst hbetween hle
        rw [bind_eq_of_ok hsecond]
        exact hnextEcho.error hrun hafter hplace
    | error fault between =>
        rw [bind_eq_of_error hfirst] at hrun
        cases hrun
        obtain ⟨after', hsecond⟩ := hecho.error hfirst hafter hplace
        exact ⟨after', bind_eq_of_error hsecond⟩

protected theorem bind {other : Bool} [Steady first] [∀ result, Steady (next result)]
    [∀ result, Settles edge (next result)] (h : Echoes seam common other first second related)
    (hnext : ∀ rest result result', rest.length ≤ common.length → related result result' →
      Echoes seam rest edge (next result) (next' result') last) :
    Echoes seam common edge (first >>= next) (second >>= next') last := by
  have : Progresses (fun _ => False) first := ⟨fun _ hnone => hnone.elim⟩
  exact h.bind_counting (fun _ => False) fun rest result result' hle _ => hnext rest result result' hle

/-- Behind a production that takes something fewer scans are left. -/
theorem bind_shorter {other : Bool} [Steady first] [h' : Progresses Always first]
    [∀ result, Steady (next result)] [∀ result, Settles edge (next result)]
    (h : Echoes seam common other first second related)
    (hnext : ∀ rest result result', rest.length < common.length → related result result' →
      Echoes seam rest edge (next result) (next' result') last) :
    Echoes seam common edge (first >>= next) (second >>= next') last :=
  h.bind_counting Always fun rest result result' _ hlt =>
    hnext rest result result' (hlt trivial)

/-- Only the result is made into something else. -/
theorem map {make make' : α → β} (h : Echoes seam common edge first second related)
    (hmake : ∀ result result', related result result' → last (make result) (make' result')) :
    Echoes seam common edge (first >>= fun result => pure (make result))
      (second >>= fun result => pure (make' result)) last := by
  intro state other hclear hbeside
  have hecho := h state other hclear hbeside
  constructor
  · intro result after rest hrun hafter hrest
    obtain ⟨value, between, hfirst, hpure⟩ := bind_eq_ok_iff.mp hrun
    cases hpure
    obtain ⟨value', after', hsecond, hrelated, hbeside'⟩ := hecho.ok hfirst hafter hrest
    exact ⟨_, after', bind_eq_of_ok hsecond, hmake _ _ hrelated, hbeside'⟩
  · intro fault after rest hrun hafter hplace
    cases hfirst : first state with
    | ok value between =>
        rw [bind_eq_of_ok hfirst] at hrun
        cases hrun
    | error fault between =>
        rw [bind_eq_of_error hfirst] at hrun
        cases hrun
        obtain ⟨after', hsecond⟩ := hecho.error hfirst hafter hplace
        exact ⟨after', bind_eq_of_error hsecond⟩

/-! ### Steps that take nothing -/

/-- Looking ahead in front of the seam. -/
theorem bind_peekAt {ahead : Nat} {next next' : Token → Parse β}
    (hseen : seam.Clear common → seam.Ends ∨ ahead < common.length)
    (h : ∀ token, (seam.left.precededBy common).lookahead ahead = .ok token →
      Echoes seam common edge (next token) (next' (token.shift seam.bytes)) last) :
    Echoes seam common edge (peekAt ahead >>= next) (peekAt ahead >>= next') last := by
  intro state other hclear hbeside
  have hmoved := Seam.lookahead_moved (hseen hclear)
  rw [← hbeside.left, ← hbeside.right] at hmoved
  cases hshown : state.input.lookahead ahead with
  | ok token =>
      rw [hshown] at hmoved
      rw [bind_eq_of_ok (peekAt_eq_ok_iff.mpr ⟨hshown, rfl⟩),
        bind_eq_of_ok (peekAt_eq_ok_iff.mpr ⟨hmoved, rfl⟩)]
      exact h token (hbeside.left ▸ hshown) state other hclear hbeside
  | error flaw =>
      rw [hshown] at hmoved
      rw [bind_eq_of_error (peekAt_eq_error hshown), bind_eq_of_error (peekAt_eq_error hmoved)]
      constructor
      · intro _ _ _ hrun
        cases hrun
      · intro _ _ _ hrun _ _
        cases hrun
        exact ⟨other, rfl⟩

theorem bind_peek {next next' : Token → Parse β}
    (h : ∀ token, (seam.left.precededBy common).lookahead 0 = .ok token →
      Echoes seam common edge (next token) (next' (token.shift seam.bytes)) last) :
    Echoes seam common edge (peek >>= next) (peek >>= next') last :=
  bind_peekAt (fun hclear => hclear.imp_right Ample.length_pos) h

theorem bind_want {expected : Expected} {next next' : Unit → Parse β}
    (h : Echoes seam common edge (next ()) (next' ()) last) :
    Echoes seam common edge (want expected >>= next) (want expected >>= next') last := by
  intro state other hclear hbeside
  rw [bind_eq_of_ok (want_eq expected state), bind_eq_of_ok (want_eq expected other)]
  apply h _ _ hclear
  constructor <;> simp only [State.noting_input, State.noting_context, State.noting_names,
    State.noting_limit, State.noting_warnings, State.noting_expected, hbeside.expected]
  · exact hbeside.left
  · exact hbeside.right
  · exact hbeside.context
  · exact hbeside.limit
  · exact hbeside.warnings
  · exact hbeside.leftNames
  · exact hbeside.rightNames

theorem bind_warn {lint : Lint} {span : Span} {next next' : Unit → Parse β}
    (h : Echoes seam common edge (next ()) (next' ()) last) :
    Echoes seam common edge (warn lint span >>= next) (warn lint (span.shift seam.bytes) >>= next')
      last := by
  intro state other hclear hbeside
  refine h _ _ hclear { hbeside with warnings := ?_ }
  simp [hbeside.warnings, Warning.shift]

theorem bind_get {next next' : State → Parse β}
    (h : ∀ state other, other.expected = state.expected → other.context = state.context →
      Echoes seam common edge (next state) (next' other) last) :
    Echoes seam common edge (get >>= next) (get >>= next') last :=
  fun state other hclear hbeside =>
    h state other hbeside.expected hbeside.context state other hclear hbeside

protected theorem throw {fault fault' : Fault} (h : fault' = fault.shift seam.bytes) :
    Echoes seam common edge (throw fault) (throw fault') related := by
  intro state other _ _
  constructor
  · intro _ _ _ hrun
    cases hrun
  · intro _ _ _ hrun _ _
    cases hrun
    exact ⟨other, h ▸ rfl⟩

protected theorem refuse : Echoes seam common edge refuse refuse related := by
  unfold refuse
  apply bind_peek
  intro token _
  apply bind_get
  intro state other hexpected _
  apply Echoes.throw
  rw [hexpected]
  rfl

/-! ### Steps that take a token -/

/-- A token that is shown in front of the seam is the first of the common scans. -/
theorem exists_cons {token : Token} (hclear : seam.Clear common)
    (hshown : (seam.left.precededBy common).lookahead 0 = .ok token)
    (hend : token.kind ≠ .endOfFile) : ∃ rest, common = .ok token :: rest := by
  obtain ⟨later, hscans⟩ := Stream.scans_of_lookahead hshown hend
  match common with
  | [] =>
      rcases hclear with hends | hample
      · cases hends.left.symm.trans hscans
      · exact hample.elim
  | scan :: rest => exact ⟨rest, congrArg (· :: rest) (List.cons.inj hscans).1⟩

/-- Both runs take the first of the common scans. -/
theorem beside_advance {token : Token} {rest : List Scan} {state other : State}
    (hbeside : Beside seam (.ok token :: rest) state other) (hname : token.kind.isName = false) :
    ∃ after after', advance state = .ok token after ∧
      advance other = .ok (token.shift seam.bytes) after' ∧ Beside seam rest after after' := by
  have hrun : advance state = .ok token
      { state with input := seam.left.precededBy rest, expected := [] } := by
    unfold advance
    rw [hbeside.left]
    rfl
  have hrun' : advance other = .ok (token.shift seam.bytes)
      { other with input := seam.moved rest, expected := [] } := by
    unfold advance
    rw [hbeside.right]
    rfl
  have hleft := hbeside.leftNames
  have hright := hbeside.rightNames
  rw [hbeside.left] at hleft
  rw [hbeside.right] at hright
  refine ⟨_, _, hrun, hrun', rfl, rfl, rfl, hbeside.context, hbeside.limit, hbeside.warnings, ?_, ?_⟩
  · exact Names.enter_of_not_isName hname ▸ hleft
  · have hname' : (token.shift seam.bytes).kind.isName = false := hname
    exact Names.enter_of_not_isName hname' ▸ hright

/-- Both runs take the token that comes next. -/
theorem bind_advance {token : Token} {next next' : Token → Parse β} [Steady (next token)]
    [Settles edge (next token)]
    (hshown : (seam.left.precededBy common).lookahead 0 = .ok token)
    (hname : token.kind.isName = false) (hend : token.kind ≠ .endOfFile)
    (h : ∀ rest, common = .ok token :: rest →
      Echoes seam rest edge (next token) (next' (token.shift seam.bytes)) last) :
    Echoes seam common edge (advance >>= next) (advance >>= next') last := by
  intro state other hclear hbeside
  obtain ⟨rest, rfl⟩ := exists_cons hclear hshown hend
  obtain ⟨after, after', hrun, hrun', hafter⟩ := beside_advance hbeside hname
  rw [bind_eq_of_ok hrun, bind_eq_of_ok hrun']
  exact of_clear hafter.left fun hrest => h rest rfl after after' hrest hafter

/-- Both runs take the token that comes next, perhaps the last one in front of the
seam. -/
protected theorem advance {token : Token}
    (hshown : (seam.left.precededBy common).lookahead 0 = .ok token)
    (hname : token.kind.isName = false) (hend : token.kind ≠ .endOfFile) :
    Echoes seam common edge advance advance
      fun taken taken' => taken = token ∧ taken' = token.shift seam.bytes := by
  intro state other hclear hbeside
  obtain ⟨rest, rfl⟩ := exists_cons hclear hshown hend
  obtain ⟨after, after', hrun, hrun', hafter⟩ := beside_advance hbeside hname
  rw [hrun, hrun']
  constructor
  · intro _ _ last hok hinput _
    cases hok
    obtain rfl : rest = last := Stream.precededBy_injective (hafter.left.symm.trans hinput)
    exact ⟨_, _, rfl, ⟨rfl, rfl⟩, hafter⟩
  · intro _ _ _ herror
    cases herror

section Questions

variable {kind : Kind} {yes yes' no no' : Parse β}

theorem if_nextIs
    (hyes : ∀ token, (seam.left.precededBy common).lookahead 0 = .ok token →
      token.kind.variant = kind.variant → Echoes seam common edge yes yes' last)
    (hno : Echoes seam common edge no no' last) :
    Echoes seam common edge (do if ← nextIs kind then yes else no)
      (do if ← nextIs kind then yes' else no') last := by
  rw [nextIs_bind, nextIs_bind]
  apply bind_peek
  intro token hshown
  rw [Token.kind_shift]
  split
  next hvariant => exact hyes token hshown (beq_iff_eq.mp hvariant)
  next => exact hno

theorem if_accepts
    (hyes : ∀ token, (seam.left.precededBy common).lookahead 0 = .ok token →
      token.kind.variant = kind.variant → Echoes seam common edge yes yes' last)
    (hno : Echoes seam common edge no no' last) :
    Echoes seam common edge (do if ← accepts kind then yes else no)
      (do if ← accepts kind then yes' else no') last := by
  rw [if_accepts_eq, if_accepts_eq]
  exact if_nextIs hyes (bind_want hno)

/-- Taking what was asked for. -/
theorem advance_of_variant {token : Token} {next next' : Token → Parse β} [Steady (next token)]
    [Settles edge (next token)] (hfixed : kind.isFixed)
    (hshown : (seam.left.precededBy common).lookahead 0 = .ok token)
    (hvariant : token.kind.variant = kind.variant)
    (h : ∀ rest, common = .ok token :: rest →
      Echoes seam rest edge (next token) (next' (token.shift seam.bytes)) last) :
    Echoes seam common edge (advance >>= next) (advance >>= next') last := by
  have hkind := Kind.eq_of_variant_eq hfixed hvariant
  exact bind_advance hshown (hkind ▸ Kind.isName_of_isFixed hfixed)
    (hkind ▸ Kind.ne_endOfFile_of_isFixed hfixed) h

theorem if_takes [Steady yes] [Settles edge yes] (hfixed : kind.isFixed)
    (hyes : ∀ token rest, common = .ok token :: rest → Echoes seam rest edge yes yes' last)
    (hno : Echoes seam common edge no no' last) :
    Echoes seam common edge (do if ← takes kind then yes else no)
      (do if ← takes kind then yes' else no') last := by
  rw [if_takes_eq, if_takes_eq]
  apply if_accepts _ hno
  intro token hshown hvariant
  exact advance_of_variant hfixed hshown hvariant fun rest => hyes token rest

protected theorem nextIs : Echoes seam common edge (nextIs kind) (nextIs kind) (· = ·) := by
  unfold Parse.nextIs
  apply bind_peek
  exact fun _ _ => .pure rfl

protected theorem takes (hfixed : kind.isFixed) :
    Echoes seam common false (takes kind) (takes kind) (· = ·) := by
  unfold Parse.takes
  apply if_accepts
  · intro token hshown hvariant
    exact advance_of_variant hfixed hshown hvariant fun _ _ => .pure rfl
  · exact .pure rfl

theorem bind_expect {next next' : Token → Parse β} [∀ token, Steady (next token)]
    [∀ token, Settles edge (next token)] (hfixed : kind.isFixed)
    (h : ∀ token rest, common = .ok token :: rest →
      Echoes seam rest edge (next token) (next' (token.shift seam.bytes)) last) :
    Echoes seam common edge (expect kind >>= next) (expect kind >>= next') last := by
  rw [expect_bind, expect_bind]
  apply if_accepts
  · intro token hshown hvariant
    exact advance_of_variant hfixed hshown hvariant (h token)
  · have hrefuse : Echoes seam common false refuse refuse fun (_ _ : Token) => False := .refuse
    exact hrefuse.bind fun _ _ _ _ hnone => hnone.elim

/-- The expected token may be the last one in front of the seam. -/
protected theorem expect (hfixed : kind.isFixed) :
    Echoes seam common edge (expect kind) (expect kind)
      fun token token' => token' = token.shift seam.bytes := by
  unfold Parse.expect
  apply if_accepts
  · intro token hshown hvariant
    have hkind := Kind.eq_of_variant_eq hfixed hvariant
    have hadvance : Echoes seam common edge advance advance
        fun taken taken' => taken = token ∧ taken' = token.shift seam.bytes :=
      .advance hshown (hkind ▸ Kind.isName_of_isFixed hfixed)
        (hkind ▸ Kind.ne_endOfFile_of_isFixed hfixed)
    apply hadvance.mono
    rintro _ _ ⟨rfl, rfl⟩
    rfl
  · exact .refuse

end Questions

/-! ### Ways to run a production -/

protected theorem within {change : Change}
    (h : Echoes seam common edge first second related) :
    Echoes seam common edge (within change first) (within change second) related := by
  intro state other hclear hbeside
  have hecho := h { state with context := change.enter state.context }
    { other with context := change.enter other.context } hclear
    { hbeside with context := congrArg change.enter hbeside.context }
  constructor
  · intro result after rest hrun hafter hrest
    obtain ⟨inner, hinner, rfl⟩ := within_eq_ok_iff.mp hrun
    have hinput : inner.input = seam.left.precededBy rest := hafter
    obtain ⟨result', inner', hinner', hrelated, hbeside'⟩ := hecho.ok hinner hinput hrest
    exact ⟨result', _, within_eq_ok_iff.mpr ⟨inner', hinner', rfl⟩, hrelated,
      { hbeside' with context := congrArg₂ change.leave hbeside.context hbeside'.context }⟩
  · intro fault after rest hrun hafter hplace
    obtain ⟨inner, hinner, rfl⟩ := within_eq_error_iff.mp hrun
    have hinput : inner.input = seam.left.precededBy rest := hafter
    obtain ⟨inner', hinner'⟩ := hecho.error hinner hinput hplace
    exact ⟨_, within_eq_error_iff.mpr ⟨inner', hinner', rfl⟩⟩

protected theorem withRecords {allowed : Bool} (h : Echoes seam common edge first second related) :
    Echoes seam common edge (withRecords allowed first) (withRecords allowed second) related :=
  h.within

/-- Both runs are equally deep. -/
protected theorem nested (h : Echoes seam common edge first second related) :
    Echoes seam common edge (nested first) (nested second) related := by
  intro state other hclear hbeside
  have hlimit : other.reachedLimit? = state.reachedLimit? := by
    simp only [State.reachedLimit?, hbeside.limit, hbeside.context]
  rw [nested_eq, nested_eq, hlimit]
  cases state.reachedLimit? with
  | some limit =>
      have hthrow : Echoes seam common edge
          (do let token ← peek; throw ⟨.tooDeep limit, token.span⟩ : Parse α)
          (do let token ← peek; throw ⟨.tooDeep limit, token.span⟩) related :=
        bind_peek fun token _ => .throw rfl
      exact hthrow state other hclear hbeside
  | none => exact h.within state other hclear hbeside

/-- Each run has a bound of its own. Both are as large as the common scans are
many. -/
protected theorem bounded {production production' : Nat → Parse α}
    (h : ∀ most most', common.length < most → common.length < most' →
      Echoes seam common edge (production most) (production' most') related) :
    Echoes seam common edge (bounded production) (bounded production') related := by
  intro state other hclear hbeside
  refine h (state.input.scans.length + 1) (other.input.scans.length + 1) ?_ ?_ state other hclear
    hbeside
  · rw [hbeside.left, Stream.precededBy, List.length_append]
    omega
  · rw [hbeside.right, Seam.moved, Stream.precededBy, List.length_append, List.length_map]
    omega

end Echoes

/-- How two rounds of a loop are related: both go on, or both are done. -/
inductive Round.Related (invariant : α → α → Prop) (last : β → β → Prop) :
    Round α β → Round α β → Prop
  | more {value value' : α} (h : invariant value value') :
      Related invariant last (.more value) (.more value')
  | done {result result' : β} (h : last result result') :
      Related invariant last (.done result) (.done result')

namespace Echoes

variable {seam : Seam} {common : List Scan} {round round' : α → Parse (Round α β)}
  {invariant : α → α → Prop} {last : β → β → Prop} {value value' : α}

/-- The rounds of two loops. The induction is on the scans in front of the seam:
every round but the last takes one of them. -/
protected theorem rounds {most most' : Nat} [∀ value, Steady (round value)]
    [∀ value, Progresses Round.IsMore (round value)]
    (hround : ∀ rest value value', rest.length ≤ common.length → invariant value value' →
      Echoes seam rest false (round value) (round' value') (Round.Related invariant last))
    (hmost : common.length < most) (hmost' : common.length < most')
    (hvalues : invariant value value') :
    Echoes seam common false (rounds round most value) (rounds round' most' value') last := by
  induction hlength : common.length using Nat.strong_induction_on
    generalizing common value value' most most' with
  | _ length ih =>
      subst hlength
      obtain ⟨less, rfl⟩ : ∃ less, most = less + 1 := ⟨most - 1, by omega⟩
      obtain ⟨less', rfl⟩ : ∃ less', most' = less' + 1 := ⟨most' - 1, by omega⟩
      rw [rounds_succ, rounds_succ]
      have hfirst := hround common value value' (Nat.le_refl _) hvalues
      apply hfirst.bind_counting Round.IsMore
      rintro rest _ _ hle hshorter hrelated
      cases hrelated with
      | done h => exact .pure h
      | more h =>
          have hlt := hshorter trivial
          apply ih rest.length hlt _ _ _ h rfl
          · exact fun later value value' hlater =>
              hround later value value' (hlater.trans hle)
          · omega
          · omega

protected theorem repeated [∀ value, Steady (round value)]
    [∀ value, Progresses Round.IsMore (round value)] (invariant : α → α → Prop)
    (hvalues : invariant value value')
    (hround : ∀ rest value value', rest.length ≤ common.length → invariant value value' →
      Echoes seam rest false (round value) (round' value') (Round.Related invariant last)) :
    Echoes seam common false (repeated round value) (repeated round' value') last :=
  .bounded fun _ _ hmost hmost' => .rounds hround hmost hmost' hvalues

end Echoes

end Parse

end FilterScript
