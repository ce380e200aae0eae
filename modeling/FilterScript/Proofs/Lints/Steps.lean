import FilterScript.Grammar.Item
import FilterScript.Proofs.Levels.Counts

/-!
# The warnings of a run

Warnings are only ever added, each behind those before it. `Adds` says of a
production which warnings a successful run adds, given its result. Most productions
add none; these are quiet, and which ones are follows from how they are made up.
-/

namespace FilterScript

namespace Parse

variable {α β : Type}

/-- A successful run leaves the warnings as they are. -/
class Quiet (production : Parse α) : Prop where
  warnings_eq : ∀ {state result after}, production state = .ok result after →
    after.warnings = state.warnings

/-- Every successful run adds warnings of which the statement holds, given the
result. -/
def Adds (production : Parse α) (post : α → List Warning → Prop) : Prop :=
  ∀ state result after, production state = .ok result after →
    ∃ added, after.warnings = state.warnings ++ added ∧ post result added

/-- The warnings of a run are those that the result calls for. -/
def Reports (report : α → List Warning) (production : Parse α) : Prop :=
  Adds production fun result added => added = report result

/-! ## Steps -/

namespace Quiet

instance (result : α) : Quiet (pure result) where
  warnings_eq hrun := by cases hrun; rfl

protected theorem bind {production : Parse α} {next : α → Parse β} (h : Quiet production)
    (hnext : ∀ result, Quiet (next result)) : Quiet (production >>= next) where
  warnings_eq hrun := by
    obtain ⟨result, between, hproduction, hrest⟩ := bind_eq_ok_iff.mp hrun
    exact ((hnext result).warnings_eq hrest).trans (h.warnings_eq hproduction)

instance {production : Parse α} {next : α → Parse β} [Quiet production]
    [∀ result, Quiet (next result)] : Quiet (production >>= next) :=
  .bind inferInstance inferInstance

instance {condition : Prop} [Decidable condition] {yes no : Parse α} [Quiet yes] [Quiet no] :
    Quiet (if condition then yes else no) := by
  split <;> infer_instance

instance (ahead : Nat) : Quiet (peekAt ahead) where
  warnings_eq hrun := by
    obtain ⟨-, rfl⟩ := peekAt_eq_ok_iff.mp hrun
    rfl

instance : Quiet peek :=
  inferInstanceAs (Quiet (peekAt 0))

instance : Quiet advance where
  warnings_eq hrun := by
    unfold advance at hrun
    split at hrun <;> cases hrun <;> rfl

instance (expected : Expected) : Quiet (want expected) where
  warnings_eq {state _ _} hrun := by
    cases (want_eq expected state).symm.trans hrun
    exact State.noting_warnings expected state

instance (text : String) : Quiet (intern text) where
  warnings_eq hrun := by cases hrun; rfl

instance : Quiet (get : Parse State) where
  warnings_eq hrun := by cases hrun; rfl

instance : Quiet (refuse : Parse α) where
  warnings_eq hrun := (refuse_ne_ok hrun).elim

instance (kind : Kind) : Quiet (nextIs kind) :=
  inferInstanceAs (Quiet (peek >>= fun token => pure (token.kind.variant == kind.variant)))

instance (kind : Kind) : Quiet (accepts kind) := by
  unfold accepts
  infer_instance

instance (kind : Kind) : Quiet (takes kind) := by
  unfold takes
  infer_instance

instance (kind : Kind) : Quiet (expect kind) := by
  unfold expect
  infer_instance

end Quiet

namespace Adds

variable {post post' : α → List Warning → Prop}

theorem mono {production : Parse α} (h : Adds production post)
    (himp : ∀ result added, post result added → post' result added) : Adds production post' := by
  intro state result after hrun
  obtain ⟨added, hadded, hpost⟩ := h state result after hrun
  exact ⟨added, hadded, himp result added hpost⟩

theorem of_quiet {production : Parse α} [hquiet : Quiet production]
    (h : ∀ result, post result []) : Adds production post :=
  fun _ result _ hrun => ⟨[], by simp [hquiet.warnings_eq hrun], h result⟩

protected theorem pure {result : α} (h : post result []) : Adds (pure result) post := by
  intro state value after hrun
  cases hrun
  exact ⟨[], by simp, h⟩

protected theorem refuse : Adds refuse post :=
  fun _ _ _ hrun => (refuse_ne_ok hrun).elim

/-- One production after another: the warnings of the first come before those of the
second. -/
protected theorem bind {production : Parse α} {next : α → Parse β}
    {last : β → List Warning → Prop} (h : Adds production post)
    (hnext : ∀ result added, post result added →
      Adds (next result) fun value more => last value (added ++ more)) :
    Adds (production >>= next) last := by
  intro state value after hrun
  obtain ⟨result, between, hproduction, hrest⟩ := bind_eq_ok_iff.mp hrun
  obtain ⟨added, hadded, hpost⟩ := h state result between hproduction
  obtain ⟨more, hmore, hlast⟩ := hnext result added hpost between value after hrest
  exact ⟨added ++ more, by rw [hmore, hadded, List.append_assoc], hlast⟩

theorem bind_quiet {production : Parse α} [Quiet production] {next : α → Parse β}
    {last : β → List Warning → Prop} (hnext : ∀ result, Adds (next result) last) :
    Adds (production >>= next) last := by
  have hnone : Adds production fun _ added => added = [] := of_quiet fun _ => rfl
  exact .bind hnone fun result _ hadded => hadded ▸ hnext result

/-- A production that decides how to go on. -/
theorem bind_branch {production : Parse Bool} [Quiet production] {next : Bool → Parse β}
    {last : β → List Warning → Prop} (hyes : Adds (next true) last) (hno : Adds (next false) last) :
    Adds (production >>= next) last :=
  bind_quiet fun found => match found with
    | true => hyes
    | false => hno

theorem bind_reports {production : Parse α} {report : α → List Warning} {next : α → Parse β}
    {last : β → List Warning → Prop} (h : Reports report production)
    (hnext : ∀ result, Adds (next result) fun value more => last value (report result ++ more)) :
    Adds (production >>= next) last :=
  .bind h fun result _ hadded => hadded ▸ hnext result

theorem bind_warn {lint : Lint} {span : Span} {next : Unit → Parse β}
    {last : β → List Warning → Prop}
    (hnext : Adds (next ()) fun value more => last value (⟨lint, span⟩ :: more)) :
    Adds (warn lint span >>= next) last := by
  intro state value after hrun
  obtain ⟨⟨⟩, between, hwarn, hrest⟩ := bind_eq_ok_iff.mp hrun
  cases hwarn
  obtain ⟨more, hmore, hlast⟩ := hnext _ value after hrest
  exact ⟨_, by simpa using hmore, hlast⟩

/-! ## Contexts and loops -/

protected theorem within {change : Change} {production : Parse α}
    (h : Adds production post) : Adds (within change production) post := by
  intro state result after hrun
  obtain ⟨inner, hinner, rfl⟩ := within_eq_ok_iff.mp hrun
  have hadded := h _ result inner hinner
  exact hadded

protected theorem withRecords {allowed : Bool} {production : Parse α} (h : Adds production post) :
    Adds (withRecords allowed production) post :=
  h.within

protected theorem nested {production : Parse α} (h : Adds production post) :
    Adds (nested production) post := by
  intro state result after hrun
  rw [nested_eq] at hrun
  split at hrun
  next =>
    obtain ⟨_, _, _, hthrow⟩ := bind_eq_ok_iff.mp hrun
    cases hthrow
  next => exact h.within state result after hrun

protected theorem bounded {production : Nat → Parse α} (h : ∀ most, Adds (production most) post) :
    Adds (bounded production) post :=
  fun state => h (state.input.scans.length + 1) state

/-- What a round of a loop keeps when the rounds before it have added the given
warnings. -/
@[simp] def Keeps (invariant : α → List Warning → Prop) (last : β → List Warning → Prop)
    (added : List Warning) : Round α β → List Warning → Prop
  | .more value, more => invariant value (added ++ more)
  | .done result, more => last result (added ++ more)

/-- A loop keeps what every round keeps. -/
protected theorem repeated {round : α → Parse (Round α β)} {first : α}
    {last : β → List Warning → Prop} (invariant : α → List Warning → Prop)
    (hfirst : invariant first [])
    (hround : ∀ value added, invariant value added →
      Adds (round value) (Keeps invariant last added)) :
    Adds (repeated round first) last := by
  suffices ∀ most value added, invariant value added →
      Adds (rounds round most value) fun result more => last result (added ++ more) from
    .bounded fun most => this most first [] hfirst
  intro most
  induction most with
  | zero => exact fun _ _ _ => .refuse
  | succ most ih =>
      intro value added hinvariant
      unfold rounds
      refine .bind (hround value added hinvariant) fun result more hresult => ?_
      cases result with
      | more value =>
          refine (ih value (added ++ more) hresult).mono fun result further hlast => ?_
          rwa [← List.append_assoc]
      | done result => exact .pure (by simpa using hresult)

end Adds

theorem Quiet.of_adds {production : Parse α} (h : Adds production fun _ added => added = []) :
    Quiet production where
  warnings_eq {state result after} hrun := by
    obtain ⟨_, hadded, rfl⟩ := h state result after hrun
    simpa using hadded

namespace Quiet

theorem adds {production : Parse α} (h : Quiet production) :
    Adds production fun _ added => added = [] :=
  .of_quiet fun _ => rfl

instance (allowed : Bool) (production : Parse α) [h : Quiet production] :
    Quiet (withRecords allowed production) :=
  .of_adds h.adds.withRecords

instance (production : Parse α) [h : Quiet production] : Quiet (nested production) :=
  .of_adds h.adds.nested

instance (production : Nat → Parse α) [h : ∀ most, Quiet (production most)] :
    Quiet (bounded production) :=
  .of_adds (.bounded fun most => (h most).adds)

instance (round : α → Parse (Round α β)) [h : ∀ value, Quiet (round value)] (first : α) :
    Quiet (repeated round first) :=
  .of_adds (.repeated (fun _ added => added = []) rfl fun value _ hadded =>
    .of_quiet fun result => by cases result <;> simp [hadded])

end Quiet

end Parse

namespace Grammar

open Parse

variable {α : Type}

/-! ## Names, lists of names and imports -/

instance : Quiet ident :=
  .bind inferInstance fun token => by
    split <;> infer_instance

instance : Quiet pathContinues := by
  unfold pathContinues
  infer_instance

instance (rest : List (Ident Span Symbol)) : Quiet (pathRound rest) := by
  unfold pathRound
  infer_instance

instance : Quiet path := by
  unfold path
  infer_instance

instance (close : Kind) : Quiet (loneComma close) := by
  unfold loneComma
  infer_instance

section

variable (close : Kind) (element : Parse α) [Quiet element]

instance (elements : List α) : Quiet (listRound close element elements) := by
  unfold listRound
  infer_instance

instance : Quiet (commaList close element) := by
  unfold commaList
  infer_instance

end

section

variable (member : Parse (ImportPath Span Symbol)) [Quiet member]

instance : Quiet (importPart member) :=
  .bind inferInstance fun token => by
    split <;> infer_instance

instance (parts : List (ImportPart Span Symbol)) : Quiet (importRound member parts) :=
  .bind inferInstance fun (part, span) => by
    infer_instance

end

instance (levels : Nat) : Quiet (importPathWithin levels) := by
  induction levels with
  | zero => exact inferInstanceAs (Quiet refuse)
  | succ levels ih =>
      have (start : Token) : Quiet (do
          let (parts, last) ← repeated (importRound (importPathWithin levels)) []
          return (⟨parts, start.span.hull last⟩ : ImportPath Span Symbol)) :=
        .bind inferInstance fun (parts, last) => inferInstanceAs (Quiet (pure _))
      exact inferInstanceAs (Quiet (nested _))

instance : Quiet importPath := by
  unfold importPath
  infer_instance

instance : Quiet importDeclaration := by
  unfold importDeclaration
  infer_instance

instance : Quiet pattern := by
  unfold pattern
  infer_instance

instance : Quiet blockNext := by
  unfold blockNext
  infer_instance

instance : Quiet recordNext := by
  unfold recordNext
  infer_instance

instance : Quiet exprNext := by
  unfold exprNext
  infer_instance

end Grammar

end FilterScript
