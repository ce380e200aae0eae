import FilterScript.Proofs.Completeness.Blocks
import FilterScript.Proofs.Progress

/-!
# Inputs that begin alike

Two inputs begin with the same scans, only that all of the second stand further to
the right, and then come to a seam, behind which they may differ. What is looked
at in front of the seam is the same, provided that what may be looked at from
there does not reach across it.
-/

namespace FilterScript

/-! ## Moving to the right -/

def Token.shift (token : Token) (bytes : Nat) : Token :=
  ⟨token.kind, token.span.shift bytes⟩

def Flaw.shift (flaw : Flaw) (bytes : Nat) : Flaw :=
  ⟨flaw.error, flaw.span.shift bytes⟩

def Scan.shift (bytes : Nat) : Scan → Scan
  | .ok token => .ok (token.shift bytes)
  | .error flaw => .error (flaw.shift bytes)

def Fault.shift (fault : Fault) (bytes : Nat) : Fault :=
  ⟨fault.cause, fault.span.shift bytes⟩

def Warning.shift (warning : Warning) (bytes : Nat) : Warning :=
  ⟨warning.lint, warning.span.shift bytes⟩

@[simp] theorem Token.kind_shift (token : Token) (bytes : Nat) :
    (token.shift bytes).kind = token.kind := rfl

@[simp] theorem Token.span_shift (token : Token) (bytes : Nat) :
    (token.shift bytes).span = token.span.shift bytes := rfl

@[simp] theorem Span.shift_zero (span : Span) : span.shift 0 = span := rfl

@[simp] theorem Scan.shift_zero (scan : Scan) : Scan.shift 0 scan = scan := by
  cases scan <;> rfl

/-! ## How far one may look -/

/-- Tokens from which one may have to look further ahead. -/
def Kind.leadsOn : Kind → Bool
  | .punct .dot | .punct .comma | .punct .lbrace | .name _ _ => true
  | _ => false

theorem Kind.isName_of_not_leadsOn {kind : Kind} (h : kind.leadsOn = false) :
    kind.isName = false := by
  cases kind <;> first | rfl | cases h

/-- Keywords and punctuation that lead no further. -/
class Kind.IsClosing (kind : Kind) : Prop where
  fixed : kind.isFixed
  closing : kind.leadsOn = false

instance : (Kind.punct .rbrace).IsClosing := ⟨rfl, rfl⟩

instance : (Kind.punct .semicolon).IsClosing := ⟨rfl, rfl⟩

/-- Whatever may have to be looked at from the first of these scans is one of
them: the scan itself, behind a dot or a comma the next one, and behind a brace
another one if a name comes next. -/
def Ample : List Scan → Prop
  | [] => False
  | [scan] => ∀ token, scan = .ok token → token.kind.leadsOn = false
  | [first, second] => ∀ brace name, first = .ok brace → second = .ok name →
      brace.kind = Punct.lbrace → name.kind.isName = false
  | _ :: _ :: _ :: _ => True

namespace Ample

variable {scan : Scan} {token : Token} {common rest : List Scan}

/-- Nothing in front needs to look further. -/
theorem cons (h : Ample rest) : Ample (scan :: rest) := by
  match rest, h with
  | [_], h =>
      intro brace name _ hname _
      exact Kind.isName_of_not_leadsOn (h name hname)
  | _ :: _ :: _, _ => trivial

theorem append (h : Ample rest) (taken : List Scan) : Ample (taken ++ rest) := by
  induction taken with
  | nil => exact h
  | cons scan taken ih => exact ih.cons

theorem of_suffix (h : Ample rest) (hrest : rest <:+ common) : Ample common := by
  obtain ⟨taken, rfl⟩ := hrest
  exact h.append taken

/-- A token that leads no further is enough. -/
theorem of_leadsOn (h : token.kind.leadsOn = false) (rest : List Scan) :
    Ample (.ok token :: rest) := by
  match rest with
  | [] =>
      rintro _ ⟨⟩
      exact h
  | [_] =>
      rintro _ _ ⟨⟩ _ hbrace
      rw [hbrace] at h
      cases h
  | _ :: _ :: _ => trivial

theorem of_length (h : 2 < common.length) : Ample common := by
  match common, h with
  | _ :: _ :: _ :: _, _ => trivial

theorem length_pos (h : Ample common) : 0 < common.length := by
  match common, h with
  | _ :: _, _ => exact Nat.succ_pos _

end Ample

/-! ## Inputs with a seam -/

/-- The input while these scans are still to come in front of a place. -/
def Stream.precededBy (place : Stream) (common : List Scan) : Stream :=
  ⟨common ++ place.scans, place.length⟩

namespace Stream

variable {place : Stream} {common rest : List Scan}

@[simp] theorem precededBy_nil (place : Stream) : place.precededBy [] = place := rfl

theorem lookahead_precededBy_succ (place : Stream) (token : Token) (rest : List Scan)
    (ahead : Nat) : (place.precededBy (.ok token :: rest)).lookahead (ahead + 1) =
      (place.precededBy rest).lookahead ahead := by
  change lookahead.go _ (rest ++ place.scans) ahead = lookahead.go _ (rest ++ place.scans) ahead
  apply lookahead_go_congr
  rfl

theorem precededBy_injective (h : place.precededBy common = place.precededBy rest) :
    common = rest :=
  List.append_cancel_right (congrArg Stream.scans h)

/-- What is between two inputs in front of a place is in front of it too. -/
theorem exists_between {between : Stream} (hlength : between.length = place.length)
    (hbetween : between.scans <:+ (place.precededBy common).scans)
    (hrest : (place.precededBy rest).scans <:+ between.scans) :
    ∃ mid, between = place.precededBy mid ∧ rest <:+ mid ∧ mid <:+ common := by
  obtain ⟨more, hmore⟩ := hrest
  obtain ⟨taken, htaken⟩ := hbetween
  refine ⟨more ++ rest, ?_, ⟨more, rfl⟩, ⟨taken, ?_⟩⟩
  · obtain ⟨scans, length⟩ := between
    simp_all [precededBy]
  · rw [← hmore, precededBy, precededBy, ← List.append_assoc, ← List.append_assoc] at htaken
    rw [← List.append_cancel_right htaken, List.append_assoc]

end Stream

/-- Two places and how far the second input lies to the right of the first. With
them the tables in which the two runs end, and the warnings that the second run
begins with. -/
structure Seam where
  left : Stream
  right : Stream
  bytes : Nat
  leftNames : Names
  rightNames : Names
  warnings : List Warning

namespace Seam

variable (seam : Seam)

/-- Both inputs end at the seam. -/
structure Ends : Prop where
  left : seam.left.scans = []
  right : seam.right.scans = []
  length : seam.right.length = seam.left.length + seam.bytes

/-- Nothing that may be looked at from here is behind the seam, or nothing differs
there. -/
def Clear (common : List Scan) : Prop :=
  seam.Ends ∨ Ample common

/-- The second input while these scans are still to come. -/
def moved (common : List Scan) : Stream :=
  seam.right.precededBy (common.map (Scan.shift seam.bytes))

variable {seam} {common rest : List Scan}

theorem Clear.of_suffix (h : seam.Clear rest) (hrest : rest <:+ common) : seam.Clear common :=
  h.imp_right (Ample.of_suffix · hrest)

/-- Behind a token that leads on, the next scan is in front of the seam as well. -/
theorem Clear.second {token : Token} (h : seam.Clear common)
    (hshown : (seam.left.precededBy common).lookahead 0 = .ok token)
    (hleads : token.kind.leadsOn = true) : seam.Ends ∨ 1 < common.length := by
  refine h.imp_right fun hample => ?_
  match common, hample with
  | [.ok first], hample =>
      cases hshown
      exact absurd hleads (by simp [hample token rfl])
  | [.error flaw], _ => cases hshown
  | _ :: _ :: _, _ => simp

/-- Behind a brace and a name there is yet another one. -/
theorem Clear.third {brace name : Token} (h : seam.Clear common)
    (hshown : (seam.left.precededBy common).lookahead 0 = .ok brace)
    (hbrace : brace.kind = Punct.lbrace)
    (hsecond : (seam.left.precededBy common).lookahead 1 = .ok name)
    (hname : name.kind.isName = true) : seam.Ends ∨ 2 < common.length := by
  refine h.imp_right fun hample => ?_
  match common, hample with
  | [.ok first], hample =>
      cases hshown
      have hleads := hample brace rfl
      rw [hbrace] at hleads
      cases hleads
  | [.error flaw], _ => cases hshown
  | [.ok first, .ok second], hample =>
      cases hshown
      cases hsecond
      exact absurd hname (by simp [hample brace name rfl rfl hbrace])
  | [.error flaw, _], _ => cases hshown
  | [.ok first, .error flaw], _ => cases hsecond
  | _ :: _ :: _ :: _, _ => simp

/-- What is looked at in front of the seam is the same. -/
theorem lookahead_moved {ahead : Nat} (h : seam.Ends ∨ ahead < common.length) :
    (seam.moved common).lookahead ahead =
      Scan.shift seam.bytes ((seam.left.precededBy common).lookahead ahead) := by
  induction common generalizing ahead with
  | nil =>
      have hends := h.resolve_right (Nat.not_lt_zero _)
      have hright : (seam.moved []).scans = [] := hends.right
      have hleft : (seam.left.precededBy []).scans = [] := hends.left
      rw [Stream.lookahead_nil hright, Stream.lookahead_nil hleft]
      change Except.ok (Token.atEnd seam.right.length) = _
      rw [hends.length]
      rfl
  | cons scan rest ih =>
      cases scan with
      | error flaw => cases ahead <;> rfl
      | ok token =>
          cases ahead with
          | zero => rfl
          | succ ahead =>
              rw [Stream.lookahead_precededBy_succ, ← ih (h.imp_right Nat.lt_of_succ_lt_succ)]
              exact Stream.lookahead_precededBy_succ _ _ _ ahead

end Seam

end FilterScript
