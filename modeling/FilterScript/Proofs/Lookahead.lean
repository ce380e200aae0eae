import FilterScript.Proofs.Faults
import FilterScript.Proofs.Seams.Scripts

/-!
# How far ahead an error looks

A script is refused at a token before anything behind the second token after it
has been read. With a seam behind that one, the part of the first run that leads
to the fault stays in front of the seam, so it is a part of the second run too.
-/

namespace FilterScript

namespace Stream

/-- What scanning gives with this number. Behind the last scan there is the end, as
often as one asks. -/
def result (stream : Stream) (index : Nat) : Scan :=
  stream.scans[index]?.getD (Scan.atEnd stream.length)

variable {stream : Stream} {source other : String} {index last : Nat}

theorem result_of_lt (h : index < stream.scans.length) :
    stream.result index = stream.scans[index] := by
  simp [result, h]

theorem result_of_le (h : stream.scans.length ≤ index) :
    stream.result index = Scan.atEnd stream.length := by
  simp [result, h]

/-- Nothing that scanning a source gives is an end. -/
theorem length_le_of_result {length : Nat}
    (h : (ofSource source).result index = Scan.atEnd length) :
    (ofSource source).scans.length ≤ index := by
  by_contra hlt
  rw [Nat.not_le] at hlt
  rw [result_of_lt hlt] at h
  exact Cursor.scans_ne_endOfFile (h ▸ List.getElem_mem hlt) rfl

/-- Two sources that agree beyond the end of the first one agree everywhere. -/
theorem eq_of_agree
    (hagree : ∀ index ≤ last, (ofSource source).result index = (ofSource other).result index)
    (hshort : (ofSource source).scans.length ≤ last) : ofSource source = ofSource other := by
  have hend := result_of_le (Nat.le_refl (ofSource source).scans.length)
  have hother := (hagree _ hshort).symm.trans hend
  have hle := length_le_of_result hother
  have hend' := result_of_le hle
  have hlengths : (ofSource source).length = (ofSource other).length :=
    congrArg (·.span.start) (hother.symm.trans hend')
  have hle' : (ofSource source).scans.length ≤ (ofSource other).scans.length := by
    apply length_le_of_result
    exact (hagree _ (hle.trans hshort)).trans (result_of_le (Nat.le_refl _))
  have hscans : (ofSource source).scans = (ofSource other).scans := by
    apply List.ext_getElem (Nat.le_antisymm hle' hle)
    intro index hlt hlt'
    rw [← result_of_lt hlt, ← result_of_lt hlt']
    exact hagree index (Nat.le_of_lt (Nat.lt_of_lt_of_le hlt hshort))
  generalize ofSource source = first at *
  cases first
  cases hscans
  cases hlengths
  rfl

/-- Two sources that agree up to some scan of both begin with the same scans. -/
theorem take_eq_of_agree
    (hagree : ∀ index ≤ last, (ofSource source).result index = (ofSource other).result index)
    (hlong : last < (ofSource source).scans.length) (hlong' : last < (ofSource other).scans.length) :
    (ofSource source).scans.take (last + 1) = (ofSource other).scans.take (last + 1) := by
  apply List.ext_getElem
  · simp only [List.length_take]
    omega
  · intro index hlt hlt'
    rw [List.length_take] at hlt hlt'
    rw [List.getElem_take, List.getElem_take, ← result_of_lt (by omega), ← result_of_lt (by omega)]
    exact hagree index (by omega)

end Stream

/-- A run that refuses a token has read up to that token and no further. -/
theorem exists_of_concerns {source : String} {fault : Fault} {after : State} {index : Nat}
    (hrun : Grammar.script (State.ofSource nestingLimit source) = .error fault after)
    (hcause : ∀ error, fault.cause ≠ .lexical error) (hindex : fault.Concerns source index) :
    after.input.scans = (Stream.ofSource source).scans.drop index ∧
      after.input.length = (Stream.ofSource source).length := by
  have haccounted := script_accounted (State.ofSource nestingLimit source) List.nodup_nil
  rw [hrun] at haccounted
  cases haccounted with
  | error hscans hlength harises =>
      have hat : fault.At after.input := by
        cases harises with
        | lexical => exact absurd rfl (hcause _)
        | unexpected hshown _ _ => exact .unexpected _ hshown
        | tooDeep limit hshown => exact .tooDeep limit hshown
      obtain ⟨taken, htaken⟩ := hscans
      have htaken' : (Stream.ofSource source).scans = taken.map .ok ++ after.input.scans := htaken
      have hplace := hat.concerns ⟨_, htaken.symm⟩ hlength
      have hnumber := hplace.unique hindex
      rw [htaken', List.length_append, List.length_map, Nat.add_sub_cancel] at hnumber
      refine ⟨?_, hlength⟩
      rw [htaken', List.drop_left' (by simpa using hnumber)]

/-- The seam of two sources behind their first scans, where none stands further to
the right. -/
def Seam.behind (number : Nat) (source other : String) : Seam where
  left := ⟨(Stream.ofSource source).scans.drop number, (Stream.ofSource source).length⟩
  right := ⟨(Stream.ofSource other).scans.drop number, (Stream.ofSource other).length⟩
  bytes := 0
  leftNames := Names.empty.enter (Stream.ofSource source).scans
  rightNames := Names.empty.enter (Stream.ofSource other).scans
  warnings := []

/-- Two sources that begin alike begin side by side. -/
theorem beside_behind {source other : String} {number : Nat} (limit : Option Nat)
    (h : (Stream.ofSource source).scans.take number = (Stream.ofSource other).scans.take number) :
    Beside (Seam.behind number source other) ((Stream.ofSource source).scans.take number)
      (State.ofSource limit source) (State.ofSource limit other) where
  left := by simp [State.ofSource, Stream.precededBy, Seam.behind]
  right := by
    have hshift : (Scan.shift 0 : Scan → Scan) = id := funext Scan.shift_zero
    simp [State.ofSource, Seam.moved, Stream.precededBy, Seam.behind, h, hshift]
  expected := rfl
  context := rfl
  limit := rfl
  warnings := rfl
  leftNames := .refl _
  rightNames := .refl _

/-- An error at a token is decided by the text up to the second token after it.
Whatever comes behind that one, be it a flaw, the same error comes up. -/
theorem parse_error_of_agreement {source other : String} {error : ParseError} {index : Nat}
    (hparse : parse source = .error error) (hcause : ∀ lexical, error.cause ≠ .lexical lexical)
    (hindex : error.Concerns source index)
    (hagree : ∀ number ≤ index + 2,
      (Stream.ofSource source).result number = (Stream.ofSource other).result number) :
    ∃ error', parse other = .error error' ∧ error'.toFault = error.toFault := by
  obtain ⟨fault, after, hrun, rfl⟩ := exists_of_parse_error hparse
  -- If one of the sources ends before the seam would come, so does the other.
  have hsame (h : Stream.ofSource source = Stream.ofSource other) :
      ∃ error', parse other = .error error' ∧ error'.toFault = fault := by
    have hstate : State.ofSource nestingLimit other = State.ofSource nestingLimit source := by
      simp only [State.ofSource, h]
    exact ⟨_, parse_of_error (hstate ▸ hrun), rfl⟩
  rcases Nat.lt_or_ge (index + 2) (Stream.ofSource source).scans.length with hlong | hshort
  · rcases Nat.lt_or_ge (index + 2) (Stream.ofSource other).scans.length with hlong' | hshort'
    · have hbeside := beside_behind nestingLimit (Stream.take_eq_of_agree hagree hlong hlong')
      obtain ⟨hscans, hlength⟩ := exists_of_concerns hrun hcause hindex
      let rest := ((Stream.ofSource source).scans.drop index).take 3
      have hrest : after.input = (Seam.behind (index + 3) source other).left.precededBy rest := by
        have hbehind : (Stream.ofSource source).scans.drop index =
            rest ++ (Stream.ofSource source).scans.drop (index + 3) := by
          rw [← List.drop_drop, List.take_append_drop]
        rw [Stream.precededBy, Seam.behind, ← hbehind, ← hscans, ← hlength]
      have hample : Ample rest := .of_length (by simp [rest]; omega)
      have hlonger : Ample ((Stream.ofSource source).scans.take (index + 3)) :=
        .of_length (by simp; omega)
      have hecho := Grammar.script_echoes _ _ (.inr hlonger) hbeside
      obtain ⟨after', hrun'⟩ := hecho.error hrun hrest (.inr hample)
      exact ⟨_, parse_of_error hrun', rfl⟩
    · exact hsame (Stream.eq_of_agree (fun number h => (hagree number h).symm) hshort').symm
  · exact hsame (Stream.eq_of_agree hagree hshort)

/-- A quote that is never closed stands behind the second token after the error. -/
theorem parse_error_of_agreement_before_quote :
    ∃ error, parse "fn 1 a b c" = .error error ∧
      (∀ lexical, error.cause ≠ .lexical lexical) ∧ error.Concerns "fn 1 a b c" 1 ∧
      (∀ number ≤ 3, (Stream.ofSource "fn 1 a b c").result number =
        (Stream.ofSource "fn 1 a b \"c").result number) ∧
      ∃ error', parse "fn 1 a b \"c" = .error error' ∧ error'.toFault = error.toFault := by
  have hparse : parse "fn 1 a b c" =
      .error ⟨⟨.unexpected (.integer "1") [.identifier], ⟨3, 4⟩⟩, ⟨3, 1, 4⟩⟩ := rfl
  have hcause : ∀ lexical, (Cause.unexpected (.integer "1") [.identifier]) ≠ .lexical lexical := by
    simp
  have hindex : Fault.Concerns ⟨.unexpected (.integer "1") [.identifier], ⟨3, 4⟩⟩
      "fn 1 a b c" 1 := by
    unfold Fault.Concerns
    decide +kernel
  have hagree : ∀ number ≤ 3, (Stream.ofSource "fn 1 a b c").result number =
      (Stream.ofSource "fn 1 a b \"c").result number := by
    intro number hnumber
    obtain rfl | rfl | rfl | rfl : number = 0 ∨ number = 1 ∨ number = 2 ∨ number = 3 := by omega
    all_goals decide +kernel
  exact ⟨_, hparse, hcause, hindex, hagree, parse_error_of_agreement hparse hcause hindex hagree⟩

end FilterScript
