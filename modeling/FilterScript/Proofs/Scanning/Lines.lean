import FilterScript.Proofs.Scanning.Stops
import FilterScript.Proofs.Seams.Moving

/-!
# Scanning one line after another

A newline ends comments and every token but a string, so scanning starts anew
behind it. What a source gives is therefore what its first lines give, if they have
no flaw, and then what the other lines give, only further to the right.
-/

namespace FilterScript

/-! ## Scans -/

namespace Cursor

variable {text more : List Char} {offset : Nat}

/-- Behind a newline no comment is open. -/
theorem skipFrom_newline (comment : Bool) (more : List Char) (offset : Nat) :
    skipFrom comment ('\n' :: more) offset = skipFrom false more (offset + 1) := by
  cases comment <;> rfl

theorem scan_line_eq_none (h : scan ⟨text, offset⟩ = none) :
    scan ⟨text ++ '\n' :: more, offset⟩ = scan ⟨more, offset + byteLength text + 1⟩ := by
  have hskip : skip ⟨text ++ '\n' :: more, offset⟩ = skip ⟨more, offset + byteLength text + 1⟩ := by
    rw [skip_of_blank _ (rest_of_scan_eq_none h), skipFrom_newline]
    rfl
  rw [scan_eq, scan_eq, hskip]

/-- More rounds than there are characters give no more scans. -/
theorem scans_eq_of_le {cursor : Cursor} {rounds rounds' : Nat} (h : cursor.rest.length ≤ rounds)
    (h' : cursor.rest.length ≤ rounds') : cursor.scans rounds = cursor.scans rounds' := by
  induction rounds generalizing cursor rounds' with
  | zero =>
      obtain ⟨rest, offset⟩ := cursor
      obtain rfl : rest = [] := List.eq_nil_of_length_eq_zero (Nat.le_zero.mp h)
      cases rounds' <;> rfl
  | succ rounds ih =>
      cases hscan : cursor.scan with
      | none => cases rounds' <;> simp [scans, hscan]
      | some found =>
          obtain ⟨result, next⟩ := found
          have hshorter := rest_shorter_of_scan hscan
          obtain ⟨rounds', rfl⟩ : ∃ fewer, rounds' = fewer + 1 := ⟨rounds' - 1, by omega⟩
          have hnext : scans rounds next = scans rounds' next := ih (by omega) (by omega)
          simp only [scans, hscan, hnext]

/-- Blank text in front of a newline. -/
theorem scans_line_of_blank {rounds : Nat} (h : scan ⟨text, offset⟩ = none)
    (hrounds : more.length ≤ rounds + 1) :
    scans (rounds + 1) ⟨text ++ '\n' :: more, offset⟩ =
      scans more.length ⟨more, offset + byteLength text + 1⟩ := by
  have hmore : scans (rounds + 1) ⟨more, offset + byteLength text + 1⟩ =
      scans more.length ⟨more, offset + byteLength text + 1⟩ :=
    scans_eq_of_le hrounds (Nat.le_refl _)
  rw [← hmore, scans, scans, scan_line_eq_none h]

/-- A text whose scans are all tokens is scanned as if nothing came behind the
newline, and what comes there as if it stood alone. -/
theorem scans_line {tokens : List Token} {rounds rounds' : Nat}
    (hscans : scans rounds ⟨text, offset⟩ = tokens.map .ok) (hrounds : text.length ≤ rounds)
    (hrounds' : text.length + more.length ≤ rounds') :
    scans (rounds' + 1) ⟨text ++ '\n' :: more, offset⟩ =
      tokens.map .ok ++ scans more.length ⟨more, offset + byteLength text + 1⟩ := by
  induction rounds generalizing text offset tokens rounds' with
  | zero =>
      obtain rfl : text = [] := List.eq_nil_of_length_eq_zero (Nat.le_zero.mp hrounds)
      obtain rfl : tokens = [] := List.map_eq_nil_iff.mp hscans.symm
      exact scans_line_of_blank rfl (by omega)
  | succ rounds ih =>
      rw [scans] at hscans
      cases hscan : scan ⟨text, offset⟩ with
      | none =>
          rw [hscan] at hscans
          obtain rfl : tokens = [] := List.map_eq_nil_iff.mp hscans.symm
          exact scans_line_of_blank hscan (by omega)
      | some found =>
          obtain ⟨result, next⟩ := found
          rw [hscan] at hscans
          have htokens : tokens.map Except.ok = result :: scans rounds next := hscans.symm
          obtain ⟨token, tokens, rfl, rfl, hnext⟩ := List.map_eq_cons_iff.mp htokens
          have hshorter : next.rest.length < text.length := rest_shorter_of_scan hscan
          have hlength : next.offset + byteLength next.rest = offset + byteLength text :=
            (scan_bounds hscan).2.2
          obtain ⟨fewer, rfl⟩ : ∃ fewer, rounds' = fewer + 1 := ⟨rounds' - 1, by omega⟩
          rw [scans, scan_stop stops_newline hscan, List.map_cons, List.cons_append, ← hlength]
          exact congrArg _ (ih hnext.symm (by omega) (by omega))

/-! ## Further to the right -/

theorem skipFrom_shift (comment : Bool) (text : List Char) (offset bytes : Nat) :
    skipFrom comment text (offset + bytes) =
      ⟨(skipFrom comment text offset).rest, (skipFrom comment text offset).offset + bytes⟩ := by
  fun_induction skipFrom comment text offset with
  | case1 comment offset => cases comment <;> rfl
  | case2 c rest offset ih => rw [skipFrom, Nat.add_right_comm, ih]
  | case3 c rest offset hseparator ih =>
      rw [skipFrom, if_pos hseparator, Nat.add_right_comm, ih]
  | case4 rest offset hseparator ih =>
      rw [skipFrom, if_neg hseparator, if_pos rfl, Nat.add_right_comm, ih]
  | case5 c rest offset hseparator hcomment =>
      rw [skipFrom, if_neg hseparator, if_neg hcomment]

theorem scan_shift (text : List Char) (offset bytes : Nat) :
    scan ⟨text, offset + bytes⟩ = (scan ⟨text, offset⟩).map fun found =>
      (Scan.shift bytes found.1, ⟨found.2.rest, found.2.offset + bytes⟩) := by
  have hskip : skip ⟨text, offset + bytes⟩ =
      ⟨(skip ⟨text, offset⟩).rest, (skip ⟨text, offset⟩).offset + bytes⟩ :=
    skipFrom_shift false text offset bytes
  rw [scan_eq, scan_eq, hskip]
  obtain ⟨rest, offset⟩ := skip ⟨text, offset⟩
  cases rest with
  | nil => rfl
  | cons first rest =>
      dsimp only [Option.map_some]
      congr 2
      · unfold found
        dsimp only
        rw [Nat.add_right_comm]
        split <;> rfl
      · unfold behind
        dsimp only
        rw [Nat.add_right_comm]

theorem scans_shift (rounds : Nat) (text : List Char) (offset bytes : Nat) :
    scans rounds ⟨text, offset + bytes⟩ =
      (scans rounds ⟨text, offset⟩).map (Scan.shift bytes) := by
  induction rounds generalizing text offset with
  | zero => rfl
  | succ rounds ih =>
      rw [scans, scans, scan_shift]
      cases scan ⟨text, offset⟩ with
      | none => rfl
      | some found => simp only [Option.map_some, List.map_cons, ih]

end Cursor

/-- The stream of two sources with a newline between them. -/
theorem Stream.ofSource_line {first : String} (second : String) {tokens : List Token}
    (h : (ofSource first).scans = tokens.map .ok) :
    (ofSource (first ++ "\n" ++ second)).scans = (ofSource first).scans ++
      (ofSource second).scans.map (Scan.shift (byteLength first.toList + 1)) := by
  have htext : (first ++ "\n" ++ second).toList = first.toList ++ '\n' :: second.toList := by
    simp
  have hrounds : first.toList.length + second.toList.length ≤
      first.toList.length + second.toList.length := Nat.le_refl _
  have hscans := Cursor.scans_line h (Nat.le_refl _) hrounds
  have hshift := Cursor.scans_shift second.toList.length second.toList 0 (byteLength first.toList + 1)
  rw [h]
  unfold ofSource Cursor.ofSource
  rw [htext, List.length_append, List.length_cons, ← hshift]
  rw [Nat.zero_add, ← Nat.add_assoc] at *
  exact hscans

theorem Stream.length_line (first second : String) :
    (ofSource (first ++ "\n" ++ second)).length =
      (ofSource second).length + (byteLength first.toList + 1) := by
  have htext : (first ++ "\n" ++ second).toList = first.toList ++ '\n' :: second.toList := by
    simp
  have hsize : '\n'.utf8Size = 1 := rfl
  unfold ofSource
  rw [htext]
  simp only [byteLength_append, byteLength_cons, hsize]
  omega

end FilterScript
