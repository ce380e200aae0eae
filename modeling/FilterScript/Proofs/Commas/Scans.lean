import FilterScript.Proofs.Scanning.Lines

/-!
# A comma more in the text

In front of a bracket one more comma can be put into a source. It is read as a token
of its own, what stands before it is read as ever, and so is what stands behind it,
one byte further to the right.
-/

namespace FilterScript

theorem stops_rparen : Stops ')' :=
  ⟨by decide, by decide, by decide, by decide, by decide, by decide, by decide,
    fun mark => by cases mark <;> decide⟩

theorem stops_rbrace : Stops '\x7d' :=
  ⟨by decide, by decide, by decide, by decide, by decide, by decide, by decide,
    fun mark => by cases mark <;> decide⟩

theorem stops_rbracket : Stops ']' :=
  ⟨by decide, by decide, by decide, by decide, by decide, by decide, by decide,
    fun mark => by cases mark <;> decide⟩

/-- The token for a comma at this offset. -/
def Token.commaAt (offset : Nat) : Token :=
  ⟨Punct.comma, ⟨offset, offset + 1⟩⟩

namespace Cursor

variable {stop : Char} {text more : List Char} {offset rounds rounds' : Nat} {closing : Scan}
  {later : List Scan}

theorem scan_comma (rest : List Char) (offset : Nat) :
    scan ⟨',' :: rest, offset⟩ = some (.ok (Token.commaAt offset), ⟨rest, offset + 1⟩) :=
  rfl

/-- The text in front of what is found where the text ends is blank, and no comment is
open behind it. -/
theorem blank_of_start {next : Cursor}
    (h : scan ⟨text ++ stop :: more, offset⟩ = some (closing, next))
    (hstart : Scan.start closing = offset + byteLength text) :
    (skip ⟨text, offset⟩).rest = [] ∧ openComment false text = false := by
  obtain ⟨first, others, hothers, rfl, rfl⟩ := scan_eq_some h
  rw [start_of_found] at hstart
  have hlength : (skip ⟨text, offset⟩).length = offset + byteLength text :=
    skip_length ⟨text, offset⟩
  cases hrest : (skip ⟨text, offset⟩).rest with
  | cons c rest =>
      have hsize := c.utf8Size_pos
      rw [skip_of_rest _ hrest] at hstart
      dsimp only at hstart
      rw [Cursor.length, hrest, byteLength_cons] at hlength
      omega
  | nil =>
      refine ⟨rfl, ?_⟩
      cases hopen : openComment false text with
      | false => rfl
      | true =>
          -- An open comment goes on over the character.
          have hsize := stop.utf8Size_pos
          rw [skip_of_blank _ hrest, hopen, skipFrom] at hstart
          have hlate := skipFrom_offset (stop != '\n') more
            (offset + byteLength text + stop.utf8Size)
          omega

/-- With a comma in front of it, what is found where a blank text ends is found behind
the comma. -/
theorem scans_comma_of_blank (hblank : (skip ⟨text, offset⟩).rest = [])
    (hopen : openComment false text = false) (hrounds : (stop :: more).length ≤ rounds)
    (hrounds' : (stop :: more).length ≤ rounds') :
    scans (rounds' + 1) ⟨text ++ ',' :: stop :: more, offset⟩ =
      .ok (Token.commaAt (offset + byteLength text)) ::
        (scans rounds ⟨text ++ stop :: more, offset⟩).map (Scan.shift 1) := by
  have hscan (tail : List Char) :
      scan ⟨text ++ tail, offset⟩ = scan ⟨tail, offset + byteLength text⟩ := by
    have hskip : skip ⟨text ++ tail, offset⟩ = skip ⟨tail, offset + byteLength text⟩ := by
      rw [skip_of_blank tail hblank, hopen]
      rfl
    rw [scan_eq, scan_eq, hskip]
  have hrest : scans rounds ⟨text ++ stop :: more, offset⟩ =
      scans rounds' ⟨stop :: more, offset + byteLength text⟩ := by
    obtain ⟨fewer, rfl⟩ : ∃ fewer, rounds = fewer + 1 :=
      ⟨rounds - 1, by rw [List.length_cons] at hrounds; omega⟩
    have hsame : scans (fewer + 1) ⟨text ++ stop :: more, offset⟩ =
        scans (fewer + 1) ⟨stop :: more, offset + byteLength text⟩ := by
      rw [scans, scans, hscan]
    rw [hsame]
    exact scans_eq_of_le hrounds hrounds'
  rw [scans, hscan, scan_comma, hrest, ← scans_shift]

/-- A comma in front of the character that a scan starts with. -/
theorem scans_comma (hstop : Stops stop) {front : List Token}
    (h : scans rounds ⟨text ++ stop :: more, offset⟩ = front.map .ok ++ closing :: later)
    (hstart : Scan.start closing = offset + byteLength text)
    (hrounds : (text ++ stop :: more).length ≤ rounds)
    (hrounds' : (text ++ stop :: more).length ≤ rounds') :
    scans (rounds' + 1) ⟨text ++ ',' :: stop :: more, offset⟩ =
      front.map .ok ++ .ok (Token.commaAt (offset + byteLength text)) ::
        (closing :: later).map (Scan.shift 1) := by
  induction front generalizing text offset rounds rounds' with
  | nil =>
      have hshort : (stop :: more).length ≤ (text ++ stop :: more).length :=
        (List.suffix_append text _).length_le
      obtain ⟨fewer, next, rfl, hscan, -⟩ := exists_scan_of_scans h
      obtain ⟨hblank, hopen⟩ := blank_of_start hscan hstart
      rw [scans_comma_of_blank hblank hopen (hshort.trans hrounds) (hshort.trans hrounds'), h]
      rfl
  | cons token front ih =>
      obtain ⟨fewer, next, rfl, hscan, hlater⟩ := exists_scan_of_scans h
      -- What is found at the end of the text starts behind this token.
      have hmem : closing ∈ scans fewer next := by
        rw [hlater]
        exact List.mem_append_right _ List.mem_cons_self
      have hends : next.offset ≤ offset + byteLength text := by
        rw [← hstart]
        exact (scans_bounds closing hmem).1
      obtain ⟨rest, hcut, hrest⟩ := scan_cut hstop hscan hends
      have hlength : next.offset + byteLength rest = offset + byteLength text :=
        (scan_bounds hcut).2.2
      have hshorter : rest.length < text.length := rest_shorter_of_scan hcut
      obtain ⟨fewer', rfl⟩ : ∃ fewer', rounds' = fewer' + 1 :=
        ⟨rounds' - 1, by rw [List.length_append, List.length_cons] at hrounds'; omega⟩
      obtain ⟨_, place⟩ := next
      obtain rfl : _ = rest ++ stop :: more := hrest
      have hfits : (rest ++ stop :: more).length < (text ++ stop :: more).length := by
        rw [List.length_append, List.length_append]
        omega
      have hfewer : (rest ++ stop :: more).length ≤ fewer := by omega
      have hfewer' : (rest ++ stop :: more).length ≤ fewer' := by omega
      have hbehind := ih hlater (hstart.trans hlength.symm) hfewer hfewer'
      rw [scans, scan_stop stops_comma hcut]
      dsimp only at hlength hbehind ⊢
      rw [hbehind, hlength]
      rfl

end Cursor

/-- The tokens of a source with a comma more in front of one of them. -/
theorem Stream.ofSource_comma {above below : String} {stop : Char} (hstop : Stops stop)
    (hbelow : below.toList.head? = some stop) {front : List Token} {closing : Scan}
    {later : List Scan}
    (h : (ofSource (above ++ below)).scans = front.map .ok ++ closing :: later)
    (hstart : Scan.start closing = byteLength above.toList) :
    (ofSource (above ++ "," ++ below)).scans =
      front.map .ok ++ .ok (Token.commaAt (byteLength above.toList)) ::
        (closing :: later).map (Scan.shift 1) := by
  obtain ⟨more, hmore⟩ : ∃ more, below.toList = stop :: more := by
    cases htext : below.toList with
    | nil => simp [htext] at hbelow
    | cons c more =>
        rw [htext] at hbelow
        obtain rfl := Option.some.inj hbelow
        exact ⟨more, rfl⟩
  have htext : (above ++ below).toList = above.toList ++ stop :: more := by simp [hmore]
  have htext' : (above ++ "," ++ below).toList = above.toList ++ ',' :: stop :: more := by
    simp [hmore]
  unfold ofSource Cursor.ofSource at h ⊢
  rw [htext] at h
  rw [htext']
  have hlength : (above.toList ++ ',' :: stop :: more).length =
      (above.toList ++ stop :: more).length + 1 := by
    simp [Nat.add_assoc]
  have hcomma := Cursor.scans_comma hstop h (by rw [hstart, Nat.zero_add]) (Nat.le_refl _)
    (Nat.le_refl _)
  rw [Nat.zero_add] at hcomma
  rw [hlength]
  exact hcomma

end FilterScript
