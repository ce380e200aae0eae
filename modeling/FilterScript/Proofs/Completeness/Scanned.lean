import FilterScript.Proofs.Completeness.Lexemes

/-!
# Whatever is scanned can be written

The tokens of a source have texts that tokens of their families can have. Only a
keyword may be taken for a name, when the character behind it could be a letter
by its first byte. No token begins with that character, so that scanning runs
into a flaw there.
-/

namespace FilterScript

theorem takeWhile_all {test : Char → Bool} {text : List Char} :
    ∀ c ∈ text.takeWhile test, test c = true :=
  List.all_eq_true.mp List.all_takeWhile

theorem Punct.spelling_low (mark : Punct) :
    ∃ first rest, mark.spelling.toList = first :: rest ∧ first.toNat < 128 := by
  cases mark <;> exact ⟨_, _, rfl, by decide⟩

namespace Lexeme

variable {text letters rest : List Char} {first : Char} {kind : Kind}

/-! ## Texts of tokens -/

theorem isIdentifier_of_escapedName? (h : escapedName? text = some letters) :
    IsIdentifier letters := by
  unfold escapedName? at h
  split at h
  next first rest =>
    split at h
    next hfirst =>
      cases h
      exact ⟨first, _, rfl, hfirst, takeWhile_all⟩
    next => cases h
  next => cases h

theorem isDigits_takeWhile (h : (text.takeWhile Char.isDigit).isEmpty = false) :
    IsDigits (text.takeWhile Char.isDigit) :=
  ⟨by simpa using h, takeWhile_all⟩

/-- A run of digits, and behind a dot the runs that are still asked for. -/
theorem dottedRuns?_succ {count : Nat} (h : dottedRuns? (count + 1) text = some letters) :
    ∃ run more tail, letters = run ++ '.' :: tail ∧ IsDigits run ∧
      dottedRuns? count more = some tail := by
  rw [dottedRuns?] at h
  split at h
  next => cases h
  next hrun =>
    split at h
    next more _ =>
      obtain ⟨tail, htail, rfl⟩ := Option.map_eq_some_iff.mp h
      exact ⟨_, more, tail, rfl, isDigits_takeWhile (by simpa using hrun), htail⟩
    next => cases h

theorem dottedRuns?_zero (h : dottedRuns? 0 text = some letters) : IsDigits letters := by
  rw [dottedRuns?] at h
  split at h
  next => cases h
  next hrun =>
    cases h
    exact isDigits_takeWhile (by simpa using hrun)

theorem isAddress_of_dottedRuns? (h : dottedRuns? 3 text = some letters) : IsAddress letters := by
  obtain ⟨a, _, _, rfl, ha, h⟩ := dottedRuns?_succ h
  obtain ⟨b, _, _, rfl, hb, h⟩ := dottedRuns?_succ h
  obtain ⟨c, _, d, rfl, hc, h⟩ := dottedRuns?_succ h
  exact ⟨a, b, c, d, rfl, ha, hb, hc, dottedRuns?_zero h⟩

theorem number_isWritable (hfirst : first.isDigit = true)
    (h : (number (first :: rest)).reading = .ok kind) : kind.IsWritable := by
  unfold number at h
  split at h
  next letters hletters =>
    cases h
    simpa [Kind.IsWritable] using isAddress_of_dottedRuns? hletters
  next =>
    cases h
    have hinteger : IsInteger ((first :: rest).takeWhile fun c => c.isDigit || decide (c = '_')) := by
      rw [List.takeWhile_cons_of_pos (by simp [hfirst])]
      exact ⟨first, _, rfl, hfirst, takeWhile_all⟩
    simpa [Kind.IsWritable] using hinteger

theorem quoted_isWritable (h : (quoted rest).reading = .ok kind) : kind.IsWritable := by
  unfold quoted at h
  dsimp only at h
  split at h
  next =>
    cases h
    have hcontent : ∀ c ∈ rest.takeWhile (fun c => decide (c ≠ '"')), decide (c ≠ '"') = true :=
      takeWhile_all
    intro hquote
    simpa using hcontent '"' (by simpa using hquote)
  next => cases h

/-- The character behind a word could be a letter by its first byte and is none. -/
def CutOff (text : List Char) : Prop :=
  ∃ c ∈ text.head?, Unicode.sharesIdentifierLead c = true ∧ Unicode.isIdentifierContinue c = false

theorem word_isWritable (hfirst : Unicode.isIdentifierStart first = true)
    (h : (word (first :: rest)).reading = .ok kind) :
    kind.IsWritable ∨ CutOff ((first :: rest).drop (word (first :: rest)).letters.length) := by
  unfold word at h ⊢
  cases hescaped : escapedName? (first :: rest) with
  | some name =>
      rw [hescaped] at h
      cases h
      left
      simpa [Kind.IsWritable] using isIdentifier_of_escapedName? hescaped
  | none =>
      rw [hescaped] at h
      cases h
      have hcontinue := Unicode.isIdentifierContinue_of_start hfirst
      have hletters : IsIdentifier ((first :: rest).takeWhile Unicode.isIdentifierContinue) := by
        rw [List.takeWhile_cons_of_pos hcontinue]
        exact ⟨first, _, rfl, hfirst, takeWhile_all⟩
      dsimp only
      rw [drop_length_takeWhile]
      unfold wordKind
      split
      next word _ =>
        split
        next hlead =>
          have hbehind :=
            List.head?_dropWhile_not Unicode.isIdentifierContinue (first :: rest)
          cases hnext : ((first :: rest).dropWhile Unicode.isIdentifierContinue).head? with
          | none => simp [hnext] at hlead
          | some c =>
              rw [hnext] at hlead hbehind
              exact .inr ⟨c, hnext, hlead, hbehind⟩
        next => exact .inl trivial
      next hnone =>
        refine .inl ⟨by simpa using hletters, fun _ word hword => ?_⟩
        have hspelling := congrArg String.toList hword
        rw [String.toList_ofList] at hspelling
        rw [hspelling, word.ofSpelling?_spelling] at hnone
        cases hnone

theorem ofText_isWritable (h : (ofText first rest).reading = .ok kind) :
    kind.IsWritable ∨ CutOff ((first :: rest).drop (ofText first rest).letters.length) := by
  unfold ofText at h ⊢
  split
  next hfirst =>
    rw [if_pos hfirst] at h
    exact word_isWritable hfirst h
  next hstart =>
    rw [if_neg hstart] at h
    left
    split at h
    next hfirst => exact number_isWritable hfirst h
    next =>
      split at h
      next => exact quoted_isWritable h
      next =>
        split at h
        next =>
          cases h
          trivial
        next => cases h

theorem letters_ne_nil (first : Char) (rest : List Char) : (ofText first rest).letters ≠ [] := by
  unfold ofText
  split
  next hfirst =>
    unfold word
    split
    · simp
    · rw [List.takeWhile_cons_of_pos (Unicode.isIdentifierContinue_of_start hfirst)]
      simp
  split
  next hfirst =>
    unfold number
    split
    next letters hletters =>
      obtain ⟨a, b, c, d, rfl, _⟩ := isAddress_of_dottedRuns? hletters
      simp
    next =>
      rw [List.takeWhile_cons_of_pos (by simp [hfirst])]
      simp
  split
  · unfold quoted
    dsimp only
    split <;> simp
  split
  next mark _ =>
    obtain ⟨first, rest, hspelling, _⟩ := mark.spelling_low
    simp [hspelling]
  next => simp

/-- No token begins with a character that could only be a letter by its first
byte. -/
theorem reading_of_cutOff (h : CutOff (first :: rest)) :
    128 ≤ first.toNat ∧ (ofText first rest).reading = .error .invalidCharacter := by
  obtain ⟨c, hc, hlead, hcontinue⟩ := h
  obtain rfl : first = c := by simpa using hc
  have hhigh : 128 ≤ first.toNat := by
    unfold Unicode.sharesIdentifierLead at hlead
    simp only [Bool.and_eq_true, decide_eq_true_eq] at hlead
    exact hlead.1
  have hstart : Unicode.isIdentifierStart first = false := by
    rw [← Bool.not_eq_true]
    intro hstart
    rw [Unicode.isIdentifierContinue_of_start hstart] at hcontinue
    cases hcontinue
  have hdigit : first.isDigit = false := by
    rw [← Bool.not_eq_true]
    intro hdigit
    simp only [Char.isDigit, Bool.and_eq_true, decide_eq_true_eq, UInt32.le_iff_toNat_le] at hdigit
    have hlow : first.toNat ≤ 57 := hdigit.2
    omega
  have hquote : first ≠ '"' := by
    rintro rfl
    revert hhigh
    decide
  have hmark : Punct.longestAt? (first :: rest) = none := by
    refine List.find?_eq_none.mpr fun mark _ hprefix => ?_
    obtain ⟨head, tail, hspelling, hlow⟩ := mark.spelling_low
    rw [hspelling] at hprefix
    obtain rfl : head = first := (List.cons_prefix_cons.mp (List.isPrefixOf_iff_prefix.mp hprefix)).1
    omega
  refine ⟨hhigh, ?_⟩
  unfold ofText
  rw [if_neg (by simp [hstart]), if_neg (by simp [hdigit]), if_neg hquote, hmark]

end Lexeme

namespace Cursor

theorem skipFrom_rest (comment : Bool) (text : List Char) (offset : Nat) :
    (skipFrom comment text offset).rest.length ≤ text.length := by
  fun_induction skipFrom comment text offset <;> simp_all <;> omega

theorem scans_of_cutOff {cursor : Cursor} {rounds : Nat} (h : Lexeme.CutOff cursor.rest) :
    ∃ flaw more, cursor.scans (rounds + 1) = .error flaw :: more := by
  obtain ⟨text, offset⟩ := cursor
  match text, h with
  | first :: rest, h =>
    obtain ⟨hhigh, hreading⟩ := Lexeme.reading_of_cutOff h
    have hne : ∀ c : Char, c.toNat < 128 → first ≠ c := by
      rintro c hlow rfl
      omega
    have hblank : isSeparator first = false := by
      simp [isSeparator, hne ' ' (by decide), hne '\t' (by decide), hne '\n' (by decide),
        hne '\r' (by decide), hne '\x0c' (by decide)]
    have hskip : (Cursor.mk (first :: rest) offset).skip.rest = first :: rest :=
      skip_of_begins offset hblank (hne '#' (by decide))
    rw [scans, scan_eq, hskip]
    dsimp only
    unfold found
    rw [hreading]
    exact ⟨_, _, rfl⟩

/-- If no flaw is found, all tokens can be written. -/
theorem scans_isWritable {rounds : Nat} {cursor : Cursor} {tokens : List Token}
    (hrounds : cursor.rest.length ≤ rounds) (h : cursor.scans rounds = tokens.map .ok) :
    ∀ token ∈ tokens, token.kind.IsWritable := by
  induction rounds generalizing cursor tokens with
  | zero =>
      obtain rfl : tokens = [] := List.map_eq_nil_iff.mp h.symm
      simp
  | succ rounds ih =>
      rw [scans] at h
      split at h
      next =>
        obtain rfl : tokens = [] := List.map_eq_nil_iff.mp h.symm
        simp
      next result next hscan =>
        obtain ⟨token, others, rfl, hresult, hothers⟩ := List.map_eq_cons_iff.mp h.symm
        obtain ⟨first, rest, hrest, hfound, hnext⟩ := scan_eq_some hscan
        have hreading := kind_of_found (hfound.symm.trans hresult.symm)
        have hskip : (first :: rest).length ≤ cursor.rest.length :=
          hrest ▸ skipFrom_rest false cursor.rest cursor.offset
        have hbehind : next.rest = (first :: rest).drop (Lexeme.ofText first rest).letters.length := by
          rw [hnext, behind, hrest]
        have htaken := List.length_pos_iff.mpr (Lexeme.letters_ne_nil first rest)
        have hlength : next.rest.length ≤ rounds := by
          rw [hbehind, List.length_drop]
          omega
        rcases Lexeme.ofText_isWritable hreading with hkind | hcut
        · exact List.forall_mem_cons.mpr ⟨hkind, ih hlength hothers.symm⟩
        · rw [← hbehind] at hcut
          cases rounds with
          | zero =>
              obtain ⟨c, hc, _⟩ := hcut
              rw [List.eq_nil_of_length_eq_zero (Nat.le_zero.mp hlength)] at hc
              cases hc
          | succ rounds =>
              obtain ⟨flaw, more, hflaw⟩ : ∃ flaw more, next.scans (rounds + 1) = .error flaw :: more :=
                scans_of_cutOff hcut
              rw [hflaw] at hothers
              cases others <;> cases hothers

end Cursor

end FilterScript
