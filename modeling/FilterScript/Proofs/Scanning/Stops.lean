import FilterScript.Proofs.Scanning.Tiling

/-!
# Characters that end a token

A newline, a comma and a bracket are part of no token but one that they start. What
is read in front of such a character does not depend on which one it is, nor on what
is behind it, unless a string is left open.
-/

namespace FilterScript

/-- A character that goes on with no word and no number, and with no mark that starts
in front of it. -/
structure Stops (stop : Char) : Prop where
  continues : Unicode.isIdentifierContinue stop = false
  starts : Unicode.isIdentifierStart stop = false
  lead : Unicode.sharesIdentifierLead stop = false
  digit : stop.isDigit = false
  underscore : stop ≠ '_'
  dot : stop ≠ '.'
  hash : stop ≠ '#'
  inside : ∀ mark : Punct, stop ∉ mark.spelling.toList.tail

theorem stops_newline : Stops '\n' :=
  ⟨by decide, by decide, by decide, by decide, by decide, by decide, by decide,
    fun mark => by cases mark <;> decide⟩

theorem stops_comma : Stops ',' :=
  ⟨by decide, by decide, by decide, by decide, by decide, by decide, by decide,
    fun mark => by cases mark <;> decide⟩

section Characters

variable {stop : Char}

theorem takeWhile_stop {test : Char → Bool} (htest : test stop = false) (text more : List Char) :
    (text ++ stop :: more).takeWhile test = text.takeWhile test := by
  induction text with
  | nil => simp [htest]
  | cons c rest ih => simp [List.takeWhile_cons, ih]

theorem isPrefixOf_stop {letters text more : List Char} (hletters : stop ∉ letters) :
    letters.isPrefixOf (text ++ stop :: more) = letters.isPrefixOf text := by
  induction letters generalizing text with
  | nil => simp
  | cons c letters ih =>
      rw [List.mem_cons, not_or] at hletters
      obtain ⟨hc, hletters⟩ := hletters
      cases text with
      | nil => simp [List.isPrefixOf, Ne.symm hc]
      | cons d rest => simp [List.isPrefixOf, ih hletters]

end Characters

/-! ## Lexemes -/

section

variable {stop first : Char} {text rest more : List Char}

/-- The mark at the front of a text with at least one character. -/
theorem Stops.longestAt? (hstop : Stops stop) :
    Punct.longestAt? (first :: (rest ++ stop :: more)) = Punct.longestAt? (first :: rest) := by
  unfold Punct.longestAt?
  congr 1
  funext mark
  have hinside := hstop.inside mark
  cases hletters : mark.spelling.toList with
  | nil => rfl
  | cons c letters =>
      have htail : stop ∉ letters := by simpa [hletters] using hinside
      simp [List.isPrefixOf, isPrefixOf_stop htail]

namespace Lexeme

theorem escapedName?_stop (hstop : Stops stop) :
    escapedName? (text ++ stop :: more) = escapedName? text := by
  conv => rhs; unfold escapedName?
  split
  next first rest =>
    have hrun := takeWhile_stop hstop.continues rest more
    simp [escapedName?, hrun]
  next hother =>
    unfold escapedName?
    split
    next first rest htext =>
      -- Only the character itself could be the first letter behind a mark.
      rcases text with _ | ⟨c, _ | ⟨d, _ | ⟨e, text⟩⟩⟩
      · simp only [List.nil_append, List.cons.injEq] at htext
        obtain ⟨rfl, -⟩ := htext
        exact absurd hstop.starts (by decide)
      · simp only [List.cons_append, List.nil_append, List.cons.injEq] at htext
        exact absurd htext.2.1 hstop.hash
      · simp only [List.cons_append, List.nil_append, List.cons.injEq] at htext
        obtain ⟨-, -, rfl, -⟩ := htext
        rw [hstop.starts]
        rfl
      · cases htext
        exact absurd rfl (hother _ _)
    next => rfl

theorem wordKind_stop (hstop : Stops stop) (letters : List Char) :
    wordKind letters (some stop) = wordKind letters none := by
  simp [wordKind, hstop.lead]

theorem word_stop (hstop : Stops stop) : word (text ++ stop :: more) = word text := by
  unfold word
  rw [escapedName?_stop hstop]
  cases escapedName? text with
  | some name => rfl
  | none =>
      dsimp only
      rw [takeWhile_stop hstop.continues,
        List.drop_append_of_le_length (List.takeWhile_prefix _).length_le]
      cases text.drop (text.takeWhile Unicode.isIdentifierContinue).length with
      | nil => simp [wordKind_stop hstop]
      | cons c rest => rfl

theorem dottedRuns?_stop (hstop : Stops stop) {count : Nat} :
    dottedRuns? count (text ++ stop :: more) = dottedRuns? count text := by
  induction count generalizing text with
  | zero => simp only [dottedRuns?, takeWhile_stop hstop.digit]
  | succ count ih =>
      simp only [dottedRuns?, takeWhile_stop hstop.digit]
      rw [List.drop_append_of_le_length (List.takeWhile_prefix _).length_le]
      cases text.drop (text.takeWhile Char.isDigit).length with
      | nil =>
          have hdot := hstop.dot
          simp [hdot]
      | cons c rest =>
          by_cases hc : c = '.'
          · subst hc
            simp only [List.cons_append, ih]
          · simp [hc]

theorem number_stop (hstop : Stops stop) : number (text ++ stop :: more) = number text := by
  have hdigits : (stop.isDigit || decide (stop = '_')) = false := by
    simp [hstop.digit, hstop.underscore]
  unfold number
  rw [dottedRuns?_stop hstop, takeWhile_stop hdigits]

/-- A string that is closed in front of the character. -/
theorem quoted_stop (h : '"' ∈ text) : quoted (text ++ stop :: more) = quoted text := by
  have hclosed : (text.takeWhile fun c => decide (c ≠ '"')).length < text.length := by
    by_contra hopen
    exact not_mem_of_takeWhile_length hopen h
  have hrun : (text ++ stop :: more).takeWhile (fun c => decide (c ≠ '"')) =
      text.takeWhile fun c => decide (c ≠ '"') := by
    rw [List.takeWhile_append, if_neg (Nat.ne_of_lt hclosed)]
  unfold quoted
  dsimp only
  rw [hrun, if_pos hclosed, if_pos (by rw [List.length_append]; omega)]

theorem ofText_stop (hstop : Stops stop) (h : first = '"' → '"' ∈ rest) :
    ofText first (rest ++ stop :: more) = ofText first rest := by
  unfold ofText
  rw [← List.cons_append, word_stop hstop, number_stop hstop, List.cons_append, hstop.longestAt?]
  split
  · rfl
  · split
    · rfl
    · split
      next hquote => exact quoted_stop (h hquote)
      next => rfl

theorem ofText_quote (rest : List Char) : ofText '"' rest = quoted rest :=
  rfl

/-- A string that is read has its second quote among the letters behind the first. -/
theorem quote_mem_of_reading {kind : Kind} (h : (ofText '"' rest).reading = .ok kind) :
    ∃ letters, (ofText '"' rest).letters = '"' :: letters ∧ '"' ∈ letters := by
  rw [ofText_quote] at h ⊢
  unfold quoted at h ⊢
  dsimp only at h ⊢
  split at h
  next hclosed =>
    rw [if_pos hclosed]
    exact ⟨_, rfl, List.mem_append_right _ (List.mem_singleton_self _)⟩
  next => cases h

/-- What is read in front of the character if nothing is behind is read there whatever
is behind. -/
theorem ofText_stop_of_reading (hstop : Stops stop) {kind : Kind}
    (h : (ofText first rest).reading = .ok kind) :
    ofText first (rest ++ stop :: more) = ofText first rest := by
  apply ofText_stop hstop
  rintro rfl
  obtain ⟨letters, hletters, hquote⟩ := quote_mem_of_reading h
  have hprefix := letters_prefix '"' rest
  rw [hletters, List.prefix_cons_inj] at hprefix
  exact hprefix.subset hquote

/-- A lexeme that ends in front of the character is read there if nothing is behind. -/
theorem ofText_stop_of_letters (hstop : Stops stop) {kind : Kind}
    (h : (ofText first (rest ++ stop :: more)).reading = .ok kind)
    (hends : (ofText first (rest ++ stop :: more)).letters <+: first :: rest) :
    ofText first (rest ++ stop :: more) = ofText first rest := by
  apply ofText_stop hstop
  rintro rfl
  obtain ⟨letters, hletters, hquote⟩ := quote_mem_of_reading h
  rw [hletters, List.prefix_cons_inj] at hends
  exact hends.subset hquote

end Lexeme

end

/-! ## Scans -/

namespace Cursor

variable {stop : Char} {text more : List Char} {offset : Nat}

/-- Whether a comment is open behind a text of blanks and comments. -/
def openComment : Bool → List Char → Bool
  | comment, [] => comment
  | true, c :: rest => openComment (c != '\n') rest
  | false, c :: rest => openComment (!isSeparator c) rest

/-- Blanks and comments in front of something to be read, or up to the end of a text
with more behind it. -/
theorem skipFrom_append (comment : Bool) (text tail : List Char) (offset : Nat) :
    skipFrom comment (text ++ tail) offset =
      match (skipFrom comment text offset).rest with
      | [] => skipFrom (openComment comment text) tail (offset + byteLength text)
      | first :: rest => ⟨first :: (rest ++ tail), (skipFrom comment text offset).offset⟩ := by
  fun_induction skipFrom comment text offset with
  | case1 comment offset => simp [openComment]
  | case2 c rest offset ih =>
      rw [List.cons_append, skipFrom, ih, openComment]
      simp only [byteLength_cons, Nat.add_assoc]
  | case3 c rest offset hseparator ih =>
      rw [List.cons_append, skipFrom, if_pos hseparator, ih, openComment, hseparator]
      simp only [byteLength_cons, Nat.add_assoc, Bool.not_true]
  | case4 rest offset hseparator ih =>
      rw [List.cons_append, skipFrom, if_neg hseparator, if_pos rfl, ih]
      simp only [byteLength_cons, Nat.add_assoc]
      rfl
  | case5 c rest offset hseparator hcomment =>
      rw [List.cons_append, skipFrom, if_neg hseparator, if_neg hcomment]

theorem skip_of_blank (tail : List Char) (h : (skip ⟨text, offset⟩).rest = []) :
    skip ⟨text ++ tail, offset⟩ =
      skipFrom (openComment false text) tail (offset + byteLength text) := by
  have hrest : (skipFrom false text offset).rest = [] := h
  unfold skip
  rw [skipFrom_append, hrest]

theorem skip_of_rest {first : Char} {rest : List Char} (tail : List Char)
    (h : (skip ⟨text, offset⟩).rest = first :: rest) :
    skip ⟨text ++ tail, offset⟩ = ⟨first :: (rest ++ tail), (skip ⟨text, offset⟩).offset⟩ := by
  have hrest : (skipFrom false text offset).rest = first :: rest := h
  unfold skip
  rw [skipFrom_append, hrest]

/-- A token is what is read behind blanks and comments. -/
theorem scan_eq_ok_iff {cursor next : Cursor} {token : Token} :
    cursor.scan = some (.ok token, next) ↔
      ∃ first rest kind, cursor.skip.rest = first :: rest ∧
        (Lexeme.ofText first rest).reading = .ok kind ∧
        token = ⟨kind, ⟨cursor.skip.offset, next.offset⟩⟩ ∧
        next = cursor.skip.behind (Lexeme.ofText first rest) := by
  constructor
  · intro h
    obtain ⟨first, rest, hrest, hfound, hnext⟩ := scan_eq_some h
    have hreading := kind_of_found hfound.symm
    refine ⟨first, rest, token.kind, hrest, hreading, ?_, hnext⟩
    unfold found at hfound
    rw [hreading] at hfound
    rw [hnext]
    exact Except.ok.inj hfound
  · rintro ⟨first, rest, kind, hrest, hreading, rfl, rfl⟩
    rw [scan_eq, hrest]
    dsimp only
    unfold found
    rw [hreading]
    rfl

/-- One scan in front of the character. -/
theorem scan_stop (hstop : Stops stop) {token : Token} {next : Cursor}
    (h : scan ⟨text, offset⟩ = some (.ok token, next)) :
    scan ⟨text ++ stop :: more, offset⟩ =
      some (.ok token, ⟨next.rest ++ stop :: more, next.offset⟩) := by
  obtain ⟨first, rest, kind, hrest, hreading, rfl, rfl⟩ := scan_eq_ok_iff.mp h
  have hskip := skip_of_rest (stop :: more) hrest
  have hlexeme : Lexeme.ofText first (rest ++ stop :: more) = Lexeme.ofText first rest :=
    Lexeme.ofText_stop_of_reading hstop hreading
  have hprefix := (Lexeme.letters_prefix first rest).length_le
  rw [scan_eq_ok_iff, hskip]
  refine ⟨first, rest ++ stop :: more, kind, rfl, by rw [hlexeme]; exact hreading, rfl, ?_⟩
  rw [hlexeme]
  unfold behind
  dsimp only
  rw [hrest, ← List.cons_append, List.drop_append_of_le_length hprefix]

/-- A prefix of a text in two parts that is not longer than the first part. -/
theorem prefix_of_byteLength_le {letters front back : List Char} (h : letters <+: front ++ back)
    (hle : byteLength letters ≤ byteLength front) : letters <+: front := by
  rcases List.prefix_or_prefix_of_prefix h (List.prefix_append front back) with hshort | hlong
  · exact hshort
  · obtain ⟨excess, rfl⟩ := hlong
    rw [byteLength_append] at hle
    cases excess with
    | nil => simp
    | cons c rest =>
        have hsize := c.utf8Size_pos
        rw [byteLength_cons] at hle
        omega

/-- A scan that ends in front of the character gives the same if nothing is behind. -/
theorem scan_cut (hstop : Stops stop) {token : Token} {next : Cursor}
    (h : scan ⟨text ++ stop :: more, offset⟩ = some (.ok token, next))
    (hends : next.offset ≤ offset + byteLength text) :
    ∃ rest, scan ⟨text, offset⟩ = some (.ok token, ⟨rest, next.offset⟩) ∧
      next.rest = rest ++ stop :: more := by
  obtain ⟨first, others, kind, hothers, hreading, rfl, rfl⟩ := scan_eq_ok_iff.mp h
  have hletters := Lexeme.letters_prefix first others
  have hbehind : (skip ⟨text ++ stop :: more, offset⟩).offset +
      byteLength (Lexeme.ofText first others).letters ≤ offset + byteLength text := hends
  have hlength : (skip ⟨text, offset⟩).length = offset + byteLength text :=
    skip_length ⟨text, offset⟩
  cases hrest : (skip ⟨text, offset⟩).rest with
  | nil =>
      -- Nothing is left in front of the character, so the scan starts there or behind it.
      have hskip := skip_of_blank (stop :: more) hrest
      have hlate := skipFrom_offset (openComment false text) (stop :: more)
        (offset + byteLength text)
      have hpositive := byteLength_pos (Lexeme.letters_ne_nil first others)
      rw [← hskip] at hlate
      omega
  | cons c rest =>
      have hskip := skip_of_rest (stop :: more) hrest
      rw [hskip] at hothers hbehind ⊢
      dsimp only at hbehind
      obtain ⟨rfl, rfl⟩ := List.cons.inj hothers
      rw [Cursor.length, hrest] at hlength
      have hprefix : (Lexeme.ofText c (rest ++ stop :: more)).letters <+: c :: rest :=
        prefix_of_byteLength_le hletters (by omega)
      have hlexeme := Lexeme.ofText_stop_of_letters hstop hreading hprefix
      rw [hlexeme] at hreading ⊢
      refine ⟨(c :: rest).drop (Lexeme.ofText c rest).letters.length,
        scan_eq_ok_iff.mpr ⟨c, rest, kind, hrest, hreading, rfl, ?_⟩, ?_⟩
      · unfold behind
        rw [hrest]
      · unfold behind
        rw [← List.drop_append_of_le_length (Lexeme.letters_prefix c rest).length_le]
        rfl

end Cursor

end FilterScript
