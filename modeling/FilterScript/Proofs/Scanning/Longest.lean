import FilterScript.Proofs.Scanning.Tiling

/-!
# The longest match wins

Each kind of token has a pattern. Where one of the patterns matches the text in
front of the scanner, the longest piece that any of them matches is cut off, and
where none does there is a flaw. Which family of tokens can match is settled by the
first character, so it is enough to find the longest match within a family.
-/

namespace FilterScript

/-- The pattern of this kind matches the text. A keyword matches the pattern of
names too. -/
inductive Kind.Matches : Kind → List Char → Prop
  | keyword (word : Keyword) : Matches (.keyword word) word.spelling.toList
  | punct (mark : Punct) : Matches (.punct mark) mark.spelling.toList
  | integer {letters : List Char} (h : IsInteger letters) :
      Matches (.integer (String.ofList letters)) letters
  | ipv4 {letters : List Char} (h : IsAddress letters) :
      Matches (.ipv4 (String.ofList letters)) letters
  | string {content : List Char} (h : '"' ∉ content) :
      Matches (.string (String.ofList content)) ('"' :: (content ++ ['"']))
  | plainName {letters : List Char} (h : IsIdentifier letters) :
      Matches (.name (String.ofList letters) false) letters
  | rawName {letters : List Char} (h : IsIdentifier letters) :
      Matches (.name (String.ofList letters) true) ('r' :: '#' :: letters)

/-- No pattern matches a longer piece at the front of the text than this one. -/
def Longest (text letters : List Char) : Prop :=
  ∀ other kind, other <+: text → Kind.Matches kind other → other.length ≤ letters.length

/-- Some pattern matches a piece at the front of the text. -/
def Matchable (text : List Char) : Prop :=
  ∃ letters kind, letters <+: text ∧ Kind.Matches kind letters

/-! ## Families -/

/-- What a text that some pattern matches is, by its first character. -/
inductive Family : List Char → Prop
  | word {first : Char} {rest : List Char} (hfirst : Unicode.isIdentifierStart first = true)
      (h : IsIdentifier (first :: rest) ∨
        ∃ name, first :: rest = 'r' :: '#' :: name ∧ IsIdentifier name) : Family (first :: rest)
  | number {first : Char} {rest : List Char} (hfirst : first.isDigit = true)
      (h : IsInteger (first :: rest) ∨ IsAddress (first :: rest)) : Family (first :: rest)
  | quoted {content : List Char} (h : '"' ∉ content) : Family ('"' :: (content ++ ['"']))
  | mark (mark : Punct) : Family mark.spelling.toList

theorem Kind.Matches.family {kind : Kind} {letters : List Char} (h : kind.Matches letters) :
    Family letters := by
  have hname : ∀ {letters}, IsIdentifier letters → Family letters := by
    intro letters h
    obtain ⟨first, rest, rfl, hfirst, _⟩ := id h
    exact .word hfirst (.inl h)
  cases h with
  | keyword word => exact hname word.isIdentifier_spelling
  | punct mark => exact .mark mark
  | integer h =>
      obtain ⟨first, rest, rfl, hfirst, _⟩ := id h
      exact .number hfirst (.inl h)
  | ipv4 h =>
      obtain ⟨run, _, _, _, rfl, ⟨hne, hrun⟩, _⟩ := id h
      obtain ⟨first, rest, rfl⟩ := List.exists_cons_of_ne_nil hne
      exact .number (hrun first List.mem_cons_self) (.inr h)
  | string h => exact .quoted h
  | plainName h => exact hname h
  | rawName h => exact .word (by decide) (.inr ⟨_, rfl, h⟩)

theorem Kind.Matches.ne_nil {kind : Kind} {letters : List Char} (h : kind.Matches letters) :
    letters ≠ [] := by
  cases h.family with
  | mark mark =>
      obtain ⟨_, _, hspelling, _⟩ := mark.spelling_low
      simp [hspelling]
  | _ => simp

section Families

variable {first : Char} {rest other : List Char} {kind : Kind}

theorem family_of_prefix (h : other <+: first :: rest) (hmatches : kind.Matches other) :
    Family other ∧ ∃ tail, other = first :: tail ∧ tail <+: rest := by
  refine ⟨hmatches.family, ?_⟩
  obtain ⟨head, tail, rfl⟩ := List.exists_cons_of_ne_nil hmatches.ne_nil
  obtain ⟨rfl, htail⟩ := List.cons_prefix_cons.mp h
  exact ⟨tail, rfl, htail⟩

/-- At a letter only words match. -/
theorem word_of_prefix (hfirst : Unicode.isIdentifierStart first = true)
    (h : other <+: first :: rest) (hmatches : kind.Matches other) :
    IsIdentifier other ∨ ∃ name, other = 'r' :: '#' :: name ∧ IsIdentifier name := by
  obtain ⟨hfamily, tail, hother, -⟩ := family_of_prefix h hmatches
  cases hfamily with
  | word _ hword => exact hword
  | number hdigit _ =>
      obtain ⟨rfl, -⟩ := List.cons.inj hother
      simp [isIdentifierStart_of_isDigit hdigit] at hfirst
  | quoted _ =>
      obtain ⟨rfl, -⟩ := List.cons.inj hother
      exact absurd hfirst (by decide)
  | mark mark =>
      obtain ⟨head, others, hspelling, hstart, -, -⟩ := mark.spelling_begins
      obtain ⟨rfl, -⟩ := List.cons.inj (hspelling.symm.trans hother)
      simp [hstart] at hfirst

/-- At a digit only numbers match. -/
theorem number_of_prefix (hfirst : first.isDigit = true)
    (h : other <+: first :: rest) (hmatches : kind.Matches other) :
    IsInteger other ∨ IsAddress other := by
  obtain ⟨hfamily, tail, hother, -⟩ := family_of_prefix h hmatches
  cases hfamily with
  | word hstart _ =>
      obtain ⟨rfl, -⟩ := List.cons.inj hother
      simp [isIdentifierStart_of_isDigit hfirst] at hstart
  | number _ hnumber => exact hnumber
  | quoted _ =>
      obtain ⟨rfl, -⟩ := List.cons.inj hother
      exact absurd hfirst (by decide)
  | mark mark =>
      obtain ⟨head, others, hspelling, -, hdigit, -⟩ := mark.spelling_begins
      obtain ⟨rfl, -⟩ := List.cons.inj (hspelling.symm.trans hother)
      simp [hdigit] at hfirst

/-- At a quote only strings match. -/
theorem quoted_of_prefix (h : other <+: '"' :: rest) (hmatches : kind.Matches other) :
    ∃ content, other = '"' :: (content ++ ['"']) ∧ '"' ∉ content := by
  obtain ⟨hfamily, tail, hother, -⟩ := family_of_prefix h hmatches
  cases hfamily with
  | word hstart _ =>
      obtain ⟨rfl, -⟩ := List.cons.inj hother
      exact absurd hstart (by decide)
  | number hdigit _ =>
      obtain ⟨rfl, -⟩ := List.cons.inj hother
      exact absurd hdigit (by decide)
  | quoted hcontent => exact ⟨_, rfl, hcontent⟩
  | mark mark =>
      obtain ⟨head, others, hspelling, -, -, hquote⟩ := mark.spelling_begins
      obtain ⟨rfl, -⟩ := List.cons.inj (hspelling.symm.trans hother)
      exact absurd rfl hquote

/-- Everywhere else only punctuation matches. -/
theorem mark_of_prefix (hstart : ¬ Unicode.isIdentifierStart first = true)
    (hdigit : ¬ first.isDigit = true) (hquote : first ≠ '"') (h : other <+: first :: rest)
    (hmatches : kind.Matches other) : ∃ mark : Punct, other = mark.spelling.toList := by
  obtain ⟨hfamily, tail, hother, -⟩ := family_of_prefix h hmatches
  cases hfamily with
  | word hfirst _ => exact absurd ((List.cons.inj hother).1 ▸ hfirst) hstart
  | number hfirst _ => exact absurd ((List.cons.inj hother).1 ▸ hfirst) hdigit
  | quoted _ => exact absurd (List.cons.inj hother).1.symm hquote
  | mark mark => exact ⟨mark, rfl⟩

end Families

/-! ## The longest match of a family -/

namespace Lexeme

variable {first : Char} {text rest letters other : List Char} {kind : Kind}

/-- A run of characters holds every piece at the front that is made of them. -/
theorem length_le_takeWhile {test : Char → Bool} (h : other <+: text)
    (hall : ∀ c ∈ other, test c = true) : other.length ≤ (text.takeWhile test).length := by
  obtain ⟨behind, rfl⟩ := h
  rw [List.takeWhile_append_of_pos hall, List.length_append]
  exact Nat.le_add_right _ _

theorem all_of_isIdentifier (h : IsIdentifier letters) :
    ∀ c ∈ letters, Unicode.isIdentifierContinue c = true := by
  obtain ⟨first, rest, rfl, hfirst, hrest⟩ := h
  exact List.forall_mem_cons.mpr ⟨Unicode.isIdentifierContinue_of_start hfirst, hrest⟩

theorem all_of_isInteger (h : IsInteger letters) : ∀ c ∈ letters, (c.isDigit || c = '_') = true := by
  obtain ⟨first, rest, rfl, hfirst, hrest⟩ := h
  exact List.forall_mem_cons.mpr ⟨by simp [hfirst], hrest⟩

/-- An escaped name that matches is found. -/
theorem escapedName?_of_prefix (h : 'r' :: '#' :: other <+: text) (hother : IsIdentifier other) :
    ∃ name, escapedName? text = some name ∧ other.length ≤ name.length := by
  obtain ⟨behind, rfl⟩ := h
  obtain ⟨first, rest, rfl, hfirst, hrest⟩ := hother
  have hrun : rest.length ≤ ((rest ++ behind).takeWhile Unicode.isIdentifierContinue).length :=
    length_le_takeWhile (List.prefix_append _ _) hrest
  refine ⟨_, if_pos hfirst, ?_⟩
  simpa using hrun

theorem word_longest (hfirst : Unicode.isIdentifierStart first = true) :
    Longest (first :: rest) (word (first :: rest)).letters := by
  intro other kind hprefix hmatches
  have hword := word_of_prefix hfirst hprefix hmatches
  unfold word
  cases hescaped : escapedName? (first :: rest) with
  | some name =>
      dsimp only
      rcases hword with hplain | ⟨letters, rfl, hletters⟩
      · -- A plain name ends before the mark of the escaped one.
        have hrun := length_le_takeWhile hprefix (all_of_isIdentifier hplain)
        obtain ⟨behind, hbehind⟩ := letters_prefix_of_escapedName? hescaped
        rw [← hbehind, List.cons_append, List.cons_append,
          List.takeWhile_cons_of_pos (by decide), List.takeWhile_cons_of_neg (by decide)] at hrun
        simp only [List.length_cons, List.length_nil] at hrun ⊢
        omega
      · obtain ⟨found, hfound, hlength⟩ := escapedName?_of_prefix hprefix hletters
        obtain rfl : name = found := Option.some.inj (hescaped.symm.trans hfound)
        simpa using hlength
  | none =>
      dsimp only
      rcases hword with hplain | ⟨letters, rfl, hletters⟩
      · exact length_le_takeWhile hprefix (all_of_isIdentifier hplain)
      · obtain ⟨found, hfound, -⟩ := escapedName?_of_prefix hprefix hletters
        cases hescaped.symm.trans hfound

/-- An address that matches is found, and perhaps its last number goes on. -/
theorem dottedRuns?_of_prefix (h : other <+: text) (hother : IsAddress other) :
    ∃ letters, dottedRuns? 3 text = some letters ∧ other.length ≤ letters.length := by
  obtain ⟨behind, rfl⟩ := h
  obtain ⟨a, b, c, d, rfl, ha, hb, hc, hne, hd⟩ := hother
  let last := (d ++ behind).takeWhile Char.isDigit
  have hlast : d.length ≤ last.length := length_le_takeWhile (List.prefix_append _ _) hd
  have hend : dottedRuns? 0 (d ++ behind) = some last := by
    have hpos := List.length_pos_iff.mpr hne
    have hrun : last ≠ [] := List.length_pos_iff.mp (by omega)
    rw [dottedRuns?]
    exact if_neg (by simpa [last] using hrun)
  refine ⟨a ++ '.' :: (b ++ '.' :: (c ++ '.' :: last)), ?_, ?_⟩
  · simp only [List.append_assoc, List.cons_append]
    exact dottedRuns?_cons ha (dottedRuns?_cons hb (dottedRuns?_cons hc hend))
  · simp only [List.length_append, List.length_cons]
    omega

theorem number_longest (hfirst : first.isDigit = true) :
    Longest (first :: rest) (number (first :: rest)).letters := by
  intro other kind hprefix hmatches
  have hnumber := number_of_prefix hfirst hprefix hmatches
  unfold number
  cases hruns : dottedRuns? 3 (first :: rest) with
  | some letters =>
      dsimp only
      rcases hnumber with hinteger | haddress
      · -- An integer that were longer would hold the first dot of the address.
        by_contra hlonger
        have hinside : letters <+: other :=
          List.prefix_of_prefix_length_le (prefix_of_dottedRuns? hruns) hprefix (by omega)
        obtain ⟨a, _, _, _, rfl, -⟩ := isAddress_of_dottedRuns? hruns
        have hdot := all_of_isInteger hinteger '.' (hinside.subset (by simp))
        exact absurd hdot (by decide)
      · obtain ⟨found, hfound, hlength⟩ := dottedRuns?_of_prefix hprefix haddress
        obtain rfl : letters = found := Option.some.inj (hruns.symm.trans hfound)
        exact hlength
  | none =>
      dsimp only
      rcases hnumber with hinteger | haddress
      · exact length_le_takeWhile hprefix (all_of_isInteger hinteger)
      · obtain ⟨found, hfound, -⟩ := dottedRuns?_of_prefix hprefix haddress
        cases hruns.symm.trans hfound

/-- The content of a string at the front of a text runs up to the first quote. -/
theorem takeWhile_content {content behind : List Char} (h : '"' ∉ content) :
    (content ++ '"' :: behind).takeWhile (fun c => c ≠ '"') = content := by
  have hall : ∀ c ∈ content, decide (c ≠ '"') = true := by
    intro c hc
    simpa using fun heq : c = '"' => h (heq ▸ hc)
  rw [List.takeWhile_append_of_pos hall, List.takeWhile_cons_of_neg (by simp), List.append_nil]

theorem quoted_longest : Longest ('"' :: rest) (quoted rest).letters := by
  intro other kind hprefix hmatches
  obtain ⟨content, rfl, hcontent⟩ := quoted_of_prefix hprefix hmatches
  obtain ⟨behind, hbehind⟩ := (List.cons_prefix_cons.mp hprefix).2
  obtain rfl : rest = content ++ '"' :: behind := by simpa using hbehind.symm
  unfold quoted
  simp only [takeWhile_content hcontent]
  rw [if_pos (by simp)]

/-- Of the marks at the front of a text, the first one in the list is the longest. -/
theorem longestAt?_longest {mark : Punct} (h : mark.spelling.toList <+: text) :
    ∃ found, Punct.longestAt? text = some found ∧
      mark.spelling.toList.length ≤ found.spelling.toList.length := by
  have hsorted : Punct.all.Pairwise fun mark later =>
      later.spelling.toList.length ≤ mark.spelling.toList.length := by decide
  cases hfound : Punct.longestAt? text with
  | none =>
      have hnone := List.find?_eq_none.mp hfound mark mark.mem_all
      exact absurd (List.isPrefixOf_iff_prefix.mpr h) hnone
  | some found =>
      refine ⟨found, rfl, ?_⟩
      obtain ⟨_, before, behind, hall, hbefore⟩ := List.find?_eq_some_iff_append.mp hfound
      have hmem : mark ∈ before ++ found :: behind := hall ▸ mark.mem_all
      rcases List.mem_append.mp hmem with hmem | hmem
      · have hskipped := hbefore mark hmem
        rw [List.isPrefixOf_iff_prefix.mpr h] at hskipped
        cases hskipped
      · rw [hall] at hsorted
        rcases List.mem_cons.mp hmem with rfl | hmem
        · exact Nat.le_refl _
        · exact (List.pairwise_cons.mp (List.pairwise_append.mp hsorted).2.1).1 mark hmem

/-! ## One lexeme -/

/-- No pattern matches more than what is cut off. -/
theorem ofText_longest : Longest (first :: rest) (ofText first rest).letters := by
  unfold ofText
  split
  next hstart => exact word_longest hstart
  next hstart =>
    split
    next hdigit => exact number_longest hdigit
    next hdigit =>
      split
      next hquote => exact hquote ▸ quoted_longest
      next hquote =>
        intro other kind hprefix hmatches
        obtain ⟨mark, rfl⟩ := mark_of_prefix hstart hdigit hquote hprefix hmatches
        obtain ⟨found, hfound, hlength⟩ := longestAt?_longest hprefix
        rwa [hfound]

theorem word_matches (hfirst : Unicode.isIdentifierStart first = true)
    (h : (word (first :: rest)).reading = .ok kind) :
    kind.Matches (word (first :: rest)).letters := by
  unfold word at h ⊢
  cases hescaped : escapedName? (first :: rest) with
  | some name =>
      rw [hescaped] at h
      cases h
      exact .rawName (isIdentifier_of_escapedName? hescaped)
  | none =>
      rw [hescaped] at h
      cases h
      have hletters : IsIdentifier ((first :: rest).takeWhile Unicode.isIdentifierContinue) := by
        rw [List.takeWhile_cons_of_pos (Unicode.isIdentifierContinue_of_start hfirst)]
        exact ⟨first, _, rfl, hfirst, takeWhile_all⟩
      dsimp only
      unfold wordKind
      split
      next word hword =>
        split
        · exact .plainName hletters
        · have hspelled := List.find?_some hword
          exact beq_iff_eq.mp hspelled ▸ .keyword word
      next => exact .plainName hletters

theorem number_matches (hfirst : first.isDigit = true)
    (h : (number (first :: rest)).reading = .ok kind) :
    kind.Matches (number (first :: rest)).letters := by
  unfold number at h ⊢
  split at h
  next letters hletters =>
    cases h
    exact .ipv4 (isAddress_of_dottedRuns? hletters)
  next =>
    cases h
    refine .integer ?_
    rw [List.takeWhile_cons_of_pos (by simp [hfirst])]
    exact ⟨first, _, rfl, hfirst, takeWhile_all⟩

theorem quoted_matches (h : (quoted rest).reading = .ok kind) :
    kind.Matches (quoted rest).letters := by
  unfold quoted at h ⊢
  dsimp only at h ⊢
  split at h
  next hcloses =>
    cases h
    rw [if_pos hcloses]
    refine .string fun hquote => ?_
    have hcontent : decide ('"' ≠ '"') = true :=
      @takeWhile_all (fun c => decide (c ≠ '"')) _ _ hquote
    simp at hcontent
  next => cases h

/-- What is read as a token matches the pattern of its kind. -/
theorem ofText_matches (h : (ofText first rest).reading = .ok kind) :
    kind.Matches (ofText first rest).letters := by
  unfold ofText at h ⊢
  split
  next hstart =>
    rw [if_pos hstart] at h
    exact word_matches hstart h
  next hstart =>
    rw [if_neg hstart] at h
    split
    next hdigit =>
      rw [if_pos hdigit] at h
      exact number_matches hdigit h
    next hdigit =>
      rw [if_neg hdigit] at h
      split
      next hquote =>
        rw [if_pos hquote] at h
        exact quoted_matches h
      next hquote =>
        rw [if_neg hquote] at h
        split at h
        next mark hmark =>
          cases h
          exact .punct mark
        next => cases h

/-- Where something matches there is no flaw. -/
theorem exists_reading_of_matchable (h : Matchable (first :: rest)) :
    ∃ kind, (ofText first rest).reading = .ok kind := by
  obtain ⟨letters, kind, hprefix, hmatches⟩ := h
  unfold ofText
  split
  · unfold word
    split <;> exact ⟨_, rfl⟩
  next hstart =>
    split
    · unfold number
      split <;> exact ⟨_, rfl⟩
    next hdigit =>
      split
      next hquote =>
        subst hquote
        obtain ⟨content, rfl, hcontent⟩ := quoted_of_prefix hprefix hmatches
        obtain ⟨behind, hbehind⟩ := (List.cons_prefix_cons.mp hprefix).2
        obtain rfl : rest = content ++ '"' :: behind := by simpa using hbehind.symm
        unfold quoted
        simp only [takeWhile_content hcontent]
        rw [if_pos (by simp)]
        exact ⟨_, rfl⟩
      next hquote =>
        obtain ⟨mark, rfl⟩ := mark_of_prefix hstart hdigit hquote hprefix hmatches
        obtain ⟨found, hfound, -⟩ := longestAt?_longest hprefix
        rw [hfound]
        exact ⟨_, rfl⟩

/-- A keyword is read as one unless the character behind it lies outside ASCII. -/
theorem kind_of_keyword {word : Keyword} (h : (ofText first rest).reading = .ok kind)
    (hletters : (ofText first rest).letters = word.spelling.toList)
    (hnext : ∀ c ∈ ((first :: rest).drop (ofText first rest).letters.length).head?, c.toNat < 128) :
    kind = .keyword word := by
  have hhead : word.spelling.toList <+: first :: rest := hletters ▸ letters_prefix first rest
  obtain ⟨head, tail, hspelling, hstart, -⟩ := word.isIdentifier_spelling
  obtain rfl : head = first := (List.cons_prefix_cons.mp (hspelling ▸ hhead)).1
  unfold ofText at h hletters hnext
  simp only [if_pos hstart] at h hletters hnext
  unfold Lexeme.word at h hletters hnext
  cases hescaped : escapedName? (head :: rest) with
  | some name =>
      -- No keyword has the mark of an escaped name in it.
      rw [hescaped] at hletters
      have hmark := all_of_isIdentifier word.isIdentifier_spelling '#' (hletters ▸ by simp)
      exact absurd hmark (by decide)
  | none =>
      rw [hescaped] at h hletters hnext
      dsimp only at h hletters hnext
      have hlead : ((head :: rest).drop
          ((head :: rest).takeWhile Unicode.isIdentifierContinue).length).head?.any
            Unicode.sharesIdentifierLead = false := by
        rw [Option.any_eq_false]
        intro c hc
        have hlow := hnext c hc
        unfold Unicode.sharesIdentifierLead
        simp
        omega
      unfold wordKind at h
      rw [hletters, word.ofSpelling?_spelling] at h
      rw [hletters] at hlead
      simp only [hlead] at h
      simpa using h.symm

end Lexeme

/-- The text of a mark can be read as nothing else. -/
theorem Kind.Matches.eq_punct {kind : Kind} {mark : Punct} {letters : List Char}
    (h : kind.Matches letters) (hletters : letters = mark.spelling.toList) : kind = .punct mark := by
  obtain ⟨first, rest, hspelling, hstart, hdigit, hquote⟩ := mark.spelling_begins
  have hname : ¬ IsIdentifier letters := by
    rintro ⟨head, tail, rfl, hhead, _⟩
    obtain ⟨rfl, -⟩ := List.cons.inj (hletters.trans hspelling)
    simp [hstart] at hhead
  cases h with
  | keyword word => exact absurd word.isIdentifier_spelling hname
  | punct other =>
      have hother := @Punct.longestAt?_spelling other [] (by simp [Apart])
      rw [hletters, mark.longestAt?_spelling (by simp [Apart])] at hother
      rw [Option.some.inj hother]
  | integer h =>
      obtain ⟨head, tail, rfl, hhead, _⟩ := h
      obtain ⟨rfl, -⟩ := List.cons.inj (hletters.trans hspelling)
      simp [hdigit] at hhead
  | ipv4 h =>
      obtain ⟨run, _, _, _, rfl, ⟨hne, hrun⟩, _⟩ := h
      obtain ⟨head, tail, rfl⟩ := List.exists_cons_of_ne_nil hne
      obtain ⟨rfl, -⟩ := List.cons.inj (hletters.trans hspelling)
      simp [hdigit] at hrun
  | string h =>
      exact absurd (List.cons.inj (hletters.trans hspelling)).1.symm hquote
  | plainName h => exact absurd h hname
  | rawName h =>
      obtain ⟨rfl, -⟩ := List.cons.inj (hletters.trans hspelling)
      exact absurd hstart (by decide)

/-! ## One scan -/

/-- Of all that the patterns match at the front of a text the token takes the
longest. It is a keyword or a mark if it is spelled like one, and a number is an
address just if all four runs of digits are there. -/
structure Token.Munches (token : Token) (text letters : List Char) : Prop where
  front : letters <+: text
  longest : Longest text letters
  kind : token.kind.Matches letters
  keyword : (∀ c ∈ (text.drop letters.length).head?, c.toNat < 128) →
    ∀ word : Keyword, letters = word.spelling.toList → token.kind = .keyword word
  punct : ∀ mark : Punct, letters = mark.spelling.toList → token.kind = .punct mark
  address : (∃ whole, whole <+: text ∧ IsAddress whole) → IsAddress letters
  integer : (¬ ∃ whole, whole <+: text ∧ IsAddress whole) → (∀ c ∈ text.head?, c.isDigit = true) →
    letters = text.takeWhile fun c => c.isDigit || c = '_'

/-- There is something to match only in front of the end. -/
theorem Matchable.ne_nil {text : List Char} (h : Matchable text) : text ≠ [] := by
  rintro rfl
  obtain ⟨letters, kind, hprefix, hmatches⟩ := h
  exact hmatches.ne_nil (List.prefix_nil.mp hprefix)

namespace Lexeme

variable {first : Char} {rest : List Char}

/-- Where an address matches, one is cut off. -/
theorem isAddress_letters (h : ∃ whole, whole <+: first :: rest ∧ IsAddress whole) :
    IsAddress (ofText first rest).letters := by
  obtain ⟨whole, hprefix, haddress⟩ := h
  obtain ⟨letters, hletters, -⟩ := dottedRuns?_of_prefix hprefix haddress
  obtain ⟨run, _, _, _, rfl, ⟨hne, hrun⟩, _⟩ := haddress
  obtain ⟨head, tail, rfl⟩ := List.exists_cons_of_ne_nil hne
  obtain rfl : head = first := (List.cons_prefix_cons.mp hprefix).1
  rw [ofText_of_number (hrun head List.mem_cons_self), number, hletters]
  exact isAddress_of_dottedRuns? hletters

/-- Where none does, a digit is cut off with all digits and underscores behind it. -/
theorem letters_eq_takeWhile (h : ¬ ∃ whole, whole <+: first :: rest ∧ IsAddress whole)
    (hfirst : first.isDigit = true) :
    (ofText first rest).letters = (first :: rest).takeWhile fun c => c.isDigit || c = '_' := by
  rw [ofText_of_number hfirst, number]
  cases hruns : dottedRuns? 3 (first :: rest) with
  | some letters =>
      exact absurd ⟨letters, prefix_of_dottedRuns? hruns, isAddress_of_dottedRuns? hruns⟩ h
  | none => rfl

/-- What is read as a token takes the longest match. -/
theorem munches {kind : Kind} {span : Span} (h : (ofText first rest).reading = .ok kind) :
    Token.Munches ⟨kind, span⟩ (first :: rest) (ofText first rest).letters where
  front := letters_prefix first rest
  longest := ofText_longest
  kind := ofText_matches h
  keyword hnext _ hletters := kind_of_keyword h hletters hnext
  punct _ hletters := (ofText_matches h).eq_punct hletters
  address := isAddress_letters
  integer hnone hfirst := letters_eq_takeWhile hnone (hfirst first rfl)

end Lexeme

namespace Cursor

/-- Wherever a cursor stands, if some pattern matches behind blanks and comments the
longest match is taken and scanning goes on right behind it, and if none does there
is a flaw or the end. -/
theorem scan_longest (cursor : Cursor) :
    (Matchable cursor.skip.rest →
      ∃ token letters, token.Munches cursor.skip.rest letters ∧
        token.span = ⟨cursor.skip.offset, cursor.skip.offset + byteLength letters⟩ ∧
        cursor.scan =
          some (.ok token, ⟨cursor.skip.rest.drop letters.length, token.span.stop⟩)) ∧
    (cursor.skip.rest ≠ [] → ¬ Matchable cursor.skip.rest →
      ∃ flaw next, cursor.scan = some (.error flaw, next)) := by
  constructor
  · intro hmatchable
    have hne : cursor.skip.rest ≠ [] := hmatchable.ne_nil
    obtain ⟨first, rest, hrest⟩ := List.exists_cons_of_ne_nil hne
    rw [hrest] at hmatchable ⊢
    obtain ⟨kind, hreading⟩ := Lexeme.exists_reading_of_matchable hmatchable
    refine ⟨⟨kind, _⟩, _, Lexeme.munches hreading, rfl, ?_⟩
    rw [scan_eq, hrest]
    simp only [found, behind, hreading, hrest]
  · intro hne hnone
    obtain ⟨first, rest, hrest⟩ := List.exists_cons_of_ne_nil hne
    rw [hrest] at hnone
    cases hreading : (Lexeme.ofText first rest).reading with
    | ok kind =>
        exact absurd ⟨_, kind, Lexeme.letters_prefix first rest, Lexeme.ofText_matches hreading⟩ hnone
    | error error =>
        rw [scan_eq, hrest]
        simp only [found, hreading]
        exact ⟨_, _, rfl⟩

theorem scan_longest_of_partial_address :
    ∃ token letters, Token.Munches token "1.2.3".toList letters ∧
      token.span = ⟨0, 0 + byteLength letters⟩ ∧
      scan ⟨"1.2.3".toList, 0⟩ =
        some (.ok token, ⟨"1.2.3".toList.drop letters.length, token.span.stop⟩) :=
  (scan_longest ⟨"1.2.3".toList, 0⟩).1
    ⟨['1'], .integer "1", ⟨".2.3".toList, by decide⟩, .integer ⟨'1', [], rfl, by decide, by simp⟩⟩

end Cursor

end FilterScript
