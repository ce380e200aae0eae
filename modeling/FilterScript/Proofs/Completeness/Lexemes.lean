import FilterScript.Proofs.Scanning

/-!
# Scanning written tokens

Tokens that are written with blanks and comments between them are scanned back, as
long as each is written the way tokens of its family are: no name spells a keyword,
no string holds a quote.
-/

namespace FilterScript

/-- A letter and letters or digits. -/
def IsIdentifier (letters : List Char) : Prop :=
  ∃ first rest, letters = first :: rest ∧ Unicode.isIdentifierStart first = true ∧
    ∀ c ∈ rest, Unicode.isIdentifierContinue c = true

/-- A digit and digits or underscores. -/
def IsInteger (letters : List Char) : Prop :=
  ∃ first rest, letters = first :: rest ∧ first.isDigit = true ∧
    ∀ c ∈ rest, (c.isDigit || c = '_') = true

/-- A run of digits that is not empty. -/
def IsDigits (letters : List Char) : Prop :=
  letters ≠ [] ∧ ∀ c ∈ letters, c.isDigit = true

/-- Four runs of digits with dots between them. -/
def IsAddress (letters : List Char) : Prop :=
  ∃ a b c d, letters = a ++ '.' :: (b ++ '.' :: (c ++ '.' :: d)) ∧
    IsDigits a ∧ IsDigits b ∧ IsDigits c ∧ IsDigits d

/-- The text of the token is one that tokens of its family have. -/
def Kind.IsWritable : Kind → Prop
  | .keyword _ | .punct _ => True
  | .integer digits => IsInteger digits.toList
  | .ipv4 digits => IsAddress digits.toList
  | .string content => '"' ∉ content.toList
  | .name text raw => IsIdentifier text.toList ∧
      (raw = false → ∀ word : Keyword, text ≠ word.spelling)
  | .endOfFile => False

/-- The characters that keep two tokens apart. -/
def separators : List Char :=
  [' ', '\t', '\n', '\r', '\x0c']

theorem Cursor.isSeparator_eq_true_iff {c : Char} : isSeparator c = true ↔ c ∈ separators := by
  simp [isSeparator, separators, or_assoc]

/-- The text is at its end or goes on with a separator. -/
def Apart (text : List Char) : Prop :=
  ∀ c ∈ text.head?, c ∈ separators

section Characters

variable {letters more : List Char}

theorem takeWhile_apart {test : Char → Bool} (hletters : ∀ c ∈ letters, test c = true)
    (hblank : separators.all (!test ·) = true) (hmore : Apart more) :
    (letters ++ more).takeWhile test = letters := by
  rw [List.takeWhile_append_of_pos hletters]
  cases more with
  | nil => simp
  | cons c others =>
      have hc : test c = false := by simpa using List.all_eq_true.mp hblank c (hmore c rfl)
      rw [List.takeWhile_cons_of_neg (by simp [hc]), List.append_nil]

theorem drop_length_takeWhile (test : Char → Bool) (text : List Char) :
    text.drop (text.takeWhile test).length = text.dropWhile test :=
  (congrArg (List.drop _) List.takeWhile_append_dropWhile.symm).trans List.drop_left

theorem isIdentifierStart_of_isDigit {c : Char} (h : c.isDigit = true) :
    Unicode.isIdentifierStart c = false := by
  simp only [Char.isDigit, Bool.and_eq_true, decide_eq_true_eq, ge_iff_le,
    UInt32.le_iff_toNat_le] at h
  have hlow : 48 ≤ c.toNat := h.1
  have hhigh : c.toNat ≤ 57 := h.2
  have hupper : c.isUpper = false := by
    rw [Bool.eq_false_iff]
    intro hletter
    have hletter : 65 ≤ c.toNat := (of_decide_eq_true hletter).1
    omega
  have hlower : c.isLower = false := by
    rw [Bool.eq_false_iff]
    intro hletter
    have hletter : 97 ≤ c.toNat := of_decide_eq_true (Bool.and_eq_true_iff.mp hletter).1
    omega
  have halpha : c.isAlpha = (c.isUpper || c.isLower) := rfl
  have hline : c ≠ '_' := by
    rintro rfl
    revert hhigh
    decide
  unfold Unicode.isIdentifierStart
  rw [if_pos (by omega), halpha, hupper, hlower]
  simpa using hline

/-- Behind the first digits of an integer stands no dot. -/
theorem dropWhile_isDigit_ne_dot (hletters : ∀ c ∈ letters, (c.isDigit || c = '_') = true)
    (hmore : Apart more) : ∀ c ∈ ((letters ++ more).dropWhile Char.isDigit).head?, c ≠ '.' := by
  induction letters with
  | nil =>
      cases more with
      | nil => simp
      | cons c others =>
          have hseparators : separators.all (fun c => !c.isDigit && c != '.') = true := by decide
          obtain ⟨hdigit, hdot⟩ : c.isDigit = false ∧ c ≠ '.' := by
            simpa using List.all_eq_true.mp hseparators c (hmore c rfl)
          rw [List.nil_append, List.dropWhile_cons_of_neg (by simp [hdigit])]
          simpa using hdot
  | cons c others ih =>
      obtain ⟨hc, hothers⟩ := List.forall_mem_cons.mp hletters
      cases hdigit : c.isDigit with
      | true =>
          rw [List.cons_append, List.dropWhile_cons_of_pos hdigit]
          exact ih hothers
      | false =>
          obtain rfl : c = '_' := by simpa [hdigit] using hc
          rw [List.cons_append, List.dropWhile_cons_of_neg (by simp [hdigit])]
          simp

end Characters

theorem Keyword.ofSpelling?_spelling (word : Keyword) :
    ofSpelling? word.spelling.toList = some word := by
  cases word <;> rfl

theorem Keyword.isIdentifier_spelling (word : Keyword) : IsIdentifier word.spelling.toList := by
  cases word <;> exact ⟨_, _, rfl, rfl, List.all_eq_true.mp rfl⟩

theorem Keyword.ofSpelling?_eq_none {text : String} (h : ∀ word : Keyword, text ≠ word.spelling) :
    ofSpelling? text.toList = none := by
  refine List.find?_eq_none.mpr fun word _ hspelling => h word ?_
  exact String.toList_injective (eq_of_beq hspelling).symm

theorem Punct.longestAt?_spelling (mark : Punct) {more : List Char} (hmore : Apart more) :
    longestAt? (mark.spelling.toList ++ more) = some mark := by
  cases more with
  | nil => cases mark <;> rfl
  | cons c others =>
      have hseparator : c ∈ separators := hmore c rfl
      simp only [separators, List.mem_cons, List.not_mem_nil, or_false] at hseparator
      rcases hseparator with rfl | rfl | rfl | rfl | rfl <;> cases mark <;> rfl

theorem Punct.spelling_begins (mark : Punct) :
    ∃ first rest, mark.spelling.toList = first :: rest ∧
      Unicode.isIdentifierStart first = false ∧ first.isDigit = false ∧ first ≠ '"' := by
  cases mark <;> exact ⟨_, _, rfl, by decide, by decide, by decide⟩

namespace Lexeme

variable {letters more rest : List Char} {first : Char}

/-! ## Numbers -/

theorem dottedRuns?_last (h : IsDigits letters) (hmore : Apart more) :
    dottedRuns? 0 (letters ++ more) = some letters := by
  unfold dottedRuns?
  dsimp only
  rw [takeWhile_apart h.2 (by decide) hmore, if_neg (by simp [h.1])]

theorem dottedRuns?_cons {count : Nat} {tail : List Char} (h : IsDigits letters)
    (hmore : dottedRuns? count more = some tail) :
    dottedRuns? (count + 1) (letters ++ '.' :: more) = some (letters ++ '.' :: tail) := by
  have hrun : (letters ++ '.' :: more).takeWhile Char.isDigit = letters := by
    rw [List.takeWhile_append_of_pos h.2, List.takeWhile_cons_of_neg (by decide), List.append_nil]
  rw [dottedRuns?]
  simp only [hrun, List.drop_left]
  rw [if_neg (by simp [h.1]), hmore, Option.map_some]

theorem number_of_address (h : IsAddress letters) (hmore : Apart more) :
    number (letters ++ more) = ⟨.ok (.ipv4 (String.ofList letters)), letters⟩ := by
  obtain ⟨a, b, c, d, rfl, ha, hb, hc, hd⟩ := h
  have hruns := dottedRuns?_cons ha (dottedRuns?_cons hb (dottedRuns?_cons hc
    (dottedRuns?_last hd hmore)))
  unfold number
  simp only [List.append_assoc, List.cons_append]
  rw [hruns]

/-- An integer is no address. -/
theorem dottedRuns?_integer {count : Nat} (hletters : ∀ c ∈ letters, (c.isDigit || c = '_') = true)
    (hmore : Apart more) : dottedRuns? (count + 1) (letters ++ more) = none := by
  have hdot := dropWhile_isDigit_ne_dot hletters hmore
  rw [dottedRuns?]
  simp only [drop_length_takeWhile]
  split
  · rfl
  · split
    next hbehind => exact absurd rfl (hdot '.' (by rw [hbehind]; rfl))
    next => rfl

theorem number_of_integer (h : IsInteger letters) (hmore : Apart more) :
    number (letters ++ more) = ⟨.ok (.integer (String.ofList letters)), letters⟩ := by
  obtain ⟨first, rest, rfl, hfirst, hrest⟩ := h
  have hletters : ∀ c ∈ first :: rest, (c.isDigit || c = '_') = true :=
    List.forall_mem_cons.mpr ⟨by rw [hfirst]; rfl, hrest⟩
  unfold number
  rw [dottedRuns?_integer hletters hmore]
  simp only [takeWhile_apart hletters (by decide) hmore]

/-! ## Words -/

theorem word_of_escaped (h : IsIdentifier letters) (hmore : Apart more) :
    word ('r' :: '#' :: (letters ++ more)) =
      ⟨.ok (.name (String.ofList letters) true), 'r' :: '#' :: letters⟩ := by
  obtain ⟨first, rest, rfl, hfirst, hrest⟩ := h
  unfold word
  rw [List.cons_append, escapedName?, if_pos hfirst, takeWhile_apart hrest (by decide) hmore]

/-- No mark of an escaped name stands at the front of a plain one. -/
theorem escapedName?_eq_none (h : IsIdentifier letters) (hmore : Apart more) :
    escapedName? (letters ++ more) = none := by
  obtain ⟨first, rest, rfl, _, hrest⟩ := h
  unfold escapedName?
  split
  next next others htext =>
    -- Behind the letter of the mark there is no other letter, and no blank either.
    exfalso
    obtain ⟨rfl, hbehind⟩ := List.cons.inj htext
    cases rest with
    | nil =>
        have hmark : more = '#' :: next :: others := hbehind
        exact absurd (hmore '#' (by rw [hmark]; rfl)) (by decide)
    | cons second tail =>
        obtain ⟨rfl, _⟩ := List.cons.inj hbehind
        have hcontinue := hrest '#' List.mem_cons_self
        revert hcontinue
        decide
  next => rfl

theorem word_of_letters (h : IsIdentifier letters) (hmore : Apart more) :
    word (letters ++ more) = ⟨.ok (wordKind letters more.head?), letters⟩ := by
  have hescaped := escapedName?_eq_none h hmore
  obtain ⟨first, rest, rfl, hfirst, hrest⟩ := h
  have hletters : ∀ c ∈ first :: rest, Unicode.isIdentifierContinue c = true :=
    List.forall_mem_cons.mpr ⟨Unicode.isIdentifierContinue_of_start hfirst, hrest⟩
  unfold word
  rw [hescaped]
  dsimp only
  rw [takeWhile_apart hletters (by decide) hmore, List.drop_left]

/-! ## Texts in quotes -/

/-- Without a quote in it, a text ends where it was written to end. -/
theorem quoted_of_text (h : '"' ∉ letters) :
    quoted (letters ++ '"' :: more) =
      ⟨.ok (.string (String.ofList letters)), '"' :: (letters ++ ['"'])⟩ := by
  have hletters : ∀ c ∈ letters, decide (c ≠ '"') = true := by
    intro c hc
    simpa using fun heq : c = '"' => h (heq ▸ hc)
  have hrun : (letters ++ '"' :: more).takeWhile (fun c => decide (c ≠ '"')) = letters := by
    rw [List.takeWhile_append_of_pos hletters, List.takeWhile_cons_of_neg (by simp),
      List.append_nil]
  unfold quoted
  simp only [hrun]
  rw [if_pos (by simp)]

/-! ## All tokens -/

theorem ofText_of_word (h : IsIdentifier letters) (htext : letters ++ more = first :: rest) :
    ofText first rest = word (letters ++ more) := by
  obtain ⟨head, tail, rfl, hhead, _⟩ := h
  obtain ⟨rfl, _⟩ := List.cons.inj htext
  unfold ofText
  rw [if_pos hhead, htext]

theorem ofText_of_number (hfirst : first.isDigit = true) :
    ofText first rest = number (first :: rest) := by
  unfold ofText
  rw [if_neg (by simp [isIdentifierStart_of_isDigit hfirst]), if_pos hfirst]

theorem wordKind_spelling (word : Keyword) (hmore : Apart more) :
    wordKind word.spelling.toList more.head? = .keyword word := by
  have hnext : more.head?.any Unicode.sharesIdentifierLead = false := by
    cases more with
    | nil => rfl
    | cons c others =>
        have hlead : separators.all (!Unicode.sharesIdentifierLead ·) = true := by decide
        simpa using List.all_eq_true.mp hlead c (hmore c rfl)
  simp [wordKind, word.ofSpelling?_spelling, hnext]

/-- A written token is what the text in front of it is cut into. -/
theorem ofText_spelling {kind : Kind} (hkind : kind.IsWritable) (hmore : Apart more)
    (htext : kind.spelling.toList ++ more = first :: rest) :
    ofText first rest = ⟨.ok kind, kind.spelling.toList⟩ := by
  cases kind with
  | keyword word =>
      have hletters : IsIdentifier word.spelling.toList := word.isIdentifier_spelling
      rw [Kind.spelling] at htext ⊢
      rw [ofText_of_word hletters htext, word_of_letters hletters hmore, wordKind_spelling word hmore]
  | punct mark =>
      obtain ⟨head, tail, hspelling, hstart, hdigit, hquote⟩ := mark.spelling_begins
      have hmark := mark.longestAt?_spelling hmore
      rw [Kind.spelling] at htext ⊢
      rw [htext] at hmark
      rw [hspelling] at htext
      obtain ⟨rfl, _⟩ := List.cons.inj htext
      unfold ofText
      rw [if_neg (by simp [hstart]), if_neg (by simp [hdigit]), if_neg hquote, hmark]
  | integer digits =>
      have hnumber := number_of_integer hkind hmore
      obtain ⟨head, tail, hdigits, hhead, _⟩ := hkind
      rw [Kind.spelling] at htext ⊢
      rw [htext] at hnumber
      rw [hdigits] at htext
      obtain ⟨rfl, _⟩ := List.cons.inj htext
      rw [ofText_of_number hhead, hnumber, String.ofList_toList]
  | ipv4 digits =>
      have hnumber := number_of_address hkind hmore
      obtain ⟨run, _, _, _, hdigits, ⟨hne, hrun⟩, _⟩ := hkind
      rw [Kind.spelling] at htext ⊢
      rw [htext] at hnumber
      rw [hdigits] at htext
      obtain ⟨head, tail, rfl⟩ := List.exists_cons_of_ne_nil hne
      obtain ⟨rfl, _⟩ := List.cons.inj htext
      rw [ofText_of_number (hrun _ List.mem_cons_self), hnumber, String.ofList_toList]
  | string content =>
      have hspelling : (Kind.string content).spelling.toList = '"' :: (content.toList ++ ['"']) := by
        simp [Kind.spelling]
      rw [hspelling] at htext ⊢
      obtain ⟨rfl, hbehind⟩ := List.cons.inj htext
      have hrest : content.toList ++ '"' :: more = rest := by simpa using hbehind
      unfold ofText
      rw [if_neg (by decide), if_neg (by decide), if_pos rfl, ← hrest, quoted_of_text hkind,
        String.ofList_toList]
  | name text raw =>
      obtain ⟨hletters, hkeyword⟩ := hkind
      cases raw with
      | true =>
          have hspelling : (Kind.name text true).spelling.toList = 'r' :: '#' :: text.toList := by
            simp [Kind.spelling, Kind.nameText]
          rw [hspelling] at htext ⊢
          obtain ⟨rfl, hrest⟩ := List.cons.inj htext
          unfold ofText
          rw [if_pos (by decide), ← hrest]
          have hword := word_of_escaped hletters hmore
          rw [String.ofList_toList] at hword
          exact hword
      | false =>
          have hnone : Keyword.ofSpelling? text.toList = none :=
            Keyword.ofSpelling?_eq_none (hkeyword rfl)
          have hspelling : (Kind.name text false).spelling = text := rfl
          rw [hspelling] at htext ⊢
          rw [ofText_of_word hletters htext, word_of_letters hletters hmore, wordKind, hnone]
          simp
  | endOfFile => exact hkind.elim

end Lexeme

/-! ## Texts -/

/-- Separators, and comments with the newline that ends them. -/
inductive Filling : List Char → Prop
  | nil : Filling []
  | separator {c : Char} {rest : List Char} (hc : c ∈ separators) (hrest : Filling rest) :
      Filling (c :: rest)
  | comment {line rest : List Char} (hline : '\n' ∉ line) (hrest : Filling rest) :
      Filling ('#' :: (line ++ '\n' :: rest))

/-- A text that keeps the tokens in front of it and behind it apart. -/
def Separates (gap : List Char) : Prop :=
  ∃ c rest, gap = c :: rest ∧ c ∈ separators ∧ Filling rest

theorem Separates.filling {gap : List Char} (h : Separates gap) : Filling gap := by
  obtain ⟨c, rest, rfl, hc, hrest⟩ := h
  exact .separator hc hrest

/-- Tokens as they are written, with something in front of each that keeps them
apart. -/
inductive Spaced : List Kind → List Char → Prop
  | nil : Spaced [] []
  | cons {kind : Kind} {others : List Kind} {gap text : List Char} (hgap : Separates gap)
      (hothers : Spaced others text) :
      Spaced (kind :: others) (gap ++ (kind.spelling.toList ++ text))

/-- The tokens as they are written, with a gap in front of each but the first. The
gaps are numbered by how many tokens come behind them. -/
def writeApart (gap : Nat → String) : List Kind → String
  | [] => ""
  | [kind] => kind.spelling
  | kind :: second :: others =>
      kind.spelling ++ (gap (others.length + 1) ++ writeApart gap (second :: others))

/-- The tokens as they are written, with single blanks between them. -/
def writeTokens (kinds : List Kind) : String :=
  " ".intercalate (kinds.map Kind.spelling)

section Texts

variable {others : List Kind} {text : List Char}

theorem Spaced.apart (h : Spaced others text) : Apart text := by
  cases h with
  | nil => simp [Apart]
  | cons hgap =>
      obtain ⟨c, rest, rfl, hc, -⟩ := hgap
      simpa [Apart] using hc

theorem Spaced.length_le (h : Spaced others text) : others.length ≤ text.length := by
  induction h with
  | nil => exact Nat.le_refl _
  | cons hgap _ ih =>
      obtain ⟨c, rest, rfl, -, -⟩ := hgap
      simp only [List.length_append, List.length_cons]
      omega

theorem spaced_of_writeApart {gap : Nat → String} (hgap : ∀ number, Separates (gap number).toList)
    (kind : Kind) (others : List Kind) :
    ∃ text, (writeApart gap (kind :: others)).toList = kind.spelling.toList ++ text ∧
      Spaced others text := by
  induction others generalizing kind with
  | nil => exact ⟨[], by simp [writeApart], .nil⟩
  | cons second others ih =>
      obtain ⟨text, htext, hspaced⟩ := ih second
      refine ⟨_, ?_, .cons (hgap (others.length + 1)) hspaced⟩
      rw [writeApart, String.toList_append, String.toList_append, htext]

end Texts

theorem writeTokens_eq (kinds : List Kind) : writeTokens kinds = writeApart (fun _ => " ") kinds := by
  unfold writeTokens
  induction kinds with
  | nil => rfl
  | cons kind others ih =>
      cases others with
      | nil => rfl
      | cons second others =>
          rw [writeApart, ← ih, List.map_cons, List.map_cons, String.intercalate_cons_cons,
            String.append_assoc, ← List.map_cons]

/-- A token begins with neither a blank nor the mark of a comment. -/
theorem Kind.IsWritable.begins {kind : Kind} (h : kind.IsWritable) :
    ∃ first rest, kind.spelling.toList = first :: rest ∧ Cursor.isSeparator first = false ∧
      first ≠ '#' := by
  have htest : ∀ {test : Char → Bool} {first : Char}, test first = true →
      [' ', '\t', '\n', '\r', '\x0c', '#'].all (fun c => !test c) = true →
      Cursor.isSeparator first = false ∧ first ≠ '#' := by
    intro test first hfirst hall
    have hne : ∀ c ∈ [' ', '\t', '\n', '\r', '\x0c', '#'], first ≠ c := by
      rintro c hc rfl
      have hc := List.all_eq_true.mp hall first hc
      simp [hfirst] at hc
    simp only [List.mem_cons, List.not_mem_nil, or_false, forall_eq_or_imp, forall_eq] at hne
    simp [Cursor.isSeparator, hne]
  cases kind with
  | keyword word =>
      obtain ⟨first, rest, hspelling, hfirst, _⟩ := word.isIdentifier_spelling
      exact ⟨first, rest, hspelling, htest hfirst rfl⟩
  | punct mark => cases mark <;> exact ⟨_, _, rfl, by decide, by decide⟩
  | integer digits =>
      obtain ⟨first, rest, hdigits, hfirst, _⟩ := h
      exact ⟨first, rest, hdigits, htest hfirst rfl⟩
  | ipv4 digits =>
      obtain ⟨run, _, _, _, hdigits, ⟨hne, hrun⟩, _⟩ := h
      obtain ⟨first, rest, rfl⟩ := List.exists_cons_of_ne_nil hne
      exact ⟨first, _, hdigits, htest (hrun first List.mem_cons_self) rfl⟩
  | string content => exact ⟨'"', content.toList ++ ['"'], by simp [spelling], by decide, by decide⟩
  | name text raw =>
      obtain ⟨⟨first, rest, htext, hfirst, _⟩, _⟩ := h
      cases raw with
      | true => exact ⟨'r', '#' :: text.toList, by simp [spelling, nameText], by decide, by decide⟩
      | false => exact ⟨first, rest, htext, htest hfirst rfl⟩
  | endOfFile => exact h.elim

namespace Cursor

/-- A token is scanned where only blanks stand in front of it. -/
theorem scan_spelling {cursor : Cursor} {kind : Kind} {more : List Char} (hkind : kind.IsWritable)
    (hmore : Apart more) (hskip : cursor.skip.rest = kind.spelling.toList ++ more) :
    ∃ token next, cursor.scan = some (.ok token, next) ∧ token.kind = kind ∧ next.rest = more := by
  obtain ⟨first, rest, hspelling, _⟩ := hkind.begins
  have htext : kind.spelling.toList ++ more = first :: (rest ++ more) := by
    rw [hspelling, List.cons_append]
  have hlexeme := Lexeme.ofText_spelling hkind hmore htext
  let lexeme : Lexeme := ⟨.ok kind, kind.spelling.toList⟩
  let here := cursor.skip
  refine ⟨⟨kind, here.offset, here.offset + byteLength lexeme.letters⟩, here.behind lexeme, ?_, rfl, ?_⟩
  · rw [scan_eq, hskip, htext]
    dsimp only
    rw [hlexeme]
    rfl
  · have hrest : here.rest = kind.spelling.toList ++ more := hskip
    rw [behind, hrest, List.drop_left]

theorem skip_of_begins {first : Char} {rest : List Char} (offset : Nat)
    (hblank : isSeparator first = false) (hcomment : first ≠ '#') :
    (Cursor.mk (first :: rest) offset).skip.rest = first :: rest := by
  unfold skip skipFrom
  rw [if_neg (by simp [hblank]), if_neg hcomment]

/-- Inside a comment, up to the newline. -/
theorem skipFrom_comment {line : List Char} (hline : '\n' ∉ line) (text : List Char) (offset : Nat) :
    skipFrom true (line ++ '\n' :: text) offset = skipFrom false text (offset + byteLength line + 1) := by
  induction line generalizing offset with
  | nil => rfl
  | cons c line ih =>
      rw [List.mem_cons, not_or] at hline
      obtain ⟨hc, hline⟩ := hline
      have hgoes : (c != '\n') = true := by simpa using Ne.symm hc
      rw [List.cons_append, skipFrom, hgoes, ih hline, byteLength_cons, Nat.add_assoc offset]

theorem skipFrom_filling {gap : List Char} (h : Filling gap) (text : List Char) (offset : Nat) :
    skipFrom false (gap ++ text) offset = skipFrom false text (offset + byteLength gap) := by
  induction h generalizing offset with
  | nil => rfl
  | separator hc _ ih =>
      rw [List.cons_append, skipFrom, if_pos (isSeparator_eq_true_iff.mpr hc), ih, byteLength_cons,
        Nat.add_assoc]
  | @comment line rest hline _ ih =>
      have hsize : '\n'.utf8Size = 1 := rfl
      rw [List.cons_append, List.append_assoc, List.cons_append, skipFrom, if_neg (by decide),
        if_pos rfl, skipFrom_comment hline, ih]
      simp [hsize, Nat.add_assoc]

/-- Written tokens are scanned back in as many rounds. -/
theorem scans_spelling {kind : Kind} {others : List Kind} {text : List Char} {cursor : Cursor}
    {rounds : Nat}
    (hkinds : ∀ each ∈ kind :: others, each.IsWritable) (hrounds : others.length < rounds)
    (hspaced : Spaced others text) (hskip : cursor.skip.rest = kind.spelling.toList ++ text) :
    ∃ tokens : List Token, cursor.scans rounds = tokens.map .ok ∧ tokens.map Token.kind = kind :: others := by
  induction hspaced generalizing kind cursor rounds with
  | nil =>
      obtain ⟨rounds, rfl⟩ := Nat.exists_eq_add_one.mpr hrounds
      obtain ⟨token, next, hscan, hkind, hnext⟩ :=
        scan_spelling (hkinds kind List.mem_cons_self) Spaced.nil.apart hskip
      have hend : next.scans rounds = [] := by
        cases rounds with
        | zero => rfl
        | succ rounds =>
            obtain ⟨text, offset⟩ := next
            obtain rfl : text = [] := hnext
            rfl
      refine ⟨[token], ?_, by simp [hkind]⟩
      rw [scans, hscan]
      simp [hend]
  | @cons second others gap text hgap hspaced ih =>
      obtain ⟨rounds, rfl⟩ := Nat.exists_eq_add_one.mpr (Nat.zero_lt_of_lt hrounds)
      obtain ⟨hfirst, hothers⟩ := List.forall_mem_cons.mp hkinds
      obtain ⟨token, next, hscan, hkind, hnext⟩ :=
        scan_spelling hfirst (Spaced.cons hgap hspaced).apart hskip
      obtain ⟨first, rest, hspelling, hblank, hcomment⟩ := (hothers second List.mem_cons_self).begins
      have hskip : next.skip.rest = second.spelling.toList ++ text := by
        rw [skip, hnext, skipFrom_filling hgap.filling, hspelling, List.cons_append]
        exact skip_of_begins _ hblank hcomment
      obtain ⟨tokens, hscans, hkinds⟩ := ih hothers (Nat.lt_of_succ_lt_succ hrounds) hskip
      refine ⟨token :: tokens, ?_, by simp [hkind, hkinds]⟩
      rw [scans, hscan]
      simp [hscans]

end Cursor

/-- Tokens that can be written are scanned back from the text they are written as,
whatever keeps them apart. -/
theorem scans_writeApart {gap : Nat → String} {kinds : List Kind}
    (hgap : ∀ number, Separates (gap number).toList) (hkinds : ∀ kind ∈ kinds, kind.IsWritable) :
    ∃ tokens : List Token, (Stream.ofSource (writeApart gap kinds)).scans = tokens.map .ok ∧
      tokens.map Token.kind = kinds := by
  cases kinds with
  | nil => exact ⟨[], by rfl, rfl⟩
  | cons kind others =>
      obtain ⟨first, rest, hspelling, hblank, hcomment⟩ := (hkinds kind List.mem_cons_self).begins
      obtain ⟨text, htext, hspaced⟩ := spaced_of_writeApart hgap kind others
      have hskip : (Cursor.ofSource (writeApart gap (kind :: others))).skip.rest =
          kind.spelling.toList ++ text := by
        unfold Cursor.ofSource
        rw [htext, hspelling, List.cons_append]
        exact Cursor.skip_of_begins 0 hblank hcomment
      refine Cursor.scans_spelling hkinds ?_ hspaced hskip
      rw [htext, hspelling, List.length_append, List.length_cons]
      have hlength := hspaced.length_le
      omega

theorem scans_writeTokens {kinds : List Kind} (hkinds : ∀ kind ∈ kinds, kind.IsWritable) :
    ∃ tokens : List Token, (Stream.ofSource (writeTokens kinds)).scans = tokens.map .ok ∧
      tokens.map Token.kind = kinds := by
  rw [writeTokens_eq]
  exact scans_writeApart (fun _ => ⟨' ', [], rfl, by decide, .nil⟩) hkinds

end FilterScript
