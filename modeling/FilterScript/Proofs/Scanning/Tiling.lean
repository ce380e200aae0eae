import FilterScript.Proofs.Completeness.Scanned
import FilterScript.Token.Reader
import Mathlib.Data.List.Chain

/-!
# Scanning loses no text

Read to the end, a source is cut into blanks, comments, tokens and flaws with
nothing left over. The spans of what a reader gives stand one behind the other,
what lies between them is blank, a token is written with the text that its span
cuts out, and a flaw covers just the text that is at fault.
-/

namespace FilterScript

/-- The text that a span cuts out of a source, with all that stands in front of
it and all that stands behind. -/
structure Span.Cuts (span : Span) (source before text behind : List Char) : Prop where
  whole : source = before ++ (text ++ behind)
  start : span.start = byteLength before
  stop : span.stop = byteLength before + byteLength text

/-- Text that means nothing, given what stands behind it: separators, and
comments that run up to a line break or up to the end of the source. -/
inductive Blank (behind : List Char) : List Char → Prop
  | nil : Blank behind []
  | separator {c : Char} {rest : List Char} (hc : c ∈ [' ', '\t', '\n', '\r', '\x0c'])
      (hrest : Blank behind rest) : Blank behind (c :: rest)
  | comment {line rest : List Char} (hline : '\n' ∉ line)
      (hends : ∀ c ∈ (rest ++ behind).head?, c = '\n') (hrest : Blank behind rest) :
      Blank behind ('#' :: (line ++ rest))

/-- Where the text of a scan stands. -/
def Scan.span : Scan → Span
  | .ok token => token.span
  | .error flaw => flaw.span

/-- What is found at the end of a source of this length. -/
def Scan.atEnd (length : Nat) : Scan :=
  .ok (Token.atEnd length)

@[simp] theorem Scan.span_atEnd (length : Nat) : (Scan.atEnd length).span = ⟨length, length⟩ := rfl

/-- What one scan says about the text it covers and the text behind it. -/
def Scan.Covers : Scan → List Char → List Char → Prop
  | .ok token, text, _ => token.kind ≠ .endOfFile ∧ String.ofList text = token.kind.spelling
  | .error ⟨.invalidCharacter, _⟩, text, _ => ∃ c, text = [c]
  | .error ⟨.unterminatedString, _⟩, text, behind =>
      ∃ rest, text = '"' :: rest ∧ '"' ∉ rest ∧ behind = []

/-- A text is cut into blanks and the texts of scans. The number is the offset
of the text in its source. -/
inductive Tiled : Nat → List Char → List Scan → Prop
  | done {offset : Nat} {gap : List Char} (hgap : Blank [] gap) : Tiled offset gap []
  | scan {offset : Nat} {gap text rest : List Char} {scan : Scan} {scans : List Scan}
      (hgap : Blank (text ++ rest) gap) (htext : text ≠ []) (hscan : scan.Covers text rest)
      (hstart : scan.span.start = offset + byteLength gap)
      (hstop : scan.span.stop = offset + byteLength gap + byteLength text)
      (hrest : Tiled (offset + byteLength gap + byteLength text) rest scans) :
      Tiled offset (gap ++ (text ++ rest)) (scan :: scans)

/-! ## One lexeme -/

namespace Lexeme

variable {first : Char} {rest : List Char} {kind : Kind}

theorem spelling_wordKind (letters : List Char) (next : Option Char) :
    (wordKind letters next).spelling = String.ofList letters := by
  unfold wordKind
  split
  next keyword hkeyword =>
    split
    · rfl
    · have hspelled := List.find?_some hkeyword
      rw [← beq_iff_eq.mp hspelled, String.ofList_toList]
      rfl
  next => rfl

theorem spelling_of_word {text : List Char} (h : (word text).reading = .ok kind) :
    String.ofList (word text).letters = kind.spelling := by
  unfold word at h ⊢
  split at h
  next name _ =>
    cases h
    apply String.toList_inj.mp
    simp [Kind.spelling, Kind.nameText]
  next =>
    cases h
    exact (spelling_wordKind _ _).symm

theorem spelling_of_number {text : List Char} (h : (number text).reading = .ok kind) :
    String.ofList (number text).letters = kind.spelling := by
  unfold number at h ⊢
  split at h
  next =>
    cases h
    rfl
  next =>
    cases h
    rfl

theorem spelling_of_quoted (h : (quoted rest).reading = .ok kind) :
    String.ofList (quoted rest).letters = kind.spelling := by
  unfold quoted at h ⊢
  dsimp only at h ⊢
  split at h
  next hcloses =>
    cases h
    rw [if_pos hcloses]
    apply String.toList_inj.mp
    simp [Kind.spelling]
  next => cases h

/-- A token is written with the letters that were cut off for it. -/
theorem spelling_of_reading (h : (ofText first rest).reading = .ok kind) :
    String.ofList (ofText first rest).letters = kind.spelling := by
  unfold ofText at h ⊢
  split at h
  next hstart =>
    rw [if_pos hstart]
    exact spelling_of_word h
  next hstart =>
    rw [if_neg hstart]
    split at h
    next hdigit =>
      rw [if_pos hdigit]
      exact spelling_of_number h
    next hdigit =>
      rw [if_neg hdigit]
      split at h
      next hquote =>
        rw [if_pos hquote]
        exact spelling_of_quoted h
      next hquote =>
        rw [if_neg hquote]
        split at h
        next mark _ =>
          cases h
          rw [String.ofList_toList]
          rfl
        next => cases h

theorem not_mem_of_takeWhile_length {text : List Char}
    (h : ¬ (text.takeWhile fun c => c ≠ '"').length < text.length) : '"' ∉ text := by
  have hall : text.takeWhile (fun c => c ≠ '"') = text :=
    (List.takeWhile_prefix _).eq_of_length_le (Nat.le_of_not_lt h)
  intro hquote
  rw [← hall] at hquote
  simpa using takeWhile_all _ hquote

/-- Only a quote and all the text behind it, or a single character, is no token. -/
theorem error_of_reading {error : LexError} (h : (ofText first rest).reading = .error error) :
    (error = .invalidCharacter ∧ (ofText first rest).letters = [first]) ∨
      (error = .unterminatedString ∧ first = '"' ∧ (ofText first rest).letters = first :: rest ∧
        '"' ∉ rest) := by
  unfold ofText at h ⊢
  split at h
  next =>
    unfold word at h
    split at h <;> cases h
  next hstart =>
    rw [if_neg hstart]
    split at h
    next =>
      unfold number at h
      split at h <;> cases h
    next hdigit =>
      rw [if_neg hdigit]
      split at h
      next hquote =>
        rw [if_pos hquote]
        unfold quoted at h ⊢
        dsimp only at h ⊢
        split at h
        next => cases h
        next hopen =>
          cases h
          rw [if_neg hopen, hquote]
          exact .inr ⟨rfl, rfl, rfl, not_mem_of_takeWhile_length hopen⟩
      next hquote =>
        rw [if_neg hquote]
        split at h
        next => cases h
        next =>
          cases h
          exact .inl ⟨rfl, rfl⟩

end Lexeme

/-! ## One scan -/

namespace Cursor

/-- What is skipped inside a comment: the rest of its line, and then blank text. -/
def Skipped (comment : Bool) (rest gap : List Char) : Prop :=
  match comment with
  | false => Blank rest gap
  | true => ∃ line more, gap = line ++ more ∧ '\n' ∉ line ∧
      (∀ c ∈ (more ++ rest).head?, c = '\n') ∧ Blank rest more

theorem skipFrom_skipped (comment : Bool) (text : List Char) (offset : Nat) :
    ∃ gap, text = gap ++ (skipFrom comment text offset).rest ∧
      (skipFrom comment text offset).offset = offset + byteLength gap ∧
      Skipped comment (skipFrom comment text offset).rest gap := by
  fun_induction skipFrom comment text offset with
  | case1 comment offset =>
      refine ⟨[], rfl, rfl, ?_⟩
      cases comment with
      | false => exact .nil
      | true => exact ⟨[], [], rfl, by simp, by simp, .nil⟩
  | case2 c rest offset ih =>
      obtain ⟨gap, hrest, hoffset, hskipped⟩ := ih
      refine ⟨c :: gap, by rw [List.cons_append, ← hrest], by rw [hoffset]; simp [Nat.add_assoc], ?_⟩
      -- Inside a comment: a newline ends it, anything else goes on with its line.
      by_cases hc : c = '\n'
      · subst hc
        exact ⟨[], '\n' :: gap, rfl, by simp, by simp, .separator (by simp) hskipped⟩
      · rw [show (c != '\n') = true by simpa using hc] at hskipped ⊢
        obtain ⟨line, more, rfl, hline, hends, hmore⟩ := hskipped
        exact ⟨c :: line, more, rfl, by simp [hline, Ne.symm hc], hends, hmore⟩
  | case3 c rest offset hseparator ih =>
      obtain ⟨gap, hrest, hoffset, hskipped⟩ := ih
      refine ⟨c :: gap, by rw [List.cons_append, ← hrest], by rw [hoffset]; simp [Nat.add_assoc], ?_⟩
      exact .separator (by simpa [isSeparator, or_assoc] using hseparator) hskipped
  | case4 rest offset _ ih =>
      obtain ⟨gap, hrest, hoffset, line, more, rfl, hline, hends, hmore⟩ := ih
      refine ⟨'#' :: (line ++ more), by rw [List.cons_append, ← hrest],
        by rw [hoffset]; simp [Nat.add_assoc], ?_⟩
      exact .comment hline hends hmore
  | case5 c rest offset =>
      exact ⟨[], rfl, rfl, .nil⟩

/-- In front of what a scan reads there is nothing but blank text. -/
theorem skip_blank_gap (cursor : Cursor) :
    ∃ gap, cursor.rest = gap ++ cursor.skip.rest ∧
      cursor.skip.offset = cursor.offset + byteLength gap ∧ Blank cursor.skip.rest gap :=
  skipFrom_skipped false cursor.rest cursor.offset

theorem found_covers {cursor : Cursor} {first : Char} {rest behind : List Char}
    (hbehind : first :: rest = (Lexeme.ofText first rest).letters ++ behind) :
    (cursor.found (Lexeme.ofText first rest)).Covers (Lexeme.ofText first rest).letters behind := by
  unfold found
  dsimp only
  split
  next kind hreading =>
    refine ⟨fun hend => ?_, Lexeme.spelling_of_reading hreading⟩
    exact Lexeme.ofText_ne_endOfFile first rest (hreading.trans (congrArg _ hend))
  next error hreading =>
    rcases Lexeme.error_of_reading hreading with ⟨rfl, hletters⟩ | ⟨rfl, hquote, hletters, hrest⟩
    · exact ⟨first, hletters⟩
    · -- A string that is left open takes all that is left.
      rw [hletters] at hbehind
      refine ⟨rest, by rw [hletters, hquote], hrest, ?_⟩
      simpa using hbehind

theorem span_of_found (cursor : Cursor) (lexeme : Lexeme) :
    (cursor.found lexeme).span =
      ⟨cursor.offset, cursor.offset + byteLength lexeme.letters⟩ := by
  unfold found
  dsimp only
  split <;> rfl

/-- The cursor behind a scan: the text that was scanned is cut off. -/
theorem rest_behind {cursor : Cursor} {first : Char} {rest behind : List Char}
    (hrest : cursor.rest = first :: rest)
    (hbehind : first :: rest = (Lexeme.ofText first rest).letters ++ behind) :
    (cursor.behind (Lexeme.ofText first rest)).rest = behind := by
  unfold Cursor.behind
  rw [hrest, hbehind, List.drop_left]

/-- Every scan takes some text. -/
theorem rest_shorter_of_scan {cursor next : Cursor} {result : Scan}
    (h : cursor.scan = some (result, next)) : next.rest.length < cursor.rest.length := by
  obtain ⟨first, rest, hrest, -, rfl⟩ := scan_eq_some h
  obtain ⟨behind, hbehind⟩ := Lexeme.letters_prefix first rest
  obtain ⟨gap, hgap, -, -⟩ := cursor.skip_blank_gap
  have hletters := List.length_pos_iff.mpr (Lexeme.letters_ne_nil first rest)
  rw [rest_behind hrest hbehind.symm, hgap, hrest, ← hbehind, List.length_append,
    List.length_append]
  omega

theorem rest_of_scan_eq_none {cursor : Cursor} (h : cursor.scan = none) : cursor.skip.rest = [] := by
  rw [scan_eq] at h
  split at h
  · assumption
  · cases h

/-- As many rounds as there are characters cut a text up to its end. -/
theorem scans_tiled (cursor : Cursor) {rounds : Nat} (hrounds : cursor.rest.length ≤ rounds) :
    Tiled cursor.offset cursor.rest (cursor.scans rounds) := by
  induction rounds generalizing cursor with
  | zero =>
      have hrest : cursor.rest = [] := List.eq_nil_of_length_eq_zero (Nat.le_zero.mp hrounds)
      rw [hrest]
      exact .done .nil
  | succ rounds ih =>
      obtain ⟨gap, hgap, hoffset, hblank⟩ := cursor.skip_blank_gap
      unfold scans
      split
      next hnone =>
        have hend := rest_of_scan_eq_none hnone
        rw [hend] at hblank
        rw [hgap, hend, List.append_nil]
        exact .done hblank
      next result next hscan =>
        -- The text is cut into what is skipped, what is scanned, and a shorter rest.
        have hshorter := rest_shorter_of_scan hscan
        obtain ⟨first, rest, hrest, rfl, rfl⟩ := scan_eq_some hscan
        obtain ⟨behind, hbehind⟩ := Lexeme.letters_prefix first rest
        have hspan := span_of_found cursor.skip (Lexeme.ofText first rest)
        have htiled := ih (cursor.skip.behind (Lexeme.ofText first rest)) (by omega)
        rw [rest_behind hrest hbehind.symm] at htiled
        rw [hgap, hrest, ← hbehind]
        refine .scan ?_ (Lexeme.letters_ne_nil first rest) (found_covers hbehind.symm) ?_ ?_ ?_
        · rwa [hbehind, ← hrest]
        · rw [hspan, hoffset]
        · rw [hspan, hoffset]
        · rwa [← hoffset]

end Cursor

theorem byteLength_pos {text : List Char} (h : text ≠ []) : 0 < byteLength text := by
  match text, h with
  | c :: rest, _ =>
    have := c.utf8Size_pos
    rw [byteLength_cons]
    omega

/-! ## The whole source -/

/-- Two spans one behind the other with nothing but blank text of the source in
between. -/
def Span.Adjoins (source : List Char) (first second : Span) : Prop :=
  ∃ before gap behind, (Span.mk first.stop second.start).Cuts source before gap behind ∧
    Blank behind gap

/-- The scans cut a source up: with the end behind them and nothing in front of
them they stand in order, what is between them is blank, and each covers the text
that it speaks of. Behind a string that is left open there is nothing more. -/
structure Tiling (source : List Char) (scans : List Scan) : Prop where
  nonempty : ∀ scan ∈ scans, scan.span.start < scan.span.stop
  ordered : (scans ++ [Scan.atEnd (byteLength source)]).Pairwise fun scan later =>
    scan.span.start < later.span.start ∧ scan.span.stop ≤ later.span.start
  adjoining : List.IsChain (Span.Adjoins source)
    (⟨0, 0⟩ :: (scans ++ [Scan.atEnd (byteLength source)]).map Scan.span)
  covers : ∀ scan ∈ scans, ∃ before text behind,
    scan.span.Cuts source before text behind ∧ scan.Covers text behind
  open_last : ∀ before span later,
    scans = before ++ .error ⟨.unterminatedString, span⟩ :: later → later = []

namespace Tiled

variable {offset : Nat} {text : List Char} {scans : List Scan}

theorem bounds (h : Tiled offset text scans) : ∀ scan ∈ scans,
    offset ≤ scan.span.start ∧ scan.span.start < scan.span.stop ∧
      scan.span.stop ≤ offset + byteLength text := by
  induction h with
  | done => simp
  | scan _ htext _ hstart hstop _ ih =>
      have hpositive := byteLength_pos htext
      simp only [byteLength_append]
      intro scan hscan
      rcases List.mem_cons.mp hscan with rfl | hscan
      · omega
      · have := ih scan hscan
        omega

theorem ordered (h : Tiled offset text scans) :
    (scans ++ [Scan.atEnd (offset + byteLength text)]).Pairwise fun scan later =>
      scan.span.start < later.span.start ∧ scan.span.stop ≤ later.span.start := by
  induction h with
  | done => simp
  | @scan offset gap text rest scan scans _ htext _ hstart hstop hrest ih =>
      have hlength : offset + byteLength (gap ++ (text ++ rest)) =
          offset + byteLength gap + byteLength text + byteLength rest := by
        simp only [byteLength_append]
        omega
      have hpositive := byteLength_pos htext
      rw [List.cons_append, hlength]
      refine List.pairwise_cons.mpr ⟨fun later hlater => ?_, ih⟩
      rcases List.mem_append.mp hlater with hlater | hlater
      · have := hrest.bounds later hlater
        omega
      · rw [List.mem_singleton.mp hlater]
        simp only [Scan.span_atEnd]
        omega

theorem adjoining (h : Tiled offset text scans) {source : List Char} (before : List Char)
    {previous : Span} (hsource : source = before ++ text) (hbefore : byteLength before = offset)
    (hprevious : previous.stop = offset) :
    List.IsChain (Span.Adjoins source)
      (previous :: (scans ++ [Scan.atEnd (byteLength source)]).map Scan.span) := by
  induction h generalizing before previous with
  | @done offset gap hgap =>
      refine List.isChain_pair.mpr ⟨before, gap, [], ⟨by simp [hsource], ?_, ?_⟩, hgap⟩
      · rw [hprevious, hbefore]
      · simp [hsource]
  | @scan offset gap text rest scan scans hgap htext hscan hstart hstop hrest ih =>
      refine List.isChain_cons_cons.mpr ⟨?_, ?_⟩
      · refine ⟨before, gap, text ++ rest, ⟨hsource, ?_, ?_⟩, hgap⟩
        · rw [hprevious, hbefore]
        · rw [hstart, hbefore]
      · -- What was gone through by now grows by the gap and by what was scanned.
        refine ih (before ++ (gap ++ text)) ?_ ?_ ?_
        · simp [hsource]
        · simp [hbefore, Nat.add_assoc]
        · rw [hstop]

theorem covers (h : Tiled offset text scans) {source : List Char} (before : List Char)
    (hsource : source = before ++ text) (hbefore : byteLength before = offset) :
    ∀ scan ∈ scans, ∃ before text behind,
      scan.span.Cuts source before text behind ∧ scan.Covers text behind := by
  induction h generalizing before with
  | done => simp
  | @scan offset gap text rest scan scans hgap htext hscan hstart hstop hrest ih =>
      refine List.forall_mem_cons.mpr ⟨⟨before ++ gap, text, rest, ⟨?_, ?_, ?_⟩, hscan⟩, ?_⟩
      · simp [hsource]
      · rw [hstart, byteLength_append, hbefore]
      · rw [hstop, byteLength_append, hbefore]
      · exact ih (before ++ (gap ++ text)) (by simp [hsource]) (by simp [hbefore, Nat.add_assoc])

/-- Nothing is scanned in an empty text. -/
theorem eq_nil (h : Tiled offset [] scans) : scans = [] := by
  generalize htext : ([] : List Char) = text at h
  cases h with
  | done => rfl
  | scan _ hne => simp_all

theorem open_last (h : Tiled offset text scans) {before later : List Scan} {span : Span}
    (hscans : scans = before ++ .error ⟨.unterminatedString, span⟩ :: later) : later = [] := by
  induction h generalizing before with
  | done => simp at hscans
  | scan _ _ hscan _ _ hrest ih =>
      match before, hscans with
      | [], hscans =>
          obtain ⟨rfl, rfl⟩ := List.cons.inj hscans
          obtain ⟨_, _, _, rfl⟩ := hscan
          exact hrest.eq_nil
      | _ :: _, hscans => exact ih (List.cons.inj hscans).2

end Tiled

/-- All that can be scanned in a source cuts it up. -/
theorem Stream.ofSource_tiling (source : String) :
    Tiling source.toList (Stream.ofSource source).scans := by
  have htiled : Tiled 0 source.toList (Stream.ofSource source).scans :=
    (Cursor.ofSource source).scans_tiled (Nat.le_refl _)
  refine ⟨fun scan hscan => (htiled.bounds scan hscan).2.1, ?_, ?_, ?_, ?_⟩
  · have := htiled.ordered
    rwa [Nat.zero_add] at this
  · exact htiled.adjoining [] rfl rfl rfl
  · exact htiled.covers [] rfl rfl
  · exact fun _ _ _ hscans => htiled.open_last hscans

/-! ## Reading one scan after the other -/

namespace Reader

theorem drain_of_scan_eq_none {cursor : Cursor} {length most : Nat} (h : cursor.scan = none) :
    (drain (most + 1) ⟨cursor, length, []⟩).1 = [Scan.atEnd length] := by
  rw [drain, next, scan, h]
  rfl

theorem drain_of_scan {cursor after : Cursor} {length most : Nat} {result : Scan}
    (h : cursor.scan = some (result, after))
    (hend : ∀ token, result = .ok token → token.kind ≠ .endOfFile) :
    (drain (most + 1) ⟨cursor, length, []⟩).1 =
      result :: (drain most ⟨after, length, []⟩).1 := by
  have hnext : next ⟨cursor, length, []⟩ = (result, ⟨after, length, []⟩) := by
    unfold next scan
    simp only [h]
  rw [drain, hnext]
  cases result with
  | ok token =>
      dsimp only
      rw [if_neg (hend token rfl)]
  | error flaw => rfl

/-- Taking one after the other gives all scans and then the end. -/
theorem drain_eq (cursor : Cursor) {length rounds most : Nat}
    (hrounds : cursor.rest.length ≤ rounds) (hmost : (cursor.scans rounds).length < most) :
    (drain most ⟨cursor, length, []⟩).1 = cursor.scans rounds ++ [Scan.atEnd length] := by
  induction most generalizing cursor rounds with
  | zero => exact absurd hmost (Nat.not_lt_zero _)
  | succ most ih =>
      cases hscan : cursor.scan with
      | none =>
          have hscans : cursor.scans rounds = [] := by
            cases rounds with
            | zero => rfl
            | succ rounds => rw [Cursor.scans, hscan]
          rw [drain_of_scan_eq_none hscan, hscans, List.nil_append]
      | some found =>
          obtain ⟨result, after⟩ := found
          have hshorter := Cursor.rest_shorter_of_scan hscan
          -- There is a round for every character, so there is one for this scan.
          obtain ⟨rounds, rfl⟩ : ∃ fewer, rounds = fewer + 1 := ⟨rounds - 1, by omega⟩
          have hscans : cursor.scans (rounds + 1) = result :: after.scans rounds := by
            rw [Cursor.scans, hscan]
          have hend : ∀ token, result = .ok token → token.kind ≠ .endOfFile := by
            rintro token rfl
            exact Cursor.scans_ne_endOfFile (hscans ▸ List.mem_cons_self)
          rw [hscans] at hmost ⊢
          rw [drain_of_scan hscan hend, List.cons_append,
            ih after (by omega) (Nat.lt_of_succ_lt_succ hmost)]

/-- A source read to its end, flaws included, loses no text: finitely many calls
give its scans and then its end, and the scans cut the source up. -/
theorem drain_tiling (source : String) :
    ∃ scans : List Scan,
      (∀ most, scans.length < most →
        ((Reader.ofSource source).drain most).1 =
          scans ++ [Scan.atEnd (byteLength source.toList)]) ∧
      Tiling source.toList scans :=
  ⟨(Stream.ofSource source).scans,
    fun _ hmost => drain_eq (Cursor.ofSource source) (Nat.le_refl _) hmost,
    Stream.ofSource_tiling source⟩

end Reader

end FilterScript
