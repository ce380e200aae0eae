import FilterScript.Token.Stream

/-!
# What scanning a source gives

One scan skips blanks and comments and cuts a lexeme off what is left. From this
follows what is true of all scans of a source: none of them is its end, and they
stand in the order of their places.
-/

namespace FilterScript

/-- The end of a source is no token of it. -/
theorem Lexeme.ofText_ne_endOfFile (first : Char) (rest : List Char) :
    (Lexeme.ofText first rest).reading ≠ .ok .endOfFile := by
  have hword : ∀ word next, wordKind word next ≠ .endOfFile := by
    intro word next
    unfold wordKind
    split
    · split <;> simp
    · simp
  unfold ofText
  split
  · unfold word
    split <;> simp [hword]
  split
  · unfold number
    split <;> simp
  split
  · unfold quoted
    dsimp only
    split <;> simp
  split <;> simp

namespace Lexeme

theorem letters_prefix_of_escapedName? {text name : List Char} (h : escapedName? text = some name) :
    'r' :: '#' :: name <+: text := by
  unfold escapedName? at h
  split at h
  next first rest =>
    split at h
    next =>
      cases h
      simpa using List.takeWhile_prefix _
    next => cases h
  next => cases h

theorem prefix_of_dottedRuns? {more : Nat} {text letters : List Char}
    (h : dottedRuns? more text = some letters) : letters <+: text := by
  induction more generalizing text letters with
  | zero =>
      unfold dottedRuns? at h
      dsimp only at h
      split at h
      next => cases h
      next =>
        cases h
        exact List.takeWhile_prefix _
  | succ more ih =>
      unfold dottedRuns? at h
      dsimp only at h
      split at h
      next => cases h
      next =>
        split at h
        next rest hrest =>
          obtain ⟨tail, htail, rfl⟩ := Option.map_eq_some_iff.mp h
          obtain ⟨behind, hbehind⟩ := ih htail
          refine ⟨behind, ?_⟩
          rw [List.append_assoc, List.cons_append, hbehind, ← hrest]
          exact List.prefix_iff_eq_append.mp (List.takeWhile_prefix _)
        next => cases h

/-- Where a run of characters ends before the text does, one stands that does
not belong to it. -/
theorem takeWhile_quote_prefix {text : List Char}
    (h : (text.takeWhile fun c => c ≠ '"').length < text.length) :
    text.takeWhile (fun c => c ≠ '"') ++ ['"'] <+: text := by
  induction text with
  | nil => simp at h
  | cons c rest ih =>
      by_cases hc : c = '"'
      · simp [hc]
      · rw [List.takeWhile_cons_of_pos (by simpa using hc)] at h ⊢
        simpa using ih (by simpa using h)

/-- A lexeme is cut off the front of its text. -/
theorem letters_prefix (first : Char) (rest : List Char) :
    (ofText first rest).letters <+: first :: rest := by
  unfold ofText
  split
  · unfold word
    split
    next name hname => exact letters_prefix_of_escapedName? hname
    next => exact List.takeWhile_prefix _
  split
  · unfold number
    split
    next letters hletters => exact prefix_of_dottedRuns? hletters
    next => exact List.takeWhile_prefix _
  split
  next hquote =>
    unfold quoted
    dsimp only
    split
    next hshorter =>
      rw [hquote, List.prefix_cons_inj]
      exact takeWhile_quote_prefix hshorter
    next => simp [hquote]
  split
  next mark hmark =>
    have hfits := List.find?_some hmark
    exact List.isPrefixOf_iff_prefix.mp hfits
  next => simp

end Lexeme

namespace Cursor

/-- What one scan finds at a cursor in front of a character. -/
def found (cursor : Cursor) (lexeme : Lexeme) : Scan :=
  let span : Span := ⟨cursor.offset, cursor.offset + byteLength lexeme.letters⟩
  match lexeme.reading with
  | .ok kind => .ok ⟨kind, span⟩
  | .error error => .error ⟨error, span⟩

/-- The cursor behind a lexeme. -/
def behind (cursor : Cursor) (lexeme : Lexeme) : Cursor :=
  ⟨cursor.rest.drop lexeme.letters.length, cursor.offset + byteLength lexeme.letters⟩

theorem scan_eq (cursor : Cursor) :
    cursor.scan =
      match cursor.skip.rest with
      | [] => none
      | first :: rest =>
          let lexeme := Lexeme.ofText first rest
          some (cursor.skip.found lexeme, cursor.skip.behind lexeme) := rfl

theorem scan_eq_some {cursor next : Cursor} {result : Scan}
    (h : cursor.scan = some (result, next)) :
    ∃ first rest, cursor.skip.rest = first :: rest ∧
      result = cursor.skip.found (Lexeme.ofText first rest) ∧
      next = cursor.skip.behind (Lexeme.ofText first rest) := by
  rw [scan_eq] at h
  split at h
  next => cases h
  next first rest hrest =>
    cases h
    exact ⟨first, rest, hrest, rfl, rfl⟩

theorem kind_of_found {cursor : Cursor} {lexeme : Lexeme} {token : Token}
    (h : cursor.found lexeme = .ok token) : lexeme.reading = .ok token.kind := by
  unfold found at h
  split at h
  next hreading =>
    cases h
    exact hreading
  next => cases h

/-- The first of all scans is one scan, and the others are made where it ends. -/
theorem exists_scan_of_scans {rounds : Nat} {cursor : Cursor} {first : Scan} {later : List Scan}
    (h : cursor.scans rounds = first :: later) :
    ∃ fewer next, rounds = fewer + 1 ∧ cursor.scan = some (first, next) ∧
      next.scans fewer = later := by
  cases rounds with
  | zero => cases h
  | succ fewer =>
      rw [scans] at h
      split at h
      next => cases h
      next result next hscan =>
        obtain ⟨rfl, hlater⟩ := List.cons.inj h
        exact ⟨fewer, next, rfl, hscan, hlater⟩

theorem scans_ne_endOfFile {rounds : Nat} {cursor : Cursor} {token : Token}
    (h : .ok token ∈ cursor.scans rounds) : token.kind ≠ .endOfFile := by
  induction rounds generalizing cursor with
  | zero => cases h
  | succ rounds ih =>
      unfold scans at h
      split at h
      next => cases h
      next result next hscan =>
        rcases List.mem_cons.mp h with rfl | h
        · obtain ⟨first, rest, _, hfound, _⟩ := scan_eq_some hscan
          have hreading := kind_of_found hfound.symm
          exact fun hend => Lexeme.ofText_ne_endOfFile first rest (hend ▸ hreading)
        · exact ih h

end Cursor

/-- Where the text of a scan starts. -/
def Scan.start : Scan → Nat
  | .ok token => token.span.start
  | .error flaw => flaw.span.start

/-- Scans stand in the order of their places, and none starts behind the end. -/
structure Stream.Ordered (stream : Stream) : Prop where
  sorted : stream.scans.Pairwise fun scan later => Scan.start scan ≤ Scan.start later
  bounded : ∀ scan ∈ stream.scans, Scan.start scan ≤ stream.length

namespace Cursor

/-- The length of the source that a cursor stands in. -/
def length (cursor : Cursor) : Nat :=
  cursor.offset + byteLength cursor.rest

theorem skipFrom_length (comment : Bool) (text : List Char) (offset : Nat) :
    (skipFrom comment text offset).length = offset + byteLength text := by
  fun_induction skipFrom comment text offset <;> simp_all [length, Nat.add_assoc]

theorem skip_length (cursor : Cursor) : cursor.skip.length = cursor.length :=
  skipFrom_length false cursor.rest cursor.offset

theorem skipFrom_offset (comment : Bool) (text : List Char) (offset : Nat) :
    offset ≤ (skipFrom comment text offset).offset := by
  fun_induction skipFrom comment text offset <;> first | exact Nat.le_refl _ | omega

theorem skip_offset (cursor : Cursor) : cursor.offset ≤ cursor.skip.offset :=
  skipFrom_offset false cursor.rest cursor.offset

theorem behind_length {cursor : Cursor} {lexeme : Lexeme} (h : lexeme.letters <+: cursor.rest) :
    (cursor.behind lexeme).length = cursor.length := by
  obtain ⟨rest, hrest⟩ := h
  simp [behind, length, ← hrest, Nat.add_assoc]

theorem start_of_found (cursor : Cursor) (lexeme : Lexeme) :
    Scan.start (cursor.found lexeme) = cursor.offset := by
  unfold found
  dsimp only
  split <;> rfl

/-- One scan starts at or behind the cursor and goes on behind its start. -/
theorem scan_bounds {cursor next : Cursor} {result : Scan} (h : cursor.scan = some (result, next)) :
    cursor.offset ≤ Scan.start result ∧ Scan.start result ≤ next.offset ∧
      next.length = cursor.length := by
  obtain ⟨first, rest, hrest, rfl, rfl⟩ := scan_eq_some h
  rw [start_of_found]
  refine ⟨skip_offset cursor, Nat.le_add_right _ _, ?_⟩
  rw [behind_length (hrest ▸ Lexeme.letters_prefix first rest), skip_length]

theorem scans_bounds {rounds : Nat} {cursor : Cursor} :
    ∀ scan ∈ cursor.scans rounds, cursor.offset ≤ Scan.start scan ∧
      Scan.start scan ≤ cursor.length := by
  induction rounds generalizing cursor with
  | zero => simp [scans]
  | succ rounds ih =>
      unfold scans
      split
      next => simp
      next result next hscan =>
        obtain ⟨hstart, hnext, hlength⟩ := scan_bounds hscan
        have hoffset : next.offset ≤ next.length := Nat.le_add_right _ _
        intro scan hmem
        rcases List.mem_cons.mp hmem with rfl | hmem
        · omega
        · have := ih scan hmem
          omega

theorem scans_sorted {rounds : Nat} {cursor : Cursor} :
    (cursor.scans rounds).Pairwise fun scan later => Scan.start scan ≤ Scan.start later := by
  induction rounds generalizing cursor with
  | zero => simp [scans]
  | succ rounds ih =>
      unfold scans
      split
      next => simp
      next result next hscan =>
        refine List.pairwise_cons.mpr ⟨fun later hlater => ?_, ih⟩
        exact Nat.le_trans (scan_bounds hscan).2.1 (scans_bounds later hlater).1

end Cursor

theorem Stream.ofSource_ordered (source : String) : (Stream.ofSource source).Ordered where
  sorted := Cursor.scans_sorted
  bounded scan hscan := by
    simpa [Cursor.length, Cursor.ofSource, Stream.ofSource] using
      (Cursor.scans_bounds scan hscan).2

end FilterScript
