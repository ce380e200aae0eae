import FilterScript.Source.Position
import FilterScript.Source.Span
import Mathlib.Data.List.DropRight
import Mathlib.Data.Prod.Lex

/-!
# Positions order and identify offsets

The position of an offset is told by the characters that end in front of it: how
many lines they go through, and how far they come in the last one. With more
characters this place moves on, so offsets are ordered like their positions, and
two offsets between characters never have the same one.
-/

namespace FilterScript

/-! ## Bytes -/

/-- The bytes of a source. -/
def bytesOf (source : String) : List UInt8 :=
  source.toByteArray.data.toList

/-- The byte that ends a line. -/
def newlineByte : UInt8 :=
  10

theorem bytesOf_eq (source : String) :
    bytesOf source = source.toList.flatMap String.utf8EncodeChar := by
  rw [bytesOf, ← String.utf8Encode_toList, List.utf8Encode, List.data_toByteArray]

theorem length_encoded (text : List Char) :
    (text.flatMap String.utf8EncodeChar).length = byteLength text := by
  induction text with
  | nil => rfl
  | cons c rest ih => simp [ih]

theorem byteLength_toList (source : String) : byteLength source.toList = source.utf8ByteSize := by
  rw [← length_encoded, ← bytesOf_eq, bytesOf, ← String.size_toByteArray]
  rfl

/-- The code of a character is the character itself or has large bytes only. -/
theorem toNat_of_mem_encoded {c : Char} {byte : UInt8} (h : byte ∈ String.utf8EncodeChar c) :
    byte.toNat = c.toNat ∨ 128 ≤ byte.toNat := by
  unfold String.utf8EncodeChar at h
  dsimp only at h
  split at h
  next hsmall =>
    rw [List.mem_singleton.mp h]
    exact .inl (Nat.mod_eq_of_lt (Nat.lt_of_le_of_lt hsmall (by decide)))
  next =>
    right
    split at h
    · rcases h with _ | ⟨_, _ | ⟨_, ⟨⟩⟩⟩ <;> simp <;> omega
    · split at h
      · rcases h with _ | ⟨_, _ | ⟨_, _ | ⟨_, ⟨⟩⟩⟩⟩ <;> simp <;> omega
      · rcases h with _ | ⟨_, _ | ⟨_, _ | ⟨_, _ | ⟨_, ⟨⟩⟩⟩⟩⟩ <;> simp <;> omega

/-- No character but the newline has the byte of a newline in its code. -/
theorem count_newlineByte (c : Char) :
    (String.utf8EncodeChar c).count newlineByte = if c = '\n' then 1 else 0 := by
  split
  next h =>
    rw [h]
    decide
  next h =>
    rw [List.count_eq_zero]
    intro hmem
    rcases toNat_of_mem_encoded hmem with hsame | hlarge
    · exact h (Char.toNat_inj.mp hsame.symm)
    · exact absurd hlarge (by decide)

namespace Position

/-! ## Characters in front of an offset -/

/-- The characters that end within the first `bytes` bytes. -/
def charsWithin : List Char → Nat → List Char
  | [], _ => []
  | c :: rest, bytes =>
      if bytes < c.utf8Size then [] else c :: charsWithin rest (bytes - c.utf8Size)

theorem charsWithin_zero (text : List Char) : charsWithin text 0 = [] := by
  cases text with
  | nil => rfl
  | cons c rest => exact if_pos c.utf8Size_pos

/-- They are the front of the text up to the first character that ends too late. -/
theorem charsWithin_append {front back : List Char} {bytes : Nat} (hfront : byteLength front ≤ bytes)
    (hback : ∀ c ∈ back.head?, bytes < byteLength front + c.utf8Size) :
    charsWithin (front ++ back) bytes = front := by
  induction front generalizing bytes with
  | nil =>
      cases back with
      | nil => rfl
      | cons c rest => exact if_pos (by simpa using hback)
  | cons c front ih =>
      rw [byteLength_cons] at hfront hback
      rw [List.cons_append, charsWithin, if_neg (by omega), ih (by omega)]
      intro next hnext
      have hlate := hback next hnext
      omega

theorem exists_charsWithin (text : List Char) (bytes : Nat) :
    ∃ back, text = charsWithin text bytes ++ back ∧ byteLength (charsWithin text bytes) ≤ bytes ∧
      ∀ c ∈ back.head?, bytes < byteLength (charsWithin text bytes) + c.utf8Size := by
  induction text generalizing bytes with
  | nil => exact ⟨[], rfl, Nat.zero_le _, by simp⟩
  | cons c rest ih =>
      unfold charsWithin
      split
      next hlate => exact ⟨c :: rest, rfl, Nat.zero_le _, by simpa using hlate⟩
      next hends =>
        obtain ⟨back, hrest, hle, hback⟩ := ih (bytes - c.utf8Size)
        refine ⟨back, by rw [List.cons_append, ← hrest], ?_, ?_⟩
        · rw [byteLength_cons]
          omega
        · intro next hnext
          have hlate := hback next hnext
          rw [byteLength_cons]
          omega

/-- Further on there are more characters. -/
theorem charsWithin_mono (text : List Char) {bytes more : Nat} (h : bytes ≤ more) :
    charsWithin text bytes <+: charsWithin text more := by
  induction text generalizing bytes more with
  | nil => exact List.prefix_refl _
  | cons c rest ih =>
      unfold charsWithin
      by_cases hlate : bytes < c.utf8Size
      · rw [if_pos hlate]
        exact List.nil_prefix
      · rw [if_neg hlate, if_neg (by omega)]
        exact List.prefix_cons_inj c |>.mpr (ih (by omega))

theorem charsWithin_append_of_le (text more : List Char) {bytes : Nat} (h : bytes ≤ byteLength text) :
    charsWithin (text ++ more) bytes = charsWithin text bytes := by
  induction text generalizing bytes with
  | nil =>
      obtain rfl := Nat.le_zero.mp h
      exact charsWithin_zero more
  | cons c rest ih =>
      rw [byteLength_cons] at h
      rw [List.cons_append, charsWithin, charsWithin, ih (by omega)]

/-- The newline bytes in front of an offset belong to the newlines that end there. -/
theorem count_take (text : List Char) (bytes : Nat) :
    ((text.flatMap String.utf8EncodeChar).take bytes).count newlineByte =
      (charsWithin text bytes).count '\n' := by
  induction text generalizing bytes with
  | nil => simp [charsWithin]
  | cons c rest ih =>
      rw [List.flatMap_cons, charsWithin, List.take_append, String.length_utf8EncodeChar,
        List.count_append, ih]
      split
      next hlate =>
        -- A newline is one byte long, so it is not cut in two.
        have hzero : bytes - c.utf8Size = 0 := by omega
        rw [hzero, charsWithin_zero, List.count_nil, Nat.add_zero, List.count_eq_zero]
        intro hmem
        have hcount := count_newlineByte c
        by_cases hc : c = '\n'
        · have hsize : c.utf8Size = 1 := by rw [hc]; rfl
          rw [show bytes = 0 by omega] at hmem
          cases hmem
        · rw [if_neg hc, List.count_eq_zero] at hcount
          exact hcount (List.mem_of_mem_take hmem)
      next hends =>
        have htake : (String.utf8EncodeChar c).take bytes = String.utf8EncodeChar c := by
          rw [List.take_of_length_le]
          rw [String.length_utf8EncodeChar]
          omega
        rw [htake, count_newlineByte, List.count_cons, Nat.add_comm]
        simp

/-! ## Places -/

/-- One character further: to the next line behind a newline, else to the next
column. -/
def advance (place : Nat × Nat) (c : Char) : Nat × Nat :=
  if c = '\n' then (place.1 + 1, 1) else (place.1, place.2 + 1)

/-- The characters since the last newline. -/
def lastLine (text : List Char) : List Char :=
  text.rtakeWhile fun c => c ≠ '\n'

theorem walk_eq_foldl (text : List Char) (bytes line column : Nat) :
    walk text bytes line column = (charsWithin text bytes).foldl advance (line, column) := by
  induction text generalizing bytes line column with
  | nil => rfl
  | cons c rest ih =>
      unfold walk charsWithin
      split
      · rfl
      · rw [List.foldl_cons, advance]
        split <;> exact ih _ _ _

theorem foldl_advance (text : List Char) :
    text.foldl advance (1, 1) = (1 + text.count '\n', 1 + (lastLine text).length) := by
  induction text using List.reverseRecOn with
  | nil => rfl
  | append_singleton text c ih =>
      rw [List.foldl_append, ih, List.count_append]
      unfold lastLine
      rw [List.rtakeWhile_concat]
      by_cases hc : c = '\n'
      · simp [advance, hc, Nat.add_assoc]
      · simp [advance, hc, Nat.add_assoc]

theorem lt_advance (place : Nat × Nat) (c : Char) : toLex place < toLex (advance place c) := by
  rw [Prod.Lex.toLex_lt_toLex, advance]
  split
  · exact .inl (Nat.lt_succ_self _)
  · exact .inr ⟨rfl, Nat.lt_succ_self _⟩

theorem le_foldl_advance (text : List Char) (place : Nat × Nat) :
    toLex place ≤ toLex (text.foldl advance place) := by
  induction text generalizing place with
  | nil => exact le_refl _
  | cons c rest ih => exact (lt_advance place c).le.trans (ih _)

/-- More characters lead to a later place. -/
theorem lt_foldl_advance {text : List Char} (h : text ≠ []) (place : Nat × Nat) :
    toLex place < toLex (text.foldl advance place) := by
  cases text with
  | nil => exact absurd rfl h
  | cons c rest => exact (lt_advance place c).trans_le (le_foldl_advance rest _)

/-- Line and column, to be compared line by line. -/
def key (position : Position) : Nat ×ₗ Nat :=
  toLex (position.line, position.column)

theorem resolve_eq (source : String) (offset : Nat) :
    resolve source offset =
      ⟨offset, 1 + (charsWithin source.toList offset).count '\n',
        1 + (lastLine (charsWithin source.toList offset)).length⟩ := by
  unfold resolve
  rw [walk_eq_foldl, foldl_advance]

theorem key_resolve (source : String) (offset : Nat) :
    (resolve source offset).key =
      toLex ((charsWithin source.toList offset).foldl advance (1, 1)) := by
  rw [resolve_eq, foldl_advance]
  rfl

/-! ## Lines in the bytes of a source -/

/-- A line starts here and has not ended at the offset: a newline stands right in
front of the start, unless the source starts here too, and none stands between the
start and the offset. -/
structure StartsLine (source : String) (start offset : Nat) : Prop where
  le : start ≤ offset
  behind : start = 0 ∨ (bytesOf source)[start - 1]? = some newlineByte
  within : ∀ index, start ≤ index → index < offset → (bytesOf source)[index]? ≠ some newlineByte

/-- Where the characters of a text stand if it starts at an offset. -/
def extents : Nat → List Char → List Span
  | _, [] => []
  | offset, c :: rest => ⟨offset, offset + c.utf8Size⟩ :: extents (offset + c.utf8Size) rest

/-- How many characters stand, with all their bytes, between two offsets. -/
def charactersBetween (source : String) (start stop : Nat) : Nat :=
  (extents 0 source.toList).countP fun span => start ≤ span.start ∧ span.stop ≤ stop

theorem extents_append (front back : List Char) (offset : Nat) :
    extents offset (front ++ back) =
      extents offset front ++ extents (offset + byteLength front) back := by
  induction front generalizing offset with
  | nil => rfl
  | cons c front ih => rw [List.cons_append, extents, extents, ih, byteLength_cons, Nat.add_assoc,
      List.cons_append]

theorem length_extents (text : List Char) (offset : Nat) :
    (extents offset text).length = text.length := by
  induction text generalizing offset with
  | nil => rfl
  | cons c rest ih => rw [extents, List.length_cons, ih, List.length_cons]

theorem bounds_of_mem_extents {text : List Char} {offset : Nat} {span : Span}
    (h : span ∈ extents offset text) :
    offset ≤ span.start ∧ span.start < span.stop ∧ span.stop ≤ offset + byteLength text := by
  induction text generalizing offset with
  | nil => cases h
  | cons c rest ih =>
      have hsize := c.utf8Size_pos
      rw [byteLength_cons]
      rcases List.mem_cons.mp h with rfl | hrest
      · dsimp only
        omega
      · have hbounds := ih hrest
        omega

/-- Behind characters that ended too late there is none that ends in time. -/
theorem late_of_mem_extents {text : List Char} {offset late : Nat} {span : Span}
    (hlate : ∀ c ∈ text.head?, late < offset + c.utf8Size) (h : span ∈ extents offset text) :
    late < span.stop := by
  cases text with
  | nil => cases h
  | cons c rest =>
      have hfirst := hlate c rfl
      rcases List.mem_cons.mp h with rfl | hrest
      · exact hfirst
      · have hbounds := bounds_of_mem_extents hrest
        omega

/-- Of a text in three parts, the characters between the ends of the first and the
second are those of the second. -/
theorem countP_extents {head line back : List Char} {stop : Nat}
    (hstop : byteLength (head ++ line) ≤ stop)
    (hback : ∀ c ∈ back.head?, stop < byteLength (head ++ line) + c.utf8Size) :
    (extents 0 (head ++ line ++ back)).countP
      (fun span => byteLength head ≤ span.start ∧ span.stop ≤ stop) = line.length := by
  rw [byteLength_append] at hstop hback
  have hhead : (extents 0 head).countP
      (fun span => byteLength head ≤ span.start ∧ span.stop ≤ stop) = 0 := by
    rw [List.countP_eq_zero]
    intro span hspan
    have hbounds := bounds_of_mem_extents hspan
    simp only [decide_eq_true_eq]
    omega
  have hline : (extents (byteLength head) line).countP
      (fun span => byteLength head ≤ span.start ∧ span.stop ≤ stop) = line.length := by
    rw [← length_extents line (byteLength head), List.countP_eq_length]
    intro span hspan
    have hbounds := bounds_of_mem_extents hspan
    simp only [decide_eq_true_eq]
    omega
  have hrest : (extents (byteLength head + byteLength line) back).countP
      (fun span => byteLength head ≤ span.start ∧ span.stop ≤ stop) = 0 := by
    rw [List.countP_eq_zero]
    intro span hspan
    have hlate := late_of_mem_extents hback hspan
    simp only [decide_eq_true_eq]
    omega
  rw [extents_append, extents_append, List.countP_append, List.countP_append, byteLength_append]
  simp only [Nat.zero_add, hhead, hline, hrest, Nat.add_zero]

/-- In front of the last line there is a newline, or nothing at all. -/
theorem exists_lastLine (text : List Char) :
    ∃ head, text = head ++ lastLine text ∧ '\n' ∉ lastLine text ∧
      (head = [] ∨ ∃ front, head = front ++ ['\n']) := by
  obtain ⟨head, hhead⟩ := List.rtakeWhile_suffix (fun c => decide (c ≠ '\n')) text
  refine ⟨head, hhead.symm, ?_, ?_⟩
  · intro hmem
    simpa using List.mem_rtakeWhile_imp hmem
  · induction text using List.reverseRecOn generalizing head with
    | nil => exact .inl (List.append_eq_nil_iff.mp hhead).1
    | append_singleton text c ih =>
        rw [List.rtakeWhile_concat] at hhead
        by_cases hc : c = '\n'
        · rw [if_neg (by simpa using hc), List.append_nil] at hhead
          exact .inr ⟨text, hc ▸ hhead⟩
        · rw [if_pos (by simpa using hc), ← List.append_assoc] at hhead
          exact ih head (List.append_inj' hhead rfl).1

/-- The number of newline bytes in front of an offset. -/
theorem newlines_eq (source : String) (offset : Nat) :
    ((bytesOf source).take offset).count newlineByte =
      (charsWithin source.toList offset).count '\n' := by
  rw [bytesOf_eq, count_take]

/-- No newline byte stands between two offsets with as many newlines in front. -/
theorem not_newline_between {source : String} {start offset : Nat}
    (h : (charsWithin source.toList start).count '\n' =
      (charsWithin source.toList offset).count '\n') (index : Nat) (hstart : start ≤ index)
    (hoffset : index < offset) : (bytesOf source)[index]? ≠ some newlineByte := by
  intro hbyte
  have hone : ((bytesOf source).take (index + 1)).count newlineByte =
      ((bytesOf source).take index).count newlineByte + 1 := by
    rw [List.take_add_one, hbyte, List.count_append]
    rfl
  rw [newlines_eq, newlines_eq] at hone
  have hbefore := ((charsWithin_mono source.toList hstart).sublist).count_le '\n'
  have hbehind := ((charsWithin_mono source.toList
    (Nat.succ_le_of_lt hoffset)).sublist).count_le '\n'
  rw [Nat.succ_eq_add_one] at hbehind
  omega

theorem startsLine_of_chars {source : String} {head line back : List Char} {offset : Nat}
    (htext : source.toList = head ++ line ++ back)
    (hchars : charsWithin source.toList offset = head ++ line)
    (hle : byteLength (head ++ line) ≤ offset) (hline : '\n' ∉ line)
    (hhead : head = [] ∨ ∃ front, head = front ++ ['\n']) :
    StartsLine source (byteLength head) offset where
  le := by
    rw [byteLength_append] at hle
    omega
  behind := by
    rcases hhead with rfl | ⟨front, rfl⟩
    · exact .inl rfl
    · right
      have hsize : byteLength ['\n'] = 1 := rfl
      rw [bytesOf_eq, htext, byteLength_append, hsize, Nat.add_sub_cancel, List.append_assoc,
        List.append_assoc, List.flatMap_append, ← length_encoded front,
        List.getElem?_append_right (Nat.le_refl _), Nat.sub_self]
      rfl
  within := by
    apply not_newline_between
    have hfront : charsWithin source.toList (byteLength head) = head := by
      rw [htext, List.append_assoc]
      apply charsWithin_append (Nat.le_refl _)
      intro c _
      have hsize := c.utf8Size_pos
      omega
    rw [hfront, hchars, List.count_append, List.count_eq_zero_of_not_mem hline, Nat.add_zero]

/-- The line of an offset starts behind the last newline in front of it, and its
characters up to the offset are those since then. -/
theorem exists_startsLine (source : String) (offset : Nat) :
    ∃ start, StartsLine source start (min offset source.utf8ByteSize) ∧
      charactersBetween source start (min offset source.utf8ByteSize) =
        (lastLine (charsWithin source.toList offset)).length := by
  obtain ⟨back, htext, hle, hback⟩ := exists_charsWithin source.toList offset
  obtain ⟨head, hchars, hline, hhead⟩ := exists_lastLine (charsWithin source.toList offset)
  have hsize : byteLength (charsWithin source.toList offset) ≤ source.utf8ByteSize := by
    rw [← byteLength_toList]
    conv => rhs; rw [htext]
    rw [byteLength_append]
    exact Nat.le_add_right _ _
  -- At the end of the source there are as many characters in front as further on.
  have hclamp : charsWithin source.toList (min offset source.utf8ByteSize) =
      charsWithin source.toList offset := by
    conv => lhs; rw [htext]
    apply charsWithin_append (Nat.le_min.mpr ⟨hle, hsize⟩)
    intro c hc
    have hlate := hback c hc
    omega
  refine ⟨byteLength head, ?_, ?_⟩
  · have hparts : source.toList =
        head ++ lastLine (charsWithin source.toList offset) ++ back := by
      rw [← hchars]
      exact htext
    apply startsLine_of_chars hparts
    · rw [hclamp]
      exact hchars
    · rw [← hchars]
      exact Nat.le_min.mpr ⟨hle, hsize⟩
    · exact hline
    · exact hhead
  · unfold charactersBetween
    conv => lhs; rw [htext, hchars]
    rw [hchars] at hle hsize hback
    apply countP_extents (Nat.le_min.mpr ⟨hle, hsize⟩)
    intro c hc
    have hlate := hback c hc
    omega

/-- Between the characters of a source lies what fills it up from the start. -/
theorem exists_append_of_isValid {source : String} {offset : Nat}
    (h : String.Pos.Raw.IsValid source ⟨offset⟩) :
    ∃ front back, source.toList = front ++ back ∧ offset = byteLength front := by
  obtain ⟨front, back, rfl, hoffset⟩ := String.Pos.Raw.isValid_iff_exists_append.mp h
  refine ⟨front.toList, back.toList, String.toList_append, ?_⟩
  rw [byteLength_toList]
  exact congrArg String.Pos.Raw.byteIdx hoffset

theorem charsWithin_of_isValid {source : String} {offset : Nat}
    (h : String.Pos.Raw.IsValid source ⟨offset⟩) :
    byteLength (charsWithin source.toList offset) = offset := by
  obtain ⟨front, back, htext, rfl⟩ := exists_append_of_isValid h
  rw [htext, charsWithin_append (Nat.le_refl _)]
  intro c _
  have hsize := c.utf8Size_pos
  omega

theorem key_le_key {source : String} {offset later : Nat} (h : offset ≤ later) :
    (resolve source offset).key ≤ (resolve source later).key := by
  obtain ⟨more, hmore⟩ := charsWithin_mono source.toList h
  rw [key_resolve, key_resolve, ← hmore, List.foldl_append]
  exact le_foldl_advance more _

/-- Between two offsets that have characters end in front of them up to the last byte
there are characters, if the offsets differ. -/
theorem key_lt_key {source : String} {offset later : Nat} (h : offset < later)
    (hoffset : String.Pos.Raw.IsValid source ⟨offset⟩)
    (hlater : String.Pos.Raw.IsValid source ⟨later⟩) :
    (resolve source offset).key < (resolve source later).key := by
  obtain ⟨more, hmore⟩ := charsWithin_mono source.toList h.le
  have hne : more ≠ [] := by
    rintro rfl
    rw [List.append_nil] at hmore
    rw [← charsWithin_of_isValid hoffset, ← charsWithin_of_isValid hlater, hmore] at h
    exact Nat.lt_irrefl _ h
  rw [key_resolve, key_resolve, ← hmore, List.foldl_append]
  exact lt_foldl_advance hne _

theorem key_ne_key {source : String} {offset other : Nat}
    (hoffset : String.Pos.Raw.IsValid source ⟨offset⟩)
    (hother : String.Pos.Raw.IsValid source ⟨other⟩) (h : offset ≠ other) :
    (resolve source offset).key ≠ (resolve source other).key := by
  rcases Nat.lt_or_gt_of_ne h with hlt | hgt
  · exact (key_lt_key hlt hoffset hother).ne
  · exact (key_lt_key hgt hother hoffset).ne'

theorem resolve_append {source : String} (more : String) {offset : Nat}
    (h : offset ≤ source.utf8ByteSize) : resolve (source ++ more) offset = resolve source offset := by
  rw [← byteLength_toList] at h
  rw [resolve_eq, resolve_eq, String.toList_append, charsWithin_append_of_le _ _ h]

/-- The line of an offset is told by the newline bytes in front of it, the column by
the characters that lie between the start of this line and the offset, which counts
as the end of the source if it is larger. Later offsets have later positions or the
same, and two offsets between characters have different ones. Nothing of this changes
when more text is put behind the source. -/
theorem resolve_orders (source : String) :
    (∀ offset,
      (resolve source offset).line = 1 + ((bytesOf source).take offset).count newlineByte ∧
      ∃ start, StartsLine source start (min offset source.utf8ByteSize) ∧
        (resolve source offset).column =
          1 + charactersBetween source start (min offset source.utf8ByteSize)) ∧
    (∀ offset later, offset ≤ later → (resolve source offset).key ≤ (resolve source later).key) ∧
    (∀ offset other, String.Pos.Raw.IsValid source ⟨offset⟩ →
      String.Pos.Raw.IsValid source ⟨other⟩ → offset ≠ other →
      (resolve source offset).key ≠ (resolve source other).key) ∧
    (∀ more offset, offset ≤ source.utf8ByteSize →
      resolve (source ++ more) offset = resolve source offset) := by
  constructor
  · intro offset
    obtain ⟨start, hstart, hcount⟩ := exists_startsLine source offset
    rw [resolve_eq, newlines_eq]
    exact ⟨rfl, start, hstart, by rw [hcount]⟩
  · exact ⟨fun _ _ => key_le_key, fun _ _ => key_ne_key, fun more _ => resolve_append more⟩

/-- In front of a letter of two bytes, inside it and behind it. -/
theorem resolve_orders_of_umlaut :
    (2 ≤ 3 ∧ (resolve "a\nä" 2).key ≤ (resolve "a\nä" 3).key) ∧
    (String.Pos.Raw.IsValid "a\nä" ⟨2⟩ ∧ String.Pos.Raw.IsValid "a\nä" ⟨4⟩ ∧
      2 ≠ 4 ∧ (resolve "a\nä" 2).key ≠ (resolve "a\nä" 4).key) ∧
    4 ≤ "a\nä".utf8ByteSize ∧ resolve ("a\nä" ++ "b") 4 = resolve "a\nä" 4 := by
  have hfront : String.Pos.Raw.IsValid "a\nä" ⟨2⟩ := by
    rw [String.Pos.Raw.isValid_iff_exists_append]
    exact ⟨"a\n", "ä", rfl, rfl⟩
  have hend : String.Pos.Raw.IsValid "a\nä" ⟨4⟩ := by
    rw [String.Pos.Raw.isValid_iff_exists_append]
    exact ⟨"a\nä", "", rfl, rfl⟩
  have hsize : 4 ≤ "a\nä".utf8ByteSize := by decide
  obtain ⟨-, hmonotone, hinjective, hstable⟩ := resolve_orders "a\nä"
  exact ⟨⟨by decide, hmonotone 2 3 (by decide)⟩,
    ⟨hfront, hend, by decide, hinjective 2 4 hfront hend (by decide)⟩, hsize, hstable "b" 4 hsize⟩

end Position

end FilterScript
