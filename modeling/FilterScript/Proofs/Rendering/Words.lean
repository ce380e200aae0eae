import FilterScript.Proofs.Completeness.Expressions
import FilterScript.Proofs.Rendering.Types

/-!
# Trees are written in words

An expression that is neither a literal nor a path is written as a list of words,
and so are blocks, statements and arms. Whatever is written in the place of a word
is one: its blanks stand between brackets or quotes.
-/

namespace FilterScript

variable {σ : Type}

/-! ## Literals -/

/-- No token looks like a list: a bracket is cut off alone. -/
theorem Kind.IsWritable.spelling_ne_listForm {kind : Kind} (h : kind.IsWritable)
    (words : List String) : kind.spelling ≠ listForm words := by
  intro heq
  have hparts : kind.spelling.toList = '(' :: ((" ".intercalate words).toList ++ [')']) := by
    simp [heq, listForm]
  have hend : Apart [] := by simp [Apart]
  have hlexeme := Lexeme.ofText_spelling h hend (by rw [List.append_nil, hparts])
  have hbracket : Lexeme.ofText '(' ((" ".intercalate words).toList ++ [')']) =
      ⟨.ok Punct.lparen, ['(']⟩ := rfl
  rw [hbracket, hparts] at hlexeme
  simp at hlexeme

/-- The single token of a literal, if it is not made of two. -/
def Literal.kind? : Literal → Option Kind
  | unit => none
  | bool true => some Keyword.true_
  | bool false => some Keyword.false_
  | integer digits => some (.integer digits)
  | ipv4 digits => some (.ipv4 digits)
  | string content => some (.string content)

theorem Literal.render_of_kind? {literal : Literal} (h : Writable literal.slots) :
    match literal.kind? with
    | none => literal.render = listForm []
    | some kind => kind.IsWritable ∧ literal.render = kind.spelling := by
  rcases literal with _ | (_ | _) | digits | digits | content
  · rfl
  · exact ⟨trivial, rfl⟩
  · exact ⟨trivial, rfl⟩
  all_goals exact ⟨(writable_token.mp h).1, rfl⟩

theorem Literal.eq_of_kind? {literal other : Literal} (h : literal.kind? = other.kind?) :
    literal = other := by
  unfold kind? at h
  split at h <;> split at h <;> simp_all

theorem Literal.eq_of_render {literal other : Literal} (h : Writable literal.slots)
    (h' : Writable other.slots) (heq : literal.render = other.render) : literal = other := by
  have hrender := render_of_kind? h
  have hrender' := render_of_kind? h'
  apply eq_of_kind?
  cases hkind : literal.kind? <;> cases hother : other.kind? <;>
    simp only [hkind, hother] at hrender hrender'
  case none.none => rfl
  case none.some kind =>
    exact absurd (hrender'.2.symm.trans (heq.symm.trans hrender))
      (hrender'.1.spelling_ne_listForm [])
  case some.none kind =>
    exact absurd (hrender.2.symm.trans (heq.trans hrender')) (hrender.1.spelling_ne_listForm [])
  case some.some kind kind' =>
    rw [hrender.1.eq_of_spelling hrender'.1 (hrender.2.symm.trans (heq.trans hrender'.2))]

/-- Only the unit is written like a list, and that has no words. -/
theorem Literal.render_ne_listForm {literal : Literal} (h : Writable literal.slots)
    {words : List String} (hwords : ∀ word ∈ words, Word word) (hne : words ≠ []) :
    literal.render ≠ listForm words := by
  have hrender := render_of_kind? h
  intro heq
  cases hkind : literal.kind? <;> simp only [hkind] at hrender
  case none =>
    exact hne (listForm_inj (List.forall_mem_nil _) hwords (hrender.symm.trans heq)).symm
  case some kind =>
    exact hrender.1.spelling_ne_listForm words (hrender.2.symm.trans heq)

/-- Text whose characters pass a test is a word if blanks and brackets do not
pass it. -/
theorem word_of_test {test : Char → Bool} {text : String} (hne : text ≠ "")
    (h : ∀ c ∈ text.toList, test c = true)
    (hmarks : (([' ', ',', '\n'] ++ delimiters).all fun c => !test c) = true) : Word text := by
  refine .of_plain ⟨hne, isPlain_iff.mpr fun c hc => not_or.mp fun hmark => ?_⟩
  have hfails := List.all_eq_true.mp hmarks c (List.mem_append.mpr hmark)
  rw [h c hc] at hfails
  cases hfails

theorem Keyword.spelling_word (word : Keyword) : Word word.spelling := by
  cases word <;> exact .of_plain (by decide)

theorem Literal.render_word {literal : Literal} (h : Writable literal.slots) :
    Word literal.render := by
  cases literal with
  | unit => exact Piece.listForm (by decide) (List.forall_mem_nil _)
  | bool value => cases value <;> exact .of_plain (by decide)
  | integer digits =>
      obtain ⟨first, rest, hdigits, hfirst, hrest⟩ : IsInteger digits.toList := by
        simpa [slots, Kind.IsWritable] using h
      have hall : ∀ c ∈ digits.toList, (c.isDigit || c = '_') = true := by
        rw [hdigits]
        exact List.forall_mem_cons.mpr ⟨by simp [hfirst], hrest⟩
      have hne : digits ≠ "" := by
        rintro rfl
        cases hdigits
      exact word_of_test hne hall (by decide)
  | ipv4 digits =>
      obtain ⟨a, b, c, d, hdigits, ha, hb, hc, hd⟩ : IsAddress digits.toList := by
        simpa [slots, Kind.IsWritable] using h
      have hall : ∀ c ∈ digits.toList, (c.isDigit || c = '.') = true := by
        rw [hdigits]
        simp only [List.mem_append, List.mem_cons]
        rintro digit (h | rfl | h | rfl | h | rfl | h) <;> simp_all [IsDigits]
      have hne : digits ≠ "" := by
        rintro rfl
        simp at hdigits
      exact word_of_test hne hall (by decide)
  | string content =>
      have hcontent : '"' ∉ content.toList := by simpa [slots, Kind.IsWritable] using h
      refine ⟨by simp [render], ?_⟩
      have hquoted : Sealed [' ', ',', '\n'] ('"' :: (content.toList ++ ['"'])) :=
        .quoted (by decide) hcontent .nil
      simpa [render] using hquoted

theorem BeginsName.head_ne {text : String} (h : BeginsName text) {c : Char}
    (hhead : text.toList.head? = some c) (hc : Unicode.isIdentifierStart c = false) : False := by
  simp [h c hhead] at hc

/-- A path with a dot is no keyword, and neither is a name. -/
theorem Path.render_ne_keyword {path : Path σ String} (h : Writable (path.slots id))
    (word : Keyword) : path.render ≠ word.spelling := by
  have hsegments := path.writable_segments h
  have hword : ∀ text ∈ [word.spelling], Piece marks text := by
    rw [List.forall_mem_singleton]
    cases word <;> exact .of_plain (by decide)
  intro heq
  rw [← @String.intercalate_singleton "." word.spelling] at heq
  have htexts := intercalate_inj (by decide) rfl (Ident.renders_piece hsegments) hword heq
  have hfirst : path.first.render = word.spelling := (List.cons.inj htexts).1
  have hkind : (path.first.kind id).IsWritable :=
    (writable_token.mp (hsegments path.first List.mem_cons_self)).1
  cases hkind.eq_of_spelling (isWritable_keyword word) hfirst

theorem Path.render_ne_literal {path : Path σ String} {literal : Literal}
    (h : Writable (path.slots id)) (h' : Writable literal.slots) :
    path.render ≠ literal.render := by
  intro heq
  have hbegins := path.render_begins h
  rw [heq] at hbegins
  rcases literal with _ | (_ | _) | digits | digits | content
  · exact hbegins.head_ne rfl (by decide)
  · exact path.render_ne_keyword h .false_ heq
  · exact path.render_ne_keyword h .true_ heq
  · obtain ⟨first, rest, hdigits, hfirst, -⟩ : IsInteger digits.toList := (writable_token.mp h').1
    exact hbegins.head_ne (by rw [Literal.render, hdigits]; rfl)
      (isIdentifierStart_of_isDigit hfirst)
  · obtain ⟨run, _, _, _, hdigits, ⟨hne, hrun⟩, -⟩ : IsAddress digits.toList :=
      (writable_token.mp h').1
    obtain ⟨first, rest, rfl⟩ := List.exists_cons_of_ne_nil hne
    exact hbegins.head_ne (by rw [Literal.render, hdigits]; rfl)
      (isIdentifierStart_of_isDigit (hrun first List.mem_cons_self))
  · have hquote : Unicode.isIdentifierStart '"' = false := by decide
    exact hbegins.head_ne (by simp [Literal.render]) hquote

/-! ## Words are words -/

/-- What has words is the list of them. -/
theorem Written.render_eq {written : Written} (h : written.words ≠ []) :
    written.render = listForm written.words := by
  cases written with
  | leaf text => exact absurd rfl h
  | list words => rfl

theorem Expr.word_of_words {expr : Expr σ String} (h : Writable (expr.slots id))
    (hwords : ∀ word ∈ expr.words, Word word) : Word expr.render := by
  cases expr with
  | literal value _ => exact Literal.render_word h
  | path whole => exact whole.render_word h
  | _ => exact Piece.listForm (by decide) hwords

theorem Block.word_of_words {block : Block σ String} (hwords : ∀ word ∈ block.words, Word word) :
    Word block.render :=
  Piece.listForm (by decide) hwords

theorem Arm.word_of_words {arm : Arm σ String} (hwords : ∀ word ∈ arm.words, Word word) :
    Word arm.render :=
  Piece.listForm (by decide) hwords

theorem Statement.render_eq {statement : Statement σ String} {followed : Bool}
    (h : statement.Fits followed) : statement.render = listForm statement.words := by
  cases statement with
  | binding name type value _ => cases type <;> rfl
  | control value =>
      have hwords : value.words ≠ [] := by
        have hcontrol := h.1
        cases value <;> simp_all [Expr.isControl, Expr.words, Expr.written, Written.words]
      exact Written.render_eq hwords
  | _ => rfl

theorem Statement.word_of_words {statement : Statement σ String} {followed : Bool}
    (h : statement.Fits followed) (hwords : ∀ word ∈ statement.words, Word word) :
    Word statement.render := by
  rw [render_eq h]
  exact Piece.listForm (by decide) hwords

theorem Block.fits_parts {statements : List (Statement σ String)} {tail : Option (Expr σ String)}
    {span : σ} (h : (Block.mk statements tail span).Fits) :
    Statement.FitsList tail.isSome statements ∧ ∀ value ∈ tail, value.Fits true := by
  cases tail with
  | none => exact ⟨h, by simp⟩
  | some value => exact ⟨h.1, by simpa using h.2.2⟩

theorem UnaryOp.spelling_word (op : UnaryOp) : Word op.kind.spelling := by
  cases op <;> exact .of_plain (by decide)

theorem BinaryOp.spelling_word (op : BinaryOp) : Word op.punct.spelling := by
  cases op <;> exact .of_plain (by decide)

@[simp] theorem writable_separator {body : ArmBody σ String} {last : Bool} {slots : List Slot} :
    Writable (body.separator last :: slots) ↔ Writable slots := by
  cases body <;> cases last <;> simp [ArmBody.separator]

theorem pair_words {first second : String} (hfirst : Word first) (hsecond : Word second) :
    ∀ word ∈ [first, second], Word word :=
  List.forall_mem_cons.mpr ⟨hfirst, List.forall_mem_singleton.mpr hsecond⟩

theorem triple_words {first second third : String} (hfirst : Word first) (hsecond : Word second)
    (hthird : Word third) : ∀ word ∈ [first, second, third], Word word :=
  List.forall_mem_cons.mpr ⟨hfirst, pair_words hsecond hthird⟩

mutual

theorem Expr.words_word {records : Bool} : (expr : Expr σ String) → Writable (expr.slots id) →
    expr.Fits records → ∀ word ∈ expr.words, Word word
  | .literal .., _, _ => List.forall_mem_nil _
  | .path _, _, _ => List.forall_mem_nil _
  | .access receiver field _, h, hfits => by
      simp only [Expr.slots, writable_append, writable_token, isWritable_punct, true_and] at h
      have hreceiver := Expr.word_of_words h.1 (Expr.words_word receiver h.1 hfits.2.2)
      have hfield : Word field.render := (Ident.render_piece h.2).mono (by decide)
      exact triple_words (.of_plain (by decide)) hreceiver hfield
  | .call callee arguments _, h, hfits => by
      simp only [Expr.slots, writable_append, writable_token, writable_commaSlots] at h
      have hcallee := Expr.word_of_words h.1.1 (Expr.words_word callee h.1.1 hfits.2.1)
      simp only [Expr.words, Expr.written, Written.words, List.forall_mem_cons]
      exact ⟨.of_plain (by decide), hcallee, Expr.renderList_words arguments h.1.2.2 hfits.2.2⟩
  | .record ⟨fields, _⟩, h, hfits => by
      simp only [Expr.slots, List.cons_append, writable_append, writable_token,
        writable_commaSlots] at h
      have hfields := Expr.renderFields_pieces fields h.2.1 hfits.2
      exact pair_words (.of_plain (by decide)) (.braceForm (by decide) hfields)
  | .typedRecord whole ⟨fields, _⟩ _, h, hfits => by
      simp only [Expr.slots, writable_append, writable_token, writable_commaSlots] at h
      have hfields := Expr.renderFields_pieces fields h.1.2.2 hfits.2
      exact triple_words (.of_plain (by decide)) (whole.render_word h.1.1)
        (.braceForm (by decide) hfields)
  | .unary op operand _, h, hfits => by
      simp only [Expr.slots, writable_token] at h
      have hoperand := Expr.word_of_words h.2 (Expr.words_word operand h.2 hfits.2)
      exact pair_words op.spelling_word hoperand
  | .binary op left right _, h, hfits => by
      simp only [Expr.slots, writable_append, writable_token] at h
      have hleft := Expr.word_of_words h.1 (Expr.words_word left h.1 hfits.2.2.1)
      have hright := Expr.word_of_words h.2.2 (Expr.words_word right h.2.2 hfits.2.2.2.2)
      exact triple_words op.spelling_word hleft hright
  | .question inner _, h, hfits => by
      simp only [Expr.slots, writable_append] at h
      have hinner := Expr.word_of_words h.1 (Expr.words_word inner h.1 hfits.2)
      exact pair_words (.of_plain (by decide)) hinner
  | .exit kind none _, _, _ => List.forall_mem_singleton.mpr kind.keyword.spelling_word
  | .exit kind (some value) _, h, hfits => by
      simp only [Expr.slots, Expr.slotsOption, writable_token] at h
      have hvalue := Expr.word_of_words h.2 (Expr.words_word value h.2 hfits)
      exact pair_words kind.keyword.spelling_word hvalue
  | .conditional condition consequence alternative _, h, hfits => by
      obtain ⟨hcondition, hconsequence, halternative⟩ := Expr.fits_conditional hfits
      simp only [Expr.slots, List.cons_append, writable_append, writable_token] at h
      simp only [Expr.words, Expr.written, Written.words, List.forall_mem_cons]
      exact ⟨.of_plain (by decide),
        Expr.word_of_words h.2.1.1 (Expr.words_word condition h.2.1.1 hcondition),
        Block.word_of_words (Block.words_word consequence h.2.1.2 hconsequence),
        Alternative.renderOption_words alternative h.2.2 halternative⟩
  | .loop condition body _, h, hfits => by
      simp only [Expr.slots, List.cons_append, writable_append, writable_token] at h
      have hcondition := Expr.word_of_words h.2.1 (Expr.words_word condition h.2.1 hfits.1)
      have hbody := Block.word_of_words (Block.words_word body h.2.2 hfits.2)
      exact triple_words (.of_plain (by decide)) hcondition hbody
  | .select scrutinee arms _, h, hfits => by
      simp only [Expr.slots, List.cons_append, writable_append, writable_token] at h
      have hscrutinee := Expr.word_of_words h.2.1.1 (Expr.words_word scrutinee h.2.1.1 hfits.1)
      simp only [Expr.words, Expr.written, Written.words, List.forall_mem_cons]
      exact ⟨.of_plain (by decide), hscrutinee, Arm.renderList_words arms h.2.1.2.2 hfits.2⟩
  | .paren inner _, h, hfits => by
      simp only [Expr.slots, List.cons_append, writable_append, writable_token] at h
      have hinner := Expr.word_of_words h.2.1 (Expr.words_word inner h.2.1 hfits)
      exact pair_words (.of_plain (by decide)) hinner

theorem Expr.renderList_words : (exprs : List (Expr σ String)) →
    (∀ slots ∈ Expr.slotsList id exprs, Writable slots) → Expr.FitsList exprs →
    ∀ text ∈ Expr.renderList exprs, Word text
  | [], _, _ => List.forall_mem_nil _
  | expr :: rest, h, hfits => by
      obtain ⟨hfirst, hrest⟩ := List.forall_mem_cons.mp h
      exact List.forall_mem_cons.mpr
        ⟨Expr.word_of_words hfirst (Expr.words_word expr hfirst hfits.1),
          Expr.renderList_words rest hrest hfits.2⟩

theorem Expr.renderFields_pieces : (fields : List (Field σ String (Expr σ String))) →
    (∀ slots ∈ Expr.slotsFields id fields, Writable slots) → Expr.FitsFields fields →
    ∀ text ∈ Expr.renderFields fields, Piece [','] text
  | [], _, _ => List.forall_mem_nil _
  | ⟨name, value, _⟩ :: rest, h, hfits => by
      obtain ⟨hfirst, hrest⟩ := List.forall_mem_cons.mp h
      simp only [writable_append, writable_token] at hfirst
      have hvalue := Expr.word_of_words hfirst.2.2 (Expr.words_word value hfirst.2.2 hfits.1)
      exact List.forall_mem_cons.mpr
        ⟨field_piece hfirst.1 hvalue, Expr.renderFields_pieces rest hrest hfits.2⟩

theorem Alternative.renderOption_words {records : Bool} :
    (alternative : Option (Alternative σ String)) →
    Writable (Alternative.slotsOption id alternative) →
    Alternative.FitsOption records alternative →
    ∀ text ∈ Alternative.renderOption alternative, Word text
  | none, _, _ => List.forall_mem_nil _
  | some (.block body), h, hfits => by
      simp only [Alternative.slotsOption, writable_token] at h
      exact List.forall_mem_singleton.mpr
        (Block.word_of_words (Block.words_word body h.2 hfits))
  | some (.conditional next), h, hfits => by
      simp only [Alternative.slotsOption, writable_token] at h
      exact List.forall_mem_singleton.mpr
        (Expr.word_of_words h.2 (Expr.words_word next h.2 hfits.2))

theorem Expr.renderTail_words : (tail : Option (Expr σ String)) →
    Writable (Expr.slotsOption id tail) → (∀ value ∈ tail, value.Fits true) →
    ∀ word ∈ Expr.renderTail tail, Word word
  | none, _, _ => List.forall_mem_nil _
  | some value, h, hfits => by
      have hvalue := Expr.word_of_words h (Expr.words_word value h (hfits value rfl))
      exact List.forall_mem_singleton.mpr
        (.listForm (by decide) (pair_words (.of_plain (by decide)) hvalue))

theorem Block.words_word : (block : Block σ String) → Writable (block.slots id) → block.Fits →
    ∀ word ∈ block.words, Word word
  | ⟨statements, tail, _⟩, h, hfits => by
      obtain ⟨hstatements, htail⟩ := Block.fits_parts hfits
      simp only [Block.slots, List.cons_append, writable_append, writable_token] at h
      simp only [Block.words, List.cons_append, List.forall_mem_cons, List.forall_mem_append]
      exact ⟨.of_plain (by decide), Statement.renderList_words statements h.2.1.1 hstatements,
        Expr.renderTail_words tail h.2.1.2 htail⟩

theorem Statement.words_word {followed : Bool} : (statement : Statement σ String) →
    Writable (statement.slots id) → statement.Fits followed → ∀ word ∈ statement.words, Word word
  | .import path _, h, hfits => by
      simp only [Statement.slots, ImportPath.declarationSlots, List.cons_append, writable_append,
        writable_token] at h
      exact pair_words (.of_plain (by decide)) (path.render_word h.2.1 hfits)
  | .binding name none value _, h, hfits => by
      simp only [Statement.slots, TypeExpr.slotsAfter, List.cons_append, writable_append,
        writable_token] at h
      have hname : Word name.render := (Ident.render_piece h.2.1.1.1).mono (by decide)
      have hvalue := Expr.word_of_words h.2.1.2.2 (Expr.words_word value h.2.1.2.2 hfits)
      exact triple_words (.of_plain (by decide)) hname hvalue
  | .binding name (some type) value _, h, hfits => by
      simp only [Statement.slots, TypeExpr.slotsAfter, List.cons_append, writable_append,
        writable_token] at h
      have hname : Word name.render := (Ident.render_piece h.2.1.1.1).mono (by decide)
      have hvalue := Expr.word_of_words h.2.1.2.2 (Expr.words_word value h.2.1.2.2 hfits)
      exact List.forall_mem_cons.mpr ⟨.of_plain (by decide),
        triple_words hname (type.render_word h.2.1.1.2.2) hvalue⟩
  | .expr value _, h, hfits => by
      simp only [Statement.slots, writable_append] at h
      exact pair_words (.of_plain (by decide))
        (Expr.word_of_words h.1 (Expr.words_word value h.1 hfits.2))
  | .control value, h, hfits => Expr.words_word value h hfits.2.2

theorem Statement.renderList_words {tail : Bool} : (statements : List (Statement σ String)) →
    Writable (Statement.slotsList id statements) → Statement.FitsList tail statements →
    ∀ text ∈ Statement.renderList statements, Word text
  | [], _, _ => List.forall_mem_nil _
  | statement :: rest, h, hfits => by
      simp only [Statement.slotsList, writable_append] at h
      exact List.forall_mem_cons.mpr
        ⟨Statement.word_of_words hfits.1 (Statement.words_word statement h.1 hfits.1),
          Statement.renderList_words rest h.2 hfits.2⟩

theorem Arm.words_word : (arm : Arm σ String) → Writable (arm.slots id) → arm.Fits →
    ∀ word ∈ arm.words, Word word
  | ⟨pattern, none, body, _, _⟩, h, hfits => by
      simp only [Arm.slots, writable_append, writable_token] at h
      exact triple_words (.of_plain (by decide)) (pattern.render_word h.1)
        (ArmBody.render_word body h.2.2 hfits)
  | ⟨pattern, some guard, body, _, _⟩, h, hfits => by
      simp only [Arm.slots, writable_append, writable_token] at h
      have hguard := Expr.word_of_words h.1.2.2 (Expr.words_word guard h.1.2.2 hfits.1)
      simp only [Arm.words, List.forall_mem_cons]
      exact ⟨.of_plain (by decide), pattern.render_word h.1.1, .of_plain (by decide), hguard,
        ArmBody.render_word body h.2.2 hfits.2, List.forall_mem_nil _⟩

theorem Arm.renderList_words : (arms : List (Arm σ String)) →
    Writable (Arm.slotsList id arms) → Arm.FitsList arms → ∀ text ∈ Arm.renderList arms, Word text
  | [], _, _ => List.forall_mem_nil _
  | arm :: rest, h, hfits => by
      simp only [Arm.slotsList, writable_append, writable_separator] at h
      exact List.forall_mem_cons.mpr ⟨Arm.word_of_words (Arm.words_word arm h.1 hfits.2.1),
        Arm.renderList_words rest h.2 hfits.2.2⟩

theorem ArmBody.render_word : (body : ArmBody σ String) → Writable (body.slots id) → body.Fits →
    Word body.render
  | .block body, h, hfits => Block.word_of_words (Block.words_word body h hfits)
  | .expr value, h, hfits => Expr.word_of_words h (Expr.words_word value h hfits.2)

end

end FilterScript
