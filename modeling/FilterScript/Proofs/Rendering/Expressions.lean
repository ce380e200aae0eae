import FilterScript.Proofs.Rendering.Words

/-!
# Expressions and blocks are told from their texts

The words of an expression are found again in its text. The first of them tells
what sort of expression it is, and how many they are tells which of its parts are
missing.
-/

namespace FilterScript

variable {σ : Type}

/-! ## Words tell what they are the words of -/

/-- Literals and paths do not look like lists of words. -/
theorem Expr.render_ne_listForm {expr : Expr σ String} (h : Writable (expr.slots id))
    (hleaf : expr.words = []) {words : List String} (hwords : ∀ word ∈ words, Word word)
    (hne : words ≠ []) : expr.render ≠ listForm words := by
  cases expr with
  | literal value _ => exact Literal.render_ne_listForm h hwords hne
  | path whole =>
      intro heq
      refine (whole.render_begins h).head_ne (c := '(') ?_ (by decide)
      rw [show whole.render = listForm words from heq]
      simp [listForm]
  | _ => cases hleaf

theorem Expr.words_of_listForm {records : Bool} {expr : Expr σ String}
    (h : Writable (expr.slots id)) (hfits : expr.Fits records) {words : List String}
    (hwords : ∀ word ∈ words, Word word) (hne : words ≠ []) (heq : expr.render = listForm words) :
    expr.words = words := by
  by_cases hleaf : expr.words = []
  · exact absurd heq (render_ne_listForm h hleaf hwords hne)
  · rw [render, Written.render_eq hleaf] at heq
    exact listForm_inj (words_word expr h hfits) hwords heq

theorem Expr.words_eq {records records' : Bool} {expr other : Expr σ String}
    (h : Writable (expr.slots id)) (h' : Writable (other.slots id)) (hfits : expr.Fits records)
    (hfits' : other.Fits records') (heq : expr.render = other.render) :
    expr.words = other.words := by
  by_cases hleaf : other.words = []
  · by_cases hleaf' : expr.words = []
    · rw [hleaf, hleaf']
    · have hlist : other.render = listForm expr.words := heq.symm.trans (Written.render_eq hleaf')
      exact (words_of_listForm h' hfits' (words_word expr h hfits) hleaf' hlist).symm
  · have hlist : expr.render = listForm other.words := heq.trans (Written.render_eq hleaf)
    exact words_of_listForm h hfits (words_word other h' hfits') hleaf hlist

/-- What sort of expression it is. -/
inductive Expr.Form where
  | leaf | access | call | record | typedRecord
  | unary (op : UnaryOp)
  | binary (op : BinaryOp)
  | question
  | exit (kind : ExitKind)
  | conditional | loop | select | paren

def Expr.form : Expr σ String → Form
  | .literal .. => .leaf
  | .path _ => .leaf
  | .access .. => .access
  | .call .. => .call
  | .record _ => .record
  | .typedRecord .. => .typedRecord
  | .unary op _ _ => .unary op
  | .binary op _ _ _ => .binary op
  | .question .. => .question
  | .exit kind _ _ => .exit kind
  | .conditional .. => .conditional
  | .loop .. => .loop
  | .select .. => .select
  | .paren .. => .paren

/-- The first word tells the sort of the expression, except that the minus sign
and records need the number of words. -/
def Expr.Form.ofWords? : List String → Option Form
  | [] => some leaf
  | "." :: _ => some access
  | "call" :: _ => some call
  | ["record", _] => some record
  | "record" :: _ => some typedRecord
  | "not" :: _ => some (unary .not)
  | ["-", _] => some (unary .neg)
  | "-" :: _ => some (binary .sub)
  | "+" :: _ => some (binary .add)
  | "*" :: _ => some (binary .mul)
  | "/" :: _ => some (binary .div)
  | "&&" :: _ => some (binary .and)
  | "||" :: _ => some (binary .or)
  | "==" :: _ => some (binary .eq)
  | "!=" :: _ => some (binary .ne)
  | "<" :: _ => some (binary .lt)
  | "<=" :: _ => some (binary .le)
  | ">" :: _ => some (binary .gt)
  | ">=" :: _ => some (binary .ge)
  | "?" :: _ => some question
  | "return" :: _ => some (exit .return)
  | "accept" :: _ => some (exit .accept)
  | "reject" :: _ => some (exit .reject)
  | "if" :: _ => some conditional
  | "while" :: _ => some loop
  | "match" :: _ => some select
  | "paren" :: _ => some paren
  | _ => none

theorem Expr.form_of_words (expr : Expr σ String) : Form.ofWords? expr.words = some expr.form := by
  cases expr with
  | unary op operand span => cases op <;> rfl
  | binary op left right span => cases op <;> rfl
  | exit kind value span => cases kind <;> rfl
  | _ => rfl

theorem Expr.words_form_eq {records records' : Bool} {expr other : Expr σ String}
    (h : Writable (expr.slots id)) (h' : Writable (other.slots id)) (hfits : expr.Fits records)
    (hfits' : other.Fits records') (heq : expr.render = other.render) :
    expr.words = other.words ∧ expr.form = other.form := by
  have hwords := words_eq h h' hfits hfits' heq
  have hform := expr.form_of_words
  rw [hwords, other.form_of_words] at hform
  exact ⟨hwords, (Option.some.inj hform).symm⟩

/-- Words with another first word are not those of an expression. -/
theorem Expr.words_ne {expr : Expr σ String} {words : List String}
    (h : Form.ofWords? words = none) : expr.words ≠ words := by
  rintro rfl
  rw [form_of_words] at h
  cases h

theorem Block.words_eq {block other : Block σ String} (h : Writable (block.slots id))
    (h' : Writable (other.slots id)) (hfits : block.Fits) (hfits' : other.Fits)
    (heq : block.render = other.render) : block.words = other.words :=
  listForm_inj (words_word block h hfits) (words_word other h' hfits') heq

theorem Statement.words_eq {followed followed' : Bool} {statement other : Statement σ String}
    (h : Writable (statement.slots id)) (h' : Writable (other.slots id))
    (hfits : statement.Fits followed) (hfits' : other.Fits followed')
    (heq : statement.render = other.render) : statement.words = other.words := by
  rw [render_eq hfits, render_eq hfits'] at heq
  exact listForm_inj (words_word statement h hfits) (words_word other h' hfits') heq

theorem Arm.words_eq {arm other : Arm σ String} (h : Writable (arm.slots id))
    (h' : Writable (other.slots id)) (hfits : arm.Fits) (hfits' : other.Fits)
    (heq : arm.render = other.render) : arm.words = other.words :=
  listForm_inj (words_word arm h hfits) (words_word other h' hfits') heq

/-- No statement looks like the value of a block. -/
theorem Statement.render_ne_tail {followed : Bool} {statement : Statement σ String}
    (h : Writable (statement.slots id)) (hfits : statement.Fits followed) {value : String}
    (hvalue : Word value) : statement.render ≠ listForm ["tail", value] := by
  intro heq
  rw [render_eq hfits] at heq
  have hwords := listForm_inj (words_word statement h hfits)
    (pair_words (.of_plain (by decide)) hvalue) heq
  cases statement with
  | binding _ type _ _ => cases type <;> simp [words, written, Written.words] at hwords
  | control value => exact absurd hwords (Expr.words_ne rfl)
  | _ => simp [words, written, Written.words] at hwords

theorem Statement.tail_notMem {tail : Bool} {statements : List (Statement σ String)}
    (h : Writable (slotsList id statements)) (hfits : FitsList tail statements)
    {value : Option (Expr σ String)} (hvalue : Writable (Expr.slotsOption id value))
    (hfitting : ∀ expr ∈ value, expr.Fits true) :
    ∀ word ∈ Expr.renderTail value, word ∉ renderList statements := by
  cases value with
  | none => exact List.forall_mem_nil _
  | some expr =>
      have hword := expr.word_of_words hvalue (expr.words_word hvalue (hfitting expr rfl))
      rw [Expr.renderTail, List.forall_mem_singleton]
      induction statements with
      | nil => exact List.not_mem_nil
      | cons statement rest ih =>
          simp only [slotsList, writable_append] at h
          rw [renderList, List.mem_cons, not_or]
          exact ⟨(render_ne_tail h.1 hfits.1 hword).symm, ih h.2 hfits.2⟩

/-- The value of a block stands behind its statements and is none of them. -/
theorem Block.parts_eq {statements others : List (Statement σ String)}
    {tail tail' : Option (Expr σ String)} {span span' : σ}
    (h : Writable ((Block.mk statements tail span).slots id))
    (h' : Writable ((Block.mk others tail' span').slots id))
    (hfits : (Block.mk statements tail span).Fits) (hfits' : (Block.mk others tail' span').Fits)
    (heq : (Block.mk statements tail span).render = (Block.mk others tail' span').render) :
    Statement.renderList statements = Statement.renderList others ∧
      Expr.renderTail tail = Expr.renderTail tail' := by
  have hwords := words_eq h h' hfits hfits' heq
  obtain ⟨hparts, hvalue⟩ := fits_parts hfits
  obtain ⟨hparts', hvalue'⟩ := fits_parts hfits'
  simp only [words, List.cons_append, List.cons.injEq, true_and] at hwords
  simp only [slots, List.cons_append, writable_append, writable_token] at h h'
  cases tail <;> cases tail' <;> simp only [Expr.renderTail, List.append_nil] at hwords ⊢
  case none.none => exact ⟨hwords, trivial⟩
  case none.some value' =>
    refine absurd ?_ (Statement.tail_notMem h.2.1.1 hparts h'.2.1.2 hvalue' _ List.mem_cons_self)
    exact hwords ▸ List.mem_append_right _ List.mem_cons_self
  case some.none value =>
    refine absurd ?_ (Statement.tail_notMem h'.2.1.1 hparts' h.2.1.2 hvalue _ List.mem_cons_self)
    exact hwords ▸ List.mem_append_right _ List.mem_cons_self
  case some.some value value' => exact List.append_inj' hwords rfl

theorem Block.render_ne {records : Bool} {block : Block σ String} {expr : Expr σ String}
    (h : Writable (block.slots id)) (h' : Writable (expr.slots id)) (hfits : block.Fits)
    (hfits' : expr.Fits records) : block.render ≠ expr.render := by
  intro heq
  have hblock : block.words ≠ [] ∧ Expr.Form.ofWords? block.words = none := by
    cases block
    exact ⟨List.cons_ne_nil _ _, rfl⟩
  exact Expr.words_ne hblock.2
    (Expr.words_of_listForm h' hfits' (words_word block h hfits) hblock.1 heq.symm)

/-! ## Trees are told from their words -/

mutual

/-- The induction is on one of the trees; the other has the same words and with
that the same form. -/
theorem Expr.eq_of_render {records records' : Bool} : (expr other : Expr Unit String) →
    Writable (expr.slots id) → Writable (other.slots id) → expr.Fits records →
    other.Fits records' → expr.render = other.render → expr = other
  | .literal value span, other, h, h', hfits, hfits', heq => by
      obtain ⟨-, hform⟩ := Expr.words_form_eq h h' hfits hfits' heq
      cases other <;> simp only [Expr.form, reduceCtorEq] at hform
      case literal => rw [Literal.eq_of_render h h' heq]
      case path => exact absurd heq.symm (Path.render_ne_literal h' h)
  | .path whole, other, h, h', hfits, hfits', heq => by
      obtain ⟨-, hform⟩ := Expr.words_form_eq h h' hfits hfits' heq
      cases other <;> simp only [Expr.form, reduceCtorEq] at hform
      case literal => exact absurd heq (Path.render_ne_literal h h')
      case path => rw [Path.eq_of_render h h' heq]
  | .access receiver field span, other, h, h', hfits, hfits', heq => by
      obtain ⟨hwords, hform⟩ := Expr.words_form_eq h h' hfits hfits' heq
      cases other <;> simp only [Expr.form, reduceCtorEq] at hform
      simp only [Expr.words, Expr.written, Written.words, List.cons.injEq, true_and,
        and_true] at hwords
      simp only [Expr.slots, writable_append, writable_token] at h h'
      rw [Expr.eq_of_render receiver _ h.1 h'.1 hfits.2.2 hfits'.2.2 hwords.1,
        Ident.eq_of_render h.2.2 h'.2.2 hwords.2]
  | .call callee arguments span, other, h, h', hfits, hfits', heq => by
      obtain ⟨hwords, hform⟩ := Expr.words_form_eq h h' hfits hfits' heq
      cases other <;> simp only [Expr.form, reduceCtorEq] at hform
      simp only [Expr.words, Expr.written, Written.words, List.cons.injEq, true_and] at hwords
      simp only [Expr.slots, writable_append, writable_token, writable_commaSlots] at h h'
      rw [Expr.eq_of_render callee _ h.1.1 h'.1.1 hfits.2.1 hfits'.2.1 hwords.1,
        Expr.eq_of_renderList arguments _ h.1.2.2 h'.1.2.2 hfits.2.2 hfits'.2.2 hwords.2]
  | .record ⟨fields, span⟩, other, h, h', hfits, hfits', heq => by
      obtain ⟨hwords, hform⟩ := Expr.words_form_eq h h' hfits hfits' heq
      cases other <;> simp only [Expr.form, reduceCtorEq] at hform
      rename_i other
      obtain ⟨fields', span'⟩ := other
      simp only [Expr.words, Expr.written, Written.words, List.cons.injEq, true_and,
        and_true] at hwords
      simp only [Expr.slots, List.cons_append, writable_append, writable_token,
        writable_commaSlots] at h h'
      have hfields := braceForm_inj (Expr.renderFields_pieces fields h.2.1 hfits.2)
        (Expr.renderFields_pieces fields' h'.2.1 hfits'.2) hwords
      rw [Expr.eq_of_renderFields fields fields' h.2.1 h'.2.1 hfits.2 hfits'.2 hfields]
  | .typedRecord whole ⟨fields, inner⟩ span, other, h, h', hfits, hfits', heq => by
      obtain ⟨hwords, hform⟩ := Expr.words_form_eq h h' hfits hfits' heq
      cases other <;> simp only [Expr.form, reduceCtorEq] at hform
      rename_i whole' other span'
      obtain ⟨fields', inner'⟩ := other
      simp only [Expr.words, Expr.written, Written.words, List.cons.injEq, true_and,
        and_true] at hwords
      simp only [Expr.slots, writable_append, writable_token, writable_commaSlots] at h h'
      have hfields := braceForm_inj (Expr.renderFields_pieces fields h.1.2.2 hfits.2)
        (Expr.renderFields_pieces fields' h'.1.2.2 hfits'.2) hwords.2
      rw [Path.eq_of_render h.1.1 h'.1.1 hwords.1,
        Expr.eq_of_renderFields fields fields' h.1.2.2 h'.1.2.2 hfits.2 hfits'.2 hfields]
  | .unary op operand span, other, h, h', hfits, hfits', heq => by
      obtain ⟨hwords, hform⟩ := Expr.words_form_eq h h' hfits hfits' heq
      cases other <;> simp only [Expr.form, reduceCtorEq, Expr.Form.unary.injEq] at hform
      subst hform
      simp only [Expr.words, Expr.written, Written.words, List.cons.injEq, true_and,
        and_true] at hwords
      simp only [Expr.slots, writable_token] at h h'
      rw [Expr.eq_of_render operand _ h.2 h'.2 hfits.2 hfits'.2 hwords]
  | .binary op left right span, other, h, h', hfits, hfits', heq => by
      obtain ⟨hwords, hform⟩ := Expr.words_form_eq h h' hfits hfits' heq
      cases other <;> simp only [Expr.form, reduceCtorEq, Expr.Form.binary.injEq] at hform
      subst hform
      simp only [Expr.words, Expr.written, Written.words, List.cons.injEq, true_and,
        and_true] at hwords
      simp only [Expr.slots, writable_append, writable_token] at h h'
      rw [Expr.eq_of_render left _ h.1 h'.1 hfits.2.2.1 hfits'.2.2.1 hwords.1,
        Expr.eq_of_render right _ h.2.2 h'.2.2 hfits.2.2.2.2 hfits'.2.2.2.2 hwords.2]
  | .question inner span, other, h, h', hfits, hfits', heq => by
      obtain ⟨hwords, hform⟩ := Expr.words_form_eq h h' hfits hfits' heq
      cases other <;> simp only [Expr.form, reduceCtorEq] at hform
      simp only [Expr.words, Expr.written, Written.words, List.cons.injEq, true_and,
        and_true] at hwords
      simp only [Expr.slots, writable_append] at h h'
      rw [Expr.eq_of_render inner _ h.1 h'.1 hfits.2 hfits'.2 hwords]
  | .exit kind none span, other, h, h', hfits, hfits', heq => by
      obtain ⟨hwords, hform⟩ := Expr.words_form_eq h h' hfits hfits' heq
      cases other <;> simp only [Expr.form, reduceCtorEq, Expr.Form.exit.injEq] at hform
      rename_i value' span'
      subst hform
      cases value' <;> simp only [Expr.words, Expr.written, Written.words, Expr.renderOption,
        List.cons.injEq, reduceCtorEq, true_and] at hwords
      rfl
  | .exit kind (some value) span, other, h, h', hfits, hfits', heq => by
      obtain ⟨hwords, hform⟩ := Expr.words_form_eq h h' hfits hfits' heq
      cases other <;> simp only [Expr.form, reduceCtorEq, Expr.Form.exit.injEq] at hform
      rename_i value' span'
      subst hform
      cases value' <;> simp only [Expr.words, Expr.written, Written.words, Expr.renderOption,
        List.cons.injEq, reduceCtorEq, true_and, and_true] at hwords
      simp only [Expr.slots, Expr.slotsOption, writable_token] at h h'
      rw [Expr.eq_of_render value _ h.2 h'.2 hfits hfits' hwords]
  | .conditional condition consequence alternative span, other, h, h', hfits, hfits', heq => by
      obtain ⟨hwords, hform⟩ := Expr.words_form_eq h h' hfits hfits' heq
      cases other <;> simp only [Expr.form, reduceCtorEq] at hform
      simp only [Expr.words, Expr.written, Written.words, List.cons.injEq, true_and] at hwords
      simp only [Expr.slots, List.cons_append, writable_append, writable_token] at h h'
      obtain ⟨hcondition, hconsequence, halternative⟩ := Expr.fits_conditional hfits
      obtain ⟨hcondition', hconsequence', halternative'⟩ := Expr.fits_conditional hfits'
      rw [Expr.eq_of_render condition _ h.2.1.1 h'.2.1.1 hcondition hcondition' hwords.1,
        Block.eq_of_render consequence _ h.2.1.2 h'.2.1.2 hconsequence hconsequence' hwords.2.1,
        Alternative.eq_of_renderOption alternative _ h.2.2 h'.2.2 halternative halternative'
          hwords.2.2]
  | .loop condition body span, other, h, h', hfits, hfits', heq => by
      obtain ⟨hwords, hform⟩ := Expr.words_form_eq h h' hfits hfits' heq
      cases other <;> simp only [Expr.form, reduceCtorEq] at hform
      simp only [Expr.words, Expr.written, Written.words, List.cons.injEq, true_and,
        and_true] at hwords
      simp only [Expr.slots, List.cons_append, writable_append, writable_token] at h h'
      rw [Expr.eq_of_render condition _ h.2.1 h'.2.1 hfits.1 hfits'.1 hwords.1,
        Block.eq_of_render body _ h.2.2 h'.2.2 hfits.2 hfits'.2 hwords.2]
  | .select scrutinee arms span, other, h, h', hfits, hfits', heq => by
      obtain ⟨hwords, hform⟩ := Expr.words_form_eq h h' hfits hfits' heq
      cases other <;> simp only [Expr.form, reduceCtorEq] at hform
      simp only [Expr.words, Expr.written, Written.words, List.cons.injEq, true_and] at hwords
      simp only [Expr.slots, List.cons_append, writable_append, writable_token] at h h'
      rw [Expr.eq_of_render scrutinee _ h.2.1.1 h'.2.1.1 hfits.1 hfits'.1 hwords.1,
        Arm.eq_of_renderList arms _ h.2.1.2.2 h'.2.1.2.2 hfits.2 hfits'.2 hwords.2]
  | .paren inner span, other, h, h', hfits, hfits', heq => by
      obtain ⟨hwords, hform⟩ := Expr.words_form_eq h h' hfits hfits' heq
      cases other <;> simp only [Expr.form, reduceCtorEq] at hform
      simp only [Expr.words, Expr.written, Written.words, List.cons.injEq, true_and,
        and_true] at hwords
      simp only [Expr.slots, List.cons_append, writable_append, writable_token] at h h'
      rw [Expr.eq_of_render inner _ h.2.1 h'.2.1 hfits hfits' hwords]
termination_by structural expr => expr

theorem Expr.eq_of_renderList : (exprs others : List (Expr Unit String)) →
    (∀ slots ∈ Expr.slotsList id exprs, Writable slots) →
    (∀ slots ∈ Expr.slotsList id others, Writable slots) → Expr.FitsList exprs →
    Expr.FitsList others → Expr.renderList exprs = Expr.renderList others → exprs = others
  | [], others, _, _, _, _, heq => by
      cases others <;> simp_all [Expr.renderList]
  | expr :: rest, others, h, h', hfits, hfits', heq => by
      cases others <;> simp only [Expr.renderList, List.cons.injEq, reduceCtorEq] at heq
      obtain ⟨hfirst, hrest⟩ := List.forall_mem_cons.mp h
      obtain ⟨hother, hothers⟩ := List.forall_mem_cons.mp h'
      rw [Expr.eq_of_render expr _ hfirst hother hfits.1 hfits'.1 heq.1,
        Expr.eq_of_renderList rest _ hrest hothers hfits.2 hfits'.2 heq.2]
termination_by structural exprs => exprs

theorem Expr.eq_of_renderFields : (fields others : List (Field Unit String (Expr Unit String))) →
    (∀ slots ∈ Expr.slotsFields id fields, Writable slots) →
    (∀ slots ∈ Expr.slotsFields id others, Writable slots) → Expr.FitsFields fields →
    Expr.FitsFields others → Expr.renderFields fields = Expr.renderFields others → fields = others
  | [], others, _, _, _, _, heq => by
      cases others <;> simp_all [Expr.renderFields]
  | ⟨name, value, span⟩ :: rest, others, h, h', hfits, hfits', heq => by
      cases others <;> simp only [Expr.renderFields, List.cons.injEq, reduceCtorEq] at heq
      obtain ⟨hfirst, hrest⟩ := List.forall_mem_cons.mp h
      obtain ⟨hother, hothers⟩ := List.forall_mem_cons.mp h'
      simp only [writable_append, writable_token] at hfirst hother
      obtain ⟨rfl, hvalue⟩ := field_inj hfirst.1 hother.1 heq.1
      rw [Expr.eq_of_render value _ hfirst.2.2 hother.2.2 hfits.1 hfits'.1 hvalue,
        Expr.eq_of_renderFields rest _ hrest hothers hfits.2 hfits'.2 heq.2]
termination_by structural fields => fields

theorem Alternative.eq_of_renderOption {records records' : Bool} :
    (alternative other : Option (Alternative Unit String)) →
    Writable (Alternative.slotsOption id alternative) →
    Writable (Alternative.slotsOption id other) → Alternative.FitsOption records alternative →
    Alternative.FitsOption records' other →
    Alternative.renderOption alternative = Alternative.renderOption other → alternative = other
  | none, other, _, _, _, _, heq => by
      rcases other with _ | ⟨_ | _⟩ <;> simp_all [Alternative.renderOption]
  | some (.block body), other, h, h', hfits, hfits', heq => by
      rcases other with _ | ⟨other | next⟩ <;>
        simp only [Alternative.renderOption, List.cons.injEq, reduceCtorEq, and_true] at heq
      · simp only [Alternative.slotsOption, writable_token] at h h'
        rw [Block.eq_of_render body other h.2 h'.2 hfits hfits' heq]
      · simp only [Alternative.slotsOption, writable_token] at h h'
        exact absurd heq (Block.render_ne h.2 h'.2 hfits hfits'.2)
  | some (.conditional next), other, h, h', hfits, hfits', heq => by
      rcases other with _ | ⟨body | other⟩ <;>
        simp only [Alternative.renderOption, List.cons.injEq, reduceCtorEq, and_true] at heq
      · simp only [Alternative.slotsOption, writable_token] at h h'
        exact absurd heq.symm (Block.render_ne h'.2 h.2 hfits' hfits.2)
      · simp only [Alternative.slotsOption, writable_token] at h h'
        rw [Expr.eq_of_render next other h.2 h'.2 hfits.2 hfits'.2 heq]
termination_by structural alternative => alternative

theorem Expr.eq_of_renderTail : (tail other : Option (Expr Unit String)) →
    Writable (Expr.slotsOption id tail) → Writable (Expr.slotsOption id other) →
    (∀ value ∈ tail, value.Fits true) → (∀ value ∈ other, value.Fits true) →
    Expr.renderTail tail = Expr.renderTail other → tail = other
  | none, other, _, _, _, _, heq => by
      cases other <;> simp_all [Expr.renderTail]
  | some value, other, h, h', hfits, hfits', heq => by
      cases other <;> simp only [Expr.renderTail, List.cons.injEq, reduceCtorEq, and_true] at heq
      rename_i value'
      have hword := Expr.word_of_words h (Expr.words_word value h (hfits value rfl))
      have hword' := Expr.word_of_words h' (Expr.words_word value' h' (hfits' value' rfl))
      have hwords := listForm_inj (pair_words (.of_plain (by decide)) hword)
        (pair_words (.of_plain (by decide)) hword') heq
      simp only [List.cons.injEq, true_and, and_true] at hwords
      rw [Expr.eq_of_render value value' h h' (hfits value rfl) (hfits' value' rfl) hwords]
termination_by structural tail => tail

theorem Block.eq_of_render : (block other : Block Unit String) → Writable (block.slots id) →
    Writable (other.slots id) → block.Fits → other.Fits → block.render = other.render →
    block = other
  | ⟨statements, tail, span⟩, ⟨others, tail', span'⟩, h, h', hfits, hfits', heq => by
      obtain ⟨hstatements, htail⟩ := Block.parts_eq h h' hfits hfits' heq
      simp only [Block.slots, List.cons_append, writable_append, writable_token] at h h'
      obtain ⟨hparts, hvalue⟩ := Block.fits_parts hfits
      obtain ⟨hparts', hvalue'⟩ := Block.fits_parts hfits'
      rw [Statement.eq_of_renderList statements others h.2.1.1 h'.2.1.1 hparts hparts' hstatements,
        Expr.eq_of_renderTail tail tail' h.2.1.2 h'.2.1.2 hvalue hvalue' htail]
termination_by structural block => block

theorem Statement.eq_of_render {followed followed' : Bool} :
    (statement other : Statement Unit String) → Writable (statement.slots id) →
    Writable (other.slots id) → statement.Fits followed → other.Fits followed' →
    statement.render = other.render → statement = other
  | .import path span, other, h, h', hfits, hfits', heq => by
      have hwords := Statement.words_eq h h' hfits hfits' heq
      cases other with
      | «import» path' _ =>
          simp only [Statement.words, Statement.written, Written.words, List.cons.injEq, true_and,
            and_true] at hwords
          simp only [Statement.slots, ImportPath.declarationSlots, List.cons_append,
            writable_append, writable_token] at h h'
          rw [ImportPath.eq_of_render path path' h.2.1 h'.2.1 hfits hfits' hwords]
      | binding _ type _ _ =>
          cases type <;> simp [Statement.words, Statement.written, Written.words] at hwords
      | expr _ _ => simp [Statement.words, Statement.written, Written.words] at hwords
      | control value => exact absurd hwords.symm (Expr.words_ne rfl)
  | .binding name type value span, other, h, h', hfits, hfits', heq => by
      have hwords := Statement.words_eq h h' hfits hfits' heq
      cases other with
      | «import» path' _ =>
          cases type <;> simp [Statement.words, Statement.written, Written.words] at hwords
      | binding name' type' value' _ =>
          simp only [Statement.slots, List.cons_append, writable_append, writable_token] at h h'
          have hequal : name = name' ∧ type = type' ∧ value.render = value'.render := by
            cases type <;> cases type' <;> simp only [Statement.words, Statement.written,
              Written.words, List.cons.injEq, reduceCtorEq, true_and, and_true,
              and_false] at hwords
            case none.none =>
              exact ⟨Ident.eq_of_render h.2.1.1.1 h'.2.1.1.1 hwords.1, rfl, hwords.2⟩
            case some.some type type' =>
              simp only [TypeExpr.slotsAfter, writable_token] at h h'
              rw [TypeExpr.eq_of_render type type' h.2.1.1.2.2 h'.2.1.1.2.2 hwords.2.1]
              exact ⟨Ident.eq_of_render h.2.1.1.1 h'.2.1.1.1 hwords.1, rfl, hwords.2.2⟩
          obtain ⟨rfl, rfl, hvalue⟩ := hequal
          rw [Expr.eq_of_render value value' h.2.1.2.2 h'.2.1.2.2 hfits hfits' hvalue]
      | expr _ _ =>
          cases type <;> simp [Statement.words, Statement.written, Written.words] at hwords
      | control value => cases type <;> exact absurd hwords.symm (Expr.words_ne rfl)
  | .expr value span, other, h, h', hfits, hfits', heq => by
      have hwords := Statement.words_eq h h' hfits hfits' heq
      cases other with
      | «import» path' _ => simp [Statement.words, Statement.written, Written.words] at hwords
      | binding _ type _ _ =>
          cases type <;> simp [Statement.words, Statement.written, Written.words] at hwords
      | expr value' _ =>
          simp only [Statement.words, Statement.written, Written.words, List.cons.injEq, true_and,
            and_true] at hwords
          simp only [Statement.slots, writable_append] at h h'
          rw [Expr.eq_of_render value value' h.1 h'.1 hfits.2 hfits'.2 hwords]
      | control value => exact absurd hwords.symm (Expr.words_ne rfl)
  | .control value, other, h, h', hfits, hfits', heq => by
      have hwords := Statement.words_eq h h' hfits hfits' heq
      cases other with
      | «import» path' _ => exact absurd hwords (Expr.words_ne rfl)
      | binding _ type _ _ => cases type <;> exact absurd hwords (Expr.words_ne rfl)
      | expr value' _ => exact absurd hwords (Expr.words_ne rfl)
      | control value' => rw [Expr.eq_of_render value value' h h' hfits.2.2 hfits'.2.2 heq]
termination_by structural statement => statement

theorem Statement.eq_of_renderList {tail tail' : Bool} :
    (statements others : List (Statement Unit String)) →
    Writable (Statement.slotsList id statements) → Writable (Statement.slotsList id others) →
    Statement.FitsList tail statements → Statement.FitsList tail' others →
    Statement.renderList statements = Statement.renderList others → statements = others
  | [], others, _, _, _, _, heq => by
      cases others <;> simp_all [Statement.renderList]
  | statement :: rest, others, h, h', hfits, hfits', heq => by
      cases others <;> simp only [Statement.renderList, List.cons.injEq, reduceCtorEq] at heq
      simp only [Statement.slotsList, writable_append] at h h'
      rw [Statement.eq_of_render statement _ h.1 h'.1 hfits.1 hfits'.1 heq.1,
        Statement.eq_of_renderList rest _ h.2 h'.2 hfits.2 hfits'.2 heq.2]
termination_by structural statements => statements

/-- Whether an arm is the last one is not written. -/
theorem Arm.eq_of_render : (arm other : Arm Unit String) → arm.last = other.last →
    Writable (arm.slots id) → Writable (other.slots id) → arm.Fits → other.Fits →
    arm.render = other.render → arm = other
  | ⟨pattern, none, body, last, span⟩, ⟨pattern', guard', body', last', span'⟩, hlast, h, h',
      hfits, hfits', heq => by
      have hwords := Arm.words_eq h h' hfits hfits' heq
      cases guard' <;> simp only [Arm.words, List.cons.injEq, reduceCtorEq, true_and, and_true,
        and_false] at hwords
      simp only [Arm.slots, writable_append, writable_token] at h h'
      obtain rfl : last = last' := hlast
      rw [Pattern.eq_of_render h.1 h'.1 hwords.1,
        ArmBody.eq_of_render body body' h.2.2 h'.2.2 hfits hfits' hwords.2]
  | ⟨pattern, some guard, body, last, span⟩, ⟨pattern', guard', body', last', span'⟩, hlast, h,
      h', hfits, hfits', heq => by
      have hwords := Arm.words_eq h h' hfits hfits' heq
      cases guard' <;> simp only [Arm.words, List.cons.injEq, reduceCtorEq, true_and, and_true,
        and_false] at hwords
      simp only [Arm.slots, writable_append, writable_token] at h h'
      obtain rfl : last = last' := hlast
      rw [Pattern.eq_of_render h.1.1 h'.1.1 hwords.1,
        Expr.eq_of_render guard _ h.1.2.2 h'.1.2.2 hfits.1 hfits'.1 hwords.2.1,
        ArmBody.eq_of_render body body' h.2.2 h'.2.2 hfits.2 hfits'.2 hwords.2.2]
termination_by structural arm => arm

theorem Arm.eq_of_renderList : (arms others : List (Arm Unit String)) →
    Writable (Arm.slotsList id arms) → Writable (Arm.slotsList id others) → Arm.FitsList arms →
    Arm.FitsList others → Arm.renderList arms = Arm.renderList others → arms = others
  | [], others, _, _, _, _, heq => by
      cases others <;> simp_all [Arm.renderList]
  | arm :: rest, others, h, h', hfits, hfits', heq => by
      cases others <;> simp only [Arm.renderList, List.cons.injEq, reduceCtorEq] at heq
      simp only [Arm.slotsList, writable_append, writable_separator] at h h'
      obtain rfl := Arm.eq_of_renderList rest _ h.2 h'.2 hfits.2.2 hfits'.2.2 heq.2
      rw [Arm.eq_of_render arm _ (hfits.1.trans hfits'.1.symm) h.1 h'.1 hfits.2.1 hfits'.2.1 heq.1]
termination_by structural arms => arms

theorem ArmBody.eq_of_render : (body other : ArmBody Unit String) → Writable (body.slots id) →
    Writable (other.slots id) → body.Fits → other.Fits → body.render = other.render → body = other
  | .block body, other, h, h', hfits, hfits', heq => by
      rcases other with other | value
      · rw [Block.eq_of_render body other h h' hfits hfits' heq]
      · exact absurd heq (Block.render_ne h h' hfits hfits'.2)
  | .expr value, other, h, h', hfits, hfits', heq => by
      rcases other with body | other
      · exact absurd heq.symm (Block.render_ne h' h hfits' hfits.2)
      · rw [Expr.eq_of_render value other h h' hfits.2 hfits'.2 heq]
termination_by structural body => body

end

end FilterScript
